import SeismicHazard.Proofs.Arrangement.Cache
import SeismicHazard.Proofs.Number.Exact
import SeismicHazard.Task.Computation

/-!
# Targets whose arrangements are kept

A task that keeps arrangements adds the same to its results as one that makes each of them anew.

* `Task.marginalsOf_eq_make`: keeping arrangements does not change them.
* `Task.addMade`: the targets of a site, each with an arrangement of its own.
* `Task.addTargets_eq`, `Task.addSite_eq`: what is added to the results.
-/

namespace SeismicHazard.Task

variable {α : Type} [Field α] [LinearOrder α] [FloorRing α] {t : Task α} {site : ℕ}
  {make : List α → Except (Error α) (Marginals α)}

/-- The results with those of several targets, each of which is arranged anew. -/
def addMade (t : Task α) (site : ℕ) (make : List α → Except (Error α) (Marginals α)) :
    List ((Target α × Option α) × List α) → Results α → Except (Error α) (Results α)
  | [], results => .ok results
  | ((_, none), _) :: rest, results => addMade t site make rest results
  | ((target, some level), pnes) :: rest, results => do
    match results.add (t.key site target level) (← make pnes) with
    | (results, none) => addMade t site make rest results
    | (_, some e) => .error e

section

variable {φ : Type} [BEq φ] [LawfulBEq φ] (print : List α → φ) {arrays : List (List α)}
  {cache : ArrangementCache φ α arrays.length}

/-- Keeping arrangements does not change them. -/
theorem marginalsOf_eq_make (hcache : cache.Faithful make) (i : Fin arrays.length) :
    (t.marginalsOf print make arrays i cache).1 = make (arrays.get i) ∧
      (t.marginalsOf print make arrays i cache).2.Faithful make := by
  unfold marginalsOf
  split
  · exact ArrangementCache.getOrArrange_eq_make hcache print i
  · exact ⟨rfl, hcache⟩

theorem addTargets_eq (hcache : cache.Faithful make)
    (targets : List ((Target α × Option α) × Fin arrays.length)) (r : Results α) :
    t.addTargets print site make arrays targets cache r =
      t.addMade site make (targets.map fun x => (x.1, arrays.get x.2)) r := by
  induction targets generalizing r cache with
  | nil => rfl
  | cons x targets ih =>
    obtain ⟨⟨target, _ | level⟩, i⟩ := x
    · exact ih hcache r
    · obtain ⟨hmade, hkept⟩ := marginalsOf_eq_make (t := t) print hcache i
      simp only [addTargets, List.map_cons, addMade, hmade]
      refine congrArg (make (arrays.get i) >>= ·) (funext fun m => ?_)
      rcases r.add (t.key site target level) m with ⟨r₁, _ | e⟩
      · exact ih hkept r₁
      · rfl

/-- A site adds to the results what its targets add one by one. -/
theorem addSite_eq [Elementary α] (r : Results α) (data : SiteData α) {g : Grid α}
    (hg : t.setting.grids[site]? = some g) {levels : List (Option α)}
    (hlevels : t.work.levels[site]? = some levels) :
    t.addSite print r site data =
      t.addMade site
        (arrange site g t.setting.regions.length t.setting.marginals data.ruptures)
        ((t.leveled levels).zip data.pnes) r := by
  have harrays : (List.finRange data.pnes.length).map (fun i => data.pnes[i]) = data.pnes :=
    List.map_getElem_finRange _
  have hzip : ((t.leveled levels).zip (List.finRange data.pnes.length)).map
      (fun x => (x.1, data.pnes[x.2])) = (t.leveled levels).zip data.pnes :=
    List.zip_map_right.symm.trans (congrArg ((t.leveled levels).zip ·) harrays)
  unfold addSite
  rw [hg, hlevels, ← hzip]
  exact addTargets_eq print (ArrangementCache.keeps_empty _) _ r

end

end SeismicHazard.Task
