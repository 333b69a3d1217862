import SeismicHazard.Proofs.Calculation.Run

/-!
# Tasks that keep their arrangements

A task that keeps its arrangements has the same results as one that makes each of them again, and fails
in the same way, whatever the fingerprints are.

* `Task.collect_withFixedLevels`: what a task collects does not depend on whether its levels are given.
* `Task.computeWith_withFixedLevels`: nor do its results, or its failure.
* `Task.kept_as_made`: any calls of a cache, and tasks with and without one.
-/

namespace SeismicHazard

namespace Task

variable {α : Type} [Field α] [LinearOrder α] [FloorRing α]

variable [Elementary α]

/-- The task with its levels given or not. -/
def withFixedLevels (t : Task α) (fixed : Bool) : Task α :=
  { t with setting := { t.setting with fixedLevels := fixed } }

theorem addPnes_withFixedLevels (t : Task α) (fixed : Bool) (source : Source α) (r : Rupture α)
    (s : Scenario α) (i : ℕ) (memo : List (Remembered α)) (targets : List (Target α × Option α))
    (data : SiteData α) : (t.withFixedLevels fixed).addPnes source r s i memo targets data =
      t.addPnes source r s i memo targets data := by
  induction targets generalizing i memo data with
  | nil => rfl
  | cons tl targets ih =>
    obtain ⟨target, _ | level⟩ := tl
    · exact ih _ _ _
    · simp only [addPnes, ih]
      rfl

/-- What a task collects does not depend on whether its levels are given. -/
theorem collect_withFixedLevels (t : Task α) (fixed : Bool) :
    (t.withFixedLevels fixed).collect = t.collect := by
  have hrupture : (t.withFixedLevels fixed).addRupture = t.addRupture := by
    funext source region r found site
    simp only [addRupture, addPnes_withFixedLevels]
    rfl
  have hsource : (t.withFixedLevels fixed).addSource = t.addSource := by
    funext found source
    simp only [addSource, hrupture]
    rfl
  simp only [collect, hsource]
  rfl

omit [Elementary α] in
theorem addMade_withFixedLevels (t : Task α) (fixed : Bool) (site : ℕ)
    (make : List α → Except (Error α) (Marginals α))
    (targets : List ((Target α × Option α) × List α)) (r : Results α) :
    (t.withFixedLevels fixed).addMade site make targets r = t.addMade site make targets r := by
  induction targets generalizing r with
  | nil => rfl
  | cons x targets ih =>
    obtain ⟨⟨target, _ | level⟩, pnes⟩ := x
    · exact ih r
    · simp only [addMade, ih]
      rfl

variable [BitPattern α] {φ : Type} [BEq φ] [LawfulBEq φ]

/-- The results of a task do not depend on whether arrangements are kept, nor on how they are found. -/
theorem computeWith_withFixedLevels (t : Task α) (fixed : Bool) (print : List α → φ) :
    (t.withFixedLevels fixed).computeWith print = t.compute := by
  have hsite : ∀ (r : Results α) (site : ℕ) (data : SiteData α),
      (t.withFixedLevels fixed).addSite print r site data = t.addSite fingerprint r site data := by
    intro r site data
    have hgrids : (t.withFixedLevels fixed).setting.grids = t.setting.grids := rfl
    have hlevels : (t.withFixedLevels fixed).work.levels = t.work.levels := rfl
    cases hg : t.setting.grids[site]? with
    | none => simp only [addSite, hgrids, hg]
    | some g =>
      cases hl : t.work.levels[site]? with
      | none => simp only [addSite, hgrids, hlevels, hg, hl]
      | some levels =>
        rw [addSite_eq print r data (hgrids ▸ hg) (hlevels ▸ hl), addMade_withFixedLevels,
          addSite_eq fingerprint r data hg hl]
        rfl
  simp only [compute, computeWith, collect_withFixedLevels, hsite]
  rfl

/-- Arrangements that are kept are as good as new ones, whatever the fingerprints are. Every call gets
what would be made of the probabilities at its place. Something is made unless an earlier call for equal
probabilities succeeded, so nothing is made twice unless it failed. A failure leaves the number of kept
arrangements as it is, and that is the number of different lists that were asked for with success. So a
task has the same results, or the same failure, if its levels are given and if they are not. -/
theorem kept_as_made (print : List α → φ) :
    (∀ (make : List α → Except (Error α) (Marginals α)) (arrays : List (List α))
      (calls : List (Fin arrays.length)),
      let done := ArrangementCache.serve print make arrays calls
      done.answers = calls.map (fun i => make (arrays.get i)) ∧
      done.cache.size =
        ((calls.map fun i => arrays.get i).filter fun xs => (make xs).toBool).dedup.length ∧
      ∀ i : Fin arrays.length,
        let next := ArrangementCache.serve print make arrays (calls ++ [i])
        let met := ∃ j ∈ calls, arrays.get j = arrays.get i ∧ (make (arrays.get i)).toBool = true
        (met → next.passed = done.passed) ∧ (¬ met → next.passed = done.passed ++ [arrays.get i]) ∧
        ((make (arrays.get i)).toBool = false → next.cache.size = done.cache.size)) ∧
    ∀ (t : Task α) (fixed : Bool), (t.withFixedLevels fixed).computeWith print = t.compute := by
  refine ⟨fun make arrays calls => ?_, fun t fixed => computeWith_withFixedLevels t fixed print⟩
  have hknows : ArrangementCache.Knows print make arrays calls _ :=
    ArrangementCache.serve_knows calls
  refine ⟨hknows.answers, hknows.size, fun i => ⟨fun hmet => ?_, fun hmet => ?_, fun hfailed => ?_⟩⟩
  · rw [ArrangementCache.serve_append_singleton]
    exact (hknows.step_met hmet).2
  · rw [ArrangementCache.serve_append_singleton]
    exact (hknows.step_not_met hmet).2
  · have hnext : ArrangementCache.Knows print make arrays (calls ++ [i]) _ :=
      ArrangementCache.serve_knows (calls ++ [i])
    rw [hnext.size, hknows.size, ArrangementCache.succeeded_of_failed calls hfailed]

section

open Calculation.Sample

/-- Lists of probabilities of which two are equal. -/
def someArrays : List (List ℚ) := [[1 / 2], [1 / 3], [1 / 2], [1 / 4]]

/-- The lists in order, the last one twice. -/
def someCalls : List (Fin someArrays.length) := ([0, 1, 2, 3, 3] : List (Fin 4))

/-- An arrangement in one cell, of everything but the last list. -/
def makeSome (xs : List ℚ) : Except (Error ℚ) (Marginals ℚ) :=
  if xs = [1 / 4] then .error (.shape "cells" [2] [1])
  else .ok ⟨[(.mag, Tensor.fill [1] xs.sum)]⟩

/-- All fingerprints collide. The list that comes again is not passed on again, the one that fails is,
and is not kept. -/
theorem kept_as_made_colliding :
    (ArrangementCache.serve (fun _ => ()) makeSome someArrays someCalls).answers =
        [makeSome [1 / 2], makeSome [1 / 3], makeSome [1 / 2], makeSome [1 / 4],
          makeSome [1 / 4]] ∧
      (ArrangementCache.serve (fun _ => ()) makeSome someArrays someCalls).passed =
        [[1 / 2], [1 / 3], [1 / 4], [1 / 4]] ∧
      (ArrangementCache.serve (fun _ => ()) makeSome someArrays someCalls).cache.size = 2 ∧
      task.compute.toBool = true ∧
      (task.withFixedLevels false).computeWith (fun _ => ()) = task.compute := by
  have h := kept_as_made fun _ : List ℚ => ()
  refine ⟨(h.1 makeSome someArrays someCalls).1, ?_, ?_, ?_, h.2 task false⟩
  · decide +kernel
  · exact (h.1 makeSome someArrays someCalls).2.1.trans (by decide +kernel)
  · decide +kernel

end

end Task

end SeismicHazard
