import SeismicHazard.Proofs.Task.Arrangements
import SeismicHazard.Proofs.Task.Contributions

/-!
# The results of a task

The results of a task gather what the sightings of its sources contribute, target by target at every
site and site by site.

* `Task.addMade_gathers`, `Task.fits_of_addMade`: the targets at one site.
* `Task.addSite_gathers`: one site.
* `Task.compute_gathers`, `Task.feasible_of_compute`: a task succeeds exactly if all its sources are
  feasible, and then its results gather their contributions.
-/

namespace SeismicHazard

section

variable {α : Type} [Field α] [LinearOrder α] [FloorRing α] [Elementary α]

namespace Task

variable {t : Task α} {site : Nat} {g : Grid α} {vs : List (Sighting α)} {r r' : Results α}
  {C : Contributions α}

/-! ### The targets at a site -/

/-- The targets with the probabilities for the given sightings, rupture by rupture. -/
def asked (t : Task α) (vs : List (Sighting α)) (targets : List (Target α × Option α)) :
    List ((Target α × Option α) × List α) :=
  targets.map fun tl => (tl, vs.flatMap fun v => t.work.pnes t.setting v tl)

/-- The arrangement of the given sightings. -/
def arrangeSeen (t : Task α) (site : Nat) (g : Grid α) (vs : List (Sighting α)) :
    List α → Except (Error α) (Marginals α) :=
  arrange site g t.setting.regions.length t.setting.marginals (vs.map (·.seen))

theorem arrangeSeen_eq (site : Nat) (vs : List (Sighting α)) (tl : Target α × Option α)
    (h : ∀ v ∈ vs, (t.work.contribution t.setting v tl).Fits g t.setting.regions.length) :
    t.arrangeSeen site g vs (vs.flatMap fun v => t.work.pnes t.setting v tl) =
      .ok (t.setting.gather g (vs.map fun v => t.work.contribution t.setting v tl : List _)) := by
  have hcs : ∀ c ∈ vs.map fun v => t.work.contribution t.setting v tl,
      c.Fits g t.setting.regions.length := by
    intro c hc
    obtain ⟨v, hv, rfl⟩ := List.mem_map.1 hc
    exact h v hv
  have harrange := arrange_eq site hcs t.setting.marginals
  rw [List.map_map, List.flatMap_map] at harrange
  exact harrange

/-- The results with those of several targets, if all sightings lie within the edges. -/
theorem addMade_gathers (hne : vs ≠ []) (hg : t.setting.grids[site]? = some g)
    (hsite : ∀ v ∈ vs, v.site.id = site) {targets : List (Target α × Option α)}
    (hfits : ∀ tl ∈ targets, tl.2.isSome → ∀ v ∈ vs,
      (t.work.contribution t.setting v tl).Fits g t.setting.regions.length)
    (h : r.Gathers t.setting C) :
    ∃ r', t.addMade site (t.arrangeSeen site g vs) (t.asked vs targets) r = .ok r' ∧
      r'.Gathers t.setting fun k =>
        C k + (vs : Multiset _).bind fun v => t.work.contributionsTo t.setting v targets k := by
  induction targets generalizing r C with
  | nil => exact ⟨r, rfl, h.congr fun k => by simp [WorkGroup.contributionsTo]⟩
  | cons tl targets ih =>
    have hrest : ∀ tl ∈ targets, tl.2.isSome → ∀ v ∈ vs,
        (t.work.contribution t.setting v tl).Fits g t.setting.regions.length :=
      fun tl htl => hfits tl (List.mem_cons_of_mem _ htl)
    obtain ⟨target, _ | level⟩ := tl
    · obtain ⟨r', hr', h'⟩ := ih hrest h
      exact ⟨r', hr', h'.congr fun k => by simp [WorkGroup.contributionsTo, Setting.key?]⟩
    · set cs : List (Contribution α) :=
        vs.map fun v => t.work.contribution t.setting v (target, some level)
      have hcs : ∀ c ∈ (cs : Multiset (Contribution α)), c.Fits g t.setting.regions.length := by
        intro c hc
        obtain ⟨v, hv, rfl⟩ := List.mem_map.1 (Multiset.mem_coe.1 hc)
        exact hfits _ List.mem_cons_self rfl v hv
      have hmake := arrangeSeen_eq site vs (target, some level)
        (hfits _ List.mem_cons_self rfl)
      have hcsne : (cs : Multiset (Contribution α)) ≠ 0 := by
        simpa [cs] using hne
      have hgrid : t.setting.grids[(t.key site target level).site]? = some g := hg
      obtain ⟨r₁, hadd, h₁⟩ := h.add hgrid hcsne hcs
      obtain ⟨r', hr', h'⟩ := ih hrest h₁
      refine ⟨r', ?_, h'.congr fun k => ?_⟩
      · rw [asked, List.map_cons, addMade, hmake]
        simp only [bind, Except.bind, cs] at hadd ⊢
        rw [hadd]
        exact hr'
      · have hcons : ∀ v ∈ (vs : Multiset (Sighting α)),
            t.work.contributionsTo t.setting v ((target, some level) :: targets) k =
            (if t.key site target level = k then
              {t.work.contribution t.setting v (target, some level)} else 0) +
            t.work.contributionsTo t.setting v targets k := by
          intro v hv
          have hkey : t.setting.key? v.site.id (target, some level) =
              some (t.key site target level) := by
            rw [hsite v (Multiset.mem_coe.1 hv)]
            rfl
          simp only [WorkGroup.contributionsTo_cons, hkey, Option.some.injEq]
        rw [Multiset.bind_congr hcons, Multiset.bind_add, ← add_assoc, Pi.add_apply]
        by_cases hk : t.key site target level = k
        · subst hk
          simp [cs, Multiset.bind_singleton]
        · rw [Pi.single_eq_of_ne (Ne.symm hk)]
          simp [hk]

/-- Targets at a site have results only if all sightings lie within the edges. -/
theorem fits_of_addMade {targets : List (Target α × Option α)}
    (hlength : ∀ tl ∈ targets, ∀ v ∈ vs, (t.work.pnes t.setting v tl).length = g.epsilonBins)
    (h : t.addMade site (t.arrangeSeen site g vs) (t.asked vs targets) r = .ok r') :
    ∀ tl ∈ targets, tl.2.isSome → ∀ v ∈ vs,
      (t.work.contribution t.setting v tl).Fits g t.setting.regions.length := by
  induction targets generalizing r with
  | nil => exact fun tl htl => absurd htl List.not_mem_nil
  | cons tl targets ih =>
    have hrest : ∀ tl ∈ targets, ∀ v ∈ vs,
        (t.work.pnes t.setting v tl).length = g.epsilonBins :=
      fun tl htl => hlength tl (List.mem_cons_of_mem _ htl)
    obtain ⟨target, _ | level⟩ := tl
    · intro tl htl hlevel
      rcases List.mem_cons.1 htl with rfl | htl
      · cases hlevel
      · exact ih hrest h tl htl hlevel
    · rw [asked, List.map_cons, addMade, Fallible.bind_eq_ok] at h
      obtain ⟨marginals, hmake, h⟩ := h
      have hcs : ∀ c ∈ vs.map fun v => t.work.contribution t.setting v (target, some level),
          c.Fits g t.setting.regions.length := by
        refine (exists_arrange_iff site ?_ t.setting.marginals).1 ⟨marginals, ?_⟩
        · intro c hc
          obtain ⟨v, hv, rfl⟩ := List.mem_map.1 hc
          exact hlength _ List.mem_cons_self v hv
        · rw [List.map_map, List.flatMap_map]
          exact hmake
      intro tl htl hlevel v hv
      rcases List.mem_cons.1 htl with rfl | htl
      · exact hcs _ (List.mem_map_of_mem hv)
      · split at h
        · exact ih hrest h tl htl hlevel v hv
        · cases h

/-- The work on a site is that on its targets. -/
theorem addSite_dataAt {φ : Type} [BEq φ] [LawfulBEq φ] (print : List α → φ)
    (hg : t.setting.grids[site]? = some g) {levels : List (Option α)}
    (hlevels : t.work.levels[site]? = some levels) :
    t.addSite print r site (t.dataAt site) =
      t.addMade site (t.arrangeSeen site g (t.sightingsAt site))
        (t.asked (t.sightingsAt site) (t.work.leveled levels)) r := by
  have hpnes : (t.dataAt site).pnes = (t.work.leveled levels).map fun tl =>
      (t.sightingsAt site).flatMap fun v => t.work.pnes t.setting v tl := by
    apply List.ext_getElem
    · simp [dataAt, WorkGroup.columns, WorkGroup.leveled]
    · intro i _ _
      simp only [dataAt, WorkGroup.columns, WorkGroup.leveled, List.getElem_mapIdx, List.getElem_map]
      refine List.flatMap_congr fun v hv => ?_
      have hsame : v.levels = levels := levels_eq_of_mem_sightingsAt hlevels hv
      rw [hsame]
  have hzip : (t.leveled levels).zip (t.dataAt site).pnes =
      t.asked (t.sightingsAt site) (t.work.leveled levels) := by
    have h := @List.zip_map' _ _ _ id (fun tl => (t.sightingsAt site).flatMap
      fun v => t.work.pnes t.setting v tl) (t.work.leveled levels)
    rw [List.map_id] at h
    rw [hpnes]
    exact h
  have hruptures : (t.dataAt site).ruptures = (t.sightingsAt site).map (·.seen) :=
    WorkGroup.ruptures_columns _
  rw [addSite_eq print r (t.dataAt site) hg hlevels, hzip, hruptures]
  rfl

/-! ### The task as a whole -/

variable [BitPattern α]

/-- The results with those of one more site, if all sources are feasible. -/
theorem addSite_gathers (hshared : t.setting.SharesEpsilon)
    (h : ∀ s ∈ t.work.sources, t.work.Feasible t.setting s) (hne : t.sightingsAt site ≠ [])
    (hr : r.Gathers t.setting C) :
    ∃ r', t.addSite fingerprint r site (t.dataAt site) = .ok r' ∧ r'.Gathers t.setting fun k =>
      C k + if k.site = site then t.contributions k else 0 := by
  obtain ⟨v₀, hv₀⟩ := List.exists_mem_of_ne_nil _ hne
  obtain ⟨⟨g, hg⟩, hlevels⟩ := levels_of_mem_sightingsAt hv₀
  have hsame : ∀ v ∈ t.sightingsAt site, v.levels = v₀.levels := fun v hv =>
    levels_eq_of_mem_sightingsAt hlevels hv
  have hsite : ∀ v ∈ t.sightingsAt site, v.site.id = site := fun v hv => (mem_sightingsAt.1 hv).2
  have hfits : ∀ tl ∈ t.work.leveled v₀.levels, tl.2.isSome → ∀ v ∈ t.sightingsAt site,
      (t.work.contribution t.setting v tl).Fits g t.setting.regions.length := by
    intro tl htl hlevel v hv
    obtain ⟨⟨s, hs, hvs⟩, hid⟩ := mem_sightingsAt.1 hv
    exact fits_of_feasible (h s hs) hshared hvs (hid ▸ hg) (hsame v hv ▸ htl) hlevel
  obtain ⟨r', hadd, h'⟩ := addMade_gathers hne hg hsite hfits hr
  refine ⟨r', ?_, h'.congr fun k => ?_⟩
  · rw [addSite_dataAt fingerprint hg hlevels]
    exact hadd
  · congr 1
    split
    · next hk =>
      subst hk
      rw [contributions_eq]
      refine Multiset.bind_congr fun v hv => ?_
      rw [WorkGroup.contributionsOf, hsame v (Multiset.mem_coe.1 hv)]
    · next hk =>
      rw [← Multiset.bind_zero]
      refine Multiset.bind_congr fun v hv => WorkGroup.contributionsTo_of_ne ?_
      rw [hsite v (Multiset.mem_coe.1 hv)]
      exact Ne.symm hk

/-- A task all of whose sources are feasible succeeds, and its results gather what they
contribute. -/
theorem compute_gathers (hshared : t.setting.SharesEpsilon)
    (h : ∀ s ∈ t.work.sources, t.work.Feasible t.setting s) :
    ∃ p, t.compute = .ok p ∧ p.results.Gathers t.setting t.contributions := by
  obtain ⟨data, hdata⟩ := exists_collect_iff.2 fun s hs => ⟨(h s hs).region, (h s hs).answered⟩
  have hdistinct : (data.toList.map (·.1)).Nodup := by
    rw [Std.TreeMap.map_fst_toList_eq_keys]
    exact Std.TreeMap.nodup_keys
  -- the sites that are done have all of their results, the others have none
  let gathered (done : List (Nat × SiteData α)) (r : Results α) : Prop :=
    r.Gathers t.setting fun k => if k.site ∈ done.map (·.1) then t.contributions k else 0
  have hstart : gathered [] ∅ := (Results.Gathers.empty t.setting).congr fun k => by simp
  have hstep : ∀ done x rest r, done ++ x :: rest = data.toList → gathered done r →
      ∃ r', t.addSite fingerprint r x.1 x.2 = .ok r' ∧ gathered (done ++ [x]) r' := by
    rintro done ⟨site, d⟩ rest r hdone hr
    have hmem : (site, d) ∈ data.toList := by
      rw [← hdone]
      exact List.mem_append_right _ List.mem_cons_self
    obtain ⟨hne, rfl⟩ := (mem_toList_collect hdata).1 hmem
    obtain ⟨r', hadd, h'⟩ := addSite_gathers hshared h hne hr
    refine ⟨r', hadd, h'.congr fun k => ?_⟩
    have hnew : site ∉ done.map (·.1) := by
      rw [← hdone, List.map_append, List.nodup_append] at hdistinct
      intro hin
      exact hdistinct.2.2 site hin site List.mem_cons_self rfl
    by_cases hk : k.site = site
    · rw [if_neg (hk ▸ hnew), zero_add, if_pos hk, if_pos (by simp [hk])]
    · simp only [hk, if_false, add_zero, List.map_append, List.map_cons, List.map_nil,
        List.mem_append, List.mem_singleton, or_false]
  obtain ⟨r', hfold, hend⟩ := Fallible.foldlM_keeps hstart hstep
  refine ⟨⟨t.number, r'⟩, ?_, hend.congr fun k => ?_⟩
  · exact Fallible.bind_eq_ok.2 ⟨data, hdata, Fallible.bind_eq_ok.2 ⟨r', hfold, rfl⟩⟩
  · split
    · rfl
    · next hk =>
      have hnone : t.sightingsAt k.site = [] := by
        by_contra hne
        exact hk (List.mem_map.2 ⟨_, (mem_toList_collect hdata).2 ⟨hne, rfl⟩, rfl⟩)
      rw [contributions_eq, hnone]
      rfl

/-- A task succeeds only if all of its sources are feasible. -/
theorem feasible_of_compute (hshared : t.setting.SharesEpsilon) {p : PartialResult α}
    (h : t.compute = .ok p) : ∀ s ∈ t.work.sources, t.work.Feasible t.setting s := by
  obtain ⟨data, hdata, h⟩ := Fallible.bind_eq_ok.1 h
  obtain ⟨r', hfold, -⟩ := Fallible.bind_eq_ok.1 h
  have hcollected := exists_collect_iff.1 ⟨data, hdata⟩
  have hsites := Fallible.exists_of_foldlM_eq_ok hfold
  intro s hs
  refine ⟨(hcollected s hs).1, (hcollected s hs).2, fun v hv tl htl hlevel g hg => ?_⟩
  have hat : v ∈ t.sightingsAt v.site.id := mem_sightingsAt.2 ⟨⟨s, hs, hv⟩, rfl⟩
  have hmem := (mem_toList_collect hdata).2 ⟨List.ne_nil_of_mem hat, rfl⟩
  obtain ⟨r₁, r₂, hadd⟩ := hsites _ hmem
  simp only at hadd
  have hlevels := (levels_of_mem_sightingsAt hat).2
  rw [addSite_dataAt fingerprint hg hlevels] at hadd
  refine (fits_of_addMade ?_ hadd tl htl hlevel v hat).placed
  intro tl htl u hu
  obtain ⟨⟨s', hs', hus⟩, hid⟩ := mem_sightingsAt.1 hu
  have hsame := levels_eq_of_mem_sightingsAt hlevels hu
  rw [WorkGroup.length_pnes ((hcollected s' hs').2 u hus) (hsame ▸ htl), hshared _ _ hg]

end Task

end

end SeismicHazard
