import SeismicHazard.Proofs.Calculation.Run
import SeismicHazard.Proofs.Result.Merging
import SeismicHazard.Proofs.Target

/-!
# What the results of a calculation are about

Every result of a calculation is about a site with a grid and about the level that is asked for there, and
has the views that are asked for. This holds of any numbers, also of those that round, since it is
said without them. It follows that no two results of a site share threshold, realization and intensity
measure type.

* `Results.Answers`: whether all results are about something that is asked for.
* `Task.answers_of_compute`: the results of a task.
* `Calculation.EndsWith`: the outcomes of a calculation, for any numbers.
* `Calculation.Requests`: what a configuration asks for.
* `Calculation.EndsWith.requests`: the results of a calculation are about nothing else.
* `Calculation.Requests.eq`: what two results of a site cannot share.
-/

namespace SeismicHazard

open Std (TreeMap)

section

variable {α : Type}

/-- The kinds of the views. -/
def Marginals.kinds (m : Marginals α) : List Marginal := m.layout.map (·.1)

theorem Marginals.kinds_eq (m : Marginals α) : m.kinds = m.views.map (·.1) := by
  rw [kinds, layout, List.map_map]
  rfl

/-! ### Results -/

variable [TotalOrder α]

/-- Whether all results are about something that is asked for, with views of the kinds asked for there. -/
def Results.Answers (r : Results α) (Asked : ResultKey α → List Marginal → Prop) : Prop :=
  ∀ k m, r[k]? = some m → Asked k m.kinds

namespace Results.Answers

variable {r : Results α} {A B : ResultKey α → List Marginal → Prop} {k : ResultKey α}
  {m : Marginals α} {entries : List (ResultKey α × Marginals α)}

theorem imp (h : r.Answers A) (hAB : ∀ k kinds, A k kinds → B k kinds) : r.Answers B :=
  fun k m hm => hAB k m.kinds (h k m hm)

variable [Scalar α] [Std.TransCmp (TotalOrder.cmp : α → α → Ordering)]
  [Std.LawfulEqCmp (TotalOrder.cmp : α → α → Ordering)]

omit [Scalar α] [Std.LawfulEqCmp (TotalOrder.cmp : α → α → Ordering)] in
theorem empty : (∅ : Results α).Answers A := by
  intro k m hm
  rw [TreeMap.getElem?_emptyc] at hm
  cases hm

/-- A result that is combined with another one keeps the kinds of its views. -/
theorem add (h : r.Answers A) (hm : A k m.kinds) : (r.add k m).1.Answers A := by
  intro key n hn
  by_cases hkey : key = k
  · subst hkey
    unfold Results.add at hn
    cases hfound : r[key]? with
    | none =>
      rw [hfound, TreeMap.getElem?_insert_self] at hn
      cases hn
      exact hm
    | some found =>
      rw [hfound, TreeMap.getElem?_insert_self] at hn
      cases hn
      rw [Marginals.kinds, Marginals.layout_combine]
      exact h key found hfound
  · rw [getElem?_add_of_ne m hkey] at hn
    exact h key n hn

theorem addAll (h : r.Answers A) (hentries : ∀ e ∈ entries, A e.1 e.2.kinds) :
    (r.addAll entries).1.Answers A := by
  induction entries generalizing r with
  | nil => exact h
  | cons e entries ih =>
    obtain ⟨key, m⟩ := e
    rw [List.forall_mem_cons] at hentries
    have hadd := h.add hentries.1
    rw [Results.addAll]
    rcases hresult : r.add key m with ⟨r', failure⟩
    rw [hresult] at hadd
    cases failure with
    | some e => exact hadd
    | none => exact ih hadd hentries.2

theorem merge {done : Reduction α} {p : PartialResult α} (h : done.results.Answers A)
    (hp : p.results.Answers A) : (done.merge p).1.results.Answers A := by
  rw [Reduction.results_merge]
  refine h.addAll fun e he => ?_
  exact hp e.1 e.2 (TreeMap.mem_toList_iff_getElem?_eq_some.1 he)

end Results.Answers

end

/-! ### Tasks -/

section

variable {α : Type} [Scalar α]

theorem kinds_of_arrange {site : ℕ} {g : Grid α} {numRegions : ℕ} {kinds : List Marginal}
    {ruptures : List (SiteRupture α)} {pnes : List α} {m : Marginals α}
    (h : arrange site g numRegions kinds ruptures pnes = .ok m) : m.kinds = kinds := by
  obtain ⟨joint, -, h⟩ := Fallible.bind_eq_ok.1 h
  cases h
  rw [Marginals.kinds_eq, Marginals.ofJoint, List.map_map]
  exact List.map_id kinds

namespace Task

variable [Elementary α] [TotalOrder α] [BitPattern α] {t : Task α} {site : ℕ}
  {make : List α → Except (Error α) (Marginals α)} {kinds : List Marginal}

/-- What a task is asked: the levels of its targets at the sites that have a grid. -/
structure Asks (t : Task α) (k : ResultKey α) (kinds : List Marginal) : Prop where
  grid : ∃ g, t.setting.grids[k.site]? = some g
  level : ∃ levels, t.work.levels[k.site]? = some levels ∧ ∃ model,
    (⟨k.poe, model, k.imt, k.realization⟩, some k.level) ∈ t.work.leveled levels
  regions : k.regions = t.setting.regions
  kinds : kinds = t.setting.marginals

variable [Std.TransCmp (TotalOrder.cmp : α → α → Ordering)]
  [Std.LawfulEqCmp (TotalOrder.cmp : α → α → Ordering)] {r r' : Results α}
  {A : ResultKey α → List Marginal → Prop}

section

variable {φ : Type} [BEq φ] [LawfulBEq φ] {print : List α → φ}

omit [Elementary α] [BitPattern α] in
/-- Arrangements that are kept are of the same kinds as new ones. -/
theorem answers_of_addTargets {arrays : List (List α)}
    (hmake : ∀ pnes m, make pnes = .ok m → m.kinds = kinds)
    {targets : List ((Target α × Option α) × Fin arrays.length)}
    (htargets : ∀ x ∈ targets, ∀ level, x.1.2 = some level → A (t.key site x.1.1 level) kinds)
    {cache : ArrangementCache φ α arrays.length} (hcache : cache.Keeps fun _ m => m.kinds = kinds)
    (h : r.Answers A) (hr : t.addTargets print site make arrays targets cache r = .ok r') :
    r'.Answers A := by
  induction targets generalizing r cache with
  | nil =>
    cases hr
    exact h
  | cons x targets ih =>
    rw [List.forall_mem_cons] at htargets
    obtain ⟨⟨target, _ | level⟩, i⟩ := x
    · exact ih htargets.2 hcache h hr
    · have hkept : (∀ m, (t.marginalsOf print make arrays i cache).1 = .ok m → m.kinds = kinds) ∧
          (t.marginalsOf print make arrays i cache).2.Keeps fun _ m => m.kinds = kinds := by
        unfold marginalsOf
        split
        · have hkeeps := ArrangementCache.getOrArrange_keeps hcache print (hmake (arrays.get i))
          exact ⟨fun m hm => (hkeeps.1 m hm).choose_spec, hkeeps.2⟩
        · exact ⟨hmake (arrays.get i), hcache⟩
      obtain ⟨m, hm, hr⟩ := Fallible.bind_eq_ok.1 hr
      have hadd := h.add (k := t.key site target level) (m := m)
        (hkept.1 m hm ▸ htargets.1 level rfl)
      rcases hresult : r.add (t.key site target level) m with ⟨r₁, failure⟩
      simp only [hresult] at hr hadd
      cases failure with
      | some e => cases hr
      | none => exact ih htargets.2 hkept.2 hadd hr

omit [Elementary α] [BitPattern α] in
theorem answers_of_addSite {data : SiteData α} (h : r.Answers t.Asks)
    (hr : t.addSite print r site data = .ok r') : r'.Answers t.Asks := by
  unfold addSite at hr
  split at hr
  · next grid levels hgrid hlevels =>
    have hmake : ∀ pnes m, arrange site grid t.setting.regions.length t.setting.marginals
        data.ruptures pnes = .ok m → m.kinds = t.setting.marginals := fun _ _ hm =>
      kinds_of_arrange hm
    refine answers_of_addTargets hmake ?_ (ArrangementCache.keeps_empty _) h hr
    intro x hx level hlevel
    obtain ⟨⟨target, _⟩, i⟩ := x
    cases hlevel
    exact ⟨⟨grid, hgrid⟩, ⟨levels, hlevels, target.model, (List.of_mem_zip hx).1⟩, rfl, rfl⟩
  · cases hr
    exact h

end

/-- The results of a task are about what it is asked. -/
theorem answers_of_compute {p : PartialResult α} (h : t.compute = .ok p) :
    p.results.Answers t.Asks := by
  obtain ⟨data, -, h⟩ := Fallible.bind_eq_ok.1 h
  obtain ⟨results, hresults, h⟩ := Fallible.bind_eq_ok.1 h
  cases h
  exact Fallible.keeps_of_foldlM (P := fun r : Results α => r.Answers t.Asks) Results.Answers.empty
    (fun x _ r r' hr hr' => answers_of_addSite hr hr') hresults

theorem answers_of_runInTurn {tasks : List (Task α)} {done : Reduction α}
    (h : runInTurn compute Reduction.merge tasks ⟨.empty, none⟩ = ⟨done, none⟩) :
    done.results.Answers fun k kinds => ∃ t ∈ tasks, t.Asks k kinds := by
  let answered (tasks : List (Task α)) (done : Reduction α) : Prop :=
    done.results.Answers fun k kinds => ∃ t ∈ tasks, t.Asks k kinds
  have hstart : answered [] .empty := Results.Answers.empty
  have hstep : ∀ tasks t done p, answered tasks done → compute t = .ok p →
      (Reduction.merge done p).2 = none → answered (tasks ++ [t]) (Reduction.merge done p).1 := by
    intro tasks t done p hdone hp _
    refine Results.Answers.merge (hdone.imp ?_) ((answers_of_compute hp).imp ?_)
    · rintro k kinds ⟨u, hu, hasks⟩
      exact ⟨u, List.mem_append_left _ hu, hasks⟩
    · intro k kinds hasks
      exact ⟨t, List.mem_append_right _ (List.mem_singleton_self t), hasks⟩
  have hkeeps := keeps_of_runInTurn hstart hstep (congrArg Controller.failure h)
  rw [h] at hkeeps
  exact hkeeps

end Task

end

/-! ### Levels -/

namespace Target

variable {α : Type} [Scalar α] {fixed : TreeMap String α} {curves : CurveTable α} {sites : Sites α}
  {targets : List (Target α)} {site : ℕ}

/-- Levels are given at the sites only, for each target in turn. -/
theorem levels_eq_some {ls : List (Option α)}
    (h : (levels fixed curves sites targets)[site]? = some ls) :
    site ∈ sites.ids ∧ ls = targets.map (level? fixed curves site) := by
  have hmem : site ∈ levels fixed curves sites targets := by
    rw [TreeMap.mem_iff_isSome_getElem?, h]
    rfl
  have hid : site ∈ sites.ids := by
    rw [levels, TreeMap.mem_ofList, List.map_map] at hmem
    simpa [Sites.ids] using hmem
  obtain ⟨s, hs, rfl⟩ := List.mem_map.1 hid
  rw [getElem?_levels targets hs, Option.some.injEq] at h
  exact ⟨hid, h.symm⟩

end Target

namespace Calculation

section

variable {α : Type} [Scalar α] [Elementary α] [TotalOrder α] {config : Config α} {inputs : Inputs α}
  {k k' : ResultKey α}

/-- What a configuration asks for: the levels of all sites that there are and that have a grid. -/
structure Requests (config : Config α) (inputs : Inputs α) (grids : GridTable α) (k : ResultKey α) :
    Prop where
  site : ∃ site, inputs.sites.get? k.site = some site
  grid : ∃ g, grids[k.site]? = some g
  level : ∃ model, Target.level? config.request.levels inputs.curves k.site
    ⟨k.poe, model, k.imt, k.realization⟩ = some k.level
  regions : k.regions = SourceModel.regions inputs.models

omit [Elementary α] [TotalOrder α] in
/-- A site has one level for a threshold, a realization and an intensity measure type. -/
theorem Requests.eq {grids : GridTable α} (h : Requests config inputs grids k)
    (h' : Requests config inputs grids k') (hsite : k.site = k'.site) (hpoe : k.poe = k'.poe)
    (hrealization : k.realization = k'.realization) (himt : k.imt = k'.imt) : k = k' := by
  obtain ⟨site, realization, poe, imt, level, regions⟩ := k
  obtain ⟨site', realization', poe', imt', level', regions'⟩ := k'
  obtain rfl : site = site' := hsite
  obtain rfl : poe = poe' := hpoe
  obtain rfl : realization = realization' := hrealization
  obtain rfl : imt = imt' := himt
  obtain ⟨model, hlevel⟩ := h.level
  obtain ⟨model', hlevel'⟩ := h'.level
  -- the ground-motion model plays no part in the level
  have hsame : level = level' := Option.some.inj (hlevel.symm.trans hlevel')
  have hregions : regions = regions' := h.regions.trans h'.regions.symm
  rw [hsame, hregions]

/-! ### Plans -/

variable {c : Calculation α} {p : Plan α} {t : Task α}

omit [Elementary α] [TotalOrder α] in
theorem exists_of_mem_workGroups {sites : Sites α} {groups : List (WorkGroup α)}
    (h : workGroups config inputs sites = .ok groups) {w : WorkGroup α} (hw : w ∈ groups) :
    ∃ m ∈ inputs.models, ∃ g ∈ m.groups, workGroup config inputs sites m g = .ok (some w) := by
  obtain ⟨found, hfound, h⟩ := Fallible.bind_eq_ok.1 h
  cases h
  obtain ⟨_, hx, rfl⟩ := List.mem_filterMap.1 hw
  obtain ⟨xs, hxs, hx⟩ := List.mem_flatten.1 hx
  obtain ⟨m, hm, hmodel⟩ := Fallible.exists_of_mem_mapM hfound hxs
  obtain ⟨g, hg, hgroup⟩ := Fallible.exists_of_mem_mapM hmodel hx
  exact ⟨m, hm, g, hg, hgroup⟩

/-- The sites of a setting are some of those that were given. -/
theorem sites_of_settingOf {magnitudes : Span α} {st : Setting α} {skipped : List ℕ}
    (h : settingOf config inputs magnitudes = .ok (st, skipped)) :
    ∀ id ∈ st.sites.ids, id ∈ inputs.sites.ids := by
  obtain ⟨sites, hsites, h⟩ := Fallible.bind_eq_ok.1 h
  cases h
  obtain ⟨-, rfl⟩ := Sites.ofList_eq_ok.1 hsites
  have hids : (inputs.sites.toList.map (capped config.maxDistance)).map (·.id) = inputs.sites.ids := by
    rw [List.map_map]
    rfl
  intro id hid
  rw [← hids]
  exact (List.filter_sublist.map _).subset hid

/-- A plan is made of its setting, and of the work on the groups of sources. -/
theorem exists_of_plan (hplan : c.plan inputs = .ok p) : ∃ magnitudes groups,
    settingOf c.config inputs magnitudes = .ok (p.setting, p.skipped) ∧
      workGroups c.config inputs p.setting.sites = .ok groups ∧
      p.tasks = WorkGroup.tasks p.setting (c.config.taskCount c.workers) c.config.pointFactor
        groups := by
  obtain ⟨⟨⟩, -, hplan⟩ := Fallible.bind_eq_ok.1 hplan
  split at hplan
  · cases hplan
  · next magnitudes _ =>
    obtain ⟨⟨st, skipped⟩, hsetting, hplan⟩ := Fallible.bind_eq_ok.1 hplan
    obtain ⟨groups, hgroups, hplan⟩ := Fallible.bind_eq_ok.1 hplan
    cases hplan
    exact ⟨magnitudes, groups, hsetting, hgroups, rfl⟩

/-- A task has the targets and the levels of the work on its group. -/
theorem exists_workGroup_of_mem_tasks (hplan : c.plan inputs = .ok p) (ht : t ∈ p.tasks) :
    t.setting = p.setting ∧ ∃ m ∈ inputs.models, ∃ g ∈ m.groups, ∃ w,
      workGroup c.config inputs p.setting.sites m g = .ok (some w) ∧
      t.work.targets = w.targets ∧ t.work.levels = w.levels := by
  obtain ⟨magnitudes, groups, -, hgroups, htasks⟩ := exists_of_plan hplan
  rw [htasks] at ht
  obtain ⟨w, hw, hwork⟩ := WorkGroup.exists_of_mem_tasks ht
  obtain ⟨m, hm, g, hg, hgroup⟩ := exists_of_mem_workGroups hgroups hw
  refine ⟨WorkGroup.setting_of_mem_tasks ht, m, hm, g, hg, w, hgroup, ?_, ?_⟩
  · rw [hwork]
  · rw [hwork]

/-- What the tasks of a plan ask is what the configuration asks for. -/
theorem requests_of_asks (hplan : c.plan inputs = .ok p) (ht : t ∈ p.tasks) {kinds : List Marginal}
    (hasks : t.Asks k kinds) :
    Requests c.config inputs p.setting.grids k ∧ kinds = c.config.marginals := by
  obtain ⟨magnitudes, -, hsetting, -, -⟩ := exists_of_plan hplan
  have hids := sites_of_settingOf hsetting
  obtain ⟨hregions, hmarginals⟩ : p.setting.regions = SourceModel.regions inputs.models ∧
      p.setting.marginals = c.config.marginals := by
    obtain ⟨_, -, hst⟩ := Fallible.bind_eq_ok.1 hsetting
    rw [← (Prod.mk.inj (Except.ok.inj hst)).1]
    exact ⟨rfl, rfl⟩
  obtain ⟨hsetting, m, -, g, -, w, hgroup, htargets, hlevels⟩ :=
    exists_workGroup_of_mem_tasks hplan ht
  obtain ⟨byModel, -, ⟨-, hnone⟩ | ⟨-, models, -, hsome⟩⟩ := workGroup_eq_ok.1 hgroup
  · cases hnone
  cases hsome
  simp only at htargets hlevels
  obtain ⟨levels, hfound, model, hmem⟩ := hasks.level
  rw [hlevels] at hfound
  obtain ⟨hsite, rfl⟩ := Target.levels_eq_some hfound
  rw [← htargets, WorkGroup.leveled_map] at hmem
  obtain ⟨target, -, htarget⟩ := List.mem_map.1 hmem
  obtain ⟨rfl, hlevel⟩ := Prod.mk.inj htarget
  rw [← hmarginals, ← hsetting]
  refine ⟨⟨?_, hasks.grid, ⟨model, hlevel⟩, ?_⟩, hasks.kinds⟩
  · obtain ⟨site, hmem, hid⟩ := List.mem_map.1 (hids k.site hsite)
    rw [← Option.isSome_iff_exists, Sites.get?, List.find?_isSome]
    exact ⟨site, hmem, by simpa using hid⟩
  · rw [hasks.regions, hsetting, hregions]

/-! ### Outcomes -/

variable [BitPattern α]

/-- The outcomes that a calculation may have if it succeeds: the results of its tasks are merged in some
order. -/
def EndsWith (c : Calculation α) (inputs : Inputs α) (out : Outcome α) : Prop :=
  ∃ p tasks, c.plan inputs = .ok p ∧ tasks.Perm p.tasks ∧
    c.runPlan { p with tasks := tasks } = .ok out

/-- The order of the tasks is one of the orders. -/
theorem endsWith_of_run {out : Outcome α} (h : c.run inputs = .ok out) : c.EndsWith inputs out := by
  obtain ⟨p, hplan, hrun⟩ := Fallible.bind_eq_ok.1 h
  exact ⟨p, p.tasks, hplan, List.Perm.refl _, hrun⟩

/-- All results of a calculation are about what its configuration asks for, in whatever order its tasks
end. -/
theorem EndsWith.requests [Std.TransCmp (TotalOrder.cmp : α → α → Ordering)]
    [Std.LawfulEqCmp (TotalOrder.cmp : α → α → Ordering)] {out : Outcome α}
    (h : c.EndsWith inputs out) {m : Marginals α} (hm : out.results[k]? = some m) :
    Requests c.config inputs out.grids k ∧ m.kinds = c.config.marginals := by
  obtain ⟨p, tasks, hplan, hperm, hrun⟩ := h
  obtain ⟨done, hdone, rfl⟩ := runPlan_eq_ok.1 hrun
  obtain ⟨t, ht, hasks⟩ := Task.answers_of_runInTurn hdone k m hm
  exact requests_of_asks hplan (hperm.mem_iff.1 ht) hasks

end

end Calculation

end SeismicHazard
