import SeismicHazard.Proofs.Calculation.Work
import SeismicHazard.Proofs.Task.Reach

/-!
# Events and what is requested about them

An event is a rupture of a source as it was given, before any splitting. A sighting contributes at
most once to a result, under the ground-motion model of one realization.

* `Calculation.Event`, `Calculation.events`: the events of a source model.
* `Calculation.Requested`: what is asked about a realization.
* `Calculation.WorksOn.requested_of_mem`: a sighting contributes only to what is requested.
* `Calculation.WorksOn.contributionsOf_eq`: to that it contributes once.
-/

namespace SeismicHazard.Calculation

/-- A rupture of a source: its magnitude, its rate and its place, with the tectonic region types of
its source and of the group of its source. -/
structure Event (α : Type) where
  group : String
  region : String
  magnitude : α
  rate : α
  node : Point α

section

variable {α : Type} [Field α] [LinearOrder α] [FloorRing α]

/-- The level of a result: the one given for its intensity measure type, or else the one at which
the hazard curve reaches its threshold. -/
def levelOf? (config : Config α) (inputs : Inputs α) (k : ResultKey α) : Option α :=
  match config.request.levels[k.imt]? with
  | some level => some level
  | none => do
    let poe ← k.poe
    let set ← inputs.curves.get? k.site k.realization
    let curve ← set.get? k.imt
    if curve.isZero then none else some (curve.levelAt poe)

/-- Whether a result is asked for, about the given realization. -/
structure Requested (config : Config α) (inputs : Inputs α) (regions : List String)
    (r : Realization α) (k : ResultKey α) : Prop where
  realization : k.realization = r.ordinal
  poe : k.poe ∈ config.thresholds
  imt : k.imt ∈ config.measures
  level : levelOf? config inputs k = some k.level
  regions : k.regions = regions

/-- The target of a result under a ground-motion model. -/
def targetOf (k : ResultKey α) (name : String) : Target α := ⟨k.poe, name, k.imt, k.realization⟩

variable [Elementary α]

/-- Whether all sources of the inputs are points and areas. -/
def NodalSources (inputs : Inputs α) : Prop :=
  ∀ m ∈ inputs.models, ∀ g ∈ m.groups, ∀ s ∈ g.sources, s.IsNodal

/-- The events of a source of a group with the given region: its ruptures, each at its place. -/
def eventsOf (group : String) (s : Source α) : List (Event α) :=
  s.ruptures.flatMap fun r => r.surface.map fun node => ⟨group, s.region, r.magnitude, r.rate, node⟩

/-- The events of the source models with an ordinal. -/
def events (inputs : Inputs α) (sourceModel : Nat) : List (Event α) :=
  inputs.models.flatMap fun m =>
    if m.ordinal = sourceModel then
      m.groups.flatMap fun g => g.sources.flatMap (eventsOf g.region)
    else []

namespace Event

/-- Whether an event lies within the distance of a site and the common bound. -/
def Within (e : Event α) (site : Site α) (bound : α) : Prop :=
  e.node.distance site.location ≤ Min.min site.maxDistance bound

instance (e : Event α) (site : Site α) (bound : α) : Decidable (e.Within site bound) :=
  inferInstanceAs (Decidable (_ ≤ _))

/-- The event as a ground-motion model is told about it. -/
def scenario (e : Event α) (place : Point α) : Scenario α where
  magnitude := e.magnitude
  horizontal := e.node.distance place
  slant := Scenario.slantDistance (e.node.distance place) e.node.depth
  node := e.node

/-- The event as a rupture of one node. -/
def rupture (e : Event α) : Rupture α := ⟨e.magnitude, e.rate, [e.node]⟩

/-- The probabilities of exceedance by epsilon bin, from the model that the realization of a result
assigns to the group of the event. -/
def poes? (e : Event α) (config : Config α) (inputs : Inputs α) (r : Realization α)
    (place : Point α) (k : ResultKey α) : Option (List α) := do
  let name ← r.groundMotion[e.group]?
  let model ← (inputs.library.get name).toOption
  (model.exceedance (e.scenario place) ⟨k.imt, k.level, config.truncation,
    epsilonEdges config.truncation config.epsilonBins⟩).toOption

/-- The probabilities of no exceedance within the investigation time. -/
def pnes (e : Event α) (config : Config α) (inputs : Inputs α) (r : Realization α)
    (place : Point α) (k : ResultKey α) : List α :=
  ((e.poes? config inputs r place k).getD []).map fun poe =>
    Elementary.exp (-e.rate * config.time * poe)

/-- What the event contributes to a result. -/
def contribution (e : Event α) (config : Config α) (inputs : Inputs α) (r : Realization α)
    (place : Point α) (regions : List String) (k : ResultKey α) : Contribution α :=
  ⟨⟨e.magnitude, e.node.distance place, e.node.lon, e.node.lat,
    (regions.idxOf? e.region).getD 0⟩, e.pnes config inputs r place k⟩

end Event

end

/-! ### One sighting -/

section

variable {α : Type}

theorem mem_ofModel {t : LogicTree α} {n : Nat} {r : Realization α} : r ∈ t.ofModel n ↔
    r ∈ t.realizations ∧ r.sourceModel = n := by
  simp [LogicTree.ofModel]

theorem key?_eq_some {st : Setting α} {site : Nat} {target : Target α} {level? : Option α}
    {k : ResultKey α} : st.key? site (target, level?) = some k ↔
      k.site = site ∧ k.realization = target.realization ∧ k.poe = target.poe ∧
        k.imt = target.imt ∧ level? = some k.level ∧ k.regions = st.regions := by
  obtain ⟨_, _, _, _, _, _⟩ := k
  cases level? with
  | none => simp [Setting.key?]
  | some level =>
    simp only [Setting.key?, Option.some.injEq, ResultKey.mk.injEq]
    constructor
    · rintro ⟨rfl, rfl, rfl, rfl, rfl, rfl⟩
      exact ⟨rfl, rfl, rfl, rfl, rfl, rfl⟩
    · rintro ⟨rfl, rfl, rfl, rfl, rfl, rfl⟩
      exact ⟨rfl, rfl, rfl, rfl, rfl, rfl⟩

end

section

variable {α : Type} [Field α] [LinearOrder α] [FloorRing α] {config : Config α}
  {inputs : Inputs α} {k : ResultKey α}

/-- The level of a target does not depend on its ground-motion model. -/
theorem level?_eq {target : Target α} (hrealization : k.realization = target.realization)
    (hpoe : k.poe = target.poe) (himt : k.imt = target.imt) :
    Target.level? config.request.levels inputs.curves k.site target = levelOf? config inputs k := by
  obtain ⟨_, _, _, _, _, _⟩ := k
  cases hrealization
  cases hpoe
  cases himt
  unfold Target.level? levelOf?
  cases config.request.levels[target.imt]? <;> rfl

variable {sites : Sites α} {m : SourceModel α} {g : SourceGroup α} {w : WorkGroup α}
  {st : Setting α} {r : Realization α} {name : String}

namespace WorksOn

/-- What is requested about a realization is asked under the ground-motion model that it names. -/
theorem targetOf_mem (h : WorksOn config inputs sites m g w) {regions : List String}
    (hr : r ∈ inputs.tree.ofModel m.ordinal) (hk : Requested config inputs regions r k)
    (hname : r.groundMotion[g.region]? = some name) : targetOf k name ∈ w.targets := by
  refine (h.targets _).2 ⟨LogicTree.mem_naming.2 ?_, hk.imt, hk.poe⟩
  exact ⟨r, hr, hname, hk.realization.symm⟩

/-- No other target asks about it: that would be about another realization with the same ordinal. -/
theorem eq_targetOf (h : WorksOn config inputs sites m g w) (hrepeats : NoRepeats config inputs)
    {regions : List String} (hr : r ∈ inputs.tree.ofModel m.ordinal)
    (hk : Requested config inputs regions r k) (hname : r.groundMotion[g.region]? = some name)
    {target : Target α} (htarget : target ∈ w.targets) {site : Nat} {level? : Option α}
    (hkey : st.key? site (target, level?) = some k) :
    target = targetOf k name ∧ level? = some k.level := by
  obtain ⟨-, hrealization, hpoe, himt, hlevel, -⟩ := key?_eq_some.1 hkey
  obtain ⟨r', hr', hname', hordinal⟩ := LogicTree.mem_naming.1 ((h.targets target).1 htarget).1
  have hsame : r' = r := by
    refine List.inj_on_of_nodup_map hrepeats.ordinals (mem_ofModel.1 hr').1
      (mem_ofModel.1 hr).1 ?_
    rw [hordinal, ← hrealization, hk.realization]
  rw [hsame, hname] at hname'
  cases hname'
  obtain ⟨_, _, _, _⟩ := target
  cases hrealization
  cases hpoe
  cases himt
  exact ⟨rfl, hlevel⟩

variable [Elementary α] {v : Sighting α}

/-- A sighting contributes only to what is requested about a realization of its source model. -/
theorem requested_of_mem (h : WorksOn config inputs sites m g w)
    (hlevels : v.levels =
      w.targets.map (Target.level? config.request.levels inputs.curves v.site.id))
    {c : Contribution α} (hc : c ∈ w.contributionsOf st v k) : k.site = v.site.id ∧
      ∃ r ∈ inputs.tree.ofModel m.ordinal, Requested config inputs st.regions r k := by
  unfold WorkGroup.contributionsOf WorkGroup.contributionsTo at hc
  rw [hlevels, WorkGroup.leveled_map, Multiset.mem_coe] at hc
  obtain ⟨tl, htl, -⟩ := List.mem_map.1 hc
  obtain ⟨hmem, hkey⟩ := List.mem_filter.1 htl
  obtain ⟨target, htarget, rfl⟩ := List.mem_map.1 hmem
  obtain ⟨hsite, hrealization, hpoe, himt, hlevel, hregions⟩ :=
    key?_eq_some.1 (of_decide_eq_true hkey)
  obtain ⟨hnaming, hmeasure, hthreshold⟩ := (h.targets target).1 htarget
  obtain ⟨r, hr, -, hordinal⟩ := LogicTree.mem_naming.1 hnaming
  rw [← hsite, level?_eq hrealization hpoe himt] at hlevel
  exact ⟨hsite, r, hr, hrealization.trans hordinal.symm, hpoe ▸ hthreshold, himt ▸ hmeasure,
    hlevel, hregions⟩

/-- To what is requested about a realization of its source model a sighting contributes once. -/
theorem contributionsOf_eq (h : WorksOn config inputs sites m g w)
    (hrepeats : NoRepeats config inputs)
    (hlevels : v.levels =
      w.targets.map (Target.level? config.request.levels inputs.curves v.site.id))
    (hsite : k.site = v.site.id) (hr : r ∈ inputs.tree.ofModel m.ordinal)
    (hk : Requested config inputs st.regions r k)
    (hname : r.groundMotion[g.region]? = some name) :
    (targetOf k name, some k.level) ∈ w.leveled v.levels ∧
      w.contributionsOf st v k = {w.contribution st v (targetOf k name, some k.level)} := by
  have hlevel : Target.level? config.request.levels inputs.curves v.site.id (targetOf k name) =
      some k.level := by
    rw [← hsite, ← hk.level]
    exact level?_eq rfl rfl rfl
  have hmem : (targetOf k name, some k.level) ∈ w.leveled v.levels := by
    rw [hlevels, WorkGroup.leveled_map]
    exact List.mem_map.2 ⟨_, h.targetOf_mem hr hk hname, by rw [hlevel]⟩
  have hnodup : (w.leveled v.levels).Nodup := by
    rw [hlevels, WorkGroup.leveled_map]
    exact (h.nodup hrepeats).map fun t t' heq => (Prod.mk.inj heq).1
  have honly : (w.leveled v.levels).filter (fun tl => st.key? v.site.id tl = some k) =
      [(targetOf k name, some k.level)] := by
    rw [← List.perm_singleton,
      List.perm_ext_iff_of_nodup (hnodup.filter _) (List.nodup_singleton _)]
    rintro ⟨target, level?⟩
    rw [List.mem_filter, List.mem_singleton]
    constructor
    · rintro ⟨htl, hkey⟩
      rw [hlevels, WorkGroup.leveled_map] at htl
      obtain ⟨_, htarget, heq⟩ := List.mem_map.1 htl
      cases heq
      obtain ⟨htarget', hlevel'⟩ :=
        h.eq_targetOf hrepeats hr hk hname htarget (of_decide_eq_true hkey)
      rw [← htarget', ← hlevel']
    · intro heq
      cases heq
      exact ⟨hmem, decide_eq_true
        (key?_eq_some.2 ⟨hsite, rfl, rfl, rfl, rfl, hk.regions⟩)⟩
  refine ⟨hmem, ?_⟩
  rw [WorkGroup.contributionsOf, WorkGroup.contributionsTo, honly]
  rfl

end WorksOn

end

end SeismicHazard.Calculation
