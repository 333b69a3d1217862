import Mathlib.Algebra.Order.Field.Rat
import Mathlib.Data.List.Count
import Mathlib.Data.List.Forall2
import Mathlib.Data.Rat.Floor
import SeismicHazard.Proofs.Number.Exact
import SeismicHazard.Proofs.Target

/-!
# Targets are exactly what is asked for

The realizations of a source model are sorted by the ground-motion model that they name, and each group
of them is combined with the intensity measure types and the thresholds. Up to the order, these are the
combinations of every realization under its own model, however often ordinals, measures or thresholds
are repeated.

* `LogicTree.exists_byGroundMotion_iff`: when the realizations can be sorted.
* `LogicTree.byGroundMotion_eq_error_iff`: which realization is reported if they cannot.
* `LogicTree.SortedInto`: what the groups of the sorted realizations are.
* `LogicTree.AsksAll`: what the targets are.
* `LogicTree.asksAll_of_byGroundMotion`: both, and the levels of the targets at the sites.
-/

namespace SeismicHazard

open Std (TreeMap)

/-! ### Lists in groups -/

section

variable {β γ κ : Type}

/-- The members of a list that have one key after the other. -/
theorem flatMap_filter_perm [DecidableEq κ] {keys : List κ} (hnodup : keys.Nodup)
    {key? : β → Option κ} {xs : List β} (h : ∀ x ∈ xs, ∃ k ∈ keys, key? x = some k) :
    (keys.flatMap fun k => xs.filter fun x => key? x = some k).Perm xs := by
  induction keys generalizing xs with
  | nil =>
    have hxs : xs = [] := List.eq_nil_iff_forall_not_mem.2 fun x hx => by
      obtain ⟨_, hk, -⟩ := h x hx
      cases hk
    rw [hxs]
    rfl
  | cons k keys ih =>
    obtain ⟨hnotMem, hnodup⟩ := List.nodup_cons.1 hnodup
    -- the members with another key
    have hothers : ∀ x ∈ xs.filter fun x => !decide (key? x = some k),
        ∃ k ∈ keys, key? x = some k := by
      intro x hx
      obtain ⟨hx, hne⟩ := List.mem_filter.1 hx
      obtain ⟨k', hk', hkey⟩ := h x hx
      refine ⟨k', (List.mem_cons.1 hk').resolve_left ?_, hkey⟩
      rintro rfl
      simp [hkey] at hne
    have hrest : (keys.flatMap fun k' => xs.filter fun x => key? x = some k') =
        keys.flatMap fun k' => (xs.filter fun x => !decide (key? x = some k)).filter fun x =>
          key? x = some k' := by
      refine List.flatMap_congr fun k' hk' => ?_
      rw [List.filter_filter]
      refine List.filter_congr fun x _ => ?_
      by_cases hkey : key? x = some k'
      · have hne : k' ≠ k := fun heq => hnotMem (heq ▸ hk')
        simp [hkey, hne]
      · simp [hkey]
    rw [List.flatMap_cons, hrest]
    exact (List.Perm.append_left _ (ih hnodup hothers)).trans (List.filter_append_perm _ xs)

/-- If each member of a list stands for a fixed number of values of some kind, or for none. -/
theorem countP_flatMap_of_forall {xs : List β} {f : β → List γ} {p : γ → Bool} {q : β → Bool}
    {n : ℕ} (h : ∀ x ∈ xs, (f x).countP p = if q x then n else 0) :
    (xs.flatMap f).countP p = xs.countP q * n := by
  induction xs with
  | nil => simp
  | cons x xs ih =>
    rw [List.forall_mem_cons] at h
    rw [List.flatMap_cons, List.countP_append, h.1, ih h.2, List.countP_cons]
    cases q x with
    | false => simp
    | true => simp [Nat.add_mul, Nat.add_comm]

/-- Whether members that `f` maps to one value have no others between them. -/
def Contiguous (f : β → κ) (xs : List β) : Prop :=
  ∀ before x between z after, xs = before ++ x :: (between ++ z :: after) → f x = f z →
    ∀ y ∈ between, f y = f x

theorem contiguous_of_pairwise {f : β → String} {xs : List β}
    (h : xs.Pairwise fun x y => (compare (f x) (f y)).isLE) : Contiguous f xs := by
  rintro before x between z after rfl hxz y hy
  obtain ⟨hx, hrest⟩ := List.pairwise_cons.1 (List.pairwise_append.1 h).2.1
  have hxy := hx y (List.mem_append_left _ hy)
  have hyz := (List.pairwise_append.1 hrest).2.2 y hy z List.mem_cons_self
  rw [← hxz] at hyz
  exact Std.LawfulEqCmp.eq_of_compare (Std.OrientedCmp.isLE_antisymm hyz hxy)

end

/-! ### Realizations by ground-motion model -/

namespace LogicTree

section

variable {α : Type} {t : LogicTree α} {region : String} {sourceModel : ℕ}
  {byModel : TreeMap String (List ℕ)}

/-- One more realization under the model that it names. -/
def assign (region : String) (groups : TreeMap String (List ℕ)) (r : Realization α) :
    Except (Error α) (TreeMap String (List ℕ)) :=
  match r.groundMotion[region]? with
  | some name => .ok (addOrdinal groups name r.ordinal)
  | none => .error (.input (.noModelFor r.ordinal region))

theorem byGroundMotion_eq : t.byGroundMotion region sourceModel =
    (t.ofModel sourceModel).foldlM (assign region) ∅ := rfl

theorem exists_assign_iff {groups : TreeMap String (List ℕ)} {r : Realization α} :
    (∃ groups', assign region groups r = .ok groups') ↔
      ∃ name, r.groundMotion[region]? = some name := by
  unfold assign
  cases r.groundMotion[region]? <;> simp

theorem assign_eq_error_iff {groups : TreeMap String (List ℕ)} {r : Realization α} {e : Error α} :
    assign region groups r = .error e ↔
      r.groundMotion[region]? = none ∧ e = .input (.noModelFor r.ordinal region) := by
  unfold assign
  cases r.groundMotion[region]? <;> simp [eq_comm]

theorem exists_foldlM_assign_iff {rs : List (Realization α)} {groups : TreeMap String (List ℕ)} :
    (∃ byModel, rs.foldlM (assign region) groups = .ok byModel) ↔
      ∀ r ∈ rs, ∃ name, r.groundMotion[region]? = some name := by
  constructor
  · rintro ⟨byModel, h⟩ r hr
    obtain ⟨groups, hstep⟩ := Fallible.exists_of_foldlM_eq_ok h r hr
    exact exists_assign_iff.1 hstep
  · intro h
    exact Fallible.exists_foldlM_eq_ok groups fun r hr _ => exists_assign_iff.2 (h r hr)

/-- The realizations can be sorted if each of them names a model for the region. -/
theorem exists_byGroundMotion_iff : (∃ byModel, t.byGroundMotion region sourceModel = .ok byModel) ↔
    ∀ r ∈ t.ofModel sourceModel, ∃ name, r.groundMotion[region]? = some name :=
  exists_foldlM_assign_iff

/-- The first realization without a model is reported. -/
theorem byGroundMotion_eq_error_iff {e : Error α} : t.byGroundMotion region sourceModel = .error e ↔
    ∃ before r after, t.ofModel sourceModel = before ++ r :: after ∧
      (∀ r' ∈ before, ∃ name, r'.groundMotion[region]? = some name) ∧
      r.groundMotion[region]? = none ∧ e = .input (.noModelFor r.ordinal region) := by
  rw [byGroundMotion_eq, Fallible.foldlM_eq_error_iff]
  constructor
  · rintro ⟨before, r, after, groups, hall, hbefore, hr⟩
    exact ⟨before, r, after, hall, exists_foldlM_assign_iff.1 ⟨groups, hbefore⟩,
      assign_eq_error_iff.1 hr⟩
  · rintro ⟨before, r, after, hall, hbefore, hr⟩
    obtain ⟨groups, hgroups⟩ := exists_foldlM_assign_iff.2 hbefore
    exact ⟨before, r, after, groups, hall, hgroups, assign_eq_error_iff.2 hr⟩

/-- The ordinals of all groups, each with the model that it is under. -/
def assigned (byModel : TreeMap String (List ℕ)) : List (String × ℕ) :=
  byModel.toList.flatMap fun g => g.2.map fun ordinal => (g.1, ordinal)

/-- Whether the groups are the realizations of a source model, each under the model that it names and in
the order of the realizations. No group is empty. -/
structure SortedInto (t : LogicTree α) (region : String) (sourceModel : ℕ)
    (byModel : TreeMap String (List ℕ)) : Prop where
  ne_nil : ∀ (name : String) (ordinals : List ℕ), byModel[name]? = some ordinals → ordinals ≠ []
  inOrder : ∀ (name : String) (ordinals : List ℕ), byModel[name]? = some ordinals →
    ordinals = t.naming region sourceModel name
  perm : ((assigned byModel).map fun p => (some p.1, p.2)).Perm
    ((t.ofModel sourceModel).map fun r => (r.groundMotion[region]?, r.ordinal))

theorem toList_byGroundMotion (h : t.byGroundMotion region sourceModel = .ok byModel) :
    byModel.toList = byModel.keys.map fun name => (name, t.naming region sourceModel name) := by
  rw [← TreeMap.map_fst_toList_eq_keys, List.map_map]
  conv_lhs => rw [← List.map_id byModel.toList]
  refine List.map_congr_left fun g hg => ?_
  obtain ⟨name, ordinals⟩ := g
  obtain ⟨-, rfl⟩ := (mem_of_mem_toList h).1 hg
  rfl

/-- Sorting loses no realization, adds none, and puts none under the model of another one. -/
theorem assigned_perm (h : t.byGroundMotion region sourceModel = .ok byModel) :
    ((assigned byModel).map fun p => (some p.1, p.2)).Perm
      ((t.ofModel sourceModel).map fun r => (r.groundMotion[region]?, r.ordinal)) := by
  have hnamed : ∀ r ∈ t.ofModel sourceModel, ∃ name ∈ byModel.keys,
      r.groundMotion[region]? = some name := by
    intro r hr
    obtain ⟨name, hname⟩ := exists_model_of_byGroundMotion h hr
    exact ⟨name, mem_keys_of_naming h (mem_naming.2 ⟨r, hr, hname, rfl⟩), hname⟩
  have hassigned : ((assigned byModel).map fun p => (some p.1, p.2)) =
      (byModel.keys.flatMap fun name => (t.ofModel sourceModel).filter fun r =>
        r.groundMotion[region]? = some name).map fun r => (r.groundMotion[region]?, r.ordinal) := by
    rw [assigned, toList_byGroundMotion h, List.flatMap_map, List.map_flatMap, List.map_flatMap]
    refine List.flatMap_congr fun name _ => ?_
    rw [naming, List.map_map, List.map_map]
    refine List.map_congr_left fun r hr => ?_
    have hname := (List.mem_filter.1 hr).2
    rw [decide_eq_true_eq] at hname
    rw [hname]
    rfl
  rw [hassigned]
  exact (flatMap_filter_perm TreeMap.nodup_keys hnamed).map _

theorem sortedInto_of_byGroundMotion (h : t.byGroundMotion region sourceModel = .ok byModel) :
    t.SortedInto region sourceModel byModel := by
  have hgroup : ∀ (name : String) (ordinals : List ℕ), byModel[name]? = some ordinals →
      ordinals ≠ [] ∧ ordinals = t.naming region sourceModel name := fun name ordinals hfound =>
    (mem_of_mem_toList h).1 (TreeMap.mem_toList_iff_getElem?_eq_some.2 hfound)
  exact ⟨fun name ordinals hfound => (hgroup name ordinals hfound).1,
    fun name ordinals hfound => (hgroup name ordinals hfound).2, assigned_perm h⟩

end

end LogicTree

/-! ### Targets -/

section

variable {α : Type} {t : LogicTree α} {region : String} {sourceModel : ℕ}
  {byModel : TreeMap String (List ℕ)} {imts : List String} {thresholds : List (Option α)}

/-- The targets about a realization, if a model is named. -/
def Target.combinations (imts : List String) (thresholds : List (Option α)) :
    Option String × ℕ → List (Target α)
  | (some model, realization) =>
    imts.flatMap fun imt => thresholds.map fun poe => ⟨poe, model, imt, realization⟩
  | (none, _) => []

/-- The targets about a realization under its own model. -/
def Realization.targets (r : Realization α) (region : String) (imts : List String)
    (thresholds : List (Option α)) : List (Target α) :=
  Target.combinations imts thresholds (r.groundMotion[region]?, r.ordinal)

theorem Realization.mem_targets {r : Realization α} {x : Target α} :
    x ∈ r.targets region imts thresholds ↔ r.ordinal = x.realization ∧
      r.groundMotion[region]? = some x.model ∧ x.imt ∈ imts ∧ x.poe ∈ thresholds := by
  obtain ⟨poe, model, imt, realization⟩ := x
  unfold targets
  cases r.groundMotion[region]? with
  | none => simp [Target.combinations]
  | some own =>
    simp only [Target.combinations, List.mem_flatMap, List.mem_map, Target.mk.injEq,
      Option.some.injEq]
    constructor
    · rintro ⟨_, himt, _, hpoe, rfl, rfl, rfl, rfl⟩
      exact ⟨rfl, rfl, himt, hpoe⟩
    · rintro ⟨rfl, rfl, himt, hpoe⟩
      exact ⟨imt, himt, poe, hpoe, rfl, rfl, rfl, rfl⟩

/-- A realization with a model has a target for each measure and each threshold. -/
theorem Realization.countP_targets [DecidableEq α] {r : Realization α} {name : String}
    (hname : r.groundMotion[region]? = some name) (realization : ℕ) (imt : String) (poe : Option α) :
    (r.targets region imts thresholds).countP
        (fun x => x.realization = realization ∧ x.imt = imt ∧ x.poe = poe) =
      if r.ordinal == realization then imts.count imt * thresholds.count poe else 0 := by
  rw [targets, hname]
  by_cases hordinal : r.ordinal = realization
  · subst hordinal
    rw [if_pos (beq_self_eq_true _)]
    refine countP_flatMap_of_forall fun imt' _ => ?_
    by_cases himt : imt' = imt
    · subst himt
      rw [if_pos (beq_self_eq_true _), List.countP_map, List.count]
      refine List.countP_congr fun poe' _ => ?_
      simp
    · rw [if_neg (by simpa using himt), List.countP_eq_zero]
      intro x hx
      obtain ⟨poe', -, rfl⟩ := List.mem_map.1 hx
      simp [himt]
  · rw [if_neg (by simpa using hordinal), List.countP_eq_zero]
    intro x hx
    have hx' : x ∈ r.targets region imts thresholds := by rwa [targets, hname]
    obtain ⟨hown, -⟩ := mem_targets.1 hx'
    simp [← hown, hordinal]

namespace LogicTree

theorem all_eq_flatMap_assigned : Target.all byModel imts thresholds =
    ((assigned byModel).map fun p => (some p.1, p.2)).flatMap
      (Target.combinations imts thresholds) := by
  rw [assigned, List.map_flatMap, List.flatMap_assoc]
  refine List.flatMap_congr fun g _ => ?_
  rw [List.map_map, List.flatMap_map]
  rfl

theorem all_perm (h : t.byGroundMotion region sourceModel = .ok byModel) :
    (Target.all byModel imts thresholds).Perm
      ((t.ofModel sourceModel).flatMap fun r => r.targets region imts thresholds) := by
  rw [all_eq_flatMap_assigned]
  refine ((assigned_perm h).flatMap_right _).trans ?_
  rw [List.flatMap_map]
  rfl

/-- The models of the targets ascend. -/
theorem pairwise_all : (Target.all byModel imts thresholds).Pairwise fun x y =>
    (compare x.model y.model).isLE := by
  have hmodel : ∀ (g : String × List ℕ) (x : Target α), x ∈ (g.2.flatMap fun realization =>
      imts.flatMap fun imt => thresholds.map fun poe => (⟨poe, g.1, imt, realization⟩ : Target α)) →
      x.model = g.1 := by
    intro g x hx
    simp only [List.mem_flatMap, List.mem_map] at hx
    obtain ⟨_, -, _, -, _, -, rfl⟩ := hx
    rfl
  refine List.pairwise_flatMap.2 ⟨fun g _ => ?_, ?_⟩
  · refine List.pairwise_of_forall_mem_list fun x hx y hy => ?_
    rw [hmodel g x hx, hmodel g y hy]
    exact Std.ReflCmp.isLE_rfl
  · refine TreeMap.ordered_keys_toList.imp fun {g g'} hlt x hx y hy => ?_
    rw [hmodel g x hx, hmodel g' y hy]
    exact Ordering.isLE_of_eq_lt hlt

/-- Whether the targets are all combinations of a realization of a source model with a measure and a
threshold, under the model that the realization names. -/
structure AsksAll (t : LogicTree α) (region : String) (sourceModel : ℕ) (imts : List String)
    (thresholds : List (Option α)) (targets : List (Target α)) : Prop where
  perm : targets.Perm ((t.ofModel sourceModel).flatMap fun r => r.targets region imts thresholds)
  count : ∀ [DecidableEq α] (realization : ℕ) (imt : String) (poe : Option α),
    targets.countP (fun x => x.realization = realization ∧ x.imt = imt ∧ x.poe = poe) =
      ((t.ofModel sourceModel).map (·.ordinal)).count realization *
        (imts.count imt * thresholds.count poe)
  own : ∀ x ∈ targets, ∃ r ∈ t.ofModel sourceModel, r.ordinal = x.realization ∧
    r.groundMotion[region]? = some x.model ∧ x.imt ∈ imts ∧ x.poe ∈ thresholds
  contiguous : Contiguous (·.model) targets

theorem asksAll_all (h : t.byGroundMotion region sourceModel = .ok byModel) :
    t.AsksAll region sourceModel imts thresholds (Target.all byModel imts thresholds) := by
  refine ⟨all_perm h, fun realization imt poe => ?_, fun x hx => ?_,
    contiguous_of_pairwise pairwise_all⟩
  · rw [(all_perm h).countP_eq, List.count, List.countP_map]
    refine countP_flatMap_of_forall fun r hr => ?_
    obtain ⟨name, hname⟩ := exists_model_of_byGroundMotion h hr
    exact Realization.countP_targets hname realization imt poe
  · obtain ⟨r, hr, hx⟩ := List.mem_flatMap.1 ((all_perm h).mem_iff.1 hx)
    exact ⟨r, hr, Realization.mem_targets.1 hx⟩

end LogicTree

end

/-! ### Targets and their levels -/

namespace LogicTree

section

variable {α : Type} [Scalar α]

/-- Realizations can be sorted exactly if all of them name a model; else the first one that names none
is reported. The targets that are made of them are all combinations that are asked for, and each site
has one level, or none, for each target in turn. -/
theorem asksAll_of_byGroundMotion (t : LogicTree α) (region : String) (sourceModel : ℕ)
    (imts : List String) (thresholds : List (Option α)) :
    ((∃ byModel, t.byGroundMotion region sourceModel = .ok byModel) ↔
      ∀ r ∈ t.ofModel sourceModel, ∃ name, r.groundMotion[region]? = some name) ∧
    (∀ e, t.byGroundMotion region sourceModel = .error e ↔
      ∃ before r after, t.ofModel sourceModel = before ++ r :: after ∧
        (∀ r' ∈ before, ∃ name, r'.groundMotion[region]? = some name) ∧
        r.groundMotion[region]? = none ∧ e = .input (.noModelFor r.ordinal region)) ∧
    ∀ byModel, t.byGroundMotion region sourceModel = .ok byModel →
      t.SortedInto region sourceModel byModel ∧
      t.AsksAll region sourceModel imts thresholds (Target.all byModel imts thresholds) ∧
      ∀ (fixed : TreeMap String α) (curves : CurveTable α) (sites : Sites α),
        ∀ site ∈ sites.toList, ∃ ls,
          (Target.levels fixed curves sites (Target.all byModel imts thresholds))[site.id]? =
            some ls ∧
          List.Forall₂ (fun target level => level = Target.level? fixed curves site.id target)
            (Target.all byModel imts thresholds) ls := by
  refine ⟨exists_byGroundMotion_iff, fun e => byGroundMotion_eq_error_iff, fun byModel h =>
    ⟨sortedInto_of_byGroundMotion h, asksAll_all h,
      fun fixed curves sites site hsite => ⟨_, Target.getElem?_levels _ hsite, ?_⟩⟩⟩
  rw [List.forall₂_map_right_iff]
  exact List.forall₂_same.2 fun target _ => rfl

end

namespace Sample

/-- Two of the realizations share an ordinal, and one belongs to another source model. -/
def tree : LogicTree ℚ :=
  ⟨[⟨0, 0, 1 / 4, .ofList [("Crust", "B")]⟩, ⟨1, 0, 1 / 4, .ofList [("Crust", "A")]⟩,
    ⟨0, 0, 1 / 4, .ofList [("Crust", "A")]⟩, ⟨2, 1, 1 / 4, ∅⟩]⟩

theorem named : ∀ r ∈ tree.ofModel 0, ∃ name, r.groundMotion["Crust"]? = some name := by
  simp only [← Option.isSome_iff_exists]
  decide +kernel

end Sample

/-- The combinations of a measure that is asked for twice with two thresholds, and a realization of
another source model that names nothing. -/
theorem asksAll_sample : ∃ byModel, Sample.tree.byGroundMotion "Crust" 0 = .ok byModel ∧
    Sample.tree.SortedInto "Crust" 0 byModel ∧
    Sample.tree.AsksAll "Crust" 0 ["PGA", "PGA"] [some (1 / 2), some (1 / 10)]
      (Target.all byModel ["PGA", "PGA"] [some (1 / 2), some (1 / 10)]) ∧
    Sample.tree.byGroundMotion "Crust" 1 = .error (.input (.noModelFor 2 "Crust")) := by
  have h := asksAll_of_byGroundMotion Sample.tree "Crust" 0 ["PGA", "PGA"]
    [some (1 / 2), some (1 / 10)]
  obtain ⟨byModel, hbyModel⟩ := h.1.2 Sample.named
  obtain ⟨hsorted, hasks, -⟩ := h.2.2 byModel hbyModel
  have hother := (asksAll_of_byGroundMotion Sample.tree "Crust" 1 [] []).2.1
  have hmissing : Sample.tree.ofModel 1 = [] ++ ⟨2, 1, 1 / 4, ∅⟩ :: [] := rfl
  exact ⟨byModel, hbyModel, hsorted, hasks, (hother _).2
    ⟨[], _, [], hmissing, List.forall_mem_nil _, TreeMap.getElem?_emptyc, rfl⟩⟩

example : ((Sample.tree.byGroundMotion "Crust" 0).toOption.map fun byModel =>
    (Target.all byModel ["PGA"] [some (1 / 2)]).map fun x => (x.model, x.realization)) =
      some [("A", 1), ("A", 0), ("B", 0)] := by
  decide +kernel

end LogicTree

end SeismicHazard
