import Mathlib.Algebra.BigOperators.Group.List.Basic
import Mathlib.Data.Rat.Floor
import SeismicHazard.Proofs.Executor
import SeismicHazard.Proofs.Marginal.Layout
import SeismicHazard.Proofs.Number.Exact
import SeismicHazard.Proofs.Result.KeyOrder
import SeismicHazard.Result.Reduction

/-!
# Merging in any order

Partial results are merged into one reduction, key by key. Whether all of them can be merged depends
on their layouts alone, and what comes of it does not depend on their order.

* `Results.getElem?_add_self`, `Results.getElem?_add_of_ne`: what one more result changes.
* `Results.addAll_eq_none_iff`, `Results.getElem?_addAll_of_mem`: what several results change.
* `Reduction.merge_eq_none_iff`, `Reduction.getElem?_merge_of_absent`: which results can be merged,
  and what stays as it is.
* `PartialResult.Agree`: partial results without a conflict of layouts.
* `Reduction.Merges`: the reduction holds the given partial results.
* `Reduction.ofPartials_perm`: the order of the partial results does not matter.
-/

namespace SeismicHazard

open Std (TreeMap)

/-! ### One more result -/

namespace Results

section

variable {α : Type} [TotalOrder α] {r : Results α} {k key : ResultKey α} {m : Marginals α}

/-- The probability in a cell of a view of the result for a key. -/
def probability? (r : Results α) (k : ResultKey α) (view : Nat) (cell : List Nat) : Option α :=
  r[k]?.bind fun m => m.probability? view cell

theorem probability?_of_some (h : r[k]? = some m) (view : Nat) (cell : List Nat) :
    r.probability? k view cell = m.probability? view cell := by
  rw [probability?, h, Option.bind_some]

theorem probability?_of_none (h : r[k]? = none) (view : Nat) (cell : List Nat) :
    r.probability? k view cell = none := by
  rw [probability?, h, Option.bind_none]

variable [Std.TransCmp (TotalOrder.cmp : α → α → Ordering)]

theorem nodup_toList : (r.toList.map (·.1)).Nodup := by
  rw [TreeMap.map_fst_toList_eq_keys]
  exact TreeMap.nodup_keys

theorem getElem?_insert_of_ne [Std.LawfulEqCmp (TotalOrder.cmp : α → α → Ordering)] (h : k ≠ key) :
    (r.insert key m)[k]? = r[k]? := by
  rw [TreeMap.getElem?_insert, if_neg]
  exact fun heq => h (Std.LawfulEqCmp.eq_of_compare heq).symm

end

section

variable {α : Type} [TotalOrder α] [Scalar α] {r r' : Results α} {k key : ResultKey α}
  {m : Marginals α} {entries : List (ResultKey α × Marginals α)}

/-- A result can be added if it has the layout of the one that is there. -/
theorem add_eq_none_iff : (r.add key m).2 = none ↔ ∀ n, r[key]? = some n → n.layout = m.layout := by
  unfold add
  cases r[key]? with
  | none => simp
  | some found => simp [Marginals.combine_eq_none_iff]

variable [Std.TransCmp (TotalOrder.cmp : α → α → Ordering)]

theorem getElem?_add_congr (h : r[key]? = r'[key]?) :
    (r.add key m).1[key]? = (r'.add key m).1[key]? := by
  unfold add
  rw [← h]
  cases r[key]? with
  | none => simp
  | some found => simp

theorem getElem?_add_self (h : (r.add key m).2 = none) :
    ∃ n, (r.add key m).1[key]? = some n ∧ n.layout = m.layout ∧ ∀ view cell,
      n.probability? view cell =
        Option.merge eitherOf (r.probability? key view cell) (m.probability? view cell) := by
  have hlayout := add_eq_none_iff.1 h
  unfold add probability?
  cases hr : r[key]? with
  | none =>
    exact ⟨m, TreeMap.getElem?_insert_self, rfl, fun view cell => Option.merge_none_left.symm⟩
  | some found =>
    have hfound := hlayout found hr
    refine ⟨(found.combine key.place m).1, TreeMap.getElem?_insert_self, ?_, ?_⟩
    · rw [Marginals.layout_combine, hfound]
    · exact Marginals.probability?_combine key.place hfound

variable [Std.LawfulEqCmp (TotalOrder.cmp : α → α → Ordering)]

theorem getElem?_add_of_ne (m : Marginals α) (h : k ≠ key) : (r.add key m).1[k]? = r[k]? := by
  unfold add
  cases r[key]? with
  | none => exact getElem?_insert_of_ne h
  | some found => exact getElem?_insert_of_ne h

/-! ### Several more results -/

theorem getElem?_addAll_of_notMem (h : k ∉ entries.map (·.1)) : (r.addAll entries).1[k]? = r[k]? := by
  induction entries generalizing r with
  | nil => rfl
  | cons e entries ih =>
    obtain ⟨key, m⟩ := e
    rw [List.map_cons, List.mem_cons, not_or] at h
    have hadd : (r.add key m).1[k]? = r[k]? := getElem?_add_of_ne m h.1
    rw [addAll]
    rcases hresult : r.add key m with ⟨r', failure⟩
    rw [hresult] at hadd
    cases failure with
    | some e => exact hadd
    | none => exact (ih h.2).trans hadd

/-- Results about distinct keys can be added together exactly if each of them can. -/
theorem addAll_eq_none_iff (hnodup : (entries.map (·.1)).Nodup) :
    (r.addAll entries).2 = none ↔ ∀ e ∈ entries, (r.add e.1 e.2).2 = none := by
  induction entries generalizing r with
  | nil => exact ⟨fun _ e he => absurd he List.not_mem_nil, fun _ => rfl⟩
  | cons e entries ih =>
    obtain ⟨key, m⟩ := e
    rw [List.map_cons, List.nodup_cons] at hnodup
    have hothers : ∀ e ∈ entries, ((r.add key m).1.add e.1 e.2).2 = none ↔
        (r.add e.1 e.2).2 = none := by
      intro e he
      have hkey : e.1 ∈ entries.map (·.1) := List.mem_map_of_mem he
      have hne : e.1 ≠ key := fun heq => hnodup.1 (heq ▸ hkey)
      rw [add_eq_none_iff, add_eq_none_iff, getElem?_add_of_ne m hne]
    rw [List.forall_mem_cons, addAll]
    rcases hresult : r.add key m with ⟨r', failure⟩
    rw [hresult] at hothers
    cases failure with
    | some e => simp
    | none =>
      simp only [ih hnodup.2, true_and]
      exact forall₂_congr hothers

theorem getElem?_addAll_of_mem (hnodup : (entries.map (·.1)).Nodup)
    (h : (r.addAll entries).2 = none) (hm : (k, m) ∈ entries) :
    (r.addAll entries).1[k]? = (r.add k m).1[k]? := by
  induction entries generalizing r with
  | nil => cases hm
  | cons e entries ih =>
    obtain ⟨key, m'⟩ := e
    rw [List.map_cons, List.nodup_cons] at hnodup
    rw [addAll] at h ⊢
    rcases hresult : r.add key m' with ⟨r', failure⟩
    rw [hresult] at h
    cases failure with
    | some e => cases h
    | none =>
      rcases List.mem_cons.1 hm with heq | hm
      · obtain ⟨rfl, rfl⟩ := Prod.mk.inj heq
        rw [hresult]
        exact getElem?_addAll_of_notMem hnodup.1
      · have hkey : k ∈ entries.map (·.1) := List.mem_map.2 ⟨(k, m), hm, rfl⟩
        have hne : k ≠ key := fun heq => hnodup.1 (heq ▸ hkey)
        have hadd : (r.add key m').1[k]? = r[k]? := getElem?_add_of_ne m' hne
        rw [hresult] at hadd
        exact (ih hnodup.2 h hm).trans (getElem?_add_congr hadd)

end

end Results

/-! ### The results of one more task -/

namespace Reduction

section

variable {α : Type} [TotalOrder α] [Scalar α] {r : Reduction α} {p : PartialResult α}
  {k : ResultKey α} {m : Marginals α}

theorem results_merge (r : Reduction α) (p : PartialResult α) :
    (r.merge p).1.results = (r.results.addAll p.results.toList).1 := by
  unfold merge
  rcases r.results.addAll p.results.toList with ⟨results, failure⟩
  cases failure <;> rfl

theorem failure_merge (r : Reduction α) (p : PartialResult α) :
    (r.merge p).2 = (r.results.addAll p.results.toList).2 := by
  unfold merge
  rcases r.results.addAll p.results.toList with ⟨results, failure⟩
  cases failure <;> rfl

theorem merged_merge (h : (r.merge p).2 = none) : (r.merge p).1.merged = r.merged + 1 := by
  rw [failure_merge] at h
  unfold merge
  rcases hresult : r.results.addAll p.results.toList with ⟨results, failure⟩
  rw [hresult] at h
  cases h
  rfl

variable [Std.TransCmp (TotalOrder.cmp : α → α → Ordering)]
  [Std.LawfulEqCmp (TotalOrder.cmp : α → α → Ordering)]

/-- The results of a task can be merged exactly if, for every key that is there already, the layout
is the same. -/
theorem merge_eq_none_iff : (r.merge p).2 = none ↔ ∀ (k : ResultKey α) (m n : Marginals α),
    p.results[k]? = some m → r.results[k]? = some n → n.layout = m.layout := by
  rw [failure_merge, Results.addAll_eq_none_iff Results.nodup_toList]
  simp only [Results.add_eq_none_iff]
  constructor
  · intro h k m n hm hn
    exact h (k, m) (TreeMap.mem_toList_iff_getElem?_eq_some.2 hm) n hn
  · intro h e he n hn
    exact h e.1 e.2 n (TreeMap.mem_toList_iff_getElem?_eq_some.1 he) hn

/-- A key without a result of the task keeps what it has, also if the merge fails. -/
theorem getElem?_merge_of_absent (h : p.results[k]? = none) :
    (r.merge p).1.results[k]? = r.results[k]? := by
  rw [results_merge]
  refine Results.getElem?_addAll_of_notMem fun hk => ?_
  obtain ⟨⟨k, m⟩, hm, rfl⟩ := List.mem_map.1 hk
  rw [TreeMap.mem_toList_iff_getElem?_eq_some.1 hm] at h
  cases h

/-- A key with a result of the task holds that result together with what was there. -/
theorem getElem?_merge_of_present (h : (r.merge p).2 = none) (hm : p.results[k]? = some m) :
    ∃ n, (r.merge p).1.results[k]? = some n ∧ n.layout = m.layout ∧ ∀ view cell,
      n.probability? view cell =
        Option.merge eitherOf (r.results.probability? k view cell) (m.probability? view cell) := by
  rw [failure_merge] at h
  have hmem := TreeMap.mem_toList_iff_getElem?_eq_some.2 hm
  rw [results_merge, Results.getElem?_addAll_of_mem Results.nodup_toList h hmem]
  exact Results.getElem?_add_self
    ((Results.addAll_eq_none_iff Results.nodup_toList).1 h (k, m) hmem)

end

end Reduction

/-! ### All tasks -/

namespace PartialResult

variable {α : Type} [TotalOrder α]

/-- No two partial results have results of different layouts for one key. -/
def Agree (ps : List (PartialResult α)) : Prop :=
  ∀ p ∈ ps, ∀ q ∈ ps, ∀ (k : ResultKey α) (m n : Marginals α), p.results[k]? = some m →
    q.results[k]? = some n → m.layout = n.layout

/-- The probabilities in a cell of a key, of the partial results that carry the key. -/
def carried (ps : List (PartialResult α)) (k : ResultKey α) (view : Nat) (cell : List Nat) :
    List α :=
  ps.filterMap fun p => p.results.probability? k view cell

theorem carried_append_singleton (ps : List (PartialResult α)) (p : PartialResult α)
    (k : ResultKey α) (view : Nat) (cell : List Nat) : carried (ps ++ [p]) k view cell =
      carried ps k view cell ++ (p.results.probability? k view cell).toList := by
  unfold carried
  rw [List.filterMap_append]
  cases hp : p.results.probability? k view cell <;> simp [hp]

theorem agree_perm {ps qs : List (PartialResult α)} (h : ps.Perm qs) : Agree ps ↔ Agree qs := by
  unfold Agree
  simp only [h.mem_iff]

end PartialResult

namespace Reduction

section

variable {α : Type} [Field α] [LinearOrder α] [FloorRing α]

/-- The reduction holds the given partial results. -/
structure Merges (ps : List (PartialResult α)) (r : Reduction α) : Prop where
  merged : r.merged = ps.length
  absent : ∀ k : ResultKey α, (∀ p ∈ ps, p.results[k]? = none) → r.results[k]? = none
  layout : ∀ p ∈ ps, ∀ (k : ResultKey α) (m : Marginals α), p.results[k]? = some m →
    ∃ n, r.results[k]? = some n ∧ n.layout = m.layout
  probability : ∀ k view cell x, r.results.probability? k view cell = some x →
    x = 1 - ((PartialResult.carried ps k view cell).map fun y => 1 - y).prod

/-- Merges partial results one after the other, up to the first conflict. -/
def ofPartials (ps : List (PartialResult α)) : Controller (Reduction α) (Error α) :=
  runInTurn .ok merge ps ⟨empty, none⟩

variable {ps qs : List (PartialResult α)} {r r' : Reduction α} {p : PartialResult α}

namespace Merges

theorem nil : Merges [] (empty : Reduction α) where
  merged := rfl
  absent _ _ := TreeMap.getElem?_emptyc
  layout _ hp := absurd hp List.not_mem_nil
  probability k view cell x hx := by
    simp [empty, Results.probability?] at hx

/-- Partial results that are held together have no conflict. -/
theorem agree (h : Merges ps r) : PartialResult.Agree ps := by
  intro p hp q hq k m n hm hn
  obtain ⟨c, hc, hcm⟩ := h.layout p hp k m hm
  obtain ⟨c', hc', hcn⟩ := h.layout q hq k n hn
  rw [hc] at hc'
  cases hc'
  exact hcm.symm.trans hcn

/-- Every key comes from a partial result. -/
theorem exists_of_getElem? (h : Merges ps r) {k : ResultKey α} {n : Marginals α}
    (hn : r.results[k]? = some n) :
    ∃ p ∈ ps, ∃ m, p.results[k]? = some m ∧ n.layout = m.layout := by
  by_cases hall : ∀ p ∈ ps, p.results[k]? = none
  · rw [h.absent k hall] at hn
    cases hn
  · obtain ⟨p, hp, hsome⟩ := not_forall₂.1 hall
    obtain ⟨m, hm⟩ := Option.ne_none_iff_exists'.1 hsome
    obtain ⟨n', hn', hlayout⟩ := h.layout p hp k m hm
    rw [hn] at hn'
    cases hn'
    exact ⟨p, hp, m, hm, hlayout⟩

/-- The keys are those of all partial results. -/
theorem isSome_iff (h : Merges ps r) (k : ResultKey α) :
    r.results[k]?.isSome ↔ ∃ p ∈ ps, p.results[k]?.isSome := by
  constructor
  · intro hk
    obtain ⟨n, hn⟩ := Option.isSome_iff_exists.1 hk
    obtain ⟨p, hp, m, hm, -⟩ := h.exists_of_getElem? hn
    exact ⟨p, hp, by rw [hm]; rfl⟩
  · rintro ⟨p, hp, hk⟩
    obtain ⟨m, hm⟩ := Option.isSome_iff_exists.1 hk
    obtain ⟨n, hn, -⟩ := h.layout p hp k m hm
    rw [hn]
    rfl

/-- No partial result has a cell that the reduction has not. -/
theorem carried_eq_nil (h : Merges ps r) {k : ResultKey α} {view : Nat} {cell : List Nat}
    (hnone : r.results.probability? k view cell = none) :
    PartialResult.carried ps k view cell = [] := by
  refine List.filterMap_eq_nil_iff.2 fun p hp => ?_
  by_contra hsome
  obtain ⟨y, hy⟩ := Option.ne_none_iff_exists'.1 hsome
  obtain ⟨m, hm, hmy⟩ := Option.bind_eq_some_iff.1 hy
  obtain ⟨n, hn, hlayout⟩ := h.layout p hp k m hm
  have hcell : (n.probability? view cell).isSome := by
    rw [Marginals.isSome_probability?_iff, hlayout, ← Marginals.isSome_probability?_iff, hmy]
    rfl
  rw [Results.probability?_of_some hn] at hnone
  rw [hnone] at hcell
  cases hcell

/-- One more partial result without a conflict. -/
theorem merge (h : Merges ps r) (hmerge : (r.merge p).2 = none) :
    Merges (ps ++ [p]) (r.merge p).1 where
  merged := by
    rw [merged_merge hmerge, h.merged, List.length_append, List.length_singleton]
  absent k hk := by
    rw [List.forall_mem_append, List.forall_mem_singleton] at hk
    rw [getElem?_merge_of_absent hk.2, h.absent k hk.1]
  layout q hq k m hm := by
    rcases List.mem_append.1 hq with hq | hq
    · obtain ⟨n, hn, hlayout⟩ := h.layout q hq k m hm
      cases hp : p.results[k]? with
      | none => exact ⟨n, (getElem?_merge_of_absent hp).trans hn, hlayout⟩
      | some m' =>
        obtain ⟨n', hn', hlayout', -⟩ := getElem?_merge_of_present hmerge hp
        have hsame := merge_eq_none_iff.1 hmerge k m' n hp hn
        exact ⟨n', hn', hlayout'.trans (hsame.symm.trans hlayout)⟩
    · obtain rfl := List.mem_singleton.1 hq
      obtain ⟨n', hn', hlayout', -⟩ := getElem?_merge_of_present hmerge hm
      exact ⟨n', hn', hlayout'⟩
  probability k view cell x hx := by
    rw [PartialResult.carried_append_singleton, List.map_append, List.prod_append]
    cases hp : p.results[k]? with
    | none =>
      rw [Results.probability?, getElem?_merge_of_absent hp] at hx
      simpa [Results.probability?_of_none hp] using h.probability k view cell x hx
    | some m =>
      obtain ⟨n, hn, -, hcell⟩ := getElem?_merge_of_present hmerge hp
      rw [Results.probability?_of_some hn, hcell] at hx
      rw [Results.probability?_of_some hp]
      cases hfound : r.results.probability? k view cell with
      | none =>
        rw [hfound, Option.merge_none_left] at hx
        simp [h.carried_eq_nil hfound, hx]
      | some y =>
        have hy := h.probability k view cell y hfound
        rw [hfound] at hx
        cases hm : m.probability? view cell with
        | none =>
          rw [hm] at hx
          cases hx
          simpa using hy
        | some z =>
          rw [hm] at hx
          cases hx
          rw [eitherOf, hy]
          simp

end Merges

/-! ### The order of the tasks -/

/-- Without a failure on the way, the reduction holds all partial results. -/
theorem merges_of_failure_eq_none (h : (ofPartials ps).failure = none) :
    Merges ps (ofPartials ps).state := by
  refine keeps_of_runInTurn Merges.nil (fun done p r q hr hq hmerge => ?_) h
  cases hq
  exact hr.merge hmerge

/-- Partial results without conflicts can be merged. -/
theorem failure_eq_none_of_agree (h : PartialResult.Agree ps) : (ofPartials ps).failure = none := by
  have hkeeps : ∃ r, ofPartials ps = ⟨r, none⟩ ∧ Merges ps r := by
    refine runInTurn_keeps Merges.nil fun done p rest r hdone hr => ?_
    have hmerge : (r.merge p).2 = none := by
      rw [merge_eq_none_iff]
      intro k m n hm hn
      obtain ⟨q, hq, m', hm', hlayout⟩ := hr.exists_of_getElem? hn
      refine hlayout.trans (h q ?_ p ?_ k m' m hm' hm)
      · rw [← hdone]
        exact List.mem_append_left _ hq
      · rw [← hdone]
        exact List.mem_append_right _ List.mem_cons_self
    exact ⟨p, (r.merge p).1, rfl, Prod.ext rfl hmerge, hr.merge hmerge⟩
  obtain ⟨r, hr, -⟩ := hkeeps
  rw [hr]

theorem failure_ofPartials_iff : (ofPartials ps).failure = none ↔ PartialResult.Agree ps := by
  constructor
  · intro h
    exact (merges_of_failure_eq_none h).agree
  · exact failure_eq_none_of_agree

/-- A reduction is determined by the partial results it holds, in whatever order. -/
theorem Merges.toList_eq (h : Merges ps r) (h' : Merges qs r') (hperm : ps.Perm qs) :
    r.results.toList = r'.results.toList := by
  have hkeys : ∀ k : ResultKey α, r.results[k]?.isSome ↔ r'.results[k]?.isSome := by
    intro k
    rw [h.isSome_iff, h'.isSome_iff]
    simp only [hperm.mem_iff]
  refine TreeMap.Equiv.toList_eq (TreeMap.Equiv.of_forall_constGet?_eq fun k => ?_)
  cases hr : r.results[k]? with
  | none =>
    cases hr' : r'.results[k]? with
    | none => rfl
    | some n' =>
      have hk := (hkeys k).2 (by rw [hr']; rfl)
      rw [hr] at hk
      cases hk
  | some n =>
    obtain ⟨p, hp, m, hm, hlayout⟩ := h.exists_of_getElem? hr
    obtain ⟨n', hr', hlayout'⟩ := h'.layout p (hperm.mem_iff.1 hp) k m hm
    have hsame : n.layout = n'.layout := hlayout.trans hlayout'.symm
    rw [hr']
    refine congrArg some (Marginals.eq_of_probability?_eq hsame fun view cell => ?_)
    have hcarried : ((PartialResult.carried ps k view cell).map fun y => 1 - y).prod =
        ((PartialResult.carried qs k view cell).map fun y => 1 - y).prod :=
      ((hperm.filterMap _).map _).prod_eq
    have hcell : (n.probability? view cell).isSome ↔ (n'.probability? view cell).isSome := by
      rw [Marginals.isSome_probability?_iff, Marginals.isSome_probability?_iff, hsame]
    cases hx : n.probability? view cell with
    | none =>
      rw [hx] at hcell
      exact (Option.not_isSome_iff_eq_none.1 fun h => Bool.noConfusion (hcell.2 h)).symm
    | some x =>
      rw [hx] at hcell
      obtain ⟨x', hx'⟩ := Option.isSome_iff_exists.1 (hcell.1 rfl)
      have hvalue := h.probability k view cell x ((Results.probability?_of_some hr view cell).trans hx)
      have hvalue' :=
        h'.probability k view cell x' ((Results.probability?_of_some hr' view cell).trans hx')
      rw [hx', hvalue, hvalue', hcarried]

/-- Merging partial results succeeds in every order or in none, namely if no two of them have
different layouts for one key. The results have the keys of all partial results and the layouts that
these have there, each cell combines the cells of those that carry the key, and the order makes no
difference. A key without a result in one of them is left as it is by that one, also if its merge
fails. -/
theorem ofPartials_perm (h : ps.Perm qs) :
    ((ofPartials ps).failure = none ↔ PartialResult.Agree ps) ∧
    ((ofPartials qs).failure = none ↔ PartialResult.Agree ps) ∧
    (PartialResult.Agree ps →
      (ofPartials ps).state.results.toList = (ofPartials qs).state.results.toList ∧
      (∀ k : ResultKey α, (ofPartials ps).state.results[k]?.isSome ↔
        ∃ p ∈ ps, p.results[k]?.isSome) ∧
      (∀ p ∈ ps, ∀ (k : ResultKey α) (m : Marginals α), p.results[k]? = some m →
        ∃ n, (ofPartials ps).state.results[k]? = some n ∧ n.layout = m.layout) ∧
      (∀ k view cell x, (ofPartials ps).state.results.probability? k view cell = some x →
        x = 1 - ((PartialResult.carried ps k view cell).map fun y => 1 - y).prod) ∧
      (ofPartials ps).state.merged = ps.length ∧ (ofPartials qs).state.merged = qs.length) ∧
    ∀ (r : Reduction α) (p : PartialResult α) (k : ResultKey α), p.results[k]? = none →
      (r.merge p).1.results[k]? = r.results[k]? := by
  refine ⟨failure_ofPartials_iff, failure_ofPartials_iff.trans (PartialResult.agree_perm h).symm, ?_, ?_⟩
  · intro hagree
    have hps := merges_of_failure_eq_none (failure_ofPartials_iff.2 hagree)
    have hqs := merges_of_failure_eq_none (failure_ofPartials_iff.2 ((PartialResult.agree_perm h).1 hagree))
    exact ⟨hps.toList_eq hqs h, hps.isSome_iff, hps.layout, hps.probability, hps.merged, hqs.merged⟩
  · intro r p k hk
    exact getElem?_merge_of_absent hk

end

/-! ### A sample -/

namespace Sample

def key : ResultKey ℚ := ⟨0, 0, none, "PGA", 1 / 10, ["A"]⟩

def otherKey : ResultKey ℚ := ⟨1, 0, none, "PGA", 1 / 10, ["A"]⟩

def byMagnitude (p q : ℚ) : Marginals ℚ := ⟨[(.mag, ⟨[2], #[p, q], rfl⟩)]⟩

def partialResult : PartialResult ℚ :=
  ⟨0, TreeMap.ofList [(key, byMagnitude (1 / 2) 0), (otherKey, byMagnitude 0 (1 / 3))] _⟩

def otherPartialResult : PartialResult ℚ :=
  ⟨1, TreeMap.ofList [(key, byMagnitude (1 / 4) (1 / 5))] _⟩

end Sample

/-- Two partial results with one key in common. -/
theorem ofPartials_perm_sample :
    [Sample.partialResult, Sample.otherPartialResult].Perm
      [Sample.otherPartialResult, Sample.partialResult] ∧
    (ofPartials [Sample.partialResult, Sample.otherPartialResult]).failure = none ∧
    (ofPartials [Sample.partialResult, Sample.otherPartialResult]).state.results.toList =
      (ofPartials [Sample.otherPartialResult, Sample.partialResult]).state.results.toList ∧
    (ofPartials [Sample.partialResult, Sample.otherPartialResult]).state.results.probability?
      Sample.key 0 [0] = some (5 / 8) := by
  have hperm : [Sample.partialResult, Sample.otherPartialResult].Perm
      [Sample.otherPartialResult, Sample.partialResult] := .swap _ _ _
  have hfailure : (ofPartials [Sample.partialResult, Sample.otherPartialResult]).failure = none :=
    Option.isNone_iff_eq_none.1 (by decide +kernel)
  obtain ⟨hagree, -, hmerged, -⟩ := ofPartials_perm hperm
  exact ⟨hperm, hfailure, (hmerged (hagree.1 hfailure)).1, by decide +kernel⟩

end Reduction

end SeismicHazard
