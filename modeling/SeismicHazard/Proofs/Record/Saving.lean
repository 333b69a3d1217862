import Mathlib.Algebra.Order.Group.Abs
import Mathlib.Data.Rat.Floor
import SeismicHazard.Proofs.Fallible
import SeismicHazard.Proofs.Number.Span
import SeismicHazard.Proofs.Number.WithNaN
import SeismicHazard.Proofs.Result.KeyOrder
import SeismicHazard.Record

/-!
# Saving records in turn

The records of results are handed to a sink one by one, in the order of their keys, up to the first that
cannot be made, that the check refuses or that the sink refuses. The strict check compares the numbers
among the overall probabilities that the views of a result give: it passes over what is not a number.

* `RecordContext.record?`, `RecordContext.records`: the records of results.
* `saveAll_append`: results whose records are saved leave the rest to be saved.
* `Saving.exists_done`, `Saving.Stops`: results in front are saved, and what ends it at the next one.
* `Record.check_strict`: which records pass the strict check.
* `saveResults_strict`: what is handed to a sink in strict mode, and how it ends.
* `nan_saved`: a record with views that do not agree is saved in strict mode.
-/

namespace SeismicHazard

/-! ### Records -/

namespace RecordContext

variable {α : Type} [Scalar α] [DecimalText α] {c : RecordContext α} {k : ResultKey α}
  {m : Marginals α} {r : Record α}

/-- The record of a result, if its site and its grid are there. -/
def record? (c : RecordContext α) (k : ResultKey α) (m : Marginals α) : Option (Record α) := do
  let site ← c.sites.get? k.site
  let grid ← c.grids[k.site]?
  return Record.ofResult k m site grid c.time

/-- The records of several results, in their order. -/
def records (c : RecordContext α) (entries : List (ResultKey α × Marginals α)) : List (Record α) :=
  entries.filterMap fun e => c.record? e.1 e.2

theorem record?_eq_some : c.record? k m = some r ↔ ∃ site grid, c.sites.get? k.site = some site ∧
    c.grids[k.site]? = some grid ∧ r = Record.ofResult k m site grid c.time := by
  unfold record?
  cases c.sites.get? k.site with
  | none => simp
  | some site =>
    cases c.grids[k.site]? with
    | none => simp
    | some grid => simp [eq_comm]

theorem checkedRecord_eq (h : c.record? k m = some r) :
    checkedRecord c k m = (r.check c.tolerance c.strict).map fun _ => r := by
  obtain ⟨site, grid, hsite, hgrid, rfl⟩ := record?_eq_some.1 h
  unfold checkedRecord
  rw [hsite, hgrid]
  simp only
  cases (Record.ofResult k m site grid c.time).check c.tolerance c.strict with
  | error e => rfl
  | ok _ => rfl

theorem records_cons {e : ResultKey α × Marginals α} {entries : List (ResultKey α × Marginals α)}
    (h : c.record? e.1 e.2 = some r) : c.records (e :: entries) = r :: c.records entries :=
  List.filterMap_cons_some h

/-- If every result has its site and its grid then every one has a record. -/
theorem length_records {entries : List (ResultKey α × Marginals α)}
    (h : ∀ e ∈ entries, ∃ r, c.record? e.1 e.2 = some r) :
    (c.records entries).length = entries.length := by
  induction entries with
  | nil => rfl
  | cons e entries ih =>
    rw [List.forall_mem_cons] at h
    obtain ⟨r, hr⟩ := h.1
    rw [records_cons hr, List.length_cons, List.length_cons, ih h.2]

/-- A record is handed on if it can be made and passes the check. -/
theorem checkedRecord_eq_ok : checkedRecord c k m = .ok r ↔
    c.record? k m = some r ∧ r.check c.tolerance c.strict = .ok () := by
  constructor
  · intro h
    have hmade : ∃ r, c.record? k m = some r := by
      unfold checkedRecord at h
      split at h
      · cases h
      · cases h
      · next site grid hsite hgrid => exact ⟨_, record?_eq_some.2 ⟨site, grid, hsite, hgrid, rfl⟩⟩
    obtain ⟨r', hr'⟩ := hmade
    rw [checkedRecord_eq hr'] at h
    cases hcheck : r'.check c.tolerance c.strict with
    | error e =>
      rw [hcheck] at h
      cases h
    | ok _ =>
      rw [hcheck] at h
      cases h
      exact ⟨hr', hcheck⟩
  · rintro ⟨hr, hcheck⟩
    rw [checkedRecord_eq hr, hcheck]
    rfl

end RecordContext

/-- A record is refused in strict mode only. -/
theorem Record.check_of_not_strict {α : Type} [Scalar α] (r : Record α) (tolerance : α) :
    r.check tolerance false = .ok () := by
  rw [check, Bool.not_false, Bool.or_true]
  rfl

/-! ### Any sink -/

section

variable {σ α : Type} [Scalar α] [DecimalText α] {c : RecordContext α}
  {save : σ → Record α → Except (Error α) σ} {done rest : List (ResultKey α × Marginals α)} {s s' : σ}

/-- Results whose records pass the check and are accepted one after the other are saved before the
rest. -/
theorem saveAll_append (hdone : ∀ e ∈ done, ∃ r, checkedRecord c e.1 e.2 = .ok r)
    (hsave : (c.records done).foldlM save s = .ok s') (saved : ℕ) :
    saveAll c save (done ++ rest) s saved = saveAll c save rest s' (saved + done.length) := by
  induction done generalizing s saved with
  | nil =>
    cases hsave
    rfl
  | cons e done ih =>
    obtain ⟨k, m⟩ := e
    rw [List.forall_mem_cons] at hdone
    obtain ⟨⟨r, hr⟩, hdone⟩ := hdone
    rw [RecordContext.records_cons (RecordContext.checkedRecord_eq_ok.1 hr).1, List.foldlM_cons,
      Fallible.bind_eq_ok] at hsave
    obtain ⟨t, ht, hsave⟩ := hsave
    rw [List.cons_append, saveAll, hr]
    simp only [ht]
    rw [ih hdone hsave, List.length_cons, Nat.add_assoc, Nat.add_comm 1]

/-- What ends the saving of records at a result: no record of it is handed on, or the sink refuses the
one that is. -/
def Saving.EndsAt (c : RecordContext α) (save : σ → Record α → Except (Error α) σ) (s : σ)
    (k : ResultKey α) (m : Marginals α) (e : Error α) : Prop :=
  checkedRecord c k m = .error e ∨ ∃ r, checkedRecord c k m = .ok r ∧ save s r = .error e

theorem saveAll_of_endsAt {k : ResultKey α} {m : Marginals α} {e : Error α}
    (h : Saving.EndsAt c save s k m e) (saved : ℕ) :
    saveAll c save ((k, m) :: rest) s saved = ⟨s, saved, some e⟩ := by
  rw [saveAll]
  rcases h with hmade | ⟨r, hr, hsave⟩
  · rw [hmade]
  · rw [hr]
    simp only [hsave]

/-- Some results in front are saved, and then there is none left or it ends at the next one. -/
theorem Saving.exists_done (c : RecordContext α) (save : σ → Record α → Except (Error α) σ)
    (entries : List (ResultKey α × Marginals α)) (s : σ) :
    ∃ done rest s', entries = done ++ rest ∧
      (∀ e ∈ done, ∃ r, checkedRecord c e.1 e.2 = .ok r) ∧ (c.records done).foldlM save s = .ok s' ∧
      (rest = [] ∨ ∃ k m more e, rest = (k, m) :: more ∧ EndsAt c save s' k m e) := by
  induction entries generalizing s with
  | nil => exact ⟨[], [], s, rfl, fun e he => absurd he List.not_mem_nil, rfl, .inl rfl⟩
  | cons entry entries ih =>
    obtain ⟨k, m⟩ := entry
    have hends : ∀ e, EndsAt c save s k m e → ∃ done rest s', (k, m) :: entries = done ++ rest ∧
        (∀ e ∈ done, ∃ r, checkedRecord c e.1 e.2 = .ok r) ∧
        (c.records done).foldlM save s = .ok s' ∧
        (rest = [] ∨ ∃ k m more e, rest = (k, m) :: more ∧ EndsAt c save s' k m e) := fun e he =>
      ⟨[], _, s, rfl, fun e he => absurd he List.not_mem_nil, rfl, .inr ⟨k, m, entries, e, rfl, he⟩⟩
    cases hmade : checkedRecord c k m with
    | error e => exact hends e (.inl hmade)
    | ok r =>
      cases hsave : save s r with
      | error e => exact hends e (.inr ⟨r, hmade, hsave⟩)
      | ok t =>
        obtain ⟨done, rest, s', rfl, hdone, hsaves, hend⟩ := ih t
        refine ⟨(k, m) :: done, rest, s', rfl, List.forall_mem_cons.2 ⟨⟨r, hmade⟩, hdone⟩, ?_, hend⟩
        rw [RecordContext.records_cons (RecordContext.checkedRecord_eq_ok.1 hmade).1, List.foldlM_cons,
          hsave]
        exact hsaves

end

/-! ### The strict check -/

section

variable {α : Type} [Field α] [LinearOrder α] [FloorRing α]

/-- The range of the numbers among some values is that of these numbers. -/
theorem Span.ofNumbers_eq (xs : List (WithNaN α)) : ofNumbers xs =
    (ofNumbers (xs.filterMap WithNaN.toNumber?)).map fun s => ⟨.number s.lo, .number s.hi⟩ := by
  induction xs using List.reverseRecOn with
  | nil => rfl
  | append_singleton xs a ih =>
    rw [ofNumbers_append_singleton, ih, List.filterMap_append]
    cases a with
    | nan =>
      rw [List.filterMap_cons_none rfl, List.filterMap_nil, List.append_nil]
      cases ofNumbers (xs.filterMap WithNaN.toNumber?) with
      | none => rfl
      | some s => simp [extendByNumber, add]
    | number x =>
      have hx : [WithNaN.number x].filterMap WithNaN.toNumber? = [x] := rfl
      rw [hx, ofNumbers_append_singleton]
      cases ofNumbers (xs.filterMap WithNaN.toNumber?) with
      | none => simp [extendByNumber, single]
      | some s => simp [extendByNumber, add, Scalar.min_eq, Scalar.max_eq]

namespace Record

variable {r : Record (WithNaN α)} {tolerance : α}

/-- Whether the numbers among the overall probabilities that the views of a record give differ by no
more than the tolerance. -/
def Agrees (r : Record (WithNaN α)) (tolerance : α) : Prop :=
  ∀ x y, .number x ∈ r.aggregates → .number y ∈ r.aggregates → |x - y| ≤ tolerance

variable [IsStrictOrderedRing α]

/-- Values agree if the numbers among them do, also if there is no number at all. -/
theorem agree_iff (xs : List (WithNaN α)) :
    agree (.number tolerance) xs = true ↔
      ∀ x y, .number x ∈ xs → .number y ∈ xs → |x - y| ≤ tolerance := by
  cases xs with
  | nil => simp [agree]
  | cons a rest =>
    have hholds := Span.ofNumbers_holds ((a :: rest).filterMap WithNaN.toNumber?)
    have hspan := Span.ofNumbers_eq (a :: rest)
    simp only [agree, hspan]
    simp only [← WithNaN.mem_filterMap_toNumber?]
    generalize (a :: rest).filterMap WithNaN.toNumber? = numbers at hholds ⊢
    cases hrange : Span.ofNumbers numbers with
    | none =>
      rw [hrange] at hholds
      cases hholds
      simp
    | some s =>
      rw [hrange] at hholds
      obtain ⟨hlo, hhi, hall⟩ := hholds
      simp only [Option.map_some, WithNaN.number_sub_number, WithNaN.number_le_number,
        decide_eq_true_eq]
      constructor
      · intro hwidth x y hx hy
        obtain ⟨hxlo, hxhi⟩ := hall x hx
        obtain ⟨hylo, hyhi⟩ := hall y hy
        rw [abs_sub_le_iff]
        exact ⟨(sub_le_sub hxhi hylo).trans hwidth, (sub_le_sub hyhi hxlo).trans hwidth⟩
      · intro hclose
        exact (le_abs_self _).trans (hclose s.hi s.lo hhi hlo)

/-- In strict mode a record passes if its numbers agree, and is refused with all of its overall
probabilities if they do not. -/
theorem check_strict :
    (r.Agrees tolerance → r.check (.number tolerance) true = .ok ()) ∧
      (¬ r.Agrees tolerance →
        r.check (.number tolerance) true = .error (.inconsistent r.name r.aggregates)) := by
  have hagree : agree (.number tolerance) r.aggregates = true ↔ r.Agrees tolerance :=
    agree_iff r.aggregates
  rw [check, Bool.not_true, Bool.or_false]
  exact ⟨fun h => if_pos (hagree.2 h), fun h => if_neg (mt hagree.1 h)⟩

end Record

/-! ### Saving in strict mode -/

section

variable {σ : Type} [DecimalText (WithNaN α)] {c : RecordContext (WithNaN α)} {tolerance : α}
  {save save' : σ → Record (WithNaN α) → Except (Error (WithNaN α)) σ} {s : σ}
  {k : ResultKey (WithNaN α)} {m : Marginals (WithNaN α)} {r : Record (WithNaN α)}
  {e : Error (WithNaN α)} {handed : List (Record (WithNaN α))}

namespace Saving

/-- What happens at the result at which saving ends: the records of it that the sink is handed, and the
error. -/
inductive Stops (c : RecordContext (WithNaN α)) (tolerance : α)
    (save : σ → Record (WithNaN α) → Except (Error (WithNaN α)) σ) (s : σ) (k : ResultKey (WithNaN α))
    (m : Marginals (WithNaN α)) : List (Record (WithNaN α)) → Error (WithNaN α) → Prop
  | withoutSite (hsite : c.sites.get? k.site = none) :
    Stops c tolerance save s k m [] (.input (.unknownSite k.site))
  | withoutGrid {site : Site (WithNaN α)} (hsite : c.sites.get? k.site = some site)
      (hgrid : c.grids[k.site]? = none) :
    Stops c tolerance save s k m [] (.input (.noEdges k.site))
  | apart {r : Record (WithNaN α)} (hr : c.record? k m = some r) (hapart : ¬ r.Agrees tolerance) :
    Stops c tolerance save s k m [] (.inconsistent r.name r.aggregates)
  | refused {r : Record (WithNaN α)} {e : Error (WithNaN α)} (hr : c.record? k m = some r)
      (hagrees : r.Agrees tolerance) (hsave : save s r = .error e) :
    Stops c tolerance save s k m [r] e

/-- Only what the sink does with the records that it is handed matters. -/
theorem Stops.congr (h : Stops c tolerance save s k m handed e)
    (hsame : ∀ r ∈ handed, save' s r = save s r) : Stops c tolerance save' s k m handed e := by
  cases h with
  | withoutSite hsite => exact .withoutSite hsite
  | withoutGrid hsite hgrid => exact .withoutGrid hsite hgrid
  | apart hr hapart => exact .apart hr hapart
  | refused hr hagrees hsave =>
    exact .refused hr hagrees ((hsame _ (List.mem_singleton_self _)).trans hsave)

theorem Stops.agrees (h : Stops c tolerance save s k m handed e) :
    ∀ r ∈ handed, r.Agrees tolerance := by
  cases h with
  | withoutSite | withoutGrid | apart => exact fun r hr => absurd hr List.not_mem_nil
  | refused _ hagrees _ => exact List.forall_mem_singleton.2 hagrees

end Saving

variable [IsStrictOrderedRing α]

theorem checkedRecord_strict (hstrict : c.strict = true) (hc : c.tolerance = .number tolerance) :
    checkedRecord c k m = .ok r ↔ c.record? k m = some r ∧ r.Agrees tolerance := by
  rw [RecordContext.checkedRecord_eq_ok, hstrict, hc]
  refine and_congr_right fun _ => ⟨fun h => ?_, Record.check_strict.1⟩
  by_contra hapart
  rw [Record.check_strict.2 hapart] at h
  cases h

namespace Saving

/-- In strict mode saving ends for one of four reasons. -/
theorem EndsAt.exists_stops (hstrict : c.strict = true) (hc : c.tolerance = .number tolerance)
    (h : EndsAt c save s k m e) : ∃ handed, Stops c tolerance save s k m handed e := by
  rcases h with hmade | ⟨r, hr, hsave⟩
  · cases hsite : c.sites.get? k.site with
    | none =>
      simp only [checkedRecord, hsite] at hmade
      cases hmade
      exact ⟨[], .withoutSite hsite⟩
    | some site =>
      cases hgrid : c.grids[k.site]? with
      | none =>
        simp only [checkedRecord, hsite, hgrid] at hmade
        cases hmade
        exact ⟨[], .withoutGrid hsite hgrid⟩
      | some grid =>
        have hr : c.record? k m = some (Record.ofResult k m site grid c.time) :=
          RecordContext.record?_eq_some.2 ⟨site, grid, hsite, hgrid, rfl⟩
        have hapart : ¬ (Record.ofResult k m site grid c.time).Agrees tolerance := by
          intro hagrees
          rw [(checkedRecord_strict hstrict hc).2 ⟨hr, hagrees⟩] at hmade
          cases hmade
        rw [RecordContext.checkedRecord_eq hr, hstrict, hc, Record.check_strict.2 hapart] at hmade
        cases hmade
        exact ⟨[], .apart hr hapart⟩
  · obtain ⟨hr, hagrees⟩ := (checkedRecord_strict hstrict hc).1 hr
    exact ⟨[r], .refused hr hagrees hsave⟩

theorem Stops.endsAt (hstrict : c.strict = true) (hc : c.tolerance = .number tolerance)
    (h : Stops c tolerance save s k m handed e) : EndsAt c save s k m e := by
  cases h with
  | withoutSite hsite => exact .inl (by simp only [checkedRecord, hsite])
  | withoutGrid hsite hgrid => exact .inl (by simp only [checkedRecord, hsite, hgrid])
  | apart hr hapart =>
    refine .inl ?_
    rw [RecordContext.checkedRecord_eq hr, hstrict, hc, Record.check_strict.2 hapart]
    rfl
  | refused hr hagrees hsave =>
    exact .inr ⟨_, (checkedRecord_strict hstrict hc).2 ⟨hr, hagrees⟩, hsave⟩

end Saving

/-- What is saved in strict mode. The sink is handed records in the order of the keys, those of the
results in front and perhaps that of the next one, and nothing else matters that it would do. Each of
them agrees within the tolerance as far as its overall probabilities are numbers. Saving ends at the
first result without a site or a grid, with numbers that are apart, or with a record that the sink
refuses. There is no failure exactly if all results are saved, and then their number is given. -/
theorem saveResults_strict [TotalOrder (WithNaN α)]
    [Std.TransCmp (TotalOrder.cmp : WithNaN α → WithNaN α → Ordering)] (hstrict : c.strict = true)
    (hc : c.tolerance = .number tolerance)
    (save : σ → Record (WithNaN α) → Except (Error (WithNaN α)) σ) (results : Results (WithNaN α))
    (s : σ) :
    let saving := saveResults c save results s
    results.toList.Pairwise (fun e e' => e.1.compare e'.1 = .lt) ∧
    (saving.failure = none ↔ saving.saved = results.size) ∧
    ∃ done rest handed, results.toList = done ++ rest ∧ saving.saved = done.length ∧
      (c.records done).length = done.length ∧
      (c.records done).foldlM save s = .ok saving.sink ∧
      (rest = [] ∧ saving.failure = none ∧ handed = [] ∨
        ∃ k m more e, rest = (k, m) :: more ∧ saving.failure = some e ∧
          Saving.Stops c tolerance save saving.sink k m handed e) ∧
      (∀ r ∈ c.records done ++ handed, r.Agrees tolerance) ∧
      ∀ save', (∀ r ∈ c.records done ++ handed, ∀ t, save' t r = save t r) →
        saveResults c save' results s = saving := by
  intro saving
  refine ⟨Std.TreeMap.ordered_keys_toList, ?_⟩
  obtain ⟨done, rest, s', hentries, hdone, hsaves, hend⟩ := Saving.exists_done c save results.toList s
  have hsize : results.size = done.length + rest.length := by
    rw [← Std.TreeMap.length_toList, hentries, List.length_append]
  have hmade : ∀ e ∈ done, ∃ r, c.record? e.1 e.2 = some r ∧ r.Agrees tolerance := fun e he => by
    obtain ⟨r, hr⟩ := hdone e he
    exact ⟨r, (checkedRecord_strict hstrict hc).1 hr⟩
  have hlength : (c.records done).length = done.length :=
    RecordContext.length_records fun e he => (hmade e he).imp fun _ h => h.1
  have hagrees : ∀ r ∈ c.records done, r.Agrees tolerance := fun r hr => by
    obtain ⟨e, he, hr⟩ := List.mem_filterMap.1 hr
    obtain ⟨r', hr', hagrees⟩ := hmade e he
    cases hr'.symm.trans hr
    exact hagrees
  -- the results in front are saved by every sink that does the same with their records
  have hfront : ∀ save' : σ → Record (WithNaN α) → Except (Error (WithNaN α)) σ,
      (∀ r ∈ c.records done, ∀ t, save' t r = save t r) →
      saveResults c save' results s = saveAll c save' rest s' done.length := fun save' hsame => by
    rw [saveResults, hentries, saveAll_append hdone ((Fallible.foldlM_congr hsame).trans hsaves),
      Nat.zero_add]
  have hsaving : saving = saveAll c save rest s' done.length := hfront save fun _ _ _ => rfl
  rcases hend with rfl | ⟨k, m, more, e, rfl, hends⟩
  · rw [hsaving]
    refine ⟨⟨fun _ => hsize.symm, fun _ => rfl⟩, done, [], [], hentries, rfl, hlength, hsaves,
      .inl ⟨rfl, rfl, rfl⟩, ?_, fun save' hsame => ?_⟩
    · rwa [List.append_nil]
    · rw [List.append_nil] at hsame
      exact hfront save' hsame
  · obtain ⟨handed, hstops⟩ := hends.exists_stops hstrict hc
    have hstop : ∀ save' : σ → Record (WithNaN α) → Except (Error (WithNaN α)) σ,
        Saving.Stops c tolerance save' s' k m handed e →
        saveAll c save' ((k, m) :: more) s' done.length = ⟨s', done.length, some e⟩ :=
      fun save' h => saveAll_of_endsAt (h.endsAt hstrict hc) _
    rw [hsaving, hstop save hstops]
    refine ⟨⟨fun h => ?_, fun h => ?_⟩, done, _, handed, hentries, rfl, hlength, hsaves,
      .inr ⟨k, m, more, e, rfl, rfl, hstops⟩, ?_, fun save' hsame => ?_⟩
    · cases h
    · have hall : done.length = results.size := h
      rw [hsize, List.length_cons] at hall
      omega
    · exact List.forall_mem_append.2 ⟨hagrees, hstops.agrees⟩
    · rw [List.forall_mem_append] at hsame
      rw [hfront save' hsame.1, hstop save' (hstops.congr fun r hr => hsame.2 r hr s')]

end

end

/-! ### A sample -/

namespace Saving.Sample

/-- Texts of numbers play no part in the sample. -/
scoped instance : DecimalText (WithNaN ℚ) where
  numeral _ _ := .nan
  read _ := .nan

def grid : Grid (WithNaN ℚ) := ⟨[], [], [], [], []⟩

/-- Two sites, and a small tolerance. -/
def context : RecordContext (WithNaN ℚ) where
  sites := ⟨[⟨0, .surface 0 0, 1⟩, ⟨1, .surface 0 0, 1⟩]⟩
  grids := Std.TreeMap.ofList [(0, grid), (1, grid)]
  time := 1
  tolerance := .number (1 / 1000)
  strict := true

/-- A result at a site with two views of one cell each. -/
def result (site : ℕ) (p q : WithNaN ℚ) : ResultKey (WithNaN ℚ) × Marginals (WithNaN ℚ) :=
  (⟨site, 0, none, "PGA", 1, []⟩, ⟨[(.mag, .fill [1] p), (.dist, .fill [1] q)]⟩)

def results (entries : List (ResultKey (WithNaN ℚ) × Marginals (WithNaN ℚ))) : Results (WithNaN ℚ) :=
  Std.TreeMap.ofList entries ResultKey.compare

/-- A sink that accepts and keeps all records. -/
def keep (s : List (Record (WithNaN ℚ))) (r : Record (WithNaN ℚ)) :
    Except (Error (WithNaN ℚ)) (List (Record (WithNaN ℚ))) :=
  .ok (s ++ [r])

theorem foldlM_keep (rs s : List (Record (WithNaN ℚ))) : rs.foldlM keep s = .ok (s ++ rs) := by
  induction rs generalizing s with
  | nil => rw [List.append_nil]; rfl
  | cons r rs ih =>
    rw [List.foldlM_cons, List.append_cons]
    exact ih (s ++ [r])

end Saving.Sample

open Saving.Sample in
/-- Of two results the one whose views are not numbers alike is saved, and that with two different
numbers is not. -/
theorem saveResults_strict_sample :
    context.strict = true ∧ context.tolerance = .number (1 / 1000) ∧
    let saving := saveResults context keep
      (results [result 1 (.number (1 / 10)) (.number (3 / 10)), result 0 .nan (.number (1 / 10))]) []
    saving.saved = 1 ∧ saving.failure ≠ none ∧ saving.sink.length = 1 ∧
      ∀ r ∈ saving.sink, r.Agrees (1 / 1000) := by
  refine ⟨rfl, rfl, ?_⟩
  intro saving
  obtain ⟨-, hall, done, rest, handed, -, hsaved, hlength, hsink, -, hagrees, -⟩ :=
    saveResults_strict (c := context) rfl rfl keep
      (results [result 1 (.number (1 / 10)) (.number (3 / 10)), result 0 .nan (.number (1 / 10))]) []
  have hone : saving.saved = 1 := by decide +kernel
  rw [foldlM_keep] at hsink
  have hrecords : context.records done = saving.sink := Except.ok.inj hsink
  refine ⟨hone, fun hnone => ?_, ?_, fun r hr => ?_⟩
  · have htwo : saving.saved = 2 := (hall.1 hnone).trans (by decide +kernel)
    omega
  · rw [← hrecords, hlength, ← hsaved]
    exact hone
  · exact hagrees r (List.mem_append_left _ (hrecords ▸ hr))

open Saving.Sample in
/-- In strict mode a record is saved although one of its views gives a probability and the other one no
number. -/
theorem nan_saved :
    let saving := saveResults context keep (results [result 0 .nan (.number (1 / 10))]) []
    context.strict = true ∧ saving.failure = none ∧ saving.saved = 1 ∧
      ∃ r, saving.sink = [r] ∧ .nan ∈ r.aggregates ∧ .number (1 / 10) ∈ r.aggregates := by
  intro saving
  have haggregates : saving.sink.map (·.aggregates) = [[.nan, .number (1 / 10)]] := by decide +kernel
  obtain ⟨r, hsink, hr⟩ := List.map_eq_singleton_iff.1 haggregates
  refine ⟨rfl, Option.isNone_iff_eq_none.1 (by decide +kernel), by decide +kernel, r, hsink, ?_, ?_⟩
  · rw [hr]
    exact List.mem_cons_self
  · rw [hr]
    exact List.mem_cons_of_mem _ List.mem_cons_self

end SeismicHazard
