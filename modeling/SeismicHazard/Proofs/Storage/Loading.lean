import SeismicHazard.Proofs.Storage.Row
import SeismicHazard.Proofs.Storage.Session

/-!
# Loading what was saved

A run gives its records back in the order in which they were saved, whatever other runs have saved in
between, as long as the records are such that all their columns can be read. Nothing checks that when a
record is saved.

* `Record.Storable`: records that are accepted and read back as they are.
* `Session.Handle.Kept.loadRecords_eq`, `Session.Handle.Kept.loadRecord_eq`: what a run gives back.
* `Session.Sound.exists_save_iff`: when a record is accepted.
* `Session.asked`, `Session.Sound.recordsOf_run`: the records that a list of operations saves for a run.
* `Session.loadRecords_eq_asked`: storable records are given back as they were saved.
* `Session.loads_iff_readable`: a run can be loaded exactly if all its records are readable.
-/

namespace SeismicHazard

/-! ### Lists side by side -/

section

variable {β γ : Type} {R : β → γ → Prop} {xs : List β} {ys : List γ}

theorem forall_mem_iff_of_forall₂ {P : β → Prop} {Q : γ → Prop} (h : List.Forall₂ R xs ys)
    (hPQ : ∀ x y, y ∈ ys → R x y → (P x ↔ Q y)) : (∀ x ∈ xs, P x) ↔ ∀ y ∈ ys, Q y := by
  induction h with
  | nil => simp
  | cons hxy _ ih =>
    rw [List.forall_mem_cons, List.forall_mem_cons, hPQ _ _ List.mem_cons_self hxy,
      ih fun x y hy => hPQ x y (List.mem_cons_of_mem _ hy)]

theorem find?_rel_of_forall₂ {p : β → Bool} {q : γ → Bool} (h : List.Forall₂ R xs ys)
    (hpq : ∀ x y, R x y → p x = q y) : Option.Rel R (xs.find? p) (ys.find? q) := by
  induction h with
  | nil => exact .none
  | @cons x y _ _ hxy _ ih =>
    rw [List.find?_cons, List.find?_cons, hpq x y hxy]
    cases q y with
    | true => exact .some hxy
    | false => exact ih

end

section

variable {α : Type} [Scalar α] [BitPattern α] [DecimalText α]

/-! ### Records -/

namespace Record

variable {r : Record α}

/-- Finite numbers, a realization of less than 63 bits, and views with different names: such a record is
accepted and read back. -/
structure Storable (r : Record α) : Prop where
  lon : Scalar.isFinite r.lon
  lat : Scalar.isFinite r.lat
  level : Scalar.isFinite r.level
  poe : ∀ p ∈ r.poe, Scalar.isFinite p
  time : Scalar.isFinite r.time
  text : ∀ x ∈ r.textNumbers, Scalar.isFinite x
  realization_lt : r.realization < 2 ^ 63
  nodup_views : (r.views.map (·.1)).Nodup
  views_fit : r.ViewsFit

/-- Whether the columns that must hold numbers do so. -/
def HasNumbers (r : Record α) : Prop :=
  Scalar.isNumber r.lon ∧ Scalar.isNumber r.lat ∧ Scalar.isNumber r.level ∧ Scalar.isNumber r.time

omit [BitPattern α] [DecimalText α] in
theorem missing?_ofRecord_eq_none_iff : (ResultColumns.ofRecord r).missing? = none ↔ r.HasNumbers := by
  simp [ResultColumns.missing?, ResultColumns.required, ResultColumns.ofRecord, HasNumbers]

omit [DecimalText α] in
theorem Storable.hasNumbers [StoredNumber α] (h : r.Storable) : r.HasNumbers :=
  ⟨StoredNumber.isNumber_of_isFinite _ h.lon, StoredNumber.isNumber_of_isFinite _ h.lat,
    StoredNumber.isNumber_of_isFinite _ h.level, StoredNumber.isNumber_of_isFinite _ h.time⟩

end Record

/-! ### Runs -/

namespace Session

variable [StoredNumber α] {t t₀ : Tables α} {s s' : Session α} {h : Handle α} {i : ℕ}
  {r : Record α} {op : Op α} {ops : List (Op α)} {reply : Except StorageError Unit}

/-- The rows of a storable record give it back. -/
theorem recordOf_eq {row : ResultRow α} (hk : t.Keeps row r) (hr : r.Storable)
    (hjson : ∀ x ∈ r.textNumbers, (Json.real x).real? = some x) : t.recordOf row = .ok r := by
  rw [Tables.recordOf, Fallible.mapError_eq_ok]
  exact ResultRow.record_eq hk.columns hr.views_fit hk.views hr.realization_lt
    (fun p hp => StoredNumber.isNumber_of_isFinite p (hr.poe p hp))
    fun x hx => ⟨hr.text x hx, hjson x hx⟩

theorem exists_recordOf_iff {row : ResultRow α} (hk : t.Keeps row r) (hfit : r.ViewsFit) :
    (∃ r', t.recordOf row = .ok r') ↔ r.Readable := by
  simp only [Tables.recordOf, Fallible.mapError_eq_ok]
  exact ResultRow.exists_record_iff hk.columns hfit hk.views

namespace Handle.Kept

theorem loadRecords_eq (hk : h.Kept t) (hstorable : ∀ r ∈ h.records, r.Storable)
    (hjson : ∀ r ∈ h.records, ∀ x ∈ r.textNumbers, (Json.real x).real? = some x) :
    t.loadRecords h.writer.run = .ok h.records := by
  apply Fallible.mapM_eq_ok_of_forall₂
  have hrecords : ∀ r ∈ h.records,
      r.Storable ∧ ∀ x ∈ r.textNumbers, (Json.real x).real? = some x := fun r hr =>
    ⟨hstorable r hr, hjson r hr⟩
  have hboth := (List.forall₂_and_left _ _).2 ⟨hrecords, hk.results.flip⟩
  have hrows := hboth.imp fun r row hrow => recordOf_eq hrow.2 hrow.1.1 hrow.1.2
  exact hrows.flip

/-- The record with a name is the first of that name. -/
theorem loadRecord_eq (hk : h.Kept t) (hstorable : ∀ r ∈ h.records, r.Storable)
    (hjson : ∀ r ∈ h.records, ∀ x ∈ r.textNumbers, (Json.real x).real? = some x) (name : String) :
    t.loadRecord h.writer.run name = match h.records.find? (·.name == name) with
      | some r => .ok r
      | none => .error (.notFound ("result '" ++ name ++ "' in run " ++ h.writer.run.repr)) := by
  have hname : ∀ row r, t.Keeps row r → (row.name == name) = (r.name == name) := by
    intro row r hrow
    rw [hrow.columns, ResultColumns.ofRecord]
  have hfind := find?_rel_of_forall₂ hk.results hname
  unfold Tables.loadRecord Tables.resultNamed?
  cases hr : h.records.find? (·.name == name) with
  | none =>
    rw [hr] at hfind
    cases hrow : (t.results h.writer.run).find? (·.name == name) with
    | none => rfl
    | some row =>
      rw [hrow] at hfind
      cases hfind
  | some r =>
    rw [hr] at hfind
    cases hrow : (t.results h.writer.run).find? (·.name == name) with
    | none =>
      rw [hrow] at hfind
      cases hfind
    | some row =>
      rw [hrow] at hfind
      obtain ⟨hkeeps⟩ := hfind
      have hmem := List.mem_of_find?_eq_some hr
      exact recordOf_eq hkeeps (hstorable r hmem) (hjson r hmem)

theorem exists_loadRecords_iff (hk : h.Kept t) (hfit : ∀ r ∈ h.records, r.ViewsFit) :
    (∃ rs, t.loadRecords h.writer.run = .ok rs) ↔ ∀ r ∈ h.records, r.Readable := by
  rw [Tables.loadRecords, Fallible.exists_mapM_eq_ok_iff]
  exact forall_mem_iff_of_forall₂ hk.results fun row r hr hrow => exists_recordOf_iff hrow (hfit r hr)

end Handle.Kept

/-! ### What is accepted -/

omit [DecimalText α] [StoredNumber α] in
/-- The names that a run has for a site are those of its records. -/
theorem Handle.Kept.forall_resultsAt_iff (hk : h.Kept t) (r : Record α) :
    (∀ row ∈ t.resultsAt h.writer.run r.site, row.name ≠ r.name) ↔
      ∀ r' ∈ h.records, r'.site = r.site → r'.name ≠ r.name := by
  have hcolumns := forall_mem_iff_of_forall₂ (P := fun row => row.site = r.site → row.name ≠ r.name)
    (Q := fun r' => r'.site = r.site → r'.name ≠ r.name) hk.results fun row r' _ hrow => by
      rw [hrow.columns, ResultColumns.ofRecord]
  rw [← hcolumns]
  simp [Tables.resultsAt]

omit [DecimalText α] [StoredNumber α] in
/-- A record is accepted by an open run if it has numbers in its columns, the run has none of its name for
its site, and its views have different names. -/
theorem Sound.exists_insertRecord_iff (hs : s.Sound t₀) (hopen : s.open? i = some h) (r : Record α) :
    (∃ t, s.tables.insertRecord h.writer.run r = .ok t) ↔ r.HasNumbers ∧
      (∀ r' ∈ h.records, r'.site = r.site → r'.name ≠ r.name) ∧ (r.views.map (·.1)).Nodup := by
  have hk := hs.kept h (List.mem_of_getElem? (open?_eq_some.1 hopen).1)
  obtain ⟨row, hrow, -⟩ := hk.run
  rw [Tables.exists_insertRecord_iff hs.valid, Record.missing?_ofRecord_eq_none_iff,
    hk.forall_resultsAt_iff]
  constructor
  · rintro ⟨hnumbers, hnames, -, hviews⟩
    exact ⟨hnumbers, hnames, hviews⟩
  · rintro ⟨hnumbers, hnames, hviews⟩
    exact ⟨hnumbers, hnames, ⟨row, hrow⟩, hviews⟩

omit [DecimalText α] [StoredNumber α] in
theorem Sound.exists_save_iff (hs : s.Sound t₀) (hopen : s.open? i = some h) (r : Record α) :
    (∃ w t, h.writer.save s.tables r = .ok (w, t)) ↔ r.HasNumbers ∧
      (∀ r' ∈ h.records, r'.site = r.site → r'.name ≠ r.name) ∧ (r.views.map (·.1)).Nodup := by
  rw [← hs.exists_insertRecord_iff hopen, RunWriter.save]
  cases s.tables.insertRecord h.writer.run r with
  | error refusal => simp
  | ok t => simp

/-! ### What is asked for -/

/-- The records that a run has saved so far. -/
def recordsOf (s : Session α) (i : ℕ) : List (Record α) := (s.handles[i]?).elim [] (·.records)

/-- The record that an operation saves for a run. -/
def Op.record? (i : ℕ) : Op α → Option (Record α)
  | .save j r => if j = i then some r else none
  | _ => none

omit [Scalar α] [BitPattern α] [DecimalText α] [StoredNumber α] in
theorem Op.record?_eq_some : op.record? i = some r ↔ op = .save i r := by
  cases op with
  | save j record =>
    by_cases hj : j = i
    · rw [Op.record?, if_pos hj, hj]
      simp
    · rw [Op.record?, if_neg hj]
      simp [hj]
  | start => simp [Op.record?]
  | finish => simp [Op.record?]
  | fail => simp [Op.record?]

/-- The records that a list of operations saves for a run, in their order. -/
def asked (i : ℕ) (ops : List (Op α)) : List (Record α) := ops.filterMap (Op.record? i)

omit [DecimalText α] [StoredNumber α] in
/-- No operation changes the records of a run but those that save one for it. -/
theorem Step.recordsOf_eq (hstep : Step s op s' reply) (hop : Op.record? i op = none) :
    s'.recordsOf i = s.recordsOf i := by
  cases hstep with
  | refused => rfl
  | started moment config text =>
    unfold recordsOf
    simp only
    rcases Nat.lt_trichotomy i s.handles.length with hlt | heq | hgt
    · rw [List.getElem?_append_left hlt]
    · rw [heq, List.getElem?_concat_length, List.getElem?_eq_none (Nat.le_refl _)]
      rfl
    · rw [List.getElem?_eq_none (by simp; omega), List.getElem?_eq_none (by omega)]
  | saved j record h t hopen hrecord =>
    have hne : j ≠ i := by
      intro heq
      rw [Op.record?, if_pos heq] at hop
      cases hop
    unfold recordsOf
    simp only
    rw [List.getElem?_set_ne hne]
  | closed _ j moment status error h t _ hopen hclose =>
    unfold recordsOf
    simp only
    by_cases heq : j = i
    · subst heq
      obtain ⟨hj, -⟩ := open?_eq_some.1 hopen
      rw [List.getElem?_set_self (List.getElem?_eq_some_iff.1 hj).1, hj]
      rfl
    · rw [List.getElem?_set_ne heq]

/-- A storable record with a name that is new for its site is saved. -/
theorem Sound.recordsOf_save (hs : s.Sound t₀) (hr : r.Storable)
    (hnew : (r.site, r.name) ∉ (s.recordsOf i).map fun r' => (r'.site, r'.name))
    (hstep : s.step? (.save i r) = some (s', reply)) : s'.recordsOf i = s.recordsOf i ++ [r] := by
  obtain ⟨h, hopen, hsave⟩ := Option.map_eq_some_iff.1 hstep
  obtain ⟨hi, -⟩ := open?_eq_some.1 hopen
  have hrecords : s.recordsOf i = h.records := by
    rw [recordsOf, hi]
    rfl
  have hnames : ∀ r' ∈ h.records, r'.site = r.site → r'.name ≠ r.name := by
    intro r' hr' hsite hname
    rw [hrecords] at hnew
    apply hnew
    rw [← hsite, ← hname]
    exact List.mem_map_of_mem hr'
  obtain ⟨t, ht⟩ := (hs.exists_insertRecord_iff hopen r).2 ⟨hr.hasNumbers, hnames, hr.nodup_views⟩
  rw [RunWriter.save, ht] at hsave
  cases hsave
  rw [hrecords, recordsOf]
  simp only
  rw [List.getElem?_set_self (List.getElem?_eq_some_iff.1 hi).1]
  rfl

/-- Storable records with different names at each site are all saved, in the order in which they were
asked for. -/
theorem Sound.recordsOf_run (hs : s.Sound t₀) (hrun : s.run? ops = some s')
    (hstorable : ∀ r ∈ asked i ops, r.Storable)
    (hnames : ((s.recordsOf i ++ asked i ops).map fun r => (r.site, r.name)).Nodup) :
    s'.recordsOf i = s.recordsOf i ++ asked i ops := by
  induction ops generalizing s with
  | nil =>
    cases hrun
    rw [asked, List.filterMap_nil, List.append_nil]
  | cons op ops ih =>
    obtain ⟨⟨next, reply⟩, hstep, hrun'⟩ := Option.bind_eq_some_iff.1 hrun
    have hnext := (hs.step hstep).sound hs
    cases hop : Op.record? i op with
    | none =>
      have hrest : asked i (op :: ops) = asked i ops := by
        rw [asked, List.filterMap_cons_none hop, asked]
      have hsame := (hs.step hstep).recordsOf_eq hop
      rw [hrest] at hstorable hnames ⊢
      rw [← hsame] at hnames ⊢
      exact ih hnext hrun' hstorable hnames
    | some r =>
      obtain rfl := Op.record?_eq_some.1 hop
      have hrest : asked i (.save i r :: ops) = r :: asked i ops := by
        rw [asked, List.filterMap_cons_some hop, asked]
      rw [hrest] at hstorable hnames ⊢
      rw [List.forall_mem_cons] at hstorable
      have hnew : (r.site, r.name) ∉ (s.recordsOf i).map fun r' => (r'.site, r'.name) := by
        rw [List.map_append, List.map_cons] at hnames
        have hnotMem := (List.nodup_cons.1 (List.nodup_middle.1 hnames)).1
        exact fun hmem => hnotMem (List.mem_append_left _ hmem)
      have hsaved := hs.recordsOf_save hstorable.1 hnew hstep
      rw [List.append_cons, ← hsaved] at hnames ⊢
      exact ih hnext hrun' hstorable.2 hnames

end Session

end

/-! ### A sample -/

namespace Session

namespace Doubles

def grid : Grid Float := ⟨[5, 6], [0, 10], [-71, -70.5], [18, 18.5], [-3, 0, 3]⟩

def views : List (String × Tensor Float) :=
  [("TRT", ⟨[1], #[0.02], rfl⟩), ("Eps", ⟨[2], #[0.015, 0.005], rfl⟩)]

/-- A record with two views. -/
def record (site realization : ℕ) (aggregate : Float) : Record Float :=
  ⟨"disagg/rlz-0-PGA--70.5-18.0", site, -70.5, 18, realization, "PGA", 0.25, none, 50, ["Volcanic"],
    grid, views, [aggregate, 0.02]⟩

/-- Two runs take turns. Records of different sites may share a name. -/
def operations : List (Op Float) :=
  [.start 1 none, .start 2 none, .save 0 (record 3 0 0.02), .save 1 (record 3 0 0.5),
    .save 0 (record 7 0 0.02), .finish 1 5]

theorem storable_record (site : ℕ) : (record site 0 0.02).Storable where
  lon := by
    change Scalar.isFinite (-70.5 : Float) = true
    decide +kernel
  lat := by
    change Scalar.isFinite (18 : Float) = true
    decide +kernel
  level := by
    change Scalar.isFinite (0.25 : Float) = true
    decide +kernel
  poe p hp := by cases hp
  time := by
    change Scalar.isFinite (50 : Float) = true
    decide +kernel
  text := by
    change ∀ x ∈ grid.numbers ++ [0.02, 0.02], Scalar.isFinite x
    decide +kernel
  realization_lt := by
    change 0 < 2 ^ 63
    decide
  nodup_views := by
    change ["TRT", "Eps"].Nodup
    decide
  views_fit := by
    change ∀ v ∈ views, volume v.2.shape ≤ maxVolume
    decide +kernel

theorem real?_record (site : ℕ) :
    ∀ x ∈ (record site 0 0.02).textNumbers, (Json.real x).real? = some x := by
  change ∀ x ∈ grid.numbers ++ [0.02, 0.02], (Json.real x).real? = some x
  decide +kernel

theorem readable_record (site : ℕ) : (record site 0 0.02).Readable where
  realization_lt := by
    change 0 % 2 ^ 64 < 2 ^ 63
    decide
  text x hx := ⟨(storable_record site).text x hx, x, real?_record site x hx⟩

theorem asked_operations : asked 0 operations = [record 3 0 0.02, record 7 0 0.02] := rfl

theorem eq_record_of_mem_asked {r : Record Float} (hr : r ∈ asked 0 operations) :
    ∃ site, r = record site 0 0.02 := by
  rw [asked_operations] at hr
  simp only [List.mem_cons, List.not_mem_nil, or_false] at hr
  rcases hr with rfl | rfl
  · exact ⟨3, rfl⟩
  · exact ⟨7, rfl⟩

theorem storable_asked : ∀ r ∈ asked 0 operations, r.Storable := by
  intro r hr
  obtain ⟨site, rfl⟩ := eq_record_of_mem_asked hr
  exact storable_record site

theorem real?_asked :
    ∀ r ∈ asked 0 operations, ∀ x ∈ r.textNumbers, (Json.real x).real? = some x := by
  intro r hr
  obtain ⟨site, rfl⟩ := eq_record_of_mem_asked hr
  exact real?_record site

theorem nodup_asked : ((asked 0 operations).map fun r => (r.site, r.name)).Nodup := by
  rw [asked_operations]
  decide

theorem exists_run : ∃ (s : Session Float) (h : Handle Float),
    (ofTables .empty).run? operations = some s ∧ s.handles[0]? = some h ∧ h.isOpen := by
  have hend : (((ofTables .empty).run? operations).bind fun s => s.open? 0).isSome := by
    decide +kernel
  obtain ⟨h, hs⟩ := Option.isSome_iff_exists.1 hend
  obtain ⟨s, hrun, hopen⟩ := Option.bind_eq_some_iff.1 hs
  obtain ⟨hi, hisOpen⟩ := open?_eq_some.1 hopen
  exact ⟨s, h, hrun, hi, hisOpen⟩

/-- A run that has saved one record, seen from what can be evaluated: it cannot be loaded. -/
theorem lost_of_outcome {ops : List (Op Float)}
    (hend : ((ofTables .empty).run? ops).bind (fun s => s.handles[0]?.map fun h =>
      (h.writer.saved, (s.tables.loadRecords h.writer.run).toBool)) = some (1, false)) :
    ∃ (s : Session Float) (h : Handle Float), (ofTables .empty).run? ops = some s ∧
      s.handles[0]? = some h ∧ h.writer.saved = 1 ∧
      ∀ rs, s.tables.loadRecords h.writer.run ≠ .ok rs := by
  obtain ⟨s, hrun, hs⟩ := Option.bind_eq_some_iff.1 hend
  obtain ⟨h, hi, hh⟩ := Option.map_eq_some_iff.1 hs
  obtain ⟨hsaved, hload⟩ := Prod.mk.inj hh
  refine ⟨s, h, hrun, hi, hsaved, ?_⟩
  intro rs hrs
  rw [hrs] at hload
  cases hload

end Doubles

/-! ### Loading -/

section

variable {α : Type} [Scalar α] [BitPattern α] [DecimalText α] [StoredNumber α]
  {t₀ : Tables α} {s : Session α} {h : Handle α} {i : ℕ} {ops : List (Op α)}

/-- Whatever was done with runs over valid tables, a run gives back the records that were saved for it, in
their order and as they were, if they are finite, their realizations have less than 63 bits, no two of
them share site and name, and no two views of one share a name. What is assumed beside that is that
the text of a number in JSON is read as that number. A name leads to the first record that has it, and to
nothing if there is none. -/
theorem loadRecords_eq_asked (hvalid : t₀.Valid) (hrun : (ofTables t₀).run? ops = some s)
    (hi : s.handles[i]? = some h) (hstorable : ∀ r ∈ asked i ops, r.Storable)
    (hjson : ∀ r ∈ asked i ops, ∀ x ∈ r.textNumbers, (Json.real x).real? = some x)
    (hnames : ((asked i ops).map fun r => (r.site, r.name)).Nodup) :
    h.records = asked i ops ∧ s.tables.loadRecords h.writer.run = .ok (asked i ops) ∧
      ∀ name, s.tables.loadRecord h.writer.run name =
        match (asked i ops).find? (·.name == name) with
        | some r => .ok r
        | none => .error (.notFound ("result '" ++ name ++ "' in run " ++ h.writer.run.repr)) := by
  have hstart : (ofTables t₀).Sound t₀ := sound_ofTables hvalid
  have hk := (hstart.run hrun).kept h (List.mem_of_getElem? hi)
  have hrecords : h.records = asked i ops := by
    have hall := hstart.recordsOf_run (i := i) hrun hstorable hnames
    rw [recordsOf, hi] at hall
    exact hall
  rw [← hrecords] at hstorable hjson ⊢
  exact ⟨rfl, hk.loadRecords_eq hstorable hjson, hk.loadRecord_eq hstorable hjson⟩

end

open Doubles in
/-- The first of two runs that take turns gives back its two records, which share a name. -/
theorem loadRecords_eq_asked_doubles : ∃ (s : Session Float) (h : Handle Float),
    (ofTables .empty).run? operations = some s ∧ s.handles[0]? = some h ∧
      s.tables.loadRecords h.writer.run = .ok [record 3 0 0.02, record 7 0 0.02] ∧
      s.tables.loadRecord h.writer.run (record 7 0 0.02).name = .ok (record 3 0 0.02) := by
  obtain ⟨s, h, hrun, hi, -⟩ := exists_run
  obtain ⟨-, hload, hnamed⟩ :=
    loadRecords_eq_asked Tables.valid_empty hrun hi storable_asked real?_asked nodup_asked
  exact ⟨s, h, hrun, hi, hload, hnamed _⟩

section

variable {α : Type} [Scalar α] [BitPattern α] [DecimalText α] [StoredNumber α]
  {t₀ : Tables α} {s : Session α} {h : Handle α} {i : ℕ} {ops : List (Op α)}

/-- Whatever was done with runs over valid tables, a run can be loaded exactly if each record that it has
accepted has a realization that is not negative as a number of 64 bits with a sign, and only finite
edges and overall probabilities, which JSON gives back. None of this is asked when a record is
saved: an open run accepts each record with numbers in its columns and a name that is new for its site
whose views have different names. -/
theorem loads_iff_readable (hvalid : t₀.Valid) (hrun : (ofTables t₀).run? ops = some s)
    (hi : s.handles[i]? = some h) (hfit : ∀ r ∈ h.records, r.ViewsFit) :
    ((∃ rs, s.tables.loadRecords h.writer.run = .ok rs) ↔ ∀ r ∈ h.records, r.Readable) ∧
      (h.isOpen → ∀ r, (∃ w t, h.writer.save s.tables r = .ok (w, t)) ↔ r.HasNumbers ∧
        (∀ r' ∈ h.records, r'.site = r.site → r'.name ≠ r.name) ∧ (r.views.map (·.1)).Nodup) := by
  have hs : s.Sound t₀ := (sound_ofTables hvalid).run hrun
  have hk := hs.kept h (List.mem_of_getElem? hi)
  refine ⟨hk.exists_loadRecords_iff hfit, ?_⟩
  intro hopen r
  exact hs.exists_save_iff (open?_eq_some.2 ⟨hi, hopen⟩) r

end

open Doubles in
/-- A run with two records can be loaded, and refuses a record under a name that it has for the site. -/
theorem loads_iff_readable_doubles : ∃ (s : Session Float) (h : Handle Float),
    (ofTables .empty).run? operations = some s ∧ s.handles[0]? = some h ∧
      (∃ rs, s.tables.loadRecords h.writer.run = .ok rs) ∧
      ¬ ∃ w t, h.writer.save s.tables (record 7 0 0.02) = .ok (w, t) := by
  obtain ⟨s, h, hrun, hi, hopen⟩ := exists_run
  have hrecords : s.recordsOf 0 = asked 0 operations :=
    (sound_ofTables Tables.valid_empty).recordsOf_run hrun storable_asked nodup_asked
  rw [recordsOf, hi] at hrecords
  change h.records = _ at hrecords
  have hstorable : ∀ r ∈ h.records, r.Storable := hrecords ▸ storable_asked
  obtain ⟨hload, hsave⟩ := loads_iff_readable Tables.valid_empty hrun hi fun r hr =>
    (hstorable r hr).views_fit
  refine ⟨s, h, hrun, hi, hload.2 ?_, ?_⟩
  · rw [hrecords]
    intro r hr
    obtain ⟨site, rfl⟩ := eq_record_of_mem_asked hr
    exact readable_record site
  · intro hsaved
    have hnames := ((hsave hopen _).1 hsaved).2.1
    rw [hrecords, asked_operations] at hnames
    exact hnames (record 7 0 0.02) (by simp) rfl rfl

open Doubles in
/-- A record with the greatest realization is accepted, and so is one with an infinite overall probability;
neither run can be loaded after that. -/
theorem accepted_unreadable :
    (∃ (s : Session Float) (h : Handle Float),
      (ofTables .empty).run? [.start 1 none, .save 0 (record 3 (2 ^ 64 - 1) 0.02)] = some s ∧
        s.handles[0]? = some h ∧ h.writer.saved = 1 ∧
        ∀ rs, s.tables.loadRecords h.writer.run ≠ .ok rs) ∧
    ∃ (s : Session Float) (h : Handle Float),
      (ofTables .empty).run? [.start 1 none, .save 0 (record 3 0 (1 / 0))] = some s ∧
        s.handles[0]? = some h ∧ h.writer.saved = 1 ∧
        ∀ rs, s.tables.loadRecords h.writer.run ≠ .ok rs := by
  constructor
  · exact lost_of_outcome (by decide +kernel)
  · exact lost_of_outcome (by decide +kernel)

end Session

end SeismicHazard
