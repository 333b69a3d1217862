import Mathlib.Data.List.Nodup
import SeismicHazard.Proofs.Fallible
import SeismicHazard.Storage.Tables

/-!
# What the tables keep

* `Tables.Valid`: what the schema demands of the rows.
* `Tables.SameRun`: whether the rows of a run are the same in two sets of tables.
* `Tables.exists_insertRecord_iff`: when a record is accepted.
* `Tables.insertRecord_eq`: what it adds to the tables.
* `Tables.results_insertRecord`, `Tables.views_insertRecord`: what is found after that.
-/

namespace SeismicHazard.Tables

section

variable {α : Type} {t t' : Tables α} {run : Int}

/-- What the schema demands of the rows: keys differ, the numbers given out so far reach around all ids,
every result belongs to a run and every view to a result. -/
structure Valid (t : Tables α) : Prop where
  nodup_runs : (t.runs.map (·.id)).Nodup
  nodup_results : (t.resultRows.map (·.id)).Nodup
  nodup_names : (t.resultRows.map fun row => (row.run, row.site, row.name)).Nodup
  nodup_views : (t.viewRows.map fun v => (v.result, v.name)).Nodup
  run_le : ∀ r ∈ t.runs, r.id ≤ t.lastRun
  result_le : ∀ row ∈ t.resultRows, row.id ≤ t.lastResult
  run_of_result : ∀ row ∈ t.resultRows, ∃ r ∈ t.runs, r.id = row.run
  result_of_view : ∀ v ∈ t.viewRows, ∃ row ∈ t.resultRows, row.id = v.result

theorem valid_empty : (empty : Tables α).Valid := by
  constructor <;> simp [empty]

/-- Whether the rows of a run, of its results and of their views are the same. -/
structure SameRun (t t' : Tables α) (run : Int) : Prop where
  found : t'.run? run = t.run? run
  results : t'.results run = t.results run
  views : ∀ row ∈ t.results run, t'.views row.id = t.views row.id

namespace SameRun

theorem refl (t : Tables α) (run : Int) : t.SameRun t run := ⟨rfl, rfl, fun _ _ => rfl⟩

theorem trans {t'' : Tables α} (h : t.SameRun t' run) (h' : t'.SameRun t'' run) :
    t.SameRun t'' run where
  found := h'.found.trans h.found
  results := h'.results.trans h.results
  views row hrow := (h'.views row (h.results ▸ hrow)).trans (h.views row hrow)

end SameRun

/-! ### Runs -/

theorem exists_run?_iff : (∃ row, t.run? run = some row) ↔ ∃ r ∈ t.runs, r.id = run := by
  rw [← Option.isSome_iff_exists, run?, List.find?_isSome]
  simp

theorem Valid.run?_lastRun (h : t.Valid) : t.run? (t.lastRun + 1) = none := by
  rw [run?, List.find?_eq_none]
  intro r hr
  have := h.run_le r hr
  simp
  omega

theorem Valid.results_lastRun (h : t.Valid) : t.results (t.lastRun + 1) = [] := by
  rw [results, List.filter_eq_nil_iff]
  intro row hrow
  obtain ⟨r, hr, hrun⟩ := h.run_of_result row hrow
  have := h.run_le r hr
  simp
  omega

variable {started : Int} {config : Option String}

theorem run?_insertRun (h : t.Valid) (id : Int) : (t.insertRun started config).2.run? id =
    if id = t.lastRun + 1 then some ⟨t.lastRun + 1, started, none, "running", none, none, config⟩
    else t.run? id := by
  rw [insertRun, run?, List.find?_append]
  split
  · next hid =>
    have hnone := h.run?_lastRun
    rw [run?] at hnone
    simp [hid, hnone]
  · next hid =>
    have hne : (t.lastRun + 1 == id) = false := by simpa using Ne.symm hid
    simp [hne, run?]

theorem Valid.insertRun (h : t.Valid) : (t.insertRun started config).2.Valid where
  nodup_runs := by
    have hnew : ∀ r ∈ t.runs, r.id ≠ t.lastRun + 1 := fun r hr => by
      have := h.run_le r hr
      omega
    simpa [Tables.insertRun, List.nodup_append] using ⟨h.nodup_runs, hnew⟩
  nodup_results := h.nodup_results
  nodup_names := h.nodup_names
  nodup_views := h.nodup_views
  run_le r hr := by
    rcases List.mem_append.1 hr with hr | hr
    · have := h.run_le r hr
      simp only [Tables.insertRun]
      omega
    · rw [List.mem_singleton.1 hr]
      exact Int.le_refl _
  result_le := h.result_le
  run_of_result row hrow := by
    obtain ⟨r, hr, hrun⟩ := h.run_of_result row hrow
    exact ⟨r, List.mem_append_left _ hr, hrun⟩
  result_of_view := h.result_of_view

/-- A run that is started has no results, and all other runs stay as they are. -/
theorem sameRun_insertRun (h : t.Valid) {id : Int} (hid : id ≠ t.lastRun + 1) :
    t.SameRun (t.insertRun started config).2 id where
  found := by rw [run?_insertRun h, if_neg hid]
  results := rfl
  views _ _ := rfl

variable {completed numResults : Int} {status : String} {error : Option String}

/-- The row of a run after the run with the given number was closed. -/
def closedRow (run completed numResults : Int) (status : String) (error : Option String)
    (r : RunRow) : RunRow :=
  if r.id == run then
    { r with
      completed := some completed
      numResults := some numResults
      status := status
      error := error }
  else r

@[simp] theorem id_closedRow (r : RunRow) :
    (closedRow run completed numResults status error r).id = r.id := by
  unfold closedRow
  split <;> rfl

theorem closedRow_of_ne {r : RunRow} (h : r.id ≠ run) :
    closedRow run completed numResults status error r = r :=
  if_neg (by simpa using h)

theorem closeRun_eq_ok : t.closeRun run completed numResults status error = .ok t' ↔
    (∃ row, t.run? run = some row) ∧
      t' = { t with runs := t.runs.map (closedRow run completed numResults status error) } := by
  unfold closeRun
  cases t.run? run with
  | none => simp
  | some row =>
    constructor
    · intro h
      cases h
      exact ⟨⟨row, rfl⟩, rfl⟩
    · rintro ⟨-, rfl⟩
      rfl

theorem run?_closeRun (h : t.closeRun run completed numResults status error = .ok t') (id : Int) :
    t'.run? id = (t.run? id).map (closedRow run completed numResults status error) := by
  obtain ⟨-, rfl⟩ := closeRun_eq_ok.1 h
  simp only [run?, List.find?_map, Function.comp_def, id_closedRow]

/-- The row of a run that was closed. -/
theorem run?_closeRun_self (h : t.closeRun run completed numResults status error = .ok t')
    {row : RunRow} (hrow : t.run? run = some row) : t'.run? run = some { row with
      completed := some completed
      numResults := some numResults
      status := status
      error := error } := by
  rw [run?_closeRun h, hrow, Option.map_some, closedRow, if_pos (List.find?_some hrow)]

/-- Closing a run changes its own row only. -/
theorem sameRun_closeRun (h : t.closeRun run completed numResults status error = .ok t') {id : Int}
    (hid : id ≠ run) : t.SameRun t' id where
  found := by
    rw [run?_closeRun h]
    cases hrow : t.run? id with
    | none => rfl
    | some r =>
      have hr : r.id = id := by simpa using List.find?_some hrow
      rw [Option.map_some, closedRow_of_ne (hr ▸ hid)]
  results := by
    obtain ⟨-, rfl⟩ := closeRun_eq_ok.1 h
    rfl
  views _ _ := by
    obtain ⟨-, rfl⟩ := closeRun_eq_ok.1 h
    rfl

theorem Valid.closeRun (h : t.Valid)
    (hclose : t.closeRun run completed numResults status error = .ok t') : t'.Valid := by
  obtain ⟨-, rfl⟩ := closeRun_eq_ok.1 hclose
  refine ⟨?_, h.nodup_results, h.nodup_names, h.nodup_views, fun r hr => ?_, h.result_le,
    fun row hrow => ?_, h.result_of_view⟩
  · simpa [Function.comp_def] using h.nodup_runs
  · obtain ⟨r', hr', rfl⟩ := List.mem_map.1 hr
    exact id_closedRow r' ▸ h.run_le r' hr'
  · obtain ⟨r, hr, hrun⟩ := h.run_of_result row hrow
    exact ⟨_, List.mem_map_of_mem hr, (id_closedRow r).trans hrun⟩

end

/-! ### Results -/

section

variable {α : Type} {t t' : Tables α} {run : Int}

/-- A view is accepted if its result has none of its name yet. -/
theorem insertView_eq_ok {result : Int} {ordinal : Nat} {c : ViewColumns} :
    t.insertView result ordinal c = .ok t' ↔ (∀ v ∈ t.views result, v.name ≠ c.name) ∧
      (∃ row ∈ t.resultRows, row.id = result) ∧
      t' = { t with viewRows := t.viewRows ++ [⟨c, result, ordinal⟩] } := by
  unfold insertView
  split
  · next h =>
    obtain ⟨v, hv, hname⟩ := List.any_eq_true.1 h
    simp only [reduceCtorEq, false_iff]
    exact fun hall => hall.1 v hv (by simpa using hname)
  · next h =>
    have hnames : ∀ v ∈ t.views result, v.name ≠ c.name := by simpa using h
    split
    · next hnone =>
      have hmissing : ¬ ∃ row ∈ t.resultRows, row.id = result := by simpa using hnone
      simp [hmissing]
    · next hsome =>
      have hfound : ∃ row ∈ t.resultRows, row.id = result := by simpa using hsome
      constructor
      · intro h
        cases h
        exact ⟨hnames, hfound, rfl⟩
      · rintro ⟨-, -, rfl⟩
        rfl

theorem Valid.insertView (h : t.Valid) {result : Int} {ordinal : Nat} {c : ViewColumns}
    (hview : t.insertView result ordinal c = .ok t') : t'.Valid := by
  obtain ⟨hnames, hresult, rfl⟩ := insertView_eq_ok.1 hview
  refine ⟨h.nodup_runs, h.nodup_results, h.nodup_names, ?_, h.run_le, h.result_le, h.run_of_result,
    fun v hv => ?_⟩
  · have hnew : ∀ v ∈ t.viewRows, v.result = result → v.name ≠ c.name := fun v hv hid =>
      hnames v (List.mem_filter.2 ⟨hv, by simpa using hid⟩)
    rw [List.map_append, List.nodup_append]
    refine ⟨h.nodup_views, List.nodup_singleton _, fun p hp q hq heq => ?_⟩
    obtain ⟨v, hv, rfl⟩ := List.mem_map.1 hp
    rw [List.map_singleton, List.mem_singleton] at hq
    rw [hq, Prod.mk.injEq] at heq
    exact hnew v hv heq.1 heq.2
  · rcases List.mem_append.1 hv with hv | hv
    · exact h.result_of_view v hv
    · rw [List.mem_singleton.1 hv]
      exact hresult

theorem Valid.views_lastResult (h : t.Valid) : t.views (t.lastResult + 1) = [] := by
  rw [views, List.filter_eq_nil_iff]
  intro v hv
  obtain ⟨row, hrow, hid⟩ := h.result_of_view v hv
  have := h.result_le row hrow
  simp
  omega

/-- The rows of views of a result, numbered from `ordinal` on. -/
def numbered (result : Int) (ordinal : Nat) (views : List ViewColumns) : List ViewRow :=
  views.mapIdx fun i c => ⟨c, result, ordinal + i⟩

theorem insertViews_eq {result : Int} {ordinal : Nat} {views : List ViewColumns}
    (h : t.insertViews result ordinal views = .ok t') :
    t' = { t with viewRows := t.viewRows ++ numbered result ordinal views } := by
  induction views generalizing t ordinal with
  | nil =>
    cases h
    simp [numbered]
  | cons c views ih =>
    obtain ⟨t₁, hview, h⟩ := Fallible.bind_eq_ok.1 h
    obtain ⟨-, -, rfl⟩ := insertView_eq_ok.1 hview
    rw [ih h]
    simp [numbered, List.mapIdx_cons, Nat.add_assoc, Nat.add_comm 1]

/-- Views of a result are accepted if their names differ from each other and from those it has. -/
theorem exists_insertViews_iff {result : Int} {ordinal : Nat} {views : List ViewColumns}
    (hresult : ∃ row ∈ t.resultRows, row.id = result) :
    (∃ t', t.insertViews result ordinal views = .ok t') ↔
      (views.map (·.name)).Nodup ∧ ∀ c ∈ views, ∀ v ∈ t.views result, v.name ≠ c.name := by
  induction views generalizing t ordinal with
  | nil =>
    constructor
    · intro _
      exact ⟨List.nodup_nil, fun c hc => absurd hc List.not_mem_nil⟩
    · intro _
      exact ⟨t, rfl⟩
  | cons c views ih =>
    have hnext : ∀ t₁, t.insertView result ordinal c = .ok t₁ →
        ((∃ t', t₁.insertViews result (ordinal + 1) views = .ok t') ↔ (views.map (·.name)).Nodup ∧
          ∀ d ∈ views, (∀ v ∈ t.views result, v.name ≠ d.name) ∧ c.name ≠ d.name) := by
      intro t₁ hview
      obtain ⟨-, -, ht₁⟩ := insertView_eq_ok.1 hview
      have hresult₁ : ∃ row ∈ t₁.resultRows, row.id = result := by
        rw [ht₁]
        exact hresult
      have hviews₁ : t₁.views result = t.views result ++ [⟨c, result, ordinal⟩] := by
        rw [ht₁]
        simp [Tables.views, List.filter_append]
      rw [ih hresult₁, hviews₁]
      simp only [List.mem_append, List.mem_singleton, or_imp, forall_and, forall_eq]
    rw [List.map_cons, List.nodup_cons, List.forall_mem_cons]
    constructor
    · rintro ⟨t', h⟩
      obtain ⟨t₁, hview, h⟩ := Fallible.bind_eq_ok.1 h
      obtain ⟨hnodup, hnames⟩ := (hnext t₁ hview).1 ⟨t', h⟩
      refine ⟨⟨?_, hnodup⟩, (insertView_eq_ok.1 hview).1, fun d hd => (hnames d hd).1⟩
      intro hmem
      obtain ⟨d, hd, heq⟩ := List.mem_map.1 hmem
      exact (hnames d hd).2 heq.symm
    · rintro ⟨⟨hnotMem, hnodup⟩, hc, hnames⟩
      obtain ⟨t₁, hview⟩ : ∃ t₁, t.insertView result ordinal c = .ok t₁ :=
        ⟨_, insertView_eq_ok.2 ⟨hc, hresult, rfl⟩⟩
      obtain ⟨t', h⟩ := (hnext t₁ hview).2 ⟨hnodup, fun d hd =>
        ⟨hnames d hd, fun heq => hnotMem (heq ▸ List.mem_map_of_mem hd)⟩⟩
      exact ⟨t', Fallible.bind_eq_ok.2 ⟨t₁, hview, h⟩⟩

theorem Valid.insertViews (h : t.Valid) {result : Int} {ordinal : Nat} {views : List ViewColumns}
    (hviews : t.insertViews result ordinal views = .ok t') : t'.Valid := by
  induction views generalizing t ordinal with
  | nil =>
    cases hviews
    exact h
  | cons c views ih =>
    obtain ⟨t₁, hview, hviews⟩ := Fallible.bind_eq_ok.1 hviews
    exact ih (h.insertView hview) hviews

variable [Scalar α]

/-- The tables with one more result. -/
def withResult (t : Tables α) (run : Int) (c : ResultColumns α) : Tables α :=
  { t with
    resultRows := t.resultRows ++ [⟨c, t.lastResult + 1, run⟩]
    lastResult := t.lastResult + 1 }

/-- A result is accepted if all its numbers are there, its run has none of its name for its site yet,
and there is such a run. -/
theorem insertResult_eq_ok {c : ResultColumns α} {x : Int × Tables α} :
    t.insertResult run c = .ok x ↔ c.missing? = none ∧
      (∀ row ∈ t.resultsAt run c.site, row.name ≠ c.name) ∧ (∃ r, t.run? run = some r) ∧
      x = (t.lastResult + 1, t.withResult run c) := by
  unfold insertResult
  cases c.missing? with
  | some column => simp
  | none =>
    simp only
    split
    · next h =>
      obtain ⟨row, hrow, hname⟩ := List.any_eq_true.1 h
      simp only [reduceCtorEq, false_iff]
      exact fun hall => hall.2.1 row hrow (by simpa using hname)
    · next h =>
      have hnames : ∀ row ∈ t.resultsAt run c.site, row.name ≠ c.name := by simpa using h
      cases t.run? run with
      | none => simp
      | some r =>
        constructor
        · intro h
          cases h
          exact ⟨trivial, hnames, ⟨r, rfl⟩, rfl⟩
        · rintro ⟨-, -, -, rfl⟩
          rfl

theorem Valid.insertResult (h : t.Valid) {c : ResultColumns α} {x : Int × Tables α}
    (hresult : t.insertResult run c = .ok x) : x.2.Valid := by
  obtain ⟨-, hnames, hrun, rfl⟩ := insertResult_eq_ok.1 hresult
  refine ⟨h.nodup_runs, ?_, ?_, h.nodup_views, h.run_le, fun row hrow => ?_, fun row hrow => ?_,
    fun v hv => ?_⟩
  · have hnew : ∀ row ∈ t.resultRows, row.id ≠ t.lastResult + 1 := fun row hrow => by
      have := h.result_le row hrow
      omega
    simpa [withResult, List.nodup_append] using ⟨h.nodup_results, hnew⟩
  · have hnew : ∀ row ∈ t.resultRows, row.run = run → row.site = c.site → row.name ≠ c.name :=
      fun row hrow hrun hsite => hnames row <| by
        simpa [resultsAt, results, hrun, hsite] using hrow
    rw [withResult, List.map_append, List.nodup_append]
    refine ⟨h.nodup_names, List.nodup_singleton _, fun p hp q hq heq => ?_⟩
    obtain ⟨row, hrow, rfl⟩ := List.mem_map.1 hp
    rw [List.map_singleton, List.mem_singleton] at hq
    simp only [hq, Prod.mk.injEq] at heq
    exact hnew row hrow heq.1 heq.2.1 heq.2.2
  · rcases List.mem_append.1 hrow with hrow | hrow
    · have := h.result_le row hrow
      simp only [withResult]
      omega
    · rw [List.mem_singleton.1 hrow]
      exact Int.le_refl _
  · rcases List.mem_append.1 hrow with hrow | hrow
    · exact h.run_of_result row hrow
    · rw [List.mem_singleton.1 hrow]
      exact exists_run?_iff.1 hrun
  · obtain ⟨row, hrow, hid⟩ := h.result_of_view v hv
    exact ⟨row, List.mem_append_left _ hrow, hid⟩

variable [BitPattern α] {r : Record α}

/-- What a record adds to the tables: a result under the next number, with its views. -/
theorem insertRecord_eq (h : t.insertRecord run r = .ok t') :
    t' = { t.withResult run (.ofRecord r) with
      viewRows := t.viewRows ++ numbered (t.lastResult + 1) 0 (ViewColumns.ofRecord r) } := by
  obtain ⟨⟨id, t₁⟩, hresult, hviews⟩ := Fallible.bind_eq_ok.1 h
  obtain ⟨-, -, -, hpair⟩ := insertResult_eq_ok.1 hresult
  obtain ⟨rfl, rfl⟩ := Prod.mk.inj hpair
  exact insertViews_eq hviews

/-- A record is accepted if the numbers of its columns are there, its run has none of its name for its site
yet, there is such a run, and its views have different names. -/
theorem exists_insertRecord_iff (h : t.Valid) : (∃ t', t.insertRecord run r = .ok t') ↔
    (ResultColumns.ofRecord r).missing? = none ∧
      (∀ row ∈ t.resultsAt run r.site, row.name ≠ r.name) ∧ (∃ row, t.run? run = some row) ∧
      (r.views.map (·.1)).Nodup := by
  have hnew : ∃ row ∈ (t.withResult run (.ofRecord r)).resultRows, row.id = t.lastResult + 1 :=
    ⟨_, List.mem_append_right _ (List.mem_singleton_self _), rfl⟩
  have hnone : (t.withResult run (.ofRecord r)).views (t.lastResult + 1) = [] := h.views_lastResult
  have hnames : (ViewColumns.ofRecord r).map (·.name) = r.views.map (·.1) := by
    rw [ViewColumns.ofRecord, List.map_map]
    rfl
  have hviews : (∃ t', (t.withResult run (.ofRecord r)).insertViews (t.lastResult + 1) 0
      (ViewColumns.ofRecord r) = .ok t') ↔ _ := exists_insertViews_iff hnew
  rw [hnone, hnames] at hviews
  simp only [List.not_mem_nil, false_implies, implies_true, and_true] at hviews
  constructor
  · rintro ⟨t', hrecord⟩
    obtain ⟨⟨id, t₁⟩, hresult, hinsert⟩ := Fallible.bind_eq_ok.1 hrecord
    obtain ⟨hmissing, hname, hrun, hpair⟩ := insertResult_eq_ok.1 hresult
    obtain ⟨rfl, rfl⟩ := Prod.mk.inj hpair
    exact ⟨hmissing, hname, hrun, hviews.1 ⟨t', hinsert⟩⟩
  · rintro ⟨hmissing, hname, hrun, hnodup⟩
    obtain ⟨t', hinsert⟩ := hviews.2 hnodup
    exact ⟨t', Fallible.bind_eq_ok.2
      ⟨_, insertResult_eq_ok.2 ⟨hmissing, hname, hrun, rfl⟩, hinsert⟩⟩

theorem Valid.insertRecord (h : t.Valid) (hrecord : t.insertRecord run r = .ok t') : t'.Valid := by
  obtain ⟨⟨id, t₁⟩, hresult, hviews⟩ := Fallible.bind_eq_ok.1 hrecord
  exact (h.insertResult hresult).insertViews hviews

/-- Views of results that were there before stay as they are. -/
theorem views_insertRecord_of_le (h : t.insertRecord run r = .ok t') {id : Int}
    (hid : id ≤ t.lastResult) : t'.views id = t.views id := by
  have hnew : (numbered (t.lastResult + 1) 0 (ViewColumns.ofRecord r)).filter (·.result == id) =
      [] := by
    rw [List.filter_eq_nil_iff]
    intro v hv
    obtain ⟨i, _, rfl⟩ := List.mem_mapIdx.1 hv
    simp
    omega
  rw [insertRecord_eq h, views, List.filter_append, hnew, List.append_nil]
  rfl

/-- The views of the new result are those of the record. -/
theorem views_insertRecord (h : t.Valid) (hrecord : t.insertRecord run r = .ok t') :
    t'.views (t.lastResult + 1) = numbered (t.lastResult + 1) 0 (ViewColumns.ofRecord r) := by
  have hold := h.views_lastResult
  have hnew : (numbered (t.lastResult + 1) 0 (ViewColumns.ofRecord r)).filter
      (·.result == t.lastResult + 1) =
      numbered (t.lastResult + 1) 0 (ViewColumns.ofRecord r) := by
    rw [List.filter_eq_self]
    intro v hv
    obtain ⟨i, _, rfl⟩ := List.mem_mapIdx.1 hv
    simp
  rw [views] at hold
  rw [insertRecord_eq hrecord, views, List.filter_append, hnew]
  simp only [hold, List.nil_append]

/-- The results of a run that a record was saved for. -/
theorem results_insertRecord (h : t.insertRecord run r = .ok t') :
    t'.results run = t.results run ++ [⟨.ofRecord r, t.lastResult + 1, run⟩] := by
  rw [insertRecord_eq h, results, withResult, List.filter_append]
  simp [results]

/-- All other runs stay as they are. -/
theorem sameRun_insertRecord (h : t.Valid) (hrecord : t.insertRecord run r = .ok t') {id : Int}
    (hid : id ≠ run) : t.SameRun t' id where
  found := by rw [insertRecord_eq hrecord]; rfl
  results := by
    have hne : (run == id) = false := by simpa using Ne.symm hid
    rw [insertRecord_eq hrecord, results, withResult, List.filter_append]
    simp [results, hne]
  views row hrow := views_insertRecord_of_le hrecord (h.result_le row (List.mem_of_mem_filter hrow))

end

end SeismicHazard.Tables
