import SeismicHazard.Proofs.Calculation.Keys
import SeismicHazard.Proofs.Config.Validation
import SeismicHazard.Proofs.Record.Name
import SeismicHazard.Proofs.Record.Saving
import SeismicHazard.Proofs.Storage.Loading

/-!
# Saving the results of a calculation

The records of a calculation are handed to a run one by one. Every result has its site and its grid, and
no two records of a site share a name, so that a run refuses none of them on account of its site, its
edges or its name. It refuses a record with a view that is there twice, which a configuration may ask for.

* `RunWriter.exists_sink_iff`: when a run accepts a record.
* `saveAll_sink`: when it accepts several, and what it holds after that.
* `Calculation.EndsWith.nodup_names`: no two records of a calculation share site and name.
* `Calculation.exists_saveOutcome_iff`: which outcomes can be saved.
-/

namespace SeismicHazard

/-! ### A run as a sink -/

section

variable {α : Type} [Scalar α] [BitPattern α] {w : RunWriter} {t t₀ : Tables α} {r : Record α}

namespace RunWriter

omit [Scalar α] [BitPattern α] in
theorem fresh_of_start [DecimalText α] {moment : ℤ} {config : Option (Config α)} (ht₀ : t₀.Valid)
    (h : start t₀ moment config = .ok (w, t)) :
    t.Valid ∧ (∃ row, t.run? w.run = some row) ∧ t.results w.run = [] ∧ w.saved = 0 := by
  obtain ⟨text, -, h⟩ := Fallible.bind_eq_ok.1 h
  cases h
  have hfound : (t₀.insertRun moment text).2.run? (t₀.lastRun + 1) = _ :=
    Tables.run?_insertRun ht₀ _
  rw [if_pos rfl] at hfound
  exact ⟨ht₀.insertRun, ⟨_, hfound⟩, ht₀.results_lastRun, rfl⟩

theorem sink_eq_ok {s : RunWriter × Tables α} : sink (w, t) r = .ok s ↔
    ∃ t', t.insertRecord w.run r = .ok t' ∧ s = (⟨w.run, w.saved + 1⟩, t') := by
  rw [sink, Fallible.mapError_eq_ok, save]
  cases t.insertRecord w.run r with
  | error refusal => simp
  | ok t' => simp [eq_comm]

/-- A run accepts a record if it has numbers in its columns, the run has none of its name for its site,
and its views have different names. -/
theorem exists_sink_iff (ht : t.Valid) (hrun : ∃ row, t.run? w.run = some row) :
    (∃ s, sink (w, t) r = .ok s) ↔ r.HasNumbers ∧
      (r.site, r.name) ∉ (t.results w.run).map (fun row => (row.site, row.name)) ∧
      (r.views.map (·.1)).Nodup := by
  have hfresh : (∀ row ∈ t.resultsAt w.run r.site, row.name ≠ r.name) ↔
      (r.site, r.name) ∉ (t.results w.run).map fun row => (row.site, row.name) := by
    simp [Tables.resultsAt]
  have hinsert : (∃ t', t.insertRecord w.run r = .ok t') ↔ _ := Tables.exists_insertRecord_iff ht
  rw [Record.missing?_ofRecord_eq_none_iff, hfresh] at hinsert
  simp only [sink_eq_ok]
  constructor
  · rintro ⟨_, t', ht', -⟩
    obtain ⟨hnumbers, hname, -, hviews⟩ := hinsert.1 ⟨t', ht'⟩
    exact ⟨hnumbers, hname, hviews⟩
  · rintro ⟨hnumbers, hname, hviews⟩
    obtain ⟨t', ht'⟩ := hinsert.2 ⟨hnumbers, hname, hrun, hviews⟩
    exact ⟨_, t', ht', rfl⟩

/-- What a run is like after it has accepted a record. -/
theorem spec_of_sink {w' : RunWriter} {t' : Tables α} (ht : t.Valid)
    (hrun : ∃ row, t.run? w.run = some row) (h : sink (w, t) r = .ok (w', t')) :
    w' = ⟨w.run, w.saved + 1⟩ ∧ t'.Valid ∧ (∃ row, t'.run? w.run = some row) ∧
      t'.results w.run = t.results w.run ++ [⟨.ofRecord r, t.lastResult + 1, w.run⟩] := by
  obtain ⟨next, hnext, hpair⟩ := sink_eq_ok.1 h
  obtain ⟨rfl, rfl⟩ := Prod.mk.inj hpair
  refine ⟨rfl, ht.insertRecord hnext, ?_, Tables.results_insertRecord hnext⟩
  rw [Tables.insertRecord_eq hnext]
  exact hrun

end RunWriter

variable [DecimalText α] {c : RecordContext α}

/-- Records with numbers and with names that are new are saved exactly if all of them pass the check and
no two views of one share a name. -/
theorem saveAll_sink {entries : List (ResultKey α × Marginals α)}
    (hrecords : ∀ e ∈ entries, ∃ r, c.record? e.1 e.2 = some r) (ht : t.Valid)
    (hrun : ∃ row, t.run? w.run = some row) (hnumbers : ∀ r ∈ c.records entries, r.HasNumbers)
    (hnames : ((t.results w.run).map (fun row => (row.site, row.name)) ++
      (c.records entries).map fun r => (r.site, r.name)).Nodup) (saved : ℕ) :
    let saving := saveAll c RunWriter.sink entries (w, t) saved
    (saving.failure = none ↔ ∀ r ∈ c.records entries,
      r.check c.tolerance c.strict = .ok () ∧ (r.views.map (·.1)).Nodup) ∧
    (saving.failure = none → saving.sink.1 = ⟨w.run, w.saved + entries.length⟩ ∧
      (saving.sink.2.results w.run).map (·.toResultColumns) =
        (t.results w.run).map (·.toResultColumns) ++ (c.records entries).map .ofRecord) := by
  induction entries generalizing w t saved with
  | nil => simp [saveAll, RecordContext.records]
  | cons e entries ih =>
    obtain ⟨k, m⟩ := e
    rw [List.forall_mem_cons] at hrecords
    obtain ⟨⟨r, hr⟩, hrecords⟩ := hrecords
    rw [RecordContext.records_cons hr, List.forall_mem_cons] at hnumbers
    rw [RecordContext.records_cons hr] at hnames ⊢
    rw [saveAll, RecordContext.checkedRecord_eq hr, List.forall_mem_cons]
    cases hcheck : r.check c.tolerance c.strict with
    | error e => simp [Except.map]
    | ok _ =>
      have hnew : (r.site, r.name) ∉ (t.results w.run).map fun row => (row.site, row.name) := by
        have hnotMem := (List.nodup_cons.1 (List.nodup_middle.1 hnames)).1
        exact fun hmem => hnotMem (List.mem_append_left _ hmem)
      have haccepts := RunWriter.exists_sink_iff (r := r) ht hrun
      cases hsink : RunWriter.sink (w, t) r with
      | error e =>
        have hviews : ¬ (r.views.map (·.1)).Nodup := by
          intro hviews
          obtain ⟨s, hs⟩ := haccepts.2 ⟨hnumbers.1, hnew, hviews⟩
          rw [hsink] at hs
          cases hs
        simp [Except.map, hsink, hviews]
      | ok s =>
        have hviews := (haccepts.1 ⟨s, hsink⟩).2.2
        obtain ⟨w', t'⟩ := s
        obtain ⟨rfl, ht', hrun', hresults⟩ := RunWriter.spec_of_sink ht hrun hsink
        have hnames' : ((t'.results w.run).map (fun row => (row.site, row.name)) ++
            (c.records entries).map fun r => (r.site, r.name)).Nodup := by
          rw [hresults, List.map_append, List.append_assoc]
          exact hnames
        obtain ⟨hiff, hend⟩ := ih (w := ⟨w.run, w.saved + 1⟩) hrecords ht' hrun' hnumbers.2 hnames'
          (saved + 1)
        simp only [Except.map, hsink]
        refine ⟨?_, fun hnone => ?_⟩
        · rw [hiff]
          simp [hviews]
        · obtain ⟨hwriter, hrows⟩ := hend hnone
          rw [hwriter, hrows, hresults]
          simp [Nat.add_assoc, Nat.add_comm 1]

end

/-! ### Outcomes -/

namespace Calculation

section

variable {α : Type} [Scalar α] [Elementary α] [TotalOrder α] [BitPattern α] [DecimalText α]

/-- What is needed beside the results of an outcome to make records of them. -/
def recordContext (c : Calculation α) (inputs : Inputs α) (out : Outcome α) : RecordContext α :=
  ⟨inputs.sites, out.grids, c.config.time, c.config.tolerance, c.config.strict⟩

/-- The records of an outcome, in the order of its results. -/
def records (c : Calculation α) (inputs : Inputs α) (out : Outcome α) : List (Record α) :=
  (c.recordContext inputs out).records out.results.toList

/-- The records of an outcome, handed to a sink. -/
def saveOutcome {σ : Type} (c : Calculation α) (inputs : Inputs α)
    (save : σ → Record α → Except (Error α) σ) (s : σ) (out : Outcome α) : Except (Error α) σ :=
  let saving := saveResults (c.recordContext inputs out) save out.results s
  match saving.failure with
  | some e => .error e
  | none => .ok saving.sink

variable {c : Calculation α} {inputs : Inputs α} {out : Outcome α}

/-- To run and save is to save the outcome of a run. -/
theorem runAndSave_of_run {σ : Type} (save : σ → Record α → Except (Error α) σ) (s : σ)
    (h : c.run inputs = .ok out) :
    c.runAndSave inputs save s = (c.saveOutcome inputs save s out).map (out, ·) := by
  unfold runAndSave saveOutcome recordContext
  rw [h]
  simp only [bind, Except.bind]
  cases (saveResults ⟨inputs.sites, out.grids, c.config.time, c.config.tolerance, c.config.strict⟩
    save out.results s).failure with
  | none => rfl
  | some e => rfl

omit [Elementary α] [BitPattern α] in
theorem saveOutcome_eq_ok {σ : Type} {save : σ → Record α → Except (Error α) σ} {s s' : σ} :
    c.saveOutcome inputs save s out = .ok s' ↔
      let saving := saveAll (c.recordContext inputs out) save out.results.toList s 0
      saving.failure = none ∧ saving.sink = s' := by
  unfold saveOutcome saveResults
  simp only
  cases (saveAll (c.recordContext inputs out) save out.results.toList s 0).failure with
  | none => simp
  | some e => simp

/-- Whether the numbers in the names and in the columns of the records of an outcome are finite. -/
structure HasFiniteNumbers (c : Calculation α) (inputs : Inputs α) (out : Outcome α) : Prop where
  time : Scalar.isFinite c.config.time
  place : ∀ site ∈ inputs.sites.toList,
    Scalar.isFinite site.location.lon ∧ Scalar.isFinite site.location.lat
  key : ∀ (k : ResultKey α) (m : Marginals α), out.results[k]? = some m →
    Scalar.isFinite k.level ∧ ∀ p ∈ k.poe, Scalar.isFinite p

omit [Elementary α] in
theorem HasFiniteNumbers.hasNumbers [StoredNumber α]
    [Std.TransCmp (TotalOrder.cmp : α → α → Ordering)]
    [Std.LawfulEqCmp (TotalOrder.cmp : α → α → Ordering)] (h : c.HasFiniteNumbers inputs out) :
    ∀ r ∈ c.records inputs out, r.HasNumbers := by
  intro r hr
  obtain ⟨e, he, hr⟩ := List.mem_filterMap.1 hr
  obtain ⟨site, grid, hsite, -, rfl⟩ := RecordContext.record?_eq_some.1 hr
  obtain ⟨hlon, hlat⟩ := h.place site (List.mem_of_find?_eq_some hsite)
  have hlevel := (h.key e.1 e.2 (Std.TreeMap.mem_toList_iff_getElem?_eq_some.1 he)).1
  exact ⟨StoredNumber.isNumber_of_isFinite _ hlon, StoredNumber.isNumber_of_isFinite _ hlat,
    StoredNumber.isNumber_of_isFinite _ hlevel, StoredNumber.isNumber_of_isFinite _ h.time⟩

namespace EndsWith

variable [Std.TransCmp (TotalOrder.cmp : α → α → Ordering)]
  [Std.LawfulEqCmp (TotalOrder.cmp : α → α → Ordering)] {e : ResultKey α × Marginals α}
  {r : Record α}

/-- Every result has a record. -/
theorem exists_record (h : c.EndsWith inputs out) (he : e ∈ out.results.toList) :
    ∃ r, (c.recordContext inputs out).record? e.1 e.2 = some r := by
  obtain ⟨⟨⟨site, hsite⟩, ⟨grid, hgrid⟩, -, -⟩, -⟩ :=
    h.requests (Std.TreeMap.mem_toList_iff_getElem?_eq_some.1 he)
  exact ⟨_, RecordContext.record?_eq_some.2 ⟨site, grid, hsite, hgrid, rfl⟩⟩

/-- The views of a record have the names of the views that are asked for. -/
theorem map_views_record (h : c.EndsWith inputs out) (he : e ∈ out.results.toList)
    (hr : (c.recordContext inputs out).record? e.1 e.2 = some r) :
    r.views.map (·.1) = c.config.marginals.map Marginal.name := by
  obtain ⟨-, hkinds⟩ := h.requests (Std.TreeMap.mem_toList_iff_getElem?_eq_some.1 he)
  obtain ⟨site, grid, -, -, rfl⟩ := RecordContext.record?_eq_some.1 hr
  rw [← hkinds, Marginals.kinds_eq, Record.ofResult, List.map_map, List.map_map]
  rfl

theorem nodup_views_iff (h : c.EndsWith inputs out) :
    (∀ r ∈ c.records inputs out, (r.views.map (·.1)).Nodup) ↔
      out.results.toList = [] ∨ (c.config.marginals.map Marginal.name).Nodup := by
  constructor
  · intro hall
    by_cases hnil : out.results.toList = []
    · exact Or.inl hnil
    · obtain ⟨e, he⟩ := List.exists_mem_of_ne_nil _ hnil
      obtain ⟨r, hr⟩ := h.exists_record he
      rw [← h.map_views_record he hr]
      exact Or.inr (hall r (List.mem_filterMap.2 ⟨e, he, hr⟩))
  · intro hviews r hr
    obtain ⟨e, he, hr⟩ := List.mem_filterMap.1 hr
    rw [h.map_views_record he hr]
    exact hviews.resolve_left (List.ne_nil_of_mem he)

/-- No two records share site and name. -/
theorem nodup_names [DistinctDecimals α] (h : c.EndsWith inputs out)
    (hfinite : c.HasFiniteNumbers inputs out) :
    ((c.records inputs out).map fun r => (r.site, r.name)).Nodup := by
  have hkeys : out.results.toList.Pairwise fun e e' => e.1 ≠ e'.1 := by
    rw [← List.pairwise_map, ← List.nodup_iff_pairwise_ne]
    exact Results.nodup_toList
  rw [List.nodup_iff_pairwise_ne, List.pairwise_map, records, RecordContext.records,
    List.pairwise_filterMap]
  refine hkeys.imp_of_mem fun {e e'} he he' hne r hr r' hr' heq => hne ?_
  have hfound := Std.TreeMap.mem_toList_iff_getElem?_eq_some.1 he
  have hfound' := Std.TreeMap.mem_toList_iff_getElem?_eq_some.1 he'
  obtain ⟨site, grid, hsite, -, rfl⟩ := RecordContext.record?_eq_some.1 hr
  obtain ⟨site', grid', hsite', -, rfl⟩ := RecordContext.record?_eq_some.1 hr'
  obtain ⟨hid, hname⟩ := Prod.mk.inj heq
  simp only [Record.ofResult] at hid hname
  -- both results are at one place, where their names tell them apart
  rw [hid, hsite'] at hsite
  obtain rfl := Option.some.inj hsite
  obtain ⟨hpoe, hrealization, himt⟩ := ResultKey.eq_of_recordName_eq
    (hfinite.key e.1 e.2 hfound).2 (hfinite.key e'.1 e'.2 hfound').2 hname
  exact (h.requests hfound).1.eq (h.requests hfound').1 hid hpoe hrealization himt

end EndsWith

variable [Std.TransCmp (TotalOrder.cmp : α → α → Ordering)]
  [Std.LawfulEqCmp (TotalOrder.cmp : α → α → Ordering)] [StoredNumber α] [DistinctDecimals α]

/-- Whatever the order in which its tasks have ended, an accepted calculation with finite numbers has a site
and a grid for each of its results. A new run takes all their records exactly if there are none or no
view is asked for twice, and every record passes the check of its overall probabilities. What the run
holds then is one row for each result, in their order. -/
theorem exists_saveOutcome_iff {config : Config α} {x : Executor} {workers : ℕ}
    (hc : withExecutor config x workers = .ok c) (hend : c.EndsWith inputs out)
    (hfinite : c.HasFiniteNumbers inputs out) {t₀ t : Tables α} {moment : ℤ}
    {kept : Option (Config α)} {w : RunWriter} (ht₀ : t₀.Valid)
    (hstart : RunWriter.start t₀ moment kept = .ok (w, t)) :
    (∀ (k : ResultKey α) (m : Marginals α), out.results[k]? = some m →
      (∃ site, inputs.sites.get? k.site = some site) ∧ ∃ g, out.grids[k.site]? = some g) ∧
    (c.records inputs out).length = out.results.size ∧
    ((∃ s, c.saveOutcome inputs RunWriter.sink (w, t) out = .ok s) ↔
      (out.results.toList = [] ∨ config.execution.views.Nodup) ∧
        ∀ r ∈ c.records inputs out, r.check config.tolerance config.strict = .ok ()) ∧
    (∀ w' t', c.saveOutcome inputs RunWriter.sink (w, t) out = .ok (w', t') →
      w'.saved = out.results.size ∧
        (t'.results w.run).map (·.toResultColumns) = (c.records inputs out).map .ofRecord) ∧
    (c.run inputs = .ok out → c.runAndSave inputs RunWriter.sink (w, t) =
      (c.saveOutcome inputs RunWriter.sink (w, t) out).map (out, ·)) := by
  obtain ⟨hvalid, -, rfl⟩ := withExecutor_eq_ok.1 hc
  obtain ⟨ht, hrun, hnone, hsaved⟩ := RunWriter.fresh_of_start ht₀ hstart
  have hnames := hend.nodup_names hfinite
  obtain ⟨hiff, hstored⟩ := saveAll_sink (fun e he => hend.exists_record he) ht hrun
    hfinite.hasNumbers (by rw [hnone]; exact hnames) 0
  refine ⟨?_, ?_, ?_, ?_, runAndSave_of_run RunWriter.sink (w, t)⟩
  · intro k m hm
    obtain ⟨⟨hsite, hgrid, -, -⟩, -⟩ := hend.requests hm
    exact ⟨hsite, hgrid⟩
  · rw [records, RecordContext.length_records fun e he => hend.exists_record he,
      Std.TreeMap.length_toList]
  · rw [← Config.nodup_marginals_iff hvalid]
    have hviews := hend.nodup_views_iff
    simp only [saveOutcome_eq_ok, exists_and_left, exists_eq', and_true]
    rw [hiff, ← hviews]
    exact ⟨fun h => ⟨fun r hr => (h r hr).2, fun r hr => (h r hr).1⟩,
      fun h r hr => ⟨h.2 r hr, h.1 r hr⟩⟩
  · intro w' t' h
    obtain ⟨hnofailure, hsink⟩ := saveOutcome_eq_ok.1 h
    obtain ⟨hwriter, hrows⟩ := hstored hnofailure
    rw [hsink] at hwriter hrows
    simp only at hwriter hrows
    rw [hwriter, hrows, hnone, hsaved, ← Std.TreeMap.length_toList]
    exact ⟨Nat.zero_add _, rfl⟩

end

/-! ### A sample -/

namespace Doubles

/-- Stand-ins for the functions beyond arithmetic, close to them for exponents around zero and for places
around 45 degrees north: there a degree is 78.6 km along the parallel and 111.2 km along the meridian.
Logarithms, powers of ten and normal probabilities play no part in the sample. -/
scoped instance : Elementary Float where
  exp x := (12 + 6 * x + x * x) / (12 - 6 * x + x * x)
  ln x := x
  powTen x := 1 + x
  sqrt := Float.sqrt
  normalCdf _ := 0.5
  distance a b c d :=
    Float.sqrt (78.6 * (a - c) * (78.6 * (a - c)) + 111.2 * (b - d) * (111.2 * (b - d)))

/-- One level and some views are asked for, everything else is left at its default. -/
def config (views : List String) : Config Float :=
  { Config.empty with
    request := ⟨none, none, none, [], Std.TreeMap.ofList [("PGA", (0.1 : Float))], []⟩
    execution := ⟨none, none, none, none, views, none, none⟩ }

/-- A point next to two sites at one place. -/
def inputs : Inputs Float where
  sites := ⟨[⟨0, .surface 10 45, 100⟩, ⟨1, .surface 10 45, 100⟩]⟩
  models := [⟨0, "model", [⟨0, "A",
    [.point ⟨"point", "A", ⟨10.5, 45, 10⟩, .binned 5 1 [0.01, 0.001]⟩]⟩]⟩]
  tree := ⟨[⟨0, 0, 1, Std.TreeMap.ofList [("A", "G")]⟩]⟩
  library := .ofList [⟨"G", fun _ q => .ok (List.replicate (q.epsilonEdges.length - 1) 0.5)⟩]
  curves := ⟨∅⟩

def calculation (views : List String) : Calculation Float := ⟨config views, .sequential, 1⟩

theorem withExecutor_config : ∀ views ∈ [["Mag", "Dist"], ["Mag", "Mag"]],
    withExecutor (config views) .sequential 1 = .ok (calculation views) := by
  intro views hviews
  apply withExecutor_of_toBool
  revert views
  decide +kernel

theorem hasFiniteNumbers {views : List String} {out : Outcome Float}
    (hkeys : out.results.toList.all fun e =>
      Scalar.isFinite e.1.level && e.1.poe.all Scalar.isFinite) :
    (calculation views).HasFiniteNumbers inputs out where
  time := by
    change Scalar.isFinite ((config []).time) = true
    decide +kernel
  place := by
    decide +kernel
  key k m hm := by
    have hmem := Std.TreeMap.mem_toList_iff_getElem?_eq_some.2 hm
    have hnumbers := List.all_eq_true.1 hkeys _ hmem
    rw [Bool.and_eq_true] at hnumbers
    refine ⟨hnumbers.1, fun p hp => ?_⟩
    have hpoe := hnumbers.2
    rw [Option.mem_def.1 hp] at hpoe
    exact hpoe

/-- The calculation succeeds and has a result with finite numbers for each site. -/
theorem exists_outcome : ∀ views ∈ [["Mag", "Dist"], ["Mag", "Mag"]],
    ∃ out, (calculation views).run inputs = .ok out ∧ out.results.size = 2 ∧
      (calculation views).HasFiniteNumbers inputs out := by
  intro views hviews
  have hrun : ((calculation views).run inputs).toOption.any fun out =>
      out.results.size == 2 && out.results.toList.all fun e =>
        Scalar.isFinite e.1.level && e.1.poe.all Scalar.isFinite := by
    revert views
    decide +kernel
  obtain ⟨out, hout, hnumbers⟩ := (Option.any_eq_true _ _).1 hrun
  obtain ⟨hsize, hkeys⟩ := (Bool.and_eq_true _ _).mp hnumbers
  exact ⟨out, Fallible.toOption_eq_some.1 hout, beq_iff_eq.1 hsize, hasFiniteNumbers hkeys⟩

end Doubles

open Doubles in
/-- Two views are saved for both sites; a view that is asked for twice is not saved. -/
theorem exists_saveOutcome_iff_doubles :
    ∃ (w : RunWriter) (t : Tables Float), RunWriter.start .empty 0 none = .ok (w, t) ∧
      (∃ out s, (calculation ["Mag", "Dist"]).run inputs = .ok out ∧
        (calculation ["Mag", "Dist"]).runAndSave inputs RunWriter.sink (w, t) = .ok (out, s) ∧
        s.1.saved = 2) ∧
      ∃ out, (calculation ["Mag", "Mag"]).run inputs = .ok out ∧
        ¬ ∃ s, (calculation ["Mag", "Mag"]).saveOutcome inputs RunWriter.sink (w, t) out = .ok s := by
  have hstart : RunWriter.start .empty 0 none =
      .ok (⟨1, 0⟩, ((Tables.empty : Tables Float).insertRun 0 none).2) := rfl
  refine ⟨_, _, hstart, ?_, ?_⟩
  · have hviews : ["Mag", "Dist"] ∈ [["Mag", "Dist"], ["Mag", "Mag"]] := by simp
    obtain ⟨out, hout, hsize, hfinite⟩ := exists_outcome _ hviews
    obtain ⟨-, -, hsaves, hstored, hrun⟩ := exists_saveOutcome_iff (withExecutor_config _ hviews)
      (endsWith_of_run hout) hfinite Tables.valid_empty hstart
    have hchecks : ∀ r ∈ (calculation ["Mag", "Dist"]).records inputs out,
        r.check (Doubles.config ["Mag", "Dist"]).tolerance (Doubles.config ["Mag", "Dist"]).strict =
          .ok () := fun r _ => r.check_of_not_strict _
    obtain ⟨⟨w', t'⟩, hs⟩ := hsaves.2 ⟨Or.inr (by decide), hchecks⟩
    refine ⟨out, (w', t'), hout, ?_, ?_⟩
    · rw [hrun hout, hs]
      rfl
    · rw [← hsize]
      exact (hstored w' t' hs).1
  · have hviews : ["Mag", "Mag"] ∈ [["Mag", "Dist"], ["Mag", "Mag"]] := by simp
    obtain ⟨out, hout, hsize, hfinite⟩ := exists_outcome _ hviews
    obtain ⟨-, -, hsaves, -, -⟩ := exists_saveOutcome_iff (withExecutor_config _ hviews)
      (endsWith_of_run hout) hfinite Tables.valid_empty hstart
    refine ⟨out, hout, fun hs => ?_⟩
    rcases (hsaves.1 hs).1 with hnil | hnodup
    · rw [← Std.TreeMap.length_toList, hnil] at hsize
      cases hsize
    · exact absurd hnodup (by decide)

open Doubles in
/-- An accepted configuration that names a view twice: the calculation succeeds, with finite numbers, but
the first of its records is refused. -/
theorem repeated_view_refused :
    withExecutor (Doubles.config ["Mag", "Mag"]) .sequential 1 = .ok (calculation ["Mag", "Mag"]) ∧
      (∃ out, (calculation ["Mag", "Mag"]).run inputs = .ok out ∧ out.results.size = 2 ∧
        (calculation ["Mag", "Mag"]).HasFiniteNumbers inputs out) ∧
      ∃ (w : RunWriter) (t : Tables Float), RunWriter.start .empty 0 none = .ok (w, t) ∧
        (calculation ["Mag", "Mag"]).runAndSave inputs RunWriter.sink (w, t) =
          .error (.storage (.refused (.duplicate "disagg_matrix" ["result_id", "pmf"]))) := by
  have hviews : ["Mag", "Mag"] ∈ [["Mag", "Dist"], ["Mag", "Mag"]] := by simp
  refine ⟨withExecutor_config _ hviews, exists_outcome _ hviews, _, _, rfl, ?_⟩
  have hend : (match (calculation ["Mag", "Mag"]).runAndSave inputs RunWriter.sink
      (⟨1, 0⟩, ((Tables.empty : Tables Float).insertRun 0 none).2) with
    | .error (.storage (.refused (.duplicate table columns))) => some (table, columns)
    | _ => none) = some ("disagg_matrix", ["result_id", "pmf"]) := by decide +kernel
  split at hend
  · next table columns h =>
    cases hend
    exact h
  · cases hend

end Calculation

end SeismicHazard
