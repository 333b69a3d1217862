import Mathlib.Data.List.Forall2
import SeismicHazard.Proofs.Calculation.Run
import SeismicHazard.Proofs.Storage.Tables
import SeismicHazard.Storage.Session

/-!
# What several runs keep in the tables

Whatever is done with any number of runs over the same tables, each run has a result for every record
that it has saved, and no run touches the rows of another.

* `Session.Handle.Kept`: whether the tables hold what a run has saved.
* `Session.Sound`: whether they do so for all runs.
* `Session.Step`, `Session.Sound.step`: what an operation can do.
* `Session.Step.sound`, `Session.Step.sameRun`: what it keeps.
* `Session.results_follow_saved`: what a list of operations keeps.
-/

namespace SeismicHazard

section

variable {α : Type}

/-- Whether a row with its views holds a record. -/
structure Tables.Keeps [Scalar α] [BitPattern α] (t : Tables α) (row : ResultRow α) (r : Record α) :
    Prop where
  columns : row.toResultColumns = .ofRecord r
  views : t.views row.id = numbered row.id 0 (ViewColumns.ofRecord r)

/-- Rows hold their records as long as their views stay the same. -/
theorem Tables.forall₂_keeps [Scalar α] [BitPattern α] {t t' : Tables α} {rows : List (ResultRow α)}
    {records : List (Record α)} (h : List.Forall₂ t.Keeps rows records)
    (hviews : ∀ row ∈ rows, t'.views row.id = t.views row.id) :
    List.Forall₂ t'.Keeps rows records := by
  refine ((List.forall₂_and_left _ _).2 ⟨hviews, h⟩).imp fun row r hrow => ?_
  exact ⟨hrow.2.columns, hrow.1.trans hrow.2.views⟩

namespace Session

theorem open?_eq_some {s : Session α} {i : Nat} {h : Handle α} :
    s.open? i = some h ↔ s.handles[i]? = some h ∧ h.isOpen := by
  simp [open?]

/-- Handles other than the one that was replaced are about other runs. -/
theorem ne_of_mem_set {handles : List (Handle α)} {i : Nat} {h h' g : Handle α}
    (hdistinct : (handles.map (·.writer.run)).Nodup) (hi : handles[i]? = some h)
    (hg : g ∈ handles.set i h') : g = h' ∨ (g ∈ handles ∧ g.writer.run ≠ h.writer.run) := by
  obtain ⟨j, hj⟩ := List.mem_iff_getElem?.1 hg
  rw [List.getElem?_set] at hj
  split at hj
  · split at hj
    · exact Or.inl (Option.some.inj hj).symm
    · cases hj
  · next hne =>
    refine Or.inr ⟨List.mem_of_getElem? hj, fun hsame => hne ?_⟩
    have hlength : i < (handles.map (·.writer.run)).length := by
      rw [List.length_map]
      exact (List.getElem?_eq_some_iff.1 hi).1
    refine (List.getElem?_inj hlength hdistinct).1 ?_
    rw [List.getElem?_map, List.getElem?_map, hi, hj, Option.map_some, Option.map_some, hsame]

/-! ### What is kept -/

section

variable [Scalar α] [BitPattern α] {t t' t₀ : Tables α} {h h' : Handle α} {s : Session α} {i : Nat}

/-- Whether the tables hold what a run has saved: a result for each of its records, in their order, and
their number once the run is closed. -/
structure Handle.Kept (h : Handle α) (t : Tables α) : Prop where
  saved : h.writer.saved = h.records.length
  results : List.Forall₂ t.Keeps (t.results h.writer.run) h.records
  run : ∃ row, t.run? h.writer.run = some row ∧
    row.numResults = if h.isOpen then none else some (h.writer.saved : Int)

theorem Handle.Kept.length_results (hk : h.Kept t) :
    (t.results h.writer.run).length = h.writer.saved := by
  rw [hk.results.length_eq, hk.saved]

theorem Handle.Kept.of_sameRun (hk : h.Kept t) (hsame : t.SameRun t' h.writer.run) : h.Kept t' where
  saved := hk.saved
  results := by
    rw [hsame.results]
    exact Tables.forall₂_keeps hk.results hsame.views
  run := by
    rw [hsame.found]
    exact hk.run

/-- Whether the tables hold what all runs have saved. The runs are later ones than those that the
tables held before, and these are as they were. -/
structure Sound (t₀ : Tables α) (s : Session α) : Prop where
  valid : s.tables.Valid
  distinct : (s.handles.map (·.writer.run)).Nodup
  kept : ∀ h ∈ s.handles, h.Kept s.tables
  later : ∀ h ∈ s.handles, t₀.lastRun < h.writer.run
  lastRun_le : t₀.lastRun ≤ s.tables.lastRun
  earlier : ∀ run ≤ t₀.lastRun, t₀.SameRun s.tables run

theorem Sound.run_le (hs : s.Sound t₀) (hmem : h ∈ s.handles) :
    h.writer.run ≤ s.tables.lastRun := by
  obtain ⟨row, hrow, -⟩ := (hs.kept h hmem).run
  obtain ⟨r, hr, hid⟩ := Tables.exists_run?_iff.1 ⟨row, hrow⟩
  exact hid ▸ hs.valid.run_le r hr

theorem sound_ofTables (h : t₀.Valid) : (ofTables t₀).Sound t₀ where
  valid := h
  distinct := List.nodup_nil
  kept _ hmem := absurd hmem List.not_mem_nil
  later _ hmem := absurd hmem List.not_mem_nil
  lastRun_le := Int.le_refl _
  earlier run _ := .refl t₀ run

/-- One run more: it has no results yet. -/
theorem Sound.add (hs : s.Sound t₀) (moment : Int) (text : Option String) :
    Sound t₀ ⟨(s.tables.insertRun moment text).2,
      s.handles ++ [⟨⟨s.tables.lastRun + 1, 0⟩, true, []⟩]⟩ := by
  have hlast := hs.lastRun_le
  have hsame : ∀ run, run ≠ s.tables.lastRun + 1 →
      s.tables.SameRun (s.tables.insertRun moment text).2 run := fun run hne =>
    Tables.sameRun_insertRun hs.valid hne
  refine ⟨hs.valid.insertRun, ?_, fun g hg => ?_, fun g hg => ?_, ?_, fun run hle => ?_⟩
  · have hnew : ∀ g ∈ s.handles, g.writer.run ≠ s.tables.lastRun + 1 := fun g hg => by
      have := hs.run_le hg
      omega
    simpa [List.nodup_append] using ⟨hs.distinct, hnew⟩
  · rcases List.mem_append.1 hg with hg | hg
    · have := hs.run_le hg
      exact (hs.kept g hg).of_sameRun (hsame _ (by omega))
    · rw [List.mem_singleton.1 hg]
      refine ⟨rfl, ?_, ⟨_, (Tables.run?_insertRun hs.valid _).trans (if_pos rfl), rfl⟩⟩
      have hnone : (s.tables.insertRun moment text).2.results (s.tables.lastRun + 1) = [] :=
        hs.valid.results_lastRun
      rw [hnone]
      exact .nil
  · rcases List.mem_append.1 hg with hg | hg
    · exact hs.later g hg
    · rw [List.mem_singleton.1 hg]
      show t₀.lastRun < s.tables.lastRun + 1
      omega
  · show t₀.lastRun ≤ s.tables.lastRun + 1
    omega
  · exact (hs.earlier run hle).trans (hsame run (by omega))

/-- One run goes on: the tables keep what all runs have saved if they do so for this run and its rows
are the only ones that change. -/
theorem Sound.set (hs : s.Sound t₀) (hi : s.handles[i]? = some h) (hvalid : t.Valid)
    (hlast : s.tables.lastRun ≤ t.lastRun)
    (hsame : ∀ run, run ≠ h.writer.run → s.tables.SameRun t run)
    (hrun : h'.writer.run = h.writer.run) (hkept : h'.Kept t) :
    Sound t₀ ⟨t, s.handles.set i h'⟩ := by
  have hmem : h ∈ s.handles := List.mem_of_getElem? hi
  refine ⟨hvalid, ?_, fun g hg => ?_, fun g hg => ?_, hs.lastRun_le.trans hlast, fun run hle => ?_⟩
  · have hmap : (s.handles.set i h').map (·.writer.run) = s.handles.map (·.writer.run) := by
      obtain ⟨hlt, hget⟩ := List.getElem?_eq_some_iff.1 hi
      have hself := List.set_getElem_self
        (show i < (s.handles.map (·.writer.run)).length by simpa using hlt)
      rwa [List.getElem_map, hget, ← hrun, ← List.map_set] at hself
    rw [hmap]
    exact hs.distinct
  · rcases ne_of_mem_set hs.distinct hi hg with rfl | ⟨hg, hne⟩
    · exact hkept
    · exact (hs.kept g hg).of_sameRun (hsame _ hne)
  · rcases ne_of_mem_set hs.distinct hi hg with rfl | ⟨hg, -⟩
    · rw [hrun]
      exact hs.later h hmem
    · exact hs.later g hg
  · have := hs.later h hmem
    exact (hs.earlier run hle).trans (hsame run (by omega))

end

/-! ### What an operation can do -/

/-- How an operation closes a run: at which moment, with which status and which error. -/
inductive Closes : Op α → Nat → Int → String → Option String → Prop where
  | finish (i : Nat) (moment : Int) : Closes (.finish i moment) i moment "completed" none
  | fail (i : Nat) (moment : Int) (message : String) :
    Closes (.fail i moment message) i moment "failed" (some message)

/-- The run that an operation is about: that of its handle, or the next one. -/
def runOf? (s : Session α) : Op α → Option Int
  | .start _ _ => some (s.tables.lastRun + 1)
  | .save i _ | .finish i _ | .fail i _ _ => s.handles[i]?.map (·.writer.run)

theorem Closes.runOf?_eq {op : Op α} {i : Nat} {moment : Int} {status : String}
    {error : Option String} (hop : Closes op i moment status error) (s : Session α) :
    s.runOf? op = s.handles[i]?.map (·.writer.run) := by
  cases hop <;> rfl

/-- An operation closes a run in one way only. -/
theorem Closes.unique {op : Op α} {i i' : Nat} {moment moment' : Int} {status status' : String}
    {error error' : Option String} (hop : Closes op i moment status error)
    (hop' : Closes op i' moment' status' error') :
    i = i' ∧ moment = moment' ∧ status = status' ∧ error = error' := by
  cases hop <;> cases hop' <;> exact ⟨rfl, rfl, rfl, rfl⟩

section

variable [Scalar α] [BitPattern α]

/-- What an operation can do: it is refused, which never happens to one that closes a run, or it starts
a run, saves a record or closes a run. -/
inductive Step (s : Session α) : Op α → Session α → Except StorageError Unit → Prop where
  | refused (op : Op α) (e : StorageError)
    (hop : ∀ i moment status error, ¬ Closes op i moment status error) : Step s op s (.error e)
  | started (moment : Int) (config : Option (Config α)) (text : Option String) :
    Step s (.start moment config) ⟨(s.tables.insertRun moment text).2,
      s.handles ++ [⟨⟨s.tables.lastRun + 1, 0⟩, true, []⟩]⟩ (.ok ())
  | saved (i : Nat) (record : Record α) (h : Handle α) (t : Tables α) (hopen : s.open? i = some h)
    (hrecord : s.tables.insertRecord h.writer.run record = .ok t) :
    Step s (.save i record) ⟨t, s.handles.set i
      ⟨⟨h.writer.run, h.writer.saved + 1⟩, true, h.records ++ [record]⟩⟩ (.ok ())
  | closed (op : Op α) (i : Nat) (moment : Int) (status : String) (error : Option String)
    (h : Handle α) (t : Tables α) (hop : Closes op i moment status error)
    (hopen : s.open? i = some h)
    (hclose : s.tables.closeRun h.writer.run moment h.writer.saved status error = .ok t) :
    Step s op ⟨t, s.handles.set i { h with isOpen := false }⟩ (.ok ())

variable {t₀ : Tables α} {s s' : Session α} {op : Op α} {reply : Except StorageError Unit}

/-- A run that is in use can be closed. -/
theorem Sound.exists_closeRun (hs : s.Sound t₀) {i : Nat} {h : Handle α} (hopen : s.open? i = some h)
    (moment : Int) (status : String) (error : Option String) :
    ∃ t, s.tables.closeRun h.writer.run moment h.writer.saved status error = .ok t := by
  obtain ⟨row, hrow, -⟩ := (hs.kept h (List.mem_of_getElem? (open?_eq_some.1 hopen).1)).run
  exact ⟨_, Tables.closeRun_eq_ok.2 ⟨⟨row, hrow⟩, rfl⟩⟩

theorem Sound.step [DecimalText α] (hs : s.Sound t₀) (hstep : s.step? op = some (s', reply)) :
    Step s op s' reply := by
  cases op with
  | start moment config =>
    have hstart : RunWriter.start s.tables moment config =
        (RunWriter.configText config).map fun text =>
          (⟨s.tables.lastRun + 1, 0⟩, (s.tables.insertRun moment text).2) := by
      unfold RunWriter.start
      cases RunWriter.configText config <;> rfl
    rw [step?, hstart] at hstep
    cases htext : RunWriter.configText config with
    | error e =>
      rw [htext] at hstep
      cases hstep
      exact .refused _ e fun _ _ _ _ hop => nomatch hop
    | ok text =>
      rw [htext] at hstep
      cases hstep
      exact .started moment config text
  | save i record =>
    obtain ⟨h, hopen, hstep⟩ := Option.map_eq_some_iff.1 hstep
    rw [RunWriter.save] at hstep
    cases hrecord : s.tables.insertRecord h.writer.run record with
    | error refusal =>
      rw [hrecord] at hstep
      cases hstep
      exact .refused _ _ fun _ _ _ _ hop => nomatch hop
    | ok t =>
      rw [hrecord] at hstep
      cases hstep
      exact .saved i record h t hopen hrecord
  | finish i moment =>
    obtain ⟨h, hopen, hstep⟩ := Option.map_eq_some_iff.1 hstep
    obtain ⟨t, hclose⟩ := hs.exists_closeRun hopen moment "completed" none
    rw [RunWriter.finish, hclose] at hstep
    cases hstep
    exact .closed _ i moment _ _ h t (.finish i moment) hopen hclose
  | fail i moment message =>
    obtain ⟨h, hopen, hstep⟩ := Option.map_eq_some_iff.1 hstep
    obtain ⟨t, hclose⟩ := hs.exists_closeRun hopen moment "failed" (some message)
    rw [RunWriter.fail, hclose] at hstep
    cases hstep
    exact .closed _ i moment _ _ h t (.fail i moment message) hopen hclose

/-! ### What an operation keeps -/

/-- No operation changes the rows of a run that it is not about. -/
theorem Step.sameRun (hstep : Step s op s' reply) (hs : s.Sound t₀) {run : Int}
    (hrun : s.runOf? op ≠ some run) : s.tables.SameRun s'.tables run := by
  cases hstep with
  | refused => exact .refl _ _
  | started moment config text =>
    exact Tables.sameRun_insertRun hs.valid fun heq => hrun (congrArg some heq.symm)
  | saved i record h t hopen hrecord =>
    refine Tables.sameRun_insertRecord hs.valid hrecord fun heq => hrun ?_
    rw [runOf?, (open?_eq_some.1 hopen).1, Option.map_some, heq]
  | closed _ i moment status error h t hop hopen hclose =>
    refine Tables.sameRun_closeRun hclose fun heq => hrun ?_
    rw [hop.runOf?_eq s, (open?_eq_some.1 hopen).1, Option.map_some, heq]

/-- A record that is saved is kept. -/
theorem Handle.Kept.insertRecord {t t' : Tables α} {h : Handle α} {record : Record α}
    (hk : h.Kept t) (hvalid : t.Valid) (hopen : h.isOpen)
    (hrecord : t.insertRecord h.writer.run record = .ok t') :
    Handle.Kept ⟨⟨h.writer.run, h.writer.saved + 1⟩, true, h.records ++ [record]⟩ t' where
  saved := by rw [List.length_append, ← hk.saved, List.length_singleton]
  results := by
    have hold : ∀ row ∈ t.results h.writer.run, t'.views row.id = t.views row.id :=
      fun row hrow => Tables.views_insertRecord_of_le hrecord
        (hvalid.result_le row (List.mem_of_mem_filter hrow))
    rw [Tables.results_insertRecord hrecord]
    exact List.rel_append (Tables.forall₂_keeps hk.results hold)
      (.cons ⟨rfl, Tables.views_insertRecord hvalid hrecord⟩ .nil)
  run := by
    obtain ⟨row, hrow, hnum⟩ := hk.run
    rw [if_pos hopen] at hnum
    rw [Tables.insertRecord_eq hrecord]
    exact ⟨row, hrow, hnum⟩

/-- A run that is closed keeps its records, and their number stands in its row. -/
theorem Handle.Kept.closeRun {t t' : Tables α} {h : Handle α} {moment : Int} {status : String}
    {error : Option String} (hk : h.Kept t)
    (hclose : t.closeRun h.writer.run moment h.writer.saved status error = .ok t') :
    Handle.Kept { h with isOpen := false } t' where
  saved := hk.saved
  results := by
    obtain ⟨-, rfl⟩ := Tables.closeRun_eq_ok.1 hclose
    exact hk.results.imp fun row r hrow => ⟨hrow.columns, hrow.views⟩
  run := by
    obtain ⟨row, hrow, -⟩ := hk.run
    exact ⟨_, Tables.run?_closeRun_self hclose hrow, rfl⟩

/-- Every operation keeps the tables sound. -/
theorem Step.sound (hstep : Step s op s' reply) (hs : s.Sound t₀) : s'.Sound t₀ := by
  cases hstep with
  | refused => exact hs
  | started moment config text => exact hs.add moment text
  | saved i record h t hopen hrecord =>
    obtain ⟨hi, hisOpen⟩ := open?_eq_some.1 hopen
    have hkept := hs.kept h (List.mem_of_getElem? hi)
    have hlast : t.lastRun = s.tables.lastRun := by rw [Tables.insertRecord_eq hrecord]; rfl
    exact hs.set hi (hs.valid.insertRecord hrecord) hlast.ge
      (fun run hne => Tables.sameRun_insertRecord hs.valid hrecord hne) rfl
      (hkept.insertRecord hs.valid hisOpen hrecord)
  | closed _ i moment status error h t hop hopen hclose =>
    obtain ⟨hi, -⟩ := open?_eq_some.1 hopen
    have hkept := hs.kept h (List.mem_of_getElem? hi)
    have hlast : t.lastRun = s.tables.lastRun := by
      obtain ⟨-, rfl⟩ := Tables.closeRun_eq_ok.1 hclose
      rfl
    exact hs.set hi (hs.valid.closeRun hclose) hlast.ge
      (fun run hne => Tables.sameRun_closeRun hclose hne) rfl (hkept.closeRun hclose)

variable [DecimalText α]

/-- So does a list of operations. -/
theorem Sound.run {ops : List (Op α)} (hs : s.Sound t₀) (hrun : s.run? ops = some s') :
    s'.Sound t₀ := by
  induction ops generalizing s with
  | nil =>
    cases hrun
    exact hs
  | cons op ops ih =>
    obtain ⟨⟨next, reply⟩, hstep, hrun⟩ := Option.bind_eq_some_iff.1 hrun
    exact ih ((hs.step hstep).sound hs) hrun

/-- Whatever was done with runs over valid tables, each run has as many results as it has saved records,
one for each record with the same columns and with the same views in their order, no view is without
its result, and the runs that were there before are as they were. Whatever is done next, an operation
that answers with an error changes nothing, the rows of all runs stay the same that the operation is
not about, and a run can always be closed, which writes the number of its records into its row. -/
theorem results_follow_saved {ops : List (Op α)} (hvalid : t₀.Valid)
    (hrun : (ofTables t₀).run? ops = some s) :
    s.Sound t₀ ∧ (∀ h ∈ s.handles, (s.tables.results h.writer.run).length = h.writer.saved) ∧
    ∀ op s' reply, s.step? op = some (s', reply) →
      (∀ e, reply = .error e → s' = s) ∧
      (∀ run, s.runOf? op ≠ some run → s.tables.SameRun s'.tables run) ∧
      ∀ i moment status error, Closes op i moment status error → reply = .ok () ∧
        ∃ h row, s.open? i = some h ∧ s'.handles[i]? = some { h with isOpen := false } ∧
          s.tables.run? h.writer.run = some row ∧
          s'.tables.run? h.writer.run = some { row with
            completed := some moment
            numResults := some (h.writer.saved : Int)
            status := status
            error := error } := by
  have hs : s.Sound t₀ := (sound_ofTables hvalid).run hrun
  refine ⟨hs, fun h hmem => (hs.kept h hmem).length_results, fun op s' reply hstep => ?_⟩
  have hcases := hs.step hstep
  refine ⟨?_, fun run => hcases.sameRun hs, ?_⟩
  · rintro e rfl
    cases hcases
    rfl
  · intro i moment status error hop
    cases hcases with
    | refused _ e hnot => exact absurd hop (hnot i moment status error)
    | started => cases hop
    | saved => cases hop
    | closed _ i' moment' status' error' h t hop' hopen hclose =>
      obtain ⟨rfl, rfl, rfl, rfl⟩ := hop.unique hop'
      obtain ⟨hi, -⟩ := open?_eq_some.1 hopen
      obtain ⟨row, hrow, -⟩ := (hs.kept h (List.mem_of_getElem? hi)).run
      obtain ⟨hlt, -⟩ := List.getElem?_eq_some_iff.1 hi
      exact ⟨rfl, h, row, hopen, List.getElem?_set_self hlt, hrow,
        Tables.run?_closeRun_self hclose hrow⟩

end

/-! ### A sample -/

section

open Calculation.Sample

namespace Sample

def grid : Grid ℚ := ⟨[5, 6], [0, 10], [0, 1], [0, 1], [-1, 1]⟩

/-- A record with two views of one cell. -/
def record (name : String) (views : List String) : Record ℚ :=
  ⟨name, 0, 1, 2, 0, "PGA", 1 / 10, none, 50, ["A"], grid, views.map fun v => (v, .fill [1] 0),
    [0]⟩

/-- Two runs take turns. A name is refused the second time, and so is a record with two views of one
name after its first view. -/
def operations : List (Op ℚ) :=
  [.start 1 none, .save 0 (record "a" ["Mag", "Dist"]), .start 2 none,
    .save 1 (record "a" ["Mag"]), .save 0 (record "a" ["TRT"]),
    .save 0 (record "b" ["Mag", "Mag"]), .save 0 (record "c" ["Dist"]), .fail 1 3 "stopped"]

end Sample

open Sample in
/-- The first run has saved two records and is still open, the second has failed after one. -/
theorem results_follow_saved_sample : ∃ s : Session ℚ, (ofTables .empty).run? operations = some s ∧
    s.handles.map (fun h => (h.writer.saved, h.isOpen)) = [(2, true), (1, false)] ∧
    s.tables.viewRows.map (fun v => (v.result, v.name, v.ordinal)) =
      [(1, "Mag", 0), (1, "Dist", 1), (2, "Mag", 0), (3, "Dist", 0)] ∧
    ∀ h ∈ s.handles, (s.tables.results h.writer.run).length = h.writer.saved := by
  have hend : ((ofTables .empty).run? operations).map (fun s =>
      (s.handles.map (fun h => (h.writer.saved, h.isOpen)),
        s.tables.viewRows.map fun v => (v.result, v.name, v.ordinal))) =
      some ([(2, true), (1, false)],
        [(1, "Mag", 0), (1, "Dist", 1), (2, "Mag", 0), (3, "Dist", 0)]) := by decide +kernel
  obtain ⟨s, hrun, hs⟩ := Option.map_eq_some_iff.1 hend
  obtain ⟨hhandles, hviews⟩ := Prod.mk.inj hs
  obtain ⟨-, hlength, -⟩ := results_follow_saved Tables.valid_empty hrun
  exact ⟨s, hrun, hhandles, hviews, hlength⟩

end

end Session

end

end SeismicHazard
