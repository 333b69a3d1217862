import SeismicHazard.Storage.Schema

/-!
# Migrations that are interrupted

A run of the migrations can stop after any of its statements. What the next run does with the schema
it finds is told by two facts: statements that make a table or an index can be repeated, so that a
script of them can be taken up again from its beginning; a statement that adds a column cannot.

* `Schema.run_run_take`: after some creations were made, the whole script ends as it would have.
* `Schema.Reached`: the schemas that interrupted runs lead to.
* `Schema.migrate_of_reached`: which of them the next run brings up to date. It is all of them but one,
  which has the column of the last migration and not its version.
* `Schema.reached_halfway`: that one is reached by a single interruption, and no run leaves it.
-/

namespace SeismicHazard

/-- Whether a statement makes a table or an index, unless it is there. -/
def SchemaStep.isCreation : SchemaStep → Bool
  | createTable _ | createIndex _ => true
  | addColumn _ _ | setVersion _ => false

namespace Schema

variable {s s' : Schema} {x y : SchemaStep} {steps rest : List (Nat × SchemaStep)}

/-- Whether what a creation makes is there. -/
def Holds (s : Schema) : SchemaStep → Prop
  | .createTable t => (s.table? t.name).isSome
  | .createIndex i => (s.table? i.table).isSome ∧ s.hasIndex i.name
  | .addColumn _ _ | .setVersion _ => False

/-! ### One statement -/

theorem step_of_holds (h : s.Holds x) : s.step x = .ok s := by
  cases x with
  | createTable t =>
    have hsome : (s.table? t.name).isSome := h
    simp only [step, hsome, if_true]
  | createIndex i =>
    obtain ⟨t, ht⟩ := Option.isSome_iff_exists.1 h.1
    simp only [step, ht, h.2, if_true]
  | addColumn table column => exact h.elim
  | setVersion version => exact h.elim

theorem holds_of_step (hx : x.isCreation) (h : s.step x = .ok s') : s'.Holds x := by
  cases x with
  | createTable t =>
    simp only [step] at h
    split at h
    · next hsome =>
      cases h
      exact hsome
    · cases h
      simp [Holds, table?]
  | createIndex i =>
    simp only [step] at h
    split at h
    · cases h
    · next t ht =>
      split at h
      · next hindex =>
        cases h
        exact ⟨by rw [ht]; rfl, hindex⟩
      · split at h
        · cases h
        · cases h
          exact ⟨Option.isSome_iff_exists.2 ⟨t, ht⟩, by simp [hasIndex]⟩
  | addColumn table column => cases hx
  | setVersion version => cases hx

/-- No statement takes a table away. -/
theorem isSome_table?_of_step (h : s.step y = .ok s') {name : String}
    (hname : (s.table? name).isSome) : (s'.table? name).isSome := by
  have happend : ∀ more, ((s.tables ++ more).find? (·.name == name)).isSome := by
    intro more
    rw [List.find?_append, Option.isSome_or]
    exact Bool.or_eq_true_iff.2 (.inl hname)
  cases y with
  | createTable t =>
    simp only [step] at h
    split at h
    · cases h
      exact hname
    · cases h
      exact happend _
  | createIndex i =>
    simp only [step] at h
    split at h
    · cases h
    · split at h
      · cases h
        exact hname
      · split at h
        · cases h
        · cases h
          exact hname
  | addColumn table column =>
    simp only [step] at h
    split at h
    · cases h
    · split at h
      · cases h
      · cases h
        have hrename : ∀ t : TableSchema,
            (if t.name == table then { t with columns := t.columns ++ [column] } else t).name =
              t.name := by
          intro t
          split <;> rfl
        rw [table?, List.find?_isSome] at hname ⊢
        obtain ⟨t, ht, heq⟩ := hname
        exact ⟨_, List.mem_map_of_mem ht, by rw [hrename]; exact heq⟩
  | setVersion version =>
    cases h
    exact hname

/-- No statement takes an index away. -/
theorem hasIndex_of_step (h : s.step y = .ok s') {name : String} (hname : s.hasIndex name) :
    s'.hasIndex name := by
  cases y with
  | createTable t =>
    simp only [step] at h
    split at h <;> cases h <;> exact hname
  | createIndex i =>
    simp only [step] at h
    split at h
    · cases h
    · split at h
      · cases h
        exact hname
      · split at h
        · cases h
        · cases h
          simp only [hasIndex, List.any_append]
          exact Bool.or_eq_true_iff.2 (.inl hname)
  | addColumn table column =>
    simp only [step] at h
    split at h
    · cases h
    · split at h <;> cases h
      exact hname
  | setVersion version =>
    cases h
    exact hname

theorem Holds.step (hx : s.Holds x) (h : s.step y = .ok s') : s'.Holds x := by
  cases x with
  | createTable t => exact isSome_table?_of_step h hx
  | createIndex i => exact ⟨isSome_table?_of_step h hx.1, hasIndex_of_step h hx.2⟩
  | addColumn table column => exact hx.elim
  | setVersion version => exact hx.elim

theorem version_of_step (hx : x.isCreation) (h : s.step x = .ok s') : s'.version = s.version := by
  cases x with
  | createTable t =>
    simp only [step] at h
    split at h <;> cases h <;> rfl
  | createIndex i =>
    simp only [step] at h
    split at h
    · cases h
    · split at h
      · cases h
        rfl
      · split at h <;> cases h
        rfl
  | addColumn table column => cases hx
  | setVersion version => cases hx

/-! ### Several statements -/

theorem run_cons_of_ok {version : Nat} (h : s.step x = .ok s') :
    s.run ((version, x) :: rest) = s'.run rest := by
  rw [run, h]

theorem run_cons_of_error {version : Nat} {refusal : Refusal} (h : s.step x = .error refusal) :
    s.run ((version, x) :: rest) = (s, some (.migration version refusal)) := by
  rw [run, h]

theorem run_append (h : s.run steps = (s', none)) : s.run (steps ++ rest) = s'.run rest := by
  induction steps generalizing s with
  | nil =>
    cases h
    rfl
  | cons p steps ih =>
    obtain ⟨version, x⟩ := p
    cases hx : s.step x with
    | error refusal =>
      rw [run_cons_of_error hx] at h
      cases h
    | ok t =>
      rw [run_cons_of_ok hx] at h
      rw [List.cons_append, run_cons_of_ok hx]
      exact ih h

theorem Holds.run (h : s.Holds x) : (s.run steps).1.Holds x := by
  induction steps generalizing s with
  | nil => exact h
  | cons p steps ih =>
    obtain ⟨version, y⟩ := p
    cases hy : s.step y with
    | error refusal =>
      rw [run_cons_of_error hy]
      exact h
    | ok t =>
      rw [run_cons_of_ok hy]
      exact ih (h.step hy)

theorem version_run (h : ∀ p ∈ steps, p.2.isCreation) : (s.run steps).1.version = s.version := by
  induction steps generalizing s with
  | nil => rfl
  | cons p steps ih =>
    obtain ⟨version, x⟩ := p
    rw [List.forall_mem_cons] at h
    cases hx : s.step x with
    | error refusal => rw [run_cons_of_error hx]
    | ok t => rw [run_cons_of_ok hx, ih h.2, version_of_step h.1 hx]

/-- Creations are taken up again from the first one on, with what follows them. -/
theorem run_run_append (h : ∀ p ∈ steps, p.2.isCreation) :
    (s.run steps).1.run (steps ++ rest) = s.run (steps ++ rest) := by
  induction steps generalizing s with
  | nil => rfl
  | cons p steps ih =>
    obtain ⟨version, x⟩ := p
    rw [List.forall_mem_cons] at h
    cases hx : s.step x with
    | error refusal => rw [run_cons_of_error hx]
    | ok t =>
      have hholds : (t.run steps).1.Holds x := (holds_of_step h.1 hx).run
      rw [run_cons_of_ok hx, List.cons_append, run_cons_of_ok (step_of_holds hholds), ih h.2,
        run_cons_of_ok hx]

/-- A script that was left after some of its creations ends as it would have. -/
theorem run_run_take (n : Nat) (h : ∀ p ∈ steps.take n, p.2.isCreation) :
    (s.run (steps.take n)).1.run steps = s.run steps := by
  have hresume : (s.run (steps.take n)).1.run (steps.take n ++ steps.drop n) =
      s.run (steps.take n ++ steps.drop n) := run_run_append h
  rwa [List.take_append_drop] at hresume

/-! ### Interrupted runs -/

/-- The schemas that runs of the migrations lead to, each of which is left after any number of its
statements. -/
inductive Reached : Schema → Prop where
  | empty : Reached empty
  | cut {s : Schema} (h : Reached s) (n : Nat) : Reached (s.run ((pendingSteps s.version).take n)).1

/-- The schema of the first version. -/
def initial : Schema := (empty.run initialMigration.steps).1

/-- The schema that an uninterrupted run ends with. -/
def current : Schema := (initial.run configMigration.steps).1

/-- The first schema with the column of the second one, and still the first version. -/
def halfway : Schema := initial.addColumn "disagg_run" "config_toml"

theorem run_configMigration_take (n : Nat) :
    (initial.run (configMigration.steps.take n)).1 ∈ [initial, halfway, current] := by
  match n with
  | 0 => exact List.mem_cons_self
  | 1 => exact List.mem_cons_of_mem _ List.mem_cons_self
  | n + 2 =>
    rw [List.take_of_length_le (by simp [configMigration, Migration.steps])]
    exact List.mem_cons_of_mem _ (List.mem_cons_of_mem _ List.mem_cons_self)

theorem migrate_halfway :
    halfway.migrate = (halfway, some (.migration 2 (.duplicateColumn "config_toml"))) := rfl

theorem migrate_current : current.migrate = (current, none) := rfl

/-- A reached schema has no version yet, and then the first script can be taken up, or is one of three
others. -/
theorem Reached.cases (h : s.Reached) :
    s.version = 0 ∧ s.run initialMigration.steps = (initial, none) ∨
      s ∈ [initial, halfway, current] := by
  induction h with
  | empty => exact .inl ⟨rfl, rfl⟩
  | @cut s _ n ih =>
    rcases ih with ⟨hversion, hrun⟩ | hmem
    · have hsteps : pendingSteps s.version = initialMigration.steps ++ configMigration.steps := by
        rw [hversion]
        rfl
      rw [hsteps]
      by_cases hn : n ≤ 6
      · -- only creations were made
        have htake : (initialMigration.steps ++ configMigration.steps).take n =
            initialMigration.steps.take n := by
          rw [List.take_append_of_le_length (Nat.le_trans hn (by decide))]
        have hcreations : ∀ p ∈ initialMigration.steps.take n, p.2.isCreation := by
          intro p hp
          have hp : p ∈ initialMigration.steps.take 6 := List.take_subset_take_left _ hn hp
          exact (by decide : ∀ p ∈ initialMigration.steps.take 6, p.2.isCreation) p hp
        rw [htake]
        exact .inl ⟨(version_run hcreations).trans hversion, (run_run_take n hcreations).trans hrun⟩
      · have htake : (initialMigration.steps ++ configMigration.steps).take n =
            initialMigration.steps ++ configMigration.steps.take (n - 7) := by
          rw [List.take_append, List.take_of_length_le (by
            have : initialMigration.steps.length = 7 := rfl
            omega)]
          rfl
        rw [htake, run_append hrun]
        exact .inr (run_configMigration_take _)
    · simp only [List.mem_cons, List.not_mem_nil, or_false] at hmem
      rcases hmem with rfl | rfl | rfl
      · exact .inr (run_configMigration_take n)
      · cases n with
        | zero => exact .inr (List.mem_cons_of_mem _ List.mem_cons_self)
        | succ n => exact .inr (List.mem_cons_of_mem _ List.mem_cons_self)
      · have htake : (pendingSteps current.version).take n = [] := List.take_nil
        rw [htake]
        exact .inr (List.mem_cons_of_mem _ (List.mem_cons_of_mem _ List.mem_cons_self))

/-- One interruption is enough to reach the schema between the two last statements. -/
theorem reached_halfway :
    halfway.Reached ∧ halfway.migrate.2 = some (.migration 2 (.duplicateColumn "config_toml")) :=
  ⟨.cut .empty 8, rfl⟩

/-- A reached schema is brought up to date by the next run, as an empty one is, unless it has the column
of the last migration and not its version: then every run fails and changes nothing. A schema that is
up to date stays as it is. -/
theorem migrate_of_reached (h : s.Reached) :
    (s.migrate = (current, none) ↔ s ≠ halfway) ∧
      (s = halfway → s.migrate = (s, some (.migration 2 (.duplicateColumn "config_toml")))) ∧
      empty.migrate = (current, none) ∧ current.version = 2 ∧ current.migrate = (current, none) := by
  refine ⟨?_, ?_, rfl, rfl, migrate_current⟩
  · constructor
    · rintro hmigrate rfl
      rw [migrate_halfway] at hmigrate
      cases hmigrate
    · intro hne
      rcases h.cases with ⟨hversion, hrun⟩ | hmem
      · unfold migrate
        rw [hversion]
        change s.run (initialMigration.steps ++ configMigration.steps) = _
        rw [run_append hrun]
        rfl
      · simp only [List.mem_cons, List.not_mem_nil, or_false] at hmem
        rcases hmem with rfl | rfl | rfl
        · rfl
        · exact absurd rfl hne
        · rfl
  · rintro rfl
    exact migrate_halfway

/-- Two runs are left in the first script, after three statements and after five, and the third one
between the two scripts. -/
theorem migrate_of_reached_sample :
    let s₁ := (empty.run ((pendingSteps empty.version).take 3)).1
    let s₂ := (s₁.run ((pendingSteps s₁.version).take 5)).1
    let s₃ := (s₂.run ((pendingSteps s₂.version).take 7)).1
    s₃.Reached ∧ s₃.version = 1 ∧ s₃.migrate = (current, none) := by
  intro s₁ s₂ s₃
  have hreached : s₃.Reached := .cut (.cut (.cut .empty 3) 5) 7
  exact ⟨hreached, rfl, (migrate_of_reached hreached).1.2 (by decide +kernel)⟩

end Schema

end SeismicHazard
