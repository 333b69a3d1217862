import Mathlib.Data.List.Basic
import SeismicHazard.Executor

/-!
# Executors work through all tasks

Whether the tasks are worked through in turn or by workers that can be cancelled, the outcome is the
same, and there is no failure only if every task succeeded and could be merged.

* `Executor.execute_eq_runInTurn`: all executors agree.
* `runInTurn_eq_foldl`: working through tasks is receiving their outcomes.
* `runInTurn_keeps`: what every task and its merging keep holds at the end, without a failure.
* `keeps_of_runInTurn`: the same where a run without a failure is given.
* `exists_of_runInTurn`: without a failure, every task succeeded.
-/

namespace SeismicHazard

section

variable {σ ε τ ρ : Type} {work : τ → Except ε ρ} {merge : σ → ρ → σ × Option ε} {tasks : List τ}

theorem runCancellable_of_failure (cancelled e : ε) (s : σ) :
    runCancellable cancelled work merge tasks ⟨s, some e⟩ = ⟨s, some e⟩ := by
  unfold runCancellable
  induction tasks with
  | nil => rfl
  | cons t tasks ih => exact ih

/-- Cancelling does not change what comes of the tasks. -/
theorem runCancellable_eq_runInTurn (cancelled : ε) (s : σ) :
    runCancellable cancelled work merge tasks ⟨s, none⟩ = runInTurn work merge tasks ⟨s, none⟩ := by
  induction tasks generalizing s with
  | nil => rfl
  | cons t tasks ih =>
    have hcons : runCancellable cancelled work merge (t :: tasks) ⟨s, none⟩ =
        runCancellable cancelled work merge tasks
          (Controller.receive merge ⟨s, none⟩ (work t)) := rfl
    rw [hcons, runInTurn]
    obtain ⟨s', failure⟩ := Controller.receive merge ⟨s, none⟩ (work t)
    cases failure with
    | none => exact ih s'
    | some e => exact runCancellable_of_failure cancelled e s'

/-- After a failure, the controller stays as it is. -/
theorem Controller.receive_of_failure {c : Controller σ ε} (h : c.failure.isSome)
    (outcome : Except ε ρ) : c.receive merge outcome = c := by
  obtain ⟨e, he⟩ := Option.isSome_iff_exists.1 h
  unfold Controller.receive
  rw [he]

theorem foldl_receive_of_failure {c : Controller σ ε} (h : c.failure.isSome) (tasks : List τ) :
    tasks.foldl (fun c t => Controller.receive merge c (work t)) c = c := by
  induction tasks with
  | nil => rfl
  | cons t tasks ih =>
    rw [List.foldl_cons, c.receive_of_failure h]
    exact ih

/-- Working through tasks in turn is receiving their outcomes in turn. -/
theorem runInTurn_eq_foldl (tasks : List τ) (c : Controller σ ε) :
    runInTurn work merge tasks c = tasks.foldl (fun c t => c.receive merge (work t)) c := by
  induction tasks generalizing c with
  | nil => rfl
  | cons t tasks ih =>
    rw [runInTurn, List.foldl_cons]
    rcases c.receive merge (work t) with ⟨s, _ | e⟩
    · exact ih ⟨s, none⟩
    · exact (foldl_receive_of_failure rfl tasks).symm

theorem runInTurn_append_singleton (t : τ) (c : Controller σ ε) :
    runInTurn work merge (tasks ++ [t]) c = (runInTurn work merge tasks c).receive merge (work t) := by
  rw [runInTurn_eq_foldl, runInTurn_eq_foldl, List.foldl_append]
  rfl

/-- The executors agree on what comes of the tasks. -/
theorem Executor.execute_eq_runInTurn (x : Executor) (cancelled : ε) (s : σ) :
    x.execute cancelled work merge tasks s = runInTurn work merge tasks ⟨s, none⟩ := by
  cases x with
  | sequential => rfl
  | parallel n => exact runCancellable_eq_runInTurn cancelled s

/-- Tasks that succeed, and whose results are merged and keep a property, do so together. -/
theorem runInTurn_keeps {P : List τ → σ → Prop} {s : σ} (hstart : P [] s)
    (hstep : ∀ done t rest s, done ++ t :: rest = tasks → P done s →
      ∃ r s', work t = .ok r ∧ merge s r = (s', none) ∧ P (done ++ [t]) s') :
    ∃ s', runInTurn work merge tasks ⟨s, none⟩ = ⟨s', none⟩ ∧ P tasks s' := by
  suffices key : ∀ (rest done : List τ) (s : σ), done ++ rest = tasks → P done s →
      ∃ s', runInTurn work merge rest ⟨s, none⟩ = ⟨s', none⟩ ∧ P tasks s' by
    exact key tasks [] s rfl hstart
  intro rest
  induction rest with
  | nil =>
    intro done s hdone hs
    rw [List.append_nil] at hdone
    exact ⟨s, rfl, hdone ▸ hs⟩
  | cons t rest ih =>
    intro done s hdone hs
    obtain ⟨r, s₁, hwork, hmerge, hkept⟩ := hstep done t rest s hdone hs
    have happend : (done ++ [t]) ++ rest = tasks := by rw [← hdone, ← List.append_cons]
    obtain ⟨s', hs', hend⟩ := ih (done ++ [t]) s₁ happend hkept
    refine ⟨s', ?_, hend⟩
    have hreceive : Controller.receive merge ⟨s, none⟩ (work t) = ⟨s₁, none⟩ := by
      simp only [Controller.receive, hwork, hmerge]
    rw [runInTurn, hreceive]
    exact hs'

/-- What every task and its merging keep holds at the end of a run without a failure. -/
theorem keeps_of_runInTurn {P : List τ → σ → Prop} {s : σ} (hstart : P [] s)
    (hstep : ∀ done t s r, P done s → work t = .ok r → (merge s r).2 = none →
      P (done ++ [t]) (merge s r).1)
    (h : (runInTurn work merge tasks ⟨s, none⟩).failure = none) :
    P tasks (runInTurn work merge tasks ⟨s, none⟩).state := by
  suffices key : ∀ (rest done : List τ) (s : σ), P done s →
      (runInTurn work merge rest ⟨s, none⟩).failure = none →
      P (done ++ rest) (runInTurn work merge rest ⟨s, none⟩).state by
    exact key tasks [] s hstart h
  intro rest
  induction rest with
  | nil =>
    intro done s hs _
    rw [List.append_nil]
    exact hs
  | cons t rest ih =>
    intro done s hs hrun
    rw [runInTurn] at hrun ⊢
    cases hwork : work t with
    | error e =>
      simp only [Controller.receive, hwork] at hrun
      cases hrun
    | ok r =>
      rcases hmerge : merge s r with ⟨s', failure⟩
      cases failure with
      | some e =>
        simp only [Controller.receive, hwork, hmerge] at hrun
        cases hrun
      | none =>
        have hkept := hstep done t s r hs hwork (by rw [hmerge])
        simp only [Controller.receive, hwork, hmerge] at hrun hkept ⊢
        rw [List.append_cons]
        exact ih (done ++ [t]) s' hkept hrun

/-- Without a failure at the end, every task succeeded. -/
theorem exists_of_runInTurn {s : σ} (h : (runInTurn work merge tasks ⟨s, none⟩).failure = none) :
    ∀ t ∈ tasks, ∃ r, work t = .ok r := by
  refine keeps_of_runInTurn (P := fun done _ => ∀ t ∈ done, ∃ r, work t = .ok r) ?_ ?_ h
  · intro t ht
    cases ht
  · intro done t s r hdone hwork _ u hu
    rcases List.mem_append.1 hu with hu | hu
    · exact hdone u hu
    · rw [List.mem_singleton.1 hu]
      exact ⟨r, hwork⟩

end

end SeismicHazard
