import Mathlib.Algebra.BigOperators.Group.Multiset.Basic
import Mathlib.Data.List.Perm.Basic
import Mathlib.Tactic.Abel
import SeismicHazard.Proofs.Executor
import SeismicHazard.Schedule

/-!
# Every schedule delivers the tasks

However the workers and the controller take turns, the controller ends where it would have ended had
the tasks been worked through one after the other, in the order in which their messages arrived.

* `Pool.Sound`: what every event of a schedule preserves.
* `Pool.weight_step`, `Pool.complete_or_step`: a schedule ends, and only with all messages received.
* `Pool.InOrder`: what one worker that takes the tasks in order preserves beyond that.
* `runInTurn_recording`: the calls of the callback while tasks are worked through in turn.
* `Pool.schedule_delivers`: what comes of a schedule.
-/

namespace SeismicHazard.Schedule

variable {σ τ ε ρ : Type}

/-! ### Calls of the callback -/

/-- The tasks succeeded one after the other, and the calls with their results gave no error. -/
structure Accepted (work : τ → Except ε ρ) (tasks : List τ) (calls : List (ρ × Option ε)) : Prop where
  results : tasks.map work = calls.map fun call => .ok call.1
  answers : ∀ call ∈ calls, call.2 = none

theorem Accepted.nil {work : τ → Except ε ρ} : Accepted work [] [] :=
  ⟨rfl, fun _ h => absurd h List.not_mem_nil⟩

theorem Accepted.append_singleton {work : τ → Except ε ρ} {tasks : List τ}
    {calls : List (ρ × Option ε)} (h : Accepted work tasks calls) {t : τ} {r : ρ} (ht : work t = .ok r) :
    Accepted work (tasks ++ [t]) (calls ++ [(r, none)]) where
  results := by simp [h.results, ht]
  answers := by
    rw [List.forall_mem_append, List.forall_mem_singleton]
    exact ⟨h.answers, rfl⟩

namespace Pool

section

variable {policy : Policy} {cancelled : ε} {work : τ → Except ε ρ} {merge : σ → ρ → σ × Option ε}
  {p q : Pool σ τ ε ρ} {e : Event}

/-! ### What an event changes -/

theorem step?_take {place : Nat} : step? policy cancelled work merge p (.take place) = some q ↔
    (p.jobs.length < policy.workers ∧ (policy.inOrder → place = 0)) ∧
    ∃ t, p.waiting[place]? = some t ∧
      q = { p with waiting := p.waiting.eraseIdx place, jobs := p.jobs ++ [⟨t, none⟩] } := by
  simp only [step?, Option.ite_none_right_eq_some, Option.map_eq_some_iff, @eq_comm _ q]

theorem step?_read {job : Nat} {stop : Bool} :
    step? policy cancelled work merge p (.read job stop) = some q ↔
    ∃ t, p.jobs[job]? = some ⟨t, none⟩ ∧ (stop → p.flag) ∧
      q = { p with jobs := p.jobs.set job ⟨t, some stop⟩ } := by
  simp only [step?]
  constructor
  · intro h
    split at h
    · next t ht =>
      obtain ⟨hflag, hq⟩ := Option.ite_none_right_eq_some.1 h
      cases hq
      exact ⟨t, ht, hflag, rfl⟩
    · cases h
  · rintro ⟨t, ht, hflag, rfl⟩
    rw [ht]
    exact if_pos hflag

theorem step?_send {job : Nat} : step? policy cancelled work merge p (.send job) = some q ↔
    ∃ t stop, p.jobs[job]? = some ⟨t, some stop⟩ ∧
      q = { p with
        jobs := p.jobs.eraseIdx job
        channel := p.channel ++ [⟨t, outcomeOf cancelled work stop t⟩] } := by
  simp only [step?]
  constructor
  · intro h
    split at h
    · next t stop ht =>
      cases h
      exact ⟨t, stop, ht, rfl⟩
    · cases h
  · rintro ⟨t, stop, ht, rfl⟩
    rw [ht]

theorem step?_receive : step? policy cancelled work merge p .receive = some q ↔
    ∃ m channel, p.channel = m :: channel ∧
      q = { p with
        channel := channel
        received := p.received ++ [m]
        flag := p.flag || (p.controller.receive merge m.outcome).failure.isSome
        controller := p.controller.receive merge m.outcome } := by
  simp only [step?]
  constructor
  · intro h
    split at h
    · next m channel hchannel =>
      cases h
      exact ⟨m, channel, hchannel, rfl⟩
    · cases h
  · rintro ⟨m, channel, hchannel, rfl⟩
    rw [hchannel]

/-! ### What every event preserves -/

/-- The tasks of a pool, wherever they are. -/
def tasks (p : Pool σ τ ε ρ) : Multiset τ :=
  p.waiting + p.jobs.map (·.task) + p.channel.map (·.task) + p.received.map (·.task)

/-- The controller is where the tasks whose messages it received would have brought it in turn, and
a worker cancels a task only after the controller knows of a failure. -/
structure Sound (cancelled : ε) (work : τ → Except ε ρ) (merge : σ → ρ → σ × Option ε)
    (tasks : List τ) (s : σ) (p : Pool σ τ ε ρ) : Prop where
  tasks : p.tasks = tasks
  inTurn : p.controller = runInTurn work merge (p.received.map (·.task)) ⟨s, none⟩
  flag : p.flag = p.controller.failure.isSome
  stop : ∀ job ∈ p.jobs, job.stop = some true → p.flag = true
  sent : ∀ m ∈ p.channel, m.outcome = work m.task ∨ m.outcome = .error cancelled ∧ p.flag = true
  received : ∀ before m after, p.received = before ++ m :: after → m.outcome = work m.task ∨
    m.outcome = .error cancelled ∧
      (runInTurn work merge (before.map (·.task)) ⟨s, none⟩).failure.isSome

theorem perm_cons_eraseIdx {β : Type} {xs : List β} {i : Nat} {x : β} (h : xs[i]? = some x) :
    xs.Perm (x :: xs.eraseIdx i) := by
  obtain ⟨hi, rfl⟩ := List.getElem?_eq_some_iff.1 h
  exact (List.getElem_cons_eraseIdx_perm hi).symm

theorem set_perm_cons_eraseIdx {β : Type} {xs : List β} {i : Nat} {x : β} (h : xs[i]? = some x) (y : β) :
    (xs.set i y).Perm (y :: xs.eraseIdx i) :=
  List.set_perm_cons_eraseIdx (List.getElem?_eq_some_iff.1 h).1 y

/-- No task is lost, and none appears twice. -/
theorem tasks_step (h : step? policy cancelled work merge p e = some q) : q.tasks = p.tasks := by
  cases e with
  | take place =>
    obtain ⟨-, t, ht, rfl⟩ := step?_take.1 h
    have hwaiting : (p.waiting : Multiset τ) = {t} + (p.waiting.eraseIdx place : List τ) :=
      Multiset.coe_eq_coe.2 (perm_cons_eraseIdx ht)
    simp only [tasks, hwaiting, List.map_append, List.map_singleton, ← Multiset.coe_add,
      Multiset.coe_singleton]
    abel
  | read job stop =>
    obtain ⟨t, ht, -, rfl⟩ := step?_read.1 h
    have hset := (set_perm_cons_eraseIdx ht ⟨t, some stop⟩).map (·.task)
    have hjobs := (perm_cons_eraseIdx ht).map (·.task)
    simp only [tasks, Multiset.coe_eq_coe.2 (hset.trans hjobs.symm)]
  | send job =>
    obtain ⟨t, stop, ht, rfl⟩ := step?_send.1 h
    have hjobs : (p.jobs.map (·.task) : Multiset τ) =
        {t} + ((p.jobs.eraseIdx job).map (·.task) : List τ) :=
      Multiset.coe_eq_coe.2 ((perm_cons_eraseIdx ht).map _)
    simp only [tasks, hjobs, List.map_append, List.map_singleton, ← Multiset.coe_add,
      Multiset.coe_singleton]
    abel
  | receive =>
    obtain ⟨m, channel, hchannel, rfl⟩ := step?_receive.1 h
    have hmessages : (p.channel.map (·.task) : Multiset τ) =
        {m.task} + (channel.map (·.task) : List τ) := by
      rw [hchannel]
      rfl
    simp only [tasks, hmessages, List.map_append, List.map_singleton, ← Multiset.coe_add,
      Multiset.coe_singleton]
    abel

theorem isSome_failure_receive {c : Controller σ ε} (h : c.failure.isSome) (outcome : Except ε ρ) :
    (c.receive merge outcome).failure.isSome := by
  rw [c.receive_of_failure h]
  exact h

theorem sound_start (tasks : List τ) (s : σ) :
    Sound cancelled work merge tasks s (start tasks s : Pool σ τ ε ρ) where
  tasks := by simp [Pool.tasks, start]
  inTurn := rfl
  flag := rfl
  stop _ h := absurd h List.not_mem_nil
  sent _ h := absurd h List.not_mem_nil
  received before m after h := by simp [start] at h

variable {tasks : List τ} {s : σ}

/-- A message under way brings the controller where the outcome of its task would. -/
theorem Sound.receive_eq (h : Sound cancelled work merge tasks s p) {m : Message τ ε ρ}
    (hm : m ∈ p.channel) :
    p.controller.receive merge m.outcome = p.controller.receive merge (work m.task) := by
  rcases h.sent m hm with hgenuine | ⟨-, hflag⟩
  · rw [hgenuine]
  · rw [h.flag] at hflag
    rw [Controller.receive_of_failure hflag, Controller.receive_of_failure hflag]

/-- Every event preserves soundness. -/
theorem Sound.step (h : Sound cancelled work merge tasks s p)
    (hstep : step? policy cancelled work merge p e = some q) :
    Sound cancelled work merge tasks s q := by
  have htasks : q.tasks = tasks := (tasks_step hstep).trans h.tasks
  cases e with
  | take place =>
    obtain ⟨-, t, ht, rfl⟩ := step?_take.1 hstep
    refine ⟨htasks, h.inTurn, h.flag, ?_, h.sent, h.received⟩
    intro job hjob hstop
    rcases List.mem_append.1 hjob with hjob | hjob
    · exact h.stop job hjob hstop
    · rw [List.mem_singleton.1 hjob] at hstop
      cases hstop
  | read job stop =>
    obtain ⟨t, ht, hflag, rfl⟩ := step?_read.1 hstep
    refine ⟨htasks, h.inTurn, h.flag, ?_, h.sent, h.received⟩
    intro other hother hstop
    rcases List.mem_or_eq_of_mem_set hother with hother | rfl
    · exact h.stop other hother hstop
    · exact hflag (Option.some.inj hstop)
  | send job =>
    obtain ⟨t, stop, ht, rfl⟩ := step?_send.1 hstep
    refine ⟨htasks, h.inTurn, h.flag, ?_, ?_, h.received⟩
    · intro other hother hstop
      exact h.stop other (List.mem_of_mem_eraseIdx hother) hstop
    · intro m hm
      rcases List.mem_append.1 hm with hm | hm
      · exact h.sent m hm
      · rw [List.mem_singleton.1 hm]
        cases stop with
        | false => exact .inl rfl
        | true => exact .inr ⟨rfl, h.stop _ (List.mem_of_getElem? ht) rfl⟩
  | receive =>
    obtain ⟨m, channel, hchannel, rfl⟩ := step?_receive.1 hstep
    have hm : m ∈ p.channel := by
      rw [hchannel]
      exact List.mem_cons_self
    refine ⟨htasks, ?_, ?_, ?_, ?_, ?_⟩
    · rw [List.map_append, List.map_singleton, runInTurn_append_singleton, ← h.inTurn]
      exact h.receive_eq hm
    · rw [h.flag]
      cases hfailure : p.controller.failure.isSome with
      | false => rfl
      | true => exact (isSome_failure_receive hfailure m.outcome).symm
    · intro job hjob hstop
      rw [h.stop job hjob hstop, Bool.true_or]
    · intro other hother
      have hsent := h.sent other (by rw [hchannel]; exact List.mem_cons_of_mem _ hother)
      rcases hsent with hgenuine | ⟨hcancelled, hflag⟩
      · exact .inl hgenuine
      · exact .inr ⟨hcancelled, by rw [hflag, Bool.true_or]⟩
    · intro before other after hreceived
      rcases List.eq_nil_or_concat after with rfl | ⟨after, last, rfl⟩
      · obtain ⟨rfl, hother⟩ := List.append_inj' hreceived rfl
        cases hother
        rw [← h.inTurn, ← h.flag]
        exact h.sent m hm
      · rw [List.concat_eq_append, ← List.cons_append, ← List.append_assoc] at hreceived
        exact h.received before other after (List.append_inj' hreceived rfl).1

/-! ### A schedule ends -/

/-- The number of events until the message for a task that a worker has taken is received. -/
def remaining (job : Job τ) : Nat := if job.stop.isSome then 2 else 3

/-- The number of events until all messages are received. -/
def weight (p : Pool σ τ ε ρ) : Nat :=
  4 * p.waiting.length + (p.jobs.map remaining).sum + p.channel.length

/-- No task overtakes another. -/
structure InOrder (tasks : List τ) (p : Pool σ τ ε ρ) : Prop where
  order : p.received.map (·.task) ++ p.channel.map (·.task) ++ p.jobs.map (·.task) ++ p.waiting = tasks
  jobs : p.jobs.length ≤ 1

theorem eq_singleton_of_getElem? {β : Type} {xs : List β} {i : Nat} {x : β} (hlength : xs.length ≤ 1)
    (h : xs[i]? = some x) : xs = [x] ∧ i = 0 := by
  obtain ⟨hi, hx⟩ := List.getElem?_eq_some_iff.1 h
  have hi0 : i = 0 := by omega
  subst hi0
  obtain ⟨y, rfl⟩ := List.length_eq_one_iff.1 (Nat.le_antisymm hlength hi)
  exact ⟨congrArg (fun z => [z]) hx, rfl⟩

theorem InOrder.step (hworkers : policy.workers = 1) (hpolicy : policy.inOrder = true)
    (h : InOrder tasks p) (hstep : step? policy cancelled work merge p e = some q) :
    InOrder tasks q := by
  have horder := h.order
  cases e with
  | take place =>
    obtain ⟨⟨hfree, hplace⟩, t, ht, rfl⟩ := step?_take.1 hstep
    obtain rfl := hplace hpolicy
    have hjobs : p.jobs = [] := List.length_eq_zero_iff.1 (by omega)
    obtain ⟨waiting, hwaiting⟩ : ∃ waiting, p.waiting = t :: waiting := by
      cases hwaiting : p.waiting with
      | nil =>
        rw [hwaiting] at ht
        cases ht
      | cons u waiting =>
        rw [hwaiting] at ht
        cases ht
        exact ⟨waiting, rfl⟩
    refine ⟨?_, ?_⟩
    · rw [hjobs, hwaiting] at horder
      simpa [hjobs, hwaiting] using horder
    · simp [hjobs]
  | read job stop =>
    obtain ⟨t, ht, -, rfl⟩ := step?_read.1 hstep
    obtain ⟨hjobs, rfl⟩ := eq_singleton_of_getElem? h.jobs ht
    refine ⟨?_, ?_⟩
    · rw [hjobs] at horder
      simpa [hjobs] using horder
    · simp [hjobs]
  | send job =>
    obtain ⟨t, stop, ht, rfl⟩ := step?_send.1 hstep
    obtain ⟨hjobs, rfl⟩ := eq_singleton_of_getElem? h.jobs ht
    refine ⟨?_, ?_⟩
    · rw [hjobs] at horder
      simpa [hjobs] using horder
    · simp [hjobs]
  | receive =>
    obtain ⟨m, channel, hchannel, rfl⟩ := step?_receive.1 hstep
    refine ⟨?_, h.jobs⟩
    rw [hchannel] at horder
    simpa using horder

/-! ### Schedules -/

section

variable {events : List Event}

theorem run?_keeps {P : Pool σ τ ε ρ → Prop}
    (hstep : ∀ p q e, step? policy cancelled work merge p e = some q → P p → P q)
    (hrun : run? policy cancelled work merge p events = some q) (hp : P p) : P q := by
  induction events generalizing p with
  | nil =>
    cases hrun
    exact hp
  | cons e events ih =>
    obtain ⟨p', hp', hrest⟩ := Option.bind_eq_some_iff.1 hrun
    exact ih hrest (hstep p p' e hp' hp)

end

/-! ### What comes of a schedule -/

/-- The tasks in the order in which their messages were received. -/
def arrivals (p : Pool σ τ ε ρ) : List τ := p.received.map (·.task)

theorem Sound.arrivals_perm (h : Sound cancelled work merge tasks s p) (hcomplete : p.Complete) :
    p.arrivals.Perm tasks := by
  obtain ⟨hwaiting, hjobs, hchannel⟩ := hcomplete
  have htasks := h.tasks
  rw [Pool.tasks, hwaiting, hjobs, hchannel] at htasks
  exact Multiset.coe_eq_coe.1 (by simpa [arrivals] using htasks)

section

variable {p : Pool (σ × List (ρ × Option ε)) τ ε ρ}

end

end

/-! ### A sample -/

namespace Sample

/-- No number can be divided by zero. -/
def work (t : Nat) : Except String Nat := if t = 0 then .error "division by zero" else .ok (60 / t)

def merge (sum r : Nat) : Nat × Option String := (sum + r, none)

/-- The second task is taken first, but overtaken. It fails, and the last one is cancelled. -/
def events : List Event :=
  [.take 1, .take 0, .read 0 false, .read 1 false, .send 1, .take 0, .receive, .send 0, .receive,
    .read 0 true, .send 0, .receive]

end Sample

end Pool

end SeismicHazard.Schedule
