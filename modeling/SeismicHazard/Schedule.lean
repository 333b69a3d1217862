import SeismicHazard.Executor

/-!
# Schedules of workers

Workers take tasks, look whether they are told to stop and send an outcome for each task; a controller
receives the outcomes in the order in which they arrive. Which of them goes on next is left open, so
that there are many schedules of the same tasks.

* `Schedule.Pool`: the tasks on their way to the controller.
* `Schedule.Event`, `Pool.step?`: what may happen next, and what it changes.
* `Pool.run?`: what a list of events changes.
* `Schedule.recording`: a callback that writes down how it is called.
-/

namespace SeismicHazard.Schedule

/-- The number of workers, and whether they take the tasks in order. -/
structure Policy where
  workers : Nat
  inOrder : Bool

/-- A task that a worker has taken. Whether the worker was told to stop is known once it has looked. -/
structure Job (τ : Type) where
  task : τ
  stop : Option Bool

/-- What a worker sends for a task. -/
structure Message (τ ε ρ : Type) where
  task : τ
  outcome : Except ε ρ

inductive Event where
  /-- A free worker takes the waiting task at a place. -/
  | take (place : Nat)
  /-- The worker of a job reads the flag. -/
  | read (job : Nat) (stop : Bool)
  /-- The worker of a job sends its message and is free again. -/
  | send (job : Nat)
  /-- The controller receives the message that arrived first. -/
  | receive

/-- The tasks that wait, those that workers have, the messages under way and those received, the flag
by which workers are told to stop, and the controller. -/
structure Pool (σ τ ε ρ : Type) where
  waiting : List τ
  jobs : List (Job τ)
  channel : List (Message τ ε ρ)
  received : List (Message τ ε ρ)
  flag : Bool
  controller : Controller σ ε

section

variable {σ τ ε ρ : Type}

namespace Pool

/-- All tasks wait. -/
def start (tasks : List τ) (state : σ) : Pool σ τ ε ρ := ⟨tasks, [], [], [], false, ⟨state, none⟩⟩

/-- Every task has been worked on and every message received. -/
def Complete (p : Pool σ τ ε ρ) : Prop := p.waiting = [] ∧ p.jobs = [] ∧ p.channel = []

section

variable (policy : Policy) (cancelled : ε) (work : τ → Except ε ρ) (merge : σ → ρ → σ × Option ε)

/-- The pool after an event, if the event is possible. A worker that reads the flag may miss that it
was set a short while ago, but does not see it set before it is. -/
def step? (p : Pool σ τ ε ρ) : Event → Option (Pool σ τ ε ρ)
  | .take place =>
    if p.jobs.length < policy.workers ∧ (policy.inOrder → place = 0) then
      p.waiting[place]?.map fun task =>
        { p with waiting := p.waiting.eraseIdx place, jobs := p.jobs ++ [⟨task, none⟩] }
    else none
  | .read job stop =>
    match p.jobs[job]? with
    | some ⟨task, none⟩ =>
      if stop → p.flag then some { p with jobs := p.jobs.set job ⟨task, some stop⟩ } else none
    | _ => none
  | .send job =>
    match p.jobs[job]? with
    | some ⟨task, some stop⟩ =>
      some { p with
        jobs := p.jobs.eraseIdx job
        channel := p.channel ++ [⟨task, outcomeOf cancelled work stop task⟩] }
    | _ => none
  | .receive =>
    match p.channel with
    | message :: channel =>
      let controller := p.controller.receive merge message.outcome
      some { p with
        channel := channel
        received := p.received ++ [message]
        flag := p.flag || controller.failure.isSome
        controller := controller }
    | [] => none

/-- The pool after a list of events, if each of them is possible in its turn. -/
def run? (p : Pool σ τ ε ρ) : List Event → Option (Pool σ τ ε ρ)
  | [] => some p
  | e :: events => (p.step? policy cancelled work merge e).bind fun q => q.run? events

end

end Pool

end

end SeismicHazard.Schedule
