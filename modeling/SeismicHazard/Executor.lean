/-!
# Executors

An executor works through tasks and hands their outcomes to a controller, which merges them into a
state and remembers the first failure.

* `Controller.receive`: what one outcome changes.
* `runInTurn`: one task after the other, up to the first failure.
* `runCancellable`: a worker that takes the tasks in order and is told to send cancellations once
  there is a failure.
* `Executor`: which of the two is used.
-/

namespace SeismicHazard

/-- The state of the merged outcomes and the first failure. -/
structure Controller (σ ε : Type) where
  state : σ
  failure : Option ε

section

variable {σ ε τ ρ : Type}

/-- Receives an outcome. After a failure, outcomes are received and dropped. -/
def Controller.receive (merge : σ → ρ → σ × Option ε) (c : Controller σ ε) (outcome : Except ε ρ) :
    Controller σ ε :=
  match c.failure with
  | some _ => c
  | none =>
    match outcome with
    | .error e => ⟨c.state, some e⟩
    | .ok r => ⟨(merge c.state r).1, (merge c.state r).2⟩

/-- What a worker sends for a task: its outcome, or a cancellation if it was told to stop. -/
def outcomeOf (cancelled : ε) (work : τ → Except ε ρ) (stop : Bool) (task : τ) : Except ε ρ :=
  if stop then .error cancelled else work task

/-- Works through the tasks in order, up to the first failure. -/
def runInTurn (work : τ → Except ε ρ) (merge : σ → ρ → σ × Option ε) :
    List τ → Controller σ ε → Controller σ ε
  | [], c => c
  | task :: rest, c =>
    match c.receive merge (work task) with
    | ⟨s, some e⟩ => ⟨s, some e⟩
    | ⟨s, none⟩ => runInTurn work merge rest ⟨s, none⟩

/-- One worker takes the tasks in order and sends an outcome for each; it is told to stop as soon as
the controller knows of a failure. -/
def runCancellable (cancelled : ε) (work : τ → Except ε ρ) (merge : σ → ρ → σ × Option ε)
    (tasks : List τ) (c : Controller σ ε) : Controller σ ε :=
  tasks.foldl (fun c task => c.receive merge (outcomeOf cancelled work c.failure.isSome task)) c

end

inductive Executor where
  | sequential
  | parallel (threads : Nat)
deriving DecidableEq

namespace Executor

def name : Executor → String
  | sequential => "sequential"
  | parallel _ => "parallel"

def threads : Executor → Nat
  | sequential => 0
  | parallel n => n

/-- Works through the tasks, from the given state on. The threads of a parallel executor take the tasks
in order; how their outcomes may overtake each other is not part of the result here. -/
def execute {σ ε τ ρ : Type} (x : Executor) (cancelled : ε) (work : τ → Except ε ρ)
    (merge : σ → ρ → σ × Option ε) (tasks : List τ) (start : σ) : Controller σ ε :=
  match x with
  | sequential => runInTurn work merge tasks ⟨start, none⟩
  | parallel _ => runCancellable cancelled work merge tasks ⟨start, none⟩

end Executor

end SeismicHazard
