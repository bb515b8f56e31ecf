import TestTree.Run.Runner

/-!
One order of turns: virtual time. Bodies take no time but the time they sleep. The thread that was due
first goes on until it sleeps or ends; threads due at the same time go on in the order in which they
fell asleep, and at the start in the order of their numbers.
-/
namespace TestTree.Run

/-- When a thread is due, and its place among those due at that time. -/
structure Timer where
  dueAt : Nat := 0
  place : Nat := 0
deriving DecidableEq, Repr

def Timer.before (a b : Timer) : Bool :=
  a.dueAt < b.dueAt || (a.dueAt == b.dueAt && a.place < b.place)

/-- A process with the timers of its threads. The stop token may be raised at a given time. -/
structure Clock (Call Env : Type) where
  process : Process Call Env
  timers : List Timer := []
  nextPlace : Nat := 0
  stopAt : Option Nat := none

variable {Call Env : Type}

namespace Clock

def ofProcess (process : Process Call Env) (stopAt : Option Nat) : Clock Call Env :=
  { process, stopAt }

def now (clock : Clock Call Env) : Nat := clock.process.runner.now

def timer (clock : Clock Call Env) (thread : Nat) : Timer :=
  (clock.timers[thread]?).getD { place := thread }

/-- The thread to go on next. -/
def nextThread (clock : Clock Call Env) : Option Nat :=
  clock.process.threads.foldl (fun best thread =>
    match best with
    | none => some thread
    | some other => if (clock.timer thread).before (clock.timer other) then some thread else best) none

def setNow (clock : Clock Call Env) (time : Nat) : Clock Call Env :=
  { clock with
    process :=
      { clock.process with runner := { clock.process.runner with now := max clock.now time } } }

/-- The timers of the threads of a process, all due. -/
def freshTimers (process : Process Call Env) : List Timer :=
  match process.operation with
  | .working workers _ => (List.range workers.length).map fun thread => { place := thread }
  | _ => [{}]

def isWorking (process : Process Call Env) : Bool :=
  match process.operation with
  | .working _ _ => true
  | _ => false

/-- One thread has a turn. -/
def turnThread (setting : Setting Call Env) (clock : Clock Call Env) (thread : Nat) :
    Clock Call Env :=
  let due := clock.setNow (clock.timer thread).dueAt
  let (process, sleep) := due.process.turn setting thread
  let timers :=
    if isWorking process && isWorking clock.process then clock.timers else freshTimers process
  match sleep with
  | some (time + 1) =>
      { due with
        process
        timers := timers.set thread ⟨due.now + time + 1, clock.nextPlace⟩
        nextPlace := clock.nextPlace + 1 }
  | _ => { due with process, timers }

/-- Raises the stop token if it is due before the thread. -/
def raiseIfDue (clock : Clock Call Env) (thread : Nat) : Option (Clock Call Env) :=
  match clock.stopAt with
  | some time =>
      if time < (clock.timer thread).dueAt then
        let due := clock.setNow time
        some { due with process := due.process.raiseStop, stopAt := none }
      else none
  | none => none

/-- Runs the process to its end, if it takes at most `bound` turns. -/
def complete (setting : Setting Call Env) : Nat → Clock Call Env → Option (Runner Env × Answer)
  | 0, _ => none
  | bound + 1, clock =>
      match clock.process.operation with
      | .finished answer => some (clock.process.runner, answer)
      | _ =>
          match clock.nextThread with
          | none => none
          | some thread =>
              match clock.raiseIfDue thread with
              | some raised => complete setting bound raised
              | none => complete setting bound (clock.turnThread setting thread)

end Clock

namespace Process

/-- Runs a process to its end in virtual time. -/
def complete (setting : Setting Call Env) (bound : Nat) (process : Process Call Env) :
    Option (Runner Env × Answer) :=
  (Clock.ofProcess process none).complete setting bound

end Process

/-- A run that is stopped `after` milliseconds from its start, or at its end if that is earlier. -/
def Runner.runAndStop (setting : Setting Call Env) (bound after : Nat) (runner : Runner Env) :
    Option (Runner Env × Answer) := do
  let stopAt := runner.now + after
  let (ran, answer) ← (Clock.ofProcess runner.run (some stopAt)).complete setting bound
  let (stopped, _) ← ({ ran with now := max ran.now stopAt }.stop).complete setting bound
  return (stopped, answer)

end TestTree.Run
