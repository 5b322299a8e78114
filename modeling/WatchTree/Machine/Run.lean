import WatchTree.Machine.Step

/-!
# Runs

An operation is run on its own by stepping until no work is left. How a run ends is kept apart:
with an answer, by a panic that nothing caught, or not within the given number of steps.
-/

namespace WatchTree

/-- How the run of an operation ends. -/
inductive Ending (α : Type)
  | answered (a : Answer α)
  | panicked (payload : Payload)
  | outOfSteps

namespace Machine

variable {α : Type}

/-- Steps until no work is left, at most `fuel` times. -/
def steps [BEq α] : Nat → Machine α → Machine α
  | 0, m => m
  | fuel + 1, m => if m.stack.isEmpty then m else steps fuel m.step

/-- How a machine without work has ended. -/
def ending (m : Machine α) : Ending α :=
  match m.stack, m.control with
  | [], .unwind payload => .panicked payload
  | [], .answer a => .answered a
  | [], .proceed => .answered .done
  | _ :: _, _ => .outOfSteps

end Machine

namespace World

variable {α : Type}

/-- An operation that has just begun. -/
def start [BEq α] (w : World α) (op : Op α) : Machine α := Machine.perform { world := w } op

/-- Runs an operation: how it ended, and the world after it. -/
def run [BEq α] (fuel : Nat) (w : World α) (op : Op α) : Ending α × World α :=
  let m := (w.start op).steps fuel
  (m.ending, m.world)

/-- The events since the history had a length, oldest first, without those on a poller's thread. -/
def newsSince (w : World α) (length : Nat) : List (Event α) :=
  ((w.history.take (w.history.length - length)).filter fun e => !e.onPoller).reverse.map
    Entry.event

/-- Runs operations one after the other; each with its events. -/
def runAll [BEq α] (fuel : Nat) (w : World α) : List (Op α) → List (Ending α × List (Event α))
  | [] => []
  | op :: rest =>
    let (ending, next) := w.run fuel op
    (ending, next.newsSince w.history.length) :: runAll fuel next rest

end World

end WatchTree
