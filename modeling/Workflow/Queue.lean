import Workflow.Context.Basic
/-!
The queue of tasks that wait for a worker, oldest first.
-/

namespace Workflow

structure QueuedTask where
  resource : String
  input : Json
  context : Context
  deriving DecidableEq

structure Queue where
  pending : List QueuedTask
  /-- How many tasks were ever taken in. -/
  dispatched : Nat
  deriving DecidableEq

namespace Queue

def empty : Queue :=
  { pending := []
    dispatched := 0 }

def push (queue : Queue) (task : QueuedTask) : Queue :=
  { pending := queue.pending ++ [task]
    dispatched := queue.dispatched + 1 }

def take (queue : Queue) : Option QueuedTask × Queue :=
  match queue.pending with
  | [] => (none, queue)
  | task :: rest => (some task, { queue with pending := rest })

/-- Puts a task that was taken back to the front. -/
def putBack (queue : Queue) (task : QueuedTask) : Queue :=
  { queue with pending := task :: queue.pending }

end Queue

end Workflow
