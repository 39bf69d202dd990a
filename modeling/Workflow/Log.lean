import Workflow.Context.Slice
/-!
The log of executions. The lines of an execution are numbered from one; the number of the last line
travels in the context, so that numbering goes on where it stopped.
-/

namespace Workflow

structure LogLine where
  executionId : String
  executorId : String
  sequence : UInt64
  message : String
  deriving DecidableEq

/-- Who writes to the log, and the number of the last line written. -/
structure Logger where
  executionId : String
  executorId : String
  sequence : UInt64
  deriving DecidableEq

namespace Logger

def spaceName : String := "logger"

def sequenceKey : String := "sequence"

def slice (logger : Logger) : Slice :=
  .ofList [(sequenceKey, .ofUInt64 logger.sequence)]

/-- The position that a slice tells, which is the start if it tells none. -/
def sequenceIn (slice : Slice) : Except ContextError UInt64 := do
  return (← slice.getAs? .word64 sequenceKey).getD 0

def adopt (logger : Logger) (slice : Slice) : Except ContextError Logger := do
  return { logger with sequence := ← sequenceIn slice }

def write (logger : Logger) (message : String) : Logger × LogLine :=
  let sequence := logger.sequence + 1
  ({ logger with sequence },
    { executionId := logger.executionId
      executorId := logger.executorId
      sequence
      message })

end Logger

def lastChars (count : Nat) (text : String) : String :=
  String.ofList (text.toList.drop (text.toList.length - count))

/-- A log message: the end of the executor's identifier, the resource, the state, what happened. -/
def logMessage (executorId resource state message : String) : String :=
  let lead := lastChars 4 executorId
  s!"[{lead}:{resource}] {state} {message}"

/-- The executors of a log in the order of their first lines. -/
def executorsIn (log : List LogLine) : List String :=
  log.foldl (fun ids line => if ids.contains line.executorId then ids else ids ++ [line.executorId])
    []

def linesFor (executionId : String) (log : List LogLine) : List LogLine :=
  log.filter (·.executionId == executionId)

end Workflow
