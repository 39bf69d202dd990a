import Workflow.Definition.Decode
import Workflow.Fleet
import Workflow.Interpreter
import Workflow.Proofs.Dict
import Workflow.Script
import Workflow.Wiring
import Workflow.Proofs.Decode.Value
import Workflow.Proofs.Decode.Record
import Workflow.Proofs.Execution.Codec
import Workflow.Proofs.Action
import Workflow.Proofs.Context.Namespace
import Workflow.Proofs.Executor.Transport
import Workflow.Proofs.Executor.Stage
import Workflow.Proofs.Executor.Arrival
import Workflow.Proofs.Executor.Calls
import Workflow.Proofs.Executor.Creation
import Workflow.Proofs.Worker.Turn
import Workflow.Proofs.Worker.Refinement
import Workflow.Proofs.Executor.Phase
import Workflow.Proofs.Session.Basic
import Workflow.Proofs.Session.Invariant
import Workflow.Proofs.Session.Phases
import Workflow.Proofs.Executor.Journal
import Workflow.Proofs.Session.Linear
import Workflow.Proofs.Session.Twins
import Workflow.Proofs.Session.Equivalence
import Workflow.Proofs.Worker.Workshop
import Workflow.Proofs.Worker.Agreement
import Workflow.Proofs.Identifier
import Workflow.Proofs.Worker.Duties
import Workflow.Proofs.Worker.Order
import Workflow.Proofs.Executor.View
import Workflow.Proofs.Executor.Conduct
import Workflow.Proofs.Executor.Footprint
import Workflow.Proofs.Executor.Alike
import Workflow.Proofs.Session.Request
import Workflow.Proofs.Executor.Admission
import Workflow.Proofs.Session.Handover
import Workflow.Proofs.Session.Carriage
import Workflow.Proofs.Office.Basic
import Workflow.Proofs.Office.Sound
import Workflow.Proofs.Office.Independence
import Workflow.Proofs.Office.Absorption
import Workflow.Proofs.Json.Literal
import Workflow.Proofs.Json.Numeral
import Workflow.Proofs.Json.Document
import Workflow.Proofs.Decode.Depth
import Workflow.Proofs.Context.Text
import Workflow.Proofs.Decode.Reads
import Workflow.Proofs.Decode.Concur
import Workflow.Proofs.Decode.Parsed
import Workflow.Proofs.Decode.Layout
import Workflow.Proofs.Decode.Routes
import Workflow.Proofs.Definition.Routes
import Workflow.Proofs.Definition.Document
import Workflow.Proofs.Executor.Delivery
import Workflow.Proofs.Executor.Numbering
import Workflow.Proofs.Session.Moves
import Workflow.Proofs.Session.Numbering
import Workflow.Proofs.Worker.InHand
import Workflow.Proofs.Worker.Turns
import Workflow.Proofs.Worker.Termination
import Workflow.Proofs.Session.Assignment
import Workflow.Proofs.Execution.Handle
import Workflow.Proofs.Execution.Operations
import Workflow.Proofs.Session.Retry
import Workflow.Proofs.Context.Merging
import Workflow.Proofs.Store.Cache
import Workflow.Proofs.Store.Addressing
import Workflow.Proofs.Queue.Keeping
import Workflow.Proofs.Queue.Ledger
import Workflow.Proofs.Session.Suspension
import Workflow.Proofs.Session.Replay
import Workflow.Proofs.Queue.Loss
import Workflow.Proofs.Decode.Fields
import Workflow.Proofs.Decode.Grammar
import Workflow.Proofs.Definition.Grammar
import Workflow.Proofs.Definition.Violations
import Workflow.Proofs.Worker.Composition
import Workflow.Proofs.Executor.Entries
import Workflow.Proofs.Executor.Refusal
import Workflow.Proofs.Context.Collision
import Workflow.Proofs.Execution.Forms
import Workflow.Proofs.Execution.Adoption
