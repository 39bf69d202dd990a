import Workflow.Execution.Codec
import Workflow.Proofs.Decode.Record
import Workflow.Proofs.Decode.Value

/-!
# Stored states and results

What is read from the stored form of a state or a result is that state or result. A payload that is
null stays apart from none, and no stored form is itself null.
-/

namespace Workflow

theorem Status.decode_name (origin : Origin) (status : Status) :
    Status.decode origin (.text (.ok status.name)) = .ok status := by
  cases origin <;> cases status <;> rfl

namespace ExecutionState

theorem isNull_toJson (state : ExecutionState) : state.toJson.isNull = false :=
  rfl

theorem node_toJson (state : ExecutionState) :
    state.toJson.node =
      .object
        ((state.data.toList.map fun data => (.ok "Data", data.node)) ++
          [(.ok "Name", .text (.ok state.name))]) .closed := by
  obtain ⟨name, data⟩ := state
  unfold toJson Json.record
  rw [Json.node_object]
  cases data with
  | none => rfl
  | some data =>
      change Json.Node.object (List.map _ (Dict.ofList [("Name", _), ("Data", _)]).entries) _ = _
      rw [Dict.entries_ofList_pair (by decide)]
      rfl

@[simp]
theorem decode_toJson (state : ExecutionState) : decode.ofJson state.toJson = .ok state := by
  obtain ⟨name, data⟩ := state
  unfold decode Decoder.ofJson
  rw [node_toJson]
  cases data with
  | none => rfl
  | some data =>
      have hdata : Decoder.json .value data.node = .ok data := Json.toJson_node rfl data
      have hfill : Record.fillMembers recordForm.fields .value
          [(.ok "Data", data.node), (.ok "Name", .text (.ok name))] recordForm.blank =
            .ok { name := some name, data := some data } := by
        rw [Record.fillMembers_cons rfl rfl (congrArg (Except.map _) hdata)]
        rfl
      exact Record.decode_closed rfl hfill

end ExecutionState

namespace ExecutionResult

theorem isNull_toJson (result : ExecutionResult) : result.toJson.isNull = false :=
  rfl

theorem node_toJson (result : ExecutionResult) :
    result.toJson.node =
      .object
        ((result.output.toList.map fun output => (.ok "Output", output.node)) ++
          [(.ok "Status", .text (.ok result.status.name))]) .closed := by
  obtain ⟨status, output⟩ := result
  unfold toJson Json.record
  rw [Json.node_object]
  cases output with
  | none => rfl
  | some output =>
      change Json.Node.object (List.map _ (Dict.ofList [("Status", _), ("Output", _)]).entries) _ = _
      rw [Dict.entries_ofList_pair (by decide)]
      rfl

@[simp]
theorem decode_toJson (result : ExecutionResult) : decode.ofJson result.toJson = .ok result := by
  obtain ⟨status, output⟩ := result
  have hstatus := Status.decode_name .value status
  unfold decode Decoder.ofJson
  rw [node_toJson]
  cases output with
  | none =>
      have hfill : Record.fillMembers recordForm.fields .value
          [(.ok "Status", .text (.ok status.name))] recordForm.blank =
            .ok { status := some status } := by
        rw [Record.fillMembers_cons rfl rfl (congrArg (Except.map _) hstatus)]
        rfl
      exact Record.decode_closed rfl hfill
  | some output =>
      have houtput : Decoder.json .value output.node = .ok output := Json.toJson_node rfl output
      have hfill : Record.fillMembers recordForm.fields .value
          [(.ok "Output", output.node), (.ok "Status", .text (.ok status.name))]
            recordForm.blank = .ok { status := some status, output := some output } := by
        rw [Record.fillMembers_cons rfl rfl (congrArg (Except.map _) houtput),
          Record.fillMembers_cons rfl rfl (congrArg (Except.map _) hstatus)]
        rfl
      exact Record.decode_closed rfl hfill

end ExecutionResult

end Workflow
