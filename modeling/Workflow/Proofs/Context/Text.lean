import Workflow.Context.Basic
import Workflow.Proofs.Decode.Depth
import Workflow.Proofs.Json.Document

/-!
# Contexts as texts

A context is sent as the text of one object. Nothing bounds the writer, and the reader refuses what
is nested too deep, so a context without doubles comes back as it was or not at all.
-/

namespace Workflow

theorem except_map_injective {ε α β : Type} {f : α → β} (hf : Function.Injective f) :
    Function.Injective fun outcome : Except ε α => outcome.map f := by
  intro a b heq
  cases a with
  | error error =>
      cases b with
      | error other => exact congrArg Except.error (Except.error.inj heq)
      | ok value => cases heq
  | ok value =>
      cases b with
      | error error => cases heq
      | ok other => exact congrArg Except.ok (hf (Except.ok.inj heq))

namespace Json

theorem entries_json (origin : Origin) (members : List (Key × Node)) (dict : Dict Json) :
    Decoder.entries .json origin members dict = membersToJson origin members dict := by
  induction members generalizing dict with
  | nil => rfl
  | cons member rest ih =>
      obtain ⟨key, node⟩ := member
      rw [Decoder.entries, membersToJson]
      simp only [ih]
      rfl

/-- An object is read like any value, and its members are kept as a dictionary. -/
theorem dict_json_object (origin : Origin) (members : List (Key × Node)) (ending : ObjectEnd) :
    (Decoder.dict .json origin (.object members ending)).map object =
      (Node.object members ending).toJson origin := by
  rw [Decoder.dict, Node.toJson]
  simp only [entries_json]
  cases origin.enter with
  | error error => rfl
  | ok inner =>
      change Except.map object (membersToJson inner members .empty >>= _) =
        (membersToJson inner members .empty >>= _)
      cases membersToJson inner members .empty with
      | error error => rfl
      | ok read =>
          change Except.map object (checked ending.fault? >>= _) = (checked ending.fault? >>= _)
          cases checked ending.fault? <;> rfl

end Json

namespace Context

theorem decode_text (context : Context) (room : Nat) :
    decode (.text room) context.toJson.node =
      Json.readWithin room context.toJson.tree.depth context := by
  have hdict : Decoder.dict .json (.text room) context.toJson.node =
      Json.readWithin room context.toJson.tree.depth context.entries := by
    have hobject := Json.toJson_text context.toJson room
    rw [toJson, Json.node_object, ← Json.dict_json_object, ← Json.readWithin_map Json.object] at hobject
    rw [toJson, Json.node_object]
    exact except_map_injective Json.object_injective hobject
  rw [decode, hdict, Json.readWithin_map]

/-- The text of a context without doubles is read as that context if it is nested no deeper than a
text may be, and is refused for its depth otherwise. -/
theorem ofText_toText (context : Context) (hintegral : context.toJson.tree.isIntegral = true) :
    ofText context.toText =
      if context.toJson.tree.depth ≤ depthLimit then .ok context
      else .error (.deserializationFailed (.unreadable .nestedTooDeep)) := by
  unfold ofText Decoder.ofText toText
  rw [Json.Document.ofText_print hintegral]
  simp only [decode_text]
  by_cases hdepth : context.toJson.tree.depth ≤ depthLimit
  · rw [if_pos hdepth, Json.readWithin_of_le hdepth]
    rfl
  · rw [if_neg hdepth, Json.readWithin_of_lt (Nat.not_le.mp hdepth)]
    rfl

/-- A context of one entry, an array within an array and so on. -/
def nested (levels : Nat) : Context :=
  ⟨.ofList [("\"\u00e9\n\"", Nat.repeat (fun item => .array [item, .text "\t"]) levels
    (.number (.integer (-0x8000000000000000) (by decide) (by decide))))]⟩

theorem ofText_toText_nested :
    (nested 126).toJson.tree.isIntegral = true ∧ ofText (nested 126).toText = .ok (nested 126) ∧
      (nested 127).toJson.tree.isIntegral = true ∧
      ofText (nested 127).toText =
        .error (.deserializationFailed (.unreadable .nestedTooDeep)) := by
  have hshallow : (nested 126).toJson.tree.isIntegral = true := by decide +kernel
  have hdeep : (nested 127).toJson.tree.isIntegral = true := by decide +kernel
  refine ⟨hshallow, ?_, hdeep, ?_⟩
  · rw [ofText_toText (nested 126) hshallow, if_pos (by decide +kernel)]
  · rw [ofText_toText (nested 127) hdeep, if_neg (by decide +kernel)]

end Context

end Workflow
