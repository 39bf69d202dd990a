import Workflow.Decode.Record

/-!
# Reading records from objects

One step for a member that belongs to a field, and one for the whole object once all members have
been read.
-/

namespace Workflow.Record

open Json (Node Key ObjectEnd readKey)

variable {δ α : Type} {fields : List (Field δ)}

/-- Fills the draft from one member. -/
def fillMember (fields : List (Field δ)) (origin : Origin) (draft : δ) (member : Key × Node) :
    Except DecodeError δ := do
  let key ← readKey member.1
  match fields.find? fun field => field.name == key with
  | some field =>
    if field.filled draft then .error (.duplicateField key) else field.fill draft origin member.2
  | none => member.2.skip.map fun _ => draft

theorem fillMember_known {origin : Origin} {draft : δ} {key : String} {node : Node} {field : Field δ}
    (hfind : (fields.find? fun field => field.name == key) = some field) :
    fillMember fields origin draft (.ok key, node) =
      if field.filled draft then .error (.duplicateField key) else field.fill draft origin node := by
  have hkey : readKey (.ok key) = .ok key := rfl
  rw [fillMember, hkey]
  simp only [bind, Except.bind, hfind]

theorem fillMembers_eq_foldlM (origin : Origin) (members : List (Key × Node)) (draft : δ) :
    fillMembers fields origin members draft = members.foldlM (fillMember fields origin) draft := by
  induction members generalizing draft with
  | nil => rfl
  | cons member rest ih =>
      obtain ⟨key, node⟩ := member
      rw [fillMembers, List.foldlM_cons, fillMember]
      cases readKey key with
      | error error => rfl
      | ok key =>
          simp only [bind, Except.bind]
          cases fields.find? fun field => field.name == key with
          | none =>
              cases node.skip with
              | error error => rfl
              | ok => exact ih draft
          | some field =>
              by_cases hfilled : field.filled draft = true
              · simp only [hfilled, if_true]
              · simp only [hfilled]
                cases field.fill draft origin node with
                | error error => rfl
                | ok filled => exact ih filled

theorem fillMember_error {origin : Origin} {draft : δ} {key : String} {node : Node} {field : Field δ}
    (hfind : (fields.find? fun field => field.name == key) = some field)
    (hfilled : field.filled draft = true) :
    fillMember fields origin draft (.ok key, node) = .error (.duplicateField key) := by
  rw [fillMember_known hfind, if_pos hfilled]

theorem fillMember_fill {origin : Origin} {draft : δ} {key : String} {node : Node} {field : Field δ}
    (hfind : (fields.find? fun field => field.name == key) = some field)
    (hopen : field.filled draft = false) :
    fillMember fields origin draft (.ok key, node) = field.fill draft origin node := by
  rw [fillMember_known hfind, hopen, if_neg Bool.false_ne_true]

theorem fillMembers_cons {origin : Origin} {key : String} {node : Node}
    {rest : List (Key × Node)} {draft filled : δ} {field : Field δ}
    (hfind : (fields.find? fun field => field.name == key) = some field)
    (hopen : field.filled draft = false) (hfill : field.fill draft origin node = .ok filled) :
    fillMembers fields origin ((.ok key, node) :: rest) draft =
      fillMembers fields origin rest filled := by
  rw [fillMembers_eq_foldlM, fillMembers_eq_foldlM, List.foldlM_cons, fillMember_fill hfind hopen, hfill]
  rfl

theorem decode_object {record : Record δ α} {origin inner : Origin} {members : List (Key × Node)}
    {ending : ObjectEnd} (horigin : origin.enter = .ok inner) (hending : ending.fault? = none) :
    record.decode origin (.object members ending) =
      fillMembers record.fields inner members record.blank >>= record.finish := by
  change (origin.enter >>= fun inner => fillMembers record.fields inner members record.blank >>=
    fun draft => checked ending.fault? >>= fun _ => record.finish draft) = _
  rw [horigin, hending]
  rfl

theorem decode_closed {record : Record δ α} {origin inner : Origin} {members : List (Key × Node)}
    {draft : δ} (horigin : origin.enter = .ok inner)
    (hfill : fillMembers record.fields inner members record.blank = .ok draft) :
    record.decode origin (.object members .closed) = record.finish draft := by
  rw [decode_object horigin rfl, hfill]
  rfl

end Workflow.Record
