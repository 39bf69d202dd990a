import Workflow.Proofs.Decode.Value

/-!
# How deep a value is

In a text every array and every object takes one level, so a value that is read from a text is
read as itself where there is room for its levels, and is refused where there is not.
-/

namespace Workflow

namespace Json

namespace Tree

mutual

/-- How many arrays and objects contain each other. Empty ones count like others. -/
def depth : Tree → Nat
  | .array items => itemsDepth items + 1
  | .object members => membersDepth members + 1
  | .null | .bool _ | .number _ | .text _ => 0

def itemsDepth : List Tree → Nat
  | [] => 0
  | item :: rest => max item.depth (itemsDepth rest)

def membersDepth : List (String × Tree) → Nat
  | [] => 0
  | (_, value) :: rest => max value.depth (membersDepth rest)

end

end Tree

/-- What is read of a value that takes `levels` where `room` is left. -/
def readWithin {α : Type} (room levels : Nat) (value : α) : Except DecodeError α :=
  if levels ≤ room then .ok value else .error (.unreadable .nestedTooDeep)

section Room

variable {α β : Type} {room levels more : Nat} {value : α} {result : β}

theorem readWithin_of_le (h : levels ≤ room) : readWithin room levels value = .ok value :=
  if_pos h

theorem readWithin_of_lt (h : room < levels) :
    readWithin room levels value = .error (.unreadable .nestedTooDeep) :=
  if_neg (Nat.not_le.mpr h)

/-- Of two values that are read one after the other, both must have room. -/
theorem readWithin_bind {next : α → Except DecodeError β}
    (hnext : next value = readWithin room more result) :
    (readWithin room levels value >>= next) = readWithin room (max levels more) result := by
  by_cases hlevels : levels ≤ room
  · rw [readWithin_of_le hlevels]
    change next value = _
    rw [hnext]
    unfold readWithin
    simp only [Nat.max_le, hlevels, true_and]
  · rw [readWithin_of_lt (Nat.not_le.mp hlevels),
      readWithin_of_lt (Nat.lt_of_lt_of_le (Nat.not_le.mp hlevels) (Nat.le_max_left levels more))]
    rfl

theorem readWithin_map (f : α → β) :
    (readWithin room levels value).map f = readWithin room levels (f value) := by
  unfold readWithin
  split <;> rfl

theorem readWithin_succ :
    readWithin (room + 1) (levels + 1) value = readWithin room levels value := by
  unfold readWithin
  simp only [Nat.add_le_add_iff_right]

end Room

theorem itemsToJson_text {room : Nat} {items : List Json}
    (h : ∀ item ∈ items, item.node.toJson (.text room) = readWithin room item.tree.depth item) :
    itemsToJson (.text room) (items.map (·.node)) =
      readWithin room (Tree.itemsDepth (items.map (·.tree))) items := by
  induction items with
  | nil => exact (readWithin_of_le (Nat.zero_le room)).symm
  | cons item rest ih =>
      have hrest := ih fun other hmem => h other (List.mem_cons_of_mem _ hmem)
      rw [List.map_cons, itemsToJson, h item List.mem_cons_self]
      apply readWithin_bind
      rw [hrest]
      exact readWithin_map (item :: ·)

theorem membersToJson_text {room : Nat} {entries : List (String × Json)}
    (h : ∀ entry ∈ entries,
      entry.2.node.toJson (.text room) = readWithin room entry.2.tree.depth entry.2)
    (dict : Dict Json) :
    membersToJson (.text room) (entries.map fun entry => (.ok entry.1, entry.2.node)) dict =
      readWithin room (Tree.membersDepth (entries.map fun entry => (entry.1, entry.2.tree)))
        (entries.foldl (fun dict entry => dict.insert entry.1 entry.2) dict) := by
  induction entries generalizing dict with
  | nil => exact (readWithin_of_le (Nat.zero_le room)).symm
  | cons entry rest ih =>
      rw [List.map_cons, membersToJson, h entry List.mem_cons_self]
      exact readWithin_bind (ih (fun other hmem => h other (List.mem_cons_of_mem _ hmem)) _)

/-- A value of a text is read as itself where there is room for its levels. -/
theorem toJson_text (json : Json) (room : Nat) :
    json.node.toJson (.text room) = readWithin room json.tree.depth json := by
  induction json using Json.induction generalizing room with
  | null | bool | number | text => exact (readWithin_of_le (Nat.zero_le room)).symm
  | array items ih =>
      rw [node_array, Node.toJson]
      change _ = readWithin room (Tree.itemsDepth (items.map (·.tree)) + 1) (array items)
      cases room with
      | zero => exact (readWithin_of_lt (Nat.succ_pos _)).symm
      | succ room =>
          simp only [Origin.enter, itemsToJson_text fun item hitem => ih item hitem room]
          rw [readWithin_succ]
          exact readWithin_map array
  | object members ih =>
      rw [node_object, Node.toJson]
      change _ = readWithin room (Tree.membersDepth (members.map (·.tree)).entries + 1) (object members)
      cases room with
      | zero => exact (readWithin_of_lt (Nat.succ_pos _)).symm
      | succ room =>
          simp only [Origin.enter, membersToJson_text fun entry hentry => ih entry hentry room]
          rw [readWithin_succ]
          exact (readWithin_map object).trans (congrArg (readWithin room _ <| object ·) members.ofList_entries)

end Json

end Workflow
