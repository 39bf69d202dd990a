import Workflow.Proofs.Decode.Grammar
import Workflow.Proofs.Executor.Transport

/-!
# The forms of states and results

A state or a result is written in one form and read from several: from an object with any members besides
its own, or from an array of its fields, and a status from its name or from an object of that one member.
Whatever it was read from, what is written of it is read as the same state or result.
-/

namespace Workflow

open Json (Node)

/-- A document with a value in the first place and a payload, if any, in the second: an object that has
both under their names, or an array of both in this order. -/
inductive Json.Presents (name payloadName : String) : Json → Json → Option Json → Prop
  | object {members : Dict Json} {value : Json} (h : members.get? name = some value) :
      Presents name payloadName (.object members) value (members.get? payloadName)
  | alone (value : Json) : Presents name payloadName (.array [value]) value none
  | both (value payload : Json) :
      Presents name payloadName (.array [value, payload]) value (some payload)

/-- A status in one of its two forms. -/
inductive Status.IsForm : Json → Status → Prop
  | name (status : Status) : IsForm (.text status.name) status
  | member (status : Status) : IsForm (.record [(status.name, .null)]) status

/-- Whether a document is a state in one of its forms. -/
def ExecutionState.IsForm (doc : Json) (state : ExecutionState) : Prop :=
  doc.Presents "Name" "Data" (.text state.name) state.data

/-- Whether a document is a result in one of its forms. -/
def ExecutionResult.IsForm (doc : Json) (result : ExecutionResult) : Prop :=
  ∃ status, doc.Presents "Status" "Output" status result.output ∧ Status.IsForm status result.status

/-- A record of two fields: one that it needs, and a payload that it may go without. -/
structure Record.IsLoaded {δ α β : Type} (record : Record δ α) (first second : Field δ)
    (decode : Decoder β) (draft : Option β → Option Json → δ) (make : β → Option Json → α) : Prop where
  simple : record.IsSimple
  fields : record.fields = [first, second]
  blank : record.blank = draft none none
  needed : first.optional = false
  optional : second.optional = true
  fill : ∀ payload origin node, first.fill (draft none payload) origin node =
    (decode origin node).map fun value => draft (some value) payload
  load : ∀ value origin node, second.fill (draft value none) origin node =
    (Decoder.json origin node).map fun payload => draft value (some payload)
  finish : ∀ value payload, record.finish (draft (some value) payload) = .ok (make value payload)
  unfinished : ∀ payload, ∃ error, record.finish (draft none payload) = .error error

namespace Record.IsLoaded

variable {δ α β : Type} {record : Record δ α} {first second : Field δ} {decode : Decoder β}
  {draft : Option β → Option Json → δ} {make : β → Option Json → α}

theorem finish_eq_ok_iff (h : record.IsLoaded first second decode draft make) {value : Option β}
    {payload : Option Json} {result : α} :
    record.finish (draft value payload) = .ok result ↔
      ∃ head, value = some head ∧ make head payload = result := by
  cases value with
  | none =>
      obtain ⟨error, herror⟩ := h.unfinished payload
      simp [herror]
  | some head => simp [h.finish]

theorem enter_payload (h : record.IsLoaded first second decode draft make) (members : Dict Json)
    (value : Option β) :
    Field.enter members (draft value none) second = .ok (draft value (members.get? second.name)) := by
  unfold Field.enter
  cases members.get? second.name with
  | none => rfl
  | some payload =>
      have hpayload : Decoder.json .value payload.node = .ok payload := Decoder.json_ofJson payload
      simp only [h.load, hpayload]
      rfl

/-- From an object the record is read by the members of its two fields. -/
theorem object_eq_ok_iff (h : record.IsLoaded first second decode draft make) {members : Dict Json}
    {result : α} :
    record.decode.ofJson (.object members) = .ok result ↔
      ∃ value head, members.get? first.name = some value ∧ decode.ofJson value = .ok head ∧
        make head (members.get? second.name) = result := by
  have hread := h.simple.ofJson_object members
  rw [hread.eq_ok_iff, h.fields, h.blank, List.foldlM_cons, Field.enter]
  cases hvalue : members.get? first.name with
  | none =>
      have hnone : ¬ record.finish (draft none (members.get? second.name)) = .ok result := by
        simp [h.finish_eq_ok_iff]
      simp only [List.foldlM_cons, List.foldlM_nil, h.enter_payload, bind, Except.bind, pure,
        Except.pure]
      simp [hnone]
  | some value =>
      simp only [h.fill, List.foldlM_cons, List.foldlM_nil]
      have hdecode : decode .value value.node = decode.ofJson value := rfl
      rw [hdecode]
      cases hhead : decode.ofJson value with
      | error error => simp [hhead, Except.map, bind, Except.bind]
      | ok head =>
          simp only [Except.map, h.enter_payload, bind, Except.bind, pure, Except.pure, h.finish]
          simp [hhead]

theorem decode_array (h : record.IsLoaded first second decode draft make) (items : List Json) :
    record.decode.ofJson (.array items) =
      (record.fillItems .value .closed 0 [first, second] (items.map (·.node)) (draft none none) >>=
        fun filled =>
          Record.checkEnd 2 .value .closed filled.2 >>= fun _ => record.finish filled.1) := by
  unfold Decoder.ofJson Record.decode
  rw [Json.node_array]
  simp only [h.fields, h.blank]
  rfl

/-- The first item enters the draft, and the others are what is left. -/
theorem fillItems_cons (h : record.IsLoaded first second decode draft make) (value : Json)
    (rest : List Json) :
    record.fillItems .value .closed 0 [first, second] ((value :: rest).map (·.node)) (draft none none) =
      (decode.ofJson value >>= fun head =>
        record.fillItems .value .closed 1 [second] (rest.map (·.node)) (draft (some head) none)) := by
  rw [List.map_cons, Record.fillItems, h.fill]
  change ((decode.ofJson value).map _ >>= _) = _
  cases decode.ofJson value <;> rfl

theorem fillItems_payload (h : record.IsLoaded first second decode draft make) (head : β)
    (payload : Json) (rest : List Json) :
    record.fillItems .value .closed 1 [second] ((payload :: rest).map (·.node))
        (draft (some head) none) =
      .ok (draft (some head) (some payload), rest.map (·.node)) := by
  have hpayload : Decoder.json .value payload.node = .ok payload := Decoder.json_ofJson payload
  rw [List.map_cons, Record.fillItems, h.load, hpayload]
  rfl

theorem fillItems_end (h : record.IsLoaded first second decode draft make) (head : β) :
    record.fillItems .value .closed 1 [second] [] (draft (some head) none) =
      .ok (draft (some head) none, []) := by
  rw [Record.fillItems, h.optional]
  rfl

theorem decode_alone (h : record.IsLoaded first second decode draft make) (value : Json) :
    record.decode.ofJson (.array [value]) = (decode.ofJson value).map (make · none) := by
  rw [h.decode_array, h.fillItems_cons]
  cases decode.ofJson value with
  | error error => rfl
  | ok head =>
      change (record.fillItems .value .closed 1 [second] [] (draft (some head) none) >>= _) = _
      rw [h.fillItems_end]
      exact h.finish head none

theorem decode_both (h : record.IsLoaded first second decode draft make) (value payload : Json) :
    record.decode.ofJson (.array [value, payload]) =
      (decode.ofJson value).map (make · (some payload)) := by
  rw [h.decode_array, h.fillItems_cons]
  cases decode.ofJson value with
  | error error => rfl
  | ok head =>
      change (record.fillItems .value .closed 1 [second] ([payload].map _)
        (draft (some head) none) >>= _) = _
      rw [h.fillItems_payload]
      exact h.finish head (some payload)

/-- An array has one or two items to be read as the record. -/
theorem exists_of_decode_array (h : record.IsLoaded first second decode draft make)
    {items : List Json} {result : α} (hresult : record.decode.ofJson (.array items) = .ok result) :
    ∃ value, items = [value] ∨ ∃ payload, items = [value, payload] := by
  match items with
  | [] =>
      rw [h.decode_array, List.map_nil, Record.fillItems, h.needed] at hresult
      cases hresult
  | [value] => exact ⟨value, .inl rfl⟩
  | [value, payload] => exact ⟨value, .inr ⟨payload, rfl⟩⟩
  | value :: payload :: extra :: more =>
      rw [h.decode_array, h.fillItems_cons] at hresult
      obtain ⟨filled, hfilled, hrest⟩ := ok_of_bind hresult
      obtain ⟨head, -, hpayload⟩ := ok_of_bind hfilled
      rw [h.fillItems_payload] at hpayload
      rw [← Except.ok.inj hpayload] at hrest
      cases hrest

/-- The record is read from the documents that present a value for its first field, with what they
present for the second. -/
theorem decode_eq_ok_iff (h : record.IsLoaded first second decode draft make) {doc : Json} {result : α} :
    record.decode.ofJson doc = .ok result ↔
      ∃ value payload head, doc.Presents first.name second.name value payload ∧
        decode.ofJson value = .ok head ∧ make head payload = result := by
  constructor
  · intro hresult
    induction doc using Json.induction with
    | object members =>
        obtain ⟨value, head, hvalue, hhead, hmake⟩ := h.object_eq_ok_iff.mp hresult
        exact ⟨value, _, head, .object hvalue, hhead, hmake⟩
    | array items =>
        obtain ⟨value, rfl | ⟨payload, rfl⟩⟩ := h.exists_of_decode_array hresult
        · rw [h.decode_alone] at hresult
          obtain ⟨head, hhead, hmake⟩ := ok_of_map hresult
          exact ⟨value, none, head, .alone value, hhead, hmake⟩
        · rw [h.decode_both] at hresult
          obtain ⟨head, hhead, hmake⟩ := ok_of_map hresult
          exact ⟨value, some payload, head, .both value payload, hhead, hmake⟩
    | null | bool | number | text => cases hresult
  · rintro ⟨value, payload, head, hpresents, hhead, rfl⟩
    cases hpresents with
    | object hvalue => exact h.object_eq_ok_iff.mpr ⟨value, head, hvalue, hhead, rfl⟩
    | alone => rw [h.decode_alone, hhead, Except.map]
    | both value payload => rw [h.decode_both, hhead, Except.map]

end Record.IsLoaded

namespace Status

variable {json : Json} {status : Status}

theorem ofName_eq_ok_iff : ofName.ofJson json = .ok status ↔ json = .text status.name := by
  constructor
  · intro h
    obtain ⟨⟨entry, hentry, rfl⟩, rfl⟩ := (Decoder.variant_yieldsIff _ _ .succeeded json status).mp h
    simp only [known, List.mem_cons, List.not_mem_nil, or_false] at hentry
    obtain rfl | rfl | rfl | rfl := hentry <;> rfl
  · rintro rfl
    exact decode_name .value status

theorem unit_eq_ok_iff : Decoder.unit.ofJson json = .ok () ↔ json = .null := by
  constructor
  · intro h
    induction json using Json.induction with
    | null => rfl
    | bool | number | text | array | object => cases h
  · rintro rfl
    rfl

theorem isForm_of_decode_object {members : Dict Json}
    (h : decode.ofJson (.object members) = .ok status) : IsForm (.object members) status := by
  rw [← members.ofList_entries]
  rw [Decoder.ofJson, Json.node_object] at h
  cases hentries : members.entries with
  | nil =>
      rw [hentries] at h
      cases h
  | cons entry rest =>
      rw [hentries] at h
      cases rest with
      | cons second rest => cases h
      | nil =>
          obtain ⟨key, value⟩ := entry
          change (ofName.ofJson (.text key) >>= fun status => Decoder.unit.ofJson value >>= fun _ =>
            pure status) = _ at h
          obtain ⟨named, hname, h⟩ := ok_of_bind h
          obtain ⟨_, hnull, h⟩ := ok_of_bind h
          obtain rfl := Except.ok.inj h
          have hkey : key = named.name := congrArg Json.asText (ofName_eq_ok_iff.mp hname)
          rw [hkey, unit_eq_ok_iff.mp hnull]
          exact .member named

theorem decode_eq_ok_iff : decode.ofJson json = .ok status ↔ IsForm json status := by
  constructor
  · intro h
    induction json using Json.induction with
    | text value =>
        have hname : Json.text value = .text status.name := ofName_eq_ok_iff.mp h
        rw [hname]
        exact .name status
    | object members => exact isForm_of_decode_object h
    | null | bool | number | array => cases h
  · intro h
    cases h with
    | name => exact decode_name .value status
    | member => cases status <;> rfl

end Status

namespace ExecutionState

theorem isLoaded_recordForm :
    recordForm.IsLoaded (.required "Name" (·.name) (fun draft name => { draft with name }) .text)
      (.defaulted "Data" (·.data) (fun draft data => { draft with data }) .json) .text
      (fun name data => { name, data }) (fun name data => { name, data }) where
  simple :=
    { apart := List.pairwise_pair.mpr <|
        .of_puts (fun _ _ _ => rfl) (fun _ _ _ => rfl) (fun _ _ => rfl) (fun _ _ => rfl) fun _ _ _ => rfl
      names := by decide
      blank := by decide }
  fields := rfl
  blank := rfl
  needed := rfl
  optional := rfl
  fill _ _ _ := rfl
  load _ _ _ := rfl
  finish _ _ := rfl
  unfinished _ := ⟨_, rfl⟩

theorem decode_eq_ok_iff {doc : Json} {state : ExecutionState} :
    decode.ofJson doc = .ok state ↔ IsForm doc state := by
  rw [decode, isLoaded_recordForm.decode_eq_ok_iff]
  constructor
  · rintro ⟨value, data, name, hpresents, hname, rfl⟩
    obtain ⟨⟨text, rfl⟩, rfl⟩ := (Decoder.text_yieldsIff value name).mp hname
    exact hpresents
  · intro h
    exact ⟨.text state.name, state.data, state.name, h, Decoder.text_ofJson state.name, rfl⟩

end ExecutionState

namespace ExecutionResult

theorem isLoaded_recordForm :
    recordForm.IsLoaded
      (.required "Status" (·.status) (fun draft status => { draft with status }) Status.decode)
      (.defaulted "Output" (·.output) (fun draft output => { draft with output }) .json) Status.decode
      (fun status output => { status, output }) (fun status output => { status, output }) where
  simple :=
    { apart := List.pairwise_pair.mpr <|
        .of_puts (fun _ _ _ => rfl) (fun _ _ _ => rfl) (fun _ _ => rfl) (fun _ _ => rfl) fun _ _ _ => rfl
      names := by decide
      blank := by decide }
  fields := rfl
  blank := rfl
  needed := rfl
  optional := rfl
  fill _ _ _ := rfl
  load _ _ _ := rfl
  finish _ _ := rfl
  unfinished _ := ⟨_, rfl⟩

theorem decode_eq_ok_iff {doc : Json} {result : ExecutionResult} :
    decode.ofJson doc = .ok result ↔ IsForm doc result := by
  rw [decode, isLoaded_recordForm.decode_eq_ok_iff]
  constructor
  · rintro ⟨value, output, status, hpresents, hstatus, rfl⟩
    exact ⟨value, hpresents, Status.decode_eq_ok_iff.mp hstatus⟩
  · rintro ⟨value, hpresents, hstatus⟩
    exact ⟨value, result.output, result.status, hpresents, Status.decode_eq_ok_iff.mpr hstatus, rfl⟩

end ExecutionResult

/-- Whether what is written of a value is read as that value, from a slice as well, whatever form the value
was read from. -/
structure ReadsBack {α : Type} (toJson : α → Json) (decode : Decoder α) (isForm : Json → α → Prop) :
    Prop where
  stored : ∀ (slice : Slice) (key : String) (value : α),
    (slice.insert key (toJson value)).getAs? decode key = .ok (some value) ∧
      (slice.insert key (toJson value)).require decode key = .ok value
  injective : Function.Injective toJson
  accepts : ∀ (doc : Json) (value : α), decode.ofJson doc = .ok value ↔ isForm doc value
  rewritten : ∀ (doc : Json) (value : α), decode.ofJson doc = .ok value →
    decode.ofJson (toJson value) = .ok value ∧ isForm (toJson value) value

theorem readsBack_of_decode_toJson {α : Type} {toJson : α → Json} {decode : Decoder α}
    {isForm : Json → α → Prop} (hdecode : ∀ value, decode.ofJson (toJson value) = .ok value)
    (hnull : ∀ value, (toJson value).isNull = false)
    (haccepts : ∀ doc value, decode.ofJson doc = .ok value ↔ isForm doc value) :
    ReadsBack toJson decode isForm where
  stored slice key value := by
    have hget : (slice.insert key (toJson value)).get? key = some (toJson value) :=
      slice.entries.get?_insert_self key (toJson value)
    exact ⟨Slice.getAs?_of_present hget (hnull value) (hdecode value),
      Slice.require_of_present hget (hnull value) (hdecode value)⟩
  injective first second heq := by
    have hfirst := hdecode first
    rw [heq, hdecode] at hfirst
    exact (Except.ok.inj hfirst).symm
  accepts := haccepts
  rewritten _ value _ := ⟨hdecode value, (haccepts _ value).mp (hdecode value)⟩

/-- A state or a result that is put into a slice is found there again, with its payload, none being told
apart from null. Either is read from exactly its forms, and what is written of what was read from one of
them is read as the same. -/
theorem readsBack_state_and_result :
    ReadsBack ExecutionState.toJson ExecutionState.decode ExecutionState.IsForm ∧
      ReadsBack ExecutionResult.toJson ExecutionResult.decode ExecutionResult.IsForm :=
  ⟨readsBack_of_decode_toJson ExecutionState.decode_toJson ExecutionState.isNull_toJson
      fun _ _ => ExecutionState.decode_eq_ok_iff,
    readsBack_of_decode_toJson ExecutionResult.decode_toJson ExecutionResult.isNull_toJson
      fun _ _ => ExecutionResult.decode_eq_ok_iff⟩

/-- A state from an array, with a payload that is null and with none, and a result from an object with a
member too many and its status in object form. -/
theorem readsBack_state_and_result_late :
    (ExecutionState.decode.ofJson (.array [.text "Carry", .null]) =
        .ok { name := "Carry", data := some .null } ∧
      ExecutionState.decode.ofJson (.array [.text "Carry"]) = .ok { name := "Carry", data := none } ∧
        ({ name := "Carry", data := some .null } : ExecutionState).toJson ≠
          ({ name := "Carry", data := none } : ExecutionState).toJson) ∧
      ExecutionResult.decode.ofJson
          (.record [("Status", .record [("TIMED_OUT", .null)]), ("Since", .text "noon")]) =
        .ok { status := .timedOut, output := none } ∧
      ExecutionResult.decode.ofJson
          ({ status := .timedOut, output := none } : ExecutionResult).toJson =
        .ok { status := .timedOut, output := none } := by
  obtain ⟨hstate, hresult⟩ := readsBack_state_and_result
  have hform : ExecutionResult.IsForm
      (.record [("Status", .record [("TIMED_OUT", .null)]), ("Since", .text "noon")])
      { status := .timedOut, output := none } := ⟨_, .object rfl, .member .timedOut⟩
  have hlate := (hresult.accepts _ _).mpr hform
  refine ⟨⟨(hstate.accepts _ _).mpr (.both _ _), (hstate.accepts _ _).mpr (.alone _), fun heq => ?_⟩,
    hlate, (hresult.rewritten _ _ hlate).1⟩
  cases hstate.injective heq

end Workflow
