import Workflow.Proofs.Decode.Fields

/-!
# What is decoded

An attempt is described by the condition under which it succeeds and by the value that it then has.
With one law for each way to put decoders together, a decoder comes with the values that it accepts and
with what it takes them for.
-/

namespace Workflow

/-- The attempt succeeds if and only if the condition holds, and then with this value. -/
def YieldsIff {α : Type} (attempt : Except DecodeError α) (holds : Prop) (value : α) : Prop :=
  ∀ result, attempt = .ok result ↔ holds ∧ value = result

namespace YieldsIff

variable {α β ι : Type} {attempt other : Except DecodeError α} {next : α → Except DecodeError β}
  {p q : Prop} {value value' : α} {result : β}

theorem ok (value : α) : YieldsIff (.ok value) True value := by
  intro result
  rw [true_and, Except.ok.injEq]

theorem error (h : ¬ p) (error : DecodeError) (value : α) : YieldsIff (.error error) p value :=
  fun _ => ⟨fun heq => (nomatch heq), fun hp => absurd hp.1 h⟩

theorem congr (h : YieldsIff attempt p value) (hiff : p ↔ q) (hvalue : q → value = value') :
    YieldsIff attempt q value' := by
  intro result
  rw [h result, hiff]
  exact and_congr_right fun hq => by rw [hvalue hq]

theorem of_concur (h : YieldsIff other p value) (hconcur : Concur (· = ·) attempt other) :
    YieldsIff attempt p value := by
  intro result
  rw [hconcur.eq_ok_iff]
  exact h result

theorem bind (h : YieldsIff attempt p value) (hnext : p → YieldsIff (next value) q result) :
    YieldsIff (attempt >>= next) (p ∧ q) result := by
  intro last
  constructor
  · intro hlast
    obtain ⟨between, hfirst, hsecond⟩ := ok_of_bind hlast
    obtain ⟨hp, rfl⟩ := (h between).mp hfirst
    obtain ⟨hq, heq⟩ := (hnext hp last).mp hsecond
    exact ⟨⟨hp, hq⟩, heq⟩
  · rintro ⟨⟨hp, hq⟩, rfl⟩
    rw [(h value).mpr ⟨hp, rfl⟩]
    exact (hnext hp result).mpr ⟨hq, rfl⟩

theorem map (h : YieldsIff attempt p value) (f : α → β) : YieldsIff (attempt.map f) p (f value) := by
  intro result
  constructor
  · intro hresult
    obtain ⟨between, hfirst, rfl⟩ := ok_of_map hresult
    obtain ⟨hp, rfl⟩ := (h between).mp hfirst
    exact ⟨hp, rfl⟩
  · rintro ⟨hp, rfl⟩
    rw [(h value).mpr ⟨hp, rfl⟩]
    rfl

theorem exists_iff (h : YieldsIff attempt p value) : (∃ result, attempt = .ok result) ↔ p :=
  ⟨fun ⟨result, heq⟩ => ((h result).mp heq).1, fun hp => ⟨value, (h value).mpr ⟨hp, rfl⟩⟩⟩

theorem exists_error (h : YieldsIff attempt p value) (hnot : ¬ p) : ∃ error, attempt = .error error := by
  cases hattempt : attempt with
  | error error => exact ⟨error, rfl⟩
  | ok result => exact absurd (h.exists_iff.mp ⟨result, hattempt⟩) hnot

theorem mapM {f : ι → Except DecodeError α} {holds : ι → Prop} {told : ι → α} {xs : List ι}
    (h : ∀ x ∈ xs, YieldsIff (f x) (holds x) (told x)) :
    YieldsIff (xs.mapM f) (∀ x ∈ xs, holds x) (xs.map told) := by
  induction xs with
  | nil => exact (ok []).congr (by simp) fun _ => rfl
  | cons x xs ih =>
      rw [List.mapM_cons]
      have hrest := ih fun y hmem => h y (List.mem_cons_of_mem x hmem)
      have hcons : YieldsIff (f x >>= fun y => xs.mapM f >>= fun ys => pure (y :: ys))
          (holds x ∧ (∀ y ∈ xs, holds y) ∧ True) (told x :: xs.map told) :=
        (h x List.mem_cons_self).bind fun _ => hrest.bind fun _ => ok _
      exact hcons.congr (by simp) fun _ => rfl

section Fold

variable {σ : Type} {step : σ → ι → Except DecodeError σ} {state after last : σ} {x : ι} {xs : List ι}

theorem foldlM_nil : YieldsIff (([] : List ι).foldlM step state) True state :=
  ok state

theorem foldlM_cons (h : YieldsIff (step state x) p after)
    (hrest : YieldsIff (xs.foldlM step after) q last) :
    YieldsIff ((x :: xs).foldlM step state) (p ∧ q) last := by
  rw [List.foldlM_cons]
  exact h.bind fun _ => hrest

end Fold

end YieldsIff

theorem need_yieldsIff {α : Type} (name : String) (value : Option α) (default : α) :
    YieldsIff (need name value) (value.isSome = true) (value.getD default) := by
  cases value with
  | none => exact .error (by simp) _ _
  | some value => exact (YieldsIff.ok value).congr (by simp) fun _ => rfl

namespace Json

variable {α : Type}

/-- The text that a value is; empty if it is none. -/
def asText : Json → String
  | ⟨.text value, _⟩ => value
  | _ => ""

/-- The truth value that a value is; false if it is none. -/
def asBool : Json → Bool
  | ⟨.bool value, _⟩ => value
  | _ => false

/-- The word that a value is; zero if it is none. -/
def asWord64 : Json → UInt64
  | ⟨.number (.integer value _ _), _⟩ => value.toNat.toUInt64
  | _ => 0

/-- The items of a value, each taken for something; none if it is no array. -/
def asList (told : Json → α) (value : Json) : List α :=
  (value.items?.getD []).map told

/-- The members of a value, each taken for something; none if it is no object. -/
def asDict (told : Json → α) (value : Json) : Dict α :=
  (value.members?.getD .empty).map told

/-- Null is taken for nothing. -/
def asOption (told : Json → α) (value : Json) : Option α :=
  if value = .null then none else some (told value)

def IsText (value : Json) : Prop :=
  ∃ text, value = .text text

def IsBool (value : Json) : Prop :=
  ∃ truth, value = .bool truth

/-- An integer from 0 to 2^64 - 1. -/
def IsWord64 (value : Json) : Prop :=
  ∃ n h, value = .ofNat n h

def IsArrayOf (p : Json → Prop) (value : Json) : Prop :=
  ∃ items, value = .array items ∧ ∀ item ∈ items, p item

def IsObjectOf (p : Json → Prop) (value : Json) : Prop :=
  ∃ members, value = .object members ∧ ∀ entry ∈ members.entries, p entry.2

def IsNullOr (p : Json → Prop) (value : Json) : Prop :=
  value = .null ∨ p value

/-- If it is an array, of such items. -/
def ForItems (p : Json → Prop) (value : Json) : Prop :=
  ∀ items, value = .array items → ∀ item ∈ items, p item

/-- If it is an object, of such members. -/
def ForMembers (p : Json → Prop) (value : Json) : Prop :=
  ∀ members, value = .object members → ∀ entry ∈ members.entries, p entry.2

def IsNoArray (value : Json) : Prop :=
  ∀ items, value ≠ .array items

theorem isObjectOf_record {p : Json → Prop} {entries : List (String × Json)}
    (h : ∀ entry ∈ entries, p entry.2) : (record entries).IsObjectOf p :=
  ⟨_, rfl, fun entry hentry => h entry (Dict.mem_of_mem_ofList hentry)⟩

theorem forMembers_record {p : Json → Prop} {entries : List (String × Json)}
    (h : ∀ entry ∈ entries, p entry.2) : (record entries).ForMembers p := by
  intro members heq entry hentry
  rw [← object_injective heq] at hentry
  exact h entry (Dict.mem_of_mem_ofList hentry)

theorem forItems_array {p : Json → Prop} {items : List Json} (h : ∀ item ∈ items, p item) :
    (array items).ForItems p := by
  intro others heq item hitem
  rw [← array_injective heq] at hitem
  exact h item hitem

theorem isNoArray_object (members : Dict Json) : (object members).IsNoArray :=
  fun _ heq => (nomatch congrArg Json.tree heq)

theorem eq_null_of_node {value : Json} (h : value.node = .null) : value = .null := by
  obtain ⟨tree, canonical⟩ := value
  cases tree with
  | null => rfl
  | bool | number | text | array | object => cases h

end Json

namespace Decoder

open Json

variable {α : Type} {decode : Decoder α} {p : Json → Prop} {told : Json → α}

theorem text_yieldsIff (value : Json) : YieldsIff (text.ofJson value) value.IsText value.asText := by
  induction value using Json.induction with
  | text value => exact (YieldsIff.ok value).congr ⟨fun _ => ⟨value, rfl⟩, fun _ => trivial⟩ fun _ => rfl
  | null | bool | number | array | object =>
      refine .error ?_ _ _
      rintro ⟨text, htext⟩
      cases congrArg Json.tree htext

theorem bool_yieldsIff (value : Json) : YieldsIff (bool.ofJson value) value.IsBool value.asBool := by
  induction value using Json.induction with
  | bool value => exact (YieldsIff.ok value).congr ⟨fun _ => ⟨value, rfl⟩, fun _ => trivial⟩ fun _ => rfl
  | null | text | number | array | object =>
      refine .error ?_ _ _
      rintro ⟨truth, htruth⟩
      cases congrArg Json.tree htruth

theorem word64_yieldsIff (value : Json) :
    YieldsIff (word64.ofJson value) value.IsWord64 value.asWord64 := by
  induction value using Json.induction with
  | number value =>
      cases value with
      | double value =>
          refine .error ?_ _ _
          rintro ⟨n, h, hn⟩
          cases congrArg Json.tree hn
      | integer n low high =>
          have hsize : ∀ m : Nat, m < UInt64.size ↔ (m : Int) < 0x10000000000000000 := by
            intro m
            change m < 0x10000000000000000 ↔ _
            omega
          change YieldsIff ((if 0 ≤ n ∧ n < UInt64.size then Except.ok n.toNat else _).map _) _ _
          split
          · rename_i hrange
            refine (YieldsIff.ok n.toNat.toUInt64).congr ⟨fun _ => ?_, fun _ => trivial⟩ fun _ => rfl
            obtain ⟨m, rfl⟩ := Int.eq_ofNat_of_zero_le hrange.1
            exact ⟨m, (hsize m).mpr high, rfl⟩
          · rename_i hrange
            refine .error ?_ _ _
            rintro ⟨m, hm, heq⟩
            cases congrArg Json.tree heq
            exact hrange ⟨Int.natCast_nonneg m, (hsize m).mp hm⟩
  | null | text | bool | array | object =>
      refine .error ?_ _ _
      rintro ⟨n, h, hn⟩
      cases congrArg Json.tree hn

theorem word32_eq_ok_iff {json : Json} {version : UInt32} :
    word32.ofJson json = .ok version ↔ json = .ofUInt32 version := by
  refine ⟨fun h => ?_, fun h => h ▸ word32_ofJson version⟩
  induction json using Json.induction with
  | number value =>
      cases value with
      | double value => cases h
      | integer n low high =>
          change (if 0 ≤ n ∧ n < UInt32.size then Except.ok n.toNat else _).map _ = _ at h
          split at h
          · rename_i hrange
            obtain ⟨m, rfl⟩ := Int.eq_ofNat_of_zero_le hrange.1
            have hm : m < UInt32.size := by exact_mod_cast hrange.2
            obtain rfl : m.toUInt32 = version := Except.ok.inj h
            have hword : m.toUInt32.toNat = m := UInt32.toNat_ofNat_of_lt hm
            unfold Json.ofUInt32
            simp only [hword]
            rfl
          · cases h
  | null | text | bool | array | object => cases h

theorem variant_yieldsIff (known : List (String × α)) (listed : List String) (default : α)
    (value : Json) :
    YieldsIff ((variant known listed).ofJson value) (∃ entry ∈ known, value = .text entry.1)
      ((known.lookup value.asText).getD default) := by
  induction value using Json.induction with
  | text name =>
      have hnode : (Json.text name).node = .text (.ok name) := rfl
      have hname : (Json.text name).asText = name := rfl
      unfold ofJson variant
      simp only [hnode, hname]
      cases hlookup : known.lookup name with
      | some value =>
          refine (YieldsIff.ok value).congr ⟨fun _ => ?_, fun _ => trivial⟩ fun _ => rfl
          exact ⟨(name, value), Dict.mem_of_lookup_eq_some hlookup, rfl⟩
      | none =>
          refine .error ?_ _ _
          rintro ⟨entry, hentry, heq⟩
          cases congrArg Json.tree heq
          simpa using List.lookup_eq_none_iff.mp hlookup entry hentry
  | null | bool | number | array | object =>
      refine .error ?_ _ _
      rintro ⟨entry, -, heq⟩
      cases congrArg Json.tree heq

theorem optional_yieldsIff {holds : Prop} {value : Json} {result : α}
    (h : YieldsIff (decode.ofJson value) holds result) :
    YieldsIff (decode.optional.ofJson value) (value = .null ∨ holds)
      (if value = .null then none else some result) := by
  by_cases hnull : value = .null
  · subst hnull
    exact (YieldsIff.ok none).congr (by simp) fun _ => rfl
  · have hsome : decode.optional.ofJson value = (decode.ofJson value).map some := by
      unfold ofJson optional
      split
      · rename_i hnode
        exact absurd (eq_null_of_node hnode) hnull
      · rfl
    rw [hsome, if_neg hnull]
    exact (h.map some).congr (by simp [hnull]) fun _ => rfl

theorem list_yieldsIff {value : Json}
    (h : value.ForItems fun item => YieldsIff (decode.ofJson item) (p item) (told item)) :
    YieldsIff (decode.list.ofJson value) (value.IsArrayOf p) (value.asList told) := by
  induction value using Json.induction with
  | array items =>
      have hitems := YieldsIff.mapM (h items rfl)
      have hlist : decode.list.ofJson (.array items) = items.mapM decode.ofJson := by
        unfold ofJson
        rw [node_array, list_array rfl rfl, List.mapM_map]
        rfl
      rw [hlist]
      refine hitems.congr ⟨fun hall => ⟨items, rfl, hall⟩, ?_⟩ fun _ => ?_
      · rintro ⟨others, heq, hall⟩
        rwa [array_injective heq]
      · rw [asList, items?_array]
        rfl
  | null | text | bool | number | object =>
      refine .error ?_ _ _
      rintro ⟨items, hitems, _⟩
      cases congrArg Json.tree hitems

theorem foldlM_addEntry_yieldsIff {entries : List (String × Json)}
    (h : ∀ entry ∈ entries, YieldsIff (decode.ofJson entry.2) (p entry.2) (told entry.2))
    (dict : Dict α) :
    YieldsIff ((entries.map memberNode).foldlM (addEntry decode .value) dict)
      (∀ entry ∈ entries, p entry.2)
      (entries.foldl (fun dict entry => dict.insert entry.1 (told entry.2)) dict) := by
  induction entries generalizing dict with
  | nil => exact YieldsIff.foldlM_nil.congr (by simp) fun _ => rfl
  | cons entry rest ih =>
      have hrest := ih fun other hmem => h other (List.mem_cons_of_mem _ hmem)
      have hhead := (h entry List.mem_cons_self).map (dict.insert entry.1)
      rw [List.map_cons, List.foldl_cons]
      exact (YieldsIff.foldlM_cons hhead (hrest _)).congr List.forall_mem_cons.symm fun _ => rfl

theorem dict_yieldsIff {value : Json}
    (h : value.ForMembers fun member => YieldsIff (decode.ofJson member) (p member) (told member)) :
    YieldsIff (decode.dict.ofJson value) (value.IsObjectOf p) (value.asDict told) := by
  induction value using Json.induction with
  | object members =>
      have hdict : decode.dict.ofJson (.object members) =
          (members.entries.map memberNode).foldlM (addEntry decode .value) .empty := by
        unfold ofJson
        rw [node_object, dict_object rfl rfl, entries_eq_foldlM]
        rfl
      have htold : members.entries.foldl (fun dict entry => dict.insert entry.1 (told entry.2)) .empty =
          members.map told := by
        rw [← Dict.ofList_entries (members.map told), Dict.ofList]
        change _ = List.foldl _ _ (members.entries.map fun entry => (entry.1, told entry.2))
        rw [List.foldl_map]
      rw [hdict]
      refine (foldlM_addEntry_yieldsIff (h members rfl) .empty).congr
        ⟨fun hall => ⟨members, rfl, hall⟩, ?_⟩ fun _ => ?_
      · rintro ⟨others, heq, hall⟩
        rwa [object_injective heq]
      · rw [asDict, members?_object, htold]
        rfl
  | null | text | bool | number | array =>
      refine .error ?_ _ _
      rintro ⟨members, hmembers, _⟩
      cases congrArg Json.tree hmembers

end Decoder

section Members

namespace Json

variable {α : Type} {doc : Json} {name : String} {p : Json → Prop}

/-- The member of an object that has this name. -/
def at? (doc : Json) (name : String) : Option Json :=
  doc.members?.bind (·.get? name)

def Has (doc : Json) (name : String) (p : Json → Prop) : Prop :=
  ∃ value, doc.at? name = some value ∧ p value

def MayHave (doc : Json) (name : String) (p : Json → Prop) : Prop :=
  ∀ value, doc.at? name = some value → p value

/-- What the member of this name is taken for, with a default where there is none. -/
def told (doc : Json) (name : String) (as : Json → α) (default : α) : α :=
  ((doc.at? name).map as).getD default

/-- What the member of this name is taken for, if there is one and it is not null. -/
def told? (doc : Json) (name : String) (as : Json → α) : Option α :=
  ((doc.at? name).map (asOption as)).join

@[simp]
theorem at?_object (members : Dict Json) (name : String) :
    (object members).at? name = members.get? name := by
  rw [at?, members?_object, Option.bind_some]

theorem told_of_at? {as : Json → α} {default : α} {value : Json} (h : doc.at? name = some value) :
    doc.told name as default = as value := by
  rw [told, h, Option.map_some, Option.getD_some]

theorem Has.exists_object (h : doc.Has name p) : ∃ members, doc = .object members := by
  obtain ⟨value, hvalue, -⟩ := h
  induction doc using Json.induction with
  | object members => exact ⟨members, rfl⟩
  | null | bool | number | text | array => cases hvalue

theorem has_iff {as : Json → α} :
    doc.Has name p ↔ doc.MayHave name p ∧ ((doc.at? name).map as).isSome = true := by
  unfold Has MayHave
  cases doc.at? name <;> simp

theorem told?_eq_some_iff {as : Json → α} {result : α} :
    doc.told? name as = some result ↔
      ∃ value, doc.at? name = some value ∧ value ≠ .null ∧ as value = result := by
  unfold told? asOption
  cases doc.at? name with
  | none => simp
  | some value => by_cases hnull : value = .null <;> simp [hnull]

/-- A member that may be null is there for a reader if it is what it may be otherwise. -/
theorem isSome_told?_iff {as : Json → α} (hmay : doc.MayHave name (IsNullOr p)) (hnull : ¬ p .null) :
    (doc.told? name as).isSome = true ↔ doc.Has name p := by
  rw [Option.isSome_iff_exists]
  simp only [told?_eq_some_iff]
  constructor
  · rintro ⟨_, value, hvalue, hne, -⟩
    exact ⟨value, hvalue, (hmay value hvalue).resolve_left hne⟩
  · rintro ⟨value, hvalue, hp⟩
    exact ⟨_, value, hvalue, fun heq => hnull (heq ▸ hp), rfl⟩

theorem told?_asBool_iff : doc.told? name asBool = some true ↔ doc.Has name (· = .bool true) := by
  rw [told?_eq_some_iff]
  refine exists_congr fun value => and_congr_right fun _ => ?_
  induction value using Json.induction with
  | bool truth =>
      constructor
      · rintro ⟨-, htruth⟩
        exact congrArg Json.bool htruth
      · intro heq
        rw [heq]
        exact ⟨fun hnull => (nomatch congrArg Json.tree hnull), rfl⟩
  | null | text | number | array | object =>
      constructor
      · rintro ⟨-, htruth⟩
        cases htruth
      · intro heq
        cases congrArg Json.tree heq

end Json

open Json

section Entries

variable {δ α : Type} {name : String} {decode : Decoder α} {p : Json → Prop} {as : Json → α}
  {members : Dict Json} {draft : δ}

/-- A field takes its member for what its decoder takes it for. -/
theorem Field.enter_yieldsIff {field : Field δ} {set : δ → Option α → δ} (hset : set draft none = draft)
    (hfill : ∀ value : Json, field.fill draft .value value.node =
      (decode.ofJson value).map fun value => set draft (some value))
    (h : ∀ value, members.get? field.name = some value →
      YieldsIff (decode.ofJson value) (p value) (as value)) :
    YieldsIff (Field.enter members draft field) ((Json.object members).MayHave field.name p)
      (set draft (((Json.object members).at? field.name).map as)) := by
  unfold Field.enter MayHave
  rw [at?_object]
  cases hget : members.get? field.name with
  | none =>
      rw [Option.map_none, hset]
      exact (YieldsIff.ok draft).congr (by simp) fun _ => rfl
  | some value =>
      have hfilled := (h value hget).map fun value => set draft (some value)
      rw [← hfill] at hfilled
      exact hfilled.congr (by simp) fun _ => rfl

theorem Field.required_yieldsIff {get : δ → Option α} {set : δ → Option α → δ}
    (hset : set draft none = draft)
    (h : ∀ value, members.get? name = some value →
      YieldsIff (decode.ofJson value) (p value) (as value)) :
    YieldsIff (Field.enter members draft (.required name get set decode))
      ((Json.object members).MayHave name p) (set draft (((Json.object members).at? name).map as)) :=
  Field.enter_yieldsIff hset (fun _ => rfl) h

theorem Field.defaulted_yieldsIff {get : δ → Option α} {set : δ → Option α → δ}
    (hset : set draft none = draft)
    (h : ∀ value, members.get? name = some value →
      YieldsIff (decode.ofJson value) (p value) (as value)) :
    YieldsIff (Field.enter members draft (.defaulted name get set decode))
      ((Json.object members).MayHave name p) (set draft (((Json.object members).at? name).map as)) :=
  Field.enter_yieldsIff hset (fun _ => rfl) h

/-- A field that may be null takes null for nothing. -/
theorem Field.nullable_yieldsIff {get : δ → Option (Option α)} {set : δ → Option (Option α) → δ}
    (hset : set draft none = draft)
    (h : ∀ value, members.get? name = some value →
      YieldsIff (decode.ofJson value) (p value) (as value)) :
    YieldsIff (Field.enter members draft (.defaulted name get set (.optional decode)))
      ((Json.object members).MayHave name (IsNullOr p))
      (set draft (((Json.object members).at? name).map (asOption as))) :=
  Field.defaulted_yieldsIff hset fun value hget => Decoder.optional_yieldsIff (h value hget)

theorem Decoder.entry_yieldsIff (default : α)
    (h : ∀ value, members.get? name = some value →
      YieldsIff (decode.ofJson value) (p value) (as value)) :
    YieldsIff (decode.entry members name) ((Json.object members).Has name p)
      ((Json.object members).told name as default) := by
  unfold entry Has told
  rw [at?_object]
  cases hget : members.get? name with
  | none => exact .error (by simp) _ _
  | some value => exact (h value hget).congr (by simp) fun _ => rfl

end Entries

section Records

variable {δ α : Type} {record : Record δ α} {holds : Prop} {result : α}

/-- A record is read from an object if its fields are and the draft has all it needs. -/
theorem Record.IsSimple.object_yieldsIff (h : record.IsSimple) {members : Dict Json} {draft : δ}
    {fields : Prop}
    (hfields : YieldsIff (record.fields.foldlM (Field.enter members) record.blank) fields draft)
    (hfinish : YieldsIff (record.finish draft) holds result) :
    YieldsIff (record.decode.ofJson (.object members)) (fields ∧ holds) result :=
  (hfields.bind fun _ => hfinish).of_concur (h.ofJson_object members)

/-- Where no array can stand, a record is read from objects only. -/
theorem Record.yieldsIff_of_object {doc : Json} (hdoc : doc.IsNoArray)
    (hobject : holds → ∃ members, doc = .object members)
    (hmembers : ∀ members, doc = .object members → YieldsIff (record.decode.ofJson doc) holds result) :
    YieldsIff (record.decode.ofJson doc) holds result := by
  induction doc using Json.induction with
  | object members => exact hmembers members rfl
  | array items => exact absurd rfl (hdoc items)
  | null | bool | number | text =>
      refine .error (fun hholds => ?_) _ _
      obtain ⟨members, heq⟩ := hobject hholds
      cases congrArg Json.tree heq

end Records

end Members

end Workflow
