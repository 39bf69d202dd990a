import Mathlib.Data.List.Perm.Basic
import Mathlib.Logic.Relation
import Workflow.Proofs.Decode.Parsed
import Workflow.Proofs.Json.Document

/-!
# The layout of a text

The blanks between the tokens of a text and the order of the members of its objects do not tell what
value it holds, as long as no object repeats a key.
-/

namespace Workflow

namespace Json

/-- The same characters with other blanks between the tokens. -/
inductive Respaced : List Char → List Char → Prop
  | same (chars : List Char) : Respaced chars chars
  | drop {c : Char} {rest other : List Char} (hblank : isBlank c = true) (h : Respaced rest other) :
      Respaced (c :: rest) other
  | add {c : Char} {rest other : List Char} (hblank : isBlank c = true) (h : Respaced rest other) :
      Respaced rest (c :: other)
  | token {c : Char} {lexeme rest other : List Char} {token : Token} (hblank : isBlank c = false)
      (hfirst : Token.first c (lexeme ++ rest) = (token, some rest))
      (hother : Token.first c (lexeme ++ other) = (token, some other)) (h : Respaced rest other) :
      Respaced (c :: (lexeme ++ rest)) (c :: (lexeme ++ other))

theorem tokens_blank {c : Char} (hblank : isBlank c = true) (rest : List Char) :
    tokens (c :: rest) = tokens rest := by
  rw [tokens, if_pos hblank]

theorem Respaced.tokens_eq {chars other : List Char} (h : Respaced chars other) :
    tokens chars = tokens other := by
  induction h with
  | same => rfl
  | drop hblank _ ih => rw [tokens_blank hblank, ih]
  | add hblank _ ih => rw [tokens_blank hblank, ih]
  | token hblank hfirst hother _ ih => rw [tokens_cons hblank hfirst, tokens_cons hblank hother, ih]

namespace Node

/-- One object of the node has its members in another order. -/
inductive Reorder : Node → Node → Prop
  | members {members others : List (Key × Node)} (ending : ObjectEnd) (h : members.Perm others) :
      Reorder (.object members ending) (.object others ending)
  | item (before after : List Node) (ending : ArrayEnd) {item other : Node} (h : Reorder item other) :
      Reorder (.array (before ++ item :: after) ending) (.array (before ++ other :: after) ending)
  | member (before after : List (Key × Node)) (key : Key) (ending : ObjectEnd) {node other : Node}
      (h : Reorder node other) :
      Reorder (.object (before ++ (key, node) :: after) ending)
        (.object (before ++ (key, other) :: after) ending)

variable {node other : Node}

theorem Reorder.distinctKeys (h : node.Reorder other) (hkeys : node.DistinctKeys) :
    other.DistinctKeys := by
  induction h with
  | members ending hperm =>
      exact .object ((hperm.map _).nodup_iff.mp hkeys.keys) fun member hmem =>
        hkeys.members member (hperm.mem_iff.mpr hmem)
  | item before after ending _ ih =>
      have hitems := hkeys.items
      rw [List.forall_mem_append, List.forall_mem_cons] at hitems
      obtain ⟨hbefore, hitem, hafter⟩ := hitems
      exact .array (List.forall_mem_append.mpr
        ⟨hbefore, List.forall_mem_cons.mpr ⟨ih hitem, hafter⟩⟩)
  | member before after key ending _ ih =>
      have hmembers := hkeys.members
      rw [List.forall_mem_append, List.forall_mem_cons] at hmembers
      obtain ⟨hbefore, hmember, hafter⟩ := hmembers
      have hnames := hkeys.keys
      rw [List.map_append, List.map_cons] at hnames
      refine .object ?_ (List.forall_mem_append.mpr
        ⟨hbefore, List.forall_mem_cons.mpr ⟨ih hmember, hafter⟩⟩)
      rwa [List.map_append, List.map_cons]

theorem forall₂_middle {α β : Type} {R : α → β → Prop} {before after : List α} {x y : α}
    {values : List β} (h : ∀ value, R x value → R y value)
    (hvalues : List.Forall₂ R (before ++ x :: after) values) :
    List.Forall₂ R (before ++ y :: after) values := by
  induction before generalizing values with
  | nil =>
      cases hvalues with
      | cons hvalue hrest => exact .cons (h _ hvalue) hrest
  | cons head rest ih =>
      cases hvalues with
      | cons hvalue hrest => exact .cons hvalue (ih hrest)

theorem Reorder.toJson (h : node.Reorder other) (hkeys : node.DistinctKeys) {origin : Origin}
    {value : Json} (hvalue : node.toJson origin = .ok value) : other.toJson origin = .ok value := by
  induction h generalizing origin value with
  | members ending hperm =>
      obtain ⟨inner, entries, henter, hentries, hending, rfl⟩ := toJson_object_eq_ok_iff.mp hvalue
      obtain ⟨others, hothers, hsame⟩ := List.perm_comp_forall₂ hperm.symm hentries
      have hnodup := nodup_of_gives hentries hkeys.keys
      exact toJson_object_eq_ok_iff.mpr ⟨inner, others, henter, hothers, hending,
        congrArg Json.object (Dict.ofList_of_perm hsame.symm hnodup).symm⟩
  | item before after ending _ ih =>
      obtain ⟨inner, values, henter, hvalues, hending, heq⟩ := toJson_array_eq_ok_iff.mp hvalue
      have hitem := hkeys.items _ (List.mem_append_right before List.mem_cons_self)
      exact toJson_array_eq_ok_iff.mpr
        ⟨inner, values, henter, forall₂_middle (fun _ => ih hitem) hvalues, hending, heq⟩
  | @member before after key ending node other _ ih =>
      obtain ⟨inner, entries, henter, hentries, hending, heq⟩ := toJson_object_eq_ok_iff.mp hvalue
      have hmember := hkeys.members _ (List.mem_append_right before List.mem_cons_self)
      have hgives : ∀ entry, Gives inner (key, node) entry → Gives inner (key, other) entry :=
        fun _ h => ⟨h.key, ih hmember h.value⟩
      exact toJson_object_eq_ok_iff.mpr
        ⟨inner, entries, henter, forall₂_middle hgives hentries, hending, heq⟩

end Node

end Json

namespace Decoder

variable {α : Type} {decode : Decoder α} {text : String}

theorem ofText_of_ended (h : (Json.Document.ofText text).trailing = false) :
    decode.ofText text = decode (.text depthLimit) (Json.Document.ofText text).node := by
  change (decode (.text depthLimit) (Json.Document.ofText text).node >>= fun value =>
    if (Json.Document.ofText text).trailing then _ else pure value) = _
  rw [h]
  exact bind_pure (m := Except DecodeError) _

theorem ended_of_ofText {value : α} (h : decode.ofText text = .ok value) :
    (Json.Document.ofText text).trailing = false := by
  obtain ⟨read, -, hread⟩ := ok_of_bind h
  cases htrailing : (Json.Document.ofText text).trailing with
  | true =>
      rw [htrailing] at hread
      cases hread
  | false => rfl

end Decoder

namespace Json

/-- The text holds the value and repeats no key in any of its objects. -/
structure Holds (text : String) (value : Json) : Prop where
  read : Decoder.json.ofText text = .ok value
  keys : (Document.ofText text).node.DistinctKeys

/-- One text with other blanks between its tokens, or with the members of one object in another
order. -/
inductive Relaid : String → String → Prop
  | blanks {text other : String} (h : Respaced text.toList other.toList) : Relaid text other
  | members {text other : String}
      (h : (Document.ofText text).node.Reorder (Document.ofText other).node)
      (hended : (Document.ofText other).trailing = (Document.ofText text).trailing) :
      Relaid text other

section Holds

variable {text other : String} {value : Json}

theorem Holds.toJson (h : Holds text value) :
    (Document.ofText text).node.toJson (.text depthLimit) = .ok value := by
  rw [← h.read, Decoder.ofText_of_ended (Decoder.ended_of_ofText h.read)]
  rfl

theorem Holds.relaid (h : Holds text value) (hrelaid : Relaid text other) : Holds other value := by
  cases hrelaid with
  | blanks hspaced =>
      have hdocument : Document.ofText other = Document.ofText text :=
        congrArg Document.ofTokens hspaced.tokens_eq.symm
      exact ⟨by rw [← h.read, Decoder.ofText, Decoder.ofText, hdocument], hdocument ▸ h.keys⟩
  | members horder hended =>
      refine ⟨?_, horder.distinctKeys h.keys⟩
      rw [Decoder.ofText_of_ended (hended.trans (Decoder.ended_of_ofText h.read))]
      exact horder.toJson h.keys h.toJson

theorem Holds.layouts (h : Holds text value) (hrelaid : Relation.ReflTransGen Relaid text other) :
    Holds other value := by
  induction hrelaid with
  | refl => exact h
  | tail _ hstep ih => exact ih.relaid hstep

end Holds

end Json

end Workflow
