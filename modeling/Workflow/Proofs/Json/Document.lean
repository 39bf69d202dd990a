import Workflow.Json.Document
import Workflow.Proofs.Json.Literal
import Workflow.Proofs.Json.Numeral

/-!
# Reading written values

The text of a value whose numbers are all integers is cut into the value's tokens, and the tokens of a
value are read as the value, with no fault and nothing left over. Neither depends on how deep the
value is.
-/

namespace Workflow.Json

namespace Tree

mutual

/-- Whether all numbers in the tree are integers. -/
def isIntegral : Tree → Bool
  | .number (.double _) => false
  | .array items => areIntegral items
  | .object members => membersIntegral members
  | .null | .bool _ | .number (.integer _ _ _) | .text _ => true

def areIntegral : List Tree → Bool
  | [] => true
  | item :: rest => item.isIntegral && areIntegral rest

def membersIntegral : List (String × Tree) → Bool
  | [] => true
  | (_, value) :: rest => value.isIntegral && membersIntegral rest

end

mutual

/-- The tokens that a tree is written in. -/
def tokens : Tree → List Token
  | .null => [.null]
  | .bool value => [.bool value]
  | .number value => [.number (.ok value)]
  | .text value => [.text (.ok value)]
  | .array [] => [.openArray, .closeArray]
  | .array (item :: rest) => .openArray :: item.tokens ++ itemsTokens rest
  | .object [] => [.openObject, .closeObject]
  | .object ((key, value) :: rest) =>
    .openObject :: .text (.ok key) :: .colon :: value.tokens ++ membersTokens rest

/-- The tokens of the items after the first one. -/
def itemsTokens : List Tree → List Token
  | [] => [.closeArray]
  | item :: rest => .comma :: item.tokens ++ itemsTokens rest

/-- The tokens of the members after the first one. -/
def membersTokens : List (String × Tree) → List Token
  | [] => [.closeObject]
  | (key, value) :: rest =>
    .comma :: .text (.ok key) :: .colon :: value.tokens ++ membersTokens rest

end

end Tree

section Tokens

theorem tokens_cons {c : Char} {chars after : List Char} {token : Token}
    (hblank : isBlank c = false) (hfirst : Token.first c chars = (token, some after)) :
    tokens (c :: chars) = token :: tokens after := by
  rw [tokens, if_neg (by rw [hblank]; exact Bool.false_ne_true)]
  split
  · rename_i heq
    cases hfirst.symm.trans heq
  · rename_i heq
    cases hfirst.symm.trans heq
    rfl

theorem tokens_mark {c : Char} {token : Token} (hblank : isBlank c = false)
    (hmark : Token.ofMark? c = some token) (rest : List Char) :
    tokens (c :: rest) = token :: tokens rest := by
  apply tokens_cons hblank
  rw [Token.first, hmark]

theorem afterWord_append (word rest : List Char) : afterWord word (word ++ rest) = .ok rest := by
  induction word with
  | nil => cases rest <;> rfl
  | cons letter word ih => rw [List.cons_append, afterWord, if_pos rfl, ih]

theorem tokens_word {c : Char} {word : List Char} {token : Token} (hblank : isBlank c = false)
    (hmark : Token.ofMark? c = none) (hinitial : Token.ofInitial? c = some (token, word))
    (rest : List Char) : tokens (c :: (word ++ rest)) = token :: tokens rest := by
  apply tokens_cons hblank
  rw [Token.first, hmark, hinitial]
  simp only [afterWord_append]

theorem tokens_literalChars (text : String) (rest : List Char) :
    tokens (literalChars text ++ rest) = .text (.ok text) :: tokens rest := by
  obtain ⟨pieces, hsplit, hcontent⟩ := Literal.split_literalChars text rest
  have hchars : literalChars text ++ rest =
      '"' :: (text.toList.flatMap escapedChar ++ '"' :: rest) := by
    rw [literalChars, List.cons_append, List.cons_append, List.append_assoc]
    rfl
  rw [hchars]
  apply tokens_cons rfl
  have hmark : Token.ofMark? '"' = none := rfl
  have hinitial : Token.ofInitial? '"' = none := rfl
  rw [Token.first, hmark, hinitial]
  simp only [if_true, hsplit, hcontent]

theorem ofMark?_of_numeral {c : Char} (h : c = '-' ∨ c.isDigit = true) :
    isBlank c = false ∧ Token.ofMark? c = none ∧ Token.ofInitial? c = none ∧ c ≠ '"' := by
  have hne : ∀ other : Char, other ≠ '-' → other.isDigit = false → c ≠ other := by
    rintro other hminus hdigit rfl
    rcases h with rfl | h
    · exact hminus rfl
    · rw [hdigit] at h
      cases h
  refine ⟨?_, ?_, ?_, hne '"' (by decide) rfl⟩
  · simp only [isBlank, hne ' ' (by decide) rfl, hne '\t' (by decide) rfl, hne '\n' (by decide) rfl,
      hne '\r' (by decide) rfl, decide_false, Bool.or_self]
  · unfold Token.ofMark?
    split
    all_goals first
      | rfl
      | exact absurd rfl (hne _ (by decide) rfl)
  · unfold Token.ofInitial?
    split
    all_goals first
      | rfl
      | exact absurd rfl (hne _ (by decide) rfl)

theorem exists_integerChars_eq (n : Int) :
    ∃ c chars, integerChars n = c :: chars ∧ (c = '-' ∨ c.isDigit = true) := by
  unfold integerChars
  split
  · exact ⟨_, _, rfl, .inl rfl⟩
  · obtain ⟨c, chars, hdigits⟩ :=
      List.exists_cons_of_ne_nil (Nat.toDigits_ne_nil (n := n.natAbs) (b := 10))
    exact ⟨c, chars, hdigits, .inr (isDigit_of_mem_toDigits (hdigits ▸ List.mem_cons_self))⟩

theorem tokens_integerChars {n : Int} (low : -0x8000000000000000 ≤ n)
    (high : n < 0x10000000000000000) {rest : List Char} (h : Numeral.Ends rest) :
    tokens (integerChars n ++ rest) = .number (.ok (.integer n low high)) :: tokens rest := by
  obtain ⟨c, chars, hchars, hc⟩ := exists_integerChars_eq n
  obtain ⟨hblank, hmark, hinitial, hquote⟩ := ofMark?_of_numeral hc
  have hsplit := Numeral.split_integerChars h n
  have htoken : Token.ofNumeral (.ofInt n) = .number (.ok (.integer n low high)) := by
    rw [Token.ofNumeral, Numeral.value_ofInt low high]
    rfl
  rw [hchars, List.cons_append] at hsplit ⊢
  apply tokens_cons hblank
  rw [Token.first, hmark, hinitial]
  simp only [if_neg hquote, if_pos hc, hsplit, htoken]

theorem ends_itemsChars (items : List Tree) (rest : List Char) :
    Numeral.Ends (Tree.itemsChars items ++ rest) := by
  cases items with
  | nil => exact Numeral.ends_cons (.inr (.inl rfl))
  | cons item items => exact Numeral.ends_cons (.inl rfl)

theorem ends_membersChars (members : List (String × Tree)) (rest : List Char) :
    Numeral.Ends (Tree.membersChars members ++ rest) := by
  cases members with
  | nil => exact Numeral.ends_cons (.inr (.inr rfl))
  | cons member members => exact Numeral.ends_cons (.inl rfl)

mutual

/-- A tree is written in its tokens. -/
theorem tokens_chars : ∀ (tree : Tree) (rest : List Char), tree.isIntegral = true →
    Numeral.Ends rest → tokens (tree.chars ++ rest) = tree.tokens ++ tokens rest
  | .null, rest, _, _ => tokens_word rfl rfl rfl rest
  | .bool true, rest, _, _ => tokens_word rfl rfl rfl rest
  | .bool false, rest, _, _ => tokens_word rfl rfl rfl rest
  | .number (.integer _ low high), _, _, hends => tokens_integerChars low high hends
  | .text value, rest, _, _ => tokens_literalChars value rest
  | .array [], rest, _, _ => by
      change tokens ('[' :: ']' :: rest) = _
      rw [tokens_mark rfl rfl, tokens_mark rfl rfl]
      rfl
  | .array (item :: items), rest, h, _ => by
      obtain ⟨hitem, hitems⟩ := Bool.and_eq_true_iff.mp h
      rw [Tree.chars, List.cons_append, List.cons_append, List.append_assoc, tokens_mark rfl rfl,
        tokens_chars item _ hitem (ends_itemsChars items rest), tokens_itemsChars items rest hitems,
        Tree.tokens, List.cons_append, List.cons_append, List.append_assoc]
  | .object [], rest, _, _ => by
      change tokens ('\x7b' :: '\x7d' :: rest) = _
      rw [tokens_mark rfl rfl, tokens_mark rfl rfl]
      rfl
  | .object ((key, value) :: members), rest, h, _ => by
      obtain ⟨hvalue, hmembers⟩ := Bool.and_eq_true_iff.mp h
      have hchars : (Tree.object ((key, value) :: members)).chars ++ rest =
          '\x7b' :: (literalChars key ++ ':' :: (value.chars ++ (Tree.membersChars members ++ rest))) := by
        simp only [Tree.chars, List.cons_append, List.append_assoc]
      rw [hchars, tokens_mark rfl rfl, tokens_literalChars, tokens_mark rfl rfl,
        tokens_chars value _ hvalue (ends_membersChars members rest),
        tokens_membersChars members rest hmembers, Tree.tokens]
      simp only [List.cons_append, List.append_assoc]

theorem tokens_itemsChars : ∀ (items : List Tree) (rest : List Char),
    Tree.areIntegral items = true →
    tokens (Tree.itemsChars items ++ rest) = Tree.itemsTokens items ++ tokens rest
  | [], rest, _ => tokens_mark rfl rfl rest
  | item :: items, rest, h => by
      obtain ⟨hitem, hitems⟩ := Bool.and_eq_true_iff.mp h
      rw [Tree.itemsChars, List.cons_append, List.cons_append, List.append_assoc,
        tokens_mark rfl rfl, tokens_chars item _ hitem (ends_itemsChars items rest),
        tokens_itemsChars items rest hitems, Tree.itemsTokens, List.cons_append, List.cons_append,
        List.append_assoc]

theorem tokens_membersChars : ∀ (members : List (String × Tree)) (rest : List Char),
    Tree.membersIntegral members = true →
    tokens (Tree.membersChars members ++ rest) = Tree.membersTokens members ++ tokens rest
  | [], rest, _ => tokens_mark rfl rfl rest
  | (key, value) :: members, rest, h => by
      obtain ⟨hvalue, hmembers⟩ := Bool.and_eq_true_iff.mp h
      have hchars : Tree.membersChars ((key, value) :: members) ++ rest =
          ',' :: (literalChars key ++ ':' :: (value.chars ++ (Tree.membersChars members ++ rest))) := by
        simp only [Tree.membersChars, List.cons_append, List.append_assoc]
      rw [hchars, tokens_mark rfl rfl, tokens_literalChars, tokens_mark rfl rfl,
        tokens_chars value _ hvalue (ends_membersChars members rest),
        tokens_membersChars members rest hmembers, Tree.membersTokens]
      simp only [List.cons_append, List.append_assoc]

end

end Tokens

/-- Whether something must follow, even if nothing is open. -/
def Expectation.Awaits : Expectation → Prop
  | .after _ => False
  | _ => True

namespace Document

theorem read_cons (expectation : Expectation) (hawaits : expectation.Awaits) {token : Token}
    {next : Expectation} {frames after : List Frame}
    (hstep : expectation.step token frames = .more next after)
    (rest : List Token) : read (token :: rest) expectation frames = read rest next after := by
  cases expectation with
  | after => exact hawaits.elim
  | _ => rw [read, hstep]; exact fun _ h => (nomatch h)

theorem read_after {token : Token} {value : Node} {frame : Frame} {next : Expectation}
    {frames after : List Frame}
    (hstep : (Expectation.after value).step token (frame :: frames) = .more next after)
    (rest : List Token) :
    read (token :: rest) (.after value) (frame :: frames) = read rest next after := by
  rw [read, hstep]
  exact fun _ _ h => (nomatch h)

/-- No value starts with the end of an array. -/
theorem exists_tokens_eq (tree : Tree) :
    ∃ token rest, tree.tokens = token :: rest ∧ token ≠ .closeArray := by
  cases tree with
  | array items => cases items <;> exact ⟨_, _, rfl, fun h => nomatch h⟩
  | object members => cases members <;> exact ⟨_, _, rfl, fun h => nomatch h⟩
  | _ => exact ⟨_, _, rfl, fun h => nomatch h⟩

/-- Where an array could end as well, a value is read like anywhere else. -/
theorem read_of_step (expectation : Expectation) (hawaits : expectation.Awaits)
    {frames after : List Frame}
    (hstep : ∀ token, token ≠ .closeArray → expectation.step token frames = .value token after)
    (tree : Tree) (rest : List Token) :
    read (tree.tokens ++ rest) expectation frames = read (tree.tokens ++ rest) .value after := by
  obtain ⟨token, more, htokens, hne⟩ := exists_tokens_eq tree
  rw [htokens, List.cons_append]
  cases expectation with
  | after => exact hawaits.elim
  | _ => rw [read, read, hstep token hne] <;> first | rfl | exact fun _ h => (nomatch h)

theorem read_firstItem (tree : Tree) (rest : List Token) (frames : List Frame) :
    read (tree.tokens ++ rest) .firstItem frames =
      read (tree.tokens ++ rest) .value (.item [] :: frames) := by
  refine read_of_step .firstItem trivial ?_ tree rest
  intro token hne
  cases token with
  | closeArray => exact absurd rfl hne
  | _ => rfl

theorem read_item (tree : Tree) (items : List Node) (rest : List Token) (frames : List Frame) :
    read (tree.tokens ++ rest) (.item items) frames =
      read (tree.tokens ++ rest) .value (.item items :: frames) := by
  refine read_of_step (.item items) trivial ?_ tree rest
  intro token hne
  cases token with
  | closeArray => exact absurd rfl hne
  | _ => rfl

/-- A name and the colon after it, where a name is expected. -/
theorem read_key (expectation : Expectation) (hawaits : expectation.Awaits)
    {members : List (Key × Node)} {frames : List Frame} (name : String)
    (hstep : expectation.step (.text (.ok name)) frames = .key (.ok name) members frames)
    (rest : List Token) :
    read (.text (.ok name) :: .colon :: rest) expectation frames =
      read rest .value (.member members (.ok name) :: frames) := by
  rw [read_cons expectation hawaits (hstep.trans rfl), read_cons (.colon members (.ok name)) trivial rfl]

mutual

/-- The tokens of a tree are read as the tree, whatever is still open. -/
theorem read_tokens : ∀ (tree : Tree) (rest : List Token) (frames : List Frame),
    read (tree.tokens ++ rest) .value frames = read rest (.after tree.node) frames
  | .null, _, _ | .bool _, _, _ | .number _, _, _ | .text _, _, _ =>
      read_cons .value trivial rfl _
  | .array [], rest, frames => by
      change read (.openArray :: .closeArray :: rest) .value frames = _
      rw [read_cons .value trivial rfl, read_cons .firstItem trivial rfl]
      rfl
  | .array (item :: items), rest, frames => by
      have htokens : (Tree.array (item :: items)).tokens ++ rest =
          .openArray :: (item.tokens ++ (Tree.itemsTokens items ++ rest)) := by
        rw [Tree.tokens, List.cons_append, List.cons_append, List.append_assoc]
      rw [htokens, read_cons .value trivial rfl, read_firstItem, read_tokens item,
        read_itemsTokens items]
      rfl
  | .object [], rest, frames => by
      change read (.openObject :: .closeObject :: rest) .value frames = _
      rw [read_cons .value trivial rfl, read_cons .firstKey trivial rfl]
      rfl
  | .object ((key, value) :: members), rest, frames => by
      have htokens : (Tree.object ((key, value) :: members)).tokens ++ rest =
          .openObject :: .text (.ok key) :: .colon ::
            (value.tokens ++ (Tree.membersTokens members ++ rest)) := by
        simp only [Tree.tokens, List.cons_append, List.append_assoc]
      rw [htokens, read_cons .value trivial rfl, read_key .firstKey trivial key rfl,
        read_tokens value, read_membersTokens members]
      rfl

theorem read_itemsTokens : ∀ (items : List Tree) (rest : List Token) (value : Node)
    (earlier : List Node) (frames : List Frame),
    read (Tree.itemsTokens items ++ rest) (.after value) (.item earlier :: frames) =
      read rest (.after (.array ((value :: earlier).reverse ++ Tree.nodes items) .closed)) frames
  | [], rest, value, earlier, frames => by
      change read (.closeArray :: rest) _ _ = _
      rw [read_after rfl, Tree.nodes, List.append_nil]
      rfl
  | item :: items, rest, value, earlier, frames => by
      have htokens : Tree.itemsTokens (item :: items) ++ rest =
          .comma :: (item.tokens ++ (Tree.itemsTokens items ++ rest)) := by
        rw [Tree.itemsTokens, List.cons_append, List.cons_append, List.append_assoc]
      rw [htokens, read_after rfl, read_item, read_tokens item,
        read_itemsTokens items, Tree.nodes, List.reverse_cons, List.append_assoc]
      rfl

theorem read_membersTokens : ∀ (members : List (String × Tree)) (rest : List Token) (value : Node)
    (key : Key) (earlier : List (Key × Node)) (frames : List Frame),
    read (Tree.membersTokens members ++ rest) (.after value) (.member earlier key :: frames) =
      read rest
        (.after
          (.object (((key, value) :: earlier).reverse ++ Tree.memberNodes members) .closed)) frames
  | [], rest, value, key, earlier, frames => by
      change read (.closeObject :: rest) _ _ = _
      rw [read_after rfl, Tree.memberNodes, List.append_nil]
      rfl
  | (name, item) :: members, rest, value, key, earlier, frames => by
      have htokens : Tree.membersTokens ((name, item) :: members) ++ rest =
          .comma :: .text (.ok name) :: .colon ::
            (item.tokens ++ (Tree.membersTokens members ++ rest)) := by
        simp only [Tree.membersTokens, List.cons_append, List.append_assoc]
      rw [htokens, read_after rfl,
        read_key (.key ((key, value) :: earlier)) trivial name rfl, read_tokens item, read_membersTokens members,
        Tree.memberNodes, List.reverse_cons, List.append_assoc]
      rfl

end

theorem ofTokens_tokens (tree : Tree) :
    ofTokens tree.tokens = { node := tree.node, trailing := false } := by
  have hread := read_tokens tree [] []
  rw [List.append_nil] at hread
  rw [ofTokens, hread]
  rfl

/-- A value without doubles is written as a text that holds that value and nothing else. -/
theorem ofText_print {json : Json} (h : json.tree.isIntegral = true) :
    ofText json.print = { node := json.node, trailing := false } := by
  have htokens := tokens_chars json.tree [] h Numeral.ends_nil
  have hnil : Json.tokens [] = [] := by rw [Json.tokens]
  rw [List.append_nil, hnil, List.append_nil] at htokens
  rw [ofText, print, String.toList_ofList, htokens, ofTokens_tokens]
  rfl

end Document

end Workflow.Json
