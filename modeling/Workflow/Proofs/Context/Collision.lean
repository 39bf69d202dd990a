import Workflow.Proofs.Context.Merging

/-!
# Slices that are in the way

A merge stops at the first key of the slice that is taken. What comes before that key stays, so the same
slice is in its own way from then on, however its merge ended.
-/

namespace Workflow

/-- The part of a slice under the keys that come before a key. -/
def Slice.before (slice : Slice) (key : String) : Slice :=
  { entries :=
      { entries := slice.entries.entries.filter fun entry => entry.1 < key
        ascending := slice.entries.ascending.filter _ } }

namespace Context

/-- Whether a slice has an entry whose full key is taken. -/
def Collides (context : Context) (name : String) (slice : Slice) (key : String) : Prop :=
  slice.get? key ≠ none ∧ context.get? (namespacedKey name key) ≠ none

/-- Whether the full key is taken, and that of no entry before it. -/
structure CollidesFirst (context : Context) (name : String) (slice : Slice) (key : String) : Prop where
  collides : context.Collides name slice key
  first : ∀ other, context.Collides name slice other → key ≤ other

/-- Whether a context still has all entries of an earlier one. -/
def Extends (context earlier : Context) : Prop :=
  ∀ full value, earlier.get? full = some value → context.get? full = some value

end Context

/-- What comes before an entry are the entries with smaller keys. -/
theorem Dict.filter_lt_of_append {α : Type} {dict : Dict α} {earlier later : List (String × α)}
    {key : String} {value : α} (h : dict.entries = earlier ++ (key, value) :: later) :
    (dict.entries.filter fun entry => entry.1 < key) = earlier := by
  have hascending := dict.ascending
  rw [h, List.pairwise_append] at hascending
  obtain ⟨-, hfrom, hacross⟩ := hascending
  have hearlier : (earlier.filter fun entry => entry.1 < key) = earlier := by
    rw [List.filter_eq_self]
    intro entry hentry
    exact decide_eq_true (hacross entry hentry (key, value) List.mem_cons_self)
  have hlater : (((key, value) :: later).filter fun entry => entry.1 < key) = [] := by
    rw [List.filter_eq_nil_iff]
    intro entry hentry
    rw [decide_eq_true_eq]
    rcases List.mem_cons.mp hentry with rfl | hmem
    · exact String.lt_irrefl key
    · exact String.lt_asymm ((List.pairwise_cons.mp hfrom).1 entry hmem)
  rw [h, List.filter_append, hearlier, hlater, List.append_nil]

theorem Slice.get?_before (slice : Slice) (key other : String) :
    (slice.before key).get? other = if other < key then slice.get? other else none := by
  apply Option.ext
  intro value
  have hbefore : (slice.before key).get? other = some value ↔
      (other, value) ∈ slice.entries.entries ∧ other < key := by
    rw [Slice.get?, Dict.get?_eq_some_iff, before, List.mem_filter, decide_eq_true_eq]
  rw [hbefore, ← Dict.get?_eq_some_iff]
  by_cases hlt : other < key
  · simp [hlt, Slice.get?]
  · simp [hlt]

namespace Context

variable {context : Context} {name : String} {slice : Slice} {key : String}

section Entries

/-- Entries that all go in are followed by those behind them. -/
theorem mergeEntries_append {earlier later : List (String × Json)} {after : Context}
    (h : mergeEntries name earlier context = (after, .ok ())) :
    mergeEntries name (earlier ++ later) context = mergeEntries name later after := by
  induction earlier generalizing context with
  | nil =>
      obtain ⟨rfl, -⟩ := Prod.mk.inj h
      rfl
  | cons entry rest ih =>
      obtain ⟨key, value⟩ := entry
      rw [mergeEntries] at h
      rw [List.cons_append, mergeEntries]
      cases hcontains : context.entries.contains (namespacedKey name key) with
      | true => simp [hcontains] at h
      | false =>
          simp only [hcontains, Bool.false_eq_true, if_false] at h ⊢
          exact ih h

theorem mergeEntries_of_taken {value : Json} {rest : List (String × Json)}
    (h : context.get? (namespacedKey name key) ≠ none) :
    mergeEntries name ((key, value) :: rest) context =
      (context, .error (.collision (namespacedKey name key))) := by
  have hcontains : context.entries.contains (namespacedKey name key) = true :=
    Dict.contains_eq_true_iff.mpr (Option.ne_none_iff_exists'.mp h)
  rw [mergeEntries]
  simp only [hcontains, if_true]

end Entries

section First

/-- Of the keys that are taken the slice has one before all others. -/
theorem exists_collidesFirst (h : context.Collides name slice key) :
    ∃ first, context.CollidesFirst name slice first := by
  obtain ⟨value, hvalue⟩ := Option.ne_none_iff_exists'.mp h.1
  let taken (entry : String × Json) : Bool := (context.get? (namespacedKey name entry.1)).isSome
  have hfound : (slice.entries.entries.find? taken).isSome = true :=
    List.find?_isSome.mpr
      ⟨(key, value), Dict.get?_eq_some_iff.mp hvalue, Option.isSome_iff_ne_none.mpr h.2⟩
  obtain ⟨⟨first, found⟩, hfirst⟩ := Option.isSome_iff_exists.mp hfound
  obtain ⟨htaken, earlier, later, hentries, hfree⟩ := List.find?_eq_some_iff_append.mp hfirst
  have hmem : (first, found) ∈ slice.entries.entries := by
    rw [hentries]
    exact List.mem_append_right _ List.mem_cons_self
  refine ⟨first, ⟨?_, Option.isSome_iff_ne_none.mp htaken⟩, ?_⟩
  · rw [Slice.get?, Dict.get?_eq_some_iff.mpr hmem]
    exact Option.some_ne_none found
  · intro other hother
    obtain ⟨held, hheld⟩ := Option.ne_none_iff_exists'.mp hother.1
    rw [← String.not_lt]
    intro hlt
    -- What comes before the entry that was found is free.
    have hbefore : (other, held) ∈ earlier := by
      rw [← Dict.filter_lt_of_append hentries, List.mem_filter]
      exact ⟨Dict.get?_eq_some_iff.mp hheld, decide_eq_true hlt⟩
    have hnone : (!taken (other, held)) = true := hfree _ hbefore
    exact hother.2 (by simpa [taken] using hnone)

/-- What comes before the first key that is taken is free. -/
theorem CollidesFirst.free_before (h : context.CollidesFirst name slice key) {other : String}
    (hother : (slice.before key).get? other ≠ none) :
    context.get? (namespacedKey name other) = none := by
  rw [Slice.get?_before] at hother
  by_contra htaken
  by_cases hlt : other < key
  · rw [if_pos hlt] at hother
    exact String.not_lt.mpr (h.first other ⟨hother, htaken⟩) hlt
  · rw [if_neg hlt] at hother
    exact hother rfl

end First

section Extends

theorem Extends.refl (context : Context) : context.Extends context :=
  fun _ _ => id

theorem Extends.ne_none {earlier : Context} {full : String} (h : context.Extends earlier)
    (hfull : earlier.get? full ≠ none) : context.get? full ≠ none := by
  obtain ⟨value, hvalue⟩ := Option.ne_none_iff_exists'.mp hfull
  rw [h full value hvalue]
  exact Option.some_ne_none value

theorem extends_joined
    (hfree : ∀ key, slice.get? key ≠ none → context.get? (namespacedKey name key) = none) :
    (context.joined name slice).Extends context := by
  intro full value hvalue
  have hlocal : (localKey? name full).bind slice.get? = none := by
    rw [Option.eq_none_iff_forall_ne_some]
    intro other hother
    obtain ⟨key, hkey, hheld⟩ := Option.bind_eq_some_iff.mp hother
    have hnone := hfree key (by rw [hheld]; exact Option.some_ne_none other)
    rw [← localKey?_eq_some_iff.mp hkey, hvalue] at hnone
    cases hnone
  rw [get?_joined, hlocal, Option.none_or, hvalue]

end Extends

section Merge

theorem merge_of_misnamed (hname : isNamespace name = false) (context : Context) (slice : Slice) :
    context.merge name slice = (context, .error (.invalidNamespace name)) := by
  rw [merge, hname, if_neg Bool.false_ne_true]

theorem merge_of_free (hname : isNamespace name = true)
    (hfree : ∀ key, ¬ context.Collides name slice key) :
    context.merge name slice = (context.joined name slice, .ok ()) := by
  refine merge_eq_ok_iff.mpr ⟨hname, fun key => ?_, rfl⟩
  have hkey := hfree key
  unfold Collides at hkey
  rw [get?_slice]
  tauto

theorem merge_of_collidesFirst (hname : isNamespace name = true)
    (h : context.CollidesFirst name slice key) :
    context.merge name slice =
      (context.joined name (slice.before key), .error (.collision (namespacedKey name key))) := by
  obtain ⟨value, hvalue⟩ := Option.ne_none_iff_exists'.mp h.collides.1
  obtain ⟨earlier, later, hentries⟩ := List.append_of_mem (Dict.get?_eq_some_iff.mp hvalue)
  have hearlier : (slice.before key).entries.entries = earlier := Dict.filter_lt_of_append hentries
  have hbefore :
      mergeEntries name earlier context = (context.joined name (slice.before key), .ok ()) := by
    rw [← hearlier, mergeEntries_eq_ok (slice.before key).entries.keys_nodup]
    · rfl
    · intro entry hentry
      apply h.free_before
      rw [Slice.get?, Dict.get?_eq_some_iff.mpr hentry]
      exact Option.some_ne_none entry.2
  have htaken : (context.joined name (slice.before key)).get? (namespacedKey name key) ≠ none :=
    (extends_joined fun _ => h.free_before).ne_none h.collides.2
  rw [merge, if_pos hname, hentries, mergeEntries_append hbefore, mergeEntries_of_taken htaken]

/-- A merge fails for its namespace, or stops at the first key that is taken, or goes through. -/
theorem merge_cases (context : Context) (name : String) (slice : Slice) :
    (isNamespace name = false ∧ context.merge name slice = (context, .error (.invalidNamespace name))) ∨
      isNamespace name = true ∧
        ((∃ key, context.CollidesFirst name slice key ∧ context.merge name slice =
            (context.joined name (slice.before key), .error (.collision (namespacedKey name key)))) ∨
          (∀ key, ¬ context.Collides name slice key) ∧
            context.merge name slice = (context.joined name slice, .ok ())) := by
  cases hname : isNamespace name with
  | false => exact .inl ⟨rfl, merge_of_misnamed hname context slice⟩
  | true =>
      refine .inr ⟨rfl, ?_⟩
      by_cases hcollides : ∃ key, context.Collides name slice key
      · obtain ⟨key, hkey⟩ := hcollides
        obtain ⟨first, hfirst⟩ := exists_collidesFirst hkey
        exact .inl ⟨first, hfirst, merge_of_collidesFirst hname hfirst⟩
      · rw [not_exists] at hcollides
        exact .inr ⟨hcollides, merge_of_free hname hcollides⟩

theorem extends_merge (context : Context) (name : String) (slice : Slice) :
    (context.merge name slice).1.Extends context := by
  obtain ⟨-, hmerge⟩ | ⟨-, ⟨key, hfirst, hmerge⟩ | ⟨hfree, hmerge⟩⟩ := merge_cases context name slice
  all_goals rw [hmerge]
  · exact Extends.refl context
  · exact extends_joined fun _ => hfirst.free_before
  · refine extends_joined fun key hkey => ?_
    by_contra htaken
    exact hfree key ⟨hkey, htaken⟩

theorem get?_joined_of_held (context : Context) (name : String) {value : Json}
    (h : slice.get? key = some value) :
    (context.joined name slice).get? (namespacedKey name key) = some value := by
  rw [get?_joined, localKey?_namespacedKey, Option.bind_some, h, Option.some_or]

/-- The smallest key of a slice is taken after a merge of the slice, if not by the slice then before. -/
theorem taken_of_merge (hname : isNamespace name = true) {value : Json} {rest : List (String × Json)}
    (hentries : slice.entries.entries = (key, value) :: rest) :
    (context.merge name slice).1.get? (namespacedKey name key) ≠ none := by
  by_cases htaken : context.get? (namespacedKey name key) = none
  · have hheld : slice.get? key = some value := by
      rw [Slice.get?, Dict.get?_eq_some_iff, hentries]
      exact List.mem_cons_self
    obtain ⟨hnot, -⟩ | ⟨-, ⟨first, hfirst, hmerge⟩ | ⟨-, hmerge⟩⟩ := merge_cases context name slice
    · rw [hname] at hnot
      cases hnot
    · obtain ⟨found, hfound⟩ := Option.ne_none_iff_exists'.mp hfirst.collides.1
      have hmem := Dict.get?_eq_some_iff.mp hfound
      rw [hentries] at hmem
      have hlt : key < first := by
        rcases List.mem_cons.mp hmem with heq | hlater
        · obtain ⟨rfl, -⟩ := Prod.mk.inj heq
          exact absurd htaken hfirst.collides.2
        · have hascending := slice.entries.ascending
          rw [hentries] at hascending
          exact List.rel_of_pairwise_cons hascending hlater
      have hbefore : (slice.before first).get? key = some value := by
        rw [Slice.get?_before, if_pos hlt, hheld]
      rw [hmerge, get?_joined_of_held context name hbefore]
      exact Option.some_ne_none value
    · rw [hmerge, get?_joined_of_held context name hheld]
      exact Option.some_ne_none value
  · exact (extends_merge context name slice).ne_none htaken

/-- From its first merge on a slice that holds anything is in its own way. -/
theorem exists_error_of_extends (hslice : slice ≠ .empty) {later : Context}
    (h : later.Extends (context.merge name slice).1) :
    ∃ fault, later.merge name slice = (later, .error fault) := by
  cases hname : isNamespace name with
  | false => exact ⟨_, merge_of_misnamed hname later slice⟩
  | true =>
      cases hentries : slice.entries.entries with
      | nil =>
          exfalso
          apply hslice
          apply Slice.ext_get?
          intro key
          rw [Slice.get?, Dict.get?, hentries]
          rfl
      | cons entry rest =>
          obtain ⟨key, value⟩ := entry
          have htaken := h.ne_none (taken_of_merge hname hentries)
          refine ⟨.collision (namespacedKey name key), ?_⟩
          rw [merge, if_pos hname, hentries, mergeEntries_of_taken htaken]

end Merge

/-- A slice is merged exactly if its namespace is one and none of its full keys is taken. What was there
stays in any case. A merge fails for its namespace, and leaves the context as it was, or at the smallest
local key of which the full key is taken, and then what the slice has under smaller keys is there. From
then on the slice cannot be merged under this namespace again, if it holds anything, whatever else is
added in between. -/
theorem merge_never_overwrites (context : Context) (name : String) (slice : Slice) :
    ((context.merge name slice).2 = .ok () ↔
        isNamespace name = true ∧ ∀ key, ¬ context.Collides name slice key) ∧
      (context.merge name slice).1.Extends context ∧
      (∀ after fault, context.merge name slice = (after, .error fault) ↔
        (isNamespace name = false ∧ fault = .invalidNamespace name ∧ after = context) ∨
          isNamespace name = true ∧ ∃ key, context.CollidesFirst name slice key ∧
            fault = .collision (namespacedKey name key) ∧
              after = context.joined name (slice.before key)) ∧
      (slice ≠ .empty → ∀ later : Context, later.Extends (context.merge name slice).1 →
        ∃ fault, later.merge name slice = (later, .error fault)) := by
  refine ⟨?succeeds, extends_merge context name slice, ?fails, fun hslice later h =>
    exists_error_of_extends hslice h⟩
  case succeeds =>
    refine ⟨fun hok => ?_, fun ⟨hname, hfree⟩ => by rw [merge_of_free hname hfree]⟩
    obtain ⟨-, hmerge⟩ | ⟨hname, ⟨key, -, hmerge⟩ | ⟨hfree, -⟩⟩ := merge_cases context name slice
    · rw [hmerge] at hok
      cases hok
    · rw [hmerge] at hok
      cases hok
    · exact ⟨hname, hfree⟩
  case fails =>
    intro after fault
    constructor
    · intro hfault
      obtain ⟨hname, hmerge⟩ | ⟨hname, ⟨key, hfirst, hmerge⟩ | ⟨-, hmerge⟩⟩ :=
        merge_cases context name slice
      · cases hmerge.symm.trans hfault
        exact .inl ⟨hname, rfl, rfl⟩
      · cases hmerge.symm.trans hfault
        exact .inr ⟨hname, key, hfirst, rfl, rfl⟩
      · cases hmerge.symm.trans hfault
    · rintro (⟨hname, rfl, rfl⟩ | ⟨hname, key, hfirst, rfl, rfl⟩)
      · exact merge_of_misnamed hname _ slice
      · exact merge_of_collidesFirst hname hfirst

/-- A context with a note where the second of three entries is to go. -/
def noted : Context :=
  ⟨.ofList [("x-stately-run-b", .text "note")]⟩

def threefold : Slice :=
  .ofList [("c", .null), ("b", .emptyObject), ("a", .text "first")]

/-- The first entry goes in, the second is in the way of the note, and the next merge stops at the first. -/
theorem merge_never_overwrites_noted :
    noted.merge "run" threefold =
        (⟨.ofList [("x-stately-run-a", .text "first"), ("x-stately-run-b", .text "note")]⟩,
          .error (.collision "x-stately-run-b")) ∧
      (noted.merge "run" threefold).1.Extends noted ∧
      (∃ key, noted.CollidesFirst "run" threefold key ∧
        "x-stately-run-b" = namespacedKey "run" key ∧
          (noted.merge "run" threefold).1 = noted.joined "run" (threefold.before key)) ∧
      threefold ≠ .empty ∧
        ∃ fault, (noted.merge "run" threefold).1.merge "run" threefold =
          ((noted.merge "run" threefold).1, .error fault) := by
  have hmerge : noted.merge "run" threefold =
      (⟨.ofList [("x-stately-run-a", .text "first"), ("x-stately-run-b", .text "note")]⟩,
        .error (.collision "x-stately-run-b")) := by
    decide +kernel
  have hholds : threefold ≠ .empty := by decide +kernel
  obtain ⟨-, hextends, hfails, hagain⟩ := merge_never_overwrites noted "run" threefold
  refine ⟨hmerge, hextends, ?_, hholds, hagain hholds _ (Extends.refl _)⟩
  obtain ⟨hname, -⟩ | ⟨-, key, hfirst, hfault, hafter⟩ := (hfails _ _).mp hmerge
  · exact absurd hname (by decide +kernel)
  · refine ⟨key, hfirst, ContextError.collision.inj hfault, ?_⟩
    rw [hmerge]
    exact hafter

end Context

end Workflow
