import Mathlib.Data.List.Nodup
import Mathlib.Data.List.Perm.Basic
import Workflow.Proofs.Context.Namespace

/-!
# Merging slices

A slice is merged if none of its full keys is taken, and then its namespace holds it beside what was
there before. Slices of different namespaces are never in each other's way, so they can be merged in
any order.
-/

namespace Workflow

/-- Whether a slice holds what the two others hold, which have no key in common. -/
structure Slice.IsDisjointUnion (whole first second : Slice) : Prop where
  apart : ∀ key, first.get? key = none ∨ second.get? key = none
  get?_eq : ∀ key, whole.get? key = (first.get? key).or (second.get? key)

namespace Context

section One

variable {context after : Context} {name other : String} {slice : Slice}

/-- Entries that were all added were in nobody's way. -/
theorem free_of_mergeEntries {entries : List (String × Json)}
    (h : mergeEntries name entries context = (after, .ok ())) :
    ∀ entry ∈ entries, context.get? (namespacedKey name entry.1) = none := by
  induction entries generalizing context with
  | nil => exact List.forall_mem_nil _
  | cons entry rest ih =>
      obtain ⟨key, value⟩ := entry
      rw [mergeEntries] at h
      cases hcontains : context.entries.contains (namespacedKey name key) with
      | true => simp [hcontains] at h
      | false =>
          have habsent := Dict.contains_eq_false_iff.mp hcontains
          simp only [hcontains, Bool.false_eq_true, if_false] at h
          refine List.forall_mem_cons.mpr ⟨habsent, fun later hlater => ?_⟩
          have hfree := ih h later hlater
          by_cases heq : namespacedKey name later.1 = namespacedKey name key
          · rw [heq]
            exact habsent
          · exact (Dict.get?_insert_of_ne heq value).symm.trans hfree

/-- A slice is merged exactly if its namespace is one and holds none of its keys yet. -/
theorem merge_eq_ok_iff :
    context.merge name slice = (after, .ok ()) ↔
      isNamespace name = true ∧
        (∀ key, (context.slice name).get? key = none ∨ slice.get? key = none) ∧
        after = context.joined name slice := by
  unfold merge
  by_cases hname : isNamespace name = true
  · rw [if_pos hname]
    constructor
    · intro hmerged
      have hfree := free_of_mergeEntries hmerged
      rw [mergeEntries_eq_ok slice.entries.keys_nodup hfree] at hmerged
      refine ⟨hname, fun key => ?_, (Prod.mk.inj hmerged).1.symm⟩
      cases hvalue : slice.get? key with
      | none => exact .inr rfl
      | some value =>
          rw [get?_slice]
          exact .inl (hfree (key, value) (Dict.get?_eq_some_iff.mp hvalue))
    · rintro ⟨-, hapart, rfl⟩
      refine mergeEntries_eq_ok slice.entries.keys_nodup fun entry hentry => ?_
      have hvalue : slice.get? entry.1 = some entry.2 := Dict.get?_eq_some_iff.mpr hentry
      rcases hapart entry.1 with hfree | hnone
      · rwa [get?_slice] at hfree
      · cases hvalue.symm.trans hnone
  · rw [if_neg hname]
    constructor
    · intro hmerged
      cases (Prod.mk.inj hmerged).2
    · rintro ⟨hvalid, -⟩
      exact absurd hvalid hname

theorem slice_joined (hapart : ∀ key, (context.slice name).get? key = none ∨ slice.get? key = none) :
    ((context.joined name slice).slice name).IsDisjointUnion (context.slice name) slice := by
  refine ⟨hapart, fun key => ?_⟩
  rw [get?_slice, get?_joined, localKey?_namespacedKey, ← get?_slice, Option.bind_some]
  rcases hapart key with hnone | hnone
  · rw [hnone, Option.or_none, Option.none_or]
  · rw [hnone, Option.or_none, Option.none_or]

/-- A full key lies in one namespace at the most. -/
theorem localKey?_eq_none_or (hname : isNamespace name = true) (hother : isNamespace other = true)
    (hne : name ≠ other) (full : String) :
    localKey? name full = none ∨ localKey? other full = none := by
  cases hlocal : localKey? name full with
  | none => exact .inl rfl
  | some key =>
      rw [localKey?_eq_some_iff.mp hlocal]
      exact .inr (localKey?_namespacedKey_of_ne hname hother hne key)

theorem joined_comm (context : Context) (hname : isNamespace name = true)
    (hother : isNamespace other = true) (hne : name ≠ other) (first second : Slice) :
    (context.joined name first).joined other second =
      (context.joined other second).joined name first := by
  apply ext_get?
  intro full
  simp only [get?_joined]
  rcases localKey?_eq_none_or hname hother hne full with hlocal | hlocal
  · simp [hlocal]
  · simp [hlocal]

end One

section Many

variable {context : Context} {name : String} {parts : List (String × Slice)}

/-- The context with slices added one after the other. -/
def mergeAll (context : Context) (parts : List (String × Slice)) : Except ContextError Context :=
  parts.foldlM (fun context part => context.merged part.1 part.2) context

/-- The context with the entries of several slices, whatever was there before. -/
def joinedAll (context : Context) (parts : List (String × Slice)) : Context :=
  parts.foldl (fun context part => context.joined part.1 part.2) context

theorem slice_joinedAll_of_notMem (hvalid : ∀ part ∈ parts, isNamespace part.1 = true)
    (hname : isNamespace name = true) (hnew : name ∉ parts.map (·.1)) :
    (context.joinedAll parts).slice name = context.slice name := by
  induction parts generalizing context with
  | nil => rfl
  | cons part rest ih =>
      rw [List.map_cons, List.mem_cons, not_or] at hnew
      obtain ⟨hpart, hrest⟩ := List.forall_mem_cons.mp hvalid
      have hskipped : (context.joined part.1 part.2).slice name = context.slice name :=
        slice_joined_of_ne hpart hname hnew.1 part.2
      exact (ih hrest hnew.2).trans hskipped

theorem mergeAll_eq_ok (hvalid : ∀ part ∈ parts, isNamespace part.1 = true)
    (hnodup : (parts.map (·.1)).Nodup) (hempty : ∀ part ∈ parts, context.slice part.1 = .empty) :
    context.mergeAll parts = .ok (context.joinedAll parts) := by
  induction parts generalizing context with
  | nil => rfl
  | cons part rest ih =>
      obtain ⟨hpart, hrest⟩ := List.forall_mem_cons.mp hvalid
      rw [List.map_cons, List.nodup_cons] at hnodup
      have hmerged : context.merged part.1 part.2 = .ok (context.joined part.1 part.2) := by
        refine merged_eq_ok hpart fun key _ => ?_
        rw [hempty part List.mem_cons_self, Slice.get?_empty]
      rw [mergeAll, List.foldlM_cons, hmerged]
      refine ih hrest hnodup.2 fun other hother => ?_
      have hne : other.1 ≠ part.1 := fun heq =>
        hnodup.1 (heq ▸ List.mem_map_of_mem hother)
      rw [slice_joined_of_ne hpart (hrest other hother) hne]
      exact hempty other (List.mem_cons_of_mem _ hother)

theorem slice_joinedAll_of_mem (hvalid : ∀ part ∈ parts, isNamespace part.1 = true)
    (hnodup : (parts.map (·.1)).Nodup) (hempty : ∀ part ∈ parts, context.slice part.1 = .empty)
    {part : String × Slice} (hpart : part ∈ parts) :
    (context.joinedAll parts).slice part.1 = part.2 := by
  obtain ⟨earlier, later, rfl⟩ := List.append_of_mem hpart
  obtain ⟨hearlier, hfrom⟩ := List.forall_mem_append.mp hvalid
  obtain ⟨hname, hlater⟩ := List.forall_mem_cons.mp hfrom
  rw [List.map_append, List.map_cons, List.nodup_middle, List.nodup_cons, List.mem_append,
    not_or] at hnodup
  have hbefore : (context.joinedAll earlier).slice part.1 = .empty :=
    (slice_joinedAll_of_notMem hearlier hname hnodup.1.1).trans (hempty part hpart)
  have hsplit : context.joinedAll (earlier ++ part :: later) =
      ((context.joinedAll earlier).joined part.1 part.2).joinedAll later :=
    List.foldl_append
  rw [hsplit, slice_joinedAll_of_notMem hlater hname hnodup.1.2]
  exact slice_joined_self hbefore part.2

/-- Slices of different namespaces can be joined in any order. -/
theorem joinedAll_of_perm {order : List (String × Slice)}
    (hvalid : ∀ part ∈ parts, isNamespace part.1 = true) (hnodup : (parts.map (·.1)).Nodup)
    (hperm : order.Perm parts) : context.joinedAll order = context.joinedAll parts := by
  refine (hperm.symm.foldl_eq' ?_ context).symm
  intro first hfirst second hsecond context
  by_cases heq : first = second
  · rw [heq]
  · have hne : first.1 ≠ second.1 := fun hname =>
      heq (List.inj_on_of_nodup_map hnodup hfirst hsecond hname)
    exact joined_comm context (hvalid first hfirst) (hvalid second hsecond) hne first.2 second.2

end Many

/-- A slice that is merged lies in its namespace beside what was there before and is seen in no other.
Slices of different namespaces can be merged in any order, which gives one context, and that gives
every slice back. -/
theorem merge_isolated :
    (∀ (context after : Context) (name other : String) (slice : Slice),
      isNamespace other = true → other ≠ name → context.merge name slice = (after, .ok ()) →
        (after.slice name).IsDisjointUnion (context.slice name) slice ∧
          after.slice other = context.slice other) ∧
    ∀ parts : List (String × Slice), (parts.map (·.1)).Nodup →
      (∀ part ∈ parts, isNamespace part.1 = true) →
        ∃ whole, (∀ order : List (String × Slice), order.Perm parts →
          empty.mergeAll order = .ok whole) ∧
            ∀ part ∈ parts, whole.slice part.1 = part.2 := by
  constructor
  · intro context after name other slice hother hne hmerged
    obtain ⟨hname, hapart, rfl⟩ := merge_eq_ok_iff.mp hmerged
    exact ⟨slice_joined hapart, slice_joined_of_ne hname hother hne slice⟩
  · intro parts hnodup hvalid
    refine ⟨empty.joinedAll parts, fun order hperm => ?_, fun part hpart => ?_⟩
    · have horder : ∀ part ∈ order, isNamespace part.1 = true := fun part hpart =>
        hvalid part (hperm.mem_iff.mp hpart)
      rw [mergeAll_eq_ok horder ((hperm.map _).nodup_iff.mpr hnodup) fun _ _ => rfl,
        joinedAll_of_perm hvalid hnodup hperm]
    · exact slice_joinedAll_of_mem hvalid hnodup (fun _ _ => rfl) hpart

/-- Slices whose namespaces begin alike, with local keys that are empty or hold dashes. -/
def crowded : List (String × Slice) :=
  [("r", .ofList [("un-", .null), ("-", .text "-")]),
    ("run", .ofList [("", .null), ("2-", .text "x"), ("_2-", .emptyObject)]),
    ("run_2", .ofList [("", .text "x")])]

/-- A context with an entry of another kind and one under the longest of the three namespaces. -/
def occupied : Context :=
  ⟨.ofList [("x-stately-run", .null), ("x-stately-run_2-", .text "x")]⟩

theorem merge_isolated_crowded :
    (isNamespace "run_2" = true ∧ "run_2" ≠ "run" ∧
      occupied.merge "run" (.ofList [("_2-", .null)]) =
        (occupied.joined "run" (.ofList [("_2-", .null)]), .ok ()) ∧
      (occupied.joined "run" (.ofList [("_2-", .null)])).slice "run_2" = occupied.slice "run_2") ∧
    (crowded.map (·.1)).Nodup ∧ (∀ part ∈ crowded, isNamespace part.1 = true) ∧
      ∃ whole, empty.mergeAll crowded.reverse = .ok whole ∧
        whole.slice "r" = .ofList [("un-", .null), ("-", .text "-")] := by
  have hvalid : isNamespace "run_2" = true := by decide +kernel
  have hne : "run_2" ≠ "run" := by decide +kernel
  have hmerged : occupied.merge "run" (.ofList [("_2-", .null)]) =
      (occupied.joined "run" (.ofList [("_2-", .null)]), .ok ()) := by
    decide +kernel
  have hnodup : (crowded.map (·.1)).Nodup := by decide +kernel
  have hnames : ∀ part ∈ crowded, isNamespace part.1 = true := by decide +kernel
  have hother := (merge_isolated.1 _ _ _ _ _ hvalid hne hmerged).2
  obtain ⟨whole, hwhole, hslices⟩ := merge_isolated.2 crowded hnodup hnames
  have hfirst := hslices ("r", .ofList [("un-", .null), ("-", .text "-")]) List.mem_cons_self
  exact ⟨⟨hvalid, hne, hmerged, hother⟩, hnodup, hnames, whole,
    hwhole crowded.reverse crowded.reverse_perm, hfirst⟩

end Context

end Workflow
