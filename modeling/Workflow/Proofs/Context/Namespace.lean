import Mathlib.Data.List.Basic
import Workflow.Context.Basic
import Workflow.Proofs.Dict

/-!
# Namespaces

A namespace holds no dash, so the dash after it ends it and a full key tells its namespace and its
local key. Slicing is looking up under full keys, and what is merged under one namespace is seen
under no other.
-/

namespace Workflow

theorem afterLead?_eq_some_iff {lead chars rest : List Char} :
    afterLead? lead chars = some rest ↔ chars = lead ++ rest := by
  induction lead generalizing chars with
  | nil => simp [afterLead?]
  | cons l lead ih =>
      cases chars with
      | nil => simp [afterLead?]
      | cons c chars =>
          by_cases heq : l = c
          · simp [afterLead?, heq, ih]
          · simp [afterLead?, heq, Ne.symm heq]

theorem toList_namespacedKey (name key : String) :
    (namespacedKey name key).toList = (namespacedKey name "").toList ++ key.toList := by
  simp [namespacedKey]

theorem localKey?_eq_some_iff {name full key : String} :
    localKey? name full = some key ↔ full = namespacedKey name key := by
  unfold localKey?
  rw [Option.map_eq_some_iff]
  constructor
  · rintro ⟨rest, hrest, rfl⟩
    apply String.toList_injective
    rw [afterLead?_eq_some_iff.mp hrest, toList_namespacedKey name (String.ofList rest),
      String.toList_ofList]
  · rintro rfl
    exact ⟨key.toList, afterLead?_eq_some_iff.mpr (toList_namespacedKey name key),
      String.ofList_toList⟩

@[simp]
theorem localKey?_namespacedKey (name key : String) :
    localKey? name (namespacedKey name key) = some key :=
  localKey?_eq_some_iff.mpr rfl

theorem namespacedKey_injective (name : String) : Function.Injective (namespacedKey name) := by
  intro key other heq
  have hlocal := localKey?_namespacedKey name key
  rw [heq, localKey?_namespacedKey] at hlocal
  exact (Option.some.inj hlocal).symm

theorem dash_notMem_of_isNamespace {name : String} (hname : isNamespace name = true) :
    '-' ∉ name.toList := by
  intro hmem
  unfold isNamespace at hname
  rw [Bool.and_eq_true, List.all_eq_true] at hname
  exact absurd (hname.2 '-' hmem) (by decide)

theorem namespacedKey_ne {name other : String} (hname : isNamespace name = true)
    (hother : isNamespace other = true) (hne : name ≠ other) (key otherKey : String) :
    namespacedKey name key ≠ namespacedKey other otherKey := by
  intro heq
  have hchars : name.toList ++ '-' :: key.toList = other.toList ++ '-' :: otherKey.toList := by
    simpa [namespacedKey] using congrArg String.toList heq
  have htake : ∀ {name : String} (_ : isNamespace name = true) (rest : List Char),
      (name.toList ++ '-' :: rest).takeWhile (· != '-') = name.toList := by
    intro name hname rest
    have hdash := dash_notMem_of_isNamespace hname
    rw [List.takeWhile_append_of_pos fun c hc => by
      simpa using fun hdashed : c = '-' => hdash (hdashed ▸ hc)]
    simp
  apply hne
  apply String.toList_injective
  rw [← htake hname key.toList, hchars, htake hother]

theorem localKey?_namespacedKey_of_ne {name other : String} (hname : isNamespace name = true)
    (hother : isNamespace other = true) (hne : name ≠ other) (key : String) :
    localKey? other (namespacedKey name key) = none := by
  rw [Option.eq_none_iff_forall_not_mem]
  intro otherKey hlocal
  exact namespacedKey_ne hname hother hne key otherKey (localKey?_eq_some_iff.mp hlocal)

namespace Slice

theorem ext_get? {a b : Slice} (h : ∀ key, a.get? key = b.get? key) : a = b :=
  congrArg Slice.mk (Dict.ext_get? h)

@[simp]
theorem get?_empty (key : String) : empty.get? key = none := rfl

end Slice

namespace Context

theorem ext_get? {a b : Context} (h : ∀ key, a.get? key = b.get? key) : a = b :=
  congrArg Context.mk (Dict.ext_get? h)

@[simp]
theorem get?_slice (context : Context) (name key : String) :
    (context.slice name).get? key = context.get? (namespacedKey name key) := by
  let pick (entry : String × Json) : Option (String × Json) :=
    (localKey? name entry.1).map fun key => (key, entry.2)
  have hpick : ∀ {entry picked : String × Json}, pick entry = some picked →
      entry = (namespacedKey name picked.1, picked.2) := by
    rintro ⟨full, value⟩ picked hpicked
    obtain ⟨key, hkey, rfl⟩ := Option.map_eq_some_iff.mp hpicked
    exact Prod.ext (localKey?_eq_some_iff.mp hkey) rfl
  have hmem : ∀ {key : String} {value : Json},
      (key, value) ∈ context.entries.entries.filterMap pick ↔
        (namespacedKey name key, value) ∈ context.entries.entries := by
    intro key value
    rw [List.mem_filterMap]
    constructor
    · rintro ⟨entry, hentry, hpicked⟩
      rwa [hpick hpicked] at hentry
    · intro hentry
      exact ⟨_, hentry, by simp [pick]⟩
  have hnodup : ((context.entries.entries.filterMap pick).map (·.1)).Nodup := by
    rw [List.nodup_iff_pairwise_ne, List.pairwise_map, List.pairwise_filterMap]
    refine context.entries.ascending.imp ?_
    intro left right hlt pickedLeft hleft pickedRight hright heq
    rw [hpick hleft, hpick hright, heq] at hlt
    exact String.lt_irrefl _ hlt
  apply Option.ext
  intro value
  exact (Dict.get?_ofList_eq_some_iff hnodup).trans (hmem.trans Dict.get?_eq_some_iff.symm)

/-- The context with the entries of a slice under its namespace, whatever was there before. -/
def joined (context : Context) (name : String) (slice : Slice) : Context :=
  ⟨slice.entries.entries.foldl
    (fun entries entry => entries.insert (namespacedKey name entry.1) entry.2) context.entries⟩

theorem get?_joined (context : Context) (name : String) (slice : Slice) (full : String) :
    (context.joined name slice).get? full =
      ((localKey? name full).bind slice.get?).or (context.get? full) := by
  let lift (entry : String × Json) : String × Json := (namespacedKey name entry.1, entry.2)
  have hfold : (context.joined name slice).get? full =
      ((slice.entries.entries.map lift).reverse.lookup full).or (context.get? full) := by
    refine Eq.trans ?_ (Dict.get?_foldl_insert _ context.entries full)
    rw [List.foldl_map]
    rfl
  have hnodup : (((slice.entries.entries.map lift).reverse).map (·.1)).Nodup := by
    rw [List.map_reverse, List.nodup_reverse, List.map_map]
    change (slice.entries.entries.map (namespacedKey name ∘ (·.1))).Nodup
    rw [← List.map_map]
    exact slice.entries.keys_nodup.map (namespacedKey_injective name)
  rw [hfold]
  congr 1
  apply Option.ext
  intro value
  rw [Dict.lookup_eq_some_iff_mem hnodup, List.mem_reverse, List.mem_map, Option.bind_eq_some_iff]
  constructor
  · rintro ⟨entry, hentry, heq⟩
    obtain ⟨rfl, rfl⟩ := Prod.mk.inj heq
    exact ⟨entry.1, localKey?_namespacedKey .., Dict.get?_eq_some_iff.mpr hentry⟩
  · rintro ⟨key, hkey, hvalue⟩
    exact ⟨(key, value), Dict.get?_eq_some_iff.mp hvalue,
      Prod.ext (localKey?_eq_some_iff.mp hkey).symm rfl⟩

theorem mergeEntries_eq_ok {name : String} {entries : List (String × Json)} {context : Context}
    (hnodup : (entries.map (·.1)).Nodup)
    (hfree : ∀ entry ∈ entries, context.get? (namespacedKey name entry.1) = none) :
    mergeEntries name entries context =
      (⟨entries.foldl (fun dict entry => dict.insert (namespacedKey name entry.1) entry.2)
        context.entries⟩, .ok ()) := by
  induction entries generalizing context with
  | nil => rfl
  | cons entry rest ih =>
      obtain ⟨key, value⟩ := entry
      rw [List.map_cons, List.nodup_cons] at hnodup
      have habsent : context.entries.contains (namespacedKey name key) = false :=
        Dict.contains_eq_false_iff.mpr (hfree _ List.mem_cons_self)
      rw [mergeEntries, habsent]
      apply ih hnodup.2
      intro other hother
      have hne : namespacedKey name other.1 ≠ namespacedKey name key := fun heq =>
        hnodup.1 (List.mem_map.mpr ⟨other, hother, namespacedKey_injective name heq⟩)
      exact (Dict.get?_insert_of_ne hne value).trans (hfree other (List.mem_cons_of_mem _ hother))

theorem merged_eq_ok {context : Context} {name : String} {slice : Slice}
    (hname : isNamespace name = true)
    (hfree : ∀ key, slice.get? key ≠ none → (context.slice name).get? key = none) :
    context.merged name slice = .ok (context.joined name slice) := by
  have hentries : ∀ entry ∈ slice.entries.entries,
      context.get? (namespacedKey name entry.1) = none := by
    intro entry hentry
    rw [← get?_slice]
    apply hfree
    rw [Slice.get?, Dict.get?_eq_some_iff.mpr hentry]
    exact Option.some_ne_none _
  rw [merged, merge, if_pos hname, mergeEntries_eq_ok slice.entries.keys_nodup hentries]
  rfl

theorem slice_joined_self {context : Context} {name : String} (hempty : context.slice name = .empty)
    (slice : Slice) : (context.joined name slice).slice name = slice := by
  apply Slice.ext_get?
  intro key
  rw [get?_slice, get?_joined, localKey?_namespacedKey, ← get?_slice, hempty, Slice.get?_empty,
    Option.or_none]
  rfl

theorem slice_joined_of_ne {context : Context} {name other : String}
    (hname : isNamespace name = true) (hother : isNamespace other = true) (hne : other ≠ name)
    (slice : Slice) : (context.joined name slice).slice other = context.slice other := by
  apply Slice.ext_get?
  intro key
  rw [get?_slice, get?_joined, localKey?_namespacedKey_of_ne hother hname hne, get?_slice]
  rfl

end Context

end Workflow
