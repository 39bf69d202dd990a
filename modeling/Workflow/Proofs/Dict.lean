import Mathlib.Data.List.Nodup
import Workflow.Dict

/-!
# Look-ups in dictionaries

A dictionary is known by its look-ups, so each way to build one is described by what it answers
under every key.
-/

namespace Workflow.Dict

variable {α β : Type}

theorem keys_nodup (dict : Dict α) : (dict.entries.map (·.1)).Nodup := by
  rw [List.nodup_iff_pairwise_ne, List.pairwise_map]
  refine dict.ascending.imp ?_
  intro a b hlt heq
  rw [heq] at hlt
  exact String.lt_irrefl _ hlt

theorem mem_of_lookup_eq_some {entries : List (String × α)} {key : String} {value : α}
    (h : entries.lookup key = some value) : (key, value) ∈ entries := by
  induction entries with
  | nil => cases h
  | cons head rest ih =>
      rw [lookup_cons_eq_ite] at h
      split at h
      · rename_i heq
        rw [heq, ← Option.some.inj h]
        exact List.mem_cons_self
      · exact List.mem_cons_of_mem _ (ih h)

theorem lookup_eq_some_iff_mem {entries : List (String × α)}
    (hnodup : (entries.map (·.1)).Nodup) {key : String} {value : α} :
    entries.lookup key = some value ↔ (key, value) ∈ entries := by
  induction entries with
  | nil => simp
  | cons head rest ih =>
      obtain ⟨k, v⟩ := head
      rw [List.map_cons, List.nodup_cons] at hnodup
      rw [lookup_cons_eq_ite, List.mem_cons, Prod.mk.injEq]
      by_cases hkey : key = k
      · subst hkey
        have habsent : (key, value) ∉ rest := fun hmem =>
          hnodup.1 (List.mem_map.mpr ⟨(key, value), hmem, rfl⟩)
        simp [habsent, eq_comm]
      · simp [hkey, ih hnodup.2]

theorem get?_eq_some_iff {dict : Dict α} {key : String} {value : α} :
    dict.get? key = some value ↔ (key, value) ∈ dict.entries :=
  lookup_eq_some_iff_mem dict.keys_nodup

theorem contains_eq_true_iff {dict : Dict α} {key : String} :
    dict.contains key = true ↔ ∃ value, dict.get? key = some value := by
  rw [contains, Option.isSome_iff_exists]

theorem contains_eq_false_iff {dict : Dict α} {key : String} :
    dict.contains key = false ↔ dict.get? key = none := by
  rw [contains, Option.isSome_eq_false_iff, Option.isNone_iff_eq_none]

theorem get?_insert_of_ne {dict : Dict α} {key other : String} (hne : other ≠ key) (value : α) :
    (dict.insert key value).get? other = dict.get? other := by
  rw [get?_insert, if_neg hne]

@[simp]
theorem insert_insert (dict : Dict α) (key : String) (first second : α) :
    (dict.insert key first).insert key second = dict.insert key second := by
  apply ext_get?
  intro other
  rw [get?_insert, get?_insert, get?_insert]
  split <;> rfl

theorem insert_comm (dict : Dict α) {key other : String} (hne : key ≠ other) (first second : α) :
    (dict.insert key first).insert other second = (dict.insert other second).insert key first := by
  apply ext_get?
  intro name
  simp only [get?_insert]
  by_cases hother : name = other
  · rw [if_pos hother, if_pos hother, if_neg (hother ▸ hne.symm)]
  · rw [if_neg hother, if_neg hother]

theorem entries_ofList_pair {first second : String} (h : second < first) (a b : α) :
    (ofList [(first, a), (second, b)]).entries = [(second, b), (first, a)] := by
  change insertEntry second b (insertEntry first a []) = _
  rw [insertEntry, insertEntry, if_pos h]

theorem get?_insertIfAbsent (dict : Dict α) (key other : String) (value : α) :
    (dict.insertIfAbsent key value).get? other =
      if other = key then some ((dict.get? key).getD value) else dict.get? other := by
  unfold insertIfAbsent
  split
  · rename_i hcontains
    obtain ⟨stored, hstored⟩ := contains_eq_true_iff.mp hcontains
    split
    · rename_i heq
      rw [heq, hstored, Option.getD_some]
    · rfl
  · rename_i hcontains
    rw [Bool.not_eq_true, contains_eq_false_iff] at hcontains
    rw [get?_insert, hcontains, Option.getD_none]

theorem get?_foldl_insert (entries : List (String × α)) (dict : Dict α) (key : String) :
    (entries.foldl (fun dict entry => dict.insert entry.1 entry.2) dict).get? key =
      (entries.reverse.lookup key).or (dict.get? key) := by
  induction entries generalizing dict with
  | nil => rfl
  | cons head rest ih =>
      rw [List.foldl_cons, ih, get?_insert, List.reverse_cons, List.lookup_append, Option.or_assoc,
        lookup_cons_eq_ite]
      congr 1
      split <;> rfl

theorem get?_ofList_eq_some_iff {entries : List (String × α)}
    (hnodup : (entries.map (·.1)).Nodup) {key : String} {value : α} :
    (ofList entries).get? key = some value ↔ (key, value) ∈ entries := by
  have hreverse : (entries.reverse.map (·.1)).Nodup := by
    rwa [List.map_reverse, List.nodup_reverse]
  rw [ofList, get?_foldl_insert, get?_empty, Option.or_none, lookup_eq_some_iff_mem hreverse,
    List.mem_reverse]

theorem get?_ofList {entries : List (String × α)} (hnodup : (entries.map (·.1)).Nodup)
    (key : String) : (ofList entries).get? key = entries.lookup key := by
  apply Option.ext
  intro value
  rw [get?_ofList_eq_some_iff hnodup, lookup_eq_some_iff_mem hnodup]

theorem mem_of_mem_ofList {entries : List (String × α)} {entry : String × α}
    (h : entry ∈ (ofList entries).entries) : entry ∈ entries := by
  have hlookup := get?_eq_some_iff.mpr h
  rw [ofList, get?_foldl_insert, get?_empty, Option.or_none] at hlookup
  exact List.mem_reverse.mp (mem_of_lookup_eq_some hlookup)

/-- The entries stand in the order of their keys. -/
theorem entries_ofList_of_perm {entries ordered : List (String × α)} (hperm : entries.Perm ordered)
    (hordered : ordered.Pairwise fun a b => a.1 < b.1) : (ofList entries).entries = ordered := by
  have hkeys := (Dict.mk ordered hordered).keys_nodup
  have hnodup : (entries.map (·.1)).Nodup := (hperm.map _).nodup_iff.mpr hkeys
  have heq : ofList entries = ⟨ordered, hordered⟩ := by
    apply ext_get?
    intro key
    apply Option.ext
    intro value
    rw [get?_ofList_eq_some_iff hnodup, hperm.mem_iff, get?_eq_some_iff]
  rw [heq]

@[simp]
theorem ofList_entries (dict : Dict α) : ofList dict.entries = dict := by
  apply ext_get?
  intro key
  exact get?_ofList dict.keys_nodup key

theorem perm_entries_ofList {entries : List (String × α)} (hnodup : (entries.map (·.1)).Nodup) :
    (ofList entries).entries.Perm entries := by
  apply (List.perm_ext_iff_of_nodup (ofList entries).keys_nodup.of_map hnodup.of_map).mpr
  rintro ⟨key, value⟩
  rw [← get?_eq_some_iff, get?_ofList_eq_some_iff hnodup]

/-- An entry can be taken out to the front. -/
theorem perm_cons_erase {dict : Dict α} {key : String} {value : α} (h : dict.get? key = some value) :
    dict.entries.Perm ((key, value) :: (dict.erase key).entries) := by
  have hentries : ((key, value) :: (dict.erase key).entries).Nodup := by
    refine List.nodup_cons.mpr ⟨fun hmem => ?_, (dict.erase key).keys_nodup.of_map⟩
    have herased := get?_eq_some_iff.mpr hmem
    rw [get?_erase, if_pos rfl] at herased
    cases herased
  apply (List.perm_ext_iff_of_nodup dict.keys_nodup.of_map hentries).mpr
  rintro ⟨name, other⟩
  rw [List.mem_cons, ← get?_eq_some_iff, ← get?_eq_some_iff, get?_erase, Prod.mk.injEq]
  by_cases hname : name = key
  · subst hname
    simp [h, eq_comm]
  · simp [hname]

theorem ofList_of_perm {entries other : List (String × α)} (hperm : entries.Perm other)
    (hnodup : (entries.map (·.1)).Nodup) : ofList entries = ofList other := by
  apply ext_get?
  intro key
  have hother : (other.map (·.1)).Nodup := (hperm.map _).nodup_iff.mp hnodup
  apply Option.ext
  intro value
  rw [get?_ofList_eq_some_iff hnodup, get?_ofList_eq_some_iff hother, hperm.mem_iff]

theorem ofList_filter {entries : List (String × α)} (hnodup : (entries.map (·.1)).Nodup)
    (key : String) :
    ofList (entries.filter fun entry => entry.1 != key) = (ofList entries).erase key := by
  have hfilter : ((entries.filter fun entry => entry.1 != key).map (·.1)).Nodup :=
    hnodup.sublist (List.filter_sublist.map _)
  apply ext_get?
  intro other
  rw [get?_ofList hfilter, lookup_filter_ne, get?_erase, get?_ofList hnodup]

end Workflow.Dict
