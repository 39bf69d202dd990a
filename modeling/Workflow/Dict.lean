/-!
Dictionaries keyed by strings. The entries ascend by key, so a dictionary is determined by what it
holds: two dictionaries that answer every look-up alike are equal.
-/

namespace Workflow

/-- The entries with `value` under `key`, in place of what `key` held before. -/
def insertEntry {α : Type} (key : String) (value : α) :
    List (String × α) → List (String × α)
  | [] => [(key, value)]
  | (k, v) :: rest =>
    if key < k then (key, value) :: (k, v) :: rest
    else if k < key then (k, v) :: insertEntry key value rest
    else (key, value) :: rest

theorem fst_mem_insertEntry {α : Type} {key : String} {value : α} {entries : List (String × α)}
    {entry : String × α} (h : entry ∈ insertEntry key value entries) :
    entry.1 = key ∨ entry ∈ entries := by
  induction entries with
  | nil => simp_all [insertEntry]
  | cons head rest ih =>
    obtain ⟨k, v⟩ := head
    simp only [insertEntry] at h
    split at h
    · rcases List.mem_cons.1 h with rfl | h
      · exact .inl rfl
      · exact .inr h
    · split at h
      · rcases List.mem_cons.1 h with rfl | h
        · exact .inr (List.mem_cons_self ..)
        · exact (ih h).imp_right (List.mem_cons_of_mem _)
      · rcases List.mem_cons.1 h with rfl | h
        · exact .inl rfl
        · exact .inr (List.mem_cons_of_mem _ h)

theorem pairwise_insertEntry {α : Type} (key : String) (value : α) {entries : List (String × α)}
    (h : entries.Pairwise fun a b => a.1 < b.1) :
    (insertEntry key value entries).Pairwise fun a b => a.1 < b.1 := by
  induction entries with
  | nil => simp [insertEntry]
  | cons head rest ih =>
    obtain ⟨k, v⟩ := head
    obtain ⟨hhead, hrest⟩ := List.pairwise_cons.1 h
    simp only [insertEntry]
    split
    · rename_i hlt
      refine List.pairwise_cons.2 ⟨fun entry hentry => ?_, h⟩
      rcases List.mem_cons.1 hentry with rfl | hentry
      · exact hlt
      · exact String.lt_trans hlt (hhead entry hentry)
    · split
      · rename_i hlt
        refine List.pairwise_cons.2 ⟨fun entry hentry => ?_, ih hrest⟩
        rcases fst_mem_insertEntry hentry with hkey | hentry
        · exact hkey ▸ hlt
        · exact hhead entry hentry
      · rename_i hle hge
        have hkey : key = k :=
          String.le_antisymm (String.not_lt.1 hge) (String.not_lt.1 hle)
        exact List.pairwise_cons.2 ⟨fun entry hentry => hkey ▸ hhead entry hentry, hrest⟩

structure Dict (α : Type) where
  entries : List (String × α)
  ascending : entries.Pairwise fun a b => a.1 < b.1
  deriving DecidableEq

namespace Dict

variable {α β : Type}

def empty : Dict α :=
  { entries := []
    ascending := .nil }

instance : EmptyCollection (Dict α) := ⟨.empty⟩

instance : Inhabited (Dict α) := ⟨.empty⟩

def insert (dict : Dict α) (key : String) (value : α) : Dict α :=
  { entries := insertEntry key value dict.entries
    ascending := pairwise_insertEntry key value dict.ascending }

def get? (dict : Dict α) (key : String) : Option α :=
  dict.entries.lookup key

def contains (dict : Dict α) (key : String) : Bool :=
  (dict.get? key).isSome

def insertIfAbsent (dict : Dict α) (key : String) (value : α) : Dict α :=
  if dict.contains key then dict else dict.insert key value

def erase (dict : Dict α) (key : String) : Dict α :=
  { entries := dict.entries.filter fun entry => entry.1 != key
    ascending := dict.ascending.filter _ }

def size (dict : Dict α) : Nat :=
  dict.entries.length

def isEmpty (dict : Dict α) : Bool :=
  dict.entries.isEmpty

def keys (dict : Dict α) : List String :=
  dict.entries.map (·.1)

/-- Of two entries with one key the later stays. -/
def ofList (entries : List (String × α)) : Dict α :=
  entries.foldl (fun dict entry => dict.insert entry.1 entry.2) empty

def map (f : α → β) (dict : Dict α) : Dict β :=
  { entries := dict.entries.map fun entry => (entry.1, f entry.2)
    ascending := List.pairwise_map.2 dict.ascending }

theorem lookup_cons_eq_ite (key other : String) (value : α) (rest : List (String × α)) :
    ((key, value) :: rest).lookup other = if other = key then some value else rest.lookup other := by
  by_cases h : other = key
  · simp [h]
  · simp [List.lookup_cons, beq_eq_false_iff_ne.2 h, h]

theorem lookup_insertEntry (key other : String) (value : α) (entries : List (String × α)) :
    (insertEntry key value entries).lookup other =
      if other = key then some value else entries.lookup other := by
  induction entries with
  | nil => rw [insertEntry, lookup_cons_eq_ite]
  | cons head rest ih =>
    obtain ⟨k, v⟩ := head
    simp only [insertEntry]
    split
    · rw [lookup_cons_eq_ite]
    · split
      · rename_i hlt
        have hne : k ≠ key := fun heq => String.lt_irrefl _ (heq ▸ hlt)
        rw [lookup_cons_eq_ite, lookup_cons_eq_ite, ih]
        by_cases hk : other = k
        · simp [hk, hne]
        · simp [hk]
      · rename_i hle hge
        have hkey : key = k :=
          String.le_antisymm (String.not_lt.1 hge) (String.not_lt.1 hle)
        rw [lookup_cons_eq_ite, lookup_cons_eq_ite, hkey]
        by_cases hk : other = k <;> simp [hk]

@[simp] theorem get?_empty (key : String) : (empty : Dict α).get? key = none := rfl

theorem get?_insert (dict : Dict α) (key other : String) (value : α) :
    (dict.insert key value).get? other = if other = key then some value else dict.get? other :=
  lookup_insertEntry key other value dict.entries

@[simp] theorem get?_insert_self (dict : Dict α) (key : String) (value : α) :
    (dict.insert key value).get? key = some value := by
  simp [get?_insert]

theorem lookup_filter_ne (key other : String) (entries : List (String × α)) :
    (entries.filter fun entry => entry.1 != key).lookup other =
      if other = key then none else entries.lookup other := by
  induction entries with
  | nil => simp
  | cons head rest ih =>
    obtain ⟨k, v⟩ := head
    by_cases hk : k = key
    · rw [List.filter_cons_of_neg (by simp [hk]), ih, lookup_cons_eq_ite, hk]
      by_cases ho : other = key <;> simp [ho]
    · rw [List.filter_cons_of_pos (by simp [hk]), lookup_cons_eq_ite, lookup_cons_eq_ite, ih]
      by_cases ho : other = k
      · simp [ho, hk]
      · simp [ho]

theorem get?_erase (dict : Dict α) (key other : String) :
    (dict.erase key).get? other = if other = key then none else dict.get? other :=
  lookup_filter_ne key other dict.entries

theorem lookup_eq_none_of_lt {key : String} {entries : List (String × α)}
    (h : ∀ entry ∈ entries, key < entry.1) : entries.lookup key = none := by
  induction entries with
  | nil => rfl
  | cons head rest ih =>
    obtain ⟨k, v⟩ := head
    have hlt : key < k := h (k, v) List.mem_cons_self
    have hne : key ≠ k := fun heq => String.lt_irrefl _ (heq ▸ hlt)
    rw [lookup_cons_eq_ite, if_neg hne]
    exact ih fun entry hentry => h entry (List.mem_cons_of_mem _ hentry)

theorem eq_of_lookup_eq {xs ys : List (String × α)} (hx : xs.Pairwise fun a b => a.1 < b.1)
    (hy : ys.Pairwise fun a b => a.1 < b.1) (h : ∀ key, xs.lookup key = ys.lookup key) :
    xs = ys := by
  induction xs generalizing ys with
  | nil =>
    cases ys with
    | nil => rfl
    | cons y ys => simpa [lookup_cons_eq_ite y.1] using h y.1
  | cons x xs ih =>
    cases ys with
    | nil => simpa [lookup_cons_eq_ite x.1] using h x.1
    | cons y ys =>
      obtain ⟨k, v⟩ := x
      obtain ⟨l, w⟩ := y
      obtain ⟨hxhead, hxrest⟩ := List.pairwise_cons.1 hx
      obtain ⟨hyhead, hyrest⟩ := List.pairwise_cons.1 hy
      have hkey : k = l := by
        refine String.le_antisymm (String.not_lt.1 fun hlt => ?_) (String.not_lt.1 fun hlt => ?_)
        · have hl := h l
          rw [lookup_cons_eq_ite, if_neg fun heq => String.lt_irrefl _ (heq ▸ hlt),
            lookup_eq_none_of_lt fun entry hentry => String.lt_trans hlt (hxhead entry hentry)] at hl
          simp at hl
        · have hk := h k
          rw [lookup_cons_eq_ite k, if_pos rfl, lookup_cons_eq_ite,
            if_neg fun heq => String.lt_irrefl _ (heq ▸ hlt),
            lookup_eq_none_of_lt fun entry hentry => String.lt_trans hlt (hyhead entry hentry)] at hk
          simp at hk
      subst hkey
      have hvalue : v = w := by simpa using h k
      subst hvalue
      have hrest : xs = ys := ih hxrest hyrest fun key => by
        by_cases heq : key = k
        · rw [heq, lookup_eq_none_of_lt hxhead, lookup_eq_none_of_lt hyhead]
        · simpa [lookup_cons_eq_ite, heq] using h key
      rw [hrest]

theorem ext_get? {a b : Dict α} (h : ∀ key, a.get? key = b.get? key) : a = b := by
  obtain ⟨xs, hx⟩ := a
  obtain ⟨ys, hy⟩ := b
  simp only [mk.injEq]
  exact eq_of_lookup_eq hx hy h

end Dict

end Workflow
