/-!
# Maps that keep the order of insertion

A map from texts to values whose entries stay in the order in which their keys first came in.
Giving a key a new value leaves it at its place.  No key occurs twice, and the type says so.
-/

namespace VersionSweep

/-- Entries in insertion order, each key once. -/
structure OrderedMap (α : Type) where
  entries : List (String × α)
  nodup : (entries.map Prod.fst).Nodup

namespace OrderedMap

variable {α : Type}

/-- The entries with one key set: in place if it is there, at the end if not. -/
def setEntry (key : String) (value : α) : List (String × α) → List (String × α)
  | [] => [(key, value)]
  | entry :: rest =>
    if entry.1 = key then (key, value) :: rest else entry :: setEntry key value rest

def valueOf? (key : String) : List (String × α) → Option α
  | [] => none
  | entry :: rest => if entry.1 = key then some entry.2 else valueOf? key rest

theorem keys_setEntry (key : String) (value : α) (entries : List (String × α)) :
    (setEntry key value entries).map Prod.fst =
      if key ∈ entries.map Prod.fst then entries.map Prod.fst
      else entries.map Prod.fst ++ [key] := by
  induction entries with
  | nil => simp [setEntry]
  | cons entry rest ih =>
    by_cases h : entry.1 = key
    · simp [setEntry, h]
    · have h' : ¬ key = entry.1 := fun e ↦ h e.symm
      by_cases hm : key ∈ rest.map Prod.fst <;> simp_all [setEntry]

theorem nodup_setEntry (key : String) (value : α) {entries : List (String × α)}
    (h : (entries.map Prod.fst).Nodup) : ((setEntry key value entries).map Prod.fst).Nodup := by
  rw [keys_setEntry]
  split
  · exact h
  · rename_i hm
    rw [List.nodup_append]
    refine ⟨h, by simp, fun a ha b hb e ↦ hm ?_⟩
    rw [List.mem_singleton] at hb
    exact hb ▸ e ▸ ha

def empty : OrderedMap α := ⟨[], by simp⟩

instance : Inhabited (OrderedMap α) := ⟨empty⟩

def insert (map : OrderedMap α) (key : String) (value : α) : OrderedMap α :=
  ⟨setEntry key value map.entries, nodup_setEntry key value map.nodup⟩

def erase (map : OrderedMap α) (key : String) : OrderedMap α :=
  ⟨map.entries.filter fun entry ↦ entry.1 ≠ key,
    List.Sublist.nodup (List.Sublist.map _ List.filter_sublist) map.nodup⟩

def get? (map : OrderedMap α) (key : String) : Option α :=
  valueOf? key map.entries

def contains (map : OrderedMap α) (key : String) : Bool :=
  (map.get? key).isSome

def keys (map : OrderedMap α) : List String :=
  map.entries.map Prod.fst

def values (map : OrderedMap α) : List α :=
  map.entries.map Prod.snd

def size (map : OrderedMap α) : Nat :=
  map.entries.length

def isEmpty (map : OrderedMap α) : Bool :=
  map.entries.isEmpty

/-- The map of a list of pairs: a repeated key keeps its first place and its last value. -/
def ofList (pairs : List (String × α)) : OrderedMap α :=
  pairs.foldl (fun map pair ↦ map.insert pair.1 pair.2) empty

theorem valueOf?_setEntry (key key' : String) (value : α) (entries : List (String × α)) :
    valueOf? key' (setEntry key value entries) =
      if key = key' then some value else valueOf? key' entries := by
  induction entries with
  | nil => simp [setEntry, valueOf?]
  | cons entry rest ih => grind [setEntry, valueOf?]

theorem valueOf?_filter_ne (key key' : String) (entries : List (String × α)) :
    valueOf? key' (entries.filter fun entry ↦ entry.1 ≠ key) =
      if key = key' then none else valueOf? key' entries := by
  induction entries with
  | nil => simp [valueOf?]
  | cons entry rest ih => grind [valueOf?]

theorem eq_or_mem_of_mem_setEntry {key : String} {value : α} {entry : String × α}
    {entries : List (String × α)} (h : entry ∈ setEntry key value entries) :
    entry = (key, value) ∨ entry ∈ entries := by
  induction entries with
  | nil => exact .inl (List.mem_singleton.1 h)
  | cons first rest ih =>
    rw [setEntry] at h
    split at h
    · rcases List.mem_cons.1 h with h | h
      · exact .inl h
      · exact .inr (List.mem_cons_of_mem _ h)
    · rcases List.mem_cons.1 h with rfl | h
      · exact .inr (List.mem_cons_self ..)
      · exact (ih h).imp_right (List.mem_cons_of_mem _)

theorem mem_of_valueOf? {key : String} {value : α} {entries : List (String × α)}
    (h : valueOf? key entries = some value) : (key, value) ∈ entries := by
  induction entries with
  | nil => cases h
  | cons first rest ih =>
    rw [valueOf?] at h
    split at h
    · rename_i hkey
      rw [← hkey, ← Option.some.inj h]
      exact List.mem_cons_self ..
    · exact List.mem_cons_of_mem _ (ih h)

theorem valueOf?_of_mem {key : String} {value : α} {entries : List (String × α)}
    (hnodup : (entries.map Prod.fst).Nodup) (h : (key, value) ∈ entries) :
    valueOf? key entries = some value := by
  induction entries with
  | nil => cases h
  | cons entry rest ih =>
    obtain ⟨hfresh, hrest⟩ := List.nodup_cons.1 hnodup
    rw [valueOf?]
    obtain rfl | h := List.mem_cons.1 h
    · rw [if_pos rfl]
    · have hne : ¬ entry.1 = key := fun hkey ↦
        hfresh (hkey ▸ List.mem_map_of_mem (f := Prod.fst) h)
      rw [if_neg hne, ih hrest h]

theorem setEntry_of_not_mem {key : String} {value : α} {entries : List (String × α)}
    (h : key ∉ entries.map Prod.fst) : setEntry key value entries = entries ++ [(key, value)] := by
  induction entries with
  | nil => rfl
  | cons entry rest ih =>
    rw [List.map_cons, List.mem_cons, not_or] at h
    rw [setEntry, if_neg fun heq ↦ h.1 heq.symm, ih h.2, List.cons_append]

/-- A map gives a key only a value that it holds. -/
theorem mem_entries_of_get? {map : OrderedMap α} {key : String} {value : α}
    (h : map.get? key = some value) : (key, value) ∈ map.entries :=
  mem_of_valueOf? h

/-- The entries of a map are its keys with their values. -/
theorem mem_entries_iff {map : OrderedMap α} {key : String} {value : α} :
    (key, value) ∈ map.entries ↔ map.get? key = some value :=
  ⟨valueOf?_of_mem map.nodup, mem_entries_of_get?⟩

theorem mem_keys_of_contains {map : OrderedMap α} {key : String} (h : map.contains key = true) :
    key ∈ map.keys := by
  obtain ⟨value, hvalue⟩ := Option.isSome_iff_exists.1 h
  exact List.mem_map_of_mem (mem_entries_of_get? hvalue)

theorem contains_iff_mem_keys {map : OrderedMap α} {key : String} :
    map.contains key = true ↔ key ∈ map.keys := by
  refine ⟨mem_keys_of_contains, fun h ↦ ?_⟩
  obtain ⟨⟨key, value⟩, hentry, rfl⟩ := List.mem_map.1 h
  exact Option.isSome_iff_exists.2 ⟨value, mem_entries_iff.1 hentry⟩

/-- A new key comes in behind all others. -/
theorem entries_insert_of_not_mem {map : OrderedMap α} {key : String} (value : α)
    (h : key ∉ map.keys) : (map.insert key value).entries = map.entries ++ [(key, value)] :=
  setEntry_of_not_mem h

/-- Giving a key a value brings in no other entry. -/
theorem eq_or_mem_of_mem_insert {map : OrderedMap α} {key : String} {value : α}
    {entry : String × α} (h : entry ∈ (map.insert key value).entries) :
    entry = (key, value) ∨ entry ∈ map.entries :=
  eq_or_mem_of_mem_setEntry h

@[simp] theorem get?_empty (key : String) : (empty : OrderedMap α).get? key = none := rfl

theorem get?_insert (map : OrderedMap α) (key key' : String) (value : α) :
    (map.insert key value).get? key' = if key = key' then some value else map.get? key' :=
  valueOf?_setEntry key key' value map.entries

theorem get?_erase (map : OrderedMap α) (key key' : String) :
    (map.erase key).get? key' = if key = key' then none else map.get? key' :=
  valueOf?_filter_ne key key' map.entries

theorem keys_insert (map : OrderedMap α) (key : String) (value : α) :
    (map.insert key value).keys = if key ∈ map.keys then map.keys else map.keys ++ [key] :=
  keys_setEntry key value map.entries

end OrderedMap

end VersionSweep
