/-!
# Maps that keep their order

A map is its list of entries, in the order in which the keys first came. Writing to a key that is
present changes its value in place; writing to a new key appends an entry.
-/

namespace ClassDiagram

/-- A map from keys to values, in the order of the keys' first appearance. -/
structure OrderedMap (κ α : Type) where
  /-- The entries, oldest key first. -/
  entries : List (κ × α)
  deriving Repr, BEq

namespace OrderedMap

variable {κ α : Type}

/-- The map without entries. -/
def empty : OrderedMap κ α := ⟨[]⟩

/-- The keys, oldest first. -/
def keys (m : OrderedMap κ α) : List κ := m.entries.map Prod.fst

/-- The values, by the age of their keys. -/
def values (m : OrderedMap κ α) : List α := m.entries.map Prod.snd

/-- The number of entries. -/
def size (m : OrderedMap κ α) : Nat := m.entries.length

variable [BEq κ]

/-- The value of a key. -/
def get? (m : OrderedMap κ α) (key : κ) : Option α := m.entries.lookup key

/-- Whether a key is present. -/
def contains (m : OrderedMap κ α) (key : κ) : Bool := (m.get? key).isSome

/-- Writes to a key of a list of entries. -/
def putEntry (key : κ) (value : α) : List (κ × α) → List (κ × α)
  | [] => [(key, value)]
  | (k, v) :: rest => if key == k then (k, value) :: rest else (k, v) :: putEntry key value rest

/-- Writes to a key. -/
def put (m : OrderedMap κ α) (key : κ) (value : α) : OrderedMap κ α :=
  ⟨putEntry key value m.entries⟩

/-! ## What a write does -/

variable [LawfulBEq κ]

theorem lookup_putEntry_self (key : κ) (value : α) (entries : List (κ × α)) :
    (putEntry key value entries).lookup key = some value := by
  induction entries with
  | nil => simp [putEntry]
  | cons e rest ih =>
    obtain ⟨k, v⟩ := e
    unfold putEntry
    by_cases h : (key == k) = true
    · rw [if_pos h]
      simp [List.lookup_cons, h]
    · rw [if_neg h]
      simp [List.lookup_cons, h, ih]

theorem lookup_putEntry_of_ne {key other : κ} (hne : other ≠ key) (value : α)
    (entries : List (κ × α)) :
    (putEntry key value entries).lookup other = entries.lookup other := by
  induction entries with
  | nil => simp [putEntry, List.lookup_cons, beq_eq_false_iff_ne.2 hne]
  | cons e rest ih =>
    obtain ⟨k, v⟩ := e
    unfold putEntry
    by_cases h : (key == k) = true
    · rw [if_pos h]
      have hk : (other == k) = false := beq_eq_false_iff_ne.2 (eq_of_beq h ▸ hne)
      simp [List.lookup_cons, hk]
    · rw [if_neg h]
      simp [List.lookup_cons, ih]

/-- A write is read back. -/
theorem get?_put_self (m : OrderedMap κ α) (key : κ) (value : α) :
    (m.put key value).get? key = some value :=
  lookup_putEntry_self key value m.entries

/-- A write leaves the other keys alone. -/
theorem get?_put_of_ne (m : OrderedMap κ α) {key other : κ} (hne : other ≠ key) (value : α) :
    (m.put key value).get? other = m.get? other :=
  lookup_putEntry_of_ne hne value m.entries

theorem keys_putEntry (key : κ) (value : α) (entries : List (κ × α)) :
    (putEntry key value entries).map Prod.fst =
      if key ∈ entries.map Prod.fst then entries.map Prod.fst
      else entries.map Prod.fst ++ [key] := by
  induction entries with
  | nil => simp [putEntry]
  | cons e rest ih =>
    obtain ⟨k, v⟩ := e
    unfold putEntry
    by_cases h : (key == k) = true
    · rw [if_pos h]
      simp [eq_of_beq h]
    · rw [if_neg h]
      have hk : key ≠ k := fun he => h (beq_iff_eq.2 he)
      simp only [List.map_cons, ih, List.mem_cons, hk, false_or]
      by_cases hm : key ∈ rest.map Prod.fst
      · rw [if_pos hm, if_pos hm]
      · rw [if_neg hm, if_neg hm, List.cons_append]

/-- A write keeps the keys in order and appends a new one. -/
theorem keys_put (m : OrderedMap κ α) (key : κ) (value : α) :
    (m.put key value).keys = if key ∈ m.keys then m.keys else m.keys ++ [key] :=
  keys_putEntry key value m.entries

/-- Keys stay distinct. -/
theorem nodup_keys_put {m : OrderedMap κ α} (h : m.keys.Nodup) (key : κ) (value : α) :
    (m.put key value).keys.Nodup := by
  rw [keys_put]
  by_cases hm : key ∈ m.keys
  · rw [if_pos hm]
    exact h
  · rw [if_neg hm]
    refine List.nodup_append.2 ⟨h, by simp, ?_⟩
    intro a ha b hb hab
    rw [List.mem_singleton.1 hb] at hab
    exact hm (hab ▸ ha)

end OrderedMap

/-- Appends an element that is not yet in the list. -/
def appendNew {α : Type} [BEq α] (xs : List α) (x : α) : List α :=
  if xs.contains x then xs else xs ++ [x]

theorem mem_appendNew {α : Type} [BEq α] [LawfulBEq α] {xs : List α} {x y : α} :
    y ∈ appendNew xs x ↔ y ∈ xs ∨ y = x := by
  unfold appendNew
  by_cases h : xs.contains x = true
  · rw [if_pos h]
    have hx : x ∈ xs := List.contains_iff_mem.1 h
    exact ⟨Or.inl, fun hy => hy.elim id fun he => he ▸ hx⟩
  · rw [if_neg h]
    simp

theorem nodup_appendNew {α : Type} [BEq α] [LawfulBEq α] {xs : List α} (h : xs.Nodup) (x : α) :
    (appendNew xs x).Nodup := by
  unfold appendNew
  by_cases hx : xs.contains x = true
  · rw [if_pos hx]
    exact h
  · rw [if_neg hx]
    refine List.nodup_append.2 ⟨h, by simp, ?_⟩
    intro a ha b hb hab
    rw [List.mem_singleton.1 hb] at hab
    exact hx (List.contains_iff_mem.2 (hab ▸ ha))

end ClassDiagram
