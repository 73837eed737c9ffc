import ClassDiagram.OrderedMap

/-!
# Entries of ordered maps

Where the keys are distinct, what a map holds under a key is the one entry with this key, and a
write replaces this entry and no other. A map can be restricted to the keys that pass a test; writes
to other keys do not show in the restricted map.
-/

namespace ClassDiagram.OrderedMap

variable {κ α : Type} [BEq κ] [LawfulBEq κ]

theorem mem_of_get?_eq_some {m : OrderedMap κ α} {key : κ} {value : α}
    (h : m.get? key = some value) : (key, value) ∈ m.entries := by
  obtain ⟨entries⟩ := m
  simp only [get?] at h ⊢
  induction entries with
  | nil => cases h
  | cons e rest ih =>
    obtain ⟨k, v⟩ := e
    by_cases hk : key = k
    · subst hk
      simp only [List.lookup_cons, BEq.rfl, Option.some.injEq] at h
      simp [h]
    · simp only [List.lookup_cons, beq_eq_false_iff_ne.2 hk] at h
      exact List.mem_cons_of_mem _ (ih h)

/-- With distinct keys, the entries of a map are what it answers. -/
theorem get?_eq_some_iff {m : OrderedMap κ α} (hm : m.keys.Nodup) {key : κ} {value : α} :
    m.get? key = some value ↔ (key, value) ∈ m.entries := by
  refine ⟨mem_of_get?_eq_some, ?_⟩
  obtain ⟨entries⟩ := m
  simp only [get?, keys] at hm ⊢
  intro h
  induction entries with
  | nil => cases h
  | cons e rest ih =>
    obtain ⟨k, v⟩ := e
    obtain ⟨hfresh, hrest⟩ := List.nodup_cons.1 hm
    rcases List.mem_cons.1 h with heq | hmem
    · cases heq
      simp
    · have hk : key ≠ k := by
        rintro rfl
        exact hfresh (List.mem_map.2 ⟨_, hmem, rfl⟩)
      simp only [List.lookup_cons, beq_eq_false_iff_ne.2 hk]
      exact ih hrest hmem

theorem get?_eq_none_iff {m : OrderedMap κ α} {key : κ} : m.get? key = none ↔ key ∉ m.keys := by
  obtain ⟨entries⟩ := m
  simp only [get?, keys]
  induction entries with
  | nil => simp
  | cons e rest ih =>
    obtain ⟨k, v⟩ := e
    by_cases hk : key = k
    · simp [hk]
    · simp [List.lookup_cons, beq_eq_false_iff_ne.2 hk, hk, ih]

theorem mem_keys_of_get?_eq_some {m : OrderedMap κ α} {key : κ} {value : α}
    (h : m.get? key = some value) : key ∈ m.keys :=
  List.mem_map_of_mem (mem_of_get?_eq_some h)

theorem mem_entries_put {m : OrderedMap κ α} {key : κ} {value : α} {e : κ × α}
    (h : e ∈ (m.put key value).entries) : e = (key, value) ∨ e ∈ m.entries := by
  obtain ⟨entries⟩ := m
  simp only [put] at h ⊢
  induction entries with
  | nil => exact Or.inl (List.mem_singleton.1 h)
  | cons e' rest ih =>
    obtain ⟨k, v⟩ := e'
    unfold putEntry at h
    by_cases hk : (key == k) = true
    · rw [if_pos hk] at h
      rcases List.mem_cons.1 h with rfl | h
      · exact Or.inl (by rw [eq_of_beq hk])
      · exact Or.inr (List.mem_cons_of_mem _ h)
    · rw [if_neg hk] at h
      rcases List.mem_cons.1 h with rfl | h
      · exact Or.inr List.mem_cons_self
      · exact (ih h).imp_right (List.mem_cons_of_mem _)

theorem keys_put_eq_appendNew (m : OrderedMap κ α) (key : κ) (value : α) :
    (m.put key value).keys = appendNew m.keys key := by
  rw [keys_put, appendNew]
  simp only [List.contains_iff_mem]

omit [LawfulBEq κ] in
theorem put_get? {m : OrderedMap κ α} {key : κ} {value : α} (h : m.get? key = some value) :
    m.put key value = m := by
  obtain ⟨entries⟩ := m
  simp only [put, get?, mk.injEq] at h ⊢
  induction entries with
  | nil => cases h
  | cons e rest ih =>
    obtain ⟨k, v⟩ := e
    unfold putEntry
    by_cases hk : (key == k) = true
    · rw [List.lookup_cons, hk] at h
      rw [if_pos hk, Option.some.inj h]
    · rw [List.lookup_cons, Bool.eq_false_iff.2 hk] at h
      rw [if_neg hk, ih h]

/-- With distinct keys, the entries are the keys with what the map answers for them. -/
theorem entries_eq_map {m : OrderedMap κ α} (hm : m.keys.Nodup) (default : α) :
    m.entries = m.keys.map fun key => (key, (m.get? key).getD default) := by
  have hself : ∀ e ∈ m.entries, (e.1, (m.get? e.1).getD default) = e := by
    intro e he
    rw [(get?_eq_some_iff hm).2 he, Option.getD_some]
  rw [keys, List.map_map]
  exact (List.map_id _).symm.trans (List.map_congr_left fun e he => (hself e he).symm)

/-! ## Entries that come after others -/

theorem putEntry_append_of_not_mem {front : List (κ × α)} {key : κ} (h : key ∉ front.map Prod.fst) (value : α)
    (rest : List (κ × α)) :
    putEntry key value (front ++ rest) = front ++ putEntry key value rest := by
  induction front with
  | nil => rfl
  | cons e front ih =>
    obtain ⟨k, v⟩ := e
    rw [List.map_cons, List.mem_cons, not_or] at h
    have hother : (key == k) = false := beq_eq_false_iff_ne.2 h.1
    simp [putEntry, hother, ih h.2]

theorem put_of_not_mem {m : OrderedMap κ α} {key : κ} (h : key ∉ m.keys) (value : α) :
    m.put key value = ⟨m.entries ++ [(key, value)]⟩ := by
  have hput := putEntry_append_of_not_mem h value []
  rw [List.append_nil] at hput
  rw [put, hput]
  rfl

theorem lookup_append_of_not_mem {front : List (κ × α)} {key : κ} (h : key ∉ front.map Prod.fst)
    (rest : List (κ × α)) : (front ++ rest).lookup key = rest.lookup key := by
  have hnone : front.lookup key = none := get?_eq_none_iff.2 h
  rw [List.lookup_append, hnone, Option.none_or]

omit [LawfulBEq κ] in
/-- What a map answers stays when entries are added behind its own. -/
theorem get?_of_prefix {m m' : OrderedMap κ α} (h : m.entries <+: m'.entries) {key : κ} {value : α}
    (hget : m.get? key = some value) : m'.get? key = some value := by
  obtain ⟨rest, hrest⟩ := h
  have hget : m.entries.lookup key = some value := hget
  rw [get?, ← hrest, List.lookup_append, hget, Option.some_or]

/-! ## Restriction to some of the keys -/

/-- The entries whose keys pass a test. -/
def restrict (m : OrderedMap κ α) (p : κ → Bool) : OrderedMap κ α :=
  ⟨m.entries.filter fun e => p e.1⟩

theorem get?_restrict (m : OrderedMap κ α) (p : κ → Bool) (key : κ) :
    (m.restrict p).get? key = if p key then m.get? key else none := by
  obtain ⟨entries⟩ := m
  simp only [restrict, get?]
  induction entries with
  | nil => simp
  | cons e rest ih =>
    obtain ⟨k, v⟩ := e
    by_cases hk : key = k
    · subst hk
      cases hp : p key
      · simpa [hp] using ih
      · simp [hp]
    · have hother : (key == k) = false := beq_eq_false_iff_ne.2 hk
      rw [List.lookup_cons, hother, ← ih]
      cases hp : p k <;> simp [hp, List.lookup_cons, hother]

theorem restrict_put (m : OrderedMap κ α) (p : κ → Bool) (key : κ) (value : α) :
    (m.put key value).restrict p =
      if p key then (m.restrict p).put key value else m.restrict p := by
  obtain ⟨entries⟩ := m
  simp only [restrict, put]
  induction entries with
  | nil => cases hp : p key <;> simp [putEntry, hp]
  | cons e rest ih =>
    obtain ⟨k, v⟩ := e
    by_cases hk : key = k
    · subst hk
      cases hp : p key <;> simp [putEntry, hp]
    · have hother : (key == k) = false := beq_eq_false_iff_ne.2 hk
      cases hpk : p k <;> cases hp : p key <;> simp_all [putEntry]

end ClassDiagram.OrderedMap
