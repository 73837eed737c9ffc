import ClassDiagram.Text.Cursor

/-!
# Positions between two parts of a text

`Cursor.between u v` stands behind `u` and in front of `v`. Every reading function takes such a
position to another one, so a reading is described by the part it passes, and offsets and previous
characters take care of themselves.

`Cursor.Barren attempt u v w` says that an attempt fails everywhere in the part `v` of `u ++ v ++ w`.
Each of the three searches passes a barren part unchanged (`find?_barren`, `scan_barren`,
`cut_barren`); a scan also has `scan_success`, for an attempt that resumes at the end of what it
read.
-/

namespace ClassDiagram.Text

/-- No character of the class comes first. -/
def Stops (p : Char → Bool) (cs : List Char) : Prop := ∀ c ∈ cs.head?, p c = false

instance (p : Char → Bool) (cs : List Char) : Decidable (Stops p cs) :=
  decidable_of_iff (cs.head?.all (!p ·) = true) (by cases cs <;> simp [Stops])

section Stops

variable {p : Char → Bool}

@[simp] theorem stops_nil : Stops p [] := by simp [Stops]

@[simp] theorem stops_cons {c : Char} {cs : List Char} : Stops p (c :: cs) ↔ p c = false := by
  simp [Stops]

theorem Stops.append {cs : List Char} (hne : cs ≠ []) (h : ∀ c ∈ cs, p c = false)
    (ds : List Char) : Stops p (cs ++ ds) := by
  obtain ⟨c, cs, rfl⟩ := List.exists_cons_of_ne_nil hne
  simp [h]

theorem Stops.front {cs ds : List Char} (h : Stops p ds) (hcs : cs <+: ds) : Stops p cs := by
  obtain ⟨es, rfl⟩ := hcs
  cases cs with
  | nil => exact stops_nil
  | cons c cs => exact stops_cons.2 (stops_cons.1 h)

theorem takeWhile_append_of_stops {v w : List Char} (hv : ∀ c ∈ v, p c = true)
    (hw : Stops p w) : (v ++ w).takeWhile p = v := by
  rw [List.takeWhile_append_of_pos hv]
  cases w with
  | nil => simp
  | cons c w => simp [stops_cons.1 hw]

theorem dropWhile_append_of_stops {v w : List Char} (hv : ∀ c ∈ v, p c = true)
    (hw : Stops p w) : (v ++ w).dropWhile p = w := by
  rw [List.dropWhile_append_of_pos hv]
  cases w with
  | nil => rfl
  | cons c w => simp [stops_cons.1 hw]

end Stops

@[simp] theorem byteSize_nil : byteSize [] = 0 := rfl

theorem byteSize_cons (c : Char) (cs : List Char) :
    byteSize (c :: cs) = c.utf8Size + byteSize cs :=
  rfl

theorem byteSize_pos {cs : List Char} (h : cs ≠ []) : 0 < byteSize cs := by
  obtain ⟨c, cs, rfl⟩ := List.exists_cons_of_ne_nil h
  have := c.utf8Size_pos
  rw [byteSize_cons]
  omega

theorem takeBytes_byteSize (cs ds : List Char) : takeBytes (byteSize cs) (cs ++ ds) = cs := by
  induction cs with
  | nil => simp [takeBytes]
  | cons c cs ih =>
    obtain ⟨n, hn⟩ : ∃ n, byteSize (c :: cs) = n + 1 :=
      Nat.exists_eq_succ_of_ne_zero (Nat.ne_of_gt (byteSize_pos (List.cons_ne_nil c cs)))
    have hrest : n + 1 - c.utf8Size = byteSize cs := by
      rw [← hn, byteSize_cons]
      omega
    rw [hn, List.cons_append, takeBytes, hrest, ih]

namespace Cursor

/-- The position behind `u` and in front of `v`. -/
def between (u v : List Char) : Cursor := ⟨byteSize u, u.getLast?, v⟩

theorem ofText_eq (cs : List Char) : ofText cs = between [] cs := rfl

@[simp] theorem rest_between (u v : List Char) : (between u v).rest = v := rfl

@[simp] theorem offset_between (u v : List Char) : (between u v).offset = byteSize u := rfl

/-! ## Readings -/

theorem past_between (u v w : List Char) :
    (between u (v ++ w)).past v w = between (u ++ v) w := by
  simp [past, between, byteSize_append, List.getLast?_append]

theorem past_cons (u : List Char) (c : Char) (w : List Char) :
    (between u (c :: w)).past [c] w = between (u ++ [c]) w :=
  past_between u [c] w

theorem upTo_between (u v w : List Char) :
    (between u (v ++ w)).upTo (between (u ++ v) w) = v := by
  simp [upTo, byteSize_append, takeBytes_byteSize]

theorem skipWhile_between {p : Char → Bool} (u : List Char) {v w : List Char}
    (hv : ∀ c ∈ v, p c = true) (hw : Stops p w) :
    (between u (v ++ w)).skipWhile p = between (u ++ v) w := by
  unfold skipWhile
  rw [rest_between, takeWhile_append_of_stops hv hw, dropWhile_append_of_stops hv hw, past_between]

theorem skipWhile_of_stops {p : Char → Bool} (u : List Char) {w : List Char} (hw : Stops p w) :
    (between u w).skipWhile p = between u w := by
  simpa using skipWhile_between u (v := []) (by simp) hw

/-- Characters of the class already passed make no difference to where the run ends. -/
theorem skipWhile_append {p : Char → Bool} (u : List Char) {v : List Char} (w : List Char)
    (hv : ∀ c ∈ v, p c = true) :
    (between u (v ++ w)).skipWhile p = (between (u ++ v) w).skipWhile p := by
  simp [skipWhile, List.takeWhile_append_of_pos hv, List.dropWhile_append_of_pos hv, past, between,
    byteSize_append, List.getLast?_append, Nat.add_assoc, Option.or_assoc]

theorem skipSome?_between {p : Char → Bool} (u : List Char) {v w : List Char} (hne : v ≠ [])
    (hv : ∀ c ∈ v, p c = true) (hw : Stops p w) :
    (between u (v ++ w)).skipSome? p = some (between (u ++ v) w) := by
  rw [← skipWhile_between u hv hw]
  obtain ⟨c, cs, rfl⟩ := List.exists_cons_of_ne_nil hne
  simp [skipSome?, hv]

theorem skipSome?_of_stops {p : Char → Bool} (u : List Char) {w : List Char} (hw : Stops p w) :
    (between u w).skipSome? p = none := by
  cases w with
  | nil => rfl
  | cons c w => simp [skipSome?, stops_cons.1 hw]

theorem token?_between (u : List Char) (word : String) (w : List Char) :
    (between u (word.toList ++ w)).token? word = some (between (u ++ word.toList) w) := by
  simp [token?, List.isPrefixOf_iff_prefix.2 (List.prefix_append _ _), past_between]

theorem token?_eq_none {k : Cursor} (word : String) (h : word.toList.isPrefixOf k.rest = false) :
    k.token? word = none := by
  simp [token?, h]

/-- A text whose first character is another one does not start with the word. -/
theorem token?_of_stops {k : Cursor} (word : String) {c : Char} {cs : List Char}
    (hword : word.toList = c :: cs) (hk : Stops (· == c) k.rest) : k.token? word = none := by
  apply token?_eq_none
  rw [hword]
  cases hrest : k.rest with
  | nil => rfl
  | cons d ds =>
    have hdc : d ≠ c := by simpa [hrest] using hk
    simp [List.isPrefixOf, hdc.symm]

/-! ## Offsets -/

theorem atOffsetFrom?_append (offset : Nat) (previous : Option Char) (v w : List Char) :
    atOffsetFrom? (offset + byteSize v) offset previous (v ++ w) =
      some ⟨offset + byteSize v, v.getLast?.or previous, w⟩ := by
  induction v generalizing offset previous with
  | nil => cases w <;> simp [atOffsetFrom?]
  | cons c v ih =>
    have hpos := byteSize_pos (List.cons_ne_nil c v)
    have hnext : offset + byteSize (c :: v) = offset + c.utf8Size + byteSize v := by
      rw [byteSize_cons, Nat.add_assoc]
    rw [List.cons_append, atOffsetFrom?, if_neg (by omega), hnext, ih, List.getLast?_cons]
    cases v.getLast? <;> rfl

/-- The offset of a part's end leads to the position behind it. -/
theorem atOffset?_append (u v : List Char) :
    atOffset? (u ++ v) (byteSize u) = some (between u v) := by
  simpa [atOffset?, between] using atOffsetFrom?_append 0 none u v

theorem exists_append_of_atOffsetFrom? {target offset : Nat} {previous : Option Char}
    {cs : List Char} {k : Cursor} (h : atOffsetFrom? target offset previous cs = some k) :
    ∃ v w, cs = v ++ w ∧ target = offset + byteSize v ∧ k = ⟨target, v.getLast?.or previous, w⟩ := by
  induction cs generalizing offset previous with
  | nil =>
    rw [atOffsetFrom?] at h
    split at h
    · cases h
      exact ⟨[], [], by simp_all⟩
    · cases h
  | cons c cs ih =>
    rw [atOffsetFrom?] at h
    split at h
    · cases h
      exact ⟨[], c :: cs, by simp_all⟩
    · obtain ⟨v, w, rfl, htarget, rfl⟩ := ih h
      refine ⟨c :: v, w, rfl, ?_, ?_⟩
      · rw [htarget, byteSize_cons, Nat.add_assoc]
      · rw [List.getLast?_cons]
        cases v.getLast? <;> rfl

/-- The offsets of a text that lead to a position are the sizes of its leading parts. -/
theorem atOffset?_eq_some_iff {text : List Char} {n : Nat} {k : Cursor} :
    atOffset? text n = some k ↔ ∃ u v, text = u ++ v ∧ n = byteSize u ∧ k = between u v := by
  constructor
  · intro h
    obtain ⟨u, v, rfl, hn, rfl⟩ := exists_append_of_atOffsetFrom? h
    rw [Nat.zero_add] at hn
    exact ⟨u, v, rfl, hn, by simp [between, hn]⟩
  · rintro ⟨u, v, rfl, rfl, rfl⟩
    exact atOffset?_append u v

/-! ## Searches -/

/-- The attempt fails everywhere in `v`, read between `u` and `w`. -/
def Barren {α : Type} (attempt : Cursor → Option α) : List Char → List Char → List Char → Prop
  | _, [], _ => True
  | u, c :: v, w => attempt (between u (c :: v ++ w)) = none ∧ Barren attempt (u ++ [c]) v w

section Search

variable {α β : Type} {attempt : Cursor → Option α}

theorem Barren.append {u v₁ v₂ w : List Char} (h₁ : Barren attempt u v₁ (v₂ ++ w))
    (h₂ : Barren attempt (u ++ v₁) v₂ w) : Barren attempt u (v₁ ++ v₂) w := by
  induction v₁ generalizing u with
  | nil => simpa using h₂
  | cons c v₁ ih =>
    refine ⟨?_, ih h₁.2 ?_⟩
    · simpa using h₁.1
    · simpa using h₂

theorem Barren.map {u v w : List Char} (h : Barren attempt u v w) (f : α → β) :
    Barren (fun k => (attempt k).map f) u v w := by
  induction v generalizing u with
  | nil => trivial
  | cons c v ih => exact ⟨Option.map_eq_none_iff.2 h.1, ih h.2⟩

/-- An attempt that fails in front of every character of a class fails throughout a run of it. -/
theorem barren_of_forall {u v w : List Char}
    (h : ∀ c ∈ v, ∀ u w, attempt (between u (c :: w)) = none) : Barren attempt u v w := by
  induction v generalizing u with
  | nil => trivial
  | cons c v ih =>
    refine ⟨h c List.mem_cons_self u _, ih fun d hd => h d (List.mem_cons_of_mem c hd)⟩

theorem find?_cons (attempt : Cursor → Option α) (u : List Char) (c : Char) (w : List Char) :
    find? attempt (between u (c :: w)) =
      (attempt (between u (c :: w))).or (find? attempt (between (u ++ [c]) w)) := by
  simp only [find?, between, findFrom?, byteSize_append, List.getLast?_append, byteSize_cons]
  cases attempt ⟨byteSize u, u.getLast?, c :: w⟩ <;> simp

theorem find?_barren {u v w : List Char} (h : Barren attempt u v w) :
    find? attempt (between u (v ++ w)) = find? attempt (between (u ++ v) w) := by
  induction v generalizing u with
  | nil => simp
  | cons c v ih =>
    rw [List.cons_append, find?_cons, ← List.cons_append, h.1, ih h.2]
    simp

theorem find?_here {u w : List Char} {a : α} (h : attempt (between u w) = some a) :
    find? attempt (between u w) = some a := by
  cases w with
  | nil => exact h
  | cons c w => simp [find?_cons, h]

/-- A search with no success ends behind the last character. -/
theorem find?_eq_none {u v : List Char} (h : Barren attempt u v [])
    (hend : attempt (between (u ++ v) []) = none) : find? attempt (between u v) = none := by
  rw [← List.append_nil v, find?_barren h]
  exact hend

theorem barren_of_find?_eq_none {u v : List Char} (h : find? attempt (between u v) = none) :
    Barren attempt u v [] := by
  induction v generalizing u with
  | nil => trivial
  | cons c v ih =>
    rw [find?_cons, Option.or_eq_none_iff] at h
    exact ⟨by simpa using h.1, ih h.2⟩

/-- What a search finds was read somewhere. -/
theorem exists_of_find? {k : Cursor} {a : α} (h : find? attempt k = some a) :
    ∃ k', attempt k' = some a := by
  obtain ⟨offset, previous, rest⟩ := k
  simp only [find?] at h
  induction rest generalizing offset previous with
  | nil => exact ⟨_, h⟩
  | cons c rest ih =>
    rw [findFrom?] at h
    split at h
    next a' hread => exact ⟨_, hread.trans h⟩
    next hfail => exact ih _ _ h

/-- What a search finds was read behind a part in which every attempt fails. -/
theorem exists_barren_of_find? {u v : List Char} {a : α}
    (h : find? attempt (between u v) = some a) :
    ∃ v₁ v₂, v = v₁ ++ v₂ ∧ Barren attempt u v₁ v₂ ∧ attempt (between (u ++ v₁) v₂) = some a := by
  induction v generalizing u with
  | nil =>
    refine ⟨[], [], rfl, trivial, ?_⟩
    rw [List.append_nil]
    exact h
  | cons c v ih =>
    rw [find?_cons, Option.or_eq_some_iff] at h
    rcases h with hread | ⟨hfail, hlater⟩
    · exact ⟨[], c :: v, rfl, trivial, by simpa using hread⟩
    · obtain ⟨v₁, v₂, rfl, hbarren, hread⟩ := ih hlater
      exact ⟨c :: v₁, v₂, rfl, ⟨hfail, hbarren⟩, by simpa using hread⟩

/-- What a search finds was read in front of the last part of the text. -/
theorem exists_append_of_find? {u v : List Char} {a : α}
    (h : find? attempt (between u v) = some a) :
    ∃ v₁ v₂, v = v₁ ++ v₂ ∧ attempt (between (u ++ v₁) v₂) = some a := by
  obtain ⟨v₁, v₂, hv, -, hread⟩ := exists_barren_of_find? h
  exact ⟨v₁, v₂, hv, hread⟩

theorem cutFrom_barren {attempt : Cursor → Option Cursor} {u v : List Char}
    (h : Barren attempt u v []) {resume : Nat} (hresume : resume ≤ byteSize u) :
    cutFrom attempt resume (byteSize u) u.getLast? v = v := by
  induction v generalizing u with
  | nil => rfl
  | cons c v ih =>
    have hfail : attempt ⟨byteSize u, u.getLast?, c :: v⟩ = none := by
      simpa [between] using h.1
    have hnext := ih h.2 (by rw [byteSize_append]; omega)
    simp only [byteSize_append, byteSize_cons, byteSize_nil, Nat.add_zero,
      List.getLast?_append, List.getLast?_singleton, Option.some_or] at hnext
    rw [cutFrom, if_neg (by omega), hfail]
    simp only [hnext]

theorem cut_barren {attempt : Cursor → Option Cursor} {v : List Char}
    (h : Barren attempt [] v []) : cut attempt v = v :=
  cutFrom_barren h (Nat.zero_le _)

end Search

section Scan

variable {α : Type} {attempt : Cursor → Option (α × Nat)}

theorem scan_nil (attempt : Cursor → Option (α × Nat)) (resume : Nat) (u : List Char) :
    scan attempt resume (between u []) = [] := rfl

theorem scan_cons (attempt : Cursor → Option (α × Nat)) (resume : Nat) (u : List Char) (c : Char)
    (w : List Char) :
    scan attempt resume (between u (c :: w)) =
      if byteSize u < resume then scan attempt resume (between (u ++ [c]) w)
      else
        match attempt (between u (c :: w)) with
        | some (a, next) => a :: scan attempt next (between (u ++ [c]) w)
        | none => scan attempt resume (between (u ++ [c]) w) := by
  have hnext : between (u ++ [c]) w = ⟨byteSize u + c.utf8Size, some c, w⟩ := by
    simp [between, byteSize_append, byteSize_cons]
  rw [hnext]
  rfl

/-- What a scan finds was read somewhere. -/
theorem exists_of_mem_scan {resume : Nat} {k : Cursor} {a : α} (h : a ∈ scan attempt resume k) :
    ∃ k' next, attempt k' = some (a, next) := by
  obtain ⟨offset, previous, rest⟩ := k
  simp only [scan] at h
  induction rest generalizing resume offset previous with
  | nil => cases h
  | cons c rest ih =>
    rw [scanFrom] at h
    split at h
    · exact ih _ _ h
    · split at h
      next a' next hread =>
        rcases List.mem_cons.1 h with rfl | hrest
        · exact ⟨_, next, hread⟩
        · exact ih _ _ hrest
      next hfail => exact ih _ _ h

/-- What a scan finds was read no earlier than at the offset where the scan may begin. -/
theorem exists_append_of_mem_scan {resume : Nat} {u v : List Char} {a : α}
    (h : a ∈ scan attempt resume (between u v)) :
    ∃ v₁ v₂ next, v = v₁ ++ v₂ ∧ resume ≤ byteSize (u ++ v₁) ∧
      attempt (between (u ++ v₁) v₂) = some (a, next) := by
  induction v generalizing u resume with
  | nil => cases h
  | cons c v ih =>
    -- what is found behind the first character
    have later {resume' : Nat} (hresume : resume ≤ byteSize u ∨ resume' = resume)
        (h : a ∈ scan attempt resume' (between (u ++ [c]) v)) :
        ∃ v₁ v₂ next, c :: v = v₁ ++ v₂ ∧ resume ≤ byteSize (u ++ v₁) ∧
          attempt (between (u ++ v₁) v₂) = some (a, next) := by
      obtain ⟨v₁, v₂, next, rfl, hle, hread⟩ := ih h
      rw [List.append_assoc, List.singleton_append] at hle hread
      refine ⟨c :: v₁, v₂, next, rfl, ?_, hread⟩
      rcases hresume with hresume | rfl
      · rw [byteSize_append]
        omega
      · exact hle
    rw [scan_cons] at h
    split at h
    · exact later (.inr rfl) h
    next hresume =>
      have hreached : resume ≤ byteSize u := Nat.not_lt.1 hresume
      split at h
      next a' next hread =>
        rcases List.mem_cons.1 h with rfl | h
        · exact ⟨[], c :: v, next, rfl, by simpa using hreached, by simpa using hread⟩
        · exact later (.inl hreached) h
      next => exact later (.inr rfl) h

/-- An offset that is already reached holds nothing back. -/
theorem scan_of_le {u w : List Char} {resume : Nat} (h : resume ≤ byteSize u) :
    scan attempt resume (between u w) = scan attempt 0 (between u w) := by
  induction w generalizing u with
  | nil => rfl
  | cons c w ih =>
    have hnext := ih (u := u ++ [c]) (by rw [byteSize_append]; omega)
    rw [scan_cons, scan_cons, if_neg (by omega), if_neg (by omega), hnext]

/-- Up to the offset at which the search resumes, nothing is read. -/
theorem scan_skip (attempt : Cursor → Option (α × Nat)) (u v w : List Char) :
    scan attempt (byteSize (u ++ v)) (between u (v ++ w)) =
      scan attempt 0 (between (u ++ v) w) := by
  induction v generalizing u with
  | nil =>
    rw [List.append_nil]
    exact scan_of_le (Nat.le_refl _)
  | cons c v ih =>
    have hbefore : byteSize u < byteSize (u ++ c :: v) := by
      have := byteSize_pos (List.cons_ne_nil c v)
      rw [byteSize_append]
      omega
    have hnext := ih (u ++ [c])
    rw [List.append_assoc, List.singleton_append] at hnext
    rw [List.cons_append, scan_cons, if_pos hbefore, hnext]

theorem scan_barren {u v w : List Char} (h : Barren attempt u v w) :
    scan attempt 0 (between u (v ++ w)) = scan attempt 0 (between (u ++ v) w) := by
  induction v generalizing u with
  | nil => simp
  | cons c v ih =>
    have hfail : attempt (between u (c :: (v ++ w))) = none := h.1
    rw [List.cons_append, scan_cons, if_neg (Nat.not_lt_zero _), hfail, ih h.2, List.append_assoc,
      List.singleton_append]

theorem scan_success {u v w : List Char} {a : α} (hne : v ≠ [])
    (h : attempt (between u (v ++ w)) = some (a, byteSize (u ++ v))) :
    scan attempt 0 (between u (v ++ w)) = a :: scan attempt 0 (between (u ++ v) w) := by
  obtain ⟨c, v, rfl⟩ := List.exists_cons_of_ne_nil hne
  have hskip := scan_skip attempt (u ++ [c]) v w
  rw [List.append_assoc, List.singleton_append] at hskip
  rw [List.cons_append] at h ⊢
  rw [scan_cons, if_neg (Nat.not_lt_zero _), h]
  simp only [hskip]

end Scan

end Cursor

end ClassDiagram.Text
