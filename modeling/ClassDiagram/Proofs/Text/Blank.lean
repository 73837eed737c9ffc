import ClassDiagram.Proofs.Text.Names

/-!
# Blanks

Which characters are no blanks, and what trimming does to a text whose blanks at the two ends are
known.
-/

namespace ClassDiagram.Text

/-- A class that holds none of the blanks. -/
theorem isBlank_eq_false_of {p : Char → Bool}
    (hp : ∀ n ∈ codePoints whiteSpace, p (Char.ofNat n) = false) {c : Char} (h : p c = true) :
    isBlank c = false := by
  cases hc : isBlank c with
  | false => rfl
  | true =>
    have hsorted : whiteSpace.sortedFrom 0 = true := by decide
    have hblank := hp _ (mem_codePoints hsorted hc)
    rw [Char.ofNat_toNat, h] at hblank
    cases hblank

theorem isBlank_of_isTypeNameChar {c : Char} (h : isTypeNameChar c = true) : isBlank c = false :=
  isBlank_eq_false_of (p := isTypeNameChar) (by decide +kernel) h

theorem isBlank_of_continuesIdentifier {c : Char} (h : continuesIdentifier c = true) :
    isBlank c = false :=
  isBlank_eq_false_of (p := continuesIdentifier) (by decide +kernel) h

/-! ## Trimming -/

theorem trim_blank {cs : List Char} (h : cs.all isBlank = true) : trim cs = [] := by
  have hstart : trimStart cs = [] := by
    simpa [trimStart] using dropWhile_append_of_stops (List.all_eq_true.1 h) stops_nil
  rw [trim, hstart]
  rfl

theorem trimEnd_append {gap : List Char} (cs : List Char) (hgap : ∀ c ∈ gap, isBlank c = true) :
    trimEnd (cs ++ gap) = trimEnd cs := by
  unfold trimEnd
  rw [List.reverse_append, List.dropWhile_append_of_pos]
  exact fun c hc => hgap c (List.mem_reverse.1 hc)

theorem trimEnd_concat (cs : List Char) {c : Char} (hc : isBlank c = false) :
    trimEnd (cs ++ [c]) = cs ++ [c] := by
  simp [trimEnd, hc]

/-- Trimming stops at a text without blanks. -/
theorem trimEnd_append_right {cs : List Char} (ds : List Char) (hcs : ∀ c ∈ cs, isBlank c = false) :
    trimEnd (cs ++ ds) = cs ++ trimEnd ds := by
  have hkeep : cs.reverse.dropWhile isBlank = cs.reverse := by
    cases hrev : cs.reverse with
    | nil => rfl
    | cons c rev =>
      have hc : isBlank c = false := hcs c (List.mem_reverse.1 (hrev ▸ List.mem_cons_self))
      simp [hc]
  unfold trimEnd
  rw [List.reverse_append, List.dropWhile_append, hkeep]
  split
  next hempty => simp [List.isEmpty_iff.1 hempty]
  next => simp

/-- Only blanks are trimmed. -/
theorem exists_trimEnd_append (cs : List Char) :
    ∃ gap, (∀ c ∈ gap, isBlank c = true) ∧ cs = trimEnd cs ++ gap := by
  refine ⟨(cs.reverse.takeWhile isBlank).reverse, ?_, ?_⟩
  · intro c hc
    exact List.all_eq_true.1 List.all_takeWhile c (List.mem_reverse.1 hc)
  · rw [trimEnd, ← List.reverse_append, List.takeWhile_append_dropWhile, List.reverse_reverse]

end ClassDiagram.Text
