import ClassDiagram.Proofs.Text.Pieces

/-!
# Slices

A text may also be read by offsets alone: loops count bytes, and what they find is cut out of the
text between two offsets. Such a reading can go wrong where one on characters cannot, and each way
to go wrong is a `Fault`. A slice is defined only between the ends of two leading parts of the text
(`slice_eq_ok_iff`), and a counter is only lowered when it is positive (`lower`).

Functions in the namespace `ByOffset` read by offsets what the function of the same name reads from
the characters, and end with a fault at the first slice or counter that is not defined. Here it is
the pieces of a text (`ByOffset.pieces_eq`).
-/

namespace ClassDiagram

open Text

/-- What a reading by offsets can fail with. -/
inductive Fault where
  /-- The bounds of a slice are out of order, past the end of the text, or inside a character. -/
  | slice
  /-- A counter is lowered below zero. -/
  | underflow
  /-- A search resumes no later than it began. -/
  | standstill
  deriving Repr, DecidableEq

namespace ByOffset

/-- One less than a counter. -/
def lower : Nat → Except Fault Nat
  | 0 => .error .underflow
  | n + 1 => .ok n

/-- The part of a text between two offsets. -/
def slice (text : List Char) (start stop : Nat) : Except Fault (List Char) :=
  match Cursor.atOffset? text start, Cursor.atOffset? text stop with
  | some first, some last => if start ≤ stop then .ok (first.upTo last) else .error .slice
  | _, _ => .error .slice

/-- The part of a text from an offset on. -/
def sliceFrom (text : List Char) (start : Nat) : Except Fault (List Char) :=
  slice text start (byteSize text)

@[simp] theorem ok_bind {α β : Type} (a : α) (f : α → Except Fault β) : (.ok a >>= f) = f a := rfl

@[simp] theorem pure_eq {α : Type} (a : α) : (pure a : Except Fault α) = .ok a := rfl

theorem slice_append (u v w : List Char) :
    slice (u ++ v ++ w) (byteSize u) (byteSize (u ++ v)) = .ok v := by
  have hstart := Cursor.atOffset?_append u (v ++ w)
  rw [← List.append_assoc] at hstart
  have hle : byteSize u ≤ byteSize (u ++ v) := by
    rw [byteSize_append]
    exact Nat.le_add_right _ _
  simp only [slice, hstart, Cursor.atOffset?_append, if_pos hle, Cursor.upTo_between]

theorem sliceFrom_append (u v : List Char) : sliceFrom (u ++ v) (byteSize u) = .ok v := by
  simpa [sliceFrom] using slice_append u v []

/-- A leading part of two is the leading part of the longer one. -/
theorem exists_append_of_byteSize_le {u u' v v' : List Char} (h : u ++ v = u' ++ v')
    (hle : byteSize u ≤ byteSize u') : ∃ p, u' = u ++ p ∧ v = p ++ v' := by
  rcases List.append_eq_append_iff.1 h with ⟨p, rfl, rfl⟩ | ⟨p, rfl, rfl⟩
  · exact ⟨p, rfl, rfl⟩
  · rw [byteSize_append] at hle
    cases p with
    | nil => exact ⟨[], by simp, rfl⟩
    | cons c p =>
      have := byteSize_pos (List.cons_ne_nil c p)
      omega

/-- A slice is defined exactly if its bounds are the ends of two leading parts of the text. -/
theorem slice_eq_ok_iff {text v : List Char} {start stop : Nat} :
    slice text start stop = .ok v ↔
      ∃ u w, text = u ++ v ++ w ∧ start = byteSize u ∧ stop = byteSize (u ++ v) := by
  constructor
  · intro h
    unfold slice at h
    split at h
    next first last hfirst hlast =>
      split at h
      next hle =>
        obtain ⟨u, x, rfl, rfl, rfl⟩ := Cursor.atOffset?_eq_some_iff.1 hfirst
        obtain ⟨u', w, htext, rfl, rfl⟩ := Cursor.atOffset?_eq_some_iff.1 hlast
        obtain ⟨p, rfl, rfl⟩ := exists_append_of_byteSize_le htext hle
        rw [Cursor.upTo_between, Except.ok.injEq] at h
        subst h
        exact ⟨u, w, htext, rfl, rfl⟩
      next => cases h
    next => cases h
  · rintro ⟨u, w, rfl, rfl, rfl⟩
    exact slice_append u v w

example : slice ['é', '}'] 0 1 = .error .slice := rfl

example : slice ['é', '}'] 2 3 = .ok ['}'] := rfl

/-- The offset at which a character is first met. -/
def offsetOf? (c : Char) : List Char → Option Nat
  | [] => none
  | d :: cs => if d == c then some 0 else (offsetOf? c cs).map (d.utf8Size + ·)

/-- The character is missing, or its offset is the size of what comes before it. -/
theorem offsetOf?_cases (c : Char) (cs : List Char) :
    (offsetOf? c cs = none ∧ cs.takeWhile (· != c) = cs ∧ cs.dropWhile (· != c) = []) ∨
      ∃ v w, cs = v ++ c :: w ∧ offsetOf? c cs = some (byteSize v) ∧
        cs.takeWhile (· != c) = v ∧ cs.dropWhile (· != c) = c :: w := by
  induction cs with
  | nil => exact .inl ⟨rfl, rfl, rfl⟩
  | cons d cs ih =>
    by_cases hd : d = c
    · subst hd
      exact .inr ⟨[], cs, rfl, by simp [offsetOf?], by simp, by simp⟩
    · rcases ih with ⟨hnone, htake, hdrop⟩ | ⟨v, w, hcs, hsome, htake, hdrop⟩
      · exact .inl ⟨by simp [offsetOf?, hd, hnone], by simp [hd, htake], by simp [hd, hdrop]⟩
      · exact .inr ⟨d :: v, w, by simp [hcs], by simp [offsetOf?, hd, hsome, byteSize_cons],
          by simp [hd, htake], by simp [hd, hdrop]⟩

/-! ## Pieces -/

/-- `pieces` from an offset on, at the given depth; the current piece starts at `last`. -/
def piecesFrom (text : List Char) (separator : Char) :
    (depth last offset : Nat) → List Char → Except Fault (List (List Char))
  | _, last, _, [] => do return [← sliceFrom text last]
  | depth, last, offset, c :: cs =>
    let next := offset + c.utf8Size
    if isOpening c then piecesFrom text separator (depth + 1) last next cs
    else if isClosing c then piecesFrom text separator (depth - 1) last next cs
    else if c == separator && depth == 0 then do
      let piece ← slice text last offset
      return piece :: (← piecesFrom text separator depth next next cs)
    else piecesFrom text separator depth last next cs

/-- The pieces between the top-level separators, cut out of the text. -/
def pieces (separator : Char) (text : List Char) : Except Fault (List (List Char)) :=
  piecesFrom text separator 0 0 0 text

theorem byteSize_concat (u : List Char) (c : Char) :
    byteSize (u ++ [c]) = byteSize u + c.utf8Size := by
  rw [byteSize_append]
  rfl

/-- Behind `u`, and with `p` already read of the current piece. -/
theorem piecesFrom_eq (separator : Char) (depth : Nat) {text u p cs : List Char}
    (htext : text = u ++ p ++ cs) :
    piecesFrom text separator depth (byteSize u) (byteSize (u ++ p)) cs =
      .ok (p.foldr extendFirst (Text.piecesFrom separator depth cs)) := by
  induction cs generalizing depth u p with
  | nil =>
    rw [List.append_nil] at htext
    rw [piecesFrom, htext, sliceFrom_append, Text.piecesFrom, foldr_extendFirst, List.append_nil]
    rfl
  | cons c cs ih =>
    have hlonger (depth : Nat) :
        piecesFrom text separator depth (byteSize u) (byteSize (u ++ p) + c.utf8Size) cs =
          .ok (p.foldr extendFirst (extendFirst c (Text.piecesFrom separator depth cs))) := by
      rw [← byteSize_concat, List.append_assoc, ih depth (by simp [htext]), List.foldr_append]
      rfl
    rw [piecesFrom, piecesFrom_cons, isCut, depthAfter]
    cases hopening : isOpening c with
    | true => simpa using hlonger (depth + 1)
    | false =>
      cases hclosing : isClosing c with
      | true => simpa using hlonger (depth - 1)
      | false =>
        cases hcut : c == separator && depth == 0 with
        | false => simpa [hcut] using hlonger depth
        | true =>
          -- the next piece begins behind the separator
          obtain rfl : depth = 0 := eq_of_beq (Bool.and_eq_true_iff.1 hcut).2
          have hslice : slice text (byteSize u) (byteSize (u ++ p)) = .ok p := by
            rw [htext]
            exact slice_append u p (c :: cs)
          have hnext := ih 0 (u := u ++ p ++ [c]) (p := []) (by simp [htext])
          rw [List.append_nil, byteSize_concat] at hnext
          simp [hslice, hnext, foldr_extendFirst]

@[simp] theorem pieces_eq (separator : Char) (text : List Char) :
    pieces separator text = .ok (Text.pieces separator text) :=
  piecesFrom_eq separator 0 (u := []) (p := []) rfl

end ByOffset

end ClassDiagram
