import ClassDiagram.Proofs.Text.Position
import ClassDiagram.Source.Declaration

/-!
# Names

`IsName cs` says that `name?` reads the whole of `cs` as a declared name: its first character starts
a name and all of them go on with one. Blanks and punctuation are no name characters, so a name ends
wherever one of them follows.
-/

namespace ClassDiagram.Text

/-! ## Name characters -/

/-- The code points in a list of ranges, one by one. -/
def codePoints (rs : Ranges) : List Nat :=
  rs.flatMap fun (lo, hi) => (List.range (hi + 1 - lo)).map (lo + ·)

theorem mem_codePoints {rs : Ranges} {least n : Nat} (h : rs.sortedFrom least = true)
    (hn : rs.holds n = true) : n ∈ codePoints rs := by
  obtain ⟨r, hr, hlo, hhi⟩ := (Ranges.holds_iff h n).1 hn
  refine List.mem_flatMap.2 ⟨r, hr, List.mem_map.2 ⟨n - r.1, List.mem_range.2 ?_, ?_⟩⟩ <;> omega

theorem isNameChar_of_isBlank {c : Char} (h : isBlank c = true) : isNameChar c = false := by
  -- there are only twenty-five blanks
  have hblanks : ∀ n ∈ codePoints whiteSpace, isNameChar (Char.ofNat n) = false := by
    decide +kernel
  have hsorted : whiteSpace.sortedFrom 0 = true := by decide
  simpa using hblanks _ (mem_codePoints hsorted h)

theorem isBlank_of_isNameChar {c : Char} (h : isNameChar c = true) : isBlank c = false := by
  cases hc : isBlank c with
  | false => rfl
  | true => simp [isNameChar_of_isBlank hc] at h

theorem isNameChar_of_isAlphanum {c : Char} (h : c.isAlphanum = true) : isNameChar c = true := by
  have hascii : ∀ n < 128, (Char.ofNat n).isAlphanum = true → isNameChar (Char.ofNat n) = true := by
    decide +kernel
  have hlt : c.val.toNat < 128 := by
    have hranges : c.isAlphanum =
        (decide ('A'.val ≤ c.val ∧ c.val ≤ 'Z'.val) ||
            decide ('a'.val ≤ c.val) && decide (c.val ≤ 'z'.val) ||
          decide ('0'.val ≤ c.val) && decide (c.val ≤ '9'.val)) := rfl
    simp only [hranges, Bool.or_eq_true, Bool.and_eq_true, decide_eq_true_eq,
      UInt32.le_iff_toNat_le] at h
    have hZ : 'Z'.val.toNat = 90 := rfl
    have hz : 'z'.val.toNat = 122 := rfl
    have h9 : '9'.val.toNat = 57 := rfl
    omega
  simpa [h] using hascii c.toNat hlt

theorem ne_of_isNameChar {c d : Char} (hc : isNameChar c = true) (hd : isNameChar d = false) :
    c ≠ d := by
  rintro rfl
  simp [hc] at hd

/-! ## Names -/

/-- The text is a declared name. -/
structure IsName (cs : List Char) : Prop where
  start : cs.head?.any isNameStart = true
  chars : cs.all isNameChar = true

instance (cs : List Char) : Decidable (IsName cs) :=
  decidable_of_iff (cs.head?.any isNameStart = true ∧ cs.all isNameChar = true)
    ⟨fun h => ⟨h.1, h.2⟩, fun h => ⟨h.start, h.chars⟩⟩

namespace IsName

variable {n : List Char} (hn : IsName n)

include hn

theorem mem {c : Char} (hc : c ∈ n) : isNameChar c = true := List.all_eq_true.1 hn.chars c hc

theorem mem_path {c : Char} (hc : c ∈ n) : isPathChar c = true := by
  simp [isPathChar, hn.mem hc]

theorem ne_nil : n ≠ [] := by
  rintro rfl
  simpa using hn.start

theorem ne_of_mem {c d : Char} (hc : c ∈ n) (hd : isNameChar d = false) : c ≠ d :=
  ne_of_isNameChar (hn.mem hc) hd

theorem not_mem {d : Char} (hd : isNameChar d = false) : d ∉ n := fun h => hn.ne_of_mem h hd rfl

theorem stops {p : Char → Bool} (hp : ∀ c, isNameChar c = true → p c = false) (w : List Char) :
    Stops p (n ++ w) :=
  Stops.append hn.ne_nil (fun c hc => hp c (hn.mem hc)) w

theorem stops_blank (w : List Char) : Stops isBlank (n ++ w) :=
  hn.stops (fun _ => isBlank_of_isNameChar) w

theorem stops_eq {d : Char} (hd : isNameChar d = false) (w : List Char) :
    Stops (· == d) (n ++ w) :=
  hn.stops (fun _ hc => beq_eq_false_iff_ne.2 (ne_of_isNameChar hc hd)) w

/-- A name goes on with any name characters, digits among them. -/
theorem append {cs : List Char} (hcs : ∀ c ∈ cs, isNameChar c = true) : IsName (n ++ cs) where
  start := by
    obtain ⟨c, n, rfl⟩ := List.exists_cons_of_ne_nil hn.ne_nil
    exact hn.start
  chars := List.all_eq_true.2 fun c hc => (List.mem_append.1 hc).elim hn.mem (hcs c)

end IsName

/-- A stem with a number behind it. -/
def numbered (stem : String) (i : Nat) : String := stem ++ toString i

theorem toList_numbered (stem : String) (i : Nat) :
    (numbered stem i).toList = stem.toList ++ Nat.toDigits 10 i := by
  simp [numbered, toString]

theorem isName_numbered {stem : String} (h : IsName stem.toList) (i : Nat) :
    IsName (numbered stem i).toList := by
  rw [toList_numbered]
  refine h.append fun c hc => isNameChar_of_isAlphanum ?_
  simp [Char.isAlphanum, Nat.isDigit_of_mem_toDigits (by decide) (by decide) hc]

end ClassDiagram.Text

namespace ClassDiagram.Source

open Text Cursor

theorem name?_between (u : List Char) {n w : List Char} (hn : IsName n)
    (hw : Stops isNameChar w) :
    name? (between u (n ++ w)) = some (n, between (u ++ n) w) := by
  have htake := takeWhile_append_of_stops (fun _ => hn.mem) hw
  have hskip := skipWhile_between u (fun _ => hn.mem) hw
  obtain ⟨c, n, rfl⟩ := List.exists_cons_of_ne_nil hn.ne_nil
  have hstart : isNameStart c = true := by simpa using hn.start
  simp only [name?, rest_between, List.cons_append, hstart, if_true]
  rw [← List.cons_append, htake, hskip]

theorem name?_of_stops (u : List Char) {w : List Char} (hw : Stops isNameStart w) :
    name? (between u w) = none := by
  cases w with
  | nil => rfl
  | cons c w => simp [name?, stops_cons.1 hw]

end ClassDiagram.Source
