import ClassDiagram.Proofs.Text.Names
import ClassDiagram.Source.Member

/-!
# Members, line by line

A member is looked for at line starts and behind braces and semicolons. In a text whose lines each
end with one such mark, and hold no other, both lead to the same attempt: the mark at the end of a
line and the start of the next line are separated by blanks only. A scan for members therefore makes
one attempt per line (`scan_lines`), and what it finds is what each line gives (`found`).
-/

namespace ClassDiagram.Text.Cursor

variable {α : Type} {step : Cursor → Option Cursor}

theorem iterates_of_none {k : Cursor} (h : step k = none) : iterates step k = [k] := by
  unfold iterates
  cases k.rest.length with
  | zero => rfl
  | succ n => simp [iteratesUpTo, h]

theorem iterates_of_once {k next : Cursor} (hk : k.rest ≠ []) (h : step k = some next)
    (hnext : step next = none) : iterates step k = [k, next] := by
  unfold iterates
  obtain ⟨c, cs, hrest⟩ := List.exists_cons_of_ne_nil hk
  have hlast : ∀ n, iteratesUpTo step n next = [next] := by
    intro n
    cases n with
    | zero => rfl
    | succ n => simp [iteratesUpTo, hnext]
  simp [hrest, iteratesUpTo, h, hlast]

theorem repeatedly_of_none {k : Cursor} (h : step k = none) : repeatedly step k = k := by
  simp [repeatedly, iterates_of_none h]

theorem longest?_of_none {k : Cursor} (continue? : Cursor → Option α) (h : step k = none) :
    longest? step continue? k = continue? k := by
  simp [longest?, iterates_of_none h]

theorem longest?_of_once {k next : Cursor} (continue? : Cursor → Option α) (hk : k.rest ≠ [])
    (h : step k = some next) (hnext : step next = none) :
    longest? step continue? k = (continue? next).or (continue? k) := by
  simp only [longest?, iterates_of_once hk h hnext, List.reverse_cons, List.reverse_nil,
    List.nil_append, List.cons_append, List.findSome?_cons, List.findSome?_nil]
  cases continue? next <;> cases continue? k <;> rfl

end ClassDiagram.Text.Cursor

namespace ClassDiagram.Source.Member

open Text Cursor

/-! ## Modifiers -/

theorem token?_bind_blank (u : List Char) {n w : List Char} {word : String}
    (hword : ∀ c ∈ word.toList, isNameChar c = true) (hn : ∀ c ∈ n, isNameChar c = true)
    (hw : Stops isNameChar w) :
    ((between u (n ++ w)).token? word).bind (skipSome? isBlank) =
      if word.toList = n then (between (u ++ n) w).skipSome? isBlank else none := by
  split
  · next heq => rw [← heq, token?_between, Option.bind_some]
  · next hne =>
    -- a shorter or longer word is not followed by a blank here
    rcases hprefix : word.toList.isPrefixOf (n ++ w) with _ | _
    · rw [token?_eq_none word hprefix, Option.bind_none]
    · obtain ⟨after, hafter⟩ := List.isPrefixOf_iff_prefix.1 hprefix
      rw [← hafter, token?_between, Option.bind_some]
      apply skipSome?_of_stops
      intro c hc
      cases hblank : isBlank c with
      | false => rfl
      | true =>
        have hstop : Stops isNameChar after := fun d hd => by
          rw [Option.mem_unique hd hc]
          exact isNameChar_of_isBlank hblank
        have hrun := takeWhile_append_of_stops hword hstop
        rw [hafter, takeWhile_append_of_stops hn hw] at hrun
        exact absurd hrun.symm hne

section Modifier

variable {modifiers : List String} (hmods : ∀ word ∈ modifiers, IsName word.toList)

include hmods

theorem modifier?_word (u : List Char) {n w : List Char} (hn : IsName n)
    (hw : Stops isNameChar w) :
    modifier? modifiers (between u (n ++ w)) =
      if String.ofList n ∈ modifiers then (between (u ++ n) w).skipSome? isBlank else none := by
  unfold modifier?
  induction modifiers with
  | nil => rfl
  | cons word rest ih =>
    have ih := ih fun word h => hmods word (List.mem_cons_of_mem _ h)
    have hspell : word.toList = n ↔ String.ofList n = word := by
      rw [← String.toList_inj, String.toList_ofList, eq_comm]
    rw [List.findSome?_cons, token?_bind_blank u (fun _ => (hmods word List.mem_cons_self).mem)
      (fun _ => hn.mem) hw, ih]
    by_cases heq : String.ofList n = word
    · have hmem : String.ofList n ∈ word :: rest := heq ▸ List.mem_cons_self
      rw [if_pos (hspell.2 heq), if_pos hmem]
      cases (between (u ++ n) w).skipSome? isBlank with
      | none => simp
      | some k => rfl
    · rw [if_neg (mt hspell.1 heq)]
      simp [heq]

theorem modifier?_of_stops (u : List Char) {w : List Char} (hw : Stops isNameStart w) :
    modifier? modifiers (between u w) = none := by
  refine List.findSome?_eq_none_iff.2 fun word hword => ?_
  have hname := hmods word hword
  obtain ⟨c, cs, hcs⟩ := List.exists_cons_of_ne_nil hname.ne_nil
  have hc : isNameStart c = true := by simpa [hcs] using hname.start
  have hother : Stops (· == c) w := fun d hd => by
    have hd := hw d hd
    rw [beq_eq_false_iff_ne]
    rintro rfl
    simp [hc] at hd
  rw [token?_of_stops word hcs hother, Option.bind_none]

end Modifier

/-! ## Beginning of a member -/

/-- Brace or semicolon. -/
def isMark (c : Char) : Bool := c == '{' || c == '}' || c == ';'

/-- Reads a member behind blanks and annotations. -/
def from? {α : Type} (modifiers : List String) (rest? : Cursor → Option α) (k : Cursor) :
    Option (Reading α) :=
  let start := (k.skipWhile isBlank).repeatedly annotation?
  start.longest? (modifier? modifiers) fun stop => (rest? stop).map (Reading.mk start stop)

theorem annotation?_of_stops (u : List Char) {w : List Char} (hw : Stops (· == '@') w) :
    annotation? (between u w) = none := by
  simp [annotation?, token?_of_stops "@" (k := between u w) rfl hw]

section From

variable {α : Type} {modifiers : List String} {rest? : Cursor → Option α}

theorem from?_blanks (u : List Char) {gap : List Char} (w : List Char)
    (hgap : ∀ c ∈ gap, isBlank c = true) :
    from? modifiers rest? (between u (gap ++ w)) = from? modifiers rest? (between (u ++ gap) w) := by
  simp only [from?, skipWhile_append u w hgap]

theorem from?_plain (u : List Char) {w : List Char} (hblank : Stops isBlank w)
    (hat : Stops (· == '@') w) (hmod : modifier? modifiers (between u w) = none) :
    from? modifiers rest? (between u w) =
      (rest? (between u w)).map (Reading.mk (between u w) (between u w)) := by
  simp only [from?, skipWhile_of_stops u hblank, repeatedly_of_none (annotation?_of_stops u hat),
    longest?_of_none _ hmod]

/-- With one modifier in front, the rest is read behind it, and if that fails, with it. -/
theorem from?_modifier (hmods : ∀ word ∈ modifiers, IsName word.toList) (u : List Char)
    {m w : List Char} (hm : IsName m) (hmem : String.ofList m ∈ modifiers) (hw : Stops isBlank w)
    (hmod : modifier? modifiers (between (u ++ m ++ [' ']) w) = none) :
    from? modifiers rest? (between u (m ++ ' ' :: w)) =
      ((rest? (between (u ++ m ++ [' ']) w)).map
        (Reading.mk (between u (m ++ ' ' :: w)) (between (u ++ m ++ [' ']) w))).or
      ((rest? (between u (m ++ ' ' :: w))).map
        (Reading.mk (between u (m ++ ' ' :: w)) (between u (m ++ ' ' :: w)))) := by
  have hstep : modifier? modifiers (between u (m ++ ' ' :: w)) =
      some (between (u ++ m ++ [' ']) w) := by
    rw [modifier?_word hmods u hm (stops_cons.2 (by decide)), if_pos hmem]
    exact skipSome?_between (u ++ m) (List.cons_ne_nil ' ' [])
      (List.forall_mem_singleton.2 (by decide)) hw
  simp only [from?, skipWhile_of_stops u (hm.stops_blank _),
    repeatedly_of_none (annotation?_of_stops u (hm.stops_eq (by decide) _))]
  exact longest?_of_once _ (by simp) hstep hmod

theorem upTo_modifier (u m w : List Char) :
    (between u (m ++ ' ' :: w)).upTo (between (u ++ m ++ [' ']) w) = m ++ [' '] := by
  have h := upTo_between u (m ++ [' ']) w
  simpa using h

theorem starts_eq (u : List Char) (c : Char) (w : List Char) :
    starts (between u (c :: w)) =
      (if u.getLast?.all (· == '\n') then [between u (c :: w)] else []) ++
        (if isMark c then [between (u ++ [c]) w] else []) := by
  simp only [starts, atLineStart, isMark, rest_between, past_cons]
  cases hlast : u.getLast? with
  | none => simp [between, hlast]
  | some d => cases hd : d == '\n' <;> simp [between, hlast, hd]

end From

/-! ## Scanning -/

section Scan

variable {α : Type} {modifiers : List String} (hmods : ∀ word ∈ modifiers, IsName word.toList)
  {rest? : Cursor → Option α}
  (hrest : ∀ u w, Stops isNameStart w → Stops isPathChar w → rest? (between u w) = none)

/-- Away from line starts nothing is read up to the next mark. -/
theorem barren_inline {u v : List Char} (w : List Char)
    (hu : u.getLast?.all (· == '\n') = false)
    (hv : ∀ c ∈ v, isMark c = false ∧ c ≠ '\n') : Barren (at? modifiers rest?) u v w := by
  induction v generalizing u with
  | nil => trivial
  | cons c v ih =>
    obtain ⟨hmark, hline⟩ := hv c List.mem_cons_self
    refine ⟨?_, ih (by simp [hline]) fun d hd => hv d (List.mem_cons_of_mem c hd)⟩
    simp [at?, starts_eq, hu, hmark]

/-- A line that gives nothing at its start gives nothing up to the next mark. -/
theorem barren_line {u v w : List Char}
    (hfail : from? modifiers rest? (between u (v ++ w)) = none)
    (hv : ∀ c ∈ v, isMark c = false ∧ c ≠ '\n') : Barren (at? modifiers rest?) u v w := by
  cases v with
  | nil => trivial
  | cons c v =>
    obtain ⟨hmark, hline⟩ := hv c List.mem_cons_self
    refine ⟨?_, barren_inline w (by simp [hline]) fun d hd => hv d (List.mem_cons_of_mem c hd)⟩
    unfold at?
    rw [List.cons_append] at hfail ⊢
    rw [starts_eq, hmark]
    split
    · simpa [from?] using hfail
    · rfl

theorem barren_blanks {u gap w : List Char} (hgap : ∀ c ∈ gap, isBlank c = true)
    (hfail : from? modifiers rest? (between (u ++ gap) w) = none) :
    Barren (at? modifiers rest?) u gap w := by
  induction gap generalizing u with
  | nil => trivial
  | cons c gap ih =>
    have hc := hgap c List.mem_cons_self
    have hmark : isMark c = false := by
      cases hm : isMark c with
      | false => rfl
      | true =>
        simp only [isMark, Bool.or_eq_true, beq_iff_eq] at hm
        rcases hm with (rfl | rfl) | rfl <;> exact absurd hc (by decide)
    refine ⟨?_, ih (fun d hd => hgap d (List.mem_cons_of_mem c hd)) (by simpa using hfail)⟩
    rw [← from?_blanks u w hgap] at hfail
    unfold at?
    rw [List.cons_append] at hfail ⊢
    rw [starts_eq, hmark]
    split
    · simpa [from?] using hfail
    · rfl

include hmods hrest in
theorem from?_eq_none (u : List Char) {w : List Char} (hblank : Stops isBlank w)
    (hat : Stops (· == '@') w) (hstart : Stops isNameStart w) (hpath : Stops isPathChar w) :
    from? modifiers rest? (between u w) = none := by
  rw [from?_plain u hblank hat (modifier?_of_stops hmods u hstart), hrest u w hstart hpath,
    Option.map_none]

include hmods hrest in
theorem from?_nil (u : List Char) : from? modifiers rest? (between u []) = none :=
  from?_eq_none hmods hrest u stops_nil stops_nil stops_nil stops_nil

include hmods hrest in
theorem from?_mark (u : List Char) {c : Char} (w : List Char) (hc : isMark c = true) :
    from? modifiers rest? (between u (c :: w)) = none := by
  simp only [isMark, Bool.or_eq_true, beq_iff_eq] at hc
  rcases hc with (rfl | rfl) | rfl <;>
    exact from?_eq_none hmods hrest u (stops_cons.2 (by decide)) (stops_cons.2 (by decide))
      (stops_cons.2 (by decide)) (stops_cons.2 (by decide))

include hmods hrest in
/-- At a mark only what stands behind it can be a member. -/
theorem at?_mark (u : List Char) {c : Char} (w : List Char) (hc : isMark c = true) :
    at? modifiers rest? (between u (c :: w)) = from? modifiers rest? (between (u ++ [c]) w) := by
  have hhere : from? modifiers rest? (between u (c :: w)) = none := from?_mark hmods hrest u w hc
  have hat : at? modifiers rest? (between u (c :: w)) =
      (starts (between u (c :: w))).findSome? (from? modifiers rest?) := rfl
  rw [hat, starts_eq, if_pos hc, List.findSome?_append]
  split
  · simp [hhere]
  · simp

end Scan

/-! ## Lines -/

/-- A line that ends with a mark and holds no other. -/
structure Line where
  indent : Nat
  body : List Char
  mark : Char
  isMark_mark : isMark mark = true
  inline : ∀ c ∈ body, isMark c = false ∧ c ≠ '\n'

namespace Line

/-- The line feed before a line, and its indentation. -/
def gap (l : Line) : List Char := '\n' :: List.replicate l.indent ' '

/-- The text of a line, with the line feed before it. -/
def chars (l : Line) : List Char := l.gap ++ l.body ++ [l.mark]

theorem isBlank_of_mem_gap {l : Line} : ∀ c ∈ l.gap, isBlank c = true := by
  intro c hc
  rcases List.mem_cons.1 hc with rfl | hc
  · decide
  · rw [List.eq_of_mem_replicate hc]
    decide

theorem mark_ne (l : Line) {c : Char} (hc : isMark c = false) : l.mark ≠ c := by
  rintro rfl
  simp [l.isMark_mark] at hc

end Line

section Lines

variable {ι α β : Type} (line : ι → Line) (read : List Char → ι → List Char → Option β)
  (tail : List Char)

/-- What `read` gives for each of the lines behind `u`; it is told what comes before and after the
line. -/
def found : List Char → List ι → List β
  | _, [] => []
  | u, i :: is =>
    (read u i (is.flatMap (fun i => (line i).chars) ++ tail)).toList ++
      found (u ++ (line i).chars) is

theorem found_append (u : List Char) (is js : List ι) :
    found line read tail u (is ++ js) =
      found line read (js.flatMap (fun i => (line i).chars) ++ tail) u is ++
        found line read tail (u ++ is.flatMap (fun i => (line i).chars)) js := by
  induction is generalizing u with
  | nil => simp [found]
  | cons i is ih => simp [found, ih]

theorem found_of_none {is : List ι} (h : ∀ i ∈ is, ∀ u w, read u i w = none) (u : List Char) :
    found line read tail u is = [] := by
  induction is generalizing u with
  | nil => rfl
  | cons i is ih =>
    rw [found, h i List.mem_cons_self, ih fun j hj => h j (List.mem_cons_of_mem i hj)]
    rfl

theorem found_const (give : ι → Option β) (u : List Char) (is : List ι) :
    found line (fun _ i _ => give i) tail u is = is.filterMap give := by
  induction is generalizing u with
  | nil => rfl
  | cons i is ih =>
    rw [found, ih, List.filterMap_cons]
    cases give i <;> rfl

variable {modifiers : List String} (hmods : ∀ word ∈ modifiers, IsName word.toList)
  {rest? : Cursor → Option α}
  (hrest : ∀ u w, Stops isNameStart w → Stops isPathChar w → rest? (between u w) = none)

include hmods hrest in
/-- **Scanning line by line.** If the attempt at the start of every line either fails or ends at the
line's mark, the scan finds what the lines give. -/
theorem scan_lines (f : Reading α → β × Nat) (is : List ι)
    (hread : ∀ i ∈ is, ∀ u w,
      (from? modifiers rest?
        (between (u ++ (line i).gap) ((line i).body ++ (line i).mark :: w))).map f =
      (read u i w).map fun b => (b, byteSize (u ++ (line i).gap ++ (line i).body)))
    (htail : ∀ c ∈ tail, isBlank c = true) (u : List Char) {c : Char} (hc : isMark c = true) :
    scan (fun k => (at? modifiers rest? k).map f) 0
        (between u (c :: (is.flatMap (fun i => (line i).chars) ++ tail))) =
      found line read tail (u ++ [c]) is := by
  induction is generalizing u c with
  | nil =>
    have hfail : from? modifiers rest? (between (u ++ [c] ++ tail) []) = none :=
      from?_nil hmods hrest _
    have hbarren : Barren (at? modifiers rest?) u (c :: tail) [] := by
      refine ⟨?_, barren_blanks htail hfail⟩
      rw [List.cons_append, at?_mark hmods hrest u _ hc, from?_blanks _ _ htail, hfail]
    have hscan := scan_barren (hbarren.map f)
    rw [List.append_nil] at hscan
    simpa [found, scan_nil] using hscan
  | cons i is ih =>
    have hgap := (line i).isBlank_of_mem_gap
    have hline := hread i List.mem_cons_self (u ++ [c])
      (is.flatMap (fun i => (line i).chars) ++ tail)
    have hnext := ih (fun j hj => hread j (List.mem_cons_of_mem i hj))
      (u ++ [c] ++ (line i).gap ++ (line i).body) (line i).isMark_mark
    -- the text is cut in front of the mark that ends the line, where the next attempt begins
    have hcut : c :: ((i :: is).flatMap (fun i => (line i).chars) ++ tail) =
        (c :: ((line i).gap ++ (line i).body)) ++
          (line i).mark :: (is.flatMap (fun i => (line i).chars) ++ tail) := by
      simp [Line.chars]
    have hpassed : u ++ (c :: ((line i).gap ++ (line i).body)) =
        u ++ [c] ++ (line i).gap ++ (line i).body := by
      simp
    have hhere : at? modifiers rest? (between u
        ((c :: ((line i).gap ++ (line i).body)) ++
          (line i).mark :: (is.flatMap (fun i => (line i).chars) ++ tail))) =
        from? modifiers rest? (between (u ++ [c] ++ (line i).gap) ((line i).body ++
          (line i).mark :: (is.flatMap (fun i => (line i).chars) ++ tail))) := by
      rw [List.cons_append, at?_mark hmods hrest u _ hc, List.append_assoc, from?_blanks _ _ hgap]
    rw [hcut, found]
    cases hgiven : read (u ++ [c]) i (is.flatMap (fun i => (line i).chars) ++ tail) with
    | none =>
      rw [hgiven, Option.map_none, Option.map_eq_none_iff] at hline
      have hbarren : Barren (at? modifiers rest?) u (c :: ((line i).gap ++ (line i).body))
          ((line i).mark :: (is.flatMap (fun i => (line i).chars) ++ tail)) :=
        ⟨hhere.trans hline, (barren_blanks hgap hline).append (barren_line hline (line i).inline)⟩
      rw [scan_barren (hbarren.map f), hpassed, hnext]
      simp [Line.chars]
    | some b =>
      rw [hgiven, Option.map_some, ← hhere, ← hpassed] at hline
      rw [scan_success (List.cons_ne_nil _ _) hline, hpassed, hnext]
      simp [Line.chars]

end Lines

end ClassDiagram.Source.Member
