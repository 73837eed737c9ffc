import ClassDiagram.Proofs.Text.Pieces

/-!
# Nested brackets and counted brackets

A text is nested when each closing bracket in it closes the opening bracket of its own kind that was
left open last, and none is left open at the end. The readers of this library do not keep track of
the open brackets; they count. A count agrees with the nesting when an opening bracket raises it by
what the partner lowers it again (`Steady`). Then it is back where it was behind every nested text,
and on the way it never falls below that (`Steady.stays`, `Steady.foldl_eq`). Both go character by
character: `nestedFrom_step` says what one character does to the open brackets.
-/

namespace ClassDiagram.Text

/-- Each closing bracket closes the one left open last. Of the brackets left open in front of the
text, `awaited` holds the partners, innermost first. -/
def nestedFrom (pairs : List (Char × Char)) : List Char → List Char → Bool
  | awaited, [] => awaited.isEmpty
  | awaited, c :: cs =>
    match pairs.lookup c with
    | some partner => nestedFrom pairs (partner :: awaited) cs
    | none =>
      if pairs.any (·.2 == c) then
        match awaited with
        | [] => false
        | partner :: awaited => partner == c && nestedFrom pairs awaited cs
      else nestedFrom pairs awaited cs

def nested (pairs : List (Char × Char)) (cs : List Char) : Bool := nestedFrom pairs [] cs

/-- The brackets of expressions and statements, where angle brackets are operators. -/
def codeBrackets : List (Char × Char) := [('(', ')'), ('[', ']'), ('{', '}')]

def typeBrackets : List (Char × Char) := ('<', '>') :: codeBrackets

theorem nestedFrom_cons (pairs : List (Char × Char)) (awaited : List Char) (c : Char)
    (cs : List Char) :
    nestedFrom pairs awaited (c :: cs) =
      match pairs.lookup c with
      | some partner => nestedFrom pairs (partner :: awaited) cs
      | none =>
        if pairs.any (·.2 == c) then
          match awaited with
          | [] => false
          | partner :: awaited => partner == c && nestedFrom pairs awaited cs
        else nestedFrom pairs awaited cs :=
  rfl

/-- What one character can do to the brackets left open: it opens one more, closes the one left open
last, or is no bracket. -/
inductive BracketStep (pairs : List (Char × Char)) (c : Char) : List Char → List Char → Prop
  | opening {partner : Char} {awaited : List Char} (hmem : (c, partner) ∈ pairs) :
      BracketStep pairs c awaited (partner :: awaited)
  | closing {opening : Char} {awaited : List Char} (hmem : (opening, c) ∈ pairs) :
      BracketStep pairs c (c :: awaited) awaited
  | other {awaited : List Char} (hother : ∀ p ∈ pairs, c ≠ p.1 ∧ c ≠ p.2) :
      BracketStep pairs c awaited awaited

/-- The first character of a text that closes the open brackets takes a step. Nothing else about
the text decides what it does, and brackets left open further out are not touched. -/
theorem nestedFrom_step {pairs : List (Char × Char)} {awaited : List Char} {c : Char}
    {cs : List Char} (h : nestedFrom pairs awaited (c :: cs) = true) :
    ∃ awaited', BracketStep pairs c awaited awaited' ∧ nestedFrom pairs awaited' cs = true ∧
      ∀ outer ds,
        nestedFrom pairs (awaited ++ outer) (c :: ds) = nestedFrom pairs (awaited' ++ outer) ds := by
  suffices hstep : ∃ awaited', BracketStep pairs c awaited awaited' ∧ ∀ outer ds,
      nestedFrom pairs (awaited ++ outer) (c :: ds) = nestedFrom pairs (awaited' ++ outer) ds by
    obtain ⟨awaited', hc, heq⟩ := hstep
    have hcs := heq [] cs
    rw [List.append_nil, List.append_nil, h] at hcs
    exact ⟨awaited', hc, hcs.symm, heq⟩
  rw [nestedFrom_cons] at h
  cases hlookup : pairs.lookup c with
  | some partner =>
    obtain ⟨l₁, l₂, hpairs, -⟩ := List.lookup_eq_some_iff.1 hlookup
    refine ⟨partner :: awaited, .opening (by simp [hpairs]), fun outer ds => ?_⟩
    rw [nestedFrom_cons, hlookup]
    rfl
  | none =>
    rw [hlookup] at h
    cases hany : pairs.any (·.2 == c) with
    | true =>
      obtain ⟨⟨opening, closing⟩, hp, hpc⟩ := List.any_eq_true.1 hany
      obtain rfl : closing = c := eq_of_beq hpc
      cases awaited with
      | nil => simp [hany] at h
      | cons partner awaited =>
        simp only [hany, if_true, Bool.and_eq_true, beq_iff_eq] at h
        obtain ⟨rfl, -⟩ := h
        refine ⟨awaited, .closing hp, fun outer ds => ?_⟩
        rw [nestedFrom_cons, hlookup]
        simp [hany]
    | false =>
      refine ⟨awaited, .other fun p hp => ⟨?_, fun hc => ?_⟩, fun outer ds => ?_⟩
      · exact bne_iff_ne.1 (List.lookup_eq_none_iff.1 hlookup p hp)
      · exact absurd (List.any_eq_false.1 hany p hp) (by simp [hc])
      · rw [nestedFrom_cons, hlookup]
        simp [hany]

/-! ## Nested texts in parts -/

/-- A text that closes the first of the open brackets leaves the others to what follows it. -/
theorem nestedFrom_append {pairs : List (Char × Char)} {awaited cs : List Char}
    (h : nestedFrom pairs awaited cs = true) (outer ds : List Char) :
    nestedFrom pairs (awaited ++ outer) (cs ++ ds) = nestedFrom pairs outer ds := by
  induction cs generalizing awaited with
  | nil =>
    obtain rfl : awaited = [] := by simpa [nestedFrom] using h
    rfl
  | cons c cs ih =>
    obtain ⟨awaited', -, hcs, hstep⟩ := nestedFrom_step h
    rw [List.cons_append, hstep, ih hcs]

theorem nested_append {pairs : List (Char × Char)} {cs ds : List Char}
    (hcs : nested pairs cs = true) (hds : nested pairs ds = true) :
    nested pairs (cs ++ ds) = true :=
  (nestedFrom_append hcs [] ds).trans hds

theorem nested_group {opening closing : Char} (hpair : (opening, closing) ∈ typeBrackets)
    {cs : List Char} (hcs : nested typeBrackets cs = true) :
    nested typeBrackets (opening :: (cs ++ [closing])) = true := by
  have hinside := nestedFrom_append hcs [closing] [closing]
  simp only [typeBrackets, codeBrackets, List.mem_cons, List.not_mem_nil, or_false,
    Prod.mk.injEq] at hpair
  rcases hpair with ⟨rfl, rfl⟩ | ⟨rfl, rfl⟩ | ⟨rfl, rfl⟩ | ⟨rfl, rfl⟩ <;> exact hinside

theorem nested_of_free {cs : List Char}
    (h : ∀ c ∈ cs, isOpening c = false ∧ isClosing c = false) : nested typeBrackets cs = true := by
  unfold nested
  induction cs with
  | nil => rfl
  | cons c cs ih =>
    obtain ⟨⟨hopening, hclosing⟩, hcs⟩ := List.forall_mem_cons.1 h
    simp only [isOpening, isClosing, Bool.or_eq_false_iff] at hopening hclosing
    have hlookup : typeBrackets.lookup c = none := by
      simp only [beq_eq_false_iff_ne] at hopening
      simp [List.lookup_eq_none_iff, typeBrackets, codeBrackets, hopening]
    have hany : typeBrackets.any (·.2 == c) = false := by
      simp [typeBrackets, codeBrackets, BEq.comm, hclosing]
    rw [nestedFrom_cons, hlookup, hany]
    exact ih hcs

/-! ## Counts -/

/-- The count goes no lower than `floor` at any place of the text. -/
def StaysAbove (step : Nat → Char → Nat) (floor : Nat) : Nat → List Char → Prop
  | count, [] => floor ≤ count
  | count, c :: cs => floor ≤ count ∧ StaysAbove step floor (step count c) cs

theorem StaysAbove.le {step : Nat → Char → Nat} {floor count : Nat} {cs : List Char}
    (h : StaysAbove step floor count cs) : floor ≤ count := by
  cases cs with
  | nil => exact h
  | cons c cs => exact h.1

theorem StaysAbove.mono {step : Nat → Char → Nat} {floor floor' count : Nat} {cs : List Char}
    (h : StaysAbove step floor count cs) (hfloor : floor' ≤ floor) :
    StaysAbove step floor' count cs := by
  induction cs generalizing count with
  | nil => exact Nat.le_trans hfloor h
  | cons c cs ih => exact ⟨Nat.le_trans hfloor h.1, ih h.2⟩

/-- An opening bracket raises the count by the weight of its partner, the partner lowers it by its
weight, and nothing else has an effect. -/
structure Steady (pairs : List (Char × Char)) (step : Nat → Char → Nat) (weight : Char → Nat) :
    Prop where
  opening : ∀ p ∈ pairs, ∀ n, step n p.1 = n + weight p.2
  closing : ∀ p ∈ pairs, ∀ n, step (n + weight p.2) p.2 = n
  other : ∀ c, (∀ p ∈ pairs, c ≠ p.1 ∧ c ≠ p.2) → ∀ n, step n c = n

/-- What the brackets left open add to a count, for the partners that close them. -/
def openWeight (weight : Char → Nat) : List Char → Nat
  | [] => 0
  | partner :: awaited => weight partner + openWeight weight awaited

theorem openWeight_cons (weight : Char → Nat) (partner : Char) (awaited : List Char) :
    openWeight weight (partner :: awaited) = weight partner + openWeight weight awaited :=
  rfl

namespace Steady

variable {pairs : List (Char × Char)} {step : Nat → Char → Nat} {weight : Char → Nat}
  (hstep : Steady pairs step weight)

include hstep

/-- What a character does to the open brackets, it does to the count. -/
theorem count_step {c : Char} {awaited awaited' : List Char}
    (h : BracketStep pairs c awaited awaited') (n : Nat) :
    step (n + openWeight weight awaited) c = n + openWeight weight awaited' := by
  cases h with
  | opening hmem =>
    rw [hstep.opening _ hmem, openWeight_cons, Nat.add_comm (weight _), Nat.add_assoc]
  | closing hmem =>
    rw [openWeight_cons, Nat.add_comm (weight c), ← Nat.add_assoc, hstep.closing _ hmem]
  | other hother => exact hstep.other c hother _

/-- The count is above its value at the end by what the open brackets add to it. -/
theorem nestedFrom_count {awaited cs : List Char} (h : nestedFrom pairs awaited cs = true)
    (n : Nat) :
    StaysAbove step n (n + openWeight weight awaited) cs ∧
      cs.foldl step (n + openWeight weight awaited) = n := by
  induction cs generalizing awaited with
  | nil =>
    obtain rfl : awaited = [] := by simpa [nestedFrom] using h
    exact ⟨Nat.le_refl n, rfl⟩
  | cons c cs ih =>
    obtain ⟨awaited', hc, hcs, -⟩ := nestedFrom_step h
    rw [List.foldl_cons, StaysAbove, hstep.count_step hc]
    exact ⟨⟨Nat.le_add_right n _, (ih hcs).1⟩, (ih hcs).2⟩

theorem stays {cs : List Char} (h : nested pairs cs = true) (n : Nat) : StaysAbove step n n cs :=
  (hstep.nestedFrom_count h n).1

theorem foldl_eq {cs : List Char} (h : nested pairs cs = true) (n : Nat) : cs.foldl step n = n :=
  (hstep.nestedFrom_count h n).2

end Steady

/-! ## Pieces -/

theorem steady_depthAfter : Steady typeBrackets depthAfter fun _ => 1 where
  opening p hp n := by
    simp only [typeBrackets, codeBrackets, List.mem_cons, List.not_mem_nil, or_false] at hp
    rcases hp with rfl | rfl | rfl | rfl <;> rfl
  closing p hp n := by
    simp only [typeBrackets, codeBrackets, List.mem_cons, List.not_mem_nil, or_false] at hp
    rcases hp with rfl | rfl | rfl | rfl <;> rfl
  other c hc n := by
    simp only [typeBrackets, codeBrackets, List.forall_mem_cons] at hc
    simp [depthAfter, isOpening, isClosing, hc]

theorem uncut_of_stays (separator : Char) {depth : Nat} {cs : List Char}
    (h : StaysAbove depthAfter 1 depth cs) : Uncut separator depth cs := by
  induction cs generalizing depth with
  | nil => exact uncut_nil separator depth
  | cons c cs ih =>
    have hdepth : depth ≠ 0 := Nat.ne_of_gt h.1
    exact uncut_cons_iff.2 ⟨by simp [isCut, hdepth], ih h.2⟩

theorem uncut_nested (separator : Char) (depth : Nat) {cs : List Char}
    (h : nested typeBrackets cs = true) : Uncut separator (depth + 1) cs :=
  uncut_of_stays separator ((steady_depthAfter.stays h (depth + 1)).mono (Nat.le_add_left 1 depth))

theorem depthBehind_nested (depth : Nat) {cs : List Char} (h : nested typeBrackets cs = true) :
    depthBehind depth cs = depth :=
  steady_depthAfter.foldl_eq h depth

section Group

variable {opening closing : Char} (hpair : (opening, closing) ∈ typeBrackets) {cs : List Char}
  (hcs : nested typeBrackets cs = true)

include hpair hcs

/-- Brackets around a nested text hold it together. -/
theorem uncut_group (separator : Char) (depth : Nat) :
    Uncut separator depth (opening :: (cs ++ [closing])) := by
  have hopening : isOpening opening = true := by
    simp only [typeBrackets, codeBrackets, List.mem_cons, List.not_mem_nil, or_false,
      Prod.mk.injEq] at hpair
    rcases hpair with ⟨rfl, -⟩ | ⟨rfl, -⟩ | ⟨rfl, -⟩ | ⟨rfl, -⟩ <;> rfl
  have hinside : depthAfter depth opening = depth + 1 := steady_depthAfter.opening _ hpair depth
  refine uncut_cons_iff.2 ⟨by simp [isCut, hopening], ?_⟩
  rw [hinside]
  refine (uncut_nested separator depth hcs).append ?_
  rw [depthBehind_nested _ hcs]
  exact uncut_cons_iff.2 ⟨by simp [isCut], uncut_nil _ _⟩

theorem depthBehind_group (depth : Nat) :
    depthBehind depth (opening :: (cs ++ [closing])) = depth := by
  have hinside : depthAfter depth opening = depth + 1 := steady_depthAfter.opening _ hpair depth
  have houtside : depthAfter (depth + 1) closing = depth := steady_depthAfter.closing _ hpair depth
  have hstep : depthBehind depth (opening :: (cs ++ [closing])) =
      depthBehind (depthAfter depth opening) (cs ++ [closing]) := rfl
  rw [hstep, hinside, depthBehind_append, depthBehind_nested _ hcs]
  exact houtside

theorem Enclosed.group : Enclosed (opening :: (cs ++ [closing])) :=
  ⟨uncut_group hpair hcs ',' 0, depthBehind_group hpair hcs 0⟩

end Group

end ClassDiagram.Text
