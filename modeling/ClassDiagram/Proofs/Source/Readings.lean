import Mathlib.Data.Option.Basic
import ClassDiagram.Proofs.Source.Member
import ClassDiagram.Source.Field
import ClassDiagram.Source.Instantiation
import ClassDiagram.Source.Signature

/-!
# What the parts of a member read

For each reading function: the texts it reads and where it stops, and the texts it refuses. A text is
given as the part that is read, followed by any rest that cannot extend it.
-/

namespace ClassDiagram.Source

open Text Cursor

theorem isBlank_space : ∀ c ∈ [' '], isBlank c = true := List.forall_mem_singleton.2 (by decide)

theorem dropWhile_blank_name {n : List Char} (hn : IsName n) (w : List Char) :
    (' ' :: (n ++ w)).dropWhile isBlank = n ++ w :=
  dropWhile_append_of_stops isBlank_space (hn.stops_blank w)

theorem skipSome?_blank (u : List Char) {w : List Char} (hw : Stops isBlank w) :
    (between u (' ' :: w)).skipSome? isBlank = some (between (u ++ [' ']) w) :=
  skipSome?_between u (List.cons_ne_nil ' ' []) isBlank_space hw

theorem skipSome?_blank_name (u : List Char) {n : List Char} (hn : IsName n) (w : List Char) :
    (between u (' ' :: (n ++ w))).skipSome? isBlank = some (between (u ++ [' ']) (n ++ w)) :=
  skipSome?_blank u (hn.stops_blank w)

/-! ## Type texts -/

namespace Member

theorem throughLast_append {last : Char} (v : List Char) {w : List Char} (hw : last ∉ w) :
    throughLast last (v ++ last :: w) = v ++ [last] := by
  have hpass : ∀ c ∈ w.reverse, (c != last) = true := fun c hc => by
    rw [bne_iff_ne]
    rintro rfl
    exact hw (List.mem_reverse.1 hc)
  have hdrop : (w.reverse ++ last :: v.reverse).dropWhile (· != last) = last :: v.reverse :=
    dropWhile_append_of_stops hpass (stops_cons.2 (by simp))
  unfold throughLast
  rw [List.reverse_append, List.reverse_cons, List.append_assoc, List.singleton_append, hdrop]
  simp

theorem typeArguments?_of_stops {k : Cursor} (h : Stops (· == '<') (k.rest.dropWhile isBlank)) :
    typeArguments? k = none := by
  have htoken : (k.skipWhile isBlank).token? "<" = none := token?_of_stops "<" rfl h
  simp [typeArguments?, htoken]

theorem brackets?_of_stops {k : Cursor} (h : Stops (· == '[') (k.rest.dropWhile isBlank)) :
    brackets? k = none :=
  token?_of_stops "[]" rfl h

theorem typeText?_of_stops (u : List Char) {w : List Char} (hw : Stops isPathChar w) :
    typeText? (between u w) = none := by
  simp [typeText?, skipSome?_of_stops u hw]

/-- A name is a type text unless type arguments or array brackets follow. -/
theorem typeText?_name (u : List Char) {n w : List Char} (hn : IsName n) (hw : Stops isPathChar w)
    (harguments : Stops (· == '<') (w.dropWhile isBlank))
    (hbrackets : Stops (· == '[') (w.dropWhile isBlank)) :
    typeText? (between u (n ++ w)) = some (between (u ++ n) w) := by
  have hname := skipSome?_between u hn.ne_nil (fun _ => hn.mem_path) hw
  have hnone : typeArguments? (between (u ++ n) w) = none := typeArguments?_of_stops harguments
  have hstop : brackets? (between (u ++ n) w) = none := brackets?_of_stops hbrackets
  simp [typeText?, hname, hnone, repeatedly_of_none hstop]

theorem typeText?_name_name (u : List Char) {m n : List Char} (hm : IsName m) (hn : IsName n)
    (w : List Char) :
    typeText? (between u (m ++ ' ' :: (n ++ w))) = some (between (u ++ m) (' ' :: (n ++ w))) := by
  apply typeText?_name u hm (stops_cons.2 (by decide))
  · rw [dropWhile_blank_name hn]
    exact hn.stops_eq (by decide) w
  · rw [dropWhile_blank_name hn]
    exact hn.stops_eq (by decide) w

theorem typeArguments?_between (u : List Char) {t v w : List Char} (ht : IsName t)
    (hv : ∀ c ∈ v, isArgumentChar c = true ∧ c ≠ '>') (hw : Stops isArgumentChar w) :
    typeArguments? (between u ('<' :: (t ++ '>' :: (v ++ w)))) =
      some (between (u ++ ('<' :: (t ++ ['>']))) (v ++ w)) := by
  have hstart : (between u ('<' :: (t ++ '>' :: (v ++ w)))).skipWhile isBlank =
      between u ('<' :: (t ++ '>' :: (v ++ w))) := skipWhile_of_stops u (stops_cons.2 (by decide))
  have htoken : (between u ('<' :: (t ++ '>' :: (v ++ w)))).token? "<" =
      some (between (u ++ ['<']) (t ++ '>' :: (v ++ w))) := token?_between u "<" _
  have hinner : (t ++ '>' :: (v ++ w)).takeWhile isArgumentChar = t ++ '>' :: v := by
    have hall : ∀ c ∈ t ++ '>' :: v, isArgumentChar c = true := by
      intro c hc
      rcases List.mem_append.1 hc with hc | hc
      · simp [isArgumentChar, ht.mem_path hc]
      · rcases List.mem_cons.1 hc with rfl | hc
        · decide
        · exact (hv c hc).1
    simpa using takeWhile_append_of_stops hall hw
  have hlast := throughLast_append t fun h => (hv '>' h).2 rfl
  have hcut : t ++ '>' :: (v ++ w) = (t ++ ['>']) ++ (v ++ w) := by simp
  simp only [typeArguments?, hstart, htoken, Option.bind_eq_bind, Option.bind_some, rest_between,
    hinner, hlast]
  split
  · next h => simp at h
  · rw [hcut, List.drop_left, past_between, List.append_assoc, List.singleton_append]

/-- A name with one type argument is a type text in front of a blank and another name. -/
theorem typeText?_argument (u : List Char) {c t n w : List Char} (hc : IsName c) (ht : IsName t)
    (hn : IsName n) (hw : Stops isArgumentChar w) :
    typeText? (between u (c ++ '<' :: (t ++ '>' :: ' ' :: (n ++ w)))) =
      some (between (u ++ (c ++ '<' :: (t ++ ['>']))) (' ' :: (n ++ w))) := by
  have hname : (between u (c ++ '<' :: (t ++ '>' :: ' ' :: (n ++ w)))).skipSome? isPathChar =
      some (between (u ++ c) ('<' :: (t ++ '>' :: ' ' :: (n ++ w)))) :=
    skipSome?_between u hc.ne_nil (fun _ => hc.mem_path) (stops_cons.2 (by decide))
  have hargument : typeArguments? (between (u ++ c) ('<' :: (t ++ '>' :: ' ' :: (n ++ w)))) =
      some (between (u ++ c ++ '<' :: (t ++ ['>'])) (' ' :: (n ++ w))) := by
    refine typeArguments?_between (v := ' ' :: n) (u ++ c) ht (fun d hd => ?_) hw
    rcases List.mem_cons.1 hd with rfl | hd
    · decide
    · exact ⟨by simp [isArgumentChar, hn.mem_path hd], hn.ne_of_mem hd (by decide)⟩
  have hstop : ∀ v, brackets? (between v (' ' :: (n ++ w))) = none := fun v => by
    apply brackets?_of_stops
    rw [rest_between, dropWhile_blank_name hn]
    exact hn.stops_eq (by decide) w
  simp only [typeText?, hname, hargument, Option.bind_eq_bind, Option.bind_some, Option.getD_some,
    repeatedly_of_none (hstop _), List.append_assoc, Option.pure_def]

end Member

/-! ## Signatures -/

namespace Signature

theorem isName_modifierWords : ∀ word ∈ modifierWords, IsName word.toList := by decide

/-- A name that no parenthesis follows is not that of a method. -/
theorem named?_eq_none (returnType? : Option (List Char)) (u : List Char) {n w : List Char}
    (hn : IsName n) (hw : Stops isNameChar w) (hopen : Stops (· == '(') (w.dropWhile isBlank)) :
    named? returnType? (between u (n ++ w)) = none := by
  have htoken : ((between (u ++ n) w).skipWhile isBlank).token? "(" = none :=
    token?_of_stops "(" rfl hopen
  simp [named?, name?_between u hn hw, htoken]

theorem named?_of_stops (returnType? : Option (List Char)) (u : List Char) {w : List Char}
    (hw : Stops isNameStart w) : named? returnType? (between u w) = none := by
  simp [named?, name?_of_stops u hw]

/-- A name, a parameter list in parentheses and a brace. -/
theorem named?_between (returnType? : Option (List Char)) (u : List Char) {n p : List Char}
    (w : List Char) (hn : IsName n) (hp : ∀ c ∈ p, c ≠ '(' ∧ c ≠ ')') :
    named? returnType? (between u (n ++ '(' :: (p ++ ')' :: ' ' :: '{' :: w))) =
      some ⟨returnType?, n, p, between (u ++ (n ++ '(' :: (p ++ [')', ' ']))) ('{' :: w)⟩ := by
  have hname := name?_between u hn (w := '(' :: (p ++ ')' :: ' ' :: '{' :: w))
    (stops_cons.2 (by decide))
  have hblank : ∀ v cs, (between v ('(' :: cs)).skipWhile isBlank = between v ('(' :: cs) :=
    fun v cs => skipWhile_of_stops v (stops_cons.2 (by decide))
  have hopen : ∀ v cs, (between v ('(' :: cs)).token? "(" = some (between (v ++ ['(']) cs) :=
    fun v cs => token?_between v "(" cs
  have hinner : ∀ v cs, (between v (p ++ ')' :: cs)).skipWhile (fun c => c != '(' && c != ')') =
      between (v ++ p) (')' :: cs) := fun v cs =>
    skipWhile_between v (fun c hc => by simpa using hp c hc) (stops_cons.2 (by decide))
  have hclose : ∀ v cs, (between v (')' :: cs)).token? ")" = some (between (v ++ [')']) cs) :=
    fun v cs => token?_between v ")" cs
  have hstop : ∀ v, (between v (' ' :: '{' :: w)).skipWhile isBlank =
      between (v ++ [' ']) ('{' :: w) := fun v =>
    skipWhile_between v isBlank_space (stops_cons.2 (by decide))
  have hthrows : ∀ v, throwsClause? (between v ('{' :: w)) = none := fun v => by
    have hword : (between v ('{' :: w)).token? "throws" = none :=
      token?_of_stops "throws" rfl (stops_cons.2 (by decide))
    simp [throwsClause?, hword]
  simp only [named?, hname, hblank, hopen, hinner, hclose, hstop, hthrows, Option.bind_eq_bind,
    Option.bind_some, Option.getD_none, upTo_between]
  simp [guard]

theorem typed?_of_stops (u : List Char) {w : List Char} (hw : Stops isPathChar w) :
    typed? (between u w) = none := by
  simp [typed?, Member.typeText?_of_stops u hw]

/-- What follows the modifiers. -/
def tail? (k : Cursor) : Option Tail := (typed? k).or (named? none k)

/-- The signature of what was read, and the offset at which it ends. -/
def ofReading : Member.Reading Tail → Signature × Nat
  | ⟨start, stop, tail⟩ =>
    (⟨String.ofList tail.name, trim (start.upTo stop), tail.returnType?.map String.ofList,
      tail.parameters, start, if tail.stop.rest.head? == some '{' then some tail.stop else none⟩,
      tail.stop.offset)

theorem at?_eq : at? = fun k => (Member.at? modifierWords tail? k).map ofReading := rfl

/-- An assignment is no signature. -/
theorem tail?_assignment (u : List Char) {n : List Char} (hn : IsName n) (w : List Char) :
    tail? (between u (n ++ ' ' :: '=' :: w)) = none := by
  have hblank : (' ' :: '=' :: w).dropWhile isBlank = '=' :: w :=
    dropWhile_append_of_stops isBlank_space (stops_cons.2 (by decide))
  have htype : Member.typeText? (between u (n ++ ' ' :: '=' :: w)) =
      some (between (u ++ n) (' ' :: '=' :: w)) := by
    apply Member.typeText?_name u hn (stops_cons.2 (by decide))
    · rw [hblank]
      exact stops_cons.2 (by decide)
    · rw [hblank]
      exact stops_cons.2 (by decide)
  have hassign : ∀ r v, named? r (between v ('=' :: w)) = none := fun r v =>
    named?_of_stops r v (stops_cons.2 (by decide))
  have hnamed : named? none (between u (n ++ ' ' :: '=' :: w)) = none := by
    apply named?_eq_none none u hn (stops_cons.2 (by decide))
    rw [hblank]
    exact stops_cons.2 (by decide)
  have hskip : ∀ v, (between v (' ' :: '=' :: w)).skipSome? isBlank =
      some (between (v ++ [' ']) ('=' :: w)) := fun v =>
    skipSome?_blank v (stops_cons.2 (by decide))
  simp [tail?, typed?, htype, hskip, hassign, hnamed]

theorem tail?_of_stops (u w : List Char) (hstart : Stops isNameStart w)
    (hpath : Stops isPathChar w) : tail? (between u w) = none := by
  rw [tail?, typed?_of_stops u hpath, named?_of_stops none u hstart, Option.or_none]

end Signature

/-! ## Fields -/

namespace Field

theorem isName_modifiers : ∀ word ∈ modifiers, IsName word.toList := by decide

theorem rest?_of_stops (u w : List Char) (_ : Stops isNameStart w) (hpath : Stops isPathChar w) :
    rest? (between u w) = none := by
  simp [rest?, Member.typeText?_of_stops u hpath]

/-- The parts of a field that was read, and the offset at which it ends. -/
def ofReading : Member.Reading (List Char × List Char × Cursor) →
    (List Char × List Char × List Char) × Nat
  | ⟨start, stop, type, name, semicolon⟩ => ((start.upTo stop, type, name), semicolon.offset)

theorem at?_eq : at? = fun k => (Member.at? modifiers rest? k).map ofReading := rfl

/-- A type text, a name and a semicolon. -/
theorem rest?_between (u : List Char) {t n w : List Char} (hn : IsName n)
    (htype : Member.typeText? (between u (t ++ ' ' :: (n ++ ';' :: w))) =
      some (between (u ++ t) (' ' :: (n ++ ';' :: w)))) :
    rest? (between u (t ++ ' ' :: (n ++ ';' :: w))) =
      some (t, n, between (u ++ (t ++ ' ' :: n)) (';' :: w)) := by
  have hname := fun v => name?_between v hn (w := ';' :: w) (stops_cons.2 (by decide))
  have hblank : ∀ v, (between v (';' :: w)).skipWhile isBlank = between v (';' :: w) :=
    fun v => skipWhile_of_stops v (stops_cons.2 (by decide))
  have hvalue : ∀ v, initialValue? (between v (';' :: w)) = none := fun v => by
    have htoken : (between v (';' :: w)).token? "=" = none :=
      token?_of_stops "=" rfl (stops_cons.2 (by decide))
    simp [initialValue?, htoken]
  simp only [rest?, htype, skipSome?_blank_name _ hn, hname, hblank, hvalue, Option.bind_eq_bind,
    Option.bind_some, Option.getD_none, upTo_between]
  simp [guard]

/-- Two names make no field unless a semicolon or an initial value follows. -/
theorem rest?_eq_none (u : List Char) {m n w : List Char} (hm : IsName m) (hn : IsName n)
    (hw : Stops isNameChar w) (hvalue : Stops (· == '=') (w.dropWhile isBlank))
    (hstop : Stops (· == ';') (w.dropWhile isBlank)) :
    rest? (between u (m ++ ' ' :: (n ++ w))) = none := by
  have hname := fun v => name?_between v hn hw
  have hnone : ∀ v, initialValue? ((between v w).skipWhile isBlank) = none := fun v => by
    have htoken : ((between v w).skipWhile isBlank).token? "=" = none :=
      token?_of_stops "=" rfl hvalue
    simp [initialValue?, htoken]
  have hhead : (w.dropWhile isBlank).head? ≠ some ';' := fun h => by
    simpa using hstop ';' h
  simp only [rest?, Member.typeText?_name_name u hm hn, skipSome?_blank_name _ hn, hname, hnone,
    Option.bind_eq_bind, Option.bind_some, Option.getD_none]
  simp [guard, skipWhile, past, hhead]

end Field

/-! ## Instantiations -/

namespace Instantiation

/-- Assigning a new object to a name. -/
theorem at?_between (u : List Char) {v n : List Char} (w : List Char) (hv : IsName v)
    (hn : IsName n) :
    at? (between u (v ++ (" = new ".toList ++ (n ++ '(' :: w)))) =
      some (n, byteSize (u ++ (v ++ (" = new ".toList ++ (n ++ ['(']))))) := by
  have htarget : ∀ u w, (between u (v ++ ' ' :: w)).skipSome? isTargetChar =
      some (between (u ++ v) (' ' :: w)) := fun u w =>
    skipSome?_between u hv.ne_nil (fun c hc => by simp [isTargetChar, hv.mem_path hc])
      (stops_cons.2 (by decide))
  have hblank : ∀ u c w, isBlank c = false → (between u (' ' :: c :: w)).skipWhile isBlank =
      between (u ++ [' ']) (c :: w) := fun u c w hc =>
    skipWhile_between u isBlank_space (stops_cons.2 hc)
  have hassign : ∀ u w, (between u ('=' :: w)).token? "=" = some (between (u ++ ['=']) w) :=
    fun u w => token?_between u "=" w
  have hnew : ∀ u w, (between u ('n' :: 'e' :: 'w' :: w)).token? "new" =
      some (between (u ++ ['n', 'e', 'w']) w) := fun u w => token?_between u "new" w
  have hname := fun u => name?_between u hn (w := '(' :: w) (stops_cons.2 (by decide))
  have hstay : ∀ u, (between u ('(' :: w)).skipWhile isBlank = between u ('(' :: w) :=
    fun u => skipWhile_of_stops u (stops_cons.2 (by decide))
  have harguments : ∀ u, typeArguments? (between u ('(' :: w)) = none := fun u => by
    have htoken : (between u ('(' :: w)).token? "<" = none :=
      token?_of_stops "<" rfl (stops_cons.2 (by decide))
    simp [typeArguments?, htoken]
  have hopen : ∀ u, (between u ('(' :: w)).token? "(" = some (between (u ++ ['(']) w) :=
    fun u => token?_between u "(" w
  have hword : " = new ".toList = [' ', '=', ' ', 'n', 'e', 'w', ' '] := rfl
  simp only [hword, List.cons_append, List.nil_append, at?, htarget, hblank _ '=' _ (by decide),
    hblank _ 'n' _ (by decide), hassign, hnew, skipSome?_blank_name _ hn, hname, hstay, harguments,
    hopen, Option.bind_eq_bind, Option.bind_some, Option.getD_none, offset_between]
  simp

theorem at?_of_stops (u : List Char) {w : List Char} (hw : Stops isTargetChar w) :
    at? (between u w) = none := by
  simp [at?, skipSome?_of_stops u hw]

end Instantiation

end ClassDiagram.Source
