import ClassDiagram.Proofs.Text.Position
import ClassDiagram.TypeExpr.Reader

/-!
# The grammar of type expressions

`Derives phrase cs` says that the whole of `cs` is written as the phrase demands:

* a text is a type with gaps around it;
* a type is a name, an optional argument part behind a gap, and array brackets, each pair behind a
  gap;
* an argument part is an empty pair of angle brackets, or a list of arguments between them;
* a list is one argument or more, separated by commas;
* an argument, with gaps around it, is a wildcard, a wildcard with a bound, or a type.

The reader takes the first alternative that fits, goes as far as it can and never returns to a
choice that it made. It accepts just what the grammar derives (`derives_of_read?`,
`read?_of_derives`), because of what can follow: behind a type come a gap and then a comma, a
closing angle bracket or the end (`Ends`), and none of them goes on with a name, an argument part or
array brackets.
-/

namespace ClassDiagram.TypeExpr

open Text

/-! ## The grammar -/

/-- A run of gap characters. -/
def Gap (cs : List Char) : Prop := ∀ c ∈ cs, isGap c = true

/-- At least one name character, and nothing else. -/
structure IsTypeName (cs : List Char) : Prop where
  ne_nil : cs ≠ []
  chars : ∀ c ∈ cs, isTypeNameChar c = true

/-- Pairs of array brackets, each behind a gap. -/
inductive Brackets : Nat → List Char → Prop
  | none : Brackets 0 []
  | more {n : Nat} {gap rest : List Char} (hgap : Gap gap) (hrest : Brackets n rest) :
      Brackets (n + 1) (gap ++ '[' :: ']' :: rest)

/-- The symbols of the grammar, each with what it stands for. -/
inductive Phrase where
  | text (t : TypeExpr)
  | type (t : TypeExpr)
  | arguments (ts : List TypeExpr)
  | list (ts : List TypeExpr)
  | argument (t : TypeExpr)

/-- The rules of the grammar. -/
inductive Derives : Phrase → List Char → Prop
  | text {t : TypeExpr} {before cs after : List Char} (hbefore : Gap before)
      (htype : Derives (.type t) cs) (hafter : Gap after) :
      Derives (.text t) (before ++ (cs ++ after))
  | type {name arguments brackets : List Char} {ts : List TypeExpr} {n : Nat}
      (hname : IsTypeName name) (harguments : Derives (.arguments ts) arguments)
      (hbrackets : Brackets n brackets) :
      Derives (.type ⟨String.ofList name, ts, n⟩) (name ++ (arguments ++ brackets))
  | noArguments : Derives (.arguments []) []
  | diamond {gap : List Char} (hgap : Gap gap) : Derives (.arguments []) (gap ++ ['<', '>'])
  | arguments {gap list : List Char} {ts : List TypeExpr} (hgap : Gap gap)
      (hlist : Derives (.list ts) list) : Derives (.arguments ts) (gap ++ '<' :: (list ++ ['>']))
  | last {t : TypeExpr} {cs : List Char} (hargument : Derives (.argument t) cs) :
      Derives (.list [t]) cs
  | more {t : TypeExpr} {ts : List TypeExpr} {cs list : List Char}
      (hargument : Derives (.argument t) cs) (hlist : Derives (.list ts) list) :
      Derives (.list (t :: ts)) (cs ++ ',' :: list)
  | wildcard {before after : List Char} (hbefore : Gap before) (hafter : Gap after) :
      Derives (.argument wildcard) (before ++ '?' :: after)
  | bounded {t : TypeExpr} {before gap gap' cs after : List Char} {word : String}
      (hbefore : Gap before) (hgap : Gap gap) (hword : word = "extends" ∨ word = "super")
      (hgap' : Gap gap') (hends : Stops continuesIdentifier (gap' ++ cs))
      (htype : Derives (.type t) cs) (hafter : Gap after) :
      Derives (.argument t)
        (before ++ '?' :: (gap ++ (word.toList ++ (gap' ++ (cs ++ after)))))
  | plain {t : TypeExpr} {before cs after : List Char} (hbefore : Gap before)
      (htype : Derives (.type t) cs) (hafter : Gap after) :
      Derives (.argument t) (before ++ (cs ++ after))

/-! ## Gaps -/

theorem isTypeNameChar_of_isGap {c : Char} (h : isGap c = true) : isTypeNameChar c = false := by
  simp only [isGap, Bool.or_eq_true, beq_iff_eq] at h
  rcases h with ((rfl | rfl) | rfl) | rfl <;> decide +kernel

theorem isGap_of_isTypeNameChar {c : Char} (h : isTypeNameChar c = true) : isGap c = false := by
  cases hc : isGap c with
  | false => rfl
  | true => simp [isTypeNameChar_of_isGap hc] at h

theorem skipGap_append {gap : List Char} (hgap : Gap gap) (cs : List Char) :
    skipGap (gap ++ cs) = skipGap cs :=
  List.dropWhile_append_of_pos hgap

theorem skipGap_of_stops {cs : List Char} (h : Stops isGap cs) : skipGap cs = cs :=
  dropWhile_append_of_stops (v := []) (by simp) h

theorem skipGap_gap {gap cs : List Char} (hgap : Gap gap) (hcs : Stops isGap cs) :
    skipGap (gap ++ cs) = cs :=
  (skipGap_append hgap cs).trans (skipGap_of_stops hcs)

theorem exists_gap (cs : List Char) : ∃ gap, Gap gap ∧ cs = gap ++ skipGap cs :=
  ⟨cs.takeWhile isGap, List.all_eq_true.1 List.all_takeWhile,
    List.takeWhile_append_dropWhile.symm⟩

/-- What cannot come behind a gap cannot come in front of it either. -/
theorem stops_of_stops_skipGap {p : Char → Bool} (hp : ∀ c, isGap c = true → p c = false)
    {cs : List Char} (h : Stops p (skipGap cs)) : Stops p cs := by
  cases cs with
  | nil => exact stops_nil
  | cons c cs =>
    cases hc : isGap c with
    | true => exact stops_cons.2 (hp c hc)
    | false => rwa [skipGap_of_stops (stops_cons.2 hc)] at h

/-! ## What can follow a type -/

/-- A comma, a closing angle bracket or nothing. -/
def AtSeparator (cs : List Char) : Prop := ∀ c ∈ cs.head?, c = ',' ∨ c = '>'

/-- A gap, and then a comma, a closing angle bracket or nothing. -/
def Ends (cs : List Char) : Prop := AtSeparator (skipGap cs)

theorem AtSeparator.stops {cs : List Char} (h : AtSeparator cs) {p : Char → Bool}
    (hcomma : p ',' = false) (hangle : p '>' = false) : Stops p cs := by
  intro c hc
  rcases h c hc with rfl | rfl
  · exact hcomma
  · exact hangle

theorem AtSeparator.skipGap_eq {cs : List Char} (h : AtSeparator cs) {gap : List Char}
    (hgap : Gap gap) : skipGap (gap ++ cs) = cs :=
  skipGap_gap hgap (h.stops (by decide) (by decide))

theorem AtSeparator.ends {cs : List Char} (h : AtSeparator cs) {gap : List Char} (hgap : Gap gap) :
    Ends (gap ++ cs) := by
  rw [Ends, h.skipGap_eq hgap]
  exact h

theorem Gap.ends {gap : List Char} (hgap : Gap gap) : Ends gap := by
  have hnil : AtSeparator [] := by simp [AtSeparator]
  simpa using hnil.ends hgap

theorem Brackets.stops {n : Nat} {brackets rest : List Char} (h : Brackets n brackets)
    (hrest : Ends rest) {p : Char → Bool} (hbracket : p '[' = false) (hcomma : p ',' = false)
    (hangle : p '>' = false) : Stops p (skipGap (brackets ++ rest)) := by
  cases h with
  | none => exact AtSeparator.stops hrest hcomma hangle
  | more hgap hrest =>
    rw [List.append_assoc, List.cons_append, skipGap_gap hgap (stops_cons.2 (by decide))]
    exact stops_cons.2 hbracket

/-- Neither an argument part nor brackets go on with a name. -/
theorem Derives.stops_name {ts : List TypeExpr} {n : Nat} {arguments brackets rest : List Char}
    (h : Derives (.arguments ts) arguments) (hbrackets : Brackets n brackets) (hrest : Ends rest) :
    Stops isTypeNameChar (arguments ++ (brackets ++ rest)) := by
  apply stops_of_stops_skipGap fun c => isTypeNameChar_of_isGap
  have hangle : ∀ {gap : List Char} (cs : List Char), Gap gap →
      Stops isTypeNameChar (skipGap (gap ++ '<' :: cs)) := by
    intro gap cs hgap
    rw [skipGap_gap hgap (stops_cons.2 (by decide))]
    exact stops_cons.2 (by decide +kernel)
  cases h with
  | noArguments =>
    exact hbrackets.stops hrest (by decide +kernel) (by decide +kernel) (by decide +kernel)
  | diamond hgap => simpa using hangle _ hgap
  | arguments hgap hlist => simpa using hangle _ hgap

theorem Derives.type_head {t : TypeExpr} {cs : List Char} (h : Derives (.type t) cs) :
    ∃ c rest, cs = c :: rest ∧ isTypeNameChar c = true := by
  cases h with
  | type hname _ _ =>
    obtain ⟨c, name, rfl⟩ := List.exists_cons_of_ne_nil hname.ne_nil
    exact ⟨c, _, rfl, hname.chars c List.mem_cons_self⟩

theorem Derives.stops_gap {t : TypeExpr} {cs : List Char} (h : Derives (.type t) cs)
    (rest : List Char) : Stops isGap (cs ++ rest) := by
  obtain ⟨c, tail, rfl, hc⟩ := h.type_head
  exact stops_cons.2 (isGap_of_isTypeNameChar hc)

theorem Derives.stops_append_iff {t : TypeExpr} {cs : List Char} (h : Derives (.type t) cs)
    {p : Char → Bool} (gap rest : List Char) :
    Stops p (gap ++ (cs ++ rest)) ↔ Stops p (gap ++ cs) := by
  obtain ⟨c, tail, rfl, -⟩ := h.type_head
  cases gap <;> simp

/-- No argument starts with a closing angle bracket, so a list is never taken for an empty one. -/
theorem Derives.stops_angle {ts : List TypeExpr} {cs : List Char} (h : Derives (.list ts) cs)
    (rest : List Char) : Stops (· == '>') (cs ++ rest) := by
  have hgaps : ∀ {gap : List Char} (cs : List Char), Gap gap → Stops isGap cs →
      Stops (· == '>') cs → Stops (· == '>') (gap ++ cs) := by
    intro gap cs hgap hcs hstop
    apply stops_of_stops_skipGap
    · intro c hc
      simp only [beq_eq_false_iff_ne]
      rintro rfl
      exact absurd hc (by decide)
    · rwa [skipGap_gap hgap hcs]
  have hargument : ∀ {t : TypeExpr} {cs : List Char} (rest : List Char),
      Derives (.argument t) cs → Stops (· == '>') (cs ++ rest) := by
    intro t cs rest h
    cases h with
    | wildcard hbefore _ =>
      rw [List.append_assoc]
      exact hgaps _ hbefore (stops_cons.2 (by decide)) (stops_cons.2 (by decide))
    | bounded hbefore =>
      rw [List.append_assoc]
      exact hgaps _ hbefore (stops_cons.2 (by decide)) (stops_cons.2 (by decide))
    | plain hbefore htype _ =>
      rw [List.append_assoc, List.append_assoc]
      refine hgaps _ hbefore (htype.stops_gap _) ?_
      obtain ⟨c, tail, rfl, hc⟩ := htype.type_head
      refine stops_cons.2 (beq_eq_false_iff_ne.2 ?_)
      rintro rfl
      exact absurd hc (by decide +kernel)
  cases h with
  | last h => exact hargument rest h
  | more h _ =>
    rw [List.append_assoc]
    exact hargument _ h

/-! ## The parts of the reader

Each part is described twice: what it makes of a text of the grammar, and that what it accepts is
such a text. -/

theorem readName?_append {name rest : List Char} (hname : IsTypeName name)
    (hrest : Stops isTypeNameChar rest) :
    readName? (name ++ rest) = some (String.ofList name, rest) := by
  unfold readName?
  rw [takeWhile_append_of_stops hname.chars hrest, dropWhile_append_of_stops hname.chars hrest]
  obtain ⟨c, name, rfl⟩ := List.exists_cons_of_ne_nil hname.ne_nil
  rfl

theorem readName?_eq_some {cs rest : List Char} {name : String}
    (h : readName? cs = some (name, rest)) :
    ∃ u, IsTypeName u ∧ name = String.ofList u ∧ cs = u ++ rest := by
  unfold readName? at h
  split at h
  · cases h
  next hne =>
    cases h
    exact ⟨_, ⟨hne, List.all_eq_true.1 List.all_takeWhile⟩, rfl,
      List.takeWhile_append_dropWhile.symm⟩

theorem Brackets.le_length {n : Nat} {brackets : List Char} (h : Brackets n brackets) :
    n ≤ brackets.length := by
  induction h with
  | none => exact Nat.le_refl 0
  | more _ _ ih =>
    simp only [List.length_append, List.length_cons]
    omega

theorem readDimensions_append {n m : Nat} {brackets rest : List Char} (h : Brackets n brackets)
    (hrest : Ends rest) (hm : n ≤ m) : readDimensions m (brackets ++ rest) = (n, rest) := by
  induction h generalizing m with
  | none =>
    cases m with
    | zero => rfl
    | succ m =>
      have hopen : Stops (· == '[') (skipGap rest) :=
        AtSeparator.stops hrest (by decide) (by decide)
      rw [List.nil_append, readDimensions]
      split
      · next heq => simp [heq] at hopen
      · rfl
  | more hgap _ ih =>
    obtain ⟨m, rfl⟩ : ∃ k, m = k + 1 := ⟨m - 1, by omega⟩
    rw [List.append_assoc, readDimensions, List.cons_append,
      skipGap_gap hgap (stops_cons.2 (by decide)), List.cons_append]
    simp only [ih (Nat.le_of_succ_le_succ hm)]

theorem readDimensions_eq {m n : Nat} {cs rest : List Char}
    (h : readDimensions m cs = (n, rest)) :
    ∃ brackets, Brackets n brackets ∧ cs = brackets ++ rest := by
  induction m generalizing n cs rest with
  | zero =>
    cases h
    exact ⟨[], .none, rfl⟩
  | succ m ih =>
    rw [readDimensions] at h
    split at h
    next tail heq =>
      obtain ⟨gap, hgap, hcs⟩ := exists_gap cs
      obtain ⟨k, tail', hread⟩ : ∃ k tail', readDimensions m tail = (k, tail') := ⟨_, _, rfl⟩
      obtain ⟨brackets, hbrackets, rfl⟩ := ih hread
      simp only [hread] at h
      cases h
      refine ⟨_, .more hgap hbrackets, ?_⟩
      rw [hcs, heq]
      simp
    next =>
      cases h
      exact ⟨[], .none, rfl⟩

theorem readWord?_append (word : String) {rest : List Char}
    (hrest : Stops continuesIdentifier rest) :
    readWord? word (word.toList ++ rest) = some rest := by
  have hends : rest.head?.any continuesIdentifier = false := by
    cases rest with
    | nil => rfl
    | cons c rest => simpa using hrest
  simp [readWord?, List.isPrefixOf_iff_prefix.2 (List.prefix_append _ _), hends]

theorem readWord?_eq_some {word : String} {cs rest : List Char}
    (h : readWord? word cs = some rest) :
    cs = word.toList ++ rest ∧ Stops continuesIdentifier rest := by
  unfold readWord? at h
  split at h
  next hprefix =>
    obtain ⟨tail, rfl⟩ := List.isPrefixOf_iff_prefix.1 hprefix
    simp only [List.drop_left] at h
    split at h
    · cases h
    next hends =>
      cases h
      refine ⟨rfl, ?_⟩
      intro c hc
      rw [Option.mem_def] at hc
      simpa [hc] using hends
  · cases h

theorem readWord?_of_stops {word : String} {c : Char} {cs : List Char}
    (hword : word.toList.head? = some c) (hcs : Stops (· == c) cs) : readWord? word cs = none := by
  cases h : readWord? word cs with
  | none => rfl
  | some rest =>
    obtain ⟨rfl, -⟩ := readWord?_eq_some h
    have := hcs c (by simp [hword])
    simp at this

theorem readBoundWord?_gap {gap cs : List Char} (hgap : Gap gap) (hcs : Stops isGap cs) :
    readBoundWord? (gap ++ cs) =
      ((readWord? "extends" cs).or (readWord? "super" cs)).map skipGap := by
  simp only [readBoundWord?, skipGap_gap hgap hcs]

theorem readBoundWord?_append {gap gap' cs : List Char} {word : String} (hgap : Gap gap)
    (hword : word = "extends" ∨ word = "super") (hgap' : Gap gap')
    (hends : Stops continuesIdentifier (gap' ++ cs)) (hcs : Stops isGap cs) :
    readBoundWord? (gap ++ (word.toList ++ (gap' ++ cs))) = some cs := by
  have hafter : skipGap (gap' ++ cs) = cs := skipGap_gap hgap' hcs
  rcases hword with rfl | rfl
  · have hstop : Stops isGap ("extends".toList ++ (gap' ++ cs)) := stops_cons.2 (by decide)
    rw [readBoundWord?_gap hgap hstop, readWord?_append _ hends]
    exact congrArg some hafter
  · have hstop : Stops isGap ("super".toList ++ (gap' ++ cs)) := stops_cons.2 (by decide)
    have hother : Stops (· == 'e') ("super".toList ++ (gap' ++ cs)) := stops_cons.2 (by decide)
    rw [readBoundWord?_gap hgap hstop, readWord?_of_stops (c := 'e') rfl hother,
      readWord?_append _ hends]
    exact congrArg some hafter

theorem readBoundWord?_of_atSeparator {gap cs : List Char} (hgap : Gap gap)
    (hcs : AtSeparator cs) : readBoundWord? (gap ++ cs) = none := by
  rw [readBoundWord?_gap hgap (hcs.stops (by decide) (by decide)),
    readWord?_of_stops (c := 'e') rfl (hcs.stops (by decide) (by decide)),
    readWord?_of_stops (c := 's') rfl (hcs.stops (by decide) (by decide))]
  rfl

theorem readBoundWord?_eq_some {cs rest : List Char} (h : readBoundWord? cs = some rest) :
    ∃ gap word gap', Gap gap ∧ (word = "extends" ∨ word = "super") ∧ Gap gap' ∧
      Stops continuesIdentifier (gap' ++ rest) ∧ cs = gap ++ (word.toList ++ (gap' ++ rest)) := by
  obtain ⟨gap, hgap, hcs⟩ := exists_gap cs
  obtain ⟨tail, htail, rfl⟩ := Option.map_eq_some_iff.1 h
  obtain ⟨gap', hgap', hrest⟩ := exists_gap tail
  have hread : ∀ {word : String}, readWord? word (skipGap cs) = some tail →
      Stops continuesIdentifier (gap' ++ skipGap tail) ∧
        cs = gap ++ (word.toList ++ (gap' ++ skipGap tail)) := by
    intro word hword
    obtain ⟨hsplit, hends⟩ := readWord?_eq_some hword
    rw [← hrest]
    exact ⟨hends, by rw [← hsplit, ← hcs]⟩
  rcases Option.or_eq_some_iff.1 htail with hword | ⟨-, hword⟩
  · exact ⟨gap, "extends", gap', hgap, .inl rfl, hgap', hread hword⟩
  · exact ⟨gap, "super", gap', hgap, .inr rfl, hgap', hread hword⟩

/-- Reads the argument part of a type; `readList?` reads a list and the bracket behind it. -/
def readArgumentPart? (readList? : List Char → Option (List TypeExpr × List Char))
    (cs : List Char) : Option (List TypeExpr × List Char) :=
  match skipGap cs with
  | '<' :: '>' :: rest => some ([], rest)
  | '<' :: rest => readList? rest
  | _ => none

theorem readType?_succ (n : Nat) (cs : List Char) :
    readType? (n + 1) cs =
      (readName? cs).map fun (name, rest) =>
        let (ts, rest) := (readArgumentPart? (readArguments? n) rest).getD ([], rest)
        let (dimensions, rest) := readDimensions rest.length rest
        (⟨name, ts, dimensions⟩, rest) := by
  rw [readType?]
  cases readName? cs <;> rfl

/-! ## What the reader accepts is in the grammar -/

theorem readArgument?_sound {readType? : List Char → Option (TypeExpr × List Char)}
    (htype : ∀ {cs t rest}, readType? cs = some (t, rest) →
      ∃ u, Derives (.type t) u ∧ cs = u ++ rest)
    {cs rest : List Char} {t : TypeExpr} (h : readArgument? readType? cs = some (t, rest)) :
    ∃ u, Derives (.argument t) u ∧ cs = u ++ rest := by
  obtain ⟨before, hbefore, hcs⟩ := exists_gap cs
  unfold readArgument? at h
  split at h
  next tail hmark =>
    rw [hmark] at hcs
    split at h
    next bound tail' hbound =>
      obtain ⟨start, hstart, hread⟩ := Option.bind_eq_some_iff.1 hbound
      obtain ⟨gap, word, gap', hgap, hword, hgap', hends, rfl⟩ := readBoundWord?_eq_some hstart
      obtain ⟨u, hu, rfl⟩ := htype hread
      obtain ⟨after, hafter, hrest⟩ := exists_gap tail'
      rw [hu.stops_append_iff] at hends
      cases h
      refine ⟨_, .bounded hbefore hgap hword hgap' hends hu hafter, ?_⟩
      simp only [hcs, List.append_assoc, List.cons_append, ← hrest]
    next =>
      obtain ⟨after, hafter, hrest⟩ := exists_gap tail
      cases h
      refine ⟨_, .wildcard hbefore hafter, ?_⟩
      simp only [hcs, List.append_assoc, List.cons_append, ← hrest]
  next =>
    obtain ⟨⟨t', tail⟩, hread, heq⟩ := Option.map_eq_some_iff.1 h
    obtain ⟨u, hu, hsplit⟩ := htype hread
    obtain ⟨after, hafter, hrest⟩ := exists_gap tail
    cases heq
    refine ⟨_, .plain hbefore hu hafter, ?_⟩
    rw [hsplit] at hcs
    simp only [hcs, List.append_assoc, ← hrest]

/-- An argument part that cannot be read to its end counts as absent. -/
theorem readArgumentPart?_sound {readList? : List Char → Option (List TypeExpr × List Char)}
    (hlist : ∀ {cs ts rest}, readList? cs = some (ts, rest) →
      ∃ u, Derives (.list ts) u ∧ cs = u ++ '>' :: rest)
    {cs rest : List Char} {ts : List TypeExpr}
    (h : (readArgumentPart? readList? cs).getD ([], cs) = (ts, rest)) :
    ∃ u, Derives (.arguments ts) u ∧ cs = u ++ rest := by
  obtain ⟨gap, hgap, hcs⟩ := exists_gap cs
  have habsent : ([], cs) = (ts, rest) → ∃ u, Derives (.arguments ts) u ∧ cs = u ++ rest := by
    rintro ⟨⟩
    exact ⟨[], .noArguments, rfl⟩
  unfold readArgumentPart? at h
  split at h
  next tail hopen =>
    cases h
    refine ⟨_, .diamond hgap, ?_⟩
    rw [hcs, hopen]
    simp
  next tail _ hopen =>
    cases hread : readList? tail with
    | none => exact habsent (by simpa [hread] using h)
    | some result =>
      rw [hread] at h
      cases h
      obtain ⟨u, hu, rfl⟩ := hlist hread
      refine ⟨_, .arguments hgap hu, ?_⟩
      rw [hcs, hopen]
      simp
  · exact habsent h

theorem read_sound (n : Nat) :
    (∀ {cs t rest}, readType? n cs = some (t, rest) → ∃ u, Derives (.type t) u ∧ cs = u ++ rest) ∧
      ∀ {cs ts rest}, readArguments? n cs = some (ts, rest) →
        ∃ u, Derives (.list ts) u ∧ cs = u ++ '>' :: rest := by
  induction n with
  | zero => exact ⟨nofun, nofun⟩
  | succ n ih =>
    obtain ⟨htype, hlist⟩ := ih
    constructor
    · intro cs t rest h
      rw [readType?_succ] at h
      obtain ⟨⟨name, tail⟩, hname, heq⟩ := Option.map_eq_some_iff.1 h
      obtain ⟨u, hu, rfl, rfl⟩ := readName?_eq_some hname
      obtain ⟨ts, tail', hpart⟩ :
          ∃ ts tail', (readArgumentPart? (readArguments? n) tail).getD ([], tail) = (ts, tail') :=
        ⟨_, _, rfl⟩
      obtain ⟨k, tail'', hdimensions⟩ :
          ∃ k tail'', readDimensions tail'.length tail' = (k, tail'') := ⟨_, _, rfl⟩
      simp only [hpart, hdimensions] at heq
      obtain ⟨arguments, harguments, rfl⟩ := readArgumentPart?_sound hlist hpart
      obtain ⟨brackets, hbrackets, rfl⟩ := readDimensions_eq hdimensions
      cases heq
      exact ⟨_, .type hu harguments hbrackets, by simp⟩
    · intro cs ts rest h
      simp only [readArguments?, Option.bind_eq_bind, Option.bind_eq_some_iff] at h
      obtain ⟨⟨first, tail⟩, hfirst, heq⟩ := h
      obtain ⟨u, hu, rfl⟩ := readArgument?_sound htype hfirst
      dsimp only at heq
      split at heq
      next =>
        cases heq
        exact ⟨_, .last hu, rfl⟩
      next tail _ =>
        obtain ⟨⟨others, tail'⟩, hothers, hresult⟩ := Option.bind_eq_some_iff.1 heq
        obtain ⟨v, hv, rfl⟩ := hlist hothers
        cases hresult
        exact ⟨_, .more hu hv, by simp⟩
      next => cases heq

/-! ## What is in the grammar is accepted -/

/-- How the reader passes a phrase: with enough steps allowed, and with something behind it that
the grammar admits there. -/
def Reads : Phrase → List Char → Prop
  | .text t, cs => read? (String.ofList cs) = some t
  | .type t, cs => ∀ n rest, cs.length < n → Ends rest → readType? n (cs ++ rest) = some (t, rest)
  | .arguments ts, cs => ∀ n rest, cs.length ≤ n → Stops (· == '<') (skipGap rest) →
      (readArgumentPart? (readArguments? n) (cs ++ rest)).getD ([], cs ++ rest) = (ts, rest)
  | .list ts, cs => ∀ n rest, cs.length + 1 < n →
      readArguments? n (cs ++ '>' :: rest) = some (ts, rest)
  | .argument t, cs => ∀ n rest, cs.length < n → AtSeparator rest →
      readArgument? (readType? n) (cs ++ rest) = some (t, rest)

theorem Reads.type {name arguments brackets : List Char} {ts : List TypeExpr} {k : Nat}
    (hname : IsTypeName name) (hderives : Derives (.arguments ts) arguments)
    (harguments : Reads (.arguments ts) arguments) (hbrackets : Brackets k brackets) :
    Reads (.type ⟨String.ofList name, ts, k⟩) (name ++ (arguments ++ brackets)) := by
  intro n rest hn hrest
  have hnamed := List.length_pos_iff.2 hname.ne_nil
  simp only [List.length_append] at hn
  obtain ⟨n, rfl⟩ : ∃ m, n = m + 1 := ⟨n - 1, by omega⟩
  have hpart := harguments n (brackets ++ rest) (by omega)
    (hbrackets.stops hrest (by decide) (by decide) (by decide))
  have hdimensions := readDimensions_append hbrackets hrest (m := (brackets ++ rest).length) <| by
    have := hbrackets.le_length
    rw [List.length_append]
    omega
  rw [List.append_assoc, List.append_assoc, readType?_succ,
    readName?_append hname (hderives.stops_name hbrackets hrest), Option.map_some]
  simp only [hpart, hdimensions]

theorem Reads.noArguments : Reads (.arguments []) [] := by
  intro n rest _ hrest
  have habsent : readArgumentPart? (readArguments? n) rest = none := by
    unfold readArgumentPart?
    split
    · next heq => simp [heq] at hrest
    · next heq => simp [heq] at hrest
    · rfl
  rw [List.nil_append, habsent, Option.getD_none]

theorem Reads.diamond {gap : List Char} (hgap : Gap gap) :
    Reads (.arguments []) (gap ++ ['<', '>']) := by
  intro n rest _ _
  have hopen : skipGap (gap ++ ['<', '>'] ++ rest) = '<' :: '>' :: rest := by
    rw [List.append_assoc]
    exact skipGap_gap hgap (stops_cons.2 (by decide))
  unfold readArgumentPart?
  rw [hopen]
  rfl

theorem Reads.arguments {gap list : List Char} {ts : List TypeExpr} (hgap : Gap gap)
    (hderives : Derives (.list ts) list) (hlist : Reads (.list ts) list) :
    Reads (.arguments ts) (gap ++ '<' :: (list ++ ['>'])) := by
  intro n rest hn _
  simp only [List.length_append, List.length_cons] at hn
  have hopen : skipGap (gap ++ '<' :: (list ++ ['>']) ++ rest) = '<' :: (list ++ '>' :: rest) := by
    rw [List.append_assoc, List.cons_append, skipGap_gap hgap (stops_cons.2 (by decide))]
    simp
  have hread : readArgumentPart? (readArguments? n) (gap ++ '<' :: (list ++ ['>']) ++ rest) =
      readArguments? n (list ++ '>' :: rest) := by
    have hlong := hderives.stops_angle ('>' :: rest)
    unfold readArgumentPart?
    rw [hopen]
    split
    · next heq =>
      rw [(List.cons.inj heq).2] at hlong
      simp at hlong
    · next heq => rw [(List.cons.inj heq).2]
    · next hother => exact absurd rfl (hother _)
  rw [hread, hlist n rest (by omega), Option.getD_some]

theorem Reads.last {t : TypeExpr} {cs : List Char} (h : Reads (.argument t) cs) :
    Reads (.list [t]) cs := by
  intro n rest hn
  obtain ⟨n, rfl⟩ : ∃ m, n = m + 1 := ⟨n - 1, by omega⟩
  have hfirst := h n ('>' :: rest) (by omega) (by simp [AtSeparator])
  rw [readArguments?, hfirst]
  rfl

theorem Reads.more {t : TypeExpr} {ts : List TypeExpr} {cs list : List Char}
    (hargument : Reads (.argument t) cs) (hlist : Reads (.list ts) list) :
    Reads (.list (t :: ts)) (cs ++ ',' :: list) := by
  intro n rest hn
  simp only [List.length_append, List.length_cons] at hn
  obtain ⟨n, rfl⟩ : ∃ m, n = m + 1 := ⟨n - 1, by omega⟩
  have hfirst := hargument n (',' :: (list ++ '>' :: rest)) (by omega) (by simp [AtSeparator])
  have hothers := hlist n rest (by omega)
  rw [List.append_assoc, List.cons_append, readArguments?, hfirst]
  simp [hothers]

theorem Reads.wildcard {before after : List Char} (hbefore : Gap before) (hafter : Gap after) :
    Reads (.argument wildcard) (before ++ '?' :: after) := by
  intro n rest _ hrest
  have hmark : skipGap (before ++ '?' :: after ++ rest) = '?' :: (after ++ rest) := by
    rw [List.append_assoc]
    exact skipGap_gap hbefore (stops_cons.2 (by decide))
  simp only [readArgument?, hmark, readBoundWord?_of_atSeparator hafter hrest, Option.bind_none,
    hrest.skipGap_eq hafter]

theorem Reads.bounded {t : TypeExpr} {before gap gap' cs after : List Char} {word : String}
    (hbefore : Gap before) (hgap : Gap gap) (hword : word = "extends" ∨ word = "super")
    (hgap' : Gap gap') (hends : Stops continuesIdentifier (gap' ++ cs))
    (hderives : Derives (.type t) cs) (htype : Reads (.type t) cs) (hafter : Gap after) :
    Reads (.argument t) (before ++ '?' :: (gap ++ (word.toList ++ (gap' ++ (cs ++ after))))) := by
  intro n rest hn hrest
  simp only [List.length_append, List.length_cons] at hn
  have hmark :
      skipGap (before ++ '?' :: (gap ++ (word.toList ++ (gap' ++ (cs ++ after)))) ++ rest) =
        '?' :: (gap ++ (word.toList ++ (gap' ++ (cs ++ (after ++ rest))))) := by
    rw [List.append_assoc, List.cons_append, skipGap_gap hbefore (stops_cons.2 (by decide))]
    simp
  rw [← hderives.stops_append_iff gap' (after ++ rest)] at hends
  have hbound := htype n (after ++ rest) (by omega) (hrest.ends hafter)
  simp only [readArgument?, hmark, readBoundWord?_append hgap hword hgap' hends
    (hderives.stops_gap _), Option.bind_some, hbound, hrest.skipGap_eq hafter]

theorem Reads.plain {t : TypeExpr} {before cs after : List Char} (hbefore : Gap before)
    (hderives : Derives (.type t) cs) (htype : Reads (.type t) cs) (hafter : Gap after) :
    Reads (.argument t) (before ++ (cs ++ after)) := by
  intro n rest hn hrest
  simp only [List.length_append] at hn
  have hstart : skipGap (before ++ (cs ++ after) ++ rest) = cs ++ (after ++ rest) := by
    rw [List.append_assoc, List.append_assoc, skipGap_gap hbefore (hderives.stops_gap _)]
  have hread := htype n (after ++ rest) (by omega) (hrest.ends hafter)
  obtain ⟨c, tail, rfl, hc⟩ := hderives.type_head
  unfold readArgument?
  rw [hstart]
  split
  · next heq =>
    rw [(List.cons.inj heq).1] at hc
    exact absurd hc (by decide +kernel)
  · simp only [hread, Option.map_some, hrest.skipGap_eq hafter]

theorem Reads.text {t : TypeExpr} {before cs after : List Char} (hbefore : Gap before)
    (hderives : Derives (.type t) cs) (htype : Reads (.type t) cs) (hafter : Gap after) :
    Reads (.text t) (before ++ (cs ++ after)) := by
  have hstart : skipGap (before ++ (cs ++ after)) = cs ++ after :=
    skipGap_gap hbefore (hderives.stops_gap _)
  have hfuel : cs.length ≤ (cs ++ after).length := by simp
  have hread := htype ((cs ++ after).length + 1) after (by omega) hafter.ends
  have hend : skipGap after = [] := by simpa using skipGap_gap hafter stops_nil
  simp only [Reads, read?, String.toList_ofList, hstart, hread, hend]
  rfl

theorem Derives.reads {phrase : Phrase} {cs : List Char} (h : Derives phrase cs) :
    Reads phrase cs := by
  induction h with
  | text hbefore htype hafter ih => exact .text hbefore htype ih hafter
  | type hname harguments hbrackets ih => exact .type hname harguments ih hbrackets
  | noArguments => exact .noArguments
  | diamond hgap => exact .diamond hgap
  | arguments hgap hlist ih => exact .arguments hgap hlist ih
  | last _ ih => exact .last ih
  | more _ _ ih ih' => exact .more ih ih'
  | wildcard hbefore hafter => exact .wildcard hbefore hafter
  | bounded hbefore hgap hword hgap' hends htype hafter ih =>
    exact .bounded hbefore hgap hword hgap' hends htype ih hafter
  | plain hbefore htype hafter ih => exact .plain hbefore htype ih hafter

/-! ## The two together -/

theorem derives_of_read? {text : String} {t : TypeExpr} (h : read? text = some t) :
    Derives (.text t) text.toList := by
  obtain ⟨before, hbefore, hcs⟩ := exists_gap text.toList
  simp only [read?] at h
  split at h
  next t' rest hread =>
    split at h
    next hempty =>
      cases h
      obtain ⟨u, hu, hsplit⟩ := (read_sound _).1 hread
      obtain ⟨after, hafter, hrest⟩ := exists_gap rest
      rw [List.isEmpty_iff.1 hempty, List.append_nil] at hrest
      rw [hcs, hsplit, hrest]
      exact .text hbefore hu hafter
    next => cases h
  next => cases h

theorem read?_of_derives {text : String} {t : TypeExpr} (h : Derives (.text t) text.toList) :
    read? text = some t := by
  simpa [Reads] using h.reads

/-- **Reading accepts just the texts of the grammar**, with the type that the grammar gives them,
and the grammar gives a text at most one type. -/
theorem read_iff_derives (text : String) :
    (∀ t, read? text = some t ↔ Derives (.text t) text.toList) ∧
      ∀ t t', Derives (.text t) text.toList → Derives (.text t') text.toList → t = t' := by
  refine ⟨fun t => ⟨derives_of_read?, read?_of_derives⟩, ?_⟩
  intro t t' h h'
  exact Option.some.inj ((read?_of_derives h).symm.trans (read?_of_derives h'))

end ClassDiagram.TypeExpr
