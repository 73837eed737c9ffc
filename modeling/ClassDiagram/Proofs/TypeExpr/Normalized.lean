import ClassDiagram.Proofs.Source.Parameters
import ClassDiagram.Proofs.Text.Blank
import ClassDiagram.Proofs.TypeExpr.Grammar

/-!
# Type texts without blanks

Only one gap of the grammar keeps two words apart: the one between the word of a bound and the name
behind it. Where a text that can be read holds no such pair (`boundFuses`), it is still a text of
the same type when its blanks are gone (`Derives.withoutBlanks`). Where it does, the two words
become one, which the grammar admits nowhere behind a wildcard (`Derives.marked`), and the text
cannot be read any more.
-/

namespace ClassDiagram.TypeExpr

open Text Source

/-! ## Blanks -/

theorem gap_nil : Gap [] := by simp [Gap]

theorem isBlank_of_isGap {c : Char} (h : isGap c = true) : isBlank c = true := by
  simp only [isGap, Bool.or_eq_true, beq_iff_eq] at h
  rcases h with ((rfl | rfl) | rfl) | rfl <;> decide

theorem withoutBlanks_append (cs ds : List Char) :
    withoutBlanks (cs ++ ds) = withoutBlanks cs ++ withoutBlanks ds := by
  induction cs with
  | nil => rfl
  | cons c cs ih =>
    rw [List.cons_append, withoutBlanks, withoutBlanks]
    split
    · exact ih
    · split
      · simp [ih]
      · simp [ih]

theorem withoutBlanks_cons {c : Char} (hblank : isBlank c = false) (hcomma : c ≠ ',')
    (cs : List Char) : withoutBlanks (c :: cs) = c :: withoutBlanks cs := by
  simp [withoutBlanks, hblank, hcomma]

theorem withoutBlanks_eq_nil {gap : List Char} (h : ∀ c ∈ gap, isBlank c = true) :
    withoutBlanks gap = [] := by
  induction gap with
  | nil => rfl
  | cons c gap ih =>
    rw [withoutBlanks, if_pos (h c List.mem_cons_self)]
    exact ih fun d hd => h d (List.mem_cons_of_mem c hd)

theorem Gap.withoutBlanks {gap : List Char} (h : Gap gap) : withoutBlanks gap = [] :=
  withoutBlanks_eq_nil fun c hc => isBlank_of_isGap (h c hc)

theorem IsTypeName.withoutBlanks {name : List Char} (h : IsTypeName name) :
    withoutBlanks name = name := by
  refine withoutBlanks_eq_self fun c hc => ⟨isBlank_of_isTypeNameChar (h.chars c hc), ?_⟩
  rintro rfl
  exact absurd (h.chars ',' hc) (by decide +kernel)

theorem Brackets.withoutBlanks {n : Nat} {brackets : List Char} (h : Brackets n brackets) :
    Brackets n (withoutBlanks brackets) := by
  induction h with
  | none => exact .none
  | more hgap _ ih =>
    rw [withoutBlanks_append, hgap.withoutBlanks, withoutBlanks_cons (by decide) (by decide),
      withoutBlanks_cons (by decide) (by decide)]
    exact .more gap_nil ih

/-! ## Bounds that run together -/

/-- Behind a wildcard comes the word of a bound and then, behind a gap or none, a character that
would go on with this word. -/
def fusesAt (cs : List Char) : Bool :=
  ["extends", "super"].any fun word =>
    word.toList.isPrefixOf (skipGap cs) &&
      (skipGap ((skipGap cs).drop word.toList.length)).head?.any continuesIdentifier

/-- Whether without blanks the word of a bound would run together with the name behind it. -/
def boundFuses : List Char → Bool
  | [] => false
  | c :: cs => (c == '?' && fusesAt cs) || boundFuses cs

theorem fusesAt_iff {cs : List Char} :
    fusesAt cs = true ↔ ∃ gap word gap' c rest, Gap gap ∧ (word = "extends" ∨ word = "super") ∧
      Gap gap' ∧ continuesIdentifier c = true ∧
        cs = gap ++ (word.toList ++ (gap' ++ c :: rest)) := by
  simp only [fusesAt, List.any_eq_true, Bool.and_eq_true, List.isPrefixOf_iff_prefix]
  constructor
  · rintro ⟨word, hword, ⟨tail, htail⟩, hc⟩
    rw [← htail, List.drop_left] at hc
    obtain ⟨gap, hgap, hcs⟩ := exists_gap cs
    obtain ⟨gap', hgap', hrest⟩ := exists_gap tail
    cases hnext : skipGap tail with
    | nil => simp [hnext] at hc
    | cons c rest =>
      refine ⟨gap, word, gap', c, rest, hgap, by simpa using hword, hgap', ?_, ?_⟩
      · simpa [hnext] using hc
      · rw [← hnext, ← hrest, htail, ← hcs]
  · rintro ⟨gap, word, gap', c, rest, hgap, hword, hgap', hc, rfl⟩
    have hstart : Stops isGap (word.toList ++ (gap' ++ c :: rest)) := by
      rcases hword with rfl | rfl <;> exact stops_cons.2 (by decide)
    have hblank := isBlank_of_continuesIdentifier hc
    have hnext : Stops isGap (c :: rest) := by
      refine stops_cons.2 (Bool.eq_false_iff.2 fun hgap => ?_)
      simp [isBlank_of_isGap hgap] at hblank
    refine ⟨word, by simpa using hword, ?_, ?_⟩
    · rw [skipGap_gap hgap hstart]
      exact List.prefix_append _ _
    · rw [skipGap_gap hgap hstart, List.drop_left, skipGap_gap hgap' hnext]
      exact hc

theorem boundFuses_iff {cs : List Char} :
    boundFuses cs = true ↔ ∃ front rest, cs = front ++ '?' :: rest ∧ fusesAt rest = true := by
  induction cs with
  | nil => simp [boundFuses]
  | cons c cs ih =>
    rw [boundFuses, Bool.or_eq_true, Bool.and_eq_true, beq_iff_eq, ih]
    constructor
    · rintro (⟨rfl, h⟩ | ⟨front, rest, rfl, h⟩)
      · exact ⟨[], cs, rfl, h⟩
      · exact ⟨c :: front, rest, rfl, h⟩
    · rintro ⟨front, rest, heq, h⟩
      cases front with
      | nil =>
        cases heq
        exact .inl ⟨rfl, h⟩
      | cons d front =>
        cases heq
        exact .inr ⟨front, rest, rfl, h⟩

theorem fusesAt_append {cs : List Char} (h : fusesAt cs = true) (ds : List Char) :
    fusesAt (cs ++ ds) = true := by
  obtain ⟨gap, word, gap', c, rest, hgap, hword, hgap', hc, rfl⟩ := fusesAt_iff.1 h
  exact fusesAt_iff.2 ⟨gap, word, gap', c, rest ++ ds, hgap, hword, hgap', hc, by simp⟩

/-- What runs together in a part runs together in the whole. -/
theorem boundFuses_of_append {u cs v : List Char} (h : boundFuses (u ++ (cs ++ v)) = false) :
    boundFuses cs = false := by
  rw [Bool.eq_false_iff] at h ⊢
  intro hcs
  obtain ⟨front, rest, rfl, hrest⟩ := boundFuses_iff.1 hcs
  exact h (boundFuses_iff.2 ⟨u ++ front, rest ++ v, by simp, fusesAt_append hrest v⟩)

/-! ## Texts without blanks -/

theorem Derives.argument_gap {t : TypeExpr} {cs : List Char} (h : Derives (.argument t) cs)
    {gap : List Char} (hgap : Gap gap) : Derives (.argument t) (gap ++ cs) := by
  have hgaps : ∀ {before : List Char}, Gap before → Gap (gap ++ before) :=
    fun hbefore => List.forall_mem_append.2 ⟨hgap, hbefore⟩
  cases h with
  | wildcard hbefore hafter =>
    rw [← List.append_assoc]
    exact .wildcard (hgaps hbefore) hafter
  | bounded hbefore hgap hword hgap' hends htype hafter =>
    rw [← List.append_assoc]
    exact .bounded (hgaps hbefore) hgap hword hgap' hends htype hafter
  | plain hbefore htype hafter =>
    rw [← List.append_assoc]
    exact .plain (hgaps hbefore) htype hafter

theorem Derives.list_gap {ts : List TypeExpr} {cs : List Char} (h : Derives (.list ts) cs)
    {gap : List Char} (hgap : Gap gap) : Derives (.list ts) (gap ++ cs) := by
  cases h with
  | last hargument => exact .last (hargument.argument_gap hgap)
  | more hargument hlist =>
    rw [← List.append_assoc]
    exact .more (hargument.argument_gap hgap) hlist

/-- The name behind the word of a bound does not go on with the word if they do not run together. -/
theorem stops_of_boundFuses {before gap gap' cs after : List Char} {word : String} (hgap : Gap gap)
    (hword : word = "extends" ∨ word = "super") (hgap' : Gap gap')
    (h : boundFuses (before ++ '?' :: (gap ++ (word.toList ++ (gap' ++ (cs ++ after))))) = false) :
    Stops continuesIdentifier cs := by
  cases cs with
  | nil => exact stops_nil
  | cons c cs =>
    refine stops_cons.2 (Bool.eq_false_iff.2 fun hc => ?_)
    rw [Bool.eq_false_iff] at h
    refine h (boundFuses_iff.2 ⟨before, _, rfl, fusesAt_iff.2 ?_⟩)
    exact ⟨gap, word, gap', c, cs ++ after, hgap, hword, hgap', hc, by simp⟩

/-- Blanks can be taken out of a phrase in which no bound runs together. -/
theorem Derives.withoutBlanks {phrase : Phrase} {cs : List Char} (h : Derives phrase cs)
    (hfuse : boundFuses cs = false) : Derives phrase (withoutBlanks cs) := by
  induction h with
  | text hbefore htype hafter ih =>
    rw [withoutBlanks_append, withoutBlanks_append, hbefore.withoutBlanks, hafter.withoutBlanks]
    exact .text gap_nil (ih (boundFuses_of_append hfuse)) gap_nil
  | type hname harguments hbrackets ih =>
    rw [withoutBlanks_append, withoutBlanks_append, hname.withoutBlanks]
    exact .type hname (ih (boundFuses_of_append hfuse)) hbrackets.withoutBlanks
  | noArguments => exact .noArguments
  | diamond hgap =>
    rw [withoutBlanks_append, hgap.withoutBlanks]
    exact .diamond gap_nil
  | @arguments gap list ts hgap hlist ih =>
    have hlist := ih (boundFuses_of_append (u := gap ++ ['<']) (v := ['>']) (by simpa using hfuse))
    rw [withoutBlanks_append, hgap.withoutBlanks, withoutBlanks_cons (by decide) (by decide),
      withoutBlanks_append]
    exact .arguments gap_nil hlist
  | last _ ih => exact .last (ih hfuse)
  | @more t ts cs list hargument hlist ih ih' =>
    have hfirst := ih (boundFuses_of_append (u := []) hfuse)
    have hothers := ih' (boundFuses_of_append (u := cs ++ [',']) (v := []) (by simpa using hfuse))
    have hspace : Gap [' '] := by simp [Gap, isGap]
    rw [withoutBlanks_append]
    exact .more hfirst (hothers.list_gap hspace)
  | wildcard hbefore hafter =>
    rw [withoutBlanks_append, hbefore.withoutBlanks, withoutBlanks_cons (by decide) (by decide),
      hafter.withoutBlanks]
    exact .wildcard gap_nil gap_nil
  | @bounded t before gap gap' cs after word hbefore hgap hword hgap' hends htype hafter ih =>
    have hstops := stops_of_boundFuses hgap hword hgap' hfuse
    have hbound := ih (boundFuses_of_append
      (u := before ++ '?' :: (gap ++ (word.toList ++ gap'))) (v := after) (by simpa using hfuse))
    have hkept : Source.withoutBlanks word.toList = word.toList := by
      rcases hword with rfl | rfl <;> decide
    rw [withoutBlanks_append, hbefore.withoutBlanks, withoutBlanks_cons (by decide) (by decide),
      withoutBlanks_append, hgap.withoutBlanks, withoutBlanks_append, hkept, withoutBlanks_append,
      hgap'.withoutBlanks, withoutBlanks_append, hafter.withoutBlanks]
    refine .bounded gap_nil gap_nil hword gap_nil ?_ hbound gap_nil
    obtain ⟨c, tail, rfl, hc⟩ := htype.type_head
    have hcomma : c ≠ ',' := by
      rintro rfl
      exact absurd hc (by decide +kernel)
    rw [withoutBlanks_cons (isBlank_of_isTypeNameChar hc) hcomma]
    exact stops_cons.2 (stops_cons.1 hstops)
  | plain hbefore htype hafter ih =>
    rw [withoutBlanks_append, withoutBlanks_append, hbefore.withoutBlanks, hafter.withoutBlanks]
    exact .plain gap_nil (ih (boundFuses_of_append hfuse)) gap_nil

/-! ## What comes behind a wildcard -/

/-- What the grammar admits behind a wildcard: the word of a bound, or what ends an argument. -/
def FollowsMark (cs : List Char) : Prop := Ends cs ∨ (readBoundWord? cs).isSome = true

theorem mark_append {cs ds u v : List Char} (h : cs ++ ds = u ++ '?' :: v) :
    (∃ v', cs = u ++ '?' :: v' ∧ v = v' ++ ds) ∨ ∃ u', ds = u' ++ '?' :: v := by
  rcases List.append_eq_append_iff.1 h with ⟨u', rfl, hds⟩ | ⟨v', rfl, hv⟩
  · exact .inr ⟨u', hds⟩
  · cases v' with
    | nil => exact .inr ⟨[], by simpa using hv.symm⟩
    | cons c v' =>
      cases hv
      exact .inl ⟨v', rfl, rfl⟩

/-- A part without a wildcard does not hold the one that is looked for. -/
theorem mark_of_not_mem {cs ds u v : List Char} (hcs : '?' ∉ cs)
    (h : cs ++ ds = u ++ '?' :: v) : ∃ u', ds = u' ++ '?' :: v := by
  rcases mark_append h with ⟨v', rfl, -⟩ | hds
  · simp at hcs
  · exact hds

theorem Gap.not_mem {gap : List Char} (h : Gap gap) : '?' ∉ gap :=
  fun hmem => absurd (h '?' hmem) (by decide)

theorem IsTypeName.not_mem {name : List Char} (h : IsTypeName name) : '?' ∉ name :=
  fun hmem => absurd (h.chars '?' hmem) (by decide +kernel)

theorem Brackets.not_mem {n : Nat} {brackets : List Char} (h : Brackets n brackets) :
    '?' ∉ brackets := by
  induction h with
  | none => simp
  | more hgap _ ih => simp [hgap.not_mem, ih]

/-- Behind the wildcards of a phrase come their bounds or the ends of their arguments. An argument
part is closed by its own bracket; any other phrase is followed by what may follow a type. -/
def Marked : Phrase → List Char → Prop
  | .arguments _, cs => ∀ u v rest, cs = u ++ '?' :: v → FollowsMark (v ++ rest)
  | _, cs => ∀ u v rest, cs = u ++ '?' :: v → Ends rest → FollowsMark (v ++ rest)

theorem Ends.gap {gap rest : List Char} (hgap : Gap gap) (h : Ends rest) : Ends (gap ++ rest) := by
  rw [Ends, skipGap_append hgap]
  exact h

/-- A type with gaps around it is marked as the type is. -/
theorem Marked.padded {t : TypeExpr} {before cs after : List Char} (hbefore : Gap before)
    (h : Marked (.type t) cs) (hafter : Gap after) {u v rest : List Char}
    (heq : before ++ (cs ++ after) = u ++ '?' :: v) (hrest : Ends rest) :
    FollowsMark (v ++ rest) := by
  obtain ⟨u, heq⟩ := mark_of_not_mem hbefore.not_mem heq
  rcases mark_append heq with ⟨v, hcs, rfl⟩ | ⟨u', hnone⟩
  · rw [List.append_assoc]
    exact h u v _ hcs (hrest.gap hafter)
  · exact absurd (by simp [hnone]) hafter.not_mem

theorem Derives.marked {phrase : Phrase} {cs : List Char} (h : Derives phrase cs) :
    Marked phrase cs := by
  induction h with
  | text hbefore _ hafter ih => exact fun u v rest heq hrest => ih.padded hbefore hafter heq hrest
  | type hname _ hbrackets ih =>
    intro u v rest heq _
    obtain ⟨u, heq⟩ := mark_of_not_mem hname.not_mem heq
    rcases mark_append heq with ⟨v, harguments, rfl⟩ | ⟨u', hnone⟩
    · rw [List.append_assoc]
      exact ih u v _ harguments
    · exact absurd (by simp [hnone]) hbrackets.not_mem
  | noArguments => exact fun u v rest heq => by simp at heq
  | diamond hgap =>
    intro u v rest heq
    have hmem : '?' ∈ _ := heq ▸ List.mem_append_right u List.mem_cons_self
    simp [hgap.not_mem] at hmem
  | @arguments gap list ts hgap _ ih =>
    intro u v rest heq
    have hopen : '?' ∉ gap ++ ['<'] := by simp [hgap.not_mem]
    obtain ⟨u, heq⟩ := mark_of_not_mem hopen (by simpa using heq)
    rcases mark_append heq with ⟨v, hlist, rfl⟩ | ⟨u', hclose⟩
    · rw [List.append_assoc]
      exact ih u v _ hlist (by simp [Ends, AtSeparator, skipGap, isGap])
    · have hmem : '?' ∈ ['>'] := hclose ▸ List.mem_append_right u' List.mem_cons_self
      simp at hmem
  | last _ ih => exact ih
  | @more t ts cs list _ _ ih ih' =>
    intro u v rest heq hrest
    rcases mark_append heq with ⟨v, hfirst, rfl⟩ | ⟨u', hothers⟩
    · rw [List.append_assoc]
      exact ih u v _ hfirst (by simp [Ends, AtSeparator, skipGap, isGap])
    · cases u' with
      | nil => cases hothers
      | cons c u' =>
        cases hothers
        exact ih' u' v rest rfl hrest
  | @wildcard before after hbefore hafter =>
    intro u v rest heq hrest
    obtain ⟨u, heq⟩ := mark_of_not_mem hbefore.not_mem heq
    cases u with
    | nil =>
      cases heq
      exact .inl (hrest.gap hafter)
    | cons c u =>
      have hmem : '?' ∈ after := (List.cons.inj heq).2 ▸ List.mem_append_right u List.mem_cons_self
      exact absurd hmem hafter.not_mem
  | @bounded t before gap gap' cs after word hbefore hgap hword hgap' hends htype hafter ih =>
    intro u v rest heq hrest
    obtain ⟨u, heq⟩ := mark_of_not_mem hbefore.not_mem heq
    cases u with
    | nil =>
      cases heq
      rw [← htype.stops_append_iff gap' (after ++ rest)] at hends
      have hbound := readBoundWord?_append hgap hword hgap' hends (htype.stops_gap _)
      exact .inr (Option.isSome_iff_exists.2 ⟨cs ++ (after ++ rest), by simpa using hbound⟩)
    | cons c u =>
      have hword : '?' ∉ gap ++ (word.toList ++ gap') := by
        rcases hword with rfl | rfl <;> simp [hgap.not_mem, hgap'.not_mem]
      have heq : gap ++ (word.toList ++ gap') ++ (cs ++ after) = u ++ '?' :: v := by
        simpa using (List.cons.inj heq).2
      obtain ⟨u, heq⟩ := mark_of_not_mem hword heq
      exact ih.padded gap_nil hafter heq hrest
  | plain hbefore _ hafter ih => exact fun u v rest heq hrest => ih.padded hbefore hafter heq hrest

theorem readWord?_of_continued (word : String) {c : Char} (hc : continuesIdentifier c = true)
    (rest : List Char) : readWord? word (word.toList ++ c :: rest) = none := by
  simp [readWord?, List.isPrefixOf_iff_prefix.2 (List.prefix_append _ _), hc]

/-- A word of a bound that goes on is no word of a bound any more. -/
theorem readBoundWord?_of_continued {word : String} (hword : word = "extends" ∨ word = "super")
    {c : Char} (hc : continuesIdentifier c = true) (rest : List Char) :
    readBoundWord? (word.toList ++ c :: rest) = none := by
  have hread := readWord?_of_continued word hc rest
  rcases hword with rfl | rfl
  · have hstop : Stops isGap ("extends".toList ++ c :: rest) := stops_cons.2 (by decide)
    have hother : Stops (· == 's') ("extends".toList ++ c :: rest) := stops_cons.2 (by decide)
    have hgap := readBoundWord?_gap gap_nil hstop
    rw [hread, readWord?_of_stops (c := 's') rfl hother] at hgap
    exact hgap
  · have hstop : Stops isGap ("super".toList ++ c :: rest) := stops_cons.2 (by decide)
    have hother : Stops (· == 'e') ("super".toList ++ c :: rest) := stops_cons.2 (by decide)
    have hgap := readBoundWord?_gap gap_nil hstop
    rw [hread, readWord?_of_stops (c := 'e') rfl hother] at hgap
    exact hgap

theorem not_followsMark {word : String} (hword : word = "extends" ∨ word = "super") {c : Char}
    (hc : continuesIdentifier c = true) (rest : List Char) :
    ¬ FollowsMark (word.toList ++ c :: rest) := by
  rintro (hends | hbound)
  · rcases hword with rfl | rfl <;> simp [Ends, AtSeparator, skipGap, isGap] at hends
  · rw [readBoundWord?_of_continued hword hc] at hbound
    cases hbound

/-- A text in which a bound runs together is not in the grammar when its blanks are gone. -/
theorem not_derives_withoutBlanks {cs : List Char} (h : boundFuses cs = true) (t : TypeExpr) :
    ¬ Derives (.text t) (withoutBlanks cs) := by
  obtain ⟨front, rest, rfl, hrest⟩ := boundFuses_iff.1 h
  obtain ⟨gap, word, gap', c, tail, hgap, hword, hgap', hc, rfl⟩ := fusesAt_iff.1 hrest
  have hcomma : c ≠ ',' := by
    rintro rfl
    exact absurd hc (by decide +kernel)
  have hkept : withoutBlanks word.toList = word.toList := by
    rcases hword with rfl | rfl <;> decide
  rw [withoutBlanks_append, withoutBlanks_cons (by decide) (by decide), withoutBlanks_append,
    hgap.withoutBlanks, List.nil_append, withoutBlanks_append, hkept, withoutBlanks_append,
    hgap'.withoutBlanks, List.nil_append,
    withoutBlanks_cons (isBlank_of_continuesIdentifier hc) hcomma]
  intro hderives
  have hfollows := hderives.marked _ _ [] rfl (Gap.ends gap_nil)
  rw [List.append_nil] at hfollows
  exact not_followsMark hword hc _ hfollows

/-! ## Trailing dots -/

/-- Three dots, which behind a type stand for a variable number of arguments. -/
def dots : List Char := ['.', '.', '.']

theorem eq_dot_of_suffix {u : List Char} {c : Char} (h : dots <:+ u ++ [c]) : c = '.' := by
  obtain ⟨front, hfront⟩ := h
  have hlast := congrArg List.getLast? hfront
  simp only [dots, List.getLast?_append, List.getLast?_singleton] at hlast
  exact (Option.some.inj hlast).symm

theorem Brackets.eq_nil_or_last {n : Nat} {brackets : List Char} (h : Brackets n brackets) :
    (brackets = [] ∧ n = 0) ∨ ∃ front, brackets = front ++ [']'] := by
  induction h with
  | none => exact .inl ⟨rfl, rfl⟩
  | @more n gap rest _ _ ih =>
    rcases ih with ⟨rfl, -⟩ | ⟨front, rfl⟩
    · exact .inr ⟨gap ++ ['['], by simp⟩
    · exact .inr ⟨gap ++ '[' :: ']' :: front, by simp⟩

theorem Derives.arguments_eq_nil_or_last {ts : List TypeExpr} {cs : List Char}
    (h : Derives (.arguments ts) cs) : (cs = [] ∧ ts = []) ∨ ∃ front, cs = front ++ ['>'] := by
  cases h with
  | noArguments => exact .inl ⟨rfl, rfl⟩
  | @diamond gap _ => exact .inr ⟨gap ++ ['<'], by simp⟩
  | @arguments gap list _ _ _ => exact .inr ⟨gap ++ '<' :: list, by simp⟩

/-- Behind dots there is neither an argument part nor a bracket: they are the end of a name. -/
theorem Derives.eq_of_dots {t : TypeExpr} {cs : List Char} (h : Derives (.text t) cs)
    (hdots : dots <:+ Source.withoutBlanks cs) :
    ∃ before base after, Gap before ∧ IsTypeName (base ++ dots) ∧ Gap after ∧
      cs = before ++ ((base ++ dots) ++ after) ∧ t = ⟨String.ofList (base ++ dots), [], 0⟩ := by
  cases h with
  | @text t before cs after hbefore htype hafter =>
    cases htype with
    | @type name arguments brackets ts n hname harguments hbrackets =>
      rw [withoutBlanks_append, hbefore.withoutBlanks, withoutBlanks_append, hafter.withoutBlanks,
        withoutBlanks_append, withoutBlanks_append, hname.withoutBlanks] at hdots
      rcases hbrackets.eq_nil_or_last with ⟨rfl, rfl⟩ | ⟨front, rfl⟩
      · rcases harguments.arguments_eq_nil_or_last with ⟨rfl, rfl⟩ | ⟨front, rfl⟩
        · obtain ⟨base, rfl⟩ : dots <:+ name := by simpa [Source.withoutBlanks] using hdots
          exact ⟨before, base, after, hbefore, hname, hafter, by simp, rfl⟩
        · have hangle : Source.withoutBlanks ['>'] = ['>'] := by decide
          rw [withoutBlanks_append, hangle] at hdots
          have hdot := eq_dot_of_suffix (u := name ++ Source.withoutBlanks front) (c := '>')
            (by simpa [Source.withoutBlanks] using hdots)
          exact absurd hdot (by decide)
      · have hbracket : Source.withoutBlanks [']'] = [']'] := by decide
        rw [withoutBlanks_append front, hbracket] at hdots
        have hdot := eq_dot_of_suffix (c := ']')
          (u := name ++ (Source.withoutBlanks arguments ++ Source.withoutBlanks front))
          (by simpa using hdots)
        exact absurd hdot (by decide)

theorem dropTrailing?_dots (base : List Char) : dropTrailing? dots (base ++ dots) = some base := by
  have hsuffix : dots.isSuffixOf (base ++ dots) = true :=
    List.isSuffixOf_iff_suffix.2 (List.suffix_append base dots)
  simp [dropTrailing?, hsuffix]

/-- Dots at the end stay there when blanks are taken out. -/
theorem suffix_withoutBlanks {cs : List Char} (h : dots <:+ trimEnd cs) :
    dots <:+ withoutBlanks cs := by
  obtain ⟨gap, hgap, hcs⟩ := exists_trimEnd_append cs
  obtain ⟨front, hfront⟩ := h
  refine ⟨withoutBlanks front, ?_⟩
  rw [hcs, ← hfront, withoutBlanks_append, withoutBlanks_append, withoutBlanks_eq_nil hgap,
    List.append_nil]
  rfl

/-- Trailing dots make an array of a type, which is another type or none. -/
theorem read?_normalizeType_of_dots {cs : List Char} {t : TypeExpr} (h : Derives (.text t) cs)
    (hdots : dots <:+ withoutBlanks cs) :
    dots <:+ trimEnd cs ∧ '?' ∉ cs ∧ read? (String.ofList (normalizeType cs)) ≠ some t := by
  obtain ⟨before, base, after, hbefore, hname, hafter, rfl, rfl⟩ := h.eq_of_dots hdots
  have hwithout : withoutBlanks (before ++ ((base ++ dots) ++ after)) = base ++ dots := by
    rw [withoutBlanks_append, withoutBlanks_append, hbefore.withoutBlanks, hafter.withoutBlanks,
      hname.withoutBlanks]
    simp
  have hnormal : normalizeType (before ++ ((base ++ dots) ++ after)) = base ++ ['[', ']'] := by
    have hcut : dropTrailing? ['.', '.', '.'] (base ++ dots) = some base := dropTrailing?_dots base
    simp only [normalizeType, hwithout, hcut]
  refine ⟨?_, ?_, ?_⟩
  · have hdot : before ++ (base ++ dots) = (before ++ (base ++ ['.', '.'])) ++ ['.'] := by
      simp [dots]
    rw [← List.append_assoc, trimEnd_append _ fun c hc => isBlank_of_isGap (hafter c hc), hdot,
      trimEnd_concat _ (by decide), ← hdot, ← List.append_assoc]
    exact List.suffix_append _ _
  · simpa [hbefore.not_mem, hafter.not_mem] using hname.not_mem
  · rw [hnormal]
    intro hread
    cases base with
    | nil =>
      have hfails : (read? "[]").isNone = true := by decide +kernel
      have hempty : read? "[]" = some _ := hread
      rw [hempty] at hfails
      cases hfails
    | cons c base =>
      have hbase : IsTypeName (c :: base) :=
        ⟨List.cons_ne_nil _ _, fun d hd => hname.chars d (List.mem_append_left _ hd)⟩
      have hone : Brackets 1 ['[', ']'] := .more gap_nil .none
      have harray := Derives.text gap_nil (.type hbase .noArguments hone) gap_nil
      have hother := (Derives.reads harray : read? (String.ofList _) = some _)
      simp only [List.nil_append, List.append_nil] at hother
      rw [hother] at hread
      exact absurd (congrArg (Option.map dimensions) hread) (by simp)

/-- **Type texts keep their type unless a bound runs together.** Let a text be read as a type. Its
written form is read as this type exactly if no word of a bound runs together with the name behind
it and the text does not end in dots, blanks aside. Where a bound runs together, the written form
cannot be read. -/
theorem read_normalizeType {text : String} {t : TypeExpr} (h : read? text = some t) :
    (read? (String.ofList (normalizeType text.toList)) = some t ↔
      boundFuses text.toList = false ∧ ¬ dots <:+ trimEnd text.toList) ∧
    (boundFuses text.toList = true →
      read? (String.ofList (normalizeType text.toList)) = none) := by
  have hderives := derives_of_read? h
  generalize text.toList = cs at hderives
  by_cases hdots : dots <:+ withoutBlanks cs
  · obtain ⟨htrim, hmark, hread⟩ := read?_normalizeType_of_dots hderives hdots
    refine ⟨iff_of_false hread fun hnot => hnot.2 htrim, fun hfuse => ?_⟩
    obtain ⟨front, rest, rfl, -⟩ := boundFuses_iff.1 hfuse
    simp at hmark
  · have hnormal : normalizeType cs = withoutBlanks cs := by
      have hcut : dropTrailing? ['.', '.', '.'] (withoutBlanks cs) = none := by
        rw [dropTrailing?, if_neg]
        exact fun hsuffix => hdots (List.isSuffixOf_iff_suffix.1 hsuffix)
      simp only [normalizeType, hcut]
    have hend : ¬ dots <:+ trimEnd cs := fun htrim => hdots (suffix_withoutBlanks htrim)
    rw [hnormal]
    cases hfuse : boundFuses cs with
    | false =>
      exact ⟨iff_of_true (hderives.withoutBlanks hfuse).reads ⟨rfl, hend⟩, by simp⟩
    | true =>
      have hnone : read? (String.ofList (withoutBlanks cs)) = none := by
        cases hread : read? (String.ofList (withoutBlanks cs)) with
        | none => rfl
        | some u =>
          have hother := derives_of_read? hread
          rw [String.toList_ofList] at hother
          exact absurd hother (not_derives_withoutBlanks hfuse u)
      rw [hnone]
      exact ⟨iff_of_false (by simp) (by simp), fun _ => rfl⟩

/-- Gaps go, but a name that starts with a sign does not go on with the word in front of it. -/
theorem read_normalizeType_sign :
    ∃ t : TypeExpr, read? "Map< ? super $Key ,List<a.B> [] >" = some t ∧
      t.render = "Map<$Key, List<a.B>[]>" ∧ read? "Map<?super$Key, List<a.B>[]>" = some t := by
  have hwritten : (read? "Map< ? super $Key ,List<a.B> [] >").map render =
      some "Map<$Key, List<a.B>[]>" := by decide +kernel
  obtain ⟨t, hread, hrender⟩ := Option.map_eq_some_iff.1 hwritten
  have hnormal : String.ofList (normalizeType "Map< ? super $Key ,List<a.B> [] >".toList) =
      "Map<?super$Key, List<a.B>[]>" := by decide +kernel
  have hkept := (read_normalizeType hread).1.2 ⟨by decide +kernel, by decide⟩
  exact ⟨t, hread, hrender, hnormal ▸ hkept⟩

/-- The bound of a wildcard is lost, and with it the whole type. -/
theorem not_read_normalizeType_bound :
    ∃ t : TypeExpr, read? "List<? extends Shape>" = some t ∧ t.render = "List<Shape>" ∧
      ¬ dots <:+ "List<? extends Shape>".toList ∧
      String.ofList (normalizeType "List<? extends Shape>".toList) = "List<?extendsShape>" ∧
      read? "List<?extendsShape>" = none := by
  have hwritten : (read? "List<? extends Shape>").map render = some "List<Shape>" := by
    decide +kernel
  obtain ⟨t, hread, hrender⟩ := Option.map_eq_some_iff.1 hwritten
  have hnone : (read? "List<?extendsShape>").isNone = true := by decide +kernel
  exact ⟨t, hread, hrender, by decide, by decide +kernel, Option.isNone_iff_eq_none.1 hnone⟩

end ClassDiagram.TypeExpr
