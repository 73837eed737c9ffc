import ClassDiagram.Proofs.Source.Progress
import ClassDiagram.Proofs.Text.Groups
import ClassDiagram.Source.Supertypes

/-!
# Supertypes and angle brackets

Which supertypes a declaration has does not depend on what stands in angle brackets, as far as the
first `extends` and the first `implements` of its header stand outside of them. The list of type
parameters is cut off before the header is searched, so that bounds in it do no harm. Type arguments
are searched like the rest of the header: where no `extends` comes first, the bound of a wildcard in
them is taken for the parent.

Each reader on the way is shown to give related results on two texts that agree outside angle
brackets: keywords (`afterWord?_cases`), declarations (`Declaration.at?_sameOutside`), the header
(`Declaration.header_sameOutside`) and the two clauses.
-/

namespace ClassDiagram.Source

open Text Cursor

/-! ## Words in front of blanks -/

/-- Reads a word and the blanks behind it, at least one: the blanks, and where they end. -/
def afterWord? (word : String) (k : Cursor) : Option (List Char × Cursor) :=
  (k.token? word).bind fun k => (k.skipSome? isBlank).map fun after => (k.upTo after, after)

theorem afterWord?_cases (word : String) (hword : '<' ∉ word.toList) {v v' : List Char}
    (h : SameOutside v v') (u u' : List Char) :
    (afterWord? word (between u v) = none ∧ afterWord? word (between u' v') = none) ∨
      ∃ blanks w w', v = word.toList ++ blanks ++ w ∧ v' = word.toList ++ blanks ++ w' ∧
        afterWord? word (between u v) = some (blanks, between (u ++ word.toList ++ blanks) w) ∧
        afterWord? word (between u' v') = some (blanks, between (u' ++ word.toList ++ blanks) w') ∧
        SameOutside w w' := by
  by_cases hv : word.toList <+: v
  · obtain ⟨w, rfl⟩ := hv
    obtain ⟨w', rfl, hw⟩ := h.exists_of_append hword
    obtain ⟨blanks, w, w', rfl, rfl, hblanks, hstops, hstops', hsame⟩ :=
      hw.span (p := isBlank) (by decide)
    by_cases hnil : blanks = []
    · left
      simp only [afterWord?, hnil, List.nil_append, token?_between, Option.bind_some,
        skipSome?_of_stops _ hstops, skipSome?_of_stops _ hstops', Option.map_none, and_self]
    · right
      refine ⟨blanks, w, w', by simp, by simp, ?_, ?_, hsame⟩
      · simp only [afterWord?, token?_between, Option.bind_some,
          skipSome?_between _ hnil hblanks hstops, Option.map_some, upTo_between]
      · simp only [afterWord?, token?_between, Option.bind_some,
          skipSome?_between _ hnil hblanks hstops', Option.map_some, upTo_between]
  · left
    have hv' : ¬ word.toList <+: v' := by
      rintro ⟨w', rfl⟩
      obtain ⟨w, rfl, -⟩ := h.symm.exists_of_append hword
      exact hv (List.prefix_append _ _)
    have hnone {u v : List Char} (hv : ¬ word.toList <+: v) :
        (between u v).token? word = none :=
      token?_eq_none word (by simpa [← List.isPrefixOf_iff_prefix] using hv)
    simp [afterWord?, hnone hv, hnone hv']

theorem atWordStart_eq {u u' : List Char} (h : u.getLast? = u'.getLast?) (v v' : List Char) :
    (between u v).atWordStart = (between u' v').atWordStart := by
  simp [atWordStart, between, h]

/-! ## The declaration -/

/-- The same kind and name, read in front of `v` and of `v'` from the same text. -/
structure SameDeclared (v v' : List Char) (d d' : Declaration) : Prop where
  kind : d'.kind = d.kind
  name : d'.name = d.name
  passed : ∃ passed, passed ≠ [] ∧ v = passed ++ d.stop.rest ∧ v' = passed ++ d'.stop.rest

namespace Declaration

theorem at?_eq (kinds : List ClassifierKind) (k : Cursor) :
    at? kinds k = if k.atWordStart then kinds.findSome? fun kind =>
      (afterWord? kind.keyword k).bind fun read => (name? read.2).map fun named =>
        ⟨kind, String.ofList named.1, k, named.2⟩ else none := by
  unfold at? afterWord?
  cases k.atWordStart with
  | false => rfl
  | true =>
    simp only [guard, if_true, Option.bind_eq_bind, Option.pure_def, Option.bind_some]
    congr 1
    funext kind
    cases k.token? kind.keyword with
    | none => rfl
    | some k' =>
      simp only [Option.bind_some]
      cases k'.skipSome? isBlank with
      | none => rfl
      | some start =>
        simp only [Option.bind_some, Option.map_some]
        cases name? start <;> rfl

/-- A name is read in the same way from both texts. -/
theorem name?_sameOutside {w w' : List Char} (h : SameOutside w w') (u u' : List Char) :
    (name? (between u w) = none ∧ name? (between u' w') = none) ∨
      ∃ n x x', w = n ++ x ∧ w' = n ++ x' ∧ name? (between u w) = some (n, between (u ++ n) x) ∧
        name? (between u' w') = some (n, between (u' ++ n) x') := by
  have hname (u : List Char) {n x : List Char} (hn : ∀ c ∈ n, isNameChar c = true)
      (hx : Stops isNameChar x) : name? (between u (n ++ x)) =
        if (n ++ x).head?.any isNameStart then some (n, between (u ++ n) x) else none := by
    unfold name?
    rw [skipWhile_between u hn hx, rest_between, takeWhile_append_of_stops hn hx]
    cases n ++ x <;> rfl
  have hhead := h.head?_eq
  obtain ⟨n, x, x', rfl, rfl, hn, hx, hx', -⟩ := h.span (p := isNameChar) (by decide)
  rw [hname u hn hx, hname u' hn hx', ← hhead]
  cases (n ++ x).head?.any isNameStart with
  | false => exact .inl ⟨rfl, rfl⟩
  | true => exact .inr ⟨n, x, x', rfl, rfl, rfl, rfl⟩

theorem at?_sameOutside (kinds : List ClassifierKind) {u u' v v' : List Char}
    (hlast : u.getLast? = u'.getLast?) (h : SameOutside v v') :
    Option.Rel (SameDeclared v v') (at? kinds (between u v)) (at? kinds (between u' v')) := by
  rw [at?_eq, at?_eq, atWordStart_eq hlast v v']
  split
  next =>
    refine rel_findSome? (fun kind => ?_) kinds
    have hkeyword : '<' ∉ kind.keyword.toList ∧ kind.keyword.toList ≠ [] := by
      cases kind <;> decide
    rcases afterWord?_cases kind.keyword hkeyword.1 h u u' with
      ⟨hread, hread'⟩ | ⟨blanks, w, w', rfl, rfl, hread, hread', hsame⟩
    · rw [hread, hread']
      exact .none
    · rw [hread, hread', Option.bind_some, Option.bind_some]
      rcases name?_sameOutside hsame (u ++ kind.keyword.toList ++ blanks)
          (u' ++ kind.keyword.toList ++ blanks) with
        ⟨hname, hname'⟩ | ⟨n, x, x', rfl, rfl, hname, hname'⟩
      · rw [hname, hname']
        exact .none
      · rw [hname, hname']
        refine .some ⟨rfl, rfl, kind.keyword.toList ++ blanks ++ n, ?_, ?_, ?_⟩
        · simp [hkeyword.2]
        · simp
        · simp
  next => exact .none

theorem kind_mem_of_find? {kinds : List ClassifierKind} {k : Cursor} {d : Declaration}
    (h : Cursor.find? (at? kinds) k = some d) : d.kind ∈ kinds := by
  obtain ⟨k, hread⟩ := exists_of_find? h
  rw [at?_eq] at hread
  split at hread
  next =>
    obtain ⟨kind, hmem, hread⟩ := List.exists_of_findSome?_eq_some hread
    obtain ⟨read, -, hnamed⟩ := Option.bind_eq_some_iff.1 hread
    obtain ⟨named, -, rfl⟩ := Option.map_eq_some_iff.1 hnamed
    exact hmem
  next => cases hread

/-- A declaration that ends in front of `rest` is found in front of any text that agrees with `rest`
outside angle brackets. -/
theorem find?_front (kinds : List ClassifierKind) {rest rest' : List Char}
    (h : SameOutside rest rest') {d : Declaration} (hrest : d.stop.rest = rest)
    {u front : List Char}
    (hfind : Cursor.find? (at? kinds) (between u (front ++ rest)) = some d) :
    ∃ d', Cursor.find? (at? kinds) (between u (front ++ rest')) = some d' ∧
      d'.kind = d.kind ∧ d'.name = d.name ∧ d'.stop.rest = rest' := by
  induction front generalizing u with
  | nil =>
    -- reading a declaration passes its keyword, so the text behind it is shorter
    obtain ⟨v₁, v₂, rfl, hread⟩ := exists_append_of_find? hfind
    obtain ⟨passed, w, hne, hv₂, hstop⟩ := (advances_of_at? hread).2.exists_between
    have hw : w = v₁ ++ v₂ := by rw [← hrest, hstop, rest_between]
    have hlength := congrArg List.length hv₂
    have hpos := List.length_pos_iff.2 hne
    rw [hw, List.length_append, List.length_append] at hlength
    omega
  | cons c front ih =>
    have hhere := at?_sameOutside kinds (u := u) rfl (h.append (c :: front))
    rw [List.cons_append, find?_cons] at hfind ⊢
    rw [List.cons_append, List.cons_append] at hhere
    generalize at? kinds (between u (c :: (front ++ rest))) = read at hfind hhere
    generalize at? kinds (between u (c :: (front ++ rest'))) = read' at hhere ⊢
    cases hhere with
    | @some found found' hsame =>
      obtain rfl : found = d := Option.some.inj hfind
      obtain ⟨passed, -, hv, hv'⟩ := hsame.passed
      obtain rfl : c :: front = passed := by
        rw [hrest, ← List.cons_append] at hv
        exact List.append_cancel_right hv
      rw [← List.cons_append] at hv'
      exact ⟨found', rfl, hsame.kind, hsame.name, (List.append_cancel_left hv').symm⟩
    | none => exact ih hfind

/-! ## The header -/

theorem angleListFrom?_cons (depth : Nat) (c : Char) (cs : List Char) :
    angleListFrom? depth (c :: cs) =
      if c == '>' && depth ≤ 1 then some ([], cs)
      else (angleListFrom? (angleDepth depth c) cs).map fun list => (c :: list.1, list.2) :=
  rfl

theorem angleListFrom?_of_stays {depth : Nat} {cs : List Char}
    (h : StaysAbove angleDepth 1 depth cs) (ds : List Char) :
    angleListFrom? depth (cs ++ ds) =
      (angleListFrom? (cs.foldl angleDepth depth) ds).map fun list => (cs ++ list.1, list.2) := by
  induction cs generalizing depth with
  | nil => simp
  | cons c cs ih =>
    have hstop : (c == '>' && depth ≤ 1) = false := by
      rw [Bool.and_eq_false_imp]
      intro hc
      rw [eq_of_beq hc] at h
      have hnext : 1 ≤ depth - 1 := h.2.le
      simp only [decide_eq_false_iff_not]
      omega
    rw [List.cons_append, angleListFrom?_cons, hstop, ih h.2]
    simp [Function.comp_def]

/-- A group in angle brackets stays in the list. -/
theorem angleListFrom?_group {depth : Nat} (hdepth : 1 ≤ depth) {g : List Char}
    (hg : isGroupText g = true) (cs : List Char) :
    angleListFrom? depth ('<' :: (g ++ '>' :: cs)) =
      (angleListFrom? depth cs).map fun list => ('<' :: (g ++ '>' :: list.1), list.2) := by
  have hnested := nested_of_isGroupText hg
  have hstays : StaysAbove angleDepth 1 (depth + 1) g :=
    (steady_angleDepth.stays hnested (depth + 1)).mono (Nat.le_add_left 1 depth)
  have hopen : angleDepth depth '<' = depth + 1 := rfl
  have hclose : angleDepth (depth + 1) '>' = depth := rfl
  have hinside : ¬ depth + 1 ≤ 1 := by omega
  rw [angleListFrom?_cons, hopen, angleListFrom?_of_stays hstays,
    steady_angleDepth.foldl_eq hnested, angleListFrom?_cons, hclose]
  simp [hinside, Function.comp_def]

theorem angleListFrom?_sameOutside {cs cs' : List Char} (h : SameOutside cs cs') {depth : Nat}
    (hdepth : 1 ≤ depth) :
    Option.Rel (fun list list' => SameOutside list.2 list'.2) (angleListFrom? depth cs)
      (angleListFrom? depth cs') := by
  induction h generalizing depth with
  | nil => exact .none
  | char c h ih =>
    rw [angleListFrom?_cons, angleListFrom?_cons]
    split
    next => exact .some h
    next hstop =>
      have hnext : 1 ≤ angleDepth depth c := by
        simp only [Bool.and_eq_true, beq_iff_eq, decide_eq_true_eq, not_and] at hstop
        unfold angleDepth
        grind
      exact rel_map (ih hnext) fun _ _ h => h
  | group hg hg' _ ih =>
    rw [angleListFrom?_group hdepth hg, angleListFrom?_group hdepth hg']
    exact rel_map (ih hdepth) fun _ _ h => h

theorem angleList?_of_stops {cs : List Char} (h : Stops (· == '<') cs) : angleList? cs = none := by
  unfold angleList?
  split
  · simp at h
  · rfl

/-- A nested text in angle brackets is split off. -/
theorem angleList?_nested {g : List Char} (hg : nested typeBrackets g = true) (cs : List Char) :
    angleList? ('<' :: (g ++ '>' :: cs)) = some (g, cs) := by
  have hstop : angleListFrom? 1 ('>' :: cs) = some ([], cs) := rfl
  rw [angleList?, angleListFrom?_of_stays (steady_angleDepth.stays hg 1),
    steady_angleDepth.foldl_eq hg, hstop]
  simp

theorem angleList?_sameOutside {cs cs' : List Char} (h : SameOutside cs cs') :
    Option.Rel (fun list list' => SameOutside list.2 list'.2) (angleList? cs) (angleList? cs') := by
  cases h with
  | nil => exact .none
  | char c h =>
    by_cases hc : c = '<'
    · rw [hc]
      exact angleListFrom?_sameOutside h (Nat.le_refl 1)
    · have hstops (cs : List Char) : Stops (· == '<') (c :: cs) := stops_cons.2 (by simpa using hc)
      rw [angleList?_of_stops (hstops _), angleList?_of_stops (hstops _)]
      exact .none
  | group hg hg' h =>
    rw [angleList?_nested (nested_of_isGroupText hg), angleList?_nested (nested_of_isGroupText hg')]
    exact .some h

theorem header_sameOutside {d d' : Declaration} (h : SameOutside d.stop.rest d'.stop.rest) :
    SameOutside d.header d'.header := by
  have hname : SameOutside d.afterName d'.afterName := h.dropWhile (by decide)
  have hlist := angleList?_sameOutside hname
  unfold header
  generalize angleList? d.afterName = list at hlist
  generalize angleList? d'.afterName = list' at hlist
  cases hlist with
  | some hafter => exact hafter.takeWhile_ne_brace
  | none => exact hname.takeWhile_ne_brace

end Declaration

/-! ## The supertypes -/

namespace Supertypes

theorem parentAt?_eq (k : Cursor) :
    parentAt? k = if k.atWordStart then (afterWord? "extends" k).bind fun read =>
      if read.2.rest.head?.any isPathChar then some (read.2.rest.takeWhile isPathChar) else none
    else none := by
  unfold parentAt? afterWord?
  cases k.atWordStart with
  | false => rfl
  | true =>
    simp only [guard, if_true, Option.bind_eq_bind, Option.pure_def, Option.bind_some]
    cases k.token? "extends" with
    | none => rfl
    | some k =>
      simp only [Option.bind_some]
      cases k.skipSome? isBlank with
      | none => rfl
      | some after =>
        simp only [Option.bind_some, Option.map_some]
        cases after.rest.head?.any isPathChar <;> rfl

theorem parentAt?_sameOutside {u u' v v' : List Char} (hlast : u.getLast? = u'.getLast?)
    (h : SameOutside v v') :
    Option.Rel (· = ·) (parentAt? (between u v)) (parentAt? (between u' v')) := by
  rw [parentAt?_eq, parentAt?_eq, atWordStart_eq hlast v v']
  rcases afterWord?_cases "extends" (by decide) h u u' with
    ⟨hread, hread'⟩ | ⟨blanks, w, w', -, -, hread, hread', hsame⟩
  · rw [hread, hread']
    exact rel_refl (fun _ => rfl) _
  · rw [hread, hread', Option.bind_some, Option.bind_some, rest_between, rest_between,
      hsame.head?_eq, hsame.takeWhile_eq (by decide)]
    exact rel_refl (fun _ => rfl) _

/-- The list behind `implements` and the given blanks. -/
def list? (blanks after : List Char) : Option (List Char) :=
  match after.takeWhile (· != '{') with
  | [] => if 1 < blanks.length then blanks.getLast?.map ([·]) else none
  | list => some list

theorem listAt?_eq (k : Cursor) :
    listAt? k = if k.atWordStart then
      (afterWord? "implements" k).bind fun read => list? read.1 read.2.rest else none := by
  unfold listAt? afterWord?
  cases k.atWordStart with
  | false => rfl
  | true =>
    simp only [guard, if_true, Option.bind_eq_bind, Option.pure_def, Option.bind_some]
    cases k.token? "implements" with
    | none => rfl
    | some k =>
      simp only [Option.bind_some]
      cases k.skipSome? isBlank <;> rfl

theorem listAt?_sameOutside {u u' v v' : List Char} (hlast : u.getLast? = u'.getLast?)
    (h : SameOutside v v') :
    Option.Rel SameOutside (listAt? (between u v)) (listAt? (between u' v')) := by
  rw [listAt?_eq, listAt?_eq, atWordStart_eq hlast v v']
  split
  next =>
    rcases afterWord?_cases "implements" (by decide) h u u' with
      ⟨hread, hread'⟩ | ⟨blanks, w, w', -, -, hread, hread', hsame⟩
    · rw [hread, hread']
      exact .none
    · rw [hread, hread', Option.bind_some, Option.bind_some]
      unfold list?
      have htake := hsame.takeWhile_ne_brace
      simp only [rest_between]
      generalize w.takeWhile (· != '{') = list at htake
      generalize w'.takeWhile (· != '{') = list' at htake
      cases htake with
      | nil => exact rel_refl SameOutside.refl _
      | char c h => exact .some (h.char c)
      | group hg hg' h => exact .some (h.group hg hg')
  next => exact .none

theorem interface?_sameOutside {piece piece' : List Char} (h : SameOutside piece piece') :
    interface? piece = interface? piece' := by
  rw [interface?, interface?, h.takeWhile_eq (by decide)]

theorem filterMap_interface? {ps ps' : List (List Char)} (h : List.Forall₂ SameOutside ps ps') :
    ps.filterMap interface? = ps'.filterMap interface? := by
  induction h with
  | nil => rfl
  | cons hp _ ih => rw [List.filterMap_cons, List.filterMap_cons, interface?_sameOutside hp, ih]

/-- The parent is the same where the first `extends` stands outside angle brackets. -/
theorem parent?_sameOutside {header header' : List Char} (h : SameOutside header header')
    (hfirst : firstOutside parentAt? 0 [] header = true)
    (hfirst' : firstOutside parentAt? 0 [] header' = true) :
    (ofHeader header').parent? = (ofHeader header).parent? := by
  have hfind := eq_of_rel (h.find? parentAt?_sameOutside rfl hfirst hfirst')
  rw [ofHeader, ofHeader, ofText_eq, ofText_eq, hfind]

/-- The interfaces are the same where the first `implements` stands outside angle brackets. -/
theorem interfaces_sameOutside {header header' : List Char} (h : SameOutside header header')
    (hfirst : firstOutside listAt? 0 [] header = true)
    (hfirst' : firstOutside listAt? 0 [] header' = true) :
    (ofHeader header').interfaces = (ofHeader header).interfaces := by
  have hfind := h.find? listAt?_sameOutside rfl hfirst hfirst'
  unfold ofHeader
  rw [ofText_eq, ofText_eq]
  generalize Cursor.find? listAt? (between [] header) = list? at hfind
  generalize Cursor.find? listAt? (between [] header') = list?' at hfind
  cases hfind with
  | some hlist => exact (filterMap_interface? (hlist.piecesFrom ',' 0)).symm
  | none => rfl

end Supertypes

/-- **Supertypes and angle brackets**: let a declaration end in front of `rest`, and change the
contents of groups in angle brackets in `rest`. The changed text has the same declaration; for an
interface this takes that the change makes no class or enumeration appear. The parent is the same if
the first `extends` of either header stands outside angle brackets, and so are the interfaces with
`implements`. -/
theorem supertypes_sameOutside {front rest rest' : List Char} {d : Declaration}
    (hfind : Declaration.find? (front ++ rest) = some d) (hrest : d.stop.rest = rest)
    (hsame : SameOutside rest rest')
    (hinterface : d.kind = .interfaceType →
      (Cursor.ofText (front ++ rest')).find? (Declaration.at? [.classType, .enumType]) = none) :
    ∃ d', Declaration.find? (front ++ rest') = some d' ∧ d'.kind = d.kind ∧ d'.name = d.name ∧
      d'.stop.rest = rest' ∧
      (firstOutside Supertypes.parentAt? 0 [] d.header = true →
        firstOutside Supertypes.parentAt? 0 [] d'.header = true →
          (Supertypes.ofHeader d'.header).parent? = (Supertypes.ofHeader d.header).parent?) ∧
      (firstOutside Supertypes.listAt? 0 [] d.header = true →
        firstOutside Supertypes.listAt? 0 [] d'.header = true →
          (Supertypes.ofHeader d'.header).interfaces =
            (Supertypes.ofHeader d.header).interfaces) := by
  obtain ⟨d', hfind', hkind, hname, hrest'⟩ : ∃ d', Declaration.find? (front ++ rest') = some d' ∧
      d'.kind = d.kind ∧ d'.name = d.name ∧ d'.stop.rest = rest' := by
    unfold Declaration.find? at hfind ⊢
    rw [ofText_eq, Option.or_eq_some_iff] at hfind
    rw [ofText_eq] at hinterface ⊢
    rcases hfind with hclass | ⟨-, hlater⟩
    · obtain ⟨d', hclass', hd'⟩ := Declaration.find?_front _ hsame hrest hclass
      refine ⟨d', ?_, hd'⟩
      rw [hclass', Option.some_or]
    · obtain ⟨d', hlater', hd'⟩ := Declaration.find?_front _ hsame hrest hlater
      refine ⟨d', ?_, hd'⟩
      have hkind : d.kind = .interfaceType :=
        List.mem_singleton.1 (Declaration.kind_mem_of_find? hlater)
      rw [hinterface hkind, Option.none_or, hlater']
  have hheader : SameOutside d.header d'.header := by
    refine Declaration.header_sameOutside ?_
    rw [hrest, hrest']
    exact hsame
  exact ⟨d', hfind', hkind, hname, hrest', Supertypes.parent?_sameOutside hheader,
    Supertypes.interfaces_sameOutside hheader⟩

/-- What comes behind the name of a class with a parent and two interfaces, for the given contents
of the angle brackets. -/
def afterCache (parameters arguments element : String) : List Char :=
  '<' :: (parameters.toList ++ '>' :: (" extends Store".toList ++ '<' :: (arguments.toList ++ '>' ::
    (" implements Sink".toList ++ '<' :: (element.toList ++ '>' :: ", Closeable \x7b".toList)))))

/-- A class with bounds in its type parameters and in the type arguments of its parent. -/
def boundedCache : Declaration :=
  let rest := afterCache "K extends Comparable<K>" "K, List<? extends K>" "K"
  ⟨.classType, "Cache", Cursor.ofText ("class Cache".toList ++ rest), ⟨11, some 'e', rest⟩⟩

theorem supertypes_sameOutside_cache :
    ∃ d', Declaration.find? ("class Cache".toList ++ afterCache "T" "Map<T, T[]>" "? super T") =
        some d' ∧
      (Supertypes.ofHeader d'.header).parent? = some "Store" ∧
      (Supertypes.ofHeader d'.header).interfaces = ["Sink", "Closeable"] := by
  have hfind : Declaration.find? ("class Cache".toList ++ boundedCache.stop.rest) =
      some boundedCache := by
    decide +kernel
  have hsupertypes : Supertypes.ofHeader boundedCache.header =
      ⟨some "Store", ["Sink", "Closeable"]⟩ := by
    decide +kernel
  have hsame : SameOutside boundedCache.stop.rest (afterCache "T" "Map<T, T[]>" "? super T") :=
    .group (by decide) (by decide) (.append _ (.group (by decide) (by decide)
      (.append _ (.group (by decide) (by decide) (.refl _)))))
  obtain ⟨d', hfind', -, -, hrest', hparent, hinterfaces⟩ :=
    supertypes_sameOutside hfind rfl hsame nofun
  have hheader : d'.header =
      " extends Store<Map<T, T[]>> implements Sink<? super T>, Closeable ".toList := by
    unfold Declaration.header Declaration.afterName
    rw [hrest']
    decide +kernel
  rw [hheader] at hparent hinterfaces
  refine ⟨d', hfind', ?_, ?_⟩
  · rw [hheader, hparent (by decide +kernel) (by decide +kernel), hsupertypes]
  · rw [hheader, hinterfaces (by decide +kernel) (by decide +kernel), hsupertypes]

/-- What comes behind the name of a class with one interface. -/
def afterNames (element : String) : List Char :=
  " implements Comparator".toList ++ '<' :: (element.toList ++ '>' :: " \x7b".toList)

/-- The bound of a wildcard is taken for the parent. -/
theorem not_supertypes_wildcard :
    SameOutside (afterNames "List<Person>") (afterNames "List<? extends Person>") ∧
      (Declaration.find? ("class Names".toList ++ afterNames "List<Person>")).map
          (fun d => Supertypes.ofHeader d.header) = some ⟨none, ["Comparator"]⟩ ∧
      (Declaration.find? ("class Names".toList ++ afterNames "List<? extends Person>")).map
          (fun d => Supertypes.ofHeader d.header) = some ⟨some "Person", ["Comparator"]⟩ :=
  ⟨.append _ (.group (by decide) (by decide) (.refl _)), by decide +kernel, by decide +kernel⟩

end ClassDiagram.Source
