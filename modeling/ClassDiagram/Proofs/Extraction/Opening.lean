import ClassDiagram.Proofs.Extraction.Printing
import ClassDiagram.Proofs.Source.Supertypes

/-!
# The first line of a class

The printed text holds no noise, its declaration is the one of its first line, and the header of that
declaration names the parent and nothing else.
-/

namespace ClassDiagram

open Text Source Cursor

/-! ## Noise -/

theorem replaceBlockComments_eq_self {cs : List Char} (h : '/' ∉ cs) :
    replaceBlockComments false cs = cs := by
  induction cs with
  | nil => rfl
  | cons c cs ih =>
    rw [List.mem_cons, not_or] at h
    obtain ⟨hc, hcs⟩ := h
    simp [replaceBlockComments, Ne.symm hc, ih hcs]

theorem dropLineComments_eq_self {cs : List Char} (h : '/' ∉ cs) :
    dropLineComments false cs = cs := by
  induction cs with
  | nil => rfl
  | cons c cs ih =>
    rw [List.mem_cons, not_or] at h
    obtain ⟨hc, hcs⟩ := h
    by_cases hline : c = '\n'
    · simp [dropLineComments, hline, ih hcs]
    · simp [dropLineComments, Ne.symm hc, ih hcs]

theorem packageClause?_inline {u : List Char} (w : List Char)
    (hu : u.getLast?.all (· == '\n') = false) : packageClause? (between u w) = none := by
  have hline : (between u w).atLineStart = false := by
    unfold atLineStart
    cases hlast : u.getLast? with
    | none => simp [hlast] at hu
    | some c => simpa [between, hlast] using hu
  simp [packageClause?, hline, guard]

theorem packageClause?_eq_none (u : List Char) {g w : List Char}
    (hg : ∀ c ∈ g, isBlank c = true) (hblank : Stops isBlank w)
    (hword : "package".toList.isPrefixOf w = false) :
    packageClause? (between u (g ++ w)) = none := by
  have htoken : (between (u ++ g) w).token? "package" = none := token?_eq_none "package" hword
  unfold packageClause?
  rw [skipWhile_between u hg hblank, htoken]
  cases (between u (g ++ w)).atLineStart <;> rfl

/-- A package clause is looked for at the start of a line only. -/
theorem barren_packageClause? {u v w : List Char} (hv : ∀ c ∈ v, c ≠ '\n')
    (hstart : packageClause? (between u (v ++ w)) = none) : Barren packageClause? u v w := by
  induction v generalizing u with
  | nil => trivial
  | cons c v ih =>
    have hc := hv c List.mem_cons_self
    exact ⟨hstart, ih (fun d hd => hv d (List.mem_cons_of_mem c hd))
      (packageClause?_inline _ (by simp [hc]))⟩

/-- No line of a class starts with a package clause. -/
theorem not_package (item : Item) (w : List Char) :
    Stops isBlank (item.body ++ item.mark :: w) ∧
      "package".toList.isPrefixOf (item.body ++ item.mark :: w) = false := by
  have hprivate : IsName "private".toList := by decide
  have hpublic : IsName "public".toList := by decide
  cases item with
  | field i t =>
    unfold Item.body
    rw [List.append_assoc]
    exact ⟨hprivate.stops_blank _, rfl⟩
  | constructor n =>
    unfold Item.body
    rw [List.append_assoc]
    exact ⟨hpublic.stops_blank _, rfl⟩
  | statement j n =>
    unfold Item.body
    rw [List.append_assoc]
    refine ⟨(isName_numbered (by decide) j).stops_blank _, ?_⟩
    rw [toList_numbered]
    rfl
  | method parameters =>
    unfold Item.body
    rw [List.append_assoc]
    exact ⟨hpublic.stops_blank _, rfl⟩
  | close indent => exact ⟨stops_cons.2 (by decide : isBlank '}' = false), rfl⟩

theorem barren_item (item : Item) {u : List Char} (w : List Char)
    (hu : u.getLast?.all (· == '\n') = false) : Barren packageClause? u item.line.chars w := by
  have hchars : item.line.chars =
      '\n' :: (List.replicate item.indent ' ' ++ (item.body ++ [item.mark])) := by
    simp [Member.Line.chars, Member.Line.gap, Item.line]
  have hline : ∀ c ∈ List.replicate item.indent ' ' ++ (item.body ++ [item.mark]), c ≠ '\n' := by
    simp only [List.forall_mem_append, List.forall_mem_singleton]
    refine ⟨fun c hc => ?_, fun c hc => (item.line.inline c hc).2, item.line.mark_ne (by decide)⟩
    rw [List.eq_of_mem_replicate hc]
    decide
  obtain ⟨hblank, hword⟩ := not_package item w
  rw [hchars]
  refine ⟨packageClause?_inline _ hu, barren_packageClause? hline ?_⟩
  rw [List.append_assoc, List.append_assoc]
  refine packageClause?_eq_none _ (fun c hc => ?_) hblank hword
  rw [List.eq_of_mem_replicate hc]
  decide

theorem getLast?_item (item : Item) (u : List Char) :
    (u ++ item.line.chars).getLast?.all (· == '\n') = false := by
  simp only [Member.Line.chars, ← List.append_assoc, List.getLast?_concat, Option.all_some,
    beq_eq_false_iff_ne]
  exact item.line.mark_ne (by decide)

theorem barren_items (items : List Item) {u : List Char}
    (hu : u.getLast?.all (· == '\n') = false) :
    Barren packageClause? u (items.flatMap (fun item => item.line.chars) ++ ['\n']) [] := by
  induction items generalizing u with
  | nil => exact ⟨packageClause?_inline _ hu, trivial⟩
  | cons item items ih =>
    rw [List.flatMap_cons, List.append_assoc]
    exact (barren_item item _ hu).append (ih (getLast?_item item u))

namespace ClassOutline

variable (c : ClassOutline)

theorem mem_opening {d : Char} (h : d ∈ c.opening) : isNameChar d = true ∨ d = ' ' := by
  have hword : ∀ {word : List Char}, IsName word → d ∈ word → isNameChar d = true ∨ d = ' ' :=
    fun hn hd => .inl (hn.mem hd)
  unfold opening parentClause at h
  simp only [List.mem_append, List.mem_cons, List.not_mem_nil, or_false] at h
  rcases h with h | h | h | h | h
  · exact hword (by decide) h
  · exact .inr h
  · exact hword c.name.isName h
  · split at h
    · next parent _ =>
      simp only [String.toList_append, List.mem_append] at h
      rcases h with h | h
      · have hclause : " extends ".toList.all (fun d => isNameChar d || d == ' ') = true := by decide
        simpa using List.all_eq_true.1 hclause d h
      · exact hword parent.isName h
    · simp at h
  · exact .inr h

theorem slash_not_mem_render : '/' ∉ c.render.toList := by
  have hname : ∀ d, isNameChar d = true → d ≠ '/' := fun d hd => ne_of_isNameChar hd (by decide)
  rw [toList_render, lines]
  simp only [List.mem_append, List.mem_cons, List.not_mem_nil, or_false, not_or, List.mem_flatMap,
    not_exists, not_and]
  refine ⟨by decide, fun h => ?_, by decide, fun item _ h => ?_, by decide⟩
  · rcases c.mem_opening h with h | h
    · exact hname _ h rfl
    · exact absurd h (by decide)
  · simp only [Member.Line.chars, List.mem_append, List.mem_singleton] at h
    rcases h with (h | h) | h
    · exact absurd (Member.Line.isBlank_of_mem_gap _ h) (by decide)
    · rcases Item.mem_body h with h | h
      · exact hname _ h rfl
      · exact absurd h (by decide)
    · exact item.line.mark_ne (by decide) h.symm

/-- A printed class holds no noise. -/
theorem stripNoise_render : stripNoise c.render.toList = c.render.toList := by
  have hslash := c.slash_not_mem_render
  unfold stripNoise
  rw [replaceBlockComments_eq_self hslash, dropLineComments_eq_self hslash]
  apply cut_barren
  have hfirst : ∀ d ∈ "public ".toList ++ (c.opening ++ ['{']), d ≠ '\n' := by
    simp only [List.forall_mem_append, List.forall_mem_singleton]
    refine ⟨by simp, fun d hd => ?_, by decide⟩
    rcases c.mem_opening hd with h | rfl
    · exact ne_of_isNameChar h (by decide)
    · decide
  have hcut : c.render.toList = "public ".toList ++ (c.opening ++ ['{']) ++
      (c.items.flatMap (fun item => item.line.chars) ++ ['\n']) := by
    simp [toList_render, lines]
  have hlast : ("public ".toList ++ (c.opening ++ ['{'])).getLast?.all (· == '\n') = false := by
    rw [← List.append_assoc, List.getLast?_concat]
    rfl
  rw [hcut]
  refine (barren_packageClause? hfirst ?_).append (barren_items c.items hlast)
  exact packageClause?_eq_none [] (g := []) (by simp)
    (stops_cons.2 (by decide : isBlank 'p' = false)) rfl

/-! ## The declaration -/

/-- The place of the declaration in the printed text. -/
def declaration : Declaration where
  kind := .classType
  name := c.name.text
  start := between "public ".toList (c.opening ++ '{' :: c.lines)
  stop := between ("public class ".toList ++ c.name.text.toList)
    (c.parentClause.toList ++ ' ' :: '{' :: c.lines)

theorem stops_parentClause (w : List Char) :
    Stops isNameChar (c.parentClause.toList ++ ' ' :: w) := by
  unfold parentClause
  split
  · rw [String.toList_append]
    exact stops_cons.2 (by decide : isNameChar ' ' = false)
  · exact stops_cons.2 (by decide : isNameChar ' ' = false)

/-- Inside a word no declaration starts. -/
theorem declaration_inside (kinds : List ClassifierKind) {u : List Char} {d : Char} (w : List Char)
    (hu : u.getLast? = some d) (hd : isWord d = true) :
    Declaration.at? kinds (between u w) = none := by
  simp [Declaration.at?, atWordStart, between, hu, hd, guard]

theorem declaration_at :
    Declaration.at? [.classType, .enumType] c.declaration.start = some c.declaration := by
  have hstart : c.declaration.start = between "public ".toList ("class".toList ++
      ' ' :: (c.name.text.toList ++ (c.parentClause.toList ++ ' ' :: '{' :: c.lines))) := by
    rw [declaration, opening_append]
  have hname : name? (between ("public ".toList ++ "class".toList ++ [' ']) (c.name.text.toList ++
      (c.parentClause.toList ++ ' ' :: '{' :: c.lines))) =
      some (c.name.text.toList, c.declaration.stop) :=
    name?_between _ c.name.isName (c.stops_parentClause _)
  have hword : (between "public ".toList ("class".toList ++ ' ' :: (c.name.text.toList ++
      (c.parentClause.toList ++ ' ' :: '{' :: c.lines)))).atWordStart = true := by
    have hblank : isWord ' ' = false := by decide
    simp [atWordStart, between, hblank]
  have htoken := token?_between "public ".toList "class" (' ' :: (c.name.text.toList ++
    (c.parentClause.toList ++ ' ' :: '{' :: c.lines)))
  have hread : ((between "public ".toList ("class".toList ++ ' ' :: (c.name.text.toList ++
      (c.parentClause.toList ++ ' ' :: '{' :: c.lines)))).token?
        ClassifierKind.classType.keyword) = _ := htoken
  rw [hstart]
  simp only [Declaration.at?, hword, guard, if_true, List.findSome?_cons, hread,
    skipSome?_blank_name _ c.name.isName, hname, Option.bind_eq_bind, Option.bind_some,
    Option.pure_def, String.ofList_toList]
  rw [← hstart]
  rfl

/-- The text is about the class of its first line. -/
theorem find?_render : Declaration.find? c.render.toList = some c.declaration := by
  have hbarren : Barren (Declaration.at? [.classType, .enumType]) [] "public ".toList
      (c.opening ++ '{' :: c.lines) := by
    have hfirst : ∀ w, Declaration.at? [.classType, .enumType] (between [] ('p' :: w)) = none := by
      intro w
      have hclass : (between [] ('p' :: w)).token? ClassifierKind.classType.keyword = none :=
        token?_of_stops _ rfl (stops_cons.2 (by decide))
      have henum : (between [] ('p' :: w)).token? ClassifierKind.enumType.keyword = none :=
        token?_of_stops _ rfl (stops_cons.2 (by decide))
      simp [Declaration.at?, hclass, henum]
    have hinside : ∀ u d w, isWord d = true → Declaration.at? [.classType, .enumType]
        (between (u ++ [d]) w) = none := fun u d w hd =>
      declaration_inside _ w (by simp) hd
    exact ⟨hfirst _, hinside [] 'p' _ (by decide), hinside ['p'] 'u' _ (by decide),
      hinside ['p', 'u'] 'b' _ (by decide), hinside ['p', 'u', 'b'] 'l' _ (by decide),
      hinside ['p', 'u', 'b', 'l'] 'i' _ (by decide),
      hinside ['p', 'u', 'b', 'l', 'i'] 'c' _ (by decide), trivial⟩
  unfold Declaration.find?
  rw [toList_render, ofText_eq, find?_barren hbarren]
  have hhere : Cursor.find? (Declaration.at? [.classType, .enumType])
      (between ([] ++ "public ".toList) (c.opening ++ '{' :: c.lines)) = some c.declaration :=
    find?_here c.declaration_at
  rw [hhere, Option.some_or]

end ClassOutline

/-! ## The header -/

theorem header_eq {d : Declaration} {v w : List Char} (hname : d.afterName = v ++ '{' :: w)
    (hangle : Stops (· == '<') d.afterName) (hv : ∀ c ∈ v, (c != '{') = true) : d.header = v := by
  unfold Declaration.header
  rw [Declaration.angleList?_of_stops hangle]
  simp only [hname]
  exact takeWhile_append_of_stops hv (stops_cons.2 (by decide))

theorem typeParameters_eq_nil {d : Declaration} (hangle : Stops (· == '<') d.afterName) :
    d.typeParameters = [] := by
  simp [Declaration.typeParameters, Declaration.angleList?_of_stops hangle]

/-- What is called `implements` at the very end of a header lists nothing. -/
theorem listAt?_name (u : List Char) {n : List Char} (hn : ∀ c ∈ n, isNameChar c = true) :
    Supertypes.listAt? (between u (n ++ [' '])) = none := by
  have hword : ∀ c ∈ "implements".toList, isNameChar c = true := fun _ =>
    (by decide : IsName "implements".toList).mem
  have hread := Member.token?_bind_blank u hword hn (w := [' ']) (stops_cons.2 (by decide))
  unfold Supertypes.listAt?
  cases htoken : (between u (n ++ [' '])).token? "implements" with
  | none => cases (between u (n ++ [' '])).atWordStart <;> rfl
  | some k =>
    rw [htoken, Option.bind_some] at hread
    split at hread
    · next heq =>
      -- one blank is all that follows
      have hk : k = between (u ++ n) [' '] := by
        rw [← heq, token?_between, Option.some.injEq] at htoken
        rw [← htoken, heq]
      have hskip : (between (u ++ n) [' ']).skipSome? isBlank =
          some (between (u ++ n ++ [' ']) []) :=
        skipSome?_between _ (List.cons_ne_nil ' ' []) (by simp; decide) stops_nil
      have hblanks := upTo_between (u ++ n) [' '] []
      rw [List.append_nil] at hblanks
      rw [hk]
      simp only [hskip, Option.bind_eq_bind, Option.bind_some, rest_between, List.takeWhile_nil,
        hblanks]
      cases (between u (n ++ [' '])).atWordStart <;> rfl
    · simp [hread]

theorem barren_listAt? (u : List Char) {n : List Char} (hn : ∀ c ∈ n, isNameChar c = true) :
    Barren Supertypes.listAt? u n [' '] := by
  induction n generalizing u with
  | nil => trivial
  | cons c n ih => exact ⟨listAt?_name u hn, ih _ fun d hd => hn d (List.mem_cons_of_mem c hd)⟩

/-- A header with one parent names no interfaces, whatever the parent is called. -/
theorem supertypes_extends {n : List Char} (hn : IsName n) :
    Supertypes.ofHeader ("extends".toList ++ ' ' :: (n ++ [' '])) =
      ⟨some (String.ofList n), []⟩ := by
  have hparent : Supertypes.parentAt? (between [] ("extends".toList ++ ' ' :: (n ++ [' ']))) =
      some n := by
    have htoken := token?_between [] "extends" (' ' :: (n ++ [' ']))
    have hrun : (n ++ [' ']).takeWhile isPathChar = n :=
      takeWhile_append_of_stops (fun _ => hn.mem_path) (stops_cons.2 (by decide))
    have hhead : (n ++ [' ']).head?.any isPathChar = true := by
      obtain ⟨c, n, rfl⟩ := List.exists_cons_of_ne_nil hn.ne_nil
      simp [hn.mem_path List.mem_cons_self]
    simp only [Supertypes.parentAt?, htoken, skipSome?_blank_name _ hn, Option.bind_eq_bind,
      Option.bind_some, rest_between, hrun, hhead]
    rfl
  have hother : ∀ c, c ≠ 'i' → ∀ u w, Supertypes.listAt? (between u (c :: w)) = none := by
    intro c hc u w
    have hword : "implements".toList = 'i' :: "mplements".toList := rfl
    have htoken : (between u (c :: w)).token? "implements" = none :=
      token?_of_stops "implements" hword (by simpa using hc)
    simp [Supertypes.listAt?, htoken]
  have hfirst : Barren Supertypes.listAt? [] ("extends".toList ++ [' ']) (n ++ [' ']) :=
    barren_of_forall fun c hc => hother c (by
      rintro rfl
      exact absurd hc (by decide))
  have hlast : ∀ u, Barren Supertypes.listAt? u [' '] [] := fun u =>
    ⟨hother ' ' (by decide) u _, trivial⟩
  have hnone : Cursor.find? Supertypes.listAt? (between [] ("extends".toList ++
      ' ' :: (n ++ [' ']))) = none := by
    have hcut : "extends".toList ++ ' ' :: (n ++ [' ']) =
        ("extends".toList ++ [' ']) ++ (n ++ [' ']) := by
      simp
    rw [hcut]
    refine find?_eq_none ?_ ?_
    · exact Barren.append (by simpa using hfirst)
        ((barren_listAt? _ fun _ => hn.mem).append (hlast _))
    · simp [Supertypes.listAt?, token?_eq_none]
  simp only [Supertypes.ofHeader, ofText_eq, find?_here hparent, hnone, Option.map_some]

namespace ClassOutline

variable (c : ClassOutline)

/-- The header as printed. -/
def headerText : List Char :=
  match c.parent? with
  | some parent => "extends".toList ++ ' ' :: (parent.text.toList ++ [' '])
  | none => []

theorem afterName_declaration : c.declaration.afterName = c.headerText ++ '{' :: c.lines := by
  have hblank : isBlank ' ' = true := by decide
  have hbrace : isBlank '{' = false := by decide
  have hletter : isBlank 'e' = false := by decide
  unfold Declaration.afterName declaration headerText parentClause
  cases c.parent? with
  | none => simp [trimStart, hblank, hbrace]
  | some parent => simp [trimStart, hblank, hletter]

theorem stops_afterName : Stops (· == '<') c.declaration.afterName := by
  rw [c.afterName_declaration]
  unfold headerText
  cases c.parent? with
  | none => exact stops_cons.2 (by decide)
  | some parent =>
    rw [List.append_assoc]
    exact IsName.stops_eq (by decide) (by decide) _

theorem header_declaration : c.declaration.header = c.headerText := by
  refine header_eq c.afterName_declaration c.stops_afterName fun d hd => ?_
  unfold headerText at hd
  split at hd
  · next parent _ =>
    rw [bne_iff_ne]
    simp only [List.mem_append, List.mem_cons, List.not_mem_nil, or_false] at hd
    rcases hd with hd | rfl | hd | rfl
    · exact IsName.ne_of_mem (by decide) hd (by decide)
    · decide
    · exact parent.isName.ne_of_mem hd (by decide)
    · decide
  · cases hd

/-- The header names the parent and nothing else. -/
theorem supertypes_header :
    Supertypes.ofHeader c.declaration.header = ⟨c.parent?.map Identifier.text, []⟩ := by
  rw [c.header_declaration]
  unfold headerText
  cases c.parent? with
  | none => decide
  | some parent =>
    have hextends := supertypes_extends parent.isName
    rw [String.ofList_toList] at hextends
    exact hextends

end ClassOutline

end ClassDiagram
