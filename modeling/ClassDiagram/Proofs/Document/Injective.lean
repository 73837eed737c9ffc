import Mathlib.Data.List.Basic
import ClassDiagram.Proofs.Document.Lines

/-!
# What a document tells

A document determines the structure of its diagram. Lines can be told apart: only members are
indented, only the line between blocks and edges is empty, and a block ends with a brace of its own
(`Document.shown_eq_of_blocks_eq`). In the line of an edge the words can be told apart: only
multiplicities start with a quote, and the first word behind the left end that does not is the arrow
(`EdgeLine.Plain.eq_of_text_eq`). The nine arrows are different words, so each of them tells what
kind of edge it belongs to.
-/

namespace ClassDiagram

open Text Document

/-- Two lists with a first element outside a class are equal part by part. -/
theorem append_cons_inj {α : Type} {p : α → Prop} {xs ys rest rest' : List α} {a b : α}
    (hxs : ∀ x ∈ xs, p x) (hys : ∀ y ∈ ys, p y) (ha : ¬ p a) (hb : ¬ p b)
    (h : xs ++ a :: rest = ys ++ b :: rest') : xs = ys ∧ a = b ∧ rest = rest' := by
  induction xs generalizing ys with
  | nil =>
    cases ys with
    | nil => exact ⟨rfl, List.cons.inj h⟩
    | cons y ys => exact absurd (hys y List.mem_cons_self) ((List.cons.inj h).1 ▸ ha)
  | cons x xs ih =>
    cases ys with
    | nil => exact absurd (hxs x List.mem_cons_self) ((List.cons.inj h).1 ▸ hb)
    | cons y ys =>
      obtain ⟨rfl, htail⟩ := List.cons.inj h
      obtain ⟨rfl, hrest⟩ := ih (fun x hx => hxs x (List.mem_cons_of_mem _ hx))
        (fun y hy => hys y (List.mem_cons_of_mem _ hy)) htail
      exact ⟨rfl, hrest⟩

/-! ## Blocks -/

theorem ClassifierKind.keyword_inj {k k' : ClassifierKind} (h : k.keyword = k'.keyword) :
    k = k' := by
  cases k <;> cases k' <;> first | rfl | exact absurd h (by decide)

namespace Document

/-- What the block of a classifier shows. -/
def shown (settings : Settings) (c : Classifier) : ClassifierKind × String × List String :=
  (c.kind, c.name, memberLines settings c)

theorem header_inj {k k' : ClassifierKind} {name name' : String}
    (h : k.keyword ++ " " ++ name ++ " \x7b" = k'.keyword ++ " " ++ name' ++ " \x7b") :
    k = k' ∧ name = name' := by
  have hword : ∀ k : ClassifierKind, ∀ c ∈ k.keyword.toList, c ≠ ' ' := by
    intro k c hc hspace
    subst hspace
    revert hc
    cases k <;> decide
  have hspace : " ".toList = [' '] := rfl
  have hchars := congrArg String.toList h
  simp only [String.toList_append, List.append_assoc, hspace, List.singleton_append] at hchars
  obtain ⟨hkeyword, -, hrest⟩ :=
    append_cons_inj (p := (· ≠ ' ')) (hword k) (hword k') (by simp) (by simp) hchars
  exact ⟨ClassifierKind.keyword_inj (String.toList_inj.1 hkeyword),
    String.toList_inj.1 (List.append_cancel_right hrest)⟩

/-- The lines of blocks, up to the empty line behind them, give back what the blocks show. -/
theorem shown_eq_of_blocks_eq {settings : Settings} {cs cs' : List Classifier}
    {tail tail' : List String}
    (h : cs.flatMap (blockLines settings) ++ "" :: tail =
      cs'.flatMap (blockLines settings) ++ "" :: tail') :
    cs.map (shown settings) = cs'.map (shown settings) ∧ tail = tail' := by
  have hnonempty : ∀ c : Classifier, c.kind.keyword ++ " " ++ c.name ++ " \x7b" ≠ "" := by
    simp
  induction cs generalizing cs' with
  | nil =>
    cases cs' with
    | nil => exact ⟨rfl, (List.cons.inj h).2⟩
    | cons c' cs' => exact absurd (List.cons.inj h).1.symm (hnonempty c')
  | cons c cs ih =>
    cases cs' with
    | nil => exact absurd (List.cons.inj h).1 (hnonempty c)
    | cons c' cs' =>
      simp only [List.flatMap_cons, blockLines, List.cons_append, List.append_assoc,
        List.nil_append] at h
      obtain ⟨hheader, hbody⟩ := List.cons.inj h
      obtain ⟨hkind, hname⟩ := header_inj hheader
      -- members are indented, the closing brace is not
      have hindented : ∀ ms : List String, ∀ line ∈ ms.map ("    " ++ ·),
          line.toList.head? = some ' ' := by
        intro ms line hline
        obtain ⟨m, -, rfl⟩ := List.mem_map.1 hline
        simp
      obtain ⟨hmembers, -, hrest⟩ := append_cons_inj (hindented _) (hindented _)
        (by decide) (by decide) hbody
      have hmembers : memberLines settings c = memberLines settings c' :=
        (List.map_inj_right fun _ _ => (String.append_right_inj "    ").1).1 hmembers
      obtain ⟨hblocks, htail⟩ := ih hrest
      refine ⟨?_, htail⟩
      rw [List.map_cons, List.map_cons, hblocks, shown, hkind, hname, hmembers]
      rfl

end Document

/-! ## Edges -/

/-- Neither white space nor a quote stands in the text. -/
def Bare (s : String) : Prop := ∀ c ∈ s.toList, isBlank c = false ∧ c ≠ '"'

instance (s : String) : Decidable (Bare s) :=
  decidable_of_iff (s.toList.all fun c => !isBlank c && c != '"') (by simp [Bare])

namespace Bare

theorem not_mem_of_isBlank {s : String} (h : Bare s) {c : Char} (hc : isBlank c = true) :
    c ∉ s.toList := by
  intro hmem
  simp [(h c hmem).1] at hc

theorem oneLine {s : String} (h : Bare s) : OneLine s := h.not_mem_of_isBlank (by decide)

theorem not_quoted {s : String} (h : Bare s) : s.toList.head? ≠ some '"' := by
  intro hhead
  exact (h '"' (List.mem_of_mem_head? hhead)).2 rfl

end Bare

/-- What stands in the line of an edge, from left to right. -/
structure EdgeLine where
  left : String
  leftLabel? : Option String
  arrow : String
  rightLabel? : Option String
  right : String

namespace EdgeLine

/-- The word of a multiplicity. -/
def labelWord (label : String) : String := "\"" ++ label ++ "\""

/-- The words of the line. -/
def words (l : EdgeLine) : List String :=
  l.left :: (l.leftLabel?.toList.map labelWord ++
    l.arrow :: (l.rightLabel?.toList.map labelWord ++ [l.right]))

/-- The text of the line. -/
def text (l : EdgeLine) : String := String.intercalate " " l.words

/-- The parts of the line can be told apart. -/
structure Plain (l : EdgeLine) : Prop where
  left : Bare l.left
  leftLabel : ∀ label ∈ l.leftLabel?, Bare label
  arrow : Bare l.arrow
  rightLabel : ∀ label ∈ l.rightLabel?, Bare label
  right : Bare l.right

theorem labelWord_inj {label label' : String} (h : labelWord label = labelWord label') :
    label = label' :=
  (String.append_right_inj _).1 ((String.append_left_inj _).1 h)

theorem map_labelWord_inj {label? label?' : Option String}
    (h : label?.toList.map labelWord = label?'.toList.map labelWord) : label? = label?' := by
  cases label? <;> cases label?' <;> simp at h ⊢
  exact labelWord_inj h

/-- Labels are the words that start with a quote. -/
theorem quoted_of_mem {label? : Option String} {word : String}
    (h : word ∈ label?.toList.map labelWord) : word.toList.head? = some '"' := by
  obtain ⟨label, -, rfl⟩ := List.mem_map.1 h
  simp [labelWord]

theorem Plain.eq_of_words_eq {l l' : EdgeLine} (h : l.Plain) (h' : l'.Plain)
    (heq : l.words = l'.words) : l = l' := by
  obtain ⟨hleft, hbehind⟩ := List.cons.inj heq
  obtain ⟨hleftLabel, harrow, hbehind⟩ := append_cons_inj (fun _ => quoted_of_mem)
    (fun _ => quoted_of_mem) h.arrow.not_quoted h'.arrow.not_quoted hbehind
  obtain ⟨hrightLabel, hright, -⟩ := append_cons_inj (fun _ => quoted_of_mem)
    (fun _ => quoted_of_mem) h.right.not_quoted h'.right.not_quoted hbehind
  cases l
  cases l'
  simp only [EdgeLine.mk.injEq]
  exact ⟨hleft, map_labelWord_inj hleftLabel, harrow, map_labelWord_inj hrightLabel, hright⟩

theorem Plain.not_mem_words {l : EdgeLine} (h : l.Plain) {c : Char} (hc : isBlank c = true) :
    ∀ word ∈ l.words, c ∉ word.toList := by
  have hlabel : ∀ {label? : Option String}, (∀ label ∈ label?, Bare label) →
      ∀ word ∈ label?.toList.map labelWord, c ∉ word.toList := by
    intro label? hlabel word hword
    obtain ⟨label, hmem, rfl⟩ := List.mem_map.1 hword
    have hquote : c ≠ '"' := by
      rintro rfl
      exact absurd hc (by decide)
    have hinner := (hlabel label (Option.mem_toList.1 hmem)).not_mem_of_isBlank hc
    simp [labelWord, hquote, hinner]
  intro word hword
  simp only [words, List.mem_cons, List.mem_append, List.not_mem_nil, or_false] at hword
  rcases hword with rfl | hword | rfl | hword | rfl
  · exact h.left.not_mem_of_isBlank hc
  · exact hlabel h.leftLabel word hword
  · exact h.arrow.not_mem_of_isBlank hc
  · exact hlabel h.rightLabel word hword
  · exact h.right.not_mem_of_isBlank hc

/-- The line of an edge gives back its parts. -/
theorem Plain.eq_of_text_eq {l l' : EdgeLine} (h : l.Plain) (h' : l'.Plain)
    (heq : l.text = l'.text) : l = l' := by
  have hwords : ∀ {l : EdgeLine}, l.Plain →
      l.text.toList.splitOn ' ' = l.words.map String.toList := by
    intro l hl
    have hspace : " ".toList = [' '] := rfl
    rw [text, String.toList_intercalate, hspace]
    refine List.splitOn_intercalate ' ' ?_ (by simp [words])
    intro cs hcs
    obtain ⟨word, hword, rfl⟩ := List.mem_map.1 hcs
    exact hl.not_mem_words (by decide) word hword
  apply h.eq_of_words_eq h'
  have hmap := hwords h
  rw [heq, hwords h'] at hmap
  exact ((List.map_inj_right fun _ _ => String.toList_inj.1).1 hmap).symm

theorem Plain.oneLine_text {l : EdgeLine} (h : l.Plain) : OneLine l.text :=
  oneLine_intercalate (by decide) (h.not_mem_words (by decide))

end EdgeLine

namespace DiagramEdge

/-- The line of an edge in a diagram. -/
def line : DiagramEdge → String
  | hierarchy e => e.line
  | relation r => r.line

/-- The parts of that line. -/
def parts : DiagramEdge → EdgeLine
  | hierarchy ⟨child, parent, .inheritance⟩ => ⟨parent, none, "<|--", none, child⟩
  | hierarchy ⟨child, parent, .realization⟩ => ⟨child, none, "..|>", none, parent⟩
  | relation r => ⟨r.source, r.sourceLabel?, r.kind.arrow, r.targetLabel?, r.target⟩

theorem line_eq_text (e : DiagramEdge) : e.line = e.parts.text := by
  apply String.toList_inj.1
  match e with
  | hierarchy ⟨child, parent, .inheritance⟩ =>
    simp [line, parts, HierarchyEdge.line, EdgeLine.text, EdgeLine.words]
  | hierarchy ⟨child, parent, .realization⟩ =>
    simp [line, parts, HierarchyEdge.line, EdgeLine.text, EdgeLine.words]
  | relation ⟨source, target, kind, sourceLabel?, targetLabel?⟩ =>
    cases sourceLabel? <;> cases targetLabel? <;>
      simp [line, parts, Relation.line, Relation.quoted, EdgeLine.text, EdgeLine.words,
        EdgeLine.labelWord]

theorem arrow_inj {k k' : RelationKind} (h : k.arrow = k'.arrow) : k = k' := by
  revert h
  rcases k with _ | ⟨_ | _⟩ | ⟨_ | _⟩ | ⟨_ | _⟩ <;>
    rcases k' with _ | ⟨_ | _⟩ | ⟨_ | _⟩ | ⟨_ | _⟩ <;> decide

theorem arrow_of_relation (k : RelationKind) :
    Bare k.arrow ∧ k.arrow ≠ "<|--" ∧ k.arrow ≠ "..|>" := by
  rcases k with _ | ⟨_ | _⟩ | ⟨_ | _⟩ | ⟨_ | _⟩ <;> decide

/-- The arrow tells the kind of the edge, and the kind tells which end stands on the left. -/
theorem parts_inj {e e' : DiagramEdge} (h : e.parts = e'.parts) : e = e' := by
  match e, e' with
  | hierarchy ⟨child, parent, .inheritance⟩, hierarchy ⟨child', parent', .inheritance⟩ =>
    obtain ⟨rfl, -, -, -, rfl⟩ := EdgeLine.mk.inj h
    rfl
  | hierarchy ⟨child, parent, .realization⟩, hierarchy ⟨child', parent', .realization⟩ =>
    obtain ⟨rfl, -, -, -, rfl⟩ := EdgeLine.mk.inj h
    rfl
  | relation ⟨_, _, _, _, _⟩, relation ⟨_, _, _, _, _⟩ =>
    obtain ⟨hsource, hsourceLabel, harrow, htargetLabel, htarget⟩ := EdgeLine.mk.inj h
    exact congrArg relation <|
      Relation.mk.injEq .. ▸ ⟨hsource, htarget, arrow_inj harrow, hsourceLabel, htargetLabel⟩
  | hierarchy ⟨_, _, .inheritance⟩, hierarchy ⟨_, _, .realization⟩
  | hierarchy ⟨_, _, .realization⟩, hierarchy ⟨_, _, .inheritance⟩ =>
    exact absurd (EdgeLine.mk.inj h).2.2.1 (by decide)
  | hierarchy ⟨_, _, .inheritance⟩, relation r =>
    exact absurd (EdgeLine.mk.inj h).2.2.1.symm (arrow_of_relation r.kind).2.1
  | hierarchy ⟨_, _, .realization⟩, relation r =>
    exact absurd (EdgeLine.mk.inj h).2.2.1.symm (arrow_of_relation r.kind).2.2
  | relation r, hierarchy ⟨_, _, .inheritance⟩ =>
    exact absurd (EdgeLine.mk.inj h).2.2.1 (arrow_of_relation r.kind).2.1
  | relation r, hierarchy ⟨_, _, .realization⟩ =>
    exact absurd (EdgeLine.mk.inj h).2.2.1 (arrow_of_relation r.kind).2.2

theorem eq_of_map_line_eq {es es' : List DiagramEdge} (hes : ∀ e ∈ es, e.parts.Plain)
    (hes' : ∀ e ∈ es', e.parts.Plain) (h : es.map line = es'.map line) : es = es' := by
  induction es generalizing es' with
  | nil => exact (List.map_eq_nil_iff.1 h.symm).symm
  | cons e es ih =>
    obtain ⟨e', es', rfl, hline, hlines⟩ := List.map_eq_cons_iff.1 h.symm
    rw [line_eq_text, line_eq_text] at hline
    have hfirst := (hes' e' List.mem_cons_self).eq_of_text_eq (hes e List.mem_cons_self) hline
    rw [parts_inj hfirst, ih (fun x hx => hes x (List.mem_cons_of_mem _ hx))
      (fun x hx => hes' x (List.mem_cons_of_mem _ hx)) hlines.symm]

end DiagramEdge

/-! ## Diagrams -/

namespace Diagram

/-- Names and multiplicities hold neither white space nor quotes, and members no line feed. -/
structure Legible (settings : Settings) (d : Diagram) : Prop where
  names : ∀ c ∈ d.registry.classifiers.values, Bare c.name
  constants : ∀ c ∈ d.registry.classifiers.values, c.kind = .enumType →
    ∀ constant ∈ c.constants, Bare constant
  members : ∀ c ∈ d.registry.classifiers.values, c.kind ≠ .enumType →
    ∀ member ∈ memberLines settings c, OneLine member
  hierarchy : ∀ e ∈ d.relations.hierarchy, Bare e.child ∧ Bare e.parent
  relations : ∀ r ∈ d.relations.relations, Bare r.source ∧ Bare r.target ∧
    (∀ label ∈ r.sourceLabel?, Bare label) ∧ ∀ label ∈ r.targetLabel?, Bare label

theorem memberLines_of_enum (settings : Settings) {c : Classifier} (h : c.kind = .enumType) :
    memberLines settings c = c.constants := by
  simp [memberLines, h]

theorem lines_eq_map_edges (d : Diagram) : d.relations.lines = d.edges.map DiagramEdge.line := by
  simp [RelationSet.lines, edges, Function.comp_def, DiagramEdge.line]

namespace Legible

variable {settings : Settings} {d : Diagram} (h : d.Legible settings)

include h

theorem plain_edges : ∀ e ∈ d.edges, e.parts.Plain := by
  intro e he
  rcases List.mem_append.1 he with he | he
  · obtain ⟨⟨child, parent, kind⟩, hmem, rfl⟩ := List.mem_map.1 he
    obtain ⟨hchild, hparent⟩ := h.hierarchy _ hmem
    cases kind with
    | inheritance => exact ⟨hparent, nofun, (by decide : Bare "<|--"), nofun, hchild⟩
    | realization => exact ⟨hchild, nofun, (by decide : Bare "..|>"), nofun, hparent⟩
  · obtain ⟨r, hmem, rfl⟩ := List.mem_map.1 he
    obtain ⟨hsource, htarget, hsourceLabel, htargetLabel⟩ := h.relations r hmem
    exact ⟨hsource, hsourceLabel, (DiagramEdge.arrow_of_relation r.kind).1, htargetLabel, htarget⟩

theorem oneLine_lines : ∀ line ∈ lines settings d, OneLine line := by
  rw [oneLine_lines_iff]
  constructor
  · intro c hc
    refine ⟨(h.names c hc).oneLine, ?_⟩
    by_cases hkind : c.kind = .enumType
    · rw [memberLines_of_enum settings hkind]
      exact fun constant hconstant => (h.constants c hc hkind constant hconstant).oneLine
    · exact h.members c hc hkind
  · rw [lines_eq_map_edges]
    intro line hline
    obtain ⟨e, he, rfl⟩ := List.mem_map.1 hline
    rw [DiagramEdge.line_eq_text]
    exact (h.plain_edges e he).oneLine_text

end Legible

/-- Enumerations come first among the blocks, each group in the order of the registry. -/
theorem filter_blockOrder {settings : Settings} {cs cs' : List Classifier}
    (h : (blockOrder cs).map (shown settings) = (blockOrder cs').map (shown settings)) :
    (cs.filter fun c => c.kind == .enumType).map (shown settings) =
        (cs'.filter fun c => c.kind == .enumType).map (shown settings) ∧
      (cs.filter fun c => c.kind != .enumType).map (shown settings) =
        (cs'.filter fun c => c.kind != .enumType).map (shown settings) := by
  have hgroup : ∀ (p : ClassifierKind → Bool),
      ((blockOrder cs).filter fun c => p c.kind).map (shown settings) =
        ((blockOrder cs').filter fun c => p c.kind).map (shown settings) := by
    intro p
    have hfilter := congrArg (List.filter fun s => p s.1) h
    rwa [List.filter_map, List.filter_map] at hfilter
  constructor
  · simpa [blockOrder, bne] using hgroup (· == .enumType)
  · simpa [blockOrder, bne] using hgroup (· != .enumType)

theorem edges_inj {d d' : Diagram} (h : d.edges = d'.edges) :
    d.relations.hierarchy = d'.relations.hierarchy ∧
      d.relations.relations = d'.relations.relations := by
  have hfamily : ∀ {α : Type} (family : DiagramEdge → Option α),
      d.edges.filterMap family = d'.edges.filterMap family := fun family => by rw [h]
  constructor
  · simpa [edges, Function.comp_def] using
      hfamily fun | .hierarchy e => some e | .relation _ => none
  · simpa [edges, Function.comp_def] using
      hfamily fun | .hierarchy _ => none | .relation r => some r

/-- **A document determines the structure of its diagram.** Two diagrams with the same document have
the same enumerations with the same constants, the same other classifiers with the same members, the
same hierarchy and the same relations, all in the same order. -/
theorem structure_eq_of_render_eq (settings : Settings) (d d' : Diagram)
    (hd : d.Legible settings) (hd' : d'.Legible settings)
    (h : d.render settings = d'.render settings) :
    (d.registry.classifiers.values.filter (·.kind == .enumType)).map
        (fun c => (c.name, c.constants)) =
      (d'.registry.classifiers.values.filter (·.kind == .enumType)).map
        (fun c => (c.name, c.constants)) ∧
    (d.registry.classifiers.values.filter (·.kind != .enumType)).map
        (fun c => (c.kind, c.name, memberLines settings c)) =
      (d'.registry.classifiers.values.filter (·.kind != .enumType)).map
        (fun c => (c.kind, c.name, memberLines settings c)) ∧
    d.relations.hierarchy = d'.relations.hierarchy ∧
    d.relations.relations = d'.relations.relations := by
  have hlines := eq_of_unlines_eq hd.oneLine_lines hd'.oneLine_lines h
  simp only [lines, List.append_assoc, List.cons_append, List.nil_append] at hlines
  obtain ⟨hblocks, hbehind⟩ := shown_eq_of_blocks_eq (List.cons.inj hlines).2
  obtain ⟨henums, hothers⟩ := filter_blockOrder hblocks
  have hedges := List.append_cancel_right hbehind
  rw [lines_eq_map_edges, lines_eq_map_edges] at hedges
  have hedges := DiagramEdge.eq_of_map_line_eq hd.plain_edges hd'.plain_edges hedges
  refine ⟨?_, hothers, edges_inj hedges⟩
  have hconstants : ∀ cs : List Classifier,
      (cs.filter (·.kind == .enumType)).map (fun c => (c.name, c.constants)) =
        ((cs.filter (·.kind == .enumType)).map (shown settings)).map Prod.snd := by
    intro cs
    rw [List.map_map]
    apply List.map_congr_left
    intro c hc
    have hkind : c.kind = .enumType := by simpa using (List.mem_filter.1 hc).2
    simp [shown, memberLines_of_enum settings hkind]
  rw [hconstants, henums, ← hconstants]

/-- A shelf of books, and the genres of books. -/
def shelfAndGenres : List (String × Classifier) :=
  [("Shelf", { Classifier.empty "Shelf" .classType with
      attributes := [.declare "books" "List<Book>" .owner]
      interfaces := ["Furniture"] }),
   ("Genre", { Classifier.empty "Genre" .enumType with constants := ["NOVEL", "POEM"] })]

/-- The diagram of classifiers without construction evidence. -/
def ofClassifiers (entries : List (String × Classifier)) : Diagram :=
  ofRegistry .default ⟨⟨entries⟩, .empty⟩

/-- The order in which a class and an enumeration were declared does not show. -/
theorem structure_eq_of_render_eq_shelf :
    (ofClassifiers shelfAndGenres).Legible .default ∧
      (ofClassifiers shelfAndGenres.reverse).Legible .default ∧
      (ofClassifiers shelfAndGenres).registry.names ≠
        (ofClassifiers shelfAndGenres.reverse).registry.names ∧
      (ofClassifiers shelfAndGenres).render .default =
        (ofClassifiers shelfAndGenres.reverse).render .default ∧
      (ofClassifiers shelfAndGenres).relations.relations =
        (ofClassifiers shelfAndGenres.reverse).relations.relations := by
  have hlegible : (ofClassifiers shelfAndGenres).Legible .default := by
    constructor <;> decide +kernel
  have hlegible' : (ofClassifiers shelfAndGenres.reverse).Legible .default := by
    constructor <;> decide +kernel
  have hrender : (ofClassifiers shelfAndGenres).render .default =
      (ofClassifiers shelfAndGenres.reverse).render .default := by
    decide +kernel
  exact ⟨hlegible, hlegible', by decide +kernel, hrender,
    (structure_eq_of_render_eq .default _ _ hlegible hlegible' hrender).2.2.2⟩

end Diagram

end ClassDiagram
