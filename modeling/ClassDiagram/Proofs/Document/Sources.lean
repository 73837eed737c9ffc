import Mathlib.Algebra.GroupWithZero.Nat
import ClassDiagram.Proofs.Diagram.Sources
import ClassDiagram.Proofs.Extraction.OneLine
import ClassDiagram.Proofs.TypeExpr.Written

/-!
# Documents of sources

The document of any sources has the lines of the format, in their order and as many as the diagram
asks for (`Diagram.LineByLine`), if no interface name holds a line feed, and only then. Members,
parents and the ends of relations come from texts on one line. Interfaces do not: a header with
another clause behind its interfaces, on the next line, leads to an interface name with a line feed
in it.
-/

namespace ClassDiagram

open Document

/-! ## Types -/

namespace TypeExpr

theorem IsTypeName.oneLine {name : String} (h : IsTypeName name.toList) : OneLine name :=
  .of_class Text.isTypeNameChar (by decide +kernel) h.chars

theorem WellFormed.oneLine_name {t : TypeExpr} (h : t.WellFormed) : OneLine t.name := by
  cases h with
  | mk hname _ => exact hname.oneLine

theorem oneLine_simpleName {t : TypeExpr} (h : OneLine t.name) : OneLine t.simpleName := by
  apply OneLine.ofList
  intro hmem
  have hqualified := (List.takeWhile_subset _) (List.mem_reverse.1 hmem)
  exact h (List.mem_reverse.1 hqualified)

theorem oneLine_renderDimensions (n : Nat) : OneLine (renderDimensions n) := by
  induction n with
  | zero => decide
  | succ n ih =>
    rw [renderDimensions, oneLine_append]
    exact ⟨by decide, ih⟩

theorem oneLine_renderRest {ts : List TypeExpr} (h : ∀ t ∈ ts, OneLine t.render) :
    OneLine (renderRest ts) := by
  induction ts with
  | nil => exact (by decide : OneLine "")
  | cons t ts ih =>
    obtain ⟨hfirst, hrest⟩ := List.forall_mem_cons.1 h
    simp only [renderRest, oneLine_append, and_assoc]
    exact ⟨by decide, hfirst, ih hrest⟩

theorem oneLine_render_argument {t : TypeExpr} (h : t ≠ wildcard → OneLine t.render) :
    OneLine t.render := by
  by_cases ht : t = wildcard
  · rw [ht]
    decide
  · exact h ht

theorem WellFormed.oneLine_render {t : TypeExpr} (h : t.WellFormed) : OneLine t.render := by
  induction h with
  | @mk name arguments dimensions hname _ ih =>
    have hdimensions := oneLine_renderDimensions dimensions
    cases arguments with
    | nil =>
      rw [render, oneLine_append]
      exact ⟨hname.oneLine, hdimensions⟩
    | cons first rest =>
      have hrendered : ∀ t ∈ first :: rest, OneLine t.render := fun t ht =>
        oneLine_render_argument (ih t ht)
      obtain ⟨hfirst, hrest⟩ := List.forall_mem_cons.1 hrendered
      simp only [render, oneLine_append, and_assoc]
      exact ⟨hname.oneLine, by decide, hfirst, oneLine_renderRest hrest, by decide, hdimensions⟩

theorem WellFormed.of_element? {t u : TypeExpr} (h : t.WellFormed) (hu : t.element? = some u)
    (hne : u ≠ wildcard) : u.WellFormed := by
  cases h with
  | mk _ harguments => exact harguments u (List.mem_of_mem_head? hu) hne

end TypeExpr

/-! ## Members -/

theorem Attribute.oneLine_typeText (settings : Settings) {a : Attribute}
    (hwritten : OneLine a.declaredType) (hread : a.type? = TypeExpr.read? a.declaredType) :
    OneLine (typeText settings a) := by
  unfold typeText
  split
  next => exact hwritten
  next t ht =>
    have hwf : t.WellFormed := .of_read? (hread.symm.trans ht)
    split
    · split
      next element helement =>
        rw [oneLine_append]
        refine ⟨TypeExpr.oneLine_render_argument fun hne => ?_, by decide⟩
        exact (hwf.of_element? helement hne).oneLine_render
      next => exact hwritten
    · exact hwf.oneLine_render

theorem Visibility.oneLine_symbol (v : Visibility) : OneLine v.symbol.toString := by
  cases v <;> decide

theorem Classifier.Unbroken.oneLine_memberLines {c : Classifier} (h : c.Unbroken)
    (settings : Settings) : ∀ member ∈ memberLines settings c, OneLine member := by
  have hattribute : ∀ a ∈ c.attributes, OneLine (attributeLine settings a) := by
    intro a ha
    obtain ⟨hname, hwritten, hread⟩ := h.attributes a ha
    have htype := a.oneLine_typeText settings hwritten hread
    simp only [attributeLine, oneLine_append, and_assoc]
    exact ⟨Visibility.oneLine_symbol _, hname, by decide, htype⟩
  have hmethod : ∀ kind, ∀ m ∈ c.methods, OneLine (methodLine kind m) := by
    intro kind m hm
    obtain ⟨hname, hparameters⟩ := h.methods m hm
    have hlist : ∀ text ∈ m.parameters.map (fun p => p.type ++ " " ++ p.name), OneLine text := by
      intro text htext
      obtain ⟨p, hp, rfl⟩ := List.mem_map.1 htext
      simp only [oneLine_append, and_assoc]
      exact ⟨(hparameters p hp).2, by decide, (hparameters p hp).1⟩
    simp only [methodLine, oneLine_append, and_assoc]
    exact ⟨Visibility.oneLine_symbol _, hname, by decide, oneLine_intercalate (by decide) hlist,
      by decide⟩
  unfold memberLines
  split
  next => exact h.constants
  next =>
    simp only [List.forall_mem_append, List.forall_mem_map]
    exact ⟨hattribute, hmethod _⟩

/-! ## Relations -/

namespace Inference

variable {settings : Settings} {registry : Registry}

/-- The target of a type that was read. -/
theorem oneLine_target {text : String} {t u : TypeExpr} {c : Classifier} {y : String}
    (ht : TypeExpr.read? text = some t) (hu : subject? settings t = some u)
    (hy : memberTarget? settings registry c u = some y) : OneLine y := by
  obtain ⟨hrelatable, -, rfl⟩ := knownTarget?_eq_some_iff.1 (memberTarget?_eq_some_iff.1 hy).1
  have hne : u ≠ .wildcard := by
    rintro rfl
    exact Bool.noConfusion hrelatable.1
  have hwf : t.WellFormed := .of_read? ht
  apply TypeExpr.oneLine_simpleName
  unfold subject? at hu
  split at hu
  · exact (hwf.of_element? hu hne).oneLine_name
  · cases hu
    exact hwf.oneLine_name

theorem oneLine_ends (h : registry.Unbroken) (hr : registry.Extracted) {r : Relation}
    (hmem : r ∈ (infer settings registry).relations) : OneLine r.source ∧ OneLine r.target := by
  have hclassifier : ∀ x c, registry.classifier? x = some c → c.Unbroken ∧ OneLine x := by
    intro x c hc
    obtain ⟨hvalue, rfl⟩ := hr.classifier?_eq_some_iff.1 hc
    exact ⟨h.classifiers c hvalue, (h.classifiers c hvalue).name⟩
  have hconstructs : ∀ x y, Constructs settings registry x y → OneLine x ∧ OneLine y := by
    rintro x y ⟨htypes, -⟩
    exact h.evidence ⟨x, y⟩ (hr.mem_evidence_iff.2 htypes)
  have hrefers : ∀ x y, Refers settings registry x y → OneLine x ∧ OneLine y := by
    rintro x y ⟨c, hc, a, ha, t, u, ht, hu, hy⟩
    obtain ⟨hunbroken, hx⟩ := hclassifier x c hc
    exact ⟨hx, oneLine_target ((hunbroken.attributes a ha).2.2.symm.trans ht) hu hy⟩
  have huses : ∀ x y, Uses settings registry x y → OneLine x ∧ OneLine y := by
    rintro x y ⟨c, hc, m, -, -, p, -, ⟨t, u, ht, hu, hy⟩, -⟩
    exact ⟨(hclassifier x c hc).2, oneLine_target ht hu hy⟩
  have hget : (infer settings registry).get? r.source r.target ≠ none := by
    rw [(wf_infer settings registry).get?_eq_some_iff.2 ⟨hmem, rfl⟩]
    nofun
  simp only [get?_infer_ne_none_iff settings hr.toWF hr.simple_names, NamePair.between_of] at hget
  rcases hget with (hxy | hyx) | (hxy | hyx) | hxy | hyx
  · exact hconstructs _ _ hxy
  · exact (hconstructs _ _ hyx).symm
  · exact hrefers _ _ hxy
  · exact (hrefers _ _ hyx).symm
  · exact huses _ _ hxy
  · exact (huses _ _ hyx).symm

end Inference

theorem Relation.WellShaped.oneLine_line {r : Relation} (h : r.WellShaped)
    (hsource : OneLine r.source) (htarget : OneLine r.target) : OneLine r.line := by
  have hquoted : ∀ label?, (∀ label, label? = some label → label = Evidence.many) →
      OneLine (quoted label?) := by
    intro label? hlabel
    rcases label_cases hlabel with rfl | rfl <;> decide
  have harrow : OneLine r.kind.arrow := by
    rcases r.kind with _ | ⟨_ | _⟩ | ⟨_ | _⟩ | ⟨_ | _⟩ <;> decide
  simp only [line, oneLine_append, and_assoc]
  exact ⟨hsource, hquoted _ h.source_label, by decide, harrow, hquoted _ h.target_label, by decide,
    htarget⟩

/-! ## Hierarchy -/

theorem HierarchyEdge.oneLine_line_iff {e : HierarchyEdge} :
    OneLine e.line ↔ OneLine e.child ∧ OneLine e.parent := by
  have hinheritance : OneLine " <|-- " := by decide
  have hrealization : OneLine " ..|> " := by decide
  unfold line
  split
  · simp [hinheritance, and_comm]
  · simp [hrealization]

/-- Only the interface of a realization may hold a line feed. -/
theorem Registry.Unbroken.hierarchyEvidence {settings : Settings} {registry : Registry}
    (h : registry.Unbroken) {e : HierarchyEdge}
    (he : e ∈ Inference.hierarchyEvidence settings registry) :
    OneLine e.child ∧ (e.kind = .inheritance → OneLine e.parent) := by
  obtain ⟨c, hc, hmem⟩ := List.mem_flatMap.1 he
  have hc := h.classifiers c hc
  rcases List.mem_append.1 (List.mem_filter.1 hmem).1 with hparent | hinterface
  · obtain ⟨parent, hsome, rfl⟩ := List.mem_map.1 hparent
    exact ⟨hc.name, fun _ => hc.parent parent (Option.mem_toList.1 hsome)⟩
  · obtain ⟨name, -, rfl⟩ := List.mem_map.1 hinterface
    exact ⟨hc.name, nofun⟩

/-! ## Line by line -/

namespace Diagram

/-- The number of members in the block of a classifier. -/
def memberCount (c : Classifier) : Nat :=
  match c.kind with
  | .enumType => c.constants.length
  | _ => c.attributes.length + c.methods.length

/-- The document, cut at its line feeds, has the lines of the format and no others: the markers at
the two ends, a block for each enumeration and then for each other classifier, an empty line, and a
line for each hierarchy edge and each relation. -/
structure LineByLine (settings : Settings) (d : Diagram) : Prop where
  lines : (d.render settings).toList.splitOn '\n' =
    (["@startuml"] ++
      (d.registry.classifiers.values.filter (·.kind == .enumType)).flatMap (blockLines settings) ++
      (d.registry.classifiers.values.filter (·.kind != .enumType)).flatMap (blockLines settings) ++
      [""] ++ d.relations.hierarchy.map HierarchyEdge.line ++
      d.relations.relations.map Relation.line ++ ["@enduml"]).map String.toList ++ [[]]
  count : (d.render settings).toList.count '\n' =
    3 + (d.registry.classifiers.values.map fun c => 2 + memberCount c).sum +
      d.relations.hierarchy.length + d.relations.relations.length

theorem length_blockLines (settings : Settings) (c : Classifier) :
    (blockLines settings c).length = 2 + memberCount c := by
  cases hkind : c.kind <;> simp [blockLines, memberLines, memberCount, hkind] <;> omega

theorem length_lines (settings : Settings) (d : Diagram) :
    (Document.lines settings d).length =
      3 + (d.registry.classifiers.values.map fun c => 2 + memberCount c).sum +
        d.relations.hierarchy.length + d.relations.relations.length := by
  have hblocks : ∀ cs : List Classifier, ((blockOrder cs).flatMap (blockLines settings)).length =
      (cs.map fun c => 2 + memberCount c).sum := by
    intro cs
    induction cs with
    | nil => rfl
    | cons c cs ih =>
      by_cases hkind : c.kind = .enumType <;>
        simp [blockOrder, hkind, length_blockLines] at ih ⊢ <;> omega
  simp [Document.lines, RelationSet.lines, hblocks]
  omega

theorem lineByLine_iff {settings : Settings} {d : Diagram} :
    d.LineByLine settings ↔ ∀ line ∈ Document.lines settings d, OneLine line := by
  have hlines : Document.lines settings d = ["@startuml"] ++
      (d.registry.classifiers.values.filter (·.kind == .enumType)).flatMap (blockLines settings) ++
      (d.registry.classifiers.values.filter (·.kind != .enumType)).flatMap (blockLines settings) ++
      [""] ++ d.relations.hierarchy.map HierarchyEdge.line ++
      d.relations.relations.map Relation.line ++ ["@enduml"] := by
    simp [Document.lines, blockOrder, RelationSet.lines]
  have hsplit : (d.render settings).toList.splitOn '\n' =
        (Document.lines settings d).map String.toList ++ [[]] ↔
      ∀ line ∈ Document.lines settings d, OneLine line := splitOn_unlines_iff _
  constructor
  · intro h
    exact hsplit.1 (hlines ▸ h.lines)
  · intro h
    refine ⟨hlines ▸ hsplit.2 h, ?_⟩
    rw [← length_lines settings d]
    exact count_unlines h

/-- **The lines of a document.** Any sources lead to a diagram, and its document has the lines of
the format unless the interface name of a realization holds a line feed. -/
theorem lineByLine_iff_realizations (settings : Settings) (hvalid : settings.validate = .ok ())
    (units : List SourceUnit) :
    ∃ d, build settings (.ok units) = .ok d ∧
      (d.LineByLine settings ↔
        ∀ e ∈ d.relations.hierarchy, e.kind = .realization → '\n' ∉ e.parent.toList) := by
  refine ⟨_, build_of_valid hvalid units, ?_⟩
  have hregistry := Registry.unbroken_ofSources settings (units.map SourceUnit.text)
  have hextracted := Registry.extracted_ofSources settings (units.map SourceUnit.text)
  rw [lineByLine_iff, oneLine_lines_iff, RelationSet.lines, List.forall_mem_append,
    List.forall_mem_map, List.forall_mem_map]
  constructor
  · rintro ⟨-, hhierarchy, -⟩ e he -
    exact (HierarchyEdge.oneLine_line_iff.1 (hhierarchy e he)).2
  · intro hinterfaces
    refine ⟨?_, ?_, ?_⟩
    · intro c hc
      have hc := hregistry.classifiers c hc
      exact ⟨hc.name, hc.oneLine_memberLines settings⟩
    · intro e he
      obtain ⟨hchild, hparent⟩ := hregistry.hierarchyEvidence (Inference.mem_hierarchy_infer.1 he)
      rw [HierarchyEdge.oneLine_line_iff]
      cases hkind : e.kind with
      | inheritance => exact ⟨hchild, hparent hkind⟩
      | realization => exact ⟨hchild, hinterfaces e he hkind⟩
    · intro r hr
      obtain ⟨hsource, htarget⟩ := Inference.oneLine_ends hregistry hextracted hr
      exact ((Inference.wf_infer settings _).shaped r hr).oneLine_line hsource htarget

/-- A class that says on three lines what it extends and implements. -/
def shelfSource : SourceUnit :=
  ⟨"Shelf.java",
    "class Shelf\n extends Furniture\n implements Stored,\n Movable \x7b\n List<Book> books;\n\x7d"⟩

/-- Line feeds around the names of a header do not show. -/
theorem lineByLine_iff_realizations_shelf :
    ∃ d, build .default (.ok [shelfSource]) = .ok d ∧ d.LineByLine .default ∧
      d.relations.hierarchy.map HierarchyEdge.line =
        ["Furniture <|-- Shelf", "Shelf ..|> Stored", "Shelf ..|> Movable"] := by
  have hvalid : Settings.default.validate = .ok () := by decide +kernel
  obtain ⟨d, hd, hlines⟩ := lineByLine_iff_realizations .default hvalid [shelfSource]
  have hhierarchy : d.relations.hierarchy =
      [⟨"Shelf", "Furniture", .inheritance⟩, ⟨"Shelf", "Stored", .realization⟩,
        ⟨"Shelf", "Movable", .realization⟩] := by
    rw [Except.ok.inj (hd.symm.trans (build_of_valid hvalid [shelfSource]))]
    decide +kernel
  refine ⟨d, hd, hlines.2 ?_, ?_⟩
  · rw [hhierarchy]
    decide +kernel
  · rw [hhierarchy]
    decide +kernel

/-- A class with another clause behind the interfaces, on a line of its own. -/
def sealedSource : SourceUnit :=
  ⟨"Shape.java",
    "public sealed class Shape implements Drawable\n    permits Circle \x7b\n\x7d\n"⟩

/-- The clause behind the interfaces is taken for a part of the last name, and the line feed in
front of it cuts the line of the realization: the document has seven lines, not six. -/
theorem not_lineByLine_sealed :
    ∃ d, build .default (.ok [sealedSource]) = .ok d ∧ ¬ d.LineByLine .default ∧
      d.relations.lines = ["Shape ..|> Drawable\n    permits Circle"] := by
  have hvalid : Settings.default.validate = .ok () := by decide +kernel
  refine ⟨_, build_of_valid hvalid [sealedSource], ?_, by decide +kernel⟩
  intro h
  exact absurd h.count (by decide +kernel)

end Diagram

end ClassDiagram
