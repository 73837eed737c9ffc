import Mathlib.Data.List.Basic
import ClassDiagram.Proofs.Inference.Pairs
import ClassDiagram.Proofs.Inference.Targets
import ClassDiagram.Proofs.Registry

/-!
# Relating only what is declared

The setting `declaredOnly` drops evidence piece by piece, in every pass, before a relation set sees
it. The result is nevertheless the plain one with the edges to undeclared names left out: dropped
evidence is about pairs that are left out as well, and a pair depends on its own evidence only.

`RelationSet.restrict` leaves out edges. It commutes with every transition
(`RelationSet.restrict_run`), so a whole pass may be restricted piece by piece (`restrict_takeIn`).
-/

namespace ClassDiagram

/-! ## Leaving out edges -/

/-- Whether both names of a pair pass a test. -/
def NamePair.both (p : String → Bool) (pair : NamePair) : Bool := p pair.first && p pair.second

theorem NamePair.both_of (p : String → Bool) (a b : String) :
    (NamePair.of a b).both p = (p a && p b) := by
  unfold of
  split
  · rfl
  · exact Bool.and_comm (p b) (p a)

theorem filter_appendNew {α : Type} [BEq α] [LawfulBEq α] (p : α → Bool) (xs : List α) (x : α) :
    (appendNew xs x).filter p = if p x then appendNew (xs.filter p) x else xs.filter p := by
  unfold appendNew
  cases hp : p x <;> by_cases hx : x ∈ xs <;> simp [hp, hx]

namespace RelationSet

/-- The edges between names that pass a test. -/
def restrict (s : RelationSet) (p : String → Bool) : RelationSet where
  hierarchy := s.hierarchy.filter fun e => p e.child && p e.parent
  edges := s.edges.restrict (NamePair.both p)

variable {s : RelationSet} (p : String → Bool)

theorem get?_restrict (a b : String) :
    (s.restrict p).get? a b = if p a && p b then s.get? a b else none := by
  unfold get? restrict
  rw [OrderedMap.get?_restrict, NamePair.both_of]

/-- The relations of a restricted set are those whose ends pass the test. -/
theorem WF.relations_restrict (h : s.WF) :
    (s.restrict p).relations = s.relations.filter fun r => p r.source && p r.target := by
  unfold restrict relations OrderedMap.restrict OrderedMap.values
  rw [List.filter_map]
  congr 1
  refine List.filter_congr ?_
  rintro ⟨key, r⟩ hmem
  rw [h.keyed key r hmem, NamePair.both_of]
  rfl

/-- A transition shows in a restricted set if it is about a pair of the set, and not otherwise. -/
theorem restrict_run (s : RelationSet) (op : Transition) (owner target : String) :
    (op.run s owner target).2.restrict p =
      if p owner && p target then (op.run (s.restrict p) owner target).2 else s.restrict p := by
  rw [op.run_eq_apply, op.run_eq_apply]
  cases hp : p owner && p target with
  | true =>
    have hget : (s.restrict p).get? owner target = s.get? owner target := by
      rw [get?_restrict, hp, if_pos rfl]
    unfold apply
    rw [hget]
    cases hr : (op.rule owner target (s.get? owner target)).relation? with
    | none => simp only [hr, if_true]
    | some r =>
      simp only [hr, if_true, restrict, OrderedMap.restrict_put, NamePair.both_of, hp]
  | false =>
    rcases s.apply_snd owner target (op.rule owner target) with heq | ⟨r, heq⟩
    · rw [heq]
      rfl
    · rw [heq]
      simp [write, restrict, OrderedMap.restrict_put, NamePair.both_of, hp]

theorem restrict_addHierarchy (s : RelationSet) (e : HierarchyEdge) :
    (s.addHierarchy e).2.restrict p =
      if p e.child && p e.parent then ((s.restrict p).addHierarchy e).2 else s.restrict p := by
  unfold addHierarchy restrict
  rw [filter_appendNew]
  cases p e.child && p e.parent <;> simp

end RelationSet

namespace Inference

open RelationSet

/-! ## Restricted passes -/

/-- The pieces of evidence about names that pass a test. -/
def piecesWithin (p : String → Bool) (pieces : List Piece) : List Piece :=
  pieces.filter fun piece => p piece.1 && p piece.2

/-- A view that only some steps show in may be taken before the steps. -/
theorem foldl_view {σ α : Type} {step : σ → α → σ} (view : σ → σ) (shows : α → Bool)
    (h : ∀ s x, view (step s x) = if shows x then step (view s) x else view s) (xs : List α)
    (s : σ) : view (xs.foldl step s) = (xs.filter shows).foldl step (view s) := by
  induction xs generalizing s with
  | nil => rfl
  | cons x rest ih =>
    rw [List.foldl_cons, ih, h]
    cases hx : shows x with
    | true => rw [List.filter_cons_of_pos hx, List.foldl_cons, if_pos rfl]
    | false => rw [List.filter_cons_of_neg (by simp [hx]), if_neg Bool.false_ne_true]

theorem restrict_takeIn (p : String → Bool) (op : Transition) (pieces : List Piece)
    (s : RelationSet) :
    (takeIn op.run pieces s).restrict p =
      takeIn op.run (piecesWithin p pieces) (s.restrict p) :=
  foldl_view (RelationSet.restrict · p) _ (fun s piece => restrict_run p s op piece.1 piece.2)
    pieces s

/-- What is shared among names outside of a restricted set does not matter to it: it holds no
composition of theirs. -/
theorem takeIn_share_restrict (p : String → Bool) (pieces : List Piece) (s : RelationSet) :
    takeIn Transition.share.run (piecesWithin p pieces) (s.restrict p) =
      takeIn Transition.share.run pieces (s.restrict p) := by
  unfold takeIn piecesWithin
  induction pieces generalizing s with
  | nil => rfl
  | cons piece rest ih =>
    cases hp : p piece.1 && p piece.2 with
    | true =>
      have hstep := restrict_run p s .share piece.1 piece.2
      rw [hp, if_pos rfl] at hstep
      rw [List.filter_cons_of_pos (by exact hp), List.foldl_cons, List.foldl_cons, ← hstep, ih]
    | false =>
      have hnone : (s.restrict p).get? piece.1 piece.2 = none := by
        rw [get?_restrict, hp]
        rfl
      have hstep : (Transition.share.run (s.restrict p) piece.1 piece.2).2 = s.restrict p := by
        rw [Transition.run_eq_apply, apply, hnone]
        rfl
      rw [List.filter_cons_of_neg (by simp [hp]), List.foldl_cons, hstep, ih]

/-! ## Evidence among declared names -/

section Evidence

variable {registry : Registry}

theorem pieces_within {α : Type} {p : String → Bool} {name : String} (hname : p name = true)
    {f g : α → Option String} (hfg : ∀ x, f x = (g x).filter p) (xs : List α) :
    (xs.filterMap f).map (Prod.mk name) =
      piecesWithin p ((xs.filterMap g).map (Prod.mk name)) := by
  unfold piecesWithin
  rw [List.filter_map, List.filter_filterMap]
  congr 1
  refine List.filterMap_congr fun x _ => ?_
  rw [hfg x]
  simp [Function.comp_def, hname]

variable (settings : Settings) (registry)

theorem relatable_declaredOnly (b : Bool) (t : TypeExpr) :
    Relatable { settings with declaredOnly := b } t ↔ Relatable settings t :=
  Iff.rfl

theorem knownTarget?_declaredOnly (t : TypeExpr) :
    knownTarget? { settings with declaredOnly := true } registry t =
      (knownTarget? { settings with declaredOnly := false } registry t).filter
        registry.declares := by
  ext y
  simp only [Option.filter_eq_some_iff, knownTarget?_eq_some_iff, relatable_declaredOnly,
    forall_const, Bool.false_eq_true, false_implies, true_and]
  tauto

variable (c : Classifier)

theorem memberTarget?_declaredOnly (t : TypeExpr) :
    memberTarget? { settings with declaredOnly := true } registry c t =
      (memberTarget? { settings with declaredOnly := false } registry c t).filter
        registry.declares := by
  ext y
  simp only [Option.filter_eq_some_iff, memberTarget?_eq_some_iff, knownTarget?_declaredOnly]
  tauto

theorem referenceTarget?_declaredOnly (a : Attribute) :
    referenceTarget? { settings with declaredOnly := true } registry c a =
      (referenceTarget? { settings with declaredOnly := false } registry c a).filter
        registry.declares := by
  ext y
  simp only [Option.filter_eq_some_iff, referenceTarget?_eq_some_iff, memberTarget?_declaredOnly,
    ← and_assoc, exists_and_right]
  rfl

theorem collectionTarget?_declaredOnly (a : Attribute) :
    collectionTarget? { settings with declaredOnly := true } registry c a =
      (collectionTarget? { settings with declaredOnly := false } registry c a).filter
        registry.declares := by
  ext y
  simp only [Option.filter_eq_some_iff, collectionTarget?_eq_some_iff, memberTarget?_declaredOnly,
    ← and_assoc, exists_and_right]
  rfl

theorem usageTarget?_declaredOnly (p : Parameter) :
    usageTarget? { settings with declaredOnly := true } registry c p =
      (usageTarget? { settings with declaredOnly := false } registry c p).filter
        registry.declares := by
  ext y
  simp only [Option.filter_eq_some_iff, usageTarget?_eq_some_iff, memberTarget?_declaredOnly,
    ← and_assoc, exists_and_right]
  exact and_right_comm

variable {registry} (hwf : registry.WF)

include hwf

theorem hierarchyEvidence_declaredOnly :
    hierarchyEvidence { settings with declaredOnly := true } registry =
      (hierarchyEvidence { settings with declaredOnly := false } registry).filter fun e =>
        registry.declares e.child && registry.declares e.parent := by
  unfold hierarchyEvidence
  rw [List.filter_flatMap]
  refine List.flatMap_congr fun c hc => ?_
  simp only [hierarchyOf, List.filter_filter]
  refine List.filter_congr fun e he => ?_
  have hchild : e.child = c.name := by
    simp only [List.mem_append, List.mem_map] at he
    rcases he with ⟨_, -, rfl⟩ | ⟨_, -, rfl⟩ <;> rfl
  simp [isHierarchyTarget, hchild, hwf.declares_of_mem hc]

/-- What the parts of declared classes lead to, where only declared targets count. -/
theorem memberPieces_within {α : Type} (parts : Classifier → List α)
    {f g : Classifier → α → Option String}
    (hfg : ∀ c x, f c x = (g c x).filter registry.declares) :
    registry.classifiers.values.flatMap (fun c =>
        ((parts c).filterMap (f c)).map (Prod.mk c.name)) =
      piecesWithin registry.declares (registry.classifiers.values.flatMap fun c =>
        ((parts c).filterMap (g c)).map (Prod.mk c.name)) := by
  unfold piecesWithin
  rw [List.filter_flatMap]
  refine List.flatMap_congr fun c hc => ?_
  exact pieces_within (hwf.declares_of_mem hc) (hfg c) (parts c)

theorem referenceEvidence_declaredOnly :
    referenceEvidence { settings with declaredOnly := true } registry =
      piecesWithin registry.declares
        (referenceEvidence { settings with declaredOnly := false } registry) :=
  memberPieces_within hwf Classifier.attributes (referenceTarget?_declaredOnly registry settings)

theorem collectionEvidence_declaredOnly :
    collectionEvidence { settings with declaredOnly := true } registry =
      piecesWithin registry.declares
        (collectionEvidence { settings with declaredOnly := false } registry) :=
  memberPieces_within hwf Classifier.attributes (collectionTarget?_declaredOnly registry settings)

theorem usageEvidence_declaredOnly :
    usageEvidence { settings with declaredOnly := true } registry =
      piecesWithin registry.declares
        (usageEvidence { settings with declaredOnly := false } registry) :=
  memberPieces_within hwf _ (usageTarget?_declaredOnly registry settings)

omit hwf in
theorem creationEvidence_declaredOnly
    (howners : ∀ e ∈ registry.evidence, registry.declares e.owner = true) :
    creationEvidence { settings with declaredOnly := true } registry =
      piecesWithin registry.declares
        (creationEvidence { settings with declaredOnly := false } registry) := by
  unfold creationEvidence piecesWithin
  rw [List.filter_filterMap]
  refine List.filterMap_congr fun e he => ?_
  rw [knownTarget?_declaredOnly]
  cases knownTarget? { settings with declaredOnly := false } registry (.ofName e.constructed) with
  | none => rfl
  | some name => cases hname : registry.declares name <;> simp [Option.filter, howners e he, hname]

/-- With `declaredOnly`, inference arrives at the restriction of what it arrives at without. -/
theorem infer_declaredOnly_eq_restrict
    (howners : ∀ e ∈ registry.evidence, registry.declares e.owner = true) :
    infer { settings with declaredOnly := true } registry =
      (infer { settings with declaredOnly := false } registry).restrict registry.declares := by
  have hhierarchy :
      (hierarchyPass { settings with declaredOnly := false } registry .empty).restrict
          registry.declares =
        hierarchyPass { settings with declaredOnly := true } registry .empty := by
    unfold hierarchyPass
    rw [hierarchyEvidence_declaredOnly settings hwf]
    exact foldl_view (RelationSet.restrict · registry.declares) _
      (restrict_addHierarchy registry.declares) _ .empty
  rw [infer_eq_takeIn, infer_eq_takeIn, restrict_takeIn, restrict_takeIn, takeIn_share_restrict,
    restrict_takeIn, restrict_takeIn, restrict_takeIn, hhierarchy,
    usageEvidence_declaredOnly settings hwf, creationEvidence_declaredOnly settings howners,
    collectionEvidence_declaredOnly settings hwf, referenceEvidence_declaredOnly settings hwf]

end Evidence

/-- **Relating only what is declared is a filter on the result.** If every owner of construction
evidence is declared, the hierarchy and the relations that are inferred with `declaredOnly` are
those inferred without it whose two ends are declared: the same edges in the same order. -/
theorem infer_declaredOnly (settings : Settings) (registry : Registry) (hwf : registry.WF)
    (howners : ∀ e ∈ registry.evidence, registry.declares e.owner = true) :
    let all := infer { settings with declaredOnly := false } registry
    let declared := infer { settings with declaredOnly := true } registry
    declared.hierarchy =
      all.hierarchy.filter (fun e => registry.declares e.child && registry.declares e.parent) ∧
    declared.relations =
      all.relations.filter (fun r => registry.declares r.source && registry.declares r.target) := by
  intro all declared
  have hset : all.WF := wf_infer _ registry
  have hrestrict : declared = all.restrict registry.declares :=
    infer_declaredOnly_eq_restrict settings hwf howners
  rw [hrestrict]
  exact ⟨rfl, hset.relations_restrict registry.declares⟩

/-- An order constructs the items that it lists, and a receipt; orders, items, and gifts, which are
items, are declared, and entities, receipts and clocks are not. -/
def shop : Registry where
  classifiers := ⟨[
    ("Order", { Classifier.empty "Order" .classType with
      parent? := some "Entity"
      attributes := [⟨"items", "List<Item>", some ⟨"List", [.ofName "Item"], 0⟩, .owner⟩]
      methods := [⟨"pay", .everyone, [⟨"clock", "Clock"⟩, ⟨"gift", "Gift"⟩], .regular⟩] }),
    ("Item", { Classifier.empty "Item" .classType with
      attributes := [⟨"order", "Order", some (.ofName "Order"), .owner⟩] }),
    ("Gift", { Classifier.empty "Gift" .classType with parent? := some "Item" })]⟩
  construction := ⟨[("Order", ["Item", "Receipt"])]⟩

theorem wf_shop : shop.WF where
  names_nodup := by decide
  named name c h := by
    simp only [shop, List.mem_cons, Prod.mk.injEq, List.not_mem_nil, or_false] at h
    rcases h with ⟨rfl, rfl⟩ | ⟨rfl, rfl⟩ | ⟨rfl, rfl⟩ <;> rfl
  owners_nodup := by decide
  evidence_nodup owner types h := by
    simp only [shop, List.mem_cons, Prod.mk.injEq, List.not_mem_nil, or_false] at h
    rw [h.2]
    decide

/-- Of the four relations of the shop, the two among declared names stay. -/
theorem infer_declaredOnly_shop :
    let all := infer { Settings.default with declaredOnly := false } shop
    let declared := infer { Settings.default with declaredOnly := true } shop
    declared.hierarchy =
      all.hierarchy.filter (fun e => shop.declares e.child && shop.declares e.parent) ∧
    declared.relations =
      all.relations.filter (fun r => shop.declares r.source && shop.declares r.target) ∧
    all.lines = ["Entity <|-- Order", "Item <|-- Gift", "Order *-- \"0..*\" Item",
      "Order *--> Receipt", "Order ..> Clock", "Order ..> Gift"] ∧
    declared.lines = ["Item <|-- Gift", "Order *-- \"0..*\" Item", "Order ..> Gift"] := by
  have hfilter := infer_declaredOnly .default shop wf_shop (by decide)
  exact ⟨hfilter.1, hfilter.2, by decide +kernel, by decide +kernel⟩

end Inference

end ClassDiagram
