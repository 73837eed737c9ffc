import ClassDiagram.Proofs.Inference.Edges
import ClassDiagram.Proofs.TypeExpr.Written

/-!
# Parameters and the pairs they mention

A parameter mentions a type. The last pass lets a mention go when a field has a type of that name,
on the grounds that the field relates the pair already. But it looks at the simple name of the
field's type only, and the passes over the fields want more: an array, a type with arguments or a
type that is built in under its qualified name is no target for them. `NamedOnly` is what falls in
between, and `mention_unrelated_iff` says that nothing else does.

Every pass but the one about shared constructions leaves a relation at the pairs it has evidence
about, and no pass takes one away, so a pair is without a relation exactly if there is no evidence
about it (`get?_infer_eq_none_iff`).
-/

namespace ClassDiagram.Inference

open NamePair

/-! ## Pairs without evidence -/

section Unrelated

variable {pair : NamePair}

theorem settle_eq_none_iff (op : Transition) {current? : Option Relation} {piece : Piece} :
    settle op pair current? piece = none ↔
      current? = none ∧ (op = .share ∨ NamePair.of piece.1 piece.2 ≠ pair) := by
  unfold settle
  by_cases hpair : NamePair.of piece.1 piece.2 = pair
  · rw [if_pos hpair]
    cases current? with
    | some r => simp
    | none => cases op <;> simp [hpair, Transition.rule, Evidence.reference, Evidence.collection,
        Evidence.creation, Evidence.sharing, Evidence.usage, Evidence.write, Evidence.keep]
  · simp [hpair]

theorem foldl_settle_eq_none_iff (op : Transition) (pieces : List Piece)
    {current? : Option Relation} :
    pieces.foldl (settle op pair) current? = none ↔
      current? = none ∧ (op = .share ∨ ∀ piece ∈ pieces, NamePair.of piece.1 piece.2 ≠ pair) := by
  induction pieces generalizing current? with
  | nil => simp
  | cons piece rest ih =>
    rw [List.foldl_cons, ih, settle_eq_none_iff, List.forall_mem_cons, or_and_left, and_assoc]

theorem forall_ne_iff_not_between {pieces : List Piece} {P : String → String → Prop}
    (h : ∀ {x y}, (x, y) ∈ pieces ↔ P x y) :
    (∀ piece ∈ pieces, NamePair.of piece.1 piece.2 ≠ pair) ↔ ¬ Between P pair := by
  constructor
  · rintro hne ⟨x, y, hxy, hP⟩
    exact hne (x, y) (h.2 hP) hxy
  · rintro hnone ⟨x, y⟩ hmem hxy
    exact hnone ⟨x, y, hxy, h.1 hmem⟩

end Unrelated

section Registry

variable (settings : Settings) (registry : Registry)

/-- The owner `x` constructs a type, however qualified, whose simple name is the target `y`. -/
def Creates (x y : String) : Prop :=
  ∃ types, registry.constructedBy? x = some types ∧ ∃ name ∈ types,
    knownTarget? settings registry (.ofName name) = some y

/-- The types that the fields of a class are about. -/
def heldTypes (c : Classifier) : List TypeExpr :=
  c.attributes.filterMap fun a => a.type?.bind (subject? settings)

/-- A parameter of the class is about the target `y`; constructors do not count. -/
def Mentions (c : Classifier) (y : String) : Prop :=
  ∃ m ∈ c.methods, m.role ≠ .constructor ∧ ∃ p ∈ m.parameters, ∃ t u,
    TypeExpr.read? p.type = some t ∧ subject? settings t = some u ∧
      memberTarget? settings registry c u = some y

/-- Fields of the class are about types with the simple name `y`, but only about such as no field
is related by: arrays, types with arguments, and types that are built in under their full name. -/
def NamedOnly (c : Classifier) (y : String) : Prop :=
  (∃ u ∈ heldTypes settings c, u.simpleName = y) ∧
    ∀ u ∈ heldTypes settings c, u.simpleName = y →
      u.isArray = true ∨ u.isParameterized = true ∨ settings.isBuiltin u.name = true

end Registry

section Evidence

variable {settings : Settings} {registry : Registry}

theorem mem_creationEvidence_iff_creates (hwf : registry.WF) {x y : String} :
    (x, y) ∈ creationEvidence settings registry ↔ Creates settings registry x y := by
  unfold creationEvidence Creates
  simp only [List.mem_filterMap, Option.map_eq_some_iff, Prod.mk.injEq]
  constructor
  · rintro ⟨⟨owner, name⟩, hmem, y', hknown, rfl, rfl⟩
    obtain ⟨types, htypes, hname⟩ := hwf.mem_evidence_iff.1 hmem
    exact ⟨types, htypes, name, hname, hknown⟩
  · rintro ⟨types, htypes, name, hname, hknown⟩
    exact ⟨⟨x, name⟩, hwf.mem_evidence_iff.2 ⟨types, htypes, hname⟩, y, hknown, rfl, rfl⟩

/-- The pairs without a relation. -/
theorem get?_infer_eq_none_iff (hwf : registry.WF) (a b : String) :
    (infer settings registry).get? a b = none ↔
      ¬ Between (Refers settings registry) (.of a b) ∧
        ¬ Between (Creates settings registry) (.of a b) ∧
          ¬ Between (Uses settings registry) (.of a b) := by
  have hfields : (∀ piece ∈ referenceEvidence settings registry ++
        collectionEvidence settings registry, NamePair.of piece.1 piece.2 ≠ .of a b) ↔
      ¬ Between (Refers settings registry) (.of a b) :=
    forall_ne_iff_not_between (List.mem_append.trans (refers_iff hwf).symm)
  rw [← hfields, ← forall_ne_iff_not_between (mem_creationEvidence_iff_creates hwf),
    ← forall_ne_iff_not_between (mem_usageEvidence_iff hwf), get?_infer, foldl_settle_eq_none_iff,
    foldl_settle_eq_none_iff, foldl_settle_eq_none_iff, foldl_settle_eq_none_iff,
    foldl_settle_eq_none_iff, List.forall_mem_append]
  simp only [reduceCtorEq, false_or, true_or, true_and, and_true, and_assoc]

/-! ## What fields hold -/

theorem mem_heldTypes_iff {c : Classifier} {u : TypeExpr} :
    u ∈ heldTypes settings c ↔
      ∃ a ∈ c.attributes, ∃ t, a.type? = some t ∧ subject? settings t = some u := by
  simp only [heldTypes, List.mem_filterMap, Option.bind_eq_some_iff]

theorem refers_iff_held {x y : String} {c : Classifier} (hc : registry.classifier? x = some c) :
    Refers settings registry x y ↔
      ∃ u ∈ heldTypes settings c, memberTarget? settings registry c u = some y := by
  simp only [Refers, mem_heldTypes_iff, hc, Option.some.injEq, exists_eq_left']
  constructor
  · rintro ⟨a, ha, t, u, ht, hu, hy⟩
    exact ⟨u, ⟨a, ha, t, ht, hu⟩, hy⟩
  · rintro ⟨u, ⟨a, ha, t, ht, hu⟩, hy⟩
    exact ⟨a, ha, t, u, ht, hu, hy⟩

theorem uses_iff_mentions {x y : String} {c : Classifier} (hc : registry.classifier? x = some c) :
    Uses settings registry x y ↔
      Mentions settings registry c y ∧ ¬ ∃ u ∈ heldTypes settings c, u.simpleName = y := by
  simp only [Uses, Mentions, mem_heldTypes_iff, hc, Option.some.injEq, exists_eq_left']
  constructor
  · rintro ⟨m, hm, hrole, p, hp, hy, hheld⟩
    refine ⟨⟨m, hm, hrole, p, hp, hy⟩, ?_⟩
    rintro ⟨u, ⟨a, ha, t, ht, hu⟩, hname⟩
    exact hheld a ha t u ht hu hname
  · rintro ⟨⟨m, hm, hrole, p, hp, hy⟩, hheld⟩
    refine ⟨m, hm, hrole, p, hp, hy, fun a ha t u ht hu hname => ?_⟩
    exact hheld ⟨u, ⟨a, ha, t, ht, hu⟩, hname⟩

/-! ## Targets by their name -/

theorem mem_of_mem_lastSegment {name : String} {d : Char}
    (h : d ∈ (TypeExpr.lastSegment name).toList) : d ∈ name.toList := by
  rw [TypeExpr.lastSegment, String.toList_ofList, List.mem_reverse] at h
  exact List.mem_reverse.1 (List.takeWhile_subset _ h)

/-- A type that can be read is not called like the wildcard, also not behind a qualifier. -/
theorem simpleName_ne_of_wellFormed {u : TypeExpr} (hu : u.WellFormed) : u.simpleName ≠ "?" := by
  obtain ⟨hname, -⟩ := hu
  intro hmark
  have hmem : '?' ∈ "?".toList := by decide
  rw [← hmark] at hmem
  exact absurd (hname.chars '?' (mem_of_mem_lastSegment hmem)) (by decide +kernel)

theorem Mentions.ne_wildcard {c : Classifier} {y : String} (h : Mentions settings registry c y) :
    y ≠ "?" := by
  obtain ⟨-, -, -, p, -, t, u, hread, hsubject, hy⟩ := h
  obtain ⟨⟨hshape, -⟩, -, rfl⟩ := knownTarget?_eq_some_iff.1 (memberTarget?_eq_some_iff.1 hy).1
  have ht := TypeExpr.WellFormed.of_read? hread
  apply simpleName_ne_of_wellFormed
  unfold subject? at hsubject
  split at hsubject
  next =>
    obtain ⟨-, harguments⟩ := ht
    refine harguments u (List.mem_of_mem_head? hsubject) ?_
    rintro rfl
    exact absurd hshape (by decide)
  next => exact Option.some.inj hsubject ▸ ht

/-- Of the types with the simple name of a target, those are targets too that have the right form
and are not built in under their full name. -/
theorem memberTarget?_iff_of_simpleName {c : Classifier} {y : String}
    (h : Mentions settings registry c y) {u : TypeExpr} (hu : u.simpleName = y) :
    memberTarget? settings registry c u = some y ↔
      ¬ (u.isArray = true ∨ u.isParameterized = true ∨ settings.isBuiltin u.name = true) := by
  have hmark := h.ne_wildcard
  obtain ⟨-, -, -, p, -, t, v, -, -, hv⟩ := h
  obtain ⟨hknown, hparameter⟩ := memberTarget?_eq_some_iff.1 hv
  obtain ⟨⟨-, hname⟩, hdeclared, hsimple⟩ := knownTarget?_eq_some_iff.1 hknown
  have hwildcard : u.isWildcard = false := by
    rw [Bool.eq_false_iff]
    intro hw
    rw [← hu, TypeExpr.simpleName, eq_of_beq hw] at hmark
    exact hmark (by decide)
  rw [hsimple] at hname
  simp only [Bool.or_eq_false_iff] at hname
  simp only [memberTarget?_eq_some_iff, knownTarget?_eq_some_iff, Relatable, hu, hparameter,
    hwildcard, hname.1, Bool.false_or, Bool.or_eq_false_iff, and_true, not_or,
    Bool.not_eq_true]
  rw [and_iff_left hdeclared, and_assoc]

end Evidence

/-- **When a mention leaves its pair unrelated.** Where a parameter of a class is about a target,
the two are without a relation exactly if fields of the class go by the name of the target, all of
them arrays, types with arguments or types that are built in under their full name, and nothing else
relates the pair: the target does not refer to the class or use it, and neither constructs the
other. -/
theorem mention_unrelated_iff (settings : Settings) (registry : Registry) (hwf : registry.WF)
    {x y : String} {c : Classifier} (hc : registry.classifier? x = some c)
    (h : Mentions settings registry c y) :
    (infer settings registry).get? x y = none ↔
      NamedOnly settings c y ∧ ¬ Refers settings registry y x ∧ ¬ Uses settings registry y x ∧
        ¬ Between (Creates settings registry) (.of x y) := by
  have huses : ¬ Uses settings registry x y ↔ ∃ u ∈ heldTypes settings c, u.simpleName = y := by
    rw [uses_iff_mentions hc, and_iff_right h, not_not]
  have hrefers : ¬ Refers settings registry x y ↔
      ∀ u ∈ heldTypes settings c, u.simpleName = y →
        u.isArray = true ∨ u.isParameterized = true ∨ settings.isBuiltin u.name = true := by
    rw [refers_iff_held hc]
    constructor
    · intro hnone u hu hname
      by_contra hplain
      exact hnone ⟨u, hu, (memberTarget?_iff_of_simpleName h hname).2 hplain⟩
    · rintro hall ⟨u, hu, hy⟩
      have hname := (knownTarget?_eq_some_iff.1 (memberTarget?_eq_some_iff.1 hy).1).2.2
      exact (memberTarget?_iff_of_simpleName h hname).1 hy (hall u hu hname)
  rw [get?_infer_eq_none_iff hwf, between_of (P := Refers settings registry),
    between_of (P := Uses settings registry), not_or, not_or, huses, hrefers, NamedOnly]
  constructor
  · rintro ⟨⟨hfields, hback⟩, hcreates, hheld, huse⟩
    exact ⟨⟨hheld, hfields⟩, hback, huse, hcreates⟩
  · rintro ⟨⟨hheld, hfields⟩, hback, huse, hcreates⟩
    exact ⟨⟨hfields, hback⟩, hcreates, hheld, huse⟩

/-- A class with an array of cars, which takes cars one by one. -/
def garageClass : Classifier :=
  { Classifier.empty "Garage" .classType with
    attributes := [⟨"cars", "Car[]", some ⟨"Car", [], 1⟩, .owner⟩]
    methods := [⟨"park", .everyone, [⟨"car", "Car"⟩], .regular⟩] }

def garage : Registry := ⟨⟨[("Garage", garageClass)]⟩, .empty⟩

theorem wf_garage : garage.WF where
  names_nodup := by decide
  named name c h := by
    obtain ⟨rfl, rfl⟩ := Prod.mk.inj (List.mem_singleton.1 h)
    rfl
  owners_nodup := List.nodup_nil
  evidence_nodup _ _ h := by cases h

theorem mentions_garage : Mentions .default garage garageClass "Car" := by
  have hname : (TypeExpr.ofName "Car").WellFormed :=
    .mk ⟨by decide, List.all_eq_true.1 (by decide +kernel)⟩ (by simp)
  refine ⟨_, List.mem_singleton.2 rfl, by decide, _, List.mem_singleton.2 rfl, .ofName "Car",
    .ofName "Car", TypeExpr.read?_of_derives ?_, if_neg (by decide), by decide⟩
  exact hname.derives_text

/-- The array keeps the parameter from relating the pair and does not relate it itself. -/
theorem mention_unrelated_iff_garage :
    Mentions .default garage garageClass "Car" ∧ NamedOnly .default garageClass "Car" ∧
      (infer .default garage).get? "Garage" "Car" = none := by
  have hclass : garage.classifier? "Garage" = some garageClass := rfl
  have hget : (infer .default garage).get? "Garage" "Car" = none := by decide +kernel
  have hiff := mention_unrelated_iff .default garage wf_garage hclass mentions_garage
  exact ⟨mentions_garage, (hiff.1 hget).1, hget⟩

/-- A parameter may leave its pair without any relation. -/
theorem not_related_of_mention_garage :
    ¬ ∀ (settings : Settings) (registry : Registry), registry.WF → ∀ x c y,
      registry.classifier? x = some c → Mentions settings registry c y →
        (infer settings registry).get? x y ≠ none := by
  intro hrelated
  exact hrelated .default garage wf_garage "Garage" garageClass "Car" rfl mentions_garage
    (by decide +kernel)

end ClassDiagram.Inference
