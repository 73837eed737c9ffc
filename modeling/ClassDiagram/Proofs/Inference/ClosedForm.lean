import Mathlib.Data.List.TakeWhile
import ClassDiagram.Proofs.Inference.Pairs
import ClassDiagram.Proofs.Inference.Targets
import ClassDiagram.Proofs.Registry

/-!
# What inference says of a pair, in closed form

Three relations are read directly off a registry: a class refers to a name by a field (`Refers`),
holds a collection of it (`Collects`), or an owner constructs it (`Constructs`). The ownership and
association edges that the passes arrive at, in whatever order the evidence came, are determined by
these three relations, by the order of the owners, and by how many owners construct a type.
-/

namespace ClassDiagram.Inference

section Evidence

variable (settings : Settings) (registry : Registry)

/-- The class `x` has a field whose type, or whose container's element type, is the target `y`. -/
def Refers (x y : String) : Prop :=
  ∃ c, registry.classifier? x = some c ∧ ∃ a ∈ c.attributes, ∃ t u,
    a.type? = some t ∧ subject? settings t = some u ∧
      memberTarget? settings registry c u = some y

/-- The class `x` has a field that is a container of the target `y`. -/
def Collects (x y : String) : Prop :=
  ∃ c, registry.classifier? x = some c ∧ ∃ a ∈ c.attributes, ∃ t u,
    a.type? = some t ∧ isContainer settings t = true ∧ t.element? = some u ∧
      memberTarget? settings registry c u = some y

/-- The owner `x` constructs `y`, which may be related to. -/
def Constructs (x y : String) : Prop :=
  (∃ types, registry.constructedBy? x = some types ∧ y ∈ types) ∧
    knownTarget? settings registry (.ofName y) = some y

end Evidence

/-! ## The evidence of the passes -/

section Membership

variable {settings : Settings} {registry : Registry}

theorem target_eq_some_iff {c : Classifier} {a : Attribute} {y : String} :
    referenceTarget? settings registry c a = some y ∨
        collectionTarget? settings registry c a = some y ↔
      ∃ t u, a.type? = some t ∧ subject? settings t = some u ∧
        memberTarget? settings registry c u = some y := by
  unfold referenceTarget? collectionTarget? subject?
  cases ht : a.type? with
  | none => simp
  | some t =>
    cases hc : isContainer settings t with
    | false => simp [hc]
    | true => simp [hc, Option.bind_eq_some_iff]

theorem mem_fieldEvidence_iff (hwf : registry.WF) {target? : Classifier → Attribute → Option String}
    {x y : String} :
    (x, y) ∈ registry.classifiers.values.flatMap (fun c =>
        (c.attributes.filterMap (target? c)).map (Prod.mk c.name)) ↔
      ∃ c, registry.classifier? x = some c ∧ ∃ a ∈ c.attributes, target? c a = some y := by
  simp only [List.mem_flatMap, List.mem_map, List.mem_filterMap, Prod.mk.injEq,
    hwf.classifier?_eq_some_iff]
  constructor
  · rintro ⟨c, hc, y', ⟨a, ha, hy⟩, rfl, rfl⟩
    exact ⟨c, ⟨hc, rfl⟩, a, ha, hy⟩
  · rintro ⟨c, ⟨hc, rfl⟩, a, ha, hy⟩
    exact ⟨c, hc, y, ⟨a, ha, hy⟩, rfl, rfl⟩

theorem mem_collectionEvidence_iff (hwf : registry.WF) {x y : String} :
    (x, y) ∈ collectionEvidence settings registry ↔ Collects settings registry x y := by
  unfold collectionEvidence Collects
  rw [mem_fieldEvidence_iff hwf]
  simp only [collectionTarget?_eq_some_iff]

theorem refers_iff (hwf : registry.WF) {x y : String} :
    Refers settings registry x y ↔
      (x, y) ∈ referenceEvidence settings registry ∨
        (x, y) ∈ collectionEvidence settings registry := by
  unfold referenceEvidence collectionEvidence Refers
  rw [mem_fieldEvidence_iff hwf, mem_fieldEvidence_iff hwf]
  simp only [← target_eq_some_iff]
  constructor
  · rintro ⟨c, hc, a, ha, ht | ht⟩
    · exact Or.inl ⟨c, hc, a, ha, ht⟩
    · exact Or.inr ⟨c, hc, a, ha, ht⟩
  · rintro (⟨c, hc, a, ha, ht⟩ | ⟨c, hc, a, ha, ht⟩)
    · exact ⟨c, hc, a, ha, Or.inl ht⟩
    · exact ⟨c, hc, a, ha, Or.inr ht⟩

/-! A constructed name without a dot is its own simple name. -/

theorem lastSegment_eq_self {name : String} (h : '.' ∉ name.toList) :
    TypeExpr.lastSegment name = name := by
  unfold TypeExpr.lastSegment
  have hall : ∀ c ∈ name.toList.reverse, (c != '.') = true := by
    intro c hc
    rw [bne_iff_ne]
    rintro rfl
    exact h (List.mem_reverse.1 hc)
  rw [List.takeWhile_eq_self_iff.2 hall, List.reverse_reverse, String.ofList_toList]

theorem mem_creationEvidence_iff (hwf : registry.WF)
    (hdots : ∀ e ∈ registry.evidence, '.' ∉ e.constructed.toList) {x y : String} :
    (x, y) ∈ creationEvidence settings registry ↔ Constructs settings registry x y := by
  unfold creationEvidence Constructs
  rw [← hwf.mem_evidence_iff]
  simp only [List.mem_filterMap, Option.map_eq_some_iff, Prod.mk.injEq]
  constructor
  · rintro ⟨⟨owner, constructed⟩, hmem, y', hknown, rfl, rfl⟩
    have hname : y' = constructed :=
      (knownTarget?_eq_some_iff.1 hknown).2.2.symm.trans (lastSegment_eq_self (hdots _ hmem))
    subst hname
    exact ⟨hmem, hknown⟩
  · rintro ⟨hmem, hknown⟩
    exact ⟨⟨x, y⟩, hmem, y, hknown, rfl, rfl⟩

theorem mem_sharingEvidence_iff {x y : String} :
    (x, y) ∈ sharingEvidence registry ↔
      ⟨x, y⟩ ∈ registry.evidence ∧ 2 ≤ (registry.ownersOf y).length := by
  unfold sharingEvidence
  simp only [List.mem_map, List.mem_filter, decide_eq_true_eq, Prod.mk.injEq]
  constructor
  · rintro ⟨⟨owner, constructed⟩, ⟨hmem, htwo⟩, rfl, rfl⟩
    exact ⟨hmem, htwo⟩
  · rintro ⟨hmem, htwo⟩
    exact ⟨⟨x, y⟩, ⟨hmem, htwo⟩, rfl, rfl⟩

/-! ## The order of the owners -/

theorem pairwise_idxOf {names : List String} (h : names.Nodup) :
    names.Pairwise fun x y => names.idxOf x ≤ names.idxOf y := by
  rw [List.pairwise_iff_getElem]
  intro i j hi hj hij
  rw [h.idxOf_getElem i hi, h.idxOf_getElem j hj]
  omega

/-- Where pieces come in the order of their owners, the first piece about a pair is from the owner
that comes first. -/
theorem owner_le_of_find? (place : String → Nat) {pieces : List Piece}
    (hpieces : pieces.Pairwise fun p p' => place p.1 ≤ place p'.1) {s t : String}
    (hfind : pieces.find? (fun piece => NamePair.of piece.1 piece.2 = NamePair.of s t) =
      some (s, t))
    (hback : (t, s) ∈ pieces) : place s ≤ place t := by
  obtain ⟨-, before, after, rfl, hbefore⟩ := List.find?_eq_some_iff_append.1 hfind
  rcases List.mem_append.1 hback with hmem | hmem
  · have hother := hbefore (t, s) hmem
    simp [NamePair.of_comm t s] at hother
  · rcases List.mem_cons.1 hmem with hsame | hafter
    · cases hsame
      exact Nat.le_refl _
    · exact (List.pairwise_cons.1 (List.pairwise_append.1 hpieces).2.1).1 (t, s) hafter

theorem pairwise_evidence (hwf : registry.WF) :
    registry.evidence.Pairwise fun e e' =>
      registry.construction.keys.idxOf e.owner ≤ registry.construction.keys.idxOf e'.owner := by
  unfold Registry.evidence
  rw [List.pairwise_flatMap]
  constructor
  · rintro ⟨owner, types⟩ -
    rw [List.pairwise_map]
    exact List.pairwise_of_forall fun _ _ => Nat.le_refl _
  · refine (List.pairwise_map.1 (pairwise_idxOf hwf.owners_nodup)).imp ?_
    rintro ⟨owner, types⟩ ⟨owner', types'⟩ hle e he e' he'
    obtain ⟨-, -, rfl⟩ := List.mem_map.1 he
    obtain ⟨-, -, rfl⟩ := List.mem_map.1 he'
    exact hle

/-- The piece that decides a pair comes from the owner that comes first. -/
theorem idxOf_le_of_find? (hwf : registry.WF) {s t : String}
    (hfind : (creationEvidence settings registry).find?
      (fun piece => NamePair.of piece.1 piece.2 = NamePair.of s t) = some (s, t))
    (hback : (t, s) ∈ creationEvidence settings registry) :
    registry.construction.keys.idxOf s ≤ registry.construction.keys.idxOf t := by
  have hpieces : (creationEvidence settings registry).Pairwise fun p p' =>
      registry.construction.keys.idxOf p.1 ≤ registry.construction.keys.idxOf p'.1 := by
    refine (pairwise_evidence hwf).filterMap _ ?_
    intro e e' hle p hp p' hp'
    obtain ⟨-, -, rfl⟩ := Option.map_eq_some_iff.1 hp
    obtain ⟨-, -, rfl⟩ := Option.map_eq_some_iff.1 hp'
    exact hle
  exact owner_le_of_find? registry.construction.keys.idxOf hpieces hfind hback

end Membership

/-! ## The closed form -/

section Forms

variable (settings : Settings) (registry : Registry)

/-- Each end carries the multiplicity of a collection if the other end collects it, and none
otherwise; a loop carries it at its right end. -/
def CarriesCollections (r : Relation) : Prop :=
  ((r.targetLabel? = some "0..*" ∧ Collects settings registry r.source r.target) ∨
    (r.targetLabel? = none ∧ ¬ Collects settings registry r.source r.target)) ∧
  ((r.sourceLabel? = some "0..*" ∧
      (r.source ≠ r.target ∧ Collects settings registry r.target r.source)) ∨
    (r.sourceLabel? = none ∧
      ¬ (r.source ≠ r.target ∧ Collects settings registry r.target r.source)))

/-- An ownership edge leads from the first owner that constructs the other end. It is an aggregation
if two owners construct that end, and leads back if that end refers to the owner. -/
structure OwnershipForm (r : Relation) : Prop where
  constructs : Constructs settings registry r.source r.target
  first : Constructs settings registry r.target r.source →
    registry.construction.keys.idxOf r.source ≤ registry.construction.keys.idxOf r.target
  kind : r.kind = if 2 ≤ (registry.ownersOf r.target).length then .aggregation r.isTwoWay
    else .composition r.isTwoWay
  twoWay : r.isTwoWay = true ↔ r.source ≠ r.target ∧ Refers settings registry r.target r.source
  labels : CarriesCollections settings registry r

/-- An association leads from a class that refers to the other end, and back if that end is another
class that refers to it too. -/
structure AssociationForm (r : Relation) : Prop where
  forward : Refers settings registry r.source r.target
  twoWay : r.isTwoWay = true ↔ r.source ≠ r.target ∧
    Refers settings registry r.source r.target ∧ Refers settings registry r.target r.source
  labels : CarriesCollections settings registry r

end Forms

section ClosedForm

variable {settings : Settings} {registry : Registry}

theorem carriesCollections {r : Relation} (h : r.WellShaped)
    (hr : ∀ x y, NamePair.of x y = r.ends → (r.Labelled y ↔ Collects settings registry x y)) :
    CarriesCollections settings registry r := by
  have htarget := hr r.source r.target rfl
  have hsource := hr r.target r.source (NamePair.of_comm _ _)
  refine ⟨Relation.eq_some_many_or_none h.target_label (h.labelled_target.symm.trans htarget), ?_⟩
  refine Relation.eq_some_many_or_none h.source_label ?_
  by_cases hloop : r.source = r.target
  · rw [h.oneWay_source (h.loop_oneWay hloop)]
    simp [hloop]
  · simp only [ne_eq, hloop, not_false_eq_true, true_and]
    exact (Relation.labelled_source hloop).symm.trans hsource

/-- After the first two passes a pair reflects what the fields say of it. -/
theorem reflects_fields (settings : Settings) (hwf : registry.WF) (pair : NamePair) :
    Reflects pair (Refers settings registry) (Collects settings registry)
      ((collectionEvidence settings registry).foldl (settle .associateMany pair)
        ((referenceEvidence settings registry).foldl (settle .associate pair) none)) := by
  have hempty : Reflects pair (fun _ _ => False) (fun _ _ => False) none :=
    fun _ _ _ => ⟨id, id⟩
  refine ((hempty.foldl_reference (referenceEvidence settings registry)).foldl_collection
    (collectionEvidence settings registry)).congr ?_ ?_
  · intro x y _
    rw [refers_iff hwf]
    simp
  · intro x y _
    rw [← mem_collectionEvidence_iff hwf]
    simp

theorem associationForm_of_reflects {pair : NamePair} {r : Relation}
    (h : Reflects pair (Refers settings registry) (Collects settings registry) (some r)) :
    AssociationForm settings registry r := by
  obtain ⟨rfl, hshape, ⟨twoWay, hk⟩, hr⟩ := h
  have hforward := (hr r.source r.target rfl).1.1 (Or.inl ⟨rfl, rfl⟩)
  refine ⟨hforward, ⟨?_, ?_⟩, carriesCollections hshape fun x y hxy => (hr x y hxy).2⟩
  · intro hw
    refine ⟨?_, hforward, ?_⟩
    · intro hloop
      rw [hshape.loop_oneWay hloop] at hw
      cases hw
    · exact (hr _ _ (NamePair.of_comm _ _)).1.1 (Or.inr ⟨hw, rfl, rfl⟩)
  · rintro ⟨hne, -, hback⟩
    rcases (hr _ _ (NamePair.of_comm _ _)).1.2 hback with ⟨hs, -⟩ | ⟨hw, -⟩
    · exact absurd hs hne
    · exact hw

/-- The form of an edge from an owner that comes first, as the composition it starts as or the
aggregation it becomes. -/
theorem Composed.ownershipForm {s t : String} {r r' : Relation}
    (h : Composed (Refers settings registry) (Collects settings registry) s t r)
    (hconstructs : Constructs settings registry s t)
    (hfirst : Constructs settings registry t s →
      registry.construction.keys.idxOf s ≤ registry.construction.keys.idxOf t)
    (hr' : r' = if 2 ≤ (registry.ownersOf t).length then
      { r with kind := .aggregation r.isTwoWay } else r) :
    r'.strength = .ownership ∧ OwnershipForm settings registry r' := by
  obtain ⟨rfl, rfl, hshape, hkind, htwoWay, hlabelled⟩ := h
  have hlabels := carriesCollections hshape hlabelled
  by_cases hshared : 2 ≤ (registry.ownersOf r.target).length
  · rw [if_pos hshared] at hr'
    subst hr'
    refine ⟨rfl, hconstructs, hfirst, ?_, htwoWay, hlabels⟩
    rw [if_pos hshared]
    rfl
  · rw [if_neg hshared] at hr'
    subst hr'
    refine ⟨?_, hconstructs, hfirst, ?_, htwoWay, hlabels⟩
    · rw [Relation.strength, hkind]
    · rw [if_neg hshared]
      exact hkind

section FirstConstruction

variable (hwf : registry.WF) (hdots : ∀ e ∈ registry.evidence, '.' ∉ e.constructed.toList)
  {a b : String}

include hwf hdots

theorem not_constructs_of_find? (hnone : (creationEvidence settings registry).find?
      (fun piece => NamePair.of piece.1 piece.2 = NamePair.of a b) = none) :
    ¬ (Constructs settings registry a b ∨ Constructs settings registry b a) := by
  rw [List.find?_eq_none] at hnone
  rintro (hc | hc)
  · exact hnone (a, b) ((mem_creationEvidence_iff hwf hdots).2 hc) (by simp)
  · exact hnone (b, a) ((mem_creationEvidence_iff hwf hdots).2 hc) (by simp [NamePair.of_comm b a])

theorem constructs_of_find? {s t : String} (hfind : (creationEvidence settings registry).find?
      (fun piece => NamePair.of piece.1 piece.2 = NamePair.of a b) = some (s, t)) :
    NamePair.of s t = NamePair.of a b ∧ Constructs settings registry s t ∧
      (Constructs settings registry t s →
        registry.construction.keys.idxOf s ≤ registry.construction.keys.idxOf t) := by
  have hpair : NamePair.of s t = NamePair.of a b := by
    simpa using List.find?_some hfind
  refine ⟨hpair, (mem_creationEvidence_iff hwf hdots).1 (List.mem_of_find?_eq_some hfind), ?_⟩
  intro hc
  rw [← hpair] at hfind
  exact idxOf_le_of_find? hwf hfind ((mem_creationEvidence_iff hwf hdots).2 hc)

end FirstConstruction

/-- A pair is owned, or else associated, or else the first use of one name by the other decides. -/
theorem infer_pair_forms (settings : Settings) (hwf : registry.WF)
    (hdots : ∀ e ∈ registry.evidence, '.' ∉ e.constructed.toList) (a b : String) :
    ((Constructs settings registry a b ∨ Constructs settings registry b a) ∧
      ∃ r, (infer settings registry).get? a b = some r ∧ r.strength = .ownership ∧
        OwnershipForm settings registry r) ∨
    (¬ (Constructs settings registry a b ∨ Constructs settings registry b a) ∧
      (Refers settings registry a b ∨ Refers settings registry b a) ∧
      ∃ r, (infer settings registry).get? a b = some r ∧
        (∃ twoWay, r.kind = .association twoWay) ∧ AssociationForm settings registry r) ∨
    (¬ (Constructs settings registry a b ∨ Constructs settings registry b a) ∧
      ¬ (Refers settings registry a b ∨ Refers settings registry b a) ∧
      (infer settings registry).get? a b =
        ((usageEvidence settings registry).find? fun piece =>
          NamePair.of piece.1 piece.2 = NamePair.of a b).map fun piece =>
            .plain piece.1 piece.2 .dependency) := by
  have hfields := reflects_fields settings hwf (NamePair.of a b)
  rw [get?_infer]
  rcases hfields.foldl_creation (creationEvidence settings registry) with
    ⟨hnone, heq⟩ | ⟨⟨s, t⟩, r, hfind, heq, hcomposed⟩
  · have hfree := not_constructs_of_find? hwf hdots hnone
    rw [heq]
    generalize (collectionEvidence settings registry).foldl _ _ = current? at hfields ⊢
    cases current? with
    | none =>
      refine Or.inr (Or.inr ⟨hfree, ?_, ?_⟩)
      · rintro (href | href)
        · exact (hfields a b rfl).1 href
        · exact (hfields b a (NamePair.of_comm b a)).1 href
      · rw [foldl_sharing_none, foldl_usage_none]
    | some r =>
      have hform := associationForm_of_reflects hfields
      obtain ⟨he, -, ⟨twoWay, hk⟩, -⟩ := hfields
      refine Or.inr (Or.inl ⟨hfree, ?_, r, ?_, ⟨twoWay, hk⟩, hform⟩)
      · rcases Relation.ends_eq_iff.1 he with ⟨rfl, rfl⟩ | ⟨rfl, rfl⟩
        · exact Or.inl hform.forward
        · exact Or.inr hform.forward
      · have hsettles : ∀ owner target, Evidence.Settles (Transition.share.rule owner target) r :=
          fun _ _ => Evidence.sharing_other (by simp [hk])
        rw [foldl_settle_of_settles .share hsettles, foldl_usage_some]
  · obtain ⟨hpair, hconstructs, hfirst⟩ := constructs_of_find? hwf hdots hfind
    have hends : r.ends = NamePair.of a b := by
      rw [Relation.ends, hcomposed.source_eq, hcomposed.target_eq]
      exact hpair
    have hshared : (r.source, r.target) ∈ sharingEvidence registry ↔
        2 ≤ (registry.ownersOf t).length := by
      rw [hcomposed.source_eq, hcomposed.target_eq, mem_sharingEvidence_iff]
      exact and_iff_right (hwf.mem_evidence_iff.2 hconstructs.1)
    obtain ⟨hstrength, hform⟩ := hcomposed.ownershipForm hconstructs hfirst rfl
    refine Or.inl ⟨?_, _, ?_, hstrength, hform⟩
    · rcases NamePair.of_eq_of_iff.1 hpair with ⟨rfl, rfl⟩ | ⟨rfl, rfl⟩
      · exact Or.inl hconstructs
      · exact Or.inr hconstructs
    · rw [heq, ← hends, foldl_sharing_composition hcomposed.kind, foldl_usage_some]
      simp only [hshared]

/-- A pair is owned, or else associated, or else holds a dependency at most. -/
theorem infer_pair_cases (settings : Settings) (hwf : registry.WF)
    (hdots : ∀ e ∈ registry.evidence, '.' ∉ e.constructed.toList) (a b : String) :
    ((Constructs settings registry a b ∨ Constructs settings registry b a) ∧
      ∃ r, (infer settings registry).get? a b = some r ∧ r.strength = .ownership ∧
        OwnershipForm settings registry r) ∨
    (¬ (Constructs settings registry a b ∨ Constructs settings registry b a) ∧
      (Refers settings registry a b ∨ Refers settings registry b a) ∧
      ∃ r, (infer settings registry).get? a b = some r ∧
        (∃ twoWay, r.kind = .association twoWay) ∧ AssociationForm settings registry r) ∨
    (¬ (Constructs settings registry a b ∨ Constructs settings registry b a) ∧
      ¬ (Refers settings registry a b ∨ Refers settings registry b a) ∧
      ∀ r, (infer settings registry).get? a b = some r → r.kind = .dependency) := by
  rcases infer_pair_forms settings hwf hdots a b with howned | hassociated | ⟨hfree, hnoref, hget⟩
  · exact Or.inl howned
  · exact Or.inr (Or.inl hassociated)
  · refine Or.inr (Or.inr ⟨hfree, hnoref, fun r hr => ?_⟩)
    rw [hget] at hr
    obtain ⟨piece, -, rfl⟩ := Option.map_eq_some_iff.1 hr
    rfl

end ClosedForm

/-- **Ownership and association edges in closed form.** For every registry whose constructed names
have no dots, a pair holds an ownership edge exactly if one of its names constructs the other, and
otherwise an association exactly if one refers to the other. Source, kind, directions and
multiplicities of the edge are those of `OwnershipForm` and `AssociationForm`. -/
theorem infer_closed_form (settings : Settings) (registry : Registry) (hwf : registry.WF)
    (hdots : ∀ e ∈ registry.evidence, '.' ∉ e.constructed.toList) (a b : String) :
    ((∃ r, (infer settings registry).get? a b = some r ∧ r.strength = .ownership) ↔
      Constructs settings registry a b ∨ Constructs settings registry b a) ∧
    ((∃ r, (infer settings registry).get? a b = some r ∧ ∃ twoWay, r.kind = .association twoWay) ↔
      ¬ (Constructs settings registry a b ∨ Constructs settings registry b a) ∧
        (Refers settings registry a b ∨ Refers settings registry b a)) ∧
    ∀ r, (infer settings registry).get? a b = some r →
      r.ends = NamePair.of a b ∧
      (r.strength = .ownership → OwnershipForm settings registry r) ∧
      ((∃ twoWay, r.kind = .association twoWay) → AssociationForm settings registry r) := by
  have hset : (infer settings registry).WF :=
    RelationSet.wf_after [.hierarchyPass settings registry, .referencePass settings registry,
      .collectionPass settings registry, .constructionPass settings registry,
      .usagePass settings registry]
  have hassociation : ∀ r : Relation, (∃ twoWay, r.kind = .association twoWay) →
      r.strength ≠ .ownership ∧ r.kind ≠ .dependency := by
    rintro r ⟨twoWay, hk⟩
    cases hl : r.hasLabel with
    | false => simp [Relation.strength_of_plain hk hl, hk]
    | true => simp [Relation.strength_of_labelled hk hl, hk]
  have hdependency : ∀ r : Relation, r.kind = .dependency → r.strength ≠ .ownership := by
    intro r hk
    simp [Relation.strength, hk]
  rcases infer_pair_cases settings hwf hdots a b with
    ⟨hconstructs, r, hget, hstrength, hform⟩ | ⟨hfree, href, r, hget, hk, hform⟩ |
      ⟨hfree, hnoref, hrest⟩
  · refine ⟨iff_of_true ⟨r, hget, hstrength⟩ hconstructs, iff_of_false ?_ fun h => h.1 hconstructs,
      ?_⟩
    · rintro ⟨r', hget', hk⟩
      rw [hget] at hget'
      cases hget'
      exact (hassociation r hk).1 hstrength
    · intro r' hget'
      refine ⟨(hset.get?_eq_some_iff.1 hget').2, ?_⟩
      rw [hget] at hget'
      cases hget'
      exact ⟨fun _ => hform, fun hk => absurd hstrength (hassociation r hk).1⟩
  · refine ⟨iff_of_false ?_ hfree, iff_of_true ⟨r, hget, hk⟩ ⟨hfree, href⟩, ?_⟩
    · rintro ⟨r', hget', hstrength⟩
      rw [hget] at hget'
      cases hget'
      exact (hassociation r hk).1 hstrength
    · intro r' hget'
      refine ⟨(hset.get?_eq_some_iff.1 hget').2, ?_⟩
      rw [hget] at hget'
      cases hget'
      exact ⟨fun hstrength => absurd hstrength (hassociation r hk).1, fun _ => hform⟩
  · refine ⟨iff_of_false ?_ hfree, iff_of_false ?_ fun h => hnoref h.2, ?_⟩
    · rintro ⟨r, hget, hstrength⟩
      exact hdependency r (hrest r hget) hstrength
    · rintro ⟨r, hget, hk⟩
      exact (hassociation r hk).2 (hrest r hget)
    · intro r hget
      have hk := hrest r hget
      exact ⟨(hset.get?_eq_some_iff.1 hget).2, fun hstrength => absurd hstrength (hdependency r hk),
        fun h => absurd hk (hassociation r h).2⟩

/-- An order holds a collection of items, which refer back to it; both the order and a cart construct
items. -/
def orders : Registry where
  classifiers := ⟨[
    ("Order", { Classifier.empty "Order" .classType with
      attributes := [⟨"items", "List<Item>", some ⟨"List", [.ofName "Item"], 0⟩, .owner⟩] }),
    ("Item", { Classifier.empty "Item" .classType with
      attributes := [⟨"order", "Order", some (.ofName "Order"), .owner⟩] })]⟩
  construction := ⟨[("Order", ["Item"]), ("Cart", ["Item"])]⟩

theorem wf_orders : orders.WF where
  names_nodup := by decide
  named name c h := by
    simp only [orders, List.mem_cons, Prod.mk.injEq, List.not_mem_nil, or_false] at h
    rcases h with ⟨rfl, rfl⟩ | ⟨rfl, rfl⟩ <;> rfl
  owners_nodup := by decide
  evidence_nodup owner types h := by
    simp only [orders, List.mem_cons, Prod.mk.injEq, List.not_mem_nil, or_false] at h
    rcases h with ⟨-, rfl⟩ | ⟨-, rfl⟩ <;> decide

/-- The shared items of an order, with the way back and the multiplicity. -/
theorem infer_closed_form_orders :
    (infer .default orders).get? "Item" "Order" =
      some ⟨"Order", "Item", .aggregation true, none, some "0..*"⟩ ∧
    OwnershipForm .default orders ⟨"Order", "Item", .aggregation true, none, some "0..*"⟩ := by
  have hget : (infer .default orders).get? "Item" "Order" =
      some ⟨"Order", "Item", .aggregation true, none, some "0..*"⟩ := by decide
  have hclosed := infer_closed_form .default orders wf_orders (by decide) "Item" "Order"
  exact ⟨hget, (hclosed.2.2 _ hget).2.1 rfl⟩

end ClassDiagram.Inference
