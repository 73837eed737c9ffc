import ClassDiagram.Relation.Set

/-!
# The shape of a relation

What can be said of a relation whatever evidence led to it: multiplicities are the one of a
collection, a dependency carries none, a relation of one direction carries none at its left end, an
association that carries one carries one at its right end, and a loop has one direction.

The directions in which a relation leads (`Navigates`) and the ends that carry a multiplicity
(`Labelled`) are stated by name, so that they do not depend on which end stands on the left.
-/

namespace ClassDiagram

/-! ## Pairs of names -/

namespace NamePair

/-- Two pairs are the same when their names are, in one order or the other. -/
theorem of_eq_of_iff {a b c d : String} :
    NamePair.of a b = NamePair.of c d ↔ (a = c ∧ b = d) ∨ (a = d ∧ b = c) := by
  constructor
  · intro h
    unfold NamePair.of at h
    by_cases hab : a ≤ b
    · by_cases hcd : c ≤ d
      · rw [if_pos hab, if_pos hcd] at h
        exact Or.inl ⟨congrArg first h, congrArg second h⟩
      · rw [if_pos hab, if_neg hcd] at h
        exact Or.inr ⟨congrArg first h, congrArg second h⟩
    · by_cases hcd : c ≤ d
      · rw [if_neg hab, if_pos hcd] at h
        exact Or.inr ⟨congrArg second h, congrArg first h⟩
      · rw [if_neg hab, if_neg hcd] at h
        exact Or.inl ⟨congrArg second h, congrArg first h⟩
  · rintro (⟨rfl, rfl⟩ | ⟨rfl, rfl⟩)
    · rfl
    · exact NamePair.of_comm a b

end NamePair

/-! ## Directions, multiplicities and the shape -/

namespace Relation

/-- The relation leads from `x` to `y`, in this direction only or in both. -/
def Navigates (r : Relation) (x y : String) : Prop :=
  (r.source = x ∧ r.target = y) ∨ (r.isTwoWay = true ∧ r.source = y ∧ r.target = x)

/-- The end called `name` carries a multiplicity. -/
def Labelled (r : Relation) (name : String) : Prop :=
  (r.target = name ∧ r.targetLabel?.isSome = true) ∨
    (r.source = name ∧ r.sourceLabel?.isSome = true)

/-- What holds of every relation that evidence can lead to. -/
structure WellShaped (r : Relation) : Prop where
  /-- The only multiplicity at the left end is that of a collection. -/
  source_label : ∀ label, r.sourceLabel? = some label → label = Evidence.many
  /-- The only multiplicity at the right end is that of a collection. -/
  target_label : ∀ label, r.targetLabel? = some label → label = Evidence.many
  /-- A dependency carries no multiplicity. -/
  dependency_plain : r.kind = .dependency → r.hasLabel = false
  /-- A relation of one direction carries no multiplicity at its left end. -/
  oneWay_source : r.isTwoWay = false → r.sourceLabel? = none
  /-- An association that carries a multiplicity carries one at its right end. -/
  association_target : ∀ twoWay, r.kind = .association twoWay → r.hasLabel = true →
    r.targetLabel?.isSome = true
  /-- A loop has one direction. -/
  loop_oneWay : r.source = r.target → r.isTwoWay = false

instance (r : Relation) (x y : String) : Decidable (r.Navigates x y) :=
  inferInstanceAs (Decidable (_ ∨ _))

instance (r : Relation) (name : String) : Decidable (r.Labelled name) :=
  inferInstanceAs (Decidable (_ ∨ _))

theorem ends_eq_iff {r : Relation} {a b : String} :
    r.ends = NamePair.of a b ↔ (r.source = a ∧ r.target = b) ∨ (r.source = b ∧ r.target = a) :=
  NamePair.of_eq_of_iff

/-- A relation of a pair leads from its first name to its second, or, when they differ, the other
way. -/
theorem ends_cases {r : Relation} {a b : String} (h : r.ends = NamePair.of a b) :
    (r.source = a ∧ r.target = b) ∨ (a ≠ b ∧ b ≠ a ∧ r.source = b ∧ r.target = a) := by
  by_cases hab : a = b
  · subst hab
    exact Or.inl ((ends_eq_iff.1 h).elim id id)
  · exact (ends_eq_iff.1 h).imp_right fun h' => ⟨hab, Ne.symm hab, h'⟩

/-- A relation leads between its own ends. -/
theorem Navigates.ends {r : Relation} {x y : String} (h : r.Navigates x y) :
    r.ends = NamePair.of x y := by
  rcases h with ⟨hs, ht⟩ | ⟨-, hs, ht⟩
  · exact ends_eq_iff.2 (Or.inl ⟨hs, ht⟩)
  · exact ends_eq_iff.2 (Or.inr ⟨hs, ht⟩)

/-- A relation of both directions leads from each end to the other. -/
theorem navigates_of_twoWay {r : Relation} (hw : r.isTwoWay = true) {x y : String}
    (he : r.ends = NamePair.of x y) : r.Navigates x y :=
  (ends_eq_iff.1 he).imp_right fun h => ⟨hw, h⟩

theorem navigates_of_oneWay {r : Relation} (hw : r.isTwoWay = false) {x y : String} :
    r.Navigates x y ↔ r.source = x ∧ r.target = y := by
  simp [Navigates, hw]

/-- Only the ends of a relation carry multiplicities. -/
theorem Labelled.ends {r : Relation} {y : String} (h : r.Labelled y) :
    ∃ x, NamePair.of x y = r.ends := by
  rcases h with ⟨rfl, -⟩ | ⟨rfl, -⟩
  · exact ⟨r.source, rfl⟩
  · exact ⟨r.target, NamePair.of_comm _ _⟩

theorem exists_labelled {r : Relation} (hl : r.hasLabel = true) : ∃ y, r.Labelled y := by
  simp only [hasLabel, Bool.or_eq_true] at hl
  rcases hl with hs | ht
  · exact ⟨r.source, Or.inr ⟨rfl, hs⟩⟩
  · exact ⟨r.target, Or.inl ⟨rfl, ht⟩⟩

theorem not_labelled_of_hasLabel_eq_false {r : Relation} (hl : r.hasLabel = false) (name : String) :
    ¬ r.Labelled name := by
  simp only [hasLabel, Bool.or_eq_false_iff] at hl
  simp [Labelled, hl.1, hl.2]

/-- The ends of a flipped relation carry what they carried. -/
theorem labelled_flip (r : Relation) (name : String) : r.flip.Labelled name ↔ r.Labelled name :=
  Or.comm

theorem labelled_orientFrom (r : Relation) (first name : String) :
    (r.orientFrom first).Labelled name ↔ r.Labelled name := by
  unfold orientFrom
  split
  · rfl
  · exact labelled_flip r name

/-- Turned to an end of its pair, a relation leads from there to the other end. -/
theorem orientFrom_ends {r : Relation} {a b : String} (he : r.ends = NamePair.of a b) :
    (r.orientFrom a).source = a ∧ (r.orientFrom a).target = b := by
  unfold orientFrom
  rcases ends_cases he with ⟨hs, ht⟩ | ⟨-, hne, hs, ht⟩
  · rw [if_pos hs]
    exact ⟨hs, ht⟩
  · rw [if_neg (by rw [hs]; exact hne)]
    exact ⟨ht, hs⟩

theorem WellShaped.orientFrom_labels {r : Relation} (h : r.WellShaped) (first : String) :
    (∀ label, (r.orientFrom first).sourceLabel? = some label → label = Evidence.many) ∧
      ∀ label, (r.orientFrom first).targetLabel? = some label → label = Evidence.many := by
  unfold orientFrom
  split
  · exact ⟨h.source_label, h.target_label⟩
  · exact ⟨h.target_label, h.source_label⟩

/-- A label of a well-shaped relation is absent or the one of a collection. -/
theorem label_cases {label? : Option String} (h : ∀ label, label? = some label →
    label = Evidence.many) : label? = none ∨ label? = some Evidence.many := by
  cases label? with
  | none => exact Or.inl rfl
  | some label => exact Or.inr (congrArg some (h label rfl))

theorem isTwoWay_of_association {r : Relation} {twoWay : Bool}
    (hk : r.kind = .association twoWay) : r.isTwoWay = twoWay := by
  rw [isTwoWay, hk]
  rfl

theorem strength_of_plain {r : Relation} {twoWay : Bool} (hk : r.kind = .association twoWay)
    (hl : r.hasLabel = false) : r.strength = .association := by
  simp [strength, hk, hl]

theorem strength_of_labelled {r : Relation} {twoWay : Bool} (hk : r.kind = .association twoWay)
    (hl : r.hasLabel = true) : r.strength = .multiplicity := by
  simp [strength, hk, hl]

theorem hasLabel_eq_false {r : Relation} :
    r.hasLabel = false ↔ r.sourceLabel? = none ∧ r.targetLabel? = none := by
  simp [hasLabel]

/-- An association with a multiplicity carries one at its right end, and one at its left end only
if it has both directions. -/
theorem WellShaped.labelled_forms {r : Relation} (h : r.WellShaped) {twoWay : Bool}
    (hk : r.kind = .association twoWay) (hl : r.hasLabel = true) :
    r.targetLabel? = some Evidence.many ∧
      (r.sourceLabel? = none ∨ (twoWay = true ∧ r.sourceLabel? = some Evidence.many)) := by
  have htarget := h.association_target twoWay hk hl
  refine ⟨?_, ?_⟩
  · rcases label_cases h.target_label with ht | ht
    · rw [ht] at htarget
      exact absurd htarget Bool.false_ne_true
    · exact ht
  · cases twoWay with
    | false => exact Or.inl (h.oneWay_source (by rw [isTwoWay, hk]; rfl))
    | true => exact (label_cases h.source_label).imp_right fun hs => ⟨rfl, hs⟩

theorem WellShaped.labelled_target {r : Relation} (h : r.WellShaped) :
    r.Labelled r.target ↔ r.targetLabel?.isSome = true := by
  constructor
  · rintro (⟨-, ht⟩ | ⟨hloop, hs⟩)
    · exact ht
    · rw [h.oneWay_source (h.loop_oneWay hloop)] at hs
      cases hs
  · exact fun ht => Or.inl ⟨rfl, ht⟩

theorem labelled_source {r : Relation} (hne : r.source ≠ r.target) :
    r.Labelled r.source ↔ r.sourceLabel?.isSome = true := by
  simp [Labelled, Ne.symm hne]

theorem eq_some_many_or_none {label? : Option String} {p : Prop}
    (h : ∀ label, label? = some label → label = Evidence.many) (hp : label?.isSome = true ↔ p) :
    (label? = some Evidence.many ∧ p) ∨ (label? = none ∧ ¬ p) := by
  rcases label_cases h with rfl | rfl
  · exact Or.inr ⟨rfl, fun hp' => Bool.noConfusion (hp.2 hp')⟩
  · exact Or.inl ⟨rfl, hp.1 rfl⟩

/-! ## Relations of this shape -/

theorem wellShaped_plain {s t : String} {kind : RelationKind}
    (h : kind.isTwoWay = true → s ≠ t) : (plain s t kind).WellShaped where
  source_label := by simp [plain]
  target_label := by simp [plain]
  dependency_plain _ := rfl
  oneWay_source _ := rfl
  association_target _ _ hl := by simp [plain, hasLabel] at hl
  loop_oneWay he := by
    cases hk : kind.isTwoWay with
    | false => exact hk
    | true => exact absurd he (h hk)

/-- The association of a collection. -/
theorem wellShaped_collection {s t : String} {twoWay : Bool} (h : twoWay = true → s ≠ t) :
    WellShaped ⟨s, t, .association twoWay, none, some Evidence.many⟩ where
  source_label := by simp
  target_label := by simp
  dependency_plain hk := by cases hk
  oneWay_source _ := rfl
  association_target _ _ _ := rfl
  loop_oneWay he := by
    cases twoWay with
    | false => rfl
    | true => exact absurd he (h rfl)

/-- The association of two collections that hold each other's owners. -/
theorem wellShaped_collections {s t : String} (h : s ≠ t) :
    WellShaped ⟨s, t, .association true, some Evidence.many, some Evidence.many⟩ where
  source_label := by simp
  target_label := by simp
  dependency_plain hk := by cases hk
  oneWay_source hw := by cases hw
  association_target _ _ _ := rfl
  loop_oneWay he := absurd he h

/-- A relation of ownership may carry a multiplicity at either end, as long as it leads both ways
when it carries one at its left end. -/
theorem wellShaped_ownership {r : Relation} {twoWay : Bool}
    (hk : r.kind = .composition twoWay ∨ r.kind = .aggregation twoWay)
    (hs : ∀ label, r.sourceLabel? = some label → label = Evidence.many)
    (ht : ∀ label, r.targetLabel? = some label → label = Evidence.many)
    (hsource : twoWay = false → r.sourceLabel? = none)
    (hloop : r.source = r.target → twoWay = false) : r.WellShaped := by
  have hw : r.isTwoWay = twoWay := by
    rcases hk with hk | hk <;> rw [isTwoWay, hk] <;> rfl
  refine ⟨hs, ht, ?_, hw ▸ hsource, ?_, hw ▸ hloop⟩
  · rcases hk with hk | hk <;> simp [hk]
  · rcases hk with hk | hk <;> simp [hk]

/-- The composition that an association turns into when `owner` constructs its other end. -/
def composedBy (r : Relation) (owner : String) (twoWay : Bool) : Relation :=
  { r.orientFrom owner with kind := .composition twoWay }

/-- Turning an association into a composition keeps its shape, if the way back stays: otherwise the
association leads from the owner only, and carries no multiplicity there. -/
theorem WellShaped.composedBy {r : Relation} (h : r.WellShaped) {owner target : String}
    (he : r.ends = NamePair.of owner target) :
    (r.composedBy owner (decide (owner ≠ target ∧ r.Navigates target owner))).WellShaped := by
  obtain ⟨hsl, htl⟩ := h.orientFrom_labels owner
  obtain ⟨hsource, htarget⟩ := orientFrom_ends he
  refine wellShaped_ownership (Or.inl rfl) hsl htl ?_ ?_
  · intro hback
    have hback : ¬ (owner ≠ target ∧ r.Navigates target owner) := of_decide_eq_false hback
    rcases ends_cases he with ⟨hs, ht⟩ | ⟨hne, -, hs, ht⟩
    · have hone : r.isTwoWay = false := by
        cases hw : r.isTwoWay with
        | false => rfl
        | true =>
          have hne : owner ≠ target := by
            rintro rfl
            rw [h.loop_oneWay (hs.trans ht.symm)] at hw
            cases hw
          exact absurd ⟨hne, Or.inr ⟨hw, hs, ht⟩⟩ hback
      rw [Relation.composedBy, orientFrom, if_pos hs]
      exact h.oneWay_source hone
    · exact absurd ⟨hne, Or.inl ⟨hs, ht⟩⟩ hback
  · intro hloop
    have hloop : owner = target := hsource.symm.trans (hloop.trans htarget)
    simp [hloop]

end Relation

end ClassDiagram
