import ClassDiagram.Proofs.Relation.Shape

/-!
# What each rule does to a well-shaped relation

A rule looks at the relation that a pair holds. Here each rule is computed on the relations that can
occur, in terms of the directions and multiplicities they have, and from that every rule is shown to
be lawful (`Evidence.Lawful`): what it writes has the shape of a relation of the same pair, says no
less than what it replaces, differs from it, and is left alone when the same evidence comes again.
-/

namespace ClassDiagram

namespace Evidence

/-- The changes that leave a pair as it is. -/
def IsQuiet (c : Change) : Prop := c = .unchanged ∨ c = .suppressed

/-- The changes that replace a relation. -/
def IsRewrite (c : Change) : Prop := c = .upgraded ∨ c = .collapsed ∨ c = .downgraded

/-- The rule leaves a pair with the relation `r` as it is. -/
def Settles (rule : Option Relation → Outcome) (r : Relation) : Prop :=
  ∃ c, IsQuiet c ∧ rule (some r) = keep c

variable {owner target : String} {r : Relation}

/-- A reference is news to an association without multiplicities that does not lead its way; the
association then leads both ways. -/
theorem reference_association (he : r.ends = NamePair.of owner target)
    {twoWay : Bool} (hk : r.kind = .association twoWay) (hl : r.hasLabel = false) :
    reference owner target (some r) =
      if r.Navigates owner target then keep .unchanged
      else write .collapsed (.plain owner target (.association true)) := by
  have hstrength := Relation.strength_of_plain hk hl
  have htwoWay := Relation.isTwoWay_of_association hk
  simp only [reference, hstrength, htwoWay, Relation.pointsFrom, Relation.Navigates]
  rcases Relation.ends_cases he with ⟨hs, ht⟩ | ⟨hne, hne', hs, ht⟩
  · cases twoWay <;> simp [hs, ht]
  · cases twoWay <;> simp [hs, ht, hne']

theorem collection_plain (h : r.WellShaped) (he : r.ends = NamePair.of owner target)
    {twoWay : Bool} (hk : r.kind = .association twoWay) (hl : r.hasLabel = false) :
    collection owner target (some r) =
      if owner ≠ target ∧ r.Navigates target owner then
        write .collapsed ⟨owner, target, .association true, none, some many⟩
      else write .upgraded ⟨owner, target, .association false, none, some many⟩ := by
  have hstrength := Relation.strength_of_plain hk hl
  have htwoWay := Relation.isTwoWay_of_association hk
  have hloop := h.loop_oneWay
  simp only [collection, hstrength, htwoWay, Relation.pointsFrom, Relation.Navigates] at hloop ⊢
  rcases Relation.ends_cases he with ⟨hs, ht⟩ | ⟨hne, hne', hs, ht⟩
  · cases twoWay <;> grind
  · cases twoWay <;> simp [hs, ht, hne, hne']

theorem collection_labelled (h : r.WellShaped) (he : r.ends = NamePair.of owner target)
    {twoWay : Bool} (hk : r.kind = .association twoWay) (hl : r.hasLabel = true) :
    collection owner target (some r) =
      if r.Navigates owner target ∧ r.Labelled target then keep .unchanged
      else write (if twoWay then .upgraded else .collapsed)
        ⟨target, owner, .association true, some many, some many⟩ := by
  have hstrength := Relation.strength_of_labelled hk hl
  have htwoWay := Relation.isTwoWay_of_association hk
  obtain ⟨htarget, hsource⟩ := h.labelled_forms hk hl
  obtain ⟨s, t, kind, sl, tl⟩ := r
  subst hk htarget
  simp only [collection, hstrength, htwoWay, Relation.pointsFrom, Relation.Navigates]
  rcases Relation.ends_cases he with ⟨rfl, rfl⟩ | ⟨hne, hne', rfl, rfl⟩
  · cases twoWay <;> simp [Relation.Labelled, Relation.mark]
  · rcases hsource with rfl | ⟨rfl, rfl⟩
    · cases twoWay <;> simp [Relation.Labelled, Relation.mark, hne, hne']
    · simp [Relation.Labelled, Relation.mark, hne, hne']

/-- A construction turns an association into a composition from the owner on, which leads back if
the association did; multiplicities stay at their ends. -/
theorem creation_association (h : r.WellShaped) (he : r.ends = NamePair.of owner target)
    {twoWay : Bool} (hk : r.kind = .association twoWay) :
    creation owner target (some r) = write .upgraded
      (r.composedBy owner (decide (owner ≠ target ∧ r.Navigates target owner))) := by
  have htwoWay := Relation.isTwoWay_of_association hk
  have hloop := h.loop_oneWay
  have hback : (r.isTwoWay || !r.pointsFrom owner) =
      decide (owner ≠ target ∧ r.Navigates target owner) := by
    simp only [htwoWay, Relation.pointsFrom, Relation.Navigates] at hloop ⊢
    rcases Relation.ends_cases he with ⟨hs, ht⟩ | ⟨hne, hne', hs, ht⟩
    · cases twoWay <;> grind
    · cases twoWay <;> simp [hs, ht, hne, hne']
  unfold creation
  cases hl : r.hasLabel <;> simp [Relation.strength, hk, hl, hback, Relation.composedBy]

/-- Nothing is news to a composition or aggregation but that it is shared. -/
theorem creation_ownership (hs : r.strength = .ownership) : Settles (creation owner target) r := by
  by_cases h : r.source = owner
  · exact ⟨.unchanged, Or.inl rfl, by simp [creation, hs, h]⟩
  · exact ⟨.suppressed, Or.inr rfl, by simp [creation, hs, h]⟩

/-! ## Lawful rules -/

/-- A rewritten relation says more than the one before it. The directions of a dependency may be
lost, for it is the weakest relation and gives way to any other. -/
structure Advances (r r' : Relation) : Prop where
  ne : r' ≠ r
  strength : r.strength.rank ≤ r'.strength.rank
  navigates : r.kind ≠ .dependency → ∀ x y, r.Navigates x y → r'.Navigates x y
  labelled : r.kind ≠ .dependency → ∀ x, r.Labelled x → r'.Labelled x

/-- A rule about the pair of two names that writes well-shaped relations of this pair only, reports
what it did, and has nothing to add to what it wrote. -/
structure Lawful (owner target : String) (rule : Option Relation → Outcome) : Prop where
  fresh : rule none = keep .unchanged ∨ ∃ r, rule none = write .inserted r ∧
    r.ends = NamePair.of owner target ∧ r.WellShaped ∧ Settles rule r
  present : ∀ r : Relation, r.ends = NamePair.of owner target → r.WellShaped →
    Settles rule r ∨ ∃ c r', IsRewrite c ∧ rule (some r) = write c r' ∧
      r'.ends = NamePair.of owner target ∧ r'.WellShaped ∧ Advances r r' ∧ Settles rule r'

/-- A dependency gives way to any other relation. -/
theorem Advances.of_dependency {r r' : Relation} (hk : r.kind = .dependency)
    (hk' : r'.kind ≠ .dependency) : Advances r r' where
  ne he := hk' (he ▸ hk)
  strength := by
    rw [Relation.strength, hk]
    exact Nat.zero_le _
  navigates h := absurd hk h
  labelled h := absurd hk h

/-! ### References -/

theorem reference_settles_plain {twoWay : Bool} :
    Settles (reference owner target) (.plain owner target (.association twoWay)) := by
  have he : (Relation.plain owner target (.association twoWay)).ends = .of owner target := rfl
  refine ⟨.unchanged, Or.inl rfl, ?_⟩
  rw [reference_association he rfl rfl]
  exact if_pos (Or.inl ⟨rfl, rfl⟩)

theorem reference_lawful (owner target : String) :
    Lawful owner target (reference owner target) where
  fresh := Or.inr ⟨_, rfl, rfl, Relation.wellShaped_plain (by simp [RelationKind.isTwoWay]),
    reference_settles_plain⟩
  present := by
    intro r he h
    cases hk : r.kind with
    | dependency =>
      have hrule : reference owner target (some r) =
          write .upgraded (.plain owner target (.association false)) := by
        simp [reference, Relation.strength, hk]
      exact Or.inr ⟨_, _, Or.inl rfl, hrule, rfl,
        Relation.wellShaped_plain (by simp [RelationKind.isTwoWay]),
        .of_dependency hk (by simp [Relation.plain]), reference_settles_plain⟩
    | association twoWay =>
      cases hl : r.hasLabel with
      | true =>
        exact Or.inl ⟨.suppressed, Or.inr rfl, by simp [reference, Relation.strength, hk, hl]⟩
      | false =>
        have hrule := reference_association he hk hl
        by_cases hn : r.Navigates owner target
        · rw [if_pos hn] at hrule
          exact Or.inl ⟨_, Or.inl rfl, hrule⟩
        · rw [if_neg hn] at hrule
          have hne : owner ≠ target := by
            rintro rfl
            exact hn ((Relation.ends_eq_iff.1 he).elim Or.inl Or.inl)
          refine Or.inr ⟨_, _, Or.inr (Or.inl rfl), hrule, rfl,
            Relation.wellShaped_plain fun _ => hne, ⟨?_, ?_, ?_, ?_⟩, reference_settles_plain⟩
          · intro heq
            exact hn (heq ▸ Or.inl ⟨rfl, rfl⟩)
          · rw [Relation.strength_of_plain hk hl]
            exact Nat.le_refl 1
          · intro _ x y hxy
            exact Relation.navigates_of_twoWay rfl (he.symm.trans hxy.ends)
          · intro _ x hx
            exact absurd hx (Relation.not_labelled_of_hasLabel_eq_false hl x)
    | composition twoWay | aggregation twoWay =>
      exact Or.inl ⟨.suppressed, Or.inr rfl, by simp [reference, Relation.strength, hk]⟩

/-! ### Collections -/

theorem collection_settles {twoWay : Bool} (h : twoWay = true → owner ≠ target) :
    Settles (collection owner target)
      ⟨owner, target, .association twoWay, none, some many⟩ := by
  have hshape := Relation.wellShaped_collection h
  refine ⟨.unchanged, Or.inl rfl, ?_⟩
  rw [collection_labelled hshape (rfl : _ = NamePair.of owner target) rfl rfl]
  exact if_pos ⟨Or.inl ⟨rfl, rfl⟩, Or.inl ⟨rfl, rfl⟩⟩

theorem collection_settles_both (h : target ≠ owner) :
    Settles (collection owner target)
      ⟨target, owner, .association true, some many, some many⟩ := by
  have hshape := Relation.wellShaped_collections h
  refine ⟨.unchanged, Or.inl rfl, ?_⟩
  rw [collection_labelled hshape (NamePair.of_comm target owner) rfl rfl]
  exact if_pos ⟨Or.inr ⟨rfl, rfl, rfl⟩, Or.inr ⟨rfl, rfl⟩⟩

theorem collection_lawful (owner element : String) :
    Lawful owner element (collection owner element) where
  fresh := Or.inr ⟨_, rfl, rfl, Relation.wellShaped_collection (by simp),
    collection_settles (by simp)⟩
  present := by
    intro r he h
    cases hk : r.kind with
    | dependency =>
      have hrule : collection owner element (some r) =
          write .upgraded ⟨owner, element, .association false, none, some many⟩ := by
        simp [collection, Relation.strength, hk]
      exact Or.inr ⟨_, _, Or.inl rfl, hrule, rfl, Relation.wellShaped_collection (by simp),
        .of_dependency hk (by simp), collection_settles (by simp)⟩
    | association twoWay =>
      cases hl : r.hasLabel with
      | false =>
        have hrule := collection_plain h he hk hl
        have hstrength : r.strength.rank ≤ 2 := by
          rw [Relation.strength_of_plain hk hl]
          decide
        have hlabelled := Relation.not_labelled_of_hasLabel_eq_false hl
        have hne : ∀ w, (⟨owner, element, .association w, none, some many⟩ : Relation) ≠ r := by
          rintro w rfl
          cases hl
        by_cases hn : owner ≠ element ∧ r.Navigates element owner
        · rw [if_pos hn] at hrule
          refine Or.inr ⟨_, _, Or.inr (Or.inl rfl), hrule, rfl,
            Relation.wellShaped_collection fun _ => hn.1,
            ⟨hne true, hstrength, ?_, fun _ x hx => absurd hx (hlabelled x)⟩,
            collection_settles fun _ => hn.1⟩
          intro _ x y hxy
          exact Relation.navigates_of_twoWay rfl (he.symm.trans hxy.ends)
        · rw [if_neg hn] at hrule
          refine Or.inr ⟨_, _, Or.inl rfl, hrule, rfl, Relation.wellShaped_collection (by simp),
            ⟨hne false, hstrength, ?_, fun _ x hx => absurd hx (hlabelled x)⟩,
            collection_settles (by simp)⟩
          intro _ x y hxy
          rcases NamePair.of_eq_of_iff.1 (he.symm.trans hxy.ends) with ⟨rfl, rfl⟩ | ⟨rfl, rfl⟩
          · exact Or.inl ⟨rfl, rfl⟩
          · by_cases hloop : owner = element
            · exact Or.inl ⟨hloop, hloop.symm⟩
            · exact absurd ⟨hloop, hxy⟩ hn
      | true =>
        have hrule := collection_labelled h he hk hl
        by_cases hn : r.Navigates owner element ∧ r.Labelled element
        · rw [if_pos hn] at hrule
          exact Or.inl ⟨_, Or.inl rfl, hrule⟩
        · rw [if_neg hn] at hrule
          have hne : element ≠ owner := by
            rintro rfl
            have hends := (Relation.ends_eq_iff.1 he).elim id id
            exact hn ⟨Or.inl hends, Or.inl ⟨hends.2, h.association_target _ hk hl⟩⟩
          refine Or.inr ⟨_, _, ?_, hrule, NamePair.of_comm element owner,
            Relation.wellShaped_collections hne, ⟨?_, ?_, ?_, ?_⟩, collection_settles_both hne⟩
          · cases twoWay
            · exact Or.inr (Or.inl rfl)
            · exact Or.inl rfl
          · intro heq
            exact hn (heq ▸ ⟨Or.inr ⟨rfl, rfl, rfl⟩, Or.inr ⟨rfl, rfl⟩⟩)
          · rw [Relation.strength_of_labelled hk hl]
            exact Nat.le_refl 2
          · intro _ x y hxy
            have hends := (NamePair.of_comm element owner).trans (he.symm.trans hxy.ends)
            exact Relation.navigates_of_twoWay rfl hends
          · intro _ x hx
            rcases Relation.ends_eq_iff.1 he with ⟨hs, ht⟩ | ⟨hs, ht⟩ <;>
              rcases hx with ⟨rfl, -⟩ | ⟨rfl, -⟩ <;> simp [Relation.Labelled, hs, ht]
    | composition twoWay | aggregation twoWay =>
      exact Or.inl ⟨.suppressed, Or.inr rfl, by simp [collection, Relation.strength, hk]⟩

/-! ### Constructions, shared constructions and uses -/

theorem creation_lawful (owner target : String) :
    Lawful owner target (creation owner target) where
  fresh := Or.inr ⟨_, rfl, rfl, Relation.wellShaped_plain (by simp [RelationKind.isTwoWay]),
    creation_ownership rfl⟩
  present := by
    intro r he h
    cases hk : r.kind with
    | dependency =>
      have hrule : creation owner target (some r) =
          write .upgraded (.plain owner target (.composition false)) := by
        simp [creation, Relation.strength, hk]
      exact Or.inr ⟨_, _, Or.inl rfl, hrule, rfl,
        Relation.wellShaped_plain (by simp [RelationKind.isTwoWay]),
        .of_dependency hk (by simp [Relation.plain]), creation_ownership rfl⟩
    | association twoWay =>
      have hrule := creation_association h he hk
      obtain ⟨hsource, htarget⟩ := Relation.orientFrom_ends he
      have hnavigates : ∀ x y, r.Navigates x y → (x = owner ∧ y = target) ∨
          (owner ≠ target ∧ r.Navigates target owner ∧ x = target ∧ y = owner) := by
        intro x y hxy
        rcases NamePair.of_eq_of_iff.1 (he.symm.trans hxy.ends) with ⟨rfl, rfl⟩ | ⟨rfl, rfl⟩
        · exact Or.inl ⟨rfl, rfl⟩
        · by_cases hloop : owner = target
          · exact Or.inl ⟨hloop.symm, hloop⟩
          · exact Or.inr ⟨hloop, hxy, rfl, rfl⟩
      refine Or.inr ⟨_, _, Or.inl rfl, hrule, ?_, ?_, ⟨?_, ?_, ?_, ?_⟩, creation_ownership rfl⟩
      · exact (Relation.ends_orientFrom r owner).trans he
      · exact h.composedBy he
      · intro heq
        have hkind := congrArg Relation.kind heq
        rw [hk] at hkind
        cases hkind
      · cases hl : r.hasLabel with
        | false =>
          rw [Relation.strength_of_plain hk hl]
          exact (by decide : 1 ≤ 3)
        | true =>
          rw [Relation.strength_of_labelled hk hl]
          exact (by decide : 2 ≤ 3)
      · intro _ x y hxy
        rcases hnavigates x y hxy with ⟨rfl, rfl⟩ | ⟨hne, hback, rfl, rfl⟩
        · exact Or.inl ⟨hsource, htarget⟩
        · exact Or.inr ⟨decide_eq_true ⟨hne, hback⟩, hsource, htarget⟩
      · intro _ x hx
        exact (Relation.labelled_orientFrom r owner x).2 hx
    | composition twoWay | aggregation twoWay =>
      exact Or.inl (creation_ownership (by simp [Relation.strength, hk]))

/-- Only the composition of its owner is shared. -/
theorem sharing_composition {twoWay : Bool} (hk : r.kind = .composition twoWay)
    (hs : r.source = owner) :
    sharing owner (some r) = write .downgraded { r with kind := .aggregation twoWay } := by
  simp [sharing, hk, hs]

theorem sharing_other (h : ∀ twoWay, r.kind = .composition twoWay → r.source ≠ owner) :
    Settles (sharing owner) r := by
  refine ⟨.unchanged, Or.inl rfl, ?_⟩
  unfold sharing
  cases hk : r.kind with
  | composition twoWay => simp [hk, h twoWay hk]
  | _ => simp [hk]

theorem sharing_lawful (owner target : String) : Lawful owner target (sharing owner) where
  fresh := Or.inl rfl
  present := by
    intro r he h
    by_cases hown : ∃ twoWay, r.kind = .composition twoWay ∧ r.source = owner
    · obtain ⟨twoWay, hk, hs⟩ := hown
      have hw : r.isTwoWay = twoWay := by rw [Relation.isTwoWay, hk]; rfl
      refine Or.inr ⟨_, _, Or.inr (Or.inr rfl), sharing_composition hk hs, he, ?_,
        ⟨?_, ?_, ?_, fun _ x hx => hx⟩, sharing_other (by simp)⟩
      · exact Relation.wellShaped_ownership (Or.inr rfl) h.source_label h.target_label
          (hw ▸ h.oneWay_source) (hw ▸ h.loop_oneWay)
      · intro heq
        have hkind := congrArg Relation.kind heq
        rw [hk] at hkind
        cases hkind
      · rw [Relation.strength, hk]
        exact Nat.le_refl 3
      · intro _ x y hxy
        rw [Relation.Navigates, hw] at hxy
        exact hxy
    · refine Or.inl (sharing_other fun twoWay hk hs => hown ⟨twoWay, hk, hs⟩)

theorem usage_lawful (owner target : String) : Lawful owner target (usage owner target) where
  fresh := Or.inr ⟨_, rfl, rfl, Relation.wellShaped_plain (by simp [RelationKind.isTwoWay]),
    .suppressed, Or.inr rfl, rfl⟩
  present _ _ _ := Or.inl ⟨.suppressed, Or.inr rfl, rfl⟩

end Evidence

end ClassDiagram
