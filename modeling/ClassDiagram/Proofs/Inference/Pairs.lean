import ClassDiagram.Proofs.Relation.Runs

/-!
# Inference seen from one pair

What a pass does to the relation of a pair depends on that relation and on the pieces of evidence
about the pair, and on nothing else (`get?_takeIn`). So the passes can be followed for one pair at a
time. `Reflects` is the invariant of the first two passes: the relation leads exactly the ways that
were referred to, and carries a multiplicity exactly where something is collected. Constructions
then fix the kind and the left end once (`foldl_creation`), shared ones change the kind again
(`foldl_sharing`), and uses only fill a pair that is still empty (`foldl_usage`).
-/

namespace ClassDiagram.Inference

open Evidence

/-- The relation of a pair after one piece of evidence, which may be about another pair. -/
def settle (op : Transition) (pair : NamePair) (current? : Option Relation) (piece : Piece) :
    Option Relation :=
  if NamePair.of piece.1 piece.2 = pair then
    (op.rule piece.1 piece.2 current?).relation?.or current?
  else current?

theorem settle_self (op : Transition) (owner target : String) (current? : Option Relation) :
    settle op (.of owner target) current? (owner, target) =
      (op.rule owner target current?).relation?.or current? :=
  if_pos rfl

theorem get?_apply_self (s : RelationSet) (a b : String) (rule : Option Relation → Outcome) :
    (s.apply a b rule).2.get? a b = (rule (s.get? a b)).relation?.or (s.get? a b) := by
  unfold RelationSet.apply
  cases h : (rule (s.get? a b)).relation? with
  | none => simp only [h, Option.none_or]
  | some r =>
    simp only [h, Option.some_or]
    exact s.get?_write_self a b r

theorem get?_run (op : Transition) (s : RelationSet) (piece : Piece) (a b : String) :
    (op.run s piece.1 piece.2).2.get? a b = settle op (.of a b) (s.get? a b) piece := by
  rw [op.run_eq_apply]
  unfold settle
  by_cases hp : NamePair.of piece.1 piece.2 = NamePair.of a b
  · have hget : ∀ s : RelationSet, s.get? a b = s.get? piece.1 piece.2 := by
      intro s
      unfold RelationSet.get?
      rw [hp]
    rw [if_pos hp, hget, hget, get?_apply_self]
  · rw [if_neg hp, RelationSet.get?_apply_of_ne s _ (Ne.symm hp)]

/-- A pass acts on each pair by itself. -/
theorem get?_takeIn (op : Transition) (pieces : List Piece) (s : RelationSet) (a b : String) :
    (takeIn op.run pieces s).get? a b = pieces.foldl (settle op (.of a b)) (s.get? a b) := by
  unfold takeIn
  induction pieces generalizing s with
  | nil => rfl
  | cons piece rest ih =>
    rw [List.foldl_cons, List.foldl_cons, ih, get?_run]

theorem edges_hierarchyPass (settings : Settings) (registry : Registry) (s : RelationSet) :
    (hierarchyPass settings registry s).edges = s.edges := by
  unfold hierarchyPass
  induction hierarchyEvidence settings registry generalizing s with
  | nil => rfl
  | cons e rest ih =>
    rw [List.foldl_cons, ih]
    rfl

/-- The passes, one transition at a time. -/
theorem infer_eq_takeIn (settings : Settings) (registry : Registry) :
    infer settings registry =
      takeIn Transition.depend.run (usageEvidence settings registry)
        (takeIn Transition.share.run (sharingEvidence registry)
          (takeIn Transition.compose.run (creationEvidence settings registry)
            (takeIn Transition.associateMany.run (collectionEvidence settings registry)
              (takeIn Transition.associate.run (referenceEvidence settings registry)
                (hierarchyPass settings registry .empty))))) :=
  rfl

theorem wf_infer (settings : Settings) (registry : Registry) : (infer settings registry).WF :=
  RelationSet.wf_after [.hierarchyPass settings registry, .referencePass settings registry,
    .collectionPass settings registry, .constructionPass settings registry,
    .usagePass settings registry]

/-! Hierarchy edges come from the first pass only. -/

theorem hierarchy_hierarchyPass (settings : Settings) (registry : Registry) (s : RelationSet) :
    (hierarchyPass settings registry s).hierarchy =
      (hierarchyEvidence settings registry).foldl appendNew s.hierarchy := by
  unfold hierarchyPass
  induction hierarchyEvidence settings registry generalizing s with
  | nil => rfl
  | cons e rest ih => exact ih _

theorem hierarchy_takeIn (op : Transition) (pieces : List Piece) (s : RelationSet) :
    (takeIn op.run pieces s).hierarchy = s.hierarchy := by
  unfold takeIn
  induction pieces generalizing s with
  | nil => rfl
  | cons piece rest ih =>
    rw [List.foldl_cons, ih, op.run_eq_apply, RelationSet.hierarchy_apply]

theorem hierarchy_infer (settings : Settings) (registry : Registry) :
    (infer settings registry).hierarchy =
      (hierarchyEvidence settings registry).foldl appendNew [] := by
  rw [infer_eq_takeIn, hierarchy_takeIn, hierarchy_takeIn, hierarchy_takeIn, hierarchy_takeIn,
    hierarchy_takeIn, hierarchy_hierarchyPass]
  rfl

theorem mem_foldl_appendNew {α : Type} [BEq α] [LawfulBEq α] {known xs : List α} {x : α} :
    x ∈ xs.foldl appendNew known ↔ x ∈ known ∨ x ∈ xs := by
  induction xs generalizing known with
  | nil => simp
  | cons y rest ih => rw [List.foldl_cons, ih, mem_appendNew, List.mem_cons, or_assoc]

theorem mem_hierarchy_infer {settings : Settings} {registry : Registry} {e : HierarchyEdge} :
    e ∈ (infer settings registry).hierarchy ↔ e ∈ hierarchyEvidence settings registry := by
  rw [hierarchy_infer, mem_foldl_appendNew]
  simp

/-- The relation that inference gives a pair, pass by pass. -/
theorem get?_infer (settings : Settings) (registry : Registry) (a b : String) :
    (infer settings registry).get? a b =
      (usageEvidence settings registry).foldl (settle .depend (.of a b))
        ((sharingEvidence registry).foldl (settle .share (.of a b))
          ((creationEvidence settings registry).foldl (settle .compose (.of a b))
            ((collectionEvidence settings registry).foldl (settle .associateMany (.of a b))
              ((referenceEvidence settings registry).foldl (settle .associate (.of a b))
                none)))) := by
  have hstart : (hierarchyPass settings registry .empty).get? a b = none := by
    unfold RelationSet.get?
    rw [edges_hierarchyPass]
    rfl
  rw [infer_eq_takeIn, get?_takeIn, get?_takeIn, get?_takeIn, get?_takeIn, get?_takeIn, hstart]

/-! ## References and collections -/

theorem right_eq_iff {x y owner target : String}
    (h : NamePair.of x y = NamePair.of owner target) : y = target ↔ x = owner ∧ y = target := by
  refine ⟨?_, And.right⟩
  rintro rfl
  rcases NamePair.of_eq_of_iff.1 h with ⟨hx, -⟩ | ⟨hx, hy⟩
  · exact ⟨hx, rfl⟩
  · exact ⟨hx.trans hy, rfl⟩

/-- The association of a pair says what it was told: it leads the ways of `refs` and carries a
multiplicity where `colls` has an element. -/
def Reflects (pair : NamePair) (refs colls : String → String → Prop) :
    Option Relation → Prop
  | none => ∀ x y, NamePair.of x y = pair → ¬ refs x y ∧ ¬ colls x y
  | some r => r.ends = pair ∧ r.WellShaped ∧ (∃ twoWay, r.kind = .association twoWay) ∧
      ∀ x y, NamePair.of x y = pair → (r.Navigates x y ↔ refs x y) ∧ (r.Labelled y ↔ colls x y)

namespace Reflects

variable {owner target : String} {refs colls : String → String → Prop}
  {current? : Option Relation}

/-! What is known already is no news. -/

theorem told_iff (h : refs owner target) {x y : String} :
    refs x y ∨ (x = owner ∧ y = target) ↔ refs x y := by
  refine ⟨?_, Or.inl⟩
  rintro (hxy | ⟨rfl, rfl⟩)
  · exact hxy
  · exact h

theorem told_of_back (h : refs target owner) {x y : String}
    (hxy : NamePair.of x y = NamePair.of owner target) : refs x y ∨ (x = owner ∧ y = target) := by
  rcases NamePair.of_eq_of_iff.1 hxy with ⟨rfl, rfl⟩ | ⟨rfl, rfl⟩
  · exact Or.inr ⟨rfl, rfl⟩
  · exact Or.inl h

theorem reference (h : Reflects (.of owner target) refs (fun _ _ => False) current?) :
    Reflects (.of owner target) (fun x y => refs x y ∨ (x = owner ∧ y = target))
      (fun _ _ => False)
      ((Evidence.reference owner target current?).relation?.or current?) := by
  cases current? with
  | none =>
    refine ⟨rfl, Relation.wellShaped_plain nofun, ⟨false, rfl⟩, ?_⟩
    intro x y hxy
    have hnone := h x y hxy
    refine ⟨?_, iff_of_false (Relation.not_labelled_of_hasLabel_eq_false rfl y) id⟩
    rw [Relation.navigates_of_oneWay rfl]
    simp [Relation.plain, hnone, eq_comm]
  | some r =>
    obtain ⟨he, hshape, ⟨twoWay, hk⟩, hr⟩ := h
    have hl : r.hasLabel = false := by
      rw [Bool.eq_false_iff]
      intro hl
      obtain ⟨y, hy⟩ := Relation.exists_labelled hl
      obtain ⟨x, hx⟩ := hy.ends
      exact (hr x y (hx.trans he)).2.1 hy
    have hrule := reference_association he hk hl
    by_cases hn : r.Navigates owner target
    · rw [if_pos hn] at hrule
      rw [hrule]
      refine ⟨he, hshape, ⟨twoWay, hk⟩, ?_⟩
      intro x y hxy
      have hknown := (hr owner target rfl).1.1 hn
      exact ⟨(hr x y hxy).1.trans (told_iff hknown).symm, (hr x y hxy).2⟩
    · rw [if_neg hn] at hrule
      rw [hrule]
      have hback : r.Navigates target owner := by
        rcases Relation.ends_eq_iff.1 he with hends | hends
        · exact absurd (Or.inl hends) hn
        · exact Or.inl hends
      have hne : owner ≠ target := by
        rintro rfl
        exact hn hback
      refine ⟨rfl, Relation.wellShaped_plain fun _ => hne, ⟨true, rfl⟩, ?_⟩
      intro x y hxy
      refine ⟨?_, iff_of_false (Relation.not_labelled_of_hasLabel_eq_false rfl y) id⟩
      exact iff_of_true (Relation.navigates_of_twoWay rfl hxy.symm)
        (told_of_back ((hr _ _ (NamePair.of_comm _ _)).1.1 hback) hxy)

theorem labelled_collection (twoWay : Bool) {x y : String}
    (hxy : NamePair.of x y = NamePair.of owner target) :
    Relation.Labelled ⟨owner, target, .association twoWay, none, some many⟩ y ↔
      x = owner ∧ y = target := by
  rw [← right_eq_iff hxy]
  simp [Relation.Labelled, eq_comm]

/-- The first collection of a pair decides its left end. -/
theorem collection_of_plain {r : Relation}
    (h : Reflects (.of owner target) refs colls (some r)) (hl : r.hasLabel = false) :
    Reflects (.of owner target) (fun x y => refs x y ∨ (x = owner ∧ y = target))
      (fun x y => colls x y ∨ (x = owner ∧ y = target))
      ((Evidence.collection owner target (some r)).relation?.or (some r)) := by
  obtain ⟨he, hshape, ⟨twoWay, hk⟩, hr⟩ := h
  have hcolls : ∀ x y, NamePair.of x y = .of owner target → ¬ colls x y := by
    intro x y hxy hc
    exact Relation.not_labelled_of_hasLabel_eq_false hl y ((hr x y hxy).2.2 hc)
  have hrule := collection_plain hshape he hk hl
  by_cases hn : owner ≠ target ∧ r.Navigates target owner
  · rw [if_pos hn] at hrule
    rw [hrule]
    refine ⟨rfl, Relation.wellShaped_collection fun _ => hn.1, ⟨true, rfl⟩, ?_⟩
    intro x y hxy
    rw [labelled_collection true hxy]
    refine ⟨iff_of_true (Relation.navigates_of_twoWay rfl hxy.symm) ?_, by simp [hcolls x y hxy]⟩
    exact told_of_back ((hr _ _ (NamePair.of_comm _ _)).1.1 hn.2) hxy
  · rw [if_neg hn] at hrule
    rw [hrule]
    refine ⟨rfl, Relation.wellShaped_collection nofun, ⟨false, rfl⟩, ?_⟩
    intro x y hxy
    rw [labelled_collection false hxy, Relation.navigates_of_oneWay rfl]
    refine ⟨⟨?_, ?_⟩, by simp [hcolls x y hxy]⟩
    · rintro ⟨rfl, rfl⟩
      exact Or.inr ⟨rfl, rfl⟩
    · rintro (href | ⟨rfl, rfl⟩)
      · rcases NamePair.of_eq_of_iff.1 hxy with ⟨rfl, rfl⟩ | ⟨rfl, rfl⟩
        · exact ⟨rfl, rfl⟩
        · by_cases hloop : x = y
          · exact ⟨hloop.symm, hloop⟩
          · exact absurd ⟨Ne.symm hloop, (hr _ _ hxy).1.2 href⟩ hn
      · exact ⟨rfl, rfl⟩

/-- Another collection of a pair leaves it, or adds the way back. -/
theorem collection_of_labelled {r : Relation}
    (h : Reflects (.of owner target) refs colls (some r)) (hl : r.hasLabel = true) :
    Reflects (.of owner target) (fun x y => refs x y ∨ (x = owner ∧ y = target))
      (fun x y => colls x y ∨ (x = owner ∧ y = target))
      ((Evidence.collection owner target (some r)).relation?.or (some r)) := by
  obtain ⟨he, hshape, ⟨twoWay, hk⟩, hr⟩ := h
  have hrule := collection_labelled hshape he hk hl
  by_cases hn : r.Navigates owner target ∧ r.Labelled target
  · rw [if_pos hn] at hrule
    rw [hrule]
    refine ⟨he, hshape, ⟨twoWay, hk⟩, ?_⟩
    intro x y hxy
    obtain ⟨hnavigates, hlabel⟩ := hr owner target rfl
    exact ⟨(hr x y hxy).1.trans (told_iff (hnavigates.1 hn.1)).symm,
      (hr x y hxy).2.trans (told_iff (hlabel.1 hn.2)).symm⟩
  · rw [if_neg hn] at hrule
    rw [hrule]
    -- The association is one of the other direction, labelled at the owner.
    have htarget := hshape.association_target _ hk hl
    have hends : r.source = target ∧ r.target = owner := by
      rcases Relation.ends_eq_iff.1 he with hends | hends
      · exact absurd ⟨Or.inl hends, Or.inl ⟨hends.2, htarget⟩⟩ hn
      · exact hends
    have hne : target ≠ owner := by
      rintro rfl
      exact hn ⟨Or.inl hends, Or.inl ⟨hends.2, htarget⟩⟩
    have hback := NamePair.of_comm target owner
    refine ⟨hback, Relation.wellShaped_collections hne, ⟨true, rfl⟩, ?_⟩
    obtain ⟨hnavigates, hlabel⟩ := hr target owner hback
    intro x y hxy
    refine ⟨iff_of_true (Relation.navigates_of_twoWay rfl (hback.trans hxy.symm)) ?_,
      iff_of_true ?_ ?_⟩
    · exact told_of_back (hnavigates.1 (Or.inl hends)) hxy
    · rcases NamePair.of_eq_of_iff.1 hxy with ⟨-, rfl⟩ | ⟨-, rfl⟩
      · exact Or.inr ⟨rfl, rfl⟩
      · exact Or.inl ⟨rfl, rfl⟩
    · exact told_of_back (hlabel.1 (Or.inl ⟨hends.2, htarget⟩)) hxy

theorem collection (h : Reflects (.of owner target) refs colls current?) :
    Reflects (.of owner target) (fun x y => refs x y ∨ (x = owner ∧ y = target))
      (fun x y => colls x y ∨ (x = owner ∧ y = target))
      ((Evidence.collection owner target current?).relation?.or current?) := by
  cases current? with
  | none =>
    refine ⟨rfl, Relation.wellShaped_collection nofun, ⟨false, rfl⟩, ?_⟩
    intro x y hxy
    have hnone := h x y hxy
    rw [Relation.navigates_of_oneWay rfl, labelled_collection false hxy]
    simp [hnone, eq_comm]
  | some r =>
    cases hl : r.hasLabel with
    | false => exact h.collection_of_plain hl
    | true => exact h.collection_of_labelled hl

/-- What a reflection says only depends on the pieces about its pair. -/
theorem congr {pair : NamePair} {refs refs' colls colls' : String → String → Prop}
    (h : Reflects pair refs colls current?)
    (hrefs : ∀ x y, NamePair.of x y = pair → (refs x y ↔ refs' x y))
    (hcolls : ∀ x y, NamePair.of x y = pair → (colls x y ↔ colls' x y)) :
    Reflects pair refs' colls' current? := by
  cases current? with
  | none =>
    intro x y hxy
    rw [← hrefs x y hxy, ← hcolls x y hxy]
    exact h x y hxy
  | some r =>
    obtain ⟨he, hshape, hk, hr⟩ := h
    refine ⟨he, hshape, hk, ?_⟩
    intro x y hxy
    rw [← hrefs x y hxy, ← hcolls x y hxy]
    exact hr x y hxy

theorem mem_cons_of_other {pair : NamePair} {rest : List Piece} {x y : String}
    (hp : NamePair.of owner target ≠ pair) (hxy : NamePair.of x y = pair) :
    (x, y) ∈ (owner, target) :: rest ↔ (x, y) ∈ rest := by
  have hne : (x, y) ≠ (owner, target) := by
    intro heq
    cases heq
    exact hp hxy
  simp only [List.mem_cons, hne, false_or]

theorem foldl_reference {pair : NamePair} (pieces : List Piece)
    (h : Reflects pair refs (fun _ _ => False) current?) :
    Reflects pair (fun x y => refs x y ∨ (x, y) ∈ pieces) (fun _ _ => False)
      (pieces.foldl (settle .associate pair) current?) := by
  induction pieces generalizing refs current? with
  | nil => exact h.congr (by simp) (by simp)
  | cons piece rest ih =>
    obtain ⟨owner, target⟩ := piece
    rw [List.foldl_cons]
    by_cases hp : NamePair.of owner target = pair
    · subst hp
      rw [settle_self]
      exact (ih h.reference).congr (by simp [or_assoc]) (by simp)
    · rw [settle, if_neg hp]
      refine (ih h).congr ?_ (by simp)
      intro x y hxy
      rw [mem_cons_of_other hp hxy]

theorem foldl_collection {pair : NamePair} (pieces : List Piece)
    (h : Reflects pair refs colls current?) :
    Reflects pair (fun x y => refs x y ∨ (x, y) ∈ pieces) (fun x y => colls x y ∨ (x, y) ∈ pieces)
      (pieces.foldl (settle .associateMany pair) current?) := by
  induction pieces generalizing refs colls current? with
  | nil => exact h.congr (by simp) (by simp)
  | cons piece rest ih =>
    obtain ⟨owner, target⟩ := piece
    rw [List.foldl_cons]
    by_cases hp : NamePair.of owner target = pair
    · subst hp
      rw [settle_self]
      exact (ih h.collection).congr (by simp [or_assoc]) (by simp [or_assoc])
    · rw [settle, if_neg hp]
      refine (ih h).congr ?_ ?_
      · intro x y hxy
        rw [mem_cons_of_other hp hxy]
      · intro x y hxy
        rw [mem_cons_of_other hp hxy]

end Reflects

/-! ## Constructions -/

/-- The composition of a pair: it leads from the constructing owner, and back if the target refers
to the owner; multiplicities are where something is collected. -/
structure Composed (refs colls : String → String → Prop) (owner target : String) (r : Relation) :
    Prop where
  source_eq : r.source = owner
  target_eq : r.target = target
  shaped : r.WellShaped
  kind : r.kind = .composition r.isTwoWay
  twoWay : r.isTwoWay = true ↔ owner ≠ target ∧ refs target owner
  labelled : ∀ x y, NamePair.of x y = .of owner target → (r.Labelled y ↔ colls x y)

theorem Reflects.creation {owner target : String} {refs colls : String → String → Prop}
    {current? : Option Relation} (h : Reflects (.of owner target) refs colls current?) :
    ∃ r, (Evidence.creation owner target current?).relation?.or current? = some r ∧
      Composed refs colls owner target r := by
  have hback := NamePair.of_comm target owner
  cases current? with
  | none =>
    refine ⟨_, rfl, rfl, rfl, Relation.wellShaped_plain nofun, rfl, ?_, ?_⟩
    · exact iff_of_false nofun fun hrefs => (h target owner hback).1 hrefs.2
    · intro x y hxy
      exact iff_of_false (Relation.not_labelled_of_hasLabel_eq_false rfl y) (h x y hxy).2
  | some r =>
    obtain ⟨he, hshape, ⟨twoWay, hk⟩, hr⟩ := h
    obtain ⟨hsource, htarget⟩ := Relation.orientFrom_ends he
    have hrule := creation_association hshape he hk
    refine ⟨r.composedBy owner (decide (owner ≠ target ∧ r.Navigates target owner)),
      by rw [hrule]; rfl, hsource, htarget, hshape.composedBy he, rfl, ?_, ?_⟩
    · rw [← (hr target owner hback).1]
      exact decide_eq_true_iff
    · intro x y hxy
      exact (Relation.labelled_orientFrom r owner y).trans (hr x y hxy).2

/-- A relation that a transition leaves as it is, whatever the evidence, stays to the end. -/
theorem foldl_settle_of_settles (op : Transition) {pair : NamePair} {r : Relation}
    (h : ∀ owner target, Settles (op.rule owner target) r) (pieces : List Piece) :
    pieces.foldl (settle op pair) (some r) = some r := by
  induction pieces with
  | nil => rfl
  | cons piece rest ih =>
    have hstep : settle op pair (some r) piece = some r := by
      obtain ⟨c, -, hkeep⟩ := h piece.1 piece.2
      unfold settle
      rw [hkeep]
      exact ite_self (some r)
    rw [List.foldl_cons, hstep, ih]

/-- The first construction about a pair decides who owns whom. -/
theorem Reflects.foldl_creation {pair : NamePair} {refs colls : String → String → Prop}
    {current? : Option Relation} (h : Reflects pair refs colls current?) (pieces : List Piece) :
    (pieces.find? (fun piece => NamePair.of piece.1 piece.2 = pair) = none ∧
      pieces.foldl (settle .compose pair) current? = current?) ∨
    ∃ piece r, pieces.find? (fun piece => NamePair.of piece.1 piece.2 = pair) = some piece ∧
      pieces.foldl (settle .compose pair) current? = some r ∧
      Composed refs colls piece.1 piece.2 r := by
  induction pieces with
  | nil => exact Or.inl ⟨rfl, rfl⟩
  | cons piece rest ih =>
    obtain ⟨owner, target⟩ := piece
    rw [List.foldl_cons]
    by_cases hp : NamePair.of owner target = pair
    · subst hp
      obtain ⟨r, hr, hcomposed⟩ := h.creation
      have hstrength : r.strength = .ownership := by
        rw [Relation.strength, hcomposed.kind]
      refine Or.inr ⟨(owner, target), r, by simp, ?_, hcomposed⟩
      rw [settle_self]
      exact (congrArg (rest.foldl _) hr).trans
        (foldl_settle_of_settles .compose (fun _ _ => creation_ownership hstrength) rest)
    · rw [settle, if_neg hp, List.find?_cons_of_neg (by simpa using hp)]
      exact ih

/-- A composition becomes an aggregation when its own construction is among the shared ones. -/
theorem foldl_sharing_composition {r : Relation} {twoWay : Bool}
    (hk : r.kind = .composition twoWay) (pieces : List Piece) :
    pieces.foldl (settle .share r.ends) (some r) =
      some (if (r.source, r.target) ∈ pieces then { r with kind := .aggregation twoWay }
        else r) := by
  induction pieces with
  | nil => rfl
  | cons piece rest ih =>
    obtain ⟨owner, target⟩ := piece
    rw [List.foldl_cons]
    by_cases hpiece : (r.source, r.target) = (owner, target)
    · have hstep : settle .share r.ends (some r) (owner, target) =
          some { r with kind := .aggregation twoWay } := by
        cases hpiece
        have hrule : Transition.share.rule r.source r.target (some r) = _ :=
          sharing_composition hk rfl
        rw [Relation.ends, settle_self, hrule]
        rfl
      have hshared : ∀ owner target, Settles (Transition.share.rule owner target)
          { r with kind := .aggregation twoWay } := fun _ _ => sharing_other nofun
      rw [hstep, foldl_settle_of_settles .share hshared rest, if_pos]
      exact hpiece ▸ List.mem_cons_self
    · have hstep : settle .share r.ends (some r) (owner, target) = some r := by
        by_cases hp : NamePair.of owner target = r.ends
        · have howner : r.source ≠ owner := by
            rintro rfl
            rcases NamePair.of_eq_of_iff.1 hp with ⟨-, ht⟩ | ⟨hs, ht⟩
            · exact hpiece (by rw [ht])
            · exact hpiece (by rw [ht, hs])
          obtain ⟨c, -, hkeep⟩ := sharing_other fun w _ => howner
          have hrule : Transition.share.rule owner target (some r) = keep c := hkeep
          rw [← hp, settle_self, hrule]
          rfl
        · exact if_neg hp
      rw [hstep, ih]
      simp only [List.mem_cons, hpiece, false_or]

theorem foldl_sharing_none {pair : NamePair} (pieces : List Piece) :
    pieces.foldl (settle .share pair) none = none := by
  induction pieces with
  | nil => rfl
  | cons piece rest ih =>
    have hstep : settle .share pair none piece = none := ite_self none
    rw [List.foldl_cons, hstep, ih]

/-! ## Uses -/

theorem foldl_usage_some {pair : NamePair} (r : Relation) (pieces : List Piece) :
    pieces.foldl (settle .depend pair) (some r) = some r :=
  foldl_settle_of_settles .depend (fun _ _ => ⟨.suppressed, Or.inr rfl, rfl⟩) pieces

/-- The first use decides the dependency of a pair of which nothing else is known. -/
theorem foldl_usage_none {pair : NamePair} (pieces : List Piece) :
    pieces.foldl (settle .depend pair) none =
      (pieces.find? fun piece => NamePair.of piece.1 piece.2 = pair).map fun piece =>
        .plain piece.1 piece.2 .dependency := by
  induction pieces with
  | nil => rfl
  | cons piece rest ih =>
    rw [List.foldl_cons, settle]
    by_cases hp : NamePair.of piece.1 piece.2 = pair
    · have hrule : (Transition.depend.rule piece.1 piece.2 none).relation?.or none =
          some (.plain piece.1 piece.2 .dependency) := rfl
      rw [if_pos hp, hrule, foldl_usage_some, List.find?_cons_of_pos (by simpa using hp)]
      rfl
    · rw [if_neg hp, List.find?_cons_of_neg (by simpa using hp), ih]

end ClassDiagram.Inference
