import Mathlib.Data.List.Basic
import ClassDiagram.CommandLine.Run
import ClassDiagram.Proofs.Inference.Edges

/-!
# Diagrams and their sources

How a diagram depends on the list of its sources. More sources never take a relation away or make it
weaker (`Registry.Prefix.get?_infer`): a relation is as strong as the registry warrants, and the
registry only grows. The order of sources with different names hardly shows
(`Registry.Rearranged.edge_eq`): it decides who comes first where two classes construct each other,
and which end stands on the left where each says the same of the other.
-/

namespace ClassDiagram

open Inference NamePair

/-- Valid settings lead to a diagram, whatever the sources are. -/
theorem Diagram.build_of_valid {settings : Settings} (hvalid : settings.validate = .ok ())
    (units : List SourceUnit) :
    build settings (.ok units) = .ok (ofSources settings (units.map SourceUnit.text)) := by
  unfold build
  rw [hvalid]
  rfl

/-! ## More sources -/

namespace Registry.Prefix

variable {settings : Settings} {r r' : Registry} (h : r.Prefix r')

include h

theorem within : r.Within r' :=
  ⟨OrderedMap.get?_of_prefix h.classifiers, OrderedMap.get?_of_prefix h.construction⟩

theorem owners : r.construction.keys <+: r'.construction.keys := h.construction.map Prod.fst

/-- An owner that comes before an old one is an old one, and constructed it before. -/
theorem constructs_of_idxOf_le (hr : r.Extracted) {x y : String} (hx : x ∈ r.construction.keys)
    (hle : r'.construction.keys.idxOf y ≤ r'.construction.keys.idxOf x)
    (hconstructs : Constructs settings r' y x) : Constructs settings r y x := by
  obtain ⟨⟨types', htypes', hmem⟩, hknown⟩ := hconstructs
  have hy : y ∈ r.construction.keys := by
    rw [← List.idxOf_lt_length_iff] at hx ⊢
    calc r.construction.keys.idxOf y
        ≤ r'.construction.keys.idxOf y := h.owners.idxOf_le y
      _ ≤ r'.construction.keys.idxOf x := hle
      _ = r.construction.keys.idxOf x :=
        (h.owners.idxOf_eq_of_mem (List.idxOf_lt_length_iff.1 hx)).symm
      _ < r.construction.keys.length := hx
  obtain ⟨types, htypes⟩ : ∃ types, r.constructedBy? y = some types := by
    rw [← Option.ne_none_iff_exists']
    exact fun hnone => OrderedMap.get?_eq_none_iff.1 hnone hy
  have hsame : types = types' :=
    Option.some.inj ((h.within.constructedBy? htypes).symm.trans htypes')
  obtain ⟨hrelatable, -, hname⟩ := knownTarget?_eq_some_iff.1 hknown
  exact ⟨⟨types, htypes, hsame ▸ hmem⟩,
    knownTarget?_eq_some_iff.2 ⟨hrelatable, fun _ => hr.owners_declared x hx, hname⟩⟩

/-- Who owns whom stays. -/
theorem owner_eq (hr : r.Extracted) {e e' : Relation} (he : OwnershipForm settings r e)
    (he' : OwnershipForm settings r' e') (hends : e'.ends = e.ends) :
    e'.source = e.source ∧ e'.target = e.target := by
  rcases of_eq_of_iff.1 hends with hsame | ⟨hs, ht⟩
  · exact hsame
  · -- Then the target owns the source and comes first, now and before: they are one.
    have hconstructs := he'.constructs
    have hfirst := he'.first
    rw [hs, ht] at hconstructs hfirst
    have hle' := hfirst (h.within.constructs he.constructs)
    obtain ⟨types, htypes, -⟩ := he.constructs.1
    have hsource := OrderedMap.mem_keys_of_get?_eq_some htypes
    have hle := calc
      r'.construction.keys.idxOf e.source
        = r.construction.keys.idxOf e.source := (h.owners.idxOf_eq_of_mem hsource).symm
      _ ≤ r.construction.keys.idxOf e.target :=
        he.first (h.constructs_of_idxOf_le hr hsource hle' hconstructs)
      _ ≤ r'.construction.keys.idxOf e.target := h.owners.idxOf_le e.target
    have hloop : e.source = e.target :=
      (List.idxOf_inj (h.owners.subset hsource)).1 (Nat.le_antisymm hle hle')
    exact ⟨hs.trans hloop.symm, ht.trans hloop⟩

/-- The way back of a relation stays. -/
theorem isTwoWay (hr : r.Extracted) {e e' : Relation} (he : EdgeForm settings r e)
    (he' : EdgeForm settings r' e') (hends : e'.ends = e.ends) (htwoWay : e.isTwoWay = true) :
    e'.isTwoWay = true := by
  cases he with
  | ownership _ form =>
    obtain ⟨hne, hback⟩ := form.twoWay.1 htwoWay
    have howned : Between (Constructs settings r') e'.ends :=
      ⟨_, _, hends.symm, h.within.constructs form.constructs⟩
    cases he' with
    | association free _ _ => exact absurd howned free
    | dependency free _ _ _ => exact absurd howned free
    | ownership _ form' =>
      obtain ⟨hs, ht⟩ := h.owner_eq hr form form' hends
      rw [form'.twoWay, hs, ht]
      exact ⟨hne, h.within.refers hback⟩
  | association _ _ form =>
    obtain ⟨hne, hforth, hback⟩ := form.twoWay.1 htwoWay
    have hboth : ∀ x y, NamePair.of x y = e.ends → x ≠ y ∧ Refers settings r' x y := by
      intro x y hxy
      rcases of_eq_of_iff.1 hxy with ⟨rfl, rfl⟩ | ⟨rfl, rfl⟩
      · exact ⟨hne, h.within.refers hforth⟩
      · exact ⟨Ne.symm hne, h.within.refers hback⟩
    obtain ⟨hne', hforth'⟩ := hboth _ _ hends
    have hback' := (hboth _ _ ((NamePair.of_comm _ _).trans hends)).2
    cases he' with
    | ownership _ form' => exact form'.twoWay.2 ⟨hne', hback'⟩
    | association _ _ form' => exact form'.twoWay.2 ⟨hne', hforth', hback'⟩
    | dependency _ unreferred _ _ => exact absurd ⟨_, _, rfl, hforth'⟩ unreferred
  | dependency _ _ plain _ =>
    rw [plain] at htwoWay
    cases htwoWay

/-- The relation of a pair only gets stronger. -/
theorem get?_infer (hr : r.Extracted) (hr' : r'.Extracted) {a b : String} {e : Relation}
    (hget : (infer settings r).get? a b = some e) :
    ∃ e', (infer settings r').get? a b = some e' ∧ e.strength.rank ≤ e'.strength.rank ∧
      (e.isTwoWay = true → e'.isTwoWay = true) ∧
      ∀ name label, e.Carries name label → e'.Carries name label := by
  have hsome : (infer settings r').get? a b ≠ none :=
    h.within.get?_infer_ne_none hr hr' (hget ▸ Option.some_ne_none e)
  obtain ⟨e', hget'⟩ := Option.ne_none_iff_exists'.1 hsome
  have hends : e'.ends = e.ends := (ends_of_get?_infer hget').trans (ends_of_get?_infer hget).symm
  have he := edgeForm_of_get?_infer hr.toWF hr.simple_names hget
  have he' := edgeForm_of_get?_infer hr'.toWF hr'.simple_names hget'
  refine ⟨e', hget', ?_, h.isTwoWay hr he he' hends, fun _ _ => h.within.carries he he' hends⟩
  rw [he'.rank_le_iff, hends]
  exact h.within.warrants ((he.rank_le_iff _).1 (Nat.le_refl _))

end Registry.Prefix

/-- **More sources never take a relation away or make it weaker.** With valid settings, the diagram
of further sources starts with the classifiers of the diagram without them and has its hierarchy
edges. A pair with a relation keeps one that is at least as strong, leads back if it did, and
carries the multiplicity of a collection at every end that carried it. -/
theorem Diagram.build_append (settings : Settings) (hvalid : settings.validate = .ok ())
    (units more : List SourceUnit) :
    ∃ d d', build settings (.ok units) = .ok d ∧ build settings (.ok (units ++ more)) = .ok d' ∧
      d.registry.classifiers.values <+: d'.registry.classifiers.values ∧
      (∀ e ∈ d.relations.hierarchy, e ∈ d'.relations.hierarchy) ∧
      ∀ a b r, d.relations.get? a b = some r →
        ∃ r', d'.relations.get? a b = some r' ∧ r.strength.rank ≤ r'.strength.rank ∧
          (r.isTwoWay = true → r'.isTwoWay = true) ∧
          ∀ name, r.Carries name "0..*" → r'.Carries name "0..*" := by
  have hprefix := Registry.prefix_ofSources_append settings (units.map SourceUnit.text)
    (more.map SourceUnit.text)
  rw [← List.map_append] at hprefix
  have hold := Registry.extracted_ofSources settings (units.map SourceUnit.text)
  have hnew := Registry.extracted_ofSources settings ((units ++ more).map SourceUnit.text)
  refine ⟨_, _, build_of_valid hvalid units, build_of_valid hvalid (units ++ more),
    hprefix.classifiers.map Prod.snd, ?_, ?_⟩
  · intro e he
    rw [ofSources, ofRegistry, mem_hierarchy_infer] at he ⊢
    exact hprefix.within.hierarchyEvidence hold.toWF hnew.toWF he
  · intro a b r hget
    obtain ⟨r', hget', hrank, htwoWay, hcarries⟩ := hprefix.get?_infer hold hnew hget
    exact ⟨r', hget', hrank, htwoWay, fun name => hcarries name "0..*"⟩

/-- An order lists its items. -/
def orderSource : SourceUnit := ⟨"Order.java", "class Order { List<Item> items; }"⟩

/-- An item constructs the order that it belongs to. -/
def itemSource : SourceUnit :=
  ⟨"Item.java", "class Item { Order order; Item() { order = new Order(); } }"⟩

/-- A clerk takes orders. -/
def clerkSource : SourceUnit := ⟨"Clerk.java", "class Clerk { void take(Order order) { } }"⟩

/-- The items of an order stay many when it turns out that they own it. -/
theorem Diagram.build_append_item :
    ∃ d d', build .default (.ok [orderSource]) = .ok d ∧
      build .default (.ok ([orderSource] ++ [itemSource, clerkSource])) = .ok d' ∧
      d.relations.get? "Order" "Item" =
        some ⟨"Order", "Item", .association false, none, some "0..*"⟩ ∧
      ∃ r', d'.relations.get? "Order" "Item" = some r' ∧
        Strength.rank .multiplicity ≤ r'.strength.rank ∧ r'.Carries "Item" "0..*" := by
  have hvalid : Settings.default.validate = .ok () := by decide +kernel
  obtain ⟨d, d', hd, hd', -, -, hrelations⟩ :=
    build_append .default hvalid [orderSource] [itemSource, clerkSource]
  have hget : d.relations.get? "Order" "Item" =
      some ⟨"Order", "Item", .association false, none, some "0..*"⟩ := by
    rw [Except.ok.inj (hd.symm.trans (build_of_valid hvalid [orderSource]))]
    decide +kernel
  obtain ⟨r', hget', hrank, -, hcarries⟩ := hrelations _ _ _ hget
  exact ⟨d, d', hd, hd', hget, r', hget', hrank, hcarries "Item" (Or.inl ⟨rfl, rfl⟩)⟩

/-! ## Sources in another order -/

namespace Registry

/-- The same classifiers and evidence, listed in another order. -/
structure Rearranged (r r' : Registry) : Prop where
  classifiers : r.classifiers.entries.Perm r'.classifiers.entries
  construction : r.construction.entries.Perm r'.construction.entries

/-- Sources of different names lead to the same entries in every order. -/
theorem rearranged_ofSources (settings : Settings) {sources sources' : List String}
    (hperm : sources.Perm sources') (hnames : (sources.filterMap Extract.declaredName?).Nodup) :
    (ofSources settings sources).Rearranged (ofSources settings sources') := by
  have hnames' := (hperm.filterMap Extract.declaredName?).nodup_iff.1 hnames
  have hextracts := hperm.filterMap (Extract.ofSource? settings)
  rw [ofSources_of_nodup settings hnames, ofSources_of_nodup settings hnames']
  exact ⟨hextracts.map _, hextracts.flatMap_right _⟩

namespace Rearranged

variable {settings : Settings} {r r' : Registry} (h : r.Rearranged r')

include h

theorem symm : r'.Rearranged r := ⟨h.classifiers.symm, h.construction.symm⟩

theorem within (hr : r.WF) (hr' : r'.WF) : r.Within r' where
  classifier? hget :=
    (OrderedMap.get?_eq_some_iff hr'.names_nodup).2 <|
      h.classifiers.mem_iff.1 ((OrderedMap.get?_eq_some_iff hr.names_nodup).1 hget)
  constructedBy? hget :=
    (OrderedMap.get?_eq_some_iff hr'.owners_nodup).2 <|
      h.construction.mem_iff.1 ((OrderedMap.get?_eq_some_iff hr.owners_nodup).1 hget)

theorem length_ownersOf (name : String) : (r.ownersOf name).length = (r'.ownersOf name).length :=
  ((h.construction.filter _).map _).length_eq

section Edge

variable (hr : r.WF) (hr' : r'.WF) {e e' : Relation} (hends : e'.ends = e.ends)

include hr hr' hends

/-- Ownership where only one of two names constructs the other. -/
theorem ownership_eq (he : OwnershipForm settings r e) (he' : OwnershipForm settings r' e')
    (honce : ¬ (⟨e.source, e.target⟩ ∈ r.evidence ∧ ⟨e.target, e.source⟩ ∈ r.evidence)) :
    e'.kind = e.kind ∧ e'.source = e.source := by
  have hin := h.within hr hr'
  have hout := h.symm.within hr' hr
  rcases of_eq_of_iff.1 hends with ⟨hs, ht⟩ | ⟨hs, ht⟩
  · have hback : Refers settings r' e.target e.source ↔ Refers settings r e.target e.source :=
      ⟨hout.refers, hin.refers⟩
    have htwoWay : e'.isTwoWay = e.isTwoWay := by
      rw [Bool.eq_iff_iff, he'.twoWay, he.twoWay, hs, ht, hback]
    refine ⟨?_, hs⟩
    rw [he'.kind, he.kind, htwoWay, ht, h.length_ownersOf]
  · have hconstructs := hout.constructs he'.constructs
    rw [hs, ht] at hconstructs
    exact absurd ⟨hr.mem_evidence_iff.2 he.constructs.1, hr.mem_evidence_iff.2 hconstructs.1⟩ honce

/-- An association starts at the same end unless it has both directions. -/
theorem association_eq (hk : e.kind = .association e.isTwoWay)
    (hk' : e'.kind = .association e'.isTwoWay) (he : AssociationForm settings r e)
    (he' : AssociationForm settings r' e') :
    e'.kind = e.kind ∧ (e'.source = e.source ∨ e.kind = .association true) := by
  have hin := h.within hr hr'
  have hout := h.symm.within hr' hr
  have hrefers : ∀ x y, Refers settings r' x y ↔ Refers settings r x y :=
    fun _ _ => ⟨hout.refers, hin.refers⟩
  have hforth := he'.forward
  have htwoWay := he'.twoWay
  rcases of_eq_of_iff.1 hends with ⟨hs, ht⟩ | ⟨hs, ht⟩
  · rw [hs, ht, hrefers, hrefers, ← he.twoWay, ← Bool.eq_iff_iff] at htwoWay
    exact ⟨by rw [hk', hk, htwoWay], Or.inl hs⟩
  · rw [hs, ht, hrefers, hrefers, ne_comm, and_comm (a := Refers _ _ e.target _), ← he.twoWay,
      ← Bool.eq_iff_iff] at htwoWay
    refine ⟨by rw [hk', hk, htwoWay], ?_⟩
    by_cases hloop : e.source = e.target
    · exact Or.inl (hs.trans hloop.symm)
    · rw [hs, ht, hrefers] at hforth
      rw [he.twoWay.2 ⟨hloop, he.forward, hforth⟩] at hk
      exact Or.inr hk

/-- What does not depend on the order in the relation of a pair whose names do not construct each
other. -/
theorem edge_eq (he : EdgeForm settings r e) (he' : EdgeForm settings r' e')
    (honce : ¬ (⟨e.source, e.target⟩ ∈ r.evidence ∧ ⟨e.target, e.source⟩ ∈ r.evidence)) :
    e'.kind = e.kind ∧ (e'.source = e.source ∨ e.kind = .association true ∨
      (e.kind = .dependency ∧ Uses settings r e.source e.target ∧
        Uses settings r e.target e.source)) := by
  have hin := h.within hr hr'
  have hout := h.symm.within hr' hr
  cases he with
  | ownership _ form =>
    have howned : Between (Constructs settings r') e'.ends :=
      ⟨_, _, hends.symm, hin.constructs form.constructs⟩
    cases he' with
    | ownership _ form' => exact (h.ownership_eq hr hr' hends form form' honce).imp_right Or.inl
    | association free _ _ => exact absurd howned free
    | dependency free _ _ _ => exact absurd howned free
  | association free kind form =>
    cases he' with
    | ownership _ form' => exact absurd ⟨_, _, hends, hout.constructs form'.constructs⟩ free
    | association _ kind' form' =>
      obtain ⟨hkind, hsource⟩ := h.association_eq hr hr' hends kind kind' form form'
      exact ⟨hkind, hsource.imp_right Or.inl⟩
    | dependency _ unreferred _ _ =>
      exact absurd ⟨_, _, hends.symm, hin.refers form.forward⟩ unreferred
  | dependency free unreferred plain uses =>
    cases he' with
    | ownership _ form' => exact absurd ⟨_, _, hends, hout.constructs form'.constructs⟩ free
    | association _ _ form' => exact absurd ⟨_, _, hends, hout.refers form'.forward⟩ unreferred
    | dependency _ _ plain' uses' =>
      have hk : e.kind = .dependency := by
        rw [plain]
        rfl
      have hk' : e'.kind = .dependency := by
        rw [plain']
        rfl
      refine ⟨hk'.trans hk.symm, ?_⟩
      rcases of_eq_of_iff.1 hends with ⟨hs, -⟩ | ⟨hs, ht⟩
      · exact Or.inl hs
      · have hback := hout.uses uses'
        rw [hs, ht] at hback
        exact Or.inr (Or.inr ⟨hk, uses, hback⟩)

end Edge

end Rearranged

end Registry

/-- **The order of sources with different names hardly shows.** With valid settings, two orders lead
to the same classifiers, evidence, hierarchy edges and related pairs. The relations of a pair whose
names do not construct each other have one kind, which includes the directions, and the same
multiplicities; the same end stands on the left unless the relation is an association of both
directions or a dependency by which each name uses the other. -/
theorem Diagram.build_perm (settings : Settings) (hvalid : settings.validate = .ok ())
    (units units' : List SourceUnit) (hperm : units.Perm units')
    (hnames : (units.filterMap fun u => Extract.declaredName? u.text).Nodup) :
    ∃ d d', build settings (.ok units) = .ok d ∧ build settings (.ok units') = .ok d' ∧
      d.registry.classifiers.values.Perm d'.registry.classifiers.values ∧
      (∀ owner, d.registry.constructedBy? owner = d'.registry.constructedBy? owner) ∧
      d.relations.hierarchy.Perm d'.relations.hierarchy ∧
      (∀ a b, d.relations.get? a b = none ↔ d'.relations.get? a b = none) ∧
      ∀ a b r r', d.relations.get? a b = some r → d'.relations.get? a b = some r' →
        ¬ (⟨a, b⟩ ∈ d.registry.evidence ∧ ⟨b, a⟩ ∈ d.registry.evidence) →
        r'.kind = r.kind ∧ (∀ name label, r'.Carries name label ↔ r.Carries name label) ∧
        (r'.source = r.source ∨ r.kind = .association true ∨
          (r.kind = .dependency ∧ Uses settings d.registry a b ∧
            Uses settings d.registry b a)) := by
  have hnames' : ((units.map SourceUnit.text).filterMap Extract.declaredName?).Nodup := by
    rwa [List.filterMap_map]
  have h := Registry.rearranged_ofSources settings (hperm.map SourceUnit.text) hnames'
  have hr := Registry.extracted_ofSources settings (units.map SourceUnit.text)
  have hr' := Registry.extracted_ofSources settings (units'.map SourceUnit.text)
  have hin := h.within hr.toWF hr'.toWF
  have hout := h.symm.within hr'.toWF hr.toWF
  refine ⟨_, _, build_of_valid hvalid units, build_of_valid hvalid units',
    h.classifiers.map Prod.snd, ?_, ?_, ?_, ?_⟩
  · intro owner
    exact Option.ext fun types => ⟨hin.constructedBy?, hout.constructedBy?⟩
  · refine (List.perm_ext_iff_of_nodup (wf_infer _ _).hierarchy_nodup
      (wf_infer _ _).hierarchy_nodup).2 fun e => ?_
    rw [mem_hierarchy_infer, mem_hierarchy_infer]
    exact ⟨hin.hierarchyEvidence hr.toWF hr'.toWF, hout.hierarchyEvidence hr'.toWF hr.toWF⟩
  · intro a b
    exact not_iff_not.1 ⟨hin.get?_infer_ne_none hr hr', hout.get?_infer_ne_none hr' hr⟩
  · intro a b r r' hget hget' honce
    have hends := ends_of_get?_infer hget
    have hsame : r'.ends = r.ends := (ends_of_get?_infer hget').trans hends.symm
    have he := edgeForm_of_get?_infer hr.toWF hr.simple_names hget
    have he' := edgeForm_of_get?_infer hr'.toWF hr'.simple_names hget'
    have hlabels : ∀ name label, r'.Carries name label ↔ r.Carries name label :=
      fun _ _ => ⟨hout.carries he' he hsame.symm, hin.carries he he' hsame⟩
    have hedge := h.edge_eq hr.toWF hr'.toWF hsame he he'
    rcases Relation.ends_eq_iff.1 hends with ⟨rfl, rfl⟩ | ⟨rfl, rfl⟩
    · obtain ⟨hkind, hsource⟩ := hedge honce
      exact ⟨hkind, hlabels, hsource⟩
    · obtain ⟨hkind, hsource⟩ := hedge fun hboth => honce hboth.symm
      exact ⟨hkind, hlabels, hsource.imp_right fun hrest => hrest.imp_right fun huses =>
        ⟨huses.1, huses.2.symm⟩⟩

/-- An order that its items own is drawn in the same way if the sources are read backwards. -/
theorem Diagram.build_perm_reverse :
    ∃ d d', build .default (.ok [orderSource, itemSource, clerkSource]) = .ok d ∧
      build .default (.ok [clerkSource, itemSource, orderSource]) = .ok d' ∧
      d.relations.get? "Order" "Item" =
        some ⟨"Item", "Order", .composition true, some "0..*", none⟩ ∧
      ∃ r', d'.relations.get? "Order" "Item" = some r' ∧ r'.kind = .composition true ∧
        r'.Carries "Item" "0..*" ∧ r'.source = "Item" := by
  have hvalid : Settings.default.validate = .ok () := by decide +kernel
  obtain ⟨d, d', hd, hd', -, -, -, hpairs, hrelations⟩ :=
    build_perm .default hvalid [orderSource, itemSource, clerkSource]
      [clerkSource, itemSource, orderSource] (List.reverse_perm _).symm (by decide +kernel)
  have hd₀ := Except.ok.inj (hd.symm.trans (build_of_valid hvalid _))
  have hget : d.relations.get? "Order" "Item" =
      some ⟨"Item", "Order", .composition true, some "0..*", none⟩ := by
    rw [hd₀]
    decide +kernel
  have honce : ¬ (⟨"Order", "Item"⟩ ∈ d.registry.evidence ∧
      ⟨"Item", "Order"⟩ ∈ d.registry.evidence) := by
    rw [hd₀]
    decide +kernel
  have hsome : d'.relations.get? "Order" "Item" ≠ none := by
    rw [ne_eq, ← hpairs, hget]
    exact Option.some_ne_none _
  obtain ⟨r', hget'⟩ := Option.ne_none_iff_exists'.1 hsome
  obtain ⟨hkind, hcarries, hsource⟩ := hrelations _ _ _ r' hget hget' honce
  refine ⟨d, d', hd, hd', hget, r', hget', hkind, ?_, hsource.resolve_right (by simp)⟩
  exact (hcarries "Item" "0..*").2 (Or.inr ⟨rfl, rfl⟩)

end ClassDiagram
