import ClassDiagram.Proofs.Registry
import ClassDiagram.Proofs.Text.Names

/-!
# Reading source by source

What a list of sources leads to, in terms of what each of them tells on its own. A source whose name
is new adds one classifier and, if it constructs anything, one entry of evidence behind what is
there (`Registry.Extracted.enroll_of_new`); any other source adds nothing. So more sources only
extend a registry (`prefix_ofSources_append`), and where all names differ the registry is just the
list of what the sources tell (`ofSources_of_nodup`).
-/

namespace ClassDiagram

open Text Source

/-! ## Constructed names -/

theorem Source.isNameChar_of_name? {k k' : Cursor} {name : List Char}
    (h : name? k = some (name, k')) {c : Char} (hc : c ∈ name) : isNameChar c = true := by
  unfold name? at h
  split at h
  · split at h
    · cases h
      exact List.all_eq_true.1 List.all_takeWhile c hc
    · cases h
  · cases h

/-- Only simple names are read behind `new`. -/
theorem Source.Instantiation.isNameChar_of_mem {text : List Char} {name : String}
    (h : name ∈ findAll text) {c : Char} (hc : c ∈ name.toList) : isNameChar c = true := by
  obtain ⟨cs, hcs, rfl⟩ := List.mem_map.1 h
  obtain ⟨k, next, hread⟩ := Cursor.exists_of_mem_scan hcs
  simp only [at?, Option.bind_eq_bind, Option.bind_eq_some_iff] at hread
  obtain ⟨k₁, -, k₂, -, k₃, -, k₄, -, ⟨name, k₅⟩, hname, k₆, -, heq⟩ := hread
  cases heq
  rw [String.toList_ofList] at hc
  exact isNameChar_of_name? hname hc

namespace Extract

theorem isNameChar_of_mem_constructed {settings : Settings} {source : String} {e : Extract}
    (h : ofSource? settings source = some e) {name : String} (hname : name ∈ e.constructed)
    {c : Char} (hc : c ∈ name.toList) : isNameChar c = true := by
  obtain ⟨d, -, rfl⟩ := Option.map_eq_some_iff.1 h
  cases hk : d.kind with
  | classType =>
    simp only [hk, ofClass] at hname
    obtain ⟨s, -, hs⟩ := List.mem_flatMap.1 hname
    unfold constructedIn at hs
    split at hs
    · cases hs
    · split at hs
      · cases hs
      · exact Instantiation.isNameChar_of_mem (List.mem_filter.1 hs).1 hc
  | enumType | interfaceType =>
    simp only [hk] at hname
    cases hname

theorem dot_not_mem_constructed {settings : Settings} {source : String} {e : Extract}
    (h : ofSource? settings source = some e) {name : String} (hname : name ∈ e.constructed) :
    '.' ∉ name.toList := by
  intro hdot
  have hnone : isNameChar '.' = false := by decide +kernel
  exact Bool.noConfusion (hnone.symm.trans (isNameChar_of_mem_constructed h hname hdot))

/-- The name that a source declares. -/
def declaredName? (source : String) : Option String :=
  (Declaration.find? (stripNoise source.toList)).map Declaration.name

theorem map_name_ofSource? (settings : Settings) (source : String) :
    (ofSource? settings source).map (fun e => e.classifier.name) = declaredName? source := by
  unfold ofSource? declaredName?
  rw [Option.map_map]
  congr 1
  funext d
  cases hk : d.kind <;> simp [hk, ofClass, enumeration, interface, Classifier.empty]

/-- The entry of construction evidence for a classifier that constructs anything. -/
def evidence (e : Extract) : List (String × List String) :=
  if e.constructed.eraseDups = [] then [] else [(e.classifier.name, e.constructed.eraseDups)]

theorem eq_of_mem_evidence {e : Extract} {entry : String × List String} (h : entry ∈ e.evidence) :
    entry = (e.classifier.name, e.constructed.eraseDups) := by
  unfold evidence at h
  split at h
  · cases h
  · exact List.mem_singleton.1 h

end Extract

namespace Registry

variable {r : Registry} {e : Extract}

/-- What holds of registries that are read from sources: every owner is declared, and constructed
names are simple. -/
structure Extracted (r : Registry) : Prop extends WF r where
  owners_declared : ∀ owner ∈ r.construction.keys, r.declares owner = true
  simple_names : ∀ e ∈ r.evidence, '.' ∉ e.constructed.toList

theorem enroll_of_declared (h : r.declares e.classifier.name = true) : r.enroll e = r := if_pos h

namespace Extracted

theorem empty : Registry.empty.Extracted where
  toWF := WF.empty
  owners_declared _ h := by cases h
  simple_names _ h := by cases h

/-- A new name comes with one classifier and its evidence, behind what was there. -/
theorem enroll_of_new (h : r.Extracted) (hnew : r.declares e.classifier.name = false) :
    r.enroll e =
      ⟨⟨r.classifiers.entries ++ [(e.classifier.name, e.classifier)]⟩,
        ⟨r.construction.entries ++ e.evidence⟩⟩ := by
  have hname : e.classifier.name ∉ r.classifiers.keys := by
    rw [← declares_iff, hnew]
    exact Bool.false_ne_true
  have howner : e.classifier.name ∉ r.construction.keys := by
    intro hmem
    rw [h.owners_declared _ hmem] at hnew
    cases hnew
  have hdeclare : (r.declare e.classifier).2 =
      ⟨⟨r.classifiers.entries ++ [(e.classifier.name, e.classifier)]⟩, r.construction⟩ := by
    rw [declare, hnew, if_neg Bool.false_ne_true, OrderedMap.put_of_not_mem hname]
  rw [Registry.enroll, hnew, if_neg Bool.false_ne_true, hdeclare]
  exact foldl_record_new _ _ _ howner

theorem enroll (h : r.Extracted) (he : ∀ name ∈ e.constructed, '.' ∉ name.toList) :
    (r.enroll e).Extracted := by
  cases hd : r.declares e.classifier.name with
  | true =>
    rw [enroll_of_declared hd]
    exact h
  | false =>
    refine ⟨h.toWF.enroll e, ?_, ?_⟩
    · intro owner howner
      rw [h.enroll_of_new hd, OrderedMap.keys, List.map_append, List.mem_append] at howner
      rw [h.enroll_of_new hd, declares_iff, OrderedMap.keys, List.map_append, List.mem_append]
      rcases howner with hold | hnew
      · exact Or.inl (declares_iff.1 (h.owners_declared owner hold))
      · obtain ⟨entry, hentry, rfl⟩ := List.mem_map.1 hnew
        rw [e.eq_of_mem_evidence hentry]
        exact Or.inr (by simp)
    · intro piece hpiece
      rw [h.enroll_of_new hd, evidence, List.flatMap_append, List.mem_append] at hpiece
      rcases hpiece with hold | hnew
      · exact h.simple_names piece hold
      · obtain ⟨entry, hentry, hmem⟩ := List.mem_flatMap.1 hnew
        rw [e.eq_of_mem_evidence hentry] at hmem
        obtain ⟨name, hname, rfl⟩ := List.mem_map.1 hmem
        exact he name (List.mem_eraseDups.1 hname)

theorem read (h : r.Extracted) (settings : Settings) (source : String) :
    (r.read settings source).Extracted := by
  unfold Registry.read
  split
  next e he => exact h.enroll fun name => Extract.dot_not_mem_constructed he
  next => exact h

theorem foldl_read (h : r.Extracted) (settings : Settings) (sources : List String) :
    (sources.foldl (Registry.read settings) r).Extracted := by
  induction sources generalizing r with
  | nil => exact h
  | cons source rest ih => exact ih (h.read settings source)

end Extracted

theorem extracted_ofSources (settings : Settings) (sources : List String) :
    (ofSources settings sources).Extracted :=
  Extracted.empty.foldl_read settings sources

/-! ## Where it was told -/

/-- Everything in the registry was told by an extract with the property `p`. -/
structure Told (p : Extract → Prop) (r : Registry) : Prop where
  classifiers : ∀ c ∈ r.classifiers.values, ∃ e, p e ∧ e.classifier = c
  evidence : ∀ piece ∈ r.evidence,
    ∃ e, p e ∧ e.classifier.name = piece.owner ∧ piece.constructed ∈ e.constructed

theorem Told.enroll {p : Extract → Prop} (h : r.Told p) (hr : r.Extracted) (he : p e) :
    (r.enroll e).Told p := by
  cases hd : r.declares e.classifier.name with
  | true =>
    rw [enroll_of_declared hd]
    exact h
  | false =>
    rw [hr.enroll_of_new hd]
    constructor
    · intro c hc
      rw [OrderedMap.values, List.map_append, List.mem_append] at hc
      rcases hc with hold | hnew
      · exact h.classifiers c hold
      · exact ⟨e, he, (List.mem_singleton.1 hnew).symm⟩
    · intro piece hpiece
      rw [Registry.evidence, List.flatMap_append, List.mem_append] at hpiece
      rcases hpiece with hold | hnew
      · exact h.evidence piece hold
      · obtain ⟨entry, hentry, hmem⟩ := List.mem_flatMap.1 hnew
        rw [e.eq_of_mem_evidence hentry] at hmem
        obtain ⟨name, hname, rfl⟩ := List.mem_map.1 hmem
        exact ⟨e, he, rfl, List.mem_eraseDups.1 hname⟩

theorem Told.foldl_read {settings : Settings} {p : Extract → Prop} (h : r.Told p)
    (hr : r.Extracted) {sources : List String}
    (hp : ∀ source ∈ sources, ∀ e, Extract.ofSource? settings source = some e → p e) :
    (sources.foldl (Registry.read settings) r).Told p := by
  induction sources generalizing r with
  | nil => exact h
  | cons source rest ih =>
    refine ih ?_ (hr.read settings source) fun s hs => hp s (List.mem_cons_of_mem _ hs)
    unfold Registry.read
    split
    next e he => exact h.enroll hr (hp source List.mem_cons_self e he)
    next => exact h

theorem told_ofSources (settings : Settings) (sources : List String) :
    (ofSources settings sources).Told fun e =>
      ∃ source ∈ sources, Extract.ofSource? settings source = some e := by
  have hempty : Registry.empty.Told fun e =>
      ∃ source ∈ sources, Extract.ofSource? settings source = some e := ⟨nofun, nofun⟩
  exact hempty.foldl_read .empty fun source hsource e he => ⟨source, hsource, he⟩

/-! ## More sources -/

/-- A registry goes on where another one stops. -/
structure Prefix (r r' : Registry) : Prop where
  classifiers : r.classifiers.entries <+: r'.classifiers.entries
  construction : r.construction.entries <+: r'.construction.entries

theorem Prefix.refl (r : Registry) : r.Prefix r := ⟨List.prefix_rfl, List.prefix_rfl⟩

theorem Prefix.trans {r₁ r₂ r₃ : Registry} (h : r₁.Prefix r₂) (h' : r₂.Prefix r₃) :
    r₁.Prefix r₃ :=
  ⟨h.classifiers.trans h'.classifiers, h.construction.trans h'.construction⟩

theorem Extracted.prefix_read (h : r.Extracted) (settings : Settings) (source : String) :
    r.Prefix (r.read settings source) := by
  unfold Registry.read
  split
  next e _ =>
    cases hd : r.declares e.classifier.name with
    | true =>
      rw [enroll_of_declared hd]
      exact .refl r
    | false =>
      rw [h.enroll_of_new hd]
      exact ⟨List.prefix_append _ _, List.prefix_append _ _⟩
  next => exact .refl r

theorem Extracted.prefix_foldl_read (h : r.Extracted) (settings : Settings)
    (sources : List String) : r.Prefix (sources.foldl (Registry.read settings) r) := by
  induction sources generalizing r with
  | nil => exact .refl r
  | cons source rest ih =>
    exact (h.prefix_read settings source).trans (ih (h.read settings source))

/-- Further sources extend what the first ones lead to. -/
theorem prefix_ofSources_append (settings : Settings) (sources more : List String) :
    (ofSources settings sources).Prefix (ofSources settings (sources ++ more)) := by
  have h := (extracted_ofSources settings sources).prefix_foldl_read settings more
  rwa [ofSources, ofSources, List.foldl_append]

/-! ## Sources of different names -/

theorem Extracted.foldl_enroll_of_nodup (h : r.Extracted) {es : List Extract}
    (he : ∀ e ∈ es, ∀ name ∈ e.constructed, '.' ∉ name.toList)
    (hnodup : (es.map fun e => e.classifier.name).Nodup)
    (hnew : ∀ e ∈ es, r.declares e.classifier.name = false) :
    es.foldl Registry.enroll r =
      ⟨⟨r.classifiers.entries ++ es.map fun e => (e.classifier.name, e.classifier)⟩,
        ⟨r.construction.entries ++ es.flatMap Extract.evidence⟩⟩ := by
  induction es generalizing r with
  | nil => simp
  | cons e es ih =>
    obtain ⟨hfirst, hrest⟩ := List.nodup_cons.1 hnodup
    have hstep := h.enroll_of_new (hnew e List.mem_cons_self)
    have hfresh : ∀ e' ∈ es, (r.enroll e).declares e'.classifier.name = false := by
      intro e' he'
      have hold := hnew e' (List.mem_cons_of_mem _ he')
      have hne : e'.classifier.name ≠ e.classifier.name := fun heq =>
        hfirst (List.mem_map.2 ⟨e', he', heq⟩)
      rw [← Bool.not_eq_true, declares_iff] at hold ⊢
      rw [hstep, OrderedMap.keys, List.map_append, List.mem_append]
      rintro (hmem | hmem)
      · exact hold hmem
      · exact hne (List.mem_singleton.1 hmem)
    rw [List.foldl_cons, ih (h.enroll (he e List.mem_cons_self))
      (fun e' he' => he e' (List.mem_cons_of_mem _ he')) hrest hfresh, hstep]
    simp

theorem ofSources_eq_foldl (settings : Settings) (sources : List String) :
    ofSources settings sources =
      (sources.filterMap (Extract.ofSource? settings)).foldl Registry.enroll .empty := by
  rw [List.foldl_filterMap, ofSources]
  congr 1
  funext r source
  unfold Registry.read
  cases Extract.ofSource? settings source <;> rfl

/-- Sources of different names lead to the list of what they tell. -/
theorem ofSources_of_nodup (settings : Settings) {sources : List String}
    (hnodup : (sources.filterMap Extract.declaredName?).Nodup) :
    ofSources settings sources =
      ⟨⟨(sources.filterMap (Extract.ofSource? settings)).map fun e =>
          (e.classifier.name, e.classifier)⟩,
        ⟨(sources.filterMap (Extract.ofSource? settings)).flatMap Extract.evidence⟩⟩ := by
  rw [ofSources_eq_foldl, Extracted.empty.foldl_enroll_of_nodup]
  · rfl
  · intro e he name
    obtain ⟨source, -, hsource⟩ := List.mem_filterMap.1 he
    exact Extract.dot_not_mem_constructed hsource
  · rw [List.map_filterMap]
    simpa only [Extract.map_name_ofSource?] using hnodup
  · exact fun e _ => rfl

end Registry

end ClassDiagram
