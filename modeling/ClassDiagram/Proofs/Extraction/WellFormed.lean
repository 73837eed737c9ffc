import ClassDiagram.Proofs.Extraction.FirstSeen

/-!
# Registries read from sources are well formed

Whatever the texts are, a classifier has only the parts that its kind can have, its members bear
names that are no reserved words, and the roles of its methods follow from their names
(`Classifier.WellFormed`). Evidence belongs to a class with a method that can construct, and names
no containers (`Registry.WellFormed`).
-/

namespace ClassDiagram

open Text Source

/-! ## Names and roles of members -/

theorem Source.Signature.not_isReserved {text : List Char} {least : Nat} {owner : String}
    {s : Signature} (h : s ∈ findAll text least owner) : isReserved s.name = false := by
  have hmember : isMember owner s = true := (List.mem_filter.1 h).2
  rw [isMember, Bool.and_eq_true, Bool.not_eq_true'] at hmember
  exact hmember.1

theorem Source.Field.not_isReserved {text : List Char} {f : Field} (h : f ∈ findAll text) :
    isReserved f.name = false := by
  obtain ⟨⟨modifiers, type, name⟩, -, hf⟩ := List.mem_filterMap.1 h
  simp only at hf
  split at hf
  next => cases hf
  next hwords =>
    cases hf
    rw [Bool.or_eq_true, not_or] at hwords
    exact Bool.eq_false_iff.2 hwords.2

namespace Extract

variable {settings : Settings} {owner name : String}

theorem roleOf_eq_constructor_iff : roleOf settings owner name = .constructor ↔ name = owner := by
  unfold roleOf
  split
  next h => exact ⟨fun _ => h, fun _ => rfl⟩
  next h => split <;> simp [h]

theorem roleOf_eq_entryPoint_iff :
    roleOf settings owner name = .entryPoint ↔ name ≠ owner ∧ name = settings.entryPoint := by
  unfold roleOf
  split
  next h => simp [h]
  next h => split <;> simp_all

/-- What a signature's body constructs counts only for a constructor or an entry point, and only if
it is no container. -/
theorem of_mem_constructedIn {s : Signature} {type : String}
    (h : type ∈ constructedIn settings owner s) :
    roleOf settings owner s.name ≠ .regular ∧ settings.isContainer type = false := by
  unfold constructedIn at h
  split at h
  next => cases h
  next hrole =>
    split at h
    next => cases h
    next => exact ⟨hrole, Bool.not_eq_true' _ ▸ (List.mem_filter.1 h).2⟩

end Extract

/-! ## Classifiers -/

/-- A classifier has only the parts of its kind. In a class, a method has the role that its name
tells, and a constructor is there for everyone. -/
def Classifier.FitsKind (settings : Settings) (c : Classifier) : Prop :=
  match c.kind with
  | .classType =>
    c.constants = [] ∧ (∀ a ∈ c.attributes, a.name ≠ c.name) ∧
    ∀ m ∈ c.methods,
      (m.role = .constructor ↔ m.name = c.name) ∧
      (m.role = .constructor → m.visibility = .everyone) ∧
      (m.role = .entryPoint ↔ m.name ≠ c.name ∧ m.name = settings.entryPoint)
  | .enumType =>
    c.attributes = [] ∧ c.methods = [] ∧ c.parent? = none ∧ c.interfaces = [] ∧
      c.typeParameters = []
  | .interfaceType =>
    c.attributes = [] ∧ c.interfaces = [] ∧ c.constants = [] ∧ ∀ m ∈ c.methods, m.role = .regular

/-- The invariant of classifiers that are read from sources. -/
structure Classifier.WellFormed (settings : Settings) (c : Classifier) : Prop where
  fitsKind : c.FitsKind settings
  methods : ∀ m ∈ c.methods, m.name ∉ reservedWords
  attributes : ∀ a ∈ c.attributes, a.name ∉ reservedWords
  types : ∀ a ∈ c.attributes, a.type? = TypeExpr.read? a.declaredType

namespace Extract

theorem not_mem_reservedWords {word : String} (h : isReserved word = false) :
    word ∉ reservedWords := by
  intro hmem
  rw [isReserved, List.contains_iff_mem.2 hmem] at h
  cases h

/-- The methods of a classifier, whatever roles they are given. -/
theorem method_name_of_mem {text : List Char} {least : Nat} {owner : String}
    (role : Signature → MethodRole) {m : Method}
    (h : m ∈ (Signature.findAll text least owner).map fun s => method (role s) s) :
    m.name ∉ reservedWords := by
  obtain ⟨s, hs, rfl⟩ := List.mem_map.1 h
  exact not_mem_reservedWords (Signature.not_isReserved hs)

theorem of_mem_attributes {d : Declaration} {signatures : List Signature} {a : Attribute}
    (h : a ∈ attributes d signatures) :
    a.name ≠ d.name ∧ a.name ∉ reservedWords ∧ a.type? = TypeExpr.read? a.declaredType := by
  obtain ⟨f, hf, rfl⟩ := List.mem_map.1 h
  obtain ⟨hfound, hname⟩ := List.mem_filter.1 hf
  exact ⟨bne_iff_ne.1 hname, not_mem_reservedWords (Field.not_isReserved hfound), rfl⟩

theorem fitsKind_ofClass (settings : Settings) (text : List Char) (d : Declaration) :
    (ofClass settings text d).classifier.FitsKind settings := by
  refine ⟨rfl, fun a ha => (of_mem_attributes ha).1, ?_⟩
  intro m hm
  obtain ⟨s, -, rfl⟩ := List.mem_map.1 hm
  refine ⟨roleOf_eq_constructor_iff, ?_, roleOf_eq_entryPoint_iff⟩
  intro hrole
  exact if_pos hrole

theorem wellFormed_ofSource? {settings : Settings} {source : String} {e : Extract}
    (h : ofSource? settings source = some e) : e.classifier.WellFormed settings := by
  obtain ⟨d, -, rfl⟩ := Option.map_eq_some_iff.1 h
  cases hk : d.kind with
  | classType =>
    exact ⟨fitsKind_ofClass settings _ d, fun _ => method_name_of_mem _,
      fun _ ha => (of_mem_attributes ha).2.1, fun _ ha => (of_mem_attributes ha).2.2⟩
  | enumType => exact ⟨⟨rfl, rfl, rfl, rfl, rfl⟩, nofun, nofun, nofun⟩
  | interfaceType =>
    refine ⟨⟨rfl, rfl, rfl, ?_⟩, fun _ => method_name_of_mem fun _ => .regular, nofun, nofun⟩
    intro m hm
    obtain ⟨s, -, rfl⟩ := List.mem_map.1 hm
    rfl

/-- What is constructed was found in the body of a constructor or an entry point of a class. -/
theorem of_mem_constructed {settings : Settings} {source : String} {e : Extract}
    (h : ofSource? settings source = some e) {type : String} (htype : type ∈ e.constructed) :
    e.classifier.kind = .classType ∧
      (∃ m ∈ e.classifier.methods, m.role = .constructor ∨ m.role = .entryPoint) ∧
      settings.isContainer type = false := by
  obtain ⟨d, -, rfl⟩ := Option.map_eq_some_iff.1 h
  cases hk : d.kind with
  | classType =>
    simp only [hk] at htype ⊢
    obtain ⟨s, hs, hmem⟩ := List.mem_flatMap.1 htype
    obtain ⟨hrole, hcontainer⟩ := of_mem_constructedIn hmem
    refine ⟨rfl, ⟨_, List.mem_map.2 ⟨s, hs, rfl⟩, ?_⟩, hcontainer⟩
    change roleOf settings d.name s.name = _ ∨ roleOf settings d.name s.name = _
    cases hr : roleOf settings d.name s.name with
    | regular => exact absurd hr hrole
    | constructor => exact Or.inl rfl
    | entryPoint => exact Or.inr rfl
  | enumType | interfaceType =>
    simp only [hk] at htype
    cases htype

end Extract

/-! ## Registries -/

/-- The invariant of registries that are read from sources. -/
structure Registry.WellFormed (settings : Settings) (r : Registry) : Prop extends WF r where
  classifiers : ∀ c ∈ r.classifiers.values, c.WellFormed settings
  owners : ∀ owner types, r.constructedBy? owner = some types →
    ∃ c, r.classifier? owner = some c ∧ c.kind = .classType ∧
      ∃ m ∈ c.methods, m.role = .constructor ∨ m.role = .entryPoint
  evidence : ∀ owner types, r.constructedBy? owner = some types → types ≠ [] ∧ types.Nodup ∧
    ∀ type ∈ types, settings.isContainer type = false ∧ '.' ∉ type.toList

namespace Registry

/-- What a registry keeps for an owner was told by one source, together with the owner's
classifier. -/
theorem exists_extract_of_constructedBy? {settings : Settings} {sources : List String}
    {owner : String} {types : List String}
    (h : (ofSources settings sources).constructedBy? owner = some types) :
    ∃ source e, Extract.ofSource? settings source = some e ∧
      (ofSources settings sources).classifier? owner = some e.classifier ∧
      types = e.constructed.eraseDups ∧ types ≠ [] := by
  have hentry : (owner, types) ∈ (ofSources settings sources).construction.entries :=
    OrderedMap.mem_of_get?_eq_some h
  have hnames := (wf_ofSources settings sources).names_nodup
  have hflat := ofSources_eq_flatMap settings sources
  rw [hflat] at hentry
  obtain ⟨s, hs, hentry⟩ := List.mem_flatMap.1 hentry
  obtain ⟨e, he⟩ := exists_extract_of_mem_firstSeen settings hs
  rw [alone_of_extract he] at hentry
  have hpair := e.eq_of_mem_evidence hentry
  cases hpair
  refine ⟨s, e, he, ?_, rfl, ?_⟩
  · refine (OrderedMap.get?_eq_some_iff hnames).2 ?_
    rw [hflat]
    refine List.mem_flatMap.2 ⟨s, hs, ?_⟩
    rw [alone_of_extract he]
    exact List.mem_singleton_self _
  · intro hnone
    simp [Extract.evidence, hnone] at hentry

/-- **Registries read from sources are well formed**, whatever the settings and the texts are. -/
theorem wellFormed_ofSources (settings : Settings) (sources : List String) :
    (ofSources settings sources).WellFormed settings := by
  have hwf := wf_ofSources settings sources
  refine ⟨hwf, ?_, ?_, ?_⟩
  · intro c hc
    obtain ⟨e, ⟨source, -, he⟩, rfl⟩ := (told_ofSources settings sources).classifiers c hc
    exact Extract.wellFormed_ofSource? he
  · intro owner types htypes
    obtain ⟨source, e, he, hclassifier, rfl, hne⟩ := exists_extract_of_constructedBy? htypes
    obtain ⟨type, htype⟩ := List.exists_mem_of_ne_nil _ hne
    obtain ⟨hkind, hmaker, -⟩ := Extract.of_mem_constructed he (List.mem_eraseDups.1 htype)
    exact ⟨e.classifier, hclassifier, hkind, hmaker⟩
  · intro owner types htypes
    obtain ⟨source, e, he, -, rfl, hne⟩ := exists_extract_of_constructedBy? htypes
    refine ⟨hne, hwf.evidence_nodup owner _ (OrderedMap.mem_of_get?_eq_some htypes), ?_⟩
    intro type htype
    have hmem := List.mem_eraseDups.1 htype
    exact ⟨(Extract.of_mem_constructed he hmem).2.2, Extract.dot_not_mem_constructed he hmem⟩

end Registry

end ClassDiagram
