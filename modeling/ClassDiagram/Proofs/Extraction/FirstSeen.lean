import Mathlib.Data.List.Induction
import ClassDiagram.Proofs.Extraction.Units

/-!
# The first source of every name

Which sources count is decided by the declared names alone: a source is kept if it declares a name
that no earlier source declares (`firstSeen`). What a kept source adds is what it leads to on its
own (`alone`), placed behind what is there (`read_ofSources`), so a registry is the kept sources'
own registries one behind the other (`ofSources_eq_flatMap`).
-/

namespace ClassDiagram.Registry

open Extract

/-- The source declares a name that none of the earlier ones declares. -/
def isFirst (earlier : List String) (source : String) : Bool :=
  (declaredName? source).any fun name => earlier.all fun s => declaredName? s != some name

/-- The sources that are kept when the `earlier` ones come before them. -/
def firstSeenAfter (earlier : List String) : List String → List String
  | [] => []
  | source :: rest =>
    if isFirst earlier source then source :: firstSeenAfter (earlier ++ [source]) rest
    else firstSeenAfter (earlier ++ [source]) rest

/-- The sources that declare a name before any other source does. -/
def firstSeen (sources : List String) : List String := firstSeenAfter [] sources

/-- What a source leads to on its own. -/
def alone (settings : Settings) (source : String) : Registry := read settings .empty source

theorem isFirst_eq_false_iff {earlier : List String} {source : String} :
    isFirst earlier source = false ↔
      declaredName? source = none ∨ ∃ s ∈ earlier, declaredName? s = declaredName? source := by
  unfold isFirst
  cases declaredName? source with
  | none => simp
  | some name => simp

theorem firstSeenAfter_concat (earlier sources : List String) (source : String) :
    firstSeenAfter earlier (sources ++ [source]) =
      firstSeenAfter earlier sources ++
        if isFirst (earlier ++ sources) source then [source] else [] := by
  induction sources generalizing earlier with
  | nil => simp [firstSeenAfter]
  | cons s rest ih =>
    rw [List.cons_append, firstSeenAfter, firstSeenAfter, ih, List.append_assoc,
      List.singleton_append]
    by_cases hs : isFirst earlier s
    · rw [if_pos hs, if_pos hs, List.cons_append]
    · rw [if_neg hs, if_neg hs]

theorem firstSeen_concat (sources : List String) (source : String) :
    firstSeen (sources ++ [source]) =
      firstSeen sources ++ if isFirst sources source then [source] else [] :=
  firstSeenAfter_concat [] sources source

theorem alone_of_extract {settings : Settings} {source : String} {e : Extract}
    (he : ofSource? settings source = some e) :
    alone settings source = ⟨⟨[(e.classifier.name, e.classifier)]⟩, ⟨e.evidence⟩⟩ := by
  unfold alone read
  rw [he]
  exact Extracted.empty.enroll_of_new rfl

/-! ## One source after others -/

section Sources

variable (settings : Settings)

/-- What one more source does: if its name is new, then what it leads to on its own comes behind
what is there; otherwise nothing happens. -/
theorem Extracted.read_eq {r : Registry} (h : r.Extracted) (source : String) :
    r.read settings source =
      if (declaredName? source).any fun name => !r.declares name then
        ⟨⟨r.classifiers.entries ++ (alone settings source).classifiers.entries⟩,
          ⟨r.construction.entries ++ (alone settings source).construction.entries⟩⟩
      else r := by
  rw [← map_name_ofSource? settings source]
  unfold Registry.read
  cases he : ofSource? settings source with
  | none => rfl
  | some e =>
    cases hd : r.declares e.classifier.name with
    | true =>
      rw [if_neg (by simp [hd])]
      exact enroll_of_declared hd
    | false =>
      rw [if_pos (by simp [hd]), alone_of_extract he]
      exact h.enroll_of_new hd

theorem Extracted.declares_read {r : Registry} (h : r.Extracted) (source name : String) :
    (r.read settings source).declares name = true ↔
      r.declares name = true ∨ declaredName? source = some name := by
  rw [h.read_eq, ← map_name_ofSource? settings source]
  cases he : ofSource? settings source with
  | none => simp
  | some e =>
    rw [Option.map_some, Option.some.injEq]
    cases hd : r.declares e.classifier.name with
    | true =>
      rw [if_neg (by simp [hd])]
      exact ⟨Or.inl, fun hor => hor.elim id fun heq => heq ▸ hd⟩
    | false =>
      rw [if_pos (by simp [hd]), alone_of_extract he, declares_iff, declares_iff]
      simp [OrderedMap.keys, eq_comm]

theorem ofSources_concat (sources : List String) (source : String) :
    ofSources settings (sources ++ [source]) =
      (ofSources settings sources).read settings source := by
  simp [ofSources]

theorem declares_ofSources_iff (sources : List String) (name : String) :
    (ofSources settings sources).declares name = true ↔
      ∃ s ∈ sources, declaredName? s = some name := by
  induction sources using List.reverseRecOn with
  | nil =>
    rw [declares_iff]
    exact ⟨nofun, nofun⟩
  | append_singleton sources source ih =>
    rw [ofSources_concat, (extracted_ofSources settings sources).declares_read, ih]
    simp only [List.mem_append, List.mem_singleton, or_and_right, exists_or, exists_eq_left]

theorem isFirst_iff_declares (sources : List String) (source : String) :
    isFirst sources source =
      (declaredName? source).any fun name => !(ofSources settings sources).declares name := by
  unfold isFirst
  congr 1
  funext name
  rw [Bool.eq_iff_iff, Bool.not_eq_true', ← Bool.not_eq_true, declares_ofSources_iff]
  simp

theorem read_ofSources (sources : List String) (source : String) :
    (ofSources settings sources).read settings source =
      if isFirst sources source then
        ⟨⟨(ofSources settings sources).classifiers.entries ++
            (alone settings source).classifiers.entries⟩,
          ⟨(ofSources settings sources).construction.entries ++
            (alone settings source).construction.entries⟩⟩
      else ofSources settings sources := by
  rw [(extracted_ofSources settings sources).read_eq, isFirst_iff_declares settings]

/-- A registry is what the kept sources lead to on their own, one behind the other. -/
theorem ofSources_eq_flatMap (sources : List String) :
    ofSources settings sources =
      ⟨⟨(firstSeen sources).flatMap fun s => (alone settings s).classifiers.entries⟩,
        ⟨(firstSeen sources).flatMap fun s => (alone settings s).construction.entries⟩⟩ := by
  induction sources using List.reverseRecOn with
  | nil => rfl
  | append_singleton sources source ih =>
    rw [ofSources_concat, read_ofSources, firstSeen_concat]
    by_cases hfirst : isFirst sources source
    · rw [if_pos hfirst, if_pos hfirst, ih]
      simp
    · rw [if_neg hfirst, if_neg hfirst, List.append_nil, ih]

theorem exists_extract_of_mem_firstSeen {sources : List String} {source : String}
    (h : source ∈ firstSeen sources) : ∃ e, ofSource? settings source = some e := by
  induction sources using List.reverseRecOn with
  | nil => cases h
  | append_singleton sources last ih =>
    rw [firstSeen_concat, List.mem_append] at h
    rcases h with h | h
    · exact ih h
    · split at h
      next hfirst =>
        obtain ⟨name, hname, -⟩ := (Option.any_eq_true _ _).1 hfirst
        rw [← map_name_ofSource? settings last] at hname
        obtain ⟨e, he, -⟩ := Option.map_eq_some_iff.1 hname
        exact ⟨e, List.mem_singleton.1 h ▸ he⟩
      next => cases h

end Sources

/-- **A registry is made of the first source of every name, each read on its own.** The classifiers
and the evidence are those of the kept sources' own registries, in their order. Each of these holds
one classifier, under the declared name, and evidence for no one else, listed only if there is any.
A source that declares nothing or repeats a name could as well be left out. -/
theorem ofSources_firstSeen (settings : Settings) (sources : List String) :
    ofSources settings sources =
      ⟨⟨(firstSeen sources).flatMap fun s => (alone settings s).classifiers.entries⟩,
        ⟨(firstSeen sources).flatMap fun s => (alone settings s).construction.entries⟩⟩ ∧
    (∀ s ∈ firstSeen sources, ∃ c types, declaredName? s = some c.name ∧
      (alone settings s).classifiers.entries = [(c.name, c)] ∧
      (alone settings s).construction.entries = if types = [] then [] else [(c.name, types)]) ∧
    ∀ front source back, sources = front ++ source :: back →
      (declaredName? source = none ∨ ∃ s ∈ front, declaredName? s = declaredName? source) →
        ofSources settings sources = ofSources settings (front ++ back) := by
  refine ⟨ofSources_eq_flatMap settings sources, ?_, ?_⟩
  · intro s hs
    obtain ⟨e, he⟩ := exists_extract_of_mem_firstSeen settings hs
    have hname := map_name_ofSource? settings s
    rw [he] at hname
    rw [alone_of_extract he]
    exact ⟨e.classifier, e.constructed.eraseDups, hname.symm, rfl, rfl⟩
  · rintro front source back rfl hidle
    have hstep := read_ofSources settings front source
    rw [isFirst_eq_false_iff.2 hidle, if_neg Bool.false_ne_true] at hstep
    unfold ofSources at hstep ⊢
    rw [List.foldl_append, List.foldl_cons, hstep, List.foldl_append]

end ClassDiagram.Registry
