import ClassDiagram.Document

/-!
# Lines of a document

A document is written line by line, and each line ends with a line feed. Cut at its line feeds, it
gives these lines back if none of them holds a line feed itself, and only then
(`splitOn_unlines_iff`).
-/

namespace ClassDiagram.Document

/-- No line feed stands in the text. -/
def OneLine (s : String) : Prop := '\n' ∉ s.toList

instance (s : String) : Decidable (OneLine s) := inferInstanceAs (Decidable (_ ∉ _))

@[simp] theorem oneLine_append {s t : String} : OneLine (s ++ t) ↔ OneLine s ∧ OneLine t := by
  simp [OneLine]

theorem OneLine.ofList {cs : List Char} (h : '\n' ∉ cs) : OneLine (String.ofList cs) := by
  rwa [OneLine, String.toList_ofList]

theorem OneLine.of_class {s : String} (p : Char → Bool) (hp : p '\n' = false)
    (h : ∀ c ∈ s.toList, p c = true) : OneLine s := by
  intro hmem
  exact Bool.noConfusion (hp.symm.trans (h _ hmem))

theorem oneLine_intercalate {separator : String} (hseparator : OneLine separator)
    {ss : List String} (hss : ∀ s ∈ ss, OneLine s) : OneLine (String.intercalate separator ss) := by
  induction ss with
  | nil => simp [OneLine]
  | cons s ss ih =>
    have ih := ih fun t ht => hss t (List.mem_cons_of_mem s ht)
    have hs := hss s List.mem_cons_self
    cases ss with
    | nil => simpa using hs
    | cons t ts =>
      rw [String.intercalate_cons_cons]
      simp [hs, hseparator, ih]

/-! ## Cutting a document into lines -/

theorem toList_unlines_cons (line : String) (lines : List String) :
    (unlines (line :: lines)).toList = line.toList ++ '\n' :: (unlines lines).toList := by
  simp [unlines]

/-- A line with a line feed in it is cut as well, so it is not among the pieces. -/
theorem splitOn_unlines_iff (lines : List String) :
    (unlines lines).toList.splitOn '\n' = lines.map String.toList ++ [[]] ↔
      ∀ line ∈ lines, OneLine line := by
  induction lines with
  | nil => simp [unlines]
  | cons line lines ih =>
    rw [toList_unlines_cons, List.forall_mem_cons, ← ih, List.map_cons, List.cons_append]
    constructor
    · intro h
      have hline : OneLine line := by
        intro hmem
        obtain ⟨before, after, hsplit, hbefore⟩ := List.eq_append_cons_of_mem hmem
        rw [hsplit, List.append_assoc, List.cons_append,
          List.splitOn_append_cons_self_of_not_mem hbefore] at h
        have := congrArg List.length (List.cons.inj h).1
        simp at this
      rw [List.splitOn_append_cons_self_of_not_mem hline] at h
      exact ⟨hline, (List.cons.inj h).2⟩
    · rintro ⟨hline, hlines⟩
      rw [List.splitOn_append_cons_self_of_not_mem hline, hlines]

theorem count_unlines {lines : List String} (h : ∀ line ∈ lines, OneLine line) :
    (unlines lines).toList.count '\n' = lines.length := by
  induction lines with
  | nil => rfl
  | cons line lines ih =>
    obtain ⟨hline, hlines⟩ := List.forall_mem_cons.1 h
    rw [toList_unlines_cons, List.count_append, List.count_cons_self, ih hlines,
      List.count_eq_zero.2 hline, List.length_cons, Nat.zero_add]

theorem eq_of_unlines_eq {lines lines' : List String} (h : ∀ line ∈ lines, OneLine line)
    (h' : ∀ line ∈ lines', OneLine line) (heq : unlines lines = unlines lines') :
    lines = lines' := by
  have hsplit := (splitOn_unlines_iff lines).2 h
  rw [heq, (splitOn_unlines_iff lines').2 h', List.append_left_inj] at hsplit
  exact ((List.map_inj_right fun _ _ => String.toList_inj.1).1 hsplit).symm

/-! ## The lines of a diagram -/

theorem mem_blockOrder {c : Classifier} {cs : List Classifier} : c ∈ blockOrder cs ↔ c ∈ cs := by
  by_cases hkind : c.kind = .enumType <;> simp [blockOrder, hkind]

theorem oneLine_blockLines_iff {settings : Settings} {c : Classifier} :
    (∀ line ∈ blockLines settings c, OneLine line) ↔
      OneLine c.name ∧ ∀ member ∈ memberLines settings c, OneLine member := by
  have hkeyword : OneLine c.kind.keyword := by cases c.kind <;> decide
  have hspace : OneLine " " := by decide
  have hopen : OneLine " \x7b" := by decide
  have hindent : OneLine "    " := by decide
  have hclose : OneLine "\x7d" := by decide
  simp [blockLines, or_imp, forall_and, hkeyword, hspace, hopen, hindent, hclose]

/-- Only names, members and edges can bring a line feed into a line. -/
theorem oneLine_lines_iff {settings : Settings} {d : Diagram} :
    (∀ line ∈ lines settings d, OneLine line) ↔
      (∀ c ∈ d.registry.classifiers.values,
        OneLine c.name ∧ ∀ member ∈ memberLines settings c, OneLine member) ∧
      ∀ line ∈ d.relations.lines, OneLine line := by
  have hstart : OneLine "@startuml" := by decide
  have hempty : OneLine "" := by decide
  have hend : OneLine "@enduml" := by decide
  have hblocks : (∀ line ∈ (blockOrder d.registry.classifiers.values).flatMap (blockLines settings),
      OneLine line) ↔ ∀ c ∈ d.registry.classifiers.values,
        OneLine c.name ∧ ∀ member ∈ memberLines settings c, OneLine member := by
    simp only [← oneLine_blockLines_iff, List.mem_flatMap, mem_blockOrder]
    constructor
    · intro h c hc line hline
      exact h line ⟨c, hc, hline⟩
    · rintro h line ⟨c, hc, hline⟩
      exact h c hc line hline
  simp only [lines, List.forall_mem_append, List.forall_mem_singleton, hblocks, hstart, hempty,
    hend, true_and, and_true]

end ClassDiagram.Document
