import ClassDiagram.Proofs.TypeExpr.Grammar

/-!
# Written types

A type is well formed when all its names are names of the grammar, but for arguments that are the
unbounded wildcard: it stands alone, and never for the whole type. The types that can be read are
well formed, since every rule of the grammar gives such a type (`Phrase.WellFormed.of_derives`), and
what is written for a well-formed type is a text of the grammar (`WellFormed.derives_render`), so
reading gives the type back.
-/

namespace ClassDiagram.TypeExpr

/-- All names are names of the grammar, except in arguments that are the unbounded wildcard. -/
inductive WellFormed : TypeExpr → Prop
  | mk {name : String} {arguments : List TypeExpr} {dimensions : Nat}
      (hname : IsTypeName name.toList)
      (harguments : ∀ t ∈ arguments, t ≠ wildcard → WellFormed t) :
      WellFormed ⟨name, arguments, dimensions⟩

/-! ## Types that are read -/

/-- The types that a phrase stands for are well formed; only arguments may be wildcards. -/
def Phrase.WellFormed : Phrase → Prop
  | .text t | .type t => t.WellFormed
  | .arguments ts | .list ts => ∀ t ∈ ts, t ≠ wildcard → t.WellFormed
  | .argument t => t ≠ wildcard → t.WellFormed

theorem Phrase.WellFormed.of_derives {phrase : Phrase} {cs : List Char} (h : Derives phrase cs) :
    phrase.WellFormed := by
  induction h with
  | text _ _ _ ih => exact ih
  | type hname _ _ ih => exact .mk (by rwa [String.toList_ofList]) ih
  | noArguments | diamond => exact fun t ht => nomatch ht
  | arguments _ _ ih => exact ih
  | last _ ih => exact fun t ht => List.mem_singleton.1 ht ▸ ih
  | more _ _ ih ih' =>
    intro t ht
    rcases List.mem_cons.1 ht with rfl | ht
    · exact ih
    · exact ih' t ht
  | wildcard => exact fun hne => absurd rfl hne
  | bounded _ _ _ _ _ _ _ ih => exact fun _ => ih
  | plain _ _ _ ih => exact fun _ => ih

theorem WellFormed.of_read? {text : String} {t : TypeExpr} (h : read? text = some t) :
    t.WellFormed :=
  Phrase.WellFormed.of_derives (derives_of_read? h)

/-! ## Types that are written -/

theorem brackets_renderDimensions (n : Nat) : Brackets n (renderDimensions n).toList := by
  induction n with
  | zero => exact .none
  | succ n ih =>
    rw [renderDimensions, String.toList_append]
    have hnone : Gap [] := nofun
    exact .more hnone ih

/-- Behind the first argument, each comma is followed by one space, which is the gap in front of the
next argument. -/
theorem derives_renderRest {t : TypeExpr} {ts : List TypeExpr}
    (h : ∀ u ∈ t :: ts, ∀ gap, Gap gap → Derives (.argument u) (gap ++ u.render.toList))
    {gap : List Char} (hgap : Gap gap) :
    Derives (.list (t :: ts)) (gap ++ t.render.toList ++ (renderRest ts).toList) := by
  have hfirst := h t List.mem_cons_self gap hgap
  induction ts generalizing t gap with
  | nil =>
    rw [renderRest, String.toList_empty, List.append_nil]
    exact .last hfirst
  | cons u us ih =>
    have hspace : Gap [' '] := by
      intro c hc
      rw [List.mem_singleton.1 hc]
      rfl
    have hothers := ih (fun v hv => h v (List.mem_cons_of_mem t hv)) hspace
      (h u (by simp) _ hspace)
    have hcomma : (renderRest (u :: us)).toList =
        ',' :: ([' '] ++ u.render.toList ++ (renderRest us).toList) := by
      simp [renderRest]
    rw [hcomma]
    exact .more hfirst hothers

theorem derives_argument_render {t : TypeExpr}
    (h : t ≠ wildcard → Derives (.type t) t.render.toList) {gap : List Char} (hgap : Gap gap) :
    Derives (.argument t) (gap ++ t.render.toList) := by
  have hnone : Gap [] := nofun
  by_cases ht : t = wildcard
  · subst ht
    exact .wildcard hgap hnone
  · simpa using Derives.plain hgap (h ht) hnone

theorem WellFormed.derives_render {t : TypeExpr} (h : t.WellFormed) :
    Derives (.type t) t.render.toList := by
  induction h with
  | @mk name arguments dimensions hname _ ih =>
    have hbrackets := brackets_renderDimensions dimensions
    cases arguments with
    | nil => simpa [render] using Derives.type hname .noArguments hbrackets
    | cons first rest =>
      have hlist : Derives (.list (first :: rest)) ([] ++ first.render.toList ++ _) :=
        derives_renderRest (fun u hu _ => derives_argument_render (ih u hu)) nofun
      have hnone : Gap [] := nofun
      have hpart := Derives.arguments hnone hlist
      simpa [render] using Derives.type hname hpart hbrackets

theorem WellFormed.derives_text {t : TypeExpr} (h : t.WellFormed) :
    Derives (.text t) t.render.toList := by
  have hnone : Gap [] := nofun
  simpa using Derives.text hnone h.derives_render hnone

/-- **Reading and writing types fit together.** What is read from any text is well formed, and what
is written for a well-formed type, however deep its arguments go, is read as that type. -/
theorem read_rendered_type :
    (∀ text t, read? text = some t → t.WellFormed) ∧
      ∀ t : TypeExpr, t.WellFormed → read? t.render = some t := by
  refine ⟨fun _ _ => WellFormed.of_read?, ?_⟩
  intro t ht
  exact read?_of_derives ht.derives_text

/-- Gaps and the word of a bound are lost, the type is not. -/
theorem read_rendered_type_spaced :
    ∃ t : TypeExpr, read? " Map< ? super a.Key ,List<?> [][]>" = some t ∧
      t.render = "Map<a.Key, List<?>[][]>" ∧ t.WellFormed ∧
      read? "Map<a.Key, List<?>[][]>" = some t := by
  have hwritten : (read? " Map< ? super a.Key ,List<?> [][]>").map render =
      some "Map<a.Key, List<?>[][]>" := by decide +kernel
  obtain ⟨t, hread, hrender⟩ := Option.map_eq_some_iff.1 hwritten
  have hwellFormed := read_rendered_type.1 _ t hread
  exact ⟨t, hread, hrender, hwellFormed, hrender ▸ read_rendered_type.2 t hwellFormed⟩

end ClassDiagram.TypeExpr
