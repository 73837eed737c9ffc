import ClassDiagram.Proofs.Text.Names
import ClassDiagram.Proofs.Text.Pieces
import ClassDiagram.Source.Parameter

/-!
# Reading a printed parameter list

Commas that stand between enclosed pieces are the only top-level ones, so the pieces come back
(`parameters_intercalate`). Of the words of a piece, those that are kept give the parameter
(`parameter?_of_words`); a type name and a name come back as that parameter (`parameter?_pair`).
-/

namespace ClassDiagram.Text

/-! ## Words -/

theorem wordsFrom_append (held : List Char) {v : List Char} (w : List Char)
    (hv : ∀ c ∈ v, isBlank c = false) :
    wordsFrom held (v ++ w) = wordsFrom (v.reverse ++ held) w := by
  induction v generalizing held with
  | nil => rfl
  | cons c v ih =>
    have hstep : wordsFrom held (c :: (v ++ w)) = wordsFrom (c :: held) (v ++ w) := by
      cases held <;> simp [wordsFrom, hv c List.mem_cons_self]
    rw [List.cons_append, hstep, ih (c :: held) fun d hd => hv d (List.mem_cons_of_mem c hd)]
    simp

theorem wordsFrom_nil {held : List Char} (h : held ≠ []) : wordsFrom held [] = [held.reverse] := by
  obtain ⟨c, held, rfl⟩ := List.exists_cons_of_ne_nil h
  rfl

theorem wordsFrom_blank {held : List Char} {c : Char} (w : List Char) (h : held ≠ [])
    (hc : isBlank c = true) : wordsFrom held (c :: w) = held.reverse :: wordsFrom [] w := by
  obtain ⟨d, held, rfl⟩ := List.exists_cons_of_ne_nil h
  simp [wordsFrom, hc]

theorem words_blank {c : Char} (w : List Char) (hc : isBlank c = true) :
    words (c :: w) = words w := by
  simp [words, wordsFrom, hc]

theorem words_eq_singleton {v : List Char} (hne : v ≠ []) (hv : ∀ c ∈ v, isBlank c = false) :
    words v = [v] := by
  have happend := wordsFrom_append [] [] hv
  rw [List.append_nil, List.append_nil, wordsFrom_nil (by simpa using hne),
    List.reverse_reverse] at happend
  exact happend

theorem wordsFrom_append_blank (held v : List Char) {c : Char} (hc : isBlank c = true)
    (w : List Char) : wordsFrom held (v ++ c :: w) = wordsFrom held v ++ words w := by
  induction v generalizing held with
  | nil => cases held <;> simp [wordsFrom, words, hc]
  | cons d v ih =>
    cases hd : isBlank d <;> cases held <;> simp [wordsFrom, hd, ih]

/-- A blank separates the words in front of it from those behind it. -/
theorem words_append (v : List Char) {c : Char} (hc : isBlank c = true) (w : List Char) :
    words (v ++ c :: w) = words v ++ words w :=
  wordsFrom_append_blank [] v hc w

theorem words_pair {v w : List Char} (hv : IsName v) (hw : IsName w) :
    words (v ++ ' ' :: w) = [v, w] := by
  have hblank : ∀ {n : List Char}, IsName n → ∀ c ∈ n, isBlank c = false :=
    fun hn c hc => isBlank_of_isNameChar (hn.mem hc)
  rw [words_append v (by decide), words_eq_singleton hv.ne_nil (hblank hv),
    words_eq_singleton hw.ne_nil (hblank hw)]
  rfl

end ClassDiagram.Text

namespace ClassDiagram.Source

open Text

/-! ## Parameters -/

theorem parameter?_blank (p : List Char) : parameter? (' ' :: p) = parameter? p := by
  have hwords : words (' ' :: p) = words p := words_blank p (by decide)
  simp only [parameter?, hwords]

theorem parameters_blank (w : List Char) : parameters (' ' :: w) = parameters w := by
  obtain ⟨p, ps, hps⟩ := List.exists_cons_of_ne_nil (pieces_ne_nil ',' w)
  have hfirst : pieces ',' (' ' :: w) = (' ' :: p) :: ps := by
    rw [pieces, piecesFrom]
    simp only [pieces] at hps
    simp [isOpening, isClosing, depthAfter, hps, extendFirst]
  simp only [parameters, hfirst, hps, List.filterMap_cons, parameter?_blank]

/-- Reading a list of pieces joined by commas reads each piece. -/
theorem parameters_intercalate {ps : List (List Char)} (hps : ∀ p ∈ ps, Enclosed p) :
    parameters (List.intercalate [',', ' '] ps) = ps.filterMap parameter? := by
  induction ps with
  | nil => rfl
  | cons p ps ih =>
    have hp := hps p List.mem_cons_self
    have ih := ih fun q hq => hps q (List.mem_cons_of_mem p hq)
    cases ps with
    | nil =>
      have hwhole : pieces ',' p = [p] := hp.uncut
      simp [parameters, hwhole]
    | cons q qs =>
      have hcut : List.intercalate [',', ' '] (p :: q :: qs) =
          p ++ ',' :: ' ' :: List.intercalate [',', ' '] (q :: qs) := by
        rw [List.intercalate_cons_cons]
        simp
      rw [hcut, parameters, hp.pieces_comma, List.filterMap_cons, List.filterMap_cons, ← ih,
        ← parameters_blank, parameters]

theorem withoutBlanks_eq_self {cs : List Char} (h : ∀ c ∈ cs, isBlank c = false ∧ c ≠ ',') :
    withoutBlanks cs = cs := by
  induction cs with
  | nil => rfl
  | cons c cs ih =>
    have hc := h c List.mem_cons_self
    simp [withoutBlanks, hc, ih fun d hd => h d (List.mem_cons_of_mem c hd)]

/-- A type text without blanks, commas and dots is in its written form. -/
theorem normalizeType_eq_self {cs : List Char}
    (h : ∀ c ∈ cs, isBlank c = false ∧ c ≠ ',' ∧ c ≠ '.') : normalizeType cs = cs := by
  have hdots : ['.', '.', '.'].isSuffixOf cs = false := by
    rw [Bool.eq_false_iff]
    intro hsuffix
    have hmem : '.' ∈ cs := (List.isSuffixOf_iff_suffix.1 hsuffix).subset (by simp)
    exact (h '.' hmem).2.2 rfl
  simp [normalizeType, withoutBlanks_eq_self fun c hc => ⟨(h c hc).1, (h c hc).2.1⟩, dropTrailing?,
    hdots]

theorem IsName.normalizeType {n : List Char} (hn : IsName n) : normalizeType n = n :=
  normalizeType_eq_self fun _ hc =>
    ⟨isBlank_of_isNameChar (hn.mem hc), hn.ne_of_mem hc (by decide), hn.ne_of_mem hc (by decide)⟩

/-- Without brackets behind the name the type stays. -/
theorem moveBrackets_of_stops (type : List Char) {name : List Char}
    (h : Stops (· == ']') name.reverse) : moveBrackets type name.reverse = (type, name) := by
  cases hname : name.reverse with
  | nil =>
    rw [List.reverse_eq_nil_iff.1 hname]
    rfl
  | cons c cs =>
    have hc : c ≠ ']' := by simpa [hname] using h
    have hback : (c :: cs).reverse = name := by rw [← hname, List.reverse_reverse]
    unfold moveBrackets
    split
    · next heq => exact absurd (List.cons.inj heq).1 hc
    · rw [hback]

/-- What a parameter does not drop: neither an annotation nor the word `final`. -/
def isKept (word : List Char) : Bool := word.head? != some '@' && String.ofList word != "final"

/-- The last word that is kept is the name, the ones in front of it are the type. -/
theorem parameter?_of_words {piece name : List Char} {leading types : List (List Char)}
    (hwords : words piece = leading ++ types ++ [name]) (hne : types ≠ [])
    (hleading : ∀ word ∈ leading, isKept word = false) (htypes : ∀ word ∈ types, isKept word = true)
    (hname : isKept name = true) {type' name' : List Char}
    (hmove : moveBrackets (normalizeType types.flatten) name.reverse = (type', name')) :
    parameter? piece = some ⟨String.ofList name', String.ofList type'⟩ := by
  have hkept : (words piece).filter isKept = types ++ [name] := by
    have hnone : leading.filter isKept = [] := List.filter_eq_nil_iff.2 (by simpa using hleading)
    simp [hwords, hnone, List.filter_eq_self.2 htypes, hname]
  have hreverse : ((words piece).filter isKept).reverse = name :: types.reverse := by
    simp [hkept]
  obtain ⟨last, before, hlast⟩ := List.exists_cons_of_ne_nil (List.reverse_ne_nil_iff.2 hne)
  have hback : (last :: before).reverse = types := by rw [← hlast, List.reverse_reverse]
  have hfold : (fun word : List Char => word.head? != some '@' && String.ofList word != "final") =
      isKept := rfl
  simp only [parameter?, hfold, hreverse, hlast, hback, hmove]

theorem IsName.isKept {n : List Char} (hn : IsName n) (hfinal : String.ofList n ≠ "final") :
    isKept n = true := by
  have hat : n.head? ≠ some '@' := fun h => hn.not_mem (by decide) (List.mem_of_mem_head? h)
  simp [Source.isKept, hat, hfinal]

theorem parameter?_pair {type name : List Char} (htype : IsName type) (hname : IsName name)
    (hfinal : String.ofList type ≠ "final") (hfinal' : String.ofList name ≠ "final") :
    parameter? (type ++ ' ' :: name) = some ⟨String.ofList name, String.ofList type⟩ := by
  have hbrackets : Stops (· == ']') name.reverse := by
    intro c hc
    have hmem := List.mem_reverse.1 (List.mem_of_mem_head? hc)
    exact beq_eq_false_iff_ne.2 (hname.ne_of_mem hmem (by decide))
  have hwords : words (type ++ ' ' :: name) = [] ++ [type] ++ [name] := words_pair htype hname
  refine parameter?_of_words hwords (by simp) (by simp) ?_ (IsName.isKept hname hfinal') ?_
  · simpa using IsName.isKept htype hfinal
  · rw [List.flatten_singleton, IsName.normalizeType htype, moveBrackets_of_stops type hbrackets]

end ClassDiagram.Source
