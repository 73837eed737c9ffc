import ClassDiagram.Proofs.Text.Names

/-!
# Pieces of a text in parts

How the pieces of a text follow from the pieces of its parts. In front of a separator, a part that
ends at depth zero keeps its own pieces (`piecesFrom_separator`), so texts that all end at depth
zero can be joined and taken apart again (`pieces_intercalate`). A part that is one piece, called
uncut, goes to the first piece of what follows it (`Uncut.piecesFrom_append`). Between commas, a part
that is uncut and leaves no bracket open is called enclosed, and can be put together from such parts.

The pieces of a text are its only decomposition into uncut texts that leave no bracket open in front
of a separator (`pieces_decomposition`). Along a text this is carried by `CutInto`, which says of
the pieces of a text that begins at any depth what a decomposition says at depth zero.
-/

namespace ClassDiagram.Text

/-- The bracket depth behind a text that begins at depth `depth`. -/
def depthBehind (depth : Nat) (cs : List Char) : Nat := cs.foldl depthAfter depth

theorem depthBehind_append (depth : Nat) (cs ds : List Char) :
    depthBehind depth (cs ++ ds) = depthBehind (depthBehind depth cs) ds :=
  List.foldl_append

/-- A text is cut at the character, read at depth `depth`. -/
def isCut (separator : Char) (depth : Nat) (c : Char) : Bool :=
  c == separator && depth == 0 && !isOpening c && !isClosing c

theorem piecesFrom_cons (separator : Char) (depth : Nat) (c : Char) (cs : List Char) :
    piecesFrom separator depth (c :: cs) =
      if isCut separator depth c then [] :: piecesFrom separator 0 cs
      else extendFirst c (piecesFrom separator (depthAfter depth c) cs) :=
  rfl

theorem depthAfter_of_isCut {separator : Char} {depth : Nat} {c : Char}
    (h : isCut separator depth c = true) : depthAfter depth c = 0 := by
  simp only [isCut, Bool.and_eq_true, Bool.not_eq_true', beq_iff_eq] at h
  rw [depthAfter, h.1.2, h.2, h.1.1.2]
  rfl

theorem prefix_of_piecesFrom {separator : Char} {depth : Nat} {cs p : List Char}
    {ps : List (List Char)} (h : piecesFrom separator depth cs = p :: ps) : p <+: cs := by
  induction cs generalizing depth p ps with
  | nil =>
    obtain ⟨rfl, -⟩ := List.cons.inj h
    exact List.nil_prefix
  | cons c cs ih =>
    rw [piecesFrom_cons] at h
    split at h
    · obtain ⟨rfl, -⟩ := List.cons.inj h
      exact List.nil_prefix
    · obtain ⟨q, qs, hq⟩ :=
        List.exists_cons_of_ne_nil (piecesFrom_ne_nil separator (depthAfter depth c) cs)
      rw [hq] at h
      obtain ⟨rfl, -⟩ := List.cons.inj h
      exact List.cons_prefix_cons.2 ⟨rfl, ih hq⟩

/-! ## Joined texts -/

theorem extendFirst_append (c : Char) {ps : List (List Char)} (hps : ps ≠ [])
    (qs : List (List Char)) : extendFirst c (ps ++ qs) = extendFirst c ps ++ qs := by
  obtain ⟨p, ps, rfl⟩ := List.exists_cons_of_ne_nil hps
  rfl

section Separator

variable {separator : Char} (hopening : isOpening separator = false)
  (hclosing : isClosing separator = false)

include hopening hclosing

/-- A separator behind a text that ends at depth zero cuts it off. -/
theorem piecesFrom_separator {depth : Nat} {cs : List Char} (h : depthBehind depth cs = 0)
    (ds : List Char) :
    piecesFrom separator depth (cs ++ separator :: ds) =
      piecesFrom separator depth cs ++ pieces separator ds := by
  induction cs generalizing depth with
  | nil =>
    have hdepth : depth = 0 := h
    have hcut : isCut separator depth separator = true := by
      simp [isCut, hdepth, hopening, hclosing]
    rw [List.nil_append, piecesFrom_cons, if_pos hcut]
    rfl
  | cons c cs ih =>
    have hcs : depthBehind (depthAfter depth c) cs = 0 := h
    rw [List.cons_append, piecesFrom_cons, piecesFrom_cons]
    split
    next hcut =>
      -- a cut leaves the depth as it is, at zero
      rw [depthAfter_of_isCut hcut] at hcs
      rw [ih hcs, List.cons_append]
    next => rw [ih hcs, extendFirst_append c (piecesFrom_ne_nil _ _ _)]

/-- Texts of which all but the last end at depth zero keep their pieces when they are joined. -/
theorem pieces_intercalate {ts : List (List Char)} (hne : ts ≠ [])
    (h : ∀ t ∈ ts.dropLast, depthBehind 0 t = 0) :
    pieces separator (List.intercalate [separator] ts) = ts.flatMap (pieces separator) := by
  induction ts with
  | nil => exact absurd rfl hne
  | cons t ts ih =>
    cases ts with
    | nil => simp
    | cons t' ts =>
      rw [List.dropLast_cons_of_ne_nil (List.cons_ne_nil t' ts), List.forall_mem_cons] at h
      have hjoin : List.intercalate [separator] (t :: t' :: ts) =
          t ++ separator :: List.intercalate [separator] (t' :: ts) := by
        rw [List.intercalate_cons_cons]
        simp
      rw [hjoin, List.flatMap_cons, ← ih (List.cons_ne_nil t' ts) h.2]
      exact piecesFrom_separator hopening hclosing h.1 _

end Separator

/-! ## Uncut texts -/

/-- The text is one piece. -/
def Uncut (separator : Char) (depth : Nat) (cs : List Char) : Prop :=
  piecesFrom separator depth cs = [cs]

theorem uncut_nil (separator : Char) (depth : Nat) : Uncut separator depth [] := rfl

theorem uncut_cons_iff {separator : Char} {depth : Nat} {c : Char} {cs : List Char} :
    Uncut separator depth (c :: cs) ↔
      isCut separator depth c = false ∧ Uncut separator (depthAfter depth c) cs := by
  unfold Uncut
  rw [piecesFrom_cons]
  cases isCut separator depth c with
  | true => simp
  | false =>
    obtain ⟨p, ps, hps⟩ :=
      List.exists_cons_of_ne_nil (piecesFrom_ne_nil separator (depthAfter depth c) cs)
    simp [hps, extendFirst]

theorem foldr_extendFirst (p q : List Char) (qs : List (List Char)) :
    p.foldr extendFirst (q :: qs) = (p ++ q) :: qs := by
  induction p with
  | nil => rfl
  | cons c p ih => simp [ih, extendFirst]

/-- An uncut text goes to the first piece of what follows it. -/
theorem Uncut.piecesFrom_append {separator : Char} {depth : Nat} {cs : List Char}
    (h : Uncut separator depth cs) (ds : List Char) :
    piecesFrom separator depth (cs ++ ds) =
      cs.foldr extendFirst (piecesFrom separator (depthBehind depth cs) ds) := by
  induction cs generalizing depth with
  | nil => rfl
  | cons c cs ih =>
    obtain ⟨hcut, hcs⟩ := uncut_cons_iff.1 h
    rw [List.cons_append, piecesFrom_cons, hcut, ih hcs]
    rfl

theorem Uncut.append {separator : Char} {depth : Nat} {cs ds : List Char}
    (h : Uncut separator depth cs) (h' : Uncut separator (depthBehind depth cs) ds) :
    Uncut separator depth (cs ++ ds) := by
  unfold Uncut at h' ⊢
  rw [h.piecesFrom_append, h', foldr_extendFirst]

/-! ## The decomposition -/

/-- The text is cut into `ts`: joined they are the text, none of them is cut any further, and all
but the last end with every bracket closed. -/
structure IsDecomposition (separator : Char) (cs : List Char) (ts : List (List Char)) : Prop where
  ne_nil : ts ≠ []
  joined : List.intercalate [separator] ts = cs
  uncut : ∀ t ∈ ts, pieces separator t = [t]
  closed : ∀ t ∈ ts.dropLast, depthBehind 0 t = 0

/-- A text that begins at depth `depth` is cut into the pieces: the separator behind a piece stands
at depth zero. -/
inductive CutInto (separator : Char) : Nat → List Char → List (List Char) → Prop
  | whole {depth : Nat} {t : List Char} (h : Uncut separator depth t) :
      CutInto separator depth t [t]
  | cut {depth : Nat} {t cs : List Char} {ts : List (List Char)} (h : Uncut separator depth t)
      (hdepth : depthBehind depth t = 0) (hcs : CutInto separator 0 cs ts) :
      CutInto separator depth (t ++ separator :: cs) (t :: ts)

namespace CutInto

variable {separator : Char} {depth : Nat} {cs : List Char} {ts : List (List Char)}

/-- A character at which the text is not cut goes to the first piece. -/
theorem extendFirst {c : Char} (hcut : isCut separator depth c = false)
    (h : CutInto separator (depthAfter depth c) cs ts) :
    CutInto separator depth (c :: cs) (Text.extendFirst c ts) := by
  cases h with
  | whole ht => exact .whole (uncut_cons_iff.2 ⟨hcut, ht⟩)
  | cut ht hdepth hcs => exact .cut (uncut_cons_iff.2 ⟨hcut, ht⟩) hdepth hcs

theorem joined (h : CutInto separator depth cs ts) :
    ts ≠ [] ∧ List.intercalate [separator] ts = cs := by
  induction h with
  | whole => exact ⟨List.cons_ne_nil _ _, List.intercalate_singleton⟩
  | cut _ _ _ ih =>
    refine ⟨List.cons_ne_nil _ _, ?_⟩
    rw [List.intercalate_cons_of_ne_nil ih.1, ih.2, List.append_assoc, List.singleton_append]

theorem isDecomposition (h : CutInto separator 0 cs ts) : IsDecomposition separator cs ts := by
  refine ⟨h.joined.1, h.joined.2, ?_, ?_⟩ <;> generalize hzero : 0 = depth at h
  · induction h with
    | whole ht =>
      subst hzero
      exact List.forall_mem_singleton.2 ht
    | cut ht _ _ ih =>
      subst hzero
      exact List.forall_mem_cons.2 ⟨ht, ih rfl⟩
  · induction h with
    | whole => simp
    | cut _ hdepth hcs ih =>
      subst hzero
      rw [List.dropLast_cons_of_ne_nil hcs.joined.1]
      exact List.forall_mem_cons.2 ⟨hdepth, ih rfl⟩

end CutInto

theorem cutInto_piecesFrom (separator : Char) (depth : Nat) (cs : List Char) :
    CutInto separator depth cs (piecesFrom separator depth cs) := by
  induction cs generalizing depth with
  | nil => exact .whole (uncut_nil separator depth)
  | cons c cs ih =>
    rw [piecesFrom_cons]
    cases hcut : isCut separator depth c with
    | true =>
      obtain ⟨rfl, rfl⟩ : c = separator ∧ depth = 0 := by
        simp only [isCut, Bool.and_eq_true, beq_iff_eq] at hcut
        exact hcut.1.1
      exact .cut (uncut_nil c 0) rfl (ih 0)
    | false => exact (ih (depthAfter depth c)).extendFirst hcut

/-- **A text has one decomposition**: its pieces are one, whatever the separator, and if the
separator is no bracket, there is no other. So the pieces of a text joined again are the text, and
texts that can be told apart when they are joined come back from the joined text. -/
theorem pieces_decomposition (separator : Char) :
    (∀ cs, IsDecomposition separator cs (pieces separator cs)) ∧
      (isOpening separator = false → isClosing separator = false →
        ∀ cs ts, IsDecomposition separator cs ts → pieces separator cs = ts) := by
  refine ⟨fun cs => (cutInto_piecesFrom separator 0 cs).isDecomposition, ?_⟩
  rintro hopening hclosing cs ts ⟨hne, rfl, huncut, hclosed⟩
  calc pieces separator (List.intercalate [separator] ts)
      = ts.flatMap (pieces separator) := pieces_intercalate hopening hclosing hne hclosed
    _ = ts.flatMap fun t => [t] := by
      rw [List.flatMap_def, List.flatMap_def, List.map_congr_left huncut]
    _ = ts := List.flatMap_singleton' ts

/-- A separator of several bytes, a closing bracket without a partner, partners of two kinds, and a
bracket left open. -/
theorem pieces_decomposition_arrow :
    IsDecomposition '→' ")a→(→]b→<→c".toList [")a".toList, "(→]b".toList, "<→c".toList] ∧
      pieces '→' ")a→(→]b→<→c".toList = [")a".toList, "(→]b".toList, "<→c".toList] := by
  have hparts : IsDecomposition '→' ")a→(→]b→<→c".toList
      [")a".toList, "(→]b".toList, "<→c".toList] :=
    ⟨by decide, by decide, by decide, by decide⟩
  exact ⟨hparts, (pieces_decomposition '→').2 rfl rfl _ _ hparts⟩

/-- A bracket separates nothing, though the text could be taken apart at it. -/
example : IsDecomposition ')' "a)b".toList ["a".toList, "b".toList] ∧
    pieces ')' "a)b".toList = ["a)b".toList] :=
  ⟨⟨by decide, by decide, by decide, by decide⟩, by decide⟩

/-! ## Texts without brackets and commas -/

/-- Neither a comma nor a bracket. -/
def isPlain (c : Char) : Bool := c != ',' && !isOpening c && !isClosing c

theorem isPlain_of_class {p : Char → Bool}
    (hp : [',', '<', '(', '[', '{', '>', ')', ']', '}'].any p = false) {c : Char}
    (h : p c = true) : isPlain c = true := by
  have hne : ∀ d, p d = false → c ≠ d := by
    rintro d hd rfl
    simp [h] at hd
  simp only [List.any_cons, Bool.or_eq_false_iff] at hp
  simp [isPlain, isOpening, isClosing, hne, hp]

theorem isPlain_of_isNameChar {c : Char} (h : isNameChar c = true) : isPlain c = true :=
  isPlain_of_class (p := isNameChar) (by decide) h

theorem isPlain_of_isBlank {c : Char} (h : isBlank c = true) : isPlain c = true :=
  isPlain_of_class (p := isBlank) (by decide) h

theorem depthAfter_plain (depth : Nat) {c : Char} (h : isPlain c = true) :
    depthAfter depth c = depth := by
  simp only [isPlain, Bool.and_eq_true, Bool.not_eq_true'] at h
  simp [depthAfter, h]

theorem depthBehind_plain (depth : Nat) {cs : List Char} (h : ∀ c ∈ cs, isPlain c = true) :
    depthBehind depth cs = depth := by
  induction cs with
  | nil => rfl
  | cons c cs ih =>
    obtain ⟨hc, hcs⟩ := List.forall_mem_cons.1 h
    rw [depthBehind, List.foldl_cons, depthAfter_plain depth hc]
    exact ih hcs

theorem uncut_plain (depth : Nat) {cs : List Char} (h : ∀ c ∈ cs, isPlain c = true) :
    Uncut ',' depth cs := by
  induction cs with
  | nil => exact uncut_nil ',' depth
  | cons c cs ih =>
    obtain ⟨hc, hcs⟩ := List.forall_mem_cons.1 h
    have hcomma : c ≠ ',' := by
      rintro rfl
      exact absurd hc (by decide)
    refine uncut_cons_iff.2 ⟨by simp [isCut, hcomma], ?_⟩
    rw [depthAfter_plain depth hc]
    exact ih hcs

/-! ## Enclosed texts -/

/-- A text that commas leave in one piece and that ends at the depth at which it begins. -/
structure Enclosed (p : List Char) : Prop where
  uncut : Uncut ',' 0 p
  depth : depthBehind 0 p = 0

namespace Enclosed

theorem plain {p : List Char} (hp : ∀ c ∈ p, isPlain c = true) : Enclosed p :=
  ⟨uncut_plain 0 hp, depthBehind_plain 0 hp⟩

theorem blank {p : List Char} (hp : p.all isBlank = true) : Enclosed p :=
  plain fun c hc => isPlain_of_isBlank (List.all_eq_true.1 hp c hc)

theorem name {p : List Char} (hp : IsName p) : Enclosed p :=
  plain fun _ hc => isPlain_of_isNameChar (hp.mem hc)

theorem append {p q : List Char} (hp : Enclosed p) (hq : Enclosed q) : Enclosed (p ++ q) where
  uncut := hp.uncut.append (by rw [hp.depth]; exact hq.uncut)
  depth := by rw [depthBehind_append, hp.depth, hq.depth]

theorem pieces_comma {p : List Char} (hp : Enclosed p) (w : List Char) :
    pieces ',' (p ++ ',' :: w) = p :: pieces ',' w := by
  have hwhole : piecesFrom ',' 0 p = [p] := hp.uncut
  rw [pieces, piecesFrom_separator (by decide) (by decide) hp.depth, hwhole, List.singleton_append]

end Enclosed

end ClassDiagram.Text
