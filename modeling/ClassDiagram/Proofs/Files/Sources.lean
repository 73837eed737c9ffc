import Mathlib.Data.List.Nodup
import Mathlib.Tactic.SplitIfs
import ClassDiagram.Files.Sources
import ClassDiagram.Proofs.Files.Walk
import ClassDiagram.Proofs.Text.Position

/-!
# Source files in the order of their paths

Which sources a directory gives, and in which order, depends on the tree alone and not on the order
in which a walk comes to its entries. Files are sorted by their paths, and different files have
different paths, so each permutation of the files is sorted to the same list.

Names are compared by their characters. In UTF-8 this is the order of their bytes: a character with
a greater code has the greater byte where the two encodings first differ (`bytesBefore_of_lt`).
-/

namespace ClassDiagram.SourceUnit

open FileTree

/-! ## The order of paths -/

/-- The bytes of a name in UTF-8. -/
def nameBytes (name : String) : List UInt8 := name.toList.flatMap String.utf8EncodeChar

/-- Of the first bytes that differ the first list has the smaller one, or it is a part of the second
list. -/
def bytesBefore (a b : List UInt8) : Prop := List.Lex (fun x y => x.toNat < y.toNat) a b

/-- The first names that differ are in the order of their bytes, or the first path leads to the
second one. -/
def pathBefore (p q : List String) : Prop :=
  List.Lex (fun a b => bytesBefore (nameBytes a) (nameBytes b)) p q

theorem bytesBefore_cons_iff {x y : UInt8} {a b : List UInt8} :
    bytesBefore (x :: a) (y :: b) ↔ x.toNat < y.toNat ∨ x.toNat = y.toNat ∧ bytesBefore a b := by
  constructor
  · rintro (_ | hlt | hrest)
    · exact .inl hlt
    · exact .inr ⟨rfl, hrest⟩
  · rintro (hlt | ⟨heq, hrest⟩)
    · exact .rel hlt
    · rw [UInt8.toNat_inj.1 heq]
      exact .cons hrest

theorem bytesBefore_utf8EncodeChar {c d : Char} (h : c < d) (a b : List UInt8) :
    bytesBefore (String.utf8EncodeChar c ++ a) (String.utf8EncodeChar d ++ b) := by
  have hlt : c.val.toNat < d.val.toNat := h
  have hd : d.val.toNat < 0x110000 := by
    have hvalid := d.valid
    simp only [UInt32.isValidChar, Nat.isValidChar] at hvalid
    omega
  have hdigits (n : Nat) : n / 4096 = n / 64 / 64 ∧ n / 262144 = n / 64 / 64 / 64 := by omega
  simp only [String.utf8EncodeChar, hdigits]
  generalize c.val.toNat = m at hlt
  generalize d.val.toNat = n at hlt hd
  -- a longer encoding begins with a greater byte; among those of one length the digits decide
  split_ifs <;>
    simp only [List.cons_append, List.nil_append, bytesBefore_cons_iff, UInt8.toNat_ofNat',
      Nat.reducePow] <;>
    omega

theorem bytesBefore.append {a b : List UInt8} (h : bytesBefore a b) (front : List UInt8) :
    bytesBefore (front ++ a) (front ++ b) := by
  induction front with
  | nil => exact h
  | cons x front ih => exact .cons ih

/-- The order of the characters is the order of the bytes. -/
theorem bytesBefore_of_lt {a b : String} (h : a < b) : bytesBefore (nameBytes a) (nameBytes b) := by
  change List.Lex (· < ·) a.toList b.toList at h
  unfold nameBytes
  generalize a.toList = cs, b.toList = ds at h
  induction h with
  | @nil c cs =>
    obtain ⟨x, xs, hx⟩ := List.exists_cons_of_ne_nil
      (List.ne_nil_of_length_pos (by rw [String.length_utf8EncodeChar]; exact c.utf8Size_pos))
    rw [List.flatMap_cons, hx]
    exact .nil
  | rel hlt =>
    rw [List.flatMap_cons, List.flatMap_cons]
    exact bytesBefore_utf8EncodeChar hlt _ _
  | cons _ ih =>
    rw [List.flatMap_cons, List.flatMap_cons]
    exact ih.append _

theorem pathBefore_of_lt {p q : List String} (h : p < q) : pathBefore p q := by
  change List.Lex (· < ·) p q at h
  induction h with
  | nil => exact .nil
  | rel hlt => exact .rel (bytesBefore_of_lt hlt)
  | cons _ ih => exact .cons ih

theorem inOrder_iff {a b : Found} : inOrder a b = true ↔ ¬ b.path < a.path := by
  rw [inOrder, Bool.not_eq_true', ← Bool.not_eq_true, List.lex_eq_true_iff_lt]

theorem pairwise_sorted (found : List Found) :
    (found.mergeSort inOrder).Pairwise fun a b => inOrder a b = true := by
  refine List.pairwise_mergeSort (fun a b c => ?_) (fun a b => ?_) found
  · rw [inOrder_iff, inOrder_iff, inOrder_iff, List.not_lt, List.not_lt, List.not_lt]
    exact List.le_trans
  · rw [Bool.or_eq_true, inOrder_iff, inOrder_iff, List.not_lt, List.not_lt]
    exact List.le_total _ _

/-- Files with different paths are sorted to one list, in whatever order they are found. -/
theorem mergeSort_eq_of_perm {found found' : List Found} (hperm : found.Perm found')
    (hpaths : (found.map (·.path)).Nodup) :
    found.mergeSort inOrder = found'.mergeSort inOrder := by
  refine List.Perm.eq_of_pairwise (fun a b ha hb hab hba => ?_) (pairwise_sorted found)
    (pairwise_sorted found')
    ((List.mergeSort_perm found _).trans (hperm.trans (List.mergeSort_perm found' _).symm))
  have ha : a ∈ found := List.mem_mergeSort.1 ha
  have hb : b ∈ found := hperm.mem_iff.2 (List.mem_mergeSort.1 hb)
  exact List.inj_on_of_nodup_map hpaths ha hb
    (List.le_antisymm (List.not_lt.1 (inOrder_iff.1 hab)) (List.not_lt.1 (inOrder_iff.1 hba)))

/-- Different files are sorted strictly. -/
theorem pairwise_pathBefore {found : List Found} (hpaths : (found.map (·.path)).Nodup) :
    (found.mergeSort inOrder).Pairwise fun a b => pathBefore a.path b.path := by
  have hdistinct : (found.mergeSort inOrder).Pairwise fun a b => a.path ≠ b.path :=
    List.pairwise_map.1 (((List.mergeSort_perm found inOrder).map _).nodup_iff.2 hpaths)
  refine (pairwise_sorted found).imp₂ (fun a b horder hne => ?_) hdistinct
  have hle := List.not_lt.1 (inOrder_iff.1 horder)
  exact pathBefore_of_lt ((List.le_iff_lt_or_eq.1 hle).resolve_right hne)

/-! ## Extensions -/

/-- The name is something, a dot and the extension, which has no dot itself. -/
def HasExtension (name extension : String) : Prop :=
  ∃ stem, stem ≠ [] ∧ name.toList = stem ++ '.' :: extension.toList ∧ '.' ∉ extension.toList

theorem extension?_eq_some_iff {name extension : String} :
    extension? name = some extension ↔ HasExtension name extension := by
  have hsplit : name.toList.reverse.takeWhile (· != '.') ++ name.toList.reverse.dropWhile (· != '.') =
      name.toList.reverse := List.takeWhile_append_dropWhile
  have hfirst := List.head?_dropWhile_not (· != '.') name.toList.reverse
  have hfree := List.all_takeWhile (p := (· != '.')) (l := name.toList.reverse)
  unfold extension?
  constructor
  · intro h
    simp only at h
    split at h
    next dot last stem hdrop =>
      rw [hdrop] at hfirst hsplit
      obtain rfl : dot = '.' := by simpa using hfirst
      obtain rfl := Option.some.inj h
      generalize name.toList.reverse.takeWhile (· != '.') = tail at hsplit hfree
      refine ⟨(last :: stem).reverse, by simp, ?_, ?_⟩
      · rw [← List.reverse_reverse name.toList, ← hsplit]
        simp
      · intro hdot
        rw [String.toList_ofList, List.mem_reverse] at hdot
        exact absurd (List.all_eq_true.1 hfree '.' hdot) (by decide)
    next => cases h
  · rintro ⟨stem, hne, hname, hdot⟩
    obtain ⟨last, before, hlast⟩ := List.exists_cons_of_ne_nil (List.reverse_ne_nil_iff.2 hne)
    have hback : name.toList.reverse = extension.toList.reverse ++ '.' :: last :: before := by
      simp [hname, hlast]
    have hext : ∀ c ∈ extension.toList.reverse, (c != '.') = true := fun c hc =>
      bne_iff_ne.2 fun heq => hdot (heq ▸ List.mem_reverse.1 hc)
    have hstops : Text.Stops (· != '.') ('.' :: last :: before) := Text.stops_cons.2 (by decide)
    simp only [hback, Text.dropWhile_append_of_stops hext hstops,
      Text.takeWhile_append_of_stops hext hstops, List.reverse_reverse, String.ofList_toList]

/-! ## Sources -/

/-- There is a regular file at the path, with the given bytes, and its name has the extension. -/
structure IsSource (tree : FileTree) (root extension : String) (path : List String)
    (bytes : List UInt8) : Prop where
  isFile : tree.lookup? path = some (.file bytes)
  hasExtension : HasExtension (fileName root ⟨path, .ok bytes⟩) extension

/-- The source that a file gives. -/
def unitOf (root : String) (file : List String × List UInt8) : SourceUnit :=
  ⟨identifierOf root ⟨file.1, .ok file.2⟩, Text.Utf8.decode file.2⟩

/-- The files with the extension. -/
def kept (root extension : String) (found : List Found) : List Found :=
  found.filter fun f => extension? (fileName root f) == some extension

theorem nodup_kept {found : List Found} (hpaths : (found.map (·.path)).Nodup)
    (root extension : String) : ((kept root extension found).map (·.path)).Nodup :=
  hpaths.sublist (List.filter_sublist.map _)

theorem ofFiles_eq (root extension : String) (found : List Found) :
    ofFiles root extension found =
      if (kept root extension found).isEmpty then .error (.noSources root extension)
      else ((kept root extension found).mergeSort inOrder).mapM (ofFile root) := by
  unfold ofFiles kept
  split
  next hnone => rw [hnone]; rfl
  next hsome => rw [if_neg (by simpa using hsome)]

theorem ofFiles_perm {found found' : List Found} (hperm : found.Perm found')
    (hpaths : (found.map (·.path)).Nodup) (root extension : String) :
    ofFiles root extension found = ofFiles root extension found' := by
  have hkept : (kept root extension found).Perm (kept root extension found') := hperm.filter _
  rw [ofFiles_eq, ofFiles_eq, mergeSort_eq_of_perm hkept (nodup_kept hpaths root extension),
    hkept.isEmpty_eq]

theorem mapM_ofFile (root : String) (files : List (List String × List UInt8)) :
    (files.map fun file => Found.mk file.1 (.ok file.2)).mapM (ofFile root) =
      .ok (files.map (unitOf root)) := by
  induction files with
  | nil => rfl
  | cons file files ih =>
    rw [List.map_cons, List.mapM_cons, ih]
    rfl

section Tree

variable {tree : FileTree} (hdistinct : tree.Distinct)

include hdistinct

theorem nodup_files : (tree.files.map (·.path)).Nodup := by
  rw [← filterMap_walk]
  exact nodup_paths hdistinct.isWalk_walk.nodup

theorem mem_files_iff {path : List String} {bytes : List UInt8} :
    ⟨path, .ok bytes⟩ ∈ tree.files ↔ tree.lookup? path = some (.file bytes) := by
  rw [← filterMap_walk, mem_filterMap_file?_iff, hdistinct.isWalk_walk.mem_iff]

/-- If all files can be read, then those found come with their bytes. -/
theorem exists_files (hreadable : ∀ path cause, tree.lookup? path ≠ some (.unreadable cause))
    {found : List Found} (hfound : ∀ f ∈ found, f ∈ tree.files) :
    ∃ files : List (List String × List UInt8),
      found = files.map fun file => Found.mk file.1 (.ok file.2) := by
  induction found with
  | nil => exact ⟨[], rfl⟩
  | cons f found ih =>
    obtain ⟨hf, hfound⟩ := List.forall_mem_cons.1 hfound
    obtain ⟨files, rfl⟩ := ih hfound
    obtain ⟨path, contents⟩ := f
    cases contents with
    | ok bytes => exact ⟨(path, bytes) :: files, rfl⟩
    | error cause =>
      rw [← filterMap_walk, List.mem_filterMap] at hf
      obtain ⟨⟨path', _ | _ | _⟩, hmem, hfile⟩ := hf <;> cases hfile
      exact absurd ((hdistinct.isWalk_walk.mem_iff _ _).1 hmem) (hreadable path cause)

/-- The sources of a tree, strictly in the order of their paths. -/
theorem exists_sources (hreadable : ∀ path cause, tree.lookup? path ≠ some (.unreadable cause))
    (root extension : String) :
    ∃ sources : List (List String × List UInt8),
      sources.Pairwise (fun a b => pathBefore a.1 b.1) ∧
      (∀ path bytes, (path, bytes) ∈ sources ↔ IsSource tree root extension path bytes) ∧
      ofFiles root extension tree.files =
        if sources.isEmpty then .error (.noSources root extension)
        else .ok (sources.map (unitOf root)) := by
  have hmem : ∀ f ∈ (kept root extension tree.files).mergeSort inOrder, f ∈ tree.files :=
    fun f hf => (List.mem_filter.1 (List.mem_mergeSort.1 hf)).1
  obtain ⟨sources, hsources⟩ := exists_files hdistinct hreadable hmem
  refine ⟨sources, ?_, fun path bytes => ?_, ?_⟩
  · have hsorted := pairwise_pathBefore (nodup_kept (nodup_files hdistinct) root extension)
    rwa [hsources, List.pairwise_map] at hsorted
  · have hsource : (path, bytes) ∈ sources ↔
        Found.mk path (.ok bytes) ∈ (kept root extension tree.files).mergeSort inOrder := by
      simp [hsources]
    rw [hsource, List.mem_mergeSort, kept, List.mem_filter, mem_files_iff hdistinct, beq_iff_eq,
      extension?_eq_some_iff]
    exact ⟨fun ⟨hfile, hext⟩ => ⟨hfile, hext⟩, fun ⟨hfile, hext⟩ => ⟨hfile, hext⟩⟩
  · have hempty : (kept root extension tree.files).isEmpty = sources.isEmpty := by
      rw [← (List.mergeSort_perm _ inOrder).isEmpty_eq, hsources, List.isEmpty_map]
    rw [ofFiles_eq, hempty, hsources, mapM_ofFile]

end Tree

/-- **Sources do not depend on the order of a walk.** Whatever order the entries of a tree of readable
files are walked in, the result is the same: there are no sources exactly if no regular file has the
extension, and otherwise there is one source for each such file, strictly in the order of the bytes
of their paths, name by name. -/
theorem ofFiles_walk {tree : FileTree} (hdistinct : tree.Distinct)
    (hreadable : ∀ path cause, tree.lookup? path ≠ some (.unreadable cause))
    (root extension : String) :
    (∀ entries, IsWalk tree entries →
      ofFiles root extension (entries.filterMap file?) = ofTree root extension (.ok tree)) ∧
    (ofTree root extension (.ok tree) = .error (.noSources root extension) ↔
      ∀ path bytes, ¬ IsSource tree root extension path bytes) ∧
    ((∃ path bytes, IsSource tree root extension path bytes) →
      ∃ sources : List (List String × List UInt8),
        sources.Pairwise (fun a b => pathBefore a.1 b.1) ∧
        (∀ path bytes, (path, bytes) ∈ sources ↔ IsSource tree root extension path bytes) ∧
        ofTree root extension (.ok tree) = .ok (sources.map (unitOf root))) := by
  obtain ⟨sources, hsorted, hmem, hresult⟩ := exists_sources hdistinct hreadable root extension
  have htree : ofTree root extension (.ok tree) = ofFiles root extension tree.files := rfl
  refine ⟨fun entries hwalk => ?_, ?_, ?_⟩
  · rw [htree, ← filterMap_walk]
    exact ofFiles_perm ((hwalk.perm_walk hdistinct).filterMap _) (nodup_paths hwalk.nodup) _ _
  · rw [htree, hresult]
    cases sources with
    | nil => simpa using hmem
    | cons source sources =>
      refine iff_of_false (by simp) fun hnone => ?_
      exact hnone source.1 source.2 ((hmem _ _).1 List.mem_cons_self)
  · rintro ⟨path, bytes, hsource⟩
    refine ⟨sources, hsorted, hmem, ?_⟩
    rw [htree, hresult, if_neg]
    simpa using List.ne_nil_of_mem ((hmem path bytes).2 hsource)

/-- A tree whose entries are listed against the order of their paths. -/
def shelves : FileTree :=
  .directory
    [("😀.java", .file [0x41]), ("\ufb00.java", .file [0x42]), ("a-b.java", .file [0x43]),
     ("a", .directory [("notes.txt", .file [0x44]), ("z.java", .file [0x45, 0xff])])]

/-- The sources of the tree in the order of their paths: a directory comes before a name that goes
on with another character, and bytes are compared, not units of two bytes. -/
def shelfSources : List (List String × List UInt8) :=
  [(["a", "z.java"], [0x45, 0xff]), (["a-b.java"], [0x43]), (["\ufb00.java"], [0x42]),
   (["😀.java"], [0x41])]

theorem ofFiles_walk_shelves :
    shelves.Distinct ∧
      ofFiles "src" "java" ((walk shelves).reverse.filterMap file?) =
        .ok [⟨"a/z.java", "E\ufffd"⟩, ⟨"a-b.java", "C"⟩, ⟨"\ufb00.java", "B"⟩, ⟨"😀.java", "A"⟩] := by
  have hdistinct : shelves.Distinct := by
    refine .directory (by decide) ?_
    simp only [List.forall_mem_cons, List.not_mem_nil, false_imp_iff, implies_true, and_true]
    exact ⟨.file _, .file _, .file _, .directory (by decide) (by simp [Distinct.file])⟩
  have hreadable : ∀ path cause, shelves.lookup? path ≠ some (.unreadable cause) := by
    intro path cause h
    have hmem := (hdistinct.isWalk_walk.mem_iff _ _).2 h
    simp [walk, walkBelow, walkEntries, shelves] at hmem
  obtain ⟨hsame, -, -⟩ := ofFiles_walk hdistinct hreadable "src" "java"
  refine ⟨hdistinct, ?_⟩
  rw [hsame _ (hdistinct.isWalk_walk.perm (List.reverse_perm _))]
  have hkept : kept "src" "java" shelves.files =
      (shelfSources.map fun file => Found.mk file.1 (.ok file.2)).reverse := by
    rfl
  have hsorted : (shelfSources.map fun file => Found.mk file.1 (.ok file.2)).Pairwise
      fun a b => inOrder a b = true := by
    decide +kernel
  have hfiles : ofFiles "src" "java" shelves.files = .ok (shelfSources.map (unitOf "src")) := by
    rw [ofFiles_eq, hkept, mergeSort_eq_of_perm (List.reverse_perm _) (by decide +kernel),
      List.mergeSort_of_pairwise hsorted, mapM_ofFile]
    rfl
  have hunits : shelfSources.map (unitOf "src") =
      [⟨"a/z.java", "E\ufffd"⟩, ⟨"a-b.java", "C"⟩, ⟨"\ufb00.java", "B"⟩, ⟨"😀.java", "A"⟩] := by
    decide +kernel
  rw [← hunits]
  exact hfiles

end ClassDiagram.SourceUnit
