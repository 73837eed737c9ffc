import ClassDiagram.Files.Tree

/-!
# Walks of a file tree

A walk of a tree yields each of its entries once: the tree itself and everything that can be looked
up in it. The order is left open. One walk goes from each directory to its entries before it goes on
(`walk`), and all others are permutations of it (`IsWalk.perm_walk`). It visits the files in the
order in which they are listed (`filterMap_walk`).
-/

namespace ClassDiagram.FileTree

/-- The entries of each directory have different names. -/
inductive Distinct : FileTree → Prop
  | file (bytes : List UInt8) : Distinct (.file bytes)
  | unreadable (cause : FileError) : Distinct (.unreadable cause)
  | directory {entries : List (String × FileTree)} (hnames : (entries.map Prod.fst).Nodup)
      (hentries : ∀ entry ∈ entries, Distinct entry.2) : Distinct (.directory entries)

/-- Each entry of the tree is yielded once, with the names that lead to it. -/
structure IsWalk (tree : FileTree) (entries : List (List String × FileTree)) : Prop where
  nodup : (entries.map Prod.fst).Nodup
  mem_iff : ∀ path sub, (path, sub) ∈ entries ↔ tree.lookup? path = some sub

/-- The file that a walk has come to, unless it is a directory. -/
def file? : List String × FileTree → Option Found
  | (path, file bytes) => some ⟨path, .ok bytes⟩
  | (path, unreadable cause) => some ⟨path, .error cause⟩
  | (_, directory _) => none

mutual

/-- All entries of a tree below the given names, a directory in front of its own entries. -/
def walkBelow (above : List String) : FileTree → List (List String × FileTree)
  | file bytes => [(above, file bytes)]
  | unreadable cause => [(above, unreadable cause)]
  | directory entries => (above, directory entries) :: walkEntries above entries

/-- All entries of the trees in a directory. -/
def walkEntries (above : List String) :
    List (String × FileTree) → List (List String × FileTree)
  | [] => []
  | (name, tree) :: rest => walkBelow (above ++ [name]) tree ++ walkEntries above rest

end

/-- All entries of a tree, a directory in front of its own entries. -/
def walk (tree : FileTree) : List (List String × FileTree) := walkBelow [] tree

/-! ## Files -/

mutual

theorem filterMap_walkBelow (above : List String) (tree : FileTree) :
    (walkBelow above tree).filterMap file? = filesBelow above tree := by
  cases tree with
  | file bytes => rfl
  | unreadable cause => rfl
  | directory entries =>
    rw [walkBelow, filesBelow, List.filterMap_cons]
    exact filterMap_walkEntries above entries

theorem filterMap_walkEntries (above : List String) (entries : List (String × FileTree)) :
    (walkEntries above entries).filterMap file? = entryFiles above entries := by
  cases entries with
  | nil => rfl
  | cons entry rest =>
    obtain ⟨name, tree⟩ := entry
    rw [walkEntries, entryFiles, List.filterMap_append, filterMap_walkBelow,
      filterMap_walkEntries]

end

theorem filterMap_walk (tree : FileTree) : (walk tree).filterMap file? = tree.files :=
  filterMap_walkBelow [] tree

theorem path_of_file? {entry : List String × FileTree} {found : Found}
    (h : file? entry = some found) : found.path = entry.1 := by
  obtain ⟨path, _ | _ | _⟩ := entry <;> cases h <;> rfl

theorem nodup_paths {entries : List (List String × FileTree)}
    (h : (entries.map Prod.fst).Nodup) :
    ((entries.filterMap file?).map (·.path)).Nodup := by
  refine h.sublist ?_
  induction entries with
  | nil => exact List.Sublist.slnil
  | cons entry entries ih =>
    have ih := ih (List.nodup_cons.1 h).2
    rw [List.filterMap_cons, List.map_cons]
    cases hfile : file? entry with
    | none => exact ih.cons _
    | some found =>
      simp only [List.map_cons, path_of_file? hfile]
      exact ih.cons_cons _

theorem mem_filterMap_file?_iff {entries : List (List String × FileTree)} {path : List String}
    {bytes : List UInt8} :
    ⟨path, .ok bytes⟩ ∈ entries.filterMap file? ↔ (path, file bytes) ∈ entries := by
  rw [List.mem_filterMap]
  constructor
  · rintro ⟨⟨path', _ | _ | _⟩, hmem, hfile⟩ <;> cases hfile
    exact hmem
  · exact fun hmem => ⟨_, hmem, rfl⟩

/-! ## The walk from directory to entries -/

theorem mem_of_child? {name : String} {tree : FileTree} {entries : List (String × FileTree)}
    (h : child? name entries = some tree) : (name, tree) ∈ entries := by
  induction entries with
  | nil => cases h
  | cons entry rest ih =>
    obtain ⟨n, t⟩ := entry
    rw [child?] at h
    split at h
    next hn =>
      cases h
      rw [hn]
      exact List.mem_cons_self
    next => exact List.mem_cons_of_mem _ (ih h)

/-- What a walk yields below a directory stands below one of its entries. -/
theorem mem_walkEntries_iff {entries : List (String × FileTree)}
    (hnames : (entries.map Prod.fst).Nodup)
    (hentries : ∀ entry ∈ entries, ∀ above path sub,
      (path, sub) ∈ walkBelow above entry.2 ↔
        ∃ names, path = above ++ names ∧ entry.2.lookup? names = some sub)
    (above path : List String) (sub : FileTree) :
    (path, sub) ∈ walkEntries above entries ↔
      ∃ name names, path = above ++ name :: names ∧
        (child? name entries).bind (·.lookup? names) = some sub := by
  induction entries with
  | nil => simp [walkEntries, child?]
  | cons entry rest ih =>
    obtain ⟨name, tree⟩ := entry
    obtain ⟨hhere, hrest⟩ := List.forall_mem_cons.1 hentries
    rw [List.map_cons, List.nodup_cons] at hnames
    rw [walkEntries, List.mem_append, hhere, ih hnames.2 hrest]
    constructor
    · rintro (⟨names, rfl, hsub⟩ | ⟨name', names, rfl, hsub⟩)
      · exact ⟨name, names, by simp, by simpa [child?] using hsub⟩
      · refine ⟨name', names, rfl, ?_⟩
        have hne : name ≠ name' := by
          rintro rfl
          obtain ⟨tree', hchild, -⟩ := Option.bind_eq_some_iff.1 hsub
          exact hnames.1 (List.mem_map.2 ⟨_, mem_of_child? hchild, rfl⟩)
        rwa [child?, if_neg hne]
    · rintro ⟨name', names, rfl, hsub⟩
      by_cases hname : name = name'
      · subst hname
        exact .inl ⟨names, by simp, by simpa [child?] using hsub⟩
      · rw [child?, if_neg hname] at hsub
        exact .inr ⟨name', names, rfl, hsub⟩

theorem Distinct.mem_walkBelow_iff {tree : FileTree} (h : tree.Distinct) (above path : List String)
    (sub : FileTree) :
    (path, sub) ∈ walkBelow above tree ↔
      ∃ names, path = above ++ names ∧ tree.lookup? names = some sub := by
  induction h generalizing above path sub with
  | file bytes | unreadable cause =>
    rw [walkBelow, List.mem_singleton]
    constructor
    · rintro heq
      cases heq
      exact ⟨[], by simp, rfl⟩
    · rintro ⟨names, rfl, hsub⟩
      cases names with
      | nil => cases hsub; simp
      | cons name names => cases hsub
  | directory hnames _ ih =>
    rw [walkBelow, List.mem_cons, mem_walkEntries_iff hnames ih]
    constructor
    · rintro (heq | ⟨name, names, rfl, hsub⟩)
      · cases heq
        exact ⟨[], by simp, rfl⟩
      · exact ⟨name :: names, rfl, hsub⟩
    · rintro ⟨names, rfl, hsub⟩
      cases names with
      | nil => cases hsub; simp
      | cons name names => exact .inr ⟨name, names, rfl, hsub⟩

/-- Paths below different entries of a directory differ in the name of the entry. -/
theorem nodup_walkEntries {entries : List (String × FileTree)}
    (hnames : (entries.map Prod.fst).Nodup) (hentries : ∀ entry ∈ entries, entry.2.Distinct)
    (hnodup : ∀ entry ∈ entries, ∀ above, ((walkBelow above entry.2).map Prod.fst).Nodup)
    (above : List String) : ((walkEntries above entries).map Prod.fst).Nodup := by
  induction entries with
  | nil => simp [walkEntries]
  | cons entry rest ih =>
    obtain ⟨name, tree⟩ := entry
    obtain ⟨htree, hrest⟩ := List.forall_mem_cons.1 hentries
    obtain ⟨hhere, hlater⟩ := List.forall_mem_cons.1 hnodup
    rw [List.map_cons, List.nodup_cons] at hnames
    rw [walkEntries, List.map_append, List.nodup_append]
    refine ⟨hhere _, ih hnames.2 hrest hlater, fun path hpath path' hpath' heq => ?_⟩
    obtain ⟨⟨_, sub⟩, hmem, rfl⟩ := List.mem_map.1 hpath
    obtain ⟨⟨_, sub'⟩, hmem', rfl⟩ := List.mem_map.1 hpath'
    obtain ⟨names, rfl, -⟩ := (htree.mem_walkBelow_iff _ _ _).1 hmem
    obtain ⟨name', names', rfl, hsub'⟩ :=
      (mem_walkEntries_iff hnames.2 (fun e he => (hrest e he).mem_walkBelow_iff) _ _ _).1 hmem'
    obtain ⟨tree', hchild, -⟩ := Option.bind_eq_some_iff.1 hsub'
    obtain ⟨rfl, -⟩ : name = name' ∧ names = names' := by simpa using heq
    exact hnames.1 (List.mem_map.2 ⟨_, mem_of_child? hchild, rfl⟩)

theorem Distinct.nodup_walkBelow {tree : FileTree} (h : tree.Distinct) (above : List String) :
    ((walkBelow above tree).map Prod.fst).Nodup := by
  induction h generalizing above with
  | file bytes | unreadable cause => simp [walkBelow]
  | directory hnames hentries ih =>
    rw [walkBelow, List.map_cons, List.nodup_cons]
    refine ⟨fun habove => ?_, nodup_walkEntries hnames hentries ih above⟩
    obtain ⟨⟨_, sub⟩, hmem, rfl⟩ := List.mem_map.1 habove
    obtain ⟨name, names, heq, -⟩ :=
      (mem_walkEntries_iff hnames (fun e he => (hentries e he).mem_walkBelow_iff) _ _ _).1 hmem
    simp at heq

theorem Distinct.isWalk_walk {tree : FileTree} (h : tree.Distinct) : IsWalk tree (walk tree) where
  nodup := h.nodup_walkBelow []
  mem_iff path sub := by simp [walk, h.mem_walkBelow_iff]

/-- All walks are this one in another order. -/
theorem IsWalk.perm_walk {tree : FileTree} {entries : List (List String × FileTree)}
    (hwalk : IsWalk tree entries) (h : tree.Distinct) : entries.Perm (walk tree) := by
  have hnodup {entries : List (List String × FileTree)} (hwalk : IsWalk tree entries) :
      entries.Nodup :=
    List.Pairwise.of_map Prod.fst (fun _ _ hne heq => hne (congrArg Prod.fst heq)) hwalk.nodup
  rw [List.perm_ext_iff_of_nodup (hnodup hwalk) (hnodup h.isWalk_walk)]
  rintro ⟨path, sub⟩
  rw [hwalk.mem_iff, h.isWalk_walk.mem_iff]

theorem IsWalk.perm {tree : FileTree} {entries entries' : List (List String × FileTree)}
    (h : IsWalk tree entries) (hperm : entries'.Perm entries) : IsWalk tree entries' where
  nodup := (hperm.map _).nodup_iff.2 h.nodup
  mem_iff path sub := hperm.mem_iff.trans (h.mem_iff path sub)

end ClassDiagram.FileTree
