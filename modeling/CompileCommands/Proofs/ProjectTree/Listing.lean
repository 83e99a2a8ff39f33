-- The listing of a tree whose names stand in order. A file that is added comes
-- to the listing once if it is put into the tree, and else the listing stays.
import CompileCommands.Proofs.Path.Set
import CompileCommands.Proofs.ProjectTree.Files

namespace CompileCommands

open Std

/-! ## Children under other names -/

/-- The children but the one under a name. -/
def childrenBut (name : String) (children : List (String × Node)) : List (String × Node) :=
  children.filter (·.1 ≠ name)

theorem childrenBut_cons_self (name : String) (node : Node) (children : List (String × Node)) :
    childrenBut name ((name, node) :: children) = childrenBut name children :=
  List.filter_cons_of_neg (by simp)

theorem childrenBut_cons_of_ne {name other : String} (h : other ≠ name) (node : Node)
    (children : List (String × Node)) :
    childrenBut name ((other, node) :: children) = (other, node) :: childrenBut name children :=
  List.filter_cons_of_pos (by simpa using h)

theorem childrenBut_eq_self {name : String} {children : List (String × Node)}
    (h : ∀ child ∈ children, child.1 ≠ name) : childrenBut name children = children :=
  List.filter_eq_self.mpr fun child hchild => by simpa using h child hchild

/-- A node that is put under a name stands there beside the other children. -/
theorem setChild_perm {name : String} {node : Node} {children : List (String × Node)}
    (h : NamesInOrder children) :
    (setChild name node children).Perm ((name, node) :: childrenBut name children) := by
  induction children with
  | nil => exact List.Perm.refl _
  | cons first rest ih =>
    obtain ⟨other, old⟩ := first
    obtain ⟨hfirst, hrest⟩ := List.pairwise_cons.mp h
    rw [setChild]
    split
    · rename_i hlt
      have hothers : ∀ child ∈ (other, old) :: rest, child.1 ≠ name := by
        intro child hchild
        rcases List.mem_cons.mp hchild with rfl | hchild
        · exact (ne_of_compare_lt hlt).symm
        · exact (ne_of_compare_lt (TransCmp.lt_trans hlt (hfirst child hchild))).symm
      rw [childrenBut_eq_self hothers]
    · rename_i heq
      obtain rfl : name = other := LawfulEqOrd.eq_of_compare heq
      rw [childrenBut_cons_self,
        childrenBut_eq_self fun child hchild => (ne_of_compare_lt (hfirst child hchild)).symm]
    · rename_i hgt
      have hother : other ≠ name := ne_of_compare_lt (OrientedCmp.lt_of_gt hgt)
      rw [childrenBut_cons_of_ne hother]
      exact ((ih hrest).cons _).trans (List.Perm.swap _ _ _)

theorem perm_of_lookup {name : String} {node : Node} {children : List (String × Node)}
    (h : NamesInOrder children) (hlookup : children.lookup name = some node) :
    children.Perm ((name, node) :: childrenBut name children) := by
  induction children with
  | nil => cases hlookup
  | cons first rest ih =>
    obtain ⟨other, old⟩ := first
    obtain ⟨hfirst, hrest⟩ := List.pairwise_cons.mp h
    rw [lookup_child] at hlookup
    split at hlookup
    · rename_i heq
      cases hlookup
      subst heq
      rw [childrenBut_cons_self,
        childrenBut_eq_self fun child hchild => (ne_of_compare_lt (hfirst child hchild)).symm]
    · rename_i hne
      rw [childrenBut_cons_of_ne (Ne.symm hne)]
      exact ((ih hrest hlookup).cons _).trans (List.Perm.swap _ _ _)

theorem childrenBut_of_lookup_eq_none {name : String} {children : List (String × Node)}
    (h : NamesInOrder children) (hlookup : children.lookup name = none) :
    childrenBut name children = children := by
  refine childrenBut_eq_self fun child hchild => ?_
  rintro rfl
  have hsome := h.lookup hchild
  rw [hlookup] at hsome
  cases hsome

theorem filesOfEach_perm {children children' : List (String × Node)} (h : children.Perm children') :
    (filesOfEach children).Perm (filesOfEach children') := by
  rw [filesOfEach_eq, filesOfEach_eq]
  exact (h.map Prod.snd).flatMap_right Node.files

/-! ## Trees in order -/

/-- The names stand in order in every folder from a node down. -/
inductive Node.IsOrdered : Node → Prop
  | file (file : FileNode) : IsOrdered (.file file)
  | folder {path : Path} {displayName : String} {children : List (String × Node)} :
      NamesInOrder children → (∀ child ∈ children, child.2.IsOrdered) →
      IsOrdered (.folder path displayName children)

namespace Folder

def IsOrdered (f : Folder) : Prop := f.toNode.IsOrdered

theorem isOrdered_iff {f : Folder} : f.IsOrdered ↔
    NamesInOrder f.children ∧ ∀ child ∈ f.children, child.2.IsOrdered := by
  constructor
  · intro h
    cases h with
    | folder hnames hchildren => exact ⟨hnames, hchildren⟩
  · exact fun h => .folder h.1 h.2

theorem named_isOrdered (path : Path) (displayName : String) : (named path displayName).IsOrdered :=
  .folder .nil nofun

variable {f : Folder} {name : String}

theorem IsOrdered.put (h : f.IsOrdered) {node : Node} (hnode : node.IsOrdered) :
    (f.put name node).IsOrdered := by
  obtain ⟨hnames, hchildren⟩ := isOrdered_iff.mp h
  refine isOrdered_iff.mpr ⟨setChild_namesInOrder hnames, fun child hchild => ?_⟩
  rcases mem_setChild hchild with rfl | hchild
  · exact hnode
  · exact hchildren child hchild

theorem IsOrdered.addChild (h : f.IsOrdered) {node : Node} (hnode : node.IsOrdered) :
    (f.addChild name node).IsOrdered := by
  unfold Folder.addChild
  split <;> exact h.put hnode

theorem IsOrdered.openChild? (h : f.IsOrdered) {below : Folder}
    (hopen : f.openChild? name = some below) : below.IsOrdered := by
  rcases openChild?_eq_some hopen with hchild | ⟨-, rfl⟩
  · exact (isOrdered_iff.mp h).2 (name, below.toNode) (mem_of_lookup hchild)
  · exact named_isOrdered _ _

/-- The children with one put under a name, if the name was free. -/
theorem IsOrdered.children_put (h : f.IsOrdered) (hfree : f.child? name = none) (node : Node) :
    (f.put name node).children.Perm ((name, node) :: f.children) := by
  have hnames := (isOrdered_iff.mp h).1
  rw [← childrenBut_of_lookup_eq_none hnames hfree]
  exact setChild_perm hnames

/-- What stands under other names is listed before and after. -/
theorem IsOrdered.files_put (h : f.IsOrdered) (name : String) (node : Node) :
    ∃ others, f.files.Perm ((f.child? name).elim [] Node.files ++ others) ∧
      (f.put name node).files.Perm (node.files ++ others) := by
  have hnames := (isOrdered_iff.mp h).1
  refine ⟨filesOfEach (childrenBut name f.children), ?_, ?_⟩
  · rw [files_eq]
    cases hchild : f.child? name with
    | none =>
      rw [childrenBut_of_lookup_eq_none hnames hchild]
      exact List.Perm.refl _
    | some old => exact filesOfEach_perm (perm_of_lookup hnames hchild)
  · rw [files_eq]
    exact filesOfEach_perm (setChild_perm hnames)

theorem files_of_openChild? {below : Folder} (hopen : f.openChild? name = some below) :
    (f.child? name).elim [] Node.files = below.files := by
  rw [files_eq]
  rcases openChild?_eq_some hopen with hchild | ⟨hchild, rfl⟩
  · rw [hchild]
    rfl
  · rw [hchild]
    rfl

/-! ## A change at the end of a way -/

section Descend

variable {α : Type} {change : Folder → α × Folder} {blocked : α}

theorem IsOrdered.descend_of (hchange : ∀ g : Folder, g.IsOrdered → (change g).2.IsOrdered)
    (h : f.IsOrdered) (dirs : List String) : (f.descend change blocked dirs).2.IsOrdered := by
  induction dirs generalizing f with
  | nil => exact hchange f h
  | cons dir dirs ih =>
    rw [Folder.descend]
    split
    · exact h
    · rename_i below hopen
      exact h.put (ih (h.openChild? hopen))

/-- What a change brings to the listing of the folder at the end of a way, it
brings to the listing of the tree. -/
theorem IsOrdered.files_descend_of (brought : α → List FileNode) (hnone : brought blocked = [])
    (hchange : ∀ g : Folder, g.IsOrdered →
      (change g).2.files.Perm (brought (change g).1 ++ g.files))
    (h : f.IsOrdered) (dirs : List String) : (f.descend change blocked dirs).2.files.Perm
      (brought (f.descend change blocked dirs).1 ++ f.files) := by
  induction dirs generalizing f with
  | nil => exact hchange f h
  | cons dir dirs ih =>
    rw [Folder.descend]
    split
    · rw [hnone]
      exact List.Perm.refl _
    · rename_i below hopen
      have hbelow := ih (h.openChild? hopen)
      obtain ⟨others, hold, hnew⟩ := h.files_put dir (below.descend change blocked dirs).2.toNode
      rw [files_of_openChild? hopen] at hold
      rw [← files_eq] at hnew
      refine (hnew.trans (hbelow.append_right others)).trans ?_
      rw [List.append_assoc]
      exact hold.symm.append_left _

theorem IsOrdered.folderFor (h : f.IsOrdered) (dir : Path) : (f.folderFor dir).2.IsOrdered := by
  unfold Folder.folderFor
  split
  · exact h
  · exact h.descend_of (fun _ hg => hg) _

end Descend

/-! ## A file that is added -/

section Insert

variable (file : FileNode)

theorem IsOrdered.insertFile (h : f.IsOrdered) : (insertFile file f).2.IsOrdered := by
  unfold Folder.insertFile
  split
  · exact h
  · exact h.put (.file file)

theorem IsOrdered.files_insertFile (h : f.IsOrdered) : (Folder.insertFile file f).2.files.Perm
    ((if (Folder.insertFile file f).1 then [file] else []) ++ f.files) := by
  unfold Folder.insertFile
  split
  · exact List.Perm.refl _
  · rename_i htaken
    have hfree : f.child? file.path.displayName = none := by simpa using htaken
    obtain ⟨others, hold, hnew⟩ := h.files_put file.path.displayName (.file file)
    rw [hfree] at hold
    exact hnew.trans (hold.symm.cons file)

theorem IsOrdered.descend (h : f.IsOrdered) (dirs : List String) :
    (f.descend (Folder.insertFile file) false dirs).2.IsOrdered :=
  h.descend_of (fun _ hg => hg.insertFile file) dirs

theorem IsOrdered.addFile (h : f.IsOrdered) : (f.addFile file).2.IsOrdered := by
  unfold Folder.addFile
  split
  · exact h
  · exact h.descend file _

/-- A file that is put into a tree comes to the listing once, and nothing else
changes there. -/
theorem IsOrdered.files_descend (h : f.IsOrdered) (dirs : List String) :
    (f.descend (Folder.insertFile file) false dirs).2.files.Perm
      (if (f.descend (Folder.insertFile file) false dirs).1 then file :: f.files else f.files) := by
  have hfiles : (f.descend (Folder.insertFile file) false dirs).2.files.Perm
      ((if (f.descend (Folder.insertFile file) false dirs).1 then [file] else []) ++ f.files) :=
    h.files_descend_of (fun put : Bool => if put then [file] else []) rfl
      (fun _ hg => hg.files_insertFile file) dirs
  split at hfiles
  · rwa [if_pos ‹_›]
  · rwa [if_neg ‹_›]

/-- Where a file was put nothing stood before. -/
theorem labelAt?_eq_none_of_descend {dirs : List String}
    (h : (f.descend (insertFile file) false dirs).1 = true) :
    f.labelAt? (dirs ++ [file.path.displayName]) = none := by
  induction dirs generalizing f with
  | nil =>
    simp only [Folder.descend, insertFile] at h
    split at h
    · cases h
    · rename_i htaken
      have hfree : f.child? file.path.displayName = none := by simpa using htaken
      rw [List.nil_append, labelAt?_cons, hfree]
      rfl
  | cons dir dirs ih =>
    rw [Folder.descend] at h
    split at h
    · cases h
    · rename_i below hopen
      have hbelow := ih h
      rw [List.cons_append, labelAt?_cons]
      rcases openChild?_eq_some hopen with hchild | ⟨hchild, -⟩
      · rw [hchild]
        exact hbelow
      · rw [hchild]
        rfl

end Insert

end Folder

end CompileCommands
