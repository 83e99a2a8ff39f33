-- What stands where in a tree. A list of names leads from a folder down to at
-- most one node. A file put into a tree leaves all other nodes where they
-- are, and makes no others than the folders on its way.
import CompileCommands.ProjectTree

namespace CompileCommands

open Std

/-! ## Children -/

theorem lookup_child (other key : String) (old : Node) (rest : List (String × Node)) :
    ((other, old) :: rest).lookup key = if key = other then some old else rest.lookup key := by
  rw [List.lookup_cons]
  by_cases h : key = other
  · simp [h]
  · simp [h, beq_eq_false_iff_ne.mpr h]

theorem lookup_setChild (name key : String) (node : Node) (children : List (String × Node)) :
    (setChild name node children).lookup key =
      if key = name then some node else children.lookup key := by
  induction children with
  | nil => exact lookup_child name key node []
  | cons child rest ih =>
    obtain ⟨other, old⟩ := child
    rw [setChild]
    split
    · rw [lookup_child]
    · rename_i heq
      obtain rfl : name = other := LawfulEqOrd.eq_of_compare heq
      rw [lookup_child, lookup_child]
      split <;> rfl
    · rename_i hgt
      have hne : other ≠ name := by
        rintro rfl
        have hself : compare other other = .eq := ReflCmp.compare_self
        rw [hself] at hgt
        cases hgt
      rw [lookup_child, lookup_child, ih]
      by_cases h : key = other
      · simp [h, hne]
      · simp [h]

theorem mem_setChild {name : String} {node : Node} {children : List (String × Node)}
    {child : String × Node} (h : child ∈ setChild name node children) :
    child = (name, node) ∨ child ∈ children := by
  induction children with
  | nil => exact .inl (List.mem_singleton.mp h)
  | cons first rest ih =>
    obtain ⟨other, old⟩ := first
    rw [setChild] at h
    split at h
    · exact List.mem_cons.mp h
    · rcases List.mem_cons.mp h with rfl | h
      · exact .inl rfl
      · exact .inr (List.mem_cons_of_mem _ h)
    · rcases List.mem_cons.mp h with rfl | h
      · exact .inr List.mem_cons_self
      · exact (ih h).imp_right (List.mem_cons_of_mem _)

theorem mem_of_lookup {children : List (String × Node)} {name : String} {node : Node}
    (h : children.lookup name = some node) : (name, node) ∈ children := by
  induction children with
  | nil => cases h
  | cons first rest ih =>
    obtain ⟨other, old⟩ := first
    rw [lookup_child] at h
    split at h
    · rename_i heq
      rw [← Option.some.inj h, heq]
      exact List.mem_cons_self
    · exact List.mem_cons_of_mem _ (ih h)

/-- The names of the children stand in their order, none of them twice. -/
def NamesInOrder (children : List (String × Node)) : Prop :=
  children.Pairwise fun a b => compare a.1 b.1 = .lt

theorem setChild_namesInOrder {name : String} {node : Node} {children : List (String × Node)}
    (h : NamesInOrder children) : NamesInOrder (setChild name node children) := by
  induction children with
  | nil => exact List.pairwise_singleton _ _
  | cons first rest ih =>
    obtain ⟨other, old⟩ := first
    obtain ⟨hfirst, hrest⟩ := List.pairwise_cons.mp h
    rw [setChild]
    split
    · rename_i hlt
      refine List.pairwise_cons.mpr ⟨fun child hchild => ?_, h⟩
      rcases List.mem_cons.mp hchild with rfl | hchild
      · exact hlt
      · exact TransCmp.lt_trans hlt (hfirst child hchild)
    · rename_i heq
      obtain rfl : name = other := LawfulEqOrd.eq_of_compare heq
      exact List.pairwise_cons.mpr ⟨hfirst, hrest⟩
    · rename_i hgt
      refine List.pairwise_cons.mpr ⟨fun child hchild => ?_, ih hrest⟩
      rcases mem_setChild hchild with rfl | hchild
      · exact OrientedCmp.lt_of_gt hgt
      · exact hfirst child hchild

theorem NamesInOrder.lookup {children : List (String × Node)} (h : NamesInOrder children)
    {name : String} {node : Node} (hmem : (name, node) ∈ children) :
    children.lookup name = some node := by
  induction children with
  | nil => cases hmem
  | cons first rest ih =>
    obtain ⟨other, old⟩ := first
    obtain ⟨hfirst, hrest⟩ := List.pairwise_cons.mp h
    rw [lookup_child]
    rcases List.mem_cons.mp hmem with heq | hmem
    · cases heq
      rw [if_pos rfl]
    · have hne : name ≠ other := by
        intro heq
        have hlt : compare other name = .lt := hfirst (name, node) hmem
        rw [heq] at hlt
        have hself : compare other other = .eq := ReflCmp.compare_self
        rw [hself] at hlt
        cases hlt
      rw [if_neg hne]
      exact ih hrest hmem

/-! ## Labels -/

/-- A node without its children. -/
inductive Label
  | file (file : FileNode)
  | folder (path : Path) (displayName : String)
  deriving DecidableEq, Repr

def Node.label : Node → Label
  | .file f => .file f
  | .folder path displayName _ => .folder path displayName

/-- What stands at the end of some names. -/
def Node.labelAt? : Node → List String → Option Label
  | node, [] => some node.label
  | .file _, _ :: _ => none
  | .folder _ _ children, name :: rest => (children.lookup name).bind (·.labelAt? rest)

namespace Folder

def labelAt? (f : Folder) (names : List String) : Option Label := f.toNode.labelAt? names

theorem labelAt?_nil (f : Folder) : f.labelAt? [] = some (.folder f.path f.displayName) := rfl

theorem labelAt?_cons (f : Folder) (name : String) (rest : List String) :
    f.labelAt? (name :: rest) = (f.child? name).bind (·.labelAt? rest) := rfl

theorem child?_put (f : Folder) (name key : String) (node : Node) :
    (f.put name node).child? key = if key = name then some node else f.child? key :=
  lookup_setChild name key node f.children

theorem labelAt?_put (f : Folder) (name key : String) (node : Node) (rest : List String) :
    (f.put name node).labelAt? (key :: rest) =
      if key = name then node.labelAt? rest else f.labelAt? (key :: rest) := by
  rw [labelAt?_cons, child?_put, labelAt?_cons]
  split <;> rfl

theorem eq_toNode {node : Node} {f : Folder} (h : node.folder? = some f) : node = f.toNode := by
  cases node with
  | file file => cases h
  | folder path displayName children =>
    cases h
    rfl

/-- The folder under a name is one that is there, or a new one. -/
theorem openChild?_eq_some {f below : Folder} {name : String} (h : f.openChild? name = some below) :
    f.child? name = some below.toNode ∨
      f.child? name = none ∧ below = named (f.path.child name) name := by
  unfold openChild? at h
  split at h
  · rename_i node hnode
    exact .inl (hnode.trans (congrArg some (eq_toNode h)))
  · exact .inr ⟨‹_›, (Option.some.inj h).symm⟩

theorem openChild?_eq_none {f : Folder} {name : String} (h : f.openChild? name = none) :
    ∃ file, f.child? name = some (.file file) := by
  unfold openChild? at h
  split at h
  · rename_i node hnode
    cases node with
    | file file => exact ⟨file, hnode⟩
    | folder path displayName children => cases h
  · cases h

/-- Below an opened folder stands what stood there before. Only the folder
itself can be new. -/
theorem labelAt?_of_openChild? {f below : Folder} {name : String} {rest : List String} {l : Label}
    (hopen : f.openChild? name = some below) (h : below.labelAt? rest = some l) :
    f.labelAt? (name :: rest) = some l ∨ rest = [] := by
  rcases openChild?_eq_some hopen with hchild | ⟨-, rfl⟩
  · left
    rw [labelAt?_cons, hchild]
    exact h
  · cases rest with
    | nil => exact .inr rfl
    | cons key rest => cases h

/-! ## A file put into a tree -/

section Insert

variable (file : FileNode)

theorem labelAt?_insertFile {f : Folder} {names : List String} {l : Label}
    (h : f.labelAt? names = some l) : (insertFile file f).2.labelAt? names = some l := by
  unfold insertFile
  split
  · exact h
  · rename_i hfree
    cases names with
    | nil => exact h
    | cons key rest =>
      have hne : key ≠ file.path.displayName := by
        rintro rfl
        rw [labelAt?_cons] at h
        cases hchild : f.child? file.path.displayName with
        | none =>
          rw [hchild] at h
          cases h
        | some node => exact hfree (by rw [hchild]; rfl)
      show (f.put _ _).labelAt? (key :: rest) = some l
      rw [labelAt?_put, if_neg hne, h]

theorem labelAt?_insertFile_inv {f : Folder} {names : List String} {l : Label}
    (h : (insertFile file f).2.labelAt? names = some l) :
    f.labelAt? names = some l ∨ names = [file.path.displayName] ∧ l = .file file := by
  unfold insertFile at h
  split at h
  · exact .inl h
  · cases names with
    | nil => exact .inl h
    | cons key rest =>
      rw [labelAt?_put] at h
      split at h
      · rename_i hkey
        cases rest with
        | nil => exact .inr ⟨by rw [hkey], (Option.some.inj h).symm⟩
        | cons name rest => cases h
      · exact .inl h

/-- What stands in a tree stays where it is. -/
theorem labelAt?_descend {dirs names : List String} {f : Folder} {l : Label}
    (h : f.labelAt? names = some l) :
    (f.descend (insertFile file) false dirs).2.labelAt? names = some l := by
  induction dirs generalizing f names with
  | nil => exact labelAt?_insertFile file h
  | cons dir dirs ih =>
    rw [descend]
    split
    · exact h
    · rename_i below hopen
      cases names with
      | nil => exact h
      | cons key rest =>
        show (f.put _ _).labelAt? (key :: rest) = some l
        rw [labelAt?_put]
        split
        · subst key
          rw [labelAt?_cons] at h
          rcases openChild?_eq_some hopen with hchild | ⟨hchild, -⟩
          · rw [hchild] at h
            exact ih h
          · rw [hchild] at h
            cases h
        · exact h

/-- What stands in a tree was there before, or is the file or a folder on the
way to it. -/
theorem labelAt?_descend_inv {dirs names : List String} {f : Folder} {l : Label}
    (h : (f.descend (insertFile file) false dirs).2.labelAt? names = some l) :
    f.labelAt? names = some l ∨ names = dirs ++ [file.path.displayName] ∧ l = .file file ∨
      (names <+: dirs ∧ ∃ path displayName, l = .folder path displayName) := by
  induction dirs generalizing f names with
  | nil =>
    rcases labelAt?_insertFile_inv file h with h | h
    · exact .inl h
    · exact .inr (.inl h)
  | cons dir dirs ih =>
    rw [descend] at h
    split at h
    · exact .inl h
    · rename_i below hopen
      cases names with
      | nil => exact .inl h
      | cons key rest =>
        change (f.put _ _).labelAt? (key :: rest) = some l at h
        rw [labelAt?_put] at h
        split at h
        · rename_i hkey
          rw [hkey]
          rcases ih h with hbelow | ⟨hrest, hfile⟩ | ⟨hrest, hfolder⟩
          · rcases labelAt?_of_openChild? hopen hbelow with hold | rfl
            · exact .inl hold
            · right; right
              exact ⟨by simp, _, _, (Option.some.inj hbelow).symm⟩
          · exact .inr (.inl ⟨by rw [hrest, List.cons_append], hfile⟩)
          · exact .inr (.inr ⟨List.cons_prefix_cons.mpr ⟨rfl, hrest⟩, hfolder⟩)
        · exact .inl h

/-- A file that was put into a tree is there. -/
theorem labelAt?_of_descend {dirs : List String} {f : Folder}
    (h : (f.descend (insertFile file) false dirs).1 = true) :
    (f.descend (insertFile file) false dirs).2.labelAt? (dirs ++ [file.path.displayName]) =
      some (.file file) := by
  induction dirs generalizing f with
  | nil =>
    simp only [descend, insertFile] at h ⊢
    split at h
    · cases h
    · rename_i hfree
      simp only [if_neg hfree, List.nil_append]
      rw [labelAt?_put, if_pos rfl]
      rfl
  | cons dir dirs ih =>
    rw [descend] at h ⊢
    split at h
    · cases h
    · rename_i below hopen
      show (f.put _ _).labelAt? (dir :: (dirs ++ _)) = _
      rw [labelAt?_put, if_pos rfl]
      exact ih h

/-- A file is left out only where another one is in the way, or where its own
name is taken. -/
theorem exists_of_not_descend {dirs : List String} {f : Folder}
    (h : (f.descend (insertFile file) false dirs).1 = false) :
    (∃ front other, front ≠ [] ∧ front <+: dirs ∧ f.labelAt? front = some (.file other)) ∨
      ∃ l, f.labelAt? (dirs ++ [file.path.displayName]) = some l := by
  induction dirs generalizing f with
  | nil =>
    right
    simp only [descend, insertFile] at h
    split at h
    · rename_i htaken
      obtain ⟨node, hnode⟩ := Option.isSome_iff_exists.mp htaken
      exact ⟨node.label, by rw [List.nil_append, labelAt?_cons, hnode]; rfl⟩
    · cases h
  | cons dir dirs ih =>
    rw [descend] at h
    split at h
    · rename_i hopen
      obtain ⟨other, hother⟩ := openChild?_eq_none hopen
      left
      exact ⟨[dir], other, by simp, by simp, by rw [labelAt?_cons, hother]; rfl⟩
    · rename_i below hopen
      rcases ih h with ⟨front, other, hne, hfront, hlabel⟩ | ⟨l, hlabel⟩
      · left
        have hold := (labelAt?_of_openChild? hopen hlabel).resolve_right hne
        exact ⟨dir :: front, other, by simp, List.cons_prefix_cons.mpr ⟨rfl, hfront⟩, hold⟩
      · right
        exact ⟨l, (labelAt?_of_openChild? hopen hlabel).resolve_right (by simp)⟩

end Insert

/-- What stands in a tree stays there when a file is added. -/
theorem labelAt?_addFile {f : Folder} {names : List String} {l : Label} (file : FileNode)
    (h : f.labelAt? names = some l) : (f.addFile file).2.labelAt? names = some l := by
  unfold addFile
  split
  · exact h
  · exact labelAt?_descend file h

theorem addFile_label (f : Folder) (file : FileNode) :
    (f.addFile file).2.path = f.path ∧ (f.addFile file).2.displayName = f.displayName := by
  have hlabel := labelAt?_addFile file f.labelAt?_nil
  rw [labelAt?_nil, Option.some.injEq, Label.folder.injEq] at hlabel
  exact hlabel

@[simp]
theorem ofPath_path (path : Path) : (ofPath path).path = path := rfl

@[simp]
theorem addFile_path (f : Folder) (file : FileNode) : (f.addFile file).2.path = f.path :=
  (addFile_label f file).1

end Folder

end CompileCommands
