-- A change of a tree is all or nothing. Folders that are missing on a way are
-- made before it is known whether the way leads on; but below a folder that is
-- new nothing can be in the way, so a refusal comes before the first of them.
import CompileCommands.Proofs.ProjectTree.Listing

namespace CompileCommands

open Std

/-! ## A node that is put back -/

theorem setChild_eq_self {name : String} {node : Node} {children : List (String × Node)}
    (h : NamesInOrder children) (hlookup : children.lookup name = some node) :
    setChild name node children = children := by
  induction children with
  | nil => cases hlookup
  | cons first rest ih =>
    obtain ⟨other, old⟩ := first
    obtain ⟨hfirst, hrest⟩ := List.pairwise_cons.mp h
    rw [lookup_child] at hlookup
    rw [setChild]
    split at hlookup
    · rename_i heq
      cases hlookup
      subst heq
      have hself : compare name name = .eq := ReflCmp.compare_self
      rw [hself]
    · have hlt : compare other name = .lt := hfirst (name, node) (mem_of_lookup hlookup)
      rw [OrientedCmp.gt_of_lt hlt]
      exact congrArg _ (ih hrest hlookup)

namespace Folder

theorem IsOrdered.put_eq_self {f : Folder} {name : String} {node : Node} (h : f.IsOrdered)
    (hchild : f.child? name = some node) : f.put name node = f := by
  unfold Folder.put
  rw [setChild_eq_self (isOrdered_iff.mp h).1 hchild]

/-! ## Refusals -/

section Descend

variable {α : Type} {change : Folder → α × Folder} {blocked : α}

/-- From a new folder every way leads to its end. -/
theorem descend_named_ne (hnew : ∀ path displayName, (change (named path displayName)).1 ≠ blocked)
    (names : List String) (path : Path) (displayName : String) :
    ((named path displayName).descend change blocked names).1 ≠ blocked := by
  induction names generalizing path displayName with
  | nil => exact hnew path displayName
  | cons name rest ih => exact ih _ _

/-- What is refused at the end of a way, or on it, leaves the tree as it was. -/
theorem IsOrdered.descend_eq_self
    (hkeeps : ∀ g : Folder, (change g).1 = blocked → (change g).2 = g)
    (hnew : ∀ path displayName, (change (named path displayName)).1 ≠ blocked)
    {f : Folder} (h : f.IsOrdered) {names : List String}
    (hblocked : (f.descend change blocked names).1 = blocked) :
    (f.descend change blocked names).2 = f := by
  induction names generalizing f with
  | nil => exact hkeeps f hblocked
  | cons name rest ih =>
    rw [Folder.descend] at hblocked ⊢
    split at hblocked
    · rfl
    · rename_i below hopen
      rcases openChild?_eq_some hopen with hchild | ⟨-, rfl⟩
      · show f.put name (below.descend change blocked rest).2.toNode = f
        rw [ih (h.openChild? hopen) hblocked]
        exact h.put_eq_self hchild
      · exact absurd hblocked (descend_named_ne hnew rest _ _)

end Descend

theorem insertFile_eq_self {file : FileNode} {f : Folder} (hleft : (insertFile file f).1 = false) :
    (insertFile file f).2 = f := by
  unfold insertFile at hleft ⊢
  split at hleft
  · rename_i htaken
    rw [if_pos htaken]
  · cases hleft

theorem IsOrdered.addFile_eq_self {f : Folder} (h : f.IsOrdered) {file : FileNode}
    (hleft : (f.addFile file).1 = false) : (f.addFile file).2 = f := by
  unfold Folder.addFile at hleft ⊢
  split at hleft
  · rfl
  · exact h.descend_eq_self (fun _ => insertFile_eq_self) (fun _ _ => Bool.noConfusion) hleft

theorem IsOrdered.folderFor_eq_self {f : Folder} (h : f.IsOrdered) {dir : Path}
    (hnone : (f.folderFor dir).1 = none) : (f.folderFor dir).2 = f := by
  unfold Folder.folderFor at hnone ⊢
  split at hnone
  · rfl
  · exact h.descend_eq_self (fun _ _ => rfl) (fun _ _ => Option.some_ne_none _) hnone

/-! ## A file that is added -/

/-- A tree has come by one file, and has lost or changed nothing: the file is
new in the listing and at its place, and all else that is new are folders on
the way to it. -/
structure Gains (f : Folder) (file : FileNode) (g : Folder) : Prop where
  listed : g.files.Perm (file :: f.files)
  kept : ∀ names l, f.labelAt? names = some l → g.labelAt? names = some l
  placed : ∃ names, f.labelAt? names = none ∧ g.labelAt? names = some (.file file) ∧
    ∀ others l, g.labelAt? others = some l → f.labelAt? others = some l ∨
      others = names ∧ l = .file file ∨
      others <+: names ∧ ∃ path displayName, l = .folder path displayName

theorem IsOrdered.gains_addFile {f : Folder} (h : f.IsOrdered) {file : FileNode}
    (hput : (f.addFile file).1 = true) : f.Gains file (f.addFile file).2 := by
  have hkept : ∀ names l, f.labelAt? names = some l →
      (f.addFile file).2.labelAt? names = some l := fun _ _ => labelAt?_addFile file
  unfold Folder.addFile at hput hkept ⊢
  split at hput
  · cases hput
  · rename_i dirs hdirs
    rw [hdirs] at hkept
    have hfiles := h.files_descend file dirs
    rw [if_pos hput] at hfiles
    refine ⟨hfiles, hkept, dirs ++ [file.path.displayName], labelAt?_eq_none_of_descend file hput,
      labelAt?_of_descend file hput, fun others l hl => ?_⟩
    rcases labelAt?_descend_inv file hl with hold | hfile | ⟨hway, hfolder⟩
    · exact .inl hold
    · exact .inr (.inl hfile)
    · exact .inr (.inr ⟨hway.trans (List.prefix_append dirs _), hfolder⟩)

/-- A call that is refused leaves the tree as it was, and one that adds a file
adds that file and no more. The tree can be any one, however it was built. -/
theorem IsOrdered.all_or_nothing {f : Folder} (h : f.IsOrdered) (file : FileNode) (dir : Path) :
    ((f.addFile file).1 = false → (f.addFile file).2 = f) ∧
      ((f.folderFor dir).1 = none → (f.folderFor dir).2 = f) ∧
      ((f.addFile file).1 = true → f.Gains file (f.addFile file).2) :=
  ⟨h.addFile_eq_self, h.folderFor_eq_self, h.gains_addFile⟩

/-- A tree with two files, of which the second one stands under its whole path
because its name was taken. -/
def withTakenName : Folder :=
  ((named ⟨"/p"⟩ "p").addFile ⟨⟨"/p/a/b"⟩, .source, true⟩).2.addChild "a"
    (.file ⟨⟨"/q/a"⟩, .header, false⟩)

theorem all_or_nothing_withTakenName :
    let below : FileNode := ⟨⟨"/p/a/b/c/d.h"⟩, .header, true⟩
    let beside : FileNode := ⟨⟨"/p/a/e/f.h"⟩, .header, false⟩
    withTakenName.IsOrdered ∧
      (withTakenName.addFile below).1 = false ∧
      (withTakenName.addFile below).2 = withTakenName ∧
      (withTakenName.folderFor ⟨"/p/a/b/c"⟩).1.isNone = true ∧
      (withTakenName.folderFor ⟨"/p/a/b/c"⟩).2 = withTakenName ∧
      (withTakenName.addFile beside).1 = true ∧
      withTakenName.Gains beside (withTakenName.addFile beside).2 := by
  intro below beside
  have hordered : withTakenName.IsOrdered := ((named_isOrdered _ _).addFile _).addChild (.file _)
  have hbelow : (withTakenName.addFile below).1 = false := by decide +kernel
  have hnone : (withTakenName.folderFor ⟨"/p/a/b/c"⟩).1.isNone = true := by decide +kernel
  have hbeside : (withTakenName.addFile beside).1 = true := by decide +kernel
  obtain ⟨hleft, hnowhere, -⟩ := hordered.all_or_nothing below ⟨"/p/a/b/c"⟩
  obtain ⟨-, -, hgains⟩ := hordered.all_or_nothing beside ⟨"/p/a/b/c"⟩
  exact ⟨hordered, hbelow, hleft hbelow, hnone, hnowhere (Option.isNone_iff_eq_none.mp hnone),
    hbeside, hgains hbeside⟩

end Folder

end CompileCommands
