-- Files that are added to a folder, be it that some of them lie below others. A
-- file stays out just if it lies in a file that is there, or one that is there
-- lies in it. So what comes to be listed can be told from the files alone.
import CompileCommands.Proofs.ProjectTree.Canonical
import Mathlib.Data.List.Induction
import Mathlib.Data.List.Pairwise

namespace CompileCommands

/-! ## Files apart from each other -/

/-- Neither of two files lies in the other one, and they are not at one place. -/
def FileNode.Apart (x y : FileNode) : Prop :=
  x.path.startsWith y.path = false ∧ y.path.startsWith x.path = false

instance : DecidableRel FileNode.Apart :=
  fun _ _ => inferInstanceAs (Decidable (_ ∧ _))

theorem FileNode.Apart.not_same {x y : FileNode} (h : x.Apart y) : x.path.same y.path = false := by
  refine Bool.eq_false_iff.mpr fun hsame => ?_
  have hself : y.path.startsWith y.path = true :=
    List.isPrefixOf_iff_prefix.mpr (List.prefix_refl _)
  have hstarts := h.1
  unfold Path.startsWith at hself hstarts
  rw [beq_iff_eq.mp hsame, hself] at hstarts
  cases hstarts

/-- The files that stay if each is left out that is not apart from those before
it. The last one of them comes first. -/
def keepApart (files : List FileNode) : List FileNode := files.reverse.pwFilter FileNode.Apart

theorem keepApart_append (files : List FileNode) (file : FileNode) :
    keepApart (files ++ [file]) =
      if ∀ x ∈ keepApart files, file.Apart x then file :: keepApart files else keepApart files := by
  unfold keepApart
  rw [List.reverse_append]
  rfl

theorem mem_of_mem_keepApart {files : List FileNode} {x : FileNode} (hx : x ∈ keepApart files) :
    x ∈ files :=
  List.mem_reverse.mp (List.pwFilter_subset _ hx)

theorem keepApart_pairwise (files : List FileNode) : (keepApart files).Pairwise FileNode.Apart :=
  List.pairwise_pwFilter _

namespace Folder

/-! ## One file more -/

/-- The folder lists some files, all in their places, and holds nothing but them
and the folders on the way to them. -/
structure Lists (f : Folder) (files : List FileNode) : Prop where
  ordered : f.IsOrdered
  placed : f.IsPlaced
  confined : f.Confines fun p => ∃ x ∈ files, x.path = p
  listed : f.files.Perm files

theorem named_lists (path : Path) (displayName : String) : (named path displayName).Lists [] where
  ordered := named_isOrdered path displayName
  placed := named_isPlaced path displayName
  confined := named_confines path displayName _
  listed := by
    rw [files_eq]
    exact List.Perm.refl _

section Lists

variable {f : Folder} {files : List FileNode} {file : FileNode} {dirs : List String}
  {name : String}

/-- No file stands on the way to what stands in a tree. -/
theorem eq_of_labelAt?_file {node : Node} {names more : List String} {x : FileNode} {l : Label}
    (hx : node.labelAt? names = some (.file x)) (hl : node.labelAt? (names ++ more) = some l) :
    more = [] := by
  refine Decidable.byContradiction fun hmore => ?_
  obtain ⟨path, displayName, hfolder⟩ := Node.exists_folder_of_labelAt? hmore hl
  rw [hx] at hfolder
  cases hfolder

/-- A file that is put into a tree lies apart from all that stand there. -/
theorem Lists.apart_of_put (h : f.Lists files)
    (hleads : f.path.Leads (dirs ++ [name]) file.path)
    (hput : (f.descend (insertFile file) false dirs).1 = true) : ∀ x ∈ files, file.Apart x := by
  intro x hx
  obtain ⟨names, hlabel, hxleads⟩ := h.placed.exists_leads h.ordered (h.listed.mem_iff.mpr hx)
  have hfree := labelAt?_eq_none_of_descend file hput
  have hnew := labelAt?_of_descend file hput
  have hold : (f.descend (insertFile file) false dirs).2.labelAt? names = some (.file x) :=
    labelAt?_descend file hlabel
  rw [hleads.displayName] at hfree hnew
  have hne : dirs ++ [name] ≠ names := by
    rintro rfl
    rw [hlabel] at hfree
    cases hfree
  constructor
  · refine Bool.eq_false_iff.mpr fun hstarts => hne ?_
    obtain ⟨more, hmore⟩ := (hleads.startsWith_iff hxleads).mp hstarts
    rw [← hmore] at hnew
    rw [← hmore, eq_of_labelAt?_file hold hnew, List.append_nil]
  · refine Bool.eq_false_iff.mpr fun hstarts => hne ?_
    obtain ⟨more, hmore⟩ := (hxleads.startsWith_iff hleads).mp hstarts
    rw [← hmore] at hold
    rw [← hmore, eq_of_labelAt?_file hnew hold, List.append_nil]

/-- A file that is left out of a tree is not apart from one that stands there. -/
theorem Lists.not_apart_of_left (h : f.Lists files)
    (hleads : f.path.Leads (dirs ++ [name]) file.path)
    (hleft : (f.descend (insertFile file) false dirs).1 = false) :
    ∃ x ∈ files, ¬ file.Apart x := by
  rcases exists_of_not_descend file hleft with ⟨front, x, -, ⟨back, hfront⟩, hlabel⟩ | ⟨l, hlabel⟩
  · have hx : x ∈ f.files := files_eq f ▸ Node.mem_files_of_labelAt? hlabel
    refine ⟨x, h.listed.mem_iff.mp hx, fun hapart => ?_⟩
    have hstarts : file.path.startsWith x.path = true := by
      refine (hleads.startsWith_iff (h.placed.leads hlabel)).mpr ⟨back ++ [name], ?_⟩
      rw [← List.append_assoc, hfront]
    rw [hapart.1] at hstarts
    cases hstarts
  · rw [hleads.displayName] at hlabel
    obtain ⟨p, more, ⟨x, hx, rfl⟩, hxleads, -⟩ := h.confined _ l (by simp) hlabel
    refine ⟨x, hx, fun hapart => ?_⟩
    have hstarts : x.path.startsWith file.path = true :=
      (hxleads.startsWith_iff hleads).mpr (List.prefix_append _ _)
    rw [hapart.2] at hstarts
    cases hstarts

/-- A file comes to the list if it is apart from the others, and else all stays as
it is. -/
theorem Lists.addFile (h : f.Lists files) (hleads : f.path.Leads (dirs ++ [name]) file.path) :
    (f.addFile file).2.Lists (if ∀ x ∈ files, file.Apart x then file :: files else files) := by
  have hadd := addFile_eq hleads
  cases hput : (f.addFile file).1 with
  | false =>
    rw [hadd] at hput
    obtain ⟨x, hx, hnear⟩ := h.not_apart_of_left hleads hput
    rw [if_neg fun hapart => hnear (hapart x hx), h.ordered.addFile_eq_self (hadd ▸ hput)]
    exact h
  | true =>
    have hgains := h.ordered.gains_addFile hput
    rw [hadd] at hput
    rw [if_pos (h.apart_of_put hleads hput)]
    refine ⟨h.ordered.addFile file, h.placed.serve (r := .file file) hleads.isNamedFrom, ?_,
      hgains.listed.trans (h.listed.cons file)⟩
    intro names l hne hlabel
    obtain ⟨p, more, hp, hmore⟩ := h.confined.addFile hleads names l hne hlabel
    refine ⟨p, more, ?_, hmore⟩
    rcases hp with ⟨x, hx, rfl⟩ | rfl
    · exact ⟨x, List.mem_cons_of_mem file hx, rfl⟩
    · exact ⟨file, List.mem_cons_self, rfl⟩

end Lists

/-! ## Any number of files -/

theorem addFiles_append (f : Folder) (files : List FileNode) (file : FileNode) :
    f.addFiles (files ++ [file]) = ((f.addFiles files).addFile file).2 :=
  List.foldl_append

theorem addFiles_label (f : Folder) (files : List FileNode) :
    (f.addFiles files).path = f.path ∧ (f.addFiles files).displayName = f.displayName := by
  rw [addFiles_eq_serveAll]
  exact serveAll_label f _

/-- Whatever files are added below a root, those are listed that are apart from the
ones before them. -/
theorem addFiles_lists {root : Path} (displayName : String) {files : List FileNode}
    (hleads : ∀ x ∈ files, ∃ dirs name, root.Leads (dirs ++ [name]) x.path) :
    ((named root displayName).addFiles files).Lists (keepApart files) := by
  induction files using List.reverseRecOn with
  | nil => exact named_lists root displayName
  | append_singleton files file ih =>
    obtain ⟨hfiles, hfile⟩ := List.forall_mem_append.mp hleads
    obtain ⟨dirs, name, hfile⟩ := hfile file (List.mem_singleton_self file)
    have hpath : ((named root displayName).addFiles files).path = root := (addFiles_label _ _).1
    rw [← hpath] at hfile
    rw [addFiles_append, keepApart_append]
    exact (ih hfiles).addFile hfile

end Folder

end CompileCommands
