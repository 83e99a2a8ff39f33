-- The files of a tree. The files that are listed are those that names lead to,
-- and a file that is added is the only one that comes to the list.
import CompileCommands.Proofs.ProjectTree.Labels

namespace CompileCommands

/-! ## The files of a tree -/

theorem filesOfEach_eq (children : List (String × Node)) :
    filesOfEach children = (nodesOf children).flatMap Node.files := by
  induction children with
  | nil => rfl
  | cons child rest ih =>
    obtain ⟨name, node⟩ := child
    rw [filesOfEach, ih]
    rfl

theorem filesOfStack_eq (stack : List Node) : filesOfStack stack = stack.flatMap Node.files := by
  induction stack using filesOfStack.induct with
  | case1 => rw [filesOfStack, List.flatMap_nil]
  | case2 file stack ih =>
    rw [filesOfStack, ih]
    rfl
  | case3 path displayName children stack ih =>
    rw [filesOfStack, ih, List.flatMap_append, List.flatMap_cons, Node.files, filesOfEach_eq]

namespace Folder

theorem files_eq (f : Folder) : f.files = f.toNode.files := by
  unfold files toNode
  rw [filesOfStack_eq, Node.files, filesOfEach_eq]

theorem mem_files {f : Folder} {x : FileNode} :
    x ∈ f.files ↔ ∃ child ∈ f.children, x ∈ child.2.files := by
  unfold files nodesOf
  rw [filesOfStack_eq, List.mem_flatMap]
  simp only [List.mem_map]
  constructor
  · rintro ⟨node, ⟨child, hchild, rfl⟩, hx⟩
    exact ⟨child, hchild, hx⟩
  · rintro ⟨child, hchild, hx⟩
    exact ⟨child.2, ⟨child, hchild, rfl⟩, hx⟩

theorem mem_files_of_child? {f : Folder} {name : String} {node : Node} {x : FileNode}
    (h : f.child? name = some node) (hx : x ∈ node.files) : x ∈ f.files :=
  mem_files.mpr ⟨(name, node), mem_of_lookup h, hx⟩

end Folder

theorem Node.mem_files_of_labelAt? {node : Node} {names : List String} {x : FileNode}
    (h : node.labelAt? names = some (.file x)) : x ∈ node.files := by
  induction names generalizing node with
  | nil =>
    cases node with
    | file file =>
      cases h
      simp [Node.files]
    | folder path displayName children => cases h
  | cons name rest ih =>
    cases node with
    | file file => cases h
    | folder path displayName children =>
      obtain ⟨node, hchild, hlabel⟩ := Option.bind_eq_some_iff.mp h
      have hmem : x ∈ Folder.files ⟨path, displayName, children⟩ :=
        Folder.mem_files_of_child? hchild (ih hlabel)
      rwa [Folder.files_eq] at hmem

namespace Folder

theorem mem_files_put {f : Folder} {name : String} {node : Node} {x : FileNode}
    (h : x ∈ (f.put name node).files) : x ∈ node.files ∨ x ∈ f.files := by
  obtain ⟨child, hchild, hx⟩ := mem_files.mp h
  rcases mem_setChild hchild with rfl | hchild
  · exact .inl hx
  · exact .inr (mem_files.mpr ⟨child, hchild, hx⟩)

theorem mem_files_descend {file x : FileNode} {dirs : List String} {f : Folder}
    (h : x ∈ (f.descend (insertFile file) false dirs).2.files) : x ∈ f.files ∨ x = file := by
  induction dirs generalizing f with
  | nil =>
    simp only [descend, insertFile] at h
    split at h
    · exact .inl h
    · rcases mem_files_put h with h | h
      · exact .inr (by simpa [Node.files] using h)
      · exact .inl h
  | cons dir dirs ih =>
    rw [descend] at h
    split at h
    · exact .inl h
    · rename_i below hopen
      rcases mem_files_put h with h | h
      · rw [← files_eq] at h
        rcases ih h with h | h
        · rcases openChild?_eq_some hopen with hchild | ⟨-, rfl⟩
          · rw [files_eq] at h
            exact .inl (mem_files_of_child? hchild h)
          · rw [files_eq] at h
            cases h
        · exact .inr h
      · exact .inl h

theorem mem_files_addFile {f : Folder} {file x : FileNode} (h : x ∈ (f.addFile file).2.files) :
    x ∈ f.files ∨ x = file := by
  unfold addFile at h
  split at h
  · exact .inl h
  · exact mem_files_descend h

end Folder

end CompileCommands
