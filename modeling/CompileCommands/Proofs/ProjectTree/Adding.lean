-- Files that are added to a folder. As long as no file lies below another
-- one, each of them is put where its names lead, and nothing is made but
-- folders on the way to them.
import CompileCommands.Proofs.Path.Components
import CompileCommands.Proofs.ProjectTree.Files

namespace CompileCommands.Folder

/-! ## One file more -/

variable {f : Folder} {file : FileNode}

theorem addFile_eq {dirs : List String} {name : String}
    (h : f.path.Leads (dirs ++ [name]) file.path) :
    f.addFile file = f.descend (insertFile file) false dirs := by
  unfold addFile
  rw [h.parent]

/-- The file stands at its own place, and is enabled. -/
def Shows (f : Folder) (p : Path) : Prop :=
  ∃ names x, f.path.Leads names p ∧ f.labelAt? names = some (.file x) ∧
    x.path.same p = true ∧ x.enabled = true

theorem Shows.addFile {p : Path} (h : f.Shows p) (file : FileNode) :
    (f.addFile file).2.Shows p := by
  obtain ⟨names, x, hleads, hlabel, hx⟩ := h
  exact ⟨names, x, (addFile_path f file).symm ▸ hleads, labelAt?_addFile file hlabel, hx⟩

theorem Shows.exists_file {p : Path} (h : f.Shows p) :
    ∃ x ∈ f.toNode.files, x.path.same p = true ∧ x.enabled = true := by
  obtain ⟨names, x, -, hlabel, hx⟩ := h
  exact ⟨x, Node.mem_files_of_labelAt? hlabel, hx⟩

/-! ## The way to a file -/

/-- Nothing stands in the folder but some files and the folders on the way to
them. -/
def Confines (f : Folder) (files : Path → Prop) : Prop :=
  ∀ names l, names ≠ [] → f.labelAt? names = some l → ∃ p more, files p ∧
    f.path.Leads (names ++ more) p ∧ ∀ x, l = .file x → more = []

theorem named_confines (path : Path) (displayName : String) (files : Path → Prop) :
    (named path displayName).Confines files := by
  intro names l hne hlabel
  obtain ⟨name, rest, rfl⟩ := List.exists_cons_of_ne_nil hne
  cases hlabel

section Confines

variable {files : Path → Prop} {dirs : List String} {name : String}

/-- An added file brings nothing but itself and the folders on its way. -/
theorem Confines.addFile (h : f.Confines files) (hleads : f.path.Leads (dirs ++ [name]) file.path) :
    (f.addFile file).2.Confines fun q => files q ∨ q = file.path := by
  intro names l hne hlabel
  rw [addFile_path]
  rw [addFile_eq hleads] at hlabel
  rcases labelAt?_descend_inv file hlabel with hold | ⟨rfl, rfl⟩ | ⟨⟨back, rfl⟩, path, shown, rfl⟩
  · obtain ⟨q, more, hq, hqleads⟩ := h names l hne hold
    exact ⟨q, more, .inl hq, hqleads⟩
  · refine ⟨file.path, [], .inr rfl, ?_, fun _ _ => rfl⟩
    rw [List.append_nil, hleads.displayName]
    exact hleads
  · refine ⟨file.path, back ++ [name], .inr rfl, ?_, nofun⟩
    rw [← List.append_assoc]
    exact hleads

/-- Where no file lies below another one, a file that is not added has its
place taken by another spelling of itself. -/
theorem Confines.exists_taken (h : f.Confines files)
    (hleads : f.path.Leads (dirs ++ [name]) file.path)
    (hapart : ∀ q, files q → file.path.isBelow q = false ∧ q.isBelow file.path = false)
    (hleft : (f.descend (insertFile file) false dirs).1 = false) :
    ∃ q, files q ∧ f.path.Leads (dirs ++ [name]) q := by
  have hname : file.path.displayName = name := hleads.displayName
  rcases exists_of_not_descend file hleft with ⟨front, other, hne, hfront, hlabel⟩ | ⟨l, hlabel⟩
  · -- A file in the way would be one of the others, with this one below it.
    exfalso
    obtain ⟨q, more, hq, hqleads, hmore⟩ := h front _ hne hlabel
    obtain ⟨back, rfl⟩ := hfront
    rw [hmore other rfl, List.append_nil] at hqleads
    rw [List.append_assoc] at hleads
    have hblocked := hleads.isBelow hqleads hne (by simp)
    exact absurd hblocked (by simp [(hapart q hq).1])
  · rw [hname] at hlabel
    obtain ⟨q, more, hq, hqleads, -⟩ := h _ l (by simp) hlabel
    cases more with
    | cons next more =>
      exfalso
      have hblocked := hqleads.isBelow hleads (by simp) (by simp)
      exact absurd hblocked (by simp [(hapart q hq).2])
    | nil => exact ⟨q, hq, List.append_nil (dirs ++ [name]) ▸ hqleads⟩

end Confines

/-! ## The files of a folder -/

/-- The folder shows some files, and holds nothing but them and the folders on
the way to them. -/
structure Holds (f : Folder) (files : Path → Prop) : Prop where
  complete : ∀ p, files p → f.Shows p
  sound : ∀ names l, names ≠ [] → f.labelAt? names = some l → ∃ p more, files p ∧
    f.path.Leads (names ++ more) p ∧ ∀ x, l = .file x → more = []

theorem ofPath_holds (dir : Path) : (ofPath dir).Holds fun _ => False where
  complete _ h := h.elim
  sound := named_confines dir _ _

theorem Holds.of_iff {files files' : Path → Prop} (h : f.Holds files)
    (hiff : ∀ p, files p ↔ files' p) : f.Holds files' := by
  obtain rfl : files = files' := funext fun p => propext (hiff p)
  exact h

section AddFile

variable {files : Path → Prop} {dirs : List String} {name : String}

/-- A file that lies apart from the others comes to be shown. -/
theorem Holds.shows_addFile (h : f.Holds files)
    (hleads : f.path.Leads (dirs ++ [name]) file.path) (henabled : file.enabled = true)
    (hapart : ∀ q, files q → file.path.isBelow q = false ∧ q.isBelow file.path = false) :
    (f.addFile file).2.Shows file.path := by
  have hadd := addFile_eq hleads
  have hname : file.path.displayName = name := hleads.displayName
  have hpath := addFile_path f file
  cases hplaced : (f.descend (insertFile file) false dirs).1 with
  | true =>
    have hlabel := labelAt?_of_descend file hplaced
    rw [hname, ← hadd] at hlabel
    exact ⟨dirs ++ [name], file, hpath.symm ▸ hleads, hlabel, hleads.same hleads, henabled⟩
  | false =>
    -- The place is taken by another spelling of the same file.
    obtain ⟨q, hq, hqleads⟩ := Confines.exists_taken h.sound hleads hapart hplaced
    obtain ⟨names, x, hx, hxlabel, hxsame, hxenabled⟩ := h.complete q hq
    obtain rfl := hx.unique hqleads
    have hsame : x.path.same file.path = true := by
      have hq' := hqleads.same hleads
      simp only [Path.same, beq_iff_eq] at hxsame hq' ⊢
      rw [hxsame, hq']
    exact ⟨_, x, hpath.symm ▸ hleads, labelAt?_addFile file hxlabel, hsame, hxenabled⟩

/-- A file that lies apart from the others is shown with them. -/
theorem Holds.addFile (h : f.Holds files) (hbelow : file.path.isBelow f.path = true)
    (hparent : .parent ∉ file.path.components) (henabled : file.enabled = true)
    (hapart : ∀ q, files q → file.path.isBelow q = false ∧ q.isBelow file.path = false) :
    (f.addFile file).2.Holds fun q => files q ∨ q = file.path := by
  obtain ⟨dirs, name, hleads⟩ := Path.exists_leads hbelow hparent
  constructor
  · rintro q (hq | rfl)
    · exact (h.complete q hq).addFile file
    · exact h.shows_addFile hleads henabled hapart
  · exact Confines.addFile h.sound hleads

end AddFile

/-! ## The names in a folder -/

def HasPlainNames (f : Folder) : Prop :=
  ∀ name node, f.child? name = some node → '/' ∉ name.toList

theorem ofPath_hasPlainNames (dir : Path) : (ofPath dir).HasPlainNames := nofun

theorem Confines.hasPlainNames {files : Path → Prop} (h : f.Confines files) : f.HasPlainNames := by
  intro name node hchild
  have hlabel : f.labelAt? [name] = some node.label := by
    rw [labelAt?_cons, hchild]
    rfl
  obtain ⟨p, more, -, hleads, -⟩ := h [name] node.label (by simp) hlabel
  exact hleads.slash_not_mem List.mem_cons_self

/-- Only names of paths come to a folder. -/
theorem HasPlainNames.addFile (h : f.HasPlainNames) (hbelow : file.path.isBelow f.path = true)
    (hparent : .parent ∉ file.path.components) : (f.addFile file).2.HasPlainNames := by
  obtain ⟨dirs, name, hleads⟩ := Path.exists_leads hbelow hparent
  intro key node hchild
  have hlabel : (f.addFile file).2.labelAt? [key] = some node.label := by
    rw [labelAt?_cons, hchild]
    rfl
  rw [addFile_eq hleads] at hlabel
  rcases labelAt?_descend_inv file hlabel with hold | ⟨hnames, -⟩ | ⟨hway, -⟩
  · obtain ⟨old, hold, -⟩ := Option.bind_eq_some_iff.mp hold
    exact h key old hold
  · apply hleads.slash_not_mem
    rw [hleads.displayName] at hnames
    rw [← hnames]
    exact List.mem_singleton.mpr rfl
  · apply hleads.slash_not_mem
    exact List.mem_append_left [name] (hway.subset (List.mem_singleton.mpr rfl))

end CompileCommands.Folder
