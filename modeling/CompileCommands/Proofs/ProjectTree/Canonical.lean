-- A tree is known by what stands where in it. What some files leave in a tree
-- does not depend on the order in which they are added, if none of them lies
-- below another one: so every order of them builds the same tree. Two names that
-- are read alike would be one name there, so names have to be read as they stand.
import CompileCommands.Proofs.ProjectTree.Collecting
import CompileCommands.Proofs.ProjectTree.Requests

namespace CompileCommands

/-! ## Trees that are alike -/

/-- Two files with one path and the same type, enabled both or neither. The
path may be spelled in two ways. -/
structure FileNode.Same (x y : FileNode) : Prop where
  path : x.path.same y.path = true
  fileType : x.fileType = y.fileType
  enabled : x.enabled = y.enabled

instance (x y : FileNode) : Decidable (x.Same y) :=
  decidable_of_iff (x.path.same y.path = true ∧ x.fileType = y.fileType ∧ x.enabled = y.enabled)
    ⟨fun ⟨hpath, htype, henabled⟩ => ⟨hpath, htype, henabled⟩, fun h =>
      ⟨h.path, h.fileType, h.enabled⟩⟩

theorem FileNode.Same.symm {x y : FileNode} (h : x.Same y) : y.Same x :=
  ⟨Path.same_symm h.path, h.fileType.symm, h.enabled.symm⟩

theorem FileNode.Same.trans {x y z : FileNode} (h : x.Same y) (h' : y.Same z) : x.Same z :=
  ⟨Path.same_trans h.path h'.path, h.fileType.trans h'.fileType, h.enabled.trans h'.enabled⟩

theorem FileNode.Same.eq_of_path {x y : FileNode} (h : x.Same y) (hpath : x.path = y.path) :
    x = y := by
  cases x
  cases y
  obtain ⟨-, rfl, rfl⟩ := h
  rw [FileNode.mk.injEq]
  exact ⟨hpath, rfl, rfl⟩

section Alike

variable (R : FileNode → FileNode → Prop)

/-- Two files that are related, or two folders that are shown alike. -/
inductive Label.Alike : Label → Label → Prop
  | file {x y : FileNode} : R x y → Alike (.file x) (.file y)
  | folder (path : Path) (displayName : String) :
      Alike (.folder path displayName) (.folder path displayName)

/-- Two trees with the same folders, and related files under the same names. -/
inductive Node.Alike : Node → Node → Prop
  | file {x y : FileNode} : R x y → Alike (.file x) (.file y)
  | folder {path : Path} {displayName : String} {children children' : List (String × Node)} :
      children.map Prod.fst = children'.map Prod.fst →
      (∀ name a b, (name, a) ∈ children → (name, b) ∈ children' → Alike a b) →
      Alike (.folder path displayName children) (.folder path displayName children')

end Alike

variable {R S : FileNode → FileNode → Prop}

theorem Node.Alike.imp {a b : Node} (h : a.Alike R b) (hRS : ∀ x y, R x y → S x y) :
    a.Alike S b := by
  induction h with
  | file hxy => exact .file (hRS _ _ hxy)
  | folder hnames _ ih => exact .folder hnames ih

theorem eq_of_map_fst_eq {children children' : List (String × Node)}
    (hnames : children.map Prod.fst = children'.map Prod.fst)
    (h : ∀ name a b, (name, a) ∈ children → (name, b) ∈ children' → a = b) :
    children = children' := by
  induction children generalizing children' with
  | nil => exact (List.map_eq_nil_iff.mp hnames.symm).symm
  | cons child rest ih =>
    obtain ⟨name, a⟩ := child
    cases children' with
    | nil => cases hnames
    | cons child' rest' =>
      obtain ⟨name', b⟩ := child'
      obtain ⟨hname, hrest⟩ := List.cons.inj hnames
      obtain rfl : name = name' := hname
      rw [h name a b List.mem_cons_self List.mem_cons_self, ih hrest fun key x y hx hy =>
        h key x y (List.mem_cons_of_mem _ hx) (List.mem_cons_of_mem _ hy)]

/-- Trees that are alike with equal files are equal. -/
theorem Node.Alike.eq {a b : Node} (h : a.Alike Eq b) : a = b := by
  induction h with
  | file hxy => rw [hxy]
  | folder hnames _ ih => rw [eq_of_map_fst_eq hnames ih]

/-! ## What stands where -/

theorem NamesInOrder.map_fst_nodup {children : List (String × Node)} (h : NamesInOrder children) :
    (children.map Prod.fst).Nodup :=
  List.pairwise_map.mpr (h.imp ne_of_compare_lt)

/-- Names in their order are known by which of them there are. -/
theorem NamesInOrder.map_fst_eq {children children' : List (String × Node)}
    (h : NamesInOrder children) (h' : NamesInOrder children')
    (hnames : ∀ name, name ∈ children.map Prod.fst ↔ name ∈ children'.map Prod.fst) :
    children.map Prod.fst = children'.map Prod.fst := by
  have hperm := (List.perm_ext_iff_of_nodup h.map_fst_nodup h'.map_fst_nodup).mpr hnames
  have hsorted : (children.map Prod.fst).Pairwise fun a b => compare a b = .lt :=
    List.pairwise_map.mpr h
  refine hperm.eq_of_pairwise (fun a b _ _ hab hba => ?_) hsorted (List.pairwise_map.mpr h')
  rw [Std.OrientedCmp.gt_of_lt hab] at hba
  cases hba

theorem mem_map_fst_iff {children : List (String × Node)} {name : String} :
    name ∈ children.map Prod.fst ↔ (children.lookup name).isSome = true := by
  induction children with
  | nil => simp
  | cons child rest ih =>
    obtain ⟨other, node⟩ := child
    rw [lookup_child, List.map_cons, List.mem_cons, ih]
    split <;> simp [*]

/-- Ordered trees in which the same stands everywhere are alike. -/
theorem Node.IsOrdered.alike {a b : Node} (ha : a.IsOrdered) (hb : b.IsOrdered)
    (h : ∀ names, Option.Rel (Label.Alike R) (a.labelAt? names) (b.labelAt? names)) :
    a.Alike R b := by
  induction ha generalizing b with
  | file x =>
    have hroot := h []
    cases b with
    | file y =>
      cases hroot with
      | some hxy =>
        cases hxy with
        | file hxy => exact .file hxy
    | folder path displayName children =>
      cases hroot with
      | some hxy => cases hxy
  | @folder path displayName children hnames hchildren ih =>
    have hroot := h []
    cases hb with
    | file y =>
      cases hroot with
      | some hxy => cases hxy
    | @folder path' displayName' children' hnames' hchildren' =>
      obtain ⟨rfl, rfl⟩ : path = path' ∧ displayName = displayName' := by
        cases hroot with
        | some hxy =>
          cases hxy
          exact ⟨rfl, rfl⟩
      refine .folder (hnames.map_fst_eq hnames' fun name => ?_) fun name a b hmem hmem' => ?_
      · have hname := h [name]
        rw [mem_map_fst_iff, mem_map_fst_iff]
        simp only [labelAt?] at hname
        cases hold : children.lookup name with
        | none =>
          rw [hold] at hname
          cases hnew : children'.lookup name with
          | none => rfl
          | some b =>
            rw [hnew] at hname
            cases hname
        | some a =>
          rw [hold] at hname
          cases hnew : children'.lookup name with
          | none =>
            rw [hnew] at hname
            cases hname
          | some b => rfl
      · refine ih (name, a) hmem (hchildren' (name, b) hmem') fun names => ?_
        have hbelow := h (name :: names)
        rwa [labelAt?, labelAt?, hnames.lookup hmem, hnames'.lookup hmem'] at hbelow

namespace Node

/-- Only folders stand on a way that goes on. -/
theorem exists_folder_of_labelAt? {node : Node} {names more : List String} {l : Label}
    (hmore : more ≠ []) (hl : node.labelAt? (names ++ more) = some l) :
    ∃ path displayName, node.labelAt? names = some (.folder path displayName) := by
  induction names generalizing node with
  | nil =>
    obtain ⟨name, rest, rfl⟩ := List.exists_cons_of_ne_nil hmore
    cases node with
    | file x => cases hl
    | folder path displayName children => exact ⟨path, displayName, rfl⟩
  | cons name rest ih =>
    cases node with
    | file x => cases hl
    | folder path displayName children =>
      obtain ⟨child, hchild, hl⟩ := Option.bind_eq_some_iff.mp hl
      obtain ⟨path, displayName, hlabel⟩ := ih hl
      refine ⟨path, displayName, ?_⟩
      rw [labelAt?, hchild]
      exact hlabel

theorem exists_toNode_of_labelAt? {node : Node} {names : List String} {path : Path}
    {displayName : String} (hl : node.labelAt? names = some (.folder path displayName)) :
    ∃ f : Folder, node = f.toNode := by
  cases node with
  | file x => cases names <;> cases hl
  | folder path displayName children => exact ⟨⟨path, displayName, children⟩, rfl⟩

end Node

namespace Folder

variable {f : Folder} {names : List String}

/-- The names that lead to a folder say what it is called. -/
theorem IsPlaced.folder_eq (h : f.IsPlaced) {path : Path} {displayName : String}
    (hl : f.labelAt? names = some (.folder path displayName)) :
    path = names.foldl Path.child f.path ∧ displayName = names.getLastD f.displayName := by
  induction names generalizing f with
  | nil =>
    cases hl
    exact ⟨rfl, rfl⟩
  | cons name rest ih =>
    rw [labelAt?_cons] at hl
    obtain ⟨child, hchild, hl⟩ := Option.bind_eq_some_iff.mp hl
    obtain ⟨below, rfl⟩ := Node.exists_toNode_of_labelAt? hl
    have hopen : f.openChild? name = some below := by
      unfold Folder.openChild?
      rw [hchild]
      rfl
    obtain ⟨hbelow, hpath, hdisplay⟩ := h.openChild? hopen
    rw [List.foldl_cons, List.getLastD_cons, ← hpath, ← hdisplay]
    exact ih hbelow hl

theorem toNode_injective {g : Folder} (h : f.toNode = g.toNode) : f = g := by
  cases f
  cases g
  cases h
  rfl

end Folder

/-! ## Sets of files -/

/-- Files below a root, none of them below another one. A path always comes
with the same type, and always or never enabled. -/
structure IsFileSet (root : Path) (files : List FileNode) : Prop where
  below : ∀ x ∈ files, ∃ dirs name, root.Leads (dirs ++ [name]) x.path
  apart : ∀ x ∈ files, ∀ y ∈ files, x.path.isBelow y.path = false
  fixed : ∀ x ∈ files, ∀ y ∈ files, x.path.same y.path = true → x.Same y

/-- Two lists of the same files, in any orders and with any repetitions. -/
structure ListSame (files more : List FileNode) : Prop where
  left : ∀ x ∈ files, ∃ y ∈ more, x.Same y
  right : ∀ y ∈ more, ∃ x ∈ files, y.Same x

section FileSet

variable {root : Path} {files more : List FileNode}

theorem ListSame.symm (h : ListSame files more) : ListSame more files := ⟨h.right, h.left⟩

theorem IsFileSet.isNamedFrom (h : IsFileSet root files) :
    ∀ x ∈ files, x.path.IsNamedFrom root := by
  intro x hx
  obtain ⟨dirs, name, hleads⟩ := h.below x hx
  exact hleads.isNamedFrom

theorem IsFileSet.of_listSame (h : IsFileSet root files) (hsame : ListSame files more) :
    IsFileSet root more := by
  refine ⟨fun y hy => ?_, fun y hy z hz => ?_, fun y hy z hz hyz => ?_⟩
  · obtain ⟨x, hx, hyx⟩ := hsame.right y hy
    obtain ⟨dirs, name, hleads⟩ := h.below x hx
    exact ⟨dirs, name, hleads.congr (Path.same_symm hyx.path)⟩
  · obtain ⟨x, hx, hyx⟩ := hsame.right y hy
    obtain ⟨w, hw, hzw⟩ := hsame.right z hz
    rw [Path.isBelow_congr hyx.path]
    refine Bool.eq_false_iff.mpr fun hbelow => ?_
    have hxw := Path.isBelow_of_same hzw.path hbelow
    rw [h.apart x hx w hw] at hxw
    cases hxw
  · obtain ⟨x, hx, hyx⟩ := hsame.right y hy
    obtain ⟨w, hw, hzw⟩ := hsame.right z hz
    have hxw := Path.same_trans (Path.same_symm hyx.path) (Path.same_trans hyz hzw.path)
    exact hyx.trans ((h.fixed x hx w hw hxw).trans hzw.symm)

namespace Folder

/-- A folder with a path and a name to show is the tree of some files: each
place of theirs is taken by the first of them, and all stand in their places. -/
structure IsTreeOf (f : Folder) (path : Path) (displayName : String) (files : List FileNode) :
    Prop where
  path_eq : f.path = path
  displayName_eq : f.displayName = displayName
  collects : f.Collects files
  placed : f.IsPlaced

theorem addFiles_eq_serveAll (f : Folder) (files : List FileNode) :
    f.addFiles files = f.serveAll (files.map .file) := by
  unfold addFiles serveAll
  rw [List.foldl_map]
  rfl

theorem addFiles_isTreeOf (displayName : String) (h : IsFileSet root files) :
    ((named root displayName).addFiles files).IsTreeOf root displayName files where
  path_eq := by
    rw [addFiles_eq_serveAll]
    exact (serveAll_label _ _).1
  displayName_eq := by
    rw [addFiles_eq_serveAll]
    exact (serveAll_label _ _).2
  collects := (named_collects root displayName).addFiles h.below h.apart
  placed := by
    rw [addFiles_eq_serveAll]
    refine (named_isPlaced root displayName).serveAll fun r hr => ?_
    obtain ⟨x, hx, rfl⟩ := List.mem_map.mp hr
    exact h.isNamedFrom x hx

/-! ## What some files leave in a tree -/

section IsTreeOf

variable {f g : Folder} {displayName : String} {names : List String}

/-- Where a file was added stands a file of that path. -/
theorem IsTreeOf.labelAt?_of_leads (h : f.IsTreeOf root displayName files) {x : FileNode}
    (hx : x ∈ files) (hleads : root.Leads names x.path) :
    ∃ y ∈ files, y.path.same x.path = true ∧ f.labelAt? names = some (.file y) := by
  obtain ⟨y, hy, hsame⟩ := h.collects.exists_listed hx
  obtain ⟨others, hlabel, hyleads⟩ := h.placed.exists_leads h.collects.ordered hy
  obtain rfl := hyleads.unique_of_same (h.path_eq.symm ▸ hleads) hsame
  exact ⟨y, h.collects.mem_added hy, hsame, hlabel⟩

theorem IsTreeOf.mem_of_labelAt? (h : f.IsTreeOf root displayName files) {x : FileNode}
    (hl : f.labelAt? names = some (.file x)) : x ∈ files ∧ root.Leads names x.path := by
  refine ⟨h.collects.mem_added ?_, h.path_eq ▸ h.placed.leads hl⟩
  rw [files_eq]
  exact Node.mem_files_of_labelAt? hl

/-- A folder stands on the way to a file. -/
theorem IsTreeOf.exists_behind (h : f.IsTreeOf root displayName files) (hne : names ≠ [])
    {path : Path} {shown : String} (hl : f.labelAt? names = some (.folder path shown)) :
    ∃ x ∈ files, ∃ back, back ≠ [] ∧ root.Leads (names ++ back) x.path := by
  obtain ⟨p, back, ⟨x, hx, rfl⟩, hleads, -⟩ := h.collects.confined names _ hne hl
  rw [h.path_eq] at hleads
  refine ⟨x, hx, back, ?_, hleads⟩
  rintro rfl
  rw [List.append_nil] at hleads
  obtain ⟨y, -, -, hfile⟩ := h.labelAt?_of_leads hx hleads
  rw [hl] at hfile
  cases hfile

/-- Where something stands in a tree of some files, the same stands in each
tree of the same files. -/
theorem IsTreeOf.exists_alike (hf : f.IsTreeOf root displayName files)
    (hg : g.IsTreeOf root displayName more) (hsame : ListSame files more) {l : Label}
    (hl : f.labelAt? names = some l) :
    ∃ m, g.labelAt? names = some m ∧
      l.Alike (fun x y => x ∈ files ∧ y ∈ more ∧ x.path.same y.path = true) m := by
  have hpath : f.path = g.path := hf.path_eq.trans hg.path_eq.symm
  have hdisplay : f.displayName = g.displayName := hf.displayName_eq.trans hg.displayName_eq.symm
  cases l with
  | file x =>
    obtain ⟨hx, hleads⟩ := hf.mem_of_labelAt? hl
    obtain ⟨y, hy, hxy⟩ := hsame.left x hx
    obtain ⟨z, hz, hzy, hlabel⟩ := hg.labelAt?_of_leads hy (hleads.congr hxy.path)
    exact ⟨_, hlabel, .file ⟨hx, hz, Path.same_trans hxy.path (Path.same_symm hzy)⟩⟩
  | folder path shown =>
    -- A folder is called after the names that lead to it, in both trees.
    have hfolder : ∃ path' shown', g.labelAt? names = some (.folder path' shown') := by
      by_cases hne : names = []
      · exact ⟨g.path, g.displayName, hne ▸ g.labelAt?_nil⟩
      · obtain ⟨x, hx, back, hback, hleads⟩ := hf.exists_behind hne hl
        obtain ⟨y, hy, hxy⟩ := hsame.left x hx
        obtain ⟨z, -, -, hz⟩ := hg.labelAt?_of_leads hy (hleads.congr hxy.path)
        exact Node.exists_folder_of_labelAt? hback hz
    obtain ⟨path', shown', hl'⟩ := hfolder
    refine ⟨_, hl', ?_⟩
    obtain ⟨rfl, rfl⟩ := hf.placed.folder_eq hl
    obtain ⟨rfl, rfl⟩ := hg.placed.folder_eq hl'
    rw [hpath, hdisplay]
    exact .folder _ _

/-- Trees of the same files are alike. -/
theorem IsTreeOf.alike (hf : f.IsTreeOf root displayName files)
    (hg : g.IsTreeOf root displayName more) (hsame : ListSame files more) :
    f.toNode.Alike (fun x y => x ∈ files ∧ y ∈ more ∧ x.path.same y.path = true) g.toNode := by
  refine hf.collects.ordered.alike hg.collects.ordered fun names => ?_
  show Option.Rel _ (f.labelAt? names) (g.labelAt? names)
  cases hl : f.labelAt? names with
  | some l =>
    obtain ⟨m, hm, halike⟩ := hf.exists_alike hg hsame hl
    rw [hm]
    exact .some halike
  | none =>
    cases hm : g.labelAt? names with
    | none => exact .none
    | some m =>
      obtain ⟨l, hl', -⟩ := hg.exists_alike hf hsame.symm hm
      rw [hl] at hl'
      cases hl'

end IsTreeOf

theorem addFiles_canonical_of_unicode (displayName : String) (h : IsFileSet root files)
    (hsame : ListSame files more) :
    ((named root displayName).addFiles files).toNode.Alike FileNode.Same
        ((named root displayName).addFiles more).toNode ∧
      (∀ x ∈ files, ∃ y, ((named root displayName).addFiles files).file? x.path = some y ∧
        y.Same x) ∧
      ((∀ x ∈ files, ∀ y ∈ more, x.path.same y.path = true → x.path = y.path) →
        (named root displayName).addFiles files = (named root displayName).addFiles more) := by
  have htree := addFiles_isTreeOf displayName h
  have halike := htree.alike (addFiles_isTreeOf displayName (h.of_listSame hsame)) hsame
  have hfixed : ∀ x ∈ files, ∀ y ∈ more, x.path.same y.path = true → x.Same y := by
    intro x hx y hy hxy
    obtain ⟨z, hz, hyz⟩ := hsame.right y hy
    exact (h.fixed x hx z hz (Path.same_trans hxy hyz.path)).trans hyz.symm
  refine ⟨halike.imp fun x y ⟨hx, hy, hxy⟩ => hfixed x hx y hy hxy, fun x hx => ?_, fun hone => ?_⟩
  · obtain ⟨y, hy, hyx⟩ := htree.collects.exists_listed hx
    exact ⟨y, (htree.placed.file?_eq_some_iff htree.collects.ordered).mpr ⟨hy, hyx⟩,
      h.fixed y (htree.collects.mem_added hy) x hx hyx⟩
  · apply toNode_injective
    exact (halike.imp fun x y ⟨hx, hy, hxy⟩ =>
      (hfixed x hx y hy hxy).eq_of_path (hone x hx y hy hxy)).eq

end Folder

end FileSet

namespace Folder

/-- Three files that share folders. -/
def threeFiles : List FileNode :=
  [⟨⟨"/p/a/x.c"⟩, .source, true⟩, ⟨⟨"/p/a/y/z.h"⟩, .header, false⟩, ⟨⟨"/p/b.c"⟩, .source, true⟩]

/-- The same files from the last to the first, and the second one once more. -/
def threeFilesBack : List FileNode := threeFiles.reverse ++ [⟨⟨"/p/a/y/z.h"⟩, .header, false⟩]

/-- The same files, one of them with a detour in its path. -/
def threeFilesRespelled : List FileNode :=
  ⟨⟨"/p//a/./y/z.h"⟩, .header, false⟩ :: threeFiles

/-- Two files that are called by one byte each, neither of which is a character. -/
def strayFiles : List FileNode :=
  [⟨strayPath 0xFF, .unknown, true⟩, ⟨strayPath 0xFE, .unknown, true⟩]

/-- One file with two spellings of its path. -/
def respelledFile : List FileNode := [⟨⟨"/p//a.c"⟩, .source, true⟩, ⟨⟨"/p/a.c"⟩, .source, true⟩]

/-- If one file lies below another one, the first of them to be added keeps the
other one out. -/
example :
    let file : FileNode := ⟨⟨"/p/a"⟩, .unknown, true⟩
    let below : FileNode := ⟨⟨"/p/a/b"⟩, .unknown, true⟩
    ((named ⟨"/p"⟩ "p").addFiles [file, below]).files = [file] ∧
      ((named ⟨"/p"⟩ "p").addFiles [below, file]).files = [below] := by
  decide +kernel

end Folder

end CompileCommands
