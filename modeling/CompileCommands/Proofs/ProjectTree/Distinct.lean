-- Paths that occur twice in a tree. No path occurs twice in one root, nor in the
-- main root and in a further one. But a file that is compiled in two directories
-- comes to the root of either, and a file that describes the build is shown even
-- if a part names it too.
import CompileCommands.Proofs.Path.NormalForm
import CompileCommands.Proofs.ProjectTree.Strays
import Mathlib.Data.List.Perm.Subperm

namespace CompileCommands

open Std

/-! ## Lists of files -/

/-- No path occurs twice among the files. -/
def NoPathTwice (files : List FileNode) : Prop :=
  files.Pairwise fun x y => x.path.same y.path = false

/-- No path occurs among some files and among others. -/
def NoPathShared (files more : List FileNode) : Prop :=
  ∀ x ∈ files, ∀ y ∈ more, x.path.same y.path = false

instance (files : List FileNode) : Decidable (NoPathTwice files) :=
  inferInstanceAs (Decidable (List.Pairwise _ _))

instance (files more : List FileNode) : Decidable (NoPathShared files more) :=
  inferInstanceAs (Decidable (∀ x ∈ _, _))

section Lists

variable {files more : List FileNode}

theorem noPathTwice_append : NoPathTwice (files ++ more) ↔
    NoPathTwice files ∧ NoPathTwice more ∧ NoPathShared files more :=
  List.pairwise_append

theorem noPathTwice_flatMap {dirs : List Path} {files : Path → List FileNode} :
    NoPathTwice (dirs.flatMap files) ↔ (∀ dir ∈ dirs, NoPathTwice (files dir)) ∧
      dirs.Pairwise fun dir dir' => NoPathShared (files dir) (files dir') :=
  List.pairwise_flatMap

theorem noPathTwice_perm (h : files.Perm more) : NoPathTwice files ↔ NoPathTwice more :=
  h.pairwise_iff fun {_ _} hxy => hxy ▸ Bool.beq_comm

theorem NoPathTwice.of_subperm (hmore : NoPathTwice more) (h : files.Subperm more) :
    NoPathTwice files := by
  obtain ⟨kept, hperm, hsub⟩ := h
  exact (noPathTwice_perm hperm).mp (List.Pairwise.sublist hsub hmore)

theorem keepApart_noPathTwice (files : List FileNode) : NoPathTwice (keepApart files) :=
  (keepApart_pairwise files).imp FileNode.Apart.not_same

end Lists

namespace Folder

/-! ## Folders put beside each other -/

theorem IsOrdered.files_put_of_free {f : Folder} {name : String} (h : f.IsOrdered)
    (hfree : f.child? name = none) (node : Node) :
    (f.put name node).files.Perm (node.files ++ f.files) := by
  obtain ⟨others, hold, hnew⟩ := h.files_put name node
  rw [hfree] at hold
  exact hnew.trans (hold.symm.append_left node.files)

/-- Folders with different paths are put beside each other, each of them with all
its files. -/
theorem IsOrdered.foldl_addChild {f : Folder} (h : f.IsOrdered) {further : List Folder}
    (hordered : ∀ g ∈ further, g.IsOrdered)
    (hdistinct : (further.map fun g => g.path.text).Nodup)
    (hfree : ∀ g ∈ further, f.child? g.path.text = none) :
    (further.foldl (fun top g => top.addChild g.path.text g.toNode) f).IsOrdered ∧
      (further.foldl (fun top g => top.addChild g.path.text g.toNode) f).files.Perm
        (f.files ++ further.flatMap Folder.files) := by
  induction further generalizing f with
  | nil => exact ⟨h, by simp⟩
  | cons g further ih =>
    obtain ⟨hg, hordered⟩ := List.forall_mem_cons.mp hordered
    obtain ⟨hgfree, hfree⟩ := List.forall_mem_cons.mp hfree
    obtain ⟨hgtext, hdistinct⟩ := List.nodup_cons.mp hdistinct
    rw [List.foldl_cons, addChild_text]
    obtain ⟨hall, hfiles⟩ := ih (h.put hg) hordered hdistinct fun g' hg' => by
      have hne : g'.path.text ≠ g.path.text :=
        fun heq => hgtext (List.mem_map.mpr ⟨g', hg', heq⟩)
      rw [child?_put, if_neg hne]
      exact hfree g' hg'
    have hput := h.files_put_of_free hgfree g.toNode
    rw [← files_eq] at hput
    refine ⟨hall, hfiles.trans ((hput.append_right _).trans ?_)⟩
    rw [List.flatMap_cons, ← List.append_assoc]
    exact List.perm_append_comm.append_right _

/-! ## Files that describe the build -/

/-- A marker comes to the files once, and can displace what stands under its text. -/
theorem IsOrdered.files_addMarker {f : Folder} (h : f.IsOrdered) (m : Path) :
    (f.addMarker m).files.Subperm (marker m :: f.files) := by
  have hput : ∀ name, (f.put name (.file (marker m))).files.Subperm (marker m :: f.files) := by
    intro name
    obtain ⟨others, hold, hnew⟩ := h.files_put name (.file (marker m))
    have hothers : others.Subperm f.files :=
      (List.sublist_append_right _ _).subperm.trans hold.symm.subperm
    exact hnew.subperm.trans ((List.subperm_cons _).mpr hothers)
  unfold Folder.addMarker Folder.addChild
  split <;> exact hput _

theorem IsOrdered.files_addMarkers {f : Folder} (h : f.IsOrdered) (markers : List Path) :
    (markers.foldl Folder.addMarker f).files.Subperm (markers.map marker ++ f.files) := by
  induction markers generalizing f with
  | nil => exact List.Subperm.refl _
  | cons m markers ih =>
    have hordered : (f.addMarker m).IsOrdered := h.addChild (.file (marker m))
    refine (ih hordered).trans (((List.subperm_append_left _).mpr (h.files_addMarker m)).trans ?_)
    exact List.perm_middle.subperm

end Folder

/-! ## What is listed -/

namespace TreeInputs

/-- All paths are resolved. -/
structure IsResolved (inputs : TreeInputs) : Prop where
  root : inputs.root.IsResolved
  database : inputs.database.IsResolved
  extrasSource : inputs.extrasSource.IsResolved
  targets : ∀ part ∈ inputs.parts, part.target.IsResolved
  partFiles : ∀ p ∈ inputs.partFiles, p.IsResolved
  scanned : ∀ s ∈ inputs.scanned, s.path.IsResolved

/-- The files that are kept below the main root, and those that are kept below each
of the further ones. -/
def keptFiles (inputs : TreeInputs) : List FileNode :=
  keepApart inputs.candidates ++
    inputs.strayDirs.flatMap fun dir => keepApart (TreeRoots.straysTo inputs.strays dir)

/-- The files that describe the build, and those that are kept below the roots. -/
def listed (fs : FileSystem) (inputs : TreeInputs) : List FileNode :=
  (inputs.markers fs).map Folder.marker ++ inputs.keptFiles

section Listed

variable {inputs : TreeInputs} {dir target p : Path}

theorem mem_strays : (target, p) ∈ inputs.strays ↔ (target, p) ∈ inputs.placed ∧
    p.isBelow inputs.root = false ∧ p.isBelow target = true := by
  simp [strays, TreeRoots.strays]

/-- A directory with a root is that of a part, and one of the files there strayed. -/
theorem exists_stray_of_mem_strayDirs (h : dir ∈ inputs.strayDirs) :
    ∃ p, (dir, p) ∈ inputs.strays ∧ ∃ part ∈ inputs.parts, part.target = dir := by
  obtain ⟨⟨target, p⟩, hstray, rfl⟩ := List.mem_map.mp ((PathSet.ofList_holds _).sound dir h)
  obtain ⟨part, hpart, hp⟩ := List.mem_flatMap.mp (mem_strays.mp hstray).1
  obtain ⟨q, -, heq⟩ := List.mem_map.mp hp
  exact ⟨p, hstray, part, hpart, congrArg Prod.fst heq⟩

theorem exists_stray_of_mem {x : FileNode} (hx : x ∈ TreeRoots.straysTo inputs.strays dir) :
    ∃ target, (target, x.path) ∈ inputs.strays ∧ target.same dir = true := by
  obtain ⟨⟨target, p⟩, hstray, rfl⟩ := List.mem_map.mp hx
  obtain ⟨hstray, hsame⟩ := List.mem_filter.mp hstray
  exact ⟨target, hstray, hsame⟩

theorem isBelow_of_mem_candidates {x : FileNode} (hx : x ∈ inputs.candidates) :
    x.path.isBelow inputs.root = true := by
  rcases mem_candidates.mp hx with ⟨p, -, hp, rfl⟩ | ⟨s, -, -, hs, rfl⟩
  · exact hp
  · exact hs

theorem isBelow_of_mem_straysTo {x : FileNode} (hx : x ∈ TreeRoots.straysTo inputs.strays dir) :
    x.path.isBelow inputs.root = false ∧ x.path.isBelow dir = true := by
  obtain ⟨target, hstray, hsame⟩ := exists_stray_of_mem hx
  obtain ⟨-, hout, hin⟩ := mem_strays.mp hstray
  exact ⟨hout, Path.isBelow_of_same hsame hin⟩

theorem IsResolved.main_lists (h : inputs.IsResolved) :
    inputs.allRoots.main.Lists (keepApart inputs.candidates) := by
  rw [allRoots_eq]
  refine Folder.addFiles_lists _ fun x hx => ?_
  refine Path.exists_leads (isBelow_of_mem_candidates hx) ?_
  rcases mem_candidates.mp hx with ⟨p, hp, -, rfl⟩ | ⟨s, hs, -, -, rfl⟩
  · exact (h.partFiles p hp).parent
  · exact (h.scanned s hs).parent

theorem IsResolved.root_lists (h : inputs.IsResolved) (dir : Path) :
    (TreeRoots.rootOf inputs.strays dir).Lists
      (keepApart (TreeRoots.straysTo inputs.strays dir)) := by
  refine Folder.addFiles_lists _ fun x hx => ?_
  obtain ⟨target, hstray, -⟩ := exists_stray_of_mem hx
  have hplaced := mem_partFiles (mem_strays.mp hstray).1
  exact Path.exists_leads (isBelow_of_mem_straysTo hx).2 (h.partFiles _ hplaced).parent

/-- With a further root, the main root is shown under a name. -/
theorem IsResolved.displayName_plain (h : inputs.IsResolved) (hdir : dir ∈ inputs.strayDirs) :
    '/' ∉ inputs.root.displayName.toList := by
  refine h.root.displayName_cases.resolve_left fun hroot => ?_
  -- All that has a name lies below the root of all.
  obtain ⟨p, hstray, part, hpart, rfl⟩ := exists_stray_of_mem_strayDirs hdir
  obtain ⟨-, hout, hin⟩ := mem_strays.mp hstray
  obtain ⟨-, rest, hrest, hcomponents⟩ := Path.isBelow_iff.mp hin
  have hbelow : p.isBelow inputs.root = true := by
    refine Path.isBelow_iff.mpr ⟨Path.text_ne_empty (by simp [hroot]),
      Path.ofPieces part.target.pieces ++ rest, by simp [hrest], ?_⟩
    rw [hcomponents, Path.components_of_isAbsolute (h.targets part hpart).absolute, hroot]
    rfl
  rw [hout] at hbelow
  cases hbelow

/-- The folder around the main root, before the further roots come to it. -/
def around (inputs : TreeInputs) : Folder :=
  (Folder.ofPath inputs.root).put inputs.root.displayName inputs.allRoots.main.toNode

theorem unmarked_eq (inputs : TreeInputs) : inputs.unmarked =
    if inputs.strayDirs = [] then inputs.allRoots.main
    else (inputs.strayDirs.map (TreeRoots.rootOf inputs.strays)).foldl
      (fun top g => top.addChild g.path.text g.toNode) inputs.around := by
  have hname : inputs.allRoots.main.displayName = inputs.root.displayName := by
    rw [allRoots_eq]
    exact (Folder.addFiles_label _ _).2
  have hfurther : inputs.allRoots.further =
      inputs.strayDirs.map (TreeRoots.rootOf inputs.strays) := by
    rw [allRoots_eq]
  unfold unmarked
  split
  · rename_i hnone
    unfold TreeRoots.top
    rw [hfurther, hnone]
    rfl
  · rename_i hsome
    rw [TreeRoots.top_of_ne_nil (by simpa [hfurther] using hsome), hname, hfurther]
    rfl

/-- The folder around the main root holds nothing else. -/
theorem IsResolved.around_lists (h : inputs.IsResolved) :
    inputs.around.IsOrdered ∧ inputs.around.files.Perm (keepApart inputs.candidates) ∧
      ∀ name ≠ inputs.root.displayName, inputs.around.child? name = none := by
  have hempty : (Folder.ofPath inputs.root).IsOrdered := Folder.named_isOrdered _ _
  have hfree : (Folder.ofPath inputs.root).child? inputs.root.displayName = none := rfl
  have hfiles := hempty.files_put_of_free hfree inputs.allRoots.main.toNode
  have hnone : (Folder.ofPath inputs.root).files = [] := by
    rw [Folder.files_eq]
    rfl
  rw [hnone, List.append_nil, ← Folder.files_eq] at hfiles
  refine ⟨hempty.put h.main_lists.ordered, hfiles.trans h.main_lists.listed, fun name hname => ?_⟩
  unfold around
  rw [Folder.child?_put, if_neg hname]
  rfl

/-- The names in the top folder are plain, or the texts of further roots. -/
theorem IsResolved.child?_unmarked (h : inputs.IsResolved) {name : String}
    (hslash : '/' ∈ name.toList) (hother : ∀ dir ∈ inputs.strayDirs, dir.text ≠ name) :
    inputs.unmarked.child? name = none := by
  rw [unmarked_eq]
  split
  · cases hchild : inputs.allRoots.main.child? name with
    | none => rfl
    | some node => exact absurd hslash (h.main_lists.confined.hasPlainNames name node hchild)
  · rename_i hsome
    obtain ⟨dir, dirs, hdirs⟩ := List.exists_cons_of_ne_nil hsome
    have hdir : dir ∈ inputs.strayDirs := by simp [hdirs]
    have hne : name ≠ inputs.root.displayName :=
      fun heq => h.displayName_plain hdir (heq ▸ hslash)
    rcases Folder.child?_foldl_addChild (inputs.strayDirs.map (TreeRoots.rootOf inputs.strays))
      inputs.around name with ⟨g, hg, htext, -⟩ | ⟨-, hchild⟩
    · obtain ⟨dir, hdir, rfl⟩ := List.mem_map.mp hg
      exact absurd (by simpa using htext) (hother dir hdir)
    · exact hchild.trans (h.around_lists.2.2 name hne)

theorem strayDirs_text_nodup (inputs : TreeInputs) :
    (inputs.strayDirs.map Path.text).Nodup := by
  have hordered := (PathSet.ofList_holds (inputs.strays.map Prod.fst)).ordered
  refine List.pairwise_map.mpr (hordered.imp fun {dir dir'} hlt htext => ?_)
  obtain rfl : dir = dir' := congrArg Path.mk htext
  have hself : dir.order dir = .eq := ReflCmp.compare_self
  rw [hlt] at hself
  cases hself

/-- The tree without the files that describe the build is in order and lists what is
kept below the roots. -/
theorem IsResolved.unmarked_lists (h : inputs.IsResolved) :
    inputs.unmarked.IsOrdered ∧ inputs.unmarked.files.Perm inputs.keptFiles := by
  rw [unmarked_eq, keptFiles]
  split
  · rename_i hnone
    rw [hnone, List.flatMap_nil, List.append_nil]
    exact ⟨h.main_lists.ordered, h.main_lists.listed⟩
  · obtain ⟨haround, hfiles, hfree⟩ := h.around_lists
    have hordered : ∀ g ∈ inputs.strayDirs.map (TreeRoots.rootOf inputs.strays), g.IsOrdered := by
      intro g hg
      obtain ⟨dir, -, rfl⟩ := List.mem_map.mp hg
      exact (h.root_lists dir).ordered
    have hdistinct : ((inputs.strayDirs.map (TreeRoots.rootOf inputs.strays)).map
        fun g => g.path.text).Nodup := by
      rw [List.map_map]
      simpa [Function.comp_def] using inputs.strayDirs_text_nodup
    obtain ⟨hall, hlisted⟩ := haround.foldl_addChild hordered hdistinct fun g hg => by
      obtain ⟨dir, hdir, rfl⟩ := List.mem_map.mp hg
      obtain ⟨-, -, part, hpart, rfl⟩ := exists_stray_of_mem_strayDirs hdir
      rw [TreeRoots.rootOf_path]
      refine hfree _ fun heq => h.displayName_plain hdir ?_
      exact heq ▸ Path.slash_mem_of_isAbsolute (h.targets part hpart).absolute
    refine ⟨hall, hlisted.trans (hfiles.append ?_)⟩
    rw [List.flatMap_map]
    exact List.Perm.flatMap_left _ fun dir _ => (h.root_lists dir).listed

/-! ## Paths that occur twice -/

/-- No file comes to be listed in two further roots, no file that describes the
build is listed below a root, and no two of them are one. -/
structure HasNothingTwice (fs : FileSystem) (inputs : TreeInputs) : Prop where
  strays : inputs.strayDirs.Pairwise fun dir dir' =>
    NoPathShared (keepApart (TreeRoots.straysTo inputs.strays dir))
      (keepApart (TreeRoots.straysTo inputs.strays dir'))
  markers : NoPathShared ((inputs.markers fs).map Folder.marker) inputs.keptFiles
  distinct : NoPathTwice ((inputs.markers fs).map Folder.marker)

/-- The files that describe the build are written in different ways, and none of
them as the directory of a part. -/
structure HasOwnMarkers (fs : FileSystem) (inputs : TreeInputs) : Prop where
  distinct : (inputs.markers fs).Nodup
  free : ∀ m ∈ inputs.markers fs, ∀ part ∈ inputs.parts, part.target ≠ m

/-- What is kept below the main root is not kept below a further one. -/
theorem noPathShared_kept (inputs : TreeInputs) (dir : Path) :
    NoPathShared (keepApart inputs.candidates)
      (keepApart (TreeRoots.straysTo inputs.strays dir)) := by
  intro x hx y hy
  refine Bool.eq_false_iff.mpr fun hsame => ?_
  have hin := isBelow_of_mem_candidates (mem_of_mem_keepApart hx)
  have hout := (isBelow_of_mem_straysTo (mem_of_mem_keepApart hy)).1
  rw [Path.isBelow_congr hsame, hout] at hin
  cases hin

/-- No path occurs twice in the main root, nor in it and any one further root. -/
theorem IsResolved.roots_noPathTwice (h : inputs.IsResolved) :
    NoPathTwice inputs.allRoots.main.files ∧
      ∀ f ∈ inputs.allRoots.further, NoPathTwice (inputs.allRoots.main.files ++ f.files) := by
  refine ⟨(noPathTwice_perm h.main_lists.listed).mpr (keepApart_noPathTwice _), fun f hf => ?_⟩
  rw [allRoots_eq] at hf
  obtain ⟨dir, -, rfl⟩ := List.mem_map.mp hf
  refine (noPathTwice_perm (h.main_lists.listed.append (h.root_lists dir).listed)).mpr ?_
  exact noPathTwice_append.mpr
    ⟨keepApart_noPathTwice _, keepApart_noPathTwice _, inputs.noPathShared_kept dir⟩

theorem listed_noPathTwice_iff (fs : FileSystem) (inputs : TreeInputs) :
    NoPathTwice (inputs.listed fs) ↔ inputs.HasNothingTwice fs := by
  have hshared : NoPathShared (keepApart inputs.candidates)
      (inputs.strayDirs.flatMap fun dir => keepApart (TreeRoots.straysTo inputs.strays dir)) := by
    intro x hx y hy
    obtain ⟨dir, -, hy⟩ := List.mem_flatMap.mp hy
    exact inputs.noPathShared_kept dir x hx y hy
  have hkept : NoPathTwice inputs.keptFiles ↔ inputs.strayDirs.Pairwise fun dir dir' =>
      NoPathShared (keepApart (TreeRoots.straysTo inputs.strays dir))
        (keepApart (TreeRoots.straysTo inputs.strays dir')) := by
    unfold keptFiles
    rw [noPathTwice_append, noPathTwice_flatMap]
    exact ⟨fun h => h.2.1.2, fun h =>
      ⟨keepApart_noPathTwice _, ⟨fun _ _ => keepApart_noPathTwice _, h⟩, hshared⟩⟩
  unfold listed
  rw [noPathTwice_append, hkept]
  exact ⟨fun ⟨hdistinct, hstrays, hmarkers⟩ => ⟨hstrays, hmarkers, hdistinct⟩,
    fun h => ⟨h.distinct, h.strays, h.markers⟩⟩

/-- Nothing is in the tree but what is listed, and nothing is lost if the files that
describe the build stand under names of their own. -/
theorem IsResolved.files_ofInputs (h : inputs.IsResolved) (fs : FileSystem) :
    (Folder.ofInputs fs inputs).files.Subperm (inputs.listed fs) ∧
      (inputs.HasOwnMarkers fs → (Folder.ofInputs fs inputs).files.Perm (inputs.listed fs)) := by
  obtain ⟨hordered, hfiles⟩ := h.unmarked_lists
  have habsolute : ∀ m ∈ inputs.markers fs, m.isAbsolute = true :=
    forall_mem_markers h.database.absolute h.extrasSource.absolute fs
  rw [ofInputs_eq, listed]
  refine ⟨(hordered.files_addMarkers _).trans (hfiles.append_left _).subperm, fun hown => ?_⟩
  have hfree : ∀ m ∈ inputs.markers fs, inputs.unmarked.child? m.text = none := by
    intro m hm
    refine h.child?_unmarked (Path.slash_mem_of_isAbsolute (habsolute m hm)) ?_
    intro dir hdir htext
    obtain ⟨-, -, part, hpart, rfl⟩ := exists_stray_of_mem_strayDirs hdir
    exact hown.free m hm part hpart (congrArg Path.mk htext)
  exact (hordered.addMarkers hown.distinct habsolute hfree).files_perm.trans
    (hfiles.append_left _)

end Listed

/-- Two files that are compiled outside the root, one of them in a directory and the
other one in a directory below that. -/
def inNestedDirectories (outer inner : String) : TreeInputs where
  root := ⟨"/p"⟩
  database := ⟨"/p/compile_commands.json"⟩
  extrasSource := ⟨"/p/compile_commands.json.files"⟩
  parts := [
    ⟨⟨"/p"⟩, ⟨"/p/build"⟩, "", .ofList [⟨"/p/a.c"⟩, ⟨"/p/a.h"⟩], [], [], none, none⟩,
    ⟨⟨"/p"⟩, ⟨"/ext"⟩, "", .ofList [⟨outer⟩], [], [], none, none⟩,
    ⟨⟨"/p"⟩, ⟨"/ext/lib"⟩, "", .ofList [⟨inner⟩], [], [], none, none⟩]
  scanned := [⟨⟨"/p/a.h"⟩, .header⟩]

end TreeInputs

end CompileCommands
