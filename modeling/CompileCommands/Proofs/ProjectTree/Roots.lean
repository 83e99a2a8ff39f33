-- The roots of a tree. Each file of a part comes to one root: to the main one
-- if it lies below it, and else to that of the directory of its part.
import CompileCommands.Proofs.Path.Set
import CompileCommands.Proofs.ProjectTree.Adding
import CompileCommands.ProjectTree.Building

namespace CompileCommands

open Std

/-! ## Paths that name one place -/

namespace Path

theorem not_same_of_order {p q : Path} (h : p.order q ≠ .eq) : p.same q = false :=
  Bool.eq_false_iff.mpr fun hsame => h (order_eq_eq_iff.mpr hsame)

end Path

/-! ## Further roots -/

namespace TreeRoots

/-- The directories of the further roots are a set of paths. -/
theorem map_path_addFurther (target file : Path) (further : List Folder) :
    (addFurther target file further).map Folder.path =
      PathSet.insertInOrder target (further.map Folder.path) := by
  induction further with
  | nil =>
    simp [addFurther, PathSet.insertInOrder]
  | cons f rest ih =>
    rw [addFurther, List.map_cons, PathSet.insertInOrder]
    cases target.order f.path <;> simp [ih]

theorem exists_addFurther_path (target file : Path) {further : List Folder} {f : Folder}
    (hf : f ∈ further) : ∃ g ∈ addFurther target file further, g.path = f.path := by
  have hdir : f.path ∈ further.map Folder.path := List.mem_map_of_mem hf
  replace hdir := PathSet.mem_insertInOrder_of_mem target hdir
  rw [← map_path_addFurther target file] at hdir
  exact List.mem_map.mp hdir

theorem exists_addFurther_same (target file : Path) (further : List Folder) :
    ∃ g ∈ addFurther target file further, g.path.same target = true := by
  obtain ⟨dir, hdir, hsame⟩ := PathSet.exists_same_insertInOrder target
    (further.map Folder.path)
  rw [← map_path_addFurther target file] at hdir
  obtain ⟨g, hg, rfl⟩ := List.mem_map.mp hdir
  exact ⟨g, hg, hsame⟩

/-- A further root is an old one of another directory, or the one that the file
was added to. -/
theorem mem_addFurther {target file : Path} {further : List Folder} {g : Folder}
    (hordered : (further.map Folder.path).Pairwise (Path.order · · = .lt))
    (h : g ∈ addFurther target file further) :
    (g ∈ further ∧ g.path.same target = false) ∨
      (∃ f ∈ further, f.path.same target = true ∧ g = (f.addFile (partFile file)).2) ∨
      (∀ f ∈ further, f.path.same target = false) ∧
        g = ((Folder.ofPath target).addFile (partFile file)).2 := by
  induction further with
  | nil => exact .inr (.inr ⟨nofun, List.mem_singleton.mp h⟩)
  | cons f rest ih =>
    rw [List.map_cons, List.pairwise_cons] at hordered
    obtain ⟨hfirst, hrest⟩ := hordered
    have hlater : ∀ {g : Folder}, g ∈ rest → f.path.order g.path = .lt :=
      fun hg => hfirst _ (List.mem_map_of_mem hg)
    rw [addFurther] at h
    split at h
    · rename_i hlt
      have hother : ∀ g ∈ f :: rest, g.path.same target = false := by
        intro g hg
        have hbefore : target.order g.path = .lt := by
          rcases List.mem_cons.mp hg with rfl | hg
          · exact hlt
          · exact TransCmp.lt_trans hlt (hlater hg)
        apply Path.not_same_of_order
        rw [OrientedCmp.gt_of_lt hbefore]
        nofun
      rcases List.mem_cons.mp h with rfl | hg
      · exact .inr (.inr ⟨hother, rfl⟩)
      · exact .inl ⟨hg, hother g hg⟩
    · rename_i heq
      have hsame := Path.order_eq_eq_iff.mp heq
      rcases List.mem_cons.mp h with rfl | hg
      · exact .inr (.inl ⟨f, List.mem_cons_self, Path.same_symm hsame, rfl⟩)
      · left
        refine ⟨List.mem_cons_of_mem f hg, Path.not_same_of_order fun hg' => ?_⟩
        have hfg := Path.same_trans (Path.same_symm hsame)
          (Path.same_symm (Path.order_eq_eq_iff.mp hg'))
        have hlt := hlater hg
        rw [Path.order_eq_eq_iff.mpr hfg] at hlt
        cases hlt
    · rename_i hgt
      have hf : f.path.same target = false := by
        apply Path.not_same_of_order
        rw [OrientedCmp.lt_of_gt hgt]
        nofun
      rcases List.mem_cons.mp h with rfl | hg
      · exact .inl ⟨List.mem_cons_self, hf⟩
      · rcases ih hrest hg with ⟨hg, hsame⟩ | ⟨old, hold, hadded⟩ | ⟨hnone, hnew⟩
        · exact .inl ⟨List.mem_cons_of_mem f hg, hsame⟩
        · exact .inr (.inl ⟨old, List.mem_cons_of_mem f hold, hadded⟩)
        · exact .inr (.inr ⟨List.forall_mem_cons.mpr ⟨hf, hnone⟩, hnew⟩)

/-! ## The files of each root -/

/-- A file of a part that lies below the main root. -/
def MainFile (root : Path) (placed : List (Path × Path)) (p : Path) : Prop :=
  ∃ target, (target, p) ∈ placed ∧ p.isBelow root = true

/-- A file that lies outside the main root and below the directory of its part,
for parts of one directory. -/
def FurtherFile (root dir : Path) (placed : List (Path × Path)) (p : Path) : Prop :=
  ∃ target, (target, p) ∈ placed ∧ p.isBelow root = false ∧ p.isBelow target = true ∧
    dir.same target = true

/-- The roots after some files, each given with the directory of its part. -/
structure Built (root : Path) (placed : List (Path × Path)) (roots : TreeRoots) : Prop where
  main_label : roots.main.path = root ∧ roots.main.displayName = root.displayName
  main : roots.main.Holds (MainFile root placed)
  names : roots.main.HasPlainNames
  further : ∀ f ∈ roots.further, f.Holds (FurtherFile root f.path placed)
  covered : ∀ target p, (target, p) ∈ placed → p.isBelow root = false → p.isBelow target = true →
    ∃ f ∈ roots.further, f.path.same target = true
  ordered : (roots.further.map Folder.path).Pairwise (Path.order · · = .lt)
  outside : ∀ f ∈ roots.further, ∀ x ∈ f.files, x.path.isBelow root = false

theorem built_nil (root : Path) : Built root [] ⟨.ofPath root, []⟩ where
  main_label := ⟨rfl, rfl⟩
  main := (Folder.ofPath_holds root).of_iff (by simp [MainFile])
  names := Folder.ofPath_hasPlainNames root
  further := nofun
  covered := nofun
  ordered := List.Pairwise.nil
  outside := nofun

section AddPartFile

variable {root target p : Path} {placed : List (Path × Path)} {roots : TreeRoots}

theorem mainFile_append (q : Path) : MainFile root (placed ++ [(target, p)]) q ↔
    MainFile root placed q ∨ q = p ∧ p.isBelow root = true := by
  unfold MainFile
  simp only [List.mem_append, List.mem_singleton, Prod.mk.injEq]
  constructor
  · rintro ⟨t, h | ⟨rfl, rfl⟩, hq⟩
    · exact .inl ⟨t, h, hq⟩
    · exact .inr ⟨rfl, hq⟩
  · rintro (⟨t, h, hq⟩ | ⟨rfl, hq⟩)
    · exact ⟨t, .inl h, hq⟩
    · exact ⟨target, .inr ⟨rfl, rfl⟩, hq⟩

theorem furtherFile_append (dir q : Path) : FurtherFile root dir (placed ++ [(target, p)]) q ↔
    FurtherFile root dir placed q ∨ q = p ∧ p.isBelow root = false ∧ p.isBelow target = true ∧
      dir.same target = true := by
  unfold FurtherFile
  simp only [List.mem_append, List.mem_singleton, Prod.mk.injEq]
  constructor
  · rintro ⟨t, h | ⟨rfl, rfl⟩, hq⟩
    · exact .inl ⟨t, h, hq⟩
    · exact .inr ⟨rfl, hq⟩
  · rintro (⟨t, h, hq⟩ | ⟨rfl, hq⟩)
    · exact ⟨t, .inl h, hq⟩
    · exact ⟨target, .inr ⟨rfl, rfl⟩, hq⟩

theorem Built.addMain (h : Built root placed roots) (hp : p.isBelow root = true)
    (hparent : .parent ∉ p.components)
    (hapart : ∀ t q, (t, q) ∈ placed → p.isBelow q = false ∧ q.isBelow p = false) :
    Built root (placed ++ [(target, p)])
      { roots with main := (roots.main.addFile (partFile p)).2 } := by
  have hbelow : (partFile p).path.isBelow roots.main.path = true := by
    rw [h.main_label.1]
    exact hp
  have hlabel := Folder.addFile_label roots.main (partFile p)
  refine ⟨?_, ?_, h.names.addFile hbelow hparent, ?_, ?_, h.ordered, h.outside⟩
  · rw [hlabel.1, hlabel.2]
    exact h.main_label
  · have hadd := h.main.addFile hbelow hparent rfl fun q ⟨t, hq, _⟩ => hapart t q hq
    exact hadd.of_iff fun q => by simp [mainFile_append, hp, partFile]
  · intro f hf
    exact (h.further f hf).of_iff fun q => by simp [furtherFile_append, hp]
  · intro t q hq hout hin
    rcases List.mem_append.mp hq with hq | hq
    · exact h.covered t q hq hout hin
    · cases List.mem_singleton.mp hq
      rw [hp] at hout
      cases hout

theorem Built.further_addFurther (h : Built root placed roots) (hp : p.isBelow root = false)
    (htarget : p.isBelow target = true) (hparent : .parent ∉ p.components)
    (hapart : ∀ t q, (t, q) ∈ placed → p.isBelow q = false ∧ q.isBelow p = false) {g : Folder}
    (hg : g ∈ TreeRoots.addFurther target p roots.further) :
    g.Holds (FurtherFile root g.path (placed ++ [(target, p)])) := by
  have hadd : ∀ {f : Folder} {files : Path → Prop}, f.Holds files → f.path.same target = true →
      (∀ q, files q → ∃ t, (t, q) ∈ placed) →
      (f.addFile (partFile p)).2.Holds fun q => files q ∨ q = p := by
    intro f files hf hsame hfiles
    refine hf.addFile (Path.isBelow_of_same (Path.same_symm hsame) htarget) hparent rfl ?_
    intro q hq
    obtain ⟨t, hq⟩ := hfiles q hq
    exact hapart t q hq
  rcases mem_addFurther h.ordered hg with ⟨hold, hother⟩ | ⟨f, hf, hsame, rfl⟩ | ⟨hnone, rfl⟩
  · exact (h.further g hold).of_iff fun q => by simp [furtherFile_append, hother]
  · have hholds := hadd (h.further f hf) hsame fun q ⟨t, hq, _⟩ => ⟨t, hq⟩
    refine hholds.of_iff fun q => ?_
    simp [furtherFile_append, hp, htarget, hsame]
  · -- No file before this one came to this directory.
    have hself : target.same target = true := Path.order_eq_eq_iff.mp ReflCmp.compare_self
    have hholds := hadd (Folder.ofPath_holds target) hself nofun
    refine hholds.of_iff fun q => ?_
    have hfirst : ¬ FurtherFile root target placed q := by
      rintro ⟨t, hq, hout, hin, hsame⟩
      obtain ⟨f, hf, hft⟩ := h.covered t q hq hout hin
      have hft' := Path.same_trans hft (Path.same_symm hsame)
      rw [hnone f hf] at hft'
      cases hft'
    simp [furtherFile_append, hp, htarget, hself, hfirst]

theorem Built.outside_addFurther (h : Built root placed roots) (hp : p.isBelow root = false)
    {g : Folder} (hg : g ∈ TreeRoots.addFurther target p roots.further) :
    ∀ x ∈ g.files, x.path.isBelow root = false := by
  have hfile : ∀ {f : Folder}, (∀ x ∈ f.files, x.path.isBelow root = false) →
      ∀ x ∈ (f.addFile (partFile p)).2.files, x.path.isBelow root = false := by
    intro f hf x hx
    rcases Folder.mem_files_addFile hx with hx | rfl
    · exact hf x hx
    · exact hp
  rcases mem_addFurther h.ordered hg with ⟨hold, -⟩ | ⟨f, hf, -, rfl⟩ | ⟨-, rfl⟩
  · exact h.outside g hold
  · exact hfile (h.outside f hf)
  · refine hfile fun x hx => ?_
    rw [Folder.files_eq] at hx
    cases hx

theorem Built.addFurther (h : Built root placed roots) (hp : p.isBelow root = false)
    (htarget : p.isBelow target = true) (hparent : .parent ∉ p.components)
    (hapart : ∀ t q, (t, q) ∈ placed → p.isBelow q = false ∧ q.isBelow p = false) :
    Built root (placed ++ [(target, p)])
      { roots with further := TreeRoots.addFurther target p roots.further } where
  main_label := h.main_label
  main := h.main.of_iff fun q => by simp [mainFile_append, hp]
  names := h.names
  further _ hg := h.further_addFurther hp htarget hparent hapart hg
  covered t q hq hout hin := by
    rcases List.mem_append.mp hq with hq | hq
    · obtain ⟨f, hf, hsame⟩ := h.covered t q hq hout hin
      obtain ⟨g, hg, hpath⟩ := exists_addFurther_path target p hf
      exact ⟨g, hg, hpath ▸ hsame⟩
    · cases List.mem_singleton.mp hq
      exact exists_addFurther_same target p roots.further
  ordered := by
    show ((TreeRoots.addFurther target p roots.further).map Folder.path).Pairwise _
    rw [map_path_addFurther]
    exact PathSet.insertInOrder_pairwise h.ordered
  outside _ hg := h.outside_addFurther hp hg

theorem Built.addPartFile (h : Built root placed roots) (hparent : .parent ∉ p.components)
    (hapart : ∀ t q, (t, q) ∈ placed → p.isBelow q = false ∧ q.isBelow p = false) :
    Built root (placed ++ [(target, p)]) (TreeRoots.addPartFile root target roots p) := by
  unfold TreeRoots.addPartFile
  split
  · exact h.addMain ‹_› hparent hapart
  · rename_i hroot
    have hout : p.isBelow root = false := Bool.eq_false_iff.mpr hroot
    split
    · exact h.addFurther hout ‹_› hparent hapart
    · rename_i htarget
      refine ⟨h.main_label, h.main.of_iff fun q => by simp [mainFile_append, hout], h.names, ?_, ?_,
        h.ordered, h.outside⟩
      · intro f hf
        exact (h.further f hf).of_iff fun q => by simp [furtherFile_append, htarget]
      · intro t q hq hq' hin
        rcases List.mem_append.mp hq with hq | hq
        · exact h.covered t q hq hq' hin
        · cases List.mem_singleton.mp hq
          exact absurd hin htarget

theorem Built.foldl (h : Built root placed roots) {more : List (Path × Path)}
    (hparent : ∀ t q, (t, q) ∈ more → .parent ∉ q.components)
    (hapart : ∀ t q t' q', (t, q) ∈ placed ++ more → (t', q') ∈ placed ++ more →
      q.isBelow q' = false) :
    Built root (placed ++ more)
      (more.foldl (fun roots f => TreeRoots.addPartFile root f.1 roots f.2) roots) := by
  induction more generalizing placed roots with
  | nil => rwa [List.append_nil]
  | cons f more ih =>
    obtain ⟨t, q⟩ := f
    have hmem : (t, q) ∈ placed ++ (t, q) :: more := by simp
    have hnext : Built root (placed ++ [(t, q)]) (TreeRoots.addPartFile root t roots q) := by
      refine h.addPartFile (hparent t q List.mem_cons_self) fun t' q' hq' => ?_
      have hmem' : (t', q') ∈ placed ++ (t, q) :: more := List.mem_append_left _ hq'
      exact ⟨hapart t q t' q' hmem hmem', hapart t' q' t q hmem' hmem⟩
    rw [List.append_cons]
    refine ih hnext (fun t' q' hq' => hparent t' q' (List.mem_cons_of_mem _ hq')) ?_
    rwa [← List.append_cons]

end AddPartFile

end TreeRoots

/-! ## The roots of some inputs -/

namespace TreeInputs

/-- The files of all parts, each with the directory of its part. -/
def placed (inputs : TreeInputs) : List (Path × Path) :=
  inputs.parts.flatMap fun part => part.files.toList.map fun p => (part.target, p)

def roots [Reading] (inputs : TreeInputs) : TreeRoots :=
  inputs.parts.foldl (TreeRoots.addPart inputs.root) ⟨.ofPath inputs.root, []⟩

theorem roots_eq [Reading] (inputs : TreeInputs) : inputs.roots =
    inputs.placed.foldl (fun roots f => TreeRoots.addPartFile inputs.root f.1 roots f.2)
      ⟨.ofPath inputs.root, []⟩ := by
  unfold roots placed
  rw [List.foldl_flatMap]
  simp only [List.foldl_map]
  rfl

theorem roots_built (inputs : TreeInputs)
    (hparent : ∀ t q, (t, q) ∈ inputs.placed → .parent ∉ q.components)
    (hapart : ∀ t q t' q', (t, q) ∈ inputs.placed → (t', q') ∈ inputs.placed →
      q.isBelow q' = false) : TreeRoots.Built inputs.root inputs.placed inputs.roots := by
  rw [roots_eq]
  exact (TreeRoots.built_nil inputs.root).foldl hparent hapart

end TreeInputs

/-! ## The path of a tree -/

@[simp]
theorem Folder.addChild_path (f : Folder) (name : String) (node : Node) :
    (f.addChild name node).path = f.path := by
  unfold addChild
  split <;> rfl

theorem Folder.foldl_path {α : Type} {step : Folder → α → Folder}
    (h : ∀ f a, (step f a).path = f.path) (f : Folder) (as : List α) :
    (as.foldl step f).path = f.path := by
  induction as generalizing f with
  | nil => rfl
  | cons a as ih => exact (ih (step f a)).trans (h f a)

@[simp]
theorem TreeRoots.addPartFile_main_path (root target : Path) (roots : TreeRoots) (file : Path) :
    (addPartFile root target roots file).main.path = roots.main.path := by
  unfold addPartFile
  split
  · simp
  · split <;> rfl

@[simp]
theorem TreeRoots.foldl_main_path (root : Path) (roots : TreeRoots) (placed : List (Path × Path)) :
    (placed.foldl (fun roots f => addPartFile root f.1 roots f.2) roots).main.path =
      roots.main.path := by
  induction placed generalizing roots with
  | nil => rfl
  | cons f placed ih => simp [ih]

@[simp]
theorem TreeInputs.roots_main_path (inputs : TreeInputs) :
    inputs.roots.main.path = inputs.root := by
  rw [roots_eq, TreeRoots.foldl_main_path]
  rfl

@[simp]
theorem TreeRoots.addScanned_path (root : Path) (f : Folder) (scanned : ScannedFile) :
    (addScanned root f scanned).path = f.path := by
  unfold addScanned
  split <;> simp

theorem TreeRoots.top_path {root : Path} {roots : TreeRoots} (h : roots.main.path = root) :
    (roots.top root).path = root := by
  unfold top
  split
  · exact h
  · simp [Folder.foldl_path]

/-- The tree shows the root that it was built for. -/
@[simp]
theorem Folder.ofInputs_path (fs : FileSystem) (inputs : TreeInputs) :
    (Folder.ofInputs fs inputs).path = inputs.root := by
  have hmain : (inputs.scanned.foldl (TreeRoots.addScanned inputs.root)
      inputs.roots.main).path = inputs.root := by
    simp [foldl_path (TreeRoots.addScanned_path inputs.root)]
  unfold ofInputs addMarker
  simp only
  split
  · simpa using TreeRoots.top_path hmain
  · simpa using TreeRoots.top_path hmain

end CompileCommands
