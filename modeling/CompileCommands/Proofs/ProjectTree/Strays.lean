-- The roots of a tree, told from the files of the parts. A file outside the main
-- root strays to the root of the directory of its part, so each root is the
-- folder of the files that come to it, in the order of the parts.
import CompileCommands.Proofs.ProjectTree.Apart
import CompileCommands.Proofs.ProjectTree.Contents

namespace CompileCommands

namespace TreeRoots

/-- The files that come to further roots, each with the directory of its part:
they lie outside the main root and below that directory. -/
def strays (root : Path) (placed : List (Path × Path)) : List (Path × Path) :=
  placed.filter fun x => !x.2.isBelow root && x.2.isBelow x.1

/-- The files that come to the root of one directory. -/
def straysTo (strays : List (Path × Path)) (dir : Path) : List FileNode :=
  (strays.filter (·.1.same dir)).map fun x => partFile x.2

/-- The root of one directory. -/
def rootOf (strays : List (Path × Path)) (dir : Path) : Folder :=
  (Folder.ofPath dir).addFiles (straysTo strays dir)

@[simp]
theorem rootOf_path (strays : List (Path × Path)) (dir : Path) :
    (rootOf strays dir).path = dir :=
  (Folder.addFiles_label (Folder.ofPath dir) _).1

theorem foldl_addPartFile (root : Path) (placed : List (Path × Path)) (f : Folder)
    (further : List Folder) :
    placed.foldl (fun roots x => addPartFile root x.1 roots x.2) ⟨f, further⟩ =
      ⟨f.addFiles (((placed.map Prod.snd).filter (·.isBelow root)).map partFile),
        (strays root placed).foldl (fun further x => addFurther x.1 x.2 further) further⟩ := by
  induction placed generalizing f further with
  | nil => rfl
  | cons x placed ih =>
    obtain ⟨target, p⟩ := x
    simp only [List.foldl_cons, addPartFile, List.map_cons, List.filter_cons, strays]
    cases hroot : p.isBelow root with
    | true => exact ih _ _
    | false =>
      cases htarget : p.isBelow target with
      | true => exact ih _ _
      | false => exact ih _ _

section Strays

variable {strays : List (Path × Path)} {target p dir : Path}

theorem straysTo_append_same (h : target.same dir = true) :
    straysTo (strays ++ [(target, p)]) dir = straysTo strays dir ++ [partFile p] := by
  simp [straysTo, h]

theorem straysTo_append_other (h : target.same dir = false) :
    straysTo (strays ++ [(target, p)]) dir = straysTo strays dir := by
  simp [straysTo, h]

/-- The further roots are those of the directories of the strays. -/
structure AreRootsOf (further : List Folder) (strays : List (Path × Path)) : Prop where
  dirs : further.map Folder.path = (PathSet.ofList (strays.map Prod.fst)).toList
  roots : ∀ f ∈ further, f = rootOf strays f.path

theorem AreRootsOf.eq {further : List Folder} (h : AreRootsOf further strays) :
    further = (PathSet.ofList (strays.map Prod.fst)).toList.map (rootOf strays) := by
  rw [← h.dirs, List.map_map]
  exact (List.map_id further).symm.trans (List.map_congr_left h.roots)

theorem AreRootsOf.addFurther {further : List Folder} (h : AreRootsOf further strays)
    (target p : Path) :
    AreRootsOf (addFurther target p further) (strays ++ [(target, p)]) := by
  have hholds := PathSet.ofList_holds (strays.map Prod.fst)
  constructor
  · rw [map_path_addFurther, h.dirs, List.map_append]
    unfold PathSet.ofList
    rw [List.foldl_append]
    rfl
  · intro g hg
    have hordered : (further.map Folder.path).Pairwise (Path.order · · = .lt) :=
      h.dirs ▸ hholds.ordered
    rcases mem_addFurther hordered hg with ⟨hold, hother⟩ | ⟨f, hf, hsame, rfl⟩ | ⟨hnone, rfl⟩
    · have hother' : target.same g.path = false := hother ▸ Bool.beq_comm
      unfold rootOf
      rw [straysTo_append_other hother']
      exact h.roots g hold
    · unfold rootOf
      rw [Folder.addFile_path, straysTo_append_same (Path.same_symm hsame), Folder.addFiles_append]
      exact congrArg (fun f : Folder => (f.addFile (partFile p)).2) (h.roots f hf)
    · -- No stray before this one came to this directory.
      have hfirst : straysTo strays target = [] := by
        unfold straysTo
        rw [List.map_eq_nil_iff, List.filter_eq_nil_iff]
        intro x hx hsame
        obtain ⟨dir, hdir, hdirsame⟩ := hholds.complete x.1 (List.mem_map_of_mem hx)
        rw [← h.dirs] at hdir
        obtain ⟨f, hf, rfl⟩ := List.mem_map.mp hdir
        have hftarget := Path.same_trans hdirsame hsame
        rw [hnone f hf] at hftarget
        cases hftarget
      have hself : target.same target = true := beq_self_eq_true target.components
      have hpath : (Folder.ofPath target).path = target := rfl
      unfold rootOf
      rw [Folder.addFile_path, hpath, straysTo_append_same hself, hfirst]
      rfl

theorem foldl_addFurther_areRootsOf (strays : List (Path × Path)) :
    AreRootsOf (strays.foldl (fun further x => addFurther x.1 x.2 further) []) strays := by
  induction strays using List.reverseRecOn with
  | nil => exact ⟨rfl, nofun⟩
  | append_singleton strays x ih =>
    rw [List.foldl_append]
    exact ih.addFurther x.1 x.2

end Strays

end TreeRoots

/-! ## The roots of some inputs -/

namespace TreeInputs

/-- The files of the parts that come to further roots. -/
def strays (inputs : TreeInputs) : List (Path × Path) := TreeRoots.strays inputs.root inputs.placed

/-- The directories of the further roots. -/
def strayDirs (inputs : TreeInputs) : List Path :=
  (PathSet.ofList (inputs.strays.map Prod.fst)).toList

/-- Each root is the folder of the files that come to it. -/
theorem allRoots_eq (inputs : TreeInputs) : inputs.allRoots =
    ⟨(Folder.ofPath inputs.root).addFiles inputs.candidates,
      inputs.strayDirs.map (TreeRoots.rootOf inputs.strays)⟩ := by
  unfold allRoots
  rw [roots_eq, TreeRoots.foldl_addPartFile, TreeRoots.foldl_addScanned_eq,
    (TreeRoots.foldl_addFurther_areRootsOf _).eq, map_snd_placed]
  unfold Folder.addFiles candidates
  rw [List.foldl_append]
  rfl

end TreeInputs

end CompileCommands
