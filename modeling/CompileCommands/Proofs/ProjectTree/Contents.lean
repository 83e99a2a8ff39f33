-- What stands in a tree with one root. Each place is listed once, as the first
-- file that was put there: the files of the parts come before the headers of
-- the scan, so they are all enabled. What describes the build stands beside
-- them. The names of all these have to be read as they stand.
import CompileCommands.Proofs.ProjectTree.Collecting
import CompileCommands.Proofs.ProjectTree.PartFiles

namespace CompileCommands

namespace Folder

/-! ## Files that describe the build -/

/-- The node of a file that describes the build. -/
def marker (path : Path) : FileNode := ⟨path, .project, true⟩

/-- The folder holds some files beside the children of another one. -/
def HoldsBeside (g : Folder) (files : List FileNode) (f : Folder) : Prop :=
  NamesInOrder g.children ∧ ∃ more : List (String × Node),
    more.map Prod.snd = files.map Node.file ∧ g.children.Perm (more ++ f.children)

theorem HoldsBeside.files_perm {f g : Folder} {files : List FileNode} (h : g.HoldsBeside files f) :
    g.files.Perm (files ++ f.files) := by
  obtain ⟨-, more, hmore, hchildren⟩ := h
  have hfiles := filesOfEach_perm hchildren
  rw [filesOfEach_eq, filesOfEach_eq, nodesOf, nodesOf, List.map_append, hmore,
    List.flatMap_append, ← nodesOf, ← nodesOf, ← filesOfEach_eq, ← filesOfEach_eq] at hfiles
  rw [files_eq, files_eq]
  have hself : (files.map Node.file).flatMap Node.files = files := by
    rw [List.flatMap_map]
    exact List.flatMap_singleton' files
  rwa [hself] at hfiles

section Markers

variable {f : Folder} {m : Path}

/-- A marker stands under its name, or under its text if the name is taken. -/
theorem IsOrdered.addMarker (h : f.IsOrdered) (hfree : f.child? m.text = none) :
    (f.addMarker m).IsOrdered ∧ ∃ name, (name = m.displayName ∨ name = m.text) ∧
      (f.addMarker m).children.Perm ((name, .file (marker m)) :: f.children) := by
  unfold Folder.addMarker Folder.addChild
  split
  · exact ⟨h.put (.file _), m.text, .inr rfl, h.children_put hfree _⟩
  · rename_i hname
    exact ⟨h.put (.file _), m.displayName, .inl rfl, h.children_put (by simpa using hname) _⟩

/-- The text of a marker stays free when another one is added. -/
theorem child?_addMarker {other : Path} (hfree : f.child? other.text = none)
    (habsolute : other.isAbsolute = true) (hne : m ≠ other) :
    (f.addMarker m).child? other.text = none := by
  have htext : other.text ≠ m.text := fun heq => hne (congrArg Path.mk heq.symm)
  unfold Folder.addMarker addChild
  split
  · exact (child?_put f _ _ _).trans ((if_neg htext).trans hfree)
  · refine (child?_put f _ _ _).trans ((if_neg fun heq => ?_).trans hfree)
    rcases m.displayName_cases with hplain | hname
    · exact hplain (heq ▸ Path.slash_mem_of_isAbsolute habsolute)
    · exact htext (heq.trans hname)

theorem IsOrdered.addMarkers (h : f.IsOrdered) {markers : List Path} (hdistinct : markers.Nodup)
    (habsolute : ∀ m ∈ markers, m.isAbsolute = true)
    (hfree : ∀ m ∈ markers, f.child? m.text = none) :
    (markers.foldl Folder.addMarker f).HoldsBeside (markers.map marker) f := by
  induction markers generalizing f with
  | nil => exact ⟨(isOrdered_iff.mp h).1, [], rfl, List.Perm.refl _⟩
  | cons m markers ih =>
    obtain ⟨hm, hrest⟩ := List.nodup_cons.mp hdistinct
    obtain ⟨hmfree, hfree⟩ := List.forall_mem_cons.mp hfree
    obtain ⟨-, habsolute⟩ := List.forall_mem_cons.mp habsolute
    obtain ⟨hordered, name, -, hchildren⟩ := h.addMarker hmfree
    obtain ⟨hnames, more, hmore, hperm⟩ := ih hordered hrest habsolute fun other hother =>
      child?_addMarker (hfree other hother) (habsolute other hother) fun heq => hm (heq ▸ hother)
    refine ⟨hnames, (name, .file (marker m)) :: more, ?_, ?_⟩
    · rw [List.map_cons, hmore]
      rfl
    · exact (hperm.trans (hchildren.append_left more)).trans List.perm_middle

end Markers

end Folder

/-! ## One root -/

theorem FileType.ofPartFile_congr {p q : Path} (h : p.same q = true) :
    ofPartFile p = ofPartFile q := by
  unfold ofPartFile SourceKind.ofPath Path.extension? Path.fileName?
  rw [beq_iff_eq.mp h]

namespace TreeRoots

/-- A header that is only found by a scan. -/
def foundHeader (file : Path) : FileNode := ⟨file, .header, false⟩

/-- Files that call for no further root come to the main one. -/
theorem foldl_addPartFile_main [Reading] {root : Path} {placed : List (Path × Path)}
    (hone : ∀ target p, (target, p) ∈ placed → p.isBelow root = false → p.isBelow target = false)
    (f : Folder) :
    placed.foldl (fun roots x => addPartFile root x.1 roots x.2) ⟨f, []⟩ =
      ⟨f.addFiles (((placed.map Prod.snd).filter (·.isBelow root)).map partFile), []⟩ := by
  induction placed generalizing f with
  | nil => rfl
  | cons x placed ih =>
    obtain ⟨target, p⟩ := x
    have hrest := ih fun t q hq => hone t q (List.mem_cons_of_mem _ hq)
    cases hp : p.isBelow root with
    | true =>
      simp only [List.foldl_cons, List.map_cons, List.filter_cons, addPartFile, hp, if_true]
      exact hrest _
    | false =>
      have htarget := hone target p List.mem_cons_self hp
      simp only [List.foldl_cons, List.map_cons, List.filter_cons, addPartFile, hp, htarget,
        Bool.false_eq_true, if_false]
      exact hrest f

theorem foldl_addScanned_eq [Reading] (root : Path) (scanned : List ScannedFile) (f : Folder) :
    scanned.foldl (addScanned root) f = f.addFiles
      ((scanned.filter fun s => s.fileType = .header ∧ s.path.isBelow root).map
        fun s => foundHeader s.path) := by
  unfold Folder.addFiles
  rw [List.foldl_map, List.foldl_filter]
  simp only [decide_eq_true_eq]
  rfl

end TreeRoots

namespace TreeInputs

/-- What lies below the root, in the order in which it is added: the files of
the parts, then the headers of the scan. -/
def candidates (inputs : TreeInputs) : List FileNode :=
  (inputs.partFiles.filter (·.isBelow inputs.root)).map TreeRoots.partFile ++
    (inputs.scanned.filter fun s => s.fileType = .header ∧ s.path.isBelow inputs.root).map
      fun s => TreeRoots.foundHeader s.path

/-- What lies below the root is named without `..` from there, and none of it
lies below another one. No file calls for a root of its own. -/
structure HasOneRoot (inputs : TreeInputs) : Prop where
  named : ∀ x ∈ inputs.candidates, ∀ c ∈ x.path.components.drop inputs.root.components.length,
    c.name?.isSome = true
  apart : ∀ x ∈ inputs.candidates, ∀ y ∈ inputs.candidates, x.path.isBelow y.path = false
  oneRoot : ∀ part ∈ inputs.parts, ∀ p ∈ part.files.toList,
    p.isBelow inputs.root = false → p.isBelow part.target = false
  absolute : inputs.database.isAbsolute = true ∧ inputs.extrasSource.isAbsolute = true
  distinct : inputs.database ≠ inputs.extrasSource

/-- What is put into the tree is called by names that are read as they stand. -/
structure IsRead [Reading] (inputs : TreeInputs) : Prop where
  names : ∀ x ∈ inputs.candidates, x.path.IsReadFrom inputs.root
  database : inputs.database.IsRead
  extrasSource : inputs.extrasSource.IsRead

/-- The files are those of the parts and the headers of the scan, as far as
they lie below the root, each place once. What a part names is enabled. -/
structure Contents (inputs : TreeInputs) (files : List FileNode) : Prop where
  once : files.Pairwise fun x y => x.path.same y.path = false
  compiled : ∀ p ∈ inputs.partFiles, p.isBelow inputs.root = true →
    ∃ x ∈ files, x.path.same p = true ∧ x.fileType = .ofPartFile p ∧ x.enabled = true
  found : ∀ s ∈ inputs.scanned, s.fileType = .header → s.path.isBelow inputs.root = true →
    (∀ p ∈ inputs.partFiles, p.same s.path = false) →
      ∃ x ∈ files, x.path.same s.path = true ∧ x.fileType = .header ∧ x.enabled = false
  only : ∀ x ∈ files, x.path.isBelow inputs.root = true ∧
    ((∃ p ∈ inputs.partFiles, x = ⟨p, .ofPartFile p, true⟩) ∨
      (∃ s ∈ inputs.scanned, s.fileType = .header ∧ x = ⟨s.path, .header, false⟩) ∧
        ∀ p ∈ inputs.partFiles, p.same x.path = false)

/-- The tree without the files that describe the build. -/
def unmarked [Reading] (inputs : TreeInputs) : Folder := inputs.allRoots.top inputs.root

section OneRoot

variable {inputs : TreeInputs}

theorem map_snd_placed (inputs : TreeInputs) : inputs.placed.map Prod.snd = inputs.partFiles := by
  unfold placed partFiles
  rw [List.map_flatMap]
  simp [Function.comp_def]

theorem mem_candidates {x : FileNode} : x ∈ inputs.candidates ↔
    (∃ p ∈ inputs.partFiles, p.isBelow inputs.root = true ∧ TreeRoots.partFile p = x) ∨
      ∃ s ∈ inputs.scanned, s.fileType = .header ∧ s.path.isBelow inputs.root = true ∧
        TreeRoots.foundHeader s.path = x := by
  simp [candidates, and_assoc]

theorem HasOneRoot.unmarked_eq [Reading] (h : inputs.HasOneRoot) :
    inputs.unmarked = (Folder.ofPath inputs.root).addFiles inputs.candidates := by
  have hone : ∀ target p, (target, p) ∈ inputs.placed → p.isBelow inputs.root = false →
      p.isBelow target = false := by
    intro target p hp
    obtain ⟨part, hpart, hp⟩ := List.mem_flatMap.mp hp
    obtain ⟨q, hq, heq⟩ := List.mem_map.mp hp
    cases heq
    exact h.oneRoot part hpart p hq
  have hroots := TreeRoots.foldl_addPartFile_main hone (.ofPath inputs.root)
  rw [← roots_eq, map_snd_placed] at hroots
  unfold unmarked allRoots
  rw [hroots, TreeRoots.top, TreeRoots.foldl_addScanned_eq]
  unfold Folder.addFiles candidates
  rw [List.foldl_append]

theorem HasOneRoot.exists_leads (h : inputs.HasOneRoot) {x : FileNode}
    (hx : x ∈ inputs.candidates) : ∃ dirs name, inputs.root.Leads (dirs ++ [name]) x.path := by
  have hbelow : x.path.isBelow inputs.root = true := by
    rcases mem_candidates.mp hx with ⟨p, -, hp, rfl⟩ | ⟨s, -, -, hs, rfl⟩
    · exact hp
    · exact hs
  exact Path.exists_leads_of_names hbelow fun c hc => Component.exists_name (h.named x hx c hc)

section Read

variable [Reading] (h : inputs.HasOneRoot) (hread : inputs.IsRead)
include h hread

theorem HasOneRoot.collects : inputs.unmarked.Collects inputs.candidates := by
  have hnamed : ∀ x ∈ inputs.candidates, x.path.IsNamedFrom inputs.root := by
    intro x hx
    obtain ⟨dirs, name, hleads⟩ := h.exists_leads hx
    exact hleads.isNamedFrom
  have hfolder := Folder.named_collects inputs.root inputs.root.displayName
  rw [h.unmarked_eq, Folder.addFiles_unicode (f := .ofPath inputs.root) hread.names hnamed]
  exact hfolder.addFiles (fun x hx => h.exists_leads hx) h.apart

/-- What a part names stands as a part has it: the files of the parts come
before the headers of the scan. -/
theorem HasOneRoot.listed_part {x : FileNode}
    (hx : x ∈ inputs.unmarked.files) {p : Path} (hp : p ∈ inputs.partFiles)
    (hbelow : p.isBelow inputs.root = true) (hsame : p.same x.path = true) :
    ∃ q ∈ inputs.partFiles, x = TreeRoots.partFile q := by
  have hfirst := ((h.collects hread).listed x).mp hx
  rw [candidates, List.find?_append, Option.or_eq_some_iff] at hfirst
  rcases hfirst with hfirst | ⟨hnone, -⟩
  · obtain ⟨q, hq, rfl⟩ := List.mem_map.mp (List.mem_of_find?_eq_some hfirst)
    exact ⟨q, (List.mem_filter.mp hq).1, rfl⟩
  · have hpart : TreeRoots.partFile p ∈
        (inputs.partFiles.filter (·.isBelow inputs.root)).map TreeRoots.partFile :=
      List.mem_map_of_mem (List.mem_filter.mpr ⟨hp, hbelow⟩)
    exact absurd hsame (List.find?_eq_none.mp hnone _ hpart)

theorem HasOneRoot.contents : inputs.Contents inputs.unmarked.files where
  once := (h.collects hread).once
  compiled p hp hbelow := by
    obtain ⟨x, hx, hsame⟩ :=
      (h.collects hread).exists_listed (mem_candidates.mpr (.inl ⟨p, hp, hbelow, rfl⟩))
    obtain ⟨q, -, rfl⟩ := h.listed_part hread hx hp hbelow (Path.same_symm hsame)
    exact ⟨_, hx, hsame, FileType.ofPartFile_congr hsame, rfl⟩
  found s hs hheader hbelow hunnamed := by
    obtain ⟨x, hx, hsame⟩ :=
      (h.collects hread).exists_listed (mem_candidates.mpr (.inr ⟨s, hs, hheader, hbelow, rfl⟩))
    rcases mem_candidates.mp ((h.collects hread).mem_added hx) with
      ⟨p, hp, -, rfl⟩ | ⟨t, -, -, -, rfl⟩
    · exact absurd (show p.same s.path = true from hsame) (by simp [hunnamed p hp])
    · exact ⟨_, hx, hsame, rfl, rfl⟩
  only x hx := by
    rcases mem_candidates.mp ((h.collects hread).mem_added hx) with
      ⟨p, hp, hbelow, rfl⟩ | ⟨s, hs, hheader, hbelow, rfl⟩
    · exact ⟨hbelow, .inl ⟨p, hp, rfl⟩⟩
    · refine ⟨hbelow, .inr ⟨⟨s, hs, hheader, rfl⟩, fun p hp => ?_⟩⟩
      refine Bool.eq_false_iff.mpr fun hsame => ?_
      have hpbelow : p.isBelow inputs.root = true := (Path.isBelow_congr hsame _).trans hbelow
      obtain ⟨q, -, hq⟩ := h.listed_part hread hx hp hpbelow hsame
      cases congrArg FileNode.enabled hq

theorem HasOneRoot.markers (fs : FileSystem) :
    (Folder.ofInputs fs inputs).HoldsBeside ((inputs.markers fs).map Folder.marker)
      inputs.unmarked := by
  have hmarkers : ∀ m ∈ inputs.markers fs, m.IsRead :=
    forall_mem_markers hread.database hread.extrasSource fs
  have habsolute : ∀ m ∈ inputs.markers fs, m.isAbsolute = true :=
    forall_mem_markers h.absolute.1 h.absolute.2 fs
  rw [ofInputs_eq, Folder.foldl_addMarker_unicode hmarkers]
  refine (h.collects hread).ordered.addMarkers ?_ habsolute fun m hm => ?_
  · unfold TreeInputs.markers
    split
    · simpa using h.distinct
    · simp
  · -- No name below the root has a slash in it.
    cases hchild : inputs.unmarked.child? m.text with
    | none => rfl
    | some node =>
      exact absurd (Path.slash_mem_of_isAbsolute (habsolute m hm))
        ((h.collects hread).confined.hasPlainNames _ node hchild)

end Read

/-- A tree with one root has the files of the parts and the headers of the scan
below that root, and beside them, in the top folder, the files that describe
the build. Their names have to be read as they stand. -/
theorem contents_of_hasOneRoot [Reading] (h : inputs.HasOneRoot) (hread : inputs.IsRead)
    (fs : FileSystem) :
    inputs.Contents inputs.unmarked.files ∧
      (Folder.ofInputs fs inputs).files.Perm
        ((inputs.markers fs).map Folder.marker ++ inputs.unmarked.files) ∧
      (Folder.ofInputs fs inputs).HoldsBeside ((inputs.markers fs).map Folder.marker)
        inputs.unmarked :=
  ⟨h.contents hread, (h.markers hread fs).files_perm, h.markers hread fs⟩

end OneRoot

/-- Two parts that share a file, one of them with the database among its files,
and a scan that finds a header twice and one that a part names. -/
def overlapping : TreeInputs where
  root := ⟨"/p"⟩
  database := ⟨"/p/compile_commands.json"⟩
  extrasSource := ⟨"/p/compile_commands.json.files"⟩
  parts := [
    ⟨⟨"/p"⟩, ⟨"/p/build"⟩, "",
      .ofList [⟨"/p/src/main.cpp"⟩, ⟨"/p/src/api.h"⟩], [], [], none, none⟩,
    ⟨⟨"/p"⟩, ⟨"/p/build"⟩, "",
      .ofList [⟨"/p/src/./api.h"⟩, ⟨"/p/compile_commands.json"⟩, ⟨"/q/y.c"⟩], [], [], none, none⟩]
  scanned := [⟨⟨"/p/src/util.h"⟩, .header⟩, ⟨⟨"/p//src/util.h"⟩, .header⟩,
    ⟨⟨"/p/src/api.h"⟩, .header⟩, ⟨⟨"/p/README.md"⟩, .unknown⟩]

/-- A file system in which there is nothing but the list of extra files. -/
def extrasOnly : FileSystem where
  root := .directory [("p", .directory [("compile_commands.json.files", .file [])])]
  workingDirectory := none

theorem contents_overlapping : overlapping.HasOneRoot ∧ @IsRead .lossy overlapping ∧
    overlapping.Contents (@unmarked .lossy overlapping).files ∧
    (@Folder.ofInputs .lossy extrasOnly overlapping).files.Perm
      ((overlapping.markers extrasOnly).map Folder.marker ++
        (@unmarked .lossy overlapping).files) ∧
    (@Folder.ofInputs .lossy extrasOnly overlapping).HoldsBeside
      ((overlapping.markers extrasOnly).map Folder.marker) (@unmarked .lossy overlapping) := by
  have h : overlapping.HasOneRoot :=
    ⟨by decide +kernel, by decide +kernel, by decide +kernel, by decide +kernel, by decide +kernel⟩
  have hunicode : ∀ x ∈ overlapping.candidates, Reading.IsUnicode x.path.text := by
    decide +kernel
  have hread : @IsRead .lossy overlapping :=
    @IsRead.mk .lossy _ (fun x hx => Path.isReadFrom_lossy (hunicode x hx) _)
      (Path.isRead_lossy (by decide +kernel)) (Path.isRead_lossy (by decide +kernel))
  exact ⟨h, hread, @contents_of_hasOneRoot _ .lossy h hread extrasOnly⟩

/-- A scan that finds two headers, each of them called by one byte that is no
character. -/
def strayHeaders : TreeInputs where
  root := ⟨"/p"⟩
  database := ⟨"/p/compile_commands.json"⟩
  extrasSource := ⟨"/p/compile_commands.json.files"⟩
  parts := []
  scanned := [⟨strayPath 0xFF, .header⟩, ⟨strayPath 0xFE, .header⟩]

/-- A file that is compiled where the empty path is the root. -/
def emptyRoot : TreeInputs where
  root := ⟨""⟩
  database := ⟨"/p/compile_commands.json"⟩
  extrasSource := ⟨"/p/compile_commands.json.files"⟩
  parts := [⟨⟨"/p"⟩, ⟨""⟩, "", .ofList [⟨"a.c"⟩], [], [], none, none⟩]
  scanned := []

/-- Of two headers that are read alike, one is left out. Below the empty root
there is nothing, though each relative path starts with it. -/
theorem contents_depends_on_names_and_root :
    (strayHeaders.HasOneRoot ∧ ¬ strayHeaders.Contents (@unmarked .lossy strayHeaders).files) ∧
    emptyRoot.HasOneRoot ∧ emptyRoot.partFiles = [⟨"a.c"⟩] ∧
      Path.startsWith ⟨"a.c"⟩ emptyRoot.root = true ∧ emptyRoot.unmarked.files = [] := by
  have hstray : strayHeaders.HasOneRoot :=
    ⟨by decide +kernel, by decide +kernel, by decide +kernel, by decide +kernel, by decide +kernel⟩
  have hempty : emptyRoot.HasOneRoot :=
    ⟨by decide +kernel, by decide +kernel, by decide +kernel, by decide +kernel, by decide +kernel⟩
  have hfiles : (@unmarked .lossy strayHeaders).files = [⟨strayPath 0xFF, .header, false⟩] := by
    decide +kernel
  refine ⟨⟨hstray, fun hcontents => ?_⟩, hempty, by decide +kernel, by decide +kernel,
    by decide +kernel⟩
  obtain ⟨x, hx, hsame, -⟩ := hcontents.found ⟨strayPath 0xFE, .header⟩ (by decide +kernel) rfl
    (by decide +kernel) (by decide +kernel)
  rw [hfiles] at hx
  rw [List.mem_singleton.mp hx] at hsame
  exact absurd hsame (by decide +kernel)

end TreeInputs

end CompileCommands
