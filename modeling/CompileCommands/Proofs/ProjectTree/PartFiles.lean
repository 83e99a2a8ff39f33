-- The files of the parts in the tree. A further root stands under the text of
-- its directory in the folder around all roots, and the main root under its
-- own name. So all files are shown unless a further root takes that name.
import CompileCommands.Proofs.ProjectTree.Roots

namespace CompileCommands

/-! ## Files under a name -/

namespace Folder

/-- The file is shown somewhere under a name. -/
def ShowsUnder (f : Folder) (name : String) (p : Path) : Prop :=
  ∃ node, f.child? name = some node ∧ ∃ x ∈ node.files, x.path.same p = true ∧ x.enabled = true

variable {f : Folder} {name : String} {p : Path}

theorem ShowsUnder.exists_file (h : f.ShowsUnder name p) :
    ∃ x ∈ f.files, x.path.same p = true ∧ x.enabled = true := by
  obtain ⟨node, hchild, x, hx, hsame⟩ := h
  exact ⟨x, mem_files_of_child? hchild hx, hsame⟩

/-- A file that stands in a folder stands under a plain name. -/
theorem Shows.showsUnder (h : f.Shows p) (hnames : f.HasPlainNames) :
    ∃ name, '/' ∉ name.toList ∧ f.ShowsUnder name p := by
  obtain ⟨names, x, hleads, hlabel, hx⟩ := h
  cases names with
  | nil => cases hlabel
  | cons name rest =>
    obtain ⟨node, hchild, hlabel⟩ := Option.bind_eq_some_iff.mp hlabel
    exact ⟨name, hnames name node hchild, node, hchild, x, Node.mem_files_of_labelAt? hlabel, hx⟩

/-- A marker displaces nothing but what stands under its own text. -/
theorem ShowsUnder.addMarker (h : f.ShowsUnder name p) {marker : Path} (hne : name ≠ marker.text) :
    (f.addMarker marker).ShowsUnder name p := by
  obtain ⟨node, hchild, hx⟩ := h
  refine ⟨node, ?_, hx⟩
  unfold Folder.addMarker addChild
  split
  · have htext : name ≠ Reading.read (Node.file ⟨marker, .project, true⟩).path.text := hne
    rw [child?_put, if_neg htext, hchild]
  · rename_i hfree
    have hother : name ≠ marker.displayName := by
      rintro rfl
      exact hfree (by rw [hchild]; rfl)
    rw [child?_put, if_neg hother, hchild]

theorem ShowsUnder.addMarkers (h : f.ShowsUnder name p) {markers : List Path}
    (hne : ∀ m ∈ markers, name ≠ m.text) :
    (markers.foldl Folder.addMarker f).ShowsUnder name p := by
  induction markers generalizing f with
  | nil => exact h
  | cons m markers ih =>
    obtain ⟨hm, hmarkers⟩ := List.forall_mem_cons.mp hne
    exact ih (h.addMarker hm) hmarkers

theorem mem_files_addMarkers {markers : List Path} {x : FileNode}
    (h : x ∈ (markers.foldl addMarker f).files) : x ∈ f.files ∨ x.path ∈ markers := by
  induction markers generalizing f with
  | nil => exact .inl h
  | cons m markers ih =>
    rcases ih h with h | h
    · have hput : x ∈ (Node.file ⟨m, .project, true⟩).files ∨ x ∈ f.files := by
        unfold addMarker addChild at h
        split at h <;> exact mem_files_put h
      rcases hput with hx | hx
      · rw [Node.files, List.mem_singleton] at hx
        rw [hx]
        exact .inr List.mem_cons_self
      · exact .inl hx
    · exact .inr (List.mem_cons_of_mem m h)

/-! ## Scanned files -/

section Scanned

variable {root : Path} {scanned : List ScannedFile}

theorem addScanned_cases (root : Path) (f : Folder) (s : ScannedFile) :
    TreeRoots.addScanned root f s = f ∨ s.path.isBelow root = true ∧
      TreeRoots.addScanned root f s = (f.addFile ⟨s.path, .header, false⟩).2 := by
  unfold TreeRoots.addScanned
  split
  · rename_i h
    exact .inr ⟨h.2, rfl⟩
  · exact .inl rfl

/-- Scanned headers leave what is shown and what the folder is called. -/
theorem foldl_addScanned (hparent : ∀ s ∈ scanned, .parent ∉ s.path.components)
    (hpath : f.path = root) (hnames : f.HasPlainNames) :
    (scanned.foldl (TreeRoots.addScanned root) f).path = root ∧
      (scanned.foldl (TreeRoots.addScanned root) f).displayName = f.displayName ∧
      (scanned.foldl (TreeRoots.addScanned root) f).HasPlainNames ∧
      ∀ p, f.Shows p → (scanned.foldl (TreeRoots.addScanned root) f).Shows p := by
  induction scanned generalizing f with
  | nil => exact ⟨hpath, rfl, hnames, fun p h => h⟩
  | cons s scanned ih =>
    obtain ⟨hs, hscanned⟩ := List.forall_mem_cons.mp hparent
    rw [List.foldl_cons]
    rcases addScanned_cases root f s with hsame | ⟨hbelow, hadd⟩
    · rw [hsame]
      exact ih hscanned hpath hnames
    · rw [hadd]
      have hlabel := addFile_label f ⟨s.path, .header, false⟩
      have hbelow' : s.path.isBelow f.path = true := hpath ▸ hbelow
      obtain ⟨h1, h2, h3, h4⟩ := ih hscanned (hlabel.1.trans hpath) (hnames.addFile hbelow' hs)
      exact ⟨h1, h2.trans hlabel.2, h3, fun p hp => h4 p (hp.addFile _)⟩

end Scanned

/-! ## The folder around all roots -/

theorem addChild_text (f g : Folder) :
    f.addChild g.path.text g.toNode = f.put g.path.text g.toNode := by
  unfold addChild
  split <;> rfl

/-- The last further root of a text stands under that text. -/
theorem child?_foldl_addChild (further : List Folder) (f : Folder) (name : String) :
    (∃ g ∈ further, g.path.text = name ∧
        (further.foldl (fun top g => top.addChild g.path.text g.toNode) f).child? name =
          some g.toNode) ∨
      (∀ g ∈ further, g.path.text ≠ name) ∧
        (further.foldl (fun top g => top.addChild g.path.text g.toNode) f).child? name =
          f.child? name := by
  induction further generalizing f with
  | nil => exact .inr ⟨nofun, rfl⟩
  | cons g further ih =>
    rw [List.foldl_cons, addChild_text]
    rcases ih (f.put g.path.text g.toNode) with ⟨g', hg', htext, hchild⟩ | ⟨hnone, hchild⟩
    · exact .inl ⟨g', List.mem_cons_of_mem g hg', htext, hchild⟩
    · rw [child?_put] at hchild
      by_cases hname : g.path.text = name
      · rw [if_pos hname.symm] at hchild
        exact .inl ⟨g, List.mem_cons_self, hname, hchild⟩
      · rw [if_neg (Ne.symm hname)] at hchild
        exact .inr ⟨List.forall_mem_cons.mpr ⟨hname, hnone⟩, hchild⟩

theorem foldl_addChild_namesInOrder {further : List Folder} (h : NamesInOrder f.children) :
    NamesInOrder (further.foldl (fun top g => top.addChild g.path.text g.toNode) f).children := by
  induction further generalizing f with
  | nil => exact h
  | cons g further ih =>
    rw [List.foldl_cons, addChild_text]
    exact ih (setChild_namesInOrder h)

end Folder

theorem TreeRoots.top_of_ne_nil {root : Path} {roots : TreeRoots} (h : roots.further ≠ []) :
    roots.top root = roots.further.foldl (fun top g => top.addChild g.path.text g.toNode)
      ((Folder.ofPath root).put roots.main.displayName roots.main.toNode) := by
  unfold TreeRoots.top
  split
  · exact absurd ‹_› h
  · rfl

/-! ## The files of the parts -/

namespace TreeInputs

/-- The files that describe the build, as far as they are there. -/
def markers (fs : FileSystem) (inputs : TreeInputs) : List Path :=
  inputs.database :: if fs.isFile inputs.extrasSource then [inputs.extrasSource] else []

theorem forall_mem_markers {P : Path → Prop} {inputs : TreeInputs} (hdatabase : P inputs.database)
    (hextras : P inputs.extrasSource) (fs : FileSystem) : ∀ m ∈ inputs.markers fs, P m := by
  unfold markers
  refine List.forall_mem_cons.mpr ⟨hdatabase, ?_⟩
  split
  · exact List.forall_mem_singleton.mpr hextras
  · exact List.forall_mem_nil P

def partFiles (inputs : TreeInputs) : List Path := inputs.parts.flatMap (·.files.toList)

/-- Files are named without `..`, and none lies below another one. -/
structure IsPlain (fs : FileSystem) (inputs : TreeInputs) : Prop where
  noParent : ∀ p ∈ inputs.partFiles, .parent ∉ p.components
  scannedNoParent : ∀ s ∈ inputs.scanned, .parent ∉ s.path.components
  apart : ∀ p ∈ inputs.partFiles, ∀ q ∈ inputs.partFiles, p.isBelow q = false
  absolute : ∀ m ∈ inputs.markers fs, m.isAbsolute = true
  clear : ∀ m ∈ inputs.markers fs, ∀ p ∈ inputs.partFiles, p.same m = false ∧ p.isBelow m = false

/-- Each file that lies below the root or below the directory of its part is
shown, and is enabled. -/
def KeepsPartFiles (fs : FileSystem) (inputs : TreeInputs) : Prop :=
  ∀ part ∈ inputs.parts, ∀ p ∈ part.files.toList,
    p.isBelow inputs.root = true ∨ p.isBelow part.target = true →
      ∃ x ∈ (Folder.ofInputs fs inputs).files, x.path.same p = true ∧ x.enabled = true

section PartFiles

variable {fs : FileSystem} {inputs : TreeInputs}

/-- The roots with what the scan found. -/
def allRoots [Reading] (inputs : TreeInputs) : TreeRoots :=
  { inputs.roots with
    main := inputs.scanned.foldl (TreeRoots.addScanned inputs.root) inputs.roots.main }

theorem ofInputs_eq [Reading] (fs : FileSystem) (inputs : TreeInputs) : Folder.ofInputs fs inputs =
    (inputs.markers fs).foldl Folder.addMarker (inputs.allRoots.top inputs.root) := by
  unfold Folder.ofInputs markers
  simp only
  split <;> rfl

theorem mem_partFiles {target p : Path} (h : (target, p) ∈ inputs.placed) :
    p ∈ inputs.partFiles := by
  obtain ⟨part, hpart, hp⟩ := List.mem_flatMap.mp h
  obtain ⟨q, hq, heq⟩ := List.mem_map.mp hp
  cases heq
  exact List.mem_flatMap.mpr ⟨part, hpart, hq⟩

theorem IsPlain.built (h : inputs.IsPlain fs) :
    TreeRoots.Built inputs.root inputs.placed inputs.roots :=
  inputs.roots_built (fun _ q hq => h.noParent q (mem_partFiles hq))
    fun _ q _ q' hq hq' => h.apart q (mem_partFiles hq) q' (mem_partFiles hq')

theorem IsPlain.scanned (h : inputs.IsPlain fs) :
    inputs.allRoots.main.displayName = inputs.root.displayName ∧
      inputs.allRoots.main.HasPlainNames ∧
      ∀ p, inputs.roots.main.Shows p → inputs.allRoots.main.Shows p := by
  have hbuilt := h.built
  obtain ⟨-, hname, hnames, hshows⟩ :=
    Folder.foldl_addScanned h.scannedNoParent hbuilt.main_label.1 hbuilt.names
  exact ⟨hname.trans hbuilt.main_label.2, hnames, hshows⟩

/-- A file of the main root is shown if no further root takes its name. -/
theorem IsPlain.main_shown (h : inputs.IsPlain fs) {p : Path}
    (hp : TreeRoots.MainFile inputs.root inputs.placed p)
    (hfree : ∀ f ∈ inputs.roots.further, f.path.text ≠ inputs.root.displayName) :
    ∃ name, (inputs.allRoots.top inputs.root).ShowsUnder name p ∧
      ∀ m ∈ inputs.markers fs, name ≠ m.text := by
  obtain ⟨hname, hnames, hshows⟩ := h.scanned
  have hshown := hshows p (h.built.main.complete p hp)
  have hslash : ∀ m ∈ inputs.markers fs, '/' ∈ m.text.toList :=
    fun m hm => Path.slash_mem_of_isAbsolute (h.absolute m hm)
  by_cases hfurther : inputs.allRoots.further = []
  · have htop : inputs.allRoots.top inputs.root = inputs.allRoots.main := by
      unfold TreeRoots.top
      rw [hfurther]
    obtain ⟨name, hplain, hunder⟩ := hshown.showsUnder hnames
    refine ⟨name, htop.symm ▸ hunder, fun m hm heq => ?_⟩
    exact hplain (heq ▸ hslash m hm)
  · refine ⟨inputs.root.displayName, ?_, fun m hm heq => ?_⟩
    · rw [TreeRoots.top_of_ne_nil hfurther, hname]
      refine ⟨inputs.allRoots.main.toNode, ?_, hshown.exists_file⟩
      rcases Folder.child?_foldl_addChild inputs.allRoots.further ((Folder.ofPath inputs.root).put
        inputs.root.displayName inputs.allRoots.main.toNode) inputs.root.displayName with
        ⟨g, hg, htext, -⟩ | ⟨-, hchild⟩
      · exact absurd htext (hfree g hg)
      · rw [hchild, Folder.child?_put, if_pos rfl]
    · rcases inputs.root.displayName_cases with hplain | htext
      · exact hplain (heq ▸ hslash m hm)
      · obtain ⟨target, hplaced, hbelow⟩ := hp
        have hroot : inputs.root = m := congrArg Path.mk (htext.symm.trans heq)
        have hclear := (h.clear m hm p (mem_partFiles hplaced)).2
        rw [← hroot, hbelow] at hclear
        cases hclear

/-- A file of a further root is always shown. -/
theorem IsPlain.further_shown (h : inputs.IsPlain fs) {target p : Path}
    (hp : (target, p) ∈ inputs.placed) (hout : p.isBelow inputs.root = false)
    (hin : p.isBelow target = true) :
    ∃ name, (inputs.allRoots.top inputs.root).ShowsUnder name p ∧
      ∀ m ∈ inputs.markers fs, name ≠ m.text := by
  have hbuilt := h.built
  obtain ⟨f, hf, hsame⟩ := hbuilt.covered target p hp hout hin
  refine ⟨f.path.text, ?_, fun m hm heq => ?_⟩
  · have hfurther : inputs.allRoots.further ≠ [] := List.ne_nil_of_mem hf
    rw [TreeRoots.top_of_ne_nil hfurther]
    rcases Folder.child?_foldl_addChild inputs.allRoots.further ((Folder.ofPath inputs.root).put
      inputs.allRoots.main.displayName inputs.allRoots.main.toNode) f.path.text with
      ⟨g, hg, htext, hchild⟩ | ⟨hnone, -⟩
    · have hpath : g.path = f.path := congrArg Path.mk htext
      have hshown := (hbuilt.further g hg).complete p ⟨target, hp, hout, hin, hpath.symm ▸ hsame⟩
      exact ⟨g.toNode, hchild, hshown.exists_file⟩
    · exact absurd rfl (hnone f hf)
  · have hmarker : f.path = m := congrArg Path.mk heq
    have hclear := (h.clear m hm p (mem_partFiles hp)).2
    rw [← hmarker, Path.isBelow_of_same (Path.same_symm hsame) hin] at hclear
    cases hclear

/-- A further root that takes the name of the main root displaces it. -/
theorem IsPlain.main_lost (h : inputs.IsPlain fs) {f : Folder} (hf : f ∈ inputs.roots.further)
    (htext : f.path.text = inputs.root.displayName) {x : FileNode}
    (hx : x ∈ (inputs.allRoots.top inputs.root).files) : x.path.isBelow inputs.root = false := by
  have hordered : NamesInOrder ((Folder.ofPath inputs.root).put
      inputs.allRoots.main.displayName inputs.allRoots.main.toNode).children :=
    setChild_namesInOrder List.Pairwise.nil
  have hfurther : inputs.allRoots.further ≠ [] := List.ne_nil_of_mem hf
  rw [TreeRoots.top_of_ne_nil hfurther] at hx
  obtain ⟨⟨name, node⟩, hchild, hnode⟩ := Folder.mem_files.mp hx
  have hlookup := (Folder.foldl_addChild_namesInOrder hordered).lookup hchild
  rcases Folder.child?_foldl_addChild inputs.allRoots.further ((Folder.ofPath inputs.root).put
    inputs.allRoots.main.displayName inputs.allRoots.main.toNode) name with
    ⟨g, hg, -, hfound⟩ | ⟨hnone, hfound⟩
  · have hgnode : node = g.toNode := Option.some.inj (hlookup.symm.trans hfound)
    rw [hgnode, ← Folder.files_eq] at hnode
    exact h.built.outside g hg x hnode
  · have hother : name ≠ inputs.allRoots.main.displayName := by
      rintro rfl
      exact hnone f hf (htext.trans h.scanned.1.symm)
    have hgone := hlookup.symm.trans hfound
    rw [Folder.child?_put, if_neg hother] at hgone
    cases hgone

/-- No file of a part is lost, unless there are files below the main root and a
further root is called as the main root is shown. -/
theorem keepsPartFiles_iff (h : inputs.IsPlain fs) : inputs.KeepsPartFiles fs ↔
    ∀ p ∈ inputs.partFiles, p.isBelow inputs.root = true →
      ∀ f ∈ inputs.roots.further, f.path.text ≠ inputs.root.displayName := by
  constructor
  · intro hkeeps p hp hbelow f hf htext
    obtain ⟨part, hpart, hmem⟩ := List.mem_flatMap.mp hp
    obtain ⟨x, hx, hsame, -⟩ := hkeeps part hpart p hmem (.inl hbelow)
    rw [ofInputs_eq] at hx
    rcases Folder.mem_files_addMarkers hx with hx | hx
    · have hout := h.main_lost hf htext hx
      rw [Path.isBelow_congr hsame, hbelow] at hout
      cases hout
    · have hclear := (h.clear x.path hx p hp).1
      rw [Path.same_symm hsame] at hclear
      cases hclear
  · intro hfree part hpart p hp hbelow
    have hplaced : (part.target, p) ∈ inputs.placed :=
      List.mem_flatMap.mpr ⟨part, hpart, List.mem_map_of_mem hp⟩
    have hshown : ∃ name, (inputs.allRoots.top inputs.root).ShowsUnder name p ∧
        ∀ m ∈ inputs.markers fs, name ≠ m.text := by
      cases hroot : p.isBelow inputs.root with
      | true =>
        have hnames := hfree p (mem_partFiles hplaced) hroot
        exact h.main_shown ⟨part.target, hplaced, hroot⟩ hnames
      | false =>
        refine h.further_shown hplaced hroot (hbelow.resolve_left fun hmain => ?_)
        rw [hroot] at hmain
        cases hmain
    obtain ⟨name, hunder, hmarkers⟩ := hshown
    rw [ofInputs_eq]
    exact (hunder.addMarkers hmarkers).exists_file

end PartFiles

/-- A project with one file below its root, and another one that is compiled in
some other directory. -/
def twoParts (root target below outside : String) : TreeInputs where
  root := ⟨root⟩
  database := ⟨root ++ "/compile_commands.json"⟩
  extrasSource := ⟨root ++ "/compile_commands.json.files"⟩
  parts := [⟨⟨root⟩, ⟨root⟩, "", .ofList [⟨below⟩], [], [], none, none⟩,
    ⟨⟨root⟩, ⟨target⟩, "", .ofList [⟨outside⟩], [], [], none, none⟩]
  scanned := []

theorem keepsPartFiles_twoParts :
    (twoParts "/p" "/ext/p" "/p/src/a.c" "/ext/p/b.c").IsPlain .empty ∧
      (twoParts "/p" "/ext/p" "/p/src/a.c" "/ext/p/b.c").KeepsPartFiles .empty := by
  have hplain : (twoParts "/p" "/ext/p" "/p/src/a.c" "/ext/p/b.c").IsPlain .empty :=
    ⟨by decide +kernel, nofun, by decide +kernel, by decide +kernel, by decide +kernel⟩
  exact ⟨hplain, (keepsPartFiles_iff hplain).mpr (by decide +kernel)⟩

/-- The relative directory `p` takes the name under which `/x/p` is shown, and
the files of the project are gone. -/
theorem not_keepsPartFiles : ¬ ∀ (fs : FileSystem) (inputs : TreeInputs),
    inputs.IsPlain fs → inputs.KeepsPartFiles fs := by
  intro h
  have hkeeps := h .empty (twoParts "/x/p" "p" "/x/p/a.c" "p/b.c")
    ⟨by decide +kernel, nofun, by decide +kernel, by decide +kernel, by decide +kernel⟩
  obtain ⟨x, hx, hsame, -⟩ := hkeeps _ List.mem_cons_self ⟨"/x/p/a.c"⟩ (by decide +kernel)
    (.inl (by decide +kernel))
  have hfiles : (Folder.ofInputs .empty (twoParts "/x/p" "p" "/x/p/a.c" "p/b.c")).files =
      [⟨⟨"/x/p/compile_commands.json"⟩, .project, true⟩, ⟨⟨"p/b.c"⟩, .source, true⟩] := by
    rw [Folder.files_eq]
    decide +kernel
  rw [hfiles] at hx
  simp only [List.mem_cons, List.not_mem_nil, or_false] at hx
  rcases hx with rfl | rfl <;> exact absurd hsame (by decide +kernel)

end TreeInputs

end CompileCommands
