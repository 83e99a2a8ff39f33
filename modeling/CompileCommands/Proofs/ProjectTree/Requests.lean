-- Requests to a tree, one after another. The tree that they build holds the
-- files that they put there, each node in its place, and finds all of them by
-- their paths. All of this is asked of names that are read as they stand.
import CompileCommands.Proofs.ProjectTree.Placement
import CompileCommands.Proofs.ProjectTree.Reading

namespace CompileCommands.Folder

variable {f : Folder}

/-! ## Requests -/

/-- A call that is to put something into a tree. -/
inductive Request
  | file (file : FileNode)
  | folder (dir : Path)

def Request.path : Request → Path
  | .file x => x.path
  | .folder dir => dir

/-- The tree after a request. -/
def serve [Reading] (f : Folder) : Request → Folder
  | .file file => (f.addFile file).2
  | .folder dir => (f.folderFor dir).2

/-- The files that a request puts into the tree: its own, if the answer says
so. -/
def granted [Reading] (f : Folder) : Request → List FileNode
  | .file file => if (f.addFile file).1 then [file] else []
  | .folder _ => []

/-- The tree after some requests, one after another. -/
def serveAll [Reading] (f : Folder) (requests : List Request) : Folder := requests.foldl serve f

/-- The files that some requests put into the tree, one after another. -/
def grantedAll [Reading] (f : Folder) : List Request → List FileNode
  | [] => []
  | r :: rest => f.granted r ++ (f.serve r).grantedAll rest

/-! ## One request -/

theorem folderFor_eq {dir : Path} {names : List String} (h : f.path.Leads names dir) :
    f.folderFor dir = f.descend (fun g => (some g, g)) none names := by
  unfold folderFor
  rw [h.namesBelow?]

theorem folderFor_of_not_startsWith {dir : Path} (h : dir.startsWith f.path = false) :
    f.folderFor dir = (none, f) := by
  unfold folderFor Path.namesBelow?
  rw [h]
  rfl

theorem insertFile_label (file : FileNode) (f : Folder) :
    (insertFile file f).2.path = f.path ∧ (insertFile file f).2.displayName = f.displayName := by
  unfold insertFile
  split <;> exact ⟨rfl, rfl⟩

theorem serve_label (f : Folder) (r : Request) :
    (f.serve r).path = f.path ∧ (f.serve r).displayName = f.displayName := by
  cases r with
  | file file => exact addFile_label f file
  | folder dir =>
    show (f.folderFor dir).2.path = f.path ∧ (f.folderFor dir).2.displayName = f.displayName
    unfold folderFor
    split
    · exact ⟨rfl, rfl⟩
    · exact descend_label fun _ => ⟨rfl, rfl⟩

theorem IsPlaced.insertFile {file : FileNode} {parent : Path} {name : String} (h : f.IsPlaced)
    (hparent : file.path.parent? = some parent) (hsame : f.path.same parent = true)
    (hname : file.path.fileName? = some name) : (Folder.insertFile file f).2.IsPlaced := by
  unfold Folder.insertFile
  split
  · exact h
  · have hdisplay : file.path.displayName = name := by
      unfold Path.displayName
      rw [hname, Option.getD_some, Reading.unicode_read]
    exact h.put (.file hparent (Path.same_symm hsame) (hdisplay ▸ hname)) (.file file)

theorem IsPlaced.serve {r : Request} (h : f.IsPlaced) (hnamed : r.path.IsNamedFrom f.path) :
    (f.serve r).IsPlaced := by
  cases r with
  | file file =>
    show (f.addFile file).2.IsPlaced
    unfold Folder.addFile
    split
    · exact h
    · rename_i dirs hdirs
      obtain ⟨name, hleads⟩ := Path.IsNamedFrom.exists_leads_of_parent (p := file.path) hnamed hdirs
      obtain ⟨parent, hparent, hparentleads⟩ := hleads.exists_parent
      exact (h.descend (Folder.insertFile file) false
        (fun g hg hsame => hg.insertFile hparent hsame hleads.fileName?)
        (insertFile_label file) hparentleads).1
  | folder dir =>
    show (f.folderFor dir).2.IsPlaced
    cases hstarts : dir.startsWith f.path with
    | false => rwa [folderFor_of_not_startsWith hstarts]
    | true =>
      obtain ⟨names, hleads⟩ := Path.IsNamedFrom.exists_leads (p := dir) hnamed hstarts
      rw [folderFor_eq hleads]
      exact (h.descend (fun g => (some g, g)) none (fun _ hg _ => hg) (fun _ => ⟨rfl, rfl⟩)
        hleads).1

theorem IsOrdered.serve (h : f.IsOrdered) (r : Request) : (f.serve r).IsOrdered := by
  cases r with
  | file file => exact h.addFile file
  | folder dir => exact h.folderFor dir

theorem IsOrdered.files_serve (h : f.IsOrdered) (r : Request) :
    (f.serve r).files.Perm (f.granted r ++ f.files) := by
  cases r with
  | file file =>
    show (f.addFile file).2.files.Perm ((if (f.addFile file).1 then [file] else []) ++ f.files)
    cases hput : (f.addFile file).1 with
    | true => exact (h.gains_addFile hput).listed
    | false =>
      rw [h.addFile_eq_self hput]
      exact List.Perm.refl _
  | folder dir =>
    show (f.folderFor dir).2.files.Perm f.files
    unfold Folder.folderFor
    split
    · exact List.Perm.refl _
    · exact h.files_descend_of (fun _ => []) rfl (fun _ _ => List.Perm.refl _) _

/-! ## Any number of requests -/

theorem serveAll_label (f : Folder) (requests : List Request) :
    (f.serveAll requests).path = f.path ∧ (f.serveAll requests).displayName = f.displayName := by
  induction requests generalizing f with
  | nil => exact ⟨rfl, rfl⟩
  | cons r rest ih =>
    obtain ⟨hpath, hdisplay⟩ := serve_label f r
    rw [← hpath, ← hdisplay]
    exact ih (f.serve r)

theorem IsPlaced.serveAll {requests : List Request} (h : f.IsPlaced)
    (hnamed : ∀ r ∈ requests, r.path.IsNamedFrom f.path) : (f.serveAll requests).IsPlaced := by
  induction requests generalizing f with
  | nil => exact h
  | cons r rest ih =>
    obtain ⟨hr, hrest⟩ := List.forall_mem_cons.mp hnamed
    exact ih (h.serve hr) ((serve_label f r).1.symm ▸ hrest)

theorem IsOrdered.serveAll (h : f.IsOrdered) (requests : List Request) :
    (f.serveAll requests).IsOrdered := by
  induction requests generalizing f with
  | nil => exact h
  | cons r rest ih => exact ih (h.serve r)

theorem IsOrdered.files_serveAll (h : f.IsOrdered) (requests : List Request) :
    (f.serveAll requests).files.Perm (f.grantedAll requests ++ f.files) := by
  induction requests generalizing f with
  | nil => exact List.Perm.refl _
  | cons r rest ih =>
    refine (ih (h.serve r)).trans (((h.files_serve r).append_left _).trans ?_)
    rw [grantedAll, ← List.append_assoc]
    exact List.perm_append_comm.append_right _

/-! ## The tree that requests build -/

/-- A folder is found at a path in the tree unless a file stands there or above
it, and it is the folder of that path. -/
theorem IsPlaced.folderFor (h : f.IsPlaced) (hordered : f.IsOrdered) {dir : Path}
    (hnamed : dir.IsNamedFrom f.path) :
    (∀ g, (f.folderFor dir).1 = some g → g.path.same dir = true) ∧
      ((f.folderFor dir).1 = none ↔
        dir.startsWith f.path = false ∨ ∃ x ∈ f.files, dir.startsWith x.path = true) := by
  cases hstarts : dir.startsWith f.path with
  | false =>
    rw [folderFor_of_not_startsWith hstarts]
    exact ⟨nofun, fun _ => .inl rfl, fun _ => rfl⟩
  | true =>
    obtain ⟨names, hleads⟩ := hnamed.exists_leads hstarts
    rw [folderFor_eq hleads]
    obtain ⟨-, hanswer⟩ := h.descend (fun g => (some g, g)) none (fun _ hg _ => hg)
      (fun _ => ⟨rfl, rfl⟩) hleads
    refine ⟨fun g hg => ?_, ?_⟩
    · rw [hg] at hanswer
      rcases hanswer with hnone | ⟨g', hsame, heq⟩
      · cases hnone
      · cases heq
        exact hsame
    · rw [descend_eq_blocked_iff fun _ => Option.some_ne_none _]
      simp only [Bool.true_eq_false, false_or]
      constructor
      · rintro ⟨front, x, -, ⟨back, rfl⟩, hlabel⟩
        refine ⟨x, ?_, (hleads.startsWith_iff (h.leads hlabel)).mpr (List.prefix_append _ _)⟩
        rw [files_eq]
        exact Node.mem_files_of_labelAt? hlabel
      · rintro ⟨x, hx, hstarts⟩
        obtain ⟨front, hlabel, hxleads⟩ := h.exists_leads hordered hx
        refine ⟨front, x, ?_, (hleads.startsWith_iff hxleads).mp hstarts, hlabel⟩
        rintro rfl
        cases hlabel

/-- The tree is built from a root, and some files are what was put there: each
node stands in its place, and no two of them have the same path. A file is
found at a path just if it was put there, and so is a folder unless a file
stands there or above it, where the names are read as they stand. -/
structure IsBuiltFrom [Reading] (f : Folder) (root : Path) (put : List FileNode) : Prop where
  placed : f.IsPlaced
  distinct : f.toNode.paths.Pairwise fun p q => p.same q = false
  files : ∀ p x, f.file? p = some x ↔ x ∈ put ∧ x.path.same p = true
  folders : ∀ dir, dir.IsNamedFrom root → dir.IsReadFrom root →
    (∀ g, (f.folderFor dir).1 = some g → g.path.same dir = true) ∧
      ((f.folderFor dir).1 = none ↔
        dir.startsWith root = false ∨ ∃ x ∈ put, dir.startsWith x.path = true)

theorem serveAll_isBuiltFrom_of_unicode (root : Path) (displayName : String)
    {requests : List Request} (hnamed : ∀ r ∈ requests, r.path.IsNamedFrom root) :
    ((named root displayName).serveAll requests).IsBuiltFrom root
      ((named root displayName).grantedAll requests) := by
  have hplaced := (named_isPlaced root displayName).serveAll hnamed
  have hordered := (named_isOrdered root displayName).serveAll requests
  have hpath : ((named root displayName).serveAll requests).path = root :=
    (serveAll_label _ requests).1
  have hfiles := (named_isOrdered root displayName).files_serveAll requests
  have hnone : (named root displayName).files = [] := by
    rw [files_eq]
    rfl
  rw [hnone, List.append_nil] at hfiles
  refine ⟨hplaced, hplaced.paths_pairwise hordered, fun p x => ?_, fun dir hdir _ => ?_⟩
  · rw [hplaced.file?_eq_some_iff hordered, hfiles.mem_iff]
  · have hfolder := hplaced.folderFor hordered (hpath.symm ▸ hdir)
    rw [hpath] at hfolder
    simpa only [hfiles.mem_iff] using hfolder

/-! ## Requests whose names are read -/

section Reading

variable [Reading]

theorem serve_unicode {r : Request} (hread : r.path.IsReadFrom f.path)
    (hnamed : r.path.IsNamedFrom f.path) :
    f.serve r = @serve .unicode f r ∧ f.granted r = @granted .unicode f r := by
  cases r with
  | file file =>
    have hadd : f.addFile file = @addFile .unicode f file := addFile_unicode hread hnamed
    exact ⟨congrArg Prod.snd hadd, congrArg (fun answer => if answer.1 then [file] else []) hadd⟩
  | folder dir => exact ⟨congrArg Prod.snd (folderFor_unicode hread), rfl⟩

theorem serveAll_unicode {requests : List Request}
    (hread : ∀ r ∈ requests, r.path.IsReadFrom f.path)
    (hnamed : ∀ r ∈ requests, r.path.IsNamedFrom f.path) :
    f.serveAll requests = @serveAll .unicode f requests ∧
      f.grantedAll requests = @grantedAll .unicode f requests := by
  induction requests generalizing f with
  | nil => exact ⟨rfl, rfl⟩
  | cons r rest ih =>
    obtain ⟨hr, hrest⟩ := List.forall_mem_cons.mp hread
    obtain ⟨hrnamed, hrestnamed⟩ := List.forall_mem_cons.mp hnamed
    obtain ⟨hserve, hgranted⟩ := serve_unicode hr hrnamed
    -- A request leaves the tree where it is, so the rest is seen from there, too.
    have hpath : (@serve .unicode f r).path = f.path := (serve_label f r).1
    obtain ⟨hall, hput⟩ := ih (f := @serve .unicode f r) (hpath.symm ▸ hrest)
      (hpath.symm ▸ hrestnamed)
    refine ⟨?_, ?_⟩
    · show (f.serve r).serveAll rest = _
      rw [hserve]
      exact hall
    · rw [grantedAll, hserve, hgranted, hput]
      rfl

end Reading

/-- Requests that name things below the root without any detour build a tree in
which everything stands in its place, if the names are read as they stand. -/
theorem serveAll_isBuiltFrom [Reading] (root : Path) (displayName : String)
    {requests : List Request} (hnamed : ∀ r ∈ requests, r.path.IsNamedFrom root)
    (hread : ∀ r ∈ requests, r.path.IsReadFrom root) :
    ((named root displayName).serveAll requests).IsBuiltFrom root
      ((named root displayName).grantedAll requests) := by
  obtain ⟨hplaced, hdistinct, hfiles, hfolders⟩ :=
    serveAll_isBuiltFrom_of_unicode root displayName hnamed
  have hpath : (@serveAll .unicode (named root displayName) requests).path = root :=
    (serveAll_label _ requests).1
  obtain ⟨hall, hput⟩ := serveAll_unicode (f := named root displayName) hread hnamed
  rw [hall, hput]
  refine ⟨hplaced, hdistinct, hfiles, fun dir hdir hdirread => ?_⟩
  rw [folderFor_unicode (hpath.symm ▸ hdirread)]
  exact hfolders dir hdir fun _ _ => rfl

/-- Requests of which some are refused: a folder below a file, a file in the
place of a folder, a file that is there already, and one outside the root. -/
def mixedRequests : List Request :=
  [.file ⟨⟨"/p/src/a.c"⟩, .source, true⟩, .folder ⟨"/p/src/a.c/x"⟩,
    .file ⟨⟨"/p/src"⟩, .unknown, true⟩, .file ⟨⟨"/p//src/./a.c"⟩, .source, false⟩,
    .file ⟨⟨"/q/b.c"⟩, .source, true⟩, .folder ⟨"/p/lib"⟩, .file ⟨⟨"/p/lib/b.h"⟩, .header, false⟩]

theorem serveAll_isBuiltFrom_mixedRequests :
    (∀ r ∈ mixedRequests, r.path.IsNamedFrom ⟨"/p"⟩) ∧
      (∀ r ∈ mixedRequests, @Path.IsReadFrom .lossy r.path ⟨"/p"⟩) ∧
      @IsBuiltFrom .lossy (@serveAll .lossy (named ⟨"/p"⟩ "p") mixedRequests) ⟨"/p"⟩
        [⟨⟨"/p/src/a.c"⟩, .source, true⟩, ⟨⟨"/p/lib/b.h"⟩, .header, false⟩] := by
  have hnamed : ∀ r ∈ mixedRequests, r.path.IsNamedFrom ⟨"/p"⟩ := by decide +kernel
  have hunicode : ∀ r ∈ mixedRequests, Reading.IsUnicode r.path.text := by decide +kernel
  have hread : ∀ r ∈ mixedRequests, @Path.IsReadFrom .lossy r.path ⟨"/p"⟩ :=
    fun r hr => Path.isReadFrom_lossy (hunicode r hr) _
  have hput : @grantedAll .lossy (named ⟨"/p"⟩ "p") mixedRequests =
      [⟨⟨"/p/src/a.c"⟩, .source, true⟩, ⟨⟨"/p/lib/b.h"⟩, .header, false⟩] := by decide +kernel
  exact ⟨hnamed, hread, hput ▸ @serveAll_isBuiltFrom .lossy ⟨"/p"⟩ "p" _ hnamed hread⟩

/-- A folder is made under a name that is read, and so its path is another one.
No folder is made below a file. -/
theorem folderFor_ne_dir :
    (∃ g, (@folderFor .lossy (named ⟨"/p"⟩ "p") (strayPath 0xFF)).1 = some g ∧
      (strayPath 0xFF).IsNamedFrom ⟨"/p"⟩ ∧ g.path.same (strayPath 0xFF) = false) ∧
    (((named ⟨"/p"⟩ "p").serveAll [.file ⟨⟨"/p/a"⟩, .unknown, true⟩]).folderFor
      ⟨"/p/a/b"⟩).1.isNone = true := by
  have hanswer : (@folderFor .lossy (named ⟨"/p"⟩ "p") (strayPath 0xFF)).1.map (·.path.text) =
      some "/p/\uFFFD" := by decide +kernel
  obtain ⟨g, hg, hpath⟩ := Option.map_eq_some_iff.mp hanswer
  have hg' : g.path = ⟨"/p/\uFFFD"⟩ := congrArg Path.mk hpath
  exact ⟨⟨g, hg, by decide +kernel, by rw [hg']; decide +kernel⟩, by decide +kernel⟩

end CompileCommands.Folder
