-- Where things stand in a tree. If each node stands under its own name in the
-- folder of its parent, a path leads to at most one node. Going down to a path
-- and changing the folder at the end keeps everything in its place.
import CompileCommands.Proofs.ProjectTree.Adding
import CompileCommands.Proofs.ProjectTree.Atomicity

namespace CompileCommands

/-! ## Nodes in their places -/

/-- How a node has to stand under a name in the folder of a path. -/
inductive Node.StandsIn (dir : Path) (name : String) : Node → Prop
  | file {x : FileNode} {parent : Path} : x.path.parent? = some parent → parent.same dir = true →
      x.path.fileName? = some name → StandsIn dir name (.file x)
  | folder {path : Path} {displayName : String} {children : List (String × Node)} :
      path = dir.child name → displayName = name → dir.Leads [name] path →
      StandsIn dir name (.folder path displayName children)

/-- Every node below this one stands as it has to. -/
inductive Node.IsPlaced : Node → Prop
  | file (x : FileNode) : IsPlaced (.file x)
  | folder {path : Path} {displayName : String} {children : List (String × Node)} :
      (∀ child ∈ children, child.2.StandsIn path child.1) →
      (∀ child ∈ children, child.2.IsPlaced) → IsPlaced (.folder path displayName children)

def Label.path : Label → Path
  | .file x => x.path
  | .folder path _ => path

theorem Node.label_path (node : Node) : node.label.path = node.path := by
  cases node <;> rfl

namespace Node

theorem StandsIn.leads {dir : Path} {name : String} {node : Node} (h : node.StandsIn dir name) :
    dir.Leads [name] node.path := by
  cases h with
  | file hparent hsame hname =>
    obtain ⟨-, hcomponents⟩ := Path.components_of_parent? hparent
    unfold Path.Leads Node.path
    rw [Path.components_of_fileName? hname, ← hcomponents, beq_iff_eq.mp hsame]
    rfl
  | folder _ _ hleads => exact hleads

theorem IsPlaced.leads {node : Node} (h : node.IsPlaced) {names : List String} {l : Label}
    (hl : node.labelAt? names = some l) : node.path.Leads names l.path := by
  induction names generalizing node with
  | nil =>
    obtain rfl := Option.some.inj hl
    rw [node.label_path]
    exact (List.append_nil _).symm
  | cons name rest ih =>
    cases h with
    | file x => cases hl
    | folder hstands hplaced =>
      obtain ⟨child, hchild, hl⟩ := Option.bind_eq_some_iff.mp hl
      have hmem := mem_of_lookup hchild
      exact (hstands _ hmem).leads.cons (ih (hplaced _ hmem) hl)

end Node

namespace Folder

def IsPlaced (f : Folder) : Prop := f.toNode.IsPlaced

variable {f below : Folder} {name : String}

theorem isPlaced_iff : f.IsPlaced ↔ (∀ child ∈ f.children, child.2.StandsIn f.path child.1) ∧
    ∀ child ∈ f.children, child.2.IsPlaced := by
  constructor
  · intro h
    cases h with
    | folder hstands hplaced => exact ⟨hstands, hplaced⟩
  · exact fun h => .folder h.1 h.2

theorem named_isPlaced (path : Path) (displayName : String) : (named path displayName).IsPlaced :=
  .folder nofun nofun

theorem IsPlaced.put (h : f.IsPlaced) {node : Node} (hstands : node.StandsIn f.path name)
    (hplaced : node.IsPlaced) : (f.put name node).IsPlaced := by
  obtain ⟨hfstands, hfplaced⟩ := isPlaced_iff.mp h
  refine isPlaced_iff.mpr ⟨fun child hchild => ?_, fun child hchild => ?_⟩
  all_goals rcases mem_setChild hchild with rfl | hchild
  · exact hstands
  · exact hfstands child hchild
  · exact hplaced
  · exact hfplaced child hchild

/-- A folder that is opened stands as it has to, be it old or new. -/
theorem IsPlaced.openChild? (h : f.IsPlaced) (hopen : f.openChild? name = some below) :
    below.IsPlaced ∧ below.path = f.path.child name ∧ below.displayName = name := by
  obtain ⟨hstands, hplaced⟩ := isPlaced_iff.mp h
  rcases openChild?_eq_some hopen with hchild | ⟨-, rfl⟩
  · have hmem := mem_of_lookup hchild
    refine ⟨hplaced _ hmem, ?_⟩
    cases hstands _ hmem with
    | folder hpath hdisplay => exact ⟨hpath, hdisplay⟩
  · exact ⟨named_isPlaced _ _, rfl, rfl⟩

/-! ## The end of a way -/

section Descend

variable {α : Type} {change : Folder → α × Folder} {blocked : α} {names : List String}

theorem descend_label (hchange : ∀ g : Folder,
      (change g).2.path = g.path ∧ (change g).2.displayName = g.displayName) :
    (f.descend change blocked names).2.path = f.path ∧
      (f.descend change blocked names).2.displayName = f.displayName := by
  cases names with
  | nil => exact hchange f
  | cons name rest =>
    rw [descend]
    split <;> exact ⟨rfl, rfl⟩

/-- A way that leads to a path ends in a folder of that path, unless something
is in the way. -/
theorem IsPlaced.descend (change : Folder → α × Folder) (blocked : α) {target : Path}
    (hchange : ∀ g : Folder, g.IsPlaced → g.path.same target = true → (change g).2.IsPlaced)
    (hlabel : ∀ g : Folder,
      (change g).2.path = g.path ∧ (change g).2.displayName = g.displayName)
    (h : f.IsPlaced) (hleads : f.path.Leads names target) :
    (f.descend change blocked names).2.IsPlaced ∧
      ((f.descend change blocked names).1 = blocked ∨
        ∃ g : Folder, g.path.same target = true ∧
          (f.descend change blocked names).1 = (change g).1) := by
  induction names generalizing f with
  | nil =>
    have hsame : f.path.same target = true := by
      unfold Path.Leads at hleads
      unfold Path.same
      rw [hleads]
      simp
    exact ⟨hchange f h hsame, .inr ⟨f, hsame, rfl⟩⟩
  | cons name rest ih =>
    have hname : Path.IsName name := Path.isName_of_normal (p := target) (by
      unfold Path.Leads at hleads
      rw [hleads]
      simp)
    rw [Folder.descend]
    split
    · exact ⟨h, .inl rfl⟩
    · rename_i below hopen
      obtain ⟨hbelow, hpath, hdisplay⟩ := h.openChild? hopen
      have hmid := hname.leads_child f.path
      obtain ⟨hplaced, hanswer⟩ := ih hbelow (hpath ▸ hmid.of_cons hleads)
      obtain ⟨hnewpath, hnewdisplay⟩ : (below.descend change blocked rest).2.path = below.path ∧
          (below.descend change blocked rest).2.displayName = below.displayName :=
        descend_label hlabel
      rw [hpath] at hnewpath
      refine ⟨h.put ?_ hplaced, hanswer⟩
      exact .folder hnewpath (hnewdisplay.trans hdisplay) (hnewpath ▸ hmid)

/-- A way is blocked just where a file stands on it. -/
theorem descend_eq_blocked_iff (hanswer : ∀ g : Folder, (change g).1 ≠ blocked) :
    (f.descend change blocked names).1 = blocked ↔
      ∃ front x, front ≠ [] ∧ front <+: names ∧ f.labelAt? front = some (.file x) := by
  induction names generalizing f with
  | nil =>
    refine ⟨fun h => absurd h (hanswer f), ?_⟩
    rintro ⟨front, x, hne, hfront, -⟩
    exact absurd (List.prefix_nil.mp hfront) hne
  | cons name rest ih =>
    rw [Folder.descend]
    split
    · rename_i hopen
      obtain ⟨x, hx⟩ := openChild?_eq_none hopen
      refine ⟨fun _ => ⟨[name], x, by simp, by simp, ?_⟩, fun _ => rfl⟩
      rw [labelAt?_cons, hx]
      rfl
    · rename_i below hopen
      refine ih.trans ⟨?_, ?_⟩
      · rintro ⟨front, x, hne, hfront, hx⟩
        exact ⟨name :: front, x, by simp, List.cons_prefix_cons.mpr ⟨rfl, hfront⟩,
          (labelAt?_of_openChild? hopen hx).resolve_right hne⟩
      · rintro ⟨front, x, hne, hfront, hx⟩
        obtain ⟨key, front, rfl⟩ := List.exists_cons_of_ne_nil hne
        obtain ⟨hkey, hrest⟩ := List.cons_prefix_cons.mp hfront
        rw [labelAt?_cons, hkey] at hx
        rcases openChild?_eq_some hopen with hchild | ⟨hchild, -⟩
        · rw [hchild] at hx
          refine ⟨front, x, ?_, hrest, hx⟩
          rintro rfl
          cases hx
        · rw [hchild] at hx
          cases hx

end Descend

end Folder

/-! ## Paths of nodes -/

mutual

/-- The paths of a node and of all nodes below it. -/
def Node.paths : Node → List Path
  | .file x => [x.path]
  | .folder path _ children => path :: pathsOfEach children

/-- The paths of some children and of all nodes below them. -/
def pathsOfEach : List (String × Node) → List Path
  | [] => []
  | (_, node) :: rest => node.paths ++ pathsOfEach rest

end

theorem pathsOfEach_eq (children : List (String × Node)) :
    pathsOfEach children = children.flatMap fun child => child.2.paths := by
  induction children with
  | nil => rfl
  | cons child rest ih => rw [pathsOfEach, ih, List.flatMap_cons]

namespace Node

theorem IsPlaced.leads_of_mem_paths {node : Node} (h : node.IsPlaced) {p : Path}
    (hp : p ∈ node.paths) : ∃ names, node.path.Leads names p := by
  induction h with
  | file x =>
    rw [List.mem_singleton.mp hp]
    exact ⟨[], (List.append_nil _).symm⟩
  | @folder path displayName children hstands _ ih =>
    rw [paths, pathsOfEach_eq] at hp
    rcases List.mem_cons.mp hp with rfl | hp
    · exact ⟨[], (List.append_nil _).symm⟩
    · obtain ⟨child, hchild, hp⟩ := List.mem_flatMap.mp hp
      obtain ⟨names, hleads⟩ := ih child hchild hp
      exact ⟨child.1 :: names, (hstands child hchild).leads.cons hleads⟩

/-- No two nodes have the same path. -/
theorem IsPlaced.paths_pairwise {node : Node} (h : node.IsPlaced) (hordered : node.IsOrdered) :
    node.paths.Pairwise fun p q => p.same q = false := by
  induction h with
  | file x => exact List.pairwise_singleton _ _
  | @folder path displayName children hstands hplaced ih =>
    obtain ⟨hnames, hchildren⟩ : NamesInOrder children ∧ ∀ child ∈ children, child.2.IsOrdered :=
      Folder.isOrdered_iff (f := ⟨path, displayName, children⟩) |>.mp hordered
    have hleads : ∀ child ∈ children, ∀ p ∈ child.2.paths,
        ∃ names, path.Leads (child.1 :: names) p := by
      intro child hchild p hp
      obtain ⟨names, hnames⟩ := (hplaced child hchild).leads_of_mem_paths hp
      exact ⟨names, (hstands child hchild).leads.cons hnames⟩
    rw [paths, pathsOfEach_eq]
    refine List.pairwise_cons.mpr ⟨fun p hp => Bool.eq_false_iff.mpr fun hsame => ?_,
      List.pairwise_flatMap.mpr ⟨fun child hchild => ih child hchild (hchildren child hchild), ?_⟩⟩
    · obtain ⟨child, hchild, hp⟩ := List.mem_flatMap.mp hp
      obtain ⟨names, hp⟩ := hleads child hchild p hp
      have hself : path.Leads [] path := (List.append_nil _).symm
      cases hself.unique_of_same hp hsame
    · refine hnames.imp_of_mem fun hchild hother hlt p hp q hq => ?_
      refine Bool.eq_false_iff.mpr fun hsame => ?_
      obtain ⟨names, hp⟩ := hleads _ hchild p hp
      obtain ⟨more, hq⟩ := hleads _ hother q hq
      exact ne_of_compare_lt hlt (List.cons.inj (hp.unique_of_same hq hsame)).1

/-- Names lead to each file that is listed. -/
theorem IsOrdered.exists_labelAt? {node : Node} (h : node.IsOrdered) {x : FileNode}
    (hx : x ∈ node.files) : ∃ names, node.labelAt? names = some (.file x) := by
  induction h with
  | file y => exact ⟨[], by rw [List.mem_singleton.mp hx]; rfl⟩
  | @folder path displayName children hnames hchildren ih =>
    have hbelow : x ∈ Folder.files ⟨path, displayName, children⟩ := by rwa [Folder.files_eq]
    obtain ⟨child, hchild, hx⟩ := Folder.mem_files.mp hbelow
    obtain ⟨names, hlabel⟩ := ih child hchild hx
    refine ⟨child.1 :: names, ?_⟩
    rw [labelAt?, hnames.lookup hchild]
    exact hlabel

end Node

namespace Folder

variable {f : Folder}

theorem IsPlaced.exists_leads (h : f.IsPlaced) (hordered : f.IsOrdered) {x : FileNode}
    (hx : x ∈ f.files) :
    ∃ names, f.labelAt? names = some (.file x) ∧ f.path.Leads names x.path := by
  rw [files_eq] at hx
  obtain ⟨names, hlabel⟩ := hordered.exists_labelAt? hx
  exact ⟨names, hlabel, h.leads hlabel⟩

theorem IsPlaced.file?_eq_some_iff (h : f.IsPlaced) (hordered : f.IsOrdered) {p : Path}
    {x : FileNode} : f.file? p = some x ↔ x ∈ f.files ∧ x.path.same p = true := by
  unfold file?
  constructor
  · intro hfound
    exact ⟨List.mem_of_find?_eq_some hfound, by simpa using List.find?_some hfound⟩
  · rintro ⟨hx, hsame⟩
    have hsome : (f.files.find? (·.path.same p)).isSome := List.find?_isSome.mpr ⟨x, hx, hsame⟩
    obtain ⟨y, hy⟩ := Option.isSome_iff_exists.mp hsome
    have hysame : y.path.same p = true := by simpa using List.find?_some hy
    -- The two have one path, so the same names lead to both.
    obtain ⟨names, hlabel, hleads⟩ := h.exists_leads hordered hx
    obtain ⟨more, hmore, hmoreleads⟩ := h.exists_leads hordered (List.mem_of_find?_eq_some hy)
    obtain rfl := hleads.unique_of_same hmoreleads
      (Path.same_trans hsame (Path.same_symm hysame))
    rw [hlabel] at hmore
    cases hmore
    exact hy

end Folder

end CompileCommands
