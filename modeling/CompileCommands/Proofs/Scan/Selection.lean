-- What a scan selects, said of the tree below its root and not of the walk. The
-- walk comes to the files that no excluded directory stands above, each of them
-- once and in the order of the names that lead to it.
import CompileCommands.Proofs.Path.Components
import CompileCommands.Proofs.Scan.Verdicts
import Mathlib.Data.List.Lex
import Mathlib.Data.String.Basic

namespace CompileCommands

/-! ## Places -/

/-- The place to which names lead from a directory. -/
def Path.below (root : Path) (names : List String) : Path := names.foldl child root

theorem Path.leads_below {names : List String} (h : ∀ name ∈ names, IsName name) (root : Path) :
    root.Leads names (root.below names) := by
  induction names generalizing root with
  | nil => exact (List.append_nil _).symm
  | cons name names ih =>
    obtain ⟨hname, hnames⟩ := List.forall_mem_cons.mp h
    exact (hname.leads_child root).cons (ih hnames (root.child name))

/-! ## Trees -/

namespace Entry

/-- In each directory the names are different, and each of them can stand in a
path. -/
inductive IsTree : Entry → Prop
  | file (bytes : List UInt8) : IsTree (.file bytes)
  | link (target : String) : IsTree (.link target)
  | directory {entries : List (String × Entry)} : (entries.map (·.1)).Nodup →
      (∀ named ∈ entries, Path.IsName named.1) → (∀ named ∈ entries, IsTree named.2) →
      IsTree (.directory entries)

/-- All directories of a tree can be listed from a place. -/
def IsListable (root : Path) (e : Entry) : Prop :=
  ∀ names entries, e.at? names = some (.directory entries) →
    (root.below names).text.utf8ByteSize ≤ FileSystem.maxPath

/-- A directory that is not entered. -/
def isBarred (excluded : String → Bool) (name : String) : Entry → Bool
  | .directory _ => excluded name
  | _ => false

/-- Names lead to a file, and to no excluded directory before it. -/
structure IsReached (excluded : String → Bool) (e : Entry) (names : List String) : Prop where
  file : ∃ bytes, e.at? names = some (.file bytes)
  entered : ∀ name ∈ names.dropLast, excluded name = false

mutual

/-- The names that lead to the files that a walk comes to. -/
def reached (excluded : String → Bool) : Entry → List (List String)
  | .file _ => [[]]
  | .link _ => []
  | .directory entries =>
    (sortByName (reachedOfEach excluded entries)).flatMap fun named => named.2.map (named.1 :: ·)

/-- The names that lead to the files at each entry of a directory. -/
def reachedOfEach (excluded : String → Bool) :
    List (String × Entry) → List (String × List (List String))
  | [] => []
  | (name, e) :: rest =>
    (name, if e.isBarred excluded name then [] else reached excluded e) ::
      reachedOfEach excluded rest

end

variable {excluded : String → Bool}

theorem visitsOfEach_eq (place : Path) (entries : List (String × Entry)) :
    visitsOfEach excluded place entries = entries.map fun named =>
      (named.1, if named.2.isBarred excluded named.1 then []
        else named.2.visits excluded (place.child named.1)) := by
  induction entries with
  | nil => rfl
  | cons named rest ih =>
    obtain ⟨name, e⟩ := named
    rw [List.map_cons, ← ih]
    cases e <;> simp only [visitsOfEach] <;> rfl

theorem reachedOfEach_eq (entries : List (String × Entry)) :
    reachedOfEach excluded entries = entries.map fun named =>
      (named.1, if named.2.isBarred excluded named.1 then []
        else named.2.reached excluded) := by
  induction entries with
  | nil => rfl
  | cons named rest ih => rw [reachedOfEach, ih, List.map_cons]

/-! ## Names in their order -/

theorem sortByName_map (f : String → α → β) (named : List (String × α)) :
    sortByName (named.map fun n => (n.1, f n.1 n.2)) =
      (sortByName named).map fun n => (n.1, f n.1 n.2) :=
  (List.map_mergeSort (f := fun n : String × α => (n.1, f n.1 n.2)) fun _ _ _ _ => rfl).symm

theorem mem_sortByName {named : List (String × α)} {n : String × α} :
    n ∈ sortByName named ↔ n ∈ named :=
  (List.mergeSort_perm _ _).mem_iff

/-- Different names come in their strict order. -/
theorem sortByName_pairwise {named : List (String × α)} (h : (named.map (·.1)).Nodup) :
    (sortByName named).Pairwise (·.1 < ·.1) := by
  have hle : (sortByName named).Pairwise fun a b => decide (a.1 ≤ b.1) = true := by
    apply List.pairwise_mergeSort
    · intro a b c hab hbc
      simp only [decide_eq_true_eq] at *
      exact le_trans hab hbc
    · intro a b
      simp only [Bool.or_eq_true, decide_eq_true_eq]
      exact le_total _ _
  have hne : (sortByName named).Pairwise (·.1 ≠ ·.1) := by
    apply List.pairwise_map.mp
    exact ((List.mergeSort_perm _ _).map _).nodup_iff.mpr h
  exact hle.imp₂ (fun a b hab hne => lt_of_le_of_ne (of_decide_eq_true hab) hne) hne

/-! ## The files of a walk -/

theorem at?_cons (name : String) (rest : List String) (entries : List (String × Entry)) :
    (directory entries).at? (name :: rest) =
      (entries.lookup name).bind fun below => below.at? rest := by
  rw [at?]
  cases entries.lookup name <;> rfl

theorem lookup_eq_some_iff_mem {entries : List (String × Entry)}
    (h : (entries.map (·.1)).Nodup) {name : String} {e : Entry} :
    entries.lookup name = some e ↔ (name, e) ∈ entries := by
  rw [List.lookup_eq_some_iff]
  constructor
  · rintro ⟨before, behind, rfl, -⟩
    exact List.mem_append_right _ List.mem_cons_self
  · intro hmem
    obtain ⟨before, behind, rfl⟩ := List.append_of_mem hmem
    refine ⟨before, behind, rfl, fun named hnamed => bne_iff_ne.mpr ?_⟩
    rw [List.map_append, List.nodup_append] at h
    exact (h.2.2 _ (List.mem_map_of_mem hnamed) _ List.mem_cons_self).symm

theorem at?_cons_eq_some_iff {entries : List (String × Entry)} (h : (entries.map (·.1)).Nodup)
    {name : String} {rest : List String} {e : Entry} :
    (directory entries).at? (name :: rest) = some e ↔
      ∃ below, (name, below) ∈ entries ∧ below.at? rest = some e := by
  rw [at?_cons, Option.bind_eq_some_iff]
  simp only [lookup_eq_some_iff_mem h]

/-- The names of a tree can all stand in a path. -/
theorem IsTree.isName {e below : Entry} (h : e.IsTree) {names : List String}
    (hbelow : e.at? names = some below) : ∀ name ∈ names, Path.IsName name := by
  induction names generalizing e with
  | nil => exact nofun
  | cons name rest ih =>
    cases h with
    | file | link => cases hbelow
    | directory hnodup hnames htrees =>
      obtain ⟨mid, hmem, hrest⟩ := (at?_cons_eq_some_iff hnodup).mp hbelow
      exact List.forall_mem_cons.mpr ⟨hnames _ hmem, ih (htrees _ hmem) hrest⟩

theorem isListable_file (root : Path) (bytes : List UInt8) : IsListable root (.file bytes) := by
  intro names entries hbelow
  cases names <;> cases hbelow

theorem isListable_link (root : Path) (target : String) : IsListable root (.link target) := by
  intro names entries hbelow
  cases names <;> cases hbelow

theorem isListable_directory {root : Path} {entries : List (String × Entry)}
    (h : (entries.map (·.1)).Nodup) :
    IsListable root (.directory entries) ↔ root.text.utf8ByteSize ≤ FileSystem.maxPath ∧
      ∀ named ∈ entries, IsListable (root.child named.1) named.2 := by
  constructor
  · refine fun hlist => ⟨hlist [] entries rfl, fun named hmem names below hbelow => ?_⟩
    exact hlist (named.1 :: names) below ((at?_cons_eq_some_iff h).mpr ⟨named.2, hmem, hbelow⟩)
  · rintro ⟨hshort, hlist⟩ names below hbelow
    cases names with
    | nil => exact hshort
    | cons name rest =>
      obtain ⟨e, hmem, hrest⟩ := (at?_cons_eq_some_iff h).mp hbelow
      exact hlist (name, e) hmem rest below hrest

/-- A walk through a tree that can be listed tells of nothing but its files. -/
theorem IsTree.visits_eq {e : Entry} (h : e.IsTree) {place : Path} (hlist : e.IsListable place) :
    e.visits excluded place = (e.reached excluded).map fun names => .file (place.below names) := by
  induction h generalizing place with
  | file bytes => rfl
  | link target => rfl
  | @directory entries hnodup _ _ ih =>
    obtain ⟨hshort, hlist⟩ := (isListable_directory hnodup).mp hlist
    have heach : visitsOfEach excluded place entries =
        (reachedOfEach excluded entries).map fun named =>
          (named.1, named.2.map fun names => .file ((place.child named.1).below names)) := by
      rw [visitsOfEach_eq, reachedOfEach_eq, List.map_map]
      apply List.map_congr_left
      intro named hnamed
      rw [ih named hnamed (hlist named hnamed), Function.comp_apply]
      cases named.2.isBarred excluded named.1 <;> rfl
    rw [visits, if_neg (Nat.not_lt.mpr hshort), heach, reached,
      sortByName_map fun name (below : List (List String)) =>
        below.map fun names => Visit.file ((place.child name).below names),
      List.flatMap_map, List.map_flatMap]
    simp only [List.map_map]
    rfl

theorem IsTree.visits_files {e : Entry} (h : e.IsTree) {place : Path}
    (hlist : e.IsListable place) :
    (e.visits excluded place).filterMap Visit.file? = (e.reached excluded).map place.below := by
  rw [h.visits_eq hlist, List.filterMap_map]
  exact congrFun List.filterMap_eq_map _

theorem IsTree.visits_notes {e : Entry} (h : e.IsTree) {place : Path}
    (hlist : e.IsListable place) : (e.visits excluded place).filterMap Visit.note? = [] := by
  rw [h.visits_eq hlist, List.filterMap_map, List.filterMap_eq_nil_iff]
  exact fun _ _ => rfl

/-- A file comes before those whose names are greater at the first level where
they differ. -/
theorem IsTree.reached_pairwise {e : Entry} (h : e.IsTree) :
    (e.reached excluded).Pairwise (· < ·) := by
  induction h with
  | file bytes => exact List.pairwise_singleton _ _
  | link target => exact List.Pairwise.nil
  | @directory entries hnodup _ _ ih =>
    have hnames : ((reachedOfEach excluded entries).map (·.1)).Nodup := by
      rwa [reachedOfEach_eq, List.map_map]
    rw [reached, List.pairwise_flatMap]
    constructor
    · intro named hnamed
      rw [mem_sortByName, reachedOfEach_eq] at hnamed
      obtain ⟨old, hold, rfl⟩ := List.mem_map.mp hnamed
      have hbelow : (if old.2.isBarred excluded old.1 then []
          else old.2.reached excluded).Pairwise (· < ·) := by
        split
        · exact List.Pairwise.nil
        · exact ih old hold
      rw [List.pairwise_map]
      exact hbelow.imp fun hlt => List.cons_lt_cons_iff.mpr (.inr ⟨rfl, hlt⟩)
    · refine (sortByName_pairwise hnames).imp ?_
      intro a b hab x hx y hy
      obtain ⟨xs, -, rfl⟩ := List.mem_map.mp hx
      obtain ⟨ys, -, rfl⟩ := List.mem_map.mp hy
      exact List.cons_lt_cons_iff.mpr (.inl hab)

theorem mem_reached_directory {entries : List (String × Entry)} {names : List String} :
    names ∈ (directory entries).reached excluded ↔ ∃ name rest e, names = name :: rest ∧
      (name, e) ∈ entries ∧ e.isBarred excluded name = false ∧ rest ∈ e.reached excluded := by
  rw [reached, List.mem_flatMap]
  simp only [mem_sortByName, reachedOfEach_eq, List.mem_map]
  constructor
  · rintro ⟨_, ⟨⟨name, e⟩, hmem, rfl⟩, rest, hrest, rfl⟩
    cases hbarred : e.isBarred excluded name with
    | true => simp [hbarred] at hrest
    | false =>
      rw [hbarred] at hrest
      exact ⟨name, rest, e, rfl, hmem, hbarred, hrest⟩
  · rintro ⟨name, rest, e, rfl, hmem, hbarred, hrest⟩
    refine ⟨_, ⟨(name, e), hmem, rfl⟩, rest, ?_, rfl⟩
    rw [hbarred]
    exact hrest

/-- What is reached below a directory is what is reached below an entry of it that
is entered. -/
theorem isReached_directory {entries : List (String × Entry)} (h : (entries.map (·.1)).Nodup)
    {names : List String} :
    (directory entries).IsReached excluded names ↔ ∃ name rest e, names = name :: rest ∧
      (name, e) ∈ entries ∧ e.isBarred excluded name = false ∧ e.IsReached excluded rest := by
  constructor
  · rintro ⟨⟨bytes, hfile⟩, hentered⟩
    cases names with
    | nil => cases hfile
    | cons name rest =>
      obtain ⟨e, hmem, hfile⟩ := (at?_cons_eq_some_iff h).mp hfile
      refine ⟨name, rest, e, rfl, hmem, ?_, ⟨bytes, hfile⟩, ?_⟩
      · cases e with
        | file | link => rfl
        | directory below =>
          cases rest with
          | nil => cases hfile
          | cons next rest => exact hentered name List.mem_cons_self
      · intro other hother
        cases rest with
        | nil => cases hother
        | cons next rest => exact hentered other (List.mem_cons_of_mem _ hother)
  · rintro ⟨name, rest, e, rfl, hmem, hbarred, ⟨bytes, hfile⟩, hentered⟩
    refine ⟨⟨bytes, (at?_cons_eq_some_iff h).mpr ⟨e, hmem, hfile⟩⟩, fun other hother => ?_⟩
    cases rest with
    | nil => cases hother
    | cons next rest =>
      rcases List.mem_cons.mp hother with rfl | hother
      · cases e with
        | file | link => cases hfile
        | directory below => exact hbarred
      · exact hentered other hother

theorem IsTree.mem_reached {e : Entry} (h : e.IsTree) {names : List String} :
    names ∈ e.reached excluded ↔ e.IsReached excluded names := by
  induction h generalizing names with
  | file bytes =>
    rw [reached, List.mem_singleton]
    constructor
    · rintro rfl
      exact ⟨⟨bytes, rfl⟩, nofun⟩
    · rintro ⟨⟨_, hfile⟩, -⟩
      cases names with
      | nil => rfl
      | cons name rest => cases hfile
  | link target =>
    rw [reached]
    constructor
    · exact nofun
    · rintro ⟨⟨_, hfile⟩, -⟩
      cases names with
      | nil => cases hfile
      | cons name rest => cases hfile
  | @directory entries hnodup _ _ ih =>
    rw [mem_reached_directory, isReached_directory hnodup]
    constructor
    · rintro ⟨name, rest, e, rfl, hmem, hbarred, hrest⟩
      exact ⟨name, rest, e, rfl, hmem, hbarred, (ih (name, e) hmem).mp hrest⟩
    · rintro ⟨name, rest, e, rfl, hmem, hbarred, hrest⟩
      exact ⟨name, rest, e, rfl, hmem, hbarred, (ih (name, e) hmem).mpr hrest⟩

end Entry

/-! ## Types that are learned -/

namespace Scan

variable {fs : FileSystem} {filter : ScanFilter}

/-- The verdicts that a scan adds are those on the types of the files whose names
settle nothing. -/
theorem keep_get? {c : MimeCache} (h : c.IsSound) (files : List Path) {mime : String}
    {verdict : Bool} : (keep fs filter c files).2.get? mime = some verdict ↔
      c.get? mime = some verdict ∨ verdict = Mime.isBinary mime ∧
        ∃ file ∈ files, filter.ignoresName file = false ∧ Mime.ofFile fs file = mime := by
  induction files generalizing c with
  | nil => simp [keep]
  | cons file rest ih =>
    obtain ⟨-, hsound⟩ := filter.ignores_eq fs file h
    have hrest : (keep fs filter c (file :: rest)).2 =
        (keep fs filter (filter.ignores fs file c).2 rest).2 := rfl
    rw [hrest, ih hsound]
    simp only [List.exists_mem_cons_iff]
    unfold ScanFilter.ignores
    cases hname : filter.ignoresName file with
    | true => simp
    | false =>
      simp only [Bool.false_eq_true, if_false, h.ask_get?, true_and]
      constructor
      · rintro ((hold | ⟨hverdict, rfl⟩) | ⟨hverdict, hfile⟩)
        · exact .inl hold
        · exact .inr ⟨hverdict, .inl rfl⟩
        · exact .inr ⟨hverdict, .inr hfile⟩
      · rintro (hold | ⟨hverdict, rfl | hfile⟩)
        · exact .inl (.inl hold)
        · exact .inl (.inr ⟨hverdict, rfl⟩)
        · exact .inr ⟨hverdict, hfile⟩

end Scan

/-! ## Selection -/

namespace ScanFilter

/-- The type of a file below a root is asked for: no excluded directory stands
above it, and its name does not settle that it is left out. -/
structure Probes (f : ScanFilter) (root : Path) (e : Entry) (names : List String) : Prop
    extends e.IsReached f.excludes names where
  notUser : f.isUserFile (root.below names) = false
  notBinaryName : Mime.hasBinaryExtension (root.below names) f.extraBinaryExtensions = false

/-- A file below a root is to be found: its type is asked for, and is one of
text. -/
structure Selects (f : ScanFilter) (fs : FileSystem) (root : Path) (e : Entry)
    (names : List String) : Prop extends f.Probes root e names where
  notBinaryType : Mime.isBinary (Mime.ofFile fs (root.below names)) = false

theorem probes_iff {f : ScanFilter} {root : Path} {e : Entry} {names : List String} :
    f.Probes root e names ↔
      e.IsReached f.excludes names ∧ f.ignoresName (root.below names) = false := by
  unfold ignoresName
  rw [Bool.or_eq_false_iff]
  exact ⟨fun h => ⟨h.toIsReached, h.notUser, h.notBinaryName⟩, fun h => ⟨h.1, h.2.1, h.2.2⟩⟩

theorem selects_iff {f : ScanFilter} {fs : FileSystem} {root : Path} {e : Entry}
    {names : List String} : f.Selects fs root e names ↔
      e.IsReached f.excludes names ∧ f.leavesOut fs (root.below names) = false := by
  unfold leavesOut
  rw [Bool.or_eq_false_iff, ← and_assoc, ← probes_iff]
  exact ⟨fun h => ⟨h.toProbes, h.notBinaryType⟩, fun h => ⟨h.1, h.2⟩⟩

end ScanFilter

/-- A scan of a tree that can be listed finds the files that the filter selects
below the root, each of them once and in the order of their names at each level,
whatever it knows of types if that is right. It ends up knowing in addition the
verdicts on the types that were asked for. -/
theorem Scan.run_selects {fs : FileSystem} {root : Path} {entries : List (String × Entry)}
    (hroot : fs.entry root = .ok (.directory entries))
    (htree : (Entry.directory entries).IsTree)
    (hlist : (Entry.directory entries).IsListable root) (filter : ScanFilter) :
    ∃ places : List (List String), places.Pairwise (· < ·) ∧
      (∀ names, names ∈ places ↔ filter.Selects fs root (.directory entries) names) ∧
      (∀ names ∈ places, root.Leads names (root.below names)) ∧
      ∀ cache : MimeCache, cache.IsSound → ∃ cache' : MimeCache,
        run fs root filter cache false =
          .finished (places.map fun names => .ofPath (root.below names)) [] cache' ∧
        ∀ mime verdict, cache'.get? mime = some verdict ↔
          cache.get? mime = some verdict ∨ verdict = Mime.isBinary mime ∧
            ∃ names, filter.Probes root (.directory entries) names ∧
              Mime.ofFile fs (root.below names) = mime := by
  have hmem : ∀ names, names ∈ (Entry.directory entries).reached filter.excludes ↔
      (Entry.directory entries).IsReached filter.excludes names := fun _ => htree.mem_reached
  refine ⟨((Entry.directory entries).reached filter.excludes).filter
      fun names => !filter.leavesOut fs (root.below names), ?_, ?_, ?_, ?_⟩
  · exact htree.reached_pairwise.sublist List.filter_sublist
  · intro names
    rw [List.mem_filter, hmem, Bool.not_eq_true', ScanFilter.selects_iff]
  · intro names hnames
    obtain ⟨⟨bytes, hfile⟩, -⟩ := (hmem names).mp (List.mem_of_mem_filter hnames)
    exact Path.leads_below (htree.isName hfile) root
  · intro cache hsound
    obtain ⟨hkept, -⟩ := keep_eq fs filter hsound
      (((Entry.directory entries).reached filter.excludes).map root.below)
    refine ⟨(keep fs filter cache
      (((Entry.directory entries).reached filter.excludes).map root.below)).2, ?_,
      fun mime verdict => ?_⟩
    · unfold run
      rw [hroot]
      simp only [Bool.false_eq_true, if_false, htree.visits_files hlist, htree.visits_notes hlist,
        hkept, List.filter_map, List.map_map]
      rfl
    · rw [keep_get? hsound]
      simp only [List.mem_map, exists_exists_and_eq_and, hmem, ScanFilter.probes_iff, and_assoc]

/-- A directory with a unit, one that is excluded, and one with a header and a file
that is no text. Two of the entries are a link and the settings of a user. -/
def mixedTree : List (String × Entry) :=
  [("main.c", .file [105]),
    (".git", .directory [("HEAD", .file [114])]),
    ("db.user", .file [60]),
    ("latest", .link "lib"),
    ("lib", .directory [("x.h", .file []), ("image", .file [0])])]

/-- The header is found, whose type is known before. The file that is no text is
not, but its type is known from then on. -/
theorem Scan.run_selects_mixedTree :
    let fs : FileSystem := ⟨.directory [("p", .directory mixedTree)], none⟩
    let filter : ScanFilter := ⟨⟨"/p/db"⟩, [], [".git"]⟩
    let cache : MimeCache := (MimeCache.empty.ask "text/x-chdr").2
    fs.entry ⟨"/p"⟩ = .ok (.directory mixedTree) ∧ (Entry.directory mixedTree).IsTree ∧
      (Entry.directory mixedTree).IsListable ⟨"/p"⟩ ∧ cache.IsSound ∧
      ∃ (places : List (List String)) (cache' : MimeCache),
        run fs ⟨"/p"⟩ filter cache false =
          .finished (places.map fun names => .ofPath (Path.below ⟨"/p"⟩ names)) [] cache' ∧
        ["lib", "x.h"] ∈ places ∧ ["lib", "image"] ∉ places ∧ [".git", "HEAD"] ∉ places ∧
        cache'.get? "text/x-chdr" = some false ∧
        cache'.get? "application/octet-stream" = some true := by
  intro fs filter cache
  have hroot : fs.entry ⟨"/p"⟩ = .ok (.directory mixedTree) := rfl
  have hgit : (Entry.directory [("HEAD", .file [114])]).IsTree :=
    .directory (by decide) (by decide) (by simp [Entry.IsTree.file])
  have hlib : (Entry.directory [("x.h", .file []), ("image", .file [0])]).IsTree :=
    .directory (by decide) (by decide) (by simp [Entry.IsTree.file])
  have htree : (Entry.directory mixedTree).IsTree := by
    refine .directory (by decide) (by decide) ?_
    simp [mixedTree, hgit, hlib, Entry.IsTree.file, Entry.IsTree.link]
  have hlist : (Entry.directory mixedTree).IsListable ⟨"/p"⟩ := by
    refine (Entry.isListable_directory (by decide)).mpr ⟨by decide, ?_⟩
    have hbelow : (Path.child ⟨"/p"⟩ ".git").text.utf8ByteSize ≤ FileSystem.maxPath ∧
        (Path.child ⟨"/p"⟩ "lib").text.utf8ByteSize ≤ FileSystem.maxPath := by decide
    simpa [mixedTree, Entry.isListable_directory, Entry.isListable_file, Entry.isListable_link]
      using hbelow
  have hsound : cache.IsSound := MimeCache.empty_isSound.ask "text/x-chdr"
  obtain ⟨places, -, hplaces, -, hscan⟩ := Scan.run_selects hroot htree hlist filter
  obtain ⟨cache', hrun, hcache⟩ := hscan cache hsound
  have himage : filter.Probes ⟨"/p"⟩ (.directory mixedTree) ["lib", "image"] :=
    ⟨⟨⟨[0], rfl⟩, by decide⟩, by decide, by decide⟩
  refine ⟨hroot, htree, hlist, hsound, places, cache', hrun, ?_, ?_, ?_, ?_, ?_⟩
  · exact (hplaces _).mpr ⟨⟨⟨⟨[], rfl⟩, by decide⟩, by decide, by decide⟩, by decide⟩
  · intro hmem
    exact absurd ((hplaces _).mp hmem).notBinaryType (by decide)
  · intro hmem
    exact absurd (((hplaces _).mp hmem).entered ".git" (by decide)) (by decide)
  · exact (hcache _ _).mpr (.inl rfl)
  · exact (hcache _ _).mpr (.inr ⟨by decide, ["lib", "image"], himage, by decide⟩)

end CompileCommands
