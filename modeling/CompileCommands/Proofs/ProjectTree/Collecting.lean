-- Files that are put into a folder one after another, none of them below
-- another one. Each place comes to be listed once, with the file that was put
-- there first.
import CompileCommands.Proofs.ProjectTree.Adding
import CompileCommands.Proofs.ProjectTree.Listing
import CompileCommands.Proofs.ProjectTree.Reading

namespace CompileCommands.Folder

/-! ## Files added one after another -/

/-- Files put into a folder one after another. -/
def addFiles [Reading] (f : Folder) (files : List FileNode) : Folder :=
  files.foldl (fun f file => (f.addFile file).2) f

/-- Files whose names are read as they stand are put under these names. -/
theorem addFiles_unicode [Reading] {f : Folder} {files : List FileNode}
    (hread : ∀ x ∈ files, x.path.IsReadFrom f.path)
    (hnamed : ∀ x ∈ files, x.path.IsNamedFrom f.path) :
    f.addFiles files = @addFiles .unicode f files := by
  induction files generalizing f with
  | nil => rfl
  | cons x files ih =>
    obtain ⟨hx, hread⟩ := List.forall_mem_cons.mp hread
    obtain ⟨hxnamed, hnamed⟩ := List.forall_mem_cons.mp hnamed
    have hpath : (@addFile .unicode f x).2.path = f.path := addFile_path f x
    show (f.addFile x).2.addFiles files = _
    rw [addFile_unicode hx hxnamed]
    exact ih (hpath.symm ▸ hread) (hpath.symm ▸ hnamed)

/-- Some files were put into the folder, one after another. The first one at
each place is listed. -/
structure Collects (f : Folder) (added : List FileNode) : Prop where
  ordered : f.IsOrdered
  confined : f.Confines fun p => ∃ x ∈ added, x.path = p
  placed : ∀ x ∈ added, ∃ names l, f.path.Leads names x.path ∧ f.labelAt? names = some l
  once : f.files.Pairwise fun x y => x.path.same y.path = false
  listed : ∀ x, x ∈ f.files ↔ added.find? (·.path.same x.path) = some x

theorem named_collects (path : Path) (displayName : String) :
    (named path displayName).Collects [] where
  ordered := named_isOrdered _ _
  confined := named_confines path displayName _
  placed := nofun
  once := by
    rw [files_eq]
    exact .nil
  listed x := by
    rw [files_eq]
    exact ⟨nofun, nofun⟩

section Collects

variable {f : Folder} {added : List FileNode} {file : FileNode} {dirs : List String}
  {name : String}

/-- A file is left out just if its place is taken by one of the others. -/
theorem Collects.left_iff (h : f.Collects added) (hleads : f.path.Leads (dirs ++ [name]) file.path)
    (hapart : ∀ x ∈ added, file.path.isBelow x.path = false ∧ x.path.isBelow file.path = false) :
    (f.descend (insertFile file) false dirs).1 = false ↔
      ∃ x ∈ added, x.path.same file.path = true := by
  constructor
  · intro hleft
    obtain ⟨q, ⟨x, hx, rfl⟩, hxleads⟩ := h.confined.exists_taken hleads
      (fun q ⟨x, hx, hq⟩ => hq ▸ hapart x hx) hleft
    exact ⟨x, hx, hxleads.same hleads⟩
  · rintro ⟨x, hx, hsame⟩
    obtain ⟨names, l, hxleads, hlabel⟩ := h.placed x hx
    obtain rfl := (hxleads.congr hsame).unique hleads
    rw [← hleads.displayName] at hlabel
    refine Bool.eq_false_iff.mpr fun hput => ?_
    rw [labelAt?_eq_none_of_descend file hput] at hlabel
    cases hlabel

theorem Collects.placed_addFile (h : f.Collects added)
    (hleads : f.path.Leads (dirs ++ [name]) file.path)
    (hapart : ∀ x ∈ added, file.path.isBelow x.path = false ∧ x.path.isBelow file.path = false) :
    ∃ l, (f.addFile file).2.labelAt? (dirs ++ [name]) = some l := by
  cases hput : (f.descend (insertFile file) false dirs).1 with
  | true =>
    have hlabel := labelAt?_of_descend file hput
    rw [hleads.displayName, ← addFile_eq hleads] at hlabel
    exact ⟨_, hlabel⟩
  | false =>
    obtain ⟨x, hx, hsame⟩ := (h.left_iff hleads hapart).mp hput
    obtain ⟨names, l, hxleads, hlabel⟩ := h.placed x hx
    obtain rfl := (hxleads.congr hsame).unique hleads
    exact ⟨l, labelAt?_addFile file hlabel⟩

/-- A file comes to the listing just if its place is free. -/
theorem Collects.files_addFile (h : f.Collects added)
    (hleads : f.path.Leads (dirs ++ [name]) file.path)
    (hapart : ∀ x ∈ added, file.path.isBelow x.path = false ∧ x.path.isBelow file.path = false) :
    (∀ x ∈ added, x.path.same file.path = false) ∧
        (f.addFile file).2.files.Perm (file :: f.files) ∨
      (∃ x ∈ added, x.path.same file.path = true) ∧ (f.addFile file).2.files.Perm f.files := by
  have hleft := h.left_iff hleads hapart
  have hfiles := h.ordered.files_descend file dirs
  rw [addFile_eq hleads]
  split at hfiles
  · rename_i hput
    refine .inl ⟨fun x hx => Bool.eq_false_iff.mpr fun hsame => ?_, hfiles⟩
    rw [hleft.mpr ⟨x, hx, hsame⟩] at hput
    cases hput
  · rename_i hput
    exact .inr ⟨hleft.mp (Bool.eq_false_iff.mpr hput), hfiles⟩

theorem Collects.listed_cons (h : f.Collects added)
    (hfree : ∀ x ∈ added, x.path.same file.path = false) (y : FileNode) :
    y ∈ file :: f.files ↔ (added ++ [file]).find? (·.path.same y.path) = some y := by
  rw [List.mem_cons, h.listed y, List.find?_append, Option.or_eq_some_iff]
  constructor
  · rintro (rfl | hy)
    · refine .inr ⟨List.find?_eq_none.mpr fun x hx => by simp [hfree x hx], ?_⟩
      exact List.find?_cons_of_pos (beq_self_eq_true y.path.components)
    · exact .inl hy
  · rintro (hy | ⟨-, hy⟩)
    · exact .inr hy
    · exact .inl (List.mem_singleton.mp (List.mem_of_find?_eq_some hy))

theorem Collects.listed_of_taken (h : f.Collects added)
    (htaken : ∃ x ∈ added, x.path.same file.path = true) (y : FileNode) :
    y ∈ f.files ↔ (added ++ [file]).find? (·.path.same y.path) = some y := by
  rw [h.listed y, List.find?_append, Option.or_eq_some_iff]
  refine ⟨.inl, fun hy => hy.resolve_right ?_⟩
  rintro ⟨hnone, hy⟩
  obtain ⟨x, hx, hsame⟩ := htaken
  obtain rfl := List.mem_singleton.mp (List.mem_of_find?_eq_some hy)
  exact absurd hsame (List.find?_eq_none.mp hnone x hx)

theorem Collects.mem_added (h : f.Collects added) {x : FileNode} (hx : x ∈ f.files) : x ∈ added :=
  List.mem_of_find?_eq_some ((h.listed x).mp hx)

theorem Collects.addFile (h : f.Collects added)
    (hleads : f.path.Leads (dirs ++ [name]) file.path)
    (hapart : ∀ x ∈ added, file.path.isBelow x.path = false ∧ x.path.isBelow file.path = false) :
    (f.addFile file).2.Collects (added ++ [file]) := by
  have hfiles := h.files_addFile hleads hapart
  refine ⟨addFile_eq hleads ▸ h.ordered.descend file dirs, ?_, ?_, ?_, ?_⟩
  · intro names l hne hlabel
    obtain ⟨p, more, hp, hmore⟩ := h.confined.addFile hleads names l hne hlabel
    refine ⟨p, more, ?_, hmore⟩
    rcases hp with ⟨x, hx, rfl⟩ | rfl
    · exact ⟨x, List.mem_append_left _ hx, rfl⟩
    · exact ⟨file, by simp, rfl⟩
  · intro x hx
    simp only [addFile_path]
    rcases List.mem_append.mp hx with hx | hx
    · obtain ⟨names, l, hxleads, hlabel⟩ := h.placed x hx
      exact ⟨names, l, hxleads, labelAt?_addFile file hlabel⟩
    · obtain rfl := List.mem_singleton.mp hx
      obtain ⟨l, hlabel⟩ := h.placed_addFile hleads hapart
      exact ⟨_, l, hleads, hlabel⟩
  · have hsymm : ∀ {x y : FileNode}, x.path.same y.path = false → y.path.same x.path = false :=
      fun hxy => hxy ▸ Bool.beq_comm
    rcases hfiles with ⟨hfree, hfiles⟩ | ⟨-, hfiles⟩
    · refine (hfiles.pairwise_iff hsymm).mpr (List.pairwise_cons.mpr ⟨fun x hx => ?_, h.once⟩)
      exact hsymm (hfree x (h.mem_added hx))
    · exact (hfiles.pairwise_iff hsymm).mpr h.once
  · intro x
    rcases hfiles with ⟨hfree, hfiles⟩ | ⟨htaken, hfiles⟩
    · exact hfiles.mem_iff.trans (h.listed_cons hfree x)
    · exact hfiles.mem_iff.trans (h.listed_of_taken htaken x)

theorem Collects.addFiles (h : f.Collects added) {more : List FileNode}
    (hleads : ∀ x ∈ more, ∃ dirs name, f.path.Leads (dirs ++ [name]) x.path)
    (hapart : ∀ x ∈ added ++ more, ∀ y ∈ added ++ more, x.path.isBelow y.path = false) :
    (f.addFiles more).Collects (added ++ more) := by
  induction more generalizing f added with
  | nil => rwa [List.append_nil]
  | cons file more ih =>
    obtain ⟨⟨dirs, name, hfile⟩, hmore⟩ := List.forall_mem_cons.mp hleads
    have hmem : file ∈ added ++ file :: more := by simp
    have hnext : (f.addFile file).2.Collects (added ++ [file]) := h.addFile hfile fun x hx => by
      have hx' : x ∈ added ++ file :: more := List.mem_append_left _ hx
      exact ⟨hapart file hmem x hx', hapart x hx' file hmem⟩
    rw [List.append_cons]
    exact ih hnext (by simpa using hmore) (by rwa [← List.append_cons])

end Collects

/-- The first file at each place is listed. -/
theorem Collects.exists_listed {f : Folder} {added : List FileNode} (h : f.Collects added)
    {x : FileNode} (hx : x ∈ added) : ∃ y ∈ f.files, y.path.same x.path = true := by
  have hsome : (added.find? (·.path.same x.path)).isSome :=
    List.find?_isSome.mpr ⟨x, hx, beq_self_eq_true x.path.components⟩
  obtain ⟨y, hy⟩ := Option.isSome_iff_exists.mp hsome
  have hsame : y.path.same x.path = true := by simpa using List.find?_some hy
  refine ⟨y, (h.listed y).mpr ?_, hsame⟩
  have hplace : (fun z : FileNode => z.path.same y.path) = fun z => z.path.same x.path := by
    funext z
    unfold Path.same
    rw [beq_iff_eq.mp hsame]
  rwa [hplace]

end CompileCommands.Folder
