-- Files that are in several parts. A part is made for each list of flags, and a
-- file is in the part of each of its records. So a file is in as many parts as its
-- records have different flags, and the parts are apart if each file has but one
-- list of flags.
import CompileCommands.Proofs.BuildPart.Partition
import CompileCommands.Proofs.Database.Writing
import CompileCommands.Proofs.Path.Components
import Mathlib.Data.List.Dedup
import Mathlib.Data.List.Pairwise

namespace CompileCommands

open Database

/-! ## Files of parts -/

/-- The file is one of the files of the part, however it is spelled. -/
def BuildPart.hasFile (part : BuildPart) (file : Path) : Bool :=
  part.files.toList.any (·.same file)

/-- No file is in both parts. -/
def BuildPart.IsApart (part other : BuildPart) : Prop :=
  ∀ file, ¬ (part.hasFile file = true ∧ other.hasFile file = true)

/-- The different lists of flags that a file is compiled with. -/
def flagsOfFile (records : List PlainRecord) (file : Path) : List (List String) :=
  ((records.filter (·.sourceFile.same file)).map PlainRecord.flags).dedup

/-- No file is compiled with different flags. -/
def HaveOneEach (records : List PlainRecord) : Prop :=
  ∀ r ∈ records, ∀ r' ∈ records, r.sourceFile.same r'.sourceFile = true → r.flags = r'.flags

theorem mem_flagsOfFile {records : List PlainRecord} {file : Path} {flags : List String} :
    flags ∈ flagsOfFile records file ↔
      ∃ r ∈ records, r.sourceFile.same file = true ∧ r.flags = flags := by
  simp [flagsOfFile, and_assoc]

/-! ## Files of groups -/

/-- The file is the source file of a record of the group. -/
def groupHasFile (contents : Contents) (file : Path) (g : RecordGroup) : Bool :=
  (plainMembers contents g).any (·.sourceFile.same file)

/-- No file is in both groups. -/
def AreApart (contents : Contents) (g h : RecordGroup) : Prop :=
  ∀ file, ¬ (groupHasFile contents file g = true ∧ groupHasFile contents file h = true)

instance (contents : Contents) : Std.Symm (AreApart contents) :=
  ⟨fun _ _ h file hboth => h file hboth.symm⟩

section Group

variable {ctx : BuildContext} {contents : Contents} {g : RecordGroup} {part : BuildPart}

theorem hasFile_of_isOf (h : part.IsOf ctx contents g) (file : Path) :
    part.hasFile file = groupHasFile contents file g := by
  have hfiles := filesOfGroup_holds g
  have hpart : part.files = filesOfGroup g := by
    obtain ⟨flags, -, rfl⟩ := h
    rfl
  rw [Bool.eq_iff_iff]
  unfold BuildPart.hasFile groupHasFile plainMembers
  simp only [hpart, List.any_eq_true, List.any_map, Function.comp_apply]
  constructor
  · rintro ⟨p, hp, hsame⟩
    obtain ⟨r, hr, rfl⟩ := List.mem_map.mp (hfiles.sound p hp)
    exact ⟨r, hr, hsame⟩
  · rintro ⟨r, hr, hsame⟩
    obtain ⟨p, hp, hfile⟩ := hfiles.complete _ (List.mem_map_of_mem hr)
    exact ⟨p, hp, Path.same_trans hfile hsame⟩

theorem map_hasFile {groups : List RecordGroup} {parts : List BuildPart}
    (h : List.Forall₂ (BuildPart.IsOf ctx contents) groups parts) :
    parts.map BuildPart.hasFile = groups.map fun g file => groupHasFile contents file g := by
  induction h with
  | nil => rfl
  | cons hpart _ ih =>
    rw [List.map_cons, List.map_cons, ih]
    exact congrArg (· :: _) (funext (hasFile_of_isOf hpart))

theorem pairwise_isApart {groups : List RecordGroup} {parts : List BuildPart}
    (h : List.Forall₂ (BuildPart.IsOf ctx contents) groups parts) :
    parts.Pairwise BuildPart.IsApart ↔ groups.Pairwise (AreApart contents) := by
  have hmap : (parts.map BuildPart.hasFile).Pairwise
      (fun has has' => ∀ file, ¬ (has file = true ∧ has' file = true)) ↔
        groups.Pairwise (AreApart contents) := by
    rw [map_hasFile h, List.pairwise_map]
    rfl
  rwa [List.pairwise_map] at hmap

end Group

/-! ## Parts and the flags of a file -/

section Database

variable {fs : FileSystem} {database : Path} {suffix : String} {bytes : List UInt8}

theorem groupHasFile_iff {g : RecordGroup} {file : Path}
    (hg : g ∈ groupRecords (parse fs database suffix bytes).1.records) :
    groupHasFile (parse fs database suffix bytes).1 file g = true ↔
      ∃ r ∈ (readRecords fs database bytes).plain, r.sourceFile.same file = true ∧
        r.flags = (parse fs database suffix bytes).1.flagsOf g.1 := by
  unfold groupHasFile
  rw [List.any_eq_true]
  constructor
  · rintro ⟨r, hr, hsame⟩
    obtain ⟨hr, hflags⟩ := (mem_plainMembers hg).mp hr
    exact ⟨r, hr, hsame, hflags⟩
  · rintro ⟨r, hr, hsame, hflags⟩
    exact ⟨r, (mem_plainMembers hg).mpr ⟨hr, hflags⟩, hsame⟩

/-- No two groups have the same flags. -/
theorem groups_pairwise (fs : FileSystem) (database : Path) (suffix : String)
    (bytes : List UInt8) :
    (groupRecords (parse fs database suffix bytes).1.records).Pairwise fun g h =>
      (parse fs database suffix bytes).1.flagsOf g.1 ≠
        (parse fs database suffix bytes).1.flagsOf h.1 := by
  have hheld := readRecords_holds fs database bytes
  have hordered := groupRecords_pairwise (fun r hr => hheld r (mem_sortRecords.mp hr))
    (sortRecords_pairwise hheld)
  exact hordered.imp ne_of_compare_lt

/-- The groups with a file stand for the flags of the file. -/
theorem countP_groupHasFile (file : Path) :
    (groupRecords (parse fs database suffix bytes).1.records).countP
        (groupHasFile (parse fs database suffix bytes).1 file) =
      (flagsOfFile (readRecords fs database bytes).plain file).length := by
  have hdistinct : (((groupRecords (parse fs database suffix bytes).1.records).filter
      (groupHasFile (parse fs database suffix bytes).1 file)).map
        ((parse fs database suffix bytes).1.flagsOf ·.1)).Nodup :=
    List.pairwise_map.mpr ((groups_pairwise fs database suffix bytes).filter _)
  have hperm := (List.perm_ext_iff_of_nodup hdistinct (List.nodup_dedup _)).mpr fun flags => by
    rw [← flagsOfFile, mem_flagsOfFile, List.mem_map]
    constructor
    · rintro ⟨g, hg, rfl⟩
      obtain ⟨hg, hfile⟩ := List.mem_filter.mp hg
      exact (groupHasFile_iff hg).mp hfile
    · rintro ⟨r, hr, hsame, rfl⟩
      obtain ⟨g, hg, hflags⟩ := exists_group suffix hr
      exact ⟨g, List.mem_filter.mpr ⟨hg, (groupHasFile_iff hg).mpr ⟨r, hr, hsame, hflags⟩⟩,
        hflags.symm⟩
  rw [List.countP_eq_length_filter]
  exact (List.length_map _).symm.trans hperm.length_eq

section Parts

variable {ctx : BuildContext} {parts : List BuildPart}
  (hparts : List.Forall₂ (BuildPart.IsOf ctx (parse fs database suffix bytes).1)
    (groupRecords (parse fs database suffix bytes).1.records) parts)

include hparts

theorem countP_hasFile (file : Path) : parts.countP (·.hasFile file) =
    (flagsOfFile (readRecords fs database bytes).plain file).length := by
  rw [← countP_groupHasFile]
  have hcount := congrArg (List.countP (· file)) (map_hasFile hparts)
  rwa [List.countP_map, List.countP_map] at hcount

theorem exists_hasFile_iff (file : Path) : (∃ part ∈ parts, part.hasFile file = true) ↔
    ∃ r ∈ (readRecords fs database bytes).plain, r.sourceFile.same file = true := by
  rw [← List.countP_pos_iff, countP_hasFile hparts, List.length_pos_iff_exists_mem]
  simp only [mem_flagsOfFile]
  constructor
  · rintro ⟨flags, r, hr, hsame, -⟩
    exact ⟨r, hr, hsame⟩
  · rintro ⟨r, hr, hsame⟩
    exact ⟨r.flags, r, hr, hsame, rfl⟩

theorem pairwise_isApart_iff :
    parts.Pairwise BuildPart.IsApart ↔ HaveOneEach (readRecords fs database bytes).plain := by
  rw [pairwise_isApart hparts]
  constructor
  · intro hapart r hr r' hr' hsame
    obtain ⟨g, hg, hflags⟩ := exists_group suffix hr
    obtain ⟨g', hg', hflags'⟩ := exists_group suffix hr'
    rcases eq_or_ne g g' with rfl | hne
    · rw [hflags, hflags']
    · -- Two groups with the file of both records are one.
      have hfile := (groupHasFile_iff hg).mpr ⟨r, hr, hsame, hflags⟩
      have hfile' := (groupHasFile_iff hg').mpr ⟨r', hr', beq_self_eq_true _, hflags'⟩
      exact absurd ⟨hfile, hfile'⟩ (hapart.forall hg hg' hne r'.sourceFile)
  · intro hone
    refine (groups_pairwise fs database suffix bytes).imp_of_mem ?_
    rintro g h hg hh hne file ⟨hfile, hfile'⟩
    obtain ⟨r, hr, hsame, hflags⟩ := (groupHasFile_iff hg).mp hfile
    obtain ⟨r', hr', hsame', hflags'⟩ := (groupHasFile_iff hh).mp hfile'
    have hfiles := Path.same_trans hsame (Path.same_symm hsame')
    exact hne (hflags.symm.trans ((hone r hr r' hr' hfiles).trans hflags'))

end Parts

end Database

/-- Without extra files, the files of the parts are the source files of the records. A
file is in as many parts as there are lists of flags that it is compiled with, so the
parts are apart just if there is one for each file. -/
theorem parts_share_files (fs : FileSystem) (database : Path) (suffix : String)
    (bytes : List UInt8) (ctx : BuildContext) (env : BuildEnvironment)
    (hextra : (parse fs database suffix bytes).1.extraFiles = []) :
    let records := (readRecords fs database bytes).plain
    let contents := (parse fs database suffix bytes).1
    let parts := (BuildDescription.ofContentsIn ctx env contents).1.parts
    (∀ file, (∃ part ∈ parts, part.hasFile file = true) ↔
      ∃ r ∈ records, r.sourceFile.same file = true) ∧
    (∀ file, parts.countP (·.hasFile file) = (flagsOfFile records file).length) ∧
    (parts.Pairwise BuildPart.IsApart ↔ HaveOneEach records) := by
  intro records contents parts
  obtain ⟨made, hmade, heq⟩ := exists_parts ctx env contents
  obtain rfl : parts = made := by
    rw [extraParts, if_pos hextra, List.append_nil] at heq
    exact heq
  exact ⟨exists_hasFile_iff hmade, countP_hasFile hmade, pairwise_isApart_iff hmade⟩

/-! ## A file that is compiled twice -/

/-- One file is compiled with two macros, and another one only with the first. -/
def compiledTwice : List Record.Written :=
  [⟨"/proj", "/proj/a.c", ["cc", "-DA"]⟩, ⟨"/proj", "/proj/b.c", ["cc", "-DA"]⟩,
    ⟨"/proj", "/proj/a.c", ["cc", "-DB"]⟩]

/-- The text of the two files' database. -/
def compiledTwiceText : List UInt8 := Utf8.ofText (writtenText compiledTwice)

theorem plain_compiledTwice :
    (readRecords .empty ⟨"/proj/db"⟩ compiledTwiceText).plain =
      [⟨["cc", "-DA"], ⟨"/proj/a.c"⟩, ⟨"/proj"⟩⟩, ⟨["cc", "-DA"], ⟨"/proj/b.c"⟩, ⟨"/proj"⟩⟩,
        ⟨["cc", "-DB"], ⟨"/proj/a.c"⟩, ⟨"/proj"⟩⟩] := by
  have habsolute : ∀ w ∈ compiledTwice, (Path.ofNative w.file).isAbsolute = true := by decide
  have hmissing : ∀ w ∈ compiledTwice, IsMissing .empty w :=
    fun w hw => IsMissing.of_isAbsolute .empty (habsolute w hw)
  exact (plain_writtenText _ hmissing).trans (by decide +kernel)

theorem extraFiles_compiledTwice :
    (parse .empty ⟨"/proj/db"⟩ ".files" compiledTwiceText).1.extraFiles = [] := by
  have hnone : readExtras .empty (extrasPath ⟨"/proj/db"⟩ ".files") = [] := by decide +kernel
  exact hnone

theorem parts_share_files_compiledTwice :
    let ctx : BuildContext := ⟨⟨"/proj/db"⟩, .empty, .unix⟩
    let env : BuildEnvironment := ⟨⟨none, none⟩, some ⟨"/sysroot"⟩⟩
    let contents := (parse .empty ⟨"/proj/db"⟩ ".files" compiledTwiceText).1
    let parts := (BuildDescription.ofContentsIn ctx env contents).1.parts
    contents.extraFiles = [] ∧ (∃ part ∈ parts, part.hasFile ⟨"/proj//b.c"⟩ = true) ∧
      parts.countP (·.hasFile ⟨"/proj/a.c"⟩) = 2 ∧ parts.countP (·.hasFile ⟨"/proj/b.c"⟩) = 1 ∧
      ¬ parts.Pairwise BuildPart.IsApart := by
  intro ctx env contents parts
  have hextra := extraFiles_compiledTwice
  obtain ⟨hunion, hcount, hapart⟩ :=
    parts_share_files .empty ⟨"/proj/db"⟩ ".files" compiledTwiceText ctx env hextra
  rw [plain_compiledTwice] at hunion hcount hapart
  refine ⟨hextra, (hunion _).mpr ?_, (hcount _).trans ?_, (hcount _).trans ?_, fun h => ?_⟩
  · exact ⟨_, List.mem_cons_of_mem _ List.mem_cons_self, by decide⟩
  · decide +kernel
  · decide +kernel
  · exact absurd (hapart.mp h _ List.mem_cons_self _
      (List.mem_cons_of_mem _ (List.mem_cons_of_mem _ List.mem_cons_self)) (by decide)) (by decide)

/-- The file that is compiled with two macros is in two parts. -/
theorem not_pairwise_isApart_compiledTwice :
    ¬ ∀ (fs : FileSystem) (database : Path) (suffix : String) (bytes : List UInt8)
      (ctx : BuildContext) (env : BuildEnvironment),
      (parse fs database suffix bytes).1.extraFiles = [] →
      (BuildDescription.ofContentsIn ctx env (parse fs database suffix bytes).1).1.parts.Pairwise
        BuildPart.IsApart := by
  intro hall
  let ctx : BuildContext := ⟨⟨"/proj/db"⟩, .empty, .unix⟩
  let env := ctx.registry.buildEnvironment
  have hapart := hall .empty ⟨"/proj/db"⟩ ".files" compiledTwiceText ctx env
    extraFiles_compiledTwice
  obtain ⟨made, hmade, heq⟩ :=
    exists_parts ctx env (parse .empty ⟨"/proj/db"⟩ ".files" compiledTwiceText).1
  rw [heq, List.pairwise_append, pairwise_isApart_iff hmade, plain_compiledTwice] at hapart
  have hsame := hapart.1 _ List.mem_cons_self _
    (List.mem_cons_of_mem _ (List.mem_cons_of_mem _ List.mem_cons_self)) (by decide)
  exact absurd hsame (by decide)

end CompileCommands
