-- The parts of a database as a partition of its records. There is one part
-- for each list of flags that some record has, and the parts come in the
-- order of these lists. That keys stand for flags, that records are sorted by
-- them and that neighbours are compared shows nowhere in what is stated.
import CompileCommands.Proofs.BuildPart.Grouping
import CompileCommands.Proofs.Database.Sorting

namespace CompileCommands

open Database

/-! ## Records with the same flags -/

/-- The records of a text with some flags are those of one group. -/
theorem plain_filter_of_mem_group {fs : FileSystem} {database : Path} {suffix : String}
    {bytes : List UInt8} {g : RecordGroup}
    (hg : g ∈ groupRecords (parse fs database suffix bytes).1.records) :
    (readRecords fs database bytes).plain.filter
        (·.flags = (parse fs database suffix bytes).1.flagsOf g.1) =
      (groupMembers g).map (·.plain (readRecords fs database bytes).table) := by
  have hheld := readRecords_holds fs database bytes
  have hgroup := filter_group (fun r hr => hheld r (mem_sortRecords.mp hr))
    (sortRecords_pairwise hheld) hg
  rw [sortRecords_filter hheld] at hgroup
  rw [← hgroup]
  exact List.filter_map

/-- The records of a group, with their flags written out. -/
def plainMembers (contents : Contents) (g : RecordGroup) : List PlainRecord :=
  (groupMembers g).map (·.plain contents.table)

section SameFlags

variable {fs : FileSystem} {database : Path} {suffix : String} {bytes : List UInt8}
  {ctx : BuildContext} {contents : Contents} {g : RecordGroup} {r r' : PlainRecord}

theorem exists_group (suffix : String) (hr : r ∈ (readRecords fs database bytes).plain) :
    ∃ g ∈ groupRecords (parse fs database suffix bytes).1.records,
      r.flags = (parse fs database suffix bytes).1.flagsOf g.1 := by
  obtain ⟨key, hkey, rfl⟩ := List.mem_map.mp hr
  have hmem : key ∈ (groupRecords (parse fs database suffix bytes).1.records).flatMap
      groupMembers := by
    rw [groupRecords_flatMap]
    exact mem_sortRecords.mpr hkey
  obtain ⟨g, hg, hkey⟩ := List.mem_flatMap.mp hmem
  exact ⟨g, hg, congrArg (readRecords fs database bytes).table.flagsOf (flags_of_mem_group hg hkey)⟩

theorem mem_plainMembers (hg : g ∈ groupRecords (parse fs database suffix bytes).1.records) :
    r ∈ plainMembers (parse fs database suffix bytes).1 g ↔
      r ∈ (readRecords fs database bytes).plain ∧
        r.flags = (parse fs database suffix bytes).1.flagsOf g.1 := by
  have hfilter := plain_filter_of_mem_group hg
  have hmembers : plainMembers (parse fs database suffix bytes).1 g =
      (readRecords fs database bytes).plain.filter
        (·.flags = (parse fs database suffix bytes).1.flagsOf g.1) := hfilter.symm
  rw [hmembers, List.mem_filter, decide_eq_true_iff]

/-- The file of each record of a group is one of the files of its part. -/
theorem exists_file (hpart : BuildPart.IsOf ctx contents g part)
    (hr : r ∈ plainMembers contents g) :
    ∃ file ∈ part.files.toList, file.same r.sourceFile = true := by
  obtain ⟨key, hkey, rfl⟩ := List.mem_map.mp hr
  obtain ⟨flags, -, rfl⟩ := hpart
  exact (filesOfGroup_holds g).complete _ (List.mem_map_of_mem hkey)

theorem exists_of_mem_groups {R : RecordGroup → BuildPart → Prop} {groups : List RecordGroup}
    {parts : List BuildPart} (h : List.Forall₂ R groups parts) (hg : g ∈ groups) :
    ∃ part ∈ parts, R g part := by
  induction h with
  | nil => cases hg
  | @cons group part groups parts hpart _ ih =>
    rcases List.mem_cons.mp hg with rfl | hg
    · exact ⟨part, List.mem_cons_self, hpart⟩
    · obtain ⟨found, hfound, hof⟩ := ih hg
      exact ⟨found, List.mem_cons_of_mem part hfound, hof⟩

theorem exists_part (ctx : BuildContext) (env : BuildEnvironment)
    (hg : g ∈ groupRecords contents.records) :
    ∃ part ∈ (BuildDescription.ofContentsIn ctx env contents).1.parts,
      part.IsOf ctx contents g := by
  obtain ⟨parts, hparts, heq⟩ := exists_parts ctx env contents
  obtain ⟨part, hpart, hof⟩ := exists_of_mem_groups hparts hg
  rw [heq]
  exact ⟨part, List.mem_append_left _ hpart, hof⟩

end SameFlags

/-! ## The partition -/

/-- The part stands for the records with these flags: it holds their source
files, and it is named for the first of them. -/
structure BuildPart.Collects (part : BuildPart) (records : List PlainRecord)
    (flags : List String) : Prop where
  files : part.files.Holds ((records.filter (·.flags = flags)).map PlainRecord.sourceFile)
  first : ∃ r, records.find? (·.flags = flags) = some r ∧
    part.displayName = r.sourceFile.displayName ∧ part.target = r.directory

/-- The parts of a database are the classes of its records by their flags, in
the order of the bytes of these flags. The part of the extra files stands
behind them. This is so in each build environment. -/
theorem parts_partition_records (fs : FileSystem) (database : Path) (suffix : String)
    (bytes : List UInt8) (ctx : BuildContext) (env : BuildEnvironment) :
    let records := (readRecords fs database bytes).plain
    let contents := (parse fs database suffix bytes).1
    ∃ sequences parts,
      (BuildDescription.ofContentsIn ctx env contents).1.parts =
        parts ++ extraParts ctx contents ∧
      sequences.Pairwise (fun a b => a.map Utf8.ofText < b.map Utf8.ofText) ∧
      (∀ flags, flags ∈ sequences ↔ ∃ r ∈ records, r.flags = flags) ∧
      List.Forall₂ (fun flags part => part.Collects records flags) sequences parts := by
  intro records contents
  have hheld := readRecords_holds fs database bytes
  obtain ⟨parts, hparts, heq⟩ := exists_parts ctx env contents
  refine ⟨(groupRecords contents.records).map (contents.flagsOf ·.1), parts, heq, ?_, ?_, ?_⟩
  · -- Groups in the order of their flags.
    have hordered := groupRecords_pairwise (fun r hr => hheld r (mem_sortRecords.mp hr))
      (sortRecords_pairwise hheld)
    exact List.pairwise_map.mpr (hordered.imp Utf8.map_ofText_lt_of_compare)
  · intro flags
    rw [List.mem_map]
    constructor
    · rintro ⟨g, hg, rfl⟩
      have hmem := mem_sortRecords.mp (mem_of_mem_group hg List.mem_cons_self)
      exact ⟨_, List.mem_map_of_mem hmem, rfl⟩
    · rintro ⟨p, hp, rfl⟩
      obtain ⟨r, hr, rfl⟩ := List.mem_map.mp hp
      have hmem : r ∈ (groupRecords contents.records).flatMap groupMembers := by
        rw [groupRecords_flatMap]
        exact mem_sortRecords.mpr hr
      obtain ⟨g, hg, hr⟩ := List.mem_flatMap.mp hmem
      exact ⟨g, hg, congrArg contents.table.flagsOf (flags_of_mem_group hg hr).symm⟩
  · rw [List.forall₂_map_left_iff]
    have hmembers := (List.forall₂_and_left _ _).mpr ⟨fun g hg => hg, hparts⟩
    refine hmembers.imp ?_
    rintro g part ⟨hg, flags, -, rfl⟩
    have hfilter := plain_filter_of_mem_group hg
    constructor
    · rw [hfilter, List.map_map]
      exact filesOfGroup_holds g
    · refine ⟨g.1.plain contents.table, ?_, rfl, rfl⟩
      rw [← List.head?_filter, hfilter]
      rfl

end CompileCommands
