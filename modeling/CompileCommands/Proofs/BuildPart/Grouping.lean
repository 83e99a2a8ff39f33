-- The groups of records, and the parts that are made of them. A group holds
-- neighbours with the same flags. Once the records are sorted, all records
-- with the same flags are neighbours, so a group holds every one of them.
import CompileCommands.BuildPart.Grouping
import CompileCommands.Proofs.Database.Records
import CompileCommands.Proofs.Path.Set
import Mathlib.Data.List.Forall2

namespace CompileCommands

open Std

/-! ## Groups -/

/-- All records of a group. -/
def groupMembers (g : RecordGroup) : List CompileRecord := g.1 :: g.2

/-- No record is lost or moved. -/
theorem groupRecords_flatMap (records : List CompileRecord) :
    (groupRecords records).flatMap groupMembers = records := by
  induction records with
  | nil => rfl
  | cons r rest ih =>
    unfold groupRecords
    split
    · rename_i hnil
      rw [hnil] at ih
      rw [← ih]
      rfl
    · rename_i first more groups hcons
      rw [hcons] at ih
      split <;> rw [← ih] <;> rfl

theorem mem_of_mem_group {records : List CompileRecord} {g : RecordGroup}
    (hg : g ∈ groupRecords records) {r : CompileRecord} (hr : r ∈ groupMembers g) :
    r ∈ records := by
  rw [← groupRecords_flatMap records]
  exact List.mem_flatMap.mpr ⟨g, hg, hr⟩

/-- The records of a group have the flags of its first record. -/
theorem flags_of_mem_group {records : List CompileRecord} {g : RecordGroup}
    (hg : g ∈ groupRecords records) {r : CompileRecord} (hr : r ∈ groupMembers g) :
    r.flags = g.1.flags := by
  induction records generalizing g with
  | nil => cases hg
  | cons s rest ih =>
    unfold groupRecords at hg
    split at hg
    · rw [List.mem_singleton.mp hg] at hr ⊢
      rw [List.mem_singleton.mp hr]
    · rename_i first more groups hcons
      rw [hcons] at ih
      split at hg
      · rename_i hflags
        rcases List.mem_cons.mp hg with rfl | hg
        · rcases List.mem_cons.mp hr with rfl | hr
          · rfl
          · exact (ih List.mem_cons_self hr).trans hflags.symm
        · exact ih (List.mem_cons_of_mem _ hg) hr
      · rcases List.mem_cons.mp hg with rfl | hg
        · rw [List.mem_singleton.mp hr]
        · exact ih hg hr

/-! ## Groups of sorted records -/

section Sorted

variable {table : FlagTable} {records : List CompileRecord}

/-- The groups of sorted records come in the order of their flags, and no two
of them have the same flags. -/
theorem groupRecords_pairwise (hheld : ∀ r ∈ records, table.Holds r.flags)
    (hsorted : records.Pairwise fun a b =>
      (compare (table.flagsOf a.flags) (table.flagsOf b.flags)).isLE = true) :
    (groupRecords records).Pairwise fun g h =>
      compare (table.flagsOf g.1.flags) (table.flagsOf h.1.flags) = .lt := by
  induction records with
  | nil => exact List.Pairwise.nil
  | cons r rest ih =>
    obtain ⟨hr, hrest⟩ := List.pairwise_cons.mp hsorted
    have hheld' : ∀ s ∈ rest, table.Holds s.flags := fun s hs =>
      hheld s (List.mem_cons_of_mem r hs)
    have ih := ih hheld' hrest
    unfold groupRecords
    split
    · exact List.pairwise_singleton _ _
    · rename_i first more groups hcons
      rw [hcons] at ih
      obtain ⟨hfirst, hgroups⟩ := List.pairwise_cons.mp ih
      split
      · rename_i hflags
        refine List.pairwise_cons.mpr ⟨fun g hg => ?_, hgroups⟩
        rw [hflags]
        exact hfirst g hg
      · rename_i hflags
        have hmem : first ∈ rest := by
          have hg : (first, more) ∈ groupRecords rest := by rw [hcons]; exact List.mem_cons_self
          exact mem_of_mem_group hg List.mem_cons_self
        have hlt : compare (table.flagsOf r.flags) (table.flagsOf first.flags) = .lt := by
          have hle := hr first hmem
          cases hcmp : compare (table.flagsOf r.flags) (table.flagsOf first.flags) with
          | lt => rfl
          | eq =>
            -- Keys are as distinct as the flags that they stand for.
            have hsame := LawfulEqOrd.eq_of_compare hcmp
            exact absurd (FlagTable.flagsOf_injective (hheld r List.mem_cons_self)
              (hheld' first hmem) hsame) hflags
          | gt =>
            rw [hcmp] at hle
            cases hle
        refine List.pairwise_cons.mpr ⟨fun g hg => ?_, ih⟩
        rcases List.mem_cons.mp hg with rfl | hg
        · exact hlt
        · exact TransCmp.lt_trans hlt (hfirst g hg)

theorem filter_members_eq_nil {h : RecordGroup}
    (hsame : ∀ r ∈ groupMembers h, r.flags = h.1.flags) {flags : List String}
    (hne : table.flagsOf h.1.flags ≠ flags) :
    (groupMembers h).filter (fun r => table.flagsOf r.flags = flags) = [] := by
  rw [List.filter_eq_nil_iff]
  intro r hr
  rw [hsame r hr, decide_eq_true_eq]
  exact hne

theorem filter_flatMap_groups {groups : List RecordGroup}
    (hsame : ∀ g ∈ groups, ∀ r ∈ groupMembers g, r.flags = g.1.flags)
    (hordered : groups.Pairwise fun g h =>
      compare (table.flagsOf g.1.flags) (table.flagsOf h.1.flags) = .lt)
    {g : RecordGroup} (hg : g ∈ groups) :
    (groups.flatMap groupMembers).filter
        (fun r => table.flagsOf r.flags = table.flagsOf g.1.flags) = groupMembers g := by
  induction groups with
  | nil => cases hg
  | cons h groups ih =>
    obtain ⟨hfirst, hordered⟩ := List.pairwise_cons.mp hordered
    have hhead := hsame h List.mem_cons_self
    have hsame' : ∀ g ∈ groups, ∀ r ∈ groupMembers g, r.flags = g.1.flags := fun g hg =>
      hsame g (List.mem_cons_of_mem h hg)
    rw [List.flatMap_cons, List.filter_append]
    rcases List.mem_cons.mp hg with rfl | hg
    · have hall : (groupMembers g).filter
          (fun r => table.flagsOf r.flags = table.flagsOf g.1.flags) = groupMembers g := by
        rw [List.filter_eq_self]
        intro r hr
        rw [hhead r hr, decide_eq_true_eq]
      have hnone : (groups.flatMap groupMembers).filter
          (fun r => table.flagsOf r.flags = table.flagsOf g.1.flags) = [] := by
        rw [List.filter_flatMap, List.flatMap_eq_nil_iff]
        intro h hh
        exact filter_members_eq_nil (hsame' h hh) (ne_of_compare_lt (hfirst h hh)).symm
      rw [hall, hnone, List.append_nil]
    · rw [filter_members_eq_nil hhead (ne_of_compare_lt (hfirst g hg)), List.nil_append,
        ih hsame' hordered hg]

/-- A group of sorted records holds every record with its flags. -/
theorem filter_group (hheld : ∀ r ∈ records, table.Holds r.flags)
    (hsorted : records.Pairwise fun a b =>
      (compare (table.flagsOf a.flags) (table.flagsOf b.flags)).isLE = true)
    {g : RecordGroup} (hg : g ∈ groupRecords records) :
    records.filter (fun r => table.flagsOf r.flags = table.flagsOf g.1.flags) =
      groupMembers g := by
  have hgroups := filter_flatMap_groups (fun g hg r hr => flags_of_mem_group hg hr)
    (groupRecords_pairwise hheld hsorted) hg
  rwa [groupRecords_flatMap] at hgroups

end Sorted

/-! ## Parts of groups -/

/-- What the flags of a record say. -/
def analysisOf (ctx : BuildContext) (contents : Database.Contents) (r : CompileRecord) :
    Flags.Analysis :=
  Flags.analyze ⟨r.sourceFile, r.directory, ctx.host⟩ (contents.flagsOf r)

/-- The part is made of the group, with some flags for the toolchain. -/
def BuildPart.IsOf (ctx : BuildContext) (contents : Database.Contents) (group : RecordGroup)
    (part : BuildPart) : Prop :=
  ∃ flags : CompilerFlags, flags.workingDirectory = group.1.directory ∧
    part = BuildPart.ofGroup ctx.database group (analysisOf ctx contents group.1) flags

/-- The language that a group is compiled in. -/
def languageOf (ctx : BuildContext) (contents : Database.Contents) (group : RecordGroup) :
    Language :=
  (analysisOf ctx contents group.1).kind.language

/-- The first token of a group. A toolchain is looked for by it. -/
def compilerOf (contents : Database.Contents) (group : RecordGroup) : Option String :=
  (contents.flagsOf group.1).head?

/-! ## Turns -/

/-- The turn of one group: whether a toolchain is looked for, and the one that
its part is made with. -/
structure Turn where
  group : RecordGroup
  asks : Bool
  toolchain : Option Toolchain

/-- The flags of the part that is made in a turn. -/
def Turn.flags (ctx : BuildContext) (contents : Database.Contents) (t : Turn) : CompilerFlags :=
  ⟨t.toolchain.map (·.id),
    Grouping.flagsFor t.toolchain (compilerOf contents t.group)
      (analysisOf ctx contents t.group.1).flags,
    t.group.1.directory⟩

/-- The part that is made in a turn. -/
def Turn.part (ctx : BuildContext) (contents : Database.Contents) (t : Turn) : BuildPart :=
  BuildPart.ofGroup ctx.database t.group (analysisOf ctx contents t.group.1)
    (t.flags ctx contents)

namespace Grouping

section Turns

variable (ctx : BuildContext) (env : Environment) (contents : Database.Contents)

/-- The turn of a group. -/
def turn (g : Grouping) (group : RecordGroup) : Turn :=
  ⟨group, (g.toolchains.get? (languageOf ctx contents group)).isNone,
    (g.step ctx env contents group).toolchains.get? (languageOf ctx contents group)⟩

/-- The turns of some groups, one after another. -/
def turns (g : Grouping) : List RecordGroup → List Turn
  | [] => []
  | group :: groups =>
    g.turn ctx env contents group :: (g.step ctx env contents group).turns groups

end Turns

variable {ctx : BuildContext} {env : Environment} {contents : Database.Contents}

@[simp]
theorem choose_parts (g : Grouping) (language : Language) (compiler : Option String) :
    (choose ctx env g language compiler).parts = g.parts := by
  unfold choose
  split <;> rfl

theorem step_parts (g : Grouping) (group : RecordGroup) :
    (g.step ctx env contents group).parts =
      (g.turn ctx env contents group).part ctx contents :: g.parts := by
  unfold step
  simp only [choose_parts]
  rfl

theorem foldl_step_parts (g : Grouping) (groups : List RecordGroup) :
    (groups.foldl (step ctx env contents) g).parts =
      ((g.turns ctx env contents groups).map (·.part ctx contents)).reverse ++ g.parts := by
  induction groups generalizing g with
  | nil => rfl
  | cons group groups ih =>
    rw [List.foldl_cons, ih, step_parts]
    simp [turns]

theorem turns_isOf (g : Grouping) (groups : List RecordGroup) :
    List.Forall₂ (BuildPart.IsOf ctx contents) groups
      ((g.turns ctx env contents groups).map (·.part ctx contents)) := by
  induction groups generalizing g with
  | nil => exact .nil
  | cons group groups ih => exact .cons ⟨_, rfl, rfl⟩ (ih (g.step ctx env contents group))

end Grouping

/-- The part of the extra files, if there are any. -/
def extraParts (ctx : BuildContext) (contents : Database.Contents) : List BuildPart :=
  if contents.extraFiles = [] then [] else [BuildPart.ofExtras ctx.database contents]

/-- The turns of all groups of a database. -/
def turnsOf (ctx : BuildContext) (env : BuildEnvironment) (contents : Database.Contents) :
    List Turn :=
  (Grouping.start env).turns ctx env.toEnvironment contents (groupRecords contents.records)

/-- A description has one part for each turn, and the part of the extra files
behind them. -/
theorem ofContentsIn_parts (ctx : BuildContext) (env : BuildEnvironment)
    (contents : Database.Contents) :
    (BuildDescription.ofContentsIn ctx env contents).1.parts =
      (turnsOf ctx env contents).map (·.part ctx contents) ++ extraParts ctx contents := by
  have hfold : ((groupRecords contents.records).foldl
      (Grouping.step ctx env.toEnvironment contents) (.start env)).parts =
        ((turnsOf ctx env contents).map (·.part ctx contents)).reverse :=
    (Grouping.foldl_step_parts _ _).trans (List.append_nil _)
  unfold BuildDescription.ofContentsIn Grouping.description extraParts
  simp only [hfold, List.reverse_reverse, List.isEmpty_iff]

/-- A description has one part for each group, in the order of the groups,
and the part of the extra files behind them. -/
theorem exists_parts (ctx : BuildContext) (env : BuildEnvironment) (contents : Database.Contents) :
    ∃ parts, List.Forall₂ (BuildPart.IsOf ctx contents) (groupRecords contents.records) parts ∧
      (BuildDescription.ofContentsIn ctx env contents).1.parts =
        parts ++ extraParts ctx contents :=
  ⟨_, Grouping.turns_isOf _ _, ofContentsIn_parts ctx env contents⟩

/-- The files of a part are the source files of its group. -/
theorem filesOfGroup_holds (group : RecordGroup) :
    (filesOfGroup group).Holds ((groupMembers group).map CompileRecord.sourceFile) := by
  have hfiles : filesOfGroup group =
      PathSet.ofList ((groupMembers group).map CompileRecord.sourceFile) := by
    unfold filesOfGroup PathSet.ofList groupMembers
    rw [List.map_cons, List.foldl_cons, List.foldl_map]
  rw [hfiles]
  exact PathSet.ofList_holds _

end CompileCommands
