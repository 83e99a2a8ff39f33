-- What a part says of each of its records. The flags of a group are read
-- once, for its first record, so what depends on more than the flags is right
-- for the first record alone: directories that are named from the working
-- directory, the working directory itself, and a language that only the
-- extension of a file gives.
import CompileCommands.Proofs.BuildPart.Grouping
import CompileCommands.Proofs.Flags.Analysis
import CompileCommands.Proofs.Path.Normal

namespace CompileCommands

open Flags

/-! ## Faithful parts -/

/-- One place, searched in one manner. -/
def HeaderPath.Same (a b : HeaderPath) : Prop := a.path.same b.path = true ∧ a.kind = b.kind

/-- The part says of a record what the record says of itself. -/
structure BuildPart.IsFaithful (part : BuildPart) (analysis : Analysis) (directory : Path) :
    Prop where
  headerPaths : List.Forall₂ HeaderPath.Same part.headerPaths analysis.headerPaths
  macros : part.macros = analysis.macros
  cFlags : part.cFlags.isSome = decide (analysis.kind.language = .c)
  cxxFlags : part.cxxFlags.isSome = decide (analysis.kind.language = .cxx)
  directory : ∀ flags, part.cFlags.or part.cxxFlags = some flags →
    flags.workingDirectory.same directory = true

/-- Each part is faithful to all records of its group. -/
def AllFaithful (ctx : BuildContext) (env : BuildEnvironment) (contents : Database.Contents) :
    Prop :=
  ∃ parts, (BuildDescription.ofContentsIn ctx env contents).1.parts =
      parts ++ extraParts ctx contents ∧
    List.Forall₂ (fun g part => ∀ r ∈ groupMembers g,
      part.IsFaithful (analysisOf ctx contents r) r.directory)
      (groupRecords contents.records) parts

/-! ## One analysis for two records -/

/-- The directories that a list of flags names lie in the same places, seen
from two directories. -/
def SamePlaces (dirs : List (String × HeaderKind)) (here there : Path) : Prop :=
  ∀ d ∈ dirs, ((Path.ofNative d.1).absolutize here).same ((Path.ofNative d.1).absolutize there) =
    true

theorem headerPaths_same_iff (here there : Context) (dirs : List (String × HeaderKind)) :
    List.Forall₂ HeaderPath.Same (here.headerPaths dirs) (there.headerPaths dirs) ↔
      SamePlaces dirs here.directory there.directory := by
  unfold Context.headerPaths SamePlaces
  rw [List.forall₂_map_left_iff, List.forall₂_map_right_iff, List.forall₂_same]
  simp only [HeaderPath.Same, Context.resolve, and_true]

theorem samePlaces_of_same {here there : Path} (h : here.same there = true)
    (dirs : List (String × HeaderKind)) : SamePlaces dirs here there := by
  intro d _
  rw [Path.absolutize_of_same h]
  exact beq_self_eq_true _

/-- The files have one language as far as the flags leave it open. -/
def SameLanguage (said : Said) (file other : Path) : Prop :=
  said.language = none → (SourceKind.ofPath file).language = (SourceKind.ofPath other).language

/-! ## A part and one record of its group -/

section Group

variable {ctx : BuildContext} {contents : Database.Contents} {g : RecordGroup} {r : CompileRecord}
  {part : BuildPart}

theorem ofGroup_flags (database : Path) (g : RecordGroup) (analysis : Analysis)
    (flags : CompilerFlags) :
    (BuildPart.ofGroup database g analysis flags).cFlags.isSome =
        decide (analysis.kind.language = .c) ∧
      (BuildPart.ofGroup database g analysis flags).cxxFlags.isSome =
        decide (analysis.kind.language = .cxx) ∧
      (BuildPart.ofGroup database g analysis flags).cFlags.or
        (BuildPart.ofGroup database g analysis flags).cxxFlags = some flags := by
  unfold BuildPart.ofGroup
  cases analysis.kind.language with
  | c => exact ⟨rfl, rfl, rfl⟩
  | cxx => exact ⟨rfl, rfl, rfl⟩

theorem flagsOf_congr {contents : Database.Contents} {r first : CompileRecord}
    (h : r.flags = first.flags) : contents.flagsOf r = contents.flagsOf first :=
  congrArg contents.table.flagsOf h

section Analysis

variable (ctx : BuildContext) (contents : Database.Contents) (r : CompileRecord)

theorem analysisOf_headerPaths : (analysisOf ctx contents r).headerPaths =
    Context.headerPaths ⟨r.sourceFile, r.directory, ctx.host⟩
      (said ctx.host (contents.flagsOf r)).headerDirs :=
  analyze_headerPaths ⟨r.sourceFile, r.directory, ctx.host⟩ (contents.flagsOf r)

theorem analysisOf_macros : (analysisOf ctx contents r).macros =
    (said ctx.host (contents.flagsOf r)).macros :=
  analyze_macros ⟨r.sourceFile, r.directory, ctx.host⟩ (contents.flagsOf r)

theorem analysisOf_language : (analysisOf ctx contents r).kind.language =
    (said ctx.host (contents.flagsOf r)).language.getD (SourceKind.ofPath r.sourceFile).language :=
  analyze_language ⟨r.sourceFile, r.directory, ctx.host⟩ (contents.flagsOf r)

end Analysis

/-- The macros of a part are those of each record. -/
theorem macros_eq_of_isOf (hpart : part.IsOf ctx contents g) (hr : r.flags = g.1.flags) :
    part.macros = (analysisOf ctx contents r).macros := by
  obtain ⟨flags, -, rfl⟩ := hpart
  have hpart : (BuildPart.ofGroup ctx.database g (analysisOf ctx contents g.1) flags).macros =
      (analysisOf ctx contents g.1).macros := rfl
  rw [hpart, analysisOf_macros, analysisOf_macros, flagsOf_congr hr]

theorem headerPaths_iff_of_isOf (hpart : part.IsOf ctx contents g) (hr : r.flags = g.1.flags) :
    List.Forall₂ HeaderPath.Same part.headerPaths (analysisOf ctx contents r).headerPaths ↔
      SamePlaces (said ctx.host (contents.flagsOf r)).headerDirs g.1.directory r.directory := by
  obtain ⟨flags, -, rfl⟩ := hpart
  have hpart : (BuildPart.ofGroup ctx.database g (analysisOf ctx contents g.1) flags).headerPaths =
      (analysisOf ctx contents g.1).headerPaths := rfl
  rw [hpart, analysisOf_headerPaths, analysisOf_headerPaths, flagsOf_congr hr]
  exact headerPaths_same_iff ⟨g.1.sourceFile, g.1.directory, ctx.host⟩
    ⟨r.sourceFile, r.directory, ctx.host⟩ _

theorem language_iff_of_isOf (hr : r.flags = g.1.flags) :
    (analysisOf ctx contents g.1).kind.language = (analysisOf ctx contents r).kind.language ↔
      SameLanguage (said ctx.host (contents.flagsOf r)) g.1.sourceFile r.sourceFile := by
  rw [analysisOf_language, analysisOf_language, flagsOf_congr hr]
  unfold SameLanguage
  cases (said ctx.host (contents.flagsOf g.1)).language <;> simp

/-- A part is faithful to a record if the record is compiled where the first
one is, and has its language. -/
theorem isFaithful_iff_of_isOf (hpart : part.IsOf ctx contents g) (hr : r.flags = g.1.flags) :
    part.IsFaithful (analysisOf ctx contents r) r.directory ↔
      g.1.directory.same r.directory = true ∧
        SameLanguage (said ctx.host (contents.flagsOf r)) g.1.sourceFile r.sourceFile := by
  have hmacros := macros_eq_of_isOf hpart hr
  have hpaths := headerPaths_iff_of_isOf hpart hr
  have hlanguages := @language_iff_of_isOf ctx contents g r hr
  rw [← hlanguages]
  obtain ⟨flags, hdirectory, rfl⟩ := hpart
  obtain ⟨hc, hcxx, hflags⟩ :=
    ofGroup_flags ctx.database g (analysisOf ctx contents g.1) flags
  constructor
  · intro h
    refine ⟨hdirectory ▸ h.directory flags hflags, ?_⟩
    have hlanguage := hc.symm.trans h.cFlags
    generalize (analysisOf ctx contents g.1).kind.language = first at hlanguage
    generalize (analysisOf ctx contents r).kind.language = own at hlanguage
    cases first <;> cases own <;> first | rfl | cases hlanguage
  · rintro ⟨hsame, hlanguage⟩
    rw [hlanguage] at hc hcxx
    refine ⟨hpaths.mpr (samePlaces_of_same hsame _), hmacros, hc, hcxx, ?_⟩
    intro flags' hflags'
    obtain rfl := Option.some.inj (hflags.symm.trans hflags')
    rw [hdirectory]
    exact hsame

end Group

/-! ## Parts and records -/

/-- A part has the macros of each of its records. It has the directories of
headers of a record if they lie in the same places for the first record, and
it is right about the record as a whole if the working directories are the
same, and so are the languages as far as the flags leave them open. The build
environment has no say in it. -/
theorem parts_faithful_iff (ctx : BuildContext) (env : BuildEnvironment)
    (contents : Database.Contents) :
    ∃ parts, (BuildDescription.ofContentsIn ctx env contents).1.parts =
        parts ++ extraParts ctx contents ∧
      (groupRecords contents.records).flatMap groupMembers = contents.records ∧
      List.Forall₂ (fun g part => ∀ r ∈ groupMembers g,
        part.macros = (analysisOf ctx contents r).macros ∧
        (List.Forall₂ HeaderPath.Same part.headerPaths (analysisOf ctx contents r).headerPaths ↔
          SamePlaces (said ctx.host (contents.flagsOf r)).headerDirs g.1.directory
            r.directory) ∧
        (part.IsFaithful (analysisOf ctx contents r) r.directory ↔
          g.1.directory.same r.directory = true ∧
            SameLanguage (said ctx.host (contents.flagsOf r)) g.1.sourceFile r.sourceFile))
        (groupRecords contents.records) parts := by
  obtain ⟨parts, hparts, heq⟩ := exists_parts ctx env contents
  refine ⟨parts, heq, groupRecords_flatMap contents.records, ?_⟩
  have hmembers := (List.forall₂_and_left _ _).mpr ⟨fun g hg => hg, hparts⟩
  refine hmembers.imp ?_
  rintro g part ⟨hg, hpart⟩ r hr
  have hflags := flags_of_mem_group hg hr
  exact ⟨macros_eq_of_isOf hpart hflags, headerPaths_iff_of_isOf hpart hflags,
    isFaithful_iff_of_isOf hpart hflags⟩

/-- The same flags in two directories. They name a directory of headers in
each of them. -/
def twoDirectories : Database.Contents where
  records := [⟨[0, 1], ⟨"/a/x.c"⟩, ⟨"/a"⟩⟩, ⟨[0, 1], ⟨"/b/y.c"⟩, ⟨"/b"⟩⟩]
  extraFiles := []
  extrasSource := ⟨"/db.files"⟩
  table := ⟨["cc", "-Iinc"], by decide⟩

/-- The part of both records has the directory of headers of the first one
alone. -/
theorem twoDirectories_not_allFaithful :
    ¬ AllFaithful ⟨⟨"/db"⟩, .empty, .unix⟩ Registry.empty.buildEnvironment twoDirectories := by
  rintro ⟨parts, hparts, hfaithful⟩
  have hgroups : groupRecords twoDirectories.records =
      [(⟨[0, 1], ⟨"/a/x.c"⟩, ⟨"/a"⟩⟩, [⟨[0, 1], ⟨"/b/y.c"⟩, ⟨"/b"⟩⟩])] := by decide
  have hstored : (BuildDescription.ofContentsIn ⟨⟨"/db"⟩, .empty, .unix⟩
      Registry.empty.buildEnvironment twoDirectories).1.parts.map BuildPart.headerPaths =
        [[⟨⟨"/a/inc"⟩, .user⟩]] := by decide +kernel
  have hown : (analysisOf ⟨⟨"/db"⟩, .empty, .unix⟩ twoDirectories
      ⟨[0, 1], ⟨"/b/y.c"⟩, ⟨"/b"⟩⟩).headerPaths = [⟨⟨"/b/inc"⟩, .user⟩] := by decide +kernel
  rw [hgroups] at hfaithful
  obtain ⟨part, rest, hpart, -, rfl⟩ := List.forall₂_cons_left_iff.mp hfaithful
  have hpaths := (hpart ⟨[0, 1], ⟨"/b/y.c"⟩, ⟨"/b"⟩⟩ (by decide)).headerPaths
  have hextra : extraParts ⟨⟨"/db"⟩, .empty, .unix⟩ twoDirectories = [] := rfl
  rw [hparts, hextra] at hstored
  have hpath : part.headerPaths = [⟨⟨"/a/inc"⟩, .user⟩] := List.head_eq_of_cons_eq hstored
  rw [hpath, hown] at hpaths
  obtain ⟨hsame, -⟩ := List.forall₂_cons.mp hpaths
  exact absurd hsame.1 (by decide +kernel)

end CompileCommands
