-- Groups whose flags start with an option. They name no compiler, and the
-- reading of the flags skips none, but the toolchain is looked for as if the
-- option were one. So what is found need not be what the environment takes
-- where no compiler is named.
import CompileCommands.Proofs.BuildPart.Toolchains

namespace CompileCommands

/-! ## Taking what a search comes to -/

namespace Grouping

/-- A group leaves the toolchain of a search to its language, and tells what the
search tells. -/
structure Takes (ctx : BuildContext) (env : Environment) (contents : Database.Contents)
    (g : Grouping) (group : RecordGroup) (found : Resolution) : Prop where
  toolchain : (g.step ctx env contents group).toolchains.get? (languageOf ctx contents group) =
    found.toolchain
  diagnostics : (g.step ctx env contents group).diagnostics = g.diagnostics ++ found.diagnostics

variable {ctx : BuildContext} {env : Environment} {contents : Database.Contents} {g : Grouping}
  {group : RecordGroup}

theorem takes_resolutionOf (h : g.toolchains.get? (languageOf ctx contents group) = none) :
    g.Takes ctx env contents group (resolutionOf ctx env contents group) := by
  constructor
  · rw [step_get?_self, turn_of_none h]
  · rw [step_notes, turn_of_none h]
    rfl

theorem Takes.takes_iff {found : Resolution} (h : g.Takes ctx env contents group found)
    (other : Resolution) :
    g.Takes ctx env contents group other ↔
      found.toolchain = other.toolchain ∧ found.diagnostics = other.diagnostics := by
  constructor
  · rintro ⟨htoolchain, hdiagnostics⟩
    exact ⟨h.toolchain.symm.trans htoolchain,
      List.append_cancel_left (h.diagnostics.symm.trans hdiagnostics)⟩
  · rintro ⟨htoolchain, hdiagnostics⟩
    exact ⟨h.toolchain.trans htoolchain,
      h.diagnostics.trans (congrArg (g.diagnostics ++ ·) hdiagnostics)⟩

end Grouping

/-! ## Options in the place of a compiler -/

theorem Flags.ne_empty_of_isOption {host : Host} {token : String}
    (h : isOption host token = true) : token ≠ "" := by
  rintro rfl
  cases host <;> cases h

/-- What the search for the toolchain of a group comes to where no compiler is
named. -/
def absentOf (ctx : BuildContext) (env : Environment) (contents : Database.Contents)
    (group : RecordGroup) : Resolution :=
  ctx.registry.resolveIn env ctx.host none (languageOf ctx contents group)

section Option

variable {ctx : BuildContext} {env : Environment} {contents : Database.Contents} {g : Grouping}
  {group : RecordGroup} {token : String}

theorem absentOf_eq : absentOf ctx env contents group =
    ⟨env.default? (languageOf ctx contents group), .environmentDefault,
      if (env.default? (languageOf ctx contents group)).isNone then
        [Registry.missingNote (languageOf ctx contents group)]
      else []⟩ :=
  Registry.resolveDefault_eq _ _ _

/-- A toolchain that was found for a command is what is taken without a command
just if it is the default. -/
theorem takes_absentOf_of_found {t : Toolchain} {step : Step}
    (h : g.Takes ctx env contents group ⟨some t, step, []⟩) :
    g.Takes ctx env contents group (absentOf ctx env contents group) ↔
      env.default? (languageOf ctx contents group) = some t := by
  rw [h.takes_iff, absentOf_eq]
  constructor
  · exact fun hsame => hsame.1.symm
  · intro hdefault
    rw [hdefault]
    exact ⟨rfl, rfl⟩

/-- Falling back to the default is told of, so it comes to the same only where
there is no default. -/
theorem takes_absentOf_of_fallBack {path : Path}
    (h : g.Takes ctx env contents group
      (Registry.fallBack env path (languageOf ctx contents group))) :
    g.Takes ctx env contents group (absentOf ctx env contents group) ↔
      env.default? (languageOf ctx contents group) = none := by
  rw [h.takes_iff, absentOf_eq, Registry.fallBack_eq]
  cases env.default? (languageOf ctx contents group) with
  | none => simp
  | some t => simp

/-- The first flag of a group is looked for as a compiler, also if it is an
option. The toolchain that answers best to it is taken, and without an answer
the default is fallen back to. That is what comes of no compiler only if the
default is the best answer, or if there is neither an answer nor a default. -/
theorem leadingOption_resolved_as_compiler (env : Environment)
    (hfirst : compilerOf contents group = some token)
    (hoption : Flags.isOption ctx.host token = true)
    (hnone : g.toolchains.get? (languageOf ctx contents group) = none) :
    ((∃ rank index t, ctx.registry.IsBest ctx.host (Registry.compilerPath token)
          (languageOf ctx contents group) rank index t ∧
        g.Takes ctx env contents group ⟨some t, Registry.stepOf rank, []⟩) ∨
      (∀ rank index t, ¬ ctx.registry.IsCandidate ctx.host (Registry.compilerPath token)
          (languageOf ctx contents group) rank index t) ∧
        g.Takes ctx env contents group (Registry.fallBack env (Registry.compilerPath token)
          (languageOf ctx contents group))) ∧
    (g.Takes ctx env contents group (absentOf ctx env contents group) ↔
      (∃ rank index t, ctx.registry.IsBest ctx.host (Registry.compilerPath token)
          (languageOf ctx contents group) rank index t ∧
        env.default? (languageOf ctx contents group) = some t) ∨
      (∀ rank index t, ¬ ctx.registry.IsCandidate ctx.host (Registry.compilerPath token)
          (languageOf ctx contents group) rank index t) ∧
        env.default? (languageOf ctx contents group) = none) := by
  have htakes : g.Takes ctx env contents group (resolutionOf ctx env contents group) :=
    Grouping.takes_resolutionOf hnone
  unfold resolutionOf at htakes
  rw [hfirst, Registry.resolveIn_of_ne (Flags.ne_empty_of_isOption hoption)] at htakes
  rcases ctx.registry.resolveCompiler_cases env ctx.host token
    (languageOf ctx contents group) with ⟨rank, index, t, hbest, hfound⟩ | ⟨hnobody, hfound⟩
  · rw [hfound] at htakes
    refine ⟨.inl ⟨rank, index, t, hbest, htakes⟩, ?_⟩
    rw [takes_absentOf_of_found htakes]
    constructor
    · exact fun hdefault => .inl ⟨rank, index, t, hbest, hdefault⟩
    · rintro (⟨rank', index', t', hbest', hdefault⟩ | ⟨hnobody, -⟩)
      · rw [hdefault, hbest.unique hbest']
      · exact absurd hbest.toIsCandidate (hnobody rank index t)
  · rw [hfound] at htakes
    refine ⟨.inr ⟨hnobody, htakes⟩, ?_⟩
    rw [takes_absentOf_of_fallBack htakes]
    constructor
    · exact fun hdefault => .inr ⟨hnobody, hdefault⟩
    · rintro (⟨rank, index, t, hbest, -⟩ | ⟨-, hdefault⟩)
      · exact absurd hbest.toIsCandidate (hnobody rank index t)
      · exact hdefault

end Option

/-- Clang and GCC for C. -/
def clangAndGcc (default : String) : BuildContext :=
  ⟨⟨"/proj/compile_commands.json"⟩,
    ⟨[⟨"clang-c", .clang, .c, ⟨"/usr/bin/clang"⟩, true⟩,
      ⟨"gcc-c", .gcc, .c, ⟨"/usr/bin/gcc"⟩, true⟩], some default, none, none⟩,
    .unix⟩

/-- One unit in C, with no compiler before its flags. -/
def withoutCompilerName : Database.Contents where
  records := [⟨[0, 1], ⟨"/proj/a.c"⟩, ⟨"/proj"⟩⟩]
  extraFiles := []
  extrasSource := ⟨"/proj/compile_commands.json.files"⟩
  table := ⟨["-Wall", "-DX"], by decide⟩

/-- The group of the unit. -/
def unitAlone : RecordGroup := (⟨[0, 1], ⟨"/proj/a.c"⟩, ⟨"/proj"⟩⟩, [])

/-- An option has the family of Clang for a compiler. Where Clang is the default,
this makes no difference. -/
theorem leadingOption_resolved_as_compiler_clangDefault :
    let ctx := clangAndGcc "clang-c"
    let env := ctx.registry.buildEnvironment
    groupRecords withoutCompilerName.records = [unitAlone] ∧
      compilerOf withoutCompilerName unitAlone = some "-Wall" ∧
      Flags.isOption ctx.host "-Wall" = true ∧
      (Grouping.start env).toolchains.get? (languageOf ctx withoutCompilerName unitAlone) = none ∧
      (Grouping.start env).Takes ctx env.toEnvironment withoutCompilerName unitAlone
        (absentOf ctx env.toEnvironment withoutCompilerName unitAlone) := by
  intro ctx env
  have hfirst : compilerOf withoutCompilerName unitAlone = some "-Wall" := rfl
  have hoption : Flags.isOption ctx.host "-Wall" = true := by decide
  have hlanguage : languageOf ctx withoutCompilerName unitAlone = .c := by decide +kernel
  have hnone : (Grouping.start env).toolchains.get?
      (languageOf ctx withoutCompilerName unitAlone) = none := by
    rw [hlanguage]
    rfl
  refine ⟨by decide, hfirst, hoption, hnone, ?_⟩
  obtain ⟨hcases, hiff⟩ :=
    leadingOption_resolved_as_compiler env.toEnvironment hfirst hoption hnone
  rcases hcases with ⟨rank, index, t, hbest, htakes⟩ | ⟨hnobody, -⟩
  · have hdefault : env.default? (languageOf ctx withoutCompilerName unitAlone) =
        ((Grouping.start env).step ctx env.toEnvironment withoutCompilerName
          unitAlone).toolchains.get? (languageOf ctx withoutCompilerName unitAlone) := by
      decide +kernel
    exact hiff.mpr (.inl ⟨rank, index, t, hbest, hdefault.trans htakes.toolchain⟩)
  · have hclang : ctx.registry.IsCandidate ctx.host (Registry.compilerPath "-Wall")
        (languageOf ctx withoutCompilerName unitAlone) 1 0
        ⟨"clang-c", .clang, .c, ⟨"/usr/bin/clang"⟩, true⟩ :=
      ⟨rfl, rfl, hlanguage.symm, .family (by decide +kernel)⟩
    exact absurd hclang (hnobody 1 0 _)

/-- It is not for every registry that a leading option comes to the same as no
compiler: here Clang is taken, though the default is GCC. -/
theorem not_forall_takes_absentOf :
    ¬ ∀ (ctx : BuildContext) (env : BuildEnvironment) (contents : Database.Contents)
        (g : Grouping) (group : RecordGroup) (token : String),
        compilerOf contents group = some token → Flags.isOption ctx.host token = true →
        g.toolchains.get? (languageOf ctx contents group) = none →
        g.Takes ctx env.toEnvironment contents group
          (absentOf ctx env.toEnvironment contents group) := by
  intro hall
  have htakes := hall (clangAndGcc "gcc-c") (clangAndGcc "gcc-c").registry.buildEnvironment
    withoutCompilerName (.start (clangAndGcc "gcc-c").registry.buildEnvironment) unitAlone "-Wall"
    rfl (by decide) (by decide +kernel)
  exact absurd htakes.toolchain (by decide +kernel)

end CompileCommands
