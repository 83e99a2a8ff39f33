-- The toolchains of the parts of a database. For each language, nothing is
-- found at first, and the first toolchain that is found stays. A toolchain is
-- looked for until then and never again, so each part that goes without one is
-- told of, and that a default was taken is told at most once.
import CompileCommands.Proofs.BuildPart.Grouping
import CompileCommands.Proofs.Toolchain.Priority

namespace CompileCommands

/-! ## Chosen toolchains -/

namespace ChosenToolchains

theorem get?_set_self (t : ChosenToolchains) (found : Option Toolchain) (language : Language) :
    (t.set found language).get? language = found := by
  cases language <;> rfl

theorem get?_set_of_ne {language other : Language} (h : other ≠ language) (t : ChosenToolchains)
    (found : Option Toolchain) : (t.set found language).get? other = t.get? other := by
  cases language <;> cases other <;> first | rfl | exact absurd rfl h

end ChosenToolchains

/-- The flags of a part for a language, if it is in that language. -/
def BuildPart.flagsIn? (part : BuildPart) : Language → Option CompilerFlags
  | .c => part.cFlags
  | .cxx => part.cxxFlags

/-- The toolchain that was chosen for a language. -/
def BuildDescription.toolchain? (b : BuildDescription) : Language → Option String
  | .c => b.cToolchain
  | .cxx => b.cxxToolchain

/-- What the search for the toolchain of a group comes to. -/
def resolutionOf (ctx : BuildContext) (env : Environment) (contents : Database.Contents)
    (group : RecordGroup) : Resolution :=
  ctx.registry.resolveIn env ctx.host (compilerOf contents group) (languageOf ctx contents group)

/-! ## One turn -/

namespace Grouping

variable {ctx : BuildContext} {env : Environment} {contents : Database.Contents} {g : Grouping}
  {group : RecordGroup} {language : Language}

theorem choose_of_some {t : Toolchain} (h : g.toolchains.get? language = some t)
    (compiler : Option String) : choose ctx env g language compiler = g := by
  unfold choose
  rw [h]

theorem choose_of_none (h : g.toolchains.get? language = none) (compiler : Option String) :
    choose ctx env g language compiler =
      { g with
        toolchains := g.toolchains.set
          (ctx.registry.resolveIn env ctx.host compiler language).toolchain language
        diagnostics := g.diagnostics ++
          (ctx.registry.resolveIn env ctx.host compiler language).diagnostics } := by
  unfold choose
  rw [h]

theorem step_toolchains (g : Grouping) (group : RecordGroup) :
    (g.step ctx env contents group).toolchains =
      (choose ctx env g (languageOf ctx contents group) (compilerOf contents group)).toolchains :=
  rfl

theorem step_diagnostics (g : Grouping) (group : RecordGroup) :
    (g.step ctx env contents group).diagnostics =
      (choose ctx env g (languageOf ctx contents group) (compilerOf contents group)).diagnostics :=
  rfl

@[simp]
theorem choose_sysroot (g : Grouping) (language : Language) (compiler : Option String) :
    (choose ctx env g language compiler).sysroot = g.sysroot := by
  unfold choose
  split <;> rfl

theorem step_sysroot (g : Grouping) (group : RecordGroup) :
    (g.step ctx env contents group).sysroot =
      g.sysroot.or (analysisOf ctx contents group.1).sysroot := by
  simp only [step, choose_sysroot]
  rfl

/-- Where a toolchain is held, it is taken, and nothing is looked for. -/
theorem turn_of_some {t : Toolchain}
    (h : g.toolchains.get? (languageOf ctx contents group) = some t) :
    g.turn ctx env contents group = ⟨group, false, some t⟩ := by
  unfold turn
  rw [step_toolchains, choose_of_some h, h]
  rfl

/-- Where none is held, what is found is taken. -/
theorem turn_of_none (h : g.toolchains.get? (languageOf ctx contents group) = none) :
    g.turn ctx env contents group =
      ⟨group, true, (resolutionOf ctx env contents group).toolchain⟩ := by
  unfold turn
  rw [step_toolchains, choose_of_none h, h, ChosenToolchains.get?_set_self]
  rfl

theorem step_get?_self (g : Grouping) (group : RecordGroup) :
    (g.step ctx env contents group).toolchains.get? (languageOf ctx contents group) =
      (g.turn ctx env contents group).toolchain := rfl

theorem step_get?_of_ne (h : language ≠ languageOf ctx contents group) :
    (g.step ctx env contents group).toolchains.get? language = g.toolchains.get? language := by
  rw [step_toolchains]
  cases hheld : g.toolchains.get? (languageOf ctx contents group) with
  | some t => rw [choose_of_some hheld]
  | none =>
    rw [choose_of_none hheld]
    exact ChosenToolchains.get?_set_of_ne h _ _

/-- What a turn has to tell. -/
def turnNotes (ctx : BuildContext) (env : Environment) (contents : Database.Contents) (t : Turn) :
    List Diagnostic :=
  if t.asks then (resolutionOf ctx env contents t.group).diagnostics else []

/-- Only the turns that ask have anything to tell. -/
theorem flatMap_turnNotes (turns : List Turn) :
    turns.flatMap (turnNotes ctx env contents) =
      (turns.filter (·.asks)).flatMap
        (fun t => (resolutionOf ctx env contents t.group).diagnostics) := by
  induction turns with
  | nil => rfl
  | cons t turns ih =>
    rw [List.flatMap_cons, ih]
    unfold turnNotes
    cases hasks : t.asks with
    | false => rw [List.filter_cons_of_neg (by simp [hasks]), if_neg nofun, List.nil_append]
    | true => rw [List.filter_cons_of_pos hasks, if_pos rfl, List.flatMap_cons]

theorem step_notes (g : Grouping) (group : RecordGroup) :
    (g.step ctx env contents group).diagnostics =
      g.diagnostics ++ turnNotes ctx env contents (g.turn ctx env contents group) := by
  rw [step_diagnostics]
  cases hheld : g.toolchains.get? (languageOf ctx contents group) with
  | some t =>
    rw [choose_of_some hheld, turn_of_some hheld]
    exact (List.append_nil _).symm
  | none =>
    rw [choose_of_none hheld, turn_of_none hheld]
    rfl

/-! ## All turns -/

theorem foldl_step_notes (g : Grouping) (groups : List RecordGroup) :
    (groups.foldl (step ctx env contents) g).diagnostics =
      g.diagnostics ++
        (g.turns ctx env contents groups).flatMap (turnNotes ctx env contents) := by
  induction groups generalizing g with
  | nil => exact (List.append_nil _).symm
  | cons group groups ih =>
    rw [List.foldl_cons, ih, step_notes, List.append_assoc]
    rfl

/-- The first sysroot that is named stands. -/
theorem foldl_step_sysroot (g : Grouping) (groups : List RecordGroup) :
    (groups.foldl (step ctx env contents) g).sysroot =
      g.sysroot.or (groups.findSome? fun group => (analysisOf ctx contents group.1).sysroot) := by
  induction groups generalizing g with
  | nil => exact Option.or_none.symm
  | cons group groups ih =>
    rw [List.foldl_cons, ih, step_sysroot, Option.or_assoc, List.findSome?_cons]
    cases (analysisOf ctx contents group.1).sysroot <;> rfl

theorem turns_group (g : Grouping) (groups : List RecordGroup) :
    (g.turns ctx env contents groups).map (·.group) = groups := by
  induction groups generalizing g with
  | nil => rfl
  | cons group groups ih => exact congrArg (group :: ·) (ih _)

/-- What is looked for in a turn is what its part is made with. -/
theorem turn_toolchain (h : (g.turn ctx env contents group).asks = true) :
    (g.turn ctx env contents group).toolchain =
      (resolutionOf ctx env contents group).toolchain := by
  cases hheld : g.toolchains.get? (languageOf ctx contents group) with
  | some t =>
    rw [turn_of_some hheld] at h
    cases h
  | none => rw [turn_of_none hheld]

theorem turns_toolchain (g : Grouping) (groups : List RecordGroup) :
    ∀ t ∈ g.turns ctx env contents groups, t.asks = true →
      t.toolchain = (resolutionOf ctx env contents t.group).toolchain := by
  induction groups generalizing g with
  | nil => exact nofun
  | cons group groups ih =>
    intro t ht
    rcases List.mem_cons.mp ht with rfl | ht
    · exact turn_toolchain
    · exact ih _ t ht

end Grouping

/-! ## The turns of one language -/

/-- The turns of a language. -/
def turnsIn (ctx : BuildContext) (contents : Database.Contents) (language : Language)
    (turns : List Turn) : List Turn :=
  turns.filter fun t => languageOf ctx contents t.group = language

/-- Of the turns of a language, some find nothing, and all the others have the
toolchain that the first of them finds. The ones that come after it do not ask. -/
inductive Settles : List Turn → Option Toolchain → Prop
  | nil : Settles [] none
  | miss {t : Turn} {later : List Turn} {chosen : Option Toolchain} :
      t.asks = true → t.toolchain = none → Settles later chosen → Settles (t :: later) chosen
  | hit {t : Turn} {later : List Turn} {found : Toolchain} :
      t.asks = true → t.toolchain = some found →
      (∀ u ∈ later, u.asks = false ∧ u.toolchain = some found) →
      Settles (t :: later) (some found)

namespace Grouping

variable {ctx : BuildContext} {env : Environment} {contents : Database.Contents} {g : Grouping}
  {language : Language}

theorem turnsIn_cons_self (g : Grouping) (group : RecordGroup) (groups : List RecordGroup) :
    turnsIn ctx contents (languageOf ctx contents group)
        (g.turns ctx env contents (group :: groups)) =
      g.turn ctx env contents group :: turnsIn ctx contents (languageOf ctx contents group)
        ((g.step ctx env contents group).turns ctx env contents groups) :=
  List.filter_cons_of_pos (decide_eq_true rfl)

theorem turnsIn_cons_of_ne {group : RecordGroup} (h : language ≠ languageOf ctx contents group)
    (groups : List RecordGroup) :
    turnsIn ctx contents language (g.turns ctx env contents (group :: groups)) =
      turnsIn ctx contents language
        ((g.step ctx env contents group).turns ctx env contents groups) :=
  List.filter_cons_of_neg fun hsame => h (of_decide_eq_true hsame).symm

theorem turns_of_some {found : Toolchain} (h : g.toolchains.get? language = some found)
    (groups : List RecordGroup) :
    (∀ t ∈ turnsIn ctx contents language (g.turns ctx env contents groups),
        t.asks = false ∧ t.toolchain = some found) ∧
      (groups.foldl (step ctx env contents) g).toolchains.get? language = some found := by
  induction groups generalizing g with
  | nil => exact ⟨nofun, h⟩
  | cons group groups ih =>
    by_cases hlanguage : language = languageOf ctx contents group
    · subst hlanguage
      have hturn : g.turn ctx env contents group = _ := turn_of_some h
      have hnext : (g.step ctx env contents group).toolchains.get? _ = _ := step_get?_self g group
      rw [hturn] at hnext
      obtain ⟨hlater, hend⟩ := ih hnext
      rw [turnsIn_cons_self, hturn, List.forall_mem_cons]
      exact ⟨⟨⟨rfl, rfl⟩, hlater⟩, hend⟩
    · rw [turnsIn_cons_of_ne hlanguage]
      exact ih ((step_get?_of_ne hlanguage).trans h)

theorem turns_of_none (h : g.toolchains.get? language = none) (groups : List RecordGroup) :
    Settles (turnsIn ctx contents language (g.turns ctx env contents groups))
      ((groups.foldl (step ctx env contents) g).toolchains.get? language) := by
  induction groups generalizing g with
  | nil =>
    rw [List.foldl_nil, h]
    exact .nil
  | cons group groups ih =>
    by_cases hlanguage : language = languageOf ctx contents group
    · subst hlanguage
      have hturn : g.turn ctx env contents group = _ := turn_of_none h
      have hnext : (g.step ctx env contents group).toolchains.get? _ = _ := step_get?_self g group
      rw [hturn] at hnext
      rw [turnsIn_cons_self, hturn, List.foldl_cons]
      cases hfound : (resolutionOf ctx env contents group).toolchain with
      | none => exact .miss rfl rfl (ih (hnext.trans hfound))
      | some found =>
        obtain ⟨hlater, hend⟩ := turns_of_some (hnext.trans hfound) groups
        rw [hend]
        exact .hit rfl rfl hlater
    · rw [turnsIn_cons_of_ne hlanguage]
      exact ih ((step_get?_of_ne hlanguage).trans h)

end Grouping

/-- The course of a language: so many turns miss, and as many others as there are
hits have the toolchain that was chosen. The misses and the first hit ask. -/
structure HasCourse (turns : List Turn) (chosen : Option Toolchain) (misses hits : Nat) : Prop where
  toolchains : turns.map (·.toolchain) = List.replicate misses none ++ List.replicate hits chosen
  asks : turns.map (·.asks) =
    List.replicate (misses + min hits 1) true ++ List.replicate (hits - 1) false
  chosen : chosen = none ↔ hits = 0

theorem map_eq_replicate {f : α → β} {b : β} {l : List α} (h : ∀ a ∈ l, f a = b) :
    l.map f = List.replicate l.length b := by
  rw [List.eq_replicate_iff]
  simpa using h

namespace Settles

variable {turns : List Turn} {chosen : Option Toolchain}

theorem hasCourse (h : Settles turns chosen) :
    HasCourse turns chosen (turns.countP (·.toolchain.isNone))
      (turns.countP (·.toolchain.isSome)) := by
  induction h with
  | nil => exact ⟨rfl, rfl, by simp⟩
  | @miss t later chosen hasks hnone _ ih =>
    obtain ⟨htoolchains, hall, hchosen⟩ := ih
    rw [List.countP_cons_of_pos (by simp [hnone]), List.countP_cons_of_neg (by simp [hnone])]
    refine ⟨?_, ?_, hchosen⟩
    · rw [List.map_cons, hnone, htoolchains]
      rfl
    · rw [List.map_cons, hasks, hall, Nat.add_right_comm]
      rfl
  | @hit t later found hasks hfound hlater =>
    have hnone : later.countP (·.toolchain.isNone) = 0 := by
      rw [List.countP_eq_zero]
      intro u hu
      simp [(hlater u hu).2]
    have hsome : later.countP (·.toolchain.isSome) = later.length := by
      rw [List.countP_eq_length]
      intro u hu
      simp [(hlater u hu).2]
    rw [List.countP_cons_of_neg (by simp [hfound]), List.countP_cons_of_pos (by simp [hfound]),
      hnone, hsome]
    refine ⟨?_, ?_, by simp⟩
    · rw [List.map_cons, hfound, map_eq_replicate fun u hu => (hlater u hu).2]
      rfl
    · rw [List.map_cons, hasks, map_eq_replicate fun u hu => (hlater u hu).1]
      simp

/-- Each turn without a toolchain asks for one. -/
theorem asks_of_none (h : Settles turns chosen) :
    ∀ t ∈ turns, t.toolchain = none → t.asks = true := by
  induction h with
  | nil => exact nofun
  | miss hasks _ _ ih => exact List.forall_mem_cons.mpr ⟨fun _ => hasks, ih⟩
  | hit hasks _ hlater =>
    refine List.forall_mem_cons.mpr ⟨fun _ => hasks, fun u hu hnone => ?_⟩
    rw [(hlater u hu).2] at hnone
    cases hnone

/-- At most one turn asks and finds. -/
theorem countP_found_le (h : Settles turns chosen) :
    turns.countP (fun t => t.asks && t.toolchain.isSome) ≤ 1 := by
  induction h with
  | nil => exact Nat.zero_le 1
  | miss _ hnone _ ih => rwa [List.countP_cons_of_neg (by simp [hnone])]
  | @hit t later found hasks hfound hlater =>
    have hnone : later.countP (fun t => t.asks && t.toolchain.isSome) = 0 := by
      rw [List.countP_eq_zero]
      intro u hu
      simp [(hlater u hu).1]
    rw [List.countP_cons_of_pos (by simp [hasks, hfound]), hnone]

end Settles

/-! ## What is told of a language -/

/-- A diagnostic about the toolchains of a language. -/
def isNoteOn (code : Code) (language : Language) (d : Diagnostic) : Bool :=
  d.code == code && Text.startsWith d.message ("no " ++ language.title ++ " toolchain ")

theorem Registry.missingNote_code (language : Language) :
    (missingNote language).code = .toolchainMissing := rfl

theorem Registry.defaultedNote_code (compiler : Path) (language : Language) (t : Toolchain) :
    (defaultedNote compiler language t).code = .toolchainDefaulted := rfl

theorem isNoteOn_missingNote (code : Code) (language other : Language) :
    isNoteOn code language (Registry.missingNote other) =
      (decide (other = language) && Code.toolchainMissing == code) := by
  have htitle : Text.startsWith (Registry.missingNote other).message
      ("no " ++ language.title ++ " toolchain ") = decide (other = language) := by
    cases language <;> cases other <;> decide
  unfold isNoteOn
  rw [htitle, Bool.and_comm]
  rfl

theorem isNoteOn_defaultedNote (code : Code) (language other : Language) (compiler : Path)
    (t : Toolchain) :
    isNoteOn code language (Registry.defaultedNote compiler other t) =
      (decide (other = language) && Code.toolchainDefaulted == code) := by
  have htitle : Text.startsWith (Registry.defaultedNote compiler other t).message
      ("no " ++ language.title ++ " toolchain ") = decide (other = language) := by
    cases language <;> cases other <;>
      simp [Registry.defaultedNote, Diagnostic.plain, Diagnostic.about, Text.startsWith,
        Language.title, List.isPrefixOf_cons_cons]
  unfold isNoteOn
  rw [htitle, Bool.and_comm]
  rfl

/-- The search tells something under a code. -/
def Resolution.tells (found : Resolution) (code : Code) : Bool :=
  found.diagnostics.any (·.code == code)

section Notes

variable (r : Registry) (env : Environment) (host : Host) (compiler : Option String)
  (language : Language)

/-- A search that finds nothing tells so. One that finds a toolchain tells nothing,
or that it is the default. -/
theorem resolveIn_notes :
    ((r.resolveIn env host compiler language).toolchain = none ∧
        (r.resolveIn env host compiler language).diagnostics = [Registry.missingNote language]) ∨
      ∃ t, (r.resolveIn env host compiler language).toolchain = some t ∧
        ((r.resolveIn env host compiler language).diagnostics = [] ∨
          ∃ path, (r.resolveIn env host compiler language).diagnostics =
            [Registry.defaultedNote path language t]) := by
  rcases r.resolveIn_cases env host compiler language with
    ⟨path, rank, index, t, -, hfound⟩ | hfound | ⟨path, hfound⟩
  · rw [hfound]
    exact .inr ⟨t, rfl, .inl rfl⟩
  · rw [hfound, Registry.resolveDefault_eq]
    cases env.default? language with
    | none => exact .inl ⟨rfl, rfl⟩
    | some t => exact .inr ⟨t, rfl, .inl rfl⟩
  · rw [hfound, Registry.fallBack_eq]
    cases env.default? language with
    | none => exact .inl ⟨rfl, rfl⟩
    | some t => exact .inr ⟨t, rfl, .inr ⟨path, rfl⟩⟩

theorem countP_resolveIn (code : Code) (other : Language) :
    (r.resolveIn env host compiler other).diagnostics.countP (isNoteOn code language) =
      if other = language ∧ (r.resolveIn env host compiler other).tells code = true then 1
      else 0 := by
  unfold Resolution.tells
  rcases resolveIn_notes r env host compiler other with
    ⟨-, hnotes⟩ | ⟨t, -, hnotes | ⟨path, hnotes⟩⟩
  · simp [hnotes, List.countP_singleton, isNoteOn_missingNote, Registry.missingNote_code]
  · simp [hnotes]
  · simp [hnotes, List.countP_singleton, isNoteOn_defaultedNote, Registry.defaultedNote_code]

/-- That there is no toolchain is told just if none is found. -/
theorem tells_missing : (r.resolveIn env host compiler language).tells .toolchainMissing =
    (r.resolveIn env host compiler language).toolchain.isNone := by
  unfold Resolution.tells
  rcases resolveIn_notes r env host compiler language with
    ⟨hnone, hnotes⟩ | ⟨t, hsome, hnotes | ⟨path, hnotes⟩⟩
  · rw [hnone, hnotes]
    rfl
  · rw [hsome, hnotes]
    rfl
  · rw [hsome, hnotes]
    rfl

/-- That the default was taken is told only if it is there. -/
theorem isSome_of_tells_defaulted
    (h : (r.resolveIn env host compiler language).tells .toolchainDefaulted = true) :
    (r.resolveIn env host compiler language).toolchain.isSome = true := by
  rcases resolveIn_notes r env host compiler language with ⟨-, hnotes⟩ | ⟨t, hsome, -⟩
  · unfold Resolution.tells at h
    rw [hnotes] at h
    cases h
  · rw [hsome]
    rfl

end Notes

/-! ## What is told of all turns -/

theorem countP_flatMap_of_eq {p : β → Bool} {q : α → Bool} {f : α → List β} {l : List α}
    (h : ∀ a ∈ l, (f a).countP p = if q a = true then 1 else 0) :
    (l.flatMap f).countP p = l.countP q := by
  induction l with
  | nil => rfl
  | cons a l ih =>
    obtain ⟨ha, hl⟩ := List.forall_mem_cons.mp h
    rw [List.flatMap_cons, List.countP_append, List.countP_cons, ih hl, ha, Nat.add_comm]

section Told

variable {ctx : BuildContext} {env : Environment} {contents : Database.Contents}
  {turns : List Turn}

/-- What is told of a language under a code is told in the turns of the language. -/
theorem countP_turnNotes (code : Code) (language : Language) :
    (turns.flatMap (Grouping.turnNotes ctx env contents)).countP (isNoteOn code language) =
      (turnsIn ctx contents language turns).countP fun t =>
        t.asks && (resolutionOf ctx env contents t.group).tells code := by
  unfold turnsIn
  rw [List.countP_filter]
  apply countP_flatMap_of_eq
  intro t _
  unfold Grouping.turnNotes
  cases t.asks with
  | false => rfl
  | true =>
    rw [if_pos rfl]
    refine (countP_resolveIn _ _ _ _ _ code _).trans ?_
    simp [and_comm, resolutionOf]

/-- So many turns of a language miss as are told of. -/
theorem Settles.countP_missing {language : Language} {chosen : Option Toolchain}
    (h : Settles (turnsIn ctx contents language turns) chosen)
    (hfound : ∀ t ∈ turns, t.asks = true →
      t.toolchain = (resolutionOf ctx env contents t.group).toolchain) :
    (turns.flatMap (Grouping.turnNotes ctx env contents)).countP
        (isNoteOn .toolchainMissing language) =
      (turnsIn ctx contents language turns).countP (·.toolchain.isNone) := by
  rw [countP_turnNotes]
  apply List.countP_congr
  intro t ht
  have htells : (resolutionOf ctx env contents t.group).tells .toolchainMissing =
      (resolutionOf ctx env contents t.group).toolchain.isNone := tells_missing _ _ _ _ _
  have hmem : t ∈ turns := List.mem_of_mem_filter ht
  rw [htells, Bool.and_eq_true]
  constructor
  · rintro ⟨hasks, hnone⟩
    rwa [hfound t hmem hasks]
  · intro hnone
    have hasks := h.asks_of_none t ht (Option.isNone_iff_eq_none.mp hnone)
    rw [← hfound t hmem hasks]
    exact ⟨hasks, hnone⟩

/-- That a default was taken for a language is told at most once. -/
theorem Settles.countP_defaulted_le {language : Language} {chosen : Option Toolchain}
    (h : Settles (turnsIn ctx contents language turns) chosen)
    (hfound : ∀ t ∈ turns, t.asks = true →
      t.toolchain = (resolutionOf ctx env contents t.group).toolchain) :
    (turns.flatMap (Grouping.turnNotes ctx env contents)).countP
        (isNoteOn .toolchainDefaulted language) ≤ 1 := by
  rw [countP_turnNotes]
  refine Nat.le_trans (List.countP_mono_left ?_) h.countP_found_le
  intro t ht htold
  obtain ⟨hasks, htells⟩ := Bool.and_eq_true_iff.mp htold
  rw [hasks, hfound t (List.mem_of_mem_filter ht) hasks]
  exact isSome_of_tells_defaulted _ _ _ _ _ htells

end Told

/-! ## Parts -/

section Parts

variable {ctx : BuildContext} {env : BuildEnvironment} {contents : Database.Contents}

theorem Turn.flagsIn?_part (t : Turn) (language : Language) :
    (t.part ctx contents).flagsIn? language =
      if languageOf ctx contents t.group = language then some (t.flags ctx contents) else none := by
  cases language with
  | c => rfl
  | cxx =>
    unfold Turn.part BuildPart.ofGroup BuildPart.flagsIn? languageOf
    cases (analysisOf ctx contents t.group.1).kind.language <;> rfl

theorem extraParts_flagsIn? (language : Language) :
    (extraParts ctx contents).filterMap (·.flagsIn? language) = [] := by
  unfold extraParts
  split
  · rfl
  · cases language <;> rfl

/-- The parts of a language are those of its turns. -/
theorem flagsIn?_ofContentsIn (language : Language) :
    (BuildDescription.ofContentsIn ctx env contents).1.parts.filterMap (·.flagsIn? language) =
      (turnsIn ctx contents language (turnsOf ctx env contents)).map (·.flags ctx contents) := by
  rw [ofContentsIn_parts, List.filterMap_append, extraParts_flagsIn?, List.append_nil,
    List.filterMap_map, turnsIn, ← List.filterMap_eq_map, List.filterMap_filter]
  apply List.filterMap_congr
  intro t _
  rw [Function.comp_apply, Turn.flagsIn?_part]
  by_cases hlanguage : languageOf ctx contents t.group = language <;> simp [hlanguage]

/-- A Clang-CL toolchain is driven by a command that does not call a driver in the
style of `cl`. The case of the letters does not count. -/
def NeedsDriverMode (toolchain : Option Toolchain) (compiler : Option String) : Prop :=
  (∃ t, toolchain = some t ∧ t.family = .clangCl) ∧
    ∃ token, compiler = some token ∧ token ≠ "" ∧
      Text.endsWith (Text.lower token) "cl" = false ∧
      Text.endsWith (Text.lower token) "cl.exe" = false

theorem needsDriverMode_iff (t : Toolchain) (compiler : Option String) :
    t.needsDriverMode compiler = true ↔ NeedsDriverMode (some t) compiler := by
  unfold Toolchain.needsDriverMode NeedsDriverMode
  split
  · simp
  · simp
  · rename_i token hne
    have htoken : token ≠ "" := fun h => hne h
    simp [htoken]

theorem flagsFor_cases (toolchain : Option Toolchain) (compiler : Option String)
    (flags : List String) :
    NeedsDriverMode toolchain compiler ∧
        Grouping.flagsFor toolchain compiler flags = driverModeFlag :: flags ∨
      ¬ NeedsDriverMode toolchain compiler ∧
        Grouping.flagsFor toolchain compiler flags = flags := by
  unfold Grouping.flagsFor
  cases toolchain with
  | none => exact .inr ⟨by simp [NeedsDriverMode], rfl⟩
  | some t =>
    rw [Option.any_some]
    by_cases hneeds : t.needsDriverMode compiler = true
    · exact .inl ⟨(needsDriverMode_iff t compiler).mp hneeds, if_pos hneeds⟩
    · exact .inr ⟨fun h => hneeds ((needsDriverMode_iff t compiler).mpr h), if_neg hneeds⟩

end Parts

/-! ## The toolchains of a description -/

/-- The parts of a language, in their order: so many have no toolchain, and all the
others have the one of the description. A toolchain is looked for in the turns of
the former and of the first of the latter, and what was not found is told of each. -/
structure IsStable (ctx : BuildContext) (env : BuildEnvironment) (contents : Database.Contents)
    (language : Language) (misses hits : Nat) : Prop where
  toolchains :
    ((BuildDescription.ofContentsIn ctx env contents).1.parts.filterMap
        (·.flagsIn? language)).map (·.toolchain) =
      List.replicate misses none ++
        List.replicate hits ((BuildDescription.ofContentsIn ctx env contents).1.toolchain? language)
  chosen : (BuildDescription.ofContentsIn ctx env contents).1.toolchain? language = none ↔ hits = 0
  asks : (turnsIn ctx contents language (turnsOf ctx env contents)).map (·.asks) =
    List.replicate (misses + min hits 1) true ++ List.replicate (hits - 1) false
  missing : (BuildDescription.ofContentsIn ctx env contents).2.countP
    (isNoteOn .toolchainMissing language) = misses
  defaulted : (BuildDescription.ofContentsIn ctx env contents).2.countP
    (isNoteOn .toolchainDefaulted language) ≤ 1

section Description

variable (ctx : BuildContext) (env : BuildEnvironment) (contents : Database.Contents)

/-- What is told is told turn by turn. -/
theorem ofContentsIn_notes : (BuildDescription.ofContentsIn ctx env contents).2 =
    (turnsOf ctx env contents).flatMap (Grouping.turnNotes ctx env.toEnvironment contents) :=
  (Grouping.foldl_step_notes _ _).trans (List.nil_append _)

theorem turnsOf_settles (language : Language) :
    ∃ chosen, Settles (turnsIn ctx contents language (turnsOf ctx env contents)) chosen ∧
      (BuildDescription.ofContentsIn ctx env contents).1.toolchain? language =
        chosen.map (·.id) := by
  have hstart : (Grouping.start env).toolchains.get? language = none := by
    cases language <;> rfl
  refine ⟨_, Grouping.turns_of_none hstart (groupRecords contents.records), ?_⟩
  cases language <;> rfl

theorem exists_isStable (language : Language) :
    ∃ misses hits, IsStable ctx env contents language misses hits := by
  obtain ⟨chosen, hsettles, htoolchain⟩ := turnsOf_settles ctx env contents language
  have hfound : ∀ t ∈ turnsOf ctx env contents, t.asks = true →
      t.toolchain = (resolutionOf ctx env.toEnvironment contents t.group).toolchain :=
    Grouping.turns_toolchain _ _
  obtain ⟨htoolchains, hasks, hchosen⟩ := hsettles.hasCourse
  refine ⟨_, _, ?_, ?_, hasks, ?_, ?_⟩
  · rw [flagsIn?_ofContentsIn, List.map_map]
    have hids := congrArg (List.map (Option.map Toolchain.id)) htoolchains
    rw [List.map_map, List.map_append, List.map_replicate, List.map_replicate] at hids
    rw [htoolchain]
    exact hids
  · rw [htoolchain, Option.map_eq_none_iff]
    exact hchosen
  · rw [ofContentsIn_notes]
    exact hsettles.countP_missing hfound
  · rw [ofContentsIn_notes]
    exact hsettles.countP_defaulted_le hfound

/-- The parts of a database come from the turns of its groups. For each language
they go without a toolchain up to one of them, and have the same one from then on.
A toolchain is looked for up to that turn, and only these searches tell anything.
The flag for the driver mode stands before the flags of those parts that need it,
whatever the parts before them needed. The sysroot is that of the environment, or
of the first part whose flags name one. -/
theorem toolchains_stable :
    (turnsOf ctx env contents).map (·.group) = groupRecords contents.records ∧
    (BuildDescription.ofContentsIn ctx env contents).1.parts =
      (turnsOf ctx env contents).map (·.part ctx contents) ++ extraParts ctx contents ∧
    (BuildDescription.ofContentsIn ctx env contents).2 =
      ((turnsOf ctx env contents).filter (·.asks)).flatMap
        (fun t => (resolutionOf ctx env.toEnvironment contents t.group).diagnostics) ∧
    (∀ language, ∃ misses hits, IsStable ctx env contents language misses hits) ∧
    (∀ t ∈ turnsOf ctx env contents,
      (t.asks = true →
        t.toolchain = (resolutionOf ctx env.toEnvironment contents t.group).toolchain) ∧
      ∃ flags, (t.part ctx contents).flagsIn? (languageOf ctx contents t.group) = some flags ∧
        flags.toolchain = t.toolchain.map (·.id) ∧
        (NeedsDriverMode t.toolchain (compilerOf contents t.group) ∧
            flags.flags = driverModeFlag :: (analysisOf ctx contents t.group.1).flags ∨
          ¬ NeedsDriverMode t.toolchain (compilerOf contents t.group) ∧
            flags.flags = (analysisOf ctx contents t.group.1).flags)) ∧
    (BuildDescription.ofContentsIn ctx env contents).1.sysroot =
      env.sysroot.or ((groupRecords contents.records).findSome?
        fun group => (analysisOf ctx contents group.1).sysroot) := by
  refine ⟨Grouping.turns_group _ _, ofContentsIn_parts ctx env contents, ?_,
    exists_isStable ctx env contents, ?_, Grouping.foldl_step_sysroot _ _⟩
  · rw [ofContentsIn_notes]
    exact Grouping.flatMap_turnNotes _
  · intro t ht
    refine ⟨Grouping.turns_toolchain _ _ t ht, t.flags ctx contents, ?_, rfl, flagsFor_cases _ _ _⟩
    rw [Turn.flagsIn?_part, if_pos rfl]

end Description

/-- A toolchain that only its own name finds, and no defaults. -/
def clangClOnly : BuildContext :=
  ⟨⟨"C:/db"⟩, ⟨[⟨"clang-cl", .clangCl, .c, ⟨"C:/llvm/clang-cl.exe"⟩, true⟩], none, none, none⟩,
    .windows⟩

/-- Four groups, the third of them in C++. The second one finds the toolchain. -/
def lateHit : Database.Contents where
  records := [⟨[0], ⟨"C:/p/a.c"⟩, ⟨"C:/p"⟩⟩, ⟨[1], ⟨"C:/p/b.c"⟩, ⟨"C:/p"⟩⟩,
    ⟨[0, 2], ⟨"C:/p/c.cpp"⟩, ⟨"C:/p"⟩⟩, ⟨[3], ⟨"C:/p/d.c"⟩, ⟨"C:/p"⟩⟩]
  extraFiles := []
  extrasSource := ⟨"C:/db.files"⟩
  table := ⟨["tcc", "C:/llvm/clang-cl.exe", "-DX", "clang"], by decide⟩

/-- The turn that finds the toolchain has what its search comes to. -/
theorem toolchains_stable_lateHit :
    let turns := turnsOf clangClOnly ⟨⟨none, none⟩, none⟩ lateHit
    turns.map (fun t => (t.asks, t.toolchain.map (·.id))) =
        [(true, none), (true, some "clang-cl"), (true, none), (false, some "clang-cl")] ∧
      ∃ t ∈ turns, t.asks = true ∧ t.toolchain.isSome = true ∧
        t.toolchain = (resolutionOf clangClOnly ⟨none, none⟩ lateHit t.group).toolchain := by
  intro turns
  have hcourse : turns.map (fun t => (t.asks, t.toolchain.map (·.id))) =
      [(true, none), (true, some "clang-cl"), (true, none), (false, some "clang-cl")] := by
    decide +kernel
  have hmem : (true, some "clang-cl") ∈ turns.map (fun t => (t.asks, t.toolchain.map (·.id))) := by
    rw [hcourse]
    simp
  obtain ⟨t, ht, hshape⟩ := List.mem_map.mp hmem
  obtain ⟨hasks, hid⟩ := Prod.mk.inj hshape
  obtain ⟨found, hfound, -⟩ := Option.map_eq_some_iff.mp hid
  obtain ⟨-, -, -, -, hturns, -⟩ := toolchains_stable clangClOnly ⟨⟨none, none⟩, none⟩ lateHit
  exact ⟨hcourse, t, ht, hasks, Option.isSome_of_eq_some hfound, (hturns t ht).1 hasks⟩

end CompileCommands
