-- What flags say by themselves. The analysis of a record reads its flags
-- against a file and a directory. What it finds is what the flags say to any
-- reader, with each directory seen from that of the record, and with the
-- extension of the file where no flag names a language.
import CompileCommands.Flags.Analysis

namespace CompileCommands.Flags

/-! ## What is said -/

/-- What flags say to any reader. -/
structure Said where
  /-- The directories of headers, as they are written. -/
  headerDirs : List (String × HeaderKind)
  macros : List Macro
  /-- The first language that is named. -/
  language : Option Language
  pending : Option Pending

namespace Said

/-- Nothing is said yet. -/
def start : Said := ⟨[], [], none, none⟩

/-- The language that the argument of `-x` names. -/
def namedLanguage? : String → Option Language
  | "c" | "c-header" => some .c
  | "c++" | "c++-header" | "objective-c" | "objective-c-header" | "objective-c++"
  | "objective-c++-header" => some .cxx
  | _ => none

/-- The language that the name of a standard stands for. -/
def standardLanguage (standard : String) : Language :=
  if Text.contains standard "c++" || Text.contains standard "gnu++" then .cxx else .c

/-- The language that a flag names by itself. -/
def flagLanguage? (flag : String) : Option Language :=
  if flag = "/TC" then some .c
  else if flag = "/TP" then some .cxx
  else ((Text.after? flag "-std=").or (Text.after? flag "/std:")).map standardLanguage

/-- A flag that is the argument of the flag before it. -/
def argument (s : Said) (flag : String) : Pending → Said
  | .headerPath kind => { s with headerDirs := s.headerDirs ++ [(flag, kind)], pending := none }
  | .definition kind =>
    { s with macros := s.macros ++ [Macro.ofArgument kind flag], pending := none }
  | .language => { s with language := s.language.or (namedLanguage? flag), pending := none }
  | .output => { s with pending := none }

/-- A flag with a meaning of its own. -/
def apply (s : Said) (flag : String) : Meaning → Said
  | .output => { s with pending := some .output }
  | .dropped => { s with pending := none }
  | .language => { s with pending := some .language }
  | .headerPath kind dir => { s with headerDirs := s.headerDirs ++ [(dir, kind)], pending := none }
  | .headerOption kind => { s with pending := some (.headerPath kind) }
  | .definition kind text =>
    { s with macros := s.macros ++ [Macro.ofArgument kind text], pending := none }
  | .macroOption kind => { s with pending := some (.definition kind) }
  | .sysroot _ => { s with pending := none }
  | .other _ => { s with language := s.language.or (flagLanguage? flag), pending := none }

/-- One flag more. -/
def step (host : Host) (s : Said) (flag : String) : Said :=
  match s.pending with
  | some pending => s.argument flag pending
  | none => s.apply flag (meaning host flag)

end Said

/-- What the flags of a record say to any reader. -/
def said (host : Host) (flags : List String) : Said :=
  (withoutCompiler host flags).foldl (Said.step host) .start

/-! ## Languages -/

/-- The language of a kind, once the kind is known. -/
def languageOf? (kind : SourceKind) : Option Language :=
  if kind = .unclassified then none else some kind.language

theorem languageOf?_ofLanguageName (name : String) (file : Path) :
    languageOf? (SourceKind.ofLanguageName name file) = Said.namedLanguage? name := by
  unfold SourceKind.ofLanguageName Said.namedLanguage?
  cases (SourceKind.ofPath file).isHeader
  all_goals
    simp only [Bool.false_eq_true, if_false, if_true]
    split
    case h_9 => grind [languageOf?]
    all_goals rfl

theorem languageOf?_ofStandard (standard : String) (file : Path) :
    languageOf? (SourceKind.ofStandard standard file) = some (Said.standardLanguage standard) := by
  unfold SourceKind.ofStandard Said.standardLanguage
  cases (SourceKind.ofPath file).isHeader <;>
    cases Text.contains standard "c++" || Text.contains standard "gnu++" <;> rfl

theorem bind_ofFlag? (flag : String) (file : Path) :
    (SourceKind.ofFlag? flag file).bind languageOf? = Said.flagLanguage? flag := by
  unfold SourceKind.ofFlag? Said.flagLanguage?
  split
  · rfl
  · split
    · rfl
    · cases (Text.after? flag "-std=").or (Text.after? flag "/std:") with
      | none => rfl
      | some standard => exact languageOf?_ofStandard standard file

theorem languageOf?_offerKind (a : Analysis) (kind : SourceKind) :
    languageOf? (a.offerKind kind).kind = (languageOf? a.kind).or (languageOf? kind) := by
  unfold Analysis.offerKind
  by_cases h : a.kind = .unclassified
  · simp [h, languageOf?]
  · simp [h, languageOf?]

@[simp]
theorem offerKind_headerPaths (a : Analysis) (kind : SourceKind) :
    (a.offerKind kind).headerPaths = a.headerPaths := by
  unfold Analysis.offerKind
  split <;> rfl

@[simp]
theorem offerKind_macros (a : Analysis) (kind : SourceKind) :
    (a.offerKind kind).macros = a.macros := by
  unfold Analysis.offerKind
  split <;> rfl

/-! ## What is said and what is read -/

/-- The directories of headers, seen from the directory of a record. -/
def Context.headerPaths (ctx : Context) (dirs : List (String × HeaderKind)) : List HeaderPath :=
  dirs.map fun d => ⟨ctx.resolve d.1, d.2⟩

/-- The reading holds what is said, seen from its context. -/
structure Reading.Agrees (ctx : Context) (s : Said) (r : Reading) : Prop where
  headerPaths : r.analysis.headerPaths = ctx.headerPaths s.headerDirs
  macros : r.analysis.macros = s.macros
  language : languageOf? r.analysis.kind = s.language
  pending : r.pending = s.pending

namespace Reading

variable {ctx : Context} {s : Said} {r : Reading}

theorem start_agrees (ctx : Context) : Agrees ctx .start .start := ⟨rfl, rfl, rfl, rfl⟩

theorem argument_agrees (h : Agrees ctx s r) (flag : String) (pending : Pending) :
    Agrees ctx (s.argument flag pending) ⟨argument ctx r.analysis flag pending, none⟩ := by
  obtain ⟨hpaths, hmacros, hlanguage, -⟩ := h
  cases pending with
  | headerPath kind =>
    refine ⟨?_, hmacros, hlanguage, rfl⟩
    simp [argument, Analysis.addHeaderPath, Said.argument, Context.headerPaths, hpaths]
  | definition kind =>
    refine ⟨hpaths, ?_, hlanguage, rfl⟩
    simp [argument, Analysis.addMacro, Said.argument, hmacros]
  | language =>
    have hoffer := languageOf?_offerKind r.analysis (SourceKind.ofLanguageName flag ctx.file)
    rw [languageOf?_ofLanguageName, hlanguage] at hoffer
    refine ⟨?_, ?_, hoffer, rfl⟩
    · simpa [argument, Analysis.keep, Said.argument] using hpaths
    · simpa [argument, Analysis.keep, Said.argument] using hmacros
  | output => exact ⟨hpaths, hmacros, hlanguage, rfl⟩

theorem apply_agrees (h : Agrees ctx s r) (flag : String) (meaning : Meaning) :
    Agrees ctx (s.apply flag meaning) (apply ctx r.analysis flag meaning) := by
  obtain ⟨hpaths, hmacros, hlanguage, -⟩ := h
  cases meaning with
  | headerPath kind dir =>
    refine ⟨?_, hmacros, hlanguage, rfl⟩
    simp [apply, Analysis.addHeaderPath, Said.apply, Context.headerPaths, hpaths]
  | definition kind text =>
    refine ⟨hpaths, ?_, hlanguage, rfl⟩
    simp [apply, Analysis.addMacro, Said.apply, hmacros]
  | other kept =>
    have hflag := bind_ofFlag? flag ctx.file
    have hkept : ∀ a : Analysis, a.headerPaths = ctx.headerPaths s.headerDirs →
        a.macros = s.macros → languageOf? a.kind = s.language.or (Said.flagLanguage? flag) →
        Agrees ctx (s.apply flag (.other kept)) ⟨if kept then a.keep flag else a, none⟩ := by
      intro a hpaths hmacros hlanguage
      cases kept <;> exact ⟨hpaths, hmacros, hlanguage, rfl⟩
    unfold apply
    cases hkind : SourceKind.ofFlag? flag ctx.file with
    | none =>
      rw [hkind] at hflag
      refine hkept _ hpaths hmacros ?_
      rw [hlanguage, ← hflag, Option.bind_none, Option.or_none]
    | some kind =>
      rw [hkind] at hflag
      refine hkept _ (by simpa using hpaths) (by simpa using hmacros) ?_
      rw [languageOf?_offerKind, hlanguage, ← hflag, Option.bind_some]
  | output | dropped | language | headerOption | macroOption | sysroot =>
    exact ⟨hpaths, hmacros, hlanguage, rfl⟩

theorem step_agrees (h : Agrees ctx s r) (flag : String) :
    Agrees ctx (s.step ctx.host flag) (r.step ctx flag) := by
  unfold Said.step step
  rw [h.pending]
  cases s.pending with
  | none => exact apply_agrees h flag (meaning ctx.host flag)
  | some pending => exact argument_agrees h flag pending

theorem foldl_agrees (h : Agrees ctx s r) (flags : List String) :
    Agrees ctx (flags.foldl (Said.step ctx.host) s) (flags.foldl (step ctx) r) := by
  induction flags generalizing s r with
  | nil => exact h
  | cons flag flags ih => exact ih (step_agrees h flag)

end Reading

/-! ## The analysis of a record -/

section Analyze

variable (ctx : Context) (flags : List String)

theorem analyze_agrees : Reading.Agrees ctx (said ctx.host flags)
    ((withoutCompiler ctx.host flags).foldl (Reading.step ctx) .start) :=
  Reading.foldl_agrees (Reading.start_agrees ctx) _

theorem analyze_headerPaths :
    (analyze ctx flags).headerPaths = ctx.headerPaths (said ctx.host flags).headerDirs := by
  simpa [analyze] using (analyze_agrees ctx flags).headerPaths

/-- The macros are those that the flags name, in whatever directory. -/
theorem analyze_macros : (analyze ctx flags).macros = (said ctx.host flags).macros := by
  simpa [analyze] using (analyze_agrees ctx flags).macros

/-- The extension of a file counts only where no flag names a language. -/
theorem analyze_language : (analyze ctx flags).kind.language =
    (said ctx.host flags).language.getD (SourceKind.ofPath ctx.file).language := by
  have hread := (analyze_agrees ctx flags).language
  unfold analyze Analysis.offerKind
  rw [← hread]
  simp only
  split
  · rename_i hkind
    rw [hkind]
    rfl
  · rename_i hkind
    simp [languageOf?, hkind]

end Analyze

end CompileCommands.Flags
