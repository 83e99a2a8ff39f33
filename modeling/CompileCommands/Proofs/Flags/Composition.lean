-- Flags that are read in two parts. What a flag adds to a reading does not
-- depend on what was read before it, but for an option that still waits. So
-- flags may be cut wherever no option waits for its argument: what they say
-- as a whole is what the two parts say, one behind the other.
import CompileCommands.Proofs.Flags.Meaning

namespace CompileCommands

/-- The kind, if it is known. -/
def SourceKind.known? (kind : SourceKind) : Option SourceKind :=
  if kind = .unclassified then none else some kind

namespace Flags

/-! ## Analyses one behind the other -/

namespace Analysis

/-- What was read of some flags, and then of the flags behind them. The first
kind and the first sysroot stand. -/
def append (a b : Analysis) : Analysis where
  flags := a.flags ++ b.flags
  headerPaths := a.headerPaths ++ b.headerPaths
  macros := a.macros ++ b.macros
  kind := a.kind.known?.getD b.kind
  sysroot := a.sysroot.or b.sysroot

theorem known?_append (a b : Analysis) :
    (a.append b).kind.known? = a.kind.known?.or b.kind.known? := by
  by_cases h : a.kind = .unclassified <;> simp [append, SourceKind.known?, h]

theorem empty_append (a : Analysis) : empty.append a = a := by
  simp [append, empty, SourceKind.known?]

theorem append_assoc (a b c : Analysis) : (a.append b).append c = a.append (b.append c) := by
  by_cases h : a.kind = .unclassified <;> simp [append, SourceKind.known?, Option.or_assoc, h]

variable (a : Analysis)

/-! Each change of an analysis appends to it. -/

theorem keep_eq (flag : String) : a.keep flag = a.append (empty.keep flag) := by
  by_cases h : a.kind = .unclassified <;> simp [keep, append, empty, SourceKind.known?, h]

theorem addHeaderPath_eq (path : Path) (kind : HeaderKind) :
    a.addHeaderPath path kind = a.append (empty.addHeaderPath path kind) := by
  by_cases h : a.kind = .unclassified <;> simp [addHeaderPath, append, empty, SourceKind.known?, h]

theorem addMacro_eq (m : Macro) : a.addMacro m = a.append (empty.addMacro m) := by
  by_cases h : a.kind = .unclassified <;> simp [addMacro, append, empty, SourceKind.known?, h]

theorem offerKind_eq (kind : SourceKind) : a.offerKind kind = a.append (empty.offerKind kind) := by
  by_cases h : a.kind = .unclassified <;> simp [offerKind, append, empty, SourceKind.known?, h]

theorem offerKind_getD (kind : SourceKind) :
    a.offerKind kind = { a with kind := a.kind.known?.getD kind } := by
  by_cases h : a.kind = .unclassified <;> simp [offerKind, SourceKind.known?, h]

theorem offerSysroot_eq (dir : Path) : a.offerSysroot dir = a.append (empty.offerSysroot dir) := by
  by_cases h : a.kind = .unclassified <;> simp [offerSysroot, append, empty, SourceKind.known?, h]

theorem append_empty : a.append empty = a := by
  obtain ⟨flags, headerPaths, macros, kind, sysroot⟩ := a
  by_cases h : kind = .unclassified <;> simp [append, empty, SourceKind.known?, h]

end Analysis

/-! ## Readings one behind the other -/

namespace Reading

/-- The reading, with something read before it. -/
def behind (r : Reading) (a : Analysis) : Reading := ⟨a.append r.analysis, r.pending⟩

variable (ctx : Context)

theorem argument_eq (a : Analysis) (flag : String) (pending : Pending) :
    argument ctx a flag pending = a.append (argument ctx .empty flag pending) := by
  cases pending with
  | headerPath kind => exact a.addHeaderPath_eq _ kind
  | definition kind => exact a.addMacro_eq _
  | language =>
    simp only [argument]
    rw [Analysis.keep_eq, a.offerKind_eq, Analysis.append_assoc, ← Analysis.keep_eq]
  | output => exact a.append_empty.symm

theorem apply_eq (a : Analysis) (flag : String) (m : Meaning) :
    apply ctx a flag m = (apply ctx .empty flag m).behind a := by
  cases m with
  | headerPath kind dir => simp only [apply, behind, ← a.addHeaderPath_eq]
  | definition kind text => simp only [apply, behind, ← a.addMacro_eq]
  | sysroot dir => simp only [apply, behind, ← a.offerSysroot_eq]
  | language => simp only [apply, behind, ← a.keep_eq]
  | other kept =>
    simp only [apply, behind]
    cases SourceKind.ofFlag? flag ctx.file with
    | none => cases kept <;> simp [← a.keep_eq, a.append_empty]
    | some kind =>
      cases kept
      · simp [← a.offerKind_eq]
      · simp only [if_true]
        rw [Analysis.keep_eq, a.offerKind_eq, Analysis.append_assoc, ← Analysis.keep_eq]
  | output | dropped | headerOption | macroOption => simp only [apply, behind, a.append_empty]

theorem step_behind (r : Reading) (a : Analysis) (flag : String) :
    step ctx (r.behind a) flag = (step ctx r flag).behind a := by
  unfold step
  have hpending : (r.behind a).pending = r.pending := rfl
  rw [hpending]
  cases r.pending with
  | none =>
    rw [apply_eq, apply_eq ctx r.analysis]
    simp [behind, Analysis.append_assoc]
  | some pending =>
    simp only [behind]
    rw [argument_eq, argument_eq ctx r.analysis, Analysis.append_assoc]

theorem foldl_step_behind (r : Reading) (a : Analysis) (flags : List String) :
    flags.foldl (step ctx) (r.behind a) = (flags.foldl (step ctx) r).behind a := by
  induction flags generalizing r with
  | nil => rfl
  | cons flag flags ih => rw [List.foldl_cons, step_behind, ih, List.foldl_cons]

end Reading

/-- Where no option waits, the flags behind are read as if they were the first. -/
theorem readAll_append {ctx : Context} {a : List String} (ha : (readAll ctx a).pending = none)
    (b : List String) : readAll ctx (a ++ b) = (readAll ctx b).behind (readAll ctx a).analysis := by
  have hstart : readAll ctx a = Reading.start.behind (readAll ctx a).analysis := by
    unfold Reading.behind Reading.start
    rw [Analysis.append_empty, ← ha]
  have hfold := Reading.foldl_step_behind ctx .start (readAll ctx a).analysis b
  rw [← hstart] at hfold
  exact List.foldl_append.trans hfold

/-! ## Flags with their arguments -/

/-- A flag that is read by itself, or an option with the flag behind it. -/
inductive Item
  | single (flag : String)
  | withArgument (option argument : String)
  deriving DecidableEq, Repr

/-- The flags, each option together with its argument. -/
def items : List String → List Item
  | [] => []
  | [flag] => [.single flag]
  | flag :: next :: rest =>
    if flag ∈ argumentOptions then .withArgument flag next :: items rest
    else .single flag :: items (next :: rest)

namespace Item

/-- The item is an option without an argument. Only the last one can be. -/
def waits : Item → Bool
  | .single flag => flag ∈ argumentOptions
  | .withArgument _ _ => false

/-- The kind that an item gives to a file: `/TC`, `/TP`, `-std=` and `/std:` do,
and so does `-x` with a language that is known. -/
def kind? (file : Path) : Item → Option SourceKind
  | .single flag => SourceKind.ofFlag? flag file
  | .withArgument option argument =>
    if option = "-x" then (SourceKind.ofLanguageName argument file).known? else none

end Item

/-- The last flag is an option that waits for its argument. -/
def endsWaiting (flags : List String) : Bool := (items flags).any Item.waits

section Items

variable {ctx : Context} {flag : String}

theorem pending_singleton (ctx : Context) (flag : String) :
    (readAll ctx [flag]).pending = nextPending ctx.host none flag := step_pending ctx .start flag

theorem ofStandard_ne_unclassified (standard : String) (file : Path) :
    SourceKind.ofStandard standard file ≠ .unclassified := by
  unfold SourceKind.ofStandard
  cases Text.contains standard "c++" || Text.contains standard "gnu++" <;>
    cases (SourceKind.ofPath file).isHeader <;> simp

theorem known?_of_ofFlag? {file : Path} {kind : SourceKind}
    (h : SourceKind.ofFlag? flag file = some kind) : kind.known? = some kind := by
  have hknown : kind ≠ .unclassified := by
    unfold SourceKind.ofFlag? at h
    split at h
    · cases h
      simp
    · split at h
      · cases h
        simp
      · obtain ⟨standard, -, rfl⟩ := Option.map_eq_some_iff.mp h
        exact ofStandard_ne_unclassified standard file
  simp [SourceKind.known?, hknown]

/-- A flag by itself gives the kind that it names. -/
theorem kind_singleton (ctx : Context) (flag : String) :
    (readAll ctx [flag]).analysis.kind.known? = SourceKind.ofFlag? flag ctx.file := by
  have hread : readAll ctx [flag] = Reading.apply ctx .empty flag (meaning ctx.host flag) := rfl
  rw [hread]
  cases hflag : SourceKind.ofFlag? flag ctx.file with
  | some kind =>
    obtain ⟨kept, hkept⟩ := meaning_of_ofFlag? ctx.host hflag
    rw [hkept]
    simp only [Reading.apply, hflag]
    cases kept <;> exact known?_of_ofFlag? hflag
  | none =>
    cases meaning ctx.host flag with
    | other kept =>
      simp only [Reading.apply, hflag]
      cases kept <;> rfl
    | _ => rfl

/-- An option that waits is read without giving a kind. -/
theorem kind_of_waiting {pending : Pending} (h : (readAll ctx [flag]).pending = some pending) :
    (readAll ctx [flag]).analysis.kind = .unclassified := by
  have hread : readAll ctx [flag] = Reading.apply ctx .empty flag (meaning ctx.host flag) := rfl
  rw [hread] at h ⊢
  cases hm : meaning ctx.host flag with
  | other kept => simp [hm, Reading.apply] at h
  | _ => rfl

theorem exists_pending (ctx : Context) (h : flag ∈ argumentOptions) :
    ∃ pending, (readAll ctx [flag]).pending = some pending := by
  rw [pending_singleton]
  apply Option.ne_none_iff_exists'.mp
  intro hnone
  exact (nextPending_eq_none_iff ctx.host flag).mp hnone h

theorem readAll_pair (ctx : Context) (flag next : String) :
    readAll ctx [flag, next] = (readAll ctx [flag]).step ctx next := rfl

theorem pending_pair (ctx : Context) (h : flag ∈ argumentOptions) (next : String) :
    (readAll ctx [flag, next]).pending = none := by
  obtain ⟨pending, hpending⟩ := exists_pending ctx h
  rw [readAll_pair, step_pending, hpending]
  rfl

theorem kind_pair (h : flag ∈ argumentOptions) (next : String) :
    (readAll ctx [flag, next]).analysis.kind.known? =
      Item.kind? ctx.file (.withArgument flag next) := by
  obtain ⟨pending, hpending⟩ := exists_pending ctx h
  have hkind := kind_of_waiting hpending
  have hlanguage : pending = .language ↔ flag = "-x" := by
    rw [← nextPending_eq_language_iff ctx.host, ← pending_singleton, hpending, Option.some_inj]
  rw [readAll_pair, Reading.step, hpending]
  simp only [Item.kind?, ← hlanguage]
  cases pending with
  | language => simp [Reading.argument, Analysis.keep, Analysis.offerKind, hkind]
  | headerPath kind | definition kind | output =>
    simp [Reading.argument, Analysis.addHeaderPath, Analysis.addMacro, hkind, SourceKind.known?]

/-- Behind a flag that does not wait, the rest is read as if it were all. -/
theorem readAll_single (ctx : Context) (h : flag ∉ argumentOptions) (rest : List String) :
    readAll ctx (flag :: rest) = (readAll ctx rest).behind (readAll ctx [flag]).analysis := by
  have hnone : (readAll ctx [flag]).pending = none := by
    rwa [pending_singleton, nextPending_eq_none_iff]
  exact readAll_append hnone rest

/-- So is the rest behind an option and its argument. -/
theorem readAll_withArgument (ctx : Context) (h : flag ∈ argumentOptions) (next : String)
    (rest : List String) : readAll ctx (flag :: next :: rest) =
      (readAll ctx rest).behind (readAll ctx [flag, next]).analysis :=
  readAll_append (pending_pair ctx h next) rest

/-- An option waits at the end of a reading just where it is the last item. -/
theorem pending_readAll (ctx : Context) (flags : List String) :
    (readAll ctx flags).pending = none ↔ endsWaiting flags = false := by
  unfold endsWaiting
  fun_induction items flags with
  | case1 => simp [readAll, Reading.start]
  | case2 flag =>
    rw [pending_singleton, nextPending_eq_none_iff]
    simp [Item.waits]
  | case3 flag next rest hmem ih =>
    rw [readAll_withArgument ctx hmem]
    simpa [Reading.behind, Item.waits] using ih
  | case4 flag next rest hmem ih =>
    rw [readAll_single ctx hmem]
    simpa [Reading.behind, Item.waits, hmem] using ih

/-- The kind that is read is that of the first item that gives one. -/
theorem kind_readAll (ctx : Context) (flags : List String) :
    (readAll ctx flags).analysis.kind.known? = (items flags).findSome? (Item.kind? ctx.file) := by
  fun_induction items flags with
  | case1 => rfl
  | case2 flag => simpa [Item.kind?] using kind_singleton ctx flag
  | case3 flag next rest hmem ih =>
    rw [readAll_withArgument ctx hmem, Reading.behind, Analysis.known?_append, kind_pair hmem, ih,
      List.findSome?_cons]
    cases Item.kind? ctx.file (.withArgument flag next) <;> rfl
  | case4 flag next rest hmem ih =>
    rw [readAll_single ctx hmem, Reading.behind, Analysis.known?_append, kind_singleton, ih,
      List.findSome?_cons, Item.kind?]
    cases SourceKind.ofFlag? flag ctx.file <;> rfl

end Items

/-! ## The analysis of two parts -/

theorem items_append {a : List String} (ha : endsWaiting a = false) (b : List String) :
    items (a ++ b) = items a ++ items b := by
  unfold endsWaiting at ha
  fun_induction items a with
  | case1 => rfl
  | case2 flag =>
    have hflag : flag ∉ argumentOptions := by simpa [Item.waits] using ha
    cases b with
    | nil => rfl
    | cons next rest => simp [items, hflag]
  | case3 flag next rest hmem ih => simp_all [items, Item.waits]
  | case4 flag next rest hmem ih => simp_all [items, Item.waits]

theorem analyze_compiler {ctx : Context} {compiler : String}
    (hcompiler : isOption ctx.host compiler = false) (flags : List String) :
    analyze ctx (compiler :: flags) =
      (readAll ctx flags).analysis.offerKind (SourceKind.ofPath ctx.file) := by
  simp [analyze, withoutCompiler, hcompiler, readAll]

/-- Behind the compiler, flags may be cut wherever no option waits for its
argument. What is kept, the directories of headers and the macros of the two
parts stand one behind the other, the sysroot is the first one, and the kind is
that of the first item that gives one, or else that of the extension. -/
theorem analyze_append {ctx : Context} {compiler : String} {a : List String}
    (hcompiler : isOption ctx.host compiler = false) (ha : endsWaiting a = false)
    (b : List String) :
    let first := analyze ctx (compiler :: a)
    let second := analyze ctx (compiler :: b)
    analyze ctx (compiler :: (a ++ b)) =
      { flags := first.flags ++ second.flags
        headerPaths := first.headerPaths ++ second.headerPaths
        macros := first.macros ++ second.macros
        kind := ((items a ++ items b).findSome? (Item.kind? ctx.file)).getD
          (SourceKind.ofPath ctx.file)
        sysroot := first.sysroot.or second.sysroot } := by
  intro first second
  have happend := readAll_append ((pending_readAll ctx a).mpr ha) b
  have hkind := kind_readAll ctx (a ++ b)
  rw [items_append ha] at hkind
  simp only [first, second, analyze_compiler hcompiler, Analysis.offerKind_getD]
  rw [← hkind, happend]
  rfl

/-- A standard that is the argument of `-D`, and a language that is not known,
give no kind. -/
theorem analyze_append_lateKind :
    isOption .unix "cc" = false ∧
      endsWaiting ["-D", "-std=c++17", "-x", "none", "-Iinc", "--sysroot=sdk"] = false ∧
      analyze ⟨⟨"/proj/a.h"⟩, ⟨"/proj"⟩, .unix⟩ ("cc" ::
        (["-D", "-std=c++17", "-x", "none", "-Iinc", "--sysroot=sdk"] ++
          ["-std=c11", "-g", "--sysroot=/sdk", "-I", "/inc", "-x", "c++"])) =
        { flags := ["-x", "none", "-std=c11", "-g", "-x", "c++"]
          headerPaths := [⟨⟨"/proj/inc"⟩, .user⟩, ⟨⟨"/inc"⟩, .user⟩]
          macros := [⟨"-std", "c++17", .define⟩]
          kind := .cHeader
          sysroot := some ⟨"/proj/sdk"⟩ } := by
  have hcompiler : isOption .unix "cc" = false := by decide
  have ha : endsWaiting ["-D", "-std=c++17", "-x", "none", "-Iinc", "--sysroot=sdk"] = false := by
    decide
  exact ⟨hcompiler, ha, (analyze_append hcompiler ha _).trans (by decide +kernel)⟩

end Flags

end CompileCommands
