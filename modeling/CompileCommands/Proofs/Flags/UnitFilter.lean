-- What it does to the configuration of a unit that the flags which mention
-- the unit are dropped. It does nothing where each of them is an input or an
-- output as the flags are read. A directory of headers or a macro that only
-- looks like a file of the unit is lost, and an option that announced it
-- takes the flag behind it instead.
import CompileCommands.Flags.Analysis

namespace CompileCommands.Flags

/-! ## The configuration of a unit -/

/-- What the flags of a record say of headers, macros and the sysroot. -/
structure Configuration where
  headerPaths : List HeaderPath
  macros : List Macro
  sysroot : Option Path
  deriving DecidableEq, Repr

def Analysis.configuration (a : Analysis) : Configuration := ⟨a.headerPaths, a.macros, a.sysroot⟩

@[simp]
theorem configuration_offerKind (a : Analysis) (kind : SourceKind) :
    (a.offerKind kind).configuration = a.configuration := by
  unfold Analysis.offerKind
  split <;> rfl

@[simp]
theorem configuration_keep (a : Analysis) (flag : String) :
    (a.keep flag).configuration = a.configuration := rfl

namespace Reading

/-- Two readings that found the same configuration, and expect the same next. -/
structure Alike (r r' : Reading) : Prop where
  configuration : r.analysis.configuration = r'.analysis.configuration
  pending : r.pending = r'.pending

theorem Alike.refl (r : Reading) : r.Alike r := ⟨rfl, rfl⟩

theorem Alike.trans {r r' r'' : Reading} (h : r.Alike r') (h' : r'.Alike r'') : r.Alike r'' :=
  ⟨h.configuration.trans h'.configuration, h.pending.trans h'.pending⟩

theorem Alike.symm {r r' : Reading} (h : r.Alike r') : r'.Alike r :=
  ⟨h.configuration.symm, h.pending.symm⟩

section Step

variable {ctx : Context} {a a' : Analysis}

theorem argument_configuration (h : a.configuration = a'.configuration) (flag : String)
    (pending : Pending) :
    (argument ctx a flag pending).configuration = (argument ctx a' flag pending).configuration := by
  cases pending with
  | headerPath kind => simp_all [argument, Analysis.configuration, Analysis.addHeaderPath]
  | definition kind => simp_all [argument, Analysis.configuration, Analysis.addMacro]
  | language => simpa [argument] using h
  | output => exact h

/-- Any other flag may give the kind of the source, and nothing else. -/
theorem apply_other (ctx : Context) (a : Analysis) (flag : String) (kept : Bool) :
    Alike (apply ctx a flag (.other kept)) ⟨a, none⟩ := by
  unfold apply
  cases SourceKind.ofFlag? flag ctx.file with
  | none => cases kept <;> exact ⟨rfl, rfl⟩
  | some kind =>
    cases kept <;> exact ⟨by simp, rfl⟩

theorem apply_alike (h : a.configuration = a'.configuration) (flag : String) (m : Meaning) :
    Alike (apply ctx a flag m) (apply ctx a' flag m) := by
  have hfields := h
  simp only [Analysis.configuration, Configuration.mk.injEq] at hfields
  obtain ⟨hpaths, hmacros, hsysroot⟩ := hfields
  cases m with
  | headerPath kind dir =>
    refine ⟨?_, rfl⟩
    simp [apply, Analysis.configuration, Analysis.addHeaderPath, hpaths, hmacros, hsysroot]
  | definition kind text =>
    refine ⟨?_, rfl⟩
    simp [apply, Analysis.configuration, Analysis.addMacro, hpaths, hmacros, hsysroot]
  | sysroot dir =>
    refine ⟨?_, rfl⟩
    simp [apply, Analysis.configuration, Analysis.offerSysroot, hpaths, hmacros, hsysroot]
  | other kept =>
    have hsame : Alike ⟨a, none⟩ ⟨a', none⟩ := ⟨h, rfl⟩
    exact ((apply_other ctx a flag kept).trans hsame).trans (apply_other ctx a' flag kept).symm
  | output | dropped | language | headerOption | macroOption => exact ⟨h, rfl⟩

theorem Alike.step {r r' : Reading} (h : r.Alike r') (flag : String) :
    (r.step ctx flag).Alike (r'.step ctx flag) := by
  unfold Reading.step
  rw [h.pending]
  cases r'.pending with
  | none => exact apply_alike h.configuration flag (meaning ctx.host flag)
  | some pending => exact ⟨argument_configuration h.configuration flag pending, rfl⟩

end Step

end Reading

/-! ## Flags that may go -/

/-- The flag says nothing of the configuration, nor of the next flag. -/
def Meaning.isSilent : Meaning → Bool
  | .dropped | .other _ => true
  | _ => false

/-- What the flag after this one is. -/
def nextPending (host : Host) (pending : Option Pending) (flag : String) : Option Pending :=
  match pending with
  | some _ => none
  | none =>
    match meaning host flag with
    | .output => some .output
    | .language => some .language
    | .headerOption kind => some (.headerPath kind)
    | .macroOption kind => some (.definition kind)
    | _ => none

/-- A flag that mentions the unit is the argument of an output option, or is
silent. No output option is itself an argument. -/
def IsOwn (host : Host) (baseName : String) (pending : Option Pending) (flag : String) : Prop :=
  (mentions baseName flag = true →
    pending = some .output ∨ pending = none ∧ (meaning host flag).isSilent = true) ∧
  (flag ∈ outputOptions → pending = none)

instance (host : Host) (baseName : String) (pending : Option Pending) (flag : String) :
    Decidable (IsOwn host baseName pending flag) :=
  inferInstanceAs (Decidable (_ ∧ _))

/-- Of the flags, each as it is read, only inputs and outputs mention the unit. -/
def NamesOwnFiles (host : Host) (baseName : String) : Option Pending → List String → Prop
  | _, [] => True
  | pending, flag :: rest => IsOwn host baseName pending flag ∧
      NamesOwnFiles host baseName (nextPending host pending flag) rest

instance decidableNamesOwnFiles (host : Host) (baseName : String) :
    ∀ pending flags, Decidable (NamesOwnFiles host baseName pending flags)
  | _, [] => isTrue trivial
  | pending, flag :: rest =>
    have := decidableNamesOwnFiles host baseName (nextPending host pending flag) rest
    inferInstanceAs (Decidable (_ ∧ _))

section OneFlag

variable {ctx : Context} {r : Reading} {flag : String}

theorem step_pending (ctx : Context) (r : Reading) (flag : String) :
    (r.step ctx flag).pending = nextPending ctx.host r.pending flag := by
  unfold Reading.step nextPending
  cases r.pending with
  | some pending => rfl
  | none => cases meaning ctx.host flag <;> rfl

theorem step_silent (hpending : r.pending = none)
    (h : (meaning ctx.host flag).isSilent = true) : (r.step ctx flag).Alike r := by
  have hr : Reading.Alike ⟨r.analysis, none⟩ r := ⟨rfl, hpending.symm⟩
  unfold Reading.step
  rw [hpending]
  cases hm : meaning ctx.host flag <;> rw [hm] at h
  case dropped => exact hr
  case other kept => exact (Reading.apply_other ctx r.analysis flag kept).trans hr
  all_goals cases h

theorem step_output (hpending : r.pending = some .output) :
    r.step ctx flag = ⟨r.analysis, none⟩ := by
  unfold Reading.step
  rw [hpending]
  rfl

theorem headerMeaning?_ne_output (host : Host) (flag : String) :
    headerMeaning? host flag ≠ some .output := by
  unfold headerMeaning?
  grind

theorem macroMeaning?_ne_output (host : Host) (flag : String) :
    macroMeaning? host flag ≠ some .output := by
  unfold macroMeaning?
  grind

theorem sysrootMeaning?_ne_output (flag : String) : sysrootMeaning? flag ≠ some .output := by
  unfold sysrootMeaning?
  cases Text.after? flag "--sysroot=" <;> simp

theorem meaning_eq_output_iff (host : Host) (flag : String) :
    meaning host flag = .output ↔ flag ∈ outputOptions := by
  have hheader := headerMeaning?_ne_output host flag
  have hmacro := macroMeaning?_ne_output host flag
  have hsysroot := sysrootMeaning?_ne_output flag
  unfold meaning
  by_cases hflag : flag ∈ outputOptions
  · simp [hflag]
  · simp only [hflag, if_false, iff_false]
    split
    · nofun
    split
    · nofun
    cases hh : headerMeaning? host flag <;> cases hm : macroMeaning? host flag <;>
      cases hs : sysrootMeaning? flag <;> simp_all

end OneFlag

/-! ## Flags that mention a unit -/

/-- An output option stands last. -/
def endsInOption : List String → Bool
  | [] => false
  | last :: _ => last ∈ outputOptions

theorem dropOutputOption_of_not_endsInOption {kept : List String} (h : endsInOption kept = false) :
    dropOutputOption kept = kept := by
  cases kept with
  | nil => rfl
  | cons last kept => simpa [endsInOption, dropOutputOption] using h

theorem dropOutputOption_append {kept : List String} {first : String} (h : first ∉ outputOptions) :
    dropOutputOption (kept ++ [first]) = dropOutputOption kept ++ [first] := by
  cases kept with
  | nil => simp [dropOutputOption, h]
  | cons last kept =>
    simp only [List.cons_append, dropOutputOption]
    split <;> rfl

theorem foldl_filterStep_append (baseName : String) {first : String} (h : first ∉ outputOptions)
    (kept flags : List String) : flags.foldl (filterStep baseName) (kept ++ [first]) =
      flags.foldl (filterStep baseName) kept ++ [first] := by
  induction flags generalizing kept with
  | nil => rfl
  | cons flag flags ih =>
    simp only [List.foldl_cons, filterStep]
    split
    · rw [dropOutputOption_append h, ih]
    · exact ih (flag :: kept)

theorem mem_dropOutputOption {kept : List String} {flag : String}
    (h : flag ∈ dropOutputOption kept) : flag ∈ kept := by
  cases kept with
  | nil => exact h
  | cons last kept =>
    simp only [dropOutputOption] at h
    split at h
    · exact List.mem_cons_of_mem last h
    · exact h

theorem mem_foldl_filterStep {baseName flag : String} {kept flags : List String}
    (h : flag ∈ flags.foldl (filterStep baseName) kept) :
    flag ∈ kept ∨ flag ∈ flags ∧ mentions baseName flag = false := by
  induction flags generalizing kept with
  | nil => exact .inl h
  | cons f flags ih =>
    simp only [List.foldl_cons, filterStep] at h
    split at h
    · rcases ih h with hkept | ⟨hmem, hmentions⟩
      · exact .inl (mem_dropOutputOption hkept)
      · exact .inr ⟨List.mem_cons_of_mem f hmem, hmentions⟩
    · rcases ih h with hkept | ⟨hmem, hmentions⟩
      · rcases List.mem_cons.mp hkept with rfl | hkept
        · exact .inr ⟨by simp, by simpa using ‹¬ mentions baseName flag = true›⟩
        · exact .inl hkept
      · exact .inr ⟨List.mem_cons_of_mem f hmem, hmentions⟩

/-- What is left mentions the unit nowhere. -/
theorem mentions_eq_false_of_mem {baseName flag : String} {flags : List String}
    (hbase : baseName ≠ "") (h : flag ∈ withoutUnit flags baseName) :
    mentions baseName flag = false := by
  unfold withoutUnit at h
  rw [if_neg hbase, List.mem_reverse] at h
  rcases mem_foldl_filterStep h with h | ⟨-, h⟩
  · cases h
  · exact h

/-! ## Reading what is left -/

section Simulation

variable {ctx : Context} {baseName : String}

def readAll (ctx : Context) (flags : List String) : Reading := flags.foldl (Reading.step ctx) .start

/-- The flags that are kept so far, last one first, are read as all of the
flags so far are. The reading expects an output just where the last kept flag
is an output option, and without that option nothing else would change. -/
structure Follows (ctx : Context) (kept : List String) (r : Reading) : Prop where
  alike : (readAll ctx kept.reverse).Alike r
  option : endsInOption kept = true ↔ r.pending = some .output
  below : r.pending = some .output →
    (readAll ctx (dropOutputOption kept).reverse).Alike ⟨r.analysis, none⟩
  clear : r.pending = some .output → endsInOption (dropOutputOption kept) = false

theorem follows_start (ctx : Context) : Follows ctx [] .start where
  alike := .refl _
  option := by simp [endsInOption, Reading.start]
  below := nofun
  clear := nofun

theorem Follows.keep {kept : List String} {r : Reading} (h : Follows ctx kept r) {flag : String}
    (hoption : flag ∈ outputOptions → r.pending = none) :
    Follows ctx (flag :: kept) (r.step ctx flag) := by
  have hread : readAll ctx (flag :: kept).reverse = (readAll ctx kept.reverse).step ctx flag := by
    simp [readAll]
  have hpending : (r.step ctx flag).pending = some .output ↔ flag ∈ outputOptions := by
    rw [step_pending, ← meaning_eq_output_iff ctx.host flag]
    unfold nextPending
    constructor
    · intro hnext
      split at hnext
      · cases hnext
      · split at hnext <;> first | assumption | cases hnext
    · intro hm
      rw [hoption ((meaning_eq_output_iff _ _).mp hm), hm]
  have hbelow : (r.step ctx flag).pending = some .output →
      r.pending = none ∧ (r.step ctx flag).analysis = r.analysis ∧
        dropOutputOption (flag :: kept) = kept := by
    intro hnext
    have hflag := hpending.mp hnext
    refine ⟨hoption hflag, ?_, if_pos hflag⟩
    unfold Reading.step
    rw [hoption hflag, (meaning_eq_output_iff _ _).mpr hflag]
    rfl
  refine ⟨?_, ?_, ?_, ?_⟩
  · rw [hread]
    exact h.alike.step flag
  · rw [hpending]
    simp [endsInOption]
  · intro hnext
    obtain ⟨hnone, hanalysis, hdrop⟩ := hbelow hnext
    rw [hdrop, hanalysis]
    exact ⟨h.alike.configuration, h.alike.pending.trans hnone⟩
  · intro hnext
    obtain ⟨hnone, -, hdrop⟩ := hbelow hnext
    rw [hdrop, Bool.eq_false_iff, ne_eq, h.option, hnone]
    nofun

theorem Follows.drop {kept : List String} {r : Reading} (h : Follows ctx kept r) {flag : String}
    (hown : r.pending = some .output ∨
      r.pending = none ∧ (meaning ctx.host flag).isSilent = true) :
    Follows ctx (dropOutputOption kept) (r.step ctx flag) := by
  rcases hown with houtput | ⟨hnone, hsilent⟩
  · rw [step_output houtput]
    exact ⟨h.below houtput, by simp [h.clear houtput], nofun, nofun⟩
  · have hends : endsInOption kept = false := by
      rw [Bool.eq_false_iff, ne_eq, h.option, hnone]
      nofun
    have hstep := step_silent hnone hsilent
    have hpending : (r.step ctx flag).pending = none := hstep.pending.trans hnone
    rw [dropOutputOption_of_not_endsInOption hends]
    exact ⟨h.alike.trans hstep.symm, by simp [hends, hpending], by simp [hpending],
      by simp [hpending]⟩

theorem Follows.foldl {kept : List String} {r : Reading} (h : Follows ctx kept r)
    {flags : List String} (hown : NamesOwnFiles ctx.host baseName r.pending flags) :
    Follows ctx (flags.foldl (filterStep baseName) kept) (flags.foldl (Reading.step ctx) r) := by
  induction flags generalizing kept r with
  | nil => exact h
  | cons flag flags ih =>
    obtain ⟨⟨hmentions, hoption⟩, hrest⟩ := hown
    rw [← step_pending ctx r flag] at hrest
    simp only [List.foldl_cons, filterStep]
    split
    · exact ih (h.drop (hmentions ‹_›)) hrest
    · exact ih (h.keep hoption) hrest

end Simulation

/-! ## The compiler -/

theorem withoutUnit_cons {baseName first : String} {flags : List String}
    (hfirst : mentions baseName first = false) (hoption : first ∉ outputOptions) :
    withoutUnit (first :: flags) baseName = first :: withoutUnit flags baseName := by
  unfold withoutUnit
  split
  · rfl
  · have hfold := foldl_filterStep_append baseName hoption [] flags
    simp only [List.foldl_cons, filterStep, hfirst, Bool.false_eq_true, if_false]
    rw [List.nil_append] at hfold
    rw [hfold, List.reverse_append]
    rfl

theorem withoutCompiler_withoutUnit {host : Host} {baseName : String} {flags : List String}
    (h : (withoutUnit flags baseName).head? = flags.head?) :
    withoutCompiler host (withoutUnit flags baseName) =
      withoutUnit (withoutCompiler host flags) baseName := by
  by_cases hbase : baseName = ""
  · simp [withoutUnit, hbase]
  cases flags with
  | nil => simp [withoutUnit, withoutCompiler]
  | cons first rest =>
    obtain ⟨left, hleft⟩ := List.head?_eq_some_iff.mp h
    by_cases hoption : isOption host first = true
    · rw [hleft]
      simp only [withoutCompiler, hoption, if_true]
      exact hleft.symm
    · have hplain : mentions baseName first = false :=
        mentions_eq_false_of_mem hbase (by rw [hleft]; exact List.mem_cons_self)
      have hout : first ∉ outputOptions := by
        intro hmem
        have hdash : ∀ o ∈ outputOptions, Text.startsWith o "-" = true := by decide
        exact hoption (by simp [isOption, hdash first hmem])
      rw [withoutUnit_cons hplain hout]
      simp [withoutCompiler, hoption]

/-! ## The configuration of what is left -/

/-- Where the first flag stays and only inputs and outputs mention the unit,
the flags that are left say the same of headers, macros and the sysroot. -/
theorem configuration_withoutUnit {ctx : Context} {baseName : String} {flags : List String}
    (hfirst : (withoutUnit flags baseName).head? = flags.head?)
    (hown : NamesOwnFiles ctx.host baseName none (withoutCompiler ctx.host flags)) :
    (analyze ctx (withoutUnit flags baseName)).configuration =
      (analyze ctx flags).configuration := by
  have hread : (readAll ctx (withoutUnit (withoutCompiler ctx.host flags) baseName)).Alike
      (readAll ctx (withoutCompiler ctx.host flags)) := by
    by_cases hbase : baseName = ""
    · rw [withoutUnit, if_pos hbase]
      exact .refl _
    · rw [withoutUnit, if_neg hbase]
      exact ((follows_start ctx).foldl hown).alike
  unfold analyze
  simp only [configuration_offerKind, withoutCompiler_withoutUnit hfirst]
  exact hread.configuration

/-- A unit with its outputs among directories and macros. -/
def plainUnit : List String :=
  ["cc", "-I", "include", "-DX", "-MF", "deps/a.d", "-o", "obj/a.o", "-c", "src/a.c"]

theorem configuration_withoutUnit_plainUnit :
    (withoutUnit plainUnit "a").head? = plainUnit.head? ∧
      NamesOwnFiles .unix "a" none (withoutCompiler .unix plainUnit) ∧
      (analyze ⟨⟨"/proj/src/a.c"⟩, ⟨"/proj"⟩, .unix⟩ (withoutUnit plainUnit "a")).configuration =
        (analyze ⟨⟨"/proj/src/a.c"⟩, ⟨"/proj"⟩, .unix⟩ plainUnit).configuration := by
  have hfirst : (withoutUnit plainUnit "a").head? = plainUnit.head? := by decide +kernel
  have hown : NamesOwnFiles .unix "a" none (withoutCompiler .unix plainUnit) := by decide +kernel
  exact ⟨hfirst, hown, configuration_withoutUnit hfirst hown⟩

/-- A directory of headers may be called like the unit. It goes, and `-I` takes
the macro that follows it. -/
theorem withoutUnit_changes_configuration :
    ¬ ∀ (ctx : Context) (flags : List String), ctx.file.baseName ≠ "" →
      (analyze ctx (withoutUnit flags ctx.file.baseName)).configuration =
        (analyze ctx flags).configuration := by
  intro h
  have hsame := h ⟨⟨"/proj/a.c"⟩, ⟨"/proj"⟩, .unix⟩ ["cc", "-I", "a.dir", "-DX", "-c", "a.c"]
    (by decide)
  exact absurd hsame (by decide +kernel)

end CompileCommands.Flags
