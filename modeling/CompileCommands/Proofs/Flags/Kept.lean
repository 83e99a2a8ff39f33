-- The flags that an analysis keeps. They come from whole items: a flag by itself,
-- or `-x` with the language behind it. So they fall into the same items when they
-- are read again, and such items say nothing of headers, macros and the sysroot.
import CompileCommands.Proofs.Flags.Composition

namespace CompileCommands.Flags

/-! ## Items that are kept -/

/-- A flag of this meaning is kept, and so is its argument if it takes one. -/
def Meaning.isKept : Meaning → Bool
  | .language | .other true => true
  | _ => false

namespace Item

/-- The item is kept, with all of its flags. -/
def isKept (host : Host) : Item → Bool
  | .single flag => (meaning host flag).isKept
  | .withArgument option _ => (meaning host option).isKept

end Item

/-- These flags are kept, and nothing is found but the kind. -/
structure Analysis.KeepsOnly (a : Analysis) (flags : List String) : Prop where
  kept : a.flags = flags
  configuration : a.configuration = ⟨[], [], none⟩

theorem Analysis.KeepsOnly.append {a b : Analysis} {front back : List String}
    (ha : a.KeepsOnly front) (hb : b.KeepsOnly back) : (a.append b).KeepsOnly (front ++ back) := by
  obtain ⟨hfront, hnone⟩ := ha
  obtain ⟨hback, hnone'⟩ := hb
  simp only [Analysis.configuration, Configuration.mk.injEq] at hnone hnone'
  constructor
  · simp [Analysis.append, hfront, hback]
  · simp [Analysis.append, Analysis.configuration, hnone, hnone']

@[simp]
theorem offerKind_flags (a : Analysis) (kind : SourceKind) :
    (a.offerKind kind).flags = a.flags := by
  unfold Analysis.offerKind
  split <;> rfl

theorem Analysis.KeepsOnly.offerKind {a : Analysis} {flags : List String} (h : a.KeepsOnly flags)
    (kind : SourceKind) : (a.offerKind kind).KeepsOnly flags :=
  ⟨by simpa using h.kept, by simpa using h.configuration⟩

section Items

variable {ctx : Context} {flag : String}

/-- A flag by itself is kept with nothing else, or it is not kept. -/
theorem singleton_cases (ctx : Context) (flag : String) :
    (Item.single flag).isKept ctx.host = true ∧ (readAll ctx [flag]).analysis.KeepsOnly [flag] ∨
      (Item.single flag).isKept ctx.host = false ∧ (readAll ctx [flag]).analysis.flags = [] := by
  have hread : readAll ctx [flag] = Reading.apply ctx .empty flag (meaning ctx.host flag) := rfl
  rw [hread, Item.isKept]
  cases meaning ctx.host flag with
  | language => exact .inl ⟨rfl, rfl, rfl⟩
  | other kept =>
    have hbare := (Reading.apply_other ctx .empty flag kept).configuration
    simp only [Reading.apply] at hbare ⊢
    cases kept
    · right
      cases SourceKind.ofFlag? flag ctx.file <;> exact ⟨rfl, rfl⟩
    · left
      refine ⟨rfl, ?_, hbare⟩
      cases SourceKind.ofFlag? flag ctx.file <;> rfl
  | _ => exact .inr ⟨rfl, rfl⟩

/-- Of the options that take an argument, only `-x` is kept, and its argument
with it. -/
theorem pair_cases (ctx : Context) (h : flag ∈ argumentOptions) (next : String) :
    (Item.withArgument flag next).isKept ctx.host = true ∧
        (readAll ctx [flag, next]).analysis.KeepsOnly [flag, next] ∨
      (Item.withArgument flag next).isKept ctx.host = false ∧
        (readAll ctx [flag, next]).analysis.flags = [] := by
  have hwaits : nextPending ctx.host none flag ≠ none := by simpa [nextPending_eq_none_iff] using h
  have hread : readAll ctx [flag, next] =
      (Reading.apply ctx .empty flag (meaning ctx.host flag)).step ctx next := rfl
  rw [nextPending] at hwaits
  rw [hread, Item.isKept]
  cases hm : meaning ctx.host flag with
  | language =>
    exact .inl ⟨rfl, rfl, (configuration_keep _ _).trans (configuration_offerKind _ _)⟩
  | output | headerOption kind | macroOption kind => exact .inr ⟨rfl, rfl⟩
  | _ => simp [hm] at hwaits

/-! ## All flags -/

/-- The flags that are kept fall into the items that are kept. -/
theorem items_kept (ctx : Context) (flags : List String) :
    items (readAll ctx flags).analysis.flags = (items flags).filter (Item.isKept ctx.host) := by
  fun_induction items flags with
  | case1 => rfl
  | case2 flag =>
    rcases singleton_cases ctx flag with ⟨hkept, hflags⟩ | ⟨hkept, hflags⟩
    · rw [hflags.kept, List.filter_cons_of_pos hkept]
      rfl
    · rw [hflags, List.filter_cons_of_neg (by simp [hkept])]
      rfl
  | case3 flag next rest hmem ih =>
    rw [readAll_withArgument ctx hmem]
    simp only [Reading.behind, Analysis.append]
    rcases pair_cases ctx hmem next with ⟨hkept, hflags⟩ | ⟨hkept, hflags⟩
    · rw [hflags.kept, List.filter_cons_of_pos hkept]
      simp [items, hmem, ih]
    · rw [hflags, List.filter_cons_of_neg (by simp [hkept])]
      exact ih
  | case4 flag next rest hmem ih =>
    rw [readAll_single ctx hmem]
    simp only [Reading.behind, Analysis.append]
    rcases singleton_cases ctx flag with ⟨hkept, hflags⟩ | ⟨hkept, hflags⟩
    · -- The flag does not wait, so what is kept behind it cannot become its argument.
      have hdone : endsWaiting [flag] = false := by
        simp [endsWaiting, items, Item.waits, hmem]
      rw [hflags.kept, List.filter_cons_of_pos hkept, items_append hdone, ih]
      rfl
    · rw [hflags, List.filter_cons_of_neg (by simp [hkept])]
      exact ih

/-- Flags that fall into items that are all kept are kept as they are. -/
theorem keepsOnly_of_items (ctx : Context) {flags : List String}
    (h : ∀ item ∈ items flags, item.isKept ctx.host = true) :
    (readAll ctx flags).analysis.KeepsOnly flags := by
  fun_induction items flags with
  | case1 => exact ⟨rfl, rfl⟩
  | case2 flag =>
    have hflag := h _ (List.mem_singleton.mpr rfl)
    rcases singleton_cases ctx flag with ⟨-, hkeeps⟩ | ⟨hleft, -⟩
    · exact hkeeps
    · simp [hleft] at hflag
  | case3 flag next rest hmem ih =>
    obtain ⟨hfirst, hrest⟩ := List.forall_mem_cons.mp h
    rw [readAll_withArgument ctx hmem]
    rcases pair_cases ctx hmem next with ⟨-, hkeeps⟩ | ⟨hleft, -⟩
    · exact hkeeps.append (ih hrest)
    · simp [hleft] at hfirst
  | case4 flag next rest hmem ih =>
    obtain ⟨hfirst, hrest⟩ := List.forall_mem_cons.mp h
    rw [readAll_single ctx hmem]
    rcases singleton_cases ctx flag with ⟨-, hkeeps⟩ | ⟨hleft, -⟩
    · exact hkeeps.append (ih hrest)
    · simp [hleft] at hfirst

end Items

/-! ## Flags that are read again -/

/-- What an analysis keeps is kept again and says nothing of headers, macros and
the sysroot, behind any compiler, and in whatever file and directory it is read
again. -/
theorem analyze_kept (ctx : Context) (flags : List String) {compiler : String}
    (hcompiler : isOption ctx.host compiler = false) (file directory : Path) :
    let kept := (analyze ctx flags).flags
    let again := analyze ⟨file, directory, ctx.host⟩ (compiler :: kept)
    again.flags = kept ∧ again.headerPaths = [] ∧ again.macros = [] ∧ again.sysroot = none := by
  have hkept : (analyze ctx flags).flags =
      (readAll ctx (withoutCompiler ctx.host flags)).analysis.flags := by
    unfold analyze
    exact offerKind_flags _ _
  have hitems : ∀ item ∈ items (analyze ctx flags).flags, item.isKept ctx.host = true := by
    rw [hkept, items_kept]
    exact fun item hitem => (List.mem_filter.mp hitem).2
  have hagain : (analyze ⟨file, directory, ctx.host⟩
      (compiler :: (analyze ctx flags).flags)).KeepsOnly (analyze ctx flags).flags := by
    have hhost : isOption (Context.mk file directory ctx.host).host compiler = false := hcompiler
    rw [analyze_compiler hhost]
    exact (keepsOnly_of_items ⟨file, directory, ctx.host⟩ hitems).offerKind _
  obtain ⟨hflags, hbare⟩ := hagain
  simp only [Analysis.configuration, Configuration.mk.injEq] at hbare
  exact ⟨hflags, hbare⟩

/-- Options that stand as arguments, a language that is called like one, and an
`-x` at the end. -/
theorem analyze_kept_optionLike :
    let ctx : Context := ⟨⟨"/proj/a.c"⟩, ⟨"/proj"⟩, .windows⟩
    let flags := ["-D", "-x", "-g", "-o", "-x", "-x", "-Iinc", "/Zi", "/W4", "-I", "-g", "-x"]
    let kept := ["-g", "-x", "-Iinc", "/Zi", "-x"]
    let again := analyze ⟨⟨"/b.cpp"⟩, ⟨"/q"⟩, .windows⟩ ("cl" :: (analyze ctx flags).flags)
    isOption ctx.host "cl" = false ∧ (analyze ctx flags).flags = kept ∧ again.flags = kept ∧
      again.headerPaths = [] ∧ again.macros = [] ∧ again.sysroot = none := by
  intro ctx flags kept again
  have hcompiler : isOption ctx.host "cl" = false := by decide
  have hflags : (analyze ctx flags).flags = kept := by decide +kernel
  obtain ⟨hkept, hbare⟩ := analyze_kept ctx flags hcompiler ⟨"/b.cpp"⟩ ⟨"/q"⟩
  exact ⟨hcompiler, hflags, hkept.trans hflags, hbare⟩

end CompileCommands.Flags
