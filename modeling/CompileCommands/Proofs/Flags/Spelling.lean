-- The two spellings of an option with its argument, in one flag or in two.
-- They are read alike but for two directories: `-F` with `pic` or `pie` behind
-- it differs only in case from a flag that is dropped.
import CompileCommands.Proofs.Flags.Composition
import CompileCommands.Proofs.Path.Case

namespace CompileCommands.Flags

/-- The options with a dash that name a directory of headers or a macro. -/
def dashOptions : List String :=
  ["-I", "-iquote", "-isystem", "-idirafter", "-imsvc", "-F", "-iframework", "-D", "-U"]

/-! ## Options with a text behind them -/

/-- A text behind an option is dropped if the two together spell `-fpic` or
`-fpie`, whatever the case of the letters. -/
theorem isDropped_append_iff {option : String} (hoption : option ∈ dashOptions) (text : String) :
    isDropped (option ++ text) = true ↔ option = "-F" ∧ Text.lower text ∈ ["pic", "pie"] := by
  have hlead := startsWith_append option text
  have hapart : ∀ option ∈ dashOptions, ∀ other ∈ ["-c", "-pedantic", "-O", "-W", "-w"],
      areApart option other = true := by decide
  have hletters : ∀ option ∈ dashOptions, option ≠ "-F" → ∀ other ∈ ["-fpic", "-fpie"],
      areApart (Text.lower option) (Text.lower other) = true := by decide
  by_cases hframework : option = "-F"
  · subst hframework
    have hsame : ∀ name, Text.sameLetters ("-F" ++ text) ("-f" ++ name) = true ↔
        Text.lower text = Text.lower name := by
      intro name
      have hcase : Text.lower "-F" = Text.lower "-f" := by decide
      rw [Text.sameLetters, beq_iff_eq, Text.lower_append, Text.lower_append, hcase,
        String.append_right_inj]
    have hpic := hsame "pic"
    have hpie := hsame "pie"
    have hlower : Text.lower "pic" = "pic" ∧ Text.lower "pie" = "pie" := by decide
    rw [hlower.1] at hpic
    rw [hlower.2] at hpie
    rw [isDropped_eq hlead (hapart "-F" hoption), Bool.or_eq_true]
    simp only [true_and, List.mem_cons, List.not_mem_nil, or_false]
    exact or_congr hpic hpie
  · have hkept := isDropped_eq_false hlead (hapart option hoption)
      (hletters option hoption hframework)
    simp [hkept, hframework]

section Step

variable {ctx : Context} {r : Reading} {option text : String}

theorem meaning_headerOption (host : Host) {kind : HeaderKind}
    (h : (option, kind) ∈ headerOptions) : meaning host option = .headerOption kind := by
  have hall : ∀ host ∈ [Host.unix, .windows], ∀ o ∈ headerOptions,
      meaning host o.1 = .headerOption o.2 := by decide
  exact hall host (by cases host <;> simp) _ h

theorem meaning_macroOption (host : Host) {kind : MacroKind}
    (h : (option, kind) ∈ macroOptions) : meaning host option = .macroOption kind := by
  have hall : ∀ host ∈ [Host.unix, .windows], ∀ o ∈ macroOptions,
      meaning host o.1 = .macroOption o.2 := by decide
  exact hall host (by cases host <;> simp) _ h

theorem meaning_append_headerOption (host : Host) {kind : HeaderKind}
    (h : (option, kind) ∈ headerOptions) (hoption : option ∈ dashOptions) (htext : text ≠ "")
    (hdropped : isDropped (option ++ text) = false) :
    meaning host (option ++ text) = .headerPath kind text := by
  have hlead := startsWith_append option text
  have hapart : ∀ option ∈ headerOptions.map Prod.fst, ∀ other ∈ "-x" :: outputOptions,
      areApart option other = true := by decide
  have hslash : ∀ option ∈ dashOptions, areApart option "/" = true := by decide
  have hoptions : headerOptions.Pairwise fun a b => areApart b.1 a.1 = true := by decide
  have hapart := hapart option (List.mem_map_of_mem h)
  simp only [List.forall_mem_cons] at hapart
  have hnot : option ++ text ∉ outputOptions := fun hmem =>
    ne_of_areApart hlead (hapart.2 _ hmem) rfl
  have hheader : headerMeaning? host (option ++ text) = some (.headerPath kind text) := by
    simp [headerMeaning?, optionOf?_append hoptions h, startsWith_eq_false hlead (hslash _ hoption)]
  simp [meaning, hnot, hdropped, ne_of_areApart hlead hapart.1, hheader]

theorem meaning_append_macroOption (host : Host) {kind : MacroKind}
    (h : (option, kind) ∈ macroOptions) (hoption : option ∈ dashOptions) (htext : text ≠ "")
    (hdropped : isDropped (option ++ text) = false) :
    meaning host (option ++ text) = .definition kind text := by
  have hlead := startsWith_append option text
  have hapart : ∀ option ∈ macroOptions.map Prod.fst,
      ∀ other ∈ "-x" :: outputOptions ++ headerOptions.map Prod.fst,
        areApart option other = true := by decide
  have hslash : ∀ option ∈ dashOptions, areApart option "/" = true := by decide
  have hoptions : macroOptions.Pairwise fun a b => areApart b.1 a.1 = true := by decide
  have hapart := hapart option (List.mem_map_of_mem h)
  simp only [List.cons_append, List.forall_mem_cons, List.forall_mem_append] at hapart
  obtain ⟨hx, houtput, hheader⟩ := hapart
  have hnot : option ++ text ∉ outputOptions := fun hmem =>
    ne_of_areApart hlead (houtput _ hmem) rfl
  have hnoHeader : headerMeaning? host (option ++ text) = none := by
    simp [headerMeaning?, optionOf?_eq_none hlead hheader]
  have hmacro : macroMeaning? host (option ++ text) = some (.definition kind text) := by
    simp [macroMeaning?, optionOf?_append hoptions h, htext,
      startsWith_eq_false hlead (hslash _ hoption)]
  simp [meaning, hnot, hdropped, ne_of_areApart hlead hx, hnoHeader, hmacro]

theorem step_eq_apply (hr : r.pending = none) (flag : String) :
    r.step ctx flag = Reading.apply ctx r.analysis flag (meaning ctx.host flag) := by
  unfold Reading.step
  rw [hr]

/-- Unless it is dropped, one flag is read as the two are. -/
theorem step_joined (hr : r.pending = none) (hoption : option ∈ dashOptions) (htext : text ≠ "")
    (hdropped : isDropped (option ++ text) = false) :
    r.step ctx (option ++ text) = (r.step ctx option).step ctx text := by
  have hkinds : ∀ option ∈ dashOptions,
      option ∈ headerOptions.map Prod.fst ∨ option ∈ macroOptions.map Prod.fst := by decide
  rw [step_eq_apply hr, step_eq_apply hr]
  rcases hkinds option hoption with hkind | hkind
  · obtain ⟨⟨option, kind⟩, hmem, rfl⟩ := List.mem_map.mp hkind
    rw [meaning_append_headerOption ctx.host hmem hoption htext hdropped,
      meaning_headerOption ctx.host hmem]
    rfl
  · obtain ⟨⟨option, kind⟩, hmem, rfl⟩ := List.mem_map.mp hkind
    rw [meaning_append_macroOption ctx.host hmem hoption htext hdropped,
      meaning_macroOption ctx.host hmem]
    rfl

theorem meaning_of_isDropped (host : Host) {flag : String} (hnot : flag ∉ outputOptions)
    (hdropped : isDropped flag = true) : meaning host flag = .dropped := by
  simp [meaning, hnot, hdropped]

/-- A directory of frameworks that is dropped adds nothing. Behind its option it
is one directory more. -/
theorem step_dropped (ctx : Context) (hr : r.pending = none)
    (hdropped : isDropped ("-F" ++ text) = true) :
    r.step ctx ("-F" ++ text) = r ∧
      (r.step ctx "-F").step ctx text =
        ⟨r.analysis.addHeaderPath (ctx.resolve text) .framework, none⟩ := by
  have hapart : ∀ other ∈ outputOptions, areApart "-F" other = true := by decide
  have hnot : "-F" ++ text ∉ outputOptions := fun hmem =>
    ne_of_areApart (startsWith_append "-F" text) (hapart _ hmem) rfl
  have hmem : ("-F", HeaderKind.framework) ∈ headerOptions := by decide
  rw [step_eq_apply hr, step_eq_apply hr, meaning_of_isDropped ctx.host hnot hdropped,
    meaning_headerOption ctx.host hmem]
  refine ⟨?_, rfl⟩
  unfold Reading.apply
  rw [← hr]

end Step

/-! ## The analysis of both spellings -/

theorem withoutCompiler_append {host : Host} {flag : String} (hflag : isOption host flag = true)
    (before behind : List String) :
    withoutCompiler host (before ++ flag :: behind) =
      withoutCompiler host before ++ flag :: behind := by
  cases before with
  | nil => simp [withoutCompiler, hflag]
  | cons first before =>
    simp only [List.cons_append, withoutCompiler]
    split <;> rfl

/-- What flags say of the directories of headers, behind some reading. -/
theorem headerPaths_behind (ctx : Context) (a : Analysis) (flags : List String) :
    (flags.foldl (Reading.step ctx) ⟨a, none⟩).analysis.headerPaths =
      a.headerPaths ++ (readAll ctx flags).analysis.headerPaths := by
  have hfold := Reading.foldl_step_behind ctx .start a flags
  have hstart : Reading.start.behind a = ⟨a, none⟩ := by
    simp [Reading.behind, Reading.start, Analysis.append_empty]
  rw [← hstart, hfold]
  rfl

/-- Among any flags, the two spellings of an option with its argument are read
alike, unless the one flag is dropped because it looks like `-fpic` or `-fpie`. -/
theorem analyze_joined_iff {ctx : Context} {before : List String} {option text : String}
    (hbefore : endsWaiting (withoutCompiler ctx.host before) = false)
    (hoption : option ∈ dashOptions) (htext : text ≠ "") (behind : List String) :
    analyze ctx (before ++ (option ++ text) :: behind) =
        analyze ctx (before ++ option :: text :: behind) ↔
      ¬ (option = "-F" ∧ Text.lower text ∈ ["pic", "pie"]) := by
  have hdash : ∀ option ∈ dashOptions, Text.startsWith option "-" = true := by decide
  have hfirst : isOption ctx.host option = true := by simp [isOption, hdash option hoption]
  have hjoined : isOption ctx.host (option ++ text) = true := by
    simp [isOption, startsWith_trans (startsWith_append option text) (hdash option hoption)]
  have hpending : (readAll ctx (withoutCompiler ctx.host before)).pending = none :=
    (pending_readAll ctx _).mpr hbefore
  unfold analyze
  rw [withoutCompiler_append hjoined, withoutCompiler_append hfirst, List.foldl_append,
    List.foldl_append, ← readAll, ← isDropped_append_iff hoption]
  generalize readAll ctx (withoutCompiler ctx.host before) = r at hpending
  simp only [List.foldl_cons]
  constructor
  · -- A directory that was dropped is missing, whatever is read behind it.
    intro hsame hdropped
    obtain ⟨rfl, -⟩ := (isDropped_append_iff hoption text).mp hdropped
    obtain ⟨hone, htwo⟩ := step_dropped ctx hpending hdropped
    have hpaths := congrArg (fun a => a.headerPaths.length) hsame
    have hr : r = ⟨r.analysis, none⟩ := by rw [← hpending]
    simp only [Analysis.offerKind_getD] at hpaths
    rw [hone, htwo, hr, headerPaths_behind, headerPaths_behind] at hpaths
    simp [Analysis.addHeaderPath] at hpaths
  · intro hkept
    rw [step_joined hpending hoption htext (Bool.eq_false_iff.mpr hkept)]

/-- The argument may look like an option itself. -/
theorem analyze_joined_iff_optionLike :
    endsWaiting (withoutCompiler .windows ["-D", "-isystem", "/I", "-o"]) = false ∧
      "-isystem" ∈ dashOptions ∧ "-fpic" ≠ "" ∧
      analyze ⟨⟨"/proj/a.c"⟩, ⟨"/proj"⟩, .windows⟩
          (["-D", "-isystem", "/I", "-o"] ++ ("-isystem" ++ "-fpic") :: ["-x"]) =
        analyze ⟨⟨"/proj/a.c"⟩, ⟨"/proj"⟩, .windows⟩
          (["-D", "-isystem", "/I", "-o"] ++ "-isystem" :: "-fpic" :: ["-x"]) := by
  have hbefore : endsWaiting (withoutCompiler .windows ["-D", "-isystem", "/I", "-o"]) = false := by
    decide
  have hoption : "-isystem" ∈ dashOptions := by decide
  have htext : "-fpic" ≠ "" := by decide
  exact ⟨hbefore, hoption, htext, (analyze_joined_iff hbefore hoption htext ["-x"]).mpr (by decide)⟩

/-- A directory of frameworks called `pic` is found behind its option and lost
in one flag with it. -/
theorem analyze_joined_loses_framework :
    ¬ ∀ (ctx : Context) (before : List String) (option text : String) (behind : List String),
      endsWaiting (withoutCompiler ctx.host before) = false → option ∈ dashOptions → text ≠ "" →
        analyze ctx (before ++ (option ++ text) :: behind) =
          analyze ctx (before ++ option :: text :: behind) := by
  intro h
  have hsame := h ⟨⟨"/proj/a.c"⟩, ⟨"/proj"⟩, .unix⟩ ["cc"] "-F" "pic" [] (by decide) (by decide)
    (by decide)
  exact absurd hsame (by decide +kernel)

end CompileCommands.Flags
