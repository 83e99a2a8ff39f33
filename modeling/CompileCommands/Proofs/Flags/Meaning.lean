-- What a flag means by its start. No option that takes an argument starts
-- another one, so the text behind an option is never read as part of a longer
-- option, and an option waits for its argument just where nothing is behind it.
import CompileCommands.Proofs.Flags.UnitFilter

namespace CompileCommands.Flags

/-! ## Texts that do not start each other -/

/-- No text starts with both of the two. -/
def areApart (a b : String) : Bool := !Text.startsWith a b && !Text.startsWith b a

theorem startsWith_self (s : String) : Text.startsWith s s = true := by
  simp [Text.startsWith]

theorem startsWith_append (lead rest : String) : Text.startsWith (lead ++ rest) lead = true := by
  simp [Text.startsWith]

theorem startsWith_trans {s lead start : String} (hlead : Text.startsWith s lead = true)
    (hstart : Text.startsWith lead start = true) : Text.startsWith s start = true := by
  simp only [Text.startsWith, List.isPrefixOf_iff_prefix] at hlead hstart ⊢
  exact hstart.trans hlead

theorem startsWith_lower {s lead : String} (h : Text.startsWith s lead = true) :
    Text.startsWith (Text.lower s) (Text.lower lead) = true := by
  simp only [Text.startsWith, Text.lower, String.toList_ofList, List.isPrefixOf_iff_prefix] at h ⊢
  exact h.map Char.toLower

theorem startsWith_eq_false {s lead other : String} (hlead : Text.startsWith s lead = true)
    (h : areApart lead other = true) : Text.startsWith s other = false := by
  simp only [areApart, Text.startsWith, Bool.and_eq_true, Bool.not_eq_true', Bool.eq_false_iff,
    ne_eq, List.isPrefixOf_iff_prefix] at h hlead ⊢
  intro hother
  rcases List.prefix_or_prefix_of_prefix hlead hother with hle | hle
  · exact h.2 hle
  · exact h.1 hle

theorem ne_of_areApart {s lead other : String} (hlead : Text.startsWith s lead = true)
    (h : areApart lead other = true) : s ≠ other := by
  rintro rfl
  have hself := startsWith_eq_false hlead h
  rw [startsWith_self] at hself
  cases hself

/-! ## Options with their arguments behind them -/

theorem after?_append (lead rest : String) : Text.after? (lead ++ rest) lead = some rest := by
  unfold Text.after?
  rw [startsWith_append]
  simp

theorem after?_eq_some {s lead rest : String} (h : Text.after? s lead = some rest) :
    s = lead ++ rest := by
  unfold Text.after? at h
  split at h
  · rename_i hlead
    obtain ⟨back, hback⟩ := List.isPrefixOf_iff_prefix.mp hlead
    obtain rfl := Option.some.inj h
    apply String.toList_inj.mp
    simp [← hback]
  · cases h

variable {α : Type}

theorem optionOf?_eq_none {options : List (String × α)} {flag lead : String}
    (hlead : Text.startsWith flag lead = true)
    (h : ∀ option ∈ options.map Prod.fst, areApart lead option = true) :
    optionOf? options flag = none := by
  unfold optionOf?
  rw [List.findSome?_eq_none_iff]
  rintro ⟨option, kind⟩ hmem
  have hother := startsWith_eq_false hlead (h option (List.mem_map_of_mem hmem))
  simp [Text.after?, hother]

/-- Of options that do not start each other, the one that a flag starts with is
found, with the text behind it. -/
theorem optionOf?_append {options : List (String × α)}
    (hapart : options.Pairwise fun a b => areApart b.1 a.1 = true) {option : String} {kind : α}
    (hmem : (option, kind) ∈ options) (rest : String) :
    optionOf? options (option ++ rest) = some (kind, rest) := by
  induction options with
  | nil => cases hmem
  | cons first options ih =>
    obtain ⟨hfirst, hoptions⟩ := List.pairwise_cons.mp hapart
    rcases List.mem_cons.mp hmem with rfl | hmem
    · simp [optionOf?, after?_append]
    · have hother := startsWith_eq_false (startsWith_append option rest) (hfirst _ hmem)
      have ih := ih hoptions hmem
      unfold optionOf? at ih ⊢
      simpa [Text.after?, hother] using ih

theorem optionOf?_eq_some {options : List (String × α)} {flag rest : String} {kind : α}
    (h : optionOf? options flag = some (kind, rest)) :
    ∃ option, (option, kind) ∈ options ∧ flag = option ++ rest := by
  obtain ⟨⟨option, kind'⟩, hmem, hafter⟩ := List.exists_of_findSome?_eq_some h
  obtain ⟨rest', hrest, heq⟩ := Option.map_eq_some_iff.mp hafter
  obtain ⟨rfl, rfl⟩ := Prod.mk.inj heq
  exact ⟨option, hmem, after?_eq_some hrest⟩

/-! ## Flags without a rule of their own -/

/-- The options that take the flag behind them as their argument. -/
def argumentOptions : List String :=
  "-x" :: outputOptions ++ headerOptions.map Prod.fst ++ macroOptions.map Prod.fst

theorem isDropped_eq {flag lead : String} (hlead : Text.startsWith flag lead = true)
    (hapart : ∀ other ∈ ["-c", "-pedantic", "-O", "-W", "-w"], areApart lead other = true) :
    isDropped flag = (Text.sameLetters flag "-fpic" || Text.sameLetters flag "-fpie") := by
  simp only [List.forall_mem_cons] at hapart
  obtain ⟨hc, hpedantic, hO, hW, hw, -⟩ := hapart
  have hc := beq_eq_false_iff_ne.mpr (ne_of_areApart hlead hc)
  have hpedantic := beq_eq_false_iff_ne.mpr (ne_of_areApart hlead hpedantic)
  simp [isDropped, hc, hpedantic, startsWith_eq_false hlead hO, startsWith_eq_false hlead hW,
    startsWith_eq_false hlead hw]

theorem sameLetters_eq_false {flag lead other : String} (hlead : Text.startsWith flag lead = true)
    (h : areApart (Text.lower lead) (Text.lower other) = true) :
    Text.sameLetters flag other = false := by
  simpa [Text.sameLetters] using ne_of_areApart (startsWith_lower hlead) h

theorem isDropped_eq_false {flag lead : String} (hlead : Text.startsWith flag lead = true)
    (hapart : ∀ other ∈ ["-c", "-pedantic", "-O", "-W", "-w"], areApart lead other = true)
    (hletters : ∀ other ∈ ["-fpic", "-fpie"],
      areApart (Text.lower lead) (Text.lower other) = true) : isDropped flag = false := by
  simp only [List.forall_mem_cons] at hletters
  obtain ⟨hpic, hpie, -⟩ := hletters
  rw [isDropped_eq hlead hapart, sameLetters_eq_false hlead hpic, sameLetters_eq_false hlead hpie]
  rfl

/-- A flag whose start is apart from all options means nothing by itself. -/
theorem meaning_eq_other {host : Host} {flag lead : String}
    (hlead : Text.startsWith flag lead = true)
    (hoptions : ∀ option ∈ "--sysroot=" :: argumentOptions, areApart lead option = true)
    (hdropped : isDropped flag = false) :
    meaning host flag = .other (!isSwitch host flag || Text.startsWith flag "/Z") := by
  simp only [argumentOptions, List.forall_mem_cons, List.cons_append, List.forall_mem_append]
    at hoptions
  obtain ⟨hsysroot, hx, ⟨houtput, hheader⟩, hmacro⟩ := hoptions
  have hnot : flag ∉ outputOptions := fun hmem => ne_of_areApart hlead (houtput flag hmem) rfl
  simp [meaning, hnot, hdropped, ne_of_areApart hlead hx, headerMeaning?, macroMeaning?,
    sysrootMeaning?, optionOf?_eq_none hlead hheader, optionOf?_eq_none hlead hmacro, Text.after?,
    startsWith_eq_false hlead hsysroot]

/-- No other rule takes a flag that gives the kind of the source. -/
theorem meaning_of_ofFlag? (host : Host) {flag : String} {file : Path} {kind : SourceKind}
    (h : SourceKind.ofFlag? flag file = some kind) : ∃ kept, meaning host flag = .other kept := by
  have hleads : ∃ lead ∈ ["/TC", "/TP", "-std=", "/std:"], Text.startsWith flag lead = true := by
    unfold SourceKind.ofFlag? at h
    split at h
    · rename_i heq
      exact ⟨"/TC", by simp, by rw [heq]; exact startsWith_self _⟩
    · split at h
      · rename_i heq
        exact ⟨"/TP", by simp, by rw [heq]; exact startsWith_self _⟩
      · obtain ⟨standard, hstandard, -⟩ := Option.map_eq_some_iff.mp h
        rcases Option.or_eq_some_iff.mp hstandard with hafter | ⟨-, hafter⟩
        · exact ⟨"-std=", by simp, by rw [after?_eq_some hafter]; exact startsWith_append _ _⟩
        · exact ⟨"/std:", by simp, by rw [after?_eq_some hafter]; exact startsWith_append _ _⟩
  obtain ⟨lead, hmem, hlead⟩ := hleads
  have hoptions : ∀ lead ∈ ["/TC", "/TP", "-std=", "/std:"],
      ∀ option ∈ "--sysroot=" :: argumentOptions, areApart lead option = true := by decide
  have hdropped : ∀ lead ∈ ["/TC", "/TP", "-std=", "/std:"],
      ∀ other ∈ ["-c", "-pedantic", "-O", "-W", "-w"], areApart lead other = true := by decide
  have hletters : ∀ lead ∈ ["/TC", "/TP", "-std=", "/std:"], ∀ other ∈ ["-fpic", "-fpie"],
      areApart (Text.lower lead) (Text.lower other) = true := by decide
  refine ⟨_, meaning_eq_other hlead (hoptions lead hmem) ?_⟩
  exact isDropped_eq_false hlead (hdropped lead hmem) (hletters lead hmem)

/-! ## Options that wait -/

theorem ne_empty_of_optionOf? {options : List (String × α)} {flag rest : String} {kind : α}
    (hflag : flag ∉ options.map Prod.fst) (h : optionOf? options flag = some (kind, rest)) :
    rest ≠ "" := by
  rintro rfl
  obtain ⟨option, hmem, rfl⟩ := optionOf?_eq_some h
  rw [String.append_empty] at hflag
  exact hflag (List.mem_map_of_mem hmem)

theorem headerMeaning?_cases (host : Host) {flag : String}
    (h : flag ∉ headerOptions.map Prod.fst) : headerMeaning? host flag = none ∨
      ∃ kind dir, headerMeaning? host flag = some (.headerPath kind dir) := by
  unfold headerMeaning?
  split
  · rename_i hoption
    exact absurd rfl (ne_empty_of_optionOf? h hoption)
  · split
    · exact .inl rfl
    · exact .inr ⟨_, _, rfl⟩
  · exact .inl rfl

theorem macroMeaning?_cases (host : Host) {flag : String}
    (h : flag ∉ macroOptions.map Prod.fst) : macroMeaning? host flag = none ∨
      ∃ kind text, macroMeaning? host flag = some (.definition kind text) := by
  unfold macroMeaning?
  split
  · rename_i hoption
    rw [if_neg (ne_empty_of_optionOf? h hoption)]
    split
    · exact .inl rfl
    · exact .inr ⟨_, _, rfl⟩
  · exact .inl rfl

/-- An option with its argument behind it, or no option at all, does not wait. -/
theorem nextPending_eq_none {flag : String} (host : Host) (h : flag ∉ argumentOptions) :
    nextPending host none flag = none := by
  simp only [argumentOptions, List.cons_append, List.mem_cons, List.mem_append, not_or] at h
  obtain ⟨hx, ⟨houtput, hheader⟩, hmacro⟩ := h
  unfold nextPending meaning
  rw [if_neg houtput, if_neg hx]
  by_cases hdropped : isDropped flag = true
  · rw [if_pos hdropped]
  · rw [if_neg hdropped]
    rcases headerMeaning?_cases host hheader with hnone | ⟨kind, dir, hsome⟩
    · rw [hnone, Option.getD_none]
      rcases macroMeaning?_cases host hmacro with hnone | ⟨kind, text, hsome⟩
      · rw [hnone, Option.getD_none]
        unfold sysrootMeaning?
        cases Text.after? flag "--sysroot=" <;> rfl
      · rw [hsome, Option.getD_some]
    · rw [hsome, Option.getD_some]

theorem nextPending_eq_none_iff (host : Host) (flag : String) :
    nextPending host none flag = none ↔ flag ∉ argumentOptions := by
  constructor
  · have hall : ∀ host ∈ [Host.unix, .windows], ∀ flag ∈ argumentOptions,
        nextPending host none flag ≠ none := by decide
    intro hnone hmem
    exact hall host (by cases host <;> simp) flag hmem hnone
  · exact nextPending_eq_none host

/-- Of the options that wait, `-x` is the one that waits for a language. -/
theorem nextPending_eq_language_iff (host : Host) (flag : String) :
    nextPending host none flag = some .language ↔ flag = "-x" := by
  constructor
  · have hall : ∀ host ∈ [Host.unix, .windows], ∀ flag ∈ argumentOptions,
        nextPending host none flag = some .language → flag = "-x" := by decide
    intro hlanguage
    by_cases hmem : flag ∈ argumentOptions
    · exact hall host (by cases host <;> simp) flag hmem hlanguage
    · rw [nextPending_eq_none host hmem] at hlanguage
      cases hlanguage
  · rintro rfl
    cases host <;> decide

end CompileCommands.Flags
