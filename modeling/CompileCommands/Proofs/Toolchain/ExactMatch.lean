-- Compilers that are found as they are registered. The compiler of a command is
-- normalized before it is looked for, the registered one is not. So a command that
-- calls a registered compiler by its very text finds it only if the text stays as
-- it is, and which texts do so depends on the host.
import CompileCommands.Proofs.Path.NormalForm
import CompileCommands.Proofs.Toolchain.Priority

namespace CompileCommands

/-! ## Texts -/

/-- Small letters tell a text from its parts. -/
theorem Text.lower_eq_iff_of_sublist {part text : String} (h : part.toList.Sublist text.toList) :
    lower text = lower part ↔ text = part := by
  refine ⟨fun heq => ?_, congrArg lower⟩
  have hlength : part.toList.length = text.toList.length := by
    have hchars := congrArg (·.toList.length) heq
    simpa [lower] using hchars.symm
  exact (String.toList_inj.mp (h.eq_of_length hlength)).symm

namespace Path

theorem backslash_not_mem_withSlashes (text : String) : '\\' ∉ (withSlashes text).toList := by
  unfold withSlashes
  simp only [String.toList_ofList, List.mem_map, not_exists, not_and]
  intro c _
  split
  · decide
  · assumption

theorem withSlashes_eq_self {text : String} (h : '\\' ∉ text.toList) : withSlashes text = text := by
  have hchars : ∀ c ∈ text.toList, (if c = '\\' then '/' else c) = c := by
    intro c hc
    have hne : c ≠ '\\' := fun heq => h (heq ▸ hc)
    rw [if_neg hne]
  unfold withSlashes
  rw [List.map_congr_left hchars, List.map_id', String.ofList_toList]

theorem text_inj {p q : Path} : p.text = q.text ↔ p = q := by
  cases p
  cases q
  simp

end Path

namespace Registry

/-! ## The compiler of a command -/

/-- The text names a compiler as it is looked for. On Unix it has no backslash
and its components are normal. On Windows it is written, up to its separators,
as its normal components are. -/
def IsSettled : Host → String → Prop
  | .unix, token => '\\' ∉ token.toList ∧ Path.IsNormal (Path.components ⟨token⟩)
  | .windows, token =>
    Path.IsNormal (Path.ofNative token).components ∧
      Path.ofComponents (Path.ofNative token).components = Path.ofNative token

instance : (host : Host) → (token : String) → Decidable (IsSettled host token)
  | .unix, _ => inferInstanceAs (Decidable (_ ∧ _))
  | .windows, _ => inferInstanceAs (Decidable (_ ∧ _))

theorem sameCompiler_unix_iff (token : String) :
    sameCompiler ⟨token⟩ (compilerPath token) .unix = true ↔ IsSettled .unix token := by
  unfold sameCompiler compilerPath IsSettled
  by_cases hslash : '\\' ∈ token.toList
  · -- A backslash stands in a name of the registered path, and in none of the other.
    have hkept : ¬ Path.same ⟨token⟩ (Path.ofNative token).normalize = true := by
      intro hsame
      have hcomponents := beq_iff_eq.mp hsame
      obtain ⟨name, hname, hmem⟩ :=
        Path.exists_normal_of_mem (p := ⟨token⟩) (by decide) (by decide) hslash
      rw [hcomponents, Path.components_normalize] at hname
      exact Path.backslash_not_mem_withSlashes token
        (Path.mem_text_of_normal ((Path.normalComponents_sublist _).subset hname) hmem)
    simp [hkept, hslash]
  · unfold Path.ofNative
    rw [Path.withSlashes_eq_self hslash, Path.same_normalize_iff]
    simp [hslash]

theorem sameCompiler_windows_iff (token : String) :
    sameCompiler ⟨token⟩ (compilerPath token) .windows = true ↔ IsSettled .windows token := by
  have hsub := Path.text_normalize_sublist (Path.ofNative token)
  have hslash : '\\' ∉ (Path.ofNative token).normalize.text.toList := fun h =>
    Path.backslash_not_mem_withSlashes token (hsub.subset h)
  have hsame : sameCompiler ⟨token⟩ (compilerPath token) .windows = true ↔
      Text.lower (Path.ofNative token).text = Text.lower (Path.ofNative token).normalize.text := by
    unfold sameCompiler compilerPath
    simp only [Path.withSlashes_eq_self hslash, beq_iff_eq]
    rfl
  rw [hsame, Text.lower_eq_iff_of_sublist hsub, Path.text_inj, eq_comm, Path.normalize_eq_self_iff]
  exact Iff.rfl

theorem sameCompiler_compilerPath_iff (host : Host) (token : String) :
    sameCompiler ⟨token⟩ (compilerPath token) host = true ↔ IsSettled host token := by
  cases host with
  | unix => exact sameCompiler_unix_iff token
  | windows => exact sameCompiler_windows_iff token

/-! ## The first step of the search -/

variable {r : Registry} {env : Environment} {host : Host} {token : String} {language : Language}

theorem stepOf_eq_exactMatch {rank : Nat} (h : stepOf rank = .exactMatch) : rank = 0 := by
  unfold stepOf at h
  split at h
  · rfl
  · cases h
  · cases h

/-- The first step of the search finds a compiler just if some valid toolchain
of the language has it. -/
theorem step_eq_exactMatch_iff (htoken : token ≠ "") :
    (r.resolveIn env host (some token) language).step = .exactMatch ↔
      ∃ t ∈ r.toolchains, t.valid = true ∧ t.language = language ∧
        sameCompiler t.compiler (compilerPath token) host = true := by
  rw [resolveIn_of_ne htoken]
  rcases r.resolveCompiler_cases env host token language with
    ⟨rank, index, t, hbest, hfound⟩ | ⟨hnone, hfound⟩
  · rw [hfound]
    constructor
    · intro hstep
      obtain rfl := stepOf_eq_exactMatch hstep
      refine ⟨t, List.mem_of_getElem? hbest.registered, hbest.valid, hbest.ofLanguage, ?_⟩
      cases hbest.ranked with
      | compiler hsame => exact hsame
    · rintro ⟨t', hregistered, hvalid, hlanguage, hsame⟩
      obtain ⟨index', hindex'⟩ := List.getElem?_of_mem hregistered
      have hleast := hbest.least 0 index' t' ⟨hindex', hvalid, hlanguage, .compiler hsame⟩
      obtain rfl : rank = 0 := by omega
      rfl
  · rw [hfound, fallBack_eq]
    constructor
    · exact nofun
    · rintro ⟨t', hregistered, hvalid, hlanguage, hsame⟩
      obtain ⟨index', hindex'⟩ := List.getElem?_of_mem hregistered
      exact absurd ⟨hindex', hvalid, hlanguage, .compiler hsame⟩ (hnone 0 index' t')

/-! ## Compilers that are found again -/

/-- Each registry that has a valid toolchain with this very text as its compiler
answers to the text with an exact match. -/
def MatchesItself (host : Host) (token : String) : Prop :=
  ∀ (r : Registry) (env : Environment) (language : Language) (t : Toolchain),
    t ∈ r.toolchains → t.valid = true → t.language = language → t.compiler = ⟨token⟩ →
      (r.resolveIn env host (some token) language).step = .exactMatch

/-- A registry with one compiler. -/
def onlyCompiler (token : String) : Registry :=
  ⟨[⟨"only", .gcc, .c, ⟨token⟩, true⟩], none, none, none⟩

/-- A registered compiler is found by its own text just if the text is settled. -/
theorem matchesItself_iff (htoken : token ≠ "") :
    MatchesItself host token ↔ IsSettled host token := by
  rw [← sameCompiler_compilerPath_iff]
  constructor
  · intro h
    -- Where no other toolchain is registered, no other one can match.
    have hstep := h (onlyCompiler token) ⟨none, none⟩ .c _ List.mem_cons_self rfl rfl rfl
    obtain ⟨found, hfound, -, -, hsame⟩ := (step_eq_exactMatch_iff htoken).mp hstep
    obtain rfl := List.mem_singleton.mp hfound
    exact hsame
  · intro hsame r env language t hregistered hvalid hlanguage hcompiler
    apply (step_eq_exactMatch_iff htoken).mpr
    exact ⟨t, hregistered, hvalid, hlanguage, hcompiler ▸ hsame⟩

/-- A path that climbs is found again on Unix, and one with backslashes and large
letters on Windows. -/
theorem matchesItself_iff_climbing :
    "../llvm/bin/clang" ≠ "" ∧ MatchesItself .unix "../llvm/bin/clang" ∧
      "C:\\LLVM\\bin\\clang-cl.exe" ≠ "" ∧
        MatchesItself .windows "C:\\LLVM\\bin\\clang-cl.exe" := by
  have hclimbing : "../llvm/bin/clang" ≠ "" := by decide
  have hnative : "C:\\LLVM\\bin\\clang-cl.exe" ≠ "" := by decide
  exact ⟨hclimbing, (matchesItself_iff hclimbing).mpr (by decide +kernel), hnative,
    (matchesItself_iff hnative).mpr (by decide +kernel)⟩

/-- The compiler of the system, and a cross compiler below a directory that is
left again. -/
def withCross : Registry :=
  ⟨[⟨"system", .gcc, .c, ⟨"/usr/bin/gcc"⟩, true⟩,
    ⟨"cross", .gcc, .c, ⟨"/opt/cross/../bin/gcc"⟩, true⟩], none, none, none⟩

theorem not_forall_matchesItself :
    ((withCross.resolve .unix (some "/opt/cross/../bin/gcc") .c).toolchain.map (·.id) =
        some "system" ∧
      (withCross.resolve .unix (some "/opt/cross/../bin/gcc") .c).step = .familyMatch) ∧
    ¬ ∀ (host : Host) (token : String), token ≠ "" → MatchesItself host token := by
  have hresolved : (withCross.resolve .unix (some "/opt/cross/../bin/gcc") .c).toolchain.map
      (·.id) = some "system" ∧
      (withCross.resolve .unix (some "/opt/cross/../bin/gcc") .c).step = .familyMatch := by
    decide +kernel
  refine ⟨hresolved, fun hall => ?_⟩
  have hstep := hall .unix "/opt/cross/../bin/gcc" (by decide) withCross withCross.environment .c
    ⟨"cross", .gcc, .c, ⟨"/opt/cross/../bin/gcc"⟩, true⟩ (by simp [withCross]) rfl rfl rfl
  exact absurd (hresolved.2.symm.trans hstep) (by decide)

end Registry

end CompileCommands
