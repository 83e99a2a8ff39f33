-- The choice of a toolchain as a search by priority. Each registered toolchain
-- answers to a compiler with the ranks that it has, and the steps of the
-- search find the least rank and, of the toolchains with it, the first one.
import CompileCommands.Toolchain.Resolution

namespace CompileCommands

/-- The default of the environment was taken. -/
def Step.IsDefault (s : Step) : Prop := s = .environmentDefault ∨ s = .defaultFallback

namespace Registry

/-! ## Ranks -/

/-- How well a toolchain answers to a compiler: it is that very compiler, or of
the family that the file name suggests, or of the family of Clang that stands
in for one that is not Clang itself. -/
inductive HasRank (host : Host) (compiler : Path) (t : Toolchain) : Nat → Prop
  | compiler : sameCompiler t.compiler compiler host = true → HasRank host compiler t 0
  | family : t.family = familyOf host compiler → HasRank host compiler t 1
  | substitute : (familyOf host compiler).isClang = false → t.family = Family.substitute host →
      HasRank host compiler t 2

/-- A registered toolchain, with its place in the registry and a rank. -/
structure IsCandidate (r : Registry) (host : Host) (compiler : Path) (language : Language)
    (rank index : Nat) (t : Toolchain) : Prop where
  registered : r.toolchains[index]? = some t
  valid : t.valid = true
  ofLanguage : t.language = language
  ranked : HasRank host compiler t rank

/-- No candidate has a lower rank, and none of the same rank stands before. -/
structure IsBest (r : Registry) (host : Host) (compiler : Path) (language : Language)
    (rank index : Nat) (t : Toolchain) : Prop
    extends IsCandidate r host compiler language rank index t where
  least : ∀ rank' index' t', IsCandidate r host compiler language rank' index' t' →
    rank < rank' ∨ rank = rank' ∧ index ≤ index'

variable {r : Registry} {host : Host} {compiler : Path} {language : Language} {t : Toolchain}

theorem IsBest.unique {rank rank' index index' : Nat} {t t' : Toolchain}
    (h : r.IsBest host compiler language rank index t)
    (h' : r.IsBest host compiler language rank' index' t') : t = t' := by
  have hle := h.least rank' index' t' h'.toIsCandidate
  have hge := h'.least rank index t h.toIsCandidate
  obtain rfl : index = index' := by omega
  exact Option.some.inj (h.registered.symm.trans h'.registered)

/-! ## One search -/

theorem findValid?_eq_some {wanted : Toolchain → Bool} (h : r.findValid? wanted = some t) :
    ∃ index : Nat, r.toolchains[index]? = some t ∧ t.valid = true ∧ wanted t = true ∧
      ∀ (index' : Nat) (t' : Toolchain), r.toolchains[index']? = some t' → t'.valid = true →
        wanted t' = true → index ≤ index' := by
  obtain ⟨ht, index, hindex, rfl, hbefore⟩ := List.find?_eq_some_iff_getElem.mp h
  obtain ⟨hvalid, hwanted⟩ := Bool.and_eq_true_iff.mp ht
  refine ⟨index, List.getElem?_eq_getElem hindex, hvalid, hwanted, ?_⟩
  intro index' t' hregistered hvalid' hwanted'
  refine Nat.le_of_not_lt fun hlt => ?_
  obtain ⟨hlen, rfl⟩ := List.getElem?_eq_some_iff.mp hregistered
  have hskipped := hbefore index' hlt
  rw [hvalid', hwanted'] at hskipped
  cases hskipped

theorem findValid?_eq_none {wanted : Toolchain → Bool} (h : r.findValid? wanted = none)
    (hregistered : t ∈ r.toolchains) (hvalid : t.valid = true) : wanted t = false := by
  have hskipped := List.find?_eq_none.mp h t hregistered
  rw [hvalid, Bool.true_and] at hskipped
  exact Bool.eq_false_iff.mpr hskipped

/-- What the step of a rank finds. -/
def ranked? (r : Registry) (host : Host) (compiler : Path) (language : Language) :
    Nat → Option Toolchain
  | 0 => r.ofCompiler? host compiler language
  | 1 => r.ofFamily? (familyOf host compiler) language
  | 2 => r.substitute? host (familyOf host compiler) language
  | _ => none

/-- The step of each rank is one search among the valid toolchains of the
language. -/
theorem exists_search (r : Registry) (host : Host) (compiler : Path) (language : Language)
    (rank : Nat) : ∃ wanted : Toolchain → Bool,
      r.ranked? host compiler language rank =
        r.findValid? (fun t => t.language == language && wanted t) ∧
      ∀ t, wanted t = true ↔ HasRank host compiler t rank := by
  have hnothing : none = r.findValid? (fun t => t.language == language && false) :=
    (List.find?_eq_none.mpr (by simp)).symm
  match rank with
  | 0 =>
    refine ⟨fun t => sameCompiler t.compiler compiler host, rfl, fun t => ⟨.compiler, ?_⟩⟩
    intro h
    cases h with
    | compiler h => exact h
  | 1 =>
    refine ⟨fun t => t.family == familyOf host compiler, rfl, fun t => ⟨?_, ?_⟩⟩
    · exact fun h => .family (beq_iff_eq.mp h)
    · intro h
      cases h with
      | family h => exact beq_iff_eq.mpr h
  | 2 =>
    cases hclang : (familyOf host compiler).isClang with
    | true =>
      refine ⟨fun _ => false, ?_, fun t => ⟨nofun, ?_⟩⟩
      · simpa [ranked?, substitute?, hclang] using hnothing
      · intro h
        cases h with
        | substitute h =>
          rw [hclang] at h
          cases h
    | false =>
      refine ⟨fun t => t.family == Family.substitute host, ?_, fun t => ⟨?_, ?_⟩⟩
      · simp [ranked?, substitute?, hclang, ofFamily?]
      · exact fun h => .substitute hclang (beq_iff_eq.mp h)
      · intro h
        cases h with
        | substitute _ h => exact beq_iff_eq.mpr h
  | _ + 3 => exact ⟨fun _ => false, hnothing, fun t => ⟨nofun, nofun⟩⟩

theorem not_isCandidate_of_ranked? {rank : Nat}
    (h : r.ranked? host compiler language rank = none) (index : Nat) (t : Toolchain) :
    ¬ r.IsCandidate host compiler language rank index t := by
  intro hcandidate
  obtain ⟨wanted, hsearch, hwanted⟩ := r.exists_search host compiler language rank
  have hskipped := findValid?_eq_none (hsearch.symm.trans h)
    (List.mem_of_getElem? hcandidate.registered) hcandidate.valid
  simp only [(hwanted t).mpr hcandidate.ranked, hcandidate.ofLanguage, beq_self_eq_true,
    Bool.and_true, Bool.true_eq_false] at hskipped

/-- What the step of a rank finds is the best candidate if no step before finds
any. -/
theorem exists_isBest_of_ranked? {rank : Nat}
    (h : r.ranked? host compiler language rank = some t)
    (hbefore : ∀ rank' < rank, r.ranked? host compiler language rank' = none) :
    ∃ index, r.IsBest host compiler language rank index t := by
  obtain ⟨wanted, hsearch, hwanted⟩ := r.exists_search host compiler language rank
  obtain ⟨index, hregistered, hvalid, hmeets, hfirst⟩ := findValid?_eq_some (hsearch.symm.trans h)
  obtain ⟨hlanguage, hrank⟩ := Bool.and_eq_true_iff.mp hmeets
  refine ⟨index, ⟨hregistered, hvalid, beq_iff_eq.mp hlanguage, (hwanted t).mp hrank⟩, ?_⟩
  intro rank' index' t' hcandidate
  rcases Nat.lt_trichotomy rank rank' with hlt | rfl | hlt
  · exact .inl hlt
  · refine .inr ⟨rfl, hfirst index' t' hcandidate.registered hcandidate.valid ?_⟩
    rw [hcandidate.ofLanguage, (hwanted t').mpr hcandidate.ranked, beq_self_eq_true]
    rfl
  · exact absurd hcandidate (not_isCandidate_of_ranked? (hbefore rank' hlt) index' t')

/-! ## All steps -/

/-- The step that ends a search at a rank. -/
def stepOf : Nat → Step
  | 0 => .exactMatch
  | 1 => .familyMatch
  | _ => .clangFallback

theorem not_isDefault_stepOf (rank : Nat) : ¬ (stepOf rank).IsDefault := by
  unfold stepOf
  split <;> rintro (h | h) <;> cases h

/-- The search ends at the best candidate, or falls back without one. -/
theorem resolveCompiler_cases (r : Registry) (env : Environment) (host : Host) (token : String)
    (language : Language) :
    (∃ rank index t, r.IsBest host (compilerPath token) language rank index t ∧
        r.resolveCompiler env host token language = ⟨some t, stepOf rank, []⟩) ∨
      (∀ rank index t, ¬ r.IsCandidate host (compilerPath token) language rank index t) ∧
        r.resolveCompiler env host token language =
          fallBack env (compilerPath token) language := by
  unfold resolveCompiler
  simp only
  cases hcompiler : r.ofCompiler? host (compilerPath token) language with
  | some t =>
    have hfound : r.ranked? host (compilerPath token) language 0 = some t := hcompiler
    obtain ⟨index, hbest⟩ := exists_isBest_of_ranked? hfound nofun
    exact .inl ⟨0, index, t, hbest, rfl⟩
  | none =>
    cases hfamily : r.ofFamily? (familyOf host (compilerPath token)) language with
    | some t =>
      have hfound : r.ranked? host (compilerPath token) language 1 = some t := hfamily
      obtain ⟨index, hbest⟩ := exists_isBest_of_ranked? hfound fun
        | 0, _ => hcompiler
      exact .inl ⟨1, index, t, hbest, rfl⟩
    | none =>
      cases hsubstitute : r.substitute? host (familyOf host (compilerPath token)) language with
      | some t =>
        have hfound : r.ranked? host (compilerPath token) language 2 = some t := hsubstitute
        obtain ⟨index, hbest⟩ := exists_isBest_of_ranked? hfound fun
          | 0, _ => hcompiler
          | 1, _ => hfamily
        exact .inl ⟨2, index, t, hbest, rfl⟩
      | none =>
        refine .inr ⟨fun rank => not_isCandidate_of_ranked? ?_, rfl⟩
        match rank with
        | 0 => exact hcompiler
        | 1 => exact hfamily
        | 2 => exact hsubstitute
        | rank + 3 => rfl

/-! ## The default -/

theorem resolveDefault_eq (env : Environment) (language : Language) (step : Step) :
    resolveDefault env language step =
      ⟨env.default? language, step,
        if (env.default? language).isNone then [missingNote language] else []⟩ := by
  unfold resolveDefault
  cases env.default? language <;> rfl

theorem fallBack_eq (env : Environment) (compiler : Path) (language : Language) :
    fallBack env compiler language =
      ⟨env.default? language, .defaultFallback,
        [(env.default? language).elim (missingNote language)
          (defaultedNote compiler language)]⟩ := by
  unfold fallBack
  rw [resolveDefault_eq]
  cases env.default? language <;> rfl

theorem resolveIn_of_empty {compiler : Option String} (h : compiler.getD "" = "") (r : Registry)
    (env : Environment) (host : Host) (language : Language) :
    r.resolveIn env host compiler language = resolveDefault env language .environmentDefault := by
  cases compiler with
  | none => rfl
  | some token =>
    obtain rfl : token = "" := h
    rfl

theorem resolveIn_of_ne {token : String} (h : token ≠ "") (r : Registry) (env : Environment)
    (host : Host) (language : Language) :
    r.resolveIn env host (some token) language = r.resolveCompiler env host token language := by
  unfold resolveIn
  split
  · cases ‹some token = none›
  · exact absurd (Option.some.inj ‹some token = some ""›) h
  · rename_i htoken
    rw [Option.some.inj htoken]

/-- The ways in which a search ends. -/
theorem resolveIn_cases (r : Registry) (env : Environment) (host : Host)
    (compiler : Option String) (language : Language) :
    (∃ path rank index t, r.IsBest host path language rank index t ∧
        r.resolveIn env host compiler language = ⟨some t, stepOf rank, []⟩) ∨
      r.resolveIn env host compiler language =
        resolveDefault env language .environmentDefault ∨
      ∃ path, r.resolveIn env host compiler language = fallBack env path language := by
  by_cases hempty : compiler.getD "" = ""
  · exact .inr (.inl (resolveIn_of_empty hempty r env host language))
  · obtain ⟨token, rfl⟩ : ∃ token, compiler = some token := by
      cases compiler with
      | none => exact absurd rfl hempty
      | some token => exact ⟨token, rfl⟩
    have htoken : token ≠ "" := hempty
    rw [resolveIn_of_ne htoken]
    rcases r.resolveCompiler_cases env host token language with
      ⟨rank, index, t, hbest, hfound⟩ | ⟨-, hfound⟩
    · exact .inl ⟨_, rank, index, t, hbest, hfound⟩
    · exact .inr (.inr ⟨_, hfound⟩)

/-! ## The search as a whole -/

/-- For a compiler that is named, the best candidate is found and its rank gives
the step; without candidates it is the default of the environment. Where no
compiler is named, it is the default at once. There is a warning where no
toolchain is found, another one where the default was fallen back to, and
nothing else is told. -/
theorem resolution_is_priority_search (r : Registry) (env : Environment) (host : Host)
    (language : Language) :
    (∀ token ≠ "",
      (∃ rank index t, r.IsBest host (compilerPath token) language rank index t ∧
          (r.resolveIn env host (some token) language).toolchain = some t ∧
          (r.resolveIn env host (some token) language).step = stepOf rank) ∨
        (∀ rank index t, ¬ r.IsCandidate host (compilerPath token) language rank index t) ∧
          (r.resolveIn env host (some token) language).toolchain = env.default? language ∧
          (r.resolveIn env host (some token) language).step = .defaultFallback) ∧
    (∀ compiler : Option String, compiler.getD "" = "" →
      (r.resolveIn env host compiler language).toolchain = env.default? language ∧
        (r.resolveIn env host compiler language).step = .environmentDefault) ∧
    ∀ compiler, (r.resolveIn env host compiler language).diagnostics.map (·.code) =
      if (r.resolveIn env host compiler language).toolchain.isNone then [Code.toolchainMissing]
      else if (r.resolveIn env host compiler language).step = .defaultFallback then
        [Code.toolchainDefaulted]
      else [] := by
  refine ⟨fun token htoken => ?_, fun compiler hempty => ?_, fun compiler => ?_⟩
  · rw [resolveIn_of_ne htoken]
    rcases r.resolveCompiler_cases env host token language with
      ⟨rank, index, t, hbest, hfound⟩ | ⟨hnone, hfound⟩
    · exact .inl ⟨rank, index, t, hbest, by rw [hfound], by rw [hfound]⟩
    · rw [hfound, fallBack_eq]
      exact .inr ⟨hnone, rfl, rfl⟩
  · rw [resolveIn_of_empty hempty, resolveDefault_eq]
    exact ⟨rfl, rfl⟩
  · rcases r.resolveIn_cases env host compiler language with
      ⟨path, rank, index, t, -, hfound⟩ | hfound | ⟨path, hfound⟩
    · have hstep : stepOf rank ≠ .defaultFallback := fun h => not_isDefault_stepOf rank (.inr h)
      rw [hfound]
      simp [hstep]
    · rw [hfound, resolveDefault_eq]
      cases env.default? language <;> rfl
    · rw [hfound, fallBack_eq]
      cases env.default? language <;> rfl

/-- A compiler that is gone, Clang, and another compiler of the family of the
first one. -/
def behindClang : Registry where
  toolchains := [⟨"gone", .gcc, .c, ⟨"/usr/bin/gcc"⟩, false⟩,
    ⟨"clang", .clang, .c, ⟨"/usr/bin/clang"⟩, true⟩, ⟨"gcc", .gcc, .c, ⟨"/opt/bin/gcc"⟩, true⟩]
  defaultC := none
  defaultCxx := none
  sysroot := none

/-- The family counts for more than the place in the registry. -/
theorem resolution_is_priority_search_behindClang :
    "/usr/bin/gcc" ≠ "" ∧
      ∃ rank index t, behindClang.IsBest .unix (compilerPath "/usr/bin/gcc") .c rank index t ∧
        (behindClang.resolve .unix (some "/usr/bin/gcc") .c).toolchain = some t ∧
        (behindClang.resolve .unix (some "/usr/bin/gcc") .c).step = stepOf rank := by
  have hne : "/usr/bin/gcc" ≠ "" := by decide
  have hcandidate : behindClang.IsCandidate .unix (compilerPath "/usr/bin/gcc") .c 1 2
      ⟨"gcc", .gcc, .c, ⟨"/opt/bin/gcc"⟩, true⟩ :=
    ⟨rfl, rfl, rfl, .family (by decide +kernel)⟩
  refine ⟨hne, ?_⟩
  rcases (resolution_is_priority_search behindClang behindClang.environment .unix .c).1
    "/usr/bin/gcc" hne with hfound | ⟨hnone, -⟩
  · exact hfound
  · exact absurd hcandidate (hnone 1 2 _)

end Registry

end CompileCommands
