-- Output options and their arguments. By the rule, an output option goes with
-- the token right behind it. The filter looks at the last token it kept instead,
-- and once an option has gone with its argument, that is an option from further
-- before. Nothing that has to go is ever kept, but such an option may go as well.
import CompileCommands.Proofs.Flags.UnitFilter
import Mathlib.Data.List.Induction
import Mathlib.Data.List.Infix

namespace CompileCommands.Flags

/-! ## The rule -/

/-- The token has to go if it mentions the unit, or if it is an output option and
the next token mentions the unit. -/
def hasToGo (baseName token : String) (next : Option String) : Bool :=
  mentions baseName token || (decide (token ∈ outputOptions) && next.any (mentions baseName))

/-- The tokens that do not have to go, in their order. -/
def leftByRule (baseName : String) : List String → List String
  | [] => []
  | token :: rest =>
    if hasToGo baseName token rest.head? then leftByRule baseName rest
    else token :: leftByRule baseName rest

section Rule

variable {baseName token argument : String} {rest : List String}

theorem mentions_eq_false_of_mem_outputOptions (h : token ∈ outputOptions) :
    mentions baseName token = false := by
  have hplain : ∀ option ∈ outputOptions,
      Text.lastPiece Text.isSeparator option.toList = option.toList ∧ '.' ∉ option.toList := by
    decide
  obtain ⟨hlast, hdot⟩ := hplain token h
  rw [Bool.eq_false_iff]
  intro hmentions
  unfold mentions at hmentions
  rw [hlast, List.isPrefixOf_iff_prefix] at hmentions
  exact hdot (hmentions.subset (by simp))

theorem leftByRule_mention (h : mentions baseName token = true) :
    leftByRule baseName (token :: rest) = leftByRule baseName rest := by
  simp [leftByRule, hasToGo, h]

/-- An output option with an argument that mentions the unit goes with it. -/
theorem leftByRule_pair (hoption : token ∈ outputOptions)
    (hargument : mentions baseName argument = true) :
    leftByRule baseName (token :: argument :: rest) = leftByRule baseName rest := by
  have hgoes : hasToGo baseName token (some argument) = true := by
    simp [hasToGo, hoption, hargument]
  rw [leftByRule, List.head?_cons, if_pos hgoes, leftByRule_mention hargument]

theorem leftByRule_kept (h : hasToGo baseName token rest.head? = false) :
    leftByRule baseName (token :: rest) = token :: leftByRule baseName rest := by
  rw [leftByRule, h]
  rfl

theorem leftByRule_singleton (h : mentions baseName token = false) :
    leftByRule baseName [token] = [token] := by
  simp [leftByRule, hasToGo, h]

/-- What stands before a token is judged by that token at most. -/
theorem leftByRule_append (h : mentions baseName token = false) (front : List String) :
    leftByRule baseName (front ++ token :: rest) =
      leftByRule baseName front ++ leftByRule baseName (token :: rest) := by
  induction front with
  | nil => rfl
  | cons first front ih =>
    have hjudged : hasToGo baseName first (front ++ token :: rest).head? =
        hasToGo baseName first front.head? := by
      cases front with
      | nil => simp [hasToGo, h]
      | cons second front => rfl
    rw [List.cons_append, leftByRule, leftByRule, hjudged, ih]
    split <;> rfl

end Rule

/-! ## One token more -/

section Filter

variable {baseName token argument : String} {kept rest : List String}

theorem foldl_mention (h : mentions baseName token = true) :
    (token :: rest).foldl (filterStep baseName) kept =
      rest.foldl (filterStep baseName) (dropOutputOption kept) := by
  rw [List.foldl_cons, filterStep, if_pos h]

theorem foldl_other (h : mentions baseName token = false) :
    (token :: rest).foldl (filterStep baseName) kept =
      rest.foldl (filterStep baseName) (token :: kept) := by
  rw [List.foldl_cons, filterStep, h]
  rfl

theorem foldl_pair (hoption : token ∈ outputOptions)
    (hargument : mentions baseName argument = true) :
    (token :: argument :: rest).foldl (filterStep baseName) kept =
      rest.foldl (filterStep baseName) kept := by
  have hdrop : dropOutputOption (token :: kept) = kept := if_pos hoption
  rw [foldl_other (mentions_eq_false_of_mem_outputOptions hoption), foldl_mention hargument, hdrop]

theorem dropOutputOption_sublist (kept : List String) : (dropOutputOption kept).Sublist kept := by
  cases kept with
  | nil => exact List.Sublist.refl []
  | cons last kept =>
    simp only [dropOutputOption]
    split
    · exact List.sublist_cons_self last kept
    · exact List.Sublist.refl _

/-- How the first of two tokens fares: it mentions the unit, it is an output option
that goes with the second, or it stays. -/
theorem first_cases (baseName token argument : String) :
    mentions baseName token = true ∨
      token ∈ outputOptions ∧ mentions baseName argument = true ∨
        mentions baseName token = false ∧ hasToGo baseName token (some argument) = false := by
  cases htoken : mentions baseName token with
  | true => exact .inl rfl
  | false =>
    by_cases hpair : token ∈ outputOptions ∧ mentions baseName argument = true
    · exact .inr (.inl hpair)
    · refine .inr (.inr ⟨rfl, ?_⟩)
      simpa [hasToGo, htoken] using hpair

end Filter

/-! ## Nothing too much is kept -/

/-- By induction on the tokens, two at a time where an option goes with its argument. -/
theorem foldl_sublist (baseName : String) (flags kept : List String) :
    (flags.foldl (filterStep baseName) kept).reverse.Sublist
      (kept.reverse ++ leftByRule baseName flags) := by
  induction flags using List.twoStepInduction generalizing kept with
  | nil => simp [leftByRule]
  | singleton token =>
    cases h : mentions baseName token with
    | true =>
      rw [foldl_mention h, leftByRule_mention h, leftByRule, List.append_nil]
      exact (dropOutputOption_sublist kept).reverse
    | false =>
      rw [foldl_other h, leftByRule_singleton h, ← List.reverse_cons]
      exact List.Sublist.refl _
  | cons_cons token argument rest ihRest ih =>
    rcases first_cases baseName token argument with h | ⟨hoption, hargument⟩ | ⟨h, hstays⟩
    · rw [foldl_mention h, leftByRule_mention h]
      exact (ih _ _).trans ((dropOutputOption_sublist kept).reverse.append_right _)
    · rw [foldl_pair hoption hargument, leftByRule_pair hoption hargument]
      exact ihRest kept
    · rw [foldl_other h, leftByRule_kept hstays, List.append_cons, ← List.reverse_cons]
      exact ih _ _

theorem withoutUnit_sublist {baseName : String} (hbase : baseName ≠ "") (flags : List String) :
    (withoutUnit flags baseName).Sublist (leftByRule baseName flags) := by
  unfold withoutUnit
  rw [if_neg hbase]
  exact foldl_sublist baseName flags []

/-! ## What goes beside the rule -/

/-- Output options, each with an argument of its own. -/
structure ArePairs (baseName : String) (pairs : List (String × String)) : Prop where
  options : ∀ p ∈ pairs, p.1 ∈ outputOptions
  arguments : ∀ p ∈ pairs, mentions baseName p.2 = true

/-- The tokens of some pairs. -/
def pairTokens (pairs : List (String × String)) : List String := pairs.flatMap fun p => [p.1, p.2]

/-- A mention stands behind some options with their arguments, if there are any. -/
def IsReached (baseName : String) (flags : List String) : Prop :=
  ∃ pairs mention rest, ArePairs baseName pairs ∧ mentions baseName mention = true ∧
    flags = pairTokens pairs ++ mention :: rest

/-- An output option, at least one more of them with an argument of its own, and
then a mention. The first option is not followed by a mention, but it is the last
token that is left when the mention comes. -/
def Overreaches (baseName : String) (stretch : List String) : Prop :=
  ∃ option pairs mention, option ∈ outputOptions ∧ ArePairs baseName pairs ∧ pairs ≠ [] ∧
    mentions baseName mention = true ∧ stretch = option :: pairTokens pairs ++ [mention]

section Overreach

variable {baseName : String} {pairs : List (String × String)}

theorem ArePairs.cons {p : String × String} (hoption : p.1 ∈ outputOptions)
    (hargument : mentions baseName p.2 = true) (h : ArePairs baseName pairs) :
    ArePairs baseName (p :: pairs) :=
  ⟨List.forall_mem_cons.mpr ⟨hoption, h.options⟩,
    List.forall_mem_cons.mpr ⟨hargument, h.arguments⟩⟩

theorem ArePairs.of_cons {p : String × String} (h : ArePairs baseName (p :: pairs)) :
    p.1 ∈ outputOptions ∧ mentions baseName p.2 = true ∧ ArePairs baseName pairs := by
  obtain ⟨hoption, hoptions⟩ := List.forall_mem_cons.mp h.options
  obtain ⟨hargument, harguments⟩ := List.forall_mem_cons.mp h.arguments
  exact ⟨hoption, hargument, hoptions, harguments⟩

theorem isReached_mention {mention : String} {rest : List String}
    (h : mentions baseName mention = true) : IsReached baseName (mention :: rest) :=
  ⟨[], mention, rest, ⟨nofun, nofun⟩, h, rfl⟩

/-- A mention takes nothing along where it reaches no option. -/
theorem not_endsInOption_of_mention {mention : String} {kept rest : List String}
    (h : mentions baseName mention = true)
    (hkept : endsInOption kept = true → ¬ IsReached baseName (mention :: rest)) :
    endsInOption kept = false := by
  rw [Bool.eq_false_iff]
  exact fun hends => hkept hends (isReached_mention h)

theorem IsReached.pair {option argument : String} {rest : List String}
    (h : IsReached baseName rest) (hoption : option ∈ outputOptions)
    (hargument : mentions baseName argument = true) :
    IsReached baseName (option :: argument :: rest) := by
  obtain ⟨pairs, mention, rest, hpairs, hmention, rfl⟩ := h
  exact ⟨(option, argument) :: pairs, mention, rest, hpairs.cons hoption hargument, hmention, rfl⟩

/-- A mention that reaches an option from further behind overreaches. -/
theorem IsReached.exists_overreach {option next : String} {rest : List String}
    (h : IsReached baseName (next :: rest)) (hoption : option ∈ outputOptions)
    (hnext : mentions baseName next = false) :
    ∃ stretch, stretch <:+: option :: next :: rest ∧ Overreaches baseName stretch := by
  obtain ⟨pairs, mention, behind, hpairs, hmention, htokens⟩ := h
  have hsome : pairs ≠ [] := by
    rintro rfl
    rw [(List.cons.inj htokens).1, hmention] at hnext
    cases hnext
  refine ⟨_, ?_, option, pairs, mention, hoption, hpairs, hsome, hmention, rfl⟩
  exact ⟨[], behind, by simp [htokens]⟩

theorem foldl_pairTokens (hpairs : ArePairs baseName pairs) (kept rest : List String) :
    (pairTokens pairs ++ rest).foldl (filterStep baseName) kept =
      rest.foldl (filterStep baseName) kept := by
  induction pairs with
  | nil => rfl
  | cons p pairs ih =>
    obtain ⟨hoption, hargument, hpairs⟩ := hpairs.of_cons
    exact (foldl_pair hoption hargument).trans (ih hpairs)

theorem leftByRule_pairTokens (hpairs : ArePairs baseName pairs) (rest : List String) :
    leftByRule baseName (pairTokens pairs ++ rest) = leftByRule baseName rest := by
  induction pairs with
  | nil => rfl
  | cons p pairs ih =>
    obtain ⟨hoption, hargument, hpairs⟩ := hpairs.of_cons
    exact (leftByRule_pair hoption hargument).trans (ih hpairs)

/-- The filter keeps nothing of a stretch that overreaches. -/
theorem Overreaches.foldl_eq {stretch : List String} (h : Overreaches baseName stretch)
    (kept rest : List String) :
    (stretch ++ rest).foldl (filterStep baseName) kept =
      rest.foldl (filterStep baseName) kept := by
  obtain ⟨option, pairs, mention, hoption, hpairs, -, hmention, rfl⟩ := h
  have hdrop : dropOutputOption (option :: kept) = kept := if_pos hoption
  rw [List.cons_append, List.cons_append, List.append_assoc,
    foldl_other (mentions_eq_false_of_mem_outputOptions hoption), foldl_pairTokens hpairs,
    List.singleton_append, foldl_mention hmention, hdrop]

/-- The rule keeps the first option of a stretch that overreaches. -/
theorem Overreaches.leftByRule_eq {stretch : List String} (h : Overreaches baseName stretch)
    (front rest : List String) :
    ∃ option, leftByRule baseName (front ++ stretch ++ rest) =
      leftByRule baseName front ++ option :: leftByRule baseName rest := by
  obtain ⟨option, pairs, mention, hoption, hpairs, hsome, hmention, rfl⟩ := h
  obtain ⟨p, pairs, rfl⟩ := List.exists_cons_of_ne_nil hsome
  have hother : mentions baseName option = false :=
    mentions_eq_false_of_mem_outputOptions hoption
  have hnext : mentions baseName p.1 = false :=
    mentions_eq_false_of_mem_outputOptions hpairs.of_cons.1
  have hstays : hasToGo baseName option
      (pairTokens (p :: pairs) ++ mention :: rest).head? = false := by
    simp [hasToGo, pairTokens, hother, hnext]
  refine ⟨option, ?_⟩
  rw [List.append_assoc, List.cons_append, List.cons_append, List.append_assoc,
    List.singleton_append, leftByRule_append hother, leftByRule_kept hstays,
    leftByRule_pairTokens hpairs, leftByRule_mention hmention]

end Overreach

/-! ## The filter and the rule -/

/-- Where no stretch overreaches, and no kept option is reached, the filter follows
the rule. -/
theorem foldl_eq_of_not_overreaches {baseName : String} (flags kept : List String)
    (hfree : ∀ stretch, stretch <:+: flags → ¬ Overreaches baseName stretch)
    (hkept : endsInOption kept = true → ¬ IsReached baseName flags) :
    flags.foldl (filterStep baseName) kept = (leftByRule baseName flags).reverse ++ kept := by
  induction flags using List.twoStepInduction generalizing kept with
  | nil => rfl
  | singleton token =>
    cases h : mentions baseName token with
    | true =>
      have hends := not_endsInOption_of_mention h hkept
      rw [foldl_mention h, dropOutputOption_of_not_endsInOption hends, leftByRule_mention h]
      rfl
    | false =>
      rw [foldl_other h, leftByRule_singleton h]
      rfl
  | cons_cons token argument rest ihRest ih =>
    have hbehind : ∀ stretch, stretch <:+: argument :: rest → ¬ Overreaches baseName stretch :=
      fun stretch hstretch => hfree stretch (List.infix_cons hstretch)
    rcases first_cases baseName token argument with h | ⟨hoption, hargument⟩ | ⟨h, hstays⟩
    · have hends := not_endsInOption_of_mention h hkept
      rw [foldl_mention h, dropOutputOption_of_not_endsInOption hends, leftByRule_mention h]
      exact ih _ _ hbehind (by simp [hends])
    · rw [foldl_pair hoption hargument, leftByRule_pair hoption hargument]
      refine ihRest kept (fun stretch hstretch => hbehind stretch (List.infix_cons hstretch)) ?_
      exact fun hends hreached => hkept hends (hreached.pair hoption hargument)
    · rw [foldl_other h, leftByRule_kept hstays, List.reverse_cons, List.append_assoc]
      refine ih _ _ hbehind fun hends hreached => ?_
      have hoption : token ∈ outputOptions := by simpa [endsInOption] using hends
      have hargument : mentions baseName argument = false := by
        simpa [hasToGo, hoption, h] using hstays
      obtain ⟨stretch, hstretch, hover⟩ := hreached.exists_overreach hoption hargument
      exact hfree stretch hstretch hover

/-- A stretch that overreaches costs the option that the rule keeps of it. -/
theorem Overreaches.withoutUnit_ne {baseName : String} {stretch : List String}
    (h : Overreaches baseName stretch) (hbase : baseName ≠ "") (front rest : List String) :
    withoutUnit (front ++ stretch ++ rest) baseName ≠
      leftByRule baseName (front ++ stretch ++ rest) := by
  intro hsame
  obtain ⟨option, hrule⟩ := h.leftByRule_eq front rest
  have hfront := foldl_sublist baseName front []
  have hrest := foldl_sublist baseName rest (front.foldl (filterStep baseName) [])
  have hfilter : withoutUnit (front ++ stretch ++ rest) baseName =
      (rest.foldl (filterStep baseName) (front.foldl (filterStep baseName) [])).reverse := by
    rw [withoutUnit, if_neg hbase, List.append_assoc, List.foldl_append, h.foldl_eq]
  rw [hfilter, hrule] at hsame
  have hlong := (hsame ▸ hrest).length_le
  have hshort := hfront.length_le
  simp only [List.length_append, List.length_cons, List.reverse_nil, List.nil_append]
    at hlong hshort
  omega

/-- Each token that has to go is gone. The others are all kept, in their order, just
if the command has no output option that is followed by one or more output options
with arguments of their own and then by a mention. -/
theorem withoutUnit_eq_leftByRule_iff {baseName : String} (hbase : baseName ≠ "")
    (flags : List String) :
    (withoutUnit flags baseName).Sublist (leftByRule baseName flags) ∧
      (withoutUnit flags baseName = leftByRule baseName flags ↔
        ∀ stretch, stretch <:+: flags → ¬ Overreaches baseName stretch) := by
  refine ⟨withoutUnit_sublist hbase flags, ?_, ?_⟩
  · rintro hsame stretch ⟨front, rest, rfl⟩ hover
    exact hover.withoutUnit_ne hbase front rest hsame
  · intro hfree
    have hfold := foldl_eq_of_not_overreaches flags [] hfree (by simp [endsInOption])
    rw [withoutUnit, if_neg hbase, hfold, List.append_nil, List.reverse_reverse]

/-- An output option that another one follows, and no mention behind the two. -/
def freeOption : List String := ["cc", "-MT", "-MF", "deps\\a.d", "-c", "src/a.c", "-o", "a.o"]

theorem withoutUnit_eq_leftByRule_iff_freeOption :
    "a" ≠ "" ∧ withoutUnit freeOption "a" = ["cc", "-MT", "-c"] ∧
      leftByRule "a" freeOption = ["cc", "-MT", "-c"] ∧
      ∀ stretch, stretch <:+: freeOption → ¬ Overreaches "a" stretch := by
  have hbase : "a" ≠ "" := by decide
  have hfilter : withoutUnit freeOption "a" = ["cc", "-MT", "-c"] := by decide +kernel
  have hrule : leftByRule "a" freeOption = ["cc", "-MT", "-c"] := by decide +kernel
  have hiff := (withoutUnit_eq_leftByRule_iff hbase freeOption).2
  exact ⟨hbase, hfilter, hrule, hiff.mp (hfilter.trans hrule.symm)⟩

/-- Behind `-MF` and its argument, the source file takes an `-o` along that does not
stand before it. -/
theorem not_forall_withoutUnit_eq_leftByRule :
    ¬ ∀ (baseName : String) (flags : List String), baseName ≠ "" →
      withoutUnit flags baseName = leftByRule baseName flags := by
  intro h
  have hsame := h "a" ["cc", "-o", "-MF", "a.d", "a.c"] (by decide)
  exact absurd hsame (by decide +kernel)

end CompileCommands.Flags
