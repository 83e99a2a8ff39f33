-- The spelling of a compiler on Windows. The case of letters and the choice of
-- the separator are lost when the compiler is compared, when its family is
-- guessed, and when it is asked whether it drives like `cl`. Normalization
-- stands between these, and does the same to all spellings of a path.
import CompileCommands.Proofs.Path.Case
import CompileCommands.Proofs.Toolchain.ExactMatch
import Mathlib.Data.List.Forall2

namespace CompileCommands

/-! ## Spellings -/

/-- Two characters that are one to Windows: they differ at most in the case of a
letter `A` to `Z`, or they both separate names. -/
def SameKey (c d : Char) : Prop :=
  c.toLower = d.toLower ∨ Text.isSeparator c = true ∧ Text.isSeparator d = true

/-- Two texts that differ only in the case of letters and in their separators. -/
def SameSpelling (a b : String) : Prop := List.Forall₂ SameKey a.toList b.toList

instance (c d : Char) : Decidable (SameKey c d) := inferInstanceAs (Decidable (_ ∨ _))

theorem isSeparator_toLower (c : Char) : Text.isSeparator c.toLower = Text.isSeparator c := by
  rw [Bool.eq_iff_iff]
  simp only [Text.isSeparator, Bool.or_eq_true, beq_iff_eq]
  rw [Text.toLower_eq_iff (by decide), Text.toLower_eq_iff (by decide)]

theorem SameKey.slash {c d : Char} (h : SameKey c d) :
    (if c = '\\' then '/' else c).toLower = (if d = '\\' then '/' else d).toLower := by
  have hsmall : ∀ c : Char, c.toLower = '\\' ↔ c = '\\' := fun c => Text.toLower_eq_iff (by decide)
  rcases h with h | ⟨hc, hd⟩
  · have hiff : c = '\\' ↔ d = '\\' := by rw [← hsmall c, h, hsmall]
    by_cases hc : c = '\\'
    · rw [if_pos hc, if_pos (hiff.mp hc)]
    · rw [if_neg hc, if_neg fun hd => hc (hiff.mpr hd), h]
  · simp only [Text.isSeparator, Bool.or_eq_true, beq_iff_eq] at hc hd
    rcases hc with rfl | rfl <;> rcases hd with rfl | rfl <;> decide

namespace SameSpelling

variable {a b : String}

theorem eq_empty_iff (h : SameSpelling a b) : a = "" ↔ b = "" := by
  rw [← String.toList_eq_nil_iff, ← String.toList_eq_nil_iff, ← List.length_eq_zero_iff,
    ← List.length_eq_zero_iff, List.Forall₂.length_eq h]

/-- With slashes and small letters, all spellings of a path are one. -/
theorem lower_ofNative (h : SameSpelling a b) :
    (Path.ofNative a).lower = (Path.ofNative b).lower := by
  have hchars : ∀ cs ds : List Char, List.Forall₂ SameKey cs ds →
      cs.map (fun c => (if c = '\\' then '/' else c).toLower) =
        ds.map fun c => (if c = '\\' then '/' else c).toLower := by
    intro cs ds h
    induction h with
    | nil => rfl
    | cons hkey _ ih => rw [List.map_cons, List.map_cons, hkey.slash, ih]
  have htext := hchars a.toList b.toList h
  simp [Path.ofNative, Path.lower, Path.withSlashes, Text.lower, Function.comp_def, htext]

/-- An ending without separators is found in both spellings or in none. -/
theorem endsWith_lower (h : SameSpelling a b) {tail : String}
    (htail : tail.toList.any Text.isSeparator = false) :
    Text.endsWith (Text.lower a) tail = Text.endsWith (Text.lower b) tail := by
  -- An ending is a start of the characters from the last one on.
  have hstarts : ∀ ends cs ds : List Char, (∀ c ∈ ends, Text.isSeparator c = false) →
      List.Forall₂ SameKey cs ds →
      ends.isPrefixOf (cs.map Char.toLower) = ends.isPrefixOf (ds.map Char.toLower) := by
    intro ends cs ds hends h
    induction h generalizing ends with
    | nil => rfl
    | @cons c d cs ds hkey _ ih =>
      cases ends with
      | nil => rfl
      | cons last ends =>
        obtain ⟨hlast, hends⟩ := List.forall_mem_cons.mp hends
        have hsame : (last == c.toLower) = (last == d.toLower) := by
          rcases hkey with hkey | ⟨hc, hd⟩
          · rw [hkey]
          · have hother : ∀ c : Char, Text.isSeparator c = true → (last == c.toLower) = false := by
              intro c hc
              rw [beq_eq_false_iff_ne]
              rintro rfl
              rw [isSeparator_toLower, hc] at hlast
              cases hlast
            rw [hother c hc, hother d hd]
        simp only [List.map_cons, List.isPrefixOf, hsame, ih ends hends]
  have hreversed := hstarts tail.toList.reverse a.toList.reverse b.toList.reverse
    (by simpa using htail) (List.forall₂_reverse_iff.mpr h)
  simpa [Text.endsWith, Text.lower, List.isSuffixOf] using hreversed

end SameSpelling

namespace Registry

/-! ## The search -/

variable {a b : String}

theorem lower_compilerPath (h : SameSpelling a b) :
    (compilerPath a).lower = (compilerPath b).lower := by
  unfold compilerPath
  rw [← Path.normalize_lower, ← Path.normalize_lower, h.lower_ofNative]

theorem sameCompiler_congr (h : SameSpelling a b) (registered : Path) :
    sameCompiler registered (compilerPath a) .windows =
      sameCompiler registered (compilerPath b) .windows := by
  have hslashes : ∀ token, Path.withSlashes (compilerPath token).text = (compilerPath token).text :=
    fun token => Path.withSlashes_eq_self fun hslash =>
      Path.backslash_not_mem_withSlashes token ((Path.text_normalize_sublist _).subset hslash)
  have hlower : Text.lower (compilerPath a).text = Text.lower (compilerPath b).text :=
    congrArg Path.text (lower_compilerPath h)
  simp only [sameCompiler, hslashes, hlower]

theorem familyOf_congr (h : SameSpelling a b) :
    familyOf .windows (compilerPath a) = familyOf .windows (compilerPath b) := by
  have hname : ∀ p : Path, Text.lower (p.fileName?.getD "") = p.lower.fileName?.getD "" := by
    intro p
    rw [Path.fileName?_lower]
    cases p.fileName? <;> rfl
  simp only [familyOf, Family.ofFileName, hname, lower_compilerPath h]

theorem needsDriverMode_of_ne {token : String} (h : token ≠ "") (t : Toolchain) :
    t.needsDriverMode (some token) = (t.family == .clangCl &&
      !(Text.endsWith (Text.lower token) "cl" || Text.endsWith (Text.lower token) "cl.exe")) := by
  unfold Toolchain.needsDriverMode
  split
  · cases ‹some token = none›
  · exact absurd (Option.some.inj ‹some token = some ""›) h
  · rename_i htoken
    rw [Option.some.inj htoken]

/-- On Windows two spellings of a compiler find the same toolchain in the same
step, and each toolchain needs the driver mode for both of them or for none. -/
theorem resolution_ignores_spelling (h : SameSpelling a b) :
    (∀ (r : Registry) (env : Environment) (language : Language),
      (r.resolveIn env .windows (some a) language).toolchain =
          (r.resolveIn env .windows (some b) language).toolchain ∧
        (r.resolveIn env .windows (some a) language).step =
          (r.resolveIn env .windows (some b) language).step) ∧
      ∀ t : Toolchain, t.needsDriverMode (some a) = t.needsDriverMode (some b) := by
  by_cases ha : a = ""
  · obtain rfl := ha
    obtain rfl := h.eq_empty_iff.mp rfl
    exact ⟨fun _ _ _ => ⟨rfl, rfl⟩, fun _ => rfl⟩
  have hb : b ≠ "" := fun hb => ha (h.eq_empty_iff.mpr hb)
  constructor
  · intro r env language
    have hcompiler : r.ofCompiler? .windows (compilerPath a) language =
        r.ofCompiler? .windows (compilerPath b) language := by
      simp only [ofCompiler?, sameCompiler_congr h]
    rw [resolveIn_of_ne ha, resolveIn_of_ne hb]
    unfold resolveCompiler
    simp only [hcompiler, familyOf_congr h]
    split
    · exact ⟨rfl, rfl⟩
    · split
      · exact ⟨rfl, rfl⟩
      · split
        · exact ⟨rfl, rfl⟩
        · -- The defaults are the same, and only what is told of them is not.
          rw [fallBack_eq, fallBack_eq]
          exact ⟨rfl, rfl⟩
  · intro t
    have hname : "cl".toList.any Text.isSeparator = false := by decide
    have hending : "cl.exe".toList.any Text.isSeparator = false := by decide
    rw [needsDriverMode_of_ne ha, needsDriverMode_of_ne hb, h.endsWith_lower hname,
      h.endsWith_lower hending]

/-- Two calls of one driver, through a directory that is left again. The registry
has it in a third spelling. -/
theorem resolution_ignores_spelling_climbing :
    let registry : Registry := ⟨[⟨"mingw", .mingw, .c, ⟨"c:/mingw/bin/gcc.exe"⟩, true⟩,
      ⟨"llvm", .clangCl, .c, ⟨"C:/LLVM/bin\\clang.exe"⟩, true⟩], none, none, none⟩
    let upper := "C:\\LLVM\\lib\\..\\bin\\CLANG.EXE"
    let lower := "c:/llvm/LIB/../bin/clang.exe"
    SameSpelling upper lower ∧
      (registry.resolve .windows (some upper) .c).toolchain.map (·.id) = some "llvm" ∧
      (registry.resolve .windows (some lower) .c).toolchain.map (·.id) = some "llvm" ∧
      ∀ t : Toolchain, t.needsDriverMode (some upper) = t.needsDriverMode (some lower) := by
  intro registry upper lower
  have hsame : SameSpelling upper lower := by
    unfold SameSpelling
    decide
  have hfound : (registry.resolve .windows (some upper) .c).toolchain.map (·.id) =
      some "llvm" := by
    decide +kernel
  obtain ⟨hresolved, hdriver⟩ := resolution_ignores_spelling hsame
  refine ⟨hsame, hfound, ?_, hdriver⟩
  unfold resolve
  rw [← (hresolved registry registry.environment .c).1]
  exact hfound

end Registry

end CompileCommands
