-- The first token of a command, which calls the compiler. It is filtered like
-- any other token, so it goes if the compiler happens to be called like a file
-- of the unit. The flags of the record then start with what follows it.
import CompileCommands.Proofs.Database.Writing
import CompileCommands.Proofs.Flags.Template
import CompileCommands.Proofs.Flags.UnitFilter

namespace CompileCommands

/-! ## The last piece of a text -/

namespace Text

theorem not_isMark_of_mem_lastPiece {isMark : Char → Bool} {cs : List Char} {c : Char}
    (h : c ∈ lastPiece isMark cs) : isMark c = false := by
  unfold lastPiece at h
  simpa using List.mem_takeWhile_imp (List.mem_reverse.mp h)

/-- What stands before the last piece is nothing, or it ends with a mark. -/
theorem exists_front_lastPiece (isMark : Char → Bool) (cs : List Char) :
    ∃ front, cs = front ++ lastPiece isMark cs ∧
      (front = [] ∨ ∃ mark, front.getLast? = some mark ∧ isMark mark = true) := by
  refine ⟨(cs.reverse.dropWhile fun c => !isMark c).reverse, ?_, ?_⟩
  · unfold lastPiece
    rw [← List.reverse_append, List.takeWhile_append_dropWhile, List.reverse_reverse]
  · rw [List.getLast?_reverse, List.reverse_eq_nil_iff]
    have hhead := List.head?_dropWhile_not (fun c => !isMark c) cs.reverse
    cases hback : cs.reverse.dropWhile fun c => !isMark c with
    | nil => exact .inl rfl
    | cons mark back =>
      rw [hback] at hhead
      exact .inr ⟨mark, rfl, by simpa using hhead⟩

end Text

namespace Flags

/-! ## Tokens that are called like a unit -/

/-- The token names a file of the unit, whatever directory stands before it:
behind its last separator it has the base name, a dot, and anything. -/
structure IsCalledLike (baseName token : String) : Prop where
  named : baseName ≠ ""
  plain : IsPlain baseName
  filled : ∃ file : OwnFile, TemplateToken.fill baseName (.ownFile file) = token

theorem mentions_iff {baseName token : String} (hbase : baseName ≠ "") :
    mentions baseName token = true ↔ IsCalledLike baseName token := by
  constructor
  · intro h
    obtain ⟨rest, hlast⟩ := List.isPrefixOf_iff_prefix.mp h
    obtain ⟨front, hchars, hfront⟩ :=
      Text.exists_front_lastPiece Text.isSeparator token.toList
    have hplain : ∀ c ∈ baseName.toList ++ ['.'] ++ rest, Text.isSeparator c = false := by
      intro c hc
      exact Text.not_isMark_of_mem_lastPiece (hlast ▸ hc)
    have hrest : IsPlain (String.ofList rest) := by
      intro c hc
      rw [String.toList_ofList] at hc
      exact hplain c (List.mem_append_right _ hc)
    refine ⟨hbase, fun c hc => hplain c (by simp [hc]),
      ⟨String.ofList front, String.ofList rest, by simpa using hfront, hrest⟩, ?_⟩
    apply String.toList_inj.mp
    rw [hchars, ← hlast]
    simp [TemplateToken.fill]
  · rintro ⟨-, hplain, file, rfl⟩
    exact mentions_ownFile hplain file

theorem not_mem_outputOptions {token : String} (h : Text.startsWith token "-" = false) :
    token ∉ outputOptions := by
  have hdash : ∀ option ∈ outputOptions, Text.startsWith option "-" = true := by decide
  intro hmem
  rw [hdash token hmem] at h
  cases h

/-! ## The first flag that is left -/

section First

variable {baseName first : String} (rest : List String)

theorem withoutUnit_of_isCalledLike (h : IsCalledLike baseName first) :
    withoutUnit (first :: rest) baseName = withoutUnit rest baseName := by
  have hmentions := (mentions_iff h.named).mpr h
  unfold withoutUnit
  simp [h.named, filterStep, hmentions, dropOutputOption]

theorem withoutUnit_of_not_isCalledLike (hdash : Text.startsWith first "-" = false)
    (h : ¬ IsCalledLike baseName first) :
    withoutUnit (first :: rest) baseName = first :: withoutUnit rest baseName := by
  by_cases hbase : baseName = ""
  · simp [withoutUnit, hbase]
  · rw [← mentions_iff hbase, Bool.not_eq_true] at h
    exact withoutUnit_cons h (not_mem_outputOptions hdash)

/-- The first token stays just if it is not called like the unit. -/
theorem head?_withoutUnit_iff (hdash : Text.startsWith first "-" = false) :
    (withoutUnit (first :: rest) baseName).head? = some first ↔ ¬ IsCalledLike baseName first := by
  constructor
  · intro hhead h
    have hleft := mentions_eq_false_of_mem h.named (List.mem_of_head? hhead)
    rw [(mentions_iff h.named).mpr h] at hleft
    cases hleft
  · intro h
    rw [withoutUnit_of_not_isCalledLike rest hdash h]
    rfl

end First

end Flags

/-! ## The first flag of a record -/

namespace Database

open Flags Record Utf8

/-- The records of a text are those of its drafts. A first token that is no option
is the first flag of the record just if it is not called like the source file. If
it is, the flags are those of the tokens behind it alone. -/
theorem firstToken_kept_iff (fs : FileSystem) (source : Path) (bytes : List UInt8) :
    (readRecords fs source bytes).plain = (drafts bytes).filterMap (recordOf fs) ∧
      ∀ d r first rest, recordOf fs d = some r → tokensOf d = first :: rest →
        Text.startsWith first "-" = false →
        (r.flags.head? = some first ↔ ¬ IsCalledLike r.sourceFile.baseName first) ∧
          (IsCalledLike r.sourceFile.baseName first →
            r.flags = withoutUnit rest r.sourceFile.baseName) := by
  refine ⟨readRecords_plain fs source bytes, ?_⟩
  intro d r first rest hrecord htokens hdash
  obtain ⟨-, -, hflags⟩ := recordOf_eq_some hrecord
  rw [hflags, htokens]
  exact ⟨head?_withoutUnit_iff rest hdash, withoutUnit_of_isCalledLike rest⟩

/-- A unit that is called like its compiler, but for what stands behind the dot. -/
def calledLikeCompiler (compiler : String) : Written :=
  ⟨"/proj", "/proj/gcc.c", [compiler, "-DX", "-c", "gcc.c", "-o", "gcc.o"]⟩

theorem recordOf_calledLikeCompiler (compiler : String) :
    recordOf .empty (calledLikeCompiler compiler).draft =
      some (plainOf (calledLikeCompiler compiler)) := by
  have hfile : (Path.ofNative "/proj/gcc.c").isAbsolute = true := by decide
  exact recordOf_draft (IsMissing.of_isAbsolute .empty hfile)

/-- A compiler without an ending stays. -/
theorem firstToken_kept_iff_plainName :
    let w := calledLikeCompiler "/usr/bin/gcc"
    recordOf .empty w.draft = some (plainOf w) ∧
      tokensOf w.draft = "/usr/bin/gcc" :: ["-DX", "-c", "gcc.c", "-o", "gcc.o"] ∧
      Text.startsWith "/usr/bin/gcc" "-" = false ∧
      ¬ IsCalledLike (plainOf w).sourceFile.baseName "/usr/bin/gcc" ∧
      (plainOf w).flags.head? = some "/usr/bin/gcc" := by
  intro w
  have hrecord := recordOf_calledLikeCompiler "/usr/bin/gcc"
  have htokens := tokensOf_draft w
  have hdash : Text.startsWith "/usr/bin/gcc" "-" = false := by decide
  have hkept := (firstToken_kept_iff .empty ⟨"db"⟩ (ofText (writtenText [w]))).2
    w.draft (plainOf w) _ _ hrecord htokens hdash
  have hbase : (plainOf w).sourceFile.baseName = "gcc" := by decide +kernel
  have hother : ¬ IsCalledLike (plainOf w).sourceFile.baseName "/usr/bin/gcc" := by
    rw [hbase, ← mentions_iff (by decide)]
    decide
  exact ⟨hrecord, htokens, hdash, hother, hkept.1.mpr hother⟩

/-- A compiler with an ending goes, though it is not the source file. -/
theorem not_firstToken_kept_of_ending :
    ¬ ∀ (fs : FileSystem) (bytes : List UInt8) (d : Draft) (r : PlainRecord) (first : String),
      d ∈ drafts bytes → recordOf fs d = some r → (tokensOf d).head? = some first →
      Text.startsWith first "-" = false →
      (sourceFileOf fs r.directory (Path.ofNative first)).same r.sourceFile = false →
      r.flags.head? = some first := by
  intro hall
  let w := calledLikeCompiler "/mingw/bin/gcc.exe"
  have hdrafts : drafts (ofText (writtenText [w])) = [w.draft] := by
    rw [drafts_eq_readings, readings_writtenText]
    rfl
  have hmem : w.draft ∈ drafts (ofText (writtenText [w])) := by
    rw [hdrafts]
    exact List.mem_singleton_self _
  have hhead : (tokensOf w.draft).head? = some "/mingw/bin/gcc.exe" := by
    rw [tokensOf_draft]
    rfl
  have hfirst := hall .empty _ w.draft (plainOf w) _ hmem (recordOf_calledLikeCompiler _) hhead
    (by decide) (by decide +kernel)
  have hflags : (plainOf w).flags = ["-DX", "-c"] := by decide +kernel
  rw [hflags] at hfirst
  exact absurd hfirst (by decide)

end Database

end CompileCommands
