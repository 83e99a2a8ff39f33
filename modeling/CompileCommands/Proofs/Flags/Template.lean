-- Commands that are the same for many units but for the names of their files.
-- What is left of such a command without the files of the unit does not hold
-- the base name, so it is the same for all of the units.
import CompileCommands.Flags.UnitFilter

namespace CompileCommands

/-! ## The last piece of a text -/

namespace Text

theorem lastPiece_eq_self {isMark : Char → Bool} {cs : List Char}
    (h : ∀ c ∈ cs, isMark c = false) : lastPiece isMark cs = cs := by
  have hall : ∀ c ∈ cs.reverse, (!isMark c) = true := by
    intro c hc
    simp [h c (List.mem_reverse.mp hc)]
  have htake : (cs.reverse ++ []).takeWhile (fun c => !isMark c) = cs.reverse ++ [] :=
    List.takeWhile_append_of_pos hall
  rw [List.append_nil] at htake
  rw [lastPiece, htake, List.reverse_reverse]

theorem lastPiece_append {isMark : Char → Bool} {mark : Char} (hmark : isMark mark = true)
    (front : List Char) {back : List Char} (h : ∀ c ∈ back, isMark c = false) :
    lastPiece isMark (front ++ mark :: back) = back := by
  have hback : ∀ c ∈ back.reverse, (!isMark c) = true := by
    intro c hc
    simp [h c (List.mem_reverse.mp hc)]
  unfold lastPiece
  rw [List.reverse_append, List.reverse_cons, List.append_assoc,
    List.takeWhile_append_of_pos hback]
  simp [hmark]

end Text

namespace Flags

/-! ## Templates -/

/-- No separator of a path stands in the text. -/
def IsPlain (text : String) : Prop := ∀ c ∈ text.toList, Text.isSeparator c = false

instance (text : String) : Decidable (IsPlain text) :=
  decidable_of_decidable_of_iff (p := text.toList.all (!Text.isSeparator ·) = true)
    (by simp [IsPlain])

/-- A file that is called like its unit, but for the base name of the unit. -/
structure OwnFile where
  /-- The directory with the separator behind it, or nothing. -/
  directory : String
  /-- What follows the base name and a dot. -/
  rest : String
  directory_ends : directory = "" ∨
    ∃ mark, directory.toList.getLast? = some mark ∧ Text.isSeparator mark = true
  rest_plain : IsPlain rest

/-- A token of a command for many units. -/
inductive TemplateToken
  | fixed (text : String)
  | ownFile (file : OwnFile)

/-- The token as it stands in the command of one unit. -/
def TemplateToken.fill (baseName : String) : TemplateToken → String
  | .fixed text => text
  | .ownFile file => file.directory ++ baseName ++ "." ++ file.rest

/-- The command of one unit. -/
def fillAll (template : List TemplateToken) (baseName : String) : List String :=
  template.map (·.fill baseName)

/-- The template can be filled with a base name: it is one name, and no fixed
token looks like a file of the unit. -/
structure Fits (template : List TemplateToken) (baseName : String) : Prop where
  named : baseName ≠ ""
  plain : IsPlain baseName
  fixed : ∀ text, .fixed text ∈ template → mentions baseName text = false

/-! ## What is left of a template -/

theorem mentions_ownFile {baseName : String} (hplain : IsPlain baseName) (file : OwnFile) :
    mentions baseName (TemplateToken.fill baseName (.ownFile file)) = true := by
  have hname : ∀ c ∈ baseName.toList ++ '.' :: file.rest.toList, Text.isSeparator c = false := by
    intro c hc
    rcases List.mem_append.mp hc with hc | hc
    · exact hplain c hc
    · rcases List.mem_cons.mp hc with rfl | hc
      · decide
      · exact file.rest_plain c hc
  have hlast : Text.lastPiece Text.isSeparator
      (TemplateToken.fill baseName (.ownFile file)).toList =
        baseName.toList ++ '.' :: file.rest.toList := by
    have hchars : (TemplateToken.fill baseName (.ownFile file)).toList =
        file.directory.toList ++ (baseName.toList ++ '.' :: file.rest.toList) := by
      simp [TemplateToken.fill]
    rw [hchars]
    rcases file.directory_ends with hnone | ⟨mark, hlast, hmark⟩
    · rw [hnone]
      exact Text.lastPiece_eq_self hname
    · obtain ⟨front, hfront⟩ := List.getLast?_eq_some_iff.mp hlast
      rw [hfront, List.append_assoc, List.singleton_append]
      exact Text.lastPiece_append hmark front hname
  unfold mentions
  rw [hlast]
  simp

/-- One token more of a template, whatever the base name is. -/
def templateStep (kept : List String) : TemplateToken → List String
  | .fixed text => text :: kept
  | .ownFile _ => dropOutputOption kept

theorem filterStep_fill {template : List TemplateToken} {baseName : String}
    (h : Fits template baseName) {token : TemplateToken} (hmem : token ∈ template)
    (kept : List String) :
    filterStep baseName kept (token.fill baseName) = templateStep kept token := by
  unfold filterStep
  cases token with
  | fixed text =>
    have hother := h.fixed text hmem
    simp [TemplateToken.fill, hother, templateStep]
  | ownFile file => simp [mentions_ownFile h.plain file, templateStep]

/-- The base name shows nowhere in what is left. -/
theorem withoutUnit_fillAll {template : List TemplateToken} {baseName : String}
    (h : Fits template baseName) :
    withoutUnit (fillAll template baseName) baseName =
      (template.foldl templateStep []).reverse := by
  have hfold : ∀ tokens, (∀ token ∈ tokens, token ∈ template) → ∀ kept,
      (fillAll tokens baseName).foldl (filterStep baseName) kept =
        tokens.foldl templateStep kept := by
    intro tokens
    induction tokens with
    | nil => intro _ kept; rfl
    | cons token tokens ih =>
      intro hmem kept
      have hstep := filterStep_fill h (hmem token List.mem_cons_self) kept
      simp only [fillAll, List.map_cons, List.foldl_cons, hstep]
      exact ih (fun t ht => hmem t (List.mem_cons_of_mem token ht)) _
  unfold withoutUnit
  rw [if_neg h.named, hfold template fun _ ht => ht]

end Flags

end CompileCommands
