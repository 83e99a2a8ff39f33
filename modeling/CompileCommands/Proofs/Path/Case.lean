-- The case of letters in paths. Slashes and dots have no case, so a path with
-- small letters has the same components as before, with small letters in their
-- names, and is normalized in the same way.
import CompileCommands.Proofs.Path.NormalForm

namespace CompileCommands

/-! ## Small letters -/

namespace Text

/-- A character that is no letter is the small letter of itself alone. -/
theorem toLower_eq_iff {c mark : Char} (hmark : mark.isAlpha = false) :
    c.toLower = mark ↔ c = mark := by
  obtain ⟨hupper, hlower⟩ : mark.isUpper = false ∧ mark.isLower = false :=
    Bool.or_eq_false_iff.mp hmark
  unfold Char.toLower
  split
  · rename_i hc
    constructor
    · rintro rfl
      -- The small letter is made with `hc`, which therefore cannot be rewritten.
      have hrange := hc
      obtain hfirst | hlast := Bool.and_eq_false_iff.mp hlower
      all_goals
        simp only [decide_eq_false_iff_not, ge_iff_le, UInt32.le_iff_toNat_le, UInt32.toNat_add,
          UInt32.reduceToNat, Nat.reducePow, Char.reduceVal, UInt32.reduceSub, Nat.not_le] at *
        omega
    · rintro rfl
      exact absurd hc (of_decide_eq_false hupper)
  · exact Iff.rfl

theorem lower_append (a b : String) : lower (a ++ b) = lower a ++ lower b := by
  simp [lower]

theorem lower_eq_iff {s mark : String} (hmark : mark.toList.any Char.isAlpha = false) :
    lower s = mark ↔ s = mark := by
  have hchars : ∀ cs marks : List Char, (∀ c ∈ marks, c.isAlpha = false) →
      (cs.map Char.toLower = marks ↔ cs = marks) := by
    intro cs marks
    induction cs generalizing marks with
    | nil => simp
    | cons c cs ih =>
      intro hmarks
      cases marks with
      | nil => simp
      | cons first marks =>
        obtain ⟨hfirst, hmarks⟩ := List.forall_mem_cons.mp hmarks
        rw [List.map_cons, List.cons.injEq, List.cons.injEq, toLower_eq_iff hfirst, ih marks hmarks]
  have htext := hchars s.toList mark.toList (by simpa using hmark)
  rwa [← String.ofList_inj, String.ofList_toList, String.toList_inj] at htext

theorem pieces_map {isMark : Char → Bool} {f : Char → Char} (hf : ∀ c, isMark (f c) = isMark c)
    (cs : List Char) : pieces isMark (cs.map f) = (pieces isMark cs).map (List.map f) := by
  induction cs with
  | nil => rfl
  | cons c cs ih =>
    obtain ⟨first, rest, hpieces⟩ := List.exists_cons_of_ne_nil (pieces_ne_nil isMark cs)
    rw [List.map_cons, pieces, pieces, hf, ih, hpieces]
    split <;> rfl

end Text

/-- The component with small letters in its name. -/
def Component.lower : Component → Component
  | .normal name => .normal (Text.lower name)
  | c => c

theorem Component.ofPiece_lower (piece : String) :
    Component.ofPiece (Text.lower piece) = (Component.ofPiece piece).map Component.lower := by
  have hempty : Text.lower piece = "" ↔ piece = "" := Text.lower_eq_iff (by decide)
  have hdot : Text.lower piece = "." ↔ piece = "." := Text.lower_eq_iff (by decide)
  have hparent : Text.lower piece = ".." ↔ piece = ".." := Text.lower_eq_iff (by decide)
  unfold Component.ofPiece
  simp only [hempty, hdot, hparent]
  split
  · rfl
  · split <;> rfl

namespace Path

/-- The path with small letters. -/
def lower (p : Path) : Path := ⟨Text.lower p.text⟩

/-! ## Components -/

theorem pieces_lower (p : Path) : p.lower.pieces = p.pieces.map Text.lower := by
  have hmark : ∀ c : Char, (c.toLower == '/') = (c == '/') := by
    intro c
    rw [Bool.eq_iff_iff, beq_iff_eq, beq_iff_eq, Text.toLower_eq_iff (by decide)]
  unfold pieces lower
  simp only [Text.lower, String.toList_ofList]
  rw [Text.pieces_map hmark]
  simp [Function.comp_def, Text.lower]

theorem isAbsolute_lower (p : Path) : p.lower.isAbsolute = p.isAbsolute := by
  unfold isAbsolute Text.startsWith lower Text.lower
  rw [String.toList_ofList]
  cases p.text.toList with
  | nil => rfl
  | cons c cs =>
    have hslash : ('/' == c.toLower) = ('/' == c) := by
      rw [Bool.eq_iff_iff, beq_iff_eq, beq_iff_eq, eq_comm, Text.toLower_eq_iff (by decide),
        eq_comm]
    simp [List.isPrefixOf, hslash]

theorem ofPieces_lower (ps : List String) :
    ofPieces (ps.map Text.lower) = (ofPieces ps).map Component.lower := by
  unfold ofPieces
  rw [List.filterMap_map, List.map_filterMap]
  congr 1
  funext piece
  exact Component.ofPiece_lower piece

theorem components_lower (p : Path) : p.lower.components = p.components.map Component.lower := by
  rw [components_eq, components_eq, isAbsolute_lower, pieces_lower]
  cases p.isAbsolute with
  | true => exact congrArg (.root :: ·) (ofPieces_lower p.pieces)
  | false =>
    cases p.pieces with
    | nil => rfl
    | cons piece rest =>
      have hdot : Text.lower piece = "." ↔ piece = "." := Text.lower_eq_iff (by decide)
      by_cases hpiece : piece = "."
      · subst hpiece
        exact congrArg (.current :: ·) (ofPieces_lower rest)
      · have hplain := ofPieces_lower (piece :: rest)
        rw [List.map_cons] at hplain ⊢
        simpa [componentsOf, hpiece, hdot] using hplain

/-! ## Normalized places -/

theorem pushComponent_lower (above : List Component) (c : Component) :
    pushComponent (above.map Component.lower) c.lower =
      (pushComponent above c).map Component.lower := by
  cases c with
  | parent =>
    cases above with
    | nil => rfl
    | cons last above => cases last <;> rfl
  | _ => rfl

theorem normalComponents_lower (cs : List Component) :
    normalComponents (cs.map Component.lower) = (normalComponents cs).map Component.lower := by
  induction cs using List.reverseRecOn with
  | nil => rfl
  | append_singleton cs c ih =>
    rw [List.map_append, List.map_singleton, normalComponents_append, normalComponents_append, ih,
      ← List.map_reverse, pushComponent_lower, ← List.map_reverse]

theorem joinPieces_lower (ps : List String) :
    joinPieces (ps.map Text.lower) = Text.lower (joinPieces ps) := by
  induction ps with
  | nil => rfl
  | cons piece ps ih =>
    by_cases hps : ps = []
    · subst hps
      simp [joinPieces]
    · rw [List.map_cons, joinPieces_cons (by simpa using hps), joinPieces_cons hps, ih,
        Text.lower_append, Text.lower_append]
      rfl

theorem ofComponents_lower (cs : List Component) :
    ofComponents (cs.map Component.lower) = (ofComponents cs).lower := by
  have htexts : ∀ cs : List Component, joinPieces ((cs.map Component.lower).map Component.text) =
      Text.lower (joinPieces (cs.map Component.text)) := by
    intro cs
    rw [← joinPieces_lower, List.map_map, List.map_map]
    congr 2
    funext c
    cases c <;> rfl
  cases cs with
  | nil => rfl
  | cons c cs =>
    have hall := htexts (c :: cs)
    cases c with
    | root =>
      have hslash : Text.lower "/" = "/" := by decide
      simp only [List.map_cons, Component.lower, ofComponents, lower]
      rw [htexts, Text.lower_append, hslash]
    | current | parent | normal name => exact congrArg Path.mk hall

/-- It is all the same whether a path or its normalized place is written with
small letters. -/
theorem normalize_lower (p : Path) : p.lower.normalize = p.normalize.lower := by
  unfold normalize
  rw [components_lower, normalComponents_lower, ofComponents_lower]

theorem fileName?_lower (p : Path) : p.lower.fileName? = p.fileName?.map Text.lower := by
  unfold fileName?
  rw [components_lower, List.getLast?_map]
  cases p.components.getLast? with
  | none => rfl
  | some c => cases c <;> rfl

end Path

end CompileCommands
