-- Normalized paths. A path that is seen from a directory has the components
-- of the directory and then its own ones, so its normalized place does not
-- depend on how the directory is spelled.
import CompileCommands.Path.Normal

namespace CompileCommands

/-! ## Pieces -/

theorem Text.pieces_append {isMark : Char → Bool} {mark : Char} (hmark : isMark mark = true)
    (front back : List Char) :
    pieces isMark (front ++ mark :: back) = pieces isMark front ++ pieces isMark back := by
  induction front with
  | nil => simp [pieces, hmark]
  | cons c front ih =>
    rw [List.cons_append, pieces, ih, pieces]
    split
    · rfl
    · cases hfront : pieces isMark front with
      | nil => exact absurd hfront (pieces_ne_nil isMark front)
      | cons p ps => rfl

namespace Path

theorem pieces_ne_nil (p : Path) : p.pieces ≠ [] := by
  unfold pieces
  rw [Ne, List.map_eq_nil_iff]
  exact Text.pieces_ne_nil _ _

theorem pieces_slash (front back : String) :
    pieces ⟨front ++ "/" ++ back⟩ = pieces ⟨front⟩ ++ pieces ⟨back⟩ := by
  have hchars : (front ++ "/" ++ back).toList = front.toList ++ '/' :: back.toList := by simp
  unfold pieces
  rw [hchars, Text.pieces_append (by decide), List.map_append]

/-! ## Components -/

/-- The components of the pieces of a path. -/
def componentsOf (absolute : Bool) (pieces : List String) : List Component :=
  if absolute then .root :: ofPieces pieces
  else match pieces with
    | "." :: rest => .current :: ofPieces rest
    | pieces => ofPieces pieces

theorem components_eq (p : Path) : p.components = componentsOf p.isAbsolute p.pieces := rfl

theorem componentsOf_append (absolute : Bool) {front : List String} (hfront : front ≠ [])
    (back : List String) :
    componentsOf absolute (front ++ back) = componentsOf absolute front ++ ofPieces back := by
  have hpieces : ∀ front : List String, ofPieces (front ++ back) =
      ofPieces front ++ ofPieces back := fun front => List.filterMap_append
  cases front with
  | nil => exact absurd rfl hfront
  | cons piece front =>
    cases absolute with
    | true => exact congrArg (.root :: ·) (hpieces (piece :: front))
    | false =>
      by_cases hdot : piece = "."
      · subst hdot
        exact congrArg (.current :: ·) (hpieces front)
      · have hplain : ∀ more, componentsOf false (piece :: more) = ofPieces (piece :: more) := by
          intro more
          simp [componentsOf, hdot]
        rw [List.cons_append, hplain, hplain, ← List.cons_append, hpieces]

theorem isAbsolute_append {front : String} (hfront : front ≠ "") (back : String) :
    isAbsolute ⟨front ++ back⟩ = isAbsolute ⟨front⟩ := by
  have hchars : front.toList ≠ [] := fun h => hfront (String.toList_eq_nil_iff.mp h)
  unfold isAbsolute Text.startsWith
  rw [String.toList_append]
  cases hlist : front.toList with
  | nil => exact absurd hlist hchars
  | cons c rest => simp [List.isPrefixOf]

/-- A text that ends with a slash is a text and a slash. -/
theorem exists_of_endsWith_slash {text : String} (h : Text.endsWith text "/" = true) :
    ∃ front : String, text = front ++ "/" := by
  unfold Text.endsWith at h
  obtain ⟨front, hfront⟩ := List.isSuffixOf_iff_suffix.mp h
  refine ⟨String.ofList front, String.toList_inj.mp ?_⟩
  simp [← hfront]

/-- A relative path is seen from a directory by its components behind those
of the directory. -/
theorem components_join {base p : Path} (hp : p.isAbsolute = false) (hbase : base.text ≠ "") :
    (base.join p).components = base.components ++ ofPieces p.pieces := by
  obtain ⟨text⟩ := base
  obtain ⟨rest⟩ := p
  unfold join
  simp only [hp, Bool.false_eq_true, if_false, hbase, false_or]
  split
  · rename_i hslash
    obtain ⟨front, rfl⟩ := exists_of_endsWith_slash hslash
    have hfront := pieces_slash front ""
    rw [String.append_empty] at hfront
    have hempty : ofPieces (pieces ⟨""⟩) = [] := rfl
    rw [components_eq, components_eq, isAbsolute_append hbase, pieces_slash, hfront,
      componentsOf_append _ (pieces_ne_nil _), componentsOf_append _ (pieces_ne_nil _), hempty,
      List.append_nil]
  · rw [components_eq, components_eq, String.append_assoc, isAbsolute_append hbase,
      ← String.append_assoc, pieces_slash, componentsOf_append _ (pieces_ne_nil _)]

theorem isAbsolute_join (base p : Path) :
    (base.join p).isAbsolute = (p.isAbsolute || base.isAbsolute) := by
  obtain ⟨text⟩ := base
  unfold join
  cases hp : p.isAbsolute with
  | true => simp [hp]
  | false =>
    have hempty : isAbsolute ⟨""⟩ = false := by decide
    by_cases hbase : text = ""
    · simp [hbase, hp, hempty]
    · simp only [Bool.false_eq_true, if_false, hbase, false_or, Bool.false_or]
      split
      · exact isAbsolute_append hbase _
      · rw [String.append_assoc]
        exact isAbsolute_append hbase _

/-! ## Normalized places -/

/-- A dot at the start of a path counts for nothing. -/
theorem foldl_componentsOf (above : List Component) (pieces : List String) :
    (componentsOf false pieces).foldl pushComponent above =
      (ofPieces pieces).foldl pushComponent above := by
  unfold componentsOf
  simp only [Bool.false_eq_true, if_false]
  split
  · rfl
  · rfl

theorem normalComponents_componentsOf (pieces : List String) :
    normalComponents (componentsOf false pieces) = normalComponents (ofPieces pieces) :=
  congrArg List.reverse (foldl_componentsOf [] pieces)

theorem normalComponents_join {base p : Path} (hp : p.isAbsolute = false) :
    normalComponents (base.join p).components =
      normalComponents (base.components ++ ofPieces p.pieces) := by
  by_cases hbase : base.text = ""
  · obtain ⟨text⟩ := base
    subst hbase
    have hjoin : join ⟨""⟩ p = p := by
      unfold join
      simp [hp]
    have hnone : components ⟨""⟩ = [] := rfl
    rw [hjoin, hnone, List.nil_append, components_eq, hp, normalComponents_componentsOf]
  · rw [components_join hp hbase]

/-- How a directory is spelled does not count for what is seen from it. -/
theorem absolutize_of_same {base base' : Path} (h : base.same base' = true) (p : Path) :
    p.absolutize base = p.absolutize base' := by
  have hcomponents : base.components = base'.components := beq_iff_eq.mp h
  unfold absolutize
  cases hp : p.isAbsolute with
  | true => rfl
  | false =>
    simp only [Bool.false_eq_true, if_false]
    unfold normalize
    rw [normalComponents_join hp, normalComponents_join hp, hcomponents]

end Path

end CompileCommands
