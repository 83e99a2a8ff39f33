-- The normal form of paths. A normalized path has no `.`, and has `..` only
-- where it climbs above its start. Nothing is added to the components of a path,
-- nor to its characters, so a path is its own normal form if no component has to
-- go and no character.
import CompileCommands.Proofs.Path.Components
import Mathlib.Data.List.Basic
import Mathlib.Data.List.Induction

namespace CompileCommands.Path

/-! ## Normal components -/

/-- There is no dot, and before a `..` there is nothing but `..`. -/
def IsNormal (components : List Component) : Prop :=
  .current ∉ components ∧
    components.Pairwise fun above below => below = .parent → above = .parent

instance (components : List Component) : Decidable (IsNormal components) :=
  inferInstanceAs (Decidable (_ ∧ _))

/-- The components are in an order that a path can have them in: the root and
the dot stand at the start only. -/
def AreOrdered (components : List Component) : Prop :=
  ∀ c ∈ components.tail, c = .parent ∨ ∃ name, c = .normal name

section Normal

variable {above cs ds : List Component} {c : Component}

theorem IsNormal.sublist (h : IsNormal cs) (hsub : ds.Sublist cs) : IsNormal ds :=
  ⟨fun hdot => h.1 (hsub.subset hdot), h.2.sublist hsub⟩

theorem isNormal_append_normal {name : String} (h : IsNormal cs) :
    IsNormal (cs ++ [.normal name]) := by
  obtain ⟨hdot, hparent⟩ := h
  refine ⟨by simp [hdot], List.pairwise_append.mpr ⟨hparent, List.pairwise_singleton _ _, ?_⟩⟩
  intro a _ b hb hb'
  rw [List.mem_singleton.mp hb] at hb'
  cases hb'

theorem isNormal_append_parent :
    IsNormal (cs ++ [.parent]) ↔ ∀ c ∈ cs, c = .parent := by
  constructor
  · intro h c hc
    exact (List.pairwise_append.mp h.2).2.2 c hc .parent (by simp) rfl
  · intro h
    have hall : ∀ c ∈ cs ++ [.parent], c = .parent := by
      intro c hc
      rcases List.mem_append.mp hc with hc | hc
      · exact h c hc
      · exact List.mem_singleton.mp hc
    refine ⟨fun hdot => ?_, List.pairwise_of_forall_mem_list fun a ha _ _ _ => hall a ha⟩
    cases hall _ hdot

theorem AreOrdered.sublist (h : AreOrdered cs) (hsub : ds.Sublist cs) : AreOrdered ds :=
  fun c hc => h c (hsub.tail.subset hc)

theorem areOrdered_components (p : Path) : AreOrdered p.components :=
  fun _ hc => mem_tail_components hc

/-! ## One component more -/

/-- The components are kept last one first, so the list that is normal is their reverse. -/
theorem isNormal_pushComponent (h : IsNormal above.reverse) (c : Component) :
    IsNormal (pushComponent above c).reverse := by
  cases c with
  | root => exact (by decide : IsNormal [.root])
  | current => exact h
  | normal name =>
    rw [pushComponent, List.reverse_cons]
    exact isNormal_append_normal h
  | parent =>
    cases above with
    | nil => exact (by decide : IsNormal [.parent])
    | cons last above =>
      cases last with
      | root => exact h
      | current => exact absurd (by simp) h.1
      | normal name =>
        refine h.sublist ?_
        rw [List.reverse_cons]
        exact List.sublist_append_left _ _
      | parent =>
        rw [List.reverse_cons, isNormal_append_parent] at h
        rw [pushComponent, List.reverse_cons, List.reverse_cons, isNormal_append_parent]
        · intro c hc
          rcases List.mem_append.mp hc with hc | hc
          · exact h c hc
          · exact List.mem_singleton.mp hc
        · exact nofun
        · exact nofun

theorem pushComponent_sublist (above : List Component) (c : Component) :
    (pushComponent above c).reverse.Sublist (above.reverse ++ [c]) := by
  have hkept : above.reverse.Sublist (above.reverse ++ [c]) := List.sublist_append_left _ _
  have hpushed : (c :: above).reverse.Sublist (above.reverse ++ [c]) := by simp
  cases c with
  | root => exact List.sublist_append_right _ _
  | current => exact hkept
  | normal name => exact hpushed
  | parent =>
    cases above with
    | nil => exact hpushed
    | cons last above =>
      cases last with
      | root => exact hkept
      | normal name =>
        refine List.Sublist.trans ?_ hkept
        rw [List.reverse_cons]
        exact List.sublist_append_left _ _
      | _ => exact hpushed

/-- What stands in a normal list is pushed as it is. -/
theorem pushComponent_eq_cons (h : IsNormal (above.reverse ++ [c]))
    (hroot : c = .root → above = []) : pushComponent above c = c :: above := by
  cases c with
  | root => rw [hroot rfl, pushComponent]
  | current => exact absurd (by simp) h.1
  | normal name => rfl
  | parent =>
    have hparents := isNormal_append_parent.mp h
    cases above with
    | nil => rfl
    | cons last above =>
      obtain rfl : last = .parent := hparents last (by simp)
      rfl

/-! ## All components -/

theorem normalComponents_append (cs : List Component) (c : Component) :
    normalComponents (cs ++ [c]) = (pushComponent (normalComponents cs).reverse c).reverse := by
  unfold normalComponents
  rw [List.foldl_append, List.reverse_reverse]
  rfl

theorem isNormal_normalComponents (cs : List Component) : IsNormal (normalComponents cs) := by
  induction cs using List.reverseRecOn with
  | nil => exact (by decide : IsNormal [])
  | append_singleton cs c ih =>
    rw [normalComponents_append]
    apply isNormal_pushComponent
    rwa [List.reverse_reverse]

theorem normalComponents_sublist (cs : List Component) : (normalComponents cs).Sublist cs := by
  induction cs using List.reverseRecOn with
  | nil => exact List.Sublist.refl []
  | append_singleton cs c ih =>
    rw [normalComponents_append]
    have hstep := pushComponent_sublist (normalComponents cs).reverse c
    rw [List.reverse_reverse] at hstep
    exact hstep.trans (ih.append_right [c])

theorem normalComponents_eq_self (hordered : AreOrdered cs) (h : IsNormal cs) :
    normalComponents cs = cs := by
  induction cs using List.reverseRecOn with
  | nil => rfl
  | append_singleton cs c ih =>
    have hfront : cs.Sublist (cs ++ [c]) := List.sublist_append_left _ _
    have hroot : c = .root → cs = [] := by
      rintro rfl
      cases cs with
      | nil => rfl
      | cons first cs => rcases hordered .root (by simp) with h | ⟨_, h⟩ <;> cases h
    rw [normalComponents_append, ih (hordered.sublist hfront) (h.sublist hfront),
      pushComponent_eq_cons (by simpa using h) (by simpa using hroot)]
    simp

theorem normalComponents_eq_self_iff (hordered : AreOrdered cs) :
    normalComponents cs = cs ↔ IsNormal cs :=
  ⟨fun h => h ▸ isNormal_normalComponents cs, normalComponents_eq_self hordered⟩

end Normal

/-! ## Components as text -/

/-- Components that a path can have: they are ordered, and each name can stand
between two slashes. -/
structure AreWritable (components : List Component) : Prop where
  ordered : AreOrdered components
  names : ∀ name, .normal name ∈ components → IsName name

theorem areWritable_components (p : Path) : AreWritable p.components :=
  ⟨areOrdered_components p, fun _ hname => isName_of_normal hname⟩

section Writable

variable {cs ds : List Component} {c : Component}

theorem AreWritable.sublist (h : AreWritable cs) (hsub : ds.Sublist cs) : AreWritable ds :=
  ⟨h.ordered.sublist hsub, fun name hname => h.names name (hsub.subset hname)⟩

theorem AreWritable.pieces_text (h : AreWritable cs) (hne : cs ≠ []) :
    pieces ⟨joinPieces (cs.map Component.text)⟩ = cs.map Component.text := by
  apply pieces_joinPieces (by simpa using hne)
  intro piece hpiece
  obtain ⟨c, hc, rfl⟩ := List.mem_map.mp hpiece
  cases c with
  | normal name => exact (h.names name hc).plain
  | _ => decide

/-- Names and `..` are read back from their text. -/
theorem AreWritable.ofPieces_text (h : AreWritable cs)
    (hcs : ∀ c ∈ cs, c = .parent ∨ ∃ name, c = .normal name) :
    ofPieces (cs.map Component.text) = cs := by
  have hread : ∀ c ∈ cs, Component.ofPiece c.text = some c := by
    intro c hc
    rcases hcs c hc with rfl | ⟨name, rfl⟩
    · decide
    · exact (h.names name hc).named
  unfold ofPieces
  rw [List.filterMap_map]
  exact (List.filterMap_eq_map_iff_forall_eq_some.mpr hread).trans (List.map_id cs)

theorem AreWritable.ofPieces_tail (h : AreWritable (c :: cs)) :
    ofPieces (cs.map Component.text) = cs :=
  (h.sublist (List.sublist_cons_self c cs)).ofPieces_text h.ordered

theorem AreWritable.components_root (h : AreWritable (.root :: cs)) :
    components ⟨"/" ++ joinPieces (cs.map Component.text)⟩ = .root :: cs := by
  have htext : "/" ++ joinPieces (cs.map Component.text) =
      "" ++ "/" ++ joinPieces (cs.map Component.text) := rfl
  have habsolute : isAbsolute ⟨"" ++ "/" ++ joinPieces (cs.map Component.text)⟩ = true := by
    rw [isAbsolute_append (by decide)]
    decide
  have hpieces : ofPieces (pieces ⟨joinPieces (cs.map Component.text)⟩) = cs := by
    cases cs with
    | nil => decide
    | cons c cs =>
      have htail := h.sublist (List.sublist_cons_self _ _)
      rw [htail.pieces_text (List.cons_ne_nil c cs), h.ofPieces_tail]
  rw [htext, components_eq, habsolute, pieces_slash]
  exact congrArg (.root :: ·) hpieces

theorem AreWritable.components_relative (h : AreWritable cs) (hroot : ∀ rest, cs ≠ .root :: rest) :
    components ⟨joinPieces (cs.map Component.text)⟩ = cs := by
  cases cs with
  | nil => decide
  | cons c cs =>
    have hpieces := h.pieces_text (List.cons_ne_nil c cs)
    have hnamed : ∀ name, c = .normal name → name ≠ "" ∧ name ≠ "." := by
      rintro name rfl
      have hname := (h.names name List.mem_cons_self).named
      constructor <;> rintro rfl <;> cases hname
    have hrelative : isAbsolute ⟨joinPieces ((c :: cs).map Component.text)⟩ = false := by
      rw [Bool.eq_false_iff]
      intro habsolute
      obtain ⟨others, hothers⟩ := pieces_of_isAbsolute habsolute
      rw [hpieces] at hothers
      have hempty : c.text = "" := (List.cons.inj hothers).1
      cases c with
      | root => exact hroot cs rfl
      | normal name => exact (hnamed name rfl).1 hempty
      | _ => exact absurd hempty (by decide)
    rw [components_eq, hrelative, hpieces]
    cases c with
    | root => exact absurd rfl (hroot cs)
    | current => exact congrArg (.current :: ·) h.ofPieces_tail
    | parent => exact congrArg (.parent :: ·) h.ofPieces_tail
    | normal name =>
      have hname := (h.names name List.mem_cons_self).named
      have hdot := (hnamed name rfl).2
      have hall : componentsOf false ((.normal name :: cs).map Component.text) =
          ofPieces (name :: cs.map Component.text) := by simp [componentsOf, Component.text, hdot]
      rw [hall]
      unfold ofPieces
      rw [List.filterMap_cons_some hname]
      exact congrArg (.normal name :: ·) h.ofPieces_tail

/-- Components are read back from the text that they are written as. -/
theorem components_ofComponents (h : AreWritable cs) : (ofComponents cs).components = cs := by
  unfold ofComponents
  split
  · exact h.components_root
  · exact h.components_relative ‹_›

end Writable

theorem components_normalize (p : Path) : p.normalize.components = normalComponents p.components :=
  components_ofComponents ((areWritable_components p).sublist (normalComponents_sublist _))

/-- A path has the components of its normalized place just if they are normal. -/
theorem same_normalize_iff (p : Path) : p.same p.normalize = true ↔ IsNormal p.components := by
  unfold same
  rw [beq_iff_eq, components_normalize, eq_comm]
  exact normalComponents_eq_self_iff (areOrdered_components p)

/-! ## The text of a normalized path -/

theorem joinPieces_cons {piece : String} {ps : List String} (hne : ps ≠ []) :
    joinPieces (piece :: ps) = piece ++ "/" ++ joinPieces ps := by
  obtain ⟨next, ps, rfl⟩ := List.exists_cons_of_ne_nil hne
  exact String.intercalate_cons_cons

theorem exists_joinPieces_cons (ps : List String) :
    ∃ tail, ∀ piece, joinPieces (piece :: ps) = piece ++ tail := by
  by_cases hps : ps = []
  · subst hps
    exact ⟨"", fun piece => by simp [joinPieces]⟩
  · refine ⟨"/" ++ joinPieces ps, fun piece => ?_⟩
    rw [joinPieces_cons hps, String.append_assoc]

/-- The pieces of a path with the slashes between them are its text. -/
theorem joinPieces_pieces (p : Path) : joinPieces p.pieces = p.text := by
  have hchars : ∀ cs : List Char, joinPieces ((Text.pieces (· == '/') cs).map String.ofList) =
      String.ofList cs := by
    intro cs
    induction cs with
    | nil => decide
    | cons c cs ih =>
      have hne := Text.pieces_ne_nil (· == '/') cs
      rw [Text.pieces]
      split
      · rename_i hslash
        rw [List.map_cons, joinPieces_cons (by simpa using hne), ih, beq_iff_eq.mp hslash]
        apply String.toList_inj.mp
        simp
      · obtain ⟨first, rest, hpieces⟩ := List.exists_cons_of_ne_nil hne
        obtain ⟨tail, htail⟩ := exists_joinPieces_cons (rest.map String.ofList)
        rw [hpieces, List.map_cons, htail] at ih
        simp only [hpieces, List.map_cons, htail]
        have hcons : ∀ cs, String.ofList (c :: cs) = String.singleton c ++ String.ofList cs := by
          intro cs
          apply String.toList_inj.mp
          simp
        rw [hcons, hcons, String.append_assoc, ih]
  have htext := hchars p.text.toList
  rwa [String.ofList_toList] at htext

theorem joinPieces_sublist {kept ps : List String} (h : kept.Sublist ps) :
    (joinPieces kept).toList.Sublist (joinPieces ps).toList := by
  induction h with
  | slnil => exact List.Sublist.refl _
  | @cons kept ps piece h ih =>
    refine ih.trans ?_
    by_cases hps : ps = []
    · rw [hps]
      exact List.nil_sublist _
    · rw [joinPieces_cons hps, String.toList_append]
      exact List.sublist_append_right _ _
  | @cons_cons kept ps piece h ih =>
    by_cases hps : ps = []
    · rw [hps] at h ⊢
      rw [List.sublist_nil.mp h]
    · rw [joinPieces_cons hps, String.toList_append, String.toList_append]
      by_cases hkept : kept = []
      · rw [hkept, List.append_assoc]
        exact List.sublist_append_left _ _
      · rw [joinPieces_cons hkept, String.toList_append, String.toList_append]
        exact ih.append_left _

theorem text_of_ofPiece {piece : String} {c : Component}
    (h : Component.ofPiece piece = some c) : c.text = piece := by
  unfold Component.ofPiece at h
  split at h
  · cases h
  · split at h <;> cases h
    · exact Eq.symm ‹_›
    · rfl

theorem text_ofPieces_sublist (ps : List String) :
    ((ofPieces ps).map Component.text).Sublist ps := by
  induction ps with
  | nil => exact List.Sublist.refl []
  | cons piece ps ih =>
    cases hpiece : Component.ofPiece piece with
    | none =>
      have hnone : ofPieces (piece :: ps) = ofPieces ps := List.filterMap_cons_none hpiece
      rw [hnone]
      exact ih.cons piece
    | some c =>
      have hsome : ofPieces (piece :: ps) = c :: ofPieces ps := List.filterMap_cons_some hpiece
      rw [hsome, List.map_cons, text_of_ofPiece hpiece]
      exact ih.cons_cons piece

theorem StartsAs.pieces_eq {p : Path} {start : String} {rest : List String}
    (h : StartsAs p start rest) :
    p.pieces = (startComponents start).map Component.text ++ rest := by
  cases h with
  | root _ hpieces => exact hpieces
  | current _ hpieces => exact hpieces
  | plain => rfl

/-- Each component is written as one of the pieces, in their order. -/
theorem text_components_sublist (p : Path) :
    (p.components.map Component.text).Sublist p.pieces := by
  have hstart := startAndPieces_startsAs p
  rw [hstart.components_eq, hstart.pieces_eq, List.map_append]
  exact (text_ofPieces_sublist _).append_left _

theorem isAbsolute_of_root {p : Path} (h : .root ∈ p.components) : p.isAbsolute = true := by
  have hstart := startAndPieces_startsAs p
  rw [hstart.components_eq] at h
  rcases List.mem_append.mp h with h | h
  · generalize p.startAndPieces = startAndPieces at hstart h
    obtain ⟨start, rest⟩ := startAndPieces
    cases hstart with
    | root habsolute => exact habsolute
    | current => simp [startComponents] at h
    | plain => simp [startComponents] at h
  · rcases mem_ofPieces h with h | ⟨_, _, h⟩ <;> cases h

/-- To leave out components leaves out characters of the text. -/
theorem text_ofComponents_sublist {p : Path} {cs : List Component} (h : cs.Sublist p.components) :
    (ofComponents cs).text.toList.Sublist p.text.toList := by
  have hjoined : (joinPieces (cs.map Component.text)).toList.Sublist p.text.toList := by
    rw [← joinPieces_pieces]
    exact joinPieces_sublist ((h.map Component.text).trans (text_components_sublist p))
  unfold ofComponents
  split
  · rename_i rest
    by_cases hrest : rest = []
    · subst hrest
      have hslash := slash_mem_of_isAbsolute (isAbsolute_of_root (h.subset List.mem_cons_self))
      exact List.singleton_sublist.mpr hslash
    · rw [List.map_cons, joinPieces_cons (by simpa using hrest)] at hjoined
      exact hjoined
  · exact hjoined

theorem text_normalize_sublist (p : Path) : p.normalize.text.toList.Sublist p.text.toList :=
  text_ofComponents_sublist (normalComponents_sublist _)

/-- A path is its own normalized place just if its components are normal and it
is written as they are. -/
theorem normalize_eq_self_iff (p : Path) :
    p.normalize = p ↔ IsNormal p.components ∧ ofComponents p.components = p := by
  constructor
  · intro h
    have hnormal : IsNormal p.components := by
      rw [← same_normalize_iff, h]
      exact beq_self_eq_true _
    refine ⟨hnormal, ?_⟩
    have hcomponents := normalComponents_eq_self (areOrdered_components p) hnormal
    unfold normalize at h
    rwa [hcomponents] at h
  · rintro ⟨hnormal, hwritten⟩
    unfold normalize
    rw [normalComponents_eq_self (areOrdered_components p) hnormal, hwritten]

/-! ## Resolved paths -/

/-- The path leads from the root down to a place by names alone. -/
structure IsResolved (p : Path) : Prop where
  absolute : p.isAbsolute = true
  current : .current ∉ p.components
  parent : .parent ∉ p.components

instance (p : Path) : Decidable p.IsResolved :=
  decidable_of_iff (p.isAbsolute = true ∧ .current ∉ p.components ∧ .parent ∉ p.components)
    ⟨fun ⟨habsolute, hcurrent, hparent⟩ => ⟨habsolute, hcurrent, hparent⟩, fun h =>
      ⟨h.absolute, h.current, h.parent⟩⟩

theorem components_of_isAbsolute {p : Path} (h : p.isAbsolute = true) :
    p.components = .root :: ofPieces p.pieces := by
  unfold components
  rw [if_pos h]

theorem isAbsolute_iff {p : Path} : p.isAbsolute = true ↔ .root ∈ p.components :=
  ⟨fun h => components_of_isAbsolute h ▸ List.mem_cons_self, isAbsolute_of_root⟩

theorem isResolved_iff {p : Path} :
    p.IsResolved ↔ p.isAbsolute = true ∧ IsNormal p.components := by
  constructor
  · rintro ⟨habsolute, hcurrent, hparent⟩
    refine ⟨habsolute, hcurrent, List.pairwise_of_forall_mem_list ?_⟩
    rintro above - below hbelow rfl
    exact absurd hbelow hparent
  · rintro ⟨habsolute, hcurrent, hpairwise⟩
    refine ⟨habsolute, hcurrent, fun hparent => ?_⟩
    rw [components_of_isAbsolute habsolute] at hpairwise hparent
    have hbelow : Component.parent ∈ ofPieces p.pieces := by simpa using hparent
    cases (List.pairwise_cons.mp hpairwise).1 _ hbelow rfl

/-- A resolved path that is not the root itself is shown under a name. -/
theorem IsResolved.displayName_cases {p : Path} (h : p.IsResolved) :
    p.components = [.root] ∨ '/' ∉ p.displayName.toList := by
  have hcomponents := components_of_isAbsolute h.absolute
  rcases List.eq_nil_or_concat (ofPieces p.pieces) with hnil | ⟨front, last, hlast⟩
  · exact .inl (hnil ▸ hcomponents)
  · right
    rw [hlast, List.concat_eq_append] at hcomponents
    have hmem : last ∈ p.components.tail := by
      rw [hcomponents]
      simp
    rcases mem_tail_components hmem with rfl | ⟨name, rfl⟩
    · exact absurd (List.mem_of_mem_tail hmem) h.parent
    · have hname : p.displayName = name := by
        unfold Path.displayName Path.fileName?
        rw [hcomponents, ← List.cons_append, List.getLast?_concat]
        rfl
      exact hname ▸ slash_not_mem_of_normal (List.mem_of_mem_tail hmem)

theorem root_mem_pushComponent {above : List Component} (h : .root ∈ above) (c : Component) :
    .root ∈ pushComponent above c := by
  cases c with
  | current => exact h
  | root => exact List.mem_singleton_self _
  | normal name => exact List.mem_cons_of_mem _ h
  | parent =>
    simp only [pushComponent]
    split
    · simpa using h
    · exact h
    · exact List.mem_cons_of_mem _ h

theorem root_mem_normalComponents_iff {cs : List Component} :
    .root ∈ normalComponents cs ↔ .root ∈ cs := by
  refine ⟨fun h => (normalComponents_sublist cs).subset h, fun h => ?_⟩
  induction cs using List.reverseRecOn with
  | nil => exact h
  | append_singleton cs c ih =>
    rw [normalComponents_append, List.mem_reverse]
    rcases List.mem_append.mp h with h | h
    · exact root_mem_pushComponent (List.mem_reverse.mpr (ih h)) c
    · rw [← List.mem_singleton.mp h]
      exact List.mem_singleton_self _

/-- The normalized place of a path is resolved just if the path is absolute. -/
theorem isResolved_normalize_iff {p : Path} : p.normalize.IsResolved ↔ p.isAbsolute = true := by
  have hnormal : IsNormal p.normalize.components := by
    rw [components_normalize]
    exact isNormal_normalComponents _
  rw [isResolved_iff, and_iff_left hnormal, isAbsolute_iff, components_normalize,
    root_mem_normalComponents_iff, isAbsolute_iff]

/-! ## The characters of the names -/

theorem mem_text_of_normal {p : Path} {name : String} (h : .normal name ∈ p.components) {c : Char}
    (hc : c ∈ name.toList) : c ∈ p.text.toList := by
  have hpiece : name ∈ p.pieces :=
    (text_components_sublist p).subset (List.mem_map_of_mem (f := Component.text) h)
  have hjoined := joinPieces_sublist (List.singleton_sublist.mpr hpiece)
  rw [joinPieces_pieces] at hjoined
  have hname : joinPieces [name] = name := by simp [joinPieces]
  rw [hname] at hjoined
  exact hjoined.subset hc

theorem exists_piece_of_mem {ps : List String} {c : Char} (hc : c ≠ '/')
    (h : c ∈ (joinPieces ps).toList) : ∃ piece ∈ ps, c ∈ piece.toList := by
  induction ps with
  | nil => cases h
  | cons piece ps ih =>
    by_cases hps : ps = []
    · subst hps
      exact ⟨piece, List.mem_cons_self, by simpa [joinPieces] using h⟩
    · rw [joinPieces_cons hps] at h
      simp only [String.toList_append, List.mem_append] at h
      rcases h with (h | h) | h
      · exact ⟨piece, List.mem_cons_self, h⟩
      · exact absurd (by simpa using h) hc
      · obtain ⟨found, hfound, hmem⟩ := ih h
        exact ⟨found, List.mem_cons_of_mem piece hfound, hmem⟩

/-- All characters but slashes and dots stand in the names of a path. -/
theorem exists_normal_of_mem {p : Path} {c : Char} (hslash : c ≠ '/') (hdot : c ≠ '.')
    (h : c ∈ p.text.toList) : ∃ name, .normal name ∈ p.components ∧ c ∈ name.toList := by
  rw [← joinPieces_pieces] at h
  obtain ⟨piece, hpiece, hc⟩ := exists_piece_of_mem hslash h
  have hfixed : ∀ text : String, c ∉ text.toList → piece ≠ text := by
    rintro text htext rfl
    exact htext hc
  have hempty := hfixed "" (by simp)
  have hcurrent := hfixed "." (by simp [hdot])
  have hparent := hfixed ".." (by simp [hdot])
  have hnormal : Component.ofPiece piece = some (.normal piece) := by
    simp [Component.ofPiece, hempty, hcurrent, hparent]
  have hstart := startAndPieces_startsAs p
  rw [hstart.pieces_eq] at hpiece
  refine ⟨piece, ?_, hc⟩
  rw [hstart.components_eq]
  apply List.mem_append_right
  apply List.mem_filterMap.mpr
  refine ⟨piece, (List.mem_append.mp hpiece).resolve_left ?_, hnormal⟩
  unfold startComponents
  split
  · simpa [Component.text] using hempty
  · split
    · simpa [Component.text] using hcurrent
    · simp

end CompileCommands.Path
