-- Paths by their components. A path below a directory has the components of
-- the directory and then the names that lead to it. The parent of a path has
-- all components but the last one.
import CompileCommands.Proofs.Path.Normal

namespace CompileCommands

/-! ## Pieces -/

theorem Text.isMark_of_mem_pieces {isMark : Char → Bool} {cs piece : List Char} {c : Char}
    (h : piece ∈ pieces isMark cs) (hc : c ∈ piece) : isMark c = false := by
  induction cs generalizing piece with
  | nil =>
    rw [pieces, List.mem_singleton] at h
    rw [h] at hc
    cases hc
  | cons d cs ih =>
    rw [pieces] at h
    split at h
    · rcases List.mem_cons.mp h with rfl | h
      · cases hc
      · exact ih h hc
    · rename_i hd
      split at h
      · rename_i hnil
        exact absurd hnil (pieces_ne_nil isMark cs)
      · rename_i p ps hpieces
        rw [hpieces] at ih
        rcases List.mem_cons.mp h with rfl | h
        · rcases List.mem_cons.mp hc with rfl | hc
          · exact Bool.eq_false_iff.mpr hd
          · exact ih List.mem_cons_self hc
        · exact ih (List.mem_cons_of_mem p h) hc

theorem Text.pieces_eq_singleton {isMark : Char → Bool} {cs : List Char}
    (h : ∀ c ∈ cs, isMark c = false) : pieces isMark cs = [cs] := by
  induction cs with
  | nil => rfl
  | cons c cs ih =>
    have hc : isMark c = false := h c List.mem_cons_self
    have hcs := ih fun d hd => h d (List.mem_cons_of_mem c hd)
    simp [pieces, hc, hcs]

theorem Component.exists_name {c : Component} (h : c.name?.isSome = true) :
    ∃ name, c = .normal name := by
  cases c with
  | normal name => exact ⟨name, rfl⟩
  | _ => cases h

namespace Path

theorem slash_not_mem_of_mem_pieces {p : Path} {piece : String} (h : piece ∈ p.pieces) :
    '/' ∉ piece.toList := by
  obtain ⟨cs, hcs, rfl⟩ := List.mem_map.mp h
  rw [String.toList_ofList]
  intro hslash
  have hmark := Text.isMark_of_mem_pieces hcs hslash
  cases hmark

theorem pieces_of_piece {piece : String} (h : '/' ∉ piece.toList) : pieces ⟨piece⟩ = [piece] := by
  have hplain : ∀ c ∈ piece.toList, (c == '/') = false := by
    intro c hc
    rw [beq_eq_false_iff_ne]
    rintro rfl
    exact h hc
  unfold pieces
  rw [Text.pieces_eq_singleton hplain]
  simp

theorem pieces_joinPieces {ps : List String} (hne : ps ≠ [])
    (h : ∀ piece ∈ ps, '/' ∉ piece.toList) : pieces ⟨joinPieces ps⟩ = ps := by
  unfold joinPieces
  induction ps with
  | nil => exact absurd rfl hne
  | cons piece ps ih =>
    have hpiece := pieces_of_piece (h piece List.mem_cons_self)
    cases ps with
    | nil => simpa using hpiece
    | cons next ps =>
      rw [String.intercalate_cons_cons, pieces_slash, hpiece,
        ih (List.cons_ne_nil next ps) fun p hp => h p (List.mem_cons_of_mem piece hp)]
      rfl

theorem pieces_of_isAbsolute {p : Path} (h : p.isAbsolute = true) :
    ∃ rest, p.pieces = "" :: rest := by
  unfold isAbsolute Text.startsWith at h
  obtain ⟨rest, hrest⟩ := List.isPrefixOf_iff_prefix.mp h
  refine ⟨(Text.pieces (· == '/') rest).map String.ofList, ?_⟩
  unfold pieces
  rw [← hrest]
  rfl

theorem text_of_pieces {p : Path} (h : p.isAbsolute = false) {rest : List String}
    (hpieces : p.pieces = "" :: rest) : p.text = "" := by
  cases hchars : p.text.toList with
  | nil => exact String.toList_eq_nil_iff.mp hchars
  | cons c cs =>
    exfalso
    unfold isAbsolute Text.startsWith at h
    rw [hchars] at h
    have hslash : (c == '/') = false := by
      cases hc : c == '/' with
      | false => rfl
      | true =>
        rw [beq_iff_eq.mp hc] at h
        cases h
    unfold pieces at hpieces
    rw [hchars, Text.pieces, hslash] at hpieces
    simp only [Bool.false_eq_true, if_false] at hpieces
    split at hpieces <;> simp at hpieces

/-! ## Components -/

theorem isEmptyPiece_iff {piece : String} :
    isEmptyPiece piece = true ↔ Component.ofPiece piece = none := by
  unfold isEmptyPiece Component.ofPiece
  rw [Bool.or_eq_true, beq_iff_eq, beq_iff_eq]
  split
  · simp [*]
  · split <;> simp [*]

theorem mem_ofPieces {c : Component} {ps : List String} (h : c ∈ ofPieces ps) :
    c = .parent ∨ ∃ name ∈ ps, c = .normal name := by
  obtain ⟨piece, hpiece, hc⟩ := List.mem_filterMap.mp h
  unfold Component.ofPiece at hc
  split at hc
  · cases hc
  · split at hc <;> cases hc
    · exact .inl rfl
    · exact .inr ⟨piece, hpiece, rfl⟩

theorem ofPieces_dropWhile (ps : List String) :
    ofPieces (ps.dropWhile isEmptyPiece) = ofPieces ps := by
  induction ps with
  | nil => rfl
  | cons piece ps ih =>
    by_cases hempty : isEmptyPiece piece = true
    · rw [List.dropWhile_cons_of_pos hempty, ih]
      exact (List.filterMap_cons_none (isEmptyPiece_iff.mp hempty)).symm
    · rw [List.dropWhile_cons_of_neg hempty]

/-- The components that the start of a path stands for. -/
def startComponents (start : String) : List Component :=
  if start = "/" then [.root] else if start = "." then [.current] else []

/-- A path as its start and the pieces after it. -/
inductive StartsAs (p : Path) : String → List String → Prop
  | root {rest : List String} : p.isAbsolute = true → p.pieces = "" :: rest → StartsAs p "/" rest
  | current {rest : List String} :
      p.isAbsolute = false → p.pieces = "." :: rest → StartsAs p "." rest
  | plain : p.isAbsolute = false → (∀ rest, p.pieces ≠ "." :: rest) → StartsAs p "" p.pieces

theorem startAndPieces_startsAs (p : Path) :
    StartsAs p p.startAndPieces.1 p.startAndPieces.2 := by
  unfold startAndPieces
  cases habsolute : p.isAbsolute with
  | true =>
    obtain ⟨rest, hrest⟩ := pieces_of_isAbsolute habsolute
    simp only [if_true, hrest, List.drop_succ_cons, List.drop_zero]
    exact .root habsolute hrest
  | false =>
    simp only [Bool.false_eq_true, if_false]
    split
    · exact .current habsolute ‹_›
    · exact .plain habsolute ‹_›

section StartsAs

variable {p : Path} {start : String} {rest : List String}

theorem StartsAs.components_eq (h : StartsAs p start rest) :
    p.components = startComponents start ++ ofPieces rest := by
  rw [Path.components_eq]
  unfold componentsOf
  cases h with
  | root habsolute hpieces =>
    rw [habsolute, hpieces]
    rfl
  | current habsolute hpieces =>
    rw [habsolute, hpieces]
    rfl
  | plain habsolute hpieces =>
    rw [habsolute]
    cases hlist : p.pieces with
    | nil => rfl
    | cons piece rest =>
      have hdot : piece ≠ "." := by
        rintro rfl
        exact hpieces rest hlist
      simp [hdot, startComponents]

theorem StartsAs.slash_not_mem (h : StartsAs p start rest) {piece : String}
    (hpiece : piece ∈ rest) : '/' ∉ piece.toList := by
  apply slash_not_mem_of_mem_pieces (p := p)
  cases h with
  | root _ hpieces => rw [hpieces]; exact List.mem_cons_of_mem "" hpiece
  | current _ hpieces => rw [hpieces]; exact List.mem_cons_of_mem "." hpiece
  | plain => exact hpiece

/-- The text of a start and of some pieces of a path has their components. -/
theorem StartsAs.components_ofStart (h : StartsAs p start rest) {kept : List String}
    (hkept : kept <+: rest) (hne : kept ≠ []) :
    components ⟨(if start = "." then "./" else start) ++ joinPieces kept⟩ =
      startComponents start ++ ofPieces kept := by
  have hjoin : pieces ⟨joinPieces kept⟩ = kept :=
    pieces_joinPieces hne fun piece hpiece => h.slash_not_mem (hkept.subset hpiece)
  cases h with
  | root =>
    have htext : (if "/" = "." then "./" else "/") ++ joinPieces kept =
        "" ++ "/" ++ joinPieces kept := rfl
    have hempty : pieces ⟨""⟩ = [""] := rfl
    have habsolute : isAbsolute ⟨"" ++ "/" ++ joinPieces kept⟩ = true := by
      rw [isAbsolute_append (by decide)]
      decide
    rw [htext, Path.components_eq, habsolute, pieces_slash, hjoin, hempty]
    rfl
  | current =>
    have htext : (if "." = "." then "./" else ".") ++ joinPieces kept =
        "." ++ "/" ++ joinPieces kept := rfl
    have hdot : pieces ⟨"."⟩ = ["."] := by decide
    have habsolute : isAbsolute ⟨"." ++ "/" ++ joinPieces kept⟩ = false := by
      rw [isAbsolute_append (by decide)]
      decide
    rw [htext, Path.components_eq, habsolute, pieces_slash, hjoin, hdot]
    rfl
  | plain habsolute hdot =>
    have htext : (if "" = "." then "./" else "") ++ joinPieces kept = joinPieces kept :=
      String.empty_append
    obtain ⟨first, more, rfl⟩ := List.exists_cons_of_ne_nil hne
    obtain ⟨tail, htail⟩ := hkept
    have hrelative : isAbsolute ⟨joinPieces (first :: more)⟩ = false := by
      rw [Bool.eq_false_iff]
      intro hroot
      obtain ⟨others, hothers⟩ := pieces_of_isAbsolute hroot
      rw [hjoin] at hothers
      obtain ⟨rfl, rfl⟩ := List.cons.inj hothers
      have hempty : p = ⟨""⟩ := congrArg Path.mk (text_of_pieces habsolute htail.symm)
      rw [hempty] at htail
      have hmore : more = [] := (List.append_eq_nil_iff.mp (List.cons.inj htail).2).1
      rw [hmore] at hroot
      exact absurd hroot (by decide)
    have hfirst : first ≠ "." := by
      rintro rfl
      exact hdot _ htail.symm
    rw [htext, Path.components_eq, hrelative, hjoin]
    simp [componentsOf, hfirst, startComponents]

end StartsAs

/-! ## Parents -/

theorem ofPieces_trim (ps : List String) :
    ofPieces (ps.dropWhile isEmptyPiece).reverse = ofPieces ps.reverse := by
  have hdrop := ofPieces_dropWhile ps
  unfold ofPieces at hdrop ⊢
  rw [List.filterMap_reverse, List.filterMap_reverse, hdrop]

theorem normal_not_mem_startComponents (start name : String) :
    Component.normal name ∉ startComponents start := by
  unfold startComponents
  split
  · simp
  · split <;> simp

/-- The last component is that of the last piece that stands for one. -/
theorem ofPieces_of_last {ps above : List String} {last : String}
    (hends : ps.reverse.dropWhile isEmptyPiece = last :: above) :
    ∃ c, ofPieces ps = ofPieces above.reverse ++ [c] := by
  have hlast : isEmptyPiece last = false := by
    have hne : ps.reverse.dropWhile isEmptyPiece ≠ [] := by simp [hends]
    have hhead := List.head_dropWhile_not isEmptyPiece hne
    simpa [hends] using hhead
  have htrim := ofPieces_trim ps.reverse
  rw [List.reverse_reverse, hends, List.reverse_cons] at htrim
  cases hpiece : Component.ofPiece last with
  | none => exact absurd (isEmptyPiece_iff.mpr hpiece) (by simp [hlast])
  | some c =>
    refine ⟨c, ?_⟩
    rw [← htrim]
    simp [ofPieces, hpiece]

theorem ofPieces_of_no_last {ps : List String} (hends : ps.reverse.dropWhile isEmptyPiece = []) :
    ofPieces ps = [] := by
  have htrim := ofPieces_trim ps.reverse
  rw [List.reverse_reverse, hends] at htrim
  exact htrim.symm

theorem exists_last_piece {ps : List String} {cs : List Component} {c : Component}
    (h : ofPieces ps = cs ++ [c]) :
    ∃ last above,
      ps.reverse.dropWhile isEmptyPiece = last :: above ∧ ofPieces above.reverse = cs := by
  cases hends : ps.reverse.dropWhile isEmptyPiece with
  | nil =>
    rw [ofPieces_of_no_last hends] at h
    simp at h
  | cons last above =>
    obtain ⟨d, hd⟩ := ofPieces_of_last hends
    exact ⟨last, above, rfl, List.append_inj_left' (hd.symm.trans h) rfl⟩

theorem trimmed_isPrefix {ps above : List String} {last : String}
    (h : ps.reverse.dropWhile isEmptyPiece = last :: above) :
    (above.dropWhile isEmptyPiece).reverse <+: ps := by
  have hdropped : last :: above <:+ ps.reverse := h ▸ List.dropWhile_suffix isEmptyPiece
  have habove : above.dropWhile isEmptyPiece <:+ last :: above :=
    (List.dropWhile_suffix isEmptyPiece).trans (List.suffix_cons last above)
  rw [← List.reverse_suffix, List.reverse_reverse]
  exact habove.trans hdropped

theorem exists_parent {p : Path} {last : String} {above : List String}
    (hends : p.startAndPieces.2.reverse.dropWhile isEmptyPiece = last :: above) :
    ∃ q, p.parent? = some q ∧
      q.components = startComponents p.startAndPieces.1 ++ ofPieces above.reverse := by
  have hstart := startAndPieces_startsAs p
  unfold parent?
  generalize p.startAndPieces = startAndPieces at hstart hends ⊢
  obtain ⟨start, ps⟩ := startAndPieces
  have hkept := trimmed_isPrefix hends
  have htrimmed := ofPieces_trim above
  simp only [hends]
  cases hlist : (above.dropWhile isEmptyPiece).reverse with
  | nil =>
    rw [hlist] at htrimmed
    refine ⟨⟨start⟩, rfl, ?_⟩
    rw [← htrimmed]
    cases hstart <;> decide
  | cons first more =>
    rw [hlist] at htrimmed hkept
    have hcomponents := hstart.components_ofStart hkept (List.cons_ne_nil first more)
    exact ⟨_, rfl, htrimmed ▸ hcomponents⟩

/-- The parent of a path that ends in a name has the other components. -/
theorem parent?_of_components {p : Path} {cs : List Component} {name : String}
    (h : p.components = cs ++ [.normal name]) : ∃ q, p.parent? = some q ∧ q.components = cs := by
  have hall : cs ++ [.normal name] =
      startComponents p.startAndPieces.1 ++ ofPieces p.startAndPieces.2 :=
    h.symm.trans (startAndPieces_startsAs p).components_eq
  -- The name is no start, so it is one of the pieces.
  have hpieces : ∃ others, ofPieces p.startAndPieces.2 = others ++ [.normal name] ∧
      cs = startComponents p.startAndPieces.1 ++ others := by
    rcases List.eq_nil_or_concat (ofPieces p.startAndPieces.2) with hnil | ⟨others, c, hconcat⟩
    · exfalso
      rw [hnil, List.append_nil] at hall
      exact normal_not_mem_startComponents _ name (hall ▸ List.mem_append_right cs (by simp))
    · rw [hconcat, List.concat_eq_append, ← List.append_assoc] at hall
      obtain ⟨hcs, hc⟩ := List.append_inj' hall rfl
      exact ⟨others, by rw [hconcat, List.concat_eq_append, hc], hcs⟩
  obtain ⟨others, hothers, rfl⟩ := hpieces
  obtain ⟨last, above, hends, rfl⟩ := exists_last_piece hothers
  exact exists_parent hends

/-- A parent has all components but the last one. -/
theorem components_of_parent? {p q : Path} (h : p.parent? = some q) :
    p.components ≠ [] ∧ q.components = p.components.dropLast := by
  have hcomponents := (startAndPieces_startsAs p).components_eq
  cases hends : p.startAndPieces.2.reverse.dropWhile isEmptyPiece with
  | nil =>
    rw [ofPieces_of_no_last hends, List.append_nil] at hcomponents
    unfold parent? at h
    simp only [hends] at h
    split at h
    · rename_i hdot
      cases h
      rw [hcomponents, hdot]
      decide
    · cases h
  | cons last above =>
    obtain ⟨r, hr, hparent⟩ := exists_parent hends
    obtain rfl := Option.some.inj (hr.symm.trans h)
    obtain ⟨c, hc⟩ := ofPieces_of_last hends
    rw [hcomponents, hc, hparent, ← List.append_assoc, List.dropLast_concat]
    exact ⟨by simp, rfl⟩

/-! ## Names below a directory -/

theorem components_of_fileName? {p : Path} {name : String} (h : p.fileName? = some name) :
    p.components = p.components.dropLast ++ [.normal name] := by
  obtain ⟨c, hlast, hc⟩ := Option.bind_eq_some_iff.mp h
  cases c <;> cases hc
  obtain ⟨above, habove⟩ := List.getLast?_eq_some_iff.mp hlast
  rw [habove, List.dropLast_concat]

theorem components_ne_nil {p : Path} (h : p.text ≠ "") : p.components ≠ [] := by
  rw [components_eq]
  unfold componentsOf
  cases habsolute : p.isAbsolute with
  | true => simp
  | false =>
    simp only [Bool.false_eq_true, if_false]
    obtain ⟨piece, rest, hlist⟩ := List.exists_cons_of_ne_nil (pieces_ne_nil p)
    rw [hlist]
    have hpiece : piece ≠ "" := by
      rintro rfl
      exact h (text_of_pieces habsolute hlist)
    by_cases hdot : piece = "."
    · simp [hdot]
    · by_cases hup : piece = ".." <;> simp [hdot, hup, hpiece, ofPieces, Component.ofPiece]

theorem text_ne_empty {p : Path} (h : p.components ≠ []) : p.text ≠ "" := by
  intro htext
  have hempty : p = ⟨""⟩ := congrArg Path.mk htext
  rw [hempty] at h
  exact h rfl

theorem slash_not_mem_of_normal {p : Path} {name : String} (h : .normal name ∈ p.components) :
    '/' ∉ name.toList := by
  have hstart := startAndPieces_startsAs p
  rw [hstart.components_eq] at h
  rcases List.mem_append.mp h with h | h
  · exact absurd h (normal_not_mem_startComponents _ name)
  · rcases mem_ofPieces h with h | ⟨piece, hpiece, h⟩ <;> cases h
    exact hstart.slash_not_mem hpiece

/-- Behind the first component of a path there are names and `..` only. -/
theorem mem_tail_components {p : Path} {c : Component} (h : c ∈ p.components.tail) :
    c = .parent ∨ ∃ name, c = .normal name := by
  rw [(startAndPieces_startsAs p).components_eq] at h
  have hpieces : c ∈ ofPieces p.startAndPieces.2 := by
    unfold startComponents at h
    split at h
    · exact h
    · split at h
      · exact h
      · exact List.mem_of_mem_tail h
  rcases mem_ofPieces hpieces with rfl | ⟨name, -, rfl⟩
  · exact .inl rfl
  · exact .inr ⟨name, rfl⟩

theorem displayName_cases (p : Path) : '/' ∉ p.displayName.toList ∨ p.displayName = p.text := by
  unfold displayName
  cases hname : p.fileName? with
  | none => exact .inr rfl
  | some name =>
    left
    obtain ⟨c, hlast, hc⟩ := Option.bind_eq_some_iff.mp hname
    cases c <;> cases hc
    exact slash_not_mem_of_normal (List.mem_of_getLast? hlast)

theorem slash_mem_of_isAbsolute {p : Path} (h : p.isAbsolute = true) : '/' ∈ p.text.toList := by
  unfold isAbsolute Text.startsWith at h
  exact (List.isPrefixOf_iff_prefix.mp h).subset (by simp)

theorem same_symm {p q : Path} (h : p.same q = true) : q.same p = true := by
  unfold same at h ⊢
  rw [beq_iff_eq.mp h, beq_self_eq_true]

theorem same_trans {p q r : Path} (h : p.same q = true) (h' : q.same r = true) :
    p.same r = true := by
  unfold same at h h' ⊢
  rw [beq_iff_eq.mp h, h']

/-- The names lead from a directory to a path. -/
def Leads (dir : Path) (names : List String) (p : Path) : Prop :=
  p.components = dir.components ++ names.map .normal

theorem isBelow_iff {p dir : Path} : p.isBelow dir = true ↔
    dir.text ≠ "" ∧ ∃ rest, rest ≠ [] ∧ p.components = dir.components ++ rest := by
  unfold isBelow same startsWith
  simp only [Bool.and_eq_true, bne_iff_ne, ne_eq, Bool.not_eq_true', beq_eq_false_iff_ne,
    List.isPrefixOf_iff_prefix]
  constructor
  · rintro ⟨⟨htext, hne⟩, rest, hrest⟩
    refine ⟨htext, rest, ?_, hrest.symm⟩
    rintro rfl
    exact hne (by rw [← hrest, List.append_nil])
  · rintro ⟨htext, rest, hrest, hp⟩
    refine ⟨⟨htext, ?_⟩, rest, hp.symm⟩
    intro heq
    rw [heq] at hp
    exact hrest (List.append_right_eq_self.mp hp.symm)

theorem isBelow_of_same {p dir dir' : Path} (h : dir.same dir' = true) (hp : p.isBelow dir = true) :
    p.isBelow dir' = true := by
  obtain ⟨htext, rest, hne, hcomponents⟩ := isBelow_iff.mp hp
  have hdir : dir.components = dir'.components := beq_iff_eq.mp h
  refine isBelow_iff.mpr ⟨?_, rest, hne, hdir ▸ hcomponents⟩
  apply text_ne_empty
  rw [← hdir]
  exact components_ne_nil htext

theorem isBelow_congr {p q : Path} (h : p.same q = true) (dir : Path) :
    p.isBelow dir = q.isBelow dir := by
  have hcomponents : p.components = q.components := beq_iff_eq.mp h
  unfold isBelow same startsWith
  rw [hcomponents]

theorem exists_names {rest : List Component} (h : ∀ c ∈ rest, ∃ name, c = .normal name) :
    ∃ names : List String, rest = names.map .normal := by
  induction rest with
  | nil => exact ⟨[], rfl⟩
  | cons c rest ih =>
    obtain ⟨name, rfl⟩ := h c List.mem_cons_self
    obtain ⟨names, rfl⟩ := ih fun d hd => h d (List.mem_cons_of_mem _ hd)
    exact ⟨name :: names, rfl⟩

/-- If a path lies in a directory, it goes on from there with names only. -/
def IsNamedFrom (p dir : Path) : Prop :=
  p.startsWith dir = true → ∀ c ∈ p.components.drop dir.components.length, c.name?.isSome = true

instance (p dir : Path) : Decidable (p.IsNamedFrom dir) :=
  inferInstanceAs (Decidable (_ → _))

theorem IsNamedFrom.exists_leads {p dir : Path} (h : p.IsNamedFrom dir)
    (hstarts : p.startsWith dir = true) : ∃ names, dir.Leads names p := by
  obtain ⟨rest, hp⟩ := List.isPrefixOf_iff_prefix.mp hstarts
  have hrest := h hstarts
  rw [← hp, List.drop_left] at hrest
  obtain ⟨names, rfl⟩ := exists_names fun c hc => Component.exists_name (hrest c hc)
  exact ⟨names, hp.symm⟩

/-- Names lead to a path from a directory that it is below, if nothing but names
stands behind the directory. -/
theorem exists_leads_of_names {p dir : Path} (hbelow : p.isBelow dir = true)
    (hnames : ∀ c ∈ p.components.drop dir.components.length, ∃ name, c = .normal name) :
    ∃ names name, dir.Leads (names ++ [name]) p := by
  obtain ⟨-, rest, hne, hp⟩ := isBelow_iff.mp hbelow
  rw [hp, List.drop_left] at hnames
  obtain ⟨names, rfl⟩ := exists_names hnames
  have hsome : names ≠ [] := by
    rintro rfl
    exact hne rfl
  refine ⟨names.dropLast, names.getLast hsome, ?_⟩
  rw [List.dropLast_concat_getLast]
  exact hp

/-- Names lead to a path without `..` from each directory that it is below. -/
theorem exists_leads {p dir : Path} (hbelow : p.isBelow dir = true)
    (hparent : .parent ∉ p.components) : ∃ names name, dir.Leads (names ++ [name]) p := by
  refine exists_leads_of_names hbelow fun c hc => ?_
  have htail : c ∈ p.components.tail := by
    obtain ⟨first, more, hdir⟩ :=
      List.exists_cons_of_ne_nil (components_ne_nil (isBelow_iff.mp hbelow).1)
    rw [hdir, List.length_cons, Nat.add_comm, ← List.drop_drop, List.drop_one] at hc
    exact List.mem_of_mem_drop hc
  rcases mem_tail_components htail with rfl | h
  · exact absurd (List.mem_of_mem_tail htail) hparent
  · exact h

section Leads

variable {dir p q : Path} {names more : List String}

theorem Leads.unique (hp : dir.Leads names p) (hq : dir.Leads more p) : names = more := by
  unfold Leads at hp hq
  rw [hp] at hq
  exact (List.map_inj_right fun _ _ => Component.normal.inj).mp (List.append_cancel_left hq)

theorem Leads.slash_not_mem (hp : dir.Leads names p) {name : String} (hname : name ∈ names) :
    '/' ∉ name.toList := by
  unfold Leads at hp
  apply slash_not_mem_of_normal (p := p)
  rw [hp]
  exact List.mem_append_right _ (List.mem_map_of_mem hname)

theorem Leads.same (hp : dir.Leads names p) (hq : dir.Leads names q) : p.same q = true := by
  unfold Leads at hp hq
  unfold Path.same
  rw [hp, hq, beq_self_eq_true]

theorem Leads.congr (hp : dir.Leads names p) (h : p.same q = true) : dir.Leads names q := by
  unfold Leads at hp ⊢
  rw [← beq_iff_eq.mp h, hp]

theorem Leads.unique_of_same (hp : dir.Leads names p) (hq : dir.Leads more q)
    (h : p.same q = true) : names = more :=
  (hp.congr h).unique hq

theorem Leads.cons {dir mid p : Path} {name : String} {names : List String}
    (h : dir.Leads [name] mid) (h' : mid.Leads names p) : dir.Leads (name :: names) p := by
  unfold Leads at h h' ⊢
  rw [h', h, List.append_assoc]
  rfl

theorem Leads.of_cons {dir mid p : Path} {name : String} {names : List String}
    (h : dir.Leads [name] mid) (h' : dir.Leads (name :: names) p) : mid.Leads names p := by
  unfold Leads at h h' ⊢
  rw [h', h, List.append_assoc]
  rfl

/-- A path is below each path that is on the way to it. -/
theorem Leads.isBelow (hp : dir.Leads (names ++ more) p) (hq : dir.Leads names q)
    (hnames : names ≠ []) (hmore : more ≠ []) : p.isBelow q = true := by
  unfold Leads at hp hq
  apply isBelow_iff.mpr
  constructor
  · apply text_ne_empty
    rw [hq]
    simp [hnames]
  · refine ⟨more.map .normal, by simp [hmore], ?_⟩
    rw [hp, hq, List.map_append, List.append_assoc]

theorem Leads.isNamedFrom (hp : dir.Leads names p) : p.IsNamedFrom dir := by
  unfold Leads at hp
  intro _ c hc
  rw [hp, List.drop_left] at hc
  obtain ⟨name, -, rfl⟩ := List.mem_map.mp hc
  rfl

variable {name : String}

theorem Leads.fileName? (hp : dir.Leads (names ++ [name]) p) : p.fileName? = some name := by
  unfold Leads at hp
  unfold Path.fileName?
  rw [hp]
  simp [Component.name?]

theorem Leads.displayName (hp : dir.Leads (names ++ [name]) p) : p.displayName = name := by
  unfold Path.displayName
  rw [hp.fileName?, Option.getD_some, Reading.unicode_read]

theorem Leads.startsWith (hp : dir.Leads names p) : p.startsWith dir = true := by
  unfold Leads at hp
  unfold Path.startsWith
  rw [hp]
  exact List.isPrefixOf_iff_prefix.mpr (List.prefix_append _ _)

theorem Leads.startsWith_iff (hp : dir.Leads names p) (hq : dir.Leads more q) :
    p.startsWith q = true ↔ more <+: names := by
  unfold Leads at hp hq
  unfold Path.startsWith
  rw [List.isPrefixOf_iff_prefix, hp, hq, List.prefix_append_right_inj, List.prefix_map_iff]
  constructor
  · rintro ⟨front, hfront, hmore⟩
    rwa [(List.map_inj_right fun _ _ => Component.normal.inj).mp hmore]
  · exact fun h => ⟨more, h, rfl⟩

theorem Leads.namesBelow? (hp : dir.Leads names p) : p.namesBelow? dir = some names := by
  have hnames : (names.map Component.normal).filterMap Component.name? = names := by
    simp [List.filterMap_map, Function.comp_def, Component.name?]
  unfold Path.namesBelow?
  rw [if_pos hp.startsWith]
  unfold Leads at hp
  rw [hp, List.drop_left, hnames]
  exact congrArg some (List.map_id names)

theorem Leads.exists_parent (hp : dir.Leads (names ++ [name]) p) :
    ∃ q, p.parent? = some q ∧ dir.Leads names q := by
  have hcomponents : p.components = (dir.components ++ names.map .normal) ++ [.normal name] := by
    unfold Leads at hp
    rw [hp]
    simp
  exact parent?_of_components hcomponents

theorem Leads.parent (hp : dir.Leads (names ++ [name]) p) :
    p.parent?.bind (·.namesBelow? dir) = some names := by
  obtain ⟨q, hparent, hq⟩ := hp.exists_parent
  rw [hparent, Option.bind_some, hq.namesBelow?]

end Leads

theorem IsNamedFrom.exists_leads_of_parent {p root : Path} (hnamed : p.IsNamedFrom root)
    {dirs : List String} (h : p.parent?.bind (·.namesBelow? root) = some dirs) :
    ∃ name, root.Leads (dirs ++ [name]) p := by
  obtain ⟨q, hq, hdirs⟩ := Option.bind_eq_some_iff.mp h
  obtain ⟨hne, hparent⟩ := components_of_parent? hq
  have hroot : root.components <+: p.components.dropLast := by
    unfold namesBelow? startsWith at hdirs
    split at hdirs
    · rename_i hstarts
      exact hparent ▸ List.isPrefixOf_iff_prefix.mp hstarts
    · cases hdirs
  obtain ⟨names, hnames⟩ := hnamed.exists_leads
    (List.isPrefixOf_iff_prefix.mpr (hroot.trans (List.dropLast_prefix _)))
  rcases List.eq_nil_or_concat names with rfl | ⟨above, name, rfl⟩
  · -- The parent of the root itself does not lie in the root.
    exfalso
    have hlength := hroot.length_le
    unfold Leads at hnames
    rw [hnames, List.map_nil, List.append_nil] at hne hlength
    rw [List.length_dropLast] at hlength
    have := List.length_pos_iff.mpr hne
    omega
  · rw [List.concat_eq_append] at hnames
    obtain rfl := Option.some.inj (hnames.parent.symm.trans h)
    exact ⟨name, hnames⟩

/-! ## One name more -/

/-- A text that can stand between two slashes as a name. -/
structure IsName (name : String) : Prop where
  plain : '/' ∉ name.toList
  named : Component.ofPiece name = some (.normal name)

instance (name : String) : Decidable (IsName name) :=
  decidable_of_iff ('/' ∉ name.toList ∧ Component.ofPiece name = some (.normal name))
    ⟨fun h => ⟨h.1, h.2⟩, fun h => ⟨h.plain, h.named⟩⟩

theorem isName_of_normal {p : Path} {name : String} (h : .normal name ∈ p.components) :
    IsName name := by
  refine ⟨slash_not_mem_of_normal h, ?_⟩
  rw [(startAndPieces_startsAs p).components_eq] at h
  rcases List.mem_append.mp h with h | h
  · exact absurd h (normal_not_mem_startComponents _ name)
  · obtain ⟨piece, -, hpiece⟩ := List.mem_filterMap.mp h
    have heq := hpiece
    unfold Component.ofPiece at heq
    split at heq
    · cases heq
    · split at heq <;> cases heq
      exact hpiece

/-- A name that is joined to a path is one component more. -/
theorem IsName.leads_child {name : String} (h : IsName name) (base : Path) :
    base.Leads [name] (base.child name) := by
  have hpieces : ofPieces (pieces ⟨name⟩) = [.normal name] := by
    rw [pieces_of_piece h.plain]
    simp [ofPieces, h.named]
  have hrelative : isAbsolute ⟨name⟩ = false :=
    Bool.eq_false_iff.mpr fun habsolute => h.plain (slash_mem_of_isAbsolute habsolute)
  unfold Leads child
  by_cases hbase : base.text = ""
  · obtain ⟨text⟩ := base
    subst hbase
    have hjoin : join ⟨""⟩ ⟨name⟩ = ⟨name⟩ := by
      unfold join
      simp [hrelative]
    have hdot : name ≠ "." := by
      rintro rfl
      cases h.named
    have hnone : components ⟨""⟩ = [] := rfl
    rw [hjoin, hnone, components_eq, hrelative, pieces_of_piece h.plain]
    simp [componentsOf, hdot, ofPieces, h.named]
  · rw [components_join hrelative hbase, hpieces]
    rfl

end Path

end CompileCommands
