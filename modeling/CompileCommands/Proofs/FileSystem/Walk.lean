-- Walks that come to an end. As long as a walk comes to no link, it leads where the
-- text of its path leads. So the place of an absolute path is its normalized place,
-- unless a link stands on the way.
import CompileCommands.FileSystem
import CompileCommands.Proofs.Path.NormalForm

namespace CompileCommands

open CompileCommands.Path

/-! ## Entries -/

/-- One name more leads to what it stands for in the directory. -/
theorem Entry.at?_append_singleton {e : Entry} {names : List String}
    {entries : List (String × Entry)} (h : e.at? names = some (.directory entries))
    (name : String) : e.at? (names ++ [name]) = entries.lookup name := by
  induction names generalizing e with
  | nil =>
    obtain rfl := Option.some.inj h
    rw [List.nil_append, Entry.at?]
    cases entries.lookup name <;> rfl
  | cons first names ih =>
    rw [List.cons_append]
    cases e with
    | directory above =>
      rw [Entry.at?] at h ⊢
      cases hlookup : above.lookup first with
      | none =>
        rw [hlookup] at h
        cases h
      | some below =>
        rw [hlookup] at h
        exact ih h
    | file => cases h
    | link => cases h

namespace FileSystem

/-! ## Where the pieces of a path lead -/

/-- Where one piece leads from a place, innermost name first. -/
def enter (here : List String) (piece : String) : List String :=
  if piece = "" ∨ piece = "." then here
  else if piece = ".." then here.drop 1
  else piece :: here

theorem steps_cons (here : List String) (piece : String) (rest : List String) :
    steps here (piece :: rest) = steps (enter here piece) rest := by
  rw [steps, enter]
  split
  · rfl
  split <;> rfl

/-- Each name can stand between two slashes. -/
def AreNames (names : List String) : Prop := ∀ name ∈ names, IsName name

theorem enter_areNames {here : List String} (h : AreNames here) {piece : String}
    (hpiece : '/' ∉ piece.toList) : AreNames (enter here piece) := by
  unfold enter
  split
  · exact h
  split
  · exact fun name hname => h name (List.mem_of_mem_drop hname)
  · rename_i hplain hparent
    have hnamed : IsName piece := ⟨hpiece, by simp [Component.ofPiece, hplain, hparent]⟩
    exact List.forall_mem_cons.mpr ⟨hnamed, h⟩

theorem steps_areNames {here pieces : List String} (h : AreNames here)
    (hpieces : ∀ piece ∈ pieces, '/' ∉ piece.toList) : AreNames (steps here pieces) := by
  induction pieces generalizing here with
  | nil => exact h
  | cons piece rest ih =>
    obtain ⟨hpiece, hrest⟩ := List.forall_mem_cons.mp hpieces
    rw [steps_cons]
    exact ih (enter_areNames h hpiece) hrest

/-! ## Walks -/

section Walk

variable {m : Manner} {root : Entry} {here names : List String}
  {atLink : List String → List String → Except IoError (List String)}

/-- A walk goes on where a piece leads, or it has come to a link there. -/
theorem walkWith_cons {piece : String} {rest : List String} (hmakes : m.makes = false)
    (h : walkWith m root atLink here (piece :: rest) = .ok names) :
    walkWith m root atLink (enter here piece) rest = .ok names ∨
      ∃ target, root.at? (enter here piece).reverse = some (.link target) ∧
        atLink (startOf target here) (Path.pieces ⟨target⟩ ++ rest) = .ok names := by
  rw [walkWith] at h
  rw [enter]
  split at h
  · rename_i entries hentries
    split at h
    · rename_i hnone
      rw [if_pos hnone]
      exact .inl h
    rename_i hsome
    rw [if_neg hsome]
    split at h
    · rename_i hparent
      rw [if_pos hparent]
      exact .inl h
    rename_i hname
    rw [if_neg hname]
    split at h
    · cases h
    split at h
    · rw [hmakes] at h
      cases h
    · rename_i target hlookup
      split at h
      · refine .inr ⟨target, ?_, h⟩
        rw [List.reverse_cons, Entry.at?_append_singleton hentries, hlookup]
      · cases h
    · split at h
      · exact .inl h
      · cases h
  · cases h

/-- A walk that comes to an end leads where its pieces lead, or it comes to a link
behind some of them, and goes on from there with what the link says. -/
theorem walkWith_ok {pieces : List String} (hmakes : m.makes = false)
    (h : walkWith m root atLink here pieces = .ok names) :
    names = steps here pieces ∨
      ∃ front piece rest target, pieces = front ++ piece :: rest ∧
        root.at? (steps here (front ++ [piece])).reverse = some (.link target) ∧
        atLink (startOf target (steps here front)) (Path.pieces ⟨target⟩ ++ rest) = .ok names := by
  induction pieces generalizing here with
  | nil =>
    rw [walkWith] at h
    exact .inl (Except.ok.inj h).symm
  | cons piece rest ih =>
    rw [steps_cons]
    rcases walkWith_cons hmakes h with hon | ⟨target, hlink, hon⟩
    · refine (ih hon).imp_right ?_
      rintro ⟨front, last, behind, target, rfl, hlink, hgo⟩
      refine ⟨piece :: front, last, behind, target, rfl, ?_, ?_⟩
      · rwa [List.cons_append, steps_cons]
      · rwa [steps_cons]
    · exact .inr ⟨[], piece, rest, target, rfl, hlink, hon⟩

theorem startOf_areNames (target : String) (h : AreNames here) :
    AreNames (startOf target here) := by
  unfold startOf
  split
  · exact List.forall_mem_nil _
  · exact h

theorem walkWith_areNames {pieces : List String} (hmakes : m.makes = false)
    (hlink : ∀ start more, AreNames start → (∀ piece ∈ more, '/' ∉ piece.toList) →
      atLink start more = .ok names → AreNames names)
    (hhere : AreNames here) (hpieces : ∀ piece ∈ pieces, '/' ∉ piece.toList)
    (h : walkWith m root atLink here pieces = .ok names) : AreNames names := by
  rcases walkWith_ok hmakes h with rfl | ⟨front, piece, rest, target, rfl, -, hgo⟩
  · exact steps_areNames hhere hpieces
  · have hfront := steps_areNames hhere fun piece hpiece =>
      hpieces piece (List.mem_append_left _ hpiece)
    refine hlink _ _ (startOf_areNames target hfront) ?_ hgo
    intro other hother
    rcases List.mem_append.mp hother with hother | hother
    · exact slash_not_mem_of_mem_pieces hother
    · exact hpieces other (List.mem_append_right _ (List.mem_cons_of_mem piece hother))

theorem walk_areNames {pieces : List String} {links : Nat} (hmakes : m.makes = false)
    (hhere : AreNames here) (hpieces : ∀ piece ∈ pieces, '/' ∉ piece.toList)
    (h : walk m root links here pieces = .ok names) : AreNames names := by
  induction links generalizing here pieces with
  | zero =>
    have hnone : ∀ start more, AreNames start → (∀ piece ∈ more, '/' ∉ piece.toList) →
        (fun _ _ => .error .tooManyLinks : List String → List String →
          Except IoError (List String)) start more = .ok names → AreNames names := by
      rintro start more - - ⟨⟩
    exact walkWith_areNames hmakes hnone hhere hpieces h
  | succ links ih =>
    exact walkWith_areNames hmakes (fun _ _ => ih) hhere hpieces h

/-- Unless a link stands on the way, a walk leads where its pieces lead. -/
theorem walk_ok {pieces : List String} {links : Nat} (hmakes : m.makes = false)
    (h : walk m root links here pieces = .ok names) :
    names = steps here pieces ∨ ∃ front rest target, pieces = front ++ rest ∧
      root.at? (steps here front).reverse = some (.link target) := by
  have hwith : ∃ atLink, walkWith m root atLink here pieces = .ok names := by
    cases links <;> exact ⟨_, h⟩
  obtain ⟨atLink, hwith⟩ := hwith
  refine (walkWith_ok hmakes hwith).imp_right ?_
  rintro ⟨front, piece, rest, target, rfl, hlink, -⟩
  exact ⟨front ++ [piece], rest, target, by simp, hlink⟩

end Walk

/-! ## Names and normalized paths -/

theorem foldl_pushComponent (here pieces : List String) :
    (ofPieces pieces).foldl pushComponent (here.map Component.normal ++ [.root]) =
      (steps here pieces).map Component.normal ++ [.root] := by
  induction pieces generalizing here with
  | nil => rfl
  | cons piece rest ih =>
    have hpush : ((Component.ofPiece piece).toList).foldl pushComponent
        (here.map Component.normal ++ [.root]) =
          (enter here piece).map Component.normal ++ [.root] := by
      unfold Component.ofPiece enter
      split
      · rfl
      split
      · cases here <;> rfl
      · rfl
    rw [steps_cons, ← ih, ← hpush, ← List.foldl_append]
    congr 1
    unfold ofPieces
    rw [List.filterMap_cons]
    cases Component.ofPiece piece <;> rfl

theorem pathOf_eq (names : List String) :
    pathOf names = ofComponents (.root :: names.map Component.normal) := by
  have htexts : (names.map Component.normal).map Component.text = names := by
    rw [List.map_map]
    exact List.map_id names
  rw [pathOf, ofComponents, htexts]

/-- The normalized place of an absolute path is where its pieces lead. -/
theorem normalize_eq_pathOf {p : Path} (h : p.isAbsolute = true) :
    p.normalize = pathOf (steps [] p.pieces).reverse := by
  have hfold := foldl_pushComponent [] p.pieces
  rw [List.map_nil, List.nil_append] at hfold
  have hcomponents : normalComponents p.components =
      .root :: (steps [] p.pieces).reverse.map Component.normal := by
    rw [components_of_isAbsolute h, normalComponents, List.foldl_cons]
    refine (congrArg List.reverse hfold).trans ?_
    simp
  rw [Path.normalize, hcomponents, pathOf_eq]

theorem components_pathOf {names : List String} (h : AreNames names) :
    (pathOf names).components = .root :: names.map Component.normal := by
  rw [pathOf_eq]
  apply components_ofComponents
  constructor
  · intro c hc
    obtain ⟨name, -, rfl⟩ := List.mem_map.mp hc
    exact .inr ⟨name, rfl⟩
  · intro name hname
    refine h name ?_
    simpa using hname

theorem pathOf_same_iff {names more : List String} (h : AreNames names) (hmore : AreNames more) :
    (pathOf names).same (pathOf more) = true ↔ names = more := by
  unfold same
  rw [beq_iff_eq, components_pathOf h, components_pathOf hmore, List.cons.injEq]
  simp only [true_and]
  exact List.map_inj_right fun _ _ => Component.normal.inj

/-! ## Places of absolute paths -/

/-- The names that the text of an absolute path leads along. -/
def textNames (p : Path) : List String := (steps [] p.pieces).reverse

/-- The path is there, but elsewhere than its text says. -/
def IsDiverted (fs : FileSystem) (p : Path) : Prop :=
  ∃ names, fs.follow .stepwise p = .ok names ∧ names ≠ textNames p

/-- The text of the path leads to a link, at its end or on the way. -/
def MeetsLink (fs : FileSystem) (p : Path) : Prop :=
  ∃ front rest target, p.pieces = front ++ rest ∧
    fs.root.at? (steps [] front).reverse = some (.link target)

section Absolute

variable {fs : FileSystem} {p : Path}

theorem walk_of_follow {names : List String} (habsolute : p.isAbsolute = true)
    (h : fs.follow .stepwise p = .ok names) :
    walk .stepwise fs.root maxLinks [] p.pieces = .ok names.reverse := by
  have hstart : ∀ here, startOf p.text here = [] := fun here => if_pos habsolute
  unfold follow at h
  split at h
  · cases h
  split at h
  · cases h
  split at h
  · cases h
  split at h
  · rename_i hrelative _
    rw [habsolute] at hrelative
    cases hrelative
  · rw [hstart] at h
    cases hwalk : walk .stepwise fs.root maxLinks [] p.pieces with
    | error e =>
      rw [hwalk] at h
      cases h
    | ok found =>
      rw [hwalk] at h
      obtain rfl := Except.ok.inj h
      rw [List.reverse_reverse]

theorem textNames_areNames (p : Path) : AreNames (textNames p) := fun name hname =>
  steps_areNames (List.forall_mem_nil _) (fun _ => slash_not_mem_of_mem_pieces) name
    (List.mem_reverse.mp hname)

theorem follow_areNames {names : List String} (habsolute : p.isAbsolute = true)
    (h : fs.follow .stepwise p = .ok names) : AreNames names := fun name hname =>
  walk_areNames rfl (List.forall_mem_nil _) (fun _ => slash_not_mem_of_mem_pieces)
    (walk_of_follow habsolute h) name (List.mem_reverse.mpr hname)

/-- Only a link can lead a path elsewhere. -/
theorem IsDiverted.meetsLink (h : fs.IsDiverted p) (habsolute : p.isAbsolute = true) :
    fs.MeetsLink p := by
  obtain ⟨names, hfollow, hne⟩ := h
  refine (walk_ok rfl (walk_of_follow habsolute hfollow)).resolve_left fun hnames => hne ?_
  rw [textNames, ← hnames, List.reverse_reverse]

end Absolute

end FileSystem

end CompileCommands
