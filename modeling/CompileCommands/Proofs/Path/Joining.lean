-- Normalized paths and joining. A path leads from each place to where its
-- normalized place leads from there, so a directory may be normalized before or
-- after a path is joined to it. What is normalized already stays as it is.
import CompileCommands.Proofs.FileSystem.Walk

namespace CompileCommands.Path

open FileSystem (steps startOf)

/-! ## Components behind others -/

section Components

variable {stack above cs : List Component} {c : Component}

/-- One component more on a normalized path does the same behind any other
components as behind none. -/
theorem foldl_pushComponent_reverse (h : IsNormal stack.reverse) (hroot : c = .root → stack = [])
    (above : List Component) :
    (pushComponent stack c).reverse.foldl pushComponent above =
      pushComponent (stack.reverse.foldl pushComponent above) c := by
  have hpushed : (c :: stack).reverse.foldl pushComponent above =
      pushComponent (stack.reverse.foldl pushComponent above) c := by
    rw [List.reverse_cons, List.foldl_append]
    rfl
  cases c with
  | root =>
    rw [hroot rfl]
    rfl
  | current => rfl
  | normal name => exact hpushed
  | parent =>
    cases stack with
    | nil => rfl
    | cons last stack =>
      have hlast : (last :: stack).reverse.foldl pushComponent above =
          pushComponent (stack.reverse.foldl pushComponent above) last := by
        rw [List.reverse_cons, List.foldl_append]
        rfl
      cases last with
      | root =>
        rw [hlast]
        exact hlast
      | current => exact absurd (by simp) h.1
      | normal name =>
        rw [hlast]
        rfl
      | parent => exact hpushed

/-- Behind any components, normalized ones do what the given ones do. -/
theorem foldl_normalComponents (h : AreOrdered cs) (above : List Component) :
    (normalComponents cs).foldl pushComponent above = cs.foldl pushComponent above := by
  induction cs using List.reverseRecOn with
  | nil => rfl
  | append_singleton cs c ih =>
    have hroot : c = .root → (normalComponents cs).reverse = [] := by
      rintro rfl
      cases cs with
      | nil => rfl
      | cons first cs => rcases h .root (by simp) with h | ⟨_, h⟩ <;> cases h
    have hnormal : IsNormal (normalComponents cs).reverse.reverse := by
      rw [List.reverse_reverse]
      exact isNormal_normalComponents cs
    rw [normalComponents_append, foldl_pushComponent_reverse hnormal hroot, List.reverse_reverse,
      ih (h.sublist (List.sublist_append_left cs [c])), List.foldl_append]
    rfl

theorem normalComponents_append_normal (h : AreOrdered cs) (ds : List Component) :
    normalComponents (normalComponents cs ++ ds) = normalComponents (cs ++ ds) := by
  unfold normalComponents
  rw [List.foldl_append, List.foldl_append]
  exact congrArg (fun above => (ds.foldl pushComponent above).reverse) (foldl_normalComponents h [])

end Components

/-! ## The shape of a normal form -/

/-- Names below the root, or names behind a run of `..`. -/
inductive IsFolded : (absolute : Bool) → List Component → Prop
  | absolute (names : List String) : IsFolded true (.root :: names.map .normal)
  | relative (climbs : Nat) (names : List String) :
      IsFolded false (List.replicate climbs .parent ++ names.map .normal)

theorem IsNormal.exists_climbs {cs : List Component} (h : IsNormal cs)
    (hcs : ∀ c ∈ cs, c = .parent ∨ ∃ name, c = .normal name) :
    ∃ (climbs : Nat) (names : List String),
      cs = List.replicate climbs .parent ++ names.map .normal := by
  induction cs with
  | nil => exact ⟨0, [], rfl⟩
  | cons c cs ih =>
    obtain ⟨hc, hrest⟩ := List.forall_mem_cons.mp hcs
    rcases hc with rfl | ⟨name, rfl⟩
    · obtain ⟨climbs, names, rfl⟩ := ih (h.sublist (List.sublist_cons_self _ _)) hrest
      exact ⟨climbs + 1, names, rfl⟩
    · -- Behind a name nothing climbs any more.
      have hnames : ∀ d ∈ cs, ∃ name, d = .normal name := fun d hd =>
        (hrest d hd).resolve_left fun hparent => by
          cases (List.pairwise_cons.mp h.2).1 d hd hparent
      obtain ⟨names, rfl⟩ := exists_names hnames
      exact ⟨0, name :: names, rfl⟩

theorem isAbsolute_normalize (p : Path) : p.normalize.isAbsolute = p.isAbsolute := by
  rw [Bool.eq_iff_iff, isAbsolute_iff, components_normalize, root_mem_normalComponents_iff,
    isAbsolute_iff]

theorem isFolded_normalize (p : Path) : IsFolded p.isAbsolute p.normalize.components := by
  cases habsolute : p.isAbsolute with
  | true =>
    have hresolved := isResolved_normalize_iff.mpr habsolute
    have hcomponents := components_of_isAbsolute hresolved.absolute
    have hnames : ∀ c ∈ ofPieces p.normalize.pieces, ∃ name, c = .normal name := by
      intro c hc
      rcases mem_ofPieces hc with rfl | ⟨name, -, rfl⟩
      · exact absurd (hcomponents ▸ List.mem_cons_of_mem _ hc) hresolved.parent
      · exact ⟨name, rfl⟩
    obtain ⟨names, hofPieces⟩ := exists_names hnames
    rw [hcomponents, hofPieces]
    exact .absolute names
  | false =>
    have hnormal : IsNormal p.normalize.components :=
      components_normalize p ▸ isNormal_normalComponents _
    have hsteps : ∀ c ∈ p.normalize.components, c = .parent ∨ ∃ name, c = .normal name := by
      intro c hc
      cases c with
      | root =>
        rw [← isAbsolute_iff, isAbsolute_normalize, habsolute] at hc
        cases hc
      | current => exact absurd hc hnormal.1
      | parent => exact .inl rfl
      | normal name => exact .inr ⟨name, rfl⟩
    obtain ⟨climbs, names, hcomponents⟩ := hnormal.exists_climbs hsteps
    rw [hcomponents]
    exact .relative climbs names

/-! ## Places -/

/-- Where a path leads from a place when nothing stands in the way, innermost
name first. -/
def placeFrom (here : List String) (p : Path) : List String := steps (startOf p.text here) p.pieces

theorem foldl_components (here : List String) (p : Path) :
    p.components.foldl pushComponent (here.map .normal ++ [.root]) =
      (p.placeFrom here).map .normal ++ [.root] := by
  unfold placeFrom
  cases habsolute : p.isAbsolute with
  | true =>
    have hstart : startOf p.text here = [] := if_pos habsolute
    rw [hstart, components_of_isAbsolute habsolute]
    exact FileSystem.foldl_pushComponent [] p.pieces
  | false =>
    have hstart : startOf p.text here = here := if_neg (Bool.eq_false_iff.mp habsolute)
    rw [hstart, components_eq, habsolute, foldl_componentsOf]
    exact FileSystem.foldl_pushComponent here p.pieces

theorem placeFrom_normalize (here : List String) (p : Path) :
    p.normalize.placeFrom here = p.placeFrom here := by
  have hfold := foldl_normalComponents (areOrdered_components p) (here.map .normal ++ [.root])
  rw [← components_normalize, foldl_components, foldl_components] at hfold
  exact (List.map_inj_right fun _ _ => Component.normal.inj).mp (List.append_cancel_right hfold)

/-! ## Joining -/

theorem normalize_normalize (p : Path) : p.normalize.normalize = p.normalize := by
  have hcomponents := normalComponents_append_normal (areOrdered_components p) []
  rw [List.append_nil, List.append_nil] at hcomponents
  rw [normalize, components_normalize, hcomponents]
  rfl

theorem normalize_join_normalize (base p : Path) :
    (base.normalize.join p).normalize = (base.join p).normalize := by
  cases habsolute : p.isAbsolute with
  | true =>
    have hjoin : ∀ dir : Path, dir.join p = p := fun dir => if_pos habsolute
    rw [hjoin, hjoin]
  | false =>
    refine congrArg ofComponents ?_
    rw [normalComponents_join habsolute, normalComponents_join habsolute, components_normalize,
      normalComponents_append_normal (areOrdered_components base)]

theorem isAbsolute_absolutize (p base : Path) :
    (p.absolutize base).isAbsolute = (p.isAbsolute || base.isAbsolute) := by
  unfold absolutize
  split
  · rename_i habsolute
    rw [isAbsolute_normalize, habsolute, Bool.true_or]
  · rw [isAbsolute_normalize, isAbsolute_join]

theorem normalize_absolutize (p base : Path) :
    (p.absolutize base).normalize = p.absolutize base := by
  unfold absolutize
  split <;> exact normalize_normalize _

/-- A normalized path has the shape of a normal form, starts at the root just if
the given one does, is its own normal form, and leads to the same place from
everywhere. A directory may be normalized before a path is joined to it. So what
is seen from an absolute directory is absolute, and is seen as itself from
everywhere. -/
theorem normalize_isNormalForm (p base : Path) :
    IsFolded p.isAbsolute p.normalize.components ∧
      p.normalize.isAbsolute = p.isAbsolute ∧
      p.normalize.normalize = p.normalize ∧
      (∀ here, p.normalize.placeFrom here = p.placeFrom here) ∧
      (base.join p).normalize = (base.normalize.join p).normalize ∧
      (base.isAbsolute = true →
        (p.absolutize base).isAbsolute = true ∧
          ∀ other, (p.absolutize base).absolutize other = p.absolutize base) := by
  refine ⟨isFolded_normalize p, isAbsolute_normalize p, normalize_normalize p,
    fun here => placeFrom_normalize here p, (normalize_join_normalize base p).symm, fun hbase => ?_⟩
  have habsolute : (p.absolutize base).isAbsolute = true := by
    rw [isAbsolute_absolutize, hbase, Bool.or_true]
  refine ⟨habsolute, fun other => ?_⟩
  rw [absolutize, if_pos habsolute, normalize_absolutize]

/-- A path that climbs out of a directory that is itself written with a `..`. -/
theorem normalize_isNormalForm_climbing :
    let base : Path := ⟨"/proj/build/.."⟩
    let p : Path := ⟨"../src/./a.c"⟩
    base.isAbsolute = true ∧ p.absolutize base = ⟨"/src/a.c"⟩ ∧
      (p.absolutize base).isAbsolute = true ∧
      (p.absolutize base).absolutize base = p.absolutize base ∧
      (base.join p).normalize = (base.normalize.join p).normalize := by
  intro base p
  have hbase : base.isAbsolute = true := by decide
  obtain ⟨-, -, -, -, hjoin, habsolutize⟩ := normalize_isNormalForm p base
  obtain ⟨habsolute, hself⟩ := habsolutize hbase
  exact ⟨hbase, by decide +kernel, habsolute, hself base, hjoin⟩

end CompileCommands.Path
