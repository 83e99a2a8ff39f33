-- The laws of the table of flags. Every key that a table gave out keeps its
-- flag, and two keys never share one. So keys can stand for flags: lists of
-- keys are equal when their flags are, and are ordered as their flags are.
import CompileCommands.Flags.Table

namespace CompileCommands.FlagTable

/-! ## Keys that a table gave out -/

/-- All keys were given out by the table. -/
def Holds (t : FlagTable) (keys : List FlagKey) : Prop := ∀ key ∈ keys, key < t.size

/-- The second table is the first one with more flags behind. -/
def Extends (t u : FlagTable) : Prop := t.flags <+: u.flags

theorem Extends.refl (t : FlagTable) : t.Extends t := List.prefix_rfl

theorem Extends.trans {t u v : FlagTable} (h : t.Extends u) (h' : u.Extends v) : t.Extends v :=
  List.IsPrefix.trans h h'

theorem Extends.size_le {t u : FlagTable} (h : t.Extends u) : t.size ≤ u.size := h.length_le

theorem Extends.flag? {t u : FlagTable} (h : t.Extends u) {key : FlagKey} (hkey : key < t.size) :
    u.flag? key = t.flag? key := by
  obtain ⟨more, hmore⟩ := h
  unfold FlagTable.flag?
  rw [← hmore, List.getElem?_append_left hkey]

theorem holds_cons {t : FlagTable} {key : FlagKey} {keys : List FlagKey} :
    t.Holds (key :: keys) ↔ key < t.size ∧ t.Holds keys := by
  simp [Holds]

theorem Extends.holds {t u : FlagTable} (h : t.Extends u) {keys : List FlagKey}
    (hkeys : t.Holds keys) : u.Holds keys := fun key hkey =>
  Nat.lt_of_lt_of_le (hkeys key hkey) h.size_le

theorem flag?_eq_some {t : FlagTable} {key : FlagKey} (h : key < t.size) :
    ∃ flag, t.flag? key = some flag := ⟨t.flags[key], List.getElem?_eq_getElem h⟩

theorem flagsOf_cons {t : FlagTable} {key : FlagKey} {flag : String} {keys : List FlagKey}
    (h : t.flag? key = some flag) : t.flagsOf (key :: keys) = flag :: t.flagsOf keys := by
  simp [flagsOf, h]

/-- A larger table reads the keys of a smaller one in the same way. -/
theorem Extends.flagsOf {t u : FlagTable} (h : t.Extends u) {keys : List FlagKey}
    (hkeys : t.Holds keys) : u.flagsOf keys = t.flagsOf keys := by
  induction keys with
  | nil => rfl
  | cons key keys ih =>
    obtain ⟨hkey, hkeys⟩ := holds_cons.mp hkeys
    obtain ⟨flag, hflag⟩ := flag?_eq_some hkey
    rw [flagsOf_cons hflag, flagsOf_cons ((h.flag? hkey).trans hflag), ih hkeys]

/-- Two keys never share a flag. -/
theorem key_eq_of_flag? {t : FlagTable} {a b : FlagKey} {flag : String}
    (ha : t.flag? a = some flag) (hb : t.flag? b = some flag) : a = b := by
  obtain ⟨hlt, -⟩ := List.getElem?_eq_some_iff.mp ha
  exact (List.getElem?_inj hlt t.nodup).mp (ha.trans hb.symm)

/-- Lists of keys with the same flags are the same list. -/
theorem flagsOf_injective {t : FlagTable} {as bs : List FlagKey} (ha : t.Holds as)
    (hb : t.Holds bs) (h : t.flagsOf as = t.flagsOf bs) : as = bs := by
  induction as generalizing bs with
  | nil =>
    cases bs with
    | nil => rfl
    | cons b bs =>
      obtain ⟨flag, hflag⟩ := flag?_eq_some (holds_cons.mp hb).1
      rw [flagsOf_cons hflag] at h
      cases h
  | cons a as ih =>
    obtain ⟨hlt, ha⟩ := holds_cons.mp ha
    obtain ⟨flag, hflag⟩ := flag?_eq_some hlt
    cases bs with
    | nil =>
      rw [flagsOf_cons hflag] at h
      cases h
    | cons b bs =>
      obtain ⟨hlt', hb⟩ := holds_cons.mp hb
      obtain ⟨flag', hflag'⟩ := flag?_eq_some hlt'
      rw [flagsOf_cons hflag, flagsOf_cons hflag'] at h
      obtain ⟨rfl, hrest⟩ := List.cons.inj h
      rw [key_eq_of_flag? hflag hflag', ih ha hb hrest]

/-! ## Interning -/

theorem intern_extends (t : FlagTable) (flag : String) : t.Extends (t.intern flag).2 := by
  unfold intern
  split
  · exact Extends.refl t
  · exact List.prefix_append t.flags [flag]

/-- The key of a flag stands for that flag. -/
theorem intern_flag? (t : FlagTable) (flag : String) :
    (t.intern flag).2.flag? (t.intern flag).1 = some flag := by
  unfold intern flag?
  split
  · rename_i hmem
    rw [List.getElem?_eq_getElem (List.idxOf_lt_length_iff.mpr hmem), List.getElem_idxOf]
  · simp [size]

theorem intern_lt_size (t : FlagTable) (flag : String) :
    (t.intern flag).1 < (t.intern flag).2.size :=
  (List.getElem?_eq_some_iff.mp (intern_flag? t flag)).1

theorem internAll_extends (t : FlagTable) (flags : List String) :
    t.Extends (t.internAll flags).2 := by
  induction flags generalizing t with
  | nil => exact Extends.refl t
  | cons flag flags ih => exact (intern_extends t flag).trans (ih (t.intern flag).2)

theorem internAll_holds (t : FlagTable) (flags : List String) :
    (t.internAll flags).2.Holds (t.internAll flags).1 := by
  induction flags generalizing t with
  | nil => exact fun _ h => nomatch h
  | cons flag flags ih =>
    have hkey := intern_lt_size t flag
    have hmore := internAll_extends (t.intern flag).2 flags
    exact holds_cons.mpr ⟨Nat.lt_of_lt_of_le hkey hmore.size_le, ih (t.intern flag).2⟩

/-- Interned flags are read back as they were. -/
theorem internAll_flagsOf (t : FlagTable) (flags : List String) :
    (t.internAll flags).2.flagsOf (t.internAll flags).1 = flags := by
  induction flags generalizing t with
  | nil => rfl
  | cons flag flags ih =>
    have hmore := internAll_extends (t.intern flag).2 flags
    have hflag := (hmore.flag? (intern_lt_size t flag)).trans (intern_flag? t flag)
    exact (flagsOf_cons hflag).trans (congrArg _ (ih (t.intern flag).2))

/-! ## Order -/

/-- Keys are ordered as their flags are. That equal keys are not looked up and
that a look-up may fail shows nowhere. -/
theorem compare?_eq {t : FlagTable} {as bs : List FlagKey} (ha : t.Holds as) (hb : t.Holds bs) :
    t.compare? as bs = some (compare (t.flagsOf as) (t.flagsOf bs)) := by
  induction as generalizing bs with
  | nil =>
    cases bs with
    | nil => rfl
    | cons b bs =>
      obtain ⟨flag, hflag⟩ := flag?_eq_some (holds_cons.mp hb).1
      rw [flagsOf_cons hflag]
      rfl
  | cons a as ih =>
    obtain ⟨hlt, ha⟩ := holds_cons.mp ha
    obtain ⟨x, hx⟩ := flag?_eq_some hlt
    cases bs with
    | nil =>
      rw [flagsOf_cons hx]
      rfl
    | cons b bs =>
      obtain ⟨hlt', hb⟩ := holds_cons.mp hb
      obtain ⟨y, hy⟩ := flag?_eq_some hlt'
      rw [flagsOf_cons hx, flagsOf_cons hy, List.compare_cons_cons, compare?, ih ha hb]
      by_cases hab : a = b
      · subst hab
        have hxy : x = y := Option.some.inj (hx.symm.trans hy)
        subst hxy
        simp
      · simp only [hab, if_false, hx, hy]
        cases compare x y <;> rfl

theorem inOrder_eq {t : FlagTable} {as bs : List FlagKey} (ha : t.Holds as) (hb : t.Holds bs) :
    t.inOrder as bs = (compare (t.flagsOf as) (t.flagsOf bs)).isLE := by
  unfold inOrder
  rw [compare?_eq ha hb]
  cases compare (t.flagsOf as) (t.flagsOf bs) <;> rfl

end CompileCommands.FlagTable
