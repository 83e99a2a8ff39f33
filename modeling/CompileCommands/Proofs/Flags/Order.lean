-- The order of keys. A table gives out keys in the order in which flags come up,
-- and that order depends on the history of the table. What the keys stand for does
-- not, so lists of keys are compared as the bytes of their flags are.
import CompileCommands.Proofs.Flags.Table
import CompileCommands.Proofs.Utf8.Order

namespace CompileCommands.FlagTable

open Std

/-! ## Histories -/

/-- The table in which the flags of a history were looked up, one after another. -/
def ofHistory (history : List String) : FlagTable := (empty.internAll history).2

/-- All keys were given out for flags of a history. -/
def Issued (history : List String) (keys : List FlagKey) : Prop :=
  keys ⊆ (empty.internAll history).1

instance (history : List String) (keys : List FlagKey) : Decidable (Issued history keys) :=
  inferInstanceAs (Decidable (∀ key ∈ keys, key ∈ (empty.internAll history).1))

theorem Issued.holds {history : List String} {keys : List FlagKey} (h : Issued history keys) :
    (ofHistory history).Holds keys := fun key hkey => internAll_holds empty history key (h hkey)

/-! ## Order -/

/-- The bytes of the flags with the given keys. -/
def bytesOf (t : FlagTable) (keys : List FlagKey) : List (List UInt8) :=
  (t.flagsOf keys).map Utf8.ofText

/-- The lists of keys of a kind are ordered one after another: any two of them can
be compared, and neither comes first just if they are the same. -/
structure IsTotalOn (t : FlagTable) (kind : List FlagKey → Prop) : Prop where
  answers : ∀ as bs, kind as → kind bs → ∃ order, t.compare? as bs = some order
  eq_iff : ∀ as bs, kind as → kind bs → (t.compare? as bs = some .eq ↔ as = bs)
  swap : ∀ as bs, kind as → kind bs → t.compare? bs as = (t.compare? as bs).map Ordering.swap
  trans : ∀ as bs cs, kind as → kind bs → kind cs →
    t.compare? as bs = some .lt → t.compare? bs cs = some .lt → t.compare? as cs = some .lt

variable {t : FlagTable}

theorem compare?_eq_bytes {as bs : List FlagKey} (ha : t.Holds as) (hb : t.Holds bs) :
    t.compare? as bs = some (compare (t.bytesOf as) (t.bytesOf bs)) := by
  rw [compare?_eq ha hb, bytesOf, bytesOf, Utf8.compare_map_ofText]

theorem isTotalOn_holds (t : FlagTable) : t.IsTotalOn t.Holds where
  answers := fun _ _ ha hb => ⟨_, compare?_eq ha hb⟩
  eq_iff := by
    intro as bs ha hb
    rw [compare?_eq ha hb, Option.some.injEq]
    constructor
    · exact fun h => flagsOf_injective ha hb (LawfulEqOrd.eq_of_compare h)
    · rintro rfl
      exact ReflOrd.compare_self
  swap := by
    intro as bs ha hb
    rw [compare?_eq ha hb, compare?_eq hb ha, Option.map_some]
    exact congrArg some OrientedOrd.eq_swap
  trans := by
    intro as bs cs ha hb hc
    rw [compare?_eq ha hb, compare?_eq hb hc, compare?_eq ha hc]
    simp only [Option.some.injEq]
    exact TransCmp.lt_trans

theorem IsTotalOn.mono {kind more : List FlagKey → Prop} (h : t.IsTotalOn more)
    (hkind : ∀ keys, kind keys → more keys) : t.IsTotalOn kind where
  answers as bs ha hb := h.answers as bs (hkind as ha) (hkind bs hb)
  eq_iff as bs ha hb := h.eq_iff as bs (hkind as ha) (hkind bs hb)
  swap as bs ha hb := h.swap as bs (hkind as ha) (hkind bs hb)
  trans as bs cs ha hb hc := h.trans as bs cs (hkind as ha) (hkind bs hb) (hkind cs hc)

end CompileCommands.FlagTable
