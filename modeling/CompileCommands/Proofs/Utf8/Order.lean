-- Texts in the order of their bytes. A character before another one has
-- bytes before the bytes of the other one, so the order of texts by their
-- characters is their order by bytes.
import CompileCommands.Utf8

namespace CompileCommands.Utf8

/-! ## One character -/

theorem ofNat_lt_ofNat {a b : Nat} (ha : a < 256) (hb : b < 256) :
    UInt8.ofNat a < UInt8.ofNat b ↔ a < b := by
  rw [UInt8.lt_iff_toNat_lt, UInt8.toNat_ofNat_of_lt' ha, UInt8.toNat_ofNat_of_lt' hb]

theorem ofNat_eq_ofNat {a b : Nat} (ha : a < 256) (hb : b < 256) :
    UInt8.ofNat a = UInt8.ofNat b ↔ a = b := by
  rw [← UInt8.toNat_inj, UInt8.toNat_ofNat_of_lt' ha, UInt8.toNat_ofNat_of_lt' hb]

/-- The bytes of two characters differ before the shorter ones end, so what
follows them does not count. -/
theorem encodeChar_append_lt {c d : Char} (h : c < d) (xs ys : List UInt8) :
    String.utf8EncodeChar c ++ xs < String.utf8EncodeChar d ++ ys := by
  have hlt : c.val.toNat < d.val.toNat := UInt32.lt_iff_toNat_lt.mp h
  have hd : d.val.toNat < 0x110000 := by
    rcases d.valid with hv | hv <;> omega
  unfold String.utf8EncodeChar
  generalize c.val.toNat = v at *
  generalize d.val.toNat = w at *
  -- Six bits are one digit, and the first digit that differs decides.
  have hdigits (n : Nat) (hn : n < 0x110000) : n / 64 / 64 = n / 4096 ∧
      n / 4096 / 64 = n / 262144 ∧ n / 262144 % 8 = n / 262144 := by omega
  have hv := hdigits v (by omega)
  have hw := hdigits w hd
  simp only []
  repeat' split
  all_goals simp (disch := omega) only [List.cons_append, List.nil_append, List.cons_lt_cons_iff,
    ofNat_lt_ofNat, ofNat_eq_ofNat]
  all_goals omega

theorem encodeChar_ne_nil (c : Char) : String.utf8EncodeChar c ≠ [] := by
  unfold String.utf8EncodeChar
  simp only []
  repeat' split
  all_goals simp

/-! ## Texts and lists of texts -/

theorem append_lt_append {xs ys : List UInt8} (h : xs < ys) (front : List UInt8) :
    front ++ xs < front ++ ys := by
  induction front with
  | nil => exact h
  | cons b front ih => exact List.cons_lt_cons_iff.mpr (.inr ⟨rfl, ih⟩)

theorem encode_lt_encode {cs ds : List Char} (h : cs < ds) : encode cs < encode ds := by
  induction h with
  | nil =>
    rename_i d ds
    rcases List.exists_cons_of_ne_nil (encodeChar_ne_nil d) with ⟨b, more, hbytes⟩
    simp only [encode, List.flatMap_nil, List.flatMap_cons, hbytes, List.cons_append]
    exact List.nil_lt_cons b _
  | rel h => exact encodeChar_append_lt h _ _
  | cons h ih => exact append_lt_append ih _

theorem ofText_lt_ofText {s t : String} (h : s < t) : ofText s < ofText t :=
  encode_lt_encode (String.lt_iff.mp h)

theorem lt_of_compare_eq_lt {s t : String} (h : compare s t = .lt) : s < t := by
  have h : compareOfLessAndEq s t = .lt := h
  unfold compareOfLessAndEq at h
  split at h
  · assumption
  · split at h <;> cases h

/-- Lists are compared as they are ordered, if their elements are. -/
theorem compare_eq_lt_iff {α : Type} [Ord α] [LT α] [Std.LawfulEqOrd α]
    (hlt : ∀ a b : α, compare a b = .lt ↔ a < b) {xs ys : List α} :
    compare xs ys = .lt ↔ xs < ys := by
  induction xs generalizing ys with
  | nil =>
    cases ys with
    | nil => exact iff_of_false nofun nofun
    | cons y ys => exact iff_of_true rfl (List.nil_lt_cons y ys)
  | cons x xs ih =>
    cases ys with
    | nil => exact iff_of_false nofun nofun
    | cons y ys =>
      rw [List.compare_cons_cons, Ordering.then_eq_lt, hlt, Std.LawfulEqOrd.compare_eq_iff_eq, ih,
        List.cons_lt_cons_iff]

theorem compare_bytes_eq_lt_iff {xs ys : List UInt8} : compare xs ys = .lt ↔ xs < ys :=
  compare_eq_lt_iff fun _ _ => Std.compare_eq_lt

theorem compare_ofText (s t : String) : compare (ofText s) (ofText t) = compare s t := by
  cases h : compare s t with
  | lt => exact compare_bytes_eq_lt_iff.mpr (ofText_lt_ofText (lt_of_compare_eq_lt h))
  | eq => rw [Std.LawfulEqOrd.eq_of_compare h, Std.ReflOrd.compare_self]
  | gt =>
    have hlt := lt_of_compare_eq_lt (Std.OrientedCmp.lt_of_gt h)
    exact Std.OrientedCmp.gt_of_lt (compare_bytes_eq_lt_iff.mpr (ofText_lt_ofText hlt))

/-- Lists of texts are ordered as their bytes are. -/
theorem compare_map_ofText (ss ts : List String) :
    compare (ss.map ofText) (ts.map ofText) = compare ss ts := by
  induction ss generalizing ts with
  | nil => cases ts <;> rfl
  | cons s ss ih =>
    cases ts with
    | nil => rfl
    | cons t ts =>
      rw [List.map_cons, List.map_cons, List.compare_cons_cons, compare_ofText, ih,
        List.compare_cons_cons]

/-- Lists of texts that come one before the other do so by their bytes, too. -/
theorem map_ofText_lt_of_compare {ss ts : List String} (h : compare ss ts = .lt) :
    ss.map ofText < ts.map ofText := by
  rw [← compare_map_ofText] at h
  exact (compare_eq_lt_iff fun _ _ => compare_bytes_eq_lt_iff).mp h

end CompileCommands.Utf8
