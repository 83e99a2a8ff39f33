-- Characters read back from their bytes. The first byte of a character tells
-- how many bytes there are, and the six bits of each follower fill up its
-- number, so no text is lost when it is written as bytes.
import CompileCommands.Utf8

namespace CompileCommands.Utf8

/-! ## Bytes and numbers -/

theorem byte_toNat {n : Nat} (h : n < 256) : (UInt8.ofNat n).toNat = n :=
  UInt8.toNat_ofNat_of_lt' h

theorem isFollower_ofNat {n : Nat} (h : n < 64) : isFollower (UInt8.ofNat (n + 128)) = true := by
  have hbyte := byte_toNat (show n + 128 < 256 by omega)
  unfold isFollower
  rw [Bool.and_eq_true, decide_eq_true_eq, decide_eq_true_eq, UInt8.le_iff_toNat_le,
    UInt8.lt_iff_toNat_lt, hbyte]
  exact ⟨Nat.le_add_left 128 n, Nat.add_lt_add_right h 128⟩

theorem followerBits_ofNat {n : Nat} (h : n < 64) : followerBits (UInt8.ofNat (n + 128)) = n := by
  unfold followerBits
  rw [byte_toNat (by omega)]
  exact Nat.add_sub_cancel n 128

theorem charAt?_toNat_eq {c : Char} {least : Nat} (h : least ≤ c.toNat) :
    charAt? c.toNat least = some c := by
  have hc : c.toNat < 0xD800 ∨ 0xDFFF < c.toNat ∧ c.toNat < 0x110000 := c.valid
  have hnumber : (decide (least ≤ c.toNat) && decide (c.toNat < 0x110000) &&
      !(decide (0xD800 ≤ c.toNat) && decide (c.toNat < 0xE000))) = true := by
    simp only [Bool.and_eq_true, decide_eq_true_eq, Bool.not_eq_true', Bool.and_eq_false_iff,
      decide_eq_false_iff_not]
    omega
  unfold charAt?
  rw [if_pos hnumber, Char.ofNat_toNat]

/-! ## The first byte of a character -/

section FirstByte

variable {a b d e : UInt8}

theorem char2?_eq_none (h : 0xE0 ≤ a.toNat) : char2? a b = none := by
  have ha : ¬ a < 0xE0 := by
    rw [UInt8.lt_iff_toNat_lt]
    exact Nat.not_lt.mpr h
  simp [char2?, ha]

theorem char3?_eq_none (h : 0xF0 ≤ a.toNat) : char3? a b d = none := by
  have ha : ¬ a < 0xF0 := by
    rw [UInt8.lt_iff_toNat_lt]
    exact Nat.not_lt.mpr h
  simp [char3?, ha]

theorem char2?_eq (hlow : 0xC0 ≤ a.toNat) (hhigh : a.toNat < 0xE0) (hb : isFollower b = true) :
    char2? a b = charAt? ((a.toNat - 0xC0) * 0x40 + followerBits b) 0x80 := by
  have hfirst : 0xC0 ≤ a ∧ a < 0xE0 :=
    ⟨UInt8.le_iff_toNat_le.mpr hlow, UInt8.lt_iff_toNat_lt.mpr hhigh⟩
  simp [char2?, hfirst, hb]

theorem char3?_eq (hlow : 0xE0 ≤ a.toNat) (hhigh : a.toNat < 0xF0) (hb : isFollower b = true)
    (hd : isFollower d = true) : char3? a b d =
      charAt? (((a.toNat - 0xE0) * 0x40 + followerBits b) * 0x40 + followerBits d) 0x800 := by
  have hfirst : 0xE0 ≤ a ∧ a < 0xF0 :=
    ⟨UInt8.le_iff_toNat_le.mpr hlow, UInt8.lt_iff_toNat_lt.mpr hhigh⟩
  simp [char3?, hfirst, hb, hd]

theorem char4?_eq (hlow : 0xF0 ≤ a.toNat) (hhigh : a.toNat < 0xF8) (hb : isFollower b = true)
    (hd : isFollower d = true) (he : isFollower e = true) : char4? a b d e =
      charAt? ((((a.toNat - 0xF0) * 0x40 + followerBits b) * 0x40 + followerBits d) * 0x40 +
        followerBits e) 0x10000 := by
  have hfirst : 0xF0 ≤ a ∧ a < 0xF8 :=
    ⟨UInt8.le_iff_toNat_le.mpr hlow, UInt8.lt_iff_toNat_lt.mpr hhigh⟩
  simp [char4?, hfirst, hb, hd, he]

end FirstByte

/-! ## One character -/

theorem char2?_encode {c : Char} (hlow : 0x80 ≤ c.toNat) (hhigh : c.toNat ≤ 0x7FF) :
    char2? (UInt8.ofNat (c.toNat / 64 % 32 + 192)) (UInt8.ofNat (c.toNat % 64 + 128)) = some c := by
  have hfirst := byte_toNat (show c.toNat / 64 % 32 + 192 < 256 by omega)
  have hnumber : c.toNat / 64 % 32 * 64 + c.toNat % 64 = c.toNat := by omega
  rw [char2?_eq (by omega) (by omega) (isFollower_ofNat (by omega)), hfirst,
    followerBits_ofNat (by omega), Nat.add_sub_cancel, hnumber, charAt?_toNat_eq hlow]

theorem char3?_encode {c : Char} (hlow : 0x800 ≤ c.toNat) (hhigh : c.toNat ≤ 0xFFFF) :
    char3? (UInt8.ofNat (c.toNat / 4096 % 16 + 224)) (UInt8.ofNat (c.toNat / 64 % 64 + 128))
      (UInt8.ofNat (c.toNat % 64 + 128)) = some c := by
  have hfirst := byte_toNat (show c.toNat / 4096 % 16 + 224 < 256 by omega)
  have hnumber : (c.toNat / 4096 % 16 * 64 + c.toNat / 64 % 64) * 64 + c.toNat % 64 =
      c.toNat := by omega
  rw [char3?_eq (by omega) (by omega) (isFollower_ofNat (by omega)) (isFollower_ofNat (by omega)),
    hfirst, followerBits_ofNat (by omega), followerBits_ofNat (by omega), Nat.add_sub_cancel,
    hnumber, charAt?_toNat_eq hlow]

theorem char4?_encode {c : Char} (hlow : 0x10000 ≤ c.toNat) :
    char4? (UInt8.ofNat (c.toNat / 262144 % 8 + 240)) (UInt8.ofNat (c.toNat / 4096 % 64 + 128))
      (UInt8.ofNat (c.toNat / 64 % 64 + 128)) (UInt8.ofNat (c.toNat % 64 + 128)) = some c := by
  have hc : c.toNat < 0xD800 ∨ 0xDFFF < c.toNat ∧ c.toNat < 0x110000 := c.valid
  have hfirst := byte_toNat (show c.toNat / 262144 % 8 + 240 < 256 by omega)
  have hnumber : ((c.toNat / 262144 % 8 * 64 + c.toNat / 4096 % 64) * 64 + c.toNat / 64 % 64) * 64 +
      c.toNat % 64 = c.toNat := by omega
  rw [char4?_eq (by omega) (by omega) (isFollower_ofNat (by omega)) (isFollower_ofNat (by omega))
      (isFollower_ofNat (by omega)), hfirst, followerBits_ofNat (by omega),
    followerBits_ofNat (by omega), followerBits_ofNat (by omega), Nat.add_sub_cancel, hnumber,
    charAt?_toNat_eq hlow]

theorem not_lt_ascii {n : Nat} (hlow : 128 ≤ n) (hhigh : n < 256) : ¬ UInt8.ofNat n < 0x80 := by
  rw [UInt8.lt_iff_toNat_lt, byte_toNat hhigh]
  exact Nat.not_lt.mpr hlow

theorem decodeStart_encodeChar (c : Char) (rest : List UInt8) :
    decodeStart (String.utf8EncodeChar c ++ rest) =
      (c :: (decodeStart rest).1, (decodeStart rest).2) := by
  have hval : c.val.toNat = c.toNat := rfl
  unfold String.utf8EncodeChar
  simp only [hval]
  split
  · have hbyte := byte_toNat (show c.toNat < 256 by omega)
    have hsmall : UInt8.ofNat c.toNat < 0x80 := by
      rw [UInt8.lt_iff_toNat_lt, hbyte]
      exact Nat.lt_succ_of_le ‹_›
    simp only [List.cons_append, List.nil_append]
    rw [decodeStart.eq_def]
    simp only [if_pos hsmall, hbyte, Char.ofNat_toNat]
  · split
    · have hfirst := not_lt_ascii (show 128 ≤ c.toNat / 64 % 32 + 192 by omega) (by omega)
      have hchar := char2?_encode (show 0x80 ≤ c.toNat by omega) (by assumption)
      simp only [List.cons_append, List.nil_append]
      rw [decodeStart.eq_def]
      simp only [if_neg hfirst, hchar]
    · split
      · have hfirst := not_lt_ascii (show 128 ≤ c.toNat / 4096 % 16 + 224 by omega) (by omega)
        have hbyte := byte_toNat (show c.toNat / 4096 % 16 + 224 < 256 by omega)
        have hshort : ∀ b, char2? (UInt8.ofNat (c.toNat / 4096 % 16 + 224)) b = none :=
          fun b => char2?_eq_none (by omega)
        have hchar := char3?_encode (show 0x800 ≤ c.toNat by omega) (by assumption)
        simp only [List.cons_append, List.nil_append]
        rw [decodeStart.eq_def]
        simp only [if_neg hfirst, hshort, hchar]
      · have hfirst := not_lt_ascii (show 128 ≤ c.toNat / 262144 % 8 + 240 by omega) (by omega)
        have hbyte := byte_toNat (show c.toNat / 262144 % 8 + 240 < 256 by omega)
        have hshort : ∀ b, char2? (UInt8.ofNat (c.toNat / 262144 % 8 + 240)) b = none :=
          fun b => char2?_eq_none (by omega)
        have hlonger : ∀ b d, char3? (UInt8.ofNat (c.toNat / 262144 % 8 + 240)) b d = none :=
          fun b d => char3?_eq_none (by omega)
        have hchar := char4?_encode (show 0x10000 ≤ c.toNat by omega)
        simp only [List.cons_append, List.nil_append]
        rw [decodeStart.eq_def]
        simp only [if_neg hfirst, hshort, hlonger, hchar]

/-- Each text is read back from its bytes. -/
theorem decodeStart_encode (cs : List Char) : decodeStart (encode cs) = (cs, []) := by
  induction cs with
  | nil => rfl
  | cons c cs ih =>
    have hcons : encode (c :: cs) = String.utf8EncodeChar c ++ encode cs := List.flatMap_cons
    rw [hcons, decodeStart_encodeChar, ih]

/-- Where all bytes decode, none of them is replaced. -/
theorem lossy_encode (cs : List Char) : lossy (encode cs) = cs := by
  rw [lossy]
  split
  · rename_i hdecoded
    rw [decodeStart_encode] at hdecoded
    exact (congrArg Prod.fst hdecoded).symm
  · rename_i hdecoded
    rw [decodeStart_encode] at hdecoded
    cases hdecoded

theorem lossy_byte {b : UInt8} (h : 0x80 ≤ b) : lossy [b] = [replacement] := by
  have hstart : decodeStart [b] = ([], [b]) := by
    unfold decodeStart
    exact if_neg (UInt8.not_lt.mpr h)
  rw [lossy]
  split
  · rename_i hdecoded
    rw [hstart] at hdecoded
    cases hdecoded
  · rename_i hdecoded
    rw [hstart] at hdecoded
    cases hdecoded
    have hnil : lossy [] = [] := lossy_encode []
    exact congrArg (replacement :: ·) hnil

end CompileCommands.Utf8
