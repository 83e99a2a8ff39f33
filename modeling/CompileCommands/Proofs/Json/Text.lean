-- The strings of a record, as far as their start goes. What a string starts
-- with is seen in its bytes: a letter stands for itself, and whatever else
-- makes a letter is an escape.
import CompileCommands.Proofs.Json.Skipping

namespace CompileCommands

/-! ## The first character of a text -/

namespace Utf8

theorem toNat_ofNat {n : Nat} (h : n.isValidChar) : (Char.ofNat n).toNat = n := by
  have hchar : Char.ofNat n = Char.ofNatAux n h := dif_pos h
  rw [hchar]
  rfl

theorem charAt?_toNat {number least : Nat} {c : Char} (h : charAt? number least = some c) :
    least ≤ c.toNat := by
  unfold charAt? at h
  split at h
  · rename_i hn
    cases h
    simp only [Bool.and_eq_true, decide_eq_true_eq, Bool.not_eq_true', Bool.and_eq_false_iff,
      decide_eq_false_iff_not] at hn
    rw [toNat_ofNat (by unfold Nat.isValidChar; omega)]
    omega
  · cases h

theorem char2?_toNat {a b : UInt8} {c : Char} (h : char2? a b = some c) : 0x80 ≤ c.toNat := by
  unfold char2? at h
  split at h
  · exact charAt?_toNat h
  · cases h

theorem char3?_toNat {a b d : UInt8} {c : Char} (h : char3? a b d = some c) : 0x80 ≤ c.toNat := by
  unfold char3? at h
  split at h
  · exact Nat.le_trans (by decide) (charAt?_toNat h)
  · cases h

theorem char4?_toNat {a b d e : UInt8} {c : Char} (h : char4? a b d e = some c) :
    0x80 ≤ c.toNat := by
  unfold char4? at h
  split at h
  · exact Nat.le_trans (by decide) (charAt?_toNat h)
  · cases h

/-- The first byte of a text is its first character, if that one is of ASCII. -/
theorem decodeStart_head {b : UInt8} {rest left : List UInt8} {c : Char} {cs : List Char}
    (h : decodeStart (b :: rest) = (c :: cs, left)) (hc : c.toNat < 0x80) :
    b < 0x80 ∧ c = Char.ofNat b.toNat := by
  unfold decodeStart at h
  split at h
  · rename_i hb
    simp only [Prod.mk.injEq, List.cons.injEq] at h
    exact ⟨hb, h.1.1.symm⟩
  · exfalso
    split at h
    · cases h
    · split at h
      · cases h
        exact absurd (char2?_toNat ‹_›) (by omega)
      · split at h
        · cases h
        · split at h
          · cases h
            exact absurd (char3?_toNat ‹_›) (by omega)
          · split at h
            · cases h
            · split at h
              · cases h
                exact absurd (char4?_toNat ‹_›) (by omega)
              · cases h

end Utf8

/-! ## The bytes of a string -/

namespace Json.TextReader

/-- The string that the bytes go on with, up to its closing quote. -/
def text? (t : TextReader) : List UInt8 → Option String
  | [] => none
  | b :: rest =>
    match t.step b with
    | .more t => t.text? rest
    | .closed bytes => (decodeText bytes).toOption
    | .fail _ => none

theorem number_suffix {t t' : TextReader} {high : Option Nat} {n : Nat}
    (h : t.number high n = .more t') : t.bytes <:+ t'.bytes := by
  unfold number at h
  grind [pushChar]

/-- What was read of a string stays at its start. -/
theorem step_suffix {t t' : TextReader} {b : UInt8} (h : t.step b = .more t') :
    t.bytes <:+ t'.bytes := by
  have hnumber := @number_suffix t t'
  unfold step at h
  grind [push]

theorem step_closed {t : TextReader} {b : UInt8} {bytes : List UInt8}
    (h : t.step b = .closed bytes) :
    t.place = .plain ∧ b = 0x22 ∧ bytes = t.bytes.reverse := by
  have hnumber := number_ne_closed t
  unfold step at h
  grind

theorem text?_bytes {t : TextReader} {rest : List UInt8} {s : String}
    (h : t.text? rest = some s) :
    ∃ bytes, decodeText bytes = .ok s ∧ t.bytes.reverse <+: bytes := by
  induction rest generalizing t with
  | nil => cases h
  | cons b rest ih =>
    simp only [text?] at h
    split at h
    · rename_i t' hstep
      obtain ⟨bytes, hdecode, hstart⟩ := ih h
      exact ⟨bytes, hdecode, (List.reverse_prefix.mpr (step_suffix hstep)).trans hstart⟩
    · rename_i bytes hstep
      obtain ⟨-, -, rfl⟩ := step_closed hstep
      refine ⟨t.bytes.reverse, ?_, List.prefix_rfl⟩
      cases hdecode : decodeText t.bytes.reverse with
      | ok s' => rw [hdecode] at h; cases h; rfl
      | error n => rw [hdecode] at h; cases h
    · cases h

end Json.TextReader

end CompileCommands
