-- Strings that are written are read back. Each character is written as itself
-- or as an escape, and either way the reader is left with its bytes.
import CompileCommands.Json.TextReader
import CompileCommands.Json.Value
import CompileCommands.Proofs.Utf8.Decoding

namespace CompileCommands

namespace Utf8

theorem encode_append (cs ds : List Char) : encode (cs ++ ds) = encode cs ++ encode ds :=
  List.flatMap_append

theorem ofText_append (s t : String) : ofText (s ++ t) = ofText s ++ ofText t := by
  unfold ofText
  rw [String.toList_append, encode_append]

theorem ofText_ofList (cs : List Char) : ofText (String.ofList cs) = encode cs := by
  unfold ofText
  rw [String.toList_ofList]

/-- A byte of a character is the character itself, or no byte of ASCII. -/
theorem toNat_of_mem_encodeChar {c : Char} {b : UInt8} (h : b ∈ String.utf8EncodeChar c) :
    b.toNat = c.toNat ∨ 0x80 ≤ b.toNat := by
  have hval : c.val.toNat = c.toNat := rfl
  have hlarge : ∀ {n : Nat}, b = UInt8.ofNat n → 0x80 ≤ n ∧ n < 256 → 0x80 ≤ b.toNat := by
    intro n hb hn
    rw [hb, byte_toNat hn.2]
    exact hn.1
  unfold String.utf8EncodeChar at h
  simp only [hval] at h
  split at h
  · left
    rw [List.mem_singleton.mp h]
    exact byte_toNat (by omega)
  · right
    split at h
    · simp only [List.mem_cons, List.not_mem_nil, or_false] at h
      rcases h with h | h <;> exact hlarge h (by omega)
    · split at h
      · simp only [List.mem_cons, List.not_mem_nil, or_false] at h
        rcases h with h | h | h <;> exact hlarge h (by omega)
      · simp only [List.mem_cons, List.not_mem_nil, or_false] at h
        rcases h with h | h | h | h <;> exact hlarge h (by omega)

end Utf8

namespace Json

open Utf8

namespace TextReader

/-- The string after some bytes that go on with it. -/
def read? (t : TextReader) : List UInt8 → Option TextReader
  | [] => some t
  | b :: rest =>
    match t.step b with
    | .more t => t.read? rest
    | _ => none

theorem read?_append {t t' : TextReader} {xs : List UInt8} (h : t.read? xs = some t')
    (ys : List UInt8) : t.read? (xs ++ ys) = t'.read? ys := by
  induction xs generalizing t with
  | nil =>
    cases h
    rfl
  | cons x xs ih =>
    simp only [read?] at h
    split at h
    · rename_i next hstep
      simp only [List.cons_append, read?, hstep]
      exact ih h
    · cases h

/-- A byte that stands for itself in a string. -/
def IsPlain (b : UInt8) : Prop := b ≠ 0x22 ∧ b ≠ 0x5C ∧ ¬ b < 0x20

theorem read?_plain (read : List UInt8) {bytes : List UInt8} (h : ∀ b ∈ bytes, IsPlain b) :
    read? ⟨.plain, read⟩ bytes = some ⟨.plain, bytes.reverse ++ read⟩ := by
  induction bytes generalizing read with
  | nil => rfl
  | cons b bytes ih =>
    obtain ⟨hquote, hslash, hcontrol⟩ := h b (by simp)
    have hstep : step ⟨.plain, read⟩ b = .more ⟨.plain, b :: read⟩ := by
      simp [step, hquote, hslash, hcontrol, push]
    simp only [read?, hstep]
    rw [ih (b :: read) fun b hb => h b (by simp [hb])]
    simp

end TextReader

theorem isPlain_of_mem_encodeChar {c : Char} (hquote : c ≠ '"') (hslash : c ≠ '\\')
    (hcontrol : ¬ c < ' ') {b : UInt8} (h : b ∈ String.utf8EncodeChar c) :
    TextReader.IsPlain b := by
  have hnumber : ∀ {d : Char}, c ≠ d → c.toNat ≠ d.toNat := by
    intro d hne heq
    exact hne (Char.toNat_inj.mp heq)
  have hquote' : c.toNat ≠ 0x22 := hnumber hquote
  have hslash' : c.toNat ≠ 0x5C := hnumber hslash
  have hcontrol' : ¬ c.toNat < 0x20 := fun hlt => hcontrol (UInt32.lt_iff_toNat_lt.mpr hlt)
  have hb := toNat_of_mem_encodeChar h
  refine ⟨?_, ?_, ?_⟩
  · rintro rfl
    have : (0x22 : UInt8).toNat = 0x22 := rfl
    omega
  · rintro rfl
    have : (0x5C : UInt8).toNat = 0x5C := rfl
    omega
  · rw [UInt8.lt_iff_toNat_lt]
    have : (0x20 : UInt8).toNat = 0x20 := rfl
    omega

theorem hexNumber?_digits : ∀ n < 32, hexNumber? [0x30, 0x30,
    UInt8.ofNat (Nat.digitChar (n / 16)).toNat, UInt8.ofNat (Nat.digitChar (n % 16)).toNat] =
      some n := by
  decide

theorem encodeChar_digitChar : ∀ d < 16, String.utf8EncodeChar (Nat.digitChar d) =
    [UInt8.ofNat (Nat.digitChar d).toNat] := by
  decide

theorem encode_escapeByNumber {c : Char} (h : c.toNat < 32) : encode (escapeByNumber c) =
    [0x5C, 0x75, 0x30, 0x30, UInt8.ofNat (Nat.digitChar (c.toNat / 16)).toNat,
      UInt8.ofNat (Nat.digitChar (c.toNat % 16)).toNat] := by
  have hhigh := encodeChar_digitChar (c.toNat / 16) (by omega)
  have hlow := encodeChar_digitChar (c.toNat % 16) (by omega)
  simp only [escapeByNumber, encode, List.flatMap_cons, List.flatMap_nil, hhigh, hlow]
  rfl

theorem read?_escapeByNumber (read : List UInt8) {c : Char} (h : c.toNat < 32) :
    TextReader.read? ⟨.plain, read⟩ (encode (escapeByNumber c)) =
      some ⟨.plain, (String.utf8EncodeChar c).reverse ++ read⟩ := by
  have hnumber := hexNumber?_digits c.toNat h
  rw [encode_escapeByNumber h]
  generalize UInt8.ofNat (Nat.digitChar (c.toNat / 16)).toNat = high at hnumber ⊢
  generalize UInt8.ofNat (Nat.digitChar (c.toNat % 16)).toNat = low at hnumber ⊢
  have hlow : isLowSurrogate c.toNat = false := by
    simp only [isLowSurrogate, Bool.and_eq_false_iff, decide_eq_false_iff_not]
    omega
  have hhigh : isHighSurrogate c.toNat = false := by
    simp only [isHighSurrogate, Bool.and_eq_false_iff, decide_eq_false_iff_not]
    omega
  have hlast : TextReader.step ⟨.digits none [high, 0x30, 0x30], read⟩ low =
      .more ⟨.plain, (String.utf8EncodeChar c).reverse ++ read⟩ := by
    simp [TextReader.step, hnumber, TextReader.number, hlow, hhigh, TextReader.pushChar,
      Char.ofNat_toNat]
  have hfirst : TextReader.read? ⟨.plain, read⟩ [0x5C, 0x75, 0x30, 0x30, high] =
      some ⟨.digits none [high, 0x30, 0x30], read⟩ := rfl
  have hall := TextReader.read?_append hfirst [low]
  simpa only [List.cons_append, List.nil_append, TextReader.read?, hlast] using hall

/-- A character that is written is read back, whatever its escape is. -/
theorem read?_escape (read : List UInt8) (c : Char) :
    TextReader.read? ⟨.plain, read⟩ (encode (escape c)) =
      some ⟨.plain, (String.utf8EncodeChar c).reverse ++ read⟩ := by
  unfold escape
  split
  · subst_vars; rfl
  split
  · subst_vars; rfl
  split
  · subst_vars; rfl
  split
  · subst_vars; rfl
  split
  · subst_vars; rfl
  split
  · subst_vars; rfl
  split
  · subst_vars; rfl
  split
  · rename_i hcontrol
    have hsmall : c.toNat < 32 := UInt32.lt_iff_toNat_lt.mp hcontrol
    exact read?_escapeByNumber read hsmall
  · rename_i hquote hslash _ _ _ _ _ hcontrol
    have hbytes : encode [c] = String.utf8EncodeChar c := by simp [encode]
    rw [hbytes]
    have hplain : ∀ b ∈ String.utf8EncodeChar c, TextReader.IsPlain b :=
      fun b hb => isPlain_of_mem_encodeChar hquote hslash hcontrol hb
    exact TextReader.read?_plain read hplain

theorem read?_flatMap (read : List UInt8) (cs : List Char) :
    TextReader.read? ⟨.plain, read⟩ (encode (cs.flatMap escape)) =
      some ⟨.plain, (encode cs).reverse ++ read⟩ := by
  induction cs generalizing read with
  | nil => rfl
  | cons c cs ih =>
    have hchar := TextReader.read?_append (read?_escape read c) (encode (cs.flatMap escape))
    have hbytes : encode (c :: cs) = String.utf8EncodeChar c ++ encode cs := List.flatMap_cons
    rw [List.flatMap_cons, encode_append, hchar, ih, hbytes, List.reverse_append, List.append_assoc]

theorem decodeText_encode (cs : List Char) : decodeText (encode cs) = .ok (String.ofList cs) := by
  unfold decodeText
  rw [decodeStart_encode]

end Json

end CompileCommands
