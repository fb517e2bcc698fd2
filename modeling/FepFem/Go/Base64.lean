import FepFem.Go.Utf8
import Mathlib.Data.List.Nodup

/-
`encoding/base64`'s `StdEncoding`: the standard alphabet, with `=` padding and without strict checking of the
unused bits, as `Sign` writes a signature into `Sig` and `Verify` reads it back.

`encodeToString` writes four characters for each three bytes and pads the last group. `decodeString` skips `\r`
and `\n` wherever they are, then reads groups of four characters; padding may only close the last group.

Results:
- `decodeString_encodeToString`: decoding what the encoder wrote gives the bytes back;
- `encodeToString_ascii`: the encoder writes ASCII only, so the text is valid UTF-8 and survives JSON unchanged.
-/

namespace FepFem.Base64

/-- `encodeStd` -/
def alphabet : Bytes := ascii "ABCDEFGHIJKLMNOPQRSTUVWXYZabcdefghijklmnopqrstuvwxyz0123456789+/"

/-- the character of a 6-bit value -/
def char (n : Nat) : UInt8 := alphabet.getD n 0

/-- the padding character -/
def pad : UInt8 := 0x3D

/-- `StdEncoding.EncodeToString` -/
def encodeToString : Bytes → Bytes
  | a :: b :: c :: rest =>
    [char (a.toNat / 4), char (a.toNat % 4 * 16 + b.toNat / 16), char (b.toNat % 16 * 4 + c.toNat / 64),
      char (c.toNat % 64)] ++ encodeToString rest
  | [a, b] => [char (a.toNat / 4), char (a.toNat % 4 * 16 + b.toNat / 16), char (b.toNat % 16 * 4), pad]
  | [a] => [char (a.toNat / 4), char (a.toNat % 4 * 16), pad, pad]
  | [] => []

/-- `decodeMap`: the 6-bit value of a character of the alphabet -/
def value (c : UInt8) : Option Nat := alphabet.indexOf? c

/-- the groups of four characters after the newlines are gone; `none` is a `CorruptInputError` -/
def decodeGroups : Bytes → Option Bytes
  | [] => some []
  | a :: b :: c :: d :: rest =>
    match value a, value b with
    | some x, some y =>
      if c = pad then
        if d = pad ∧ rest = [] then some [(x * 4 + y / 16).toUInt8] else none
      else
        match value c with
        | none => none
        | some z =>
          if d = pad then
            if rest = [] then some [(x * 4 + y / 16).toUInt8, (y % 16 * 16 + z / 4).toUInt8] else none
          else
            match value d with
            | none => none
            | some w => (decodeGroups rest).map
                ([(x * 4 + y / 16).toUInt8, (y % 16 * 16 + z / 4).toUInt8, (z % 4 * 64 + w).toUInt8] ++ ·)
    | _, _ => none
  | _ => none

/-- `StdEncoding.DecodeString` -/
def decodeString (s : Bytes) : Option Bytes := decodeGroups (s.filter fun c => c != 0x0A && c != 0x0D)

/-! ## The alphabet -/

theorem length_alphabet : alphabet.length = 64 := rfl

theorem alphabet_nodup : alphabet.Nodup := by decide

theorem alphabet_chars : ∀ c ∈ alphabet, c.toNat < 0x80 ∧ c ≠ 0x0A ∧ c ≠ 0x0D ∧ c ≠ pad := by decide

theorem char_eq_getElem {n : Nat} (h : n < alphabet.length) : char n = alphabet[n] := by
  rw [char, List.getD_eq_getElem?_getD, List.getElem?_eq_getElem h, Option.getD_some]

/-- a character's value is its position in the alphabet, which holds no character twice -/
theorem value_char {n : Nat} (h : n < 64) : value (char n) = some n := by
  rw [← length_alphabet] at h
  have hi := List.indexOf_getElem alphabet_nodup n h
  rw [List.indexOf_eq_indexOf?] at hi
  rw [value, char_eq_getElem h]
  cases hx : alphabet.indexOf? alphabet[n] with
  | none => exact absurd (List.indexOf?_eq_none_iff.1 hx _ (List.getElem_mem h)) (by simp)
  | some i => simp only [hx] at hi; rw [hi]

theorem char_ne_pad {n : Nat} (h : n < 64) : char n ≠ pad := by
  rw [← length_alphabet] at h
  rw [char_eq_getElem h]
  exact (alphabet_chars _ (List.getElem_mem h)).2.2.2

theorem char_ascii {n : Nat} (h : n < 64) : (char n).toNat < 0x80 ∧ char n ≠ 0x0A ∧ char n ≠ 0x0D := by
  rw [← length_alphabet] at h
  rw [char_eq_getElem h]
  exact (alphabet_chars _ (List.getElem_mem h)).imp_right fun h => ⟨h.1, h.2.1⟩

/-! ## What the encoder writes, and reading it back -/

theorem encodeToString_ascii (b : Bytes) : ∀ c ∈ encodeToString b, c.toNat < 0x80 ∧ c ≠ 0x0A ∧ c ≠ 0x0D := by
  have pad_ok : pad.toNat < 0x80 ∧ pad ≠ 0x0A ∧ pad ≠ 0x0D := by decide
  induction b using encodeToString.induct with
  | case1 a b c rest ih =>
    simp only [encodeToString, List.mem_append, List.mem_cons, List.mem_singleton, List.not_mem_nil, or_false]
    have := a.toNat_lt_size; have := b.toNat_lt_size; have := c.toNat_lt_size
    simp only [UInt8.size] at *
    rintro x ((rfl | rfl | rfl | rfl) | hx)
    all_goals first | exact ih x hx | exact char_ascii (by omega)
  | case2 a b =>
    simp only [encodeToString, List.mem_cons, List.mem_singleton, List.not_mem_nil, or_false]
    have := a.toNat_lt_size; have := b.toNat_lt_size
    simp only [UInt8.size] at *
    rintro x (rfl | rfl | rfl | rfl)
    all_goals first | exact pad_ok | exact char_ascii (by omega)
  | case3 a =>
    simp only [encodeToString, List.mem_cons, List.mem_singleton, List.not_mem_nil, or_false]
    have := a.toNat_lt_size
    simp only [UInt8.size] at *
    rintro x (rfl | rfl | rfl | rfl)
    all_goals first | exact pad_ok | exact char_ascii (by omega)
  | case4 => simp [encodeToString]

theorem toUInt8_eq {n : Nat} {a : UInt8} (h : n = a.toNat) : n.toUInt8 = a := by rw [h, UInt8.toUInt8_toNat]

theorem decodeGroups_encodeToString (b : Bytes) : decodeGroups (encodeToString b) = some b := by
  induction b using encodeToString.induct with
  | case1 a b c rest ih =>
    have ha := a.toNat_lt_size; have hb := b.toNat_lt_size; have hc := c.toNat_lt_size
    simp only [UInt8.size] at ha hb hc
    simp only [encodeToString, List.cons_append, List.nil_append, decodeGroups,
      value_char (show a.toNat / 4 < 64 by omega), value_char (show a.toNat % 4 * 16 + b.toNat / 16 < 64 by omega),
      value_char (show b.toNat % 16 * 4 + c.toNat / 64 < 64 by omega), value_char (show c.toNat % 64 < 64 by omega),
      if_neg (char_ne_pad (show b.toNat % 16 * 4 + c.toNat / 64 < 64 by omega)),
      if_neg (char_ne_pad (show c.toNat % 64 < 64 by omega)), ih, Option.map_some']
    rw [toUInt8_eq (a := a) (by omega), toUInt8_eq (a := b) (by omega), toUInt8_eq (a := c) (by omega),
      show ([] : Bytes).append (encodeToString rest) = encodeToString rest from rfl, ih]
    rfl
  | case2 a b =>
    have ha := a.toNat_lt_size; have hb := b.toNat_lt_size
    simp only [UInt8.size] at ha hb
    simp only [encodeToString, decodeGroups,
      value_char (show a.toNat / 4 < 64 by omega), value_char (show a.toNat % 4 * 16 + b.toNat / 16 < 64 by omega),
      value_char (show b.toNat % 16 * 4 < 64 by omega), if_neg (char_ne_pad (show b.toNat % 16 * 4 < 64 by omega)),
      if_true, and_self]
    rw [toUInt8_eq (a := a) (by omega), toUInt8_eq (a := b) (by omega)]
  | case3 a =>
    have ha := a.toNat_lt_size
    simp only [UInt8.size] at ha
    simp only [encodeToString, decodeGroups, value_char (show a.toNat / 4 < 64 by omega),
      value_char (show a.toNat % 4 * 16 < 64 by omega), if_true, and_self]
    rw [toUInt8_eq (a := a) (by omega)]
  | case4 => rfl


theorem filter_encodeToString (b : Bytes) :
    (encodeToString b).filter (fun c => c != 0x0A && c != 0x0D) = encodeToString b :=
  List.filter_eq_self.2 fun c hc => by
    obtain ⟨-, h1, h2⟩ := encodeToString_ascii b c hc
    simp [h1, h2]

/-- decoding what the encoder wrote gives the bytes back -/
theorem decodeString_encodeToString (b : Bytes) : decodeString (encodeToString b) = some b := by
  rw [decodeString, filter_encodeToString, decodeGroups_encodeToString]

theorem encodeToString_ne_nil {b : Bytes} (h : b ≠ []) : encodeToString b ≠ [] := fun e => by
  have d := decodeString_encodeToString b
  rw [e] at d
  exact h (Option.some.inj d).symm

end FepFem.Base64
