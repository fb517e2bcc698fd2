import Mathlib.Data.List.Basic

/-
Bytes and UTF-8 as Go's `unicode/utf8` reads them: the layer under `encoding/json`'s string handling.

A Go `string` is any byte sequence, UTF-8 or not. `decodeRune` is `utf8.DecodeRune` at a string's first byte: an
ASCII byte, a well-formed multi-byte sequence with the rune it encodes, or a byte that starts no well-formed
sequence (`(RuneError, 1)`). `pieces` is the walk every decoder loop of `encoding/json` makes, one `DecodeRune`
at a time; `valid` is `utf8.Valid`. `encodeRune` is `utf8.EncodeRune`.

Results:
- `decodeRune_rune`: a well-formed sequence re-encodes to itself, so the decoder's coercion to UTF-8 leaves valid
  text alone, and it is read the same whatever follows it, so `pieces` splits at it;
- `decodeRune_cases`: every step reads an ASCII byte, a well-formed sequence, or one bad byte.
-/

namespace FepFem

/-- a Go `string` or `[]byte`: any sequence of bytes -/
abbrev Bytes := List UInt8

/-- the bytes of an ASCII literal of the source -/
def ascii (s : String) : Bytes := s.toList.map fun c => c.toNat.toUInt8

theorem UInt8.toUInt8_toNat (b : UInt8) : b.toNat.toUInt8 = b :=
  UInt8.toNat.inj (by simp [UInt8.toNat, Nat.toUInt8, UInt8.ofNat, BitVec.toNat_ofNat, b.toNat_lt_size])

theorem UInt8.toNat_toUInt8 {n : Nat} (h : n < 256) : n.toUInt8.toNat = n := UInt8.toNat_ofNat_of_lt h

theorem UInt8.le_iff {a b : UInt8} : a ≤ b ↔ a.toNat ≤ b.toNat := Iff.rfl

theorem UInt8.lt_iff {a b : UInt8} : a < b ↔ a.toNat < b.toNat := Iff.rfl

theorem UInt8.eq_iff {a b : UInt8} : a = b ↔ a.toNat = b.toNat := ⟨congrArg _, UInt8.toNat.inj⟩

@[simp] theorem UInt8.toNat_lit (n : Nat) : (no_index (OfNat.ofNat n) : UInt8).toNat = n % 256 := rfl

namespace Utf8

/-- `utf8.RuneError` -/
def runeError : Nat := 0xFFFD

/-- a piece of a string as Go's decoders step through it -/
inductive Piece where
  /-- a byte below `utf8.RuneSelf` -/
  | ascii (b : UInt8)
  /-- a well-formed multi-byte sequence and the rune it encodes -/
  | rune (r : Nat) (bs : Bytes)
  /-- a byte that starts no well-formed sequence: `DecodeRune` gives `(RuneError, 1)` -/
  | bad (b : UInt8)
  deriving DecidableEq, Repr

/-- the bytes a piece covers -/
def Piece.bytes : Piece → Bytes
  | .ascii b => [b]
  | .rune _ bs => bs
  | .bad b => [b]

/-- the pieces `DecodeRune` reports as `(RuneError, 1)` -/
def Piece.isBad : Piece → Bool
  | .bad _ => true
  | _ => false

/-- the rune `DecodeRune` returns for a piece: `RuneError` for an invalid byte -/
def Piece.val : Piece → Nat
  | .ascii b => b.toNat
  | .rune r _ => r
  | .bad _ => runeError

/-- `first` and `acceptRanges`: the length of a sequence led by `b` and the range of its second byte -/
def lead (b : UInt8) : Option (Nat × UInt8 × UInt8) :=
  if b < 0xC2 then none
  else if b < 0xE0 then some (2, 0x80, 0xBF)
  else if b = 0xE0 then some (3, 0xA0, 0xBF)
  else if b = 0xED then some (3, 0x80, 0x9F)
  else if b < 0xF0 then some (3, 0x80, 0xBF)
  else if b = 0xF0 then some (4, 0x90, 0xBF)
  else if b < 0xF4 then some (4, 0x80, 0xBF)
  else if b = 0xF4 then some (4, 0x80, 0x8F)
  else none

/-- a continuation byte, `locb ≤ b ≤ hicb` -/
def cont (b : UInt8) : Prop := 0x80 ≤ b ∧ b ≤ 0xBF

instance (b : UInt8) : Decidable (cont b) := inferInstanceAs (Decidable (_ ∧ _))

/-- `utf8.DecodeRune` at first byte `b0`: the piece it reads and the bytes after it -/
def decodeRune (b0 : UInt8) (p : Bytes) : Piece × Bytes :=
  if b0 < 0x80 then (.ascii b0, p) else
  match lead b0, p with
  | some (2, lo, hi), b1 :: q =>
    if lo ≤ b1 ∧ b1 ≤ hi then (.rune (b0.toNat % 32 * 64 + b1.toNat % 64) [b0, b1], q)
    else (.bad b0, p)
  | some (3, lo, hi), b1 :: b2 :: q =>
    if lo ≤ b1 ∧ b1 ≤ hi ∧ cont b2 then
      (.rune (b0.toNat % 16 * 4096 + b1.toNat % 64 * 64 + b2.toNat % 64) [b0, b1, b2], q)
    else (.bad b0, p)
  | some (4, lo, hi), b1 :: b2 :: b3 :: q =>
    if lo ≤ b1 ∧ b1 ≤ hi ∧ cont b2 ∧ cont b3 then
      (.rune (b0.toNat % 8 * 262144 + b1.toNat % 64 * 4096 + b2.toNat % 64 * 64 + b3.toNat % 64)
        [b0, b1, b2, b3], q)
    else (.bad b0, p)
  | _, _ => (.bad b0, p)

/-- the walk of a decoder loop, one `DecodeRune` a step; `n` bounds the steps -/
def piecesAux : Nat → Bytes → List Piece
  | _, [] => []
  | 0, _ :: _ => []
  | n + 1, b :: p => (decodeRune b p).1 :: piecesAux n (decodeRune b p).2

/-- the pieces of a string: one step per byte is always enough -/
def pieces (s : Bytes) : List Piece := piecesAux s.length s

/-- `utf8.Valid` -/
def valid (s : Bytes) : Bool := (pieces s).all fun u => !u.isBad

/-- `utf8.EncodeRune`; the or of disjoint bit fields is written as a sum -/
def encodeRune (r : Nat) : Bytes :=
  if r ≤ 0x7F then [r.toUInt8]
  else if r ≤ 0x7FF then [(0xC0 + r / 64).toUInt8, (0x80 + r % 64).toUInt8]
  else if 0x10FFFF < r ∨ (0xD800 ≤ r ∧ r ≤ 0xDFFF) then [0xEF, 0xBF, 0xBD]
  else if r ≤ 0xFFFF then
    [(0xE0 + r / 4096).toUInt8, (0x80 + r / 64 % 64).toUInt8, (0x80 + r % 64).toUInt8]
  else
    [(0xF0 + r / 262144).toUInt8, (0x80 + r / 4096 % 64).toUInt8, (0x80 + r / 64 % 64).toUInt8,
      (0x80 + r % 64).toUInt8]

/-! ## The decoder's steps -/

theorem decodeRune_bytes (b0 : UInt8) (p : Bytes) :
    (decodeRune b0 p).1.bytes ++ (decodeRune b0 p).2 = b0 :: p := by
  unfold decodeRune
  split
  · rfl
  · split <;> (try split) <;> rfl

theorem decodeRune_length (b0 : UInt8) (p : Bytes) : (decodeRune b0 p).2.length ≤ p.length := by
  unfold decodeRune
  split
  · exact le_rfl
  · split <;> (try split) <;> simp <;> omega

theorem decodeRune_ascii {b0 : UInt8} (h : b0 < 0x80) (p : Bytes) : decodeRune b0 p = (.ascii b0, p) := by
  simp [decodeRune, h]

@[simp] theorem piecesAux_nil (n : Nat) : piecesAux n [] = [] := by cases n <;> rfl

theorem piecesAux_eq_piecesAux {n m : Nat} {s : Bytes} (hn : s.length ≤ n) (hm : s.length ≤ m) :
    piecesAux n s = piecesAux m s := by
  induction n generalizing m s with
  | zero => cases s <;> simp_all
  | succ n ih =>
    cases s with
    | nil => simp
    | cons b p =>
      obtain ⟨m, rfl⟩ : ∃ k, m = k + 1 := ⟨m - 1, by simp at hm; omega⟩
      have := decodeRune_length b p
      simp only [List.length_cons] at hn hm
      simp only [piecesAux, ih (s := (decodeRune b p).2) (m := m) (by omega) (by omega)]

@[simp] theorem pieces_nil : pieces [] = [] := rfl

theorem pieces_cons (b : UInt8) (p : Bytes) :
    pieces (b :: p) = (decodeRune b p).1 :: pieces (decodeRune b p).2 := by
  have := decodeRune_length b p
  simp only [pieces, List.length_cons, piecesAux]
  rw [piecesAux_eq_piecesAux (by omega) le_rfl]

/-- induction along a decoder's walk over a string, one `DecodeRune` a step -/
@[elab_as_elim] theorem decode_induction {motive : Bytes → Prop} (nil : motive [])
    (cons : ∀ b p, motive (decodeRune b p).2 → motive (b :: p)) (s : Bytes) : motive s := by
  suffices ∀ n (s : Bytes), s.length ≤ n → motive s from this _ s le_rfl
  intro n
  induction n with
  | zero => intro s hs; rw [List.length_eq_zero.1 (Nat.le_zero.1 hs)]; exact nil
  | succ n ih =>
    intro s hs
    match s with
    | [] => exact nil
    | b :: p => exact cons b p (ih _ (by have := decodeRune_length b p; simp only [List.length_cons] at hs; omega))

/-! ## Well-formed sequences -/

theorem lead_spec {b : UInt8} {n : Nat} {lo hi : UInt8} (h : lead b = some (n, lo, hi)) :
    (n = 2 ∧ 0xC2 ≤ b.toNat ∧ b.toNat ≤ 0xDF ∧ lo.toNat = 0x80 ∧ hi.toNat = 0xBF) ∨
    (n = 3 ∧ 0xE0 ≤ b.toNat ∧ b.toNat ≤ 0xEF ∧ (b.toNat = 0xE0 → lo.toNat = 0xA0) ∧
      (b.toNat ≠ 0xE0 → lo.toNat = 0x80) ∧ (b.toNat = 0xED → hi.toNat = 0x9F) ∧
      (b.toNat ≠ 0xED → hi.toNat = 0xBF)) ∨
    (n = 4 ∧ 0xF0 ≤ b.toNat ∧ b.toNat ≤ 0xF4 ∧ (b.toNat = 0xF0 → lo.toNat = 0x90) ∧
      (b.toNat ≠ 0xF0 → lo.toNat = 0x80) ∧ (b.toNat = 0xF4 → hi.toNat = 0x8F) ∧
      (b.toNat ≠ 0xF4 → hi.toNat = 0xBF)) := by
  unfold lead at h
  simp only [UInt8.lt_iff, UInt8.eq_iff, UInt8.toNat_lit, Nat.reduceMod] at h
  by_cases h1 : b.toNat < 0xC2
  · rw [if_pos h1] at h; cases h
  rw [if_neg h1] at h
  by_cases h2 : b.toNat < 0xE0
  · rw [if_pos h2] at h; cases h; simp; omega
  rw [if_neg h2] at h
  by_cases h3 : b.toNat = 0xE0
  · rw [if_pos h3] at h; cases h; simp; omega
  rw [if_neg h3] at h
  by_cases h4 : b.toNat = 0xED
  · rw [if_pos h4] at h; cases h; simp; omega
  rw [if_neg h4] at h
  by_cases h5 : b.toNat < 0xF0
  · rw [if_pos h5] at h; cases h; simp; omega
  rw [if_neg h5] at h
  by_cases h6 : b.toNat = 0xF0
  · rw [if_pos h6] at h; cases h; simp; omega
  rw [if_neg h6] at h
  by_cases h7 : b.toNat < 0xF4
  · rw [if_pos h7] at h; cases h; simp; omega
  rw [if_neg h7] at h
  by_cases h8 : b.toNat = 0xF4
  · rw [if_pos h8] at h; cases h; simp; omega
  rw [if_neg h8] at h
  cases h

theorem cont_iff {b : UInt8} : cont b ↔ 0x80 ≤ b.toNat ∧ b.toNat ≤ 0xBF := Iff.rfl

theorem encodeRune_two {b0 b1 : UInt8} (h0 : 0xC2 ≤ b0.toNat) (h0' : b0.toNat ≤ 0xDF) (h1 : cont b1) :
    encodeRune (b0.toNat % 32 * 64 + b1.toNat % 64) = [b0, b1] := by
  rw [cont_iff] at h1
  generalize hr : b0.toNat % 32 * 64 + b1.toNat % 64 = r
  have e0 : 0xC0 + r / 64 = b0.toNat := by omega
  have e1 : 0x80 + r % 64 = b1.toNat := by omega
  rw [encodeRune, if_neg (by omega), if_pos (by omega), e0, e1, UInt8.toUInt8_toNat, UInt8.toUInt8_toNat]

theorem encodeRune_three {b0 b1 b2 : UInt8} (h0 : 0xE0 ≤ b0.toNat) (h0' : b0.toNat ≤ 0xEF) (h1 : cont b1)
    (hE0 : b0.toNat = 0xE0 → 0xA0 ≤ b1.toNat) (hED : b0.toNat = 0xED → b1.toNat ≤ 0x9F) (h2 : cont b2) :
    encodeRune (b0.toNat % 16 * 4096 + b1.toNat % 64 * 64 + b2.toNat % 64) = [b0, b1, b2] := by
  rw [cont_iff] at h1 h2
  generalize hr : b0.toNat % 16 * 4096 + b1.toNat % 64 * 64 + b2.toNat % 64 = r
  have hrange : 0x800 ≤ r ∧ r ≤ 0xFFFF ∧ ¬(0xD800 ≤ r ∧ r ≤ 0xDFFF) := by clear h2; omega
  clear hE0 hED
  have e0 : 0xE0 + r / 4096 = b0.toNat := by omega
  have e1 : 0x80 + r / 64 % 64 = b1.toNat := by omega
  have e2 : 0x80 + r % 64 = b2.toNat := by omega
  rw [encodeRune, if_neg (by omega), if_neg (by omega), if_neg (by omega), if_pos (by omega), e0, e1, e2,
    UInt8.toUInt8_toNat, UInt8.toUInt8_toNat, UInt8.toUInt8_toNat]

theorem encodeRune_four {b0 b1 b2 b3 : UInt8} (h0 : 0xF0 ≤ b0.toNat) (h0' : b0.toNat ≤ 0xF4) (h1 : cont b1)
    (hF0 : b0.toNat = 0xF0 → 0x90 ≤ b1.toNat) (hF4 : b0.toNat = 0xF4 → b1.toNat ≤ 0x8F) (h2 : cont b2)
    (h3 : cont b3) :
    encodeRune (b0.toNat % 8 * 262144 + b1.toNat % 64 * 4096 + b2.toNat % 64 * 64 + b3.toNat % 64) =
      [b0, b1, b2, b3] := by
  rw [cont_iff] at h1 h2 h3
  generalize hr : b0.toNat % 8 * 262144 + b1.toNat % 64 * 4096 + b2.toNat % 64 * 64 + b3.toNat % 64 = r
  have hrange : 0x10000 ≤ r ∧ r ≤ 0x10FFFF := by clear h2 h3; omega
  clear hF0 hF4
  have e0 : 0xF0 + r / 262144 = b0.toNat := by omega
  have e1 : 0x80 + r / 4096 % 64 = b1.toNat := by omega
  have e2 : 0x80 + r / 64 % 64 = b2.toNat := by omega
  have e3 : 0x80 + r % 64 = b3.toNat := by omega
  rw [encodeRune, if_neg (by omega), if_neg (by omega), if_neg (by omega), if_neg (by omega), e0, e1, e2, e3,
    UInt8.toUInt8_toNat, UInt8.toUInt8_toNat, UInt8.toUInt8_toNat, UInt8.toUInt8_toNat]

/-- A well-formed sequence re-encodes to itself, and is read the same whatever bytes follow it. -/
theorem decodeRune_rune {b0 : UInt8} {p q bs : Bytes} {r : Nat} (h : decodeRune b0 p = (.rune r bs, q)) :
    encodeRune r = bs ∧ ∃ c, bs = b0 :: c ∧ p = c ++ q ∧ ∀ q', decodeRune b0 (c ++ q') = (.rune r bs, q') := by
  unfold decodeRune at h
  split at h
  · cases h
  rename_i hb
  split at h
  · rename_i lo hi b1 q0 hl
    split at h
    · rename_i hc
      simp only [Prod.mk.injEq, Piece.rune.injEq] at h
      obtain ⟨⟨rfl, rfl⟩, rfl⟩ := h
      refine ⟨?_, [b1], rfl, rfl, fun q' => by simp [decodeRune, hb, hl, hc]⟩
      rcases lead_spec hl with ⟨-, h0, h0', hlo, hhi⟩ | ⟨h3, -⟩ | ⟨h4, -⟩ <;> try omega
      rw [UInt8.le_iff, UInt8.le_iff, hlo, hhi] at hc
      exact encodeRune_two h0 h0' hc
    · simp at h
  · rename_i lo hi b1 b2 q0 hl
    split at h
    · rename_i hc
      simp only [Prod.mk.injEq, Piece.rune.injEq] at h
      obtain ⟨⟨rfl, rfl⟩, rfl⟩ := h
      refine ⟨?_, [b1, b2], rfl, rfl, fun q' => by simp [decodeRune, hb, hl, hc]⟩
      rcases lead_spec hl with ⟨h2, -⟩ | ⟨-, h0, h0', hlo, hlo', hhi, hhi'⟩ | ⟨h4, -⟩ <;> try omega
      obtain ⟨c1, c1', c2⟩ := hc
      rw [UInt8.le_iff] at c1 c1'
      exact encodeRune_three h0 h0' (by rw [cont_iff]; omega) (by omega) (by omega) c2
    · simp at h
  · rename_i lo hi b1 b2 b3 q0 hl
    split at h
    · rename_i hc
      simp only [Prod.mk.injEq, Piece.rune.injEq] at h
      obtain ⟨⟨rfl, rfl⟩, rfl⟩ := h
      refine ⟨?_, [b1, b2, b3], rfl, rfl, fun q' => by simp [decodeRune, hb, hl, hc]⟩
      rcases lead_spec hl with ⟨h2, -⟩ | ⟨h3, -⟩ | ⟨-, h0, h0', hlo, hlo', hhi, hhi'⟩ <;> try omega
      obtain ⟨c1, c1', c2, c3⟩ := hc
      rw [UInt8.le_iff] at c1 c1'
      exact encodeRune_four h0 h0' (by rw [cont_iff]; omega) (by omega) (by omega) c2 c3
    · simp at h
  · simp at h

theorem decodeRune_cases {b0 : UInt8} {p q : Bytes} {u : Piece} (h : decodeRune b0 p = (u, q)) :
    (u = .ascii b0 ∧ b0.toNat < 0x80 ∧ q = p) ∨ (∃ r bs, u = .rune r bs) ∨ (u = .bad b0 ∧ q = p) := by
  unfold decodeRune at h
  split at h
  · rename_i hb; cases h; exact .inl ⟨rfl, hb, rfl⟩
  split at h <;> (try split at h) <;> simp only [Prod.mk.injEq] at h <;> obtain ⟨rfl, rfl⟩ := h <;> simp

theorem encodeRune_ascii {b : UInt8} (h : b.toNat < 0x80) : encodeRune b.toNat = [b] := by
  rw [encodeRune, if_pos (by omega), UInt8.toUInt8_toNat]

/-- a rune `DecodeRune` reads from more than one byte is at least `0x80`, and its encoding has no ASCII byte -/
theorem decodeRune_rune_high {b0 : UInt8} {p q bs : Bytes} {r : Nat} (h : decodeRune b0 p = (.rune r bs, q)) :
    0x80 ≤ r := by
  have hb : 0x80 ≤ b0.toNat := by
    by_contra hb
    rw [decodeRune_ascii (by rw [UInt8.lt_iff]; simp only [UInt8.toNat_lit]; omega)] at h
    cases h
  obtain ⟨he, c, rfl, -⟩ := decodeRune_rune h
  by_contra hr
  rw [encodeRune, if_pos (by omega), List.cons.injEq] at he
  rw [← he.1, UInt8.toNat_toUInt8 (by omega)] at hb
  omega

theorem encodeRune_high {r : Nat} (h : 0x80 ≤ r) : ∀ x ∈ encodeRune r, 0x80 ≤ x.toNat := by
  unfold encodeRune
  split_ifs <;> simp only [List.mem_cons, List.mem_singleton, List.not_mem_nil, or_false] <;>
    rintro x (rfl | rfl | rfl | rfl) <;> first | decide | (rw [UInt8.toNat_toUInt8 (by omega)]; omega)

end Utf8

end FepFem
