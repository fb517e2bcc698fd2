import FepFem.Json.Compact
import Mathlib.Tactic.IntervalCases

/-
Go strings and integers in JSON text, as `encoding/json` of Go 1.21 writes and reads them.

`quoteRaw` is `encodeState.string` with `escapeHTML` on, between the quotes: it walks the string one `DecodeRune`
at a time, copies the bytes of `htmlSafeSet` and well-formed runes, writes `\\`, `\"`, `\n`, `\r`, `\t` and
`\u00XX` for the other ASCII bytes, `\u2028` and `\u2029` for the two separators, and `\ufffd` for an invalid byte.
`unquote` is the decoder's `unquoteBytes`: it undoes every escape, surrogate pairs included, and coerces what is
not UTF-8 to U+FFFD. `formatInt` and `parseInt` are `strconv`'s base-10 integers as the encoder writes an `int64`
and the decoder reads one.

Results:
- `strOk_quoteRaw`, `escapeHTML_quoteRaw`: the encoder writes a string's raw text, already escaped;
- `unquote_quoteRaw`: reading back what the encoder wrote gives the string with each invalid byte turned into
  U+FFFD, so `unquote_quoteRaw_of_valid`: a valid string comes back as it was, and `quoteRaw_inj`;
- `parseInt_formatInt`: an `int64` reads back as itself.
-/

namespace FepFem.Json

open Utf8

/-! ## Writing a string -/

/-- `htmlSafeSet`: the ASCII bytes the encoder copies as they are -/
def htmlSafe (b : UInt8) : Bool :=
  0x20 ≤ b && b < 0x80 && b != 0x22 && b != 0x5C && b != 0x3C && b != 0x3E && b != 0x26

/-- what the encoder writes for one piece of a string -/
def quotePiece : Piece → Bytes
  | .ascii b =>
    if htmlSafe b then [b]
    else if b = 0x5C ∨ b = 0x22 then [0x5C, b]
    else if b = 0x0A then [0x5C, 0x6E]
    else if b = 0x0D then [0x5C, 0x72]
    else if b = 0x09 then [0x5C, 0x74]
    else escapeU00 b
  | .rune r bs => if r = 0x2028 ∨ r = 0x2029 then ascii "\\u202" ++ [hexDigit (r % 16)] else bs
  | .bad _ => ascii "\\ufffd"

/-- `encodeState.string` between the quotes -/
def quoteRaw (s : Bytes) : Bytes := (pieces s).flatMap quotePiece

/-! ## Reading a string -/

/-- the value of a hex digit -/
def hexVal (c : UInt8) : Option Nat :=
  if 0x30 ≤ c ∧ c ≤ 0x39 then some (c.toNat - 0x30)
  else if 0x61 ≤ c ∧ c ≤ 0x66 then some (c.toNat - 0x61 + 10)
  else if 0x41 ≤ c ∧ c ≤ 0x46 then some (c.toNat - 0x41 + 10)
  else none

/-- `getu4`: the code of a `\uXXXX` escape at the front; `none` is its `-1` -/
def getu4 : Bytes → Option Nat
  | c :: e :: a :: b :: d :: f :: _ =>
    if c = 0x5C ∧ e = 0x75 then
      match hexVal a, hexVal b, hexVal d, hexVal f with
      | some a, some b, some d, some f => some (((a * 16 + b) * 16 + d) * 16 + f)
      | _, _, _, _ => none
    else none
  | _ => none

/-- `utf16.IsSurrogate` -/
def isSurrogate (r : Nat) : Bool := 0xD800 ≤ r && r < 0xE000

/-- `utf16.DecodeRune`; `none` is its `U+FFFD` -/
def decodeSurrogates (r1 r2 : Nat) : Option Nat :=
  if 0xD800 ≤ r1 ∧ r1 < 0xDC00 ∧ 0xDC00 ≤ r2 ∧ r2 < 0xE000 then
    some ((r1 - 0xD800) * 0x400 + (r2 - 0xDC00) + 0x10000)
  else none

/-- one iteration of the loop of `unquoteBytes` at byte `c`: what it writes and the text left, or `none` where
it gives up -/
def unquoteStep (c : UInt8) (s : Bytes) : Option (Bytes × Bytes) :=
  if c = 0x5C then
    match s with
    | [] => none
    | e :: t =>
      if e = 0x22 ∨ e = 0x5C ∨ e = 0x2F ∨ e = 0x27 then some ([e], t)
      else if e = 0x62 then some ([0x08], t)
      else if e = 0x66 then some ([0x0C], t)
      else if e = 0x6E then some ([0x0A], t)
      else if e = 0x72 then some ([0x0D], t)
      else if e = 0x74 then some ([0x09], t)
      else if e = 0x75 then
        match getu4 (c :: s) with
        | none => none
        | some r =>
          if isSurrogate r then
            match (getu4 ((c :: s).drop 6)).bind (decodeSurrogates r) with
            | some d => some (encodeRune d, (c :: s).drop 12)
            | none => some (encodeRune runeError, (c :: s).drop 6)
          else some (encodeRune r, (c :: s).drop 6)
      else none
  else if c = 0x22 ∨ c < 0x20 then none
  else if c < 0x80 then some ([c], s)
  else some (encodeRune (decodeRune c s).1.val, (decodeRune c s).2)

/-- the loop of `unquoteBytes` over the text between the quotes; `n` bounds its iterations. The fast path that
returns text with no escape, control byte or invalid byte as it is gives what the loop gives, and is left out. -/
def unquoteAux : Nat → Bytes → Option Bytes
  | _, [] => some []
  | 0, _ :: _ => none
  | n + 1, c :: s =>
    match unquoteStep c s with
    | some (w, rest) => (unquoteAux n rest).map (w ++ ·)
    | none => none

/-- `unquoteBytes` on the text between the quotes -/
def unquote (raw : Bytes) : Option Bytes := unquoteAux raw.length raw

/-- a string with each invalid byte replaced by U+FFFD, as the decoder's coercion to UTF-8 leaves it -/
def coerceUtf8 (s : Bytes) : Bytes := (pieces s).flatMap fun u => encodeRune u.val

/-! ## Reading back what the encoder wrote -/

theorem hexVal_hexDigit {n : Nat} (h : n < 16) : hexVal (hexDigit n) = some n := by
  interval_cases n <;> rfl

theorem unquoteAux_step {c : UInt8} {s w rest : Bytes} (h : unquoteStep c s = some (w, rest)) (n : Nat) :
    unquoteAux (n + 1) (c :: s) = (unquoteAux n rest).map (w ++ ·) := by
  rw [unquoteAux, h]

theorem unquoteStep_unicode {a b d f : UInt8} {X : Bytes} {r : Nat}
    (hr : getu4 (0x5C :: 0x75 :: a :: b :: d :: f :: X) = some r) (hs : isSurrogate r = false) :
    unquoteStep 0x5C (0x75 :: a :: b :: d :: f :: X) = some (encodeRune r, X) := by
  simp [unquoteStep, hr, hs]

theorem getu4_escapeU00 (c : UInt8) (X : Bytes) : getu4 (escapeU00 c ++ X) = some c.toNat := by
  have hc := c.toNat_lt_size
  simp only [UInt8.size] at hc
  simp only [escapeU00, List.cons_append, List.nil_append, getu4, hexVal_hexDigit (show c.toNat / 16 < 16 by omega),
    hexVal_hexDigit (Nat.mod_lt _ (show 16 > 0 by decide))]
  simp [hexVal, UInt8.size]
  omega

theorem ascii_u202 : ascii "\\u202" = [0x5C, 0x75, 0x32, 0x30, 0x32] := rfl

theorem ascii_ufffd : ascii "\\ufffd" = [0x5C, 0x75, 0x66, 0x66, 0x66, 0x64] := rfl

/-- one iteration of the loop reads back what the encoder wrote for one piece -/
theorem unquoteStep_quotePiece {b : UInt8} {p q : Bytes} {u : Piece} (h : decodeRune b p = (u, q)) (X : Bytes) :
    ∃ c s, quotePiece u ++ X = c :: s ∧ unquoteStep c s = some (encodeRune u.val, X) := by
  rcases decodeRune_cases h with ⟨rfl, hb, -⟩ | ⟨r, bs, rfl⟩ | ⟨rfl, -⟩
  · rw [Piece.val, quotePiece]
    split_ifs with h1 h2 h3 h4 h5
    · simp only [htmlSafe, Bool.and_eq_true, decide_eq_true_eq, bne_iff_ne, ne_eq, UInt8.le_iff,
        UInt8.toNat_lit] at h1
      obtain ⟨⟨⟨⟨⟨⟨h20, -⟩, h22⟩, h5C⟩, -⟩, -⟩, -⟩ := h1
      refine ⟨b, X, rfl, ?_⟩
      simp [unquoteStep, h22, h5C, UInt8.lt_iff, encodeRune_ascii hb, UInt8.size]
      omega
    · exact ⟨_, _, rfl, by rw [encodeRune_ascii hb]; rcases h2 with rfl | rfl <;> rfl⟩
    · subst h3; exact ⟨_, _, rfl, rfl⟩
    · subst h4; exact ⟨_, _, rfl, rfl⟩
    · subst h5; exact ⟨_, _, rfl, rfl⟩
    · exact ⟨_, _, rfl, unquoteStep_unicode (getu4_escapeU00 b X) (by simp [isSurrogate]; omega)⟩
  · obtain ⟨he, c, rfl, -, hq⟩ := decodeRune_rune h
    have hr := decodeRune_rune_high h
    simp only [Piece.val, quotePiece]
    split_ifs with h28
    · refine ⟨_, _, by rw [ascii_u202]; rfl, unquoteStep_unicode ?_ (by simp [isSurrogate]; omega)⟩
      rcases h28 with rfl | rfl <;> rfl
    · have hb : 0x80 ≤ b.toNat := encodeRune_high hr b (by rw [he]; exact List.mem_cons_self _ _)
      refine ⟨b, c ++ X, rfl, ?_⟩
      unfold unquoteStep
      rw [if_neg (by simp only [UInt8.eq_iff, UInt8.toNat_lit]; omega),
        if_neg (by simp only [UInt8.eq_iff, UInt8.lt_iff, UInt8.toNat_lit]; omega),
        if_neg (by simp only [UInt8.lt_iff, UInt8.toNat_lit]; omega), hq X]
      rfl
  · exact ⟨_, _, by rw [quotePiece, ascii_ufffd]; rfl,
      unquoteStep_unicode (a := 0x66) (b := 0x66) (d := 0x66) (f := 0x64) (r := runeError) rfl rfl⟩

theorem decodeRune_eta (b : UInt8) (p : Bytes) : decodeRune b p = ((decodeRune b p).1, (decodeRune b p).2) := rfl

theorem quoteRaw_cons (b : UInt8) (p : Bytes) :
    quoteRaw (b :: p) = quotePiece (decodeRune b p).1 ++ quoteRaw (decodeRune b p).2 := by
  rw [quoteRaw, pieces_cons, List.flatMap_cons, quoteRaw]

theorem coerceUtf8_cons (b : UInt8) (p : Bytes) :
    coerceUtf8 (b :: p) = encodeRune (decodeRune b p).1.val ++ coerceUtf8 (decodeRune b p).2 := by
  rw [coerceUtf8, pieces_cons, List.flatMap_cons, coerceUtf8]

theorem unquoteAux_quoteRaw (s : Bytes) :
    ∀ n, (pieces s).length ≤ n → unquoteAux n (quoteRaw s) = some (coerceUtf8 s) := by
  induction s using decode_induction with
  | nil => intro n _; cases n <;> rfl
  | cons b p ih =>
    intro n hn
    rw [pieces_cons, List.length_cons] at hn
    obtain ⟨n, rfl⟩ : ∃ m, n = m + 1 := ⟨n - 1, by omega⟩
    obtain ⟨c, t, e, hs⟩ := unquoteStep_quotePiece (decodeRune_eta b p)
      (quoteRaw (decodeRune b p).2)
    rw [quoteRaw_cons, coerceUtf8_cons, e, unquoteAux_step hs, ih n (by omega)]
    rfl

theorem length_pieces_le (s : Bytes) : (pieces s).length ≤ (quoteRaw s).length := by
  induction s using decode_induction with
  | nil => exact le_rfl
  | cons b p ih =>
    obtain ⟨c, t, e, -⟩ := unquoteStep_quotePiece (decodeRune_eta b p) []
    rw [List.append_nil] at e
    rw [pieces_cons, quoteRaw_cons, e, List.length_cons, List.cons_append, List.length_cons]
    simp only [List.length_append]
    omega

/-- what the encoder writes for a string reads back as the string coerced to UTF-8 -/
theorem unquote_quoteRaw (s : Bytes) : unquote (quoteRaw s) = some (coerceUtf8 s) :=
  unquoteAux_quoteRaw s _ (length_pieces_le s)

theorem valid_cons (b : UInt8) (p : Bytes) :
    valid (b :: p) = (!(decodeRune b p).1.isBad && valid (decodeRune b p).2) := by
  rw [valid, pieces_cons, List.all_cons, valid]

theorem coerceUtf8_of_valid {s : Bytes} (h : valid s) : coerceUtf8 s = s := by
  induction s using decode_induction with
  | nil => rfl
  | cons b p ih =>
    rw [valid_cons, Bool.and_eq_true] at h
    have hu : encodeRune (decodeRune b p).1.val = (decodeRune b p).1.bytes := by
      rcases decodeRune_cases (decodeRune_eta b p) with ⟨e, hb, -⟩ | ⟨r, bs, e⟩ | ⟨e, -⟩
      · rw [e]; exact encodeRune_ascii hb
      · rw [e]; exact (decodeRune_rune (e ▸ decodeRune_eta b p)).1
      · rw [e] at h; simp [Piece.isBad] at h
    rw [coerceUtf8_cons, hu, ih h.2, decodeRune_bytes]

/-- a valid string reads back as itself -/
theorem unquote_quoteRaw_of_valid {s : Bytes} (h : valid s) : unquote (quoteRaw s) = some s := by
  rw [unquote_quoteRaw, coerceUtf8_of_valid h]

theorem quoteRaw_inj {s t : Bytes} (hs : valid s) (ht : valid t) (h : quoteRaw s = quoteRaw t) : s = t := by
  have := unquote_quoteRaw_of_valid hs
  rwa [h, unquote_quoteRaw_of_valid ht, Option.some.injEq, eq_comm] at this

theorem quoteRaw_eq_iff {s t : Bytes} (hs : valid s) (ht : valid t) : quoteRaw s = quoteRaw t ↔ s = t :=
  ⟨quoteRaw_inj hs ht, congrArg _⟩

/-! ## What the encoder writes is a string's raw text, already escaped -/

theorem strOkFrom_high {bs : Bytes} (h : ∀ x ∈ bs, 0x80 ≤ x.toNat) (X : Bytes) :
    strOkFrom .body (bs ++ X) = strOkFrom .body X := by
  induction bs with
  | nil => rfl
  | cons x bs ih =>
    have hx := h x (List.mem_cons_self _ _)
    rw [List.cons_append, strOkFrom_plain, ih fun y hy => h y (List.mem_cons_of_mem _ hy)]
    simp only [strStep, UInt8.eq_iff, UInt8.lt_iff, UInt8.toNat_lit]
    rw [if_neg (by omega), if_neg (by omega), if_neg (by omega)]

theorem strOkFrom_quotePiece {b : UInt8} {p q : Bytes} {u : Piece} (h : decodeRune b p = (u, q)) (X : Bytes) :
    strOkFrom .body (quotePiece u ++ X) = strOkFrom .body X := by
  rcases decodeRune_cases h with ⟨rfl, hb, -⟩ | ⟨r, bs, rfl⟩ | ⟨rfl, -⟩
  · rw [quotePiece]
    split_ifs with h1 h2 h3 h4 h5
    · simp only [htmlSafe, Bool.and_eq_true, decide_eq_true_eq, bne_iff_ne, ne_eq, UInt8.le_iff,
        UInt8.toNat_lit] at h1
      obtain ⟨⟨⟨⟨⟨⟨h20, -⟩, h22⟩, h5C⟩, -⟩, -⟩, -⟩ := h1
      apply strOkFrom_plain
      simp only [strStep, h22, h5C, if_false, UInt8.lt_iff, UInt8.toNat_lit]
      rw [if_neg (by omega)]
    · exact strOkFrom_escape (by rcases h2 with rfl | rfl <;> rfl) X
    · exact strOkFrom_escape (by decide) X
    · exact strOkFrom_escape (by decide) X
    · exact strOkFrom_escape (by decide) X
    · exact strOkFrom_escapeU00 b X
  · obtain ⟨he, c, rfl, -, -⟩ := decodeRune_rune h
    rw [quotePiece]
    split_ifs with h28
    · rw [ascii_u202]
      rcases h28 with rfl | rfl <;> exact strOkFrom_unicode (by decide) (by decide) (by decide) (by decide) X
    · exact strOkFrom_high (he ▸ encodeRune_high (decodeRune_rune_high h)) X
  · rw [quotePiece, ascii_ufffd]
    exact strOkFrom_unicode (by decide) (by decide) (by decide) (by decide) X

theorem strOk_quoteRaw (s : Bytes) : strOk (quoteRaw s) := by
  induction s using decode_induction with
  | nil => rfl
  | cons b p ih => rw [strOk, quoteRaw_cons, strOkFrom_quotePiece (decodeRune_eta b p)]; exact ih

theorem plain_iff {c : UInt8} : Plain c ↔ c.toNat ≠ 0x3C ∧ c.toNat ≠ 0x3E ∧ c.toNat ≠ 0x26 ∧ c.toNat ≠ 0xE2 := by
  simp only [Plain, ne_eq, UInt8.eq_iff, UInt8.toNat_lit]

theorem escapeHTML_encodeRune {r : Nat} (hr : 0x80 ≤ r) (h28 : ¬(r = 0x2028 ∨ r = 0x2029)) (X : Bytes) :
    escapeHTML (encodeRune r ++ X) = encodeRune r ++ escapeHTML X := by
  have pl : ∀ n, 0x80 ≤ n → n < 256 → n ≠ 0xE2 → Plain n.toUInt8 := fun n h0 h1 h2 => by
    rw [plain_iff, UInt8.toNat_toUInt8 h1]; omega
  unfold encodeRune
  split_ifs with h1 h2 h3 h4
  · omega
  · simp only [List.cons_append, List.nil_append]
    rw [escapeHTML_plain (pl _ (by omega) (by omega) (by omega)),
      escapeHTML_plain (pl _ (by omega) (by omega) (by omega))]
  · exact escapeHTML_append_plain (by decide) X
  · simp only [List.cons_append, List.nil_append]
    have hy : (0x80 + r / 64 % 64).toUInt8.toNat = 0x80 + r / 64 % 64 := UInt8.toNat_toUInt8 (by omega)
    have hz : (0x80 + r % 64).toUInt8.toNat = 0x80 + r % 64 := UInt8.toNat_toUInt8 (by omega)
    have e : escapeHTML ((0xE0 + r / 4096).toUInt8 :: (0x80 + r / 64 % 64).toUInt8 :: (0x80 + r % 64).toUInt8 :: X) =
        (0xE0 + r / 4096).toUInt8 :: escapeHTML ((0x80 + r / 64 % 64).toUInt8 :: (0x80 + r % 64).toUInt8 :: X) := by
      by_cases hx : 0xE0 + r / 4096 = 0xE2
      · rw [show (0xE0 + r / 4096).toUInt8 = 0xE2 by rw [hx]; rfl]
        apply escapeHTML_e2
        simp only [List.take, List.cons.injEq, UInt8.eq_iff, hy, hz, UInt8.toNat_lit, and_true]
        omega
      · exact escapeHTML_plain (pl _ (by omega) (by omega) hx) _
    rw [e, escapeHTML_plain (pl _ (by omega) (by omega) (by omega)),
      escapeHTML_plain (pl _ (by omega) (by omega) (by omega))]
  · simp only [List.cons_append, List.nil_append]
    rw [escapeHTML_plain (pl _ (by omega) (by omega) (by omega)),
      escapeHTML_plain (pl _ (by omega) (by omega) (by omega)),
      escapeHTML_plain (pl _ (by omega) (by omega) (by omega)),
      escapeHTML_plain (pl _ (by omega) (by omega) (by omega))]

theorem escapeHTML_quotePiece {b : UInt8} {p q : Bytes} {u : Piece} (h : decodeRune b p = (u, q)) (X : Bytes) :
    escapeHTML (quotePiece u ++ X) = quotePiece u ++ escapeHTML X := by
  rcases decodeRune_cases h with ⟨rfl, hb, -⟩ | ⟨r, bs, rfl⟩ | ⟨rfl, -⟩
  · rw [quotePiece]
    split_ifs with h1 h2 h3 h4 h5
    · simp only [htmlSafe, Bool.and_eq_true, decide_eq_true_eq, bne_iff_ne, ne_eq] at h1
      obtain ⟨⟨⟨⟨⟨⟨-, -⟩, -⟩, -⟩, h3C⟩, h3E⟩, h26⟩ := h1
      exact escapeHTML_plain ⟨h3C, h3E, h26, fun e => by rw [e] at hb; simp [UInt8.size] at hb⟩ X
    · exact escapeHTML_append_plain (by rcases h2 with rfl | rfl <;> decide) X
    · subst h3; exact escapeHTML_append_plain (by decide) X
    · subst h4; exact escapeHTML_append_plain (by decide) X
    · subst h5; exact escapeHTML_append_plain (by decide) X
    · exact escapeHTML_append_plain (escapeU00_plain b) X
  · obtain ⟨he, -⟩ := decodeRune_rune h
    rw [quotePiece]
    split_ifs with h28
    · rcases h28 with rfl | rfl <;> exact escapeHTML_append_plain (by decide) X
    · rw [← he]; exact escapeHTML_encodeRune (decodeRune_rune_high h) h28 X
  · rw [quotePiece, ascii_ufffd]; exact escapeHTML_append_plain (by decide) X

theorem escapeHTML_quoteRaw (s : Bytes) : escapeHTML (quoteRaw s) = quoteRaw s := by
  induction s using decode_induction with
  | nil => rfl
  | cons b p ih => rw [quoteRaw_cons, escapeHTML_quotePiece (decodeRune_eta b p), ih]

/-! ## Integers -/

/-- `formatBits` in base 10: the digits of `n` put in front of `acc` from the last one; `k` bounds the loop -/
def decimalAux : Nat → Nat → Bytes → Bytes
  | 0, n, acc => (0x30 + n % 10).toUInt8 :: acc
  | k + 1, n, acc =>
    if n < 10 then (0x30 + n).toUInt8 :: acc else decimalAux k (n / 10) ((0x30 + n % 10).toUInt8 :: acc)

/-- the base-10 digits of a natural number -/
def decimal (n : Nat) : Bytes := decimalAux n n []

/-- `strconv.FormatInt(i, 10)` -/
def formatInt (i : Int) : Bytes := if i < 0 then 0x2D :: decimal i.natAbs else decimal i.natAbs

/-- the value of a run of decimal digits, as `ParseUint` accumulates it -/
def digitsVal (ds : Bytes) : Nat := ds.foldl (fun a d => a * 10 + (d.toNat - 0x30)) 0

/-- `strconv.ParseInt(s, 10, 64)`: an optional sign, then digits, in the range of an `int64` -/
def parseInt (s : Bytes) : Option Int :=
  let (neg, ds) : Bool × Bytes := match s with
    | c :: t => if c = 0x2B then (false, t) else if c = 0x2D then (true, t) else (false, s)
    | [] => (false, [])
  if ds ≠ [] ∧ ds.all isDigit then
    if neg then (if digitsVal ds ≤ 2 ^ 63 then some (-(digitsVal ds : Int)) else none)
    else (if digitsVal ds < 2 ^ 63 then some (digitsVal ds) else none)
  else none

/-- a Go `int64`; also a Go `int`, which is 64 bits wide on the targets the broker is built for -/
structure Int64 where
  val : Int
  lo : -2 ^ 63 ≤ val
  hi : val < 2 ^ 63
  deriving DecidableEq

/-- how the decoder reads a number into an `int64`: `ParseInt`, then the range check -/
def Int64.ofLit (lit : Bytes) : Option Int64 :=
  match parseInt lit with
  | some v => if h : -2 ^ 63 ≤ v ∧ v < 2 ^ 63 then some ⟨v, h.1, h.2⟩ else none
  | none => none

theorem decimalAux_append (k n : Nat) (acc : Bytes) : decimalAux k n acc = decimalAux k n [] ++ acc := by
  induction k generalizing n acc with
  | zero => rfl
  | succ k ih =>
    simp only [decimalAux]
    split_ifs
    · rfl
    · rw [ih _ ((0x30 + n % 10).toUInt8 :: acc), ih _ [(0x30 + n % 10).toUInt8]]; simp

theorem digitsVal_snoc (ds : Bytes) (d : UInt8) : digitsVal (ds ++ [d]) = digitsVal ds * 10 + (d.toNat - 0x30) := by
  simp [digitsVal, List.foldl_append]

/-- the digits of `n`: all decimal digits, the first nonzero unless `n` is zero, and worth `n` -/
theorem decimalAux_spec (k n : Nat) (h : n ≤ k) :
    ∃ d ds, decimalAux k n [] = d :: ds ∧ (d.toNat = 0x30 → n = 0) ∧ (∀ c ∈ d :: ds, isDigit c) ∧
      digitsVal (d :: ds) = n := by
  induction k generalizing n with
  | zero =>
    obtain rfl : n = 0 := by omega
    exact ⟨_, [], rfl, fun _ => rfl, by decide, rfl⟩
  | succ k ih =>
    have digit : ∀ m, m < 10 → isDigit (0x30 + m).toUInt8 ∧ (0x30 + m).toUInt8.toNat = 0x30 + m := fun m hm =>
      ⟨by
        simp only [isDigit, Bool.and_eq_true, decide_eq_true_eq, UInt8.le_iff,
          UInt8.toNat_toUInt8 (show 0x30 + m < 256 by omega), UInt8.toNat_lit]
        omega,
       UInt8.toNat_toUInt8 (by omega)⟩
    simp only [decimalAux]
    split_ifs with hn
    · obtain ⟨hd, hv⟩ := digit n hn
      refine ⟨_, [], rfl, fun e => by omega, by simpa using hd, ?_⟩
      simp [digitsVal, hv]
    · obtain ⟨d, ds, e, h0, hds, hv⟩ := ih (n / 10) (by omega)
      obtain ⟨hd, hv'⟩ := digit (n % 10) (Nat.mod_lt _ (by decide))
      refine ⟨d, ds ++ [(0x30 + n % 10).toUInt8], by rw [decimalAux_append, e]; rfl, fun e => by omega, ?_, ?_⟩
      · intro c hc
        simp only [List.mem_cons, List.mem_append, List.mem_singleton, List.not_mem_nil, or_false] at hc
        rcases hc with rfl | hc | rfl
        · exact hds _ (List.mem_cons_self _ _)
        · exact hds _ (List.mem_cons_of_mem _ hc)
        · exact hd
      · rw [← List.cons_append, digitsVal_snoc, hv, hv']; omega

theorem parseInt_formatInt {i : Int} (lo : -2 ^ 63 ≤ i) (hi : i < 2 ^ 63) : parseInt (formatInt i) = some i := by
  norm_num at lo hi
  obtain ⟨d, ds, e, -, hds, hv⟩ := decimalAux_spec i.natAbs i.natAbs le_rfl
  have hd : d ≠ 0x2B ∧ d ≠ 0x2D := by
    have := hds d (List.mem_cons_self _ _)
    simp only [isDigit, Bool.and_eq_true, decide_eq_true_eq] at this
    constructor <;> rintro rfl <;> simp at this
  simp only [formatInt, decimal, e]
  split_ifs with hneg
  · simp only [parseInt, if_neg (show (0x2D : UInt8) ≠ 0x2B by decide), if_true, ne_eq, reduceCtorEq,
      not_false_eq_true, List.all_eq_true, true_and, hv]
    rw [if_pos hds, if_pos (by norm_num; omega)]
    congr 1; omega
  · simp only [parseInt, if_neg hd.1, if_neg hd.2, ne_eq, reduceCtorEq, not_false_eq_true, List.all_eq_true,
      true_and, hv]
    rw [if_pos hds, if_neg not_false, if_pos (by norm_num; omega)]
    congr 1; omega

theorem Int64.ofLit_formatInt (i : Int64) : Int64.ofLit (formatInt i.val) = some i := by
  simp only [Int64.ofLit, parseInt_formatInt i.lo i.hi, dif_pos (And.intro i.lo i.hi)]

/-- an `int64` is determined by its text -/
theorem Int64.formatInt_eq_iff {i j : Int64} : formatInt i.val = formatInt j.val ↔ i = j :=
  ⟨fun h => Option.some.inj ((Int64.ofLit_formatInt i).symm.trans (h ▸ Int64.ofLit_formatInt j)), fun h => h ▸ rfl⟩

theorem numRun_digits {ds : Bytes} (h : ∀ c ∈ ds, isDigit c) : numRun .int ds = (ds, [], .int) := by
  induction ds with
  | nil => rfl
  | cons c ds ih =>
    have hc := h c (List.mem_cons_self _ _)
    simp only [numRun, numStep, hc, if_true, ih fun x hx => h x (List.mem_cons_of_mem _ hx)]

/-- an integer is written as a number literal the scanner accepts -/
theorem numOk_formatInt (i : Int) : numOk (formatInt i) := by
  by_cases h0 : i = 0
  · subst h0; rfl
  obtain ⟨d, ds, e, hz, hds, -⟩ := decimalAux_spec i.natAbs i.natAbs le_rfl
  have hd := hds d (List.mem_cons_self _ _)
  have hd0 : d ≠ 0x30 := fun h => h0 (Int.natAbs_eq_zero.1 (hz (by rw [h]; rfl)))
  have hd1 : d ≠ 0x2D := by rintro rfl; simp [isDigit] at hd
  have hrun := numRun_digits fun c hc => hds c (List.mem_cons_of_mem _ hc)
  simp only [formatInt, decimal, e]
  split_ifs <;> simp [numOk, numRun, numStep, hd, hd0, hd1, hrun, NumState.final]

/-! ## Floating-point numbers -/

/-- a Go `float64`: a finite one is kept as the text of the number it was written as or read from, so two texts
of one double are two values here; `nan` and `inf` are the values `json.Marshal` refuses -/
inductive Float64 where
  | finite (lit : Bytes) (ok : numOk lit)
  | nan
  | inf (neg : Bool)
  deriving DecidableEq

/-- the digits of a number literal without its dot, and the power of ten that scales them -/
def litParts (lit : Bytes) : Nat × Int :=
  let body := lit.dropWhile (· == 0x2D)
  let mant := body.takeWhile fun c => c != 0x65 && c != 0x45
  let ex := (body.dropWhile fun c => c != 0x65 && c != 0x45).drop 1
  let frac := (mant.dropWhile (· != 0x2E)).drop 1
  let e : Int := match ex with
    | c :: ds => if c = 0x2D then -(digitsVal ds : Int) else if c = 0x2B then digitsVal ds else digitsVal (c :: ds)
    | [] => 0
  (digitsVal (mant.takeWhile (· != 0x2E) ++ frac), e - frac.length)

/-- whether `strconv.ParseFloat(s, 64)` overflows: the literal's magnitude rounds to infinity, being at least
`MaxFloat64` plus half its last unit -/
def floatOverflows (lit : Bytes) : Bool :=
  let (m, e) := litParts lit
  if 0 ≤ e then decide (2 ^ 1024 - 2 ^ 970 ≤ m * 10 ^ e.toNat)
  else decide ((2 ^ 1024 - 2 ^ 970) * 10 ^ (-e).toNat ≤ m)

end FepFem.Json
