import FepFem.Json.Syntax
import Mathlib.Tactic.IntervalCases

/-
`json.Compact` with HTML escaping: what `json.Marshal` does to a `json.RawMessage`.

`escapeHTML` is the byte loop of `compact` with `escape` on: `<`, `>` and `&` become `\u003c`, `\u003e`, `\u0026`,
and the three bytes of U+2028 and U+2029 become `\u2028` and `\u2029`. In valid JSON these bytes occur only inside
strings (keys included), so `compact` is the parsed value printed with its strings escaped.

Results:
- `strOk_escapeHTML`: escaping keeps a string's raw text one the scanner accepts;
- `escapeHTML_idem`: escaping twice is escaping once;
- `compact_idem`: what `compact` writes compacts to itself, which is what lets `Verify` reproduce the bytes
  `Sign` signed.
-/

namespace FepFem.Json

/-- `hex`: the lower-case hexadecimal digit of a value below 16 -/
def hexDigit (n : Nat) : UInt8 := if n < 10 then (0x30 + n).toUInt8 else (0x57 + n).toUInt8

/-- `\u00` and two hex digits: how `compact` writes `<`, `>` and `&` -/
def escapeU00 (c : UInt8) : Bytes := [0x5C, 0x75, 0x30, 0x30, hexDigit (c.toNat / 16), hexDigit (c.toNat % 16)]

/-- `\u202` and the last hex digit of the third byte: how `compact` writes U+2028 and U+2029 -/
def escape2028 (d : UInt8) : Bytes := [0x5C, 0x75, 0x32, 0x30, 0x32, hexDigit (d.toNat % 16)]

/-- the byte loop of `compact` with `escape` on; `k` bytes of an escaped line separator remain to skip -/
def escapeHTMLAux : Nat → Bytes → Bytes
  | _, [] => []
  | k + 1, _ :: s => escapeHTMLAux k s
  | 0, c :: s =>
    if c = 0x3C ∨ c = 0x3E ∨ c = 0x26 then escapeU00 c ++ escapeHTMLAux 0 s
    else if c = 0xE2 ∧ (s.take 2 = [0x80, 0xA8] ∨ s.take 2 = [0x80, 0xA9]) then
      escape2028 (s.getD 1 0) ++ escapeHTMLAux 2 s
    else c :: escapeHTMLAux 0 s

/-- `compact`'s HTML escaping of a text -/
def escapeHTML (s : Bytes) : Bytes := escapeHTMLAux 0 s

mutual
/-- a value with every string and key escaped -/
def Value.escapeHTML : Value → Value
  | .str raw => .str (Json.escapeHTML raw)
  | .arr xs => .arr (escapeElems xs)
  | .obj ms => .obj (escapeMembers ms)
  | v => v

/-- `Value.escapeHTML` on each element -/
def escapeElems : List Value → List Value
  | [] => []
  | x :: xs => x.escapeHTML :: escapeElems xs

/-- `Value.escapeHTML` on each member, key and value -/
def escapeMembers : List (Bytes × Value) → List (Bytes × Value)
  | [] => []
  | (k, v) :: ms => (Json.escapeHTML k, v.escapeHTML) :: escapeMembers ms
end

/-- `json.Compact` with HTML escaping; `none` is its syntax error -/
def compact (src : Bytes) : Option Bytes := (parseTop src).map fun t => t.escapeHTML.print

/-! ## The escaping loop -/

/-- a byte the loop copies as it is -/
def Plain (c : UInt8) : Prop := c ≠ 0x3C ∧ c ≠ 0x3E ∧ c ≠ 0x26 ∧ c ≠ 0xE2

instance (c : UInt8) : Decidable (Plain c) := inferInstanceAs (Decidable (_ ∧ _))

@[simp] theorem escapeHTML_nil : escapeHTML [] = [] := rfl

theorem escapeHTML_plain {c : UInt8} (h : Plain c) (s : Bytes) : escapeHTML (c :: s) = c :: escapeHTML s := by
  obtain ⟨h1, h2, h3, h4⟩ := h
  simp [escapeHTML, escapeHTMLAux, h1, h2, h3, h4]

theorem escapeHTML_special {c : UInt8} (h : c = 0x3C ∨ c = 0x3E ∨ c = 0x26) (s : Bytes) :
    escapeHTML (c :: s) = escapeU00 c ++ escapeHTML s := by
  simp [escapeHTML, escapeHTMLAux, h]

theorem escapeHTML_sep {d : UInt8} (h : d = 0xA8 ∨ d = 0xA9) (s : Bytes) :
    escapeHTML (0xE2 :: 0x80 :: d :: s) = escape2028 d ++ escapeHTML s := by
  rcases h with rfl | rfl <;> simp [escapeHTML, escapeHTMLAux]

theorem escapeHTML_e2 {s : Bytes} (h : ¬ (s.take 2 = [0x80, 0xA8] ∨ s.take 2 = [0x80, 0xA9])) :
    escapeHTML (0xE2 :: s) = 0xE2 :: escapeHTML s := by
  simp only [escapeHTML, escapeHTMLAux]
  rw [if_neg (by decide), if_neg (by simp [h])]

theorem escapeHTML_append_plain {l : Bytes} (h : ∀ c ∈ l, Plain c) (s : Bytes) :
    escapeHTML (l ++ s) = l ++ escapeHTML s := by
  induction l with
  | nil => rfl
  | cons c l ih =>
    rw [List.cons_append, escapeHTML_plain (h c (List.mem_cons_self _ _)),
      ih fun d hd => h d (List.mem_cons_of_mem _ hd)]
    rfl

theorem hexDigit_plain (n : Nat) (h : n < 16) : Plain (hexDigit n) ∧ isHex (hexDigit n) := by
  interval_cases n <;> decide

theorem escapeU00_plain (c : UInt8) : ∀ d ∈ escapeU00 c, Plain d := by
  have h1 := hexDigit_plain (c.toNat / 16) (by have := c.toNat_lt_size; simp [UInt8.size] at this; omega)
  have h2 := hexDigit_plain (c.toNat % 16) (Nat.mod_lt _ (by decide))
  simp only [escapeU00, List.mem_cons, List.mem_singleton, List.not_mem_nil, or_false]
  rintro d (rfl | rfl | rfl | rfl | rfl | rfl) <;> first | decide | exact h1.1 | exact h2.1

theorem escape2028_plain (d : UInt8) : ∀ e ∈ escape2028 d, Plain e := by
  have h := hexDigit_plain (d.toNat % 16) (Nat.mod_lt _ (by decide))
  simp only [escape2028, List.mem_cons, List.mem_singleton, List.not_mem_nil, or_false]
  rintro e (rfl | rfl | rfl | rfl | rfl | rfl) <;> first | decide | exact h.1

/-- the loop writes a byte's own value first, or the backslash of an escape -/
theorem escapeHTML_head (b : UInt8) (s : Bytes) :
    (escapeHTML (b :: s)).head? = some b ∨ (escapeHTML (b :: s)).head? = some 0x5C := by
  by_cases hs : b = 0x3C ∨ b = 0x3E ∨ b = 0x26
  · rw [escapeHTML_special hs]; simp [escapeU00]
  by_cases he : b = 0xE2 ∧ (s.take 2 = [0x80, 0xA8] ∨ s.take 2 = [0x80, 0xA9])
  · simp [escapeHTML, escapeHTMLAux, he, escape2028]
  · simp [escapeHTML, escapeHTMLAux, hs, he]

theorem take_two_eq {s : Bytes} {d : UInt8} (h : s.take 2 = [0x80, d]) : s = 0x80 :: d :: s.drop 2 := by
  rw [← List.take_append_drop 2 s, h]; rfl

/-- After a byte that is not `E2 80 A8` or `E2 80 A9` begun, escaping begins none either. -/
theorem escapeHTML_no_sep {s : Bytes} (h : ¬ (s.take 2 = [0x80, 0xA8] ∨ s.take 2 = [0x80, 0xA9])) :
    ¬ ((escapeHTML s).take 2 = [0x80, 0xA8] ∨ (escapeHTML s).take 2 = [0x80, 0xA9]) := by
  match s with
  | [] => simp
  | b :: s =>
    by_cases hb : b = 0x80
    · subst hb
      rw [escapeHTML_plain (by decide)]
      match s with
      | [] => simp
      | d :: s =>
        have hd : d ≠ 0xA8 ∧ d ≠ 0xA9 := by simp_all
        rcases escapeHTML_head d s with e | e <;>
          · obtain ⟨x, l, hx⟩ : ∃ x l, escapeHTML (d :: s) = x :: l := by
              cases h' : escapeHTML (d :: s) <;> simp_all
            rw [hx] at e ⊢
            simp only [List.head?_cons, Option.some.injEq] at e
            subst e
            simp_all
    · rcases escapeHTML_head b s with e | e <;>
        · obtain ⟨x, l, hx⟩ : ∃ x l, escapeHTML (b :: s) = x :: l := by
            cases h' : escapeHTML (b :: s) <;> simp_all
          rw [hx] at e ⊢
          simp only [List.head?_cons, Option.some.injEq] at e
          subst e
          cases l <;> simp_all

theorem escapeHTML_idem (s : Bytes) : escapeHTML (escapeHTML s) = escapeHTML s := by
  suffices ∀ n (s : Bytes), s.length ≤ n → escapeHTML (escapeHTML s) = escapeHTML s from this _ s le_rfl
  intro n
  induction n with
  | zero => intro s hs; simp_all
  | succ n ih =>
    intro s hs
    match s with
    | [] => rfl
    | c :: s =>
      simp only [List.length_cons] at hs
      by_cases hsp : c = 0x3C ∨ c = 0x3E ∨ c = 0x26
      · rw [escapeHTML_special hsp, escapeHTML_append_plain (escapeU00_plain c), ih s (by omega)]
      by_cases he : c = 0xE2
      · subst he
        by_cases ht : s.take 2 = [0x80, 0xA8] ∨ s.take 2 = [0x80, 0xA9]
        · obtain ⟨d, hd, e⟩ : ∃ d, (d = 0xA8 ∨ d = 0xA9) ∧ s = 0x80 :: d :: s.drop 2 := by
            rcases ht with h | h
            · exact ⟨_, .inl rfl, take_two_eq h⟩
            · exact ⟨_, .inr rfl, take_two_eq h⟩
          rw [e, escapeHTML_sep hd, escapeHTML_append_plain (escape2028_plain d),
            ih _ (by rw [List.length_drop]; omega)]
        · rw [escapeHTML_e2 ht, escapeHTML_e2 (escapeHTML_no_sep ht), ih s (by omega)]
      · have hp : Plain c := by simp only [not_or] at hsp; exact ⟨hsp.1, hsp.2.1, hsp.2.2, he⟩
        rw [escapeHTML_plain hp, escapeHTML_plain hp, ih s (by omega)]

/-! ## Escaping keeps strings well formed -/

theorem plain_of_isHex {c : UInt8} (h : isHex c) : Plain c := by
  simp only [isHex, Bool.or_eq_true, Bool.and_eq_true, decide_eq_true_eq, UInt8.le_iff, UInt8.toNat_lit] at h
  refine ⟨?_, ?_, ?_, ?_⟩ <;> rw [Ne, UInt8.eq_iff] <;> simp only [UInt8.toNat_lit] <;> omega

theorem plain_of_isEscape {c : UInt8} (h : isEscape c) : Plain c := by
  simp only [isEscape, Bool.or_eq_true, beq_iff_eq] at h
  rcases h with ((((((rfl | rfl) | rfl) | rfl) | rfl) | rfl) | rfl) | rfl <;> decide

theorem strOkFrom_plain {c : UInt8} (hc : strStep .body c = .next .body) (s : Bytes) :
    strOkFrom .body (c :: s) = strOkFrom .body s := by
  simp [strOkFrom, hc]

theorem strOkFrom_escape {e : UInt8} (he : isEscape e) (s : Bytes) :
    strOkFrom .body (0x5C :: e :: s) = strOkFrom .body s := by
  simp [strOkFrom, strStep, he]

theorem strOkFrom_unicode {a b d f : UInt8} (ha : isHex a) (hb : isHex b) (hd : isHex d) (hf : isHex f)
    (s : Bytes) : strOkFrom .body (0x5C :: 0x75 :: a :: b :: d :: f :: s) = strOkFrom .body s := by
  simp [strOkFrom, strStep, isEscape, ha, hb, hd, hf]

theorem strOkFrom_escapeU00 (c : UInt8) (s : Bytes) : strOkFrom .body (escapeU00 c ++ s) = strOkFrom .body s :=
  strOkFrom_unicode (by decide) (by decide)
    (hexDigit_plain _ (by have := c.toNat_lt_size; simp only [UInt8.size] at this; omega)).2
    (hexDigit_plain _ (Nat.mod_lt _ (by decide))).2 s

theorem strOkFrom_escape2028 (d : UInt8) (s : Bytes) :
    strOkFrom .body (escape2028 d ++ s) = strOkFrom .body s :=
  strOkFrom_unicode (by decide) (by decide) (by decide) (hexDigit_plain _ (Nat.mod_lt _ (by decide))).2 s

theorem strOk_escapeHTML {s : Bytes} (h : strOk s) : strOk (escapeHTML s) := by
  suffices ∀ n (s : Bytes), s.length ≤ n → strOkFrom .body s → strOkFrom .body (escapeHTML s) from
    this _ s le_rfl h
  intro n
  induction n with
  | zero => intro s hs _; simp_all
  | succ n ih =>
    intro s hs h
    match s with
    | [] => rfl
    | c :: s =>
      simp only [List.length_cons] at hs
      rcases strOk_cons h with ⟨hc, hr⟩ | ⟨rfl, e, t, rfl, he, hr⟩ | ⟨rfl, a, b, d, f, t, rfl, ha, hb, hd, hf, hr⟩
      · by_cases hsp : c = 0x3C ∨ c = 0x3E ∨ c = 0x26
        · rw [escapeHTML_special hsp, strOkFrom_escapeU00]; exact ih s (by omega) hr
        by_cases ht : c = 0xE2 ∧ (s.take 2 = [0x80, 0xA8] ∨ s.take 2 = [0x80, 0xA9])
        · obtain ⟨rfl, ht⟩ := ht
          obtain ⟨d, hd, e⟩ : ∃ d, (d = 0xA8 ∨ d = 0xA9) ∧ s = 0x80 :: d :: s.drop 2 := by
            rcases ht with h | h
            · exact ⟨_, .inl rfl, take_two_eq h⟩
            · exact ⟨_, .inr rfl, take_two_eq h⟩
          have hd' : strStep .body d = .next .body := by rcases hd with rfl | rfl <;> rfl
          rw [e, strOkFrom_plain (c := 0x80) rfl, strOkFrom_plain hd'] at hr
          rw [e, escapeHTML_sep hd, strOkFrom_escape2028]
          exact ih _ (by rw [List.length_drop]; omega) hr
        · have e : escapeHTML (c :: s) = c :: escapeHTML s := by
            by_cases he : c = 0xE2
            · subst he; exact escapeHTML_e2 (by simpa using ht)
            · simp only [not_or] at hsp; exact escapeHTML_plain ⟨hsp.1, hsp.2.1, hsp.2.2, he⟩ s
          rw [e, strOkFrom_plain hc]
          exact ih s (by omega) hr
      · rw [escapeHTML_plain (by decide), escapeHTML_plain (plain_of_isEscape he), strOkFrom_escape he]
        exact ih t (by simp only [List.length_cons] at hs; omega) hr
      · rw [escapeHTML_plain (by decide), escapeHTML_plain (by decide), escapeHTML_plain (plain_of_isHex ha),
          escapeHTML_plain (plain_of_isHex hb), escapeHTML_plain (plain_of_isHex hd),
          escapeHTML_plain (plain_of_isHex hf), strOkFrom_unicode ha hb hd hf]
        exact ih t (by simp only [List.length_cons] at hs; omega) hr

/-! ## Escaping values -/

mutual
theorem wf_escapeHTML : ∀ t : Value, t.wf → t.escapeHTML.wf
  | .null, h | .bool _, h | .num _, h => by simpa [Value.escapeHTML] using h
  | .str _, h => by simp only [Value.escapeHTML, Value.wf] at h ⊢; exact strOk_escapeHTML h
  | .arr xs, h => by simp only [Value.escapeHTML, Value.wf] at h ⊢; exact wfElems_escape xs h
  | .obj ms, h => by simp only [Value.escapeHTML, Value.wf] at h ⊢; exact wfMembers_escape ms h

theorem wfElems_escape : ∀ xs : List Value, wfElems xs → wfElems (escapeElems xs)
  | [], _ => rfl
  | x :: xs, h => by
    simp only [wfElems, escapeElems, Bool.and_eq_true] at h ⊢
    exact ⟨wf_escapeHTML x h.1, wfElems_escape xs h.2⟩

theorem wfMembers_escape : ∀ ms : List (Bytes × Value), wfMembers ms → wfMembers (escapeMembers ms)
  | [], _ => rfl
  | (k, v) :: ms, h => by
    simp only [wfMembers, escapeMembers, Bool.and_eq_true] at h ⊢
    exact ⟨⟨strOk_escapeHTML h.1.1, wf_escapeHTML v h.1.2⟩, wfMembers_escape ms h.2⟩
end

mutual
theorem Value.escapeHTML_idem : ∀ t : Value, t.escapeHTML.escapeHTML = t.escapeHTML
  | .null | .bool _ | .num _ => rfl
  | .str raw => by simp only [Value.escapeHTML, escapeHTML_idem]
  | .arr xs => by simp only [Value.escapeHTML, escapeElems_idem xs]
  | .obj ms => by simp only [Value.escapeHTML, escapeMembers_idem ms]

theorem escapeElems_idem : ∀ xs : List Value, escapeElems (escapeElems xs) = escapeElems xs
  | [] => rfl
  | x :: xs => by simp only [escapeElems, Value.escapeHTML_idem x, escapeElems_idem xs]

theorem escapeMembers_idem : ∀ ms : List (Bytes × Value), escapeMembers (escapeMembers ms) = escapeMembers ms
  | [] => rfl
  | (k, v) :: ms => by simp only [escapeMembers, escapeHTML_idem, Value.escapeHTML_idem v, escapeMembers_idem ms]
end

mutual
theorem Value.depth_escapeHTML : ∀ t : Value, t.escapeHTML.depth = t.depth
  | .null | .bool _ | .num _ | .str _ => rfl
  | .arr xs => by simp only [Value.escapeHTML, Value.depth, depthElems_escape xs]
  | .obj ms => by simp only [Value.escapeHTML, Value.depth, depthMembers_escape ms]

theorem depthElems_escape : ∀ xs : List Value, depthElems (escapeElems xs) = depthElems xs
  | [] => rfl
  | x :: xs => by simp only [escapeElems, depthElems, Value.depth_escapeHTML x, depthElems_escape xs]

theorem depthMembers_escape : ∀ ms : List (Bytes × Value), depthMembers (escapeMembers ms) = depthMembers ms
  | [] => rfl
  | (k, v) :: ms => by simp only [escapeMembers, depthMembers, Value.depth_escapeHTML v, depthMembers_escape ms]
end

/-! ## Compacting -/

theorem compact_eq_some {s c : Bytes} (h : compact s = some c) :
    ∃ t, parseTop s = some t ∧ t.wf ∧ c = t.escapeHTML.print := by
  obtain ⟨t, ht, rfl⟩ := Option.map_eq_some'.1 h
  exact ⟨t, ht, parseTop_wf ht, rfl⟩

/-- a value already escaped compacts to its own printing, unless it nests deeper than `maxNestingDepth` -/
theorem compact_print {t : Value} (h : t.wf) (he : t.escapeHTML = t) :
    compact t.print = if t.depth ≤ maxNestingDepth then some t.print else none := by
  rw [compact, parseTop_print h]
  split_ifs <;> simp only [Option.map_some', Option.map_none', he]

/-- what `compact` writes compacts to itself -/
theorem compact_idem {s c : Bytes} (h : compact s = some c) : compact c = some c := by
  obtain ⟨t, ht, hw, rfl⟩ := compact_eq_some h
  rw [compact_print (wf_escapeHTML t hw) (Value.escapeHTML_idem t), Value.depth_escapeHTML,
    if_pos (parseTop_depth ht)]

/-- `compact` reads the value, not its spacing: text that parses to `t` compacts as `t`'s printing does -/
theorem compact_print_parse {s : Bytes} {t : Value} (h : parseTop s = some t) : compact t.print = compact s := by
  simp only [compact, parseTop_print_of_depth (parseTop_wf h) (parseTop_depth h), h]

example : compact (ascii " \x7b \"a<\" : [ 1 , \"&\" ] \x7d ") =
    some (ascii "\x7b\"a\\u003c\":[1,\"\\u0026\"]\x7d") := by decide

end FepFem.Json
