import FepFem.Go.Utf8

/-
JSON text as `encoding/json` reads and writes it: the value tree, the printer and the scanner.

`Value` is a JSON value with insignificant whitespace dropped; a string keeps its raw text between the quotes
(escapes unresolved), a number its literal. `print` writes a value with no whitespace, which is the form
`json.Marshal` produces. `parseValue` is the scanner: strings by `scanString` (`stateInString` and its escape
states), numbers by the number automaton (`state1` ... `stateE0`), literals, arrays and objects, with a fuel
bound. `parseTop` is `checkValid` (one value, then only whitespace), with the scanner's limit on how deep arrays and
objects nest (`maxNestingDepth`); `json.Marshal` has no such limit, so it writes texts `json.Unmarshal` refuses.

Results:
- `parse_print`, `parseValue_print`: a well-formed value is read back from its text, whatever follows a delimiter;
- `parseTop_print`: `checkValid` reads a well-formed value back from its text exactly when it nests at most
  `maxNestingDepth` deep;
- `parseTop_obj_append`: so is an object from its text followed by whitespace;
- `parse_wf`, `parseTop_wf`, `parseTop_depth`: what the scanner reads is well formed, and `checkValid` accepts no
  deeper nesting than `maxNestingDepth`.
-/

namespace FepFem.Json

open Utf8

/-- a JSON value as the scanner reads it, without insignificant whitespace -/
inductive Value where
  | null
  | bool (b : Bool)
  | num (lit : Bytes)
  | str (raw : Bytes)
  | arr (elems : List Value)
  | obj (members : List (Bytes × Value))
  deriving Repr

/-! ## Printing -/

mutual
/-- the text of a value, as `json.Marshal` writes it -/
def Value.print : Value → Bytes
  | .null => ascii "null"
  | .bool true => ascii "true"
  | .bool false => ascii "false"
  | .num lit => lit
  | .str raw => 0x22 :: raw ++ [0x22]
  | .arr [] => [0x5B, 0x5D]
  | .arr (x :: xs) => 0x5B :: x.print ++ printElems xs
  | .obj [] => [0x7B, 0x7D]
  | .obj ((k, v) :: ms) => 0x7B :: 0x22 :: k ++ 0x22 :: 0x3A :: v.print ++ printMembers ms

/-- the elements after the first, each after a comma, and the closing bracket -/
def printElems : List Value → Bytes
  | [] => [0x5D]
  | x :: xs => 0x2C :: x.print ++ printElems xs

/-- the members after the first, each after a comma, and the closing brace -/
def printMembers : List (Bytes × Value) → Bytes
  | [] => [0x7D]
  | (k, v) :: ms => 0x2C :: 0x22 :: k ++ 0x22 :: 0x3A :: v.print ++ printMembers ms
end

/-! ## The scanner -/

/-- insignificant whitespace -/
def isSpace (c : UInt8) : Bool := c == 0x20 || c == 0x09 || c == 0x0A || c == 0x0D

/-- the whitespace the scanner skips before a token -/
def skipSpace : Bytes → Bytes
  | c :: s => if isSpace c then skipSpace s else c :: s
  | [] => []

/-- a hexadecimal digit -/
def isHex (c : UInt8) : Bool := (0x30 ≤ c && c ≤ 0x39) || (0x61 ≤ c && c ≤ 0x66) || (0x41 ≤ c && c ≤ 0x46)

/-- the characters `stateInStringEsc` accepts after a backslash, `u` apart -/
def isEscape (c : UInt8) : Bool :=
  c == 0x62 || c == 0x66 || c == 0x6E || c == 0x72 || c == 0x74 || c == 0x5C || c == 0x2F || c == 0x22

/-- where the scanner stands inside a string -/
inductive StrState where
  /-- `stateInString` -/
  | body
  /-- `stateInStringEsc`: after a backslash -/
  | esc
  /-- `stateInStringEscU`, `EscU1`, `EscU12`, `EscU123`: `k` hex digits of a `\u` escape read -/
  | hex (k : Nat)
  deriving DecidableEq, Repr

/-- what one byte does inside a string -/
inductive StrMove where
  | close
  | next (q : StrState)
  | fail
  deriving DecidableEq, Repr

/-- one byte inside a string -/
def strStep : StrState → UInt8 → StrMove
  | .body, c => if c = 0x22 then .close else if c = 0x5C then .next .esc else if c < 0x20 then .fail
      else .next .body
  | .esc, c => if isEscape c then .next .body else if c = 0x75 then .next (.hex 0) else .fail
  | .hex k, c => if isHex c then .next (if k = 3 then .body else .hex (k + 1)) else .fail

/-- the raw text of a string from state `q` up to the closing quote, and what follows it -/
def scanStr : StrState → Bytes → Option (Bytes × Bytes)
  | _, [] => none
  | q, c :: s =>
    match strStep q c with
    | .close => some ([], s)
    | .next q' => (scanStr q' s).map fun p => (c :: p.1, p.2)
    | .fail => none

/-- a string's raw text, after its opening quote -/
def scanString (s : Bytes) : Option (Bytes × Bytes) := scanStr .body s

/-- raw text the scanner runs through from state `q`, ending between characters -/
def strOkFrom : StrState → Bytes → Bool
  | q, [] => q = .body
  | q, c :: s =>
    match strStep q c with
    | .next q' => strOkFrom q' s
    | _ => false

/-- the raw text of a string the scanner accepts -/
def strOk (raw : Bytes) : Bool := strOkFrom .body raw

/-- the scanner's states inside a number -/
inductive NumState where
  | start | sign | zero | int | dot | frac | exp | expSign | expDigits
  deriving DecidableEq, Repr

/-- a decimal digit -/
def isDigit (c : UInt8) : Bool := 0x30 ≤ c && c ≤ 0x39

/-- one byte of a number: the next state, or `none` where the number ends -/
def numStep : NumState → UInt8 → Option NumState
  | .start, c => if c == 0x2D then some .sign else if c == 0x30 then some .zero
      else if isDigit c then some .int else none
  | .sign, c => if c == 0x30 then some .zero else if isDigit c then some .int else none
  | .zero, c => if c == 0x2E then some .dot else if c == 0x65 || c == 0x45 then some .exp else none
  | .int, c => if isDigit c then some .int else if c == 0x2E then some .dot
      else if c == 0x65 || c == 0x45 then some .exp else none
  | .dot, c => if isDigit c then some .frac else none
  | .frac, c => if isDigit c then some .frac else if c == 0x65 || c == 0x45 then some .exp else none
  | .exp, c => if c == 0x2B || c == 0x2D then some .expSign else if isDigit c then some .expDigits else none
  | .expSign, c => if isDigit c then some .expDigits else none
  | .expDigits, c => if isDigit c then some .expDigits else none

/-- the states where a number may end -/
def NumState.final : NumState → Bool
  | .zero | .int | .frac | .expDigits => true
  | _ => false

/-- the automaton run as far as it goes: the bytes read, the rest, the state reached -/
def numRun : NumState → Bytes → Bytes × Bytes × NumState
  | q, c :: s => match numStep q c with
    | some q' => let r := numRun q' s; (c :: r.1, r.2)
    | none => ([], c :: s, q)
  | q, [] => ([], [], q)

/-- a number literal and what follows it -/
def scanNumber (s : Bytes) : Option (Bytes × Bytes) :=
  let r := numRun .start s
  if r.2.2.final then some (r.1, r.2.1) else none

/-- a complete number literal -/
def numOk (lit : Bytes) : Bool := (numRun .start lit).2.1.isEmpty && (numRun .start lit).2.2.final

/-- the rest of a literal after its first byte: `rue`, `alse`, `ull` -/
def expectWord : Bytes → Bytes → Option Bytes
  | [], s => some s
  | w :: ws, c :: s => if w = c then expectWord ws s else none
  | _ :: _, [] => none

mutual
/-- a value, after whitespace (`stateBeginValue`); `n` bounds the nesting and the elements read -/
def parseValue : Nat → Bytes → Option (Value × Bytes)
  | 0, _ => none
  | n + 1, s =>
    match skipSpace s with
    | [] => none
    | c :: s =>
      if c = 0x7B then
        if (skipSpace s).head? = some 0x7D then some (.obj [], (skipSpace s).tail)
        else (parseMembers n s).map fun p => (.obj p.1, p.2)
      else if c = 0x5B then
        if (skipSpace s).head? = some 0x5D then some (.arr [], (skipSpace s).tail)
        else (parseElems n s).map fun p => (.arr p.1, p.2)
      else if c = 0x22 then (scanString s).map fun p => (.str p.1, p.2)
      else if c = 0x74 then (expectWord (ascii "rue") s).map fun s => (.bool true, s)
      else if c = 0x66 then (expectWord (ascii "alse") s).map fun s => (.bool false, s)
      else if c = 0x6E then (expectWord (ascii "ull") s).map fun s => (.null, s)
      else (scanNumber (c :: s)).map fun p => (.num p.1, p.2)

/-- the elements of an array and its closing bracket -/
def parseElems : Nat → Bytes → Option (List Value × Bytes)
  | 0, _ => none
  | n + 1, s =>
    match parseValue n s with
    | none => none
    | some (x, s) =>
      match skipSpace s with
      | 0x2C :: s => (parseElems n s).map fun p => (x :: p.1, p.2)
      | 0x5D :: s => some ([x], s)
      | _ => none

/-- the members of an object and its closing brace -/
def parseMembers : Nat → Bytes → Option (List (Bytes × Value) × Bytes)
  | 0, _ => none
  | n + 1, s =>
    match skipSpace s with
    | 0x22 :: s =>
      match scanString s with
      | none => none
      | some (k, s) =>
        match skipSpace s with
        | 0x3A :: s =>
          match parseValue n s with
          | none => none
          | some (v, s) =>
            match skipSpace s with
            | 0x2C :: s => (parseMembers n s).map fun p => ((k, v) :: p.1, p.2)
            | 0x7D :: s => some ([(k, v)], s)
            | _ => none
        | _ => none
    | _ => none
end

/-- `maxNestingDepth`: how many arrays and objects may be open at once before the scanner's `pushParseState` fails
with "exceeded max depth" -/
def maxNestingDepth : Nat := 10000

mutual
/-- how deep arrays and objects nest in a value: the height the scanner's `parseState` stack reaches on its text -/
def Value.depth : Value → Nat
  | .arr xs => depthElems xs + 1
  | .obj ms => depthMembers ms + 1
  | _ => 0

/-- the deepest element -/
def depthElems : List Value → Nat
  | [] => 0
  | x :: xs => max x.depth (depthElems xs)

/-- the deepest member's value -/
def depthMembers : List (Bytes × Value) → Nat
  | [] => 0
  | (_, v) :: ms => max v.depth (depthMembers ms)
end

/-- `checkValid`: one value and then only whitespace. The scanner pushes a parse state at each `[` and `{` and fails
once more than `maxNestingDepth` are open, so it fails on exactly the texts of values nested deeper. -/
def parseTop (s : Bytes) : Option Value :=
  match parseValue (s.length + 1) s with
  | some (v, r) => if skipSpace r = [] ∧ v.depth ≤ maxNestingDepth then some v else none
  | none => none

/-! ## Tokens of a string -/

theorem strOkFrom_cons_iff {q : StrState} {c : UInt8} {s : Bytes} :
    strOkFrom q (c :: s) ↔ ∃ q', strStep q c = .next q' ∧ strOkFrom q' s := by
  simp only [strOkFrom]; split <;> simp_all

theorem strOkFrom_hex_lt {k : Nat} (hk : k < 3) {c : UInt8} {s : Bytes} :
    strOkFrom (.hex k) (c :: s) ↔ isHex c ∧ strOkFrom (.hex (k + 1)) s := by
  rw [strOkFrom_cons_iff]; by_cases h : isHex c <;> simp [strStep, h, hk.ne]

theorem strOkFrom_hex_three {c : UInt8} {s : Bytes} :
    strOkFrom (.hex 3) (c :: s) ↔ isHex c ∧ strOkFrom .body s := by
  rw [strOkFrom_cons_iff]; by_cases h : isHex c <;> simp [strStep, h]

@[simp] theorem strOkFrom_hex_nil (k : Nat) : strOkFrom (.hex k) [] = false := rfl

theorem strStep_body_next {c : UInt8} {q : StrState} (h : strStep .body c = .next q) :
    (c = 0x5C ∧ q = .esc) ∨ (strStep .body c = .next .body ∧ q = .body) := by
  simp only [strStep] at h ⊢; split_ifs at h ⊢ <;> simp_all

theorem strStep_esc_next {c : UInt8} {q : StrState} (h : strStep .esc c = .next q) :
    (isEscape c ∧ q = .body) ∨ (c = 0x75 ∧ q = .hex 0) := by
  simp only [strStep] at h; split_ifs at h <;> simp_all

/-- the first token of a string's raw text: a plain byte, a short escape, or `\u` and four hex digits -/
theorem strOk_cons {c : UInt8} {s : Bytes} (h : strOkFrom .body (c :: s)) :
    (strStep .body c = .next .body ∧ strOkFrom .body s) ∨
    (c = 0x5C ∧ ∃ e t, s = e :: t ∧ isEscape e ∧ strOkFrom .body t) ∨
    (c = 0x5C ∧ ∃ a b d f t, s = 0x75 :: a :: b :: d :: f :: t ∧
      isHex a ∧ isHex b ∧ isHex d ∧ isHex f ∧ strOkFrom .body t) := by
  obtain ⟨q, hc, h⟩ := strOkFrom_cons_iff.1 h
  rcases strStep_body_next hc with ⟨rfl, rfl⟩ | ⟨hc, rfl⟩
  · right
    rcases s with _ | ⟨e, t⟩
    · cases h
    obtain ⟨q, he, h⟩ := strOkFrom_cons_iff.1 h
    rcases strStep_esc_next he with ⟨hesc, rfl⟩ | ⟨rfl, rfl⟩
    · exact .inl ⟨rfl, e, t, rfl, hesc, h⟩
    · rcases t with _ | ⟨a, _ | ⟨b, _ | ⟨d, _ | ⟨f, t⟩⟩⟩⟩ <;>
        simp only [strOkFrom_hex_lt, strOkFrom_hex_three, strOkFrom_hex_nil, Nat.reduceAdd, Nat.reduceLT, and_false,
          Bool.false_eq_true] at h
      exact .inr ⟨rfl, a, b, d, f, t, rfl, h⟩
  · exact .inl ⟨hc, h⟩

/-! ## Well-formed values -/

mutual
/-- every string's raw text and every number's literal is one the scanner accepts -/
def Value.wf : Value → Bool
  | .num lit => numOk lit
  | .str raw => strOk raw
  | .arr xs => wfElems xs
  | .obj ms => wfMembers ms
  | _ => true

/-- `Value.wf` for each element -/
def wfElems : List Value → Bool
  | [] => true
  | x :: xs => x.wf && wfElems xs

/-- `Value.wf` for each member, keys included -/
def wfMembers : List (Bytes × Value) → Bool
  | [] => true
  | (k, v) :: ms => strOk k && v.wf && wfMembers ms
end

mutual
/-- the fuel `parseValue` spends on a value -/
def Value.size : Value → Nat
  | .arr xs => 1 + sizeElems xs
  | .obj ms => 1 + sizeMembers ms
  | _ => 0

/-- the fuel `parseElems` spends -/
def sizeElems : List Value → Nat
  | [] => 0
  | x :: xs => x.size + 1 + sizeElems xs

/-- the fuel `parseMembers` spends -/
def sizeMembers : List (Bytes × Value) → Nat
  | [] => 0
  | (_, v) :: ms => v.size + 1 + sizeMembers ms
end

/-- what may follow a value in a text `print` writes: nothing, a comma, a closing bracket or brace -/
def delim : Bytes → Bool
  | [] => true
  | c :: _ => c == 0x2C || c == 0x5D || c == 0x7D

/-! ## Reading printed text back -/

theorem scanStr_append {q : StrState} {raw : Bytes} (h : strOkFrom q raw) (rest : Bytes) :
    scanStr q (raw ++ 0x22 :: rest) = some (raw, rest) := by
  induction raw generalizing q with
  | nil =>
    obtain rfl : q = .body := by simpa [strOkFrom] using h
    rfl
  | cons c s ih =>
    simp only [strOkFrom] at h
    split at h
    · simp [scanStr, *]
    · cases h

theorem scanString_append {raw : Bytes} (h : strOk raw) (rest : Bytes) :
    scanString (raw ++ 0x22 :: rest) = some (raw, rest) := scanStr_append h rest

theorem numRun_fst_append (q : NumState) (s : Bytes) : (numRun q s).1 ++ (numRun q s).2.1 = s := by
  induction s generalizing q with
  | nil => rfl
  | cons c s ih => simp only [numRun]; split <;> simp [ih]

theorem numRun_append {q q' : NumState} {lit : Bytes} (h : numRun q lit = (lit, [], q')) {c : UInt8}
    (hc : numStep q' c = none) (rest : Bytes) : numRun q (lit ++ c :: rest) = (lit, c :: rest, q') := by
  induction lit generalizing q with
  | nil => cases h; simp [numRun, hc]
  | cons d lit ih =>
    simp only [numRun] at h ⊢
    split at h
    · simp only [Prod.mk.injEq, List.cons.injEq, true_and] at h
      simp [*, ih (Prod.ext h.1 h.2)]
    · simp at h

theorem numStep_delim {c : UInt8} {r : Bytes} (h : delim (c :: r)) (q : NumState) : numStep q c = none := by
  simp only [delim, Bool.or_eq_true, beq_iff_eq] at h
  rcases h with (rfl | rfl) | rfl <;> cases q <;> decide

theorem numOk_run {lit : Bytes} (h : numOk lit) : ∃ q, numRun .start lit = (lit, [], q) ∧ q.final := by
  simp only [numOk, Bool.and_eq_true, List.isEmpty_iff] at h
  have e := numRun_fst_append .start lit
  rw [h.1, List.append_nil] at e
  exact ⟨_, Prod.ext e (Prod.ext h.1 rfl), h.2⟩

theorem scanNumber_append {lit rest : Bytes} (h : numOk lit) (hr : delim rest) :
    scanNumber (lit ++ rest) = some (lit, rest) := by
  obtain ⟨q, hq, hf⟩ := numOk_run h
  cases rest with
  | nil => simp [scanNumber, hq, hf]
  | cons c r => simp [scanNumber, numRun_append hq (numStep_delim hr q), hf]

theorem numOk_head {lit : Bytes} (h : numOk lit) :
    ∃ c l, lit = c :: l ∧ (c.toNat = 0x2D ∨ (0x30 ≤ c.toNat ∧ c.toNat ≤ 0x39)) := by
  obtain ⟨q, hq, hf⟩ := numOk_run h
  match lit, hq with
  | [], hq => cases hq; simp [NumState.final] at hf
  | c :: l, hq =>
    refine ⟨c, l, rfl, ?_⟩
    simp only [numRun] at hq
    split at hq
    · rename_i q' hs
      simp only [numStep, isDigit, beq_iff_eq] at hs
      split_ifs at hs with h1 h2 h3
      · exact .inl (by rw [h1]; rfl)
      · exact .inr (by rw [h2]; decide)
      · simp only [Bool.and_eq_true, decide_eq_true_eq, UInt8.le_iff] at h3; exact .inr h3
    · simp at hq

/-- the first byte of a printed value: never whitespace, a closing bracket or a closing brace -/
theorem print_head {t : Value} (h : t.wf) :
    ∃ c l, t.print = c :: l ∧ isSpace c = false ∧ c ≠ 0x5D ∧ c ≠ 0x7D := by
  match t with
  | .null | .bool true | .bool false | .str _ | .arr [] | .arr (_ :: _) | .obj [] | .obj (_ :: _) =>
    exact ⟨_, _, rfl, by decide, by decide, by decide⟩
  | .num lit =>
    obtain ⟨c, l, rfl, hc⟩ := numOk_head (by simpa [Value.wf] using h)
    refine ⟨c, l, rfl, ?_, ?_, ?_⟩
    · simp only [isSpace, Bool.or_eq_false_iff, beq_eq_false_iff_ne, ne_eq, UInt8.eq_iff, UInt8.toNat_lit]
      omega
    all_goals rw [ne_eq, UInt8.eq_iff]; simp only [UInt8.toNat_lit]; omega

theorem parseValue_num {lit rest : Bytes} (h : numOk lit) (hr : delim rest) (n : Nat) :
    parseValue (n + 1) (lit ++ rest) = some (.num lit, rest) := by
  obtain ⟨c, l, rfl, hc⟩ := numOk_head h
  have hs : isSpace c = false := by
    simp only [isSpace, Bool.or_eq_false_iff, beq_eq_false_iff_ne, ne_eq, UInt8.eq_iff, UInt8.toNat_lit]
    omega
  have ne : ∀ d : UInt8, c.toNat ≠ d.toNat → c ≠ d := fun d h e => h (congrArg _ e)
  rw [List.cons_append, parseValue, skipSpace, if_neg (by simp [hs])]
  simp only [← List.cons_append, scanNumber_append h hr]
  rw [if_neg (ne 0x7B (by simp only [UInt8.toNat_lit]; omega)),
    if_neg (ne 0x5B (by simp only [UInt8.toNat_lit]; omega)),
    if_neg (ne 0x22 (by simp only [UInt8.toNat_lit]; omega)),
    if_neg (ne 0x74 (by simp only [UInt8.toNat_lit]; omega)),
    if_neg (ne 0x66 (by simp only [UInt8.toNat_lit]; omega)),
    if_neg (ne 0x6E (by simp only [UInt8.toNat_lit]; omega))]
  rfl

theorem skipSpace_print {t : Value} (h : t.wf) (rest : Bytes) :
    skipSpace (t.print ++ rest) = t.print ++ rest := by
  obtain ⟨c, l, e, hs, -⟩ := print_head h
  rw [e]; simp [skipSpace, hs]

theorem head_print {t : Value} (h : t.wf) (rest : Bytes) :
    (t.print ++ rest).head? ≠ some 0x5D ∧ (t.print ++ rest).head? ≠ some 0x7D := by
  obtain ⟨c, l, e, -, h1, h2⟩ := print_head h
  rw [e, List.cons_append, List.head?_cons]
  exact ⟨fun h => h1 (Option.some.inj h), fun h => h2 (Option.some.inj h)⟩

theorem parseValue_arr {n : Nat} {s : Bytes} (h : (skipSpace s).head? ≠ some 0x5D) :
    parseValue (n + 1) (0x5B :: s) = (parseElems n s).map fun p => (.arr p.1, p.2) := by
  simp [parseValue, skipSpace, isSpace, h]

theorem parseValue_obj {n : Nat} {s : Bytes} (h : (skipSpace s).head? ≠ some 0x7D) :
    parseValue (n + 1) (0x7B :: s) = (parseMembers n s).map fun p => (.obj p.1, p.2) := by
  simp [parseValue, skipSpace, isSpace, h]

theorem parseValue_str (n : Nat) (s : Bytes) :
    parseValue (n + 1) (0x22 :: s) = (scanString s).map fun p => (.str p.1, p.2) := by
  simp [parseValue, skipSpace, isSpace]

theorem parseMembers_key (n : Nat) (s : Bytes) :
    parseMembers (n + 1) (0x22 :: s) =
      match scanString s with
      | none => none
      | some (k, s) =>
        match skipSpace s with
        | 0x3A :: s =>
          match parseValue n s with
          | none => none
          | some (v, s) =>
            match skipSpace s with
            | 0x2C :: s => (parseMembers n s).map fun p => ((k, v) :: p.1, p.2)
            | 0x7D :: s => some ([(k, v)], s)
            | _ => none
        | _ => none := by
  simp [parseMembers, skipSpace, isSpace]

/-- Printing then scanning gives back a well-formed value, whatever follows a delimiter. -/
theorem parse_print : ∀ n : Nat,
    (∀ (t : Value) (rest : Bytes), t.wf → delim rest → t.size < n →
      parseValue n (t.print ++ rest) = some (t, rest)) ∧
    (∀ (x : Value) (xs : List Value) (rest : Bytes), wfElems (x :: xs) → sizeElems (x :: xs) < n →
      parseElems n (x.print ++ (printElems xs ++ rest)) = some (x :: xs, rest)) ∧
    (∀ (k : Bytes) (v : Value) (ms : List (Bytes × Value)) (rest : Bytes), wfMembers ((k, v) :: ms) →
      sizeMembers ((k, v) :: ms) < n →
      parseMembers n (0x22 :: (k ++ 0x22 :: 0x3A :: (v.print ++ (printMembers ms ++ rest)))) =
        some ((k, v) :: ms, rest))
  | 0 => ⟨fun _ _ _ _ h => absurd h (Nat.not_lt_zero _), fun _ _ _ _ h => absurd h (Nat.not_lt_zero _),
      fun _ _ _ _ _ h => absurd h (Nat.not_lt_zero _)⟩
  | n + 1 => by
    obtain ⟨ihv, ihe, ihm⟩ := parse_print n
    refine ⟨fun t rest ht hr hn => ?_, fun x xs rest hw hn => ?_, fun k v ms rest hw hn => ?_⟩
    · match t with
      | .null | .bool true | .bool false | .arr [] | .obj [] => rfl
      | .num lit => exact parseValue_num ht hr n
      | .str raw =>
        simp only [Value.print, List.cons_append, List.append_assoc, List.singleton_append, parseValue_str,
          scanString_append (show strOk raw by simpa [Value.wf] using ht), Option.map_some', List.nil_append]
      | .arr (x :: xs) =>
        simp only [Value.wf] at ht
        simp only [Value.size] at hn
        have hx : x.wf := by simp [wfElems] at ht; exact ht.1
        simp only [Value.print, List.cons_append, List.append_assoc]
        rw [parseValue_arr (by rw [skipSpace_print hx]; exact (head_print hx _).1), ihe x xs rest ht (by omega)]
        rfl
      | .obj ((k, v) :: ms) =>
        simp only [Value.wf] at ht
        simp only [Value.size] at hn
        simp only [Value.print, List.cons_append, List.append_assoc]
        rw [parseValue_obj (by simp [skipSpace, isSpace]), ihm k v ms rest ht (by omega)]
        rfl
    · simp only [wfElems, Bool.and_eq_true] at hw
      simp only [sizeElems] at hn
      rw [parseElems, ihv x _ hw.1 (by cases xs <;> rfl) (by omega)]
      match xs with
      | [] => rfl
      | y :: ys =>
        have := ihe y ys rest hw.2 (by simp only [sizeElems] at hn ⊢; omega)
        simp [printElems, skipSpace, isSpace, this]
    · simp only [wfMembers, Bool.and_eq_true] at hw
      simp only [sizeMembers] at hn
      have hv := ihv v (printMembers ms ++ rest) hw.1.2 (by cases ms <;> rfl) (by omega)
      rw [parseMembers_key, scanString_append hw.1.1]
      simp only [skipSpace, isSpace, hv]
      match ms, hv with
      | [], hv =>
        simp only [printMembers, List.cons_append, List.nil_append] at hv ⊢
        simp [skipSpace, isSpace, hv]
      | (k', v') :: ms', hv =>
        have := ihm k' v' ms' rest hw.2 (by simp only [sizeMembers] at hn ⊢; omega)
        simp only [printMembers, List.cons_append, List.append_assoc] at hv this ⊢
        simp [skipSpace, isSpace, hv, this]

mutual
theorem size_le_length : ∀ t : Value, t.size ≤ t.print.length
  | .null | .bool _ | .num _ | .str _ => by simp [Value.size]
  | .arr [] | .obj [] => by simp [Value.size, sizeElems, sizeMembers, Value.print]
  | .arr (x :: xs) => by
    have := size_le_length x; have := sizeElems_lt xs
    simp only [Value.size, sizeElems, Value.print, List.length_cons, List.length_append]; omega
  | .obj ((k, v) :: ms) => by
    have := size_le_length v; have := sizeMembers_lt ms
    simp only [Value.size, sizeMembers, Value.print, List.length_cons, List.length_append]; omega

theorem sizeElems_lt : ∀ xs : List Value, sizeElems xs < (printElems xs).length
  | [] => by simp [sizeElems, printElems]
  | x :: xs => by
    have := size_le_length x; have := sizeElems_lt xs
    simp only [sizeElems, printElems, List.length_cons, List.length_append]; omega

theorem sizeMembers_lt : ∀ ms : List (Bytes × Value), sizeMembers ms < (printMembers ms).length
  | [] => by simp [sizeMembers, printMembers]
  | (_, v) :: ms => by
    have := size_le_length v; have := sizeMembers_lt ms
    simp only [sizeMembers, printMembers, List.length_cons, List.length_append]; omega
end

theorem depthElems_le {n : Nat} : ∀ {xs : List Value}, depthElems xs ≤ n ↔ ∀ x ∈ xs, x.depth ≤ n
  | [] => by simp [depthElems]
  | x :: xs => by simp only [depthElems, Nat.max_le, depthElems_le, List.forall_mem_cons]

theorem depthMembers_le {n : Nat} : ∀ {ms : List (Bytes × Value)}, depthMembers ms ≤ n ↔ ∀ m ∈ ms, m.2.depth ≤ n
  | [] => by simp [depthMembers]
  | (k, v) :: ms => by simp only [depthMembers, Nat.max_le, depthMembers_le, List.forall_mem_cons]

/-- the scanner, with no bound on nesting, reads a well-formed value back from its text -/
theorem parseValue_print {t : Value} (h : t.wf) : parseValue (t.print.length + 1) t.print = some (t, []) := by
  have := size_le_length t
  simpa only [List.append_nil] using (parse_print (t.print.length + 1)).1 t [] h rfl (by omega)

/-- `checkValid` reads a well-formed value back from its text exactly when it nests at most `maxNestingDepth` deep -/
theorem parseTop_print {t : Value} (h : t.wf) :
    parseTop t.print = if t.depth ≤ maxNestingDepth then some t else none := by
  simp only [parseTop, parseValue_print h, skipSpace, true_and]

theorem parseTop_print_of_depth {t : Value} (h : t.wf) (hd : t.depth ≤ maxNestingDepth) :
    parseTop t.print = some t := by
  rw [parseTop_print h, if_pos hd]

/-- an object reads back whatever follows it, not only a delimiter -/
theorem parseValue_obj_append {ms : List (Bytes × Value)} (rest : Bytes) (h : (Value.obj ms).wf) :
    ∀ n, (Value.obj ms).size < n → parseValue n ((Value.obj ms).print ++ rest) = some (.obj ms, rest)
  | 0, hn => absurd hn (Nat.not_lt_zero _)
  | n + 1, hn => by
    match ms with
    | [] => simp [Value.print, parseValue, skipSpace, isSpace]
    | (k, v) :: ms =>
      simp only [Value.size] at hn
      simp only [Value.print, List.cons_append, List.append_assoc]
      rw [parseValue_obj (by simp [skipSpace, isSpace]), (parse_print n).2.2 k v ms rest h (by omega)]
      rfl

/-- `json.Unmarshal` of an object's text followed by whitespace, as `Encoder.Encode` writes it, reads the object
when it nests at most `maxNestingDepth` deep -/
theorem parseTop_obj_append {ms : List (Bytes × Value)} {rest : Bytes} (h : (Value.obj ms).wf)
    (hr : skipSpace rest = []) :
    parseTop ((Value.obj ms).print ++ rest) =
      if (Value.obj ms).depth ≤ maxNestingDepth then some (.obj ms) else none := by
  have := size_le_length (.obj ms)
  have hn : (Value.obj ms).size < ((Value.obj ms).print ++ rest).length + 1 := by
    rw [List.length_append]; omega
  simp only [parseTop, parseValue_obj_append rest h _ hn, hr, true_and]

/-! ## What the scanner reads is well formed -/

theorem scanStr_ok {q : StrState} {s raw r : Bytes} (h : scanStr q s = some (raw, r)) : strOkFrom q raw := by
  induction s generalizing q raw with
  | nil => cases h
  | cons c s ih =>
    simp only [scanStr] at h
    split at h
    · rename_i hc
      cases h
      cases q <;> simp only [strStep] at hc <;> split_ifs at hc
      all_goals simp_all [strOkFrom]
    · rename_i q' hc
      obtain ⟨⟨raw', r'⟩, hs, he⟩ := Option.map_eq_some'.1 h
      cases he
      simp [strOkFrom, hc, ih hs]
    · cases h

theorem numRun_consumed (q : NumState) (s : Bytes) :
    numRun q (numRun q s).1 = ((numRun q s).1, [], (numRun q s).2.2) := by
  induction s generalizing q with
  | nil => rfl
  | cons c s ih => simp only [numRun]; split <;> simp [numRun, *]

theorem scanNumber_ok {s lit r : Bytes} (h : scanNumber s = some (lit, r)) : numOk lit := by
  simp only [scanNumber] at h
  split at h
  · cases h
    simp [numOk, numRun_consumed, *]
  · cases h

theorem parse_wf : ∀ n : Nat,
    (∀ s t r, parseValue n s = some (t, r) → t.wf) ∧
    (∀ s xs r, parseElems n s = some (xs, r) → wfElems xs) ∧
    (∀ s ms r, parseMembers n s = some (ms, r) → wfMembers ms)
  | 0 => ⟨fun _ _ _ h => (by cases h), fun _ _ _ h => (by cases h), fun _ _ _ h => (by cases h)⟩
  | n + 1 => by
    obtain ⟨ihv, ihe, ihm⟩ := parse_wf n
    refine ⟨fun s t r h => ?_, fun s xs r h => ?_, fun s ms r h => ?_⟩
    · simp only [parseValue] at h
      split at h
      · cases h
      split_ifs at h
      · cases h; rfl
      · obtain ⟨⟨ms, r'⟩, hm, he⟩ := Option.map_eq_some'.1 h
        cases he; exact ihm _ _ _ hm
      · cases h; rfl
      · obtain ⟨⟨xs, r'⟩, hm, he⟩ := Option.map_eq_some'.1 h
        cases he; exact ihe _ _ _ hm
      · obtain ⟨⟨raw, r'⟩, hm, he⟩ := Option.map_eq_some'.1 h
        cases he; exact scanStr_ok hm
      all_goals first
        | (obtain ⟨s', -, he⟩ := Option.map_eq_some'.1 h; cases he; rfl)
        | (obtain ⟨⟨lit, r'⟩, hm, he⟩ := Option.map_eq_some'.1 h; cases he; exact scanNumber_ok hm)
    · simp only [parseElems] at h
      split at h
      · cases h
      rename_i x s' hx
      split at h
      · obtain ⟨⟨xs', r'⟩, hm, he⟩ := Option.map_eq_some'.1 h
        cases he; simp [wfElems, ihv _ _ _ hx, ihe _ _ _ hm]
      · cases h; simp [wfElems, ihv _ _ _ hx]
      · cases h
    · simp only [parseMembers] at h
      split at h
      · split at h
        · cases h
        rename_i k s' hk
        split at h
        · split at h
          · cases h
          rename_i v s'' hv
          split at h
          · obtain ⟨⟨ms', r'⟩, hm, he⟩ := Option.map_eq_some'.1 h
            cases he; simp [wfMembers, strOk, scanStr_ok hk, ihv _ _ _ hv, ihm _ _ _ hm]
          · cases h; simp [wfMembers, strOk, scanStr_ok hk, ihv _ _ _ hv]
          · cases h
        · cases h
      · cases h

theorem parseTop_wf {s : Bytes} {t : Value} (h : parseTop s = some t) : t.wf := by
  simp only [parseTop] at h
  split at h
  · split at h
    · cases h; exact (parse_wf _).1 _ _ _ ‹_›
    · cases h
  · cases h

/-- what `checkValid` accepts nests at most `maxNestingDepth` deep -/
theorem parseTop_depth {s : Bytes} {t : Value} (h : parseTop s = some t) : t.depth ≤ maxNestingDepth := by
  simp only [parseTop] at h
  split at h
  · split at h
    · rename_i hc; cases h; exact hc.2
    · cases h
  · cases h

example : parseTop (ascii "\x7b\"a\" : [1, -2.5e3, \"x\\n\"], \"b\":null\x7d") =
    some (.obj [(ascii "a", .arr [.num (ascii "1"), .num (ascii "-2.5e3"), .str (ascii "x\\n")]),
      (ascii "b", .null)]) := rfl

end FepFem.Json
