import FepFem.Json.GoValue
import Mathlib.Data.List.Basic
import Mathlib.Data.List.Forall2

/-
Values through `json.Marshal` and back through `json.Unmarshal`: an `interface{}`, a `map[string]interface{}`, a slice
and a struct.

What an `interface{}` comes back as is its normal form (`Any.reread`): an integer as a `float64` written with the same
digits, a string coerced to UTF-8, an object with its keys coerced and sorted, a key bound twice holding its later
value. `Marshal` refuses a value of an unsupported type, NaN and the infinities; `Unmarshal` refuses a number out of
the range of a `float64`. A float is modelled by its text, which is what Go writes back only for the numbers a
`float64` holds exactly in the form `Marshal` writes them: here the integers of magnitude at most `2^53`
(`exactLit`). A value all of whose parts pass both checks and whose numbers are such integers is portable
(`Any.portable`), and every read-back below is stated for portable values; an `int64`'s digits are always in range
(`floatOverflows_formatInt`).

An object's members are written sorted by key and read back into a map one at a time; the two folds meet through
`sortKeys_forall₂`, which says sorting relates two maps whose entries are related pairwise with equal keys. A struct is
read back field by field in the order the encoder writes its fields (`decFields`), a field left out keeping what the
decoder started from.

Results:
- `Any.ofValue_encode`: a portable `interface{}` is written, and reads back as its normal form;
- `decMap_encMap`: a portable `map[string]interface{}` read into a nil map comes back with its keys coerced and sorted
  and its values in normal form;
- `decSlice_encSlice`: a slice reads back element by element;
- `decStruct_encStruct`: a struct reads back field by field.
-/

namespace FepFem.Json

/-! ## Maps with sorted keys -/

/-- keys equal, values related by `S` -/
def KeyRel {α β : Type} (S : α → β → Prop) (c : Bytes × α) (m : Bytes × β) : Prop := c.1 = m.1 ∧ S c.2 m.2

theorem insertKey_forall₂ {α β : Type} {S : α → β → Prop} {k : Bytes} {v : α} {v' : β} (hv : S v v') :
    ∀ {acc : List (Bytes × α)} {acc' : List (Bytes × β)}, List.Forall₂ (KeyRel S) acc acc' →
      List.Forall₂ (KeyRel S) (insertKey k v acc) (insertKey k v' acc')
  | _, _, .nil => .cons ⟨rfl, hv⟩ .nil
  | (k₁, v₁) :: _, (k₂, v₂) :: _, .cons h hs => by
    obtain rfl : k₁ = k₂ := h.1
    simp only [insertKey]
    split_ifs
    · exact .cons ⟨rfl, hv⟩ hs
    · exact .cons ⟨rfl, hv⟩ (.cons h hs)
    · exact .cons h (insertKey_forall₂ hv hs)

theorem sortKeys_forall₂ {α β : Type} {S : α → β → Prop} {ms : List (Bytes × α)} {ms' : List (Bytes × β)}
    (h : List.Forall₂ (KeyRel S) ms ms') : List.Forall₂ (KeyRel S) (sortKeys ms) (sortKeys ms') := by
  suffices ∀ {acc acc'}, List.Forall₂ (KeyRel S) acc acc' → List.Forall₂ (KeyRel S)
      (ms.foldl (fun acc m => insertKey m.1 m.2 acc) acc) (ms'.foldl (fun acc m => insertKey m.1 m.2 acc) acc')
    from this .nil
  induction h with
  | nil => exact id
  | @cons a b _ _ hm _ ih =>
    obtain ⟨k, v⟩ := a
    obtain ⟨k', v'⟩ := b
    obtain ⟨rfl, hv⟩ := hm
    exact fun hacc => ih (insertKey_forall₂ hv hacc)

/-! ## Integers read into an `interface{}` -/

theorem isDigit_ne {c : UInt8} (h : isDigit c) : c ≠ 0x2D ∧ c ≠ 0x2E ∧ c ≠ 0x45 ∧ c ≠ 0x65 := by
  simp only [isDigit, Bool.and_eq_true, decide_eq_true_eq] at h
  refine ⟨?_, ?_, ?_, ?_⟩ <;> rintro rfl <;> revert h <;> decide

/-- a literal whose sign is followed by a run of digits has no fraction and no exponent -/
theorem litParts_digits {lit ds : Bytes} (hb : lit.dropWhile (· == 0x2D) = ds) (h : ∀ c ∈ ds, isDigit c) :
    litParts lit = (digitsVal ds, 0) := by
  have h2 : ∀ c ∈ ds, (c != 0x65 && c != 0x45) = true := fun c hc => by
    obtain ⟨-, -, h45, h65⟩ := isDigit_ne (h c hc); simp [h45, h65]
  have h3 : ∀ c ∈ ds, (c != 0x2E) = true := fun c hc => by simp [(isDigit_ne (h c hc)).2.1]
  simp only [litParts, hb, List.takeWhile_eq_self_iff.2 h2, List.dropWhile_eq_nil_iff.2 h2,
    List.dropWhile_eq_nil_iff.2 h3, List.takeWhile_eq_self_iff.2 h3, List.drop_nil, List.append_nil,
    List.length_nil, Nat.cast_zero, sub_zero]

/-- `Marshal` writes an integer of magnitude at most `2^63` as digits that `Unmarshal` reads into a `float64` -/
theorem floatOverflows_formatInt {n : Int} (hb : n.natAbs ≤ 2 ^ 63) : floatOverflows (formatInt n) = false := by
  obtain ⟨d, ds, e, -, hds, hv⟩ := decimalAux_spec n.natAbs n.natAbs le_rfl
  have hd := (isDigit_ne (hds d (List.mem_cons_self _ _))).1
  have hm : (formatInt n).dropWhile (· == 0x2D) = d :: ds := by
    unfold formatInt decimal
    rw [e]
    split_ifs <;> simp [List.dropWhile_cons, hd]
  simp only [floatOverflows, litParts_digits hm hds, hv, le_refl, if_true, Int.toNat_zero, pow_zero, mul_one,
    decide_eq_false_iff_not, not_le]
  calc n.natAbs ≤ 2 ^ 63 := hb
    _ < 2 ^ 1024 - 2 ^ 970 := by norm_num

theorem Int64.natAbs_le (i : Int64) : i.val.natAbs ≤ 2 ^ 63 := by
  have h1 := i.lo; have h2 := i.hi; omega

/-! ## Numbers a `float64` holds exactly -/

/-- `2^53`: every integer of at most this magnitude is a `float64` -/
def maxExactInt : Nat := 2 ^ 53

/-- a literal that `Unmarshal` reads into a `float64` exactly and `Marshal` writes back as it was: the digits of an
integer of magnitude at most `maxExactInt`, which `strconv.FormatFloat(f, 'f', -1, 64)` writes as they are. Any
other literal may come back changed (`1.50` as `1.5`, `9007199254740993` as `9007199254740992`), which the model,
keeping a float's text, does not follow. -/
def exactLit (lit : Bytes) : Bool :=
  (parseInt lit).any fun n => formatInt n == lit && decide (n.natAbs ≤ maxExactInt)

theorem exactLit_spec {lit : Bytes} (h : exactLit lit = true) :
    ∃ n : Int, formatInt n = lit ∧ n.natAbs ≤ maxExactInt := by
  unfold exactLit at h
  cases hp : parseInt lit with
  | none => rw [hp] at h; cases h
  | some n =>
    rw [hp] at h
    simp only [Option.any_some, Bool.and_eq_true, beq_iff_eq, decide_eq_true_eq] at h
    exact ⟨n, h⟩

theorem exactLit_floatOverflows {lit : Bytes} (h : exactLit lit = true) : floatOverflows lit = false := by
  obtain ⟨n, rfl, hn⟩ := exactLit_spec h
  exact floatOverflows_formatInt (le_trans hn (by unfold maxExactInt; norm_num))

/-! ## An `interface{}` read back -/

mutual
/-- what `Unmarshal` into an `interface{}` gives back for what `Marshal` wrote of one: an integer comes back as a
`float64` of the same digits, a string coerced to UTF-8, an object with its keys coerced and sorted -/
def Any.reread : Any → Any
  | .int i => .float (.finite (formatInt i.val) (numOk_formatInt i.val))
  | .str s => .str (coerceUtf8 s)
  | .arr xs => .arr (Any.rereadElems xs)
  | .obj ms => .obj (sortKeys ((sortKeys (Any.rereadMembers ms)).map fun m => (coerceUtf8 m.1, m.2)))
  | x => x

/-- `Any.reread` on each element -/
def Any.rereadElems : List Any → List Any
  | [] => []
  | x :: xs => x.reread :: Any.rereadElems xs

/-- `Any.reread` on each value of a map -/
def Any.rereadMembers : List (Bytes × Any) → List (Bytes × Any)
  | [] => []
  | (k, v) :: ms => (k, v.reread) :: Any.rereadMembers ms
end

mutual
/-- whether `Marshal` accepts an `interface{}` and `Unmarshal` reads back exactly the numbers it writes: no value of an
unsupported type, no NaN or infinity, and every number an integer a `float64` holds exactly, written as `Marshal`
writes it -/
def Any.portable : Any → Bool
  | .int i => decide (i.val.natAbs ≤ maxExactInt)
  | .float (.finite lit _) => exactLit lit
  | .float _ => false
  | .arr xs => Any.portableElems xs
  | .obj ms => Any.portableMembers ms
  | .unsupported => false
  | _ => true

/-- `Any.portable` of every element -/
def Any.portableElems : List Any → Bool
  | [] => true
  | x :: xs => x.portable && Any.portableElems xs

/-- `Any.portable` of every value of a map -/
def Any.portableMembers : List (Bytes × Any) → Bool
  | [] => true
  | (_, v) :: ms => v.portable && Any.portableMembers ms
end

/-- the decoder reads an object's members into a map in the order written, each key unquoted -/
theorem ofMembers_members {L : List (Bytes × Canon)} {L' : List (Bytes × Any)}
    (h : List.Forall₂ (KeyRel fun c v => Any.ofValue c.val = some v) L L') :
    ∀ acc, Any.ofMembers (members L) acc = some (L'.foldl (fun acc m => insertKey (coerceUtf8 m.1) m.2 acc) acc) := by
  induction h with
  | nil => intro; rfl
  | @cons a b _ _ hab _ ih =>
    intro acc
    obtain ⟨k, c⟩ := a
    obtain ⟨k', v⟩ := b
    obtain ⟨rfl, hv⟩ := hab
    simp only [members, List.map_cons, Any.ofMembers, unquote_quoteRaw, Option.some_bind, hv] at ih ⊢
    exact ih _

mutual
/-- a portable `interface{}` is written, and reads back as its normal form -/
theorem Any.ofValue_encode : ∀ x : Any, x.portable = true →
    ∃ c, x.encode = some c ∧ Any.ofValue c.val = some x.reread
  | .null, _ => ⟨_, rfl, rfl⟩
  | .bool _, _ => ⟨_, rfl, rfl⟩
  | .int i, _ => ⟨_, rfl, by
    simp only [Canon.int, Any.ofValue, numOk_formatInt, floatOverflows_formatInt i.natAbs_le, and_self, dif_pos,
      Any.reread]⟩
  | .float (.finite lit hl), hr => ⟨_, rfl, by
    simp only [Canon.num, Any.ofValue, hl, exactLit_floatOverflows hr, and_self, dif_pos, Any.reread]⟩
  | .str s, _ => ⟨_, rfl, by simp only [Canon.str, Any.ofValue, unquote_quoteRaw, Option.map_some', Any.reread]⟩
  | .arr xs, hr => by
    obtain ⟨cs, hcs, hd⟩ := Any.ofElems_encode xs hr
    refine ⟨.arr cs, by simp only [Any.encode, hcs, Option.map_some'], ?_⟩
    simp only [Canon.arr, Any.ofValue, hd, Option.map_some', Any.reread]
  | .obj ms, hr => by
    obtain ⟨cs, hcs, hrel⟩ := Any.ofMembers_encode ms hr
    refine ⟨.obj (sortKeys cs), by simp only [Any.encode, hcs, Option.map_some'], ?_⟩
    simp only [Canon.obj, Any.ofValue]
    rw [ofMembers_members (sortKeys_forall₂ hrel)]
    simp only [Option.map_some', Any.reread, sortKeys, List.foldl_map]

theorem Any.ofElems_encode : ∀ xs : List Any, Any.portableElems xs = true →
    ∃ cs, Any.encodeElems xs = some cs ∧ Any.ofElems (cs.map Canon.val) = some (Any.rereadElems xs)
  | [], _ => ⟨[], rfl, rfl⟩
  | x :: xs, hr => by
    simp only [Any.portableElems, Bool.and_eq_true] at hr
    obtain ⟨c, hc, hd⟩ := Any.ofValue_encode x hr.1
    obtain ⟨cs, hcs, hds⟩ := Any.ofElems_encode xs hr.2
    refine ⟨c :: cs, by simp only [Any.encodeElems, hc, hcs, Option.some_bind, Option.map_some'], ?_⟩
    simp only [List.map_cons, Any.ofElems, hd, hds, Option.some_bind, Option.map_some', Any.rereadElems]

theorem Any.ofMembers_encode : ∀ ms : List (Bytes × Any), Any.portableMembers ms = true →
    ∃ cs, Any.encodeMembers ms = some cs ∧
      List.Forall₂ (KeyRel fun c v => Any.ofValue c.val = some v) cs (Any.rereadMembers ms)
  | [], _ => ⟨[], rfl, .nil⟩
  | (k, v) :: ms, hr => by
    simp only [Any.portableMembers, Bool.and_eq_true] at hr
    obtain ⟨c, hc, hd⟩ := Any.ofValue_encode v hr.1
    obtain ⟨cs, hcs, hds⟩ := Any.ofMembers_encode ms hr.2
    exact ⟨(k, c) :: cs, by simp only [Any.encodeMembers, hc, hcs, Option.some_bind, Option.map_some'],
      .cons ⟨rfl, hd⟩ hds⟩
end

/-! ## A `map[string]interface{}` read back -/

theorem mem_insertKey {α : Type} {k : Bytes} {v : α} {m : Bytes × α} :
    ∀ {acc : List (Bytes × α)}, m ∈ insertKey k v acc → m = (k, v) ∨ m ∈ acc
  | [], h => .inl (List.mem_singleton.1 h)
  | (k', v') :: acc, h => by
    simp only [insertKey] at h
    split_ifs at h
    · rcases List.mem_cons.1 h with h | h
      · exact .inl h
      · exact .inr (List.mem_cons_of_mem _ h)
    · rcases List.mem_cons.1 h with h | h
      · exact .inl h
      · exact .inr h
    · rcases List.mem_cons.1 h with h | h
      · exact .inr (h ▸ List.mem_cons_self _ _)
      · exact (mem_insertKey h).imp_right (List.mem_cons_of_mem _)

theorem mem_foldl_insertKey {α : Type} {m : Bytes × α} : ∀ (ms acc : List (Bytes × α)),
    m ∈ ms.foldl (fun acc m => insertKey m.1 m.2 acc) acc → m ∈ acc ∨ m ∈ ms
  | [], _, h => .inl h
  | x :: ms, acc, h => by
    rcases mem_foldl_insertKey ms _ h with h | h
    · exact (mem_insertKey h).elim (fun e => .inr (e ▸ List.mem_cons_self _ _)) .inl
    · exact .inr (List.mem_cons_of_mem _ h)

/-- sorting a map's entries keeps only entries of the map -/
theorem mem_sortKeys {α : Type} {ms : List (Bytes × α)} {m : Bytes × α} (h : m ∈ sortKeys ms) : m ∈ ms :=
  (mem_foldl_insertKey ms [] h).resolve_left (List.not_mem_nil _)

theorem portableMembers_iff : ∀ {ms : List (Bytes × Any)},
    Any.portableMembers ms = true ↔ ∀ m ∈ ms, m.2.portable = true
  | [] => by simp [Any.portableMembers]
  | (k, v) :: ms => by simp [Any.portableMembers, portableMembers_iff]

/-- `mapObject` into a `map[string]interface{}` is the fold `objectInterface` makes -/
theorem decMap_obj (ms : List (Bytes × Value)) (cur : Option (List (Bytes × Any))) :
    decMap decAny .null (.obj ms) cur = (Any.ofMembers ms (cur.getD [])).map some := by
  simp only [decMap]
  congr 1
  generalize cur.getD [] = acc
  induction ms generalizing acc with
  | nil => rfl
  | cons m ms ih =>
    obtain ⟨k, v⟩ := m
    simp only [List.foldlM_cons, Any.ofMembers, decAny, Option.bind_eq_bind]
    cases unquote k with
    | none => rfl
    | some key =>
      cases Any.ofValue v with
      | none => rfl
      | some x => exact ih _

/-- a map of `interface{}` values as `Unmarshal` into a nil map gives it back: keys coerced to UTF-8 and sorted,
values read back -/
def rereadMap (ms : List (Bytes × Any)) : List (Bytes × Any) :=
  sortKeys ((sortKeys ms).map fun m => (coerceUtf8 m.1, m.2.reread))

/-- `mapM` succeeds when `f` does on every element, and relates what it gives to the elements as `f` does -/
theorem mapM_forall₂_of {α β γ : Type} {f : α → Option β} {R : β → γ → Prop} {g : α → γ} :
    ∀ {l : List α}, (∀ x ∈ l, ∃ y, f x = some y ∧ R y (g x)) →
      ∃ ys, l.mapM f = some ys ∧ List.Forall₂ R ys (l.map g)
  | [], _ => ⟨[], rfl, .nil⟩
  | x :: xs, h => by
    obtain ⟨y, hy, hr⟩ := h x (List.mem_cons_self _ _)
    obtain ⟨ys, hys, hrs⟩ := mapM_forall₂_of fun x hx => h x (List.mem_cons_of_mem _ hx)
    exact ⟨y :: ys, by simp only [List.mapM_cons, hy, hys]; rfl, .cons hr hrs⟩

/-- a portable `map[string]interface{}` is written, and `Unmarshal` into a nil map gives back its normal form -/
theorem decMap_encMap (ms : List (Bytes × Any)) (hr : Any.portableMembers ms = true) :
    ∃ c, encMap Any.encode (some ms) = some c ∧ decMap decAny .null c.val none = some (some (rereadMap ms)) := by
  obtain ⟨cs, hcs, hrel⟩ := mapM_forall₂_of (f := fun m : Bytes × Any => m.2.encode.map (m.1, ·))
    (R := KeyRel fun c v => Any.ofValue c.val = some v) (g := fun m => (m.1, m.2.reread)) (l := sortKeys ms)
    fun m hm => by
      obtain ⟨c, hc, hd⟩ := Any.ofValue_encode m.2 (portableMembers_iff.1 hr m (mem_sortKeys hm))
      exact ⟨(m.1, c), by simp only [hc, Option.map_some'], rfl, hd⟩
  refine ⟨.obj cs, by simp only [encMap, hcs, Option.map_some'], ?_⟩
  simp only [Canon.obj, decMap_obj, Option.getD_none]
  rw [ofMembers_members hrel]
  simp only [Option.map_some', rereadMap, sortKeys, List.foldl_map]

/-! ## Slices -/

/-- elements read into an empty slice, each into a zero value -/
theorem decElems_forall₂ {β : Type} {d : Decoder β} {zero : β} : ∀ {cs : List Canon} {ys : List β},
    List.Forall₂ (fun c y => d c.val zero = some y) cs ys → decElems d zero (cs.map Canon.val) [] = some ys
  | [], [], .nil => rfl
  | _ :: _, _ :: _, .cons hx hs => by
    simp only [List.map_cons, decElems, List.headD_nil, hx, Option.some_bind, List.tail_nil, decElems_forall₂ hs,
      Option.map_some']

/-- a slice whose elements are each written and read back into a zero value is written, and reads back into a nil
slice element by element -/
theorem decSlice_encSlice {α β : Type} {enc : Encoder α} {d : Decoder β} {zero : β} {f : α → β} {P : α → Prop}
    (h : ∀ x, P x → ∃ c, enc x = some c ∧ d c.val zero = some (f x)) (xs : Option (List α))
    (hP : ∀ x ∈ xs.getD [], P x) :
    ∃ c, encSlice enc xs = some c ∧ decSlice d zero c.val none = some (xs.map (·.map f)) := by
  cases xs with
  | none => exact ⟨.null, rfl, rfl⟩
  | some xs =>
    obtain ⟨cs, hcs, hrel⟩ := mapM_forall₂_of (R := fun c y => d c.val zero = some y) (g := f) (l := xs)
      fun x hx => h x (hP x hx)
    refine ⟨.arr cs, by simp only [encSlice, hcs, Option.map_some'], ?_⟩
    simp only [Canon.arr, decSlice, Option.getD_none, decElems_forall₂ hrel, Option.map_some']

/-! ## Structs -/

/-- the fields the encoder writes, read back one after another from `s`: a field left out is skipped, one written is
decoded as a member of its own -/
def decFields {α : Type} (strict : Bool) (fs : List (FieldIn α)) : List FieldOut → α → Option α
  | [], s => some s
  | fo :: fos, s => if fo.leftOut then decFields strict fs fos s
    else fo.val.bind fun v => (decStruct strict fs (Canon.obj [(fo.name, v)]).val s).bind (decFields strict fs fos)

theorem decStruct_members {α : Type} {strict : Bool} {fs : List (FieldIn α)} : ∀ {fos : List FieldOut}
    {ms : List (Bytes × Canon)}, (fos.filter fun f => !f.leftOut).mapM (fun f => f.val.map (f.name, ·)) = some ms →
      ∀ s, decStruct strict fs (Canon.obj ms).val s = decFields strict fs fos s
  | [], ms, h, s => by cases h; rfl
  | fo :: fos, ms, h, s => by
    cases hl : fo.leftOut with
    | true =>
      simp only [List.filter_cons, hl, Bool.not_true, Bool.false_eq_true, if_false] at h
      simp only [decFields, hl, if_true]
      exact decStruct_members h s
    | false =>
      simp only [List.filter_cons, hl, Bool.not_false, if_true, List.mapM_cons, Option.bind_eq_bind,
        Option.bind_eq_some, Option.map_eq_some', Option.pure_def, Option.some.injEq] at h
      obtain ⟨_, ⟨v, hv, rfl⟩, ms', hms', rfl⟩ := h
      simp only [decFields, hl, hv, Bool.false_eq_true, if_false, Option.some_bind, decStruct_obj_cons,
        ← decStruct_members hms']
      cases findField fs (coerceUtf8 fo.name) <;> cases strict <;> simp [decStruct_obj_nil]

/-- a struct reads back field by field, in the order the encoder writes them -/
theorem decStruct_encStruct {α : Type} {strict : Bool} {fs : List (FieldIn α)} {fos : List FieldOut} {c : Canon}
    (h : encStruct fos = some c) (s : α) : decStruct strict fs c.val s = decFields strict fs fos s := by
  obtain ⟨ms, hms, rfl⟩ := Option.map_eq_some'.1 h
  exact decStruct_members hms s

/-- a struct is written when every field it writes encodes -/
theorem encStruct_eq_some {fos : List FieldOut} (h : ∀ fo ∈ fos, fo.leftOut = false → ∃ v, fo.val = some v) :
    ∃ c, encStruct fos = some c := by
  obtain ⟨ms, hms, -⟩ := mapM_forall₂_of (f := fun f : FieldOut => f.val.map (f.name, ·)) (R := fun _ _ => True)
    (g := id) (l := fos.filter fun f => !f.leftOut) fun fo hfo => by
      simp only [List.mem_filter, Bool.not_eq_true'] at hfo
      obtain ⟨v, hv⟩ := h fo hfo.1 hfo.2
      exact ⟨(fo.name, v), by simp only [hv, Option.map_some'], trivial⟩
  exact ⟨_, congrArg (Option.map Canon.obj) hms⟩

theorem FieldIn.dec_of {α β : Type} (name : String) (get : α → β) (set : α → β → α) (d : Decoder β) (v : Value)
    (s : α) : (FieldIn.of name get set d).dec v s = (d v (get s)).map (set s) := rfl

section Fields

variable {α : Type} {strict : Bool} {fs : List (FieldIn α)}

theorem decFields_nil (s : α) : decFields strict fs [] s = some s := rfl

theorem decFields_leftOut (n : Bytes) (v : Option Canon) (fos : List FieldOut) (s : α) :
    decFields strict fs (⟨n, true, v⟩ :: fos) s = decFields strict fs fos s := rfl

theorem decFields_written {n : Bytes} {f : FieldIn α} (hf : findField fs (coerceUtf8 n) = some f) (v : Canon)
    (fos : List FieldOut) (s : α) :
    decFields strict fs (⟨n, false, some v⟩ :: fos) s = (f.dec v.val s).bind (decFields strict fs fos) := by
  simp only [decFields, Bool.false_eq_true, if_false, Option.some_bind, decStruct_obj_cons, hf, decStruct_obj_nil]
  cases f.dec v.val s <;> rfl

/-- an `omitempty` field whose value, written, would leave the struct as it is, reads back the same whether or not it
was left out -/
theorem decFields_omitEmpty {n : Bytes} {f : FieldIn α} {e : Bool} {v : Canon} {s : α}
    (hf : findField fs (coerceUtf8 n) = some f) (he : e = true → f.dec v.val s = some s) (fos : List FieldOut) :
    decFields strict fs (⟨n, e, some v⟩ :: fos) s = decFields strict fs (⟨n, false, some v⟩ :: fos) s := by
  cases e
  · rfl
  · rw [decFields_leftOut, decFields_written hf, he rfl, Option.some_bind]

end Fields

end FepFem.Json
