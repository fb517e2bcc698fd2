import FepFem.Json.Scalars

/-
Go values through `json.Marshal` and `json.Unmarshal`.

`Canon` is what the encoder writes: a well-formed value whose strings are already HTML-escaped, so the invariant
travels with every value an encoder builds. Encoders are `α → Option Canon`, `none` being `Marshal`'s error; a
struct is encoded from the list of its fields as `typeFields` orders them, `omitempty` fields with an empty value
left out; a map's keys are sorted; a `json.RawMessage` is compacted. Decoders are `Value → α → Option α`: the
decoder fills the variable it is given, as `Unmarshal` does, and `none` is an error (`Unmarshal` goes on after a
type error to report the first one; the program reads only whether one occurred). A struct's fields are found by
exact name, then by case-folded name; unknown keys are skipped, or refused in strict mode (the `Decoder`'s
`DisallowUnknownFields`).

Results:
- `Canon.print_compact`: what the encoder writes is its own compaction, unless it nests too deep for the scanner;
- `unmarshal_print`: `json.Unmarshal` reads back what the encoder wrote exactly when it nests at most
  `maxNestingDepth` deep;
- `Canon.ofRaw_print`: a `RawMessage` is encoded as its compaction;
- `decString_str`, `decStruct_obj_field`: the decoder reads back the encoder's strings and the fields of an object.
-/

namespace FepFem.Json

open Utf8

/-! ## What the encoder writes -/

/-- a value `json.Marshal` writes: well formed, with every string already HTML-escaped -/
structure Canon where
  val : Value
  wf : val.wf
  escaped : val.escapeHTML = val

theorem wfElems_map (xs : List Canon) : wfElems (xs.map Canon.val) := by
  induction xs with
  | nil => rfl
  | cons x xs ih => simp only [List.map_cons, wfElems, x.wf, ih, Bool.and_self]

theorem escapeElems_map (xs : List Canon) : escapeElems (xs.map Canon.val) = xs.map Canon.val := by
  induction xs with
  | nil => rfl
  | cons x xs ih => simp only [List.map_cons, escapeElems, x.escaped, ih]

/-- the members of an object the encoder writes, each key a Go string -/
def members (ms : List (Bytes × Canon)) : List (Bytes × Value) := ms.map fun m => (quoteRaw m.1, m.2.val)

theorem wfMembers_members (ms : List (Bytes × Canon)) : wfMembers (members ms) := by
  induction ms with
  | nil => rfl
  | cons m ms ih =>
    simp only [members, List.map_cons, wfMembers, strOk_quoteRaw, m.2.wf, Bool.and_self] at ih ⊢
    exact ih

theorem escapeMembers_members (ms : List (Bytes × Canon)) : escapeMembers (members ms) = members ms := by
  induction ms with
  | nil => rfl
  | cons m ms ih =>
    simp only [members, List.map_cons, escapeMembers, escapeHTML_quoteRaw, m.2.escaped] at ih ⊢; rw [ih]

namespace Canon

/-- `null` -/
def null : Canon := ⟨.null, rfl, rfl⟩

/-- a `bool` -/
def bool (b : Bool) : Canon := ⟨.bool b, rfl, rfl⟩

/-- a Go string, quoted by `encodeState.string` -/
def str (s : Bytes) : Canon :=
  ⟨.str (quoteRaw s), strOk_quoteRaw s, by rw [Value.escapeHTML, escapeHTML_quoteRaw]⟩

/-- an integer, by `strconv.AppendInt` -/
def int (i : Int) : Canon := ⟨.num (formatInt i), numOk_formatInt i, rfl⟩

/-- a finite float, by its text -/
def num (lit : Bytes) (h : numOk lit) : Canon := ⟨.num lit, h, rfl⟩

/-- an array of values the encoder wrote -/
def arr (xs : List Canon) : Canon :=
  ⟨.arr (xs.map val), wfElems_map xs, by rw [Value.escapeHTML, escapeElems_map]⟩

/-- an object of Go-string keys and values the encoder wrote, in the order given -/
def obj (ms : List (Bytes × Canon)) : Canon :=
  ⟨.obj (members ms), wfMembers_members ms, by rw [Value.escapeHTML, escapeMembers_members]⟩

/-- `compact` with HTML escaping of a `RawMessage`'s bytes; `none` is its syntax error -/
def ofRaw (b : Bytes) : Option Canon :=
  match h : parseTop b with
  | some t => some ⟨t.escapeHTML, wf_escapeHTML t (parseTop_wf h), Value.escapeHTML_idem t⟩
  | none => none

/-- what the encoder writes compacts to itself, unless it nests deeper than `maxNestingDepth` -/
theorem print_compact (c : Canon) :
    compact c.val.print = if c.val.depth ≤ maxNestingDepth then some c.val.print else none :=
  compact_print c.wf c.escaped

/-- an object nests one deeper than its deepest member -/
theorem depth_obj_le {n : Nat} {ms : List (Bytes × Canon)} :
    (obj ms).val.depth ≤ n + 1 ↔ ∀ m ∈ ms, m.2.val.depth ≤ n := by
  simp only [obj, Value.depth, Nat.add_le_add_iff_right, depthMembers_le, members, List.mem_map]
  exact ⟨fun h m hm => h _ ⟨m, hm, rfl⟩, fun h _ ⟨m, hm, e⟩ => e ▸ h m hm⟩

theorem ofRaw_print (b : Bytes) : (ofRaw b).map (·.val.print) = compact b := by
  unfold ofRaw compact
  split <;> simp_all

end Canon

/-! ## Encoders -/

/-- what `json.Marshal` writes for a Go value of type `α`, or `none` for its error -/
abbrev Encoder (α : Type) := α → Option Canon

/-- `json.Marshal`: the encoder's value, printed -/
def marshal {α : Type} (enc : Encoder α) (x : α) : Option Bytes := (enc x).map (·.val.print)

/-- `strings.Compare(s, t) < 0`: byte-wise order -/
def bytesLt : Bytes → Bytes → Bool
  | [], [] => false
  | [], _ :: _ => true
  | _ :: _, [] => false
  | a :: s, b :: t => if a = b then bytesLt s t else a < b

/-- `insertKey k v ms`: the map `ms` with `k` bound to `v`, keys kept in increasing byte order -/
def insertKey {α : Type} (k : Bytes) (v : α) : List (Bytes × α) → List (Bytes × α)
  | [] => [(k, v)]
  | (k', v') :: ms => if k = k' then (k, v) :: ms else if bytesLt k k' then (k, v) :: (k', v') :: ms
      else (k', v') :: insertKey k v ms

/-- a map's entries in the order `mapEncoder` writes them, sorted by key; a Go map has one value per key, and a
list binding a key twice stands for the map holding the later binding -/
def sortKeys {α : Type} (ms : List (Bytes × α)) : List (Bytes × α) :=
  ms.foldl (fun acc m => insertKey m.1 m.2 acc) []

/-- one field as `typeFields` lists it: its JSON name, whether it is left out (`omitempty` and an empty value), and
its value's encoding -/
structure FieldOut where
  name : Bytes
  leftOut : Bool
  val : Option Canon

/-- a field without `omitempty` -/
def FieldOut.always (name : String) (v : Option Canon) : FieldOut := ⟨ascii name, false, v⟩

/-- a field with `omitempty`, left out when `empty` -/
def FieldOut.omitEmpty (name : String) (empty : Bool) (v : Option Canon) : FieldOut := ⟨ascii name, empty, v⟩

/-- `structEncoder`: the fields not left out, in order -/
def encStruct (fs : List FieldOut) : Option Canon :=
  ((fs.filter fun f => !f.leftOut).mapM fun (f : FieldOut) => f.val.map (f.name, ·)).map Canon.obj

/-- `sliceEncoder`: a nil slice is `null` -/
def encSlice {α : Type} (enc : Encoder α) : Encoder (Option (List α))
  | none => some .null
  | some xs => (xs.mapM enc).map .arr

/-- an encoded slice has one element per element of the slice -/
theorem mapM_length {α β : Type} (f : α → Option β) :
    ∀ (xs : List α) (ys : List β), xs.mapM f = some ys → ys.length = xs.length
  | [], ys, h => by cases h; rfl
  | x :: xs, ys, h => by
    simp only [List.mapM_cons, Option.bind_eq_bind, Option.bind_eq_some, Option.pure_def, Option.some.injEq] at h
    obtain ⟨y, -, ys', hys', rfl⟩ := h
    simp [mapM_length f xs ys' hys']

/-- every element of an encoded list is the encoding of an element of the list -/
theorem mem_mapM {α β : Type} {f : α → Option β} :
    ∀ {xs : List α} {ys : List β}, xs.mapM f = some ys → ∀ y ∈ ys, ∃ x ∈ xs, f x = some y
  | [], ys, h => by cases h; exact fun _ h => absurd h (List.not_mem_nil _)
  | x :: xs, ys, h => by
    simp only [List.mapM_cons, Option.bind_eq_bind, Option.bind_eq_some, Option.pure_def, Option.some.injEq] at h
    obtain ⟨y, hy, ys', hys', rfl⟩ := h
    intro z hz
    rcases List.mem_cons.1 hz with rfl | hz
    · exact ⟨x, List.mem_cons_self _ _, hy⟩
    · obtain ⟨w, hw, e⟩ := mem_mapM hys' z hz
      exact ⟨w, List.mem_cons_of_mem _ hw, e⟩

/-- `mapEncoder` for string keys: a nil map is `null` -/
def encMap {α : Type} (enc : Encoder α) : Encoder (Option (List (Bytes × α)))
  | none => some .null
  | some ms => ((sortKeys ms).mapM fun m => (enc m.2).map (m.1, ·)).map .obj

/-- `ptrEncoder`: a nil pointer is `null` -/
def encPtr {α : Type} (enc : Encoder α) : Encoder (Option α)
  | none => some .null
  | some x => enc x

/-- a `json.RawMessage`: `MarshalJSON` gives `null` for a nil one, and the encoder compacts what it gives -/
def encRaw : Encoder (Option Bytes)
  | none => some .null
  | some b => Canon.ofRaw b

/-- `isEmptyValue` of a slice or a map: nil or of length zero -/
def emptyList {α : Type} : Option (List α) → Bool
  | none => true
  | some xs => xs.isEmpty

/-- a `float64`: `Marshal` refuses NaN and the infinities -/
def Float64.encode : Encoder Float64
  | .finite lit h => some (.num lit h)
  | _ => none

/-! ## Empty interfaces -/

/-- a Go `interface{}`: what `Unmarshal` stores in one (`nil`, a `bool`, a `float64`, a `string`, an
`[]interface{}`, a `map[string]interface{}`), and what a sender may put there besides: an integer, or a value of a
type `Marshal` refuses (a channel, a function, a complex number) -/
inductive Any where
  | null
  | bool (b : Bool)
  | int (i : Int64)
  | float (f : Float64)
  | str (s : Bytes)
  | arr (xs : List Any)
  | obj (ms : List (Bytes × Any))
  | unsupported

/-- `isEmptyValue` of an `interface{}`: nil -/
def Any.isNil : Any → Bool
  | .null => true
  | _ => false

mutual
/-- what the encoder writes for the value an `interface{}` holds -/
def Any.encode : Any → Option Canon
  | .null => some .null
  | .bool b => some (.bool b)
  | .int i => some (.int i.val)
  | .float f => f.encode
  | .str s => some (.str s)
  | .arr xs => (Any.encodeElems xs).map .arr
  | .obj ms => (Any.encodeMembers ms).map fun cs => .obj (sortKeys cs)
  | .unsupported => none

/-- `Any.encode` on each element -/
def Any.encodeElems : List Any → Option (List Canon)
  | [] => some []
  | x :: xs => x.encode.bind fun c => (Any.encodeElems xs).map (c :: ·)

/-- `Any.encode` on each value of a map -/
def Any.encodeMembers : List (Bytes × Any) → Option (List (Bytes × Canon))
  | [] => some []
  | (k, v) :: ms => v.encode.bind fun c => (Any.encodeMembers ms).map ((k, c) :: ·)
end

mutual
/-- `valueInterface`: what `Unmarshal` stores in an empty `interface{}`; a number out of the range of a `float64`
is its error -/
def Any.ofValue : Value → Option Any
  | .null => some .null
  | .bool b => some (.bool b)
  | .num lit => if h : numOk lit ∧ floatOverflows lit = false then some (.float (.finite lit h.1)) else none
  | .str raw => (unquote raw).map .str
  | .arr xs => (Any.ofElems xs).map .arr
  | .obj ms => (Any.ofMembers ms []).map .obj

/-- `arrayInterface` -/
def Any.ofElems : List Value → Option (List Any)
  | [] => some []
  | v :: vs => (Any.ofValue v).bind fun x => (Any.ofElems vs).map (x :: ·)

/-- `objectInterface`, adding each member to the map read so far -/
def Any.ofMembers : List (Bytes × Value) → List (Bytes × Any) → Option (List (Bytes × Any))
  | [], acc => some acc
  | (k, v) :: ms, acc =>
    (unquote k).bind fun key => (Any.ofValue v).bind fun x => Any.ofMembers ms (insertKey key x acc)
end

/-! ## Decoders -/

/-- how `Unmarshal` fills a variable of type `α` from a parsed value, starting from what the variable holds; `none`
is an error -/
abbrev Decoder (α : Type) := Value → α → Option α

/-- a `string`: `null` leaves it as it is -/
def decString : Decoder Bytes
  | .null, s => some s
  | .str raw, _ => unquote raw
  | _, _ => none

/-- a `bool` -/
def decBool : Decoder Bool
  | .null, b => some b
  | .bool b, _ => some b
  | _, _ => none

/-- an `int64` or an `int` -/
def decInt : Decoder Int64
  | .null, i => some i
  | .num lit, _ => Int64.ofLit lit
  | _, _ => none

/-- an `interface{}`: `null` sets it to nil, anything else replaces what it held -/
def decAny : Decoder Any := fun v _ => Any.ofValue v

/-- `d.array` into a slice: element `i` is decoded into what the slice held at `i`, or into a zero value past its
end. Go reuses the slice's array, so past its length an element can still hold a value from an earlier duplicate
key; here it starts from `zero`. -/
def decElems {α : Type} (d : Decoder α) (zero : α) : List Value → List α → Option (List α)
  | [], _ => some []
  | v :: vs, cur => (d v (cur.headD zero)).bind fun x => (decElems d zero vs cur.tail).map (x :: ·)

/-- a slice: `null` sets it to nil -/
def decSlice {α : Type} (d : Decoder α) (zero : α) : Decoder (Option (List α))
  | .null, _ => some none
  | .arr vs, cur => (decElems d zero vs (cur.getD [])).map some
  | _, _ => none

/-- a `map[string]T`: `null` sets it to nil; each member is decoded into a zero element and stored in the map the
variable held, or in a new one -/
def decMap {α : Type} (d : Decoder α) (zero : α) : Decoder (Option (List (Bytes × α)))
  | .null, _ => some none
  | .obj ms, cur => (ms.foldlM (fun m kv => (unquote kv.1).bind fun k => (d kv.2 zero).map (insertKey k · m))
      (cur.getD [])).map some
  | _, _ => none

/-- a pointer: `null` sets it to nil; otherwise the decoder allocates a zero value if it is nil and decodes into it -/
def decPtr {α : Type} (d : Decoder α) (zero : α) : Decoder (Option α)
  | .null, _ => some none
  | v, cur => (d v (cur.getD zero)).map some

/-- a `json.RawMessage`: `UnmarshalJSON` keeps the value's text. The text kept here is the value printed without
the whitespace it may have had; the program only compacts a `RawMessage` or decodes it, and neither reads spacing
(`compact_print_parse`). -/
def decRaw : Decoder (Option Bytes) := fun v _ => some (some v.print)

/-! ## Structs -/

/-- `ToUpper(ToLower(r))` for the pieces of a key, as far as it can meet a field name of ASCII text: an ASCII byte
upper-cased, and the four runes that fold into an ASCII letter (U+0130 and U+0131 into `I`, U+017F into `S`,
U+212A into `K`); every other rune, and `RuneError`, folds to no ASCII text -/
def foldPiece : Piece → Option UInt8
  | .ascii b => some (if 0x61 ≤ b ∧ b ≤ 0x7A then b - 0x20 else b)
  | .rune r _ => if r = 0x130 ∨ r = 0x131 then some 0x49 else if r = 0x17F then some 0x53
      else if r = 0x212A then some 0x4B else none
  | .bad _ => none

/-- `foldName(key) == foldName(name)` for a field name of ASCII text -/
def foldEq (key name : Bytes) : Bool :=
  (pieces key).map foldPiece == name.map fun b => some (if 0x61 ≤ b ∧ b ≤ 0x7A then b - 0x20 else b)

/-- a field of a struct as the decoder sees it: its JSON name, and how decoding into it changes the struct -/
structure FieldIn (α : Type) where
  name : Bytes
  dec : Decoder α

/-- the field of `α` read by `get`, written by `set`, decoded by `d` -/
def FieldIn.of {α β : Type} (name : String) (get : α → β) (set : α → β → α) (d : Decoder β) : FieldIn α :=
  ⟨ascii name, fun v s => (d v (get s)).map (set s)⟩

/-- the field a key names: by exact name, else by folded name -/
def findField {α : Type} (fs : List (FieldIn α)) (key : Bytes) : Option (FieldIn α) :=
  match fs.find? fun f => f.name == key with
  | some f => some f
  | none => fs.find? fun f => foldEq key f.name

/-- `d.object` into a struct: each member decoded into its field, in order; a key that names no field is skipped,
or refused when `strict` (`DisallowUnknownFields`) -/
def decStruct {α : Type} (strict : Bool) (fs : List (FieldIn α)) : Decoder α
  | .null, s => some s
  | .obj ms, s => ms.foldlM (fun s kv => (unquote kv.1).bind fun key =>
      match findField fs key with
      | some f => f.dec kv.2 s
      | none => if strict then none else some s) s
  | _, _ => none

/-- `json.Unmarshal(data, &v)` with `v` holding `zero`: `checkValid`, then the decoder -/
def unmarshal {α : Type} (d : Decoder α) (zero : α) (data : Bytes) : Option α := (parseTop data).bind fun t => d t zero

/-! ## Reading back what the encoder wrote -/

/-- printing is injective on what the encoder writes, however deep it nests -/
theorem Canon.print_inj {c d : Canon} (h : c.val.print = d.val.print) : c.val = d.val := by
  have e := parseValue_print c.wf
  rw [h, parseValue_print d.wf] at e
  exact (Prod.mk.inj (Option.some.inj e)).1.symm

theorem Canon.print_eq_iff {c d : Canon} : c.val.print = d.val.print ↔ c.val = d.val :=
  ⟨Canon.print_inj, congrArg _⟩

/-- `json.Unmarshal` of what the encoder wrote decodes the encoder's value, unless it nests deeper than
`maxNestingDepth` -/
theorem unmarshal_print {α : Type} (d : Decoder α) (zero : α) (c : Canon) :
    unmarshal d zero c.val.print = if c.val.depth ≤ maxNestingDepth then d c.val zero else none := by
  rw [unmarshal, parseTop_print c.wf]
  split_ifs <;> rfl

theorem unmarshal_print_of_depth {α : Type} (d : Decoder α) (zero : α) {c : Canon}
    (hd : c.val.depth ≤ maxNestingDepth) : unmarshal d zero c.val.print = d c.val zero := by
  rw [unmarshal_print, if_pos hd]

theorem decString_str (s cur : Bytes) : decString (Canon.str s).val cur = some (coerceUtf8 s) :=
  unquote_quoteRaw s

theorem decInt_int (i cur : Int64) : decInt (Canon.int i.val).val cur = some i := Int64.ofLit_formatInt i

theorem decStruct_obj_cons {α : Type} (strict : Bool) (fs : List (FieldIn α)) (k : Bytes) (c : Canon)
    (ms : List (Bytes × Canon)) (s : α) :
    decStruct strict fs (Canon.obj ((k, c) :: ms)).val s =
      (match findField fs (coerceUtf8 k) with
        | some f => f.dec c.val s
        | none => if strict then none else some s).bind (decStruct strict fs (Canon.obj ms).val) := by
  simp only [Canon.obj, members, List.map_cons, decStruct, List.foldlM_cons, unquote_quoteRaw, Option.some_bind]
  rfl

theorem decStruct_obj_field {α : Type} {strict : Bool} (fs : List (FieldIn α)) {k : Bytes} {f : FieldIn α}
    (hf : findField fs (coerceUtf8 k) = some f) (c : Canon) (ms : List (Bytes × Canon)) :
    decStruct strict fs (Canon.obj ((k, c) :: ms)).val =
      fun s => (f.dec c.val s).bind (decStruct strict fs (Canon.obj ms).val) := by
  funext s; rw [decStruct_obj_cons, hf]

theorem decStruct_obj_nil {α : Type} (strict : Bool) (fs : List (FieldIn α)) (s : α) :
    decStruct strict fs (Canon.obj []).val s = some s := rfl

theorem mapM_field_keys : ∀ (l : List FieldOut) (ms : List (Bytes × Canon)),
    l.mapM (fun f => f.val.map (f.name, ·)) = some ms → ms.map Prod.fst = l.map FieldOut.name
  | [], ms, h => by cases h; rfl
  | f :: l, ms, h => by
    simp only [List.mapM_cons, Option.bind_eq_bind, Option.bind_eq_some, Option.map_eq_some'] at h
    obtain ⟨m, ⟨c, -, rfl⟩, ms', hms', h⟩ := h
    cases h
    simp [mapM_field_keys l ms' hms']

/-- the keys of the object a struct encodes to: the names of the fields not left out, in order -/
theorem encStruct_keys {fs : List FieldOut} {c : Canon} (h : encStruct fs = some c) :
    ∃ ms, c = Canon.obj ms ∧ ms.map Prod.fst = (fs.filter fun f => !f.leftOut).map FieldOut.name := by
  obtain ⟨ms, hms, rfl⟩ := Option.map_eq_some'.1 h
  exact ⟨ms, rfl, mapM_field_keys _ ms hms⟩

/-- every key of the object a struct encodes to is the name of one of its fields -/
theorem encStruct_key_mem {fs : List FieldOut} {c : Canon} (h : encStruct fs = some c) :
    ∃ ms, c = Canon.obj ms ∧ ∀ m ∈ ms, m.1 ∈ fs.map FieldOut.name := by
  obtain ⟨ms, rfl, hk⟩ := encStruct_keys h
  refine ⟨ms, rfl, fun m hm => ?_⟩
  have := List.mem_map_of_mem Prod.fst hm
  rw [hk] at this
  exact ((List.filter_sublist fs).map _).subset this

/-- a struct nests one deeper than its deepest field -/
theorem encStruct_depth {fs : List FieldOut} {c : Canon} {n : Nat} (h : encStruct fs = some c)
    (hf : ∀ f ∈ fs, ∀ v ∈ f.val, v.val.depth ≤ n) : c.val.depth ≤ n + 1 := by
  obtain ⟨ms, hms, rfl⟩ := Option.map_eq_some'.1 h
  refine Canon.depth_obj_le.2 fun m hm => ?_
  obtain ⟨f, hf', e⟩ := mem_mapM hms m hm
  obtain ⟨v, hv, rfl⟩ := Option.map_eq_some'.1 e
  exact hf f (List.mem_of_mem_filter hf') v hv

theorem decStruct_obj_skip {α : Type} {fs : List (FieldIn α)} {k : Bytes} (hf : findField fs (coerceUtf8 k) = none)
    (c : Canon) (ms : List (Bytes × Canon)) :
    decStruct false fs (Canon.obj ((k, c) :: ms)).val = decStruct false fs (Canon.obj ms).val := by
  funext s; rw [decStruct_obj_cons, hf]; rfl

/-- decoding an object none of whose keys names a field leaves the struct as it was -/
theorem decStruct_unknown {α : Type} {fs : List (FieldIn α)} (s : α) :
    ∀ ms : List (Bytes × Canon), (∀ m ∈ ms, findField fs (coerceUtf8 m.1) = none) →
      decStruct false fs (Canon.obj ms).val s = some s
  | [], _ => rfl
  | (k, c) :: ms, h => by
    rw [decStruct_obj_cons, h (k, c) (List.mem_cons_self _ _)]
    exact decStruct_unknown s ms fun m hm => h m (List.mem_cons_of_mem _ hm)

/-- what every field an object's keys name keeps, decoding the object keeps -/
theorem decStruct_preserves {α : Type} {fs : List (FieldIn α)} (P : α → Prop) :
    ∀ (ms : List (Bytes × Canon)) (s s' : α),
      (∀ m ∈ ms, ∀ f, findField fs (coerceUtf8 m.1) = some f → ∀ t t', f.dec m.2.val t = some t' → P t → P t') →
      decStruct false fs (Canon.obj ms).val s = some s' → P s → P s'
  | [], s, s', _, h, hs => by cases h; exact hs
  | (k, c) :: ms, s, s', hf, h, hs => by
    rw [decStruct_obj_cons, Option.bind_eq_some] at h
    obtain ⟨t, ht, h⟩ := h
    refine decStruct_preserves P ms t s' (fun m hm => hf m (List.mem_cons_of_mem _ hm)) h ?_
    split at ht
    · rename_i f hff
      exact hf (k, c) (List.mem_cons_self _ _) f hff s t ht hs
    · cases ht; exact hs

end FepFem.Json
