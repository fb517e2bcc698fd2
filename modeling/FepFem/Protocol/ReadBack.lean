import FepFem.Protocol.Envelopes
import FepFem.Json.RoundTrip

/-
The protocol's bodies through `json.Marshal` and back through `json.Unmarshal`.

A body reads back as its normal form: strings coerced to UTF-8, each `map[string]interface{}` as `Unmarshal` gives it
back (`rereadMap`), and an `omitempty` field that was left out as the zero value the decoder started from. An empty
string or a nil pointer left out reads back as itself; an empty map left out reads back as nil, whether it was nil or
empty (`rereadOmitted`). A body whose `interface{}` values are all portable is always written.

Results:
- `MCPTool.decode_encode`, `BodyDefinition.decode_encode`: a tool and a body definition read back;
- `RegisterAgentBody.decode_encode`: a registration body reads back as its normal form;
- `EmbodimentUpdateBody.decode_encode`: an embodiment update reads back as its normal form;
- `ToolQuery.decode_encode`, `DiscoverToolsBody.decode_encode`: a discovery body reads back as itself, strings
  coerced, whichever of the query's `omitempty` fields were left out.
-/

namespace FepFem.Protocol

open FepFem.Json

/-! ## Strings -/

/-- what the encoder writes for a `[]string`: `null` for a nil slice -/
def strsCanon : Option (List Bytes) → Canon
  | none => .null
  | some xs => .arr (xs.map .str)

theorem mapM_some {α β : Type} (f : α → β) : ∀ xs : List α, xs.mapM (fun x => some (f x)) = some (xs.map f)
  | [] => rfl
  | x :: xs => by simp only [List.mapM_cons, mapM_some f xs]; rfl

theorem encStrings_eq (xs : Option (List Bytes)) : encStrings xs = some (strsCanon xs) := by
  cases xs with
  | none => rfl
  | some xs => exact congrArg (Option.map Canon.arr) (mapM_some Canon.str xs)

theorem decElems_str (cur : List Bytes) : ∀ xs : List Bytes,
    decElems decString [] (xs.map fun s => (Canon.str s).val) cur = some (xs.map coerceUtf8)
  | [] => rfl
  | x :: xs => by
    simp only [List.map_cons, decElems, decString_str, Option.some_bind, decElems_str, Option.map_some']

/-- a `[]string` reads back with each string coerced to UTF-8, a nil slice as nil -/
theorem decStrings_strsCanon (xs cur : Option (List Bytes)) :
    decStrings (strsCanon xs).val cur = some (xs.map (·.map coerceUtf8)) := by
  cases xs with
  | none => rfl
  | some xs =>
    simp only [strsCanon, Canon.arr, decStrings, decSlice, List.map_map]
    rw [show (Canon.val ∘ Canon.str) = fun s => (Canon.str s).val from rfl, decElems_str]
    rfl

theorem Int64.zero_eq_iff {i : Int64} : Int64.zero = i ↔ i.val = 0 :=
  ⟨fun h => h ▸ rfl, fun h => by cases i; subst h; rfl⟩

/-! ## Maps of `interface{}` values -/

/-- a `map[string]interface{}` read back into a nil map -/
def rereadAnyMap (m : AnyMap) : AnyMap := m.map rereadMap

/-- an `omitempty` map read back: an empty one was left out and keeps the zero value, nil -/
def rereadOmitted (m : AnyMap) : AnyMap := if emptyList m then none else rereadAnyMap m

/-- whether every value of the map is portable -/
def anyMapPortable (m : AnyMap) : Bool := (m.map Any.portableMembers).getD true

theorem decAnyMap_encAnyMap {m : AnyMap} (hr : anyMapPortable m = true) :
    ∃ c, encAnyMap m = some c ∧ decAnyMap c.val none = some (rereadAnyMap m) := by
  cases m with
  | none => exact ⟨.null, rfl, rfl⟩
  | some ms => exact decMap_encMap ms hr

/-! ## Tools -/

/-- an `MCPTool` read back -/
def MCPTool.reread (t : MCPTool) : MCPTool :=
  ⟨coerceUtf8 t.name, coerceUtf8 t.description, rereadAnyMap t.inputSchema⟩

def MCPTool.portable (t : MCPTool) : Bool := anyMapPortable t.inputSchema

theorem MCPTool.decode_encode (t : MCPTool) (hr : t.portable = true) :
    ∃ c, t.encode = some c ∧ MCPTool.decode c.val .zero = some t.reread := by
  obtain ⟨cs, hcs, hds⟩ := decAnyMap_encAnyMap hr
  obtain ⟨c, hc⟩ : ∃ c, t.encode = some c := encStruct_eq_some (by simp [FieldOut.always, encString, hcs])
  refine ⟨c, hc, ?_⟩
  rw [MCPTool.decode, decStruct_encStruct hc]
  simp only [FieldOut.always, encString, hcs]
  repeat
    rw [decFields_written ?hf]
    case hf => rfl
    simp only [FieldIn.dec_of, decString_str, MCPTool.zero, hds, Option.map_some', Option.some_bind]
  rfl

/-! ## Body definitions -/

/-- a `BodyDefinition` read back -/
def BodyDefinition.reread (d : BodyDefinition) : BodyDefinition :=
  ⟨coerceUtf8 d.name, coerceUtf8 d.environment, d.capabilities.map (·.map coerceUtf8),
    d.mcpTools.map (·.map MCPTool.reread), rereadOmitted d.constraints, rereadOmitted d.metadata⟩

def BodyDefinition.portable (d : BodyDefinition) : Bool :=
  (d.mcpTools.getD []).all MCPTool.portable && anyMapPortable d.constraints && anyMapPortable d.metadata

theorem BodyDefinition.decode_encode (d : BodyDefinition) (hr : d.portable = true) :
    ∃ c, d.encode = some c ∧ BodyDefinition.decode c.val .zero = some d.reread := by
  simp only [BodyDefinition.portable, Bool.and_eq_true, List.all_eq_true] at hr
  obtain ⟨⟨ht, hcr⟩, hmr⟩ := hr
  obtain ⟨ct, hct, hdt⟩ := decSlice_encSlice MCPTool.decode_encode d.mcpTools ht
  obtain ⟨cc, hcc, hdc⟩ := decAnyMap_encAnyMap hcr
  obtain ⟨cm, hcm, hdm⟩ := decAnyMap_encAnyMap hmr
  obtain ⟨c, hc⟩ : ∃ c, d.encode = some c :=
    encStruct_eq_some (by simp [FieldOut.always, FieldOut.omitEmpty, encString, encStrings_eq, hct, hcc, hcm])
  refine ⟨c, hc, ?_⟩
  rw [BodyDefinition.decode, decStruct_encStruct hc]
  simp only [FieldOut.always, FieldOut.omitEmpty, encString, encStrings_eq, hct, hcc, hcm]
  cases hce : emptyList d.constraints <;> cases hme : emptyList d.metadata <;>
  repeat
    first
    | rw [decFields_leftOut]
    | rw [decFields_written ?hf]
      case hf => rfl
      simp only [FieldIn.dec_of, decString_str, decStrings_strsCanon, BodyDefinition.zero, hdt, hdc, hdm,
        Option.map_some', Option.some_bind]
  all_goals simp only [decFields_nil, BodyDefinition.reread, rereadOmitted, hce, hme, if_true, if_false,
    Bool.false_eq_true]

theorem decPtr_obj {α : Type} {d : Decoder α} {zero : α} (ms : List (Bytes × Canon)) (cur : Option α) :
    decPtr d zero (Canon.obj ms).val cur = (d (Canon.obj ms).val (cur.getD zero)).map some := rfl

/-- a body definition behind a pointer reads back, a nil one as nil -/
theorem decPtr_encPtr {d : Option BodyDefinition} (hr : (d.map BodyDefinition.portable).getD true = true) :
    ∃ c, encPtr BodyDefinition.encode d = some c ∧
      decPtr BodyDefinition.decode .zero c.val none = some (d.map BodyDefinition.reread) := by
  cases d with
  | none => exact ⟨.null, rfl, rfl⟩
  | some d =>
    obtain ⟨c, hc, hd⟩ := d.decode_encode hr
    obtain ⟨ms, -, rfl⟩ := Option.map_eq_some'.1 hc
    exact ⟨_, hc, by rw [decPtr_obj, Option.getD_none, hd, Option.map_some', Option.map_some']⟩

/-! ## Registrations -/

/-- a `RegisterAgentBody` read back -/
def RegisterAgentBody.reread (b : RegisterAgentBody) : RegisterAgentBody :=
  ⟨coerceUtf8 b.pubKey, b.capabilities.map (·.map coerceUtf8), rereadOmitted b.metadata, coerceUtf8 b.mcpEndpoint,
    b.bodyDefinition.map BodyDefinition.reread, coerceUtf8 b.environmentType⟩

def RegisterAgentBody.portable (b : RegisterAgentBody) : Bool :=
  anyMapPortable b.metadata && (b.bodyDefinition.map BodyDefinition.portable).getD true

theorem RegisterAgentBody.decode_encode (b : RegisterAgentBody) (hr : b.portable = true) :
    ∃ c, b.encode = some c ∧ RegisterAgentBody.decode c.val .zero = some b.reread := by
  obtain ⟨pk, caps, meta, ep, bd, et⟩ := b
  simp only [RegisterAgentBody.portable, Bool.and_eq_true] at hr
  obtain ⟨cm, hcm, hdm⟩ := decAnyMap_encAnyMap hr.1
  obtain ⟨cb, hcb, hdb⟩ := decPtr_encPtr hr.2
  obtain ⟨c, hc⟩ : ∃ c, RegisterAgentBody.encode ⟨pk, caps, meta, ep, bd, et⟩ = some c :=
    encStruct_eq_some (by simp [FieldOut.always, FieldOut.omitEmpty, encString, encStrings_eq, hcm, hcb])
  refine ⟨c, hc, ?_⟩
  rw [RegisterAgentBody.decode, decStruct_encStruct hc]
  simp only [FieldOut.always, FieldOut.omitEmpty, encString, encStrings_eq, hcm, hcb]
  cases hme : emptyList meta <;>
  repeat
    first
    | rw [decFields_leftOut]
    | rw [decFields_written ?hf]
      case hf => rfl
      simp only [FieldIn.dec_of, decString_str, decStrings_strsCanon, RegisterAgentBody.zero, hdm, hdb,
        Option.map_some', Option.some_bind]
    | rw [decFields_omitEmpty ?hf ?he]
      case hf => rfl
      case he =>
        intro h
        simp only [List.isEmpty_iff, Option.isNone_iff_eq_none] at h
        subst h
        simp only [FieldIn.dec_of, decString_str, hdb, RegisterAgentBody.zero, Option.map_some']
        rfl
  all_goals simp only [decFields_nil, RegisterAgentBody.reread, rereadOmitted, hme, if_true, if_false,
    Bool.false_eq_true]

/-! ## Embodiment updates -/

/-- an `EmbodimentUpdateBody` read back -/
def EmbodimentUpdateBody.reread (b : EmbodimentUpdateBody) : EmbodimentUpdateBody :=
  ⟨coerceUtf8 b.environmentType, b.bodyDefinition.reread, coerceUtf8 b.mcpEndpoint,
    b.updatedTools.map (·.map coerceUtf8)⟩

def EmbodimentUpdateBody.portable (b : EmbodimentUpdateBody) : Bool := b.bodyDefinition.portable

theorem EmbodimentUpdateBody.decode_encode (b : EmbodimentUpdateBody) (hr : b.portable = true) :
    ∃ c, b.encode = some c ∧ EmbodimentUpdateBody.decode c.val .zero = some b.reread := by
  obtain ⟨cb, hcb, hdb⟩ := b.bodyDefinition.decode_encode hr
  obtain ⟨c, hc⟩ : ∃ c, b.encode = some c :=
    encStruct_eq_some (by simp [FieldOut.always, encString, encStrings_eq, hcb])
  refine ⟨c, hc, ?_⟩
  rw [EmbodimentUpdateBody.decode, decStruct_encStruct hc]
  simp only [FieldOut.always, encString, encStrings_eq, hcb]
  repeat
    rw [decFields_written ?hf]
    case hf => rfl
    simp only [FieldIn.dec_of, decString_str, decStrings_strsCanon, EmbodimentUpdateBody.zero, hdb, Option.map_some',
      Option.some_bind]
  rfl

/-! ## Discovery -/

/-- a query with its strings coerced to UTF-8, as the decoder leaves them -/
def ToolQuery.coerced (q : ToolQuery) : ToolQuery :=
  { q with capabilities := q.capabilities.map (·.map coerceUtf8), environmentType := coerceUtf8 q.environmentType }

/-- a discovery body with its strings coerced to UTF-8 -/
def DiscoverToolsBody.coerced (b : DiscoverToolsBody) : DiscoverToolsBody :=
  ⟨b.query.coerced, coerceUtf8 b.requestID⟩

/-- a query reads back as itself: a field left out because it is empty keeps the zero value, which is that empty
value -/
theorem ToolQuery.decode_encode (q : ToolQuery) :
    ∃ c, ToolQuery.encode q = some c ∧ ToolQuery.decode c.val .zero = some q.coerced := by
  obtain ⟨caps, env, mr, incl⟩ := q
  simp only [exists_eq_left', ← Option.bind_eq_some, Option.bind_eq_bind]
  cases he : env.isEmpty <;> cases hm : (mr.val == 0) <;> cases incl <;>
  simp only [ToolQuery.encode, encStruct, FieldOut.always, FieldOut.omitEmpty, he, hm, encStrings_eq, encString,
    List.filter, Bool.not_true, Bool.not_false, List.mapM_cons, List.mapM_nil, Option.map_some', Option.bind_eq_bind,
    Option.some_bind, Option.pure_def, Bool.false_eq_true, if_false, if_true] <;>
  unfold ToolQuery.decode <;>
  repeat (rw [decStruct_obj_field _ ?h]; case h => rfl)
  all_goals simp only [FieldIn.of, decStrings_strsCanon, decString_str, decInt_int, decBool, Canon.bool,
    decStruct_obj_nil, Option.map_some', Option.some_bind, ToolQuery.coerced, ToolQuery.zero]
  all_goals simp_all [List.isEmpty_iff, Int64.zero_eq_iff, coerceUtf8]

theorem strsCanon_depth (xs : Option (List Bytes)) : (strsCanon xs).val.depth ≤ 1 := by
  cases xs with
  | none => exact Nat.zero_le _
  | some xs =>
    refine Nat.succ_le_succ (depthElems_le.2 fun x hx => ?_)
    simp only [List.map_map, List.mem_map] at hx
    obtain ⟨s, -, rfl⟩ := hx
    exact Nat.le_refl 0

/-- a query nests two deep: the query and its capabilities -/
theorem ToolQuery.depth_encode {q : ToolQuery} {c : Canon} (h : ToolQuery.encode q = some c) : c.val.depth ≤ 2 := by
  refine encStruct_depth h fun f hf v hv => ?_
  simp only [List.mem_cons, List.not_mem_nil, or_false] at hf
  rcases hf with rfl | rfl | rfl | rfl <;>
    simp only [FieldOut.always, FieldOut.omitEmpty, encString, encStrings_eq, Option.mem_def,
      Option.some.injEq] at hv <;> subst hv
  · exact strsCanon_depth _
  all_goals exact Nat.zero_le _

/-- a discovery body nests three deep: the body, its query, and the query's capabilities -/
theorem DiscoverToolsBody.depth_encode {b : DiscoverToolsBody} {c : Canon} (h : DiscoverToolsBody.encode b = some c) :
    c.val.depth ≤ 3 := by
  refine encStruct_depth h fun f hf v hv => ?_
  simp only [List.mem_cons, List.not_mem_nil, or_false] at hf
  rcases hf with rfl | rfl
  · exact ToolQuery.depth_encode hv
  · simp only [FieldOut.always, encString, Option.mem_def, Option.some.injEq] at hv
    subst hv
    exact Nat.zero_le _

theorem DiscoverToolsBody.decode_encode (b : DiscoverToolsBody) :
    ∃ c, DiscoverToolsBody.encode b = some c ∧ DiscoverToolsBody.decode c.val .zero = some b.coerced := by
  obtain ⟨cq, hq, hd⟩ := b.query.decode_encode
  refine ⟨_, by simp only [DiscoverToolsBody.encode, encStruct, FieldOut.always, hq, encString, List.filter,
    Bool.not_false, List.mapM_cons, List.mapM_nil, Option.map_some', Option.bind_eq_bind, Option.some_bind,
    Option.pure_def]; rfl, ?_⟩
  unfold DiscoverToolsBody.decode
  rw [decStruct_obj_field _ ?h1, decStruct_obj_field _ ?h2]
  case h1 => rfl
  case h2 => rfl
  simp only [FieldIn.of, DiscoverToolsBody.zero, hd, decString_str, decStruct_obj_nil, Option.map_some',
    Option.some_bind]
  rfl

end FepFem.Protocol
