import FepFem.Server.Broker

/-
The bodies the protocol's types encode, read by the structs the broker's handlers declare.

`handleEmitEvent`, `handleRenderInstruction` and `handleToolResult` each declare an anonymous struct whose JSON names
differ from the protocol's body types: `eventType` and `data` where `EmitEventBody` writes `event` and `payload`,
`context` where `RenderInstructionBody` writes `parameters`, and a `tool` that `ToolResultBody` does not have. The
decoder skips a key that names no field, so those fields keep their zero value on every body a sender encodes;
`handleToolCall` and `handleRevoke` read what `ToolCallBody` and `RevokeBody` write. A body whose payload nests
deeper than `maxNestingDepth` is marshalled but not decoded (`reread_eq`): the handler rejects it.

Results:
- `emitEvent_decode`, `renderInstruction_decode`: what the handler's struct holds after decoding each body;
- `toolResult_decode_tool`: `handleToolResult`'s `tool` is empty whenever the body decodes;
- `revoke_decode`: `handleRevoke`'s struct reads back `RevokeBody`'s target and reason.
-/

namespace FepFem.Server

open FepFem.Json FepFem.Protocol Utf8

/-- the protocol body `b` marshalled, then decoded by the handler's struct -/
def reread {β γ : Type} (enc : Encoder β) (dec : Decoder γ) (zero : γ) (b : β) : Option γ :=
  (marshal enc b).bind (Json.unmarshal dec zero)

theorem reread_eq {β γ : Type} (enc : Encoder β) (dec : Decoder γ) (zero : γ) (b : β) :
    reread enc dec zero b = (enc b).bind fun c => if c.val.depth ≤ maxNestingDepth then dec c.val zero else none := by
  unfold reread marshal
  cases enc b <;> simp [unmarshal_print]

theorem emitEvent_decode (b : EmitEventBody) :
    reread EmitEventBody.encode EmitEventIn.decode .zero b =
      (EmitEventBody.encode b).bind fun c => if c.val.depth ≤ maxNestingDepth then some .zero else none := by
  rw [reread_eq]
  cases hc : EmitEventBody.encode b with
  | none => rfl
  | some c =>
    obtain ⟨ms, rfl, hk⟩ := encStruct_key_mem hc
    simp only [Option.some_bind]
    split_ifs
    · refine decStruct_unknown _ ms fun m hm => ?_
      have hm := hk m hm
      simp only [FieldOut.always, List.map_cons, List.map_nil, List.mem_cons, List.not_mem_nil, or_false] at hm
      rcases hm with h | h <;> rw [h] <;> rfl
    · rfl

/-- what `RenderInstructionBody` encodes to: `parameters` is `omitempty` -/
theorem renderInstruction_encode (b : RenderInstructionBody) :
    RenderInstructionBody.encode b =
      if emptyList b.parameters then some (Canon.obj [(ascii "instruction", .str b.instruction)])
      else (encAnyMap b.parameters).map fun p => Canon.obj [(ascii "instruction", .str b.instruction),
        (ascii "parameters", p)] := by
  cases he : emptyList b.parameters <;> cases hp : encAnyMap b.parameters <;>
    simp only [RenderInstructionBody.encode, FieldOut.omitEmpty, he, hp, if_true, Bool.false_eq_true, if_false,
      Option.map_some', Option.map_none'] <;> rfl

theorem renderInstruction_decode (b : RenderInstructionBody) :
    reread RenderInstructionBody.encode RenderInstructionIn.decode .zero b =
      (RenderInstructionBody.encode b).bind fun c =>
        if c.val.depth ≤ maxNestingDepth then some ⟨coerceUtf8 b.instruction, none⟩ else none := by
  have hi : findField RenderInstructionIn.fields (coerceUtf8 (ascii "instruction")) =
      RenderInstructionIn.fields.head? := rfl
  have hp : findField RenderInstructionIn.fields (coerceUtf8 (ascii "parameters")) = none := rfl
  rw [reread_eq, renderInstruction_encode]
  split_ifs
  · simp only [Option.some_bind]
    split_ifs
    · simp only [RenderInstructionIn.decode, decStruct_obj_field _ hi, FieldIn.of, decString_str]
      rfl
    · rfl
  · cases encAnyMap b.parameters with
    | none => rfl
    | some p =>
      simp only [Option.map_some', Option.some_bind]
      split_ifs
      · simp only [RenderInstructionIn.decode, decStruct_obj_field _ hi, decStruct_obj_skip hp, FieldIn.of,
          decString_str]
        rfl
      · rfl

/-- decoding the keys `ToolResultBody` writes never sets `tool` -/
theorem toolResult_fields_tool {k : Bytes}
    (hk : k ∈ [ascii "requestId", ascii "success", ascii "result", ascii "error"]) {f : FieldIn ToolResultIn}
    (hf : findField ToolResultIn.fields (coerceUtf8 k) = some f) (v : Value) (t t' : ToolResultIn)
    (h : f.dec v t = some t') : t'.tool = t.tool := by
  simp only [List.mem_cons, List.not_mem_nil, or_false] at hk
  rcases hk with rfl | rfl | rfl | rfl
  all_goals first
    | (obtain rfl := Option.some.inj hf.symm
       simp only [FieldIn.of, Option.map_eq_some'] at h
       obtain ⟨x, -, rfl⟩ := h
       rfl)
    | cases hf

theorem toolResult_decode_tool (b : ToolResultBody) :
    (reread ToolResultBody.encode ToolResultIn.decode .zero b).all (·.tool.isEmpty) := by
  rw [reread_eq]
  cases hc : ToolResultBody.encode b with
  | none => rfl
  | some c =>
    obtain ⟨ms, rfl, hk⟩ := encStruct_key_mem hc
    rw [Option.some_bind]
    split_ifs
    · cases hd : ToolResultIn.decode (Canon.obj ms).val .zero with
      | none => rfl
      | some t =>
        have ht : t.tool = [] := decStruct_preserves (fun t : ToolResultIn => t.tool = []) ms _ t
          (fun m hm f hf u u' hu h => (toolResult_fields_tool (hk m hm) hf _ u u' hu).trans h) hd rfl
        simp [ht]
    · rfl

/-- the handlers for `emitEvent`, `renderInstruction` and `toolResult` read fields the protocol's bodies never
carry: event name and payload, the instruction's parameters, and the tool of a result are empty on every body -/
theorem handler_structs_miss_fields :
    (∀ b : EmitEventBody, reread EmitEventBody.encode EmitEventIn.decode .zero b =
        (EmitEventBody.encode b).bind fun c => if c.val.depth ≤ maxNestingDepth then some .zero else none) ∧
      (∀ b : RenderInstructionBody, reread RenderInstructionBody.encode RenderInstructionIn.decode .zero b =
        (RenderInstructionBody.encode b).bind fun c =>
          if c.val.depth ≤ maxNestingDepth then some ⟨coerceUtf8 b.instruction, none⟩ else none) ∧
      (∀ b : ToolResultBody, (reread ToolResultBody.encode ToolResultIn.decode .zero b).all (·.tool.isEmpty)) :=
  ⟨emitEvent_decode, renderInstruction_decode, toolResult_decode_tool⟩

/-- what `RevokeBody` encodes to: `reason` is `omitempty` -/
theorem revoke_encode (b : RevokeBody) :
    RevokeBody.encode b = some (Canon.obj ([(ascii "target", .str b.target)] ++
      if b.reason.isEmpty then [] else [(ascii "reason", .str b.reason)])) := by
  cases he : b.reason.isEmpty <;>
    simp only [RevokeBody.encode, FieldOut.omitEmpty, he, if_true, Bool.false_eq_true, if_false] <;> rfl

theorem revoke_decode (b : RevokeBody) :
    reread RevokeBody.encode RevokeIn.decode .zero b = some ⟨coerceUtf8 b.target, coerceUtf8 b.reason⟩ := by
  have ht : findField RevokeIn.fields (coerceUtf8 (ascii "target")) = RevokeIn.fields.head? := rfl
  have hr : findField RevokeIn.fields (coerceUtf8 (ascii "reason")) = RevokeIn.fields.tail.head? := rfl
  rw [reread_eq, revoke_encode, Option.some_bind]
  cases he : b.reason.isEmpty
  · simp only [if_false, Bool.false_eq_true, List.singleton_append]
    rw [if_pos]
    · simp only [RevokeIn.decode, decStruct_obj_field _ ht, decStruct_obj_field _ hr, FieldIn.of, decString_str,
        Option.map_some', Option.some_bind]
      rfl
    · exact Nat.le_of_ble_eq_true rfl
  · rw [List.isEmpty_iff.1 he]
    simp only [if_true, List.append_nil]
    rw [if_pos]
    · simp only [RevokeIn.decode, decStruct_obj_field _ ht, FieldIn.of, decString_str, Option.map_some',
        Option.some_bind]
      rfl
    · exact Nat.le_of_ble_eq_true rfl

end FepFem.Server
