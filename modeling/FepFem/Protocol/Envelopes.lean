import FepFem.Json.GoValue

/-
The envelope types of `protocol/go/envelopes.go` and how `encoding/json` writes and reads them.

Each Go struct is a Lean structure with the same fields in the same order; its encoder lists the fields as the
struct tags have them (`omitempty` where the tag says so) and its decoder, where the program decodes one, finds
them by the same names. The embedded `BaseEnvelope` and `CommonHeaders` are flattened as `typeFields` flattens
them: `type`, `agent`, `ts`, `nonce`, `sig`, then the body. `Envelope` has the layout of every typed envelope with
a `json.RawMessage` body, so `Enveloped β` covers `Envelope` (`β = RawMessage`) and the seven typed envelopes
with a `Sign` method at once. `GenericEnvelope`, `ParseEnvelope` and `GetBodyAs`, which the broker uses but the
repository does not contain, are modelled from the spec in `FepFem.Server.Collaborators`.

Results:
- `Enveloped.encode_eq`: the encoding of an envelope, field by field;
- `Envelope.decode_encode`: decoding what the encoder wrote for an envelope gives each field back, its strings
  coerced to UTF-8 and its body as the encoder's text;
- `generateNonce_eq_iff`: the nonces `NewEnvelope` draws are equal exactly when the clock's two readings are.

How the bodies read back is in `FepFem.Protocol.ReadBack`.
-/

namespace FepFem.Protocol

open FepFem.Json

/-- `EnvelopeType`, a Go `string` type -/
abbrev EnvelopeType := Bytes

/-- the `EnvelopeType` constants, in the order of the source -/
def envelopeRegisterAgent : EnvelopeType := ascii "registerAgent"
def envelopeRegisterBroker : EnvelopeType := ascii "registerBroker"
def envelopeEmitEvent : EnvelopeType := ascii "emitEvent"
def envelopeRenderInstruction : EnvelopeType := ascii "renderInstruction"
def envelopeToolCall : EnvelopeType := ascii "toolCall"
def envelopeToolResult : EnvelopeType := ascii "toolResult"
def envelopeRevoke : EnvelopeType := ascii "revoke"
def envelopeDiscoverTools : EnvelopeType := ascii "discoverTools"
def envelopeToolsDiscovered : EnvelopeType := ascii "toolsDiscovered"
def envelopeEmbodimentUpdate : EnvelopeType := ascii "embodimentUpdate"

/-- a `map[string]interface{}`; `none` is the nil map -/
abbrev AnyMap := Option (List (Bytes × Any))

/-- a `json.RawMessage`; `none` is the nil slice -/
abbrev RawMessage := Option Bytes

/-- a Go `int64` or `int` holding zero -/
def Int64.zero : Int64 := ⟨0, by decide, by decide⟩

/-! ## Headers -/

/-- `CommonHeaders` -/
structure CommonHeaders where
  agent : Bytes
  ts : Int64
  nonce : Bytes
  sig : Bytes

/-- `BaseEnvelope`: the type, then the embedded headers -/
structure BaseEnvelope extends CommonHeaders where
  type : EnvelopeType

/-- a typed envelope: `BaseEnvelope` and a body of type `β`; `Envelope` is `Enveloped RawMessage` -/
structure Enveloped (β : Type) extends BaseEnvelope where
  body : β

/-- `Envelope` -/
abbrev Envelope := Enveloped RawMessage

/-- the header fields as the encoder lists them; `sig` is `omitempty` -/
def BaseEnvelope.fields (e : BaseEnvelope) : List FieldOut :=
  [.always "type" (some (.str e.type)), .always "agent" (some (.str e.agent)), .always "ts" (some (.int e.ts.val)),
    .always "nonce" (some (.str e.nonce)), ⟨ascii "sig", e.sig.isEmpty, some (.str e.sig)⟩]

/-- the encoder of an envelope whose body is encoded by `encBody` -/
def Enveloped.encode {β : Type} (encBody : Encoder β) : Encoder (Enveloped β) := fun e =>
  encStruct (e.toBaseEnvelope.fields ++ [.always "body" (encBody e.body)])

/-- `Envelope`'s fields as the decoder finds them -/
def Envelope.fields : List (FieldIn Envelope) :=
  [.of "type" (·.type) (fun e x => { e with type := x }) decString,
    .of "agent" (·.agent) (fun e x => { e with agent := x }) decString,
    .of "ts" (·.ts) (fun e x => { e with ts := x }) decInt,
    .of "nonce" (·.nonce) (fun e x => { e with nonce := x }) decString,
    .of "sig" (·.sig) (fun e x => { e with sig := x }) decString,
    .of "body" (·.body) (fun e x => { e with body := x }) decRaw]

/-- a fresh `Envelope` -/
def Envelope.zero : Envelope := ⟨⟨⟨[], Int64.zero, [], []⟩, []⟩, none⟩

/-- `json.Unmarshal` into a fresh `Envelope` -/
def Envelope.unmarshal (data : Bytes) : Option Envelope := Json.unmarshal (decStruct false Envelope.fields) .zero data

/-- the header members the encoder writes: `sig` only when it is not empty -/
def BaseEnvelope.members (e : BaseEnvelope) : List (Bytes × Canon) :=
  [(ascii "type", .str e.type), (ascii "agent", .str e.agent), (ascii "ts", .int e.ts.val),
    (ascii "nonce", .str e.nonce)] ++ if e.sig.isEmpty then [] else [(ascii "sig", .str e.sig)]

theorem Enveloped.encode_eq {β : Type} (encBody : Encoder β) (e : Enveloped β) :
    Enveloped.encode encBody e = (encBody e.body).map fun c => .obj (e.members ++ [(ascii "body", c)]) := by
  cases h : e.sig.isEmpty <;>
    simp [Enveloped.encode, encStruct, BaseEnvelope.fields, BaseEnvelope.members, FieldOut.always, h] <;>
    cases encBody e.body <;> rfl

/-- decoding what the encoder wrote for an envelope gives its fields back, strings coerced to UTF-8, and the
body's text; every key names a field, so strict decoding gives the same -/
theorem Envelope.decode_encode {strict : Bool} (b : BaseEnvelope) (c : Canon) :
    decStruct strict Envelope.fields (Canon.obj (b.members ++ [(ascii "body", c)])).val .zero =
      some ⟨⟨⟨coerceUtf8 b.agent, b.ts, coerceUtf8 b.nonce, coerceUtf8 b.sig⟩, coerceUtf8 b.type⟩,
        some c.val.print⟩ := by
  cases h : b.sig.isEmpty
  · simp only [BaseEnvelope.members, h, Bool.false_eq_true, if_false, List.cons_append, List.nil_append]
    rw [decStruct_obj_field Envelope.fields (k := ascii "type") rfl,
      decStruct_obj_field Envelope.fields (k := ascii "agent") rfl,
      decStruct_obj_field Envelope.fields (k := ascii "ts") rfl,
      decStruct_obj_field Envelope.fields (k := ascii "nonce") rfl,
      decStruct_obj_field Envelope.fields (k := ascii "sig") rfl,
      decStruct_obj_field Envelope.fields (k := ascii "body") rfl]
    simp only [FieldIn.of, decString_str, decInt_int, decRaw, Option.map_some', Option.some_bind]
    rfl
  · rw [List.isEmpty_iff] at h
    simp only [BaseEnvelope.members, h, List.isEmpty_nil, if_true, List.append_nil, List.cons_append,
      List.nil_append]
    rw [decStruct_obj_field Envelope.fields (k := ascii "type") rfl,
      decStruct_obj_field Envelope.fields (k := ascii "agent") rfl,
      decStruct_obj_field Envelope.fields (k := ascii "ts") rfl,
      decStruct_obj_field Envelope.fields (k := ascii "nonce") rfl,
      decStruct_obj_field Envelope.fields (k := ascii "body") rfl]
    simp only [FieldIn.of, decString_str, decInt_int, decRaw, Option.map_some', Option.some_bind]
    rfl

/-- an envelope nests one deeper than its body: the header members are strings and an integer -/
theorem Envelope.depth_encode (b : BaseEnvelope) (c : Canon) :
    (Canon.obj (b.members ++ [(ascii "body", c)])).val.depth = c.val.depth + 1 := by
  by_cases h : b.sig = [] <;>
    simp [BaseEnvelope.members, h, Canon.obj, members, Value.depth, depthMembers, Canon.str, Canon.int]

/-! ## Bodies -/

/-- `MCPTool` -/
structure MCPTool where
  name : Bytes
  description : Bytes
  inputSchema : AnyMap

/-- `BodyDefinition` -/
structure BodyDefinition where
  name : Bytes
  environment : Bytes
  capabilities : Option (List Bytes)
  mcpTools : Option (List MCPTool)
  constraints : AnyMap
  metadata : AnyMap

/-- `RegisterAgentBody` -/
structure RegisterAgentBody where
  pubKey : Bytes
  capabilities : Option (List Bytes)
  metadata : AnyMap
  mcpEndpoint : Bytes
  bodyDefinition : Option BodyDefinition
  environmentType : Bytes

/-- `RegisterBrokerBody` -/
structure RegisterBrokerBody where
  brokerID : Bytes
  endpoint : Bytes
  pubKey : Bytes
  capabilities : Option (List Bytes)

/-- `EmitEventBody` -/
structure EmitEventBody where
  event : Bytes
  payload : AnyMap

/-- `RenderInstructionBody` -/
structure RenderInstructionBody where
  instruction : Bytes
  parameters : AnyMap

/-- `ToolCallBody` -/
structure ToolCallBody where
  tool : Bytes
  parameters : AnyMap
  requestID : Bytes

/-- `ToolResultBody` -/
structure ToolResultBody where
  requestID : Bytes
  success : Bool
  result : Any
  error : Bytes

/-- `RevokeBody` -/
structure RevokeBody where
  target : Bytes
  reason : Bytes

/-- `ToolQuery` -/
structure ToolQuery where
  capabilities : Option (List Bytes)
  environmentType : Bytes
  maxResults : Int64
  includeMetadata : Bool

/-- `DiscoverToolsBody` -/
structure DiscoverToolsBody where
  query : ToolQuery
  requestID : Bytes

/-- `ToolMetadata` -/
structure ToolMetadata where
  lastSeen : Int64
  averageResponseTime : Int64
  trustScore : Float64

/-- `DiscoveredTool` -/
structure DiscoveredTool where
  agentID : Bytes
  mcpEndpoint : Bytes
  capabilities : Option (List Bytes)
  environmentType : Bytes
  mcpTools : Option (List MCPTool)
  metadata : ToolMetadata

/-- `ToolsDiscoveredBody` -/
structure ToolsDiscoveredBody where
  requestID : Bytes
  tools : Option (List DiscoveredTool)
  totalResults : Int64
  hasMore : Bool

/-- `EmbodimentUpdateBody` -/
structure EmbodimentUpdateBody where
  environmentType : Bytes
  bodyDefinition : BodyDefinition
  mcpEndpoint : Bytes
  updatedTools : Option (List Bytes)

/-! ## Encoders -/

/-- a `string` -/
def encString : Encoder Bytes := fun s => some (.str s)

/-- a `[]string` -/
def encStrings : Encoder (Option (List Bytes)) := encSlice encString

/-- a `map[string]interface{}` -/
def encAnyMap : Encoder AnyMap := encMap Any.encode

def MCPTool.encode : Encoder MCPTool := fun t =>
  encStruct [.always "name" (encString t.name), .always "description" (encString t.description),
    .always "inputSchema" (encAnyMap t.inputSchema)]

def BodyDefinition.encode : Encoder BodyDefinition := fun d =>
  encStruct [.always "name" (encString d.name), .always "environment" (encString d.environment),
    .always "capabilities" (encStrings d.capabilities), .always "mcpTools" (encSlice MCPTool.encode d.mcpTools),
    .omitEmpty "constraints" (emptyList d.constraints) (encAnyMap d.constraints),
    .omitEmpty "metadata" (emptyList d.metadata) (encAnyMap d.metadata)]

def RegisterAgentBody.encode : Encoder RegisterAgentBody := fun b =>
  encStruct [.always "pubkey" (encString b.pubKey), .always "capabilities" (encStrings b.capabilities),
    .omitEmpty "metadata" (emptyList b.metadata) (encAnyMap b.metadata),
    .omitEmpty "mcpEndpoint" b.mcpEndpoint.isEmpty (encString b.mcpEndpoint),
    .omitEmpty "bodyDefinition" b.bodyDefinition.isNone (encPtr BodyDefinition.encode b.bodyDefinition),
    .omitEmpty "environmentType" b.environmentType.isEmpty (encString b.environmentType)]

def RegisterBrokerBody.encode : Encoder RegisterBrokerBody := fun b =>
  encStruct [.always "brokerId" (encString b.brokerID), .always "endpoint" (encString b.endpoint),
    .always "pubkey" (encString b.pubKey), .always "capabilities" (encStrings b.capabilities)]

def EmitEventBody.encode : Encoder EmitEventBody := fun b =>
  encStruct [.always "event" (encString b.event), .always "payload" (encAnyMap b.payload)]

def RenderInstructionBody.encode : Encoder RenderInstructionBody := fun b =>
  encStruct [.always "instruction" (encString b.instruction),
    .omitEmpty "parameters" (emptyList b.parameters) (encAnyMap b.parameters)]

def ToolCallBody.encode : Encoder ToolCallBody := fun b =>
  encStruct [.always "tool" (encString b.tool), .always "parameters" (encAnyMap b.parameters),
    .always "requestId" (encString b.requestID)]

def ToolResultBody.encode : Encoder ToolResultBody := fun b =>
  encStruct [.always "requestId" (encString b.requestID), .always "success" (some (.bool b.success)),
    .omitEmpty "result" b.result.isNil b.result.encode, .omitEmpty "error" b.error.isEmpty (encString b.error)]

def RevokeBody.encode : Encoder RevokeBody := fun b =>
  encStruct [.always "target" (encString b.target), .omitEmpty "reason" b.reason.isEmpty (encString b.reason)]

def ToolQuery.encode : Encoder ToolQuery := fun q =>
  encStruct [.always "capabilities" (encStrings q.capabilities),
    .omitEmpty "environmentType" q.environmentType.isEmpty (encString q.environmentType),
    .omitEmpty "maxResults" (q.maxResults.val == 0) (some (.int q.maxResults.val)),
    .omitEmpty "includeMetadata" (!q.includeMetadata) (some (.bool q.includeMetadata))]

def DiscoverToolsBody.encode : Encoder DiscoverToolsBody := fun b =>
  encStruct [.always "query" (b.query.encode), .always "requestId" (encString b.requestID)]

def ToolMetadata.encode : Encoder ToolMetadata := fun m =>
  encStruct [.always "lastSeen" (some (.int m.lastSeen.val)),
    .always "averageResponseTime" (some (.int m.averageResponseTime.val)),
    .always "trustScore" m.trustScore.encode]

/-- `metadata` is tagged `omitempty`, which never leaves out a struct -/
def DiscoveredTool.encode : Encoder DiscoveredTool := fun t =>
  encStruct [.always "agentId" (encString t.agentID), .always "mcpEndpoint" (encString t.mcpEndpoint),
    .always "capabilities" (encStrings t.capabilities), .always "environmentType" (encString t.environmentType),
    .always "mcpTools" (encSlice MCPTool.encode t.mcpTools), .always "metadata" t.metadata.encode]

def ToolsDiscoveredBody.encode : Encoder ToolsDiscoveredBody := fun b =>
  encStruct [.always "requestId" (encString b.requestID), .always "tools" (encSlice DiscoveredTool.encode b.tools),
    .always "totalResults" (some (.int b.totalResults.val)), .always "hasMore" (some (.bool b.hasMore))]

def EmbodimentUpdateBody.encode : Encoder EmbodimentUpdateBody := fun b =>
  encStruct [.always "environmentType" (encString b.environmentType),
    .always "bodyDefinition" b.bodyDefinition.encode, .always "mcpEndpoint" (encString b.mcpEndpoint),
    .always "updatedTools" (encStrings b.updatedTools)]

/-! ## Decoders -/

/-- a `[]string` -/
def decStrings : Decoder (Option (List Bytes)) := decSlice decString []

/-- a `map[string]interface{}` -/
def decAnyMap : Decoder AnyMap := decMap decAny .null

def MCPTool.zero : MCPTool := ⟨[], [], none⟩

def MCPTool.decode : Decoder MCPTool :=
  decStruct false [.of "name" (·.name) (fun t x => { t with name := x }) decString,
    .of "description" (·.description) (fun t x => { t with description := x }) decString,
    .of "inputSchema" (·.inputSchema) (fun t x => { t with inputSchema := x }) decAnyMap]

def BodyDefinition.zero : BodyDefinition := ⟨[], [], none, none, none, none⟩

def BodyDefinition.decode : Decoder BodyDefinition :=
  decStruct false [.of "name" (·.name) (fun d x => { d with name := x }) decString,
    .of "environment" (·.environment) (fun d x => { d with environment := x }) decString,
    .of "capabilities" (·.capabilities) (fun d x => { d with capabilities := x }) decStrings,
    .of "mcpTools" (·.mcpTools) (fun d x => { d with mcpTools := x }) (decSlice MCPTool.decode .zero),
    .of "constraints" (·.constraints) (fun d x => { d with constraints := x }) decAnyMap,
    .of "metadata" (·.metadata) (fun d x => { d with metadata := x }) decAnyMap]

def RegisterAgentBody.zero : RegisterAgentBody := ⟨[], none, none, [], none, []⟩

def RegisterAgentBody.decode : Decoder RegisterAgentBody :=
  decStruct false [.of "pubkey" (·.pubKey) (fun b x => { b with pubKey := x }) decString,
    .of "capabilities" (·.capabilities) (fun b x => { b with capabilities := x }) decStrings,
    .of "metadata" (·.metadata) (fun b x => { b with metadata := x }) decAnyMap,
    .of "mcpEndpoint" (·.mcpEndpoint) (fun b x => { b with mcpEndpoint := x }) decString,
    .of "bodyDefinition" (·.bodyDefinition) (fun b x => { b with bodyDefinition := x })
      (decPtr BodyDefinition.decode .zero),
    .of "environmentType" (·.environmentType) (fun b x => { b with environmentType := x }) decString]

def ToolQuery.zero : ToolQuery := ⟨none, [], Int64.zero, false⟩

def ToolQuery.decode : Decoder ToolQuery :=
  decStruct false [.of "capabilities" (·.capabilities) (fun q x => { q with capabilities := x }) decStrings,
    .of "environmentType" (·.environmentType) (fun q x => { q with environmentType := x }) decString,
    .of "maxResults" (·.maxResults) (fun q x => { q with maxResults := x }) decInt,
    .of "includeMetadata" (·.includeMetadata) (fun q x => { q with includeMetadata := x }) decBool]

def DiscoverToolsBody.zero : DiscoverToolsBody := ⟨.zero, []⟩

def DiscoverToolsBody.decode : Decoder DiscoverToolsBody :=
  decStruct false [.of "query" (·.query) (fun b x => { b with query := x }) ToolQuery.decode,
    .of "requestId" (·.requestID) (fun b x => { b with requestID := x }) decString]

def EmbodimentUpdateBody.zero : EmbodimentUpdateBody := ⟨[], .zero, [], none⟩

def EmbodimentUpdateBody.decode : Decoder EmbodimentUpdateBody :=
  decStruct false [.of "environmentType" (·.environmentType) (fun b x => { b with environmentType := x }) decString,
    .of "bodyDefinition" (·.bodyDefinition) (fun b x => { b with bodyDefinition := x }) BodyDefinition.decode,
    .of "mcpEndpoint" (·.mcpEndpoint) (fun b x => { b with mcpEndpoint := x }) decString,
    .of "updatedTools" (·.updatedTools) (fun b x => { b with updatedTools := x }) decStrings]

/-! ## New envelopes -/

/-- `generateNonce`, given the clock's readings `time.Now().UnixNano()` and `time.Now().Unix()`:
`fmt.Sprintf("%d-%d", ...)` of the two -/
def generateNonce (nano sec : Int64) : Bytes := formatInt nano.val ++ 0x2D :: formatInt sec.val

/-- `NewEnvelope`, given the clock's readings: the type and agent, the time in milliseconds and a fresh nonce, with no
signature and a nil body -/
def newEnvelope (envType : EnvelopeType) (agent : Bytes) (milli nano sec : Int64) : Envelope :=
  ⟨⟨⟨agent, milli, generateNonce nano sec, []⟩, envType⟩, none⟩

/-- `%d` of an integer: a sign for a negative one, then at least one digit -/
theorem formatInt_sign_digits (i : Int) : ∃ ds, ds ≠ [] ∧ (∀ c ∈ ds, isDigit c = true) ∧
    formatInt i = (if i < 0 then [0x2D] else []) ++ ds := by
  obtain ⟨d, ds, e, -, hds, -⟩ := decimalAux_spec i.natAbs i.natAbs le_rfl
  refine ⟨d :: ds, List.cons_ne_nil _ _, hds, ?_⟩
  unfold formatInt decimal
  split_ifs <;> simp only [e, List.singleton_append, List.nil_append]

/-- a run of digits followed by `-` ends at that `-` -/
theorem digits_sep_inj : ∀ {xs ys X Y : Bytes}, (∀ c ∈ xs, isDigit c = true) → (∀ c ∈ ys, isDigit c = true) →
    xs ++ 0x2D :: X = ys ++ 0x2D :: Y → xs = ys ∧ X = Y
  | [], [], _, _, _, _, h => ⟨rfl, (List.cons.inj h).2⟩
  | [], y :: _, _, _, _, hy, h => absurd (hy y (List.mem_cons_self _ _)) (by rw [← (List.cons.inj h).1]; decide)
  | x :: _, [], _, _, hx, _, h => absurd (hx x (List.mem_cons_self _ _)) (by rw [(List.cons.inj h).1]; decide)
  | x :: xs, y :: ys, _, _, hx, hy, h => by
    obtain ⟨rfl, h'⟩ := List.cons.inj h
    obtain ⟨rfl, rfl⟩ := digits_sep_inj (fun c hc => hx c (List.mem_cons_of_mem _ hc))
      (fun c hc => hy c (List.mem_cons_of_mem _ hc)) h'
    exact ⟨rfl, rfl⟩

/-- two nonces `generateNonce` makes are equal exactly when both clock readings are: the separator is the first `-`
after the first number's digits, so the text gives both numbers back -/
theorem generateNonce_eq_iff (n s n' s' : Int64) :
    generateNonce n s = generateNonce n' s' ↔ n = n' ∧ s = s' := by
  refine ⟨fun h => ?_, fun ⟨h1, h2⟩ => h1 ▸ h2 ▸ rfl⟩
  obtain ⟨ds, hne, hd, e⟩ := formatInt_sign_digits n.val
  obtain ⟨ds', hne', hd', e'⟩ := formatInt_sign_digits n'.val
  have key : ∀ {σ σ' : Bytes}, formatInt n.val = σ ++ ds → formatInt n'.val = σ' ++ ds' → σ = σ' →
      σ ++ ds ++ 0x2D :: formatInt s.val = σ' ++ ds' ++ 0x2D :: formatInt s'.val → n = n' ∧ s = s' := by
    rintro σ _ e e' rfl h
    rw [List.append_assoc, List.append_assoc, List.append_cancel_left_eq] at h
    obtain ⟨rfl, hs⟩ := digits_sep_inj hd hd' h
    exact ⟨Int64.formatInt_eq_iff.1 (e.trans e'.symm), Int64.formatInt_eq_iff.1 hs⟩
  rw [generateNonce, generateNonce, e, e'] at h
  split_ifs at h e e' with h1 h2 h2
  · exact key e e' rfl h
  · obtain ⟨y, ys, rfl⟩ := List.exists_cons_of_ne_nil hne'
    exact absurd (hd' y (List.mem_cons_self _ _)) (by rw [← (List.cons.inj h).1]; decide)
  · obtain ⟨y, ys, rfl⟩ := List.exists_cons_of_ne_nil hne
    exact absurd (hd y (List.mem_cons_self _ _)) (by rw [(List.cons.inj h).1]; decide)
  · exact key e e' rfl h
end FepFem.Protocol
