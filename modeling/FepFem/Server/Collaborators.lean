import FepFem.Protocol.Envelopes
import Mathlib.Data.List.Sort

/-
What the broker calls that the repository does not hold: `protocol.GenericEnvelope`, `protocol.ParseEnvelope` and
`GetBodyAs`, and the `MCPRegistry` with its `MCPAgent`s. All of it is modelled from the specification.

A Go map is an association list, newest binding first, each key bound once; only lookups are observable through
the program, except through `DiscoverTools`, which orders what it returns. The registry is the map from agent id
to `MCPAgent` the handlers fill. Two of its operations are not fixed by the specification: whether `RegisterAgent`
succeeds, and what `DiscoverTools` returns. `Env` holds both, so a result over every `Env` holds for every registry
that stores what it accepts; `Env.spec` is one of them, the specification's discovery over a registry that accepts
every agent.

Results:
- `GoMap.get_set`, `GoMap.get_delete`: a map's lookups after a write;
- `registerAgent_eq_some`: a registration that succeeds binds the id to the agent and changes nothing else.

`ParseEnvelope` follows the specification's envelope: the schema's six properties and their types, the five required
ones present, the agent id's pattern, and a type of the closed enumeration. The specification fixes its errors' codes
but not their text, which `ServeHTTP` writes back; each request carries that text (`Request.parseErrorText`).
-/

namespace FepFem.Server

open FepFem.Json FepFem.Protocol

/-! ## Maps -/

/-- a Go `map[string]T`: its bindings, newest first, one per key -/
abbrev GoMap (α : Type) := List (Bytes × α)

/-- `m[k]`, with whether it is there -/
def GoMap.get {α : Type} : GoMap α → Bytes → Option α
  | [], _ => none
  | (k', v) :: m, k => if k' = k then some v else GoMap.get m k

/-- `delete(m, k)` -/
def GoMap.delete {α : Type} (m : GoMap α) (k : Bytes) : GoMap α := m.filter fun e => e.1 ≠ k

/-- `m[k] = v` -/
def GoMap.set {α : Type} (m : GoMap α) (k : Bytes) (v : α) : GoMap α := (k, v) :: m.delete k

section GoMap

variable {α : Type} (m : GoMap α) (k k' : Bytes) (v : α)

@[simp] theorem GoMap.get_nil : GoMap.get ([] : GoMap α) k = none := rfl

theorem GoMap.get_delete_self : (m.delete k).get k = none := by
  induction m with
  | nil => rfl
  | cons e m ih => by_cases h : e.1 = k <;> simp_all [GoMap.delete, GoMap.get, List.filter_cons]

theorem GoMap.get_delete_ne (h : k ≠ k') : (m.delete k).get k' = m.get k' := by
  induction m with
  | nil => rfl
  | cons e m ih =>
    by_cases hk : e.1 = k
    · have : e.1 ≠ k' := hk ▸ h
      simp_all [GoMap.delete, GoMap.get, List.filter_cons]
    · simp_all [GoMap.delete, GoMap.get, List.filter_cons]

@[simp] theorem GoMap.get_delete : (m.delete k).get k' = if k = k' then none else m.get k' := by
  split_ifs with h
  · exact h ▸ get_delete_self m k
  · exact get_delete_ne m k k' h

@[simp] theorem GoMap.get_set : (m.set k v).get k' = if k = k' then some v else m.get k' := by
  by_cases h : k = k' <;> simp [GoMap.set, GoMap.get, h]

end GoMap

/-! ## The generic envelope -/

/-- Modelled from the spec: `protocol.GenericEnvelope`, the envelope the broker parses, with its body kept as a
`json.RawMessage` -/
abbrev GenericEnvelope := Envelope

/-- the closed enumeration of envelope types, the constants of `EnvelopeType` -/
def envelopeTypes : List EnvelopeType :=
  [envelopeRegisterAgent, envelopeRegisterBroker, envelopeEmitEvent, envelopeRenderInstruction, envelopeToolCall,
    envelopeToolResult, envelopeRevoke, envelopeDiscoverTools, envelopeToolsDiscovered, envelopeEmbodimentUpdate]

/-- Modelled from the spec: the two ways `ParseEnvelope` fails, by their codes in the error taxonomy; the message
that goes with a code is not specified -/
inductive ParseError where
  | malformedEnvelope
  | unknownType
  deriving DecidableEq, Repr

/-- a byte of `[a-z0-9]` -/
def isLowerAlnum (c : UInt8) : Bool := (0x61 ≤ c && c ≤ 0x7A) || (0x30 ≤ c && c ≤ 0x39)

/-- Modelled from the spec: an agent id of the envelope schema's pattern `^[a-z0-9][a-z0-9-._]*[a-z0-9]$` -/
def agentIdOk (a : Bytes) : Bool :=
  2 ≤ a.length && a.head?.all isLowerAlnum && a.getLast?.all isLowerAlnum &&
    a.all fun c => isLowerAlnum c || c == 0x2D || c == 0x2E || c == 0x5F

/-- Modelled from the spec: the JSON type the envelope schema gives each of its six properties, `ts` an integer (a
number, which the decoder reads as an `int64`), `body` an object, the others strings; no other key is allowed -/
def propertyOk (k : Bytes) : Value → Bool
  | .num _ => k = ascii "ts"
  | .obj _ => k = ascii "body"
  | .str _ => k ∈ [ascii "type", ascii "agent", ascii "nonce", ascii "sig"]
  | _ => false

/-- Modelled from the spec: the envelope schema on an object's members: every key one of its properties, with that
property's type, and the five required properties present -/
def schemaOk (ms : List (Bytes × Value)) : Bool :=
  (ms.all fun m => (unquote m.1).any fun k => propertyOk k m.2) &&
    ["type", "agent", "ts", "nonce", "body"].all fun k => ms.any fun m => unquote m.1 == some (ascii k)

/-- Modelled from the spec: `protocol.ParseEnvelope`. An object that meets the envelope schema, with an agent id of
its pattern, decoded strictly (unknown top-level fields rejected) into a fresh envelope whose type must be one of the
enumeration. -/
def parseEnvelope (data : Bytes) : Except ParseError GenericEnvelope :=
  match parseTop data with
  | some (.obj ms) =>
    match decStruct true Envelope.fields (.obj ms) .zero with
    | some env =>
      if schemaOk ms && agentIdOk env.agent then
        if env.type ∈ envelopeTypes then .ok env else .error .unknownType
      else .error .malformedEnvelope
    | none => .error .malformedEnvelope
  | _ => .error .malformedEnvelope

/-- `json.Unmarshal(env.Body, &v)` with `v` holding `zero`; a nil body is empty input, which is an error -/
def unmarshalBody {β : Type} (dec : Decoder β) (zero : β) (env : GenericEnvelope) : Option β :=
  Json.unmarshal dec zero (env.body.getD [])

/-- Modelled from the spec: `GetBodyAs`, the body decoded into the handler's variable -/
def getBodyAs {β : Type} (dec : Decoder β) (zero : β) (env : GenericEnvelope) : Option β := unmarshalBody dec zero env

/-! ## The MCP registry -/

/-- a reading of the clock, a `time.Time`, as the nanoseconds since the epoch `UnixNano` gives -/
abbrev Time := Int64

/-- Modelled from the spec: `MCPAgent`, with the fields the handlers set -/
structure MCPAgent where
  id : Bytes
  mcpEndpoint : Bytes
  bodyDefinition : Option BodyDefinition
  environmentType : Bytes
  tools : Option (List MCPTool)
  lastHeartbeat : Time

/-- Modelled from the spec: the `MCPRegistry`, a map from agent id to `MCPAgent` -/
abbrev Registry := GoMap MCPAgent

/-- Modelled from the spec: what the specification leaves open about the registry -/
structure Env where
  /-- whether `RegisterAgent(id, agent)` returns `nil` on a registry -/
  accept : Registry → Bytes → MCPAgent → Bool
  /-- `DiscoverTools(query)`: the slice it returns (`none` for a nil slice), or `none` for its error -/
  discover : Registry → ToolQuery → Option (Option (List DiscoveredTool))

/-- `RegisterAgent(id, agent)`: the registry with `id` bound to `agent`, or `none` for its error, which leaves the
registry as it was -/
def Registry.registerAgent (E : Env) (r : Registry) (id : Bytes) (a : MCPAgent) : Option Registry :=
  if E.accept r id a then some (r.set id a) else none

/-- `GetAgent(id)`: a snapshot of the agent, with whether it is there -/
def Registry.getAgent (r : Registry) (id : Bytes) : Option MCPAgent := r.get id

theorem registerAgent_eq_some {E : Env} {r r' : Registry} {id : Bytes} {a : MCPAgent}
    (h : r.registerAgent E id a = some r') : r' = r.set id a := by
  unfold Registry.registerAgent at h
  split_ifs at h
  exact (Option.some.inj h).symm

/-! ## Discovery as the specification describes it -/

/-- the agent's capability set: its body definition's capabilities -/
def MCPAgent.capabilities (a : MCPAgent) : List Bytes := (a.bodyDefinition.bind (·.capabilities)).getD []

/-- how many of the query's capabilities the agent has -/
def sharedCount (q : ToolQuery) (a : MCPAgent) : Nat :=
  ((q.capabilities.getD []).filter fun c => c ∈ a.capabilities).length

/-- the agent shares a capability with the query, and has its environment type when the query names one -/
def matchesQuery (q : ToolQuery) (a : MCPAgent) : Bool :=
  0 < sharedCount q a && (q.environmentType.isEmpty || q.environmentType == a.environmentType)

/-- the ranking: more shared capabilities first, then the more recent last heartbeat, then agent ids in byte
order -/
def ranksBefore (q : ToolQuery) (a b : MCPAgent) : Prop :=
  sharedCount q b < sharedCount q a ∨ (sharedCount q a = sharedCount q b ∧
    (b.lastHeartbeat.val < a.lastHeartbeat.val ∨
      (a.lastHeartbeat.val = b.lastHeartbeat.val ∧ bytesLt b.id a.id = false)))

instance (q : ToolQuery) : DecidableRel (ranksBefore q) := fun _ _ => inferInstanceAs (Decidable (_ ∨ _))

/-- an unrated trust score -/
def Float64.zero : Float64 := .finite (ascii "0") rfl

/-- the descriptor discovery returns for an agent: last seen at its last heartbeat; the usage metadata is
informational and starts at zero -/
def MCPAgent.toDiscovered (a : MCPAgent) : DiscoveredTool :=
  ⟨a.id, a.mcpEndpoint, some a.capabilities, a.environmentType, a.tools, ⟨a.lastHeartbeat, Int64.zero, Float64.zero⟩⟩

/-- Modelled from the spec: `discover(query)`, the matching agents ranked and truncated to `maxResults` when it is
positive -/
def discoverSpec (r : Registry) (q : ToolQuery) : Option (Option (List DiscoveredTool)) :=
  let ranked := ((r.map (·.2)).filter (matchesQuery q)).insertionSort (ranksBefore q)
  let kept := if 0 < q.maxResults.val then ranked.take q.maxResults.val.toNat else ranked
  some (some (kept.map MCPAgent.toDiscovered))

/-- the registry of the specification: every registration succeeds, discovery as `discoverSpec` -/
def Env.spec : Env := ⟨fun _ _ _ => true, discoverSpec⟩

end FepFem.Server
