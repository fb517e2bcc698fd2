import FepFem.Server.Collaborators

/-
`broker/main.go`: the broker's state, `ServeHTTP` and the nine envelope handlers.

A handler is the program of atomic steps it takes on shared state (`Proc`): a critical section under `b.mu` that
rewrites `b.agents`, or one call of `RegisterAgent`, `GetAgent` or `DiscoverTools` on `b.mcpRegistry`. Work on
request-local data (decoding the body, building the reply) belongs to the step after it. A handler that has taken a
step on shared state writes its reply in a step of its own (`respond`), after its `log.Printf`; one that takes no
such step has replied before any other request can see it. `Proc.run` runs a program alone, which is how the broker
handles a request when no other is in flight; `Concurrency` interleaves several. A reply is what the handler writes:
`http.Error`'s code and text, or the JSON of its `map[string]interface{}`.

Besides the HTTP request, a handler gets two things from outside the program: the readings of `time.Now()` it takes
(`RegisteredAt`, `LastHeartbeat`), and the text of the error `ParseEnvelope` returns, which `ServeHTTP` writes back.
Both are inputs of the request (`Request.now`, `Request.parseErrorText`).

The five handlers that only decode their body and answer are one definition, `acknowledge`, applied to each one's
body struct and reply.

Results:
- `ReadOnly.run_fst`: a program that takes no writing step leaves the broker as it was;
- `run_handleRegisterAgent`, `run_handleRevoke`, `run_handleEmbodimentUpdate`: what each writing handler does to
  the two stores and what it answers, once its body decodes;
- `dispatch_sig`: what a handler does does not depend on the envelope's signature;
- `serve_unchanged_or_writes`: only a POSTed envelope that parses, of type `registerAgent`, `revoke` or
  `embodimentUpdate`, with a body that decodes, can change the broker's state.
-/

namespace FepFem.Server

open FepFem.Json FepFem.Protocol

/-! ## State, requests and replies -/

/-- `Agent` -/
structure Agent where
  id : Bytes
  capabilities : Option (List Bytes)
  endpoint : Bytes
  registeredAt : Time

/-- `Broker`: its two stores (`tlsConfig` belongs to the transport) -/
structure Broker where
  agents : GoMap Agent
  mcpRegistry : Registry

/-- `NewBroker()` -/
def newBroker : Broker := ⟨[], []⟩

/-- what `ServeHTTP` reads of an `http.Request`, and what its handler gets from outside the program -/
structure Request where
  method : Bytes
  path : Bytes
  /-- the body as `io.ReadAll` returns it, or `none` for its error -/
  body : Option Bytes
  /-- the readings `time.Now()` gives the handler, the first at `0` -/
  now : Nat → Time
  /-- what `%v` prints of the error `ParseEnvelope` returns for the body, for each code -/
  parseErrorText : ParseError → Bytes

/-- what a handler writes: the status code, the `Content-Type` and the body -/
structure Response where
  code : Nat
  contentType : Bytes
  body : Bytes
  deriving DecidableEq, Repr

/-- `http.Error(w, msg, code)` -/
def httpError (msg : Bytes) (code : Nat) : Response := ⟨code, ascii "text/plain; charset=utf-8", msg ++ [0x0A]⟩

/-- `json.NewEncoder(w).Encode(response)` of a `map[string]interface{}` after `Content-Type: application/json`:
the map's JSON, keys sorted, and a newline. When a value does not encode, `Encode` writes nothing and its error is
dropped. -/
def jsonReply (ms : List (Bytes × Option Canon)) : Response :=
  ⟨200, ascii "application/json",
    match ms.mapM fun m => m.2.map (m.1, ·) with
    | some cs => (Canon.obj (sortKeys cs)).val.print ++ [0x0A]
    | none => []⟩

/-- a string entry of a reply -/
def strEntry (k : String) (v : Bytes) : Bytes × Option Canon := (ascii k, some (.str v))

/-! ## Programs of atomic steps -/

/-- a handler as the steps it takes on the broker's shared state -/
inductive Proc where
  /-- the reply is written -/
  | done (resp : Response)
  /-- the handler writes its reply, after its last step on shared state -/
  | respond (resp : Response)
  /-- `b.mu.Lock()`, a write to `b.agents`, `b.mu.Unlock()` -/
  | lockAgents (f : GoMap Agent → GoMap Agent) (k : Proc)
  /-- `b.mcpRegistry.RegisterAgent(id, agent)`, continued with whether it returned `nil` -/
  | registerAgent (id : Bytes) (a : MCPAgent) (k : Bool → Proc)
  /-- `b.mcpRegistry.GetAgent(id)` -/
  | getAgent (id : Bytes) (k : Option MCPAgent → Proc)
  /-- `b.mcpRegistry.DiscoverTools(query)` -/
  | discoverTools (q : ToolQuery) (k : Option (Option (List DiscoveredTool)) → Proc)

/-- the first step of a program that has not replied: what is left of it, and the state after the step -/
def Proc.step (E : Env) (b : Broker) : Proc → Option (Proc × Broker)
  | .done _ => none
  | .respond resp => some (.done resp, b)
  | .lockAgents f k => some (k, { b with agents := f b.agents })
  | .registerAgent id a k => some <|
    match b.mcpRegistry.registerAgent E id a with
    | some r => (k true, { b with mcpRegistry := r })
    | none => (k false, b)
  | .getAgent id k => some (k (b.mcpRegistry.getAgent id), b)
  | .discoverTools q k => some (k (E.discover b.mcpRegistry q), b)

/-- a program run alone to its reply -/
def Proc.run (E : Env) : Proc → Broker → Broker × Response
  | .done resp, b => (b, resp)
  | .respond resp, b => (b, resp)
  | .lockAgents f k, b => k.run E { b with agents := f b.agents }
  | .registerAgent id a k, b =>
    match b.mcpRegistry.registerAgent E id a with
    | some r => (k true).run E { b with mcpRegistry := r }
    | none => (k false).run E b
  | .getAgent id k, b => (k (b.mcpRegistry.getAgent id)).run E b
  | .discoverTools q k, b => (k (E.discover b.mcpRegistry q)).run E b

/-- only a program that has replied takes no step -/
theorem Proc.step_eq_none {E : Env} {b : Broker} {p : Proc} (h : p.step E b = none) : ∃ r, p = .done r := by
  cases p with
  | done r => exact ⟨r, rfl⟩
  | _ => cases h

/-- running a program is taking its first step and running the rest -/
theorem Proc.run_step {E : Env} {b b' : Broker} {p p' : Proc} (h : p.step E b = some (p', b')) :
    p.run E b = p'.run E b' := by
  cases p with
  | done => cases h
  | registerAgent id a k =>
    simp only [Proc.step, Option.some.injEq] at h
    simp only [Proc.run]
    split <;> rename_i hr <;> rw [hr] at h <;> cases h <;> rfl
  | _ => cases h; rfl

/-- a program that takes no step that writes -/
inductive Proc.ReadOnly : Proc → Prop
  | done (resp : Response) : Proc.ReadOnly (.done resp)
  | respond (resp : Response) : Proc.ReadOnly (.respond resp)
  | getAgent (id : Bytes) (k : Option MCPAgent → Proc) : (∀ a, (k a).ReadOnly) → Proc.ReadOnly (.getAgent id k)
  | discoverTools (q : ToolQuery) (k : Option (Option (List DiscoveredTool)) → Proc) :
      (∀ t, (k t).ReadOnly) → Proc.ReadOnly (.discoverTools q k)

theorem Proc.ReadOnly.run_fst {p : Proc} (h : p.ReadOnly) (E : Env) (b : Broker) : (p.run E b).1 = b := by
  induction h with
  | done | respond => rfl
  | getAgent _ _ _ ih => exact ih _
  | discoverTools _ _ _ ih => exact ih _

/-! ## The handlers' bodies -/

/-- the body `handleRegisterBroker` declares -/
structure RegisterBrokerIn where
  endpoint : Bytes
  embodiment : AnyMap

def RegisterBrokerIn.zero : RegisterBrokerIn := ⟨[], none⟩

/-- the fields of `RegisterBrokerIn` as the decoder finds them -/
def RegisterBrokerIn.fields : List (FieldIn RegisterBrokerIn) :=
  [.of "endpoint" (·.endpoint) (fun b x => { b with endpoint := x }) decString,
    .of "embodiment" (·.embodiment) (fun b x => { b with embodiment := x }) decAnyMap]

def RegisterBrokerIn.decode : Decoder RegisterBrokerIn := decStruct false RegisterBrokerIn.fields

/-- the body `handleEmitEvent` declares -/
structure EmitEventIn where
  eventType : Bytes
  data : AnyMap

def EmitEventIn.zero : EmitEventIn := ⟨[], none⟩

/-- the fields of `EmitEventIn` as the decoder finds them -/
def EmitEventIn.fields : List (FieldIn EmitEventIn) :=
  [.of "eventType" (·.eventType) (fun b x => { b with eventType := x }) decString,
    .of "data" (·.data) (fun b x => { b with data := x }) decAnyMap]

def EmitEventIn.decode : Decoder EmitEventIn := decStruct false EmitEventIn.fields

/-- the body `handleRenderInstruction` declares -/
structure RenderInstructionIn where
  instruction : Bytes
  context : AnyMap

def RenderInstructionIn.zero : RenderInstructionIn := ⟨[], none⟩

/-- the fields of `RenderInstructionIn` as the decoder finds them -/
def RenderInstructionIn.fields : List (FieldIn RenderInstructionIn) :=
  [.of "instruction" (·.instruction) (fun b x => { b with instruction := x }) decString,
    .of "context" (·.context) (fun b x => { b with context := x }) decAnyMap]

def RenderInstructionIn.decode : Decoder RenderInstructionIn := decStruct false RenderInstructionIn.fields

/-- the body `handleToolCall` declares -/
structure ToolCallIn where
  tool : Bytes
  parameters : AnyMap

def ToolCallIn.zero : ToolCallIn := ⟨[], none⟩

/-- the fields of `ToolCallIn` as the decoder finds them -/
def ToolCallIn.fields : List (FieldIn ToolCallIn) :=
  [.of "tool" (·.tool) (fun b x => { b with tool := x }) decString,
    .of "parameters" (·.parameters) (fun b x => { b with parameters := x }) decAnyMap]

def ToolCallIn.decode : Decoder ToolCallIn := decStruct false ToolCallIn.fields

/-- the body `handleToolResult` declares -/
structure ToolResultIn where
  tool : Bytes
  result : Any
  error : Bytes

def ToolResultIn.zero : ToolResultIn := ⟨[], .null, []⟩

/-- the fields of `ToolResultIn` as the decoder finds them -/
def ToolResultIn.fields : List (FieldIn ToolResultIn) :=
  [.of "tool" (·.tool) (fun b x => { b with tool := x }) decString,
    .of "result" (·.result) (fun b x => { b with result := x }) decAny,
    .of "error" (·.error) (fun b x => { b with error := x }) decString]

def ToolResultIn.decode : Decoder ToolResultIn := decStruct false ToolResultIn.fields

/-- the body `handleRevoke` declares -/
structure RevokeIn where
  target : Bytes
  reason : Bytes

def RevokeIn.zero : RevokeIn := ⟨[], []⟩

/-- the fields of `RevokeIn` as the decoder finds them -/
def RevokeIn.fields : List (FieldIn RevokeIn) :=
  [.of "target" (·.target) (fun b x => { b with target := x }) decString,
    .of "reason" (·.reason) (fun b x => { b with reason := x }) decString]

def RevokeIn.decode : Decoder RevokeIn := decStruct false RevokeIn.fields

/-! ## The handlers -/

/-- the handlers that decode their body with `json.Unmarshal` and answer from it, without touching the broker's
state -/
def acknowledge {β : Type} (dec : Decoder β) (zero : β) (reply : β → List (Bytes × Option Canon))
    (env : GenericEnvelope) : Proc :=
  match unmarshalBody dec zero env with
  | none => .done (httpError (ascii "Invalid body") 400)
  | some body => .done (jsonReply (reply body))

/-- `handleRegisterBroker` -/
def handleRegisterBroker (env : GenericEnvelope) : Proc :=
  acknowledge RegisterBrokerIn.decode .zero
    (fun _ => [strEntry "status" (ascii "registered"), strEntry "broker" env.agent]) env

/-- `handleEmitEvent` -/
def handleEmitEvent (env : GenericEnvelope) : Proc :=
  acknowledge EmitEventIn.decode .zero
    (fun body => [strEntry "status" (ascii "emitted"), strEntry "event" body.eventType]) env

/-- `handleRenderInstruction` -/
def handleRenderInstruction (env : GenericEnvelope) : Proc :=
  acknowledge RenderInstructionIn.decode .zero (fun _ => [strEntry "status" (ascii "rendered")]) env

/-- `handleToolCall` -/
def handleToolCall (env : GenericEnvelope) : Proc :=
  acknowledge ToolCallIn.decode .zero
    (fun body => [strEntry "status" (ascii "processing"), strEntry "tool" body.tool]) env

/-- `handleToolResult` -/
def handleToolResult (env : GenericEnvelope) : Proc :=
  acknowledge ToolResultIn.decode .zero
    (fun body => [strEntry "status" (ascii "received"), strEntry "tool" body.tool]) env

/-- the `MCPAgent` `handleRegisterAgent` builds from a registration body, its heartbeat read at `t` -/
def mcpAgentOf (id : Bytes) (body : RegisterAgentBody) (t : Time) : MCPAgent :=
  ⟨id, body.mcpEndpoint, body.bodyDefinition, body.environmentType, body.bodyDefinition.bind (·.mcpTools), t⟩

/-- `handleRegisterAgent`: the agent is stored under `b.mu`, registered at the clock's first reading; then, when the
body names an MCP endpoint, the agent is registered with the MCP registry, its heartbeat the clock's second reading,
and the registry's error is only logged -/
def handleRegisterAgent (now : Nat → Time) (env : GenericEnvelope) : Proc :=
  match getBodyAs RegisterAgentBody.decode .zero env with
  | none => .done (httpError (ascii "Invalid body") 400)
  | some body =>
    let reply := Proc.respond (jsonReply [strEntry "status" (ascii "registered"), strEntry "agent" env.agent])
    .lockAgents (·.set env.agent ⟨env.agent, body.capabilities, body.mcpEndpoint, now 0⟩) <|
      if body.mcpEndpoint ≠ [] then .registerAgent env.agent (mcpAgentOf env.agent body (now 1)) fun _ => reply
      else reply

/-- `handleRevoke` -/
def handleRevoke (env : GenericEnvelope) : Proc :=
  match unmarshalBody RevokeIn.decode .zero env with
  | none => .done (httpError (ascii "Invalid body") 400)
  | some body =>
    .lockAgents (·.delete body.target)
      (.respond (jsonReply [strEntry "status" (ascii "revoked"), strEntry "target" body.target]))

/-- `handleDiscoverTools` -/
def handleDiscoverTools (env : GenericEnvelope) : Proc :=
  match getBodyAs DiscoverToolsBody.decode .zero env with
  | none => .done (httpError (ascii "Invalid discovery request") 400)
  | some body => .discoverTools body.query fun
    | none => .respond (httpError (ascii "Discovery failed") 500)
    | some tools => .respond (jsonReply [strEntry "status" (ascii "success"), strEntry "requestId" body.requestID,
        (ascii "tools", encSlice DiscoveredTool.encode tools),
        (ascii "totalResults", some (.int (tools.getD []).length)), (ascii "hasMore", some (.bool false))])

/-- the agent `handleEmbodimentUpdate` re-registers: the snapshot with the update's embodiment, its heartbeat read
at `t` -/
def embodied (agent : MCPAgent) (body : EmbodimentUpdateBody) (t : Time) : MCPAgent :=
  { agent with
    environmentType := body.environmentType
    bodyDefinition := some body.bodyDefinition
    mcpEndpoint := body.mcpEndpoint
    tools := body.bodyDefinition.mcpTools
    lastHeartbeat := t }

/-- `handleEmbodimentUpdate`: a snapshot of the agent, changed, its heartbeat the clock's first reading, and
registered again, the registration's error dropped; an agent the registry does not hold is not looked at further -/
def handleEmbodimentUpdate (now : Nat → Time) (env : GenericEnvelope) : Proc :=
  match getBodyAs EmbodimentUpdateBody.decode .zero env with
  | none => .done (httpError (ascii "Invalid embodiment update") 400)
  | some body =>
    let reply := Proc.respond (jsonReply [strEntry "status" (ascii "updated"), strEntry "agent" env.agent])
    .getAgent env.agent fun
      | some agent => .registerAgent env.agent (embodied agent body (now 0)) fun _ => reply
      | none => reply

/-- the `switch` on the envelope's type; the handlers that read the clock get its readings -/
def dispatch (now : Nat → Time) (env : GenericEnvelope) : Proc :=
  if env.type = envelopeRegisterAgent then handleRegisterAgent now env
  else if env.type = envelopeRegisterBroker then handleRegisterBroker env
  else if env.type = envelopeEmitEvent then handleEmitEvent env
  else if env.type = envelopeRenderInstruction then handleRenderInstruction env
  else if env.type = envelopeToolCall then handleToolCall env
  else if env.type = envelopeToolResult then handleToolResult env
  else if env.type = envelopeRevoke then handleRevoke env
  else if env.type = envelopeDiscoverTools then handleDiscoverTools env
  else if env.type = envelopeEmbodimentUpdate then handleEmbodimentUpdate now env
  else .done (httpError (ascii "Unknown envelope type") 400)

/-- `ServeHTTP`; the health check writes no `Content-Type`, and `net/http` sniffs `OK` as plain text -/
def serveHTTP (r : Request) : Proc :=
  if r.path = ascii "/health" ∧ r.method = ascii "GET" then
    .done ⟨200, ascii "text/plain; charset=utf-8", ascii "OK"⟩
  else if r.method ≠ ascii "POST" then .done (httpError (ascii "Method not allowed") 405)
  else
    match r.body with
    | none => .done (httpError (ascii "Failed to read body") 400)
    | some body =>
      match parseEnvelope body with
      | .error err => .done (httpError (ascii "Invalid envelope: " ++ r.parseErrorText err) 400)
      | .ok env => dispatch r.now env

/-- the broker handling one request with no other in flight -/
def Broker.serve (E : Env) (b : Broker) (r : Request) : Broker × Response := (serveHTTP r).run E b

/-- requests handled one at a time, in order: the final state and the replies -/
def Broker.serveAll (E : Env) : Broker → List Request → Broker × List Response
  | b, [] => (b, [])
  | b, r :: rs => ((b.serve E r).1.serveAll E rs).map id ((b.serve E r).2 :: ·)

/-! ## What each handler does -/

section Handlers

variable (E : Env) (b : Broker) (now : Nat → Time) (env : GenericEnvelope)

theorem acknowledge_readOnly {β : Type} (dec : Decoder β) (zero : β) (reply : β → List (Bytes × Option Canon)) :
    (acknowledge dec zero reply env).ReadOnly := by
  unfold acknowledge; split <;> exact .done _

theorem handleDiscoverTools_readOnly : (handleDiscoverTools env).ReadOnly := by
  unfold handleDiscoverTools
  split
  · exact .done _
  · exact .discoverTools _ _ fun t => by rcases t with _ | _ <;> exact .respond _

theorem run_handleRegisterAgent {body : RegisterAgentBody}
    (h : getBodyAs RegisterAgentBody.decode .zero env = some body) :
    (handleRegisterAgent now env).run E b =
      (⟨b.agents.set env.agent ⟨env.agent, body.capabilities, body.mcpEndpoint, now 0⟩,
        if body.mcpEndpoint ≠ [] then
          (b.mcpRegistry.registerAgent E env.agent (mcpAgentOf env.agent body (now 1))).getD b.mcpRegistry
        else b.mcpRegistry⟩,
      jsonReply [strEntry "status" (ascii "registered"), strEntry "agent" env.agent]) := by
  simp only [handleRegisterAgent, h, Proc.run]
  split_ifs
  · simp only [Proc.run]
    split <;> rename_i hr <;> simp [hr]
  · rfl

theorem run_handleRevoke {body : RevokeIn} (h : unmarshalBody RevokeIn.decode .zero env = some body) :
    (handleRevoke env).run E b = (⟨b.agents.delete body.target, b.mcpRegistry⟩,
      jsonReply [strEntry "status" (ascii "revoked"), strEntry "target" body.target]) := by
  simp only [handleRevoke, h, Proc.run]

theorem run_handleEmbodimentUpdate {body : EmbodimentUpdateBody}
    (h : getBodyAs EmbodimentUpdateBody.decode .zero env = some body) :
    (handleEmbodimentUpdate now env).run E b =
      (⟨b.agents, match b.mcpRegistry.getAgent env.agent with
        | some agent => (b.mcpRegistry.registerAgent E env.agent (embodied agent body (now 0))).getD b.mcpRegistry
        | none => b.mcpRegistry⟩,
      jsonReply [strEntry "status" (ascii "updated"), strEntry "agent" env.agent]) := by
  simp only [handleEmbodimentUpdate, h, Proc.run]
  split <;> rename_i ha <;> simp only [ha, Proc.run]
  split <;> rename_i hr <;> simp [hr]

/-- the handler `dispatch` runs: the five handlers that only acknowledge share one body, and a type no handler takes
is answered at once -/
theorem dispatch_cases :
    (env.type = envelopeRegisterAgent ∧ dispatch now env = handleRegisterAgent now env) ∨
      (∃ (β : Type) (dec : Decoder β) (zero : β) (reply : β → List (Bytes × Option Canon)),
        dispatch now env = acknowledge dec zero reply env) ∨
      (env.type = envelopeRevoke ∧ dispatch now env = handleRevoke env) ∨
      dispatch now env = handleDiscoverTools env ∨
      (env.type = envelopeEmbodimentUpdate ∧ dispatch now env = handleEmbodimentUpdate now env) ∨
      ∃ r, dispatch now env = .done r := by
  unfold dispatch
  by_cases h1 : env.type = envelopeRegisterAgent
  · exact .inl ⟨h1, if_pos h1⟩
  rw [if_neg h1]
  by_cases h2 : env.type = envelopeRegisterBroker
  · exact .inr (.inl ⟨_, _, _, _, if_pos h2⟩)
  rw [if_neg h2]
  by_cases h3 : env.type = envelopeEmitEvent
  · exact .inr (.inl ⟨_, _, _, _, if_pos h3⟩)
  rw [if_neg h3]
  by_cases h4 : env.type = envelopeRenderInstruction
  · exact .inr (.inl ⟨_, _, _, _, if_pos h4⟩)
  rw [if_neg h4]
  by_cases h5 : env.type = envelopeToolCall
  · exact .inr (.inl ⟨_, _, _, _, if_pos h5⟩)
  rw [if_neg h5]
  by_cases h6 : env.type = envelopeToolResult
  · exact .inr (.inl ⟨_, _, _, _, if_pos h6⟩)
  rw [if_neg h6]
  by_cases h7 : env.type = envelopeRevoke
  · exact .inr (.inr (.inl ⟨h7, if_pos h7⟩))
  rw [if_neg h7]
  by_cases h8 : env.type = envelopeDiscoverTools
  · exact .inr (.inr (.inr (.inl (if_pos h8))))
  rw [if_neg h8]
  by_cases h9 : env.type = envelopeEmbodimentUpdate
  · exact .inr (.inr (.inr (.inr (.inl ⟨h9, if_pos h9⟩))))
  rw [if_neg h9]
  exact .inr (.inr (.inr (.inr (.inr ⟨_, rfl⟩))))

/-- no handler reads the envelope's `Sig` -/
theorem dispatch_sig (s : Bytes) : dispatch now { env with sig := s } = dispatch now env := rfl

end Handlers

/-! ## Which requests can change the broker's state -/

/-- an envelope of a type whose handler writes, with a body that handler decodes -/
def WritesEnv (env : GenericEnvelope) : Prop :=
  (env.type = envelopeRegisterAgent ∧ (getBodyAs RegisterAgentBody.decode .zero env).isSome) ∨
    (env.type = envelopeRevoke ∧ (unmarshalBody RevokeIn.decode .zero env).isSome) ∨
    (env.type = envelopeEmbodimentUpdate ∧ (getBodyAs EmbodimentUpdateBody.decode .zero env).isSome)

/-- a request that reaches a writing handler: a POST whose body is read and parses into such an envelope -/
def Writes (r : Request) : Prop :=
  r.method = ascii "POST" ∧ ∃ data env, r.body = some data ∧ parseEnvelope data = .ok env ∧ WritesEnv env

theorem dispatch_readOnly_or (now : Nat → Time) (env : GenericEnvelope) :
    (dispatch now env).ReadOnly ∨ WritesEnv env := by
  rcases dispatch_cases now env with ⟨ht, h⟩ | ⟨β, dec, zero, reply, h⟩ | ⟨ht, h⟩ | h | ⟨ht, h⟩ | ⟨r, h⟩ <;> rw [h]
  · cases hb : getBodyAs RegisterAgentBody.decode .zero env
    · left; simp only [handleRegisterAgent, hb]; exact .done _
    · exact .inr (.inl ⟨ht, by rw [hb]; rfl⟩)
  · exact .inl (acknowledge_readOnly ..)
  · cases hb : unmarshalBody RevokeIn.decode .zero env
    · left; simp only [handleRevoke, hb]; exact .done _
    · exact .inr (.inr (.inl ⟨ht, by rw [hb]; rfl⟩))
  · exact .inl (handleDiscoverTools_readOnly _)
  · cases hb : getBodyAs EmbodimentUpdateBody.decode .zero env
    · left; simp only [handleEmbodimentUpdate, hb]; exact .done _
    · exact .inr (.inr (.inr ⟨ht, by rw [hb]; rfl⟩))
  · exact .inl (.done _)

theorem serveHTTP_readOnly_or (r : Request) : (serveHTTP r).ReadOnly ∨ Writes r := by
  unfold serveHTTP Writes
  split_ifs with hh hp
  · exact .inl (.done _)
  · exact .inl (.done _)
  · split
    · exact .inl (.done _)
    · rename_i data hd
      split
      · exact .inl (.done _)
      · rename_i env he
        exact (dispatch_readOnly_or r.now env).imp id fun hw => ⟨not_not.1 hp, data, env, hd, he, hw⟩

theorem serve_unchanged_or_writes (E : Env) (b : Broker) (r : Request) : (b.serve E r).1 = b ∨ Writes r :=
  (serveHTTP_readOnly_or r).imp (fun h => h.run_fst E b) id

end FepFem.Server
