import FepFem.Server.Broker

/-
How the broker's two stores, `b.agents` and `b.mcpRegistry`, evolve over a run of requests handled one at a time.

The two stores are written by different handlers and never reconciled. `handleRevoke` deletes from `b.agents`
only; nothing ever deletes from the registry, so an agent once registered there stays, whatever follows
(`serveAll_mcp_isSome`). `handleRegisterAgent` replaces `b.agents[a]` and writes the registry only when the body
names an MCP endpoint and the registry accepts; its reply is `registered` either way. `handleEmbodimentUpdate`
answers `updated` whether or not it found the agent. No handler reads the envelope's `Sig`.

Results:
- `serveAll_mcp_isSome`: over every run, an agent the registry holds stays in it;
- `serveAll_agents_absent`: over every run without a `registerAgent` from `a`, `a` stays out of `b.agents`;
- `serve_registerAgent`, `serve_revoke`, `serve_embodimentUpdate`: a request of each writing type, handled whole;
- runs from `NewBroker()` where a revoked agent stays in the registry, a re-registration leaves the earlier MCP
  entry, an unsigned revoke removes another agent, and failed registry updates are answered as successes.
-/

namespace FepFem.Server

open FepFem.Json FepFem.Protocol

/-! ## Requests that reach a handler -/

section Serve

variable {E : Env} {b : Broker} {r : Request} {data : Bytes} {env : GenericEnvelope}

/-- a POST whose body parses reaches `dispatch` -/
theorem serve_of_parse (hm : r.method = ascii "POST") (hd : r.body = some data) (hp : parseEnvelope data = .ok env) :
    b.serve E r = (dispatch r.now env).run E b := by
  simp +decide only [Broker.serve, serveHTTP, hm, hd, hp, and_false, if_false, ne_eq, not_true_eq_false]

theorem dispatch_registerAgent {now : Nat → Time} (h : env.type = envelopeRegisterAgent) :
    dispatch now env = handleRegisterAgent now env := by
  simp only [dispatch, h, if_true]

theorem dispatch_revoke {now : Nat → Time} (h : env.type = envelopeRevoke) : dispatch now env = handleRevoke env := by
  simp +decide only [dispatch, h, if_false, if_true]

theorem dispatch_embodimentUpdate {now : Nat → Time} (h : env.type = envelopeEmbodimentUpdate) :
    dispatch now env = handleEmbodimentUpdate now env := by
  simp +decide only [dispatch, h, if_false, if_true]

/-- a request that carries an envelope of a given type to `dispatch` -/
def Carries (r : Request) (env : GenericEnvelope) : Prop :=
  r.method = ascii "POST" ∧ ∃ data, r.body = some data ∧ parseEnvelope data = .ok env

theorem serve_registerAgent {body : RegisterAgentBody} (hr : Carries r env) (ht : env.type = envelopeRegisterAgent)
    (hb : getBodyAs RegisterAgentBody.decode .zero env = some body) :
    b.serve E r =
      (⟨b.agents.set env.agent ⟨env.agent, body.capabilities, body.mcpEndpoint, r.now 0⟩,
        if body.mcpEndpoint ≠ [] then
          (b.mcpRegistry.registerAgent E env.agent (mcpAgentOf env.agent body (r.now 1))).getD b.mcpRegistry
        else b.mcpRegistry⟩,
      jsonReply [strEntry "status" (ascii "registered"), strEntry "agent" env.agent]) := by
  obtain ⟨hm, data, hd, hp⟩ := hr
  rw [serve_of_parse hm hd hp, dispatch_registerAgent ht, run_handleRegisterAgent E b r.now env hb]

theorem serve_revoke {body : RevokeIn} (hr : Carries r env) (ht : env.type = envelopeRevoke)
    (hb : unmarshalBody RevokeIn.decode .zero env = some body) :
    b.serve E r = (⟨b.agents.delete body.target, b.mcpRegistry⟩,
      jsonReply [strEntry "status" (ascii "revoked"), strEntry "target" body.target]) := by
  obtain ⟨hm, data, hd, hp⟩ := hr
  rw [serve_of_parse hm hd hp, dispatch_revoke ht, run_handleRevoke E b env hb]

theorem serve_embodimentUpdate {body : EmbodimentUpdateBody} (hr : Carries r env)
    (ht : env.type = envelopeEmbodimentUpdate) (hb : getBodyAs EmbodimentUpdateBody.decode .zero env = some body) :
    b.serve E r =
      (⟨b.agents, match b.mcpRegistry.getAgent env.agent with
        | some agent => (b.mcpRegistry.registerAgent E env.agent (embodied agent body (r.now 0))).getD b.mcpRegistry
        | none => b.mcpRegistry⟩,
      jsonReply [strEntry "status" (ascii "updated"), strEntry "agent" env.agent]) := by
  obtain ⟨hm, data, hd, hp⟩ := hr
  rw [serve_of_parse hm hd hp, dispatch_embodimentUpdate ht]
  exact run_handleEmbodimentUpdate E b r.now env hb

end Serve

/-! ## Sample requests -/

/-- a POST of an envelope's JSON text, handled with the clock reading zero, where `ParseEnvelope`'s errors print
as nothing -/
def post (data : Bytes) : Request := ⟨ascii "POST", ascii "/", some data, fun _ => Int64.zero, fun _ => []⟩

/-- `worker-1` registers, naming an MCP endpoint -/
def registerWithEndpoint : Request :=
  post (ascii ("\x7b\"type\":\"registerAgent\",\"agent\":\"worker-1\",\"ts\":0,\"nonce\":\"n1\"," ++
    "\"body\":\x7b\"pubkey\":\"k\",\"mcpEndpoint\":\"w1.local:7070\"\x7d\x7d"))

/-- `worker-1` registers without an MCP endpoint -/
def registerWithoutEndpoint : Request :=
  post (ascii ("\x7b\"type\":\"registerAgent\",\"agent\":\"worker-1\",\"ts\":1,\"nonce\":\"n2\"," ++
    "\"body\":\x7b\"pubkey\":\"k\"\x7d\x7d"))

/-- `worker-1` revokes itself -/
def revokeWorker : Request :=
  post (ascii ("\x7b\"type\":\"revoke\",\"agent\":\"worker-1\",\"ts\":2,\"nonce\":\"n3\"," ++
    "\"body\":\x7b\"target\":\"worker-1\"\x7d\x7d"))

/-- `mallory` revokes `worker-1`, with no signature -/
def revokeByMallory : Request :=
  post (ascii ("\x7b\"type\":\"revoke\",\"agent\":\"mallory\",\"ts\":2,\"nonce\":\"m1\"," ++
    "\"body\":\x7b\"target\":\"worker-1\"\x7d\x7d"))

/-- `worker-2`, which never registered, updates its embodiment -/
def updateUnregistered : Request :=
  post (ascii ("\x7b\"type\":\"embodimentUpdate\",\"agent\":\"worker-2\",\"ts\":3,\"nonce\":\"n4\"," ++
    "\"body\":\x7b\"environmentType\":\"sim\"\x7d\x7d"))

/-! ## The registry only grows -/

/-- no step removes an agent from the registry -/
theorem Proc.run_mcp_isSome (E : Env) (a : Bytes) :
    ∀ (p : Proc) (b : Broker), (b.mcpRegistry.get a).isSome → ((p.run E b).1.mcpRegistry.get a).isSome
  | .done _, _, h | .respond _, _, h => h
  | .lockAgents _ k, b, h => k.run_mcp_isSome E a _ h
  | .registerAgent id ag k, b, h => by
    simp only [Proc.run]
    split
    · rename_i r' hr
      refine (k true).run_mcp_isSome E a _ ?_
      rw [registerAgent_eq_some hr, GoMap.get_set]
      split_ifs <;> simp [h]
    · exact (k false).run_mcp_isSome E a _ h
  | .getAgent _ k, b, h => (k _).run_mcp_isSome E a _ h
  | .discoverTools _ k, b, h => (k _).run_mcp_isSome E a _ h

theorem serveAll_mcp_isSome (E : Env) (a : Bytes) :
    ∀ (rs : List Request) (b : Broker), (b.mcpRegistry.get a).isSome →
      ((b.serveAll E rs).1.mcpRegistry.get a).isSome
  | [], _, h => h
  | r :: rs, b, h => serveAll_mcp_isSome E a rs _ ((serveHTTP r).run_mcp_isSome E a b h)

set_option maxRecDepth 20000 in
/-- registered with an MCP endpoint, `worker-1` stays in the registry through a revoke and a re-registration -/
theorem serveAll_mcp_isSome_worker1 :
    ((newBroker.serve Env.spec registerWithEndpoint).1.mcpRegistry.get (ascii "worker-1")).isSome ∧
      (((newBroker.serve Env.spec registerWithEndpoint).1.serveAll Env.spec
        [revokeWorker, registerWithoutEndpoint]).1.mcpRegistry.get (ascii "worker-1")).isSome :=
  have h : ((newBroker.serve Env.spec registerWithEndpoint).1.mcpRegistry.get (ascii "worker-1")).isSome := rfl
  ⟨h, serveAll_mcp_isSome Env.spec _ _ _ h⟩

/-! ## Revocation lasts until the agent registers again -/

/-- a request that carries a `registerAgent` envelope from `a` -/
def Request.registersAs (r : Request) (a : Bytes) : Bool :=
  decide (r.method = ascii "POST") &&
    match r.body.map parseEnvelope with
    | some (.ok env) => decide (env.type = envelopeRegisterAgent) && decide (env.agent = a)
    | _ => false

theorem registersAs_of_carries {r : Request} {env : GenericEnvelope} (hr : Carries r env)
    (ht : env.type = envelopeRegisterAgent) : r.registersAs env.agent = true := by
  obtain ⟨hm, d, hd, hp⟩ := hr
  simp [Request.registersAs, hm, hd, hp, ht]

theorem serve_agents_absent (E : Env) (b : Broker) (r : Request) {a : Bytes} (hr : r.registersAs a = false)
    (ha : b.agents.get a = none) : (b.serve E r).1.agents.get a = none := by
  rcases serve_unchanged_or_writes E b r with h | ⟨hm, data, env, hd, hp, hw⟩
  · rw [h, ha]
  have hc : Carries r env := ⟨hm, data, hd, hp⟩
  rcases hw with ⟨ht, hb⟩ | ⟨ht, hb⟩ | ⟨ht, hb⟩
  · obtain ⟨body, hb⟩ := Option.isSome_iff_exists.1 hb
    have hne : env.agent ≠ a := fun he => by rw [← he, registersAs_of_carries hc ht] at hr; cases hr
    rw [serve_registerAgent hc ht hb, GoMap.get_set, if_neg hne, ha]
  · obtain ⟨body, hb⟩ := Option.isSome_iff_exists.1 hb
    rw [serve_revoke hc ht hb, GoMap.get_delete]
    split_ifs <;> simp [ha]
  · obtain ⟨body, hb⟩ := Option.isSome_iff_exists.1 hb
    rw [serve_embodimentUpdate hc ht hb, ha]

theorem serveAll_agents_absent (E : Env) {a : Bytes} :
    ∀ (rs : List Request) (b : Broker), (∀ r ∈ rs, r.registersAs a = false) → b.agents.get a = none →
      (b.serveAll E rs).1.agents.get a = none
  | [], _, _, h => h
  | r :: rs, b, hr, h =>
    serveAll_agents_absent E rs _ (fun r' h' => hr r' (List.mem_cons_of_mem _ h'))
      (serve_agents_absent E b r (hr r (List.mem_cons_self _ _)) h)

set_option maxRecDepth 20000 in
/-- `worker-2` never registers: a registration of `worker-1`, a revoke and an embodiment update from `worker-2` leave it
out of `b.agents` -/
theorem serveAll_agents_absent_worker2 :
    (∀ r ∈ [registerWithEndpoint, revokeByMallory, updateUnregistered], r.registersAs (ascii "worker-2") = false) ∧
      newBroker.agents.get (ascii "worker-2") = none ∧
      (newBroker.serveAll Env.spec [registerWithEndpoint, revokeByMallory, updateUnregistered]).1.agents.get
        (ascii "worker-2") = none :=
  have hr : ∀ r ∈ [registerWithEndpoint, revokeByMallory, updateUnregistered],
      r.registersAs (ascii "worker-2") = false := by decide
  ⟨hr, rfl, serveAll_agents_absent Env.spec _ _ hr rfl⟩

/-! ## Runs from `NewBroker()` -/

set_option maxRecDepth 20000 in
/-- `worker-1` registers with an MCP endpoint and is revoked: the revoke is answered `revoked`, the agent is gone from
`b.agents`, and the registry still holds it -/
theorem revoked_agent_stays_in_registry :
    (newBroker.serveAll Env.spec [registerWithEndpoint, revokeWorker]).2 =
        [jsonReply [strEntry "status" (ascii "registered"), strEntry "agent" (ascii "worker-1")],
          jsonReply [strEntry "status" (ascii "revoked"), strEntry "target" (ascii "worker-1")]] ∧
      (newBroker.serveAll Env.spec [registerWithEndpoint, revokeWorker]).1.agents.get (ascii "worker-1") = none ∧
      ((newBroker.serveAll Env.spec [registerWithEndpoint, revokeWorker]).1.mcpRegistry.get
        (ascii "worker-1")).isSome :=
  ⟨rfl, rfl, rfl⟩

/-! ## Re-registration -/

/-- a registration without an MCP endpoint leaves the registry as it was, an earlier entry of the agent included -/
theorem serve_registerAgent_mcp {E : Env} {b : Broker} {r : Request} {env : GenericEnvelope} {body : RegisterAgentBody}
    (hr : Carries r env) (ht : env.type = envelopeRegisterAgent)
    (hb : getBodyAs RegisterAgentBody.decode .zero env = some body) (he : body.mcpEndpoint = []) :
    (b.serve E r).1.mcpRegistry = b.mcpRegistry := by
  rw [serve_registerAgent hr ht hb, he]; rfl

set_option maxRecDepth 20000 in
/-- `worker-1` registers with an MCP endpoint, then again without one: both are answered `registered`, and the
registry still holds the first registration's endpoint -/
theorem reregistration_keeps_old_endpoint :
    (newBroker.serveAll Env.spec [registerWithEndpoint, registerWithoutEndpoint]).2 =
        [jsonReply [strEntry "status" (ascii "registered"), strEntry "agent" (ascii "worker-1")],
          jsonReply [strEntry "status" (ascii "registered"), strEntry "agent" (ascii "worker-1")]] ∧
      ((newBroker.serveAll Env.spec [registerWithEndpoint, registerWithoutEndpoint]).1.mcpRegistry.get
        (ascii "worker-1")).map (·.mcpEndpoint) = some (ascii "w1.local:7070") :=
  ⟨rfl, rfl⟩

/-! ## Authentication -/

set_option maxRecDepth 20000 in
/-- `worker-1` registers; `mallory` then sends a revoke of `worker-1` with no signature, which removes it -/
theorem unsigned_revoke_removes_agent :
    ((newBroker.serveAll Env.spec [registerWithoutEndpoint]).1.agents.get (ascii "worker-1")).isSome ∧
      (newBroker.serveAll Env.spec [registerWithoutEndpoint, revokeByMallory]).2.getLast? =
        some (jsonReply [strEntry "status" (ascii "revoked"), strEntry "target" (ascii "worker-1")]) ∧
      (newBroker.serveAll Env.spec [registerWithoutEndpoint, revokeByMallory]).1.agents.get (ascii "worker-1") =
        none :=
  ⟨rfl, rfl, rfl⟩

/-! ## Failed registry updates -/

theorem serve_registerAgent_rejected {E : Env} {b : Broker} {r : Request} {env : GenericEnvelope}
    {body : RegisterAgentBody} (hr : Carries r env) (ht : env.type = envelopeRegisterAgent)
    (hb : getBodyAs RegisterAgentBody.decode .zero env = some body)
    (hx : E.accept b.mcpRegistry env.agent (mcpAgentOf env.agent body (r.now 1)) = false) :
    b.serve E r = (⟨b.agents.set env.agent ⟨env.agent, body.capabilities, body.mcpEndpoint, r.now 0⟩, b.mcpRegistry⟩,
      jsonReply [strEntry "status" (ascii "registered"), strEntry "agent" env.agent]) := by
  rw [serve_registerAgent hr ht hb]
  split_ifs <;> simp [Registry.registerAgent, hx]

theorem serve_embodimentUpdate_absent {E : Env} {b : Broker} {r : Request} {env : GenericEnvelope}
    {body : EmbodimentUpdateBody} (hr : Carries r env) (ht : env.type = envelopeEmbodimentUpdate)
    (hb : getBodyAs EmbodimentUpdateBody.decode .zero env = some body) (ha : b.mcpRegistry.get env.agent = none) :
    b.serve E r = (b, jsonReply [strEntry "status" (ascii "updated"), strEntry "agent" env.agent]) := by
  rw [serve_embodimentUpdate hr ht hb]
  simp only [Registry.getAgent, ha]

/-- a registry that refuses every registration -/
def Env.refusing : Env := ⟨fun _ _ _ => false, discoverSpec⟩

set_option maxRecDepth 20000 in
/-- on a registry that refuses it, a registration with an MCP endpoint is answered `registered` and has stored the
agent in `b.agents` only; an embodiment update of an agent the registry does not hold is answered `updated` -/
theorem failed_updates_answered_as_success :
    (newBroker.serve Env.refusing registerWithEndpoint).2 =
        jsonReply [strEntry "status" (ascii "registered"), strEntry "agent" (ascii "worker-1")] ∧
      ((newBroker.serve Env.refusing registerWithEndpoint).1.agents.get (ascii "worker-1")).isSome ∧
      (newBroker.serve Env.refusing registerWithEndpoint).1.mcpRegistry.get (ascii "worker-1") = none ∧
      (newBroker.serve Env.spec updateUnregistered).2 =
        jsonReply [strEntry "status" (ascii "updated"), strEntry "agent" (ascii "worker-2")] :=
  ⟨rfl, rfl, rfl, rfl⟩

end FepFem.Server
