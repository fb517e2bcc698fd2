import FepFem.Server.Invariants

/-
Where the registry's entries come from: every agent the MCP registry holds was there at the start, or was written
there by one of the requests, from what that request carried.

`handleRegisterAgent` registers the agent its body describes (`mcpAgentOf`) under the envelope's agent, when the body
names an endpoint, its heartbeat the request's second clock reading; `handleEmbodimentUpdate` registers again, under
the envelope's agent, the agent it read with every field but the id taken from the update's body and its heartbeat
the request's first clock reading (`embodied`). No other handler writes the registry. Every request of a
run therefore keeps each entry accounted for (`Broker.RegistryFrom`), and so does every interleaving.

Results:
- `interleave_registry_written`: along every interleaving of any requests, whatever the registry does, every agent
  the registry holds under `a` was held under `a` at the start, or was written under `a` by a request of the run
  whose envelope names `a` (`Request.WritesAgent`): a registration, as its body describes the agent, or an embodiment
  update, with every field but the id from its body; the heartbeat is a clock reading of that request.
-/

namespace FepFem.Server

open FepFem.Json FepFem.Protocol

/-- `x` is what `r` may write to the registry under `a`: `r` carries an envelope from `a` that registers the agent
its body describes, naming an endpoint, or that updates an agent's embodiment, every field of `x` but the id from
the update's body; the heartbeat is read from `r`'s clock -/
def Request.WritesAgent (r : Request) (a : Bytes) (x : MCPAgent) : Prop :=
  ∃ env, Carries r env ∧ env.agent = a ∧
    ((env.type = envelopeRegisterAgent ∧ ∃ body, getBodyAs RegisterAgentBody.decode .zero env = some body ∧
        body.mcpEndpoint ≠ [] ∧ x = mcpAgentOf a body (r.now 1)) ∨
      (env.type = envelopeEmbodimentUpdate ∧
        ∃ body y, getBodyAs EmbodimentUpdateBody.decode .zero env = some body ∧ x = embodied y body (r.now 0)))

/-- every agent the registry holds was held under the same id in `b₀`, or was written there by a request of `rs` -/
def Broker.RegistryFrom (b₀ : Broker) (rs : List Request) (b : Broker) : Prop :=
  ∀ a x, b.mcpRegistry.get a = some x → b₀.mcpRegistry.get a = some x ∨ ∃ r ∈ rs, r.WritesAgent a x

section Provenance

variable {E : Env} {b₀ : Broker} {rs : List Request}

/-- registering what a request of `rs` may write keeps every entry accounted for -/
theorem registryFrom_registerAgent {b : Broker} {reg : Registry} {a : Bytes} {x : MCPAgent} {r : Request}
    (hr : r ∈ rs) (hx : r.WritesAgent a x) (hb : Broker.RegistryFrom b₀ rs b)
    (h : b.mcpRegistry.registerAgent E a x = some reg) : Broker.RegistryFrom b₀ rs { b with mcpRegistry := reg } := by
  intro a' y hy
  simp only [registerAgent_eq_some h, GoMap.get_set] at hy
  split_ifs at hy with ha
  · cases hy
    exact .inr ⟨r, hr, ha ▸ hx⟩
  · exact hb a' y hy

theorem handleRegisterAgent_registryFrom {r : Request} {env : GenericEnvelope} (hr : r ∈ rs) (hc : Carries r env)
    (ht : env.type = envelopeRegisterAgent) :
    (handleRegisterAgent r.now env).Keeps E (Broker.RegistryFrom b₀ rs) := by
  unfold handleRegisterAgent
  split
  · trivial
  · rename_i body hbody
    refine ⟨fun _ hb => hb, ?_⟩
    split_ifs with he
    · exact ⟨fun _ _ hb h =>
        registryFrom_registerAgent hr ⟨env, hc, rfl, .inl ⟨ht, body, hbody, he, rfl⟩⟩ hb h, fun _ => trivial⟩
    · trivial

theorem handleRevoke_registryFrom (env : GenericEnvelope) :
    (handleRevoke env).Keeps E (Broker.RegistryFrom b₀ rs) := by
  unfold handleRevoke
  split
  · trivial
  · exact ⟨fun _ hb => hb, trivial⟩

theorem handleEmbodimentUpdate_registryFrom {r : Request} {env : GenericEnvelope} (hr : r ∈ rs) (hc : Carries r env)
    (ht : env.type = envelopeEmbodimentUpdate) :
    (handleEmbodimentUpdate r.now env).Keeps E (Broker.RegistryFrom b₀ rs) := by
  unfold handleEmbodimentUpdate
  split
  · trivial
  · rename_i body hbody
    intro b _
    cases b.mcpRegistry.getAgent env.agent with
    | none => trivial
    | some agent =>
      exact ⟨fun _ _ hb h =>
        registryFrom_registerAgent hr ⟨env, hc, rfl, .inr ⟨ht, body, agent, hbody, rfl⟩⟩ hb h,
        fun _ => trivial⟩

/-- every request of `rs` keeps the registry's entries accounted for -/
theorem serveHTTP_registryFrom {r : Request} (hr : r ∈ rs) : (serveHTTP r).Keeps E (Broker.RegistryFrom b₀ rs) :=
  serveHTTP_of_dispatch _ (fun _ => trivial) r fun data env hm hd hp =>
    have hc : Carries r env := ⟨hm, data, hd, hp⟩
    dispatch_of_handlers _ (fun _ => trivial) r.now env (handleRegisterAgent_registryFrom hr hc)
      (fun _ => handleRevoke_registryFrom env) (handleDiscoverTools_readOnly env).keeps
      (handleEmbodimentUpdate_registryFrom hr hc)

end Provenance

/-- along every interleaving of any requests, whatever the registry does, every agent the registry holds under `a`
was held under `a` at the start, or was written under `a` by a registration or an embodiment update of the run whose
envelope names `a`, from that request's body -/
theorem interleave_registry_written (E : Env) (b : Broker) (rs : List Request) (sched : List Nat) :
    ∀ a x, ((Config.mk b (rs.map serveHTTP)).interleave E sched).broker.mcpRegistry.get a = some x →
      b.mcpRegistry.get a = some x ∨ ∃ r ∈ rs, r.WritesAgent a x :=
  (Config.Keeps.interleave (J := Broker.RegistryFrom b rs) sched
    (Config.Keeps.requests (fun _ _ h => .inl h) fun _ hr => serveHTTP_registryFrom hr)).1

set_option maxRecDepth 20000 in
/-- `worker-1` registering while `mallory` revokes it: the agent the registry ends with under `worker-1` was written
by the registration -/
theorem interleave_registry_written_worker1 :
    ∃ x, ((Config.mk newBroker ([registerWithEndpoint, revokeByMallory].map serveHTTP)).interleave Env.spec
        [0, 1, 0]).broker.mcpRegistry.get (ascii "worker-1") = some x ∧
      (newBroker.mcpRegistry.get (ascii "worker-1") = some x ∨
        ∃ r ∈ [registerWithEndpoint, revokeByMallory], r.WritesAgent (ascii "worker-1") x) :=
  ⟨_, rfl, interleave_registry_written Env.spec newBroker _ [0, 1, 0] _ _ rfl⟩

end FepFem.Server
