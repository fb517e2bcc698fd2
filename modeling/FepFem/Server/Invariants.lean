import FepFem.Server.Concurrency

/-
What every interleaving of the broker's handlers keeps, and how long a request waits for its reply.

A program keeps a store invariant `J` (`Proc.Keeps`) when each write it can make takes a state satisfying `J` to one
that does, and whatever a read answers in such a state, the rest of the program keeps `J`. One step of such a
program from a state satisfying `J` leads to such a state and to a program that still keeps `J` (`Proc.Keeps.step`),
so a configuration whose broker satisfies `J` and whose requests all keep it stays so along every schedule
(`Config.Keeps.interleave`). Each invariant below is then a matter of the three handlers that write; the others, and
the answers `ServeHTTP` gives before `dispatch`, take no writing step (`serveHTTP_of_dispatch`).

A program has taken its last step on shared state within `n` of its own steps, and written its reply within `w`
more (`Proc.Within`), whatever the other requests do between them. Every handler makes at most two moves on shared
state, each one critical section under `b.mu` or one call into the registry, and writes its reply at the next. So
a schedule that moves each request twice leaves none with a write to make (`Config.interleave_settled`), and one
that moves each three times leaves each answered. A move is one the scheduler grants: a request waiting on `b.mu`
has not moved, and the bound is on a request's own moves, not on how long it waits for them.

Results:
- `interleave_mcp_isSome`: along every interleaving of any requests, an agent the registry holds stays in it;
- `interleave_absent`: along every interleaving of requests none of which registers `a`, `a` stays out of both
  stores, even while embodiment updates from `a` are in flight;
- `interleave_keyed`: every interleaving keeps each entry of both stores under its own agent's id;
- `interleave_registry_frame`: along every interleaving of requests none of which is from `a`, `a`'s registry entry
  stays as it was: a revoke only ever deletes from `b.agents`;
- `interleave_endpoints`: along every interleaving of requests none of which is an embodiment update naming no
  endpoint, every agent the registry holds names an MCP endpoint;
- `interleave_replied`: a schedule that moves each request three times leaves every request answered;
- `serve_failed_unchanged`: a request answered with an error leaves the broker as it was;
- `serve_serve`: with a registry that accepts every registration, a request served again right after itself, at any
  readings of the clock, leaves the broker as the replay alone does and gets the same answer.
-/

namespace FepFem.Server

open FepFem.Json FepFem.Protocol

/-! ## Invariants kept step by step -/

/-- each write the program can make keeps `J`, and after each read the rest of it keeps `J` whatever a state
satisfying `J` answers -/
def Proc.Keeps (E : Env) (J : Broker → Prop) : Proc → Prop
  | .done _ | .respond _ => True
  | .lockAgents f k => (∀ b, J b → J { b with agents := f b.agents }) ∧ k.Keeps E J
  | .registerAgent id a k =>
    (∀ b r, J b → b.mcpRegistry.registerAgent E id a = some r → J { b with mcpRegistry := r }) ∧
      ∀ ok, (k ok).Keeps E J
  | .getAgent id k => ∀ b, J b → (k (b.mcpRegistry.getAgent id)).Keeps E J
  | .discoverTools q k => ∀ b, J b → (k (E.discover b.mcpRegistry q)).Keeps E J

section Keeps

variable {E : Env} {J : Broker → Prop}

/-- one step of a program that keeps `J` -/
theorem Proc.Keeps.step {p p' : Proc} {b b' : Broker} (hp : p.Keeps E J) (hb : J b)
    (h : p.step E b = some (p', b')) : J b' ∧ p'.Keeps E J := by
  cases p with
  | done => cases h
  | respond => cases h; exact ⟨hb, trivial⟩
  | lockAgents f k => cases h; exact ⟨hp.1 b hb, hp.2⟩
  | registerAgent id a k =>
    simp only [Proc.step, Option.some.injEq] at h
    split at h
    · rename_i r hr
      cases h; exact ⟨hp.1 b r hb hr, hp.2 true⟩
    · cases h; exact ⟨hb, hp.2 false⟩
  | getAgent id k => cases h; exact ⟨hb, hp b hb⟩
  | discoverTools q k => cases h; exact ⟨hb, hp b hb⟩

theorem Proc.ReadOnly.keeps {p : Proc} (h : p.ReadOnly) : p.Keeps E J := by
  induction h with
  | done | respond => trivial
  | getAgent _ _ _ ih => exact fun _ _ => ih _
  | discoverTools _ _ _ ih => exact fun _ _ => ih _

/-- the broker satisfies `J` and every request in flight keeps it -/
def Config.Keeps (E : Env) (J : Broker → Prop) (c : Config) : Prop := J c.broker ∧ ∀ p ∈ c.threads, p.Keeps E J

theorem Config.Keeps.stepAt {c : Config} (h : c.Keeps E J) (i : Nat) : (c.stepAt E i).Keeps E J := by
  unfold Config.stepAt
  cases hp : c.threads[i]? with
  | none => exact h
  | some p =>
    dsimp only
    cases hs : p.step E c.broker with
    | none => exact h
    | some s =>
      obtain ⟨p', b'⟩ := s
      obtain ⟨hb, hk⟩ := (h.2 p (List.getElem?_mem hp)).step h.1 hs
      refine ⟨hb, fun q hq => ?_⟩
      rcases List.mem_or_eq_of_mem_set hq with hq | rfl
      · exact h.2 q hq
      · exact hk

/-- requests whose handlers keep `J`, on a broker satisfying it -/
theorem Config.Keeps.requests {b : Broker} {rs : List Request} (hb : J b) (hr : ∀ r ∈ rs, (serveHTTP r).Keeps E J) :
    (Config.mk b (rs.map serveHTTP)).Keeps E J :=
  ⟨hb, fun _ hp => by
    obtain ⟨r, hr', rfl⟩ := List.mem_map.1 hp
    exact hr r hr'⟩

/-- the run lemma: every schedule keeps the invariant -/
theorem Config.Keeps.interleave : ∀ (sched : List Nat) {c : Config}, c.Keeps E J → (c.interleave E sched).Keeps E J
  | [], _, h => h
  | i :: is, _, h => Config.Keeps.interleave is (h.stepAt i)

end Keeps

/-! ## Properties of every request's program -/

/-- `acknowledge` answers at once -/
theorem acknowledge_done {β : Type} (dec : Decoder β) (zero : β) (reply : β → List (Bytes × Option Canon))
    (env : GenericEnvelope) : ∃ resp, acknowledge dec zero reply env = .done resp := by
  unfold acknowledge; split <;> exact ⟨_, rfl⟩

/-- a property of programs that every reply has holds of `dispatch` once it holds of the three writing handlers and
of `handleDiscoverTools` -/
theorem dispatch_of_handlers (P : Proc → Prop) (hd : ∀ resp, P (.done resp)) (now : Nat → Time)
    (env : GenericEnvelope) (hreg : env.type = envelopeRegisterAgent → P (handleRegisterAgent now env))
    (hrev : env.type = envelopeRevoke → P (handleRevoke env)) (hdis : P (handleDiscoverTools env))
    (hemb : env.type = envelopeEmbodimentUpdate → P (handleEmbodimentUpdate now env)) : P (dispatch now env) := by
  rcases dispatch_cases now env with ⟨ht, h⟩ | ⟨β, dec, zero, reply, h⟩ | ⟨ht, h⟩ | h | ⟨ht, h⟩ | ⟨r, h⟩ <;> rw [h]
  · exact hreg ht
  · obtain ⟨resp, hr⟩ := acknowledge_done dec zero reply env
    rw [hr]; exact hd resp
  · exact hrev ht
  · exact hdis
  · exact hemb ht
  · exact hd r

/-- ... and of `ServeHTTP` once it holds of `dispatch` on every envelope a POST carries -/
theorem serveHTTP_of_dispatch (P : Proc → Prop) (hd : ∀ resp, P (.done resp)) (r : Request)
    (h : ∀ data env, r.method = ascii "POST" → r.body = some data → parseEnvelope data = .ok env →
      P (dispatch r.now env)) :
    P (serveHTTP r) := by
  unfold serveHTTP
  split_ifs with hh hp
  · exact hd _
  · exact hd _
  · cases hb : r.body with
    | none => exact hd _
    | some data =>
      dsimp only
      cases he : parseEnvelope data with
      | error e => exact hd _
      | ok env => exact h data env (not_not.1 hp) hb he

/-! ## The registry only grows, whatever the interleaving -/

/-- no step of any program removes an agent from the registry -/
theorem Proc.keeps_mcp_isSome (E : Env) (a : Bytes) : ∀ p : Proc, p.Keeps E fun b => (b.mcpRegistry.get a).isSome
  | .done _ | .respond _ => trivial
  | .lockAgents _ k => ⟨fun _ h => h, k.keeps_mcp_isSome E a⟩
  | .registerAgent _ _ k =>
    ⟨fun _ _ h hr => by
      simp only [registerAgent_eq_some hr, GoMap.get_set]
      split_ifs <;> simp [h], fun ok => (k ok).keeps_mcp_isSome E a⟩
  | .getAgent _ k => fun _ _ => (k _).keeps_mcp_isSome E a
  | .discoverTools _ k => fun _ _ => (k _).keeps_mcp_isSome E a

/-- along every interleaving of any requests, an agent the registry holds stays in it -/
theorem interleave_mcp_isSome (E : Env) (b : Broker) (rs : List Request) (sched : List Nat) (a : Bytes)
    (h : (b.mcpRegistry.get a).isSome) :
    (((Config.mk b (rs.map serveHTTP)).interleave E sched).broker.mcpRegistry.get a).isSome :=
  (Config.Keeps.interleave sched ⟨h, fun p _ => p.keeps_mcp_isSome E a⟩).1

set_option maxRecDepth 20000 in
/-- registered with an MCP endpoint, `worker-1` stays in the registry while its revoke and its re-registration with
another endpoint interleave -/
theorem interleave_mcp_isSome_worker1 :
    ((newBroker.serve Env.spec registerWithEndpoint).1.mcpRegistry.get (ascii "worker-1")).isSome ∧
      (((Config.mk (newBroker.serve Env.spec registerWithEndpoint).1
          ([revokeWorker, registerE2].map serveHTTP)).interleave Env.spec [1, 0, 1]).broker.mcpRegistry.get
        (ascii "worker-1")).isSome :=
  have h : ((newBroker.serve Env.spec registerWithEndpoint).1.mcpRegistry.get (ascii "worker-1")).isSome := rfl
  ⟨h, interleave_mcp_isSome Env.spec _ _ _ _ h⟩

/-! ## An agent enters the stores only by registering -/

/-- `a` is in neither store -/
def Broker.Absent (a : Bytes) (b : Broker) : Prop := b.agents.get a = none ∧ b.mcpRegistry.get a = none

section Absent

variable {E : Env} {a : Bytes} {now : Nat → Time}

theorem handleRegisterAgent_absent {env : GenericEnvelope} (hne : env.agent ≠ a) :
    (handleRegisterAgent now env).Keeps E (Broker.Absent a) := by
  unfold handleRegisterAgent
  split
  · trivial
  · refine ⟨fun b hb => ⟨by simp only [GoMap.get_set, if_neg hne, hb.1], hb.2⟩, ?_⟩
    split_ifs
    · refine ⟨fun b r hb hr => ⟨hb.1, ?_⟩, fun _ => trivial⟩
      simp only [registerAgent_eq_some hr, GoMap.get_set, if_neg hne, hb.2]
    · trivial

theorem handleRevoke_absent (env : GenericEnvelope) : (handleRevoke env).Keeps E (Broker.Absent a) := by
  unfold handleRevoke
  split
  · trivial
  · refine ⟨fun b hb => ⟨?_, hb.2⟩, trivial⟩
    simp only [GoMap.get_delete]
    split_ifs <;> simp only [hb.1]

/-- an update from `a` finds nothing to update; one from another agent writes only that agent's entry -/
theorem handleEmbodimentUpdate_absent (env : GenericEnvelope) :
    (handleEmbodimentUpdate now env).Keeps E (Broker.Absent a) := by
  unfold handleEmbodimentUpdate
  split
  · trivial
  · intro b hb
    cases hg : b.mcpRegistry.getAgent env.agent with
    | none => trivial
    | some agent =>
      have he : env.agent ≠ a := fun he => by simp only [Registry.getAgent, he, hb.2] at hg; cases hg
      refine ⟨fun b r hb hr => ⟨hb.1, ?_⟩, fun _ => trivial⟩
      simp only [registerAgent_eq_some hr, GoMap.get_set, if_neg he, hb.2]

/-- a request that does not register `a` keeps `a` out of both stores -/
theorem serveHTTP_absent {r : Request} (hr : r.registersAs a = false) : (serveHTTP r).Keeps E (Broker.Absent a) := by
  refine serveHTTP_of_dispatch _ (fun _ => trivial) r fun data env hm hd hp => ?_
  refine dispatch_of_handlers _ (fun _ => trivial) r.now env (fun ht => handleRegisterAgent_absent fun he => ?_)
    (fun _ => handleRevoke_absent env) (handleDiscoverTools_readOnly env).keeps
    (fun _ => handleEmbodimentUpdate_absent env)
  simp [Request.registersAs, hm, hd, hp, ht, he] at hr

end Absent

/-- along every interleaving of requests none of which registers `a`, `a` stays out of `b.agents` and the registry -/
theorem interleave_absent (E : Env) (b : Broker) (rs : List Request) (sched : List Nat) (a : Bytes)
    (hrs : ∀ r ∈ rs, r.registersAs a = false) (ha : b.agents.get a = none ∧ b.mcpRegistry.get a = none) :
    ((Config.mk b (rs.map serveHTTP)).interleave E sched).broker.agents.get a = none ∧
      ((Config.mk b (rs.map serveHTTP)).interleave E sched).broker.mcpRegistry.get a = none :=
  (Config.Keeps.interleave (J := Broker.Absent a) sched
    (Config.Keeps.requests ha fun r hr => serveHTTP_absent (hrs r hr))).1

set_option maxRecDepth 20000 in
/-- `worker-2` never registers: a registration of `worker-1`, a revoke and an embodiment update from `worker-2`,
interleaved, leave it out of both stores -/
theorem interleave_absent_worker2 :
    (∀ r ∈ [registerWithEndpoint, revokeByMallory, updateUnregistered], r.registersAs (ascii "worker-2") = false) ∧
      (newBroker.agents.get (ascii "worker-2") = none ∧ newBroker.mcpRegistry.get (ascii "worker-2") = none) ∧
      ((Config.mk newBroker ([registerWithEndpoint, revokeByMallory, updateUnregistered].map serveHTTP)).interleave
          Env.spec [0, 2, 1, 0, 2]).broker.agents.get (ascii "worker-2") = none ∧
      ((Config.mk newBroker ([registerWithEndpoint, revokeByMallory, updateUnregistered].map serveHTTP)).interleave
          Env.spec [0, 2, 1, 0, 2]).broker.mcpRegistry.get (ascii "worker-2") = none :=
  have hr : ∀ r ∈ [registerWithEndpoint, revokeByMallory, updateUnregistered],
      r.registersAs (ascii "worker-2") = false := by decide
  have ha : newBroker.agents.get (ascii "worker-2") = none ∧ newBroker.mcpRegistry.get (ascii "worker-2") = none :=
    ⟨rfl, rfl⟩
  ⟨hr, ha, interleave_absent Env.spec newBroker _ _ _ hr ha⟩

/-! ## Entries are stored under their own id -/

/-- every binding of the map is under the id of the value it binds -/
def GoMap.Keyed {α : Type} (id : α → Bytes) (m : GoMap α) : Prop := ∀ a x, m.get a = some x → id x = a

theorem GoMap.Keyed.set {α : Type} {id : α → Bytes} {m : GoMap α} (hm : m.Keyed id) {k : Bytes} {v : α}
    (hv : id v = k) : (m.set k v).Keyed id := by
  intro a x h
  rw [GoMap.get_set] at h
  split_ifs at h with hk
  · cases h; exact hv.trans hk
  · exact hm a x h

theorem GoMap.Keyed.delete {α : Type} {id : α → Bytes} {m : GoMap α} (hm : m.Keyed id) (k : Bytes) :
    (m.delete k).Keyed id := by
  intro a x h
  rw [GoMap.get_delete] at h
  split_ifs at h
  exact hm a x h

/-- each store holds every agent under the agent's own id -/
structure Broker.Keyed (b : Broker) : Prop where
  agents : b.agents.Keyed Agent.id
  registry : b.mcpRegistry.Keyed MCPAgent.id

theorem Broker.Keyed.newBroker : newBroker.Keyed := ⟨fun _ _ h => (by cases h), fun _ _ h => (by cases h)⟩

section Keyed

variable {E : Env} {now : Nat → Time}

theorem handleRegisterAgent_keyed (env : GenericEnvelope) : (handleRegisterAgent now env).Keeps E Broker.Keyed := by
  unfold handleRegisterAgent
  split
  · trivial
  · refine ⟨fun b hb => ⟨hb.agents.set rfl, hb.registry⟩, ?_⟩
    split_ifs
    · refine ⟨fun b r hb hr => ⟨hb.agents, ?_⟩, fun _ => trivial⟩
      rw [registerAgent_eq_some hr]
      exact hb.registry.set rfl
    · trivial

theorem handleRevoke_keyed (env : GenericEnvelope) : (handleRevoke env).Keeps E Broker.Keyed := by
  unfold handleRevoke
  split
  · trivial
  · exact ⟨fun b hb => ⟨hb.agents.delete _, hb.registry⟩, trivial⟩

/-- the agent an update re-registers is the snapshot it read, which a keyed registry holds under its own id -/
theorem handleEmbodimentUpdate_keyed (env : GenericEnvelope) :
    (handleEmbodimentUpdate now env).Keeps E Broker.Keyed := by
  unfold handleEmbodimentUpdate
  split
  · trivial
  · intro b hb
    cases hg : b.mcpRegistry.getAgent env.agent with
    | none => trivial
    | some agent =>
      refine ⟨fun b' r hb' hr => ⟨hb'.agents, ?_⟩, fun _ => trivial⟩
      rw [registerAgent_eq_some hr]
      exact hb'.registry.set (hb.registry _ agent hg)

theorem serveHTTP_keyed (r : Request) : (serveHTTP r).Keeps E Broker.Keyed :=
  serveHTTP_of_dispatch _ (fun _ => trivial) r fun _ env _ _ _ =>
    dispatch_of_handlers _ (fun _ => trivial) r.now env (fun _ => handleRegisterAgent_keyed env)
      (fun _ => handleRevoke_keyed env) (handleDiscoverTools_readOnly env).keeps
      (fun _ => handleEmbodimentUpdate_keyed env)

end Keyed

/-- every interleaving of any requests keeps each entry of both stores under its own agent's id -/
theorem interleave_keyed (E : Env) (b : Broker) (rs : List Request) (sched : List Nat) (h : b.Keyed) :
    ((Config.mk b (rs.map serveHTTP)).interleave E sched).broker.Keyed :=
  (Config.Keeps.interleave sched (Config.Keeps.requests h fun r _ => serveHTTP_keyed r)).1

/-- two registrations of one agent, interleaved so that the stores end holding different endpoints, still hold it
under its own id -/
theorem interleave_keyed_registrations :
    newBroker.Keyed ∧
      ((Config.mk newBroker ([registerE1, registerE2].map serveHTTP)).interleave Env.spec [0, 1, 1, 0]).broker.Keyed :=
  ⟨.newBroker, interleave_keyed Env.spec newBroker _ _ .newBroker⟩


/-! ## Only an agent's own requests write its registry entry -/

/-- a request that carries an envelope from `a`, of any type -/
def Request.sentBy (r : Request) (a : Bytes) : Bool :=
  decide (r.method = ascii "POST") &&
    match r.body.map parseEnvelope with
    | some (.ok env) => decide (env.agent = a)
    | _ => false

/-- the registry's entry for `a` is `v` -/
def Broker.RegistryAt (a : Bytes) (v : Option MCPAgent) (b : Broker) : Prop := b.mcpRegistry.get a = v

section Frame

variable {E : Env} {a : Bytes} {v : Option MCPAgent} {now : Nat → Time}

theorem registryAt_registerAgent {b : Broker} {r : Registry} {id : Bytes} {m : MCPAgent} (hne : id ≠ a)
    (hb : b.RegistryAt a v) (hr : b.mcpRegistry.registerAgent E id m = some r) :
    Broker.RegistryAt a v { b with mcpRegistry := r } := by
  simp only [Broker.RegistryAt, registerAgent_eq_some hr, GoMap.get_set, if_neg hne]
  exact hb

theorem handleRegisterAgent_frame {env : GenericEnvelope} (hne : env.agent ≠ a) :
    (handleRegisterAgent now env).Keeps E (Broker.RegistryAt a v) := by
  unfold handleRegisterAgent
  split
  · trivial
  · refine ⟨fun _ hb => hb, ?_⟩
    split_ifs
    · exact ⟨fun _ _ hb hr => registryAt_registerAgent hne hb hr, fun _ => trivial⟩
    · trivial

theorem handleRevoke_frame (env : GenericEnvelope) : (handleRevoke env).Keeps E (Broker.RegistryAt a v) := by
  unfold handleRevoke
  split
  · trivial
  · exact ⟨fun _ hb => hb, trivial⟩

theorem handleEmbodimentUpdate_frame {env : GenericEnvelope} (hne : env.agent ≠ a) :
    (handleEmbodimentUpdate now env).Keeps E (Broker.RegistryAt a v) := by
  unfold handleEmbodimentUpdate
  split
  · trivial
  · intro b _
    cases b.mcpRegistry.getAgent env.agent with
    | none => trivial
    | some agent => exact ⟨fun _ _ hb hr => registryAt_registerAgent hne hb hr, fun _ => trivial⟩

/-- a request that is not from `a` leaves `a`'s registry entry as it was -/
theorem serveHTTP_frame {r : Request} (hr : r.sentBy a = false) : (serveHTTP r).Keeps E (Broker.RegistryAt a v) := by
  refine serveHTTP_of_dispatch _ (fun _ => trivial) r fun data env hm hd hp => ?_
  have hne : env.agent ≠ a := fun he => by simp [Request.sentBy, hm, hd, hp, he] at hr
  exact dispatch_of_handlers _ (fun _ => trivial) r.now env (fun _ => handleRegisterAgent_frame hne)
    (fun _ => handleRevoke_frame env) (handleDiscoverTools_readOnly env).keeps
    (fun _ => handleEmbodimentUpdate_frame hne)

end Frame

/-- along every interleaving of requests none of which is from `a`, `a`'s registry entry stays as it was: no revoke,
whoever sends it, and no request from another agent touches it -/
theorem interleave_registry_frame (E : Env) (b : Broker) (rs : List Request) (sched : List Nat) (a : Bytes)
    (hrs : ∀ r ∈ rs, r.sentBy a = false) :
    ((Config.mk b (rs.map serveHTTP)).interleave E sched).broker.mcpRegistry.get a = b.mcpRegistry.get a :=
  (Config.Keeps.interleave (J := Broker.RegistryAt a (b.mcpRegistry.get a)) sched
    (Config.Keeps.requests rfl fun r hr => serveHTTP_frame (hrs r hr))).1

/-- `worker-2` registers, naming an MCP endpoint -/
def registerWorker2 : Request :=
  post (ascii ("\x7b\"type\":\"registerAgent\",\"agent\":\"worker-2\",\"ts\":0,\"nonce\":\"n6\"," ++
    "\"body\":\x7b\"pubkey\":\"k\",\"mcpEndpoint\":\"w2.local:7070\"\x7d\x7d"))

set_option maxRecDepth 20000 in
/-- with `worker-1` registered, `mallory` revoking it, `worker-2` registering and updating its embodiment, interleaved,
leave `worker-1`'s registry entry as it was -/
theorem interleave_registry_frame_worker1 :
    (∀ r ∈ [revokeByMallory, registerWorker2, updateUnregistered], r.sentBy (ascii "worker-1") = false) ∧
      ((Config.mk (newBroker.serve Env.spec registerWithEndpoint).1
          ([revokeByMallory, registerWorker2, updateUnregistered].map serveHTTP)).interleave Env.spec
          [1, 0, 2, 1, 2]).broker.mcpRegistry.get (ascii "worker-1") =
        (newBroker.serve Env.spec registerWithEndpoint).1.mcpRegistry.get (ascii "worker-1") :=
  have h : ∀ r ∈ [revokeByMallory, registerWorker2, updateUnregistered], r.sentBy (ascii "worker-1") = false := by
    decide
  ⟨h, interleave_registry_frame Env.spec _ _ _ _ h⟩

/-! ## Registered agents have an MCP endpoint -/

/-- every agent the registry holds names an MCP endpoint -/
def Broker.EndpointsSet (b : Broker) : Prop := ∀ a x, b.mcpRegistry.get a = some x → x.mcpEndpoint ≠ []

/-- a request carrying an embodiment update whose body names no MCP endpoint -/
def Request.clearsEndpoint (r : Request) : Bool :=
  decide (r.method = ascii "POST") &&
    match r.body.map parseEnvelope with
    | some (.ok env) => decide (env.type = envelopeEmbodimentUpdate) &&
        match getBodyAs EmbodimentUpdateBody.decode .zero env with
        | some body => decide (body.mcpEndpoint = [])
        | none => false
    | _ => false

section Endpoints

variable {E : Env} {now : Nat → Time}

theorem endpointsSet_registerAgent {b : Broker} {r : Registry} {id : Bytes} {x : MCPAgent} (hx : x.mcpEndpoint ≠ [])
    (hb : b.EndpointsSet) (hr : b.mcpRegistry.registerAgent E id x = some r) :
    Broker.EndpointsSet { b with mcpRegistry := r } := by
  intro a y hy
  simp only [registerAgent_eq_some hr, GoMap.get_set] at hy
  split_ifs at hy
  · cases hy; exact hx
  · exact hb a y hy

theorem handleRegisterAgent_endpoints (env : GenericEnvelope) :
    (handleRegisterAgent now env).Keeps E Broker.EndpointsSet := by
  unfold handleRegisterAgent
  split
  · trivial
  · refine ⟨fun _ hb => hb, ?_⟩
    split_ifs with he
    · exact ⟨fun _ _ hb hr => endpointsSet_registerAgent he hb hr, fun _ => trivial⟩
    · trivial

theorem handleRevoke_endpoints (env : GenericEnvelope) : (handleRevoke env).Keeps E Broker.EndpointsSet := by
  unfold handleRevoke
  split
  · trivial
  · exact ⟨fun _ hb => hb, trivial⟩

theorem handleEmbodimentUpdate_endpoints {env : GenericEnvelope}
    (h : ∀ body ∈ getBodyAs EmbodimentUpdateBody.decode .zero env, body.mcpEndpoint ≠ []) :
    (handleEmbodimentUpdate now env).Keeps E Broker.EndpointsSet := by
  unfold handleEmbodimentUpdate
  split
  · trivial
  · rename_i body hbody
    intro b _
    cases b.mcpRegistry.getAgent env.agent with
    | none => trivial
    | some agent => exact ⟨fun _ _ hb hr => endpointsSet_registerAgent (h body hbody) hb hr, fun _ => trivial⟩

/-- a request that is not an embodiment update without an endpoint leaves every registered agent with one -/
theorem serveHTTP_endpoints {r : Request} (hr : r.clearsEndpoint = false) :
    (serveHTTP r).Keeps E Broker.EndpointsSet := by
  refine serveHTTP_of_dispatch _ (fun _ => trivial) r fun data env hm hd hp => ?_
  refine dispatch_of_handlers _ (fun _ => trivial) r.now env (fun _ => handleRegisterAgent_endpoints env)
    (fun _ => handleRevoke_endpoints env) (handleDiscoverTools_readOnly env).keeps fun ht => ?_
  exact handleEmbodimentUpdate_endpoints fun body hbody he => by
    simp [Request.clearsEndpoint, hm, hd, hp, ht, Option.mem_def.1 hbody, he] at hr

end Endpoints

/-- along every interleaving of requests none of which is an embodiment update naming no endpoint, every agent the
registry holds keeps an MCP endpoint: `handleRegisterAgent` registers only agents that name one -/
theorem interleave_endpoints (E : Env) (b : Broker) (rs : List Request) (sched : List Nat)
    (hb : ∀ a x, b.mcpRegistry.get a = some x → x.mcpEndpoint ≠ []) (hrs : ∀ r ∈ rs, r.clearsEndpoint = false) :
    ∀ a x, ((Config.mk b (rs.map serveHTTP)).interleave E sched).broker.mcpRegistry.get a = some x →
      x.mcpEndpoint ≠ [] :=
  (Config.Keeps.interleave sched (Config.Keeps.requests hb fun r hr => serveHTTP_endpoints (hrs r hr))).1

set_option maxRecDepth 20000 in
/-- from `NewBroker()`, `worker-1` and `worker-2` registering while `mallory` revokes `worker-1` -/
theorem interleave_endpoints_registrations :
    (∀ a x, newBroker.mcpRegistry.get a = some x → x.mcpEndpoint ≠ []) ∧
      (∀ r ∈ [registerWithEndpoint, registerWorker2, revokeByMallory], r.clearsEndpoint = false) ∧
      ∀ a x, ((Config.mk newBroker ([registerWithEndpoint, registerWorker2, revokeByMallory].map serveHTTP)).interleave
          Env.spec [0, 1, 2, 0, 1]).broker.mcpRegistry.get a = some x → x.mcpEndpoint ≠ [] :=
  have hb : ∀ a x, newBroker.mcpRegistry.get a = some x → x.mcpEndpoint ≠ [] := fun _ _ h => by cases h
  have hrs : ∀ r ∈ [registerWithEndpoint, registerWorker2, revokeByMallory], r.clearsEndpoint = false := by decide
  ⟨hb, hrs, interleave_endpoints Env.spec newBroker _ _ hb hrs⟩

/-! ## Every handler answers within three moves -/

/-- the program has taken its last step on shared state after at most `n` of its own steps, and has `w` steps left
after it for its reply, whatever the state answers at each: `w = 0` counts the steps that fix the reply, `w = 1`
the step that writes it too -/
def Proc.Within (w : Nat) : Proc → Nat → Prop
  | .done _, _ => True
  | .respond _, n => w ≤ n
  | _, 0 => False
  | .lockAgents _ k, n + 1 => k.Within w n
  | .registerAgent _ _ k, n + 1 => ∀ ok, (k ok).Within w n
  | .getAgent _ k, n + 1 => ∀ x, (k x).Within w n
  | .discoverTools _ k, n + 1 => ∀ t, (k t).Within w n

theorem Proc.within_done (w : Nat) (r : Response) (n : Nat) : (Proc.done r).Within w n := by
  cases n <;> trivial

theorem Proc.within_respond {w n : Nat} (r : Response) (h : w ≤ n) : (Proc.respond r).Within w n := by
  cases n <;> exact h

theorem Proc.Within.settled_of_zero {p : Proc} (h : p.Within 0 0) : ∃ r, p.settle = .done r := by
  cases p with
  | done r | respond r => exact ⟨r, rfl⟩
  | _ => exact absurd h id

theorem Proc.Within.done_of_zero {p : Proc} (h : p.Within 1 0) : ∃ r, p = .done r := by
  cases p with
  | done r => exact ⟨r, rfl⟩
  | respond r => exact (Nat.not_succ_le_zero 0 h).elim
  | _ => exact absurd h id

/-- a program that takes a step has one step fewer to go -/
theorem Proc.Within.step {E : Env} {b b' : Broker} {p p' : Proc} {w n : Nat} (hp : p.Within w n)
    (h : p.step E b = some (p', b')) : p'.Within w (n - 1) := by
  cases p with
  | done => cases h
  | respond r => cases h; exact Proc.within_done w r _
  | _ =>
    cases n with
    | zero => exact absurd hp id
    | succ n =>
      first
        | (cases h; exact hp)
        | (cases h; exact hp _)
        | (simp only [Proc.step, Option.some.injEq] at h; split at h <;> cases h <;> exact hp _)

/-- a request that moves uses up one step of its budget; the others keep theirs -/
theorem Config.stepAt_within {E : Env} {c : Config} {w : Nat} {f : Nat → Nat}
    (h : ∀ (i : Nat) (p : Proc), c.threads[i]? = some p → p.Within w (f i)) (j : Nat) :
    ∀ (i : Nat) (p : Proc), (c.stepAt E j).threads[i]? = some p → p.Within w (if i = j then f i - 1 else f i) := by
  intro i p hp
  unfold Config.stepAt at hp
  cases hq : c.threads[j]? with
  | none =>
    rw [hq] at hp
    dsimp only at hp
    split_ifs with hij
    · subst hij; rw [hq] at hp; cases hp
    · exact h i p hp
  | some q =>
    rw [hq] at hp
    dsimp only at hp
    cases hs : q.step E c.broker with
    | none =>
      rw [hs] at hp
      dsimp only at hp
      split_ifs with hij
      · subst hij
        rw [hq] at hp
        cases hp
        obtain ⟨r, rfl⟩ := Proc.step_eq_none hs
        exact Proc.within_done w r _
      · exact h i p hp
    | some s =>
      obtain ⟨q', b'⟩ := s
      rw [hs] at hp
      dsimp only at hp
      by_cases hij : i = j
      · subst hij
        rw [List.getElem?_set_self', hq] at hp
        cases hp
        rw [if_pos rfl]
        exact (h i q hq).step hs
      · rw [List.getElem?_set_ne fun h => hij h.symm] at hp
        rw [if_neg hij]
        exact h i p hp

/-- the run lemma: along a schedule, each move of a request uses up one step of its budget -/
theorem Config.interleave_within (E : Env) (w : Nat) : ∀ (sched : List Nat) (c : Config) (f : Nat → Nat),
    (∀ (i : Nat) (p : Proc), c.threads[i]? = some p → p.Within w (f i)) →
    ∀ (i : Nat) (p : Proc), (c.interleave E sched).threads[i]? = some p → p.Within w (f i - sched.count i)
  | [], _, _, h => h
  | j :: js, c, f, h => fun i p hp => by
    have hw := Config.interleave_within E w js (c.stepAt E j) _ (Config.stepAt_within h j) i p hp
    have e : (if i = j then f i - 1 else f i) - js.count i = f i - (j :: js).count i := by
      by_cases hij : i = j
      · subst hij; rw [if_pos rfl, List.count_cons_self]; omega
      · rw [if_neg hij, List.count_cons_of_ne hij]
    exact e ▸ hw

section Within

variable (w : Nat) (now : Nat → Time) (env : GenericEnvelope)

theorem handleRegisterAgent_within : (handleRegisterAgent now env).Within w (w + 2) := by
  unfold handleRegisterAgent
  split
  · exact Proc.within_done _ _ _
  · show Proc.Within w (if _ then _ else _) (w + 1)
    split_ifs
    · exact fun _ => Proc.within_respond _ (le_refl w)
    · exact Nat.le_succ w

theorem handleRevoke_within : (handleRevoke env).Within w (w + 2) := by
  unfold handleRevoke
  split
  · exact Proc.within_done _ _ _
  · exact Nat.le_succ w

theorem handleDiscoverTools_within : (handleDiscoverTools env).Within w (w + 2) := by
  unfold handleDiscoverTools
  split
  · exact Proc.within_done _ _ _
  · intro t
    cases t <;> exact Nat.le_succ w

theorem handleEmbodimentUpdate_within : (handleEmbodimentUpdate now env).Within w (w + 2) := by
  unfold handleEmbodimentUpdate
  split
  · exact Proc.within_done _ _ _
  · intro x
    cases x with
    | none => exact Nat.le_succ w
    | some agent => exact fun _ => Proc.within_respond _ (le_refl w)

end Within

/-- every handler takes its last step on shared state within two of its own steps, and has `w` steps left after it
-/
theorem serveHTTP_within (w : Nat) (r : Request) : (serveHTTP r).Within w (w + 2) :=
  serveHTTP_of_dispatch (·.Within w (w + 2)) (fun _ => Proc.within_done _ _ _) r fun _ env _ _ _ =>
    dispatch_of_handlers (·.Within w (w + 2)) (fun _ => Proc.within_done _ _ _) r.now env
      (fun _ => handleRegisterAgent_within w r.now env) (fun _ => handleRevoke_within w env)
      (handleDiscoverTools_within w env) (fun _ => handleEmbodimentUpdate_within w r.now env)

/-- a schedule that moves each request `w + 2` times leaves none of them a step of its budget -/
theorem Config.interleave_within_zero {E : Env} {b : Broker} {rs : List Request} {sched : List Nat} (w : Nat)
    (hs : ∀ i < rs.length, w + 2 ≤ sched.count i) :
    ∀ p ∈ ((Config.mk b (rs.map serveHTTP)).interleave E sched).threads, p.Within w 0 := by
  intro p hp
  obtain ⟨i, hi⟩ := List.mem_iff_getElem?.1 hp
  have h0 : ∀ (i : Nat) (p : Proc), (rs.map serveHTTP)[i]? = some p →
      p.Within w (if i < rs.length then w + 2 else 0) := by
    intro i p h
    rw [List.getElem?_map, Option.map_eq_some'] at h
    obtain ⟨r, hr, rfl⟩ := h
    rw [if_pos (List.getElem?_eq_some_iff.1 hr).1]
    exact serveHTTP_within w r
  have hw := Config.interleave_within E w sched _ _ h0 i p hi
  have e : (if i < rs.length then w + 2 else 0) - sched.count i = 0 := by
    split_ifs with h
    · have := hs i h; omega
    · exact Nat.zero_sub _
  rwa [e] at hw

/-- every request has taken its last step on shared state once the schedule has moved it twice: it has replied, or
has only its reply left to write -/
theorem Config.interleave_settled {E : Env} {b : Broker} {rs : List Request} {sched : List Nat}
    (hs : ∀ i < rs.length, 2 ≤ sched.count i) :
    ∀ p ∈ ((Config.mk b (rs.map serveHTTP)).interleave E sched).threads, ∃ resp, p.settle = .done resp :=
  fun p hp => (Config.interleave_within_zero 0 (by simpa only [Nat.zero_add] using hs) p hp).settled_of_zero

/-- every request has written its reply once the schedule has moved it three times: each handler makes at most two
moves on shared state, each one critical section under `b.mu` or one call into the registry, and writes its reply
at the next; a move is one the scheduler grants, so a request waiting on `b.mu` has not moved -/
theorem interleave_replied (E : Env) (b : Broker) (rs : List Request) (sched : List Nat)
    (hs : ∀ i < rs.length, 3 ≤ sched.count i) :
    ∀ p ∈ ((Config.mk b (rs.map serveHTTP)).interleave E sched).threads, ∃ resp, p = .done resp :=
  fun p hp => (Config.interleave_within_zero (E := E) (b := b) 1 hs p hp).done_of_zero

/-- two registrations of `worker-1`, each moved three times, step by step: both have replied -/
theorem interleave_replied_registrations :
    (∀ i < [registerE1, registerE2].length, 3 ≤ [0, 1, 1, 0, 0, 1].count i) ∧
      ∀ p ∈ ((Config.mk newBroker ([registerE1, registerE2].map serveHTTP)).interleave Env.spec
        [0, 1, 1, 0, 0, 1]).threads, ∃ resp, p = .done resp :=
  ⟨by decide, interleave_replied Env.spec newBroker _ _ (by decide)⟩

/-! ## Failed requests -/

/-- a request answered with an error leaves the broker as it was: every handler decodes its body before it writes,
and answers every body it decodes with a success -/
theorem serve_failed_unchanged (E : Env) (b : Broker) (r : Request) (h : (b.serve E r).2.code ≠ 200) :
    (b.serve E r).1 = b := by
  refine serveHTTP_of_dispatch (fun p => (p.run E b).2.code ≠ 200 → (p.run E b).1 = b) (fun _ _ => rfl) r
    (fun _ env _ _ _ => ?_) h
  refine dispatch_of_handlers (fun p => (p.run E b).2.code ≠ 200 → (p.run E b).1 = b) (fun _ _ => rfl) r.now env
    (fun _ => ?_) (fun _ => ?_) (fun _ => (handleDiscoverTools_readOnly env).run_fst E b) (fun _ => ?_)
  · cases hb : getBodyAs RegisterAgentBody.decode .zero env with
    | none => simp only [handleRegisterAgent, hb]; exact fun _ => rfl
    | some body => rw [run_handleRegisterAgent E b r.now env hb]; exact fun h => absurd rfl h
  · cases hb : unmarshalBody RevokeIn.decode .zero env with
    | none => simp only [handleRevoke, hb]; exact fun _ => rfl
    | some body => rw [run_handleRevoke E b env hb]; exact fun h => absurd rfl h
  · cases hb : getBodyAs EmbodimentUpdateBody.decode .zero env with
    | none => simp only [handleEmbodimentUpdate, hb]; exact fun _ => rfl
    | some body => rw [run_handleEmbodimentUpdate E b r.now env hb]; exact fun h => absurd rfl h

/-- a registration whose body is not an object -/
def registerBadBody : Request :=
  post (ascii "\x7b\"type\":\"registerAgent\",\"agent\":\"worker-1\",\"ts\":4,\"nonce\":\"n5\",\"body\":[1]\x7d")

set_option maxRecDepth 20000 in
/-- a registration of `worker-1` whose body does not decode is refused and leaves its earlier registration as it was -/
theorem serve_failed_unchanged_badBody :
    ((newBroker.serve Env.spec registerWithEndpoint).1.serve Env.spec registerBadBody).2.code ≠ 200 ∧
      ((newBroker.serve Env.spec registerWithEndpoint).1.serve Env.spec registerBadBody).1 =
        (newBroker.serve Env.spec registerWithEndpoint).1 :=
  have h : ((newBroker.serve Env.spec registerWithEndpoint).1.serve Env.spec registerBadBody).2.code ≠ 200 := by
    decide
  ⟨h, serve_failed_unchanged Env.spec _ _ h⟩

/-! ## A request served again at once -/

theorem GoMap.delete_delete {α : Type} (m : GoMap α) (k : Bytes) : (m.delete k).delete k = m.delete k := by
  simp only [GoMap.delete, List.filter_filter, Bool.and_self]

/-- a key set twice holds the later value -/
theorem GoMap.set_set {α : Type} (m : GoMap α) (k : Bytes) (v v' : α) : (m.set k v).set k v' = m.set k v' := by
  simp only [GoMap.set, GoMap.delete, List.filter_cons, ne_eq, not_true_eq_false, decide_False, Bool.false_eq_true,
    if_false, List.filter_filter, Bool.and_self]

theorem embodied_embodied (agent : MCPAgent) (body : EmbodimentUpdateBody) (t t' : Time) :
    embodied (embodied agent body t) body t' = embodied agent body t' := rfl

/-- with a registry that accepts every registration, a request served again right after itself, at any readings of
the clock, leaves the broker as serving the replay alone does, and is answered the same: a registration or an
embodiment update rewrites only the clock's readings, `RegisteredAt` and `LastHeartbeat`, a replayed revoke deletes
nothing more, and the broker reads neither the nonce nor the timestamp -/
theorem serve_serve (E : Env) (hE : ∀ r id a, E.accept r id a = true) (b : Broker) (r : Request) (now : Nat → Time) :
    (b.serve E r).1.serve E { r with now := now } = b.serve E { r with now := now } := by
  rcases serveHTTP_readOnly_or r with h | ⟨hm, data, env, hd, hp, hw⟩
  · rw [show (b.serve E r).1 = b from h.run_fst E b]
  have hc : Carries r env := ⟨hm, data, hd, hp⟩
  have hc' : Carries { r with now := now } env := hc
  rcases hw with ⟨ht, hb⟩ | ⟨ht, hb⟩ | ⟨ht, hb⟩
  · obtain ⟨body, hb⟩ := Option.isSome_iff_exists.1 hb
    rw [serve_registerAgent hc ht hb, serve_registerAgent hc' ht hb, serve_registerAgent hc' ht hb]
    split_ifs <;> simp [Registry.registerAgent, hE, GoMap.set_set]
  · obtain ⟨body, hb⟩ := Option.isSome_iff_exists.1 hb
    rw [serve_revoke hc ht hb, serve_revoke hc' ht hb, serve_revoke hc' ht hb, GoMap.delete_delete]
  · obtain ⟨body, hb⟩ := Option.isSome_iff_exists.1 hb
    rw [serve_embodimentUpdate hc ht hb, serve_embodimentUpdate hc' ht hb, serve_embodimentUpdate hc' ht hb]
    cases hg : b.mcpRegistry.getAgent env.agent with
    | none => simp only [hg]
    | some agent => simp [hg, Registry.registerAgent, hE, Registry.getAgent, embodied_embodied, GoMap.set_set]

/-- `worker-1`'s registration served again at the clock's reading 5 -/
def registerWorker1Later : Request := { registerWithEndpoint with now := fun _ => ⟨5, by decide, by decide⟩ }

set_option maxRecDepth 20000 in
/-- `worker-1`'s registration, replayed later, leaves the broker as the replay alone does -/
theorem serve_serve_registration :
    (∀ r id a, Env.spec.accept r id a = true) ∧
      (newBroker.serve Env.spec registerWithEndpoint).1.serve Env.spec registerWorker1Later =
        newBroker.serve Env.spec registerWorker1Later :=
  have hE : ∀ r id a, Env.spec.accept r id a = true := fun _ _ _ => rfl
  ⟨hE, serve_serve Env.spec hE newBroker registerWithEndpoint _⟩

end FepFem.Server
