import FepFem.Server.Stores

/-
Requests handled concurrently: `net/http` runs `ServeHTTP` for each request in its own goroutine, and the handlers'
atomic steps interleave.

A configuration is the broker's state and, for each request in flight, what is left of its handler's program (a
`done` program has replied). A schedule names, step by step, the request that moves; it takes one atomic step of
its program (`Proc.step`), and a request that has replied does not move. The serial executions are the ones that
run each request whole, alone, in some order (`Config.serial`); for the requests `rs` that is `serveAll` on `rs` in
that order (`serial_broker`).

A program is atomic when its first step on shared state is its last; what is left of it then only writes its reply.
Every interleaving of atomic programs is, once each pending reply is taken as written (`Config.settle`), the serial
execution of the schedule (`interleave_atomic`), and a serial execution does not move a request again once it has
replied, so it handles the requests in the order the schedule first moves them (`firstMoves`). Every handler is
atomic but two (`Request.twoStep`): `handleRegisterAgent` with an MCP endpoint writes `b.agents` and then the
registry, and `handleEmbodimentUpdate` reads the registry and then writes it. Two registrations of one agent
interleaved step by step leave the stores holding different registrations, a state no serial order reaches.

Results:
- `interleave_atomic`: interleaved atomic programs are serializable, whatever the schedule, up to the replies they
  have yet to write;
- `serial_broker`: a serial execution of the requests' handlers is `serveAll` in that order;
- `serveHTTP_atomic_or`: every request's handler is atomic, unless it is one of the two above;
- `interleave_serveAll`: requests none of which is one of the two, interleaved by any schedule, leave the broker as
  `serveAll` leaves it on the requests in the order the schedule first moves them;
- `interleaved_registrations_diverge`: two registrations of one agent, interleaved, end in a state no serial order
  reaches.
-/

namespace FepFem.Server

open FepFem.Json FepFem.Protocol

/-! ## Configurations and schedules -/

/-- the broker and the programs of the requests in flight -/
structure Config where
  broker : Broker
  threads : List Proc

/-- the reply of a request that has replied -/
def Proc.reply : Proc → Option Response
  | .done r => some r
  | _ => none

/-- request `i` takes its next step; one that has replied, or is not there, does not move -/
def Config.stepAt (E : Env) (c : Config) (i : Nat) : Config :=
  match c.threads[i]? with
  | some p =>
    match p.step E c.broker with
    | some (p', b') => ⟨b', c.threads.set i p'⟩
    | none => c
  | none => c

/-- a step of request `i` leaves the configuration as it was, or takes `i`'s next step -/
theorem Config.stepAt_cases (E : Env) (c : Config) (i : Nat) :
    c.stepAt E i = c ∨ ∃ p p' b', c.threads[i]? = some p ∧ p.step E c.broker = some (p', b') ∧
      c.stepAt E i = ⟨b', c.threads.set i p'⟩ := by
  unfold Config.stepAt
  cases hp : c.threads[i]? with
  | none => exact .inl rfl
  | some p =>
    dsimp only
    cases hs : p.step E c.broker with
    | none => exact .inl rfl
    | some s => exact .inr ⟨p, s.1, s.2, rfl, hs, rfl⟩

/-- the configuration a schedule leads to -/
def Config.interleave (E : Env) (c : Config) (sched : List Nat) : Config := sched.foldl (Config.stepAt E) c

/-- request `i` handled whole, alone -/
def Config.runWhole (E : Env) (c : Config) (i : Nat) : Config :=
  match c.threads[i]? with
  | some p => ⟨(p.run E c.broker).1, c.threads.set i (.done (p.run E c.broker).2)⟩
  | none => c

/-- the requests handled whole, one at a time, in `order` -/
def Config.serial (E : Env) (c : Config) (order : List Nat) : Config := order.foldl (Config.runWhole E) c

/-- a program whose pending reply is taken as written -/
def Proc.settle : Proc → Proc
  | .respond resp => .done resp
  | p => p

/-- every request's pending reply taken as written -/
def Config.settle (c : Config) : Config := ⟨c.broker, c.threads.map Proc.settle⟩

theorem Proc.run_settle (E : Env) (p : Proc) (b : Broker) : p.settle.run E b = p.run E b := by
  cases p <;> rfl

/-- a program whose first step on shared state is its last: after it, at most the reply is left to write -/
def Proc.Atomic (E : Env) (p : Proc) : Prop := ∀ b p' b', p.step E b = some (p', b') → ∃ r, p'.settle = .done r

theorem Proc.Atomic.done (E : Env) (r : Response) : (Proc.done r).Atomic E := fun _ _ _ h => by cases h

theorem Proc.Atomic.respond (E : Env) (r : Response) : (Proc.respond r).Atomic E := fun _ _ _ h => by
  cases h; exact ⟨r, rfl⟩

theorem Proc.Atomic.of_settle {E : Env} {p : Proc} {r : Response} (h : p.settle = .done r) : p.Atomic E := by
  cases p <;> cases h
  · exact .done E r
  · exact .respond E r

/-! ## Atomic programs are serializable -/

theorem set_of_getElem? {α : Type} {l : List α} {i : Nat} {a : α} (h : l[i]? = some a) : l.set i a = l := by
  apply List.ext_getElem?
  intro j
  rw [List.getElem?_set']
  split_ifs with hj
  · subst hj; rw [h]; rfl
  · rfl

/-- a step of an atomic request is, pending replies taken as written, the request handled whole, and leaves every
request atomic -/
theorem stepAt_atomic (E : Env) (c : Config) (i : Nat) (hA : ∀ p ∈ c.threads, p.Atomic E) :
    (c.stepAt E i).settle = c.settle.runWhole E i ∧ ∀ p ∈ (c.stepAt E i).threads, p.Atomic E := by
  unfold Config.stepAt
  cases hp : c.threads[i]? with
  | none => exact ⟨by simp only [Config.runWhole, Config.settle, List.getElem?_map, hp, Option.map_none'], hA⟩
  | some p =>
    have hp' : c.settle.threads[i]? = some p.settle := by
      simp only [Config.settle, List.getElem?_map, hp, Option.map_some']
    dsimp only
    cases hs : p.step E c.broker with
    | none =>
      obtain ⟨r, rfl⟩ := Proc.step_eq_none hs
      refine ⟨?_, hA⟩
      rw [Config.runWhole, hp']
      exact congrArg (Config.mk c.broker) (set_of_getElem? hp').symm
    | some q =>
      obtain ⟨p', b'⟩ := q
      obtain ⟨r, hr⟩ := hA p (List.getElem?_mem hp) _ _ _ hs
      have hrun : p.settle.run E c.broker = (b', r) := by
        rw [Proc.run_settle, Proc.run_step hs, ← Proc.run_settle, hr]; rfl
      refine ⟨?_, fun q hq => ?_⟩
      · rw [Config.runWhole, hp']
        dsimp only
        rw [show c.settle.broker = c.broker from rfl, hrun]
        simp only [Config.settle, List.map_set, hr]
      · rcases List.mem_or_eq_of_mem_set hq with hq | rfl
        · exact hA q hq
        · exact .of_settle hr

theorem interleave_atomic (E : Env) (c : Config) (sched : List Nat) (hA : ∀ p ∈ c.threads, p.Atomic E) :
    (c.interleave E sched).settle = c.settle.serial E sched := by
  induction sched generalizing c with
  | nil => rfl
  | cons i is ih =>
    obtain ⟨h, hA'⟩ := stepAt_atomic E c i hA
    simp only [Config.interleave, Config.serial, List.foldl_cons] at ih ⊢
    rw [← h]
    exact ih _ hA'

/-! ## Serial executions are runs of the sequential broker -/

theorem serial_broker (E : Env) (rs : List Request) :
    ∀ (order : List Nat) (c : Config), order.Nodup → (∀ i ∈ order, c.threads[i]? = (rs[i]?).map serveHTTP) →
      (c.serial E order).broker = (c.broker.serveAll E (order.filterMap fun i => rs[i]?)).1
  | [], _, _, _ => rfl
  | i :: is, c, hn, hc => by
    rw [List.nodup_cons] at hn
    have hi := hc i (List.mem_cons_self _ _)
    simp only [Config.serial, List.foldl_cons]
    cases hr : rs[i]? with
    | none =>
      rw [hr, Option.map_none'] at hi
      simp only [Config.runWhole, hi, List.filterMap_cons, hr]
      exact serial_broker E rs is c hn.2 fun j hj => hc j (List.mem_cons_of_mem _ hj)
    | some r =>
      rw [hr, Option.map_some'] at hi
      simp only [Config.runWhole, hi, List.filterMap_cons, hr, Broker.serveAll]
      refine serial_broker E rs is _ hn.2 fun j hj => ?_
      have hij : i ≠ j := fun h => hn.1 (h ▸ hj)
      rw [List.getElem?_set_ne hij]
      exact hc j (List.mem_cons_of_mem _ hj)

/-! ## Which handlers are atomic -/

theorem Proc.Atomic.lockAgents (E : Env) (f : GoMap Agent → GoMap Agent) (r : Response) :
    (Proc.lockAgents f (.respond r)).Atomic E := fun _ _ _ h => by cases h; exact ⟨r, rfl⟩

theorem Proc.Atomic.discoverTools (E : Env) (q : ToolQuery) {k : Option (Option (List DiscoveredTool)) → Proc}
    (hk : ∀ t, ∃ r, k t = .respond r) : (Proc.discoverTools q k).Atomic E := fun _ _ _ h => by
  cases h
  obtain ⟨r, e⟩ := hk _
  exact ⟨r, by rw [e]; rfl⟩

/-- no handler starts by writing its reply: what it has not done, it has not done -/
theorem dispatch_settle (now : Nat → Time) (env : GenericEnvelope) : (dispatch now env).settle = dispatch now env := by
  rcases dispatch_cases now env with ⟨-, h⟩ | ⟨β, dec, zero, reply, h⟩ | ⟨-, h⟩ | h | ⟨-, h⟩ | ⟨r, h⟩ <;> rw [h]
  · unfold handleRegisterAgent; split <;> rfl
  · unfold acknowledge; split <;> rfl
  · unfold handleRevoke; split <;> rfl
  · unfold handleDiscoverTools; split <;> rfl
  · unfold handleEmbodimentUpdate; split <;> rfl
  · rfl

theorem serveHTTP_settle (r : Request) : (serveHTTP r).settle = serveHTTP r := by
  unfold serveHTTP
  split_ifs
  · rfl
  · rfl
  · split
    · rfl
    · split
      · rfl
      · exact dispatch_settle _ _

theorem acknowledge_atomic (E : Env) {β : Type} (dec : Decoder β) (zero : β)
    (reply : β → List (Bytes × Option Canon)) (env : GenericEnvelope) :
    (acknowledge dec zero reply env).Atomic E := by
  unfold acknowledge
  split <;> exact .done E _

/-- an envelope whose handler takes two steps on shared state: a `registerAgent` whose body names an MCP endpoint,
which writes `b.agents` and then the registry, and an `embodimentUpdate`, which reads the registry and then writes
it -/
def twoStepEnv (env : GenericEnvelope) : Bool :=
  decide (env.type = envelopeRegisterAgent) &&
      (getBodyAs RegisterAgentBody.decode .zero env).any (fun body => decide (body.mcpEndpoint ≠ [])) ||
    decide (env.type = envelopeEmbodimentUpdate) && (getBodyAs EmbodimentUpdateBody.decode .zero env).isSome

/-- a request whose handler takes two steps: a POST whose body parses into such an envelope -/
def Request.twoStep (r : Request) : Bool :=
  decide (r.method = ascii "POST") &&
    match r.body.map parseEnvelope with
    | some (.ok env) => twoStepEnv env
    | _ => false

theorem dispatch_atomic_or (E : Env) (now : Nat → Time) (env : GenericEnvelope) :
    (dispatch now env).Atomic E ∨ twoStepEnv env = true := by
  rcases dispatch_cases now env with ⟨ht, h⟩ | ⟨β, dec, zero, reply, h⟩ | ⟨ht, h⟩ | h | ⟨ht, h⟩ | ⟨r, h⟩ <;> rw [h]
  · unfold handleRegisterAgent
    cases hb : getBodyAs RegisterAgentBody.decode .zero env with
    | none => exact .inl (.done E _)
    | some body =>
      by_cases he : body.mcpEndpoint ≠ []
      · right; simp [twoStepEnv, ht, hb, he]
      · left; dsimp only; rw [if_neg he]; exact .lockAgents E _ _
  · exact .inl (acknowledge_atomic E dec zero reply env)
  · unfold handleRevoke
    split
    · exact .inl (.done E _)
    · exact .inl (.lockAgents E _ _)
  · unfold handleDiscoverTools
    split
    · exact .inl (.done E _)
    · exact .inl (.discoverTools E _ fun t => by cases t <;> exact ⟨_, rfl⟩)
  · unfold handleEmbodimentUpdate
    cases hb : getBodyAs EmbodimentUpdateBody.decode .zero env with
    | none => exact .inl (.done E _)
    | some body => right; simp [twoStepEnv, ht, hb]
  · exact .inl (.done E _)

theorem serveHTTP_atomic_or (E : Env) (r : Request) : (serveHTTP r).Atomic E ∨ r.twoStep = true := by
  unfold serveHTTP Request.twoStep
  split_ifs with hh hp
  · exact .inl (.done E _)
  · exact .inl (.done E _)
  · cases hb : r.body with
    | none => exact .inl (.done E _)
    | some data =>
      dsimp only
      cases he : parseEnvelope data with
      | error e => exact .inl (.done E _)
      | ok env => simpa [not_not.1 hp, he] using dispatch_atomic_or E r.now env

/-! ## A request that has replied does not move again -/

/-- the requests a schedule moves, in the order it first moves them, leaving out those in `seen` -/
def firstMoves (seen : List Nat) : List Nat → List Nat
  | [] => []
  | i :: is => if i ∈ seen then firstMoves seen is else i :: firstMoves (i :: seen) is

theorem firstMoves_nodup :
    ∀ (seen is : List Nat), (firstMoves seen is).Nodup ∧ ∀ i ∈ firstMoves seen is, i ∉ seen
  | _, [] => ⟨List.nodup_nil, fun _ h => by cases h⟩
  | seen, i :: is => by
    unfold firstMoves
    split_ifs with hi
    · exact firstMoves_nodup seen is
    · obtain ⟨hn, hs⟩ := firstMoves_nodup (i :: seen) is
      refine ⟨List.nodup_cons.2 ⟨fun h => hs i h (List.mem_cons_self _ _), hn⟩, fun j hj => ?_⟩
      rcases List.mem_cons.1 hj with rfl | hj
      · exact hi
      · exact fun h => hs j hj (List.mem_cons_of_mem _ h)

/-- request `i` has replied, or is not there -/
def Config.Replied (c : Config) (i : Nat) : Prop := ∀ p, c.threads[i]? = some p → ∃ r, p = .done r

theorem Config.serial_cons (E : Env) (c : Config) (i : Nat) (is : List Nat) :
    c.serial E (i :: is) = (c.runWhole E i).serial E is := rfl

theorem runWhole_of_replied {E : Env} {c : Config} {i : Nat} (h : c.Replied i) : c.runWhole E i = c := by
  unfold Config.runWhole
  cases hp : c.threads[i]? with
  | none => rfl
  | some p =>
    obtain ⟨r, rfl⟩ := h p hp
    exact congrArg (Config.mk c.broker) (set_of_getElem? hp)

/-- handling request `i` whole leaves it replied, and leaves replied every request that was -/
theorem runWhole_replied (E : Env) (c : Config) (i j : Nat) (h : i = j ∨ c.Replied j) :
    (c.runWhole E i).Replied j := by
  intro p hp
  unfold Config.runWhole at hp
  cases hq : c.threads[i]? with
  | none => rw [hq] at hp; exact h.resolve_left (fun e => by subst e; rw [hq] at hp; cases hp) p hp
  | some q =>
    rw [hq, List.getElem?_set'] at hp
    split_ifs at hp with hij
    · subst hij; rw [hq] at hp; cases hp; exact ⟨_, rfl⟩
    · exact h.resolve_left hij p hp

/-- a serial execution does not move a request again once it has replied -/
theorem serial_firstMoves (E : Env) :
    ∀ (is seen : List Nat) (c : Config), (∀ j ∈ seen, c.Replied j) →
      c.serial E is = c.serial E (firstMoves seen is)
  | [], _, _, _ => rfl
  | i :: is, seen, c, hs => by
    unfold firstMoves
    split_ifs with hi
    · rw [Config.serial_cons, runWhole_of_replied (hs i hi)]
      exact serial_firstMoves E is seen c hs
    · rw [Config.serial_cons, Config.serial_cons]
      refine serial_firstMoves E is (i :: seen) _ fun j hj => runWhole_replied E c i j ?_
      rcases List.mem_cons.1 hj with rfl | hj
      · exact .inl rfl
      · exact .inr (hs j hj)

/-! ## One-step requests are serializable -/

/-- any interleaving of requests whose handlers are atomic leaves the broker as handling them one at a time does, in
the order the schedule first moves them -/
theorem interleave_serveAll (E : Env) (b : Broker) (rs : List Request) (hrs : ∀ r ∈ rs, r.twoStep = false)
    (sched : List Nat) :
    ((Config.mk b (rs.map serveHTTP)).interleave E sched).broker =
      (b.serveAll E ((firstMoves [] sched).filterMap fun i => rs[i]?)).1 := by
  have hA : ∀ p ∈ rs.map serveHTTP, p.Atomic E := by
    intro p hp
    obtain ⟨r, hr, rfl⟩ := List.mem_map.1 hp
    exact (serveHTTP_atomic_or E r).resolve_right (by rw [hrs r hr]; decide)
  have hs : (Config.mk b (rs.map serveHTTP)).settle = ⟨b, rs.map serveHTTP⟩ := by
    simp only [Config.settle, List.map_map, Function.comp_def, serveHTTP_settle]
  calc ((Config.mk b (rs.map serveHTTP)).interleave E sched).broker
      = ((Config.mk b (rs.map serveHTTP)).interleave E sched).settle.broker := rfl
    _ = ((Config.mk b (rs.map serveHTTP)).serial E (firstMoves [] sched)).broker := by
      rw [interleave_atomic E _ sched hA, hs, serial_firstMoves E sched [] _ fun _ h => by cases h]
    _ = _ := serial_broker E rs _ _ (firstMoves_nodup [] sched).1 fun i _ => List.getElem?_map ..

set_option maxRecDepth 20000 in
/-- a revoke and a registration without an MCP endpoint are one-step requests -/
theorem interleave_serveAll_revoke_register :
    (∀ r ∈ [revokeWorker, registerWithoutEndpoint], r.twoStep = false) ∧
      ((Config.mk newBroker ([revokeWorker, registerWithoutEndpoint].map serveHTTP)).interleave Env.spec
          [1, 0, 1, 0]).broker =
        (newBroker.serveAll Env.spec ((firstMoves [] [1, 0, 1, 0]).filterMap
          fun i => [revokeWorker, registerWithoutEndpoint][i]?)).1 :=
  have h : ∀ r ∈ [revokeWorker, registerWithoutEndpoint], r.twoStep = false := by decide
  ⟨h, interleave_serveAll Env.spec newBroker _ h _⟩
/-! ## Two registrations of one agent -/

/-- `worker-1` registers with MCP endpoint `e1` -/
def registerE1 : Request :=
  post (ascii ("\x7b\"type\":\"registerAgent\",\"agent\":\"worker-1\",\"ts\":0,\"nonce\":\"n1\"," ++
    "\"body\":\x7b\"pubkey\":\"k\",\"mcpEndpoint\":\"e1\"\x7d\x7d"))

/-- `worker-1` registers with MCP endpoint `e2` -/
def registerE2 : Request :=
  post (ascii ("\x7b\"type\":\"registerAgent\",\"agent\":\"worker-1\",\"ts\":0,\"nonce\":\"n2\"," ++
    "\"body\":\x7b\"pubkey\":\"k\",\"mcpEndpoint\":\"e2\"\x7d\x7d"))

/-- the endpoint each store holds for `worker-1` -/
def endpointsOf (b : Broker) : Option Bytes × Option Bytes :=
  ((b.agents.get (ascii "worker-1")).map (·.endpoint), (b.mcpRegistry.get (ascii "worker-1")).map (·.mcpEndpoint))

/-- the two registrations in flight at once: the first stores `worker-1` in `b.agents`, then the second does, then
the second registers it with the registry, then the first; then each writes its reply -/
def interleavedRegistrations : Config :=
  (Config.mk newBroker [serveHTTP registerE1, serveHTTP registerE2]).interleave Env.spec [0, 1, 1, 0, 1, 0]

set_option maxRecDepth 20000 in
/-- both requests are answered `registered`; `b.agents` ends with `e2` and the registry with `e1`, while handling the
two one at a time leaves both stores with the same endpoint, in either order -/
theorem interleaved_registrations_diverge :
    interleavedRegistrations.threads.map Proc.reply =
        [some (jsonReply [strEntry "status" (ascii "registered"), strEntry "agent" (ascii "worker-1")]),
          some (jsonReply [strEntry "status" (ascii "registered"), strEntry "agent" (ascii "worker-1")])] ∧
      endpointsOf interleavedRegistrations.broker = (some (ascii "e2"), some (ascii "e1")) ∧
      endpointsOf (newBroker.serveAll Env.spec [registerE1, registerE2]).1 = (some (ascii "e2"), some (ascii "e2")) ∧
      endpointsOf (newBroker.serveAll Env.spec [registerE2, registerE1]).1 = (some (ascii "e1"), some (ascii "e1")) :=
  ⟨rfl, rfl, rfl, rfl⟩

end FepFem.Server
