import FepFem.Server.Invariants

/-
What every interleaving does to the broker's two stores.

`b.agents` is serializable whatever the requests: each handler writes it at most once, as its first step, with a write
that depends on its envelope alone (`Proc.AgentsFirst`). So along every schedule `b.agents` takes the requests' writes
in the order the schedule first moves them, as handling them one at a time in that order does (`interleave_agents`).
The registry is not: two registrations of one agent, interleaved, can leave it holding one registration while
`b.agents` holds the other (`interleaved_registrations_diverge`).

`handleRegisterAgent` with an MCP endpoint writes `b.agents` and then, in a second step, the registry; between the two
steps the stores disagree, and any other request may run there. With a registry that accepts every registration,
that is the only way they come to disagree: every agent `b.agents` holds with an endpoint is in the registry, or a
request in flight is about to register it (`Config.Synced`). A program keeps this when each write to `b.agents` that
gives an agent an endpoint is followed at once by a registration of that agent (`Proc.Covers`); every handler's
program is such a program. Once every request has taken its last shared step, no registration is pending, and every
agent `b.agents` holds with an endpoint is in the registry. The inclusion runs one way only: the registry may still
hold a registration `b.agents` has since replaced. With a registry that refuses, the broker still answers
`registered`, and the stores disagree for good (`failed_updates_answered_as_success`).

Results:
- `interleave_synced`: with a registry that accepts every registration, along every interleaving that moves each
  request twice, every agent `b.agents` holds with an MCP endpoint ends up in the registry;
- `interleave_agents`: along every interleaving of any requests, `b.agents` ends as handling the requests one at a
  time leaves it, in the order the schedule first moves them.
-/

namespace FepFem.Server

open FepFem.Json FepFem.Protocol

/-! ## Pending registrations -/

/-- the program's next step registers `a` -/
def Proc.registersNext (a : Bytes) : Proc → Prop
  | .registerAgent id _ _ => id = a
  | _ => False

/-- each write to `b.agents` that gives an agent an entry with an MCP endpoint is followed at once by a registration
of that agent -/
def Proc.Covers : Proc → Prop
  | .done _ | .respond _ => True
  | .lockAgents f k =>
    (∀ m a x, (f m).get a = some x → x.endpoint ≠ [] → m.get a = some x ∨ k.registersNext a) ∧ k.Covers
  | .registerAgent _ _ k => ∀ ok, (k ok).Covers
  | .getAgent _ k => ∀ x, (k x).Covers
  | .discoverTools _ k => ∀ t, (k t).Covers

/-- every agent `b.agents` holds with an MCP endpoint is in the registry, or a request in flight is about to register
it -/
def Config.Synced (c : Config) : Prop :=
  ∀ a x, c.broker.agents.get a = some x → x.endpoint ≠ [] →
    (c.broker.mcpRegistry.get a).isSome ∨ ∃ p ∈ c.threads, p.registersNext a

theorem mem_set_of_ne {α : Type} {l : List α} {i : Nat} {p q : α} (hp : l[i]? = some p) (hq : q ∈ l) (hne : q ≠ p)
    (p' : α) : q ∈ l.set i p' := by
  obtain ⟨j, hj⟩ := List.mem_iff_getElem?.1 hq
  have hij : i ≠ j := by rintro rfl; exact hne (Option.some.inj (hj.symm.trans hp))
  exact List.mem_iff_getElem?.2 ⟨j, by rw [List.getElem?_set_ne hij, hj]⟩

theorem mem_set_self_of {α : Type} {l : List α} {i : Nat} {p : α} (hp : l[i]? = some p) (p' : α) :
    p' ∈ l.set i p' :=
  List.mem_iff_getElem?.2 ⟨i, by rw [List.getElem?_set_self', hp]; rfl⟩

section Synced

variable {E : Env} (hE : ∀ r id a, E.accept r id a = true)

include hE

/-- one step of a request whose program covers its writes keeps the stores in step, and every program covering -/
theorem Config.Synced.stepAt {c : Config} (hs : c.Synced) (hc : ∀ p ∈ c.threads, p.Covers) (i : Nat) :
    (c.stepAt E i).Synced ∧ ∀ p ∈ (c.stepAt E i).threads, p.Covers := by
  unfold Config.stepAt
  cases hp : c.threads[i]? with
  | none => exact ⟨hs, hc⟩
  | some p =>
    have hpc := hc p (List.getElem?_mem hp)
    have keep : ∀ p', p'.Covers → ∀ q ∈ c.threads.set i p', q.Covers := fun p' h' q hq =>
      (List.mem_or_eq_of_mem_set hq).elim (hc q) (· ▸ h')
    dsimp only
    cases p with
    | done => exact ⟨hs, hc⟩
    | respond r =>
      dsimp only [Proc.step]
      exact ⟨fun a x hx he => (hs a x hx he).imp_right fun ⟨q, hq, hqa⟩ =>
        ⟨q, mem_set_of_ne hp hq (by rintro rfl; exact hqa) _, hqa⟩, keep _ trivial⟩
    | lockAgents f k =>
      dsimp only [Proc.step, Proc.Covers] at hpc ⊢
      refine ⟨fun a x hx he => ?_, keep k hpc.2⟩
      rcases hpc.1 _ a x hx he with hx | hk
      · exact (hs a x hx he).imp_right fun ⟨q, hq, hqa⟩ =>
          ⟨q, mem_set_of_ne hp hq (by rintro rfl; exact hqa) k, hqa⟩
      · exact .inr ⟨k, mem_set_self_of hp k, hk⟩
    | registerAgent id m k =>
      simp only [Proc.step, Proc.Covers, Registry.registerAgent, hE, if_true] at hpc ⊢
      refine ⟨fun a x hx he => ?_, keep _ (hpc true)⟩
      simp only [GoMap.get_set]
      by_cases hia : id = a
      · exact .inl (by rw [if_pos hia]; rfl)
      · rw [if_neg hia]
        exact (hs a x hx he).imp_right fun ⟨q, hq, hqa⟩ =>
          ⟨q, mem_set_of_ne hp hq (by rintro rfl; exact hia hqa) _, hqa⟩
    | getAgent id k =>
      dsimp only [Proc.step, Proc.Covers] at hpc ⊢
      refine ⟨fun a x hx he => (hs a x hx he).imp_right fun ⟨q, hq, hqa⟩ =>
        ⟨q, mem_set_of_ne hp hq (by rintro rfl; exact hqa) _, hqa⟩, keep _ (hpc _)⟩
    | discoverTools q k =>
      dsimp only [Proc.step, Proc.Covers] at hpc ⊢
      refine ⟨fun a x hx he => (hs a x hx he).imp_right fun ⟨q', hq, hqa⟩ =>
        ⟨q', mem_set_of_ne hp hq (by rintro rfl; exact hqa) _, hqa⟩, keep _ (hpc _)⟩

/-- the run lemma: every schedule keeps the stores in step -/
theorem Config.Synced.interleave : ∀ (sched : List Nat) {c : Config}, c.Synced → (∀ p ∈ c.threads, p.Covers) →
    (c.interleave E sched).Synced
  | [], _, hs, _ => hs
  | i :: is, _, hs, hc =>
    have h := hs.stepAt hE hc i
    Config.Synced.interleave is h.1 h.2

end Synced

/-! ## Every handler covers its writes -/

theorem handleRegisterAgent_covers (now : Nat → Time) (env : GenericEnvelope) :
    (handleRegisterAgent now env).Covers := by
  unfold handleRegisterAgent
  split
  · trivial
  · rename_i body _
    refine ⟨fun m a x hx he => ?_, ?_⟩
    · simp only [GoMap.get_set] at hx
      split_ifs at hx with ha
      · cases hx
        exact .inr (by rw [if_pos he]; exact ha)
      · exact .inl hx
    · split_ifs
      · exact fun _ => trivial
      · trivial

theorem handleRevoke_covers (env : GenericEnvelope) : (handleRevoke env).Covers := by
  unfold handleRevoke
  split
  · trivial
  · refine ⟨fun m a x hx _ => .inl ?_, trivial⟩
    simp only [GoMap.get_delete] at hx
    split_ifs at hx
    exact hx

theorem handleEmbodimentUpdate_covers (now : Nat → Time) (env : GenericEnvelope) :
    (handleEmbodimentUpdate now env).Covers := by
  unfold handleEmbodimentUpdate
  split
  · trivial
  · intro x
    cases x with
    | none => trivial
    | some agent => exact fun _ => trivial

theorem handleDiscoverTools_covers (env : GenericEnvelope) : (handleDiscoverTools env).Covers := by
  unfold handleDiscoverTools
  split
  · trivial
  · intro t
    cases t <;> trivial

theorem serveHTTP_covers (r : Request) : (serveHTTP r).Covers :=
  serveHTTP_of_dispatch Proc.Covers (fun _ => trivial) r fun _ env _ _ _ =>
    dispatch_of_handlers Proc.Covers (fun _ => trivial) r.now env (fun _ => handleRegisterAgent_covers r.now env)
      (fun _ => handleRevoke_covers env) (handleDiscoverTools_covers env)
      (fun _ => handleEmbodimentUpdate_covers r.now env)

/-! ## The stores agree once every request has replied -/

/-- with a registry that accepts every registration, along every interleaving that moves each request twice, every
agent `b.agents` holds with an MCP endpoint is in the registry, when it was so before -/
theorem interleave_synced (E : Env) (hE : ∀ r id a, E.accept r id a = true) (b : Broker) (rs : List Request)
    (sched : List Nat) (hs : ∀ i < rs.length, 2 ≤ sched.count i)
    (hb : ∀ a x, b.agents.get a = some x → x.endpoint ≠ [] → (b.mcpRegistry.get a).isSome) :
    ∀ a x, ((Config.mk b (rs.map serveHTTP)).interleave E sched).broker.agents.get a = some x → x.endpoint ≠ [] →
      (((Config.mk b (rs.map serveHTTP)).interleave E sched).broker.mcpRegistry.get a).isSome := by
  intro a x hx he
  have hc : ∀ p ∈ rs.map serveHTTP, p.Covers := fun p hp => by
    obtain ⟨r, -, rfl⟩ := List.mem_map.1 hp
    exact serveHTTP_covers r
  refine (Config.Synced.interleave hE sched (fun a x hx he => .inl (hb a x hx he)) hc a x hx he).resolve_right ?_
  rintro ⟨p, hp, hpa⟩
  obtain ⟨resp, hr⟩ := Config.interleave_settled hs p hp
  cases p <;> first | exact hpa | cases hr

/-- two registrations of `worker-1`, with endpoints `e1` and `e2`, interleaved step by step from `NewBroker()` with
the specification's registry -/
theorem interleave_synced_registrations :
    (∀ r id a, Env.spec.accept r id a = true) ∧
      (∀ i < [registerE1, registerE2].length, 2 ≤ [0, 1, 1, 0].count i) ∧
      (∀ a x, newBroker.agents.get a = some x → x.endpoint ≠ [] → (newBroker.mcpRegistry.get a).isSome) ∧
      ∀ a x, ((Config.mk newBroker ([registerE1, registerE2].map serveHTTP)).interleave Env.spec
          [0, 1, 1, 0]).broker.agents.get a = some x → x.endpoint ≠ [] →
        (((Config.mk newBroker ([registerE1, registerE2].map serveHTTP)).interleave Env.spec
          [0, 1, 1, 0]).broker.mcpRegistry.get a).isSome :=
  have hE : ∀ r id a, Env.spec.accept r id a = true := fun _ _ _ => rfl
  have hs : ∀ i < [registerE1, registerE2].length, 2 ≤ [0, 1, 1, 0].count i := by decide
  have hb : ∀ a x, newBroker.agents.get a = some x → x.endpoint ≠ [] → (newBroker.mcpRegistry.get a).isSome :=
    fun _ _ h => by cases h
  ⟨hE, hs, hb, interleave_synced Env.spec hE newBroker _ _ hs hb⟩

/-! ## `b.agents` is serializable -/

/-- a program that never writes `b.agents` -/
def Proc.AgentsFree : Proc → Prop
  | .done _ | .respond _ => True
  | .lockAgents _ _ => False
  | .registerAgent _ _ k => ∀ ok, (k ok).AgentsFree
  | .getAgent _ k => ∀ x, (k x).AgentsFree
  | .discoverTools _ k => ∀ t, (k t).AgentsFree

/-- the write a program makes to `b.agents` as its first step, if it makes one -/
def Proc.agentsWrite : Proc → GoMap Agent → GoMap Agent
  | .lockAgents f _ => f
  | _ => id

/-- a program whose only write to `b.agents`, if it makes one, is its first step -/
def Proc.AgentsFirst : Proc → Prop
  | .lockAgents _ k => k.AgentsFree
  | .done _ | .respond _ => True
  | .registerAgent _ _ k => ∀ ok, (k ok).AgentsFree
  | .getAgent _ k => ∀ x, (k x).AgentsFree
  | .discoverTools _ k => ∀ t, (k t).AgentsFree

section AgentsFirst

variable {E : Env}

theorem Proc.AgentsFree.run_agents : ∀ {p : Proc} (b : Broker), p.AgentsFree → (p.run E b).1.agents = b.agents
  | .done _, _, _ | .respond _, _, _ => rfl
  | .registerAgent id a k, b, h => by
    simp only [Proc.run]
    split
    · exact (h true).run_agents (p := k true) _
    · exact (h false).run_agents _
  | .getAgent _ k, b, h => (h _).run_agents (p := k _) b
  | .discoverTools _ k, b, h => (h _).run_agents (p := k _) b

/-- run alone, a program writes `b.agents` once, with its first step's write -/
theorem Proc.AgentsFirst.run_agents {p : Proc} (h : p.AgentsFirst) (b : Broker) :
    (p.run E b).1.agents = p.agentsWrite b.agents := by
  cases p with
  | lockAgents f k => exact Proc.AgentsFree.run_agents (p := k) _ h
  | done | respond => rfl
  | registerAgent id a k => exact Proc.AgentsFree.run_agents (p := .registerAgent id a k) b h
  | getAgent id k => exact Proc.AgentsFree.run_agents (p := .getAgent id k) b h
  | discoverTools q k => exact Proc.AgentsFree.run_agents (p := .discoverTools q k) b h

/-- a step makes the program's write, and leaves a program that writes no more -/
theorem Proc.AgentsFirst.step {p p' : Proc} {b b' : Broker} (h : p.AgentsFirst) (hs : p.step E b = some (p', b')) :
    b'.agents = p.agentsWrite b.agents ∧ p'.AgentsFree := by
  cases p with
  | done => cases hs
  | respond => cases hs; exact ⟨rfl, trivial⟩
  | lockAgents f k => cases hs; exact ⟨rfl, h⟩
  | registerAgent id a k =>
    simp only [Proc.step, Option.some.injEq] at hs
    split at hs <;> cases hs <;> exact ⟨rfl, h _⟩
  | getAgent id k => cases hs; exact ⟨rfl, h _⟩
  | discoverTools q k => cases hs; exact ⟨rfl, h _⟩

theorem Proc.AgentsFree.first {p : Proc} (h : p.AgentsFree) : p.AgentsFirst ∧ p.agentsWrite = id := by
  cases p with
  | lockAgents => exact h.elim
  | _ => exact ⟨h, rfl⟩

end AgentsFirst

theorem handleRegisterAgent_agentsFirst (now : Nat → Time) (env : GenericEnvelope) :
    (handleRegisterAgent now env).AgentsFirst := by
  unfold handleRegisterAgent
  split
  · trivial
  · dsimp only [Proc.AgentsFirst]
    split_ifs
    · exact fun _ => trivial
    · trivial

theorem handleRevoke_agentsFirst (env : GenericEnvelope) : (handleRevoke env).AgentsFirst := by
  unfold handleRevoke
  split <;> trivial

theorem handleEmbodimentUpdate_agentsFirst (now : Nat → Time) (env : GenericEnvelope) :
    (handleEmbodimentUpdate now env).AgentsFirst := by
  unfold handleEmbodimentUpdate
  split
  · trivial
  · intro x
    cases x with
    | none => trivial
    | some agent => exact fun _ => trivial

theorem handleDiscoverTools_agentsFirst (env : GenericEnvelope) : (handleDiscoverTools env).AgentsFirst := by
  unfold handleDiscoverTools
  split
  · trivial
  · intro t
    cases t <;> trivial

theorem serveHTTP_agentsFirst (r : Request) : (serveHTTP r).AgentsFirst :=
  serveHTTP_of_dispatch Proc.AgentsFirst (fun _ => trivial) r fun _ env _ _ _ =>
    dispatch_of_handlers Proc.AgentsFirst (fun _ => trivial) r.now env
      (fun _ => handleRegisterAgent_agentsFirst r.now env)
      (fun _ => handleRevoke_agentsFirst env) (handleDiscoverTools_agentsFirst env)
      (fun _ => handleEmbodimentUpdate_agentsFirst r.now env)

/-- handled one at a time, requests write `b.agents` one after another -/
theorem serveAll_agents (E : Env) : ∀ (b : Broker) (rs : List Request),
    (b.serveAll E rs).1.agents = rs.foldl (fun m r => (serveHTTP r).agentsWrite m) b.agents
  | _, [] => rfl
  | b, r :: rs => by
    rw [Broker.serveAll, Prod.map_fst, id_eq, serveAll_agents, List.foldl_cons, Broker.serve,
      (serveHTTP_agentsFirst r).run_agents]

/-- the write request `i` has yet to make to `b.agents` -/
def Config.agentsWrite (c : Config) (i : Nat) : GoMap Agent → GoMap Agent :=
  ((c.threads[i]?).map Proc.agentsWrite).getD id

/-- a step of request `i` makes its write to `b.agents`, leaves it writing no more, and leaves the others as they
were -/
theorem Config.stepAt_agents {E : Env} {c : Config} (h : ∀ p ∈ c.threads, p.AgentsFirst) (i : Nat) :
    (c.stepAt E i).broker.agents = c.agentsWrite i c.broker.agents ∧
      (∀ p ∈ (c.stepAt E i).threads, p.AgentsFirst) ∧
      (∀ p, (c.stepAt E i).threads[i]? = some p → p.AgentsFree) ∧
      ∀ j, j ≠ i → (c.stepAt E i).threads[j]? = c.threads[j]? := by
  unfold Config.stepAt Config.agentsWrite
  cases hp : c.threads[i]? with
  | none => exact ⟨rfl, h, fun _ h' => absurd (hp.symm.trans h') (Option.noConfusion ·), fun _ _ => rfl⟩
  | some p =>
    dsimp only
    cases hs : p.step E c.broker with
    | none =>
      obtain ⟨r, rfl⟩ := Proc.step_eq_none hs
      refine ⟨rfl, h, fun q hq => ?_, fun _ _ => rfl⟩
      cases (hp.symm.trans hq)
      trivial
    | some s =>
      obtain ⟨p', b'⟩ := s
      obtain ⟨hb, hf⟩ := (h p (List.getElem?_mem hp)).step hs
      refine ⟨hb, fun q hq => (List.mem_or_eq_of_mem_set hq).elim (h q) (· ▸ hf.first.1), fun q hq => ?_,
        fun j hj => List.getElem?_set_ne fun e => hj e.symm⟩
      rw [List.getElem?_set_self', hp] at hq
      cases hq
      exact hf

/-- the run lemma: along a schedule, `b.agents` takes each request's write when the schedule first moves it -/
theorem Config.agents_interleave {E : Env} : ∀ (sched seen : List Nat) (c : Config),
    (∀ p ∈ c.threads, p.AgentsFirst) → (∀ j ∈ seen, ∀ p, c.threads[j]? = some p → p.AgentsFree) →
      (c.interleave E sched).broker.agents =
        (firstMoves seen sched).foldl (fun m i => c.agentsWrite i m) c.broker.agents
  | [], _, _, _, _ => rfl
  | i :: is, seen, c, h, hs => by
    obtain ⟨hb, h', hi, hj⟩ := Config.stepAt_agents (E := E) h i
    have hs' : ∀ seen' : List Nat, (∀ j ∈ seen', j = i ∨ j ∈ seen) →
        ∀ j ∈ seen', ∀ p : Proc, (c.stepAt E i).threads[j]? = some p → p.AgentsFree := fun seen' hsub j hj' p hp =>
      (em (j = i)).elim (fun e => hi p (e ▸ hp))
        fun e => hs j ((hsub j hj').resolve_left e) p (hj j e ▸ hp)
    have same : ∀ seen' : List Nat, i ∈ seen' → ∀ init,
        (firstMoves seen' is).foldl (fun m j => (c.stepAt E i).agentsWrite j m) init =
          (firstMoves seen' is).foldl (fun m j => c.agentsWrite j m) init := fun seen' hi' init =>
      List.foldl_ext _ _ _ fun m j hj' => by
        have hji : j ≠ i := fun e => (firstMoves_nodup seen' is).2 j hj' (e ▸ hi')
        rw [Config.agentsWrite, Config.agentsWrite, hj j hji]
    show ((c.stepAt E i).interleave E is).broker.agents = _
    unfold firstMoves
    split_ifs with his
    · have hid : c.agentsWrite i = id := by
        unfold Config.agentsWrite
        cases hp : c.threads[i]? with
        | none => rfl
        | some p => exact (hs i his p hp).first.2
      rw [Config.agents_interleave is seen _ h' (hs' seen fun j hj => .inr hj), same seen his, hb, hid, id_eq]
    · rw [Config.agents_interleave is (i :: seen) _ h'
          (hs' (i :: seen) fun j hj => (List.mem_cons.1 hj).imp_right id), same (i :: seen) (List.mem_cons_self _ _),
        hb, List.foldl_cons]

/-- whatever the requests and the schedule, `b.agents` ends as handling the requests one at a time leaves it, in the
order the schedule first moves them -/
theorem interleave_agents (E : Env) (b : Broker) (rs : List Request) (sched : List Nat) :
    ((Config.mk b (rs.map serveHTTP)).interleave E sched).broker.agents =
      (b.serveAll E ((firstMoves [] sched).filterMap fun i => rs[i]?)).1.agents := by
  have h : ∀ p ∈ rs.map serveHTTP, p.AgentsFirst := fun p hp => by
    obtain ⟨r, -, rfl⟩ := List.mem_map.1 hp
    exact serveHTTP_agentsFirst r
  have hw : ∀ i m, Config.agentsWrite ⟨b, rs.map serveHTTP⟩ i m =
      ((rs[i]?).map fun r => (serveHTTP r).agentsWrite m).getD m :=
    fun i m => by rw [Config.agentsWrite, List.getElem?_map]; cases rs[i]? <;> rfl
  rw [Config.agents_interleave sched [] _ h (fun _ h => by cases h), serveAll_agents]
  generalize firstMoves [] sched = order
  generalize b.agents = m
  induction order generalizing m with
  | nil => rfl
  | cons i is ih =>
    rw [List.foldl_cons, List.filterMap_cons, hw]
    cases rs[i]? with
    | none => exact ih m
    | some r => exact ih _

end FepFem.Server
