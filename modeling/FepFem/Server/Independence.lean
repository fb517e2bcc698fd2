import FepFem.Server.Invariants

/-
Requests of different agents do not interfere.

A program is local to `a` (`Proc.Local`) when it reads and writes only the entries under `a` of the two stores, the
answer of a discovery apart, after which it only replies. One step of such a program changes no other entry, and
leaves what the rest of it would do to `a`'s entries, run alone on them (`Proc.runAt`), as the whole program would
have done (`Proc.Local.step`); the whole program, run alone, does exactly that (`Proc.Local.run`). Every handler
but `handleRevoke`, which deletes its target's entry, is local to the envelope's sender (`serveHTTP_local`).

Premise: the registry decides on a registration from the agent's own entry (`Env.Local`); the specification's
registry, which accepts every agent, does.

Registrations, embodiment updates and discoveries of pairwise different agents, interleaved by any schedule that
lets each finish, therefore leave every entry of both stores as handling them one at a time does
(`interleave_distinct_agents`). Two requests of one agent need not (`interleaved_registrations_diverge`).

Results:
- `interleave_distinct_agents`: requests of pairwise different agents, none of them a revoke, interleaved by any
  schedule that moves each twice, leave every entry of `b.agents` and of the registry as `serveAll` leaves it.
-/

namespace FepFem.Server

open FepFem.Json FepFem.Protocol

/-! ## Programs local to one agent -/

/-- a map holding `a`'s entry, if any, and nothing else -/
def GoMap.single {α : Type} (a : Bytes) : Option α → GoMap α
  | none => []
  | some x => [(a, x)]

@[simp] theorem GoMap.get_single {α : Type} (a : Bytes) (v : Option α) : (GoMap.single a v).get a = v := by
  cases v <;> simp [GoMap.single, GoMap.get]

/-- a registry whose `RegisterAgent` decides on an agent from the entry under its id alone -/
def Env.Local (E : Env) : Prop := ∀ r r' id a, r.get id = r'.get id → E.accept r id a = E.accept r' id a

/-- the entries under `a` of both stores -/
def Broker.entries (b : Broker) (a : Bytes) : Option Agent × Option MCPAgent := (b.agents.get a, b.mcpRegistry.get a)

/-- a program that reads and writes only the entries under `a`; after a discovery it only replies -/
def Proc.Local (a : Bytes) : Proc → Prop
  | .done _ | .respond _ => True
  | .lockAgents f k => (∀ m k', k' ≠ a → (f m).get k' = m.get k') ∧
      (∀ m, (f m).get a = (f (GoMap.single a (m.get a))).get a) ∧ k.Local a
  | .registerAgent id _ k => id = a ∧ ∀ ok, (k ok).Local a
  | .getAgent id k => id = a ∧ ∀ x, (k x).Local a
  | .discoverTools _ k => ∀ t, ∃ r, k t = .respond r

/-- what a program local to `a` does to the entries under `a`, run alone on them -/
def Proc.runAt (E : Env) (a : Bytes) : Proc → Option Agent × Option MCPAgent → Option Agent × Option MCPAgent
  | .done _, s | .respond _, s => s
  | .lockAgents f k, (v, w) => k.runAt E a ((f (GoMap.single a v)).get a, w)
  | .registerAgent id x k, (v, w) =>
    if E.accept (GoMap.single a w) id x then (k true).runAt E a (v, some x) else (k false).runAt E a (v, w)
  | .getAgent _ k, (v, w) => (k w).runAt E a (v, w)
  | .discoverTools _ _, s => s

/-- a program with only its reply left to write does nothing more to the entries -/
theorem Proc.runAt_of_settle {E : Env} {a : Bytes} {p : Proc} {r : Response} (h : p.settle = .done r)
    (s : Option Agent × Option MCPAgent) : p.runAt E a s = s := by
  cases p <;> cases h <;> rfl

section Local

variable {E : Env} (hE : E.Local) {a : Bytes}
include hE

/-- the step lemma: a step of a program local to `a` changes no other entry, and what is left of the program still
does to `a`'s entries what the program would have done -/
theorem Proc.Local.step {p p' : Proc} {b b' : Broker} (hp : p.Local a) (h : p.step E b = some (p', b')) :
    p'.Local a ∧ (∀ k, k ≠ a → b'.entries k = b.entries k) ∧
      p'.runAt E a (b'.entries a) = p.runAt E a (b.entries a) := by
  cases p with
  | done => cases h
  | respond => cases h; exact ⟨trivial, fun _ _ => rfl, rfl⟩
  | lockAgents f k =>
    cases h
    exact ⟨hp.2.2, fun k' hk => by simp only [Broker.entries, hp.1 _ k' hk], by
      simp only [Broker.entries, Proc.runAt]; rw [hp.2.1]⟩
  | registerAgent id x k =>
    obtain ⟨rfl, hk⟩ := hp
    have he : E.accept (GoMap.single id (b.mcpRegistry.get id)) id x = E.accept b.mcpRegistry id x :=
      hE _ _ _ _ (GoMap.get_single _ _)
    cases hacc : E.accept b.mcpRegistry id x with
    | true =>
      simp only [Proc.step, Registry.registerAgent, hacc, if_true, Option.some.injEq, Prod.mk.injEq] at h
      obtain ⟨rfl, rfl⟩ := h
      refine ⟨hk true, fun k' hk' => ?_, ?_⟩
      · simp only [Broker.entries, GoMap.get_set, if_neg (Ne.symm hk')]
      · simp only [Broker.entries, Proc.runAt, he, hacc, if_true, GoMap.get_set]
    | false =>
      simp only [Proc.step, Registry.registerAgent, hacc, Bool.false_eq_true, if_false, Option.some.injEq,
        Prod.mk.injEq] at h
      obtain ⟨rfl, rfl⟩ := h
      refine ⟨hk false, fun _ _ => rfl, ?_⟩
      simp only [Broker.entries, Proc.runAt, he, hacc, Bool.false_eq_true, if_false]
  | getAgent id k =>
    obtain ⟨rfl, hk⟩ := hp
    cases h
    exact ⟨hk _, fun _ _ => rfl, rfl⟩
  | discoverTools q k =>
    cases h
    obtain ⟨r, hr⟩ := hp (E.discover b.mcpRegistry q)
    rw [hr]
    exact ⟨trivial, fun _ _ => rfl, rfl⟩

theorem Proc.Local.run_of_step {p p' : Proc} {b b' : Broker} (hp : p.Local a) (hs : p.step E b = some (p', b'))
    (ih : (∀ k, k ≠ a → (p'.run E b').1.entries k = b'.entries k) ∧
      (p'.run E b').1.entries a = p'.runAt E a (b'.entries a)) :
    (∀ k, k ≠ a → (p.run E b).1.entries k = b.entries k) ∧ (p.run E b).1.entries a = p.runAt E a (b.entries a) := by
  obtain ⟨-, hfr, hrun⟩ := hp.step hE hs
  rw [Proc.run_step hs]
  exact ⟨fun k hk => (ih.1 k hk).trans (hfr k hk), ih.2.trans hrun⟩

/-- the run lemma: run alone, a program local to `a` changes no other entry and does to `a`'s what `runAt` says -/
theorem Proc.Local.run {p : Proc} (hp : p.Local a) (b : Broker) :
    (∀ k, k ≠ a → (p.run E b).1.entries k = b.entries k) ∧ (p.run E b).1.entries a = p.runAt E a (b.entries a) := by
  induction p generalizing b with
  | done | respond => exact ⟨fun _ _ => rfl, rfl⟩
  | lockAgents f k ih => exact hp.run_of_step hE rfl (ih hp.2.2 _)
  | registerAgent id x k ih =>
    cases hr : b.mcpRegistry.registerAgent E id x with
    | none =>
      exact hp.run_of_step hE (show _ = some (k false, b) by simp only [Proc.step, hr]) (ih false (hp.2 false) _)
    | some r =>
      exact hp.run_of_step hE (show _ = some (k true, { b with mcpRegistry := r }) by simp only [Proc.step, hr])
        (ih true (hp.2 true) _)
  | getAgent id k ih => exact hp.run_of_step hE rfl (ih _ (hp.2 _) _)
  | discoverTools q k ih =>
    obtain ⟨r, hr⟩ := hp (E.discover b.mcpRegistry q)
    exact hp.run_of_step hE rfl (by rw [hr]; exact ⟨fun _ _ => rfl, rfl⟩)

end Local

/-! ## The handlers -/

section Handlers

variable (now : Nat → Time) (env : GenericEnvelope)

theorem handleRegisterAgent_local : (handleRegisterAgent now env).Local env.agent := by
  unfold handleRegisterAgent
  split
  · trivial
  · refine ⟨fun m k hk => by simp only [GoMap.get_set, if_neg (Ne.symm hk)], fun m => by simp only [GoMap.get_set,
      if_true], ?_⟩
    split_ifs
    · exact ⟨rfl, fun _ => trivial⟩
    · trivial

theorem handleDiscoverTools_local (a : Bytes) : (handleDiscoverTools env).Local a := by
  unfold handleDiscoverTools
  split
  · trivial
  · exact fun t => by cases t <;> exact ⟨_, rfl⟩

theorem handleEmbodimentUpdate_local : (handleEmbodimentUpdate now env).Local env.agent := by
  unfold handleEmbodimentUpdate
  split
  · trivial
  · refine ⟨rfl, fun x => ?_⟩
    cases x with
    | none => trivial
    | some agent => exact ⟨rfl, fun _ => trivial⟩

end Handlers

/-- a request that carries a revoke -/
def Request.revokes (r : Request) : Bool :=
  decide (r.method = ascii "POST") &&
    match r.body.map parseEnvelope with
    | some (.ok env) => decide (env.type = envelopeRevoke)
    | _ => false

/-- a request from `a` that is not a revoke touches only `a`'s entries -/
theorem serveHTTP_local {r : Request} {a : Bytes} (ha : r.sentBy a = true) (hr : r.revokes = false) :
    (serveHTTP r).Local a := by
  refine serveHTTP_of_dispatch _ (fun _ => trivial) r fun data env hm hd hp => ?_
  have he : env.agent = a := by simpa [Request.sentBy, hm, hd, hp] using ha
  have ht : env.type ≠ envelopeRevoke := by simpa [Request.revokes, hm, hd, hp] using hr
  subst he
  exact dispatch_of_handlers _ (fun _ => trivial) r.now env (fun _ => handleRegisterAgent_local r.now env)
    (fun h => absurd h ht) (handleDiscoverTools_local env _) (fun _ => handleEmbodimentUpdate_local r.now env)

/-! ## Requests of different agents -/

theorem ne_of_getElem?_nodup {keys : List Bytes} (hn : keys.Nodup) {i j : Nat} {x y : Bytes} (hi : keys[i]? = some x)
    (hj : keys[j]? = some y) (hij : i ≠ j) : x ≠ y := by
  rintro rfl
  obtain ⟨hi', rfl⟩ := List.getElem?_eq_some_iff.1 hi
  obtain ⟨hj', e⟩ := List.getElem?_eq_some_iff.1 hj
  exact hij ((List.Nodup.getElem_inj_iff hn).1 e.symm)

section Distinct

variable {E : Env} (hE : E.Local)
include hE

/-- handled one at a time, requests local to pairwise different agents leave each agent's entries as its own request
does, and every other entry as it was -/
theorem serveAll_entries : ∀ {rs : List Request} {keys : List Bytes}, keys.Nodup →
    List.Forall₂ (fun r a => (serveHTTP r).Local a) rs keys → ∀ b : Broker,
      (∀ k, k ∉ keys → (b.serveAll E rs).1.entries k = b.entries k) ∧
      ∀ (i : Nat) r a, rs[i]? = some r → keys[i]? = some a →
        (b.serveAll E rs).1.entries a = (serveHTTP r).runAt E a (b.entries a)
  | [], [], _, .nil, _ => ⟨fun _ _ => rfl, fun _ _ _ h => by cases h⟩
  | r :: rs, a :: keys, hn, .cons hr hrs, b => by
    obtain ⟨ha, hn'⟩ := List.nodup_cons.1 hn
    obtain ⟨ih1, ih2⟩ := serveAll_entries hn' hrs (b.serve E r).1
    obtain ⟨hfr, hrun⟩ := hr.run hE b
    refine ⟨fun k hk => ?_, fun i r' a' hr' ha' => ?_⟩
    · rw [Broker.serveAll, Prod.map_fst, id_eq, ih1 k fun h => hk (List.mem_cons_of_mem _ h)]
      exact hfr k fun e => hk (e ▸ List.mem_cons_self _ _)
    · rw [Broker.serveAll, Prod.map_fst, id_eq]
      cases i with
      | zero =>
        simp only [List.getElem?_cons_zero, Option.some.injEq] at hr' ha'
        subst hr' ha'
        rw [ih1 a ha]; exact hrun
      | succ i =>
        rw [List.getElem?_cons_succ] at hr' ha'
        rw [ih2 i r' a' hr' ha', Broker.serve, hfr a' fun e => ha (e ▸ List.getElem?_mem ha')]

/-- each request in flight is local to its own one of `keys` and would leave that agent's entries as `goal` says;
the entries under no key of `keys` are as in `b₀` -/
def Config.LocalRun (E : Env) (keys : List Bytes) (b₀ : Broker) (goal : Bytes → Option Agent × Option MCPAgent)
    (c : Config) : Prop :=
  c.threads.length = keys.length ∧
    (∀ (i : Nat) p a, c.threads[i]? = some p → keys[i]? = some a →
      p.Local a ∧ p.runAt E a (c.broker.entries a) = goal a) ∧
    ∀ k, k ∉ keys → c.broker.entries k = b₀.entries k

variable {keys : List Bytes} {b₀ : Broker} {goal : Bytes → Option Agent × Option MCPAgent}

theorem Config.LocalRun.stepAt (hn : keys.Nodup) {c : Config} (h : c.LocalRun E keys b₀ goal) (j : Nat) :
    (c.stepAt E j).LocalRun E keys b₀ goal := by
  rcases Config.stepAt_cases E c j with e | ⟨p, p', b', hp, hs, e⟩ <;> rw [e]
  · exact h
  obtain ⟨hlen, hth, hout⟩ := h
  have hj : j < keys.length := hlen ▸ (List.getElem?_eq_some_iff.1 hp).1
  have haj : keys[j]? = some keys[j] := List.getElem?_eq_getElem hj
  obtain ⟨hl, hpr⟩ := hth j p _ hp haj
  obtain ⟨hl', hfr, hrun⟩ := hl.step hE hs
  refine ⟨by rw [List.length_set, hlen], fun i q a hq ha => ?_,
    fun k hk => (hfr k fun e => hk (e ▸ List.getElem?_mem haj)).trans (hout k hk)⟩
  by_cases hij : i = j
  · subst hij
    rw [List.getElem?_set_self', hp] at hq
    rw [haj, Option.some.injEq] at ha
    cases hq; subst ha
    exact ⟨hl', hrun.trans hpr⟩
  · rw [List.getElem?_set_ne fun e => hij e.symm] at hq
    obtain ⟨hql, hqr⟩ := hth i q a hq ha
    exact ⟨hql, by rw [← hqr, hfr a (ne_of_getElem?_nodup hn ha haj hij)]⟩

/-- the run lemma: every schedule keeps each request local to its agent and on its way to `goal` -/
theorem Config.LocalRun.interleave (hn : keys.Nodup) : ∀ (sched : List Nat) {c : Config},
    c.LocalRun E keys b₀ goal → (c.interleave E sched).LocalRun E keys b₀ goal
  | [], _, h => h
  | i :: is, _, h => Config.LocalRun.interleave hn is (h.stepAt hE hn i)

end Distinct

theorem forall₂_of_getElem? {α β : Type} {R : α → β → Prop} : ∀ {l₁ : List α} {l₂ : List β}, List.Forall₂ R l₁ l₂ →
    ∀ {i : Nat} {x : α} {y : β}, l₁[i]? = some x → l₂[i]? = some y → R x y
  | _ :: _, _ :: _, .cons h _, 0, _, _, hx, hy => by
    simp only [List.getElem?_cons_zero, Option.some.injEq] at hx hy
    exact hx ▸ hy ▸ h
  | _ :: _, _ :: _, .cons _ t, _ + 1, _, _, hx, hy => by
    rw [List.getElem?_cons_succ] at hx hy
    exact forall₂_of_getElem? t hx hy

/-- requests of pairwise different agents, none of them a revoke, interleaved by any schedule that moves each twice,
leave every entry of `b.agents` and of the registry as handling them one at a time does, whenever the registry
decides on an agent from its own entry -/
theorem interleave_distinct_agents (E : Env) (hE : E.Local) (b : Broker) (rs : List Request) (agents : List Bytes)
    (hn : agents.Nodup) (hr : List.Forall₂ (fun r a => r.sentBy a = true ∧ r.revokes = false) rs agents)
    (sched : List Nat) (hs : ∀ i < rs.length, 2 ≤ sched.count i) (k : Bytes) :
    ((Config.mk b (rs.map serveHTTP)).interleave E sched).broker.agents.get k = (b.serveAll E rs).1.agents.get k ∧
      ((Config.mk b (rs.map serveHTTP)).interleave E sched).broker.mcpRegistry.get k =
        (b.serveAll E rs).1.mcpRegistry.get k := by
  have hl : List.Forall₂ (fun r a => (serveHTTP r).Local a) rs agents := hr.imp fun _ _ h => serveHTTP_local h.1 h.2
  obtain ⟨hout, hin⟩ := serveAll_entries hE hn hl b
  have h0 : (Config.mk b (rs.map serveHTTP)).LocalRun E agents b (b.serveAll E rs).1.entries := by
    refine ⟨by rw [List.length_map, hl.length_eq], fun i p a hp ha => ?_, fun _ _ => rfl⟩
    rw [List.getElem?_map, Option.map_eq_some'] at hp
    obtain ⟨r, hr', rfl⟩ := hp
    exact ⟨forall₂_of_getElem? hl hr' ha, (hin i r a hr' ha).symm⟩
  obtain ⟨hlen, hth, hout'⟩ := h0.interleave hE hn sched
  suffices e : ((Config.mk b (rs.map serveHTTP)).interleave E sched).broker.entries k = (b.serveAll E rs).1.entries k
    from Prod.ext_iff.1 e
  by_cases hk : k ∈ agents
  · obtain ⟨i, hi⟩ := List.mem_iff_getElem?.1 hk
    have hp := List.getElem?_eq_getElem (hlen ▸ (List.getElem?_eq_some_iff.1 hi).1)
    obtain ⟨resp, hd⟩ := Config.interleave_settled hs _ (List.getElem?_mem hp)
    have e := (hth i _ k hp hi).2
    rw [Proc.runAt_of_settle hd] at e
    exact e
  · rw [hout' k hk, hout k hk]

set_option maxRecDepth 20000 in
/-- `worker-1` and `worker-2` registering with endpoints, interleaved step by step with the specification's registry,
leave `worker-1`'s entries as handling the two one at a time does -/
theorem interleave_distinct_agents_workers :
    Env.spec.Local ∧ [ascii "worker-1", ascii "worker-2"].Nodup ∧
      List.Forall₂ (fun r a => r.sentBy a = true ∧ r.revokes = false) [registerWithEndpoint, registerWorker2]
        [ascii "worker-1", ascii "worker-2"] ∧
      (∀ i < [registerWithEndpoint, registerWorker2].length, 2 ≤ [0, 1, 1, 0].count i) ∧
      ((Config.mk newBroker ([registerWithEndpoint, registerWorker2].map serveHTTP)).interleave Env.spec
          [0, 1, 1, 0]).broker.agents.get (ascii "worker-1") =
        (newBroker.serveAll Env.spec [registerWithEndpoint, registerWorker2]).1.agents.get (ascii "worker-1") ∧
      ((Config.mk newBroker ([registerWithEndpoint, registerWorker2].map serveHTTP)).interleave Env.spec
          [0, 1, 1, 0]).broker.mcpRegistry.get (ascii "worker-1") =
        (newBroker.serveAll Env.spec [registerWithEndpoint, registerWorker2]).1.mcpRegistry.get (ascii "worker-1") :=
  have hE : Env.spec.Local := fun _ _ _ _ _ => rfl
  have hn : [ascii "worker-1", ascii "worker-2"].Nodup := by decide
  have hr : List.Forall₂ (fun r a => r.sentBy a = true ∧ r.revokes = false) [registerWithEndpoint, registerWorker2]
      [ascii "worker-1", ascii "worker-2"] := .cons (by decide) (.cons (by decide) .nil)
  have hs : ∀ i < [registerWithEndpoint, registerWorker2].length, 2 ≤ [0, 1, 1, 0].count i := by decide
  ⟨hE, hn, hr, hs, interleave_distinct_agents Env.spec hE newBroker _ _ hn hr _ hs _⟩

end FepFem.Server
