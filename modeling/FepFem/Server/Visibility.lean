import FepFem.Server.Independence

/-
What the other requests see: only the requests that write the MCP registry.

No handler reads `b.agents`, and a step of any program does to the registry, and to the program, what it does from
any broker with the same registry (`Proc.step_registry`). A request that never writes the registry
(`Proc.RegistryFree`) is therefore invisible to every other: `handleRevoke` only deletes its target from
`b.agents`; a discovery, an acknowledgement and an error only read; a registration that names no endpoint only writes
`b.agents`. A run in which such requests move and the same run in which they never move keep the same registry and
every other request in the same state, step after step (`Config.Hides`).

Results:
- `interleave_registry_free_unobserved`: along every interleaving of any requests, whatever the registry does, the
  registry and every request that can write it end as they do when no other request, a revoke included, ever takes
  a step.
-/

namespace FepFem.Server

open FepFem.Json FepFem.Protocol

/-! ## A step sees the broker only through its registry -/

/-- a step's next program and registry depend on the broker only through its registry -/
theorem Proc.step_registry {E : Env} {p p' : Proc} {b b' b₁ : Broker} (h : b.mcpRegistry = b'.mcpRegistry)
    (hs : p.step E b = some (p', b₁)) : ∃ b₂, p.step E b' = some (p', b₂) ∧ b₁.mcpRegistry = b₂.mcpRegistry := by
  cases p with
  | done => cases hs
  | respond => cases hs; exact ⟨_, rfl, h⟩
  | lockAgents f k => cases hs; exact ⟨_, rfl, h⟩
  | registerAgent id a k =>
    simp only [Proc.step, h, Option.some.injEq] at hs ⊢
    cases hr : b'.mcpRegistry.registerAgent E id a <;> rw [hr] at hs <;> cases hs
    · exact ⟨_, rfl, h⟩
    · exact ⟨_, rfl, rfl⟩
  | getAgent id k => cases hs; exact ⟨_, by rw [Proc.step, h], h⟩
  | discoverTools q k => cases hs; exact ⟨_, by rw [Proc.step, h], h⟩

/-! ## Requests that never write the registry -/

/-- a program that never writes the registry, whatever the stores answer -/
def Proc.RegistryFree : Proc → Prop
  | .done _ | .respond _ => True
  | .lockAgents _ k => k.RegistryFree
  | .registerAgent _ _ _ => False
  | .getAgent _ k => ∀ x, (k x).RegistryFree
  | .discoverTools _ k => ∀ t, (k t).RegistryFree

theorem Proc.RegistryFree.step {E : Env} {p p' : Proc} {b b' : Broker} (hp : p.RegistryFree)
    (h : p.step E b = some (p', b')) : p'.RegistryFree ∧ b'.mcpRegistry = b.mcpRegistry := by
  cases p with
  | done => cases h
  | respond => cases h; exact ⟨trivial, rfl⟩
  | lockAgents f k => cases h; exact ⟨hp, rfl⟩
  | registerAgent => exact hp.elim
  | getAgent id k => cases h; exact ⟨hp _, rfl⟩
  | discoverTools q k => cases h; exact ⟨hp _, rfl⟩

theorem Proc.ReadOnly.registryFree {p : Proc} (h : p.ReadOnly) : p.RegistryFree := by
  induction h with
  | done | respond => trivial
  | getAgent _ _ _ ih => exact ih
  | discoverTools _ _ _ ih => exact ih

/-- the request can write the registry: a `POST` carrying a registration whose body names an endpoint, or an
embodiment update whose body decodes -/
def Request.writesRegistry (r : Request) : Bool :=
  decide (r.method = ascii "POST") &&
    match r.body.map parseEnvelope with
    | some (.ok env) =>
      (decide (env.type = envelopeRegisterAgent) &&
        match getBodyAs RegisterAgentBody.decode .zero env with
        | some body => decide (body.mcpEndpoint ≠ [])
        | none => false) ||
      (decide (env.type = envelopeEmbodimentUpdate) && (getBodyAs EmbodimentUpdateBody.decode .zero env).isSome)
    | _ => false

section Handlers

variable {now : Nat → Time} {env : GenericEnvelope}

theorem handleRegisterAgent_registryFree
    (h : ∀ body ∈ getBodyAs RegisterAgentBody.decode .zero env, body.mcpEndpoint = []) :
    (handleRegisterAgent now env).RegistryFree := by
  unfold handleRegisterAgent
  split
  · trivial
  · rename_i body hbody
    show Proc.RegistryFree (if _ then _ else _)
    rw [if_neg (not_not.2 (h body hbody))]
    trivial

theorem handleRevoke_registryFree : (handleRevoke env).RegistryFree := by
  unfold handleRevoke
  split <;> trivial

theorem handleEmbodimentUpdate_registryFree (h : getBodyAs EmbodimentUpdateBody.decode .zero env = none) :
    (handleEmbodimentUpdate now env).RegistryFree := by
  unfold handleEmbodimentUpdate
  rw [h]
  trivial

end Handlers

/-- a request that cannot write the registry never does -/
theorem serveHTTP_registryFree {r : Request} (hr : r.writesRegistry = false) : (serveHTTP r).RegistryFree :=
  serveHTTP_of_dispatch _ (fun _ => trivial) r fun data env hm hd hp =>
    dispatch_of_handlers _ (fun _ => trivial) r.now env
      (fun ht => handleRegisterAgent_registryFree fun body hbody => by
        simp [Request.writesRegistry, hm, hd, hp, ht, Option.mem_def.1 hbody] at hr
        exact hr.1)
      (fun _ => handleRevoke_registryFree) (handleDiscoverTools_readOnly env).registryFree
      (fun ht => handleEmbodimentUpdate_registryFree (by
        cases hb : getBodyAs EmbodimentUpdateBody.decode .zero env
        · rfl
        · simp [Request.writesRegistry, hm, hd, hp, ht, hb] at hr))

/-! ## Two runs, one with the hidden requests frozen -/

/-- the run `c`, in which the requests `hid` marks move, and the run `c'`, in which they do not: the same registry,
every other request in the same state, and the marked ones in `c` never writing the registry -/
structure Config.Hides (hid : Nat → Bool) (c c' : Config) : Prop where
  registry : c.broker.mcpRegistry = c'.broker.mcpRegistry
  shown : ∀ i, hid i = false → c.threads[i]? = c'.threads[i]?
  hidden : ∀ i p, hid i = true → c.threads[i]? = some p → p.RegistryFree

section Hides

variable {E : Env} {hid : Nat → Bool}

/-- a step of a marked request in `c` alone -/
theorem Config.Hides.stepAt_hidden {c c' : Config} (h : c.Hides hid c') {j : Nat} (hj : hid j = true) :
    (c.stepAt E j).Hides hid c' := by
  rcases Config.stepAt_cases E c j with e | ⟨p, p', b', hp, hs, e⟩ <;> rw [e]
  · exact h
  · obtain ⟨hp', hreg⟩ := (h.hidden j p hj hp).step hs
    refine ⟨hreg.trans h.registry, fun i hi => ?_, fun i q hi hq => ?_⟩
    · have hji : j ≠ i := by rintro rfl; rw [hj] at hi; cases hi
      rw [← h.shown i hi]
      exact List.getElem?_set_ne hji
    · by_cases hji : j = i
      · subst hji
        rw [List.getElem?_set_self', hp] at hq
        cases hq
        exact hp'
      · exact h.hidden i q hi (by rwa [List.getElem?_set_ne hji] at hq)

/-- a step of any other request in both runs -/
theorem Config.Hides.stepAt_shown {c c' : Config} (h : c.Hides hid c') {j : Nat} (hj : hid j = false) :
    (c.stepAt E j).Hides hid (c'.stepAt E j) := by
  unfold Config.stepAt
  rw [← h.shown j hj]
  cases hp : c.threads[j]? with
  | none => exact h
  | some p =>
    dsimp only
    cases hs : p.step E c.broker with
    | none =>
      obtain ⟨_, rfl⟩ := Proc.step_eq_none hs
      exact h
    | some s =>
      obtain ⟨p₁, b₁⟩ := s
      obtain ⟨b₂, hs', hreg⟩ := Proc.step_registry h.registry hs
      rw [hs']
      refine ⟨hreg, fun i hi => ?_, fun i q hi hq => ?_⟩
      · by_cases hji : j = i
        · subst hji
          rw [List.getElem?_set_self', List.getElem?_set_self', h.shown j hi]
        · rw [List.getElem?_set_ne hji, List.getElem?_set_ne hji]
          exact h.shown i hi
      · have hji : j ≠ i := by rintro rfl; rw [hj] at hi; cases hi
        exact h.hidden i q hi (by rwa [List.getElem?_set_ne hji] at hq)

/-- the run lemma: the marked requests moving, or never moving, along any schedule -/
theorem Config.Hides.interleave : ∀ (sched : List Nat) {c c' : Config}, c.Hides hid c' →
    (c.interleave E sched).Hides hid (c'.interleave E (sched.filter fun i => !hid i))
  | [], _, _, h => h
  | j :: js, _, _, h => by
    cases hj : hid j
    · simpa only [Config.interleave, List.filter_cons, hj, Bool.not_false, if_true, List.foldl_cons] using
        Config.Hides.interleave js (h.stepAt_shown hj)
    · simpa only [Config.interleave, List.filter_cons, hj, Bool.not_true, Bool.false_eq_true, if_false,
        List.foldl_cons] using Config.Hides.interleave js (h.stepAt_hidden hj)

end Hides

/-! ## Only the registry's writers are seen -/

/-- whether request `i` of `rs` is one that cannot write the registry -/
def registryFreeAt (rs : List Request) (i : Nat) : Bool := (rs[i]?.map fun r => !r.writesRegistry).getD false

/-- along every interleaving of any requests, whatever the registry does, the registry and every request that can
write it, its reply included, end as they do when no other request ever takes a step: revokes, discoveries,
acknowledgements, errors and registrations naming no endpoint are invisible to the rest -/
theorem interleave_registry_free_unobserved (E : Env) (b : Broker) (rs : List Request) (sched : List Nat) :
    ((Config.mk b (rs.map serveHTTP)).interleave E sched).broker.mcpRegistry =
        ((Config.mk b (rs.map serveHTTP)).interleave E
          (sched.filter fun i => !registryFreeAt rs i)).broker.mcpRegistry ∧
      ∀ i, registryFreeAt rs i = false → ((Config.mk b (rs.map serveHTTP)).interleave E sched).threads[i]? =
        ((Config.mk b (rs.map serveHTTP)).interleave E (sched.filter fun i => !registryFreeAt rs i)).threads[i]? := by
  have h0 : (Config.mk b (rs.map serveHTTP)).Hides (registryFreeAt rs) ⟨b, rs.map serveHTTP⟩ :=
    ⟨rfl, fun _ _ => rfl, fun i p hi hp => by
      rw [List.getElem?_map] at hp
      cases hr : rs[i]? with
      | none => rw [hr] at hp; cases hp
      | some r =>
        rw [hr, Option.map_some', Option.some.injEq] at hp
        subst hp
        exact serveHTTP_registryFree
          (by simpa only [registryFreeAt, hr, Option.map_some', Option.getD_some, Bool.not_eq_true'] using hi)⟩
  have h := h0.interleave (E := E) sched
  exact ⟨h.registry, h.shown⟩

set_option maxRecDepth 20000 in
/-- `worker-1`'s registration, interleaved with `mallory`'s revoke of it, ends as if the revoke had never moved -/
theorem interleave_registry_free_unobserved_revoke :
    registryFreeAt [registerWithEndpoint, revokeByMallory] 0 = false ∧
      ((Config.mk newBroker ([registerWithEndpoint, revokeByMallory].map serveHTTP)).interleave Env.spec
          [0, 1, 0]).broker.mcpRegistry =
        ((Config.mk newBroker ([registerWithEndpoint, revokeByMallory].map serveHTTP)).interleave Env.spec
          ([0, 1, 0].filter fun i => !registryFreeAt [registerWithEndpoint, revokeByMallory] i)).broker.mcpRegistry ∧
      ((Config.mk newBroker ([registerWithEndpoint, revokeByMallory].map serveHTTP)).interleave Env.spec
          [0, 1, 0]).threads[0]? =
        ((Config.mk newBroker ([registerWithEndpoint, revokeByMallory].map serveHTTP)).interleave Env.spec
          ([0, 1, 0].filter fun i => !registryFreeAt [registerWithEndpoint, revokeByMallory] i)).threads[0]? :=
  have h := interleave_registry_free_unobserved Env.spec newBroker [registerWithEndpoint, revokeByMallory] [0, 1, 0]
  ⟨rfl, h.1, h.2 0 rfl⟩

end FepFem.Server
