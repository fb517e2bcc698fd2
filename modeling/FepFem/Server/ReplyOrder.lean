import FepFem.Server.Invariants

/-
The broker in the order its requests fix their replies: the registry, and every reply, are those of handling the
requests one at a time in that order.

A handler writes its reply in a step of its own (`Proc.respond`), after its last step on shared state; that last
step fixes the reply (`Proc.settledReply`) and is the request's commit. What a program run alone does to the
registry, and what it replies (`Proc.regRun`), do not depend on `b.agents` (`Proc.run_regRun`): no handler reads
it. Each handler reads and writes the registry, if at all, at its last shared step, and what it writes and replies
depends on the agent it reads from the registry only through that agent's id (`Proc.WritesLast`); an update that
finds no agent fixes its reply at once. A step that does not fix the reply therefore leaves the registry as it was,
and leaves what the rest of the program would do and reply on any later registry what the whole program would have
(`Proc.WritesLast.step`): a later registry still holds the agent read (the registry only grows) and, keyed, holds it
under the same id. The step that fixes the reply makes the whole write at once (`Proc.step_commit`); writing the
reply afterwards touches nothing shared (`Proc.step_of_settled`).

So along every interleaving the registry is the serial one over the requests that have committed, in the order they
committed (`Config.commitOrder`), and each of them has fixed the reply it gives there (`Config.ReplySerial`). The
replies may reach the clients in another order: a request writes its reply whenever it next moves. `b.agents` is
serializable in the order of the requests' first moves (`interleave_agents`); two registrations of one agent write
`b.agents` in one order and the registry in the other, which is why the two stores together are not
(`interleaved_registrations_diverge`). No client sees the difference: no reply reads `b.agents`.

Results:
- `interleave_registry`: along every interleaving of any requests, from a broker whose stores are keyed, the registry
  ends as `serveAll` leaves it on the requests that have committed, in the order they committed.
- `interleave_replies_serial`: along the same interleavings, the replies the committed requests have fixed, taken in
  the order they committed, are those `serveAll` gives the same requests in that order.
-/

namespace FepFem.Server

open FepFem.Json FepFem.Protocol

/-! ## What a program does to the registry -/

/-- the reply a program has fixed: written, or left to write -/
def Proc.settledReply : Proc → Option Response
  | .done r | .respond r => some r
  | _ => none

theorem Proc.settle_of_settledReply {p : Proc} {r : Response} (h : p.settledReply = some r) : p.settle = .done r := by
  cases p <;> cases h <;> rfl

theorem bind_settledReply (o : Option Proc) : o.bind Proc.settledReply = (o.map Proc.settle).bind Proc.reply := by
  rcases o with _ | p
  · rfl
  · cases p <;> rfl

/-- what a program run alone does to the registry `r`, and what it replies; `b.agents` plays no part, since no
program reads it -/
def Proc.regRun (E : Env) : Proc → Registry → Registry × Response
  | .done resp, r | .respond resp, r => (r, resp)
  | .lockAgents _ k, r => k.regRun E r
  | .registerAgent id a k, r =>
    match r.registerAgent E id a with
    | some r' => (k true).regRun E r'
    | none => (k false).regRun E r
  | .getAgent id k, r => (k (r.getAgent id)).regRun E r
  | .discoverTools q k, r => (k (E.discover r q)).regRun E r

theorem Proc.run_regRun (E : Env) (p : Proc) (b : Broker) :
    ((p.run E b).1.mcpRegistry, (p.run E b).2) = p.regRun E b.mcpRegistry := by
  induction p generalizing b with
  | done | respond => rfl
  | lockAgents f k ih => exact ih _
  | registerAgent id a k ih =>
    cases hr : b.mcpRegistry.registerAgent E id a <;> simp only [Proc.run, Proc.regRun, hr] <;> exact ih _ _
  | getAgent id k ih => exact ih _ _
  | discoverTools q k ih => exact ih _ _

/-- every agent `r` holds, `r'` holds too -/
def Registry.Grows (r r' : Registry) : Prop := ∀ a, (r.get a).isSome → (r'.get a).isSome

theorem Registry.Grows.trans {r r' r'' : Registry} (h : r.Grows r') (h' : r'.Grows r'') : r.Grows r'' :=
  fun a ha => h' a (h a ha)

theorem Proc.step_grows {E : Env} {p p' : Proc} {b b' : Broker} (h : p.step E b = some (p', b')) :
    b.mcpRegistry.Grows b'.mcpRegistry := by
  cases p with
  | done => cases h
  | registerAgent id a k =>
    simp only [Proc.step, Option.some.injEq] at h
    split at h <;> rename_i hr <;> cases h
    · intro x hx
      rw [registerAgent_eq_some hr, GoMap.get_set]
      split_ifs
      · rfl
      · exact hx
    · exact fun _ hx => hx
  | _ => cases h; exact fun _ hx => hx

/-! ## Programs that write the registry last -/

/-- a program that writes the registry, if at all, at its last shared step, and whose later steps, and reply,
depend on an agent it reads from the registry only through that agent's id; finding no agent fixes its reply -/
def Proc.WritesLast (E : Env) : Proc → Prop
  | .done _ | .respond _ => True
  | .lockAgents _ k => k.WritesLast E
  | .registerAgent _ _ k => ∀ ok, ∃ resp, k ok = .respond resp
  | .getAgent _ k => (∃ resp, k none = .respond resp) ∧ (∀ x, (k x).WritesLast E) ∧
      ∀ x y : MCPAgent, x.id = y.id → (k (some x)).regRun E = (k (some y)).regRun E
  | .discoverTools _ k => ∀ t, ∃ resp, k t = .respond resp

section WritesLast

variable {E : Env}

/-- the step lemma: a step that does not fix the reply leaves the registry as it was, and what is left of the
program does to any later keyed registry, and replies, what the whole program would have -/
theorem Proc.WritesLast.step {p p' : Proc} {b b' : Broker} (hp : p.WritesLast E)
    (hk : b.mcpRegistry.Keyed MCPAgent.id) (h : p.step E b = some (p', b')) (hd : p'.settledReply = none) :
    p'.WritesLast E ∧ b'.mcpRegistry = b.mcpRegistry ∧
      ∀ r, b.mcpRegistry.Grows r → r.Keyed MCPAgent.id → p'.regRun E r = p.regRun E r := by
  cases p with
  | done => cases h
  | respond => cases h; cases hd
  | lockAgents f k => cases h; exact ⟨hp, rfl, fun _ _ _ => rfl⟩
  | registerAgent id a k =>
    simp only [Proc.step, Option.some.injEq] at h
    split at h <;> cases h <;> obtain ⟨resp, e⟩ := hp _ <;> rw [e] at hd <;> cases hd
  | getAgent id k =>
    cases h
    cases hx : b.mcpRegistry.getAgent id with
    | none => obtain ⟨resp, e⟩ := hp.1; rw [hx, e] at hd; cases hd
    | some x =>
      refine ⟨hp.2.1 _, rfl, fun r hg hr => ?_⟩
      obtain ⟨y, hy⟩ := Option.isSome_iff_exists.1 (hg id (by rw [← Registry.getAgent, hx]; rfl))
      have hxy : x.id = y.id := (hk id x hx).trans (hr id y hy).symm
      rw [hp.2.2 x y hxy]
      simp only [Proc.regRun, Registry.getAgent, hy]
  | discoverTools q k =>
    cases h
    obtain ⟨resp, e⟩ := hp (E.discover b.mcpRegistry q)
    rw [e] at hd
    cases hd

/-- the step that fixes a program's reply makes the whole of its write -/
theorem Proc.step_commit {p p' : Proc} {b b' : Broker} {resp : Response} (h : p.step E b = some (p', b'))
    (hr : p'.settledReply = some resp) : (b'.mcpRegistry, resp) = p.regRun E b.mcpRegistry := by
  rw [← Proc.run_regRun, Proc.run_step h]
  cases p' <;> cases hr <;> rfl

/-- once its reply is fixed, a program's only step writes it, and touches nothing shared -/
theorem Proc.step_of_settled {p p' : Proc} {b b' : Broker} {r : Response} (hr : p.settledReply = some r)
    (h : p.step E b = some (p', b')) : p' = .done r ∧ b' = b := by
  cases p <;> cases hr <;> cases h
  exact ⟨rfl, rfl⟩

end WritesLast

/-! ## The handlers -/

section Handlers

variable {E : Env} (now : Nat → Time) (env : GenericEnvelope)

/-- the agent an update re-registers is its snapshot with every field but the id replaced -/
theorem embodied_eq_of_id {x y : MCPAgent} (h : x.id = y.id) (body : EmbodimentUpdateBody) (t : Time) :
    embodied x body t = embodied y body t := by
  cases x; cases y; cases h; rfl

theorem handleRegisterAgent_writesLast : (handleRegisterAgent now env).WritesLast E := by
  unfold handleRegisterAgent
  split
  · trivial
  · show Proc.WritesLast E (if _ then _ else _)
    split_ifs
    · exact fun _ => ⟨_, rfl⟩
    · trivial

theorem handleRevoke_writesLast : (handleRevoke env).WritesLast E := by
  unfold handleRevoke
  split <;> trivial

theorem handleDiscoverTools_writesLast : (handleDiscoverTools env).WritesLast E := by
  unfold handleDiscoverTools
  split
  · trivial
  · exact fun t => by cases t <;> exact ⟨_, rfl⟩

theorem handleEmbodimentUpdate_writesLast : (handleEmbodimentUpdate now env).WritesLast E := by
  unfold handleEmbodimentUpdate
  split
  · trivial
  · rename_i body _
    refine ⟨⟨_, rfl⟩, fun x => ?_, fun x y h => ?_⟩
    · cases x with
      | none => trivial
      | some agent => exact fun _ => ⟨_, rfl⟩
    · simp only [embodied_eq_of_id h]

theorem serveHTTP_writesLast (r : Request) : (serveHTTP r).WritesLast E :=
  serveHTTP_of_dispatch _ (fun _ => trivial) r fun _ env _ _ _ =>
    dispatch_of_handlers _ (fun _ => trivial) r.now env (fun _ => handleRegisterAgent_writesLast r.now env)
      (fun _ => handleRevoke_writesLast env) (handleDiscoverTools_writesLast env)
      (fun _ => handleEmbodimentUpdate_writesLast r.now env)

end Handlers

/-! ## Every interleaving -/

/-- the requests in the order a schedule makes them commit: the steps that fix their replies -/
def Config.commitOrder (E : Env) : Config → List Nat → List Nat
  | _, [] => []
  | c, i :: is =>
    (if ((c.threads[i]?).bind Proc.settledReply).isNone &&
        (((c.stepAt E i).threads[i]?).bind Proc.settledReply).isSome then [i]
      else []) ++ Config.commitOrder E (c.stepAt E i) is

theorem serial_getElem?_of_not_mem (E : Env) {j : Nat} :
    ∀ (order : List Nat) (c : Config), j ∉ order → (c.serial E order).threads[j]? = c.threads[j]?
  | [], _, _ => rfl
  | i :: is, c, hj => by
    rw [Config.serial_cons, serial_getElem?_of_not_mem E is _ fun h => hj (List.mem_cons_of_mem _ h)]
    unfold Config.runWhole
    cases c.threads[i]? with
    | none => rfl
    | some p => exact List.getElem?_set_ne fun e => hj (by rw [← e]; exact List.mem_cons_self _ _)

/-- handled whole one at a time, the requests reply as `serveAll` does -/
theorem serial_replies (E : Env) (rs : List Request) :
    ∀ (order : List Nat) (c : Config), order.Nodup → (∀ i ∈ order, c.threads[i]? = (rs[i]?).map serveHTTP) →
      (order.filterMap fun i => ((c.serial E order).threads[i]?).bind Proc.reply) =
        (c.broker.serveAll E (order.filterMap fun i => rs[i]?)).2
  | [], _, _, _ => rfl
  | i :: is, c, hn, hc => by
    rw [List.nodup_cons] at hn
    have hi := hc i (List.mem_cons_self _ _)
    have hrest : ∀ j ∈ is, (c.runWhole E i).threads[j]? = (rs[j]?).map serveHTTP := fun j hj =>
      (serial_getElem?_of_not_mem E [i] c fun h => hn.1 (List.mem_singleton.1 h ▸ hj)).trans
        (hc j (List.mem_cons_of_mem _ hj))
    rw [Config.serial_cons, List.filterMap_cons, List.filterMap_cons, serial_getElem?_of_not_mem E is _ hn.1]
    cases hr : rs[i]? with
    | none =>
      rw [hr, Option.map_none'] at hi
      have hc' : c.runWhole E i = c := by simp only [Config.runWhole, hi]
      rw [hc'] at hrest ⊢
      simpa only [hi, Option.none_bind] using serial_replies E rs is c hn.2 hrest
    | some r =>
      rw [hr, Option.map_some'] at hi
      simp only [Config.runWhole, hi, List.getElem?_set_self', Option.map_eq_map, Option.map_some',
        Function.const_apply, Option.some_bind, Proc.reply, Broker.serveAll]
      exact congrArg _ (serial_replies E rs is _ hn.2 (by simpa only [Config.runWhole, hi] using hrest))

/-- the registry is the serial one over the requests that have committed, in the order they committed, and each of
them has fixed the reply it gives there; the stores are keyed; and each request in flight that has not committed
would still do to any later keyed registry, and reply, what it does run whole -/
structure Config.ReplySerial (c : Config) (E : Env) (c₀ : Config) (order : List Nat) : Prop where
  registry : c.broker.mcpRegistry = (c₀.serial E order).broker.mcpRegistry
  committed : ∀ i ∈ order, (c.threads[i]?).map Proc.settle = (c₀.serial E order).threads[i]?
  keyed : c.Keeps E Broker.Keyed
  nodup : order.Nodup
  pending : ∀ i p, c.threads[i]? = some p → p.settledReply = none → i ∉ order ∧ p.WritesLast E ∧
    ∃ q, c₀.threads[i]? = some q ∧
      ∀ r, c.broker.mcpRegistry.Grows r → r.Keyed MCPAgent.id → p.regRun E r = q.regRun E r

section Serial

variable {E : Env} {c₀ : Config}

/-- replacing a request's program by one with the same reply fixed leaves every fixed reply as it was -/
theorem map_settle_set {l : List Proc} {j : Nat} {p p' : Proc} (hp : l[j]? = some p) (he : p'.settle = p.settle)
    (i : Nat) : ((l.set j p')[i]?).map Proc.settle = (l[i]?).map Proc.settle := by
  rw [List.getElem?_set']
  split_ifs with h
  · subst h
    rw [hp]
    exact congrArg some he
  · rfl

/-- writing a fixed reply leaves the registry, and every fixed reply, as they were -/
theorem Config.ReplySerial.step_settled {c : Config} {order : List Nat} (h : c.ReplySerial E c₀ order)
    {j : Nat} {p p' : Proc} {b' : Broker} {r : Response} (hp : c.threads[j]? = some p)
    (hr : p.settledReply = some r) (hs : p.step E c.broker = some (p', b'))
    (hk : Config.Keeps E Broker.Keyed ⟨b', c.threads.set j p'⟩) :
    Config.ReplySerial ⟨b', c.threads.set j p'⟩ E c₀ order := by
  obtain ⟨rfl, rfl⟩ := Proc.step_of_settled hr hs
  refine ⟨h.registry, fun i hi => ?_, hk, h.nodup, fun i p'' hi hr' => ?_⟩
  · have he : (Proc.done r).settle = p.settle := (Proc.settle_of_settledReply hr).symm
    rw [map_settle_set hp he]
    exact h.committed i hi
  · dsimp only at hi
    by_cases hij : i = j
    · subst hij
      rw [List.getElem?_set_self', hp] at hi
      cases hi
      cases hr'
    · exact h.pending i p'' (by rwa [List.getElem?_set_ne fun e => hij e.symm] at hi) hr'

/-- a step of request `j` that does not fix its reply leaves the registry, and the requests that have committed, as
they were -/
theorem Config.ReplySerial.step_pending {c : Config} {order : List Nat} (h : c.ReplySerial E c₀ order)
    {j : Nat} {p p' : Proc} {b' : Broker} (hp : c.threads[j]? = some p) (hp₀ : p.settledReply = none)
    (hs : p.step E c.broker = some (p', b')) (hd : p'.settledReply = none)
    (hk : Config.Keeps E Broker.Keyed ⟨b', c.threads.set j p'⟩) :
    Config.ReplySerial ⟨b', c.threads.set j p'⟩ E c₀ order := by
  obtain ⟨hj, hw, q, hq, heq⟩ := h.pending j p hp hp₀
  obtain ⟨hw', hb', heq'⟩ := hw.step h.keyed.1.registry hs hd
  refine ⟨hb'.trans h.registry, fun i hi => ?_, hk, h.nodup, fun i p'' hi hr => ?_⟩
  · rw [← h.committed i hi]
    exact congrArg _ (List.getElem?_set_ne fun e : j = i => hj (e ▸ hi))
  dsimp only at hi ⊢
  rw [hb']
  by_cases hij : i = j
  · subst hij
    rw [List.getElem?_set_self', hp] at hi
    cases hi
    exact ⟨hj, hw', q, hq, fun r hgr hkr => (heq' r hgr hkr).trans (heq r hgr hkr)⟩
  · exact h.pending i p'' (by rwa [List.getElem?_set_ne fun e => hij e.symm] at hi) hr

/-- the step that makes request `j` commit writes to the registry, and fixes as its reply, what `j` does run whole
after the requests that committed before it -/
theorem Config.ReplySerial.step_commit {c : Config} {order : List Nat} (h : c.ReplySerial E c₀ order)
    {j : Nat} {p p' : Proc} {resp : Response} {b' : Broker} (hp : c.threads[j]? = some p)
    (hp₀ : p.settledReply = none) (hs : p.step E c.broker = some (p', b')) (hc : p'.settledReply = some resp)
    (hk : Config.Keeps E Broker.Keyed ⟨b', c.threads.set j p'⟩) :
    Config.ReplySerial ⟨b', c.threads.set j p'⟩ E c₀ (order ++ [j]) := by
  obtain ⟨hj, -, q, hq, heq⟩ := h.pending j p hp hp₀
  have hs₀ : (c₀.serial E order).threads[j]? = some q := (serial_getElem?_of_not_mem E order c₀ hj).trans hq
  have hser : c₀.serial E (order ++ [j]) = (c₀.serial E order).runWhole E j := by
    simp only [Config.serial, List.foldl_append, List.foldl_cons, List.foldl_nil]
  have hser' : c₀.serial E (order ++ [j]) = ⟨(q.run E (c₀.serial E order).broker).1,
      (c₀.serial E order).threads.set j (.done (q.run E (c₀.serial E order).broker).2)⟩ := by
    rw [hser, Config.runWhole, hs₀]
  -- the whole step is `q` run on the serial broker, which holds the same registry
  have hrun : (b'.mcpRegistry, resp) =
      ((q.run E (c₀.serial E order).broker).1.mcpRegistry, (q.run E (c₀.serial E order).broker).2) := by
    rw [Proc.step_commit hs hc, heq _ (fun _ h => h) h.keyed.1.registry, h.registry, Proc.run_regRun]
  refine ⟨by rw [hser']; exact congrArg Prod.fst hrun, fun i hi => ?_, hk,
    List.nodup_append.2 ⟨h.nodup, List.nodup_singleton j, List.disjoint_singleton.2 hj⟩, fun i p'' hi hr => ?_⟩
  · dsimp only
    rw [hser']
    rcases List.mem_append.1 hi with hi | hi
    · have hij : j ≠ i := fun e => hj (e ▸ hi)
      rw [List.getElem?_set_ne hij, List.getElem?_set_ne hij]
      exact h.committed i hi
    · rw [List.mem_singleton.1 hi, List.getElem?_set_self', List.getElem?_set_self', hp, hs₀]
      simp only [Option.map_eq_map, Option.map_some', Function.const_apply, Proc.settle_of_settledReply hc,
        show resp = _ from congrArg Prod.snd hrun]
  · dsimp only at hi
    have hij : i ≠ j := by
      rintro rfl
      rw [List.getElem?_set_self', hp] at hi
      cases hi
      cases hc.symm.trans hr
    obtain ⟨hio, hwi, qi, hqi, heqi⟩ := h.pending i p'' (by rwa [List.getElem?_set_ne fun e => hij e.symm] at hi) hr
    exact ⟨fun hm => (List.mem_append.1 hm).elim hio fun e => hij (List.mem_singleton.1 e), hwi, qi, hqi,
      fun r hgr hkr => heqi r ((Proc.step_grows hs).trans hgr) hkr⟩

/-- the step lemma: a step of request `j` keeps the invariant, adding `j` to the order when it makes `j` commit -/
theorem Config.ReplySerial.stepAt {c : Config} {order : List Nat} (h : c.ReplySerial E c₀ order) (j : Nat) :
    (c.stepAt E j).ReplySerial E c₀
      (order ++ if ((c.threads[j]?).bind Proc.settledReply).isNone &&
        (((c.stepAt E j).threads[j]?).bind Proc.settledReply).isSome then [j] else []) := by
  have hk := h.keyed.stepAt j
  rcases Config.stepAt_cases E c j with e | ⟨p, p', b', hp, hs, e⟩ <;> rw [e] at hk ⊢
  · have hnone : ∀ o : Option Response, (o.isNone && o.isSome) = false := fun o => by cases o <;> rfl
    simpa only [hnone, Bool.false_eq_true, if_false, List.append_nil] using h
  · simp only [hp, List.getElem?_set_self', Option.map_eq_map, Option.map_some', Function.const_apply,
      Option.some_bind]
    cases hr : p.settledReply with
    | some r =>
      simpa only [Option.isNone_some, Bool.false_and, Bool.false_eq_true, if_false, List.append_nil] using
        h.step_settled hp hr hs hk
    | none =>
      cases hd : p'.settledReply with
      | none =>
        simpa only [Option.isSome_none, Bool.and_false, Bool.false_eq_true, if_false, List.append_nil] using
          h.step_pending hp hr hs hd hk
      | some resp =>
        simpa only [Option.isNone_none, Option.isSome_some, Bool.and_self, if_true] using h.step_commit hp hr hs hd hk

/-- the run lemma: along every schedule, the registry and the fixed replies stay the serial ones over the requests
committed so far -/
theorem Config.ReplySerial.interleave : ∀ (sched : List Nat) {c : Config} {order : List Nat},
    c.ReplySerial E c₀ order → (c.interleave E sched).ReplySerial E c₀ (order ++ c.commitOrder E sched)
  | [], _, _, h => by simpa only [Config.commitOrder, List.append_nil] using h
  | i :: is, _, _, h => by
    have := Config.ReplySerial.interleave is (h.stepAt i)
    rwa [List.append_assoc] at this

/-- no request has committed before the first step -/
theorem Config.ReplySerial.init (b : Broker) (rs : List Request) (hb : b.Keyed) :
    (Config.mk b (rs.map serveHTTP)).ReplySerial E ⟨b, rs.map serveHTTP⟩ [] :=
  ⟨rfl, fun _ h => (List.not_mem_nil _ h).elim, Config.Keeps.requests hb fun r _ => serveHTTP_keyed r,
    List.nodup_nil, fun i p hp _ => by
      refine ⟨List.not_mem_nil _, ?_, p, hp, fun _ _ _ => rfl⟩
      rw [List.getElem?_map, Option.map_eq_some'] at hp
      obtain ⟨r, -, rfl⟩ := hp
      exact serveHTTP_writesLast r⟩

end Serial

/-- along every interleaving of any requests, from a broker whose stores hold every agent under its own id, whatever
the registry does, the registry ends as handling the requests that have committed one at a time, in the order they
committed, leaves it -/
theorem interleave_registry (E : Env) (b : Broker) (rs : List Request) (sched : List Nat) (hb : b.Keyed) :
    ((Config.mk b (rs.map serveHTTP)).interleave E sched).broker.mcpRegistry =
      (b.serveAll E (((Config.mk b (rs.map serveHTTP)).commitOrder E sched).filterMap
        fun i => rs[i]?)).1.mcpRegistry := by
  have h := (Config.ReplySerial.init b rs hb (E := E)).interleave sched
  rw [List.nil_append] at h
  rw [h.registry, serial_broker E rs _ _ h.nodup fun i _ => List.getElem?_map ..]

set_option maxRecDepth 20000 in
/-- two registrations of `worker-1` interleaved step by step: the second commits first, and the registry ends as
handling the second and then the first leaves it -/
theorem interleave_registry_registrations :
    newBroker.Keyed ∧ (Config.mk newBroker ([registerE1, registerE2].map serveHTTP)).commitOrder Env.spec
        [0, 1, 1, 0, 0, 1] = [1, 0] ∧
      ((Config.mk newBroker ([registerE1, registerE2].map serveHTTP)).interleave Env.spec
          [0, 1, 1, 0, 0, 1]).broker.mcpRegistry =
        (newBroker.serveAll Env.spec (((Config.mk newBroker ([registerE1, registerE2].map serveHTTP)).commitOrder
          Env.spec [0, 1, 1, 0, 0, 1]).filterMap fun i => [registerE1, registerE2][i]?)).1.mcpRegistry :=
  ⟨.newBroker, rfl, interleave_registry Env.spec newBroker _ _ .newBroker⟩

/-- along every interleaving of any requests, from a broker whose stores hold every agent under its own id, whatever
the registry does, the replies the committed requests have fixed, taken in the order they committed, are those of
handling the same requests one at a time in that order: no reply reads `b.agents`, and each handler reads and
writes the registry only at the step that fixes its reply -/
theorem interleave_replies_serial (E : Env) (b : Broker) (rs : List Request) (sched : List Nat) (hb : b.Keyed) :
    (((Config.mk b (rs.map serveHTTP)).commitOrder E sched).filterMap fun i =>
        (((Config.mk b (rs.map serveHTTP)).interleave E sched).threads[i]?).bind Proc.settledReply) =
      (b.serveAll E (((Config.mk b (rs.map serveHTTP)).commitOrder E sched).filterMap fun i => rs[i]?)).2 := by
  have h := (Config.ReplySerial.init b rs hb (E := E)).interleave sched
  rw [List.nil_append] at h
  exact (List.filterMap_congr fun i hi => by rw [bind_settledReply, h.committed i hi]).trans
    (serial_replies E rs _ _ h.nodup fun i _ => List.getElem?_map ..)

set_option maxRecDepth 20000 in
/-- the same two registrations: they commit in the order `[1, 0]` and write their replies in the order `[0, 1]`,
each the reply it gets handled alone in the order `[1, 0]` -/
theorem interleave_replies_serial_registrations :
    newBroker.Keyed ∧ (Config.mk newBroker ([registerE1, registerE2].map serveHTTP)).commitOrder Env.spec
        [0, 1, 1, 0, 0, 1] = [1, 0] ∧
      ((Config.mk newBroker ([registerE1, registerE2].map serveHTTP)).commitOrder Env.spec
          [0, 1, 1, 0, 0, 1]).filterMap
          (fun i => (((Config.mk newBroker ([registerE1, registerE2].map serveHTTP)).interleave Env.spec
            [0, 1, 1, 0, 0, 1]).threads[i]?).bind Proc.settledReply) =
        (newBroker.serveAll Env.spec (((Config.mk newBroker ([registerE1, registerE2].map serveHTTP)).commitOrder
          Env.spec [0, 1, 1, 0, 0, 1]).filterMap fun i => [registerE1, registerE2][i]?)).2 :=
  ⟨.newBroker, rfl, interleave_replies_serial Env.spec newBroker _ _ .newBroker⟩

end FepFem.Server
