import FepFem.Protocol.ReadBack
import FepFem.Protocol.Signing
import FepFem.Server.Bodies
import FepFem.Server.Stores

/-
A client's envelope, through the wire, to the broker's handler.

A client builds one of the protocol's typed envelopes and POSTs `json.Marshal` of it; the broker parses the bytes
with `ParseEnvelope`, `dispatch` picks the handler by the type, and the handler decodes the body. Every key the
encoder writes is a property of the envelope schema with the right type, except that the schema wants the body to be
an object (`schemaOk_encode`). So the strict parse accepts the bytes exactly when the body is an object nested less
than `maxNestingDepth` deep (the envelope takes one more level) and the agent id has the schema's pattern, and then
gives back the header, strings coerced to UTF-8, and the body's JSON, whenever the type is one of the enumeration
(`parseEnvelope_encode`). Every typed body encodes to an object; a discovery or revoke body always nests within the
limit, a body carrying `interface{}` values only when they do. The handlers that decode the protocol's own body types
then read the client's body back.

Results:
- `parseEnvelope_marshal`: every envelope of a type of the enumeration, from an agent id of the schema's pattern and
  with a body that encodes to an object within the nesting limit, marshalled, parses back into its header and its
  body's JSON;
- `serveHTTP_marshal_headers`: the broker handles an envelope a client marshals the same whatever its signature,
  nonce and timestamp;
- `discoverTools_reread`: a discovery body, marshalled and unmarshalled, is the client's, strings coerced;
- `serve_discoverTools_marshal`: a discovery a client marshals reaches `handleDiscoverTools` with the client's body;
- `serve_revoke_marshal`: a revoke a client marshals removes its target from `b.agents`, whoever sent it, signed or
  not, and leaves the registry as it was;
- `registerAgent_reread`: a registration body whose `interface{}` values are portable and which nests within the
  limit, marshalled and unmarshalled, is its normal form;
- `serve_registerAgent_marshal`: a registration a client marshals is written, and stores the body's normal form under
  the sender's name, at the request's clock readings;
- `serve_embodimentUpdate_marshal`: an embodiment update a client marshals is written, and re-registers the agent the
  registry holds, if any, with the update's normal form.
-/

namespace FepFem.Server

open FepFem.Json FepFem.Protocol

/-! ## What the broker parses -/

theorem envelopeTypes_ascii : ∀ t ∈ envelopeTypes, ∀ c ∈ t, c.toNat < 0x80 := by decide

/-- what the encoder writes for an envelope meets the schema exactly when its body is an object -/
theorem schemaOk_encode (b : BaseEnvelope) (c : Canon) :
    schemaOk (members (b.members ++ [(ascii "body", c)])) = propertyOk (ascii "body") c.val := by
  cases h : b.sig.isEmpty <;>
    simp +decide [schemaOk, BaseEnvelope.members, h, members, unquote_quoteRaw, propertyOk, Canon.str, Canon.int]

/-- what `ParseEnvelope` makes of the encoder's text for an envelope: the envelope, strings coerced to UTF-8, when its
body is an object nested less than `maxNestingDepth` deep and its agent id has the schema's pattern, and the type is
one of the enumeration -/
theorem parseEnvelope_encode (b : BaseEnvelope) (c : Canon) :
    parseEnvelope (Canon.obj (b.members ++ [(ascii "body", c)])).val.print =
      if c.val.depth < maxNestingDepth ∧ propertyOk (ascii "body") c.val = true ∧
          agentIdOk (coerceUtf8 b.agent) = true then
        if coerceUtf8 b.type ∈ envelopeTypes then
          .ok ⟨⟨⟨coerceUtf8 b.agent, b.ts, coerceUtf8 b.nonce, coerceUtf8 b.sig⟩, coerceUtf8 b.type⟩, some c.val.print⟩
        else .error .unknownType
      else .error .malformedEnvelope := by
  have hdec := @Envelope.decode_encode true b c
  rw [parseEnvelope, parseTop_print (Canon.obj _).wf, Envelope.depth_encode]
  by_cases hd : c.val.depth < maxNestingDepth
  · rw [if_pos (show c.val.depth + 1 ≤ maxNestingDepth by omega)]
    simp only [Canon.obj] at hdec ⊢
    simp only [hdec, schemaOk_encode, hd, true_and, Bool.and_eq_true]
  · rw [if_neg (show ¬c.val.depth + 1 ≤ maxNestingDepth by omega)]
    simp only [hd, false_and, if_false]

/-- the encoder's text for an envelope whose type is one of the enumeration, whose agent id has the schema's
pattern and whose body is an object nested less than `maxNestingDepth` deep parses back -/
theorem parseEnvelope_encode_ok (b : BaseEnvelope) (c : Canon) (ht : b.type ∈ envelopeTypes)
    (ha : agentIdOk (coerceUtf8 b.agent) = true) (hd : c.val.depth < maxNestingDepth) (ho : ∃ ms, c.val = .obj ms) :
    parseEnvelope (Canon.obj (b.members ++ [(ascii "body", c)])).val.print =
      .ok ⟨⟨⟨coerceUtf8 b.agent, b.ts, coerceUtf8 b.nonce, coerceUtf8 b.sig⟩, b.type⟩, some c.val.print⟩ := by
  obtain ⟨ms, ho⟩ := ho
  have hty : coerceUtf8 b.type = b.type := coerceUtf8_of_valid (valid_of_ascii (envelopeTypes_ascii _ ht))
  rw [parseEnvelope_encode, if_pos ⟨hd, by rw [ho]; rfl, ha⟩, hty, if_pos ht]

/-- what a client marshals is the encoder's envelope text around its body's encoding -/
theorem mem_marshal_enveloped {β : Type} {encBody : Encoder β} {x : Enveloped β} {data : Bytes}
    (hd : data ∈ marshal (Enveloped.encode encBody) x) :
    ∃ c, encBody x.body = some c ∧ (Canon.obj (x.members ++ [(ascii "body", c)])).val.print = data := by
  rwa [marshal_encode, Option.mem_def, Option.map_eq_some'] at hd

/-- a handler reads a body the encoder wrote within the nesting limit as its decoder reads the encoder's value -/
theorem unmarshalBody_print {α : Type} (dec : Decoder α) (zero : α) {env : GenericEnvelope} {c : Canon}
    (hb : env.body = some c.val.print) (hd : c.val.depth ≤ maxNestingDepth) :
    unmarshalBody dec zero env = dec c.val zero := by
  rw [unmarshalBody, hb, Option.getD_some, unmarshal_print_of_depth _ _ hd]

/-- every envelope of a type of the enumeration, with an agent id of the schema's pattern and a body that encodes to
an object nested less than `maxNestingDepth` deep, marshalled, parses back into its header, strings coerced to UTF-8,
and its body's JSON -/
theorem parseEnvelope_marshal {β : Type} (encBody : Encoder β) (x : Enveloped β) (ht : x.type ∈ envelopeTypes)
    (ha : agentIdOk (coerceUtf8 x.agent) = true)
    (hb : ∀ c ∈ encBody x.body, c.val.depth < maxNestingDepth ∧ ∃ ms, c.val = .obj ms) :
    ∀ data ∈ marshal (Enveloped.encode encBody) x, ∃ c, encBody x.body = some c ∧
      parseEnvelope data = .ok ⟨⟨⟨coerceUtf8 x.agent, x.ts, coerceUtf8 x.nonce, coerceUtf8 x.sig⟩, x.type⟩,
        some c.val.print⟩ := by
  intro data hd
  obtain ⟨c, hc, rfl⟩ := mem_marshal_enveloped hd
  exact ⟨c, hc, parseEnvelope_encode_ok _ c ht ha (hb c hc).1 (hb c hc).2⟩

/-- a struct's encoding is an object -/
theorem encStruct_obj {fs : List FieldOut} {c : Canon} (h : encStruct fs = some c) : ∃ ms, c.val = .obj ms := by
  obtain ⟨ms, rfl, -⟩ := encStruct_key_mem h
  exact ⟨_, rfl⟩

/-- a discovery body encodes to an object nested three deep -/
theorem discoverTools_body_ok (b : DiscoverToolsBody) :
    ∀ c ∈ DiscoverToolsBody.encode b, c.val.depth < maxNestingDepth ∧ ∃ ms, c.val = .obj ms := fun _ hc =>
  ⟨lt_of_le_of_lt (DiscoverToolsBody.depth_encode hc) (by decide), encStruct_obj hc⟩

/-- a discovery of `worker-1` for tools that navigate -/
def discoverNav : DiscoverToolsEnvelope :=
  ⟨⟨⟨ascii "worker-1", Int64.zero, ascii "n6", []⟩, envelopeDiscoverTools⟩,
    ⟨⟨some [ascii "nav"], ascii "sim", Int64.zero, false⟩, ascii "r1"⟩⟩

theorem parseEnvelope_marshal_discoverNav :
    discoverNav.type ∈ envelopeTypes ∧ agentIdOk (coerceUtf8 discoverNav.agent) = true ∧
      (∀ c ∈ DiscoverToolsBody.encode discoverNav.body, c.val.depth < maxNestingDepth ∧ ∃ ms, c.val = .obj ms) ∧
      ∀ data ∈ marshal (Enveloped.encode DiscoverToolsBody.encode) discoverNav, ∃ c,
        DiscoverToolsBody.encode discoverNav.body = some c ∧
        parseEnvelope data = .ok ⟨⟨⟨coerceUtf8 discoverNav.agent, discoverNav.ts, coerceUtf8 discoverNav.nonce,
          coerceUtf8 discoverNav.sig⟩, discoverNav.type⟩, some c.val.print⟩ :=
  have ht : discoverNav.type ∈ envelopeTypes := by decide
  have ha : agentIdOk (coerceUtf8 discoverNav.agent) = true := by decide
  ⟨ht, ha, discoverTools_body_ok _, parseEnvelope_marshal _ discoverNav ht ha (discoverTools_body_ok _)⟩

/-! ## Signatures, nonces and timestamps -/

/-- the broker never reads a signature, a nonce or a timestamp: an envelope a client marshals is handled the same
whatever they are (forged, replayed, stale or empty), in every state and along every interleaving -/
theorem serveHTTP_marshal_headers {β : Type} (encBody : Encoder β) (x : Enveloped β) (ts : Int64) (nonce sig : Bytes) :
    (marshal (Enveloped.encode encBody) { x with ts := ts, nonce := nonce, sig := sig }).map (serveHTTP ∘ post) =
      (marshal (Enveloped.encode encBody) x).map (serveHTTP ∘ post) := by
  rw [marshal_encode, marshal_encode]
  cases encBody x.body with
  | none => rfl
  | some c =>
    simp only [Option.map_some', Function.comp_apply, Option.some.injEq, serveHTTP, post, parseEnvelope_encode]
    split_ifs <;> rfl

/-! ## Discovery -/

/-- a discovery body, marshalled and unmarshalled into a fresh `DiscoverToolsBody`, is the client's, strings coerced to
UTF-8, whichever of its `omitempty` fields were left out -/
theorem discoverTools_reread (b : DiscoverToolsBody) :
    reread DiscoverToolsBody.encode DiscoverToolsBody.decode .zero b = some b.coerced := by
  obtain ⟨c, hc, hd⟩ := b.decode_encode
  rw [reread_eq, hc, Option.some_bind, if_pos ((discoverTools_body_ok b c hc).1.le), hd]

theorem dispatch_discoverTools {now : Nat → Time} {env : GenericEnvelope} (h : env.type = envelopeDiscoverTools) :
    dispatch now env = handleDiscoverTools env := by
  simp +decide only [dispatch, h, if_false, if_true]

/-- a discovery a client marshals, from an agent id of the schema's pattern, reaches `handleDiscoverTools` on an
envelope from the client's agent, whose body reads back as the client's -/
theorem serve_discoverTools_marshal (x : DiscoverToolsEnvelope) (ht : x.type = envelopeDiscoverTools)
    (ha : agentIdOk (coerceUtf8 x.agent) = true) :
    ∀ data ∈ marshal (Enveloped.encode DiscoverToolsBody.encode) x, ∃ env,
      serveHTTP (post data) = handleDiscoverTools env ∧ env.agent = coerceUtf8 x.agent ∧
        getBodyAs DiscoverToolsBody.decode .zero env = some x.body.coerced := by
  intro data hd
  obtain ⟨c, hc, rfl⟩ := mem_marshal_enveloped hd
  obtain ⟨c', hc', hdec⟩ := x.body.decode_encode
  obtain rfl : c = c' := Option.some.inj (hc.symm.trans hc')
  obtain ⟨hdc, ho⟩ := discoverTools_body_ok x.body c hc
  have hp := parseEnvelope_encode_ok x.toBaseEnvelope c (by rw [ht]; decide) ha hdc ho
  refine ⟨⟨⟨⟨coerceUtf8 x.agent, x.ts, coerceUtf8 x.nonce, coerceUtf8 x.sig⟩, x.type⟩, some c.val.print⟩, ?_, rfl, ?_⟩
  · simp +decide only [serveHTTP, post, hp, and_false, if_false, ne_eq, not_true_eq_false]
    exact dispatch_discoverTools ht
  · exact (unmarshalBody_print _ _ rfl hdc.le).trans hdec

theorem serve_discoverTools_marshal_nav :
    discoverNav.type = envelopeDiscoverTools ∧ agentIdOk (coerceUtf8 discoverNav.agent) = true ∧
      ∀ data ∈ marshal (Enveloped.encode DiscoverToolsBody.encode) discoverNav, ∃ env,
        serveHTTP (post data) = handleDiscoverTools env ∧ env.agent = coerceUtf8 discoverNav.agent ∧
          getBodyAs DiscoverToolsBody.decode .zero env = some discoverNav.body.coerced :=
  have ha : agentIdOk (coerceUtf8 discoverNav.agent) = true := by decide
  ⟨rfl, ha, serve_discoverTools_marshal discoverNav rfl ha⟩

/-! ## Revocation -/

/-- a revoke body encodes to an object of strings -/
theorem revoke_body_ok (b : RevokeBody) :
    ∀ c ∈ RevokeBody.encode b, c.val.depth < maxNestingDepth ∧ ∃ ms, c.val = .obj ms := fun _ hc =>
  ⟨lt_of_le_of_lt (encStruct_depth (n := 0) hc fun f hf v hv => by
      simp only [List.mem_cons, List.not_mem_nil, or_false] at hf
      rcases hf with rfl | rfl <;>
        simp only [FieldOut.always, FieldOut.omitEmpty, encString, Option.mem_def, Option.some.injEq] at hv <;>
        subst hv <;> exact Nat.le_refl 0) (by decide),
    encStruct_obj hc⟩

/-- a revoke a client marshals, from an agent id of the schema's pattern, removes its target from `b.agents`,
whoever sent it and whether or not it is signed, and leaves the registry as it was -/
theorem serve_revoke_marshal (E : Env) (b : Broker) (x : Enveloped RevokeBody) (ht : x.type = envelopeRevoke)
    (ha : agentIdOk (coerceUtf8 x.agent) = true) :
    ∀ data ∈ marshal (Enveloped.encode RevokeBody.encode) x,
      b.serve E (post data) = (⟨b.agents.delete (coerceUtf8 x.body.target), b.mcpRegistry⟩,
        jsonReply [strEntry "status" (ascii "revoked"), strEntry "target" (coerceUtf8 x.body.target)]) := by
  intro data hd
  obtain ⟨c, hc, rfl⟩ := mem_marshal_enveloped hd
  obtain ⟨hdc, ho⟩ := revoke_body_ok x.body c hc
  have hp := parseEnvelope_encode_ok x.toBaseEnvelope c (by rw [ht]; decide) ha hdc ho
  have hb : unmarshalBody RevokeIn.decode .zero ⟨⟨⟨coerceUtf8 x.agent, x.ts, coerceUtf8 x.nonce, coerceUtf8 x.sig⟩,
      x.type⟩, some c.val.print⟩ = some ⟨coerceUtf8 x.body.target, coerceUtf8 x.body.reason⟩ := by
    rw [← revoke_decode, reread, marshal, hc]
    rfl
  exact serve_revoke ⟨rfl, _, rfl, hp⟩ ht hb

/-- `mallory` revokes `worker-1`, unsigned -/
def revokeWorker1 : Enveloped RevokeBody :=
  ⟨⟨⟨ascii "mallory", Int64.zero, ascii "m2", []⟩, envelopeRevoke⟩, ⟨ascii "worker-1", []⟩⟩

/-- on the broker where `worker-1` has registered -/
theorem serve_revoke_marshal_mallory :
    revokeWorker1.type = envelopeRevoke ∧ agentIdOk (coerceUtf8 revokeWorker1.agent) = true ∧
      ∀ data ∈ marshal (Enveloped.encode RevokeBody.encode) revokeWorker1,
        (newBroker.serve Env.spec registerWithEndpoint).1.serve Env.spec (post data) =
          (⟨(newBroker.serve Env.spec registerWithEndpoint).1.agents.delete (coerceUtf8 revokeWorker1.body.target),
            (newBroker.serve Env.spec registerWithEndpoint).1.mcpRegistry⟩,
          jsonReply [strEntry "status" (ascii "revoked"), strEntry "target" (coerceUtf8 revokeWorker1.body.target)]) :=
  have ha : agentIdOk (coerceUtf8 revokeWorker1.agent) = true := by decide
  ⟨rfl, ha, serve_revoke_marshal Env.spec _ revokeWorker1 rfl ha⟩

/-! ## Registration -/

/-- a registration body whose `interface{}` values are portable and which nests at most `maxNestingDepth` deep,
marshalled and unmarshalled into a fresh `RegisterAgentBody`, is its normal form -/
theorem registerAgent_reread (b : RegisterAgentBody) (hr : b.portable = true)
    (hd : ∀ c ∈ RegisterAgentBody.encode b, c.val.depth ≤ maxNestingDepth) :
    reread RegisterAgentBody.encode RegisterAgentBody.decode .zero b = some b.reread := by
  obtain ⟨c, hc, hdec⟩ := b.decode_encode hr
  rw [reread_eq, hc, Option.some_bind, if_pos (hd c hc), hdec]

/-- a rover's registration: a body definition that can navigate, and an MCP endpoint -/
def roverBody : RegisterAgentBody :=
  ⟨ascii "k", some [ascii "nav"], none, ascii "rover-1.local:7070",
    some ⟨ascii "rover", ascii "sim", some [ascii "nav"], none, none,
      some [(ascii "wheels", .int ⟨6, by decide, by decide⟩)]⟩, []⟩

theorem registerAgent_reread_rover :
    roverBody.portable = true ∧ (∀ c ∈ RegisterAgentBody.encode roverBody, c.val.depth ≤ maxNestingDepth) ∧
      reread RegisterAgentBody.encode RegisterAgentBody.decode .zero roverBody = some roverBody.reread :=
  have hd : ∀ c ∈ RegisterAgentBody.encode roverBody, c.val.depth ≤ maxNestingDepth := fun _ hc => by
    cases hc; decide
  ⟨rfl, hd, registerAgent_reread roverBody rfl hd⟩

/-- a registration a client marshals, from an agent id of the schema's pattern, with a portable body nested less than
`maxNestingDepth` deep, is written by every `POST` that carries it: the broker stores the body's normal form under the
sender's name, registered at the request's first clock reading, and asks the registry to register the agent built
from it, its heartbeat the second reading, when it names an endpoint -/
theorem serve_registerAgent_marshal (E : Env) (b : Broker) (x : Enveloped RegisterAgentBody)
    (ht : x.type = envelopeRegisterAgent) (hr : x.body.portable = true) (ha : agentIdOk (coerceUtf8 x.agent) = true)
    (hd : ∀ c ∈ RegisterAgentBody.encode x.body, c.val.depth < maxNestingDepth) :
    ∃ data, marshal (Enveloped.encode RegisterAgentBody.encode) x = some data ∧
      ∀ r : Request, r.method = ascii "POST" → r.body = some data →
        b.serve E r =
          (⟨b.agents.set (coerceUtf8 x.agent)
              ⟨coerceUtf8 x.agent, x.body.reread.capabilities, x.body.reread.mcpEndpoint, r.now 0⟩,
            if x.body.reread.mcpEndpoint ≠ [] then
              (b.mcpRegistry.registerAgent E (coerceUtf8 x.agent)
                (mcpAgentOf (coerceUtf8 x.agent) x.body.reread (r.now 1))).getD b.mcpRegistry
            else b.mcpRegistry⟩,
          jsonReply [strEntry "status" (ascii "registered"), strEntry "agent" (coerceUtf8 x.agent)]) := by
  obtain ⟨c, hc, hdec⟩ := x.body.decode_encode hr
  refine ⟨_, by rw [marshal_encode, hc, Option.map_some'], fun r hm hb => ?_⟩
  have hp := parseEnvelope_encode_ok x.toBaseEnvelope c (by rw [ht]; decide) ha (hd c hc) (encStruct_obj hc)
  exact serve_registerAgent ⟨hm, _, hb, hp⟩ ht
    ((unmarshalBody_print _ _ rfl (hd c hc).le).trans hdec)

/-- `rover-1` registers its body -/
def registerRover1 : Enveloped RegisterAgentBody :=
  ⟨⟨⟨ascii "rover-1", Int64.zero, ascii "n1", []⟩, envelopeRegisterAgent⟩, roverBody⟩

theorem serve_registerAgent_marshal_rover :
    registerRover1.type = envelopeRegisterAgent ∧ registerRover1.body.portable = true ∧
      agentIdOk (coerceUtf8 registerRover1.agent) = true ∧
      (∀ c ∈ RegisterAgentBody.encode registerRover1.body, c.val.depth < maxNestingDepth) ∧
      ∃ data, marshal (Enveloped.encode RegisterAgentBody.encode) registerRover1 = some data ∧
        ∀ r : Request, r.method = ascii "POST" → r.body = some data →
          newBroker.serve Env.spec r =
            (⟨newBroker.agents.set (coerceUtf8 registerRover1.agent)
                ⟨coerceUtf8 registerRover1.agent, registerRover1.body.reread.capabilities,
                  registerRover1.body.reread.mcpEndpoint, r.now 0⟩,
              if registerRover1.body.reread.mcpEndpoint ≠ [] then
                (newBroker.mcpRegistry.registerAgent Env.spec (coerceUtf8 registerRover1.agent)
                  (mcpAgentOf (coerceUtf8 registerRover1.agent) registerRover1.body.reread (r.now 1))).getD
                  newBroker.mcpRegistry
              else newBroker.mcpRegistry⟩,
            jsonReply [strEntry "status" (ascii "registered"), strEntry "agent" (coerceUtf8 registerRover1.agent)]) :=
  have ha : agentIdOk (coerceUtf8 registerRover1.agent) = true := by decide
  have hd : ∀ c ∈ RegisterAgentBody.encode registerRover1.body, c.val.depth < maxNestingDepth := fun _ hc => by
    cases hc; decide
  ⟨rfl, rfl, ha, hd, serve_registerAgent_marshal Env.spec newBroker registerRover1 rfl rfl ha hd⟩

/-! ## Embodiment updates -/

/-- an embodiment update a client marshals, from an agent id of the schema's pattern, with a portable body nested less
than `maxNestingDepth` deep, is written by every `POST` that carries it: the broker re-registers the agent the
registry holds under the sender's name, if any, with the update's normal form and the request's first clock reading
as its heartbeat, and leaves `b.agents` as it was -/
theorem serve_embodimentUpdate_marshal (E : Env) (b : Broker) (x : Enveloped EmbodimentUpdateBody)
    (ht : x.type = envelopeEmbodimentUpdate) (hr : x.body.portable = true) (ha : agentIdOk (coerceUtf8 x.agent) = true)
    (hd : ∀ c ∈ EmbodimentUpdateBody.encode x.body, c.val.depth < maxNestingDepth) :
    ∃ data, marshal (Enveloped.encode EmbodimentUpdateBody.encode) x = some data ∧
      ∀ r : Request, r.method = ascii "POST" → r.body = some data →
        b.serve E r =
          (⟨b.agents, match b.mcpRegistry.getAgent (coerceUtf8 x.agent) with
            | some agent => (b.mcpRegistry.registerAgent E (coerceUtf8 x.agent)
                (embodied agent x.body.reread (r.now 0))).getD b.mcpRegistry
            | none => b.mcpRegistry⟩,
          jsonReply [strEntry "status" (ascii "updated"), strEntry "agent" (coerceUtf8 x.agent)]) := by
  obtain ⟨c, hc, hdec⟩ := x.body.decode_encode hr
  refine ⟨_, by rw [marshal_encode, hc, Option.map_some'], fun r hm hb => ?_⟩
  have hp := parseEnvelope_encode_ok x.toBaseEnvelope c (by rw [ht]; decide) ha (hd c hc) (encStruct_obj hc)
  exact serve_embodimentUpdate ⟨hm, _, hb, hp⟩ ht
    ((unmarshalBody_print _ _ rfl (hd c hc).le).trans hdec)

/-- `rover-1` moves to a new environment, with its body as before -/
def moveRover1 : Enveloped EmbodimentUpdateBody :=
  ⟨⟨⟨ascii "rover-1", Int64.zero, ascii "n2", []⟩, envelopeEmbodimentUpdate⟩,
    ⟨ascii "lab", (roverBody.bodyDefinition.getD .zero), ascii "rover-1.lab:7070", none⟩⟩

theorem serve_embodimentUpdate_marshal_rover :
    moveRover1.type = envelopeEmbodimentUpdate ∧ moveRover1.body.portable = true ∧
      agentIdOk (coerceUtf8 moveRover1.agent) = true ∧
      (∀ c ∈ EmbodimentUpdateBody.encode moveRover1.body, c.val.depth < maxNestingDepth) ∧
      ∃ data, marshal (Enveloped.encode EmbodimentUpdateBody.encode) moveRover1 = some data ∧
        ∀ r : Request, r.method = ascii "POST" → r.body = some data →
          newBroker.serve Env.spec r =
            (⟨newBroker.agents, match newBroker.mcpRegistry.getAgent (coerceUtf8 moveRover1.agent) with
              | some agent => (newBroker.mcpRegistry.registerAgent Env.spec (coerceUtf8 moveRover1.agent)
                  (embodied agent moveRover1.body.reread (r.now 0))).getD newBroker.mcpRegistry
              | none => newBroker.mcpRegistry⟩,
            jsonReply [strEntry "status" (ascii "updated"), strEntry "agent" (coerceUtf8 moveRover1.agent)]) :=
  have ha : agentIdOk (coerceUtf8 moveRover1.agent) = true := by decide
  have hd : ∀ c ∈ EmbodimentUpdateBody.encode moveRover1.body, c.val.depth < maxNestingDepth := fun _ hc => by
    cases hc; decide
  ⟨rfl, rfl, ha, hd, serve_embodimentUpdate_marshal Env.spec newBroker moveRover1 rfl rfl ha hd⟩

end FepFem.Server
