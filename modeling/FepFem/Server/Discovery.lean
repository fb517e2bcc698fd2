import FepFem.Server.Stores

/-
Tool discovery: what `handleDiscoverTools` answers, read as a client reads it.

A client reads a reply by decoding its body (`Response.field`). The newline `Encoder.Encode` writes after the map's
JSON is whitespace, so a reply reads back as the map the handler built, unless the map nests deeper than
`maxNestingDepth`, which the client's decoder refuses (`field_jsonReply`). A discovery reply lists
the tools of its `tools` array (`Response.listed`) and says through `hasMore` whether more matched
(`Response.hasMore`); the agents that match a query are the registered ones `matchesQuery` accepts (`matchCount`).

`handleDiscoverTools` writes `hasMore: false` whatever the registry returns, and never reads `maxResults`. With the
specification's registry, which truncates to `maxResults`, the reply keeps to the bound; whenever more agents match
than `maxResults`, it then lists fewer than match without saying so. With any registry, a reply to such a query
either exceeds the bound or hides that more match.

Results:
- `field_jsonReply`: what a client reads of a JSON reply;
- `hasMore_handleDiscoverTools`: whatever the registry answers, the reply's `hasMore` is false;
- `listed_le_maxResults`: with the specification's registry, the reply lists at most `maxResults` tools;
- `discovery_hides_truncation`: when more registered agents match than `maxResults`, the reply exceeds the bound or
  hides that more match.
-/

namespace FepFem.Server

open FepFem.Json FepFem.Protocol

/-! ## What a client reads of a reply -/

/-- the value a client reads under the Go string key `k` of the JSON object a reply carries, as `json.Unmarshal` of
the body into a `map[string]interface{}` reads it: the last member whose key decodes to `k` -/
def Response.field (resp : Response) (k : Bytes) : Option Value :=
  match parseTop resp.body with
  | some (.obj ms) => (ms.reverse.find? fun m => unquote m.1 = some k).map (·.2)
  | _ => none

/-- how many tools a discovery reply lists: the length of its `tools` array -/
def Response.listed (resp : Response) : Nat :=
  match resp.field (ascii "tools") with
  | some (.arr ts) => ts.length
  | _ => 0

/-- whether a discovery reply says that more tools match than it lists -/
def Response.hasMore (resp : Response) : Bool :=
  match resp.field (ascii "hasMore") with
  | some (.bool b) => b
  | _ => false

/-- what a client reads of a JSON reply: a member of the encoded map, keys sorted; nothing when a value did not
encode and the reply is empty, or when the map nests deeper than the client's decoder reads -/
theorem field_jsonReply (ms : List (Bytes × Option Canon)) (k : Bytes) :
    (jsonReply ms).field k = (ms.mapM fun (m : Bytes × Option Canon) => m.2.map (m.1, ·)).bind fun cs =>
      if (Canon.obj (sortKeys cs)).val.depth ≤ maxNestingDepth then
        ((members (sortKeys cs)).reverse.find? fun m => unquote m.1 = some k).map (·.2)
      else none := by
  cases h : ms.mapM fun m => m.2.map (m.1, ·) with
  | none => simp only [Response.field, jsonReply, h]; rfl
  | some cs =>
    simp only [Response.field, jsonReply, h, Canon.obj, Option.some_bind,
      parseTop_obj_append (wfMembers_members _) (show skipSpace [0x0A] = [] from rfl)]
    split_ifs <;> rfl

/-- a client reads a member of the encoded map, or nothing -/
theorem field_jsonReply_eq_or (ms : List (Bytes × Option Canon)) (k : Bytes) :
    (jsonReply ms).field k = none ∨ (jsonReply ms).field k =
      (ms.mapM fun (m : Bytes × Option Canon) => m.2.map (m.1, ·)).bind
        fun cs => ((members (sortKeys cs)).reverse.find? fun m => unquote m.1 = some k).map (·.2) := by
  rw [field_jsonReply]
  cases ms.mapM fun m => m.2.map (m.1, ·) with
  | none => exact .inl rfl
  | some cs =>
    by_cases hd : (Canon.obj (sortKeys cs)).val.depth ≤ maxNestingDepth
    · exact .inr (by simp only [Option.some_bind, if_pos hd])
    · exact .inl (by simp only [Option.some_bind, if_neg hd])

/-! ## Discovery replies -/

/-- how many registered agents match the query -/
def matchCount (r : Registry) (q : ToolQuery) : Nat := ((r.map (·.2)).filter (matchesQuery q)).length

/-- whatever the registry answers, the reply never says that more tools match than it lists -/
theorem hasMore_handleDiscoverTools (E : Env) (b : Broker) (env : GenericEnvelope) :
    ((handleDiscoverTools env).run E b).2.hasMore = false := by
  unfold handleDiscoverTools
  split
  · rfl
  · simp only [Proc.run]
    split
    · rfl
    · rename_i tools _
      simp only [Proc.run, Response.hasMore]
      rcases field_jsonReply_eq_or _ (ascii "hasMore") with h | h <;> rw [h]
      cases encSlice DiscoveredTool.encode tools <;> rfl

/-- what a discovery replies when its body decodes and the registry answers -/
theorem handleDiscoverTools_reply (E : Env) (b : Broker) (env : GenericEnvelope) {body : DiscoverToolsBody}
    {tools : Option (List DiscoveredTool)} (hb : getBodyAs DiscoverToolsBody.decode .zero env = some body)
    (ht : E.discover b.mcpRegistry body.query = some tools) :
    ((handleDiscoverTools env).run E b).2 = jsonReply [strEntry "status" (ascii "success"),
      strEntry "requestId" body.requestID, (ascii "tools", encSlice DiscoveredTool.encode tools),
      (ascii "totalResults", some (.int (tools.getD []).length)), (ascii "hasMore", some (.bool false))] := by
  simp only [handleDiscoverTools, hb, ht, Proc.run]

/-- the reply lists at most the tools the registry returned: all of them, or none when one does not encode or the
reply nests deeper than the client reads -/
theorem listed_handleDiscoverTools (E : Env) (b : Broker) (env : GenericEnvelope) :
    ∀ body ∈ getBodyAs DiscoverToolsBody.decode .zero env, ∀ tools ∈ E.discover b.mcpRegistry body.query,
      ((handleDiscoverTools env).run E b).2.listed ≤ (tools.getD []).length := by
  intro body hb tools ht
  rw [handleDiscoverTools_reply E b env hb ht, Response.listed]
  rcases field_jsonReply_eq_or _ (ascii "tools") with h | h <;> rw [h]
  · exact Nat.zero_le _
  cases tools with
  | none => exact Nat.le_refl 0
  | some xs =>
    cases h : xs.mapM DiscoveredTool.encode with
    | none => simp only [encSlice, h, Option.map_none']; exact Nat.zero_le _
    | some ys =>
      simp only [encSlice, h, Option.map_some']
      exact Nat.le_of_eq ((List.length_map _ _).trans (mapM_length _ xs ys h))

/-- the specification's discovery returns at most `maxResults` tools when it is positive -/
theorem discoverSpec_length (r : Registry) (q : ToolQuery) (hq : 0 < q.maxResults.val) :
    ∀ tools ∈ discoverSpec r q, ((tools.getD []).length : Int) ≤ q.maxResults.val := by
  intro tools ht
  simp only [discoverSpec, if_pos hq, Option.mem_def, Option.some.injEq] at ht
  subst ht
  simp only [Option.getD_some, List.length_map, List.length_take]
  omega

/-- with the specification's registry, the reply keeps to `maxResults` -/
theorem listed_le_maxResults (b : Broker) (env : GenericEnvelope) :
    ∀ body ∈ getBodyAs DiscoverToolsBody.decode .zero env, 0 < body.query.maxResults.val →
      (((handleDiscoverTools env).run Env.spec b).2.listed : Int) ≤ body.query.maxResults.val := by
  intro body hb hq
  have hl := listed_handleDiscoverTools Env.spec b env body hb _ rfl
  have hs := discoverSpec_length b.mcpRegistry body.query hq _ rfl
  omega

/-- whenever more registered agents match the query than its `maxResults`, the reply lists more tools than
`maxResults`, or lists fewer tools than match without saying so -/
theorem discovery_hides_truncation (E : Env) (b : Broker) (env : GenericEnvelope) :
    ∀ body ∈ getBodyAs DiscoverToolsBody.decode .zero env,
      body.query.maxResults.val < matchCount b.mcpRegistry body.query →
      ¬((((handleDiscoverTools env).run E b).2.listed : Int) ≤ body.query.maxResults.val ∧
        (((handleDiscoverTools env).run E b).2.hasMore = true ↔
          ((handleDiscoverTools env).run E b).2.listed < matchCount b.mcpRegistry body.query)) := by
  intro body _ hmore ⟨hle, hiff⟩
  rw [hasMore_handleDiscoverTools] at hiff
  exact Bool.false_ne_true (hiff.2 (by omega))

/-! ## Two rovers and a query for one tool -/

/-- an agent registering with an MCP endpoint and a body that can navigate -/
def registerRover (id : String) : Request :=
  post (ascii ("\x7b\"type\":\"registerAgent\",\"agent\":\"" ++ id ++ "\",\"ts\":0,\"nonce\":\"n-" ++ id ++ "\"," ++
    "\"body\":\x7b\"pubkey\":\"k\",\"mcpEndpoint\":\"" ++ id ++ ".local:7070\"," ++
    "\"bodyDefinition\":\x7b\"name\":\"rover\",\"environment\":\"sim\",\"capabilities\":[\"nav\"]\x7d\x7d\x7d"))

/-- the broker after two rovers registered -/
def roverBroker : Broker := (newBroker.serveAll Env.spec [registerRover "a1", registerRover "a2"]).1

/-- a discovery of tools that navigate, at most one -/
def discoverRovers : GenericEnvelope :=
  ⟨⟨⟨ascii "c1", Int64.zero, ascii "n3", []⟩, envelopeDiscoverTools⟩,
    some (ascii "\x7b\"query\":\x7b\"capabilities\":[\"nav\"],\"maxResults\":1\x7d,\"requestId\":\"r1\"\x7d")⟩

set_option maxRecDepth 20000 in
/-- two rovers match a query for one tool: the reply lists one, and does not say that another matches -/
theorem discovery_hides_truncation_rovers :
    ∃ body ∈ getBodyAs DiscoverToolsBody.decode .zero discoverRovers,
      body.query.maxResults.val = 1 ∧ matchCount roverBroker.mcpRegistry body.query = 2 ∧
      ((handleDiscoverTools discoverRovers).run Env.spec roverBroker).2.listed = 1 ∧
      ¬((((handleDiscoverTools discoverRovers).run Env.spec roverBroker).2.listed : Int) ≤
          body.query.maxResults.val ∧
        (((handleDiscoverTools discoverRovers).run Env.spec roverBroker).2.hasMore = true ↔
          ((handleDiscoverTools discoverRovers).run Env.spec roverBroker).2.listed <
            matchCount roverBroker.mcpRegistry body.query)) :=
  have hl : ((handleDiscoverTools discoverRovers).run Env.spec roverBroker).2.listed = 1 := by
    rw [handleDiscoverTools_reply Env.spec roverBroker discoverRovers rfl rfl, Response.listed, field_jsonReply]
    decide
  ⟨_, rfl, rfl, rfl, hl, discovery_hides_truncation Env.spec roverBroker discoverRovers _ rfl (by decide)⟩

end FepFem.Server
