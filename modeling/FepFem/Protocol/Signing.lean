import FepFem.Protocol.Envelopes
import FepFem.Go.Base64

/-
`Sign` and `Verify` of `protocol/go/envelopes.go`.

Ed25519 is an abstract scheme whose signatures over a message verify on that message under the matching public
key; `crypto/ed25519`'s own checks are kept around it: `Sign` panics unless the private key is 64 bytes, `Verify`
panics unless the public key is 32 bytes and rejects a signature of another length than 64. A method call ends by
returning `nil` or an error, or by panicking, and leaves its receiver changed or not: `Call` records both. The eight
`Sign` methods have one body, `signWith`, applied to the encoder of each envelope's body.

Results:
- `signWith_then_verify`: when a `Sign` method returns `nil` on an envelope whose type, agent and nonce are valid
  UTF-8 and whose body nests less than `maxNestingDepth` deep, decoding the JSON of the signed envelope into an
  `Envelope` succeeds and `Verify` accepts it;
- `signedBytes_eq_iff`: the bytes `Sign` signs determine type, agent, timestamp, nonce and the compacted body;
- `verify_signWith_outcomes`: `Verify` leaves its envelope as it was, and panics exactly when the public key is not
  32 bytes long and it gets as far as `ed25519.Verify`; `Sign` either returns `nil` with the new signature stored,
  or fails having cleared `Sig`.
-/

namespace FepFem.Protocol

open FepFem.Json Utf8

/-! ## Ed25519 -/

/-- Ed25519 as an abstract signature scheme -/
structure Ed25519 where
  /-- the signature of a message under a private key -/
  sign : Bytes → Bytes → Bytes
  /-- whether a signature of a message verifies under a public key -/
  verify : Bytes → Bytes → Bytes → Bool
  /-- the public key of a private key -/
  publicKey : Bytes → Bytes
  sign_length : ∀ priv msg, (sign priv msg).length = 64
  publicKey_length : ∀ priv, (publicKey priv).length = 32
  verify_sign : ∀ priv msg, priv.length = 64 → verify (publicKey priv) msg (sign priv msg) = true

/-- `ed25519.Sign`: `none` is its panic on a private key that is not 64 bytes long -/
def Ed25519.goSign (E : Ed25519) (priv msg : Bytes) : Option Bytes :=
  if priv.length = 64 then some (E.sign priv msg) else none

/-- `ed25519.Verify`: `none` is its panic on a public key that is not 32 bytes long -/
def Ed25519.goVerify (E : Ed25519) (pub msg sig : Bytes) : Option Bool :=
  if pub.length = 32 then some (sig.length == 64 && E.verify pub msg sig) else none

/-- a 32-byte digest of a message, for `Ed25519.sample` -/
def digest (msg : Bytes) : Bytes :=
  (List.range 32).map fun i => (msg.foldl (fun h (b : UInt8) => h * 257 + b.toNat) 0 / 256 ^ i).toUInt8

/-- a scheme meeting the laws, to run the model on concrete keys: the public key is the first 32 bytes of the
private key, and a signature is the public key followed by a digest of the message -/
def Ed25519.sample : Ed25519 where
  sign priv msg := (priv ++ List.replicate 32 0).take 32 ++ digest msg
  verify pub msg sig := sig == pub ++ digest msg
  publicKey priv := (priv ++ List.replicate 32 0).take 32
  sign_length priv msg := by simp [digest]
  publicKey_length priv := by simp
  verify_sign _ _ _ := beq_self_eq_true _

/-! ## The methods -/

/-- how a method call ends -/
inductive Ends (ε : Type) where
  | ok
  | err (e : ε)
  | panic
  deriving DecidableEq, Repr

/-- a method call: how it ends, and its receiver as the call leaves it -/
structure Call (ε α : Type) where
  ends : Ends ε
  recv : α

/-- the error a `Sign` method returns: `json.Marshal`'s -/
inductive SignError where
  | marshal
  deriving DecidableEq, Repr

/-- the errors `Verify` returns -/
inductive VerifyError where
  /-- `envelope has no signature` -/
  | noSignature
  /-- `invalid signature encoding: %w` -/
  | invalidEncoding
  /-- `json.Marshal`'s error -/
  | marshal
  /-- `signature verification failed` -/
  | verificationFailed
  deriving DecidableEq, Repr

/-- the body of every `Sign` method: clear `Sig`, marshal, sign, store the signature in base64 -/
def signWith {β : Type} (encBody : Encoder β) (E : Ed25519) (priv : Bytes) (e : Enveloped β) :
    Call SignError (Enveloped β) :=
  let e := { e with sig := [] }
  match marshal (Enveloped.encode encBody) e with
  | none => ⟨.err .marshal, e⟩
  | some data =>
    match E.goSign priv data with
    | none => ⟨.panic, e⟩
    | some signature => ⟨.ok, { e with sig := Base64.encodeToString signature }⟩

abbrev RegisterAgentEnvelope := Enveloped RegisterAgentBody
abbrev RegisterBrokerEnvelope := Enveloped RegisterBrokerBody
abbrev ToolCallEnvelope := Enveloped ToolCallBody
abbrev ToolResultEnvelope := Enveloped ToolResultBody
abbrev DiscoverToolsEnvelope := Enveloped DiscoverToolsBody
abbrev ToolsDiscoveredEnvelope := Enveloped ToolsDiscoveredBody
abbrev EmbodimentUpdateEnvelope := Enveloped EmbodimentUpdateBody

def Envelope.sign : Ed25519 → Bytes → Envelope → Call SignError Envelope := signWith encRaw
def RegisterAgentEnvelope.sign : Ed25519 → Bytes → RegisterAgentEnvelope → Call SignError RegisterAgentEnvelope :=
  signWith RegisterAgentBody.encode
def RegisterBrokerEnvelope.sign : Ed25519 → Bytes → RegisterBrokerEnvelope → Call SignError RegisterBrokerEnvelope :=
  signWith RegisterBrokerBody.encode
def ToolCallEnvelope.sign : Ed25519 → Bytes → ToolCallEnvelope → Call SignError ToolCallEnvelope :=
  signWith ToolCallBody.encode
def ToolResultEnvelope.sign : Ed25519 → Bytes → ToolResultEnvelope → Call SignError ToolResultEnvelope :=
  signWith ToolResultBody.encode
def DiscoverToolsEnvelope.sign : Ed25519 → Bytes → DiscoverToolsEnvelope → Call SignError DiscoverToolsEnvelope :=
  signWith DiscoverToolsBody.encode
def ToolsDiscoveredEnvelope.sign :
    Ed25519 → Bytes → ToolsDiscoveredEnvelope → Call SignError ToolsDiscoveredEnvelope :=
  signWith ToolsDiscoveredBody.encode
def EmbodimentUpdateEnvelope.sign :
    Ed25519 → Bytes → EmbodimentUpdateEnvelope → Call SignError EmbodimentUpdateEnvelope :=
  signWith EmbodimentUpdateBody.encode

/-- `Envelope.Verify`; the deferred function puts the saved `Sig` back on every path after it is cleared, a panic
included -/
def Envelope.verify (E : Ed25519) (pub : Bytes) (e : Envelope) : Call VerifyError Envelope :=
  if e.sig = [] then ⟨.err .noSignature, e⟩ else
  match Base64.decodeString e.sig with
  | none => ⟨.err .invalidEncoding, e⟩
  | some signature =>
    let saved := e.sig
    let e := { e with sig := [] }
    let restored := { e with sig := saved }
    match marshal (Enveloped.encode encRaw) e with
    | none => ⟨.err .marshal, restored⟩
    | some data =>
      match E.goVerify pub data signature with
      | none => ⟨.panic, restored⟩
      | some false => ⟨.err .verificationFailed, restored⟩
      | some true => ⟨.ok, restored⟩

/-- the bytes `Sign` signs and `Verify` checks: the envelope marshalled with `Sig` cleared -/
def signedBytes {β : Type} (encBody : Encoder β) (e : Enveloped β) : Option Bytes :=
  marshal (Enveloped.encode encBody) { e with sig := [] }

/-! ## What the encoder writes for an envelope, read back -/

theorem marshal_encode {β : Type} (encBody : Encoder β) (e : Enveloped β) :
    marshal (Enveloped.encode encBody) e =
      (encBody e.body).map fun c => (Canon.obj (e.members ++ [(ascii "body", c)])).val.print := by
  rw [marshal, Enveloped.encode_eq, Option.map_map]; rfl

/-- `json.Unmarshal` reads an envelope back from what the encoder wrote when its body nests less than
`maxNestingDepth` deep, the envelope itself taking one level -/
theorem Envelope.unmarshal_encode (b : BaseEnvelope) {c : Canon} (hd : c.val.depth < maxNestingDepth) :
    Envelope.unmarshal (Canon.obj (b.members ++ [(ascii "body", c)])).val.print =
      some ⟨⟨⟨coerceUtf8 b.agent, b.ts, coerceUtf8 b.nonce, coerceUtf8 b.sig⟩, coerceUtf8 b.type⟩,
        some c.val.print⟩ := by
  rw [Envelope.unmarshal, unmarshal_print_of_depth _ _ (by rw [Envelope.depth_encode]; exact hd),
    Envelope.decode_encode]

/-- a body the encoder wrote is encoded again as itself, when the scanner can read it -/
theorem encRaw_print {c : Canon} (hd : c.val.depth ≤ maxNestingDepth) : encRaw (some c.val.print) = some c := by
  have hp := parseTop_print_of_depth c.wf hd
  simp only [encRaw, Canon.ofRaw]
  split
  · rename_i t h
    obtain rfl : t = c.val := Option.some.inj (hp.symm.trans h).symm
    cases c; simp_all
  · rename_i h; rw [hp] at h; cases h

theorem valid_of_ascii {s : Bytes} (h : ∀ c ∈ s, c.toNat < 0x80) : valid s := by
  induction s using decode_induction with
  | nil => rfl
  | cons b p ih =>
    have e := decodeRune_ascii (by rw [UInt8.lt_iff]; simpa using h b (List.mem_cons_self _ _)) p
    rw [e] at ih
    rw [valid_cons, e]
    exact ih fun c hc => h c (List.mem_cons_of_mem _ hc)

theorem valid_encodeToString (b : Bytes) : valid (Base64.encodeToString b) :=
  valid_of_ascii fun c hc => (Base64.encodeToString_ascii b c hc).1

/-! ## Signing, then verifying -/

/-- what a `Sign` method that returns `nil` did: the body encoded, the key was 64 bytes long, and `Sig` holds the
signature of the bytes without it -/
theorem signWith_ok {β : Type} {encBody : Encoder β} {E : Ed25519} {priv : Bytes} {x : Enveloped β}
    (h : (signWith encBody E priv x).ends = .ok) :
    ∃ c data, encBody x.body = some c ∧ signedBytes encBody x = some data ∧ priv.length = 64 ∧
      (signWith encBody E priv x).recv = { x with sig := Base64.encodeToString (E.sign priv data) } := by
  simp only [signWith, signedBytes] at h ⊢
  cases hm : marshal (Enveloped.encode encBody) { x with sig := [] } with
  | none => simp [hm] at h
  | some data =>
    simp only [hm, Ed25519.goSign] at h ⊢
    split_ifs at h ⊢ with hp
    · obtain ⟨c, hc, -⟩ := Option.map_eq_some'.1 ((marshal_encode _ _).symm.trans hm)
      exact ⟨c, data, hc, rfl, hp, rfl⟩

/-- a `Sign` method that returns `nil` on an envelope whose type, agent and nonce are valid UTF-8 and whose body nests
less than `maxNestingDepth` deep: the marshalled envelope decodes, and `Verify` accepts it -/
theorem signWith_then_verify {β : Type} (encBody : Encoder β) (E : Ed25519) (priv : Bytes) (x : Enveloped β)
    (hv : valid x.type ∧ valid x.agent ∧ valid x.nonce) (hb : ∀ c ∈ encBody x.body, c.val.depth < maxNestingDepth)
    (hs : (signWith encBody E priv x).ends = .ok) :
    ∃ data e, marshal (Enveloped.encode encBody) (signWith encBody E priv x).recv = some data ∧
      Envelope.unmarshal data = some e ∧ (Envelope.verify E (E.publicKey priv) e).ends = .ok := by
  obtain ⟨c, data, hc, hd, hp, hr⟩ := signWith_ok hs
  have hdc := hb c hc
  rw [hr, marshal_encode, hc, Option.map_some']
  refine ⟨_, _, rfl, Envelope.unmarshal_encode _ hdc, ?_⟩
  rw [signedBytes, marshal_encode, hc, Option.map_some', Option.some.injEq] at hd
  have hsig : ∀ m, Base64.encodeToString (E.sign priv m) ≠ [] := fun m =>
    Base64.encodeToString_ne_nil (List.ne_nil_of_length_eq_add_one (E.sign_length priv m))
  subst hd
  simp only [BaseEnvelope.members, coerceUtf8_of_valid hv.1, coerceUtf8_of_valid hv.2.1, coerceUtf8_of_valid hv.2.2,
    coerceUtf8_of_valid (valid_encodeToString _), Envelope.verify, hsig, if_false, List.append_nil,
    Base64.decodeString_encodeToString, marshal_encode, encRaw_print hdc.le, Option.map_some', Ed25519.goVerify,
    E.publicKey_length, E.sign_length, ite_true, beq_self_eq_true, Bool.true_and, List.isEmpty_nil,
    E.verify_sign priv _ hp]

/-- a revoke from `worker-1`, not yet signed -/
def revokeEnvelope : Envelope := ⟨⟨⟨ascii "worker-1", Int64.zero, ascii "n", []⟩, envelopeRevoke⟩, some (ascii "[1]")⟩

/-- a private key of 64 zero bytes -/
def zeroKey : Bytes := List.replicate 64 0

set_option maxRecDepth 20000 in
/-- a revoke envelope signed with a sample key reaches the other side and verifies there -/
theorem signWith_then_verify_revoke :
    ∃ data e, marshal (Enveloped.encode encRaw) (signWith encRaw Ed25519.sample zeroKey revokeEnvelope).recv =
        some data ∧ Envelope.unmarshal data = some e ∧
      (Envelope.verify Ed25519.sample (Ed25519.sample.publicKey zeroKey) e).ends = .ok :=
  signWith_then_verify encRaw Ed25519.sample _ _ (by decide) (by decide) rfl

/-- an envelope whose agent is the byte 0xFF, which is not UTF-8 -/
def badAgentEnvelope : Envelope := ⟨⟨⟨[0xFF], Int64.zero, [], []⟩, envelopeRevoke⟩, some (ascii "\x7b\x7d")⟩

set_option maxRecDepth 20000 in
/-- an agent that is not valid UTF-8 is signed as the text `"\ufffd"` and verified as the bytes of U+FFFD -/
theorem sign_then_verify_invalid_agent :
    (Envelope.sign Ed25519.sample zeroKey badAgentEnvelope).ends = .ok ∧
      ((marshal (Enveloped.encode encRaw) (Envelope.sign Ed25519.sample zeroKey badAgentEnvelope).recv).bind
        Envelope.unmarshal).map (fun e => (Envelope.verify Ed25519.sample (Ed25519.sample.publicKey zeroKey) e).ends) =
        some (.err .verificationFailed) :=
  ⟨rfl, rfl⟩

/-! ## What the signed bytes bind -/

/-- the bytes signed for an envelope whose body is JSON, and the body's compaction -/
theorem signedBytes_raw {e : Envelope} {b : Bytes} (hb : e.body = some b) (ht : (parseTop b).isSome) :
    ∃ c : Canon, signedBytes encRaw e =
        some (Canon.obj ({ e with sig := [] }.members ++ [(ascii "body", c)])).val.print ∧
      e.body.bind compact = some c.val.print := by
  have hr := Canon.ofRaw_print b
  cases hc : Canon.ofRaw b with
  | none =>
    obtain ⟨t, h⟩ := Option.isSome_iff_exists.1 ht
    rw [hc, compact, h] at hr; cases hr
  | some c =>
    rw [hc, Option.map_some'] at hr
    refine ⟨c, ?_, by rw [hb, Option.some_bind, ← hr]⟩
    rw [signedBytes, marshal_encode, hb]
    simp only [encRaw, hc, Option.map_some']

theorem signedBytes_eq_iff (e₁ e₂ : Envelope)
    (hv₁ : valid e₁.type ∧ valid e₁.agent ∧ valid e₁.nonce) (hv₂ : valid e₂.type ∧ valid e₂.agent ∧ valid e₂.nonce)
    (hb₁ : ∃ b, e₁.body = some b ∧ (parseTop b).isSome) (hb₂ : ∃ b, e₂.body = some b ∧ (parseTop b).isSome) :
    signedBytes encRaw e₁ = signedBytes encRaw e₂ ↔
      e₁.type = e₂.type ∧ e₁.agent = e₂.agent ∧ e₁.ts = e₂.ts ∧ e₁.nonce = e₂.nonce ∧
        e₁.body.bind compact = e₂.body.bind compact := by
  obtain ⟨b₁, hb₁, ht₁⟩ := hb₁
  obtain ⟨b₂, hb₂, ht₂⟩ := hb₂
  obtain ⟨c₁, hs₁, hc₁⟩ := signedBytes_raw hb₁ ht₁
  obtain ⟨c₂, hs₂, hc₂⟩ := signedBytes_raw hb₂ ht₂
  rw [hs₁, hs₂, hc₁, hc₂, Option.some.injEq, Option.some.injEq, Canon.print_eq_iff, Canon.print_eq_iff]
  simp only [Canon.obj, BaseEnvelope.members, List.isEmpty_nil, if_true, List.append_nil, List.cons_append,
    List.nil_append, members, List.map_cons, List.map_nil, Value.obj.injEq, List.cons.injEq, Prod.mk.injEq,
    Canon.str, Canon.int, Value.str.injEq, Value.num.injEq, true_and, and_true,
    quoteRaw_eq_iff hv₁.1 hv₂.1, quoteRaw_eq_iff hv₁.2.1 hv₂.2.1, quoteRaw_eq_iff hv₁.2.2 hv₂.2.2,
    Int64.formatInt_eq_iff]

/-- the signed bytes of an envelope do not depend on its `Sig` -/
theorem signedBytes_eq_iff_resigned :
    signedBytes encRaw revokeEnvelope = signedBytes encRaw { revokeEnvelope with sig := ascii "AAAA" } ↔
      revokeEnvelope.type = revokeEnvelope.type ∧ revokeEnvelope.agent = revokeEnvelope.agent ∧
        revokeEnvelope.ts = revokeEnvelope.ts ∧ revokeEnvelope.nonce = revokeEnvelope.nonce ∧
        revokeEnvelope.body.bind compact = revokeEnvelope.body.bind compact :=
  signedBytes_eq_iff _ _ (by decide) (by decide) ⟨_, rfl, rfl⟩ ⟨_, rfl, rfl⟩

/-! ## How `Sign` and `Verify` end -/

/-- `Verify` gives its envelope back as it found it, on every path -/
theorem verify_recv (E : Ed25519) (pub : Bytes) (e : Envelope) : (Envelope.verify E pub e).recv = e := by
  unfold Envelope.verify
  dsimp only
  split_ifs
  · rfl
  · split
    · rfl
    · split
      · rfl
      · split <;> rfl

/-- `Verify` panics when it reaches `ed25519.Verify` with a public key that is not 32 bytes long -/
theorem verify_panic_iff (E : Ed25519) (pub : Bytes) (e : Envelope) :
    (Envelope.verify E pub e).ends = .panic ↔
      e.sig ≠ [] ∧ (Base64.decodeString e.sig).isSome ∧ (signedBytes encRaw e).isSome ∧ pub.length ≠ 32 := by
  unfold Envelope.verify signedBytes
  by_cases hs : e.sig = []
  · simp [hs]
  cases hd : Base64.decodeString e.sig with
  | none => simp [hs, hd]
  | some signature =>
    cases hm : marshal (Enveloped.encode encRaw) { e with sig := [] } with
    | none => simp [hs, hd, hm]
    | some data =>
      simp only [hs, hd, hm, if_false, Ed25519.goVerify, ne_eq, not_false_eq_true, Option.isSome_some, true_and]
      split_ifs with hp
      · split <;> simp_all
      · simp [hp]

/-- a `Sign` method returns `nil` with the new signature stored, or fails with `Sig` cleared -/
theorem signWith_cases {β : Type} (encBody : Encoder β) (E : Ed25519) (priv : Bytes) (x : Enveloped β) :
    ((signWith encBody E priv x).ends = .ok ∧ ∃ data, signedBytes encBody x = some data ∧
        (signWith encBody E priv x).recv = { x with sig := Base64.encodeToString (E.sign priv data) }) ∨
      ((signWith encBody E priv x).ends ≠ .ok ∧ (signWith encBody E priv x).recv = { x with sig := [] }) := by
  unfold signWith signedBytes
  dsimp only
  cases hm : marshal (Enveloped.encode encBody) { x with sig := [] } with
  | none => exact Or.inr ⟨nofun, rfl⟩
  | some data =>
    simp only [Ed25519.goSign]
    split_ifs
    · exact Or.inl ⟨rfl, data, rfl, rfl⟩
    · exact Or.inr ⟨nofun, rfl⟩

/-- a `Sign` method panics when the envelope marshals and the private key is not 64 bytes long -/
theorem signWith_panic_iff {β : Type} (encBody : Encoder β) (E : Ed25519) (priv : Bytes) (x : Enveloped β) :
    (signWith encBody E priv x).ends = .panic ↔ (signedBytes encBody x).isSome ∧ priv.length ≠ 64 := by
  unfold signWith signedBytes
  dsimp only
  cases hm : marshal (Enveloped.encode encBody) { x with sig := [] } with
  | none => simp
  | some data => simp only [Ed25519.goSign]; split_ifs <;> simp_all

theorem verify_signWith_outcomes (E : Ed25519) (pub priv : Bytes) (e : Envelope) {β : Type} (encBody : Encoder β)
    (x : Enveloped β) :
    (Envelope.verify E pub e).recv = e ∧
      ((Envelope.verify E pub e).ends = .panic ↔
        e.sig ≠ [] ∧ (Base64.decodeString e.sig).isSome ∧ (signedBytes encRaw e).isSome ∧ pub.length ≠ 32) ∧
      (((signWith encBody E priv x).ends = .ok ∧ ∃ data, signedBytes encBody x = some data ∧
          (signWith encBody E priv x).recv = { x with sig := Base64.encodeToString (E.sign priv data) }) ∨
        ((signWith encBody E priv x).ends ≠ .ok ∧ (signWith encBody E priv x).recv = { x with sig := [] })) ∧
      ((signWith encBody E priv x).ends = .panic ↔ (signedBytes encBody x).isSome ∧ priv.length ≠ 64) :=
  ⟨verify_recv E pub e, verify_panic_iff E pub e, signWith_cases encBody E priv x, signWith_panic_iff encBody E priv x⟩

/-- `Verify` panics on an empty public key, and `Sign` clears `Sig` before `json.Marshal` rejects a body and before
`ed25519.Sign` rejects an empty private key -/
theorem verify_empty_key_panics :
    (Envelope.verify Ed25519.sample [] { revokeEnvelope with sig := ascii "AAAA" }).ends = .panic ∧
      (Envelope.sign Ed25519.sample zeroKey
        { revokeEnvelope with sig := ascii "AAAA", body := some (ascii "[") }).ends =
        .err .marshal ∧
      (Envelope.sign Ed25519.sample zeroKey
        { revokeEnvelope with sig := ascii "AAAA", body := some (ascii "[") }).recv.sig = [] ∧
      (Envelope.sign Ed25519.sample [] { revokeEnvelope with sig := ascii "AAAA" }).ends = .panic ∧
      (Envelope.sign Ed25519.sample [] { revokeEnvelope with sig := ascii "AAAA" }).recv.sig = [] :=
  ⟨rfl, rfl, rfl, rfl, rfl⟩

end FepFem.Protocol
