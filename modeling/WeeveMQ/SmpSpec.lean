/-
  WeeveMQ.SmpSpec

  What the calls of `smp.c` do: `wclSmpOpen`, `wclSmpGetMessage`,
  `wclSmpProcessMessage` and `wclSmpClose`.  A run of a session is made of
  these calls, and every property of runs rests on the lemmas of this module.

  The two checks after success, of the packet that came in and of the one that
  goes out, never fire.
-/

import WeeveMQ.Smp
import WeeveMQ.SmpReceiveSpec

namespace WeeveMQ

open Call
open WclSmpMessageType

variable {cbor : TinyCbor} {role : Role} {env : Env} {s s' : Session} {store store' : KeyStore}

/-! ## Getting messages -/

/-- The types a role may send, besides its session establishment message. -/
theorem isSecurable_range {messageType : Nat} (h : isSecurable role messageType = true) :
    3 ≤ messageType ∧ messageType ≤ 14 := by
  cases role <;> simp [isSecurable] at h <;> omega

theorem wclSmpGetMessage_ok {messageType : Nat} {packet message : Bytes} :
    wclSmpGetMessage cbor role env messageType packet s = some (.ok message, s') ↔
      (messageType = (seMessageType role).code ∧ ∃ p, Exporting role env s packet p ∧
        message = encodeSmpMqttsSEMessage role p ∧ s' = s.chainOfOne.sent) ∨
      (isSecurable role messageType = true ∧ ∃ m, Sealing role env s messageType packet m ∧
        m.serializedBufSize messageType packet < 2 ^ 32 ∧
        message = encodeSmpMqttsControlMessage (m.controlParams messageType packet) ∧
        s' = s.sent) := by
  have hse : isSecurable role (seMessageType role).code = false := by
    cases role <;> rfl
  simp only [wclSmpGetMessage, bind_ok, failIf_ok, pure_apply, Option.some.injEq, Prod.mk.injEq,
    Except.ok.injEq]
  constructor
  · rintro ⟨_, _, ⟨-, rfl⟩, message, t, hbranch, _, _, ⟨-, rfl⟩, rfl, rfl⟩
    split_ifs at hbranch with htype hsec
    · exact .inl ⟨htype, smpExportSessionEstablishmentParams_ok.mp hbranch⟩
    · exact .inr ⟨hsec, smpSecureMessage_ok.mp hbranch⟩
    · simp at hbranch
  · rintro (⟨htype, h⟩ | ⟨hsec, h⟩)
    · obtain ⟨p, hp, hsent⟩ := h
      refine ⟨(), _, ⟨?_, rfl⟩, message, s', ?_, (), _, ⟨hp.packet_ne, rfl⟩, rfl, rfl⟩
      · have := hp.packet_ne
        rw [htype]
        cases role <;> simp [seMessageType, this]
      · rw [if_pos htype]
        exact smpExportSessionEstablishmentParams_ok.mpr ⟨p, hp, hsent⟩
    · obtain ⟨m, hm, hsent⟩ := h
      have hrange := isSecurable_range hsec
      refine ⟨(), _, ⟨?_, rfl⟩, message, s', ?_, (), _, ⟨hm.packet_ne, rfl⟩, rfl, rfl⟩
      · have := hm.packet_ne
        simp only [code, this, or_false]
        omega
      · rw [if_neg, if_pos hsec]
        · exact smpSecureMessage_ok.mpr ⟨m, hm, hsent⟩
        · rintro rfl
          rw [hse] at hsec
          simp at hsec

theorem wclSmpGetMessage_failRelates (messageType : Nat) (packet : Bytes) :
    FailRelates Session.SameUpToChain (wclSmpGetMessage cbor role env messageType packet) := by
  intro t e t' h
  simp only [wclSmpGetMessage, bind_error, failIf_error, failIf_ok, pure_apply] at h
  rcases h with ⟨-, -, rfl⟩ | ⟨_, _, ⟨hne, rfl⟩, h⟩
  · exact Std.Refl.refl t
  rcases h with h | ⟨message, _, -, h⟩
  · split_ifs at h
    · exact smpExportSessionEstablishmentParams_failRelates _ _ _ _ h
    · exact .of_eq (smpSecureMessage_failRelates _ _ _ _ _ h)
    · simp only [throw_apply, Option.some.injEq, Prod.mk.injEq] at h
      exact .of_eq h.2
  · rcases h with ⟨hnil, -⟩ | ⟨_, _, -, h⟩
    · exact absurd (.inr (.inr hnil)) hne
    · simp at h

/-! ## Processing messages -/

/-- No success without a packet, so the last check never fires. -/
theorem smpProcessMessage_packet_ne {message packet : Bytes}
    (h : smpProcessMessage cbor role env message s = some (.ok packet, s')) : packet ≠ [] := by
  rcases smpProcessMessage_ok.mp h with ⟨_, p, _, ha, rfl, -⟩ | ⟨_, p, _, ha, rfl, -⟩
  · exact ha.derived.verified.packet_ne
  · exact ha.opened.delivered_ne

theorem wclSmpProcessMessage_ok {message packet : Bytes} :
    wclSmpProcessMessage cbor role env message s = some (.ok packet, s') ↔
      smpProcessMessage cbor role env message s = some (.ok packet, s') := by
  simp only [wclSmpProcessMessage, bind_ok, failIf_ok, pure_apply, Option.some.injEq,
    Prod.mk.injEq, Except.ok.injEq]
  constructor
  · rintro ⟨_, _, ⟨-, rfl⟩, _, _, h, _, _, ⟨-, rfl⟩, rfl, rfl⟩
    exact h
  · intro h
    have hne : message ≠ [] := by
      rintro rfl
      simp [smpProcessMessage, bind_ok] at h
    exact ⟨(), _, ⟨hne, rfl⟩, packet, s', h, (), _, ⟨smpProcessMessage_packet_ne h, rfl⟩, rfl, rfl⟩

theorem wclSmpProcessMessage_error {message : Bytes} {e : WclError}
    (h : wclSmpProcessMessage cbor role env message s = some (.error e, s')) :
    LeftPartialKey cbor role env message s s' := by
  simp only [wclSmpProcessMessage, bind_error, failIf_error, failIf_ok, pure_apply] at h
  rcases h with ⟨-, -, rfl⟩ | ⟨_, _, ⟨-, rfl⟩, h⟩
  · exact .inl rfl
  rcases h with h | ⟨packet, _, hok, h⟩
  · exact smpProcessMessage_error h
  · rcases h with ⟨hnil, -⟩ | ⟨_, _, -, h⟩
    · exact absurd hnil (smpProcessMessage_packet_ne hok)
    · simp at h

/-! ## Opening -/

/-- The random ids are hexadecimal, so storage takes them as keys. -/
theorem hexDigits_valid (b : UInt8) : ∀ c ∈ hexDigits b, 31 ≤ c ∧ c ≤ 127 ∧ c ≠ 47 ∧ c ≠ 92 := by
  have hdigit : ∀ n < 16, ∀ c, c = (ascii "0123456789ABCDEF").getD n 0 →
      31 ≤ c ∧ c ≤ 127 ∧ c ≠ 47 ∧ c ≠ 92 := by
    rintro n hn c rfl
    revert n
    decide
  intro c hc
  simp only [hexDigits, List.mem_cons, List.not_mem_nil, or_false] at hc
  have hb := b.toNat_lt
  rcases hc with hc | hc
  · exact hdigit _ (by omega) c hc
  · exact hdigit _ (by omega) c hc

theorem smpUtilsGen32CharRandomId_ok {draw : Nat} {id : StorageId} :
    smpUtilsGen32CharRandomId env draw = .ok id ↔
      ∃ b, env.randomBytes draw 16 = some b ∧ id = b.flatMap hexDigits := by
  simp only [smpUtilsGen32CharRandomId, except_bind_ok, except_mapError_ok,
    wosCryptoGetRandomBytes_ok]
  constructor
  · rintro ⟨b, ⟨-, hb⟩, h⟩
    cases h
    exact ⟨b, hb, rfl⟩
  · rintro ⟨b, hb, rfl⟩
    exact ⟨b, ⟨by decide, hb⟩, rfl⟩

theorem isKeyValid_of_randomId {draw : Nat} {id : StorageId}
    (h : smpUtilsGen32CharRandomId env draw = .ok id) : lWosStorageIsKeyValid id = true := by
  obtain ⟨b, hb, rfl⟩ := smpUtilsGen32CharRandomId_ok.mp h
  have hlen := env.randomBytes_length hb
  simp only [lWosStorageIsKeyValid, decide_eq_true_eq]
  refine ⟨?_, ?_⟩
  · cases b with
    | nil => simp at hlen
    | cons x b => simp [hexDigits]
  · intro c hc
    obtain ⟨x, -, hx⟩ := List.mem_flatMap.mp hc
    exact hexDigits_valid x c hx

/-- The session context a successful open hands out. -/
def openedContext (env : Env) (privateKeyId publicKeyId sharedKeyId : StorageId) :
    SmpSessionContext :=
  { smpConfigGlobalCreds env with
    isPreSessionSecretsGenerated := true
    sessionPrivateKeyStorageId := privateKeyId
    sessionPublicKeyStorageId := publicKeyId
    sessionSharedKeyStorageId := sharedKeyId }

/-- An established session in the sample environment. -/
def Session.sample : Session where
  ctx := { openedContext Env.sample (ascii "priv") (ascii "pub") (ascii "key") with
    isSessionKeyEstablished := true }
  storage := Function.update KeyStore.sample (ascii "key") (some (List.replicate 32 4))

/-- The PUBLISH of the packet `[1, 2]` that such a client sends first. -/
def publishMessage : Bytes :=
  0x9f :: 0x47 :: 0x9f :: 0 :: 0 :: 3 :: 0x60 :: 0 :: 0xff :: 0x42 :: 1 :: 2 :: 0x4c ::
    (List.replicate 12 0 ++ 0x50 :: (List.replicate 16 5 ++ [0xff]))

/-- The storage ids an opening draws. -/
structure DrawnIds (env : Env) (privateKeyId publicKeyId sharedKeyId : StorageId) : Prop where
  privateKey : smpUtilsGen32CharRandomId env 0 = .ok privateKeyId
  publicKey : smpUtilsGen32CharRandomId env 1 = .ok publicKeyId
  sharedKey : smpUtilsGen32CharRandomId env 2 = .ok sharedKeyId

theorem wosCryptoEccGenerateKey_ok {privateId publicId : StorageId} {u : Unit} :
    wosCryptoEccGenerateKey env privateId publicId store = some (.ok u, store') ↔
      lWosStorageIsKeyValid privateId = true ∧ lWosStorageIsKeyValid publicId = true ∧
        ∃ privateKey publicKey, env.eccMakeKey = some (privateKey, publicKey) ∧
          (privateKey ≠ [] ∧ env.writeOutcome privateId privateKey = .written) ∧
          (publicKey ≠ [] ∧ env.writeOutcome publicId publicKey = .written) ∧
          store' = Function.update (Function.update store privateId (some privateKey)) publicId
            (some publicKey) := by
  simp only [wosCryptoEccGenerateKey, bind_ok, failIf_ok, ofExcept_apply, Option.some.injEq,
    Prod.mk.injEq, tomcrypt_ok, cryptoStorage_ok, wosStorageWrite_ok, Prod.exists, not_or]
  constructor
  · rintro ⟨_, _, ⟨-, rfl⟩, priv, pub, _, ⟨hmake, rfl⟩, _, _, ⟨hp, hpk, hpw, rfl⟩, hq, hqk, hqw, rfl⟩
    exact ⟨hpk, hqk, priv, pub, hmake, ⟨hp, hpw⟩, ⟨hq, hqw⟩, rfl⟩
  · rintro ⟨hpk, hqk, priv, pub, hmake, ⟨hp, hpw⟩, ⟨hq, hqw⟩, rfl⟩
    exact ⟨(), _, ⟨⟨ne_nil_of_isKeyValid hpk, ne_nil_of_isKeyValid hqk⟩, rfl⟩, priv, pub, _,
      ⟨hmake, rfl⟩, (), _, ⟨hp, hpk, hpw, rfl⟩, hq, hqk, hqw, rfl⟩

theorem wclSmpOpen_ok {ctx : SmpSessionContext} :
    wclSmpOpen env store = some (.ok ctx, store') ↔
      ∃ privateId publicId sharedId, DrawnIds env privateId publicId sharedId ∧
        ctx = openedContext env privateId publicId sharedId ∧
        ∃ privateKey publicKey, env.eccMakeKey = some (privateKey, publicKey) ∧
          (privateKey ≠ [] ∧ env.writeOutcome privateId privateKey = .written) ∧
          (publicKey ≠ [] ∧ env.writeOutcome publicId publicKey = .written) ∧
          store' = Function.update (Function.update store privateId (some privateKey)) publicId
            (some publicKey) := by
  simp only [wclSmpOpen, smpInitialiseSessionParams, bind_ok, ofExcept_apply, Option.some.injEq,
    Prod.mk.injEq, except_mapError_ok, mapErr_ok, wosCryptoEccGenerateKey_ok, pure_apply,
    Except.ok.injEq]
  constructor
  · rintro ⟨a, _, ⟨ha, rfl⟩, b, _, ⟨hb, rfl⟩, _, _, ⟨-, -, hkeys⟩, c, _, ⟨hc, rfl⟩, rfl, rfl⟩
    exact ⟨a, b, c, ⟨ha, hb, hc⟩, rfl, hkeys⟩
  · rintro ⟨a, b, c, ⟨ha, hb, hc⟩, rfl, hkeys⟩
    exact ⟨a, _, ⟨ha, rfl⟩, b, _, ⟨hb, rfl⟩, (), _,
      ⟨isKeyValid_of_randomId ha, isKeyValid_of_randomId hb, hkeys⟩, c, _, ⟨hc, rfl⟩, rfl, rfl⟩

/-- The id the sample environment draws. -/
def sampleId (draw : UInt8) : StorageId := (List.replicate 16 draw).flatMap hexDigits

/-- What the sample environment opens. -/
def Session.opened : Session where
  ctx := openedContext Env.sample (sampleId 0) (sampleId 1) (sampleId 2)
  storage := Function.update (Function.update KeyStore.sample (sampleId 0) (some [1]))
    (sampleId 1) (some [2])

/-- The elements of a CONNECT with this public parameter and packet. -/
def connectElements (pub packet : Bytes) : Bytes :=
  Cbor.encodeString 2 [0x9f, 0, 0, 1, 0x60, 0, 0xff] ++ 0 :: Cbor.encodeString 2 pub ++
    Cbor.encodeString 2 packet ++ [0x41, 3, 1, 0x41, 7]

/-- The CONNECT as a client encodes it, in an array of indefinite length. -/
def connectMessage (pub packet : Bytes) : Bytes := 0x9f :: connectElements pub packet ++ [0xff]

/-- Its parameters. -/
def connectParams (pub packet : Bytes) : WosMsgMqttsSeParams :=
  ⟨[0x9f, 0, 0, 1, 0x60, 0, 0xff], 0, pub, packet, [3], 1, [[7]]⟩

theorem wclSmpOpen_sample : wclSmpOpen Env.sample KeyStore.sample =
    some (.ok Session.opened.ctx, Session.opened.storage) := rfl

/-! ## Closing -/

/-- The store after a session was closed. -/
def closedStorage (env : Env) (ctx : SmpSessionContext) (store : KeyStore) : KeyStore :=
  removeWhen env ctx.isSessionKeyEstablished ctx.sessionSharedKeyStorageId <|
    removeWhen env ctx.isPreSessionSecretsGenerated ctx.sessionPublicKeyStorageId <|
      removeWhen env ctx.isPreSessionSecretsGenerated ctx.sessionPrivateKeyStorageId store

theorem wclSmpClose_apply (ctx : SmpSessionContext) (store : KeyStore) :
    wclSmpClose env ctx store = some (.ok (), closedStorage env ctx store) := by
  rw [wclSmpClose, smpDeleteSessionCredentials, bind_of_ok (deleteWhen_apply _ _ _),
    bind_of_ok (deleteWhen_apply _ _ _), deleteWhen_apply]
  rfl

end WeeveMQ
