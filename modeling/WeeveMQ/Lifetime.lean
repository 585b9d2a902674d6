/-
  WeeveMQ.Lifetime

  Whether the keys of a session outlive it in storage.

  - A failing `wclSmpOpen` removes nothing that it has written.  It leaves an
    entry exactly when it came as far as opening the file of the private key
    (`wclSmpOpen_error_clean_iff`).
  - `wclSmpClose` deletes the shared key only of an established session.  It
    leaves an entry exactly when there is one that no flag speaks of
    (`closedStorage_clean_iff`), and a write of the shared key that fails in
    the middle is what makes one.
-/

import WeeveMQ.SmpRun

namespace WeeveMQ

open Call
open WclSmpMessageType

variable {cbor : TinyCbor} {role : Role} {env : Env} {s s' : Session} {store store' : KeyStore}

/-! ## Opening -/

/-- No entry under an id the opening draws. -/
def NoDrawnEntry (env : Env) (store : KeyStore) : Prop :=
  ∀ draw < 3, ∀ id, smpUtilsGen32CharRandomId env draw = .ok id → store id = none

/-- The opening gets as far as opening the file of the private key. -/
def PrivateKeyFileOpened (env : Env) : Prop :=
  ∃ privateId publicId privateKey publicKey,
    smpUtilsGen32CharRandomId env 0 = .ok privateId ∧
    smpUtilsGen32CharRandomId env 1 = .ok publicId ∧
    env.eccMakeKey = some (privateKey, publicKey) ∧ privateKey ≠ [] ∧
    env.writeOutcome privateId privateKey ≠ .openFailed

/-- A second write, under whatever id, leaves an entry under the first one's. -/
theorem update_update_ne_none (store : KeyStore) (a b : StorageId) (x y : Bytes) :
    Function.update (Function.update store a (some x)) b (some y) a ≠ none := by
  by_cases h : a = b
  · simp [h]
  · simp [Function.update_of_ne h]

theorem wosCryptoEccGenerateKey_error {privateId publicId : StorageId} {e : WosCryptoError}
    (hpriv : lWosStorageIsKeyValid privateId = true)
    (hpub : lWosStorageIsKeyValid publicId = true)
    (h : wosCryptoEccGenerateKey env privateId publicId store = some (.error e, store')) :
    (store' = store ∧ ∀ privateKey publicKey, env.eccMakeKey = some (privateKey, publicKey) →
        privateKey ≠ [] → env.writeOutcome privateId privateKey = .openFailed) ∨
      ((∃ privateKey publicKey, env.eccMakeKey = some (privateKey, publicKey) ∧ privateKey ≠ [] ∧
        env.writeOutcome privateId privateKey ≠ .openFailed) ∧ store' privateId ≠ none) := by
  simp only [wosCryptoEccGenerateKey, bind_error, failIf_error, failIf_ok, ofExcept_apply,
    Option.some.injEq, Prod.mk.injEq, tomcrypt_ok, Prod.exists] at h
  rcases h with ⟨hnil, -⟩ | ⟨_, _, ⟨-, rfl⟩, h⟩
  · rcases hnil with hnil | hnil
    · exact absurd hnil (ne_nil_of_isKeyValid hpriv)
    · exact absurd hnil (ne_nil_of_isKeyValid hpub)
  rcases h with ⟨hmake, rfl⟩ | ⟨priv, pub, _, ⟨hmake, rfl⟩, h⟩
  · refine .inl ⟨rfl, fun privateKey publicKey heq => ?_⟩
    simp [heq, tomcrypt] at hmake
  rcases h with h | ⟨_, _, h1, h⟩
  · obtain ⟨e', he⟩ := cryptoStorage_error h
    rcases wosStorageWrite_error he with ⟨rfl, hfail⟩ | ⟨left, ⟨hne, -⟩, hw, rfl⟩
    · refine .inl ⟨rfl, fun privateKey publicKey heq hne => ?_⟩
      rw [hmake, Option.some.injEq, Prod.mk.injEq] at heq
      obtain ⟨rfl, rfl⟩ := heq
      exact hfail hne hpriv
    · exact .inr ⟨⟨priv, pub, hmake, hne, by simp [hw]⟩, by simp⟩
  · obtain ⟨hne, -, hw, rfl⟩ := wosStorageWrite_ok.mp (cryptoStorage_ok.mp h1)
    obtain ⟨e', he⟩ := cryptoStorage_error h
    refine .inr ⟨⟨priv, pub, hmake, hne, by simp [hw]⟩, ?_⟩
    rcases wosStorageWrite_error he with ⟨rfl, -⟩ | ⟨left, -, -, rfl⟩
    · simp
    · exact update_update_ne_none _ _ _ _ _

/-- A failing opening either has written nothing or has left its private key. -/
theorem wclSmpOpen_error {e : WclError}
    (h : wclSmpOpen env store = some (.error e, store')) :
    (store' = store ∧ ¬ PrivateKeyFileOpened env) ∨
      (PrivateKeyFileOpened env ∧
        ∃ id, smpUtilsGen32CharRandomId env 0 = .ok id ∧ store' id ≠ none) := by
  have hno : ∀ draw < 2, (∀ id, smpUtilsGen32CharRandomId env draw ≠ .ok id) →
      ¬ PrivateKeyFileOpened env := by
    rintro draw hdraw hnone ⟨a, b, -, -, ha, hb, -⟩
    rcases (by omega : draw = 0 ∨ draw = 1) with rfl | rfl
    · exact hnone a ha
    · exact hnone b hb
  have herr : ∀ {draw : Nat} {t : KeyStore} {e : WclError},
      (ofExcept ((smpUtilsGen32CharRandomId env draw).mapError fun _ => .error) :
        Call KeyStore WclError StorageId) store = some (.error e, t) →
      t = store ∧ ∀ id, smpUtilsGen32CharRandomId env draw ≠ .ok id := by
    intro draw t e hx
    simp only [ofExcept_apply, Option.some.injEq, Prod.mk.injEq] at hx
    refine ⟨hx.2.symm, fun id hid => ?_⟩
    rw [hid] at hx
    exact absurd hx.1 (by simp [Except.mapError])
  simp only [wclSmpOpen, smpInitialiseSessionParams, bind_error] at h
  rcases h with h | ⟨a, t, ha, h⟩
  · obtain ⟨rfl, hnone⟩ := herr h
    exact .inl ⟨rfl, hno 0 (by decide) hnone⟩
  simp only [ofExcept_apply, Option.some.injEq, Prod.mk.injEq, except_mapError_ok] at ha
  obtain ⟨ha, rfl⟩ := ha
  rcases h with h | ⟨b, t, hb, h⟩
  · obtain ⟨rfl, hnone⟩ := herr h
    exact .inl ⟨rfl, hno 1 (by decide) hnone⟩
  simp only [ofExcept_apply, Option.some.injEq, Prod.mk.injEq, except_mapError_ok] at hb
  obtain ⟨hb, rfl⟩ := hb
  rcases h with h | ⟨u, t, hkeys, h⟩
  · obtain ⟨e', he, -⟩ := mapErr_error.mp h
    rcases wosCryptoEccGenerateKey_error (isKeyValid_of_randomId ha) (isKeyValid_of_randomId hb) he
      with ⟨rfl, hfail⟩ | ⟨⟨priv, pub, hmake, hne, hw⟩, hleft⟩
    · refine .inl ⟨rfl, ?_⟩
      rintro ⟨a', b', priv, pub, ha', -, hmake, hne, hw⟩
      obtain rfl : a = a' := Except.ok.inj (ha.symm.trans ha')
      exact hw (hfail priv pub hmake hne)
    · exact .inr ⟨⟨a, b, priv, pub, ha, hb, hmake, hne, hw⟩, a, ha, hleft⟩
  · obtain ⟨-, -, priv, pub, hmake, ⟨hne, hw⟩, -, rfl⟩ :=
      wosCryptoEccGenerateKey_ok.mp (mapErr_ok.mp hkeys)
    refine .inr ⟨⟨a, b, priv, pub, ha, hb, hmake, hne, by simp [hw]⟩, a, ha, ?_⟩
    rcases h with h | ⟨c, t, hc, h⟩
    · simp only [ofExcept_apply, Option.some.injEq, Prod.mk.injEq] at h
      rw [← h.2]
      exact update_update_ne_none _ _ _ _ _
    · simp at h

theorem wclSmpOpen_error_clean_iff {e : WclError}
    (h : wclSmpOpen env store = some (.error e, store')) :
    NoDrawnEntry env store' ↔ NoDrawnEntry env store ∧ ¬ PrivateKeyFileOpened env := by
  rcases wclSmpOpen_error h with ⟨rfl, hno⟩ | ⟨hopened, id, hid, hleft⟩
  · exact ⟨fun h => ⟨h, hno⟩, fun h => h.1⟩
  · constructor
    · intro hclean
      exact absurd (hclean 0 (by decide) id hid) hleft
    · rintro ⟨-, hno⟩
      exact absurd hopened hno

/-! ## Closing -/

/-- No entry under an id of the session. -/
def NoSecrets (ctx : SmpSessionContext) (store : KeyStore) : Prop :=
  store ctx.sessionPrivateKeyStorageId = none ∧ store ctx.sessionPublicKeyStorageId = none ∧
    store ctx.sessionSharedKeyStorageId = none

/-- The entries of the session can be deleted. -/
def Deletes (env : Env) (ctx : SmpSessionContext) : Prop :=
  ∀ id ∈ [ctx.sessionPrivateKeyStorageId, ctx.sessionPublicKeyStorageId,
      ctx.sessionSharedKeyStorageId], lWosStorageIsKeyValid id = true ∧ env.removeFails id = false

/-- The shared key is deleted with the session, or there is none, or it stands
    under an id that is deleted anyway. -/
def SharedKeyCovered (ctx : SmpSessionContext) (store : KeyStore) : Prop :=
  ctx.isSessionKeyEstablished = true ∨ store ctx.sessionSharedKeyStorageId = none ∨
    ctx.sessionSharedKeyStorageId = ctx.sessionPrivateKeyStorageId ∨
    ctx.sessionSharedKeyStorageId = ctx.sessionPublicKeyStorageId

/-- Closing leaves no key exactly where the shared key is covered. -/
theorem closedStorage_clean_iff {ctx : SmpSessionContext}
    (generated : ctx.isPreSessionSecretsGenerated = true) (deletes : Deletes env ctx) :
    NoSecrets ctx (closedStorage env ctx store) ↔ SharedKeyCovered ctx store := by
  have h1 := deletes ctx.sessionPrivateKeyStorageId (by simp)
  have h2 := deletes ctx.sessionPublicKeyStorageId (by simp)
  have h3 := deletes ctx.sessionSharedKeyStorageId (by simp)
  simp only [NoSecrets, closedStorage, removeWhen_apply h1, removeWhen_apply h2,
    removeWhen_apply h3, generated, true_and, SharedKeyCovered, if_true]
  grind

/-! ## Runs -/

/-- The call does not leave a part of the shared key: if it gets as far as
    writing one, the write does not fail after the file was opened. -/
def WritesWholeKey (cbor : TinyCbor) (role : Role) (s : Session) (ev : SessionEvent) : Prop :=
  ∀ message p sharedSecret left, ev.call = .processMessage message →
    SeAgreed cbor role ev.env s message p sharedSecret →
    ev.env.writeOutcome s.ctx.sessionSharedKeyStorageId sharedSecret ≠ .writeFailed left

/-- A step that meets this condition. -/
def WholeKeyStep (cbor : TinyCbor) (role : Role) (s : Session) (ev : SessionEvent)
    (s' : Session) : Prop :=
  SessionStep cbor role s ev s' ∧ WritesWholeKey cbor role s ev

theorem sharedKeyCovered_step {ev : SessionEvent} (hinv : SharedKeyCovered s.ctx s.storage)
    (step : WholeKeyStep cbor role s ev s') : SharedKeyCovered s'.ctx s'.storage := by
  obtain ⟨call, whole⟩ := step
  cases call.outcome with
  | exported => exact hinv
  | secured => exact hinv
  | notSent same => rcases same with rfl | rfl <;> exact hinv
  | established => exact .inl rfl
  | delivered => exact hinv
  | refused left =>
      rcases left with rfl | ⟨p, secret, left, agreed, hw, -⟩
      · exact hinv
      · exact absurd hw (whole _ p secret left rfl agreed)

/-- A session just opened has no shared key, unless its ids collide. -/
theorem sharedKeyCovered_opened {ctx : SmpSessionContext}
    (opened : wclSmpOpen env store = some (.ok ctx, store'))
    (fresh : store ctx.sessionSharedKeyStorageId = none) : SharedKeyCovered ctx store' := by
  obtain ⟨a, b, c, -, rfl, priv, pub, -, -, -, rfl⟩ := wclSmpOpen_ok.mp opened
  simp only [SharedKeyCovered, openedContext] at fresh ⊢
  by_cases ha : c = a
  · exact .inr (.inr (.inl ha))
  · by_cases hb : c = b
    · exact .inr (.inr (.inr hb))
    · exact .inr (.inl (by rw [Function.update_of_ne hb, Function.update_of_ne ha, fresh]))

/-- Neither a failing `wclSmpOpen` nor `wclSmpClose` leaves a key of the session,
    under these conditions: the opening does not get to the file of the private
    key, and no call leaves a part of the shared key. -/
theorem secrets_die_with_session (cbor : TinyCbor) (role : Role) :
    (∀ env store e store', wclSmpOpen env store = some (.error e, store') →
      (NoDrawnEntry env store' ↔ NoDrawnEntry env store ∧ ¬ PrivateKeyFileOpened env)) ∧
    (∀ env store ctx store' events s closeEnv r store'',
      wclSmpOpen env store = some (.ok ctx, store') →
      store ctx.sessionSharedKeyStorageId = none →
      Run (WholeKeyStep cbor role) ⟨ctx, store'⟩ events s →
      (∀ id, closeEnv.removeFails id = false) →
      wclSmpClose closeEnv s.ctx s.storage = some (r, store'') → NoSecrets ctx store'') := by
  refine ⟨fun env store e store' h => wclSmpOpen_error_clean_iff h, ?_⟩
  intro env store ctx store' events s closeEnv r store'' opened fresh run removes close
  have hcovered : SharedKeyCovered s.ctx s.storage :=
    run.invariant (I := fun s => SharedKeyCovered s.ctx s.storage)
      (sharedKeyCovered_opened opened fresh) fun _ _ _ => sharedKeyCovered_step
  have hfixed : s.ctx.fixed = ctx.fixed :=
    run.invariant (I := fun s => s.ctx.fixed = ctx.fixed) rfl
      fun _ _ _ h step => step.1.outcome.fixed.trans h
  obtain ⟨hpriv, hpub, hshared, hgen⟩ := SmpSessionContext.ids_of_fixed hfixed
  have hids : s.ctx.isPreSessionSecretsGenerated = true ∧ Deletes closeEnv s.ctx := by
    obtain ⟨a, b, c, hdrawn, rfl, -⟩ := wclSmpOpen_ok.mp opened
    refine ⟨hgen, fun id hid => ⟨?_, removes id⟩⟩
    rw [hpriv, hpub, hshared] at hid
    simp only [List.mem_cons, List.not_mem_nil, or_false] at hid
    rcases hid with rfl | rfl | rfl
    · exact isKeyValid_of_randomId hdrawn.privateKey
    · exact isKeyValid_of_randomId hdrawn.publicKey
    · exact isKeyValid_of_randomId hdrawn.sharedKey
  rw [wclSmpClose_apply, Option.some.injEq, Prod.mk.injEq] at close
  have hclean := (closedStorage_clean_iff hids.1 hids.2).mpr hcovered
  rw [close.2, NoSecrets, hpriv, hpub, hshared] at hclean
  exact hclean

/-- An environment that makes no key pair. -/
def noKeyPair : Env := Env.sampleWith none [3]

theorem noDrawnEntry_noKeyPair : NoDrawnEntry noKeyPair KeyStore.sample := by
  intro draw hdraw id hid
  have hdrawn : id = sampleId (UInt8.ofNat draw) ∧
      KeyStore.sample (sampleId (UInt8.ofNat draw)) = none := by
    obtain rfl | rfl | rfl : draw = 0 ∨ draw = 1 ∨ draw = 2 := by omega
    · exact ⟨(Except.ok.inj hid).symm, by decide⟩
    · exact ⟨(Except.ok.inj hid).symm, by decide⟩
    · exact ⟨(Except.ok.inj hid).symm, by decide⟩
  rw [hdrawn.1]
  exact hdrawn.2

theorem WholeKeyStep.sample {call : SessionCall} {result : Except WclError Bytes}
    (step : SessionStep (rfc7049 64) role s ⟨Env.sample, call, result⟩ s') :
    WholeKeyStep (rfc7049 64) role s ⟨Env.sample, call, result⟩ s' := by
  refine ⟨step, ?_⟩
  intro message p sharedSecret left _ _ hfails
  exact WriteOutcome.noConfusion hfails

/-- An opening without a key pair, and a client that is closed after it has sent a CONNECT and
    got the CONNACK: its shared key is there before. -/
theorem secrets_die_with_session_connected :
    let s := Session.opened.sent.connected .client
    (∃ e store', wclSmpOpen noKeyPair KeyStore.sample = some (.error e, store') ∧
      NoDrawnEntry noKeyPair store') ∧
    s.storage (sampleId 2) = some (List.replicate 32 2) ∧
    NoSecrets s.ctx (closedStorage Env.sample s.ctx s.storage) := by
  intro s
  obtain ⟨hopens, hcloses⟩ := secrets_die_with_session (rfc7049 64) .client
  have hfails : wclSmpOpen noKeyPair KeyStore.sample =
      some (.error .cryptoOperation, KeyStore.sample) := rfl
  have hnever : ¬ PrivateKeyFileOpened noKeyPair := by
    rintro ⟨_, _, privateKey, publicKey, -, -, hmake, -⟩
    cases hmake
  -- the CONNACK is what makes the client store the shared key
  have run : Run (WholeKeyStep (rfc7049 64) .client) Session.opened _ s :=
    (Run.single (WholeKeyStep.sample sample_connect)).snoc (WholeKeyStep.sample sample_acknowledged)
  refine ⟨⟨_, _, hfails, ?_⟩, by decide, ?_⟩
  · exact (hopens _ _ _ _ hfails).mpr ⟨noDrawnEntry_noKeyPair, hnever⟩
  · exact hcloses Env.sample KeyStore.sample Session.opened.ctx Session.opened.storage _ s Env.sample
      (.ok ()) _ wclSmpOpen_sample (by decide) run (fun _ => rfl) (wclSmpClose_apply _ _)

/-- An environment without a third random draw. -/
def twoDraws : Env :=
  { Env.sample with
    randomBytes := fun draw n => if draw < 2 then Env.sample.randomBytes draw n else none
    randomBytes_length := by
      intro draw n b h
      split_ifs at h
      exact Env.sample.randomBytes_length h }

/-- An environment in which every write fails after the file was opened. -/
def failingWrites : Env := { Env.sample with writeOutcome := fun _ _ => .writeFailed [4] }

/-- Where the third draw fails the opening leaves both keys; where the write of
    the shared key fails the close leaves a part of it. -/
theorem secrets_outlive_session :
    (∃ e store', wclSmpOpen twoDraws KeyStore.sample = some (.error e, store') ∧
      KeyStore.sample (sampleId 0) = none ∧ store' (sampleId 0) = some [1]) ∧
    (∃ e s store'',
      SessionStep (rfc7049 64) .broker Session.opened
        ⟨failingWrites, .processMessage (connectMessage [4, 5] [6]), .error e⟩ s ∧
      wclSmpClose Env.sample s.ctx s.storage = some (.ok (), store'') ∧
      store'' s.ctx.sessionSharedKeyStorageId = some [4]) :=
  ⟨⟨.error, _, rfl, by decide, by decide⟩,
    ⟨.cryptoOperation, _, _, rfl, wclSmpClose_apply _ _, by decide⟩⟩

end WeeveMQ
