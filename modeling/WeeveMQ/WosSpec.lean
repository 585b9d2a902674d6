/-
  WeeveMQ.WosSpec

  What the storage and crypto functions do, one lemma per function and outcome.

  A failing call leaves the store as it was, except for a write that opened the
  file: that one leaves whatever reached the disk.  All other functions read
  only.
-/

import WeeveMQ.Wos

namespace WeeveMQ

open Call

variable {env : Env} {store store' : KeyStore}

/-! ## Storage -/

theorem ne_nil_of_isKeyValid {key : StorageId} (h : lWosStorageIsKeyValid key = true) :
    key ≠ [] := by
  simp only [lWosStorageIsKeyValid, decide_eq_true_eq] at h
  exact h.1

theorem wosStorageWrite_ok {key : StorageId} {buffer : Bytes} {u : Unit} :
    wosStorageWrite env key buffer store = some (.ok u, store') ↔
      buffer ≠ [] ∧ lWosStorageIsKeyValid key = true ∧ env.writeOutcome key buffer = .written ∧
        store' = Function.update store key (some buffer) := by
  simp only [wosStorageWrite, bind_ok, failIf_ok]
  constructor
  · rintro ⟨_, _, ⟨-, rfl⟩, _, _, ⟨hb, rfl⟩, _, _, ⟨hk, rfl⟩, h⟩
    cases hw : env.writeOutcome key buffer with
    | openFailed => simp [hw] at h
    | writeFailed left => simp [hw, bind_ok] at h
    | written =>
        simp only [hw, modify_apply, Option.some.injEq, Prod.mk.injEq, true_and] at h
        exact ⟨hb, by simpa using hk, rfl, h.symm⟩
  · rintro ⟨hb, hk, hw, rfl⟩
    refine ⟨(), _, ⟨ne_nil_of_isKeyValid hk, rfl⟩, (), _, ⟨hb, rfl⟩, (), _, ⟨by simp [hk], rfl⟩, ?_⟩
    rw [hw]
    rfl

theorem wosStorageWrite_error {key : StorageId} {buffer : Bytes} {e : WosStorageError}
    (h : wosStorageWrite env key buffer store = some (.error e, store')) :
    (store' = store ∧ (buffer ≠ [] → lWosStorageIsKeyValid key = true →
        env.writeOutcome key buffer = .openFailed)) ∨
      ∃ left, (buffer ≠ [] ∧ lWosStorageIsKeyValid key = true) ∧
        env.writeOutcome key buffer = .writeFailed left ∧
        store' = Function.update store key (some left) := by
  simp only [wosStorageWrite, bind_error, failIf_error, failIf_ok] at h
  rcases h with ⟨hnil, -, rfl⟩ | ⟨_, _, ⟨-, rfl⟩, h⟩
  · exact .inl ⟨rfl, fun _ hkey => absurd hnil (ne_nil_of_isKeyValid hkey)⟩
  rcases h with ⟨hnil, -, rfl⟩ | ⟨_, _, ⟨hbuf, rfl⟩, h⟩
  · exact .inl ⟨rfl, fun hbuf => absurd hnil hbuf⟩
  rcases h with ⟨hkey, -, rfl⟩ | ⟨_, _, ⟨hkey, rfl⟩, h⟩
  · exact .inl ⟨rfl, fun _ hvalid => absurd (hkey.symm.trans hvalid) (by decide)⟩
  cases hw : env.writeOutcome key buffer with
  | openFailed =>
      simp only [hw, throw_apply, Option.some.injEq, Prod.mk.injEq] at h
      exact .inl ⟨h.2.symm, fun _ _ => rfl⟩
  | writeFailed left =>
      simp only [hw, bind_error, modify_apply] at h
      rcases h with h | ⟨_, _, ⟨⟩, h⟩
      · simp at h
      · simp only [throw_apply, Option.some.injEq, Prod.mk.injEq] at h
        exact .inr ⟨left, ⟨hbuf, by simpa using hkey⟩, rfl, h.2.symm⟩
  | written => simp [hw] at h

theorem wosStorageRead_ok {key : StorageId} {content : Bytes} :
    wosStorageRead env key store = some (.ok content, store') ↔
      lWosStorageIsKeyValid key = true ∧ store key = some content ∧ content ≠ [] ∧
        env.readFails key = false ∧ store' = store := by
  simp only [wosStorageRead, bind_ok, failIf_ok]
  constructor
  · rintro ⟨_, _, ⟨-, rfl⟩, _, _, ⟨hk, rfl⟩, s, _, hs, h⟩
    cases hs
    cases hc : store key with
    | none => simp [hc] at h
    | some c =>
        simp only [hc, bind_ok, failIf_ok] at h
        obtain ⟨_, _, ⟨hr, rfl⟩, _, _, ⟨hne, rfl⟩, h⟩ := h
        cases h
        exact ⟨by simpa using hk, rfl, hne, by simpa using hr, rfl⟩
  · rintro ⟨hk, hc, hne, hr, rfl⟩
    refine ⟨(), _, ⟨ne_nil_of_isKeyValid hk, rfl⟩, (), _, ⟨by simp [hk], rfl⟩, _, _, rfl, ?_⟩
    simp only [hc, bind_ok, failIf_ok]
    exact ⟨(), _, ⟨by simp [hr], rfl⟩, (), _, ⟨hne, rfl⟩, rfl⟩

theorem wosStorageRead_relates (key : StorageId) : Relates Eq (wosStorageRead env key) := by
  refine relates_failIf.bind fun _ => relates_failIf.bind fun _ => relates_get.bind fun s => ?_
  split
  · exact relates_throw
  · exact relates_failIf.bind fun _ => relates_failIf.bind fun _ => relates_pure

theorem wosStorageDelete_ok {key : StorageId} {u : Unit} :
    wosStorageDelete env key store = some (.ok u, store') ↔
      lWosStorageIsKeyValid key = true ∧ store key ≠ none ∧ env.removeFails key = false ∧
        store' = Function.update store key none := by
  simp only [wosStorageDelete, bind_ok, failIf_ok]
  constructor
  · rintro ⟨_, _, ⟨-, rfl⟩, _, _, ⟨hk, rfl⟩, s, _, hs, _, _, ⟨hr, rfl⟩, h⟩
    cases hs
    simp only [modify_apply, Option.some.injEq, Prod.mk.injEq, true_and] at h
    simp only [not_or] at hr
    exact ⟨by simpa using hk, hr.1, by simpa using hr.2, h.symm⟩
  · rintro ⟨hk, hc, hr, rfl⟩
    exact ⟨(), _, ⟨ne_nil_of_isKeyValid hk, rfl⟩, (), _, ⟨by simp [hk], rfl⟩, _, _, rfl, (), _,
      ⟨by simp [hc, hr], rfl⟩, rfl⟩

theorem wosStorageDelete_error {key : StorageId} {e : WosStorageError}
    (h : wosStorageDelete env key store = some (.error e, store')) : store' = store := by
  simp only [wosStorageDelete, bind_error, failIf_error, failIf_ok] at h
  rcases h with ⟨-, -, rfl⟩ | ⟨_, _, ⟨-, rfl⟩, h⟩
  · rfl
  rcases h with ⟨-, -, rfl⟩ | ⟨_, _, ⟨-, rfl⟩, h⟩
  · rfl
  rcases h with h | ⟨_, _, ⟨⟩, h⟩
  · simp at h
  rcases h with ⟨-, -, rfl⟩ | ⟨_, _, ⟨-, rfl⟩, h⟩
  · rfl
  · simp at h

theorem wosStorageDelete_returns (key : StorageId) : Returns (wosStorageDelete env key) :=
  returns_failIf.bind fun _ => returns_failIf.bind fun _ => returns_get.bind fun _ =>
    returns_failIf.bind fun _ => returns_modify

/-- A delete that nobody checks: the entry is gone where its file can be
    removed, and nothing happens elsewhere. -/
theorem ignore_wosStorageDelete {ε : Type} (key : StorageId) (store : KeyStore) :
    (ignoreErr (wosStorageDelete env key) : Call KeyStore ε Unit) store =
      some (.ok (), if lWosStorageIsKeyValid key = true ∧ env.removeFails key = false then
        Function.update store key none else store) := by
  obtain ⟨r, store', h⟩ := wosStorageDelete_returns key store
  refine ignoreErr_ok.mpr ⟨r, ?_⟩
  rw [h]
  cases r with
  | ok u =>
      obtain ⟨hk, -, hr, rfl⟩ := wosStorageDelete_ok.mp h
      rw [if_pos ⟨hk, hr⟩]
  | error e =>
      obtain rfl := wosStorageDelete_error h
      split_ifs with hkr
      · by_cases hc : store' key = none
        · rw [← hc, Function.update_eq_self]
        · simp [wosStorageDelete_ok (u := ()).mpr ⟨hkr.1, hc, hkr.2, rfl⟩] at h
      · rfl

/-! ## Cryptography -/

@[simp] theorem tomcrypt_ok {α : Type} {x : Option α} {a : α} :
    tomcrypt x = .ok a ↔ x = some a := by
  cases x <;> simp [tomcrypt]

@[simp] theorem cryptoStorage_ok {α : Type} {x : Call KeyStore WosStorageError α} {a : α} :
    cryptoStorage x store = some (.ok a, store') ↔ x store = some (.ok a, store') :=
  mapErr_ok

theorem cryptoStorage_error {α : Type} {x : Call KeyStore WosStorageError α} {e : WosCryptoError}
    (h : cryptoStorage x store = some (.error e, store')) :
    ∃ e', x store = some (.error e', store') := by
  obtain ⟨e', he, -⟩ := mapErr_error.mp h
  exact ⟨e', he⟩

theorem cryptoRead_relates (key : StorageId) :
    Relates Eq (cryptoStorage (wosStorageRead env key)) :=
  relates_mapErr (wosStorageRead_relates key)

theorem wosCryptoEccReadPubKey_relates (key : StorageId) :
    Relates Eq (wosCryptoEccReadPubKey env key) :=
  relates_failIf.bind fun _ => cryptoRead_relates key

theorem wosCryptoEccSign_relates (key : StorageId) (data : Bytes) :
    Relates Eq (wosCryptoEccSign env key data) :=
  relates_failIf.bind fun _ => relates_ofExcept.bind fun _ => (cryptoRead_relates key).bind
    fun _ => relates_ofExcept

theorem wosCryptoAeEncrypt_relates (key : StorageId) (plainText aad : Bytes) :
    Relates Eq (wosCryptoAeEncrypt env key plainText aad) :=
  relates_failIf.bind fun _ => (cryptoRead_relates key).bind fun _ => relates_failIf.bind
    fun _ => relates_ofExcept.bind fun _ => relates_ofExcept.bind fun _ => relates_pure

theorem wosCryptoAeDecrypt_relates (key : StorageId) (cipherText aad iv tag : Bytes) :
    Relates Eq (wosCryptoAeDecrypt env key cipherText aad iv tag) :=
  relates_failIf.bind fun _ => (cryptoRead_relates key).bind fun _ => relates_failIf.bind
    fun _ => relates_ofExcept.bind fun _ => relates_failIf.bind fun _ => relates_pure

theorem wosCryptoEccReadPubKey_ok {key : StorageId} {content : Bytes} :
    wosCryptoEccReadPubKey env key store = some (.ok content, store') ↔
      lWosStorageIsKeyValid key = true ∧ store key = some content ∧ content ≠ [] ∧
        env.readFails key = false ∧ store' = store := by
  simp only [wosCryptoEccReadPubKey, bind_ok, failIf_ok, cryptoStorage_ok, wosStorageRead_ok]
  constructor
  · rintro ⟨_, _, ⟨-, rfl⟩, h⟩
    exact h
  · intro h
    exact ⟨(), store, ⟨ne_nil_of_isKeyValid h.1, rfl⟩, h⟩

theorem wosCryptoEccSign_ok {key : StorageId} {data signature : Bytes} :
    wosCryptoEccSign env key data store = some (.ok signature, store') ↔
      data ≠ [] ∧ lWosStorageIsKeyValid key = true ∧ env.readFails key = false ∧
        (∃ keyBuf hash, store key = some keyBuf ∧ keyBuf ≠ [] ∧ env.hashMemory data = some hash ∧
          env.eccSignHash keyBuf hash = some signature) ∧ store' = store := by
  simp only [wosCryptoEccSign, bind_ok, failIf_ok, cryptoStorage_ok, wosStorageRead_ok,
    ofExcept_apply, Option.some.injEq, Prod.mk.injEq, tomcrypt_ok]
  constructor
  · rintro ⟨_, _, ⟨hne, rfl⟩, hash, _, ⟨hh, rfl⟩, keyBuf, _, ⟨hk, hc, hb, hr, rfl⟩, hs, rfl⟩
    exact ⟨fun h => hne (.inr h), hk, hr, ⟨keyBuf, hash, hc, hb, hh, hs⟩, rfl⟩
  · rintro ⟨hd, hk, hr, ⟨keyBuf, hash, hc, hb, hh, hs⟩, rfl⟩
    refine ⟨(), _, ⟨?_, rfl⟩, hash, _, ⟨hh, rfl⟩, keyBuf, _, ⟨hk, hc, hb, hr, rfl⟩, hs, rfl⟩
    exact not_or.mpr ⟨ne_nil_of_isKeyValid hk, hd⟩

theorem wosCryptoGetRandomBytes_ok {draw length : Nat} {b : Bytes} :
    wosCryptoGetRandomBytes env draw length = .ok b ↔
      length ≠ 0 ∧ env.randomBytes draw length = some b := by
  simp [wosCryptoGetRandomBytes, except_bind_ok]

theorem wosCryptoAeEncrypt_ok {key : StorageId} {plainText aad : Bytes} {r : AeResult} :
    wosCryptoAeEncrypt env key plainText aad store = some (.ok r, store') ↔
      lWosStorageIsKeyValid key = true ∧ env.readFails key = false ∧
        (∃ secretKey, store key = some secretKey ∧
          secretKey.length = WOS_CRYPTO_AE_AES256_KEY_LENGTH ∧
          env.randomBytes 0 WOS_CRYPTO_AE_AES_GCM_IV_LENGTH = some r.iv ∧
          env.gcmEncrypt secretKey r.iv aad plainText = some (r.cipherText, r.tag)) ∧
        store' = store := by
  simp only [wosCryptoAeEncrypt, bind_ok, failIf_ok, cryptoStorage_ok, wosStorageRead_ok,
    ofExcept_apply, Option.some.injEq, Prod.mk.injEq, tomcrypt_ok, wosCryptoGetRandomBytes_ok,
    pure_apply, Except.ok.injEq, Prod.exists]
  constructor
  · rintro ⟨_, _, ⟨-, rfl⟩, k, _, ⟨hk, hc, -, hr, rfl⟩, _, _, ⟨hlen, rfl⟩, iv, _, ⟨⟨-, hiv⟩, rfl⟩,
      ct, tag, _, ⟨henc, rfl⟩, rfl, rfl⟩
    exact ⟨hk, hr, ⟨k, hc, by simpa using hlen, hiv, henc⟩, rfl⟩
  · rintro ⟨hk, hr, ⟨k, hc, hlen, hiv, henc⟩, rfl⟩
    refine ⟨(), _, ⟨ne_nil_of_isKeyValid hk, rfl⟩, k, _, ⟨hk, hc, ?_, hr, rfl⟩, (), _,
      ⟨by simpa using hlen, rfl⟩, r.iv, _, ⟨⟨by decide, hiv⟩, rfl⟩, r.cipherText, r.tag, _,
      ⟨henc, rfl⟩, rfl, rfl⟩
    rintro rfl
    simp [WOS_CRYPTO_AE_AES256_KEY_LENGTH] at hlen

theorem wosCryptoAeDecrypt_ok {key : StorageId} {cipherText aad iv tag plainText : Bytes} :
    wosCryptoAeDecrypt env key cipherText aad iv tag store = some (.ok plainText, store') ↔
      lWosStorageIsKeyValid key = true ∧ env.readFails key = false ∧ iv ≠ [] ∧ tag ≠ [] ∧
        (∃ secretKey, store key = some secretKey ∧
          secretKey.length = WOS_CRYPTO_AE_AES256_KEY_LENGTH ∧
          env.gcmDecrypt secretKey iv aad cipherText = some (plainText, tag)) ∧
        store' = store := by
  simp only [wosCryptoAeDecrypt, bind_ok, failIf_ok, cryptoStorage_ok, wosStorageRead_ok,
    ofExcept_apply, Option.some.injEq, Prod.mk.injEq, tomcrypt_ok, pure_apply, Except.ok.injEq,
    Prod.exists]
  constructor
  · rintro ⟨_, _, ⟨hne, rfl⟩, k, _, ⟨hk, hc, -, hr, rfl⟩, _, _, ⟨hlen, rfl⟩, pt, aux, _,
      ⟨hdec, rfl⟩, _, _, ⟨htag, rfl⟩, rfl, rfl⟩
    simp only [not_or] at hne
    rw [Decidable.not_not.mp htag] at hdec
    exact ⟨hk, hr, hne.2.1, hne.2.2, ⟨k, hc, by simpa using hlen, hdec⟩, rfl⟩
  · rintro ⟨hk, hr, hiv, htag, ⟨k, hc, hlen, hdec⟩, rfl⟩
    refine ⟨(), _, ⟨by simp [ne_nil_of_isKeyValid hk, hiv, htag], rfl⟩, k, _,
      ⟨hk, hc, ?_, hr, rfl⟩, (), _, ⟨by simpa using hlen, rfl⟩, plainText, tag, _, ⟨hdec, rfl⟩,
      (), _, ⟨by simp, rfl⟩, rfl, rfl⟩
    rintro rfl
    simp [WOS_CRYPTO_AE_AES256_KEY_LENGTH] at hlen

theorem wosCryptoDeriveSymKey_ok {publicKey : Bytes} {privateId sharedId : StorageId} {u : Unit} :
    wosCryptoDeriveSymKey env publicKey privateId sharedId store = some (.ok u, store') ↔
      publicKey ≠ [] ∧ lWosStorageIsKeyValid privateId = true ∧ env.readFails privateId = false ∧
        lWosStorageIsKeyValid sharedId = true ∧
        ∃ privateKey sharedSecret, store privateId = some privateKey ∧ privateKey ≠ [] ∧
          env.eccSharedSecret privateKey publicKey = some sharedSecret ∧
          env.writeOutcome sharedId sharedSecret = .written ∧
          store' = Function.update store sharedId (some sharedSecret) := by
  simp only [wosCryptoDeriveSymKey, bind_ok, failIf_ok, cryptoStorage_ok, wosStorageRead_ok,
    wosStorageWrite_ok, ofExcept_apply, Option.some.injEq, Prod.mk.injEq, tomcrypt_ok]
  constructor
  · rintro ⟨_, _, ⟨hne, rfl⟩, k, _, ⟨hk, hc, hkne, hr, rfl⟩, secret, _, ⟨hs, rfl⟩, -, hsk, hw, rfl⟩
    simp only [not_or] at hne
    exact ⟨hne.1, hk, hr, hsk, k, secret, hc, hkne, hs, hw, rfl⟩
  · rintro ⟨hpub, hk, hr, hsk, k, secret, hc, hkne, hs, hw, rfl⟩
    refine ⟨(), _, ⟨?_, rfl⟩, k, _, ⟨hk, hc, hkne, hr, rfl⟩, secret, _, ⟨hs, rfl⟩, ?_, hsk, hw, rfl⟩
    · exact not_or.mpr ⟨hpub, not_or.mpr ⟨ne_nil_of_isKeyValid hk, ne_nil_of_isKeyValid hsk⟩⟩
    · have := env.eccSharedSecret_length hs
      rintro rfl
      simp at this

/-- A derivation that fails has written nothing, or left a partial shared key. -/
theorem wosCryptoDeriveSymKey_error {publicKey : Bytes} {privateId sharedId : StorageId}
    {e : WosCryptoError}
    (h : wosCryptoDeriveSymKey env publicKey privateId sharedId store = some (.error e, store')) :
    store' = store ∨
      (lWosStorageIsKeyValid privateId = true ∧ env.readFails privateId = false ∧
        lWosStorageIsKeyValid sharedId = true ∧
        ∃ privateKey sharedSecret left, store privateId = some privateKey ∧ privateKey ≠ [] ∧
          env.eccSharedSecret privateKey publicKey = some sharedSecret ∧
          env.writeOutcome sharedId sharedSecret = .writeFailed left ∧
          store' = Function.update store sharedId (some left)) := by
  simp only [wosCryptoDeriveSymKey, bind_error, failIf_error, failIf_ok, ofExcept_apply] at h
  rcases h with ⟨-, -, rfl⟩ | ⟨_, _, ⟨-, rfl⟩, h⟩
  · exact .inl rfl
  rcases h with h | ⟨privateKey, _, h1, h⟩
  · exact .inl (cryptoRead_relates privateId _ _ _ h).symm
  obtain ⟨hk, hc, hne, hr, rfl⟩ := wosStorageRead_ok.mp (cryptoStorage_ok.mp h1)
  rcases h with h | ⟨secret, _, h2, h⟩
  · simp only [Option.some.injEq, Prod.mk.injEq] at h
    exact .inl h.2.symm
  simp only [Option.some.injEq, Prod.mk.injEq, tomcrypt_ok] at h2
  obtain ⟨hs, rfl⟩ := h2
  obtain ⟨e', he⟩ := cryptoStorage_error h
  rcases wosStorageWrite_error he with ⟨rfl, -⟩ | ⟨left, ⟨-, hkey⟩, hw, rfl⟩
  · exact .inl rfl
  · exact .inr ⟨hk, hr, hkey, privateKey, secret, left, hc, hne, hs, hw, rfl⟩

end WeeveMQ
