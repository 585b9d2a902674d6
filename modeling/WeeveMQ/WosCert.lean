/-
  WeeveMQ.WosCert

  Certificate chains: `wosCert.c`.

  The chain is a linked list to which certificates are prepended: the caller's
  one after another, the root last, so that it ends up in front.  Allocation
  succeeds, and `verify key data signature` says whether
  `wosCryptoEccVerifyKeyBuffer` reports a match.

  - `Issues`: one certificate vouches for another.
  - `lWosCertValidateChain_valid`: what a valid chain is.
  - `validate_data_iff`: data is accepted exactly when a chain leads from the
    root to the key that signed it.
  - `lSmpVerifySeParams_signedByChain`: so is the peer of a session whose
    environment checks chains this way.
-/

import WeeveMQ.CborCert
import WeeveMQ.SmpReceiveSpec
import Mathlib.Data.List.Chain

namespace WeeveMQ

open Call (reject except_bind_ok)

/-- `WosCertError_t`. -/
inductive WosCertError where
  | success
  | error
  | badParams
  | crypto
  | signatureMatch
  | signatureInvalid
  | outOfMemory
  | badFormat
  | chainValid
  | issuerMismatch
  | signatureMismatch
  deriving DecidableEq, Repr

/-- `WosCertType_t`. -/
structure WosCertType where
  container : WosCertContainerType
  tbs : WosCertTbsType
  deriving DecidableEq, Repr

/-- `WosCertChain_t`: the list from its head on. -/
abbrev WosCertChain := List WosCertType

/-- `WOS_CERT_CHAIN_LIMIT`. -/
def WOS_CERT_CHAIN_LIMIT : Nat := 3

/-! ## Strings -/

/-- `strcmp` on the characters in front of the terminators. -/
def compareContent : Bytes → Bytes → Int
  | [], [] => 0
  | [], _ :: _ => -1
  | _ :: _, [] => 1
  | c :: first, d :: second =>
      if c = d then compareContent first second else if c < d then -1 else 1

/-- `wosStringComparison` of two strings that are not null. -/
def wosStringComparison (firstString secondString : WosString) : Int :=
  compareContent (stringContent firstString) (stringContent secondString)

theorem compareContent_eq_zero {first second : Bytes} :
    compareContent first second = 0 ↔ first = second := by
  -- on both strings
  induction first generalizing second with
  | nil => cases second <;> simp [compareContent]
  | cons c first ih =>
      cases second with
      | nil => simp [compareContent]
      | cons d second =>
          rw [compareContent]
          by_cases hcd : c = d
          · rw [if_pos hcd, ih, hcd, List.cons.injEq, and_iff_right rfl]
          · rw [if_neg hcd, List.cons.injEq]
            split_ifs <;> simp [hcd]

theorem wosStringComparison_eq_zero {firstString secondString : WosString} :
    wosStringComparison firstString secondString = 0 ↔
      stringContent firstString = stringContent secondString :=
  compareContent_eq_zero

/-! ## The chain -/

section Functions

variable (cbor : TinyCbor) (verify : Bytes → Bytes → Bytes → Bool)

def lWosCertAddStructToChain (chain : WosCertChain) (container : WosCertContainerType)
    (tbs : WosCertTbsType) : WosCertChain :=
  { container := container, tbs := tbs } :: chain

def lWosCertAddBufferToChain (chain : WosCertChain) (certBuf : Bytes) :
    Except WosCertError WosCertChain := do
  reject (certBuf = []) .badParams
  let container ← (wosCborUnpackCertificateContainer cbor certBuf).mapError fun _ => .badFormat
  let tbs ← (wosCborUnpackCertificateTbs cbor container.encodedTbs).mapError fun _ => .badFormat
  return lWosCertAddStructToChain chain container tbs

def lWosCertCheckIssuance (previous this : WosCertType) : WosCertError :=
  if wosStringComparison previous.tbs.subjectId this.tbs.issuerId ≠ 0 then .issuerMismatch
  else if verify previous.tbs.subjectPubKey this.container.encodedTbs
      this.container.signature = false then .signatureMismatch
  else .chainValid

def lWosCertCheckCertParams (cert : WosCertType) : WosCertError :=
  if cert.tbs.version ≠ cert.container.version then .badParams else .success

/-- The loop of `lWosCertValidateChain`.  The first certificate, the root, is its
    own predecessor. -/
def validateFrom (previous : Option WosCertType) : WosCertChain → WosCertError
  | [] => .chainValid
  | this :: next =>
      let result := lWosCertCheckCertParams this
      if result ≠ .success then result
      else
        -- issued by the one before it in the list
        let result := lWosCertCheckIssuance verify (previous.getD this) this
        if result ≠ .chainValid then result
        else validateFrom (some this) next

def lWosCertValidateChain (chain : WosCertChain) : WosCertError :=
  if chain = [] then .badParams else validateFrom verify none chain

/-- The key of the last element. -/
def lWosCertGetEndPublicKey : WosCertChain → Except WosCertError Bytes
  | [] => .error .badParams
  | [cert] => .ok cert.tbs.subjectPubKey
  | _ :: cert :: next => lWosCertGetEndPublicKey (cert :: next)

/-- The loop over the caller's certificates. -/
def addCertsToChain (chain : WosCertChain) : List Bytes → Except WosCertError WosCertChain
  | [] => .ok chain
  | certBuf :: certs => do
      reject (certBuf = []) .badParams
      -- every certificate is prepended, so the last one of the caller comes first
      let chain ← lWosCertAddBufferToChain cbor chain certBuf
      addCertsToChain chain certs

/-- `wosCertValidateData` up to the code it returns. -/
def validateData (rootBuf : Bytes) (certs : List Bytes) (signedData signature : Bytes) :
    Except WosCertError WosCertError := do
  reject (rootBuf = [] ∨ certs.length > WOS_CERT_CHAIN_LIMIT ∨ signedData = [] ∨ signature = [])
    .badParams
  let chain ← addCertsToChain cbor [] certs
  let chain ← lWosCertAddBufferToChain cbor chain rootBuf
  let result := lWosCertValidateChain verify chain
  reject (result ≠ .chainValid) result
  -- the first certificate of the caller is the last one of the list
  let pubKey ← lWosCertGetEndPublicKey chain
  return if verify pubKey signedData signature then .signatureMatch else .signatureInvalid

/-- `numCerts` is the length of the list `certs`. -/
def wosCertValidateData (rootBuf : Bytes) (certs : List Bytes) (signedData signature : Bytes) :
    WosCertError :=
  match validateData cbor verify rootBuf certs signedData signature with
  | .error result => result
  | .ok result => result

end Functions

/-! ## Building the chain -/

/-- A buffer that unpacks to a certificate. -/
structure Unpacks (cbor : TinyCbor) (certBuf : Bytes) (cert : WosCertType) : Prop where
  container : wosCborUnpackCertificateContainer cbor certBuf = .ok cert.container
  tbs : wosCborUnpackCertificateTbs cbor cert.container.encodedTbs = .ok cert.tbs

section Building

variable {cbor : TinyCbor} {chain chain' : WosCertChain}

theorem lWosCertAddBufferToChain_ok {certBuf : Bytes} :
    lWosCertAddBufferToChain cbor chain certBuf = .ok chain' ↔
      certBuf ≠ [] ∧ ∃ cert, Unpacks cbor certBuf cert ∧ chain' = cert :: chain := by
  simp only [lWosCertAddBufferToChain, except_bind_ok, Call.reject_ok, Call.except_mapError_ok,
    exists_and_left, exists_const, lWosCertAddStructToChain, pure, Except.pure, Except.ok.injEq]
  constructor
  · rintro ⟨hne, container, hc, tbs, ht, rfl⟩
    exact ⟨hne, ⟨container, tbs⟩, ⟨hc, ht⟩, rfl⟩
  · rintro ⟨hne, cert, ⟨hc, ht⟩, rfl⟩
    exact ⟨hne, cert.container, hc, cert.tbs, ht, rfl⟩

/-- The caller's certificates end up in reverse order in front of the chain. -/
theorem addCertsToChain_ok {certs : List Bytes} :
    addCertsToChain cbor chain certs = .ok chain' ↔
      (∀ c ∈ certs, c ≠ []) ∧
        ∃ cs, List.Forall₂ (Unpacks cbor) certs cs ∧ chain' = cs.reverse ++ chain := by
  -- on the certificates that are left; `chain` holds those before
  induction certs generalizing chain with
  | nil => simp [addCertsToChain, eq_comm]
  | cons certBuf certs ih =>
      simp only [addCertsToChain, except_bind_ok, Call.reject_ok, lWosCertAddBufferToChain_ok, ih,
        exists_and_left, exists_const, List.forall_mem_cons]
      constructor
      · rintro ⟨hne, chain1, ⟨-, cert, hcert, rfl⟩, hall, cs, hcs, rfl⟩
        exact ⟨⟨hne, hall⟩, cert :: cs, .cons hcert hcs, by simp⟩
      · rintro ⟨⟨hne, hall⟩, cs', hcs', rfl⟩
        cases hcs' with
        | @cons _ cert _ cs hcert hcs =>
            exact ⟨hne, cert :: chain, ⟨hne, cert, hcert, rfl⟩, hall, cs, hcs, by simp⟩

end Building

/-! ## Walking the chain -/

/-- The issuer's name and key stand behind a certificate. -/
structure Issues (verify : Bytes → Bytes → Bytes → Bool) (issuer cert : WosCertType) : Prop where
  name : stringContent issuer.tbs.subjectId = stringContent cert.tbs.issuerId
  signature : verify issuer.tbs.subjectPubKey cert.container.encodedTbs
    cert.container.signature = true

section Walking

variable {verify : Bytes → Bytes → Bytes → Bool}

theorem lWosCertCheckIssuance_valid {previous this : WosCertType} :
    lWosCertCheckIssuance verify previous this = .chainValid ↔ Issues verify previous this := by
  unfold lWosCertCheckIssuance
  split_ifs with hname hsig
  · simp only [false_iff]
    intro h
    exact hname (wosStringComparison_eq_zero.mpr h.name)
  · simp only [false_iff]
    intro h
    rw [h.signature] at hsig
    simp at hsig
  · simp only [true_iff]
    rw [ne_eq, not_not] at hname
    exact ⟨wosStringComparison_eq_zero.mp hname, by simpa using hsig⟩

theorem lWosCertCheckCertParams_success {cert : WosCertType} :
    lWosCertCheckCertParams cert = .success ↔ cert.tbs.version = cert.container.version := by
  unfold lWosCertCheckCertParams
  split_ifs with h
  · simp [h]
  · simpa using h

/-- One round of the loop. -/
theorem validateFrom_cons {previous : Option WosCertType} {this : WosCertType}
    {next : WosCertChain} :
    validateFrom verify previous (this :: next) = .chainValid ↔
      this.tbs.version = this.container.version ∧ Issues verify (previous.getD this) this ∧
        validateFrom verify (some this) next = .chainValid := by
  rw [validateFrom, ← lWosCertCheckCertParams_success, ← lWosCertCheckIssuance_valid]
  simp only
  split_ifs with hparams hissuance
  · simp only [hparams, false_and, iff_false]
    rw [ne_eq] at hparams
    intro h
    -- the code of a failed parameter check is no success either
    unfold lWosCertCheckCertParams at h
    split_ifs at h
  · simp only [hissuance, false_and, and_false]
  · rw [ne_eq, not_not] at hparams hissuance
    simp [hparams, hissuance]

/-- From a certificate on, every next one has to be issued by the one before. -/
theorem validateFrom_some {previous : WosCertType} {chain : WosCertChain} :
    validateFrom verify (some previous) chain = .chainValid ↔
      (∀ cert ∈ chain, cert.tbs.version = cert.container.version) ∧
        (previous :: chain).IsChain (Issues verify) := by
  induction chain generalizing previous with
  | nil => simp [validateFrom]
  | cons this next ih =>
      rw [validateFrom_cons, ih, Option.getD_some, List.isChain_cons_cons, List.forall_mem_cons]
      tauto

/-- A chain is valid when its versions agree, its root issues itself, and every
    other certificate is issued by the one before. -/
theorem lWosCertValidateChain_valid {root : WosCertType} {chain : WosCertChain} :
    lWosCertValidateChain verify (root :: chain) = .chainValid ↔
      (∀ cert ∈ root :: chain, cert.tbs.version = cert.container.version) ∧
        Issues verify root root ∧ (root :: chain).IsChain (Issues verify) := by
  unfold lWosCertValidateChain
  rw [if_neg (by simp), validateFrom_cons, validateFrom_some, Option.getD_none,
    List.forall_mem_cons]
  tauto

/-- The end of the chain. -/
theorem lWosCertGetEndPublicKey_concat (chain : WosCertChain) (cert : WosCertType) :
    lWosCertGetEndPublicKey (chain ++ [cert]) = .ok cert.tbs.subjectPubKey := by
  induction chain with
  | nil => rfl
  | cons first chain ih =>
      cases chain with
      | nil => rfl
      | cons second chain => exact ih

end Walking

/-! ## Validating data -/

/-- Data signed at the end of a chain of certificates: `certs` is the caller's
    list, of which the root is the continuation. -/
structure SignedByChain (cbor : TinyCbor) (verify : Bytes → Bytes → Bytes → Bool)
    (rootBuf : Bytes) (certs : List Bytes) (signedData signature : Bytes) : Prop where
  limit : certs.length ≤ WOS_CERT_CHAIN_LIMIT
  buffers : rootBuf ≠ [] ∧ (∀ c ∈ certs, c ≠ []) ∧ signedData ≠ [] ∧ signature ≠ []
  chain : ∃ root cs, Unpacks cbor rootBuf root ∧ List.Forall₂ (Unpacks cbor) certs cs ∧
    (∀ cert ∈ cs ++ [root], cert.tbs.version = cert.container.version) ∧
    (stringContent root.tbs.issuerId = stringContent root.tbs.subjectId ∧
      verify root.tbs.subjectPubKey root.container.encodedTbs root.container.signature = true) ∧
    (∀ i cert issuer, (cs ++ [root])[i]? = some cert → (cs ++ [root])[i + 1]? = some issuer →
      stringContent issuer.tbs.subjectId = stringContent cert.tbs.issuerId ∧
        verify issuer.tbs.subjectPubKey cert.container.encodedTbs cert.container.signature = true) ∧
    ∀ cert, (cs ++ [root])[0]? = some cert →
      verify cert.tbs.subjectPubKey signedData signature = true

section Results

variable {cbor : TinyCbor} {verify : Bytes → Bytes → Bytes → Bool}

/-- The chain in the order of the caller, index by index. -/
theorem isChain_reverse_iff {chain : WosCertChain} :
    chain.reverse.IsChain (Issues verify) ↔
      ∀ i cert issuer, chain[i]? = some cert → chain[i + 1]? = some issuer →
        Issues verify issuer cert := by
  -- the list is the reverse of the order of the caller
  rw [List.isChain_reverse, List.isChain_iff_getElem]
  constructor
  · intro h i cert issuer hcert hissuer
    obtain ⟨hi, rfl⟩ := List.getElem?_eq_some_iff.mp hissuer
    obtain ⟨hi', rfl⟩ := List.getElem?_eq_some_iff.mp hcert
    exact h i hi
  · intro h i hi
    exact h i _ _ (List.getElem?_eq_getElem (by omega)) (List.getElem?_eq_getElem hi)

/-- A sequence reports a code only when one of its steps does. -/
theorem bind_ne_error {α β : Type} {x : Except WosCertError α} {f : α → Except WosCertError β}
    {e : WosCertError} (hx : x ≠ .error e) (hf : ∀ a, f a ≠ .error e) : x >>= f ≠ .error e := by
  cases x with
  | error e' =>
      intro h
      cases h
      exact hx rfl
  | ok a => exact hf a

theorem reject_ne_match {c : Prop} [Decidable c] {e : WosCertError} (h : e ≠ .signatureMatch) :
    reject c e ≠ (.error .signatureMatch : Except WosCertError Unit) := by
  unfold reject
  split_ifs
  · intro heq
    exact h (by simpa using heq)
  · simp

theorem mapError_ne_match {α : Type} {x : Except WosMsgError α} {e : WosCertError}
    (h : e ≠ .signatureMatch) : (x.mapError fun _ => e) ≠ .error .signatureMatch := by
  cases x with
  | error _ =>
      intro heq
      exact h (by simpa [Except.mapError] using heq)
  | ok a => simp [Except.mapError]

theorem lWosCertAddBufferToChain_ne_match (chain : WosCertChain) (certBuf : Bytes) :
    lWosCertAddBufferToChain cbor chain certBuf ≠ .error .signatureMatch :=
  bind_ne_error (reject_ne_match (by decide)) fun _ =>
    bind_ne_error (mapError_ne_match (by decide)) fun _ =>
    bind_ne_error (mapError_ne_match (by decide)) fun _ => by simp [pure, Except.pure]

theorem addCertsToChain_ne_match (chain : WosCertChain) (certs : List Bytes) :
    addCertsToChain cbor chain certs ≠ .error .signatureMatch := by
  induction certs generalizing chain with
  | nil => simp [addCertsToChain]
  | cons certBuf certs ih =>
      exact bind_ne_error (reject_ne_match (by decide)) fun _ =>
        bind_ne_error (lWosCertAddBufferToChain_ne_match chain certBuf) ih

theorem lWosCertGetEndPublicKey_ne_match (chain : WosCertChain) :
    lWosCertGetEndPublicKey chain ≠ .error .signatureMatch := by
  induction chain using lWosCertGetEndPublicKey.induct with
  | case1 => simp [lWosCertGetEndPublicKey]
  | case2 cert => simp [lWosCertGetEndPublicKey]
  | case3 first cert next ih => exact ih

theorem validateFrom_ne_match (previous : Option WosCertType) (chain : WosCertChain) :
    validateFrom verify previous chain ≠ .signatureMatch := by
  induction chain generalizing previous with
  | nil => simp [validateFrom]
  | cons this next ih =>
      have hparams : lWosCertCheckCertParams this ≠ .signatureMatch := by
        unfold lWosCertCheckCertParams
        split_ifs <;> simp
      have hissuance : ∀ issuer, lWosCertCheckIssuance verify issuer this ≠ .signatureMatch := by
        intro issuer
        unfold lWosCertCheckIssuance
        split_ifs <;> simp
      rw [validateFrom]
      simp only
      split_ifs
      · exact hparams
      · exact hissuance _
      · exact ih _

theorem lWosCertValidateChain_ne_match (chain : WosCertChain) :
    lWosCertValidateChain verify chain ≠ .signatureMatch := by
  unfold lWosCertValidateChain
  split_ifs
  · simp
  · exact validateFrom_ne_match _ _

/-- No failing step reports a match. -/
theorem validateData_ne_match (rootBuf : Bytes) (certs : List Bytes) (signedData signature : Bytes) :
    validateData cbor verify rootBuf certs signedData signature ≠ .error .signatureMatch :=
  bind_ne_error (reject_ne_match (by decide)) fun _ =>
    bind_ne_error (addCertsToChain_ne_match _ _) fun _ =>
    bind_ne_error (lWosCertAddBufferToChain_ne_match _ _) fun _ =>
    bind_ne_error (reject_ne_match (lWosCertValidateChain_ne_match _)) fun _ =>
    bind_ne_error (lWosCertGetEndPublicKey_ne_match _) fun _ => by simp [pure, Except.pure]

/-- The steps of a successful validation. -/
theorem validateData_ok {rootBuf : Bytes} {certs : List Bytes} {signedData signature : Bytes} :
    validateData cbor verify rootBuf certs signedData signature = .ok .signatureMatch ↔
      (rootBuf ≠ [] ∧ certs.length ≤ WOS_CERT_CHAIN_LIMIT ∧ signedData ≠ [] ∧ signature ≠ []) ∧
      (∀ c ∈ certs, c ≠ []) ∧ ∃ root cs key, Unpacks cbor rootBuf root ∧
        List.Forall₂ (Unpacks cbor) certs cs ∧
        lWosCertValidateChain verify (root :: cs.reverse) = .chainValid ∧
        lWosCertGetEndPublicKey (root :: cs.reverse) = .ok key ∧
        verify key signedData signature = true := by
  have hresult : ∀ key, (pure (if verify key signedData signature then .signatureMatch
      else .signatureInvalid) : Except WosCertError WosCertError) = .ok .signatureMatch ↔
        verify key signedData signature = true := by
    intro key
    simp only [pure, Except.pure, Except.ok.injEq]
    split_ifs with h <;> simp [h]
  simp only [validateData, except_bind_ok, Call.reject_ok, addCertsToChain_ok,
    lWosCertAddBufferToChain_ok, exists_and_left, exists_const, not_or, not_lt, ne_eq, not_not,
    hresult]
  constructor
  · rintro ⟨hin, _, ⟨hall, cs, hcs, rfl⟩, _, ⟨-, root, hroot, rfl⟩, hvalid, key, hkey, hverify⟩
    rw [List.append_nil] at hvalid hkey
    exact ⟨hin, hall, root, hroot, cs, hcs, hvalid, key, hkey, hverify⟩
  · rintro ⟨hin, hall, root, hroot, cs, hcs, hvalid, key, hkey, hverify⟩
    refine ⟨hin, _, ⟨hall, cs, hcs, rfl⟩, _, ⟨hin.1, root, hroot, rfl⟩, ?_, key, ?_, hverify⟩
    · rw [List.append_nil]
      exact hvalid
    · rw [List.append_nil]
      exact hkey

/-- The key at the end belongs to the caller's first certificate. -/
theorem endPublicKey_of_chain {root : WosCertType} {cs : List WosCertType} {key : Bytes} :
    lWosCertGetEndPublicKey (root :: cs.reverse) = .ok key ↔
      ∃ cert, (cs ++ [root])[0]? = some cert ∧ key = cert.tbs.subjectPubKey := by
  have hend : ∃ cert, (cs ++ [root])[0]? = some cert ∧
      lWosCertGetEndPublicKey (root :: cs.reverse) = .ok cert.tbs.subjectPubKey := by
    cases cs with
    | nil => exact ⟨root, rfl, rfl⟩
    | cons cert cs =>
        refine ⟨cert, rfl, ?_⟩
        rw [List.reverse_cons, ← List.cons_append]
        exact lWosCertGetEndPublicKey_concat _ _
  obtain ⟨cert, hcert, hkey⟩ := hend
  rw [hkey, hcert, Except.ok.injEq]
  simp [eq_comm]

/-- The chain `wosCertValidateData` walks, in the order of the caller. -/
theorem validChain_iff {root : WosCertType} {cs : List WosCertType} :
    lWosCertValidateChain verify (root :: cs.reverse) = .chainValid ↔
      (∀ cert ∈ cs ++ [root], cert.tbs.version = cert.container.version) ∧
        Issues verify root root ∧
        ∀ i cert issuer, (cs ++ [root])[i]? = some cert → (cs ++ [root])[i + 1]? = some issuer →
          Issues verify issuer cert := by
  have hreverse : root :: cs.reverse = (cs ++ [root]).reverse := by simp
  rw [lWosCertValidateChain_valid, hreverse, isChain_reverse_iff]
  simp only [List.mem_reverse]

theorem issues_iff {issuer cert : WosCertType} :
    Issues verify issuer cert ↔ stringContent issuer.tbs.subjectId = stringContent cert.tbs.issuerId ∧
      verify issuer.tbs.subjectPubKey cert.container.encodedTbs cert.container.signature = true :=
  ⟨fun h => ⟨h.name, h.signature⟩, fun h => ⟨h.1, h.2⟩⟩

/-- No error code is the match. -/
theorem wosCertValidateData_match {rootBuf : Bytes} {certs : List Bytes}
    {signedData signature : Bytes} :
    wosCertValidateData cbor verify rootBuf certs signedData signature = .signatureMatch ↔
      validateData cbor verify rootBuf certs signedData signature = .ok .signatureMatch := by
  have hne := @validateData_ne_match cbor verify rootBuf certs signedData signature
  unfold wosCertValidateData
  rcases hr : validateData cbor verify rootBuf certs signedData signature with e | result
  · rw [hr] at hne
    simp only [reduceCtorEq, iff_false]
    rintro rfl
    exact hne rfl
  · simp

theorem validateData_match {rootBuf : Bytes} {certs : List Bytes} {signedData signature : Bytes} :
    validateData cbor verify rootBuf certs signedData signature = .ok .signatureMatch ↔
      SignedByChain cbor verify rootBuf certs signedData signature := by
  rw [validateData_ok]
  constructor
  · rintro ⟨⟨hroot, hlimit, hdata, hsig⟩, hall, root, cs, key, hr, hcs, hvalid, hkey, hverify⟩
    obtain ⟨hversions, hself, hlinks⟩ := validChain_iff.mp hvalid
    obtain ⟨first, hfirst, rfl⟩ := endPublicKey_of_chain.mp hkey
    refine ⟨hlimit, ⟨hroot, hall, hdata, hsig⟩, root, cs, hr, hcs, hversions,
      ⟨hself.name.symm, hself.signature⟩, ?_, ?_⟩
    · intro i cert issuer hcert hissuer
      exact issues_iff.mp (hlinks i cert issuer hcert hissuer)
    · intro cert hcert
      rw [hfirst, Option.some.injEq] at hcert
      rw [← hcert]
      exact hverify
  · rintro ⟨hlimit, ⟨hroot, hall, hdata, hsig⟩, root, cs, hr, hcs, hversions, hself, hlinks, hend⟩
    -- without certificates the root itself is the end of the chain
    obtain ⟨first, hfirst⟩ : ∃ first, (cs ++ [root])[0]? = some first := by
      cases cs with
      | nil => exact ⟨root, rfl⟩
      | cons cert cs => exact ⟨cert, rfl⟩
    refine ⟨⟨hroot, hlimit, hdata, hsig⟩, hall, root, cs, first.tbs.subjectPubKey, hr, hcs, ?_,
      endPublicKey_of_chain.mpr ⟨first, hfirst, rfl⟩, hend first hfirst⟩
    refine validChain_iff.mpr ⟨hversions, ⟨hself.1.symm, hself.2⟩, ?_⟩
    intro i cert issuer hcert hissuer
    exact issues_iff.mpr (hlinks i cert issuer hcert hissuer)

/-- Data is reported as signed exactly when a chain of certificates leads from
    the root to the key that signed it. -/
theorem validate_data_iff (cbor : TinyCbor) (verify : Bytes → Bytes → Bytes → Bool)
    (rootBuf : Bytes) (certs : List Bytes) (signedData signature : Bytes) :
    wosCertValidateData cbor verify rootBuf certs signedData signature = .signatureMatch ↔
      SignedByChain cbor verify rootBuf certs signedData signature :=
  wosCertValidateData_match.trans validateData_match

/-! ## The chain check of a session -/

/-- What a session asks of its environment is this chain check. -/
def Env.ChecksChains (env : Env) (cbor : TinyCbor) (verify : Bytes → Bytes → Bytes → Bool) :
    Prop :=
  ∀ rootBuf certs signedData signature,
    env.wosCertValidateData rootBuf certs signedData signature = true ↔
      WeeveMQ.wosCertValidateData cbor verify rootBuf certs signedData signature = .signatureMatch

/-- The environment, with this chain check. -/
def Env.checkingChains (env : Env) (cbor : TinyCbor) (verify : Bytes → Bytes → Bytes → Bool) :
    Env :=
  { env with
    wosCertValidateData := fun rootBuf certs signedData signature =>
      WeeveMQ.wosCertValidateData cbor verify rootBuf certs signedData signature = .signatureMatch }

theorem Env.checkingChains_checks (env : Env) :
    (env.checkingChains cbor verify).ChecksChains cbor verify := by
  intro rootBuf certs signedData signature
  exact decide_eq_true_iff

/-- A session accepts the parameters of its peer only with a chain of certificates
    from its root certificate to the key that signed them. -/
theorem lSmpVerifySeParams_signedByChain {role : Role} {env : Env} {s s' : Session}
    {p : WosMsgMqttsSeParams} {u : Unit} (hchecks : env.ChecksChains cbor verify)
    (h : lSmpVerifySeParams role env p s = some (.ok u, s')) :
    ∃ rootCa, Readable env s s.ctx.rootCaStorageId rootCa ∧
      SignedByChain cbor verify rootCa p.certs (p.signedData role.peer) p.signature := by
  obtain ⟨rootCa, hread, hmatch⟩ := (lSmpVerifySeParams_ok.mp h).1.signed
  refine ⟨rootCa, hread, ?_⟩
  apply validateData_match.mp
  apply wosCertValidateData_match.mp
  exact (hchecks _ _ _ _).mp hmatch

end Results

end WeeveMQ
