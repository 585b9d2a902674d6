/-
  WeeveMQ.Wos

  The services below SMP: file storage (`wosStorageFile.c`) and cryptography
  (`wosCryptoLibtom.c`).

  What the operating system and libtomcrypt answer during one API call is an
  `Env`: every theorem quantifies over it, so each primitive may fail or
  succeed at each call.  Storage is the state of these functions, and only
  `wosStorageWrite` and `wosStorageDelete` change it.
-/

import WeeveMQ.Lib.Call
import WeeveMQ.Types
import Mathlib.Logic.Function.Basic

namespace WeeveMQ

open Call

/-! ## Environment -/

/-- Key of a storage entry, the name of its file. -/
abbrev StorageId := WosString

/-- Key storage: the content of every entry that exists. -/
abbrev KeyStore := StorageId → Option Bytes

/-- What `fopen(.., "w")` and `fwrite` do: everything is written, the file is
    not opened, or it is opened and left with other content.  The `fclose` behind
    them is taken to succeed; `wosStorageWrite` does not look at its result, so what
    is lost there is lost without an error. -/
inductive WriteOutcome where
  | written
  | openFailed
  | writeFailed (left : Bytes)
  deriving DecidableEq, Repr

/-- libtomcrypt.  A result of `none` is any code but `CRYPT_OK`. -/
structure LibTomCrypt where
  /-- `ecc_make_key` and both exports: private key, X9.63 public key. -/
  eccMakeKey : Option (Bytes × Bytes)
  /-- `hash_memory` with SHA-256. -/
  hashMemory : Bytes → Option Bytes
  /-- Key import and `ecc_sign_hash_rfc7518`, of key and hash. -/
  eccSignHash : Bytes → Bytes → Option Bytes
  /-- Import of private and public key, and `ecc_shared_secret`. -/
  eccSharedSecret : Bytes → Bytes → Option Bytes
  /-- `gcm_memory` of key, IV, additional data and plain text: cipher text and tag. -/
  gcmEncrypt : Bytes → Bytes → Bytes → Bytes → Option (Bytes × Bytes)
  /-- `gcm_memory` of key, IV, additional data and cipher text: plain text and tag. -/
  gcmDecrypt : Bytes → Bytes → Bytes → Bytes → Option (Bytes × Bytes)
  eccSharedSecret_length : ∀ {priv pub s}, eccSharedSecret priv pub = some s → s.length = 32
  gcmEncrypt_length : ∀ {key iv aad pt ct tag},
    gcmEncrypt key iv aad pt = some (ct, tag) → ct.length = pt.length ∧ tag.length = 16
  gcmDecrypt_length : ∀ {key iv aad ct pt tag},
    gcmDecrypt key iv aad ct = some (pt, tag) → pt.length = ct.length

/-- Everything outside the library during one API call. -/
structure Env extends LibTomCrypt where
  /-- The `i`-th draw of `n` bytes from the random generator. -/
  randomBytes : Nat → Nat → Option Bytes
  randomBytes_length : ∀ {i n b}, randomBytes i n = some b → b.length = n
  /-- Outcome of writing this content to this file. -/
  writeOutcome : StorageId → Bytes → WriteOutcome
  /-- Reading an existing file fails. -/
  readFails : StorageId → Bool
  /-- Removing an existing file fails. -/
  removeFails : StorageId → Bool
  /-- `wosCertValidateData` gives `WOS_CERT_SIGNATURE_MATCH` for this root
      certificate, chain, signed data and signature. -/
  wosCertValidateData : Bytes → List Bytes → Bytes → Bytes → Bool
  /-- The global `gSelfCertChainSize`. -/
  gSelfCertChainSize : UInt8
  /-- The string a read behind the end of a label table finds; `none` is a crash. -/
  beyondLabelTable : Option Bytes

/-- An environment in which every call succeeds, with toy cryptography. -/
def Env.sample : Env where
  eccMakeKey := some ([1], [2])
  hashMemory := some
  eccSignHash := fun _ _ => some [3]
  eccSharedSecret := fun privateKey publicKey =>
    some (List.replicate 32 (privateKey.headD 0 * publicKey.headD 0))
  gcmEncrypt := fun _ _ _ plainText => some (plainText, List.replicate 16 5)
  gcmDecrypt := fun _ _ _ cipherText => some (cipherText, List.replicate 16 5)
  eccSharedSecret_length := by rintro _ _ _ ⟨⟩; rfl
  gcmEncrypt_length := by rintro _ _ _ _ _ _ ⟨⟩; exact ⟨rfl, rfl⟩
  gcmDecrypt_length := by rintro _ _ _ _ _ _ ⟨⟩; rfl
  randomBytes := fun draw n => some (List.replicate n (UInt8.ofNat draw))
  randomBytes_length := by rintro _ _ _ ⟨⟩; exact List.length_replicate
  writeOutcome := fun _ _ => .written
  readFails := fun _ => false
  removeFails := fun _ => false
  wosCertValidateData := fun _ _ _ _ => true
  gSelfCertChainSize := 1
  beyondLabelTable := none

/-- The same environment with other key pairs and signatures. -/
def Env.sampleWith (keyPair : Option (Bytes × Bytes)) (signature : Bytes) : Env :=
  { Env.sample with
    eccMakeKey := keyPair
    eccSignHash := fun _ _ => some signature }

/-- A storage that holds the global credentials. -/
def KeyStore.sample : KeyStore :=
  Function.update (Function.update (Function.update (fun _ => none) (ascii "root_ca") (some [6]))
    (ascii "self_cert") (some [7])) (ascii "self_key") (some [8])

/-! ## `wosStorageFile.c` -/

/-- `lWosStorageIsKeyValid`: a non-empty name without control characters,
    slashes and backslashes. -/
def lWosStorageIsKeyValid (key : StorageId) : Bool :=
  key ≠ [] ∧ ∀ c ∈ key, 31 ≤ c ∧ c ≤ 127 ∧ c ≠ 47 ∧ c ≠ 92

section Storage

variable (env : Env)

def wosStorageWrite (storageKey : StorageId) (buffer : Bytes) :
    Call KeyStore WosStorageError Unit := do
  failIf (storageKey = []) .badParams
  failIf (buffer = []) .badParams
  failIf (lWosStorageIsKeyValid storageKey = false) .error
  match env.writeOutcome storageKey buffer with
  | .openFailed => throw .notFound
  | .writeFailed left =>
      modify fun store => Function.update store storageKey (some left)
      throw .error
  | .written => modify fun store => Function.update store storageKey (some buffer)

def wosStorageRead (storageKey : StorageId) : Call KeyStore WosStorageError Bytes := do
  failIf (storageKey = []) .badParams
  failIf (lWosStorageIsKeyValid storageKey = false) .error
  match (← get) storageKey with
  | none => throw .notFound
  | some content =>
      failIf (env.readFails storageKey = true) .error
      -- an allocation of no bytes gives no buffer
      failIf (content = []) .outOfMemory
      return content

def wosStorageDelete (storageKey : StorageId) : Call KeyStore WosStorageError Unit := do
  failIf (storageKey = []) .badParams
  failIf (lWosStorageIsKeyValid storageKey = false) .error
  failIf ((← get) storageKey = none ∨ env.removeFails storageKey = true) .notFound
  modify fun store => Function.update store storageKey none

end Storage

/-! ## `wosCryptoLibtom.c` -/

/-- `WOS_CRYPTO_AE_AES256_KEY_LENGTH`. -/
def WOS_CRYPTO_AE_AES256_KEY_LENGTH : Nat := 32

/-- `WOS_CRYPTO_AE_AES_GCM_IV_LENGTH`. -/
def WOS_CRYPTO_AE_AES_GCM_IV_LENGTH : Nat := 12

section Crypto

variable (env : Env)

/-- A libtomcrypt call; any code but `CRYPT_OK` is `WOS_CRYPTO_ERROR`. -/
def tomcrypt {α : Type} : Option α → Except WosCryptoError α
  | none => .error .error
  | some a => .ok a

/-- Every storage error of the crypto layer is `WOS_CRYPTO_ERROR_STORAGE`. -/
def cryptoStorage {α : Type} (x : Call KeyStore WosStorageError α) :
    Call KeyStore WosCryptoError α :=
  mapErr (fun _ => .storage) x

/-- The draw-th random read of this call. -/
def wosCryptoGetRandomBytes (draw length : Nat) : Except WosCryptoError Bytes := do
  reject (length = 0) .badParams
  tomcrypt (env.randomBytes draw length)

def wosCryptoEccGenerateKey (privateKeyStorageId publicKeyStorageId : StorageId) :
    Call KeyStore WosCryptoError Unit := do
  failIf (privateKeyStorageId = [] ∨ publicKeyStorageId = []) .badParams
  let (privateKey, publicKey) ← ofExcept (tomcrypt env.eccMakeKey)
  cryptoStorage (wosStorageWrite env privateKeyStorageId privateKey)
  cryptoStorage (wosStorageWrite env publicKeyStorageId publicKey)

def wosCryptoEccReadPubKey (publicKeyStorageId : StorageId) :
    Call KeyStore WosCryptoError Bytes := do
  failIf (publicKeyStorageId = []) .badParams
  cryptoStorage (wosStorageRead env publicKeyStorageId)

/-- `lWosCryptoEccSignVerify` with `ECC_SIGN`. -/
def wosCryptoEccSign (keyStorageId : StorageId) (data : Bytes) :
    Call KeyStore WosCryptoError Bytes := do
  failIf (keyStorageId = [] ∨ data = []) .badParams
  let hash ← ofExcept (tomcrypt (env.hashMemory data))
  let keyBuf ← cryptoStorage (wosStorageRead env keyStorageId)
  ofExcept (tomcrypt (env.eccSignHash keyBuf hash))

/-- Result of an authenticated encryption. -/
structure AeResult where
  iv : Bytes
  cipherText : Bytes
  tag : Bytes
  deriving DecidableEq, Repr

/-- A null plain text is the empty one. -/
def wosCryptoAeEncrypt (symKeyStorageId : StorageId) (plainText aad : Bytes) :
    Call KeyStore WosCryptoError AeResult := do
  failIf (symKeyStorageId = []) .badParams
  let secretKey ← cryptoStorage (wosStorageRead env symKeyStorageId)
  failIf (secretKey.length ≠ WOS_CRYPTO_AE_AES256_KEY_LENGTH) .storage
  let iv ← ofExcept (wosCryptoGetRandomBytes env 0 WOS_CRYPTO_AE_AES_GCM_IV_LENGTH)
  let (cipherText, tag) ← ofExcept (tomcrypt (env.gcmEncrypt secretKey iv aad plainText))
  return { iv := iv, cipherText := cipherText, tag := tag }

/-- A null cipher text is the empty one.  The tag is computed again and
    compared with the one received. -/
def wosCryptoAeDecrypt (symKeyStorageId : StorageId) (cipherText aad iv tag : Bytes) :
    Call KeyStore WosCryptoError Bytes := do
  failIf (symKeyStorageId = [] ∨ iv = [] ∨ tag = []) .badParams
  let secretKey ← cryptoStorage (wosStorageRead env symKeyStorageId)
  failIf (secretKey.length ≠ WOS_CRYPTO_AE_AES256_KEY_LENGTH) .storage
  let (plainText, tagAux) ← ofExcept (tomcrypt (env.gcmDecrypt secretKey iv aad cipherText))
  failIf (tagAux ≠ tag) .error
  return plainText

def wosCryptoDeriveSymKey (publicKey : Bytes)
    (privateKeyStorageId symmetricKeyStorageId : StorageId) :
    Call KeyStore WosCryptoError Unit := do
  failIf (publicKey = [] ∨ privateKeyStorageId = [] ∨ symmetricKeyStorageId = []) .badParams
  let privateKey ← cryptoStorage (wosStorageRead env privateKeyStorageId)
  let sharedSecret ← ofExcept (tomcrypt (env.eccSharedSecret privateKey publicKey))
  cryptoStorage (wosStorageWrite env symmetricKeyStorageId sharedSecret)

end Crypto

end WeeveMQ
