/-
  WeeveMQ.GlobalCreds

  The credentials every session shares (`smpGlobalCreds.c`), and the two calls
  that load and remove them (`wclInit`, `wclTerminate` of `wclCommon.c`).

  A start takes each credential from storage, and from its file when storage
  does not have it.  It does not compare the two, so an entry that an earlier
  start wrote in part is taken as it is:

  - `wclInit_ok`: a successful start leaves the three files in storage exactly
    if no entry it could open held anything else.
  - `successful_starts_load_files_iff`: the same for every start of a run of
    starts and terminations; if no write ever stops in the middle of a file,
    every successful start of the run is exact.
-/

import WeeveMQ.WosSpec
import WeeveMQ.Lib.Run

namespace WeeveMQ

open Call

/-! ## Environment -/

/-- What answers a start or a termination of the library. -/
structure StartEnv extends Env where
  /-- `wosCryptoInitialize` fails. -/
  cryptoInitFails : Bool
  /-- `fopen` does not open an existing entry for reading. -/
  openFails : StorageId → Bool
  /-- The code of `lSmpUtilsReadFile` where it cannot read this file. -/
  readFileError : WosString → Option WclError

/-- A start in which every call succeeds. -/
def StartEnv.sample : StartEnv :=
  { Env.sample with
    cryptoInitFails := false
    openFails := fun _ => false
    readFileError := fun _ => none }

/-! ## `smpGlobalCreds.c` -/

/-- A credential: the path of its file and the entry it is stored under. -/
structure Credential where
  filePath : WosString
  storageId : StorageId
  deriving DecidableEq, Repr

/-- `WCL_SMP_ROOT_CA_CERT_PATH` and `gRootCaStorageId`. -/
def rootCaCredential : Credential where
  filePath := ascii "root.wcr"
  storageId := ascii "root_ca"

/-- `WCL_SMP_SELF_CERT_PATH` and `gSelfCertStorageId`. -/
def selfCertCredential : Credential where
  filePath := ascii "self.wcr"
  storageId := ascii "self_cert"

/-- `WCL_SMP_SELF_SIGNING_KEY_PATH` and `gSelfPrivKeyStorageId`. -/
def selfPrivKeyCredential : Credential where
  filePath := ascii "self.key"
  storageId := ascii "self_key"

/-- The credentials, in the order they are loaded and removed. -/
def credentials : List Credential :=
  [rootCaCredential, selfCertCredential, selfPrivKeyCredential]

section Start

variable (env : StartEnv) (files : WosString → Bytes)

/-- `wosStorageRead`; an entry that cannot be opened is reported as missing. -/
def wosStorageOpenRead (storageKey : StorageId) : Call KeyStore WosStorageError Bytes := do
  failIf (lWosStorageIsKeyValid storageKey = true ∧ env.openFails storageKey = true) .notFound
  wosStorageRead env.toEnv storageKey

def lSmpUtilsReadFile (filePath : WosString) : Except WclError Bytes :=
  if filePath = [] then .error .badParams
  else match env.readFileError filePath with
    | some e => .error e
    -- an allocation of no bytes gives no buffer
    | none => if files filePath = [] then .error .outOfMemory else .ok (files filePath)

def lSmpUtilInitFileToStorage (fileName : WosString) (storageId : StorageId) :
    Call KeyStore WclError Unit := fun store =>
  match wosStorageOpenRead env storageId store with
  | none => none
  -- the certificate is already present
  | some (.ok _, store) => some (.ok (), store)
  | some (.error .notFound, store) => (do
      let buf ← ofExcept (lSmpUtilsReadFile env files fileName)
      mapErr (fun _ => .storageOperation) (wosStorageWrite env.toEnv storageId buf)) store
  | some (.error _, store) => some (.error .storageOperation, store)

def lSmpUtilInitCerts (rootCaStorageId selfCertStorageId selfPrivKeyStorageId : StorageId) :
    Call KeyStore WclError Unit := do
  lSmpUtilInitFileToStorage env files rootCaCredential.filePath rootCaStorageId
  lSmpUtilInitFileToStorage env files selfCertCredential.filePath selfCertStorageId
  lSmpUtilInitFileToStorage env files selfPrivKeyCredential.filePath selfPrivKeyStorageId

/-- File storage needs no initialization, and terminating it does nothing. -/
def smpInitGlobalCreds : Call KeyStore WclError Unit :=
  mapErr (fun _ => .error) (lSmpUtilInitCerts env files rootCaCredential.storageId
    selfCertCredential.storageId selfPrivKeyCredential.storageId)

/-- What a delete reports is logged and ignored. -/
def smpDeInitGlobalCreds : Call KeyStore WclError Unit := do
  ignoreErr (wosStorageDelete env.toEnv rootCaCredential.storageId)
  ignoreErr (wosStorageDelete env.toEnv selfCertCredential.storageId)
  ignoreErr (wosStorageDelete env.toEnv selfPrivKeyCredential.storageId)

/-! ## `wclCommon.c` -/

def wclInit : Call KeyStore WclError Unit := do
  failIf (env.cryptoInitFails = true) .error
  smpInitGlobalCreds env files

def wclTerminate : Call KeyStore WclError Unit :=
  smpDeInitGlobalCreds env

end Start

/-! ## Loading one credential -/

section Load

variable {env : StartEnv} {files : WosString → Bytes} {c : Credential} {store store' : KeyStore}
  {r : Except WclError Unit}

/-- The entry holds nothing a read would return, apart from the file. -/
def HoldsOnlyFile (files : WosString → Bytes) (store : KeyStore) (c : Credential) : Prop :=
  ∀ content, content ≠ [] → store c.storageId = some content → content = files c.filePath

/-- What loading a credential may do to its entry: nothing, write the file, or
    leave what a failed write left. -/
def LoadEffect (env : StartEnv) (files : WosString → Bytes) (store store' : KeyStore)
    (c : Credential) : Prop :=
  store' c.storageId = store c.storageId ∨ store' c.storageId = some (files c.filePath) ∨
    ∃ left, env.writeOutcome c.storageId (files c.filePath) = .writeFailed left ∧
      store' c.storageId = some left

theorem wosStorageOpenRead_relates (key : StorageId) :
    Relates Eq (wosStorageOpenRead env key) :=
  relates_failIf.bind fun _ => wosStorageRead_relates key

theorem wosStorageOpenRead_ok {key : StorageId} {content : Bytes} :
    wosStorageOpenRead env key store = some (.ok content, store') ↔
      env.openFails key = false ∧ lWosStorageIsKeyValid key = true ∧ store key = some content ∧
        content ≠ [] ∧ env.readFails key = false ∧ store' = store := by
  rw [wosStorageOpenRead, bind_ok]
  constructor
  · rintro ⟨_, _, hopen, hread⟩
    obtain ⟨hnot, rfl⟩ := failIf_ok.mp hopen
    obtain ⟨hkey, hstore, hne, hreads, rfl⟩ := wosStorageRead_ok.mp hread
    refine ⟨?_, hkey, hstore, hne, hreads, rfl⟩
    exact Bool.eq_false_iff.mpr fun h => hnot ⟨hkey, h⟩
  · rintro ⟨hopen, hread⟩
    refine ⟨(), store, failIf_ok.mpr ⟨?_, rfl⟩, wosStorageRead_ok.mpr hread⟩
    rw [hopen]
    exact fun h => Bool.false_ne_true h.2

theorem lSmpUtilsReadFile_ok {path : WosString} {content : Bytes}
    (h : lSmpUtilsReadFile env files path = .ok content) : content = files path := by
  unfold lSmpUtilsReadFile at h
  by_cases hpath : path = []
  · rw [if_pos hpath] at h
    cases h
  rw [if_neg hpath] at h
  cases he : env.readFileError path with
  | some e => rw [he] at h; cases h
  | none =>
      rw [he] at h
      by_cases hfile : files path = []
      · simp only [if_pos hfile, reduceCtorEq] at h
      · simp only [if_neg hfile, Except.ok.injEq] at h
        exact h.symm

/-- The two ways to return: from the entry that is there, or by way of the file. -/
theorem initFile_cases
    (h : lSmpUtilInitFileToStorage env files c.filePath c.storageId store = some (r, store')) :
    (∃ content, wosStorageOpenRead env c.storageId store = some (.ok content, store) ∧
        store' = store ∧ r = .ok ()) ∨
      (wosStorageOpenRead env c.storageId store = some (.error .notFound, store) ∧
        (do
          let buf ← ofExcept (lSmpUtilsReadFile env files c.filePath)
          mapErr (fun _ => .storageOperation)
            (wosStorageWrite env.toEnv c.storageId buf) : Call KeyStore WclError Unit) store =
          some (r, store')) ∨
      (store' = store ∧ r = .error .storageOperation) := by
  unfold lSmpUtilInitFileToStorage at h
  cases hread : wosStorageOpenRead env c.storageId store with
  | none => rw [hread] at h; cases h
  | some result =>
      obtain ⟨outcome, store₁⟩ := result
      obtain rfl := wosStorageOpenRead_relates c.storageId store outcome store₁ hread
      rw [hread] at h
      cases outcome with
      | ok content =>
          cases h
          exact .inl ⟨content, rfl, rfl, rfl⟩
      | error e =>
          cases e with
          | notFound => exact .inr (.inl ⟨rfl, h⟩)
          | error => cases h; exact .inr (.inr ⟨rfl, rfl⟩)
          | badParams => cases h; exact .inr (.inr ⟨rfl, rfl⟩)
          | outOfMemory => cases h; exact .inr (.inr ⟨rfl, rfl⟩)

theorem wosStorageOpenRead_notFound {key : StorageId}
    (h : wosStorageOpenRead env key store = some (.error .notFound, store'))
    (hopen : env.openFails key = false) : store key = none := by
  rw [wosStorageOpenRead, bind_error] at h
  rcases h with h | ⟨_, _, h, hread⟩
  · obtain ⟨⟨-, hfails⟩, -⟩ := failIf_error.mp h
    rw [hopen] at hfails
    cases hfails
  obtain ⟨-, rfl⟩ := failIf_ok.mp h
  simp only [wosStorageRead, bind_error, failIf_error, failIf_ok] at hread
  rcases hread with ⟨-, ⟨⟩, -⟩ | ⟨_, _, ⟨-, rfl⟩, hread⟩
  rcases hread with ⟨-, ⟨⟩, -⟩ | ⟨_, _, ⟨-, rfl⟩, hread⟩
  rcases hread with h | ⟨_, _, hget, hread⟩
  · simp at h
  cases hget
  cases hc : store key with
  | none => rfl
  | some content => simp [hc, bind_error] at hread

/-- Loading touches its own entry only, and that one in one of three ways. -/
theorem initFile_effect
    (h : lSmpUtilInitFileToStorage env files c.filePath c.storageId store = some (r, store')) :
    (∀ other, other ≠ c.storageId → store' other = store other) ∧
      LoadEffect env files store store' c := by
  rcases initFile_cases h with ⟨_, -, rfl, -⟩ | ⟨-, hload⟩ | ⟨rfl, -⟩
  · exact ⟨fun _ _ => rfl, .inl rfl⟩
  · cases hfile : lSmpUtilsReadFile env files c.filePath with
    | error e =>
        rw [hfile] at hload
        cases hload
        exact ⟨fun _ _ => rfl, .inl rfl⟩
    | ok buf =>
        obtain rfl := lSmpUtilsReadFile_ok hfile
        rw [hfile, bind_of_ok (ofExcept_apply)] at hload
        cases r with
        | ok u =>
            obtain ⟨-, -, -, rfl⟩ := wosStorageWrite_ok.mp (mapErr_ok.mp hload)
            refine ⟨fun other hother => Function.update_of_ne hother _ _, .inr (.inl ?_)⟩
            rw [Function.update_self]
        | error e =>
            obtain ⟨_, hwrite, -⟩ := mapErr_error.mp hload
            rcases wosStorageWrite_error hwrite with ⟨rfl, -⟩ | ⟨left, -, hleft, rfl⟩
            · exact ⟨fun _ _ => rfl, .inl rfl⟩
            · refine ⟨fun other hother => Function.update_of_ne hother _ _,
                .inr (.inr ⟨left, hleft, ?_⟩)⟩
              rw [Function.update_self]
  · exact ⟨fun _ _ => rfl, .inl rfl⟩

/-- A credential that was loaded holds its file exactly if the entry, where it
    could be opened, held nothing else. -/
theorem initFile_ok {u : Unit}
    (h : lSmpUtilInitFileToStorage env files c.filePath c.storageId store =
      some (.ok u, store')) :
    store' c.storageId = some (files c.filePath) ↔
      (env.openFails c.storageId = false → HoldsOnlyFile files store c) := by
  rcases initFile_cases h with ⟨content, hread, rfl, -⟩ | ⟨hread, hload⟩ | ⟨-, hr⟩
  · obtain ⟨hopen, -, hstore, hne, -, -⟩ := wosStorageOpenRead_ok.mp hread
    rw [hstore, Option.some.injEq]
    constructor
    · intro hfile _ other _ hother
      rw [hstore, Option.some.injEq] at hother
      rw [← hother, hfile]
    · intro hholds
      exact hholds hopen content hne hstore
  · obtain ⟨buf, _, hbuf, hload⟩ := bind_ok.mp hload
    rw [ofExcept_apply, Option.some.injEq, Prod.mk.injEq] at hbuf
    obtain ⟨hfile, rfl⟩ := hbuf
    obtain rfl := lSmpUtilsReadFile_ok hfile
    obtain ⟨-, -, -, rfl⟩ := wosStorageWrite_ok.mp (mapErr_ok.mp hload)
    rw [Function.update_self]
    refine iff_of_true rfl fun hopen content _ hstore => ?_
    rw [wosStorageOpenRead_notFound hread hopen] at hstore
    cases hstore
  · cases hr

end Load

/-! ## Starts and terminations -/

section Calls

variable {env : StartEnv} {files : WosString → Bytes} {store store' : KeyStore}
  {r : Except WclError Unit}

/-- Storage holds every credential as its file has it. -/
def HoldsFiles (files : WosString → Bytes) (store : KeyStore) : Prop :=
  ∀ c ∈ credentials, store c.storageId = some (files c.filePath)

/-- No entry that this start can open and read holds anything but its file. -/
def NoOtherContent (env : StartEnv) (files : WosString → Bytes) (store : KeyStore) : Prop :=
  ∀ c ∈ credentials, env.openFails c.storageId = false → HoldsOnlyFile files store c

theorem forall_credentials {P : Credential → Prop} :
    (∀ c ∈ credentials, P c) ↔
      P rootCaCredential ∧ P selfCertCredential ∧ P selfPrivKeyCredential := by
  simp [credentials]

theorem storageIds_ne :
    rootCaCredential.storageId ≠ selfCertCredential.storageId ∧
      rootCaCredential.storageId ≠ selfPrivKeyCredential.storageId ∧
      selfCertCredential.storageId ≠ selfPrivKeyCredential.storageId := by
  decide

theorem wclInit_ok {u : Unit} (h : wclInit env files store = some (.ok u, store')) :
    HoldsFiles files store' ↔ NoOtherContent env files store := by
  obtain ⟨_, _, hcrypto, h⟩ := bind_ok.mp h
  obtain ⟨-, rfl⟩ := failIf_ok.mp hcrypto
  have h := mapErr_ok.mp h
  obtain ⟨_, store₁, hroot, h⟩ := bind_ok.mp h
  obtain ⟨_, store₂, hcert, hkey⟩ := bind_ok.mp h
  obtain ⟨hrootCert, hrootKey, hcertKey⟩ := storageIds_ne
  -- each step leaves the entries of the other two alone
  have hsame₁ := (initFile_effect hroot).1
  have hsame₂ := (initFile_effect hcert).1
  have hsame₃ := (initFile_effect hkey).1
  have hrootLast : store' rootCaCredential.storageId = store₁ rootCaCredential.storageId := by
    rw [hsame₃ _ hrootKey, hsame₂ _ hrootCert]
  have hcertLast : store' selfCertCredential.storageId = store₂ selfCertCredential.storageId :=
    hsame₃ _ hcertKey
  have hcertFirst : HoldsOnlyFile files store₁ selfCertCredential ↔
      HoldsOnlyFile files store selfCertCredential := by
    unfold HoldsOnlyFile
    rw [hsame₁ _ hrootCert.symm]
  have hkeyFirst : HoldsOnlyFile files store₂ selfPrivKeyCredential ↔
      HoldsOnlyFile files store selfPrivKeyCredential := by
    unfold HoldsOnlyFile
    rw [hsame₂ _ hcertKey.symm, hsame₁ _ hrootKey.symm]
  rw [HoldsFiles, NoOtherContent, forall_credentials, forall_credentials, hrootLast, hcertLast,
    initFile_ok hroot, initFile_ok hcert, initFile_ok hkey, hcertFirst, hkeyFirst]

/-- What each credential's entry is after a start, failed or not. -/
def LoadsEach (env : StartEnv) (files : WosString → Bytes) (store store' : KeyStore) : Prop :=
  ∀ c ∈ credentials, LoadEffect env files store store' c

instance : Std.Refl (LoadsEach env files) := ⟨fun _ _ _ => .inl rfl⟩

instance : IsTrans KeyStore (LoadsEach env files) where
  trans s t u hst htu c hc := by
    -- what happened last to the entry decides
    rcases htu c hc with h | h
    · have hfirst := hst c hc
      unfold LoadEffect at hfirst ⊢
      rw [h]
      exact hfirst
    · exact .inr h

theorem eq_of_storageId :
    ∀ c ∈ credentials, ∀ other ∈ credentials, c.storageId = other.storageId → c = other := by
  decide

theorem initFile_loadsEach {c : Credential} (hc : c ∈ credentials) :
    Relates (LoadsEach env files)
      (lSmpUtilInitFileToStorage env files c.filePath c.storageId) := by
  intro s r t h other hother
  obtain ⟨hsame, heffect⟩ := initFile_effect h
  by_cases hid : other.storageId = c.storageId
  · obtain rfl := eq_of_storageId other hother c hc hid
    exact heffect
  · exact .inl (hsame _ hid)

theorem wclInit_loadsEach : Relates (LoadsEach env files) (wclInit env files) := by
  refine relates_failIf.bind fun _ => relates_mapErr ?_
  refine (initFile_loadsEach ?_).bind fun _ => (initFile_loadsEach ?_).bind fun _ =>
    initFile_loadsEach ?_
  all_goals decide

/-- A termination changes entries only by removing them. -/
def OnlyRemoves (store store' : KeyStore) : Prop :=
  ∀ id, store' id = store id ∨ store' id = none

instance : Std.Refl OnlyRemoves := ⟨fun _ _ => .inl rfl⟩

instance : IsTrans KeyStore OnlyRemoves where
  trans s t u hst htu id := by
    rcases htu id with h | h
    · rw [h]
      exact hst id
    · exact .inr h

theorem ignoreDelete_onlyRemoves (env : Env) (key : StorageId) :
    Relates OnlyRemoves (ignoreErr (wosStorageDelete env key) : Call KeyStore WclError Unit) := by
  intro s r t h id
  rw [ignore_wosStorageDelete, Option.some.injEq, Prod.mk.injEq] at h
  obtain ⟨-, rfl⟩ := h
  split_ifs
  · by_cases hid : id = key
    · rw [hid, Function.update_self]
      exact .inr rfl
    · exact .inl (Function.update_of_ne hid _ _)
  · exact .inl rfl

theorem wclTerminate_onlyRemoves : Relates OnlyRemoves (wclTerminate env) :=
  (ignoreDelete_onlyRemoves _ _).bind fun _ => (ignoreDelete_onlyRemoves _ _).bind fun _ =>
    ignoreDelete_onlyRemoves _ _

end Calls

/-! ## Runs -/

/-- The two calls a program makes, and what answers each. -/
inductive StartCall where
  | wclInit (env : StartEnv)
  | wclTerminate (env : StartEnv)

def StartCall.call (files : WosString → Bytes) : StartCall → Call KeyStore WclError Unit
  | .wclInit env => WeeveMQ.wclInit env files
  | .wclTerminate env => WeeveMQ.wclTerminate env

/-- One call of a run: storage before and after it, and what it returned. -/
structure StartRecord where
  made : StartCall
  before : KeyStore
  result : Except WclError Unit
  after : KeyStore

def StartStep (files : WosString → Bytes) (s : KeyStore) (l : StartRecord) (t : KeyStore) : Prop :=
  l.before = s ∧ l.after = t ∧ l.made.call files s = some (l.result, t)

/-- The call was a start that this environment answered, and it succeeded. -/
def StartRecord.Started (l : StartRecord) (env : StartEnv) : Prop :=
  l.made = .wclInit env ∧ l.result = .ok ()

/-- A write of a credential that failed left the entry empty or whole. -/
def StartCall.NoPartialWrite (files : WosString → Bytes) : StartCall → Prop
  | .wclInit env => ∀ c ∈ credentials, ∀ left,
      env.writeOutcome c.storageId (files c.filePath) = .writeFailed left →
        left = [] ∨ left = files c.filePath
  | .wclTerminate _ => True

section Runs

variable {files : WosString → Bytes} {start store : KeyStore} {labels : List StartRecord}

/-- The invariant of runs without partial writes. -/
def EntriesWhole (files : WosString → Bytes) (store : KeyStore) : Prop :=
  ∀ c ∈ credentials, HoldsOnlyFile files store c

theorem LoadsEach.entriesWhole {env : StartEnv} {s t : KeyStore} (h : LoadsEach env files s t)
    (hwrites : (StartCall.wclInit env).NoPartialWrite files) (hs : EntriesWhole files s) :
    EntriesWhole files t := by
  intro c hc content hne hcontent
  rcases h c hc with hsame | hfile | ⟨left, hleft, hfile⟩
  · rw [hsame] at hcontent
    exact hs c hc content hne hcontent
  · rw [hfile, Option.some.injEq] at hcontent
    exact hcontent.symm
  · rw [hfile, Option.some.injEq] at hcontent
    rcases hwrites c hc left hleft with hnil | hwhole
    · exact absurd (hcontent.symm.trans hnil) hne
    · exact hcontent.symm.trans hwhole

theorem OnlyRemoves.entriesWhole {s t : KeyStore} (h : OnlyRemoves s t)
    (hs : EntriesWhole files s) : EntriesWhole files t := by
  intro c hc content hne hcontent
  rcases h c.storageId with hsame | hgone
  · rw [hsame] at hcontent
    exact hs c hc content hne hcontent
  · rw [hgone] at hcontent
    cases hcontent

/-- The step lemma: a call without a partial write keeps the invariant. -/
theorem StartStep.entriesWhole {s t : KeyStore} {l : StartRecord} (h : StartStep files s l t)
    (hwrites : l.made.NoPartialWrite files) (hs : EntriesWhole files s) :
    EntriesWhole files t := by
  obtain ⟨-, -, hcall⟩ := h
  cases hmade : l.made with
  | wclInit env =>
      rw [hmade] at hcall hwrites
      exact LoadsEach.entriesWhole (wclInit_loadsEach s l.result t hcall) hwrites hs
  | wclTerminate env =>
      rw [hmade] at hcall
      exact OnlyRemoves.entriesWhole (wclTerminate_onlyRemoves s l.result t hcall) hs

/-- A call of a run is one of its steps, from a state the run reached before. -/
theorem step_of_mem (run : Run (StartStep files) start labels store) {l : StartRecord}
    (hl : l ∈ labels) : StartStep files l.before l l.after := by
  induction run with
  | nil => cases hl
  | snoc _ last ih =>
      rcases List.mem_append.mp hl with hl | hl
      · exact ih hl
      · rw [List.mem_singleton] at hl
        obtain ⟨rfl, rfl, hcall⟩ := last
        rw [hl]
        exact ⟨rfl, rfl, hcall⟩

/-- The run lemma: without partial writes, every call starts from whole entries. -/
theorem entriesWhole_before (hstart : EntriesWhole files start)
    (run : Run (StartStep files) start labels store)
    (hwrites : ∀ l ∈ labels, l.made.NoPartialWrite files) :
    EntriesWhole files store ∧ ∀ l ∈ labels, EntriesWhole files l.before := by
  induction run with
  | nil => exact ⟨hstart, fun l hl => by cases hl⟩
  | snoc _ last ih =>
      obtain ⟨hreached, hbefore⟩ := ih fun l hl => hwrites l (List.mem_append_left _ hl)
      refine ⟨last.entriesWhole (hwrites _ (by simp)) hreached, fun l hl => ?_⟩
      rcases List.mem_append.mp hl with hl | hl
      · exact hbefore l hl
      · rw [List.mem_singleton] at hl
        rw [hl, last.1]
        exact hreached

theorem started_iff {l : StartRecord} {env : StartEnv}
    (h : StartStep files l.before l l.after) (hstarted : l.Started env) :
    HoldsFiles files l.after ↔ NoOtherContent env files l.before := by
  obtain ⟨-, -, hcall⟩ := h
  rw [hstarted.1, hstarted.2] at hcall
  exact wclInit_ok hcall

theorem entriesWhole_of_empty (h : ∀ c ∈ credentials, store c.storageId = none) :
    EntriesWhole files store := by
  intro c hc content _ hcontent
  rw [h c hc] at hcontent
  cases hcontent

/-- In every run of starts and terminations from a storage without credentials,
    a successful start leaves the three files in storage exactly if none of the
    entries it could open held other content before.  If no write of the run
    stops in the middle of a file, every successful start leaves them. -/
theorem successful_starts_load_files_iff
    (hstart : ∀ c ∈ credentials, start c.storageId = none)
    (run : Run (StartStep files) start labels store) :
    (∀ l ∈ labels, ∀ env, l.Started env →
      (HoldsFiles files l.after ↔ NoOtherContent env files l.before)) ∧
    ((∀ l ∈ labels, l.made.NoPartialWrite files) →
      ∀ l ∈ labels, ∀ env, l.Started env → HoldsFiles files l.after) := by
  constructor
  · intro l hl env hstarted
    exact started_iff (step_of_mem run hl) hstarted
  · intro hwrites l hl env hstarted
    have hwhole := (entriesWhole_before (entriesWhole_of_empty hstart) run hwrites).2 l hl
    rw [started_iff (step_of_mem run hl) hstarted]
    exact fun c hc _ => hwhole c hc

end Runs

/-! ## A first start, and one after a write that failed -/

/-- Three files of two bytes. -/
def sampleFiles : WosString → Bytes := fun path => [path.headD 0, path.getLastD 0]

/-- The write of the root certificate stops after its first byte. -/
def StartEnv.sampleShort : StartEnv :=
  { StartEnv.sample with
    writeOutcome := fun id buffer =>
      if id = rootCaCredential.storageId then .writeFailed (buffer.take 1) else .written }

/-- One start, as the record of a run. -/
theorem exists_start (env : StartEnv) (s : KeyStore) {r : Except WclError Unit}
    (h : (wclInit env sampleFiles s).map (·.1) = some r) :
    ∃ l t, StartStep sampleFiles s l t ∧ l.made = .wclInit env ∧ l.result = r := by
  obtain ⟨⟨_, t⟩, hcall, rfl⟩ := Option.map_eq_some_iff.mp h
  exact ⟨⟨.wclInit env, s, _, t⟩, t, ⟨rfl, rfl, hcall⟩, rfl, rfl⟩

theorem successful_starts_load_files_iff_first :
    ∃ l t, Run (StartStep sampleFiles) (fun _ => none) [l] t ∧ l.Started StartEnv.sample ∧
      HoldsFiles sampleFiles l.after := by
  obtain ⟨l, t, hstep, hmade, hresult⟩ := exists_start StartEnv.sample (fun _ => none)
    (r := .ok ()) (by decide +kernel)
  have run := Run.single hstep
  refine ⟨l, t, run, ⟨hmade, hresult⟩, ?_⟩
  refine (successful_starts_load_files_iff (fun _ _ => rfl) run).2 (fun l' hl' => ?_) l
    (List.mem_singleton_self l) StartEnv.sample ⟨hmade, hresult⟩
  rw [List.mem_singleton] at hl'
  rw [hl', hmade]
  intro c _ left hleft
  cases hleft

/-- The write of the root certificate fails after one byte, and so does that
    start.  The next start finds the byte, takes it for the certificate, and
    succeeds. -/
theorem partial_certificate_accepted :
    ∃ l₁ l₂ t, Run (StartStep sampleFiles) (fun _ => none) [l₁, l₂] t ∧
      (∀ c ∈ credentials, sampleFiles c.filePath ≠ []) ∧
      l₂.Started StartEnv.sample ∧ ¬ HoldsFiles sampleFiles l₂.after := by
  have hcalls : (wclInit StartEnv.sampleShort sampleFiles (fun _ => none)).bind (fun r =>
      (wclInit StartEnv.sample sampleFiles r.2).map fun r' =>
        (r'.1, r'.2 rootCaCredential.storageId)) = some (.ok (), some [114]) := by
    decide +kernel
  obtain ⟨⟨r₁, s₁⟩, hcall₁, hnext⟩ := Option.bind_eq_some_iff.mp hcalls
  obtain ⟨⟨r₂, s₂⟩, hcall₂, hafter⟩ := Option.map_eq_some_iff.mp hnext
  rw [Prod.mk.injEq] at hafter
  obtain ⟨rfl, hroot⟩ := hafter
  refine ⟨⟨.wclInit StartEnv.sampleShort, fun _ => none, r₁, s₁⟩,
    ⟨.wclInit StartEnv.sample, s₁, .ok (), s₂⟩, s₂,
    Run.snoc (Run.single ⟨rfl, rfl, hcall₁⟩) ⟨rfl, rfl, hcall₂⟩, by decide, ⟨rfl, rfl⟩, ?_⟩
  intro hholds
  have hfile := hroot.symm.trans (hholds rootCaCredential (by decide))
  revert hfile
  decide

end WeeveMQ
