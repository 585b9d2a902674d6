/-
  WeeveMQ.Topics

  Topics and topic filters: the checks and the matching of `util_mosq.c`.

  The matching walks over the two strings byte by byte, with a position in each.
  What it computes is said level by level: a topic is split at its slashes, and
  a filter asks for its levels (`LevelFilter.accepts`).

  - `mosquittoSubTopicCheck_ok_iff`, `mosquittoPubTopicCheck_ok_iff`: what the
    checks accept.
  - `mosquittoTopicMatchesSub_iff`: on what they accept the matching reads
    nothing behind the strings, and finds what MQTT calls a match.
-/

import WeeveMQ.Lib.LevelTrie
import WeeveMQ.Mosq

namespace WeeveMQ

open Call

/-! ## Strings -/

/-- A string of C: its bytes in front of the terminator. -/
structure CString where
  bytes : Bytes
  noNul : 0 ∉ bytes
  deriving DecidableEq

/-- The byte at an index of a string or of its terminator; none behind that. -/
def CString.byteAt (s : CString) (i : Nat) : Option UInt8 := (s.bytes ++ [0])[i]?

/-- Whether this byte stands there. -/
def CString.isAt (s : CString) (i : Nat) (b : UInt8) : Option Bool :=
  (s.byteAt i).map fun c => decide (c = b)

def CString.isNotAt (s : CString) (i : Nat) (b : UInt8) : Option Bool :=
  (s.byteAt i).map fun c => decide (c ≠ b)

/-- `'/'`, `'+'`, `'#'` and `'$'`. -/
def slash : UInt8 := 0x2F

def plus : UInt8 := 0x2B

def hash : UInt8 := 0x23

def dollar : UInt8 := 0x24

/-! ## Checks -/

/-- The loop of `mosquitto_pub_topic_check`. -/
def pubTopicLoop (len : Nat) : Bytes → Except MosqError Nat
  | [] => return len
  | b :: str => do
    reject (b = plus ∨ b = hash) .inval
    pubTopicLoop (len + 1) str

def mosquittoPubTopicCheck (str : CString) : Except MosqError Unit := do
  let len ← pubTopicLoop 0 str.bytes
  reject (len > 65535) .inval

/-- The loop of `mosquitto_sub_topic_check`; `c` is the byte in front. -/
def subTopicLoop (c : UInt8) (len : Nat) : Bytes → Except MosqError Nat
  | [] => return len
  | b :: str => do
    let next := str.headD 0
    reject (b = plus ∧ ((c ≠ 0 ∧ c ≠ slash) ∨ (next ≠ 0 ∧ next ≠ slash))) .inval
    reject (b = hash ∧ ((c ≠ 0 ∧ c ≠ slash) ∨ next ≠ 0)) .inval
    subTopicLoop b (len + 1) str

def mosquittoSubTopicCheck (str : CString) : Except MosqError Unit := do
  let len ← subTopicLoop 0 0 str.bytes
  reject (len > 65535) .inval

/-! ## Matching -/

/-- Skip what is left of a level. -/
def skipLevel (topic : CString) (tpos : Nat) : Nat :=
  tpos + ((topic.bytes.drop tpos).takeWhile (· ≠ slash)).length

/-- Whether `foo` is looked up at the end of `foo/#`. -/
def atParent (sub : CString) (slen tlen spos tpos : Nat) : Option Bool :=
  pure (decide (tpos + 1 = tlen ∧ spos + 3 = slen)) <&&>
    sub.isAt (spos + 1) slash <&&> sub.isAt (spos + 2) hash

/-- Whether `foo/bar` is looked up at the end of `foo/+/#`. -/
def atPlusParent (sub : CString) (slen tlen spos tpos : Nat) : Option Bool :=
  pure (decide (spos > 0 ∧ spos + 2 = slen ∧ tpos = tlen)) <&&>
    sub.isAt (spos - 1) plus <&&> sub.isAt spos slash <&&> sub.isAt (spos + 1) hash

/-- Whether there is a byte in front of a position, and it is no slash. -/
def insideLevel (sub : CString) (spos : Nat) : Option Bool :=
  pure (decide (spos > 0)) <&&> sub.isNotAt (spos - 1) slash

/-- The loop of `mosquitto_topic_matches_sub2`.  Every round moves `spos`. -/
def matchesLoop (sub topic : CString) : Nat → Nat → Nat → Option (Except MosqError Bool)
  | 0, _, _ => return .ok false
  | fuel + 1, spos, tpos => do
    let slen := sub.bytes.length
    let tlen := topic.bytes.length
    if spos < slen ∧ tpos ≤ tlen then
      let s ← sub.byteAt spos
      let t ← topic.byteAt tpos
      if s = t then
        if ← atParent sub slen tlen spos tpos then return .ok true
        let spos := spos + 1
        let tpos := tpos + 1
        if spos = slen ∧ tpos = tlen then return .ok true
        if ← pure (decide (tpos = tlen ∧ spos + 1 = slen)) <&&> sub.isAt spos plus then
          if ← insideLevel sub spos then return .error .inval
          return .ok true
        matchesLoop sub topic fuel spos tpos
      else if s = plus then
        -- bad "+foo" or "a/+foo"
        if ← insideLevel sub spos then return .error .inval
        -- bad "foo+" or "foo+/a"
        if ← pure (decide (spos + 1 < slen)) <&&> sub.isNotAt (spos + 1) slash then
          return .error .inval
        let spos := spos + 1
        let tpos := skipLevel topic tpos
        if tpos = tlen ∧ spos = slen then return .ok true
        matchesLoop sub topic fuel spos tpos
      else if s = hash then
        if ← insideLevel sub spos then return .error .inval
        if spos + 1 ≠ slen then return .error .inval
        return .ok true
      else return .ok (← atPlusParent sub slen tlen spos tpos)
    else return .ok false

/-- `mosquitto_topic_matches_sub`, with its result, false where it is an error; none
    for a read behind a string. -/
def mosquittoTopicMatchesSub (sub topic : CString) : Option (Except MosqError Bool) := do
  if sub.bytes.length = 0 ∨ topic.bytes.length = 0 then return .error .inval
  let s ← sub.byteAt 0
  let t ← topic.byteAt 0
  if (s = dollar ∧ t ≠ dollar) ∨ (t = dollar ∧ s ≠ dollar) then return .ok false
  matchesLoop sub topic (sub.bytes.length + 1) 0 0

/-! ## Levels -/

/-- The levels of a topic or of a filter. -/
def topicLevels (s : Bytes) : List Bytes := s.splitOn slash

/-- A level without wildcards. -/
def PlainLevel (level : Bytes) : Prop := plus ∉ level ∧ hash ∉ level

instance (level : Bytes) : Decidable (PlainLevel level) :=
  inferInstanceAs (Decidable (plus ∉ level ∧ hash ∉ level))

/-- The levels of a filter: a wildcard is a level of its own, and `#` the last one. -/
def FilterLevels : List Bytes → Prop
  | [] => True
  | l :: ls => (PlainLevel l ∨ l = [plus] ∨ l = [hash] ∧ ls = []) ∧ FilterLevels ls

theorem topicLevels_ne_nil {s : Bytes} : topicLevels s ≠ [] := List.splitOnP_ne_nil _ s

@[simp] theorem topicLevels_nil : topicLevels [] = [[]] := rfl

@[simp] theorem topicLevels_slash {s : Bytes} :
    topicLevels (slash :: s) = [] :: topicLevels s := by
  simp [topicLevels, List.splitOn, List.splitOnP_cons_eq_if_modifyHead]

/-- A byte that is no slash belongs to the first level. -/
theorem topicLevels_cons {b : UInt8} {s level : Bytes} {levels : List Bytes} (hb : b ≠ slash)
    (h : topicLevels s = level :: levels) : topicLevels (b :: s) = (b :: level) :: levels := by
  rw [topicLevels, List.splitOn] at h
  simp [topicLevels, List.splitOn, List.splitOnP_cons_eq_if_modifyHead, hb, h]

theorem topicLevels_cases (s : Bytes) : ∃ level levels, topicLevels s = level :: levels := by
  rcases h : topicLevels s with _ | ⟨level, levels⟩
  · exact absurd h topicLevels_ne_nil
  · exact ⟨level, levels, rfl⟩

/-- The first level is empty at the end and in front of a slash. -/
theorem head_topicLevels_eq_nil {s level : Bytes} {levels : List Bytes}
    (h : topicLevels s = level :: levels) : level = [] ↔ s.headD slash = slash := by
  cases s with
  | nil =>
    rw [topicLevels_nil] at h
    simp [(List.cons.inj h).1.symm]
  | cons b s =>
    by_cases hb : b = slash
    · rw [hb, topicLevels_slash] at h
      simp [hb, (List.cons.inj h).1.symm]
    · obtain ⟨l, ls, hs⟩ := topicLevels_cases s
      rw [topicLevels_cons hb hs] at h
      simp [hb, (List.cons.inj h).1.symm]

/-- Only nothing has one empty level. -/
theorem topicLevels_eq_nil_iff {s : Bytes} : topicLevels s = [[]] ↔ s = [] := by
  cases s with
  | nil => simp
  | cons b s =>
    obtain ⟨level, levels, hs⟩ := topicLevels_cases s
    by_cases hb : b = slash
    · rw [hb, topicLevels_slash, hs]
      simp
    · rw [topicLevels_cons hb hs]
      simp

/-! ## What the checks accept -/

theorem pubTopicLoop_ok_iff {str : Bytes} {len n : Nat} :
    pubTopicLoop len str = .ok n ↔ PlainLevel str ∧ n = len + str.length := by
  induction str generalizing len with
  | nil =>
    show Except.ok len = .ok n ↔ _
    simp [PlainLevel, eq_comm]
  | cons b str ih =>
    rw [pubTopicLoop, except_bind_ok]
    simp only [reject_ok, exists_const, ih, PlainLevel, List.mem_cons, not_or, List.length_cons,
      @eq_comm _ plus b, @eq_comm _ hash b]
    constructor
    · rintro ⟨hb, hrest, hn⟩
      exact ⟨⟨⟨hb.1, hrest.1⟩, hb.2, hrest.2⟩, by omega⟩
    · rintro ⟨⟨⟨hp, hps⟩, hh, hhs⟩, hn⟩
      exact ⟨⟨hp, hh⟩, ⟨hps, hhs⟩, by omega⟩

/-- A topic may be published to when it has no wildcards and is not too long. -/
theorem mosquittoPubTopicCheck_ok_iff {str : CString} :
    mosquittoPubTopicCheck str = .ok () ↔ PlainLevel str.bytes ∧ str.bytes.length ≤ 65535 := by
  rw [mosquittoPubTopicCheck, except_bind_ok]
  simp only [pubTopicLoop_ok_iff, reject_ok]
  constructor
  · rintro ⟨n, ⟨hplain, rfl⟩, hlen⟩
    exact ⟨hplain, by omega⟩
  · rintro ⟨hplain, hlen⟩
    exact ⟨_, ⟨hplain, rfl⟩, by omega⟩

/-- What a byte does to the first level. -/
theorem plainLevel_cons {b : UInt8} {level : Bytes} :
    PlainLevel (b :: level) ↔ (b ≠ plus ∧ b ≠ hash) ∧ PlainLevel level := by
  simp only [PlainLevel, List.mem_cons, not_or, @eq_comm _ plus b, @eq_comm _ hash b]
  tauto

theorem plainLevel_nil : PlainLevel [] := ⟨List.not_mem_nil, List.not_mem_nil⟩

/-- A level that begins with an ordinary byte is no wildcard. -/
theorem filterLevels_cons_plain {b : UInt8} {level : Bytes} {levels : List Bytes}
    (hplus : b ≠ plus) (hhash : b ≠ hash) :
    FilterLevels ((b :: level) :: levels) ↔ PlainLevel level ∧ FilterLevels levels := by
  simp [FilterLevels, plainLevel_cons, hplus, hhash]

theorem filterLevels_cons_nil {levels : List Bytes} :
    FilterLevels ([] :: levels) ↔ FilterLevels levels := by
  simp [FilterLevels, plainLevel_nil]

theorem filterLevels_cons_plus {level : Bytes} {levels : List Bytes} :
    FilterLevels ((plus :: level) :: levels) ↔ level = [] ∧ FilterLevels levels := by
  have hne : plus ≠ hash := by decide
  simp [FilterLevels, plainLevel_cons, hne]

theorem filterLevels_cons_hash {level : Bytes} {levels : List Bytes} :
    FilterLevels ((hash :: level) :: levels) ↔ level = [] ∧ levels = [] := by
  have hne : hash ≠ plus := by decide
  simp only [FilterLevels, plainLevel_cons, ne_eq, not_true, and_false, false_and, false_or,
    List.cons.injEq, hne, true_and]
  constructor
  · rintro ⟨h, -⟩
    exact h
  · rintro ⟨rfl, rfl⟩
    exact ⟨⟨rfl, rfl⟩, trivial⟩

theorem headD_slash_iff {str : Bytes} (h : 0 ∉ str) :
    (str.headD 0 ≠ 0 ∧ str.headD 0 ≠ slash) ↔ str.headD slash ≠ slash := by
  cases str with
  | nil => simp
  | cons b str =>
    have hb : b ≠ 0 := fun heq => h (by simp [heq])
    simp [hb]

theorem headD_zero_iff {str : Bytes} (h : 0 ∉ str) : str.headD 0 = 0 ↔ str = [] := by
  cases str with
  | nil => simp
  | cons b str =>
    have hb : b ≠ 0 := fun heq => h (by simp [heq])
    simp [hb]

/-- At the start of a level the loop wants the levels of a filter; inside of one it
    wants no wildcard before the next slash. -/
theorem subTopicLoop_ok_iff {str : Bytes} (h : 0 ∉ str) {c : UInt8} {len n : Nat} :
    ((c = 0 ∨ c = slash) → (subTopicLoop c len str = .ok n ↔
      FilterLevels (topicLevels str) ∧ n = len + str.length)) ∧
    (c ≠ 0 ∧ c ≠ slash → ∀ {level levels}, topicLevels str = level :: levels →
      (subTopicLoop c len str = .ok n ↔
        PlainLevel level ∧ FilterLevels levels ∧ n = len + str.length)) := by
  -- on the rest of the string; `c` is the character in front of it
  induction str generalizing c len with
  | nil =>
    have hend : subTopicLoop c len [] = .ok n ↔ n = len := by
      show Except.ok len = .ok n ↔ _
      simp [eq_comm]
    rw [hend]
    constructor
    · intro _
      simp [FilterLevels, plainLevel_nil]
    · rintro - level levels hlevels
      rw [topicLevels_nil] at hlevels
      obtain ⟨rfl, rfl⟩ := List.cons.inj hlevels
      simp [FilterLevels, plainLevel_nil]
  | cons b str ih =>
    rw [List.mem_cons, not_or] at h
    obtain ⟨hb, hstr⟩ := h
    have hlength : len + (b :: str).length = len + 1 + str.length := by
      rw [List.length_cons]
      omega
    obtain ⟨l, ls, hls⟩ := topicLevels_cases str
    have hnil := head_topicLevels_eq_nil hls
    have hround : subTopicLoop c len (b :: str) = .ok n ↔
        ¬ (b = plus ∧ ((c ≠ 0 ∧ c ≠ slash) ∨ (str.headD 0 ≠ 0 ∧ str.headD 0 ≠ slash))) ∧
          ¬ (b = hash ∧ ((c ≠ 0 ∧ c ≠ slash) ∨ str.headD 0 ≠ 0)) ∧
          subTopicLoop b (len + 1) str = .ok n := by
      simp [subTopicLoop, except_bind_ok]
    rw [hlength, hround, headD_slash_iff hstr]
    by_cases hslash : b = slash
    · -- the next level begins
      subst hslash
      have h1 : slash ≠ plus := by decide
      have h2 : slash ≠ hash := by decide
      rw [(ih hstr).1 (.inr rfl), topicLevels_slash]
      constructor
      · intro _
        simp [h1, h2, filterLevels_cons_nil]
      · rintro - level levels hlevels
        obtain ⟨rfl, rfl⟩ := List.cons.inj hlevels
        simp [h1, h2, plainLevel_nil]
    · -- the first level goes on
      rw [(ih hstr).2 ⟨Ne.symm hb, hslash⟩ hls, topicLevels_cons hslash hls]
      -- a plus is a whole level: nothing in front of it, and the level ends behind it
      by_cases hplus : b = plus
      · subst hplus
        have h1 : plus ≠ hash := by decide
        simp only [true_and, h1, false_and, not_false_iff, not_or, ne_eq, not_not, ← hnil]
        constructor
        · intro hc
          rw [filterLevels_cons_plus]
          constructor
          · rintro ⟨⟨-, rfl⟩, -, hrest, hn⟩
            exact ⟨⟨rfl, hrest⟩, hn⟩
          · rintro ⟨⟨rfl, hrest⟩, hn⟩
            exact ⟨⟨by tauto, rfl⟩, plainLevel_nil, hrest, hn⟩
        · rintro hc level levels hlevels
          obtain ⟨rfl, rfl⟩ := List.cons.inj hlevels
          rw [plainLevel_cons]
          tauto
      -- a hash is moreover the last level
      · by_cases hhash : b = hash
        · subst hhash
          have h1 : hash ≠ plus := by decide
          simp only [true_and, h1, false_and, not_false_iff, not_or, ne_eq, not_not,
            headD_zero_iff hstr, ← topicLevels_eq_nil_iff, hls]
          constructor
          · intro hc
            rw [filterLevels_cons_hash]
            constructor
            · rintro ⟨⟨-, hend⟩, -, -, hn⟩
              obtain ⟨rfl, rfl⟩ := List.cons.inj hend
              exact ⟨⟨rfl, rfl⟩, hn⟩
            · rintro ⟨⟨rfl, rfl⟩, hn⟩
              exact ⟨⟨by tauto, rfl⟩, plainLevel_nil, trivial, hn⟩
          · rintro hc level levels hlevels
            obtain ⟨rfl, rfl⟩ := List.cons.inj hlevels
            rw [plainLevel_cons]
            tauto
        · simp only [hplus, hhash, false_and, not_false_iff, true_and]
          constructor
          · intro hc
            rw [filterLevels_cons_plain hplus hhash, and_assoc]
          · rintro hc level levels hlevels
            obtain ⟨rfl, rfl⟩ := List.cons.inj hlevels
            rw [plainLevel_cons]
            tauto

/-- A filter may be subscribed to when its wildcards stand where they may, and it is
    not too long. -/
theorem mosquittoSubTopicCheck_ok_iff {str : CString} :
    mosquittoSubTopicCheck str = .ok () ↔
      FilterLevels (topicLevels str.bytes) ∧ str.bytes.length ≤ 65535 := by
  rw [mosquittoSubTopicCheck, except_bind_ok]
  simp only [(subTopicLoop_ok_iff str.noNul).1 (.inl rfl), reject_ok]
  constructor
  · rintro ⟨n, ⟨hlevels, rfl⟩, hlen⟩
    exact ⟨hlevels, by omega⟩
  · rintro ⟨hlevels, hlen⟩
    exact ⟨_, ⟨hlevels, rfl⟩, by omega⟩

/-! ## What the positions point at

A string is split at a position: the loop only asks for the byte in front of it
and for what follows. -/

section Positions

variable {sub topic s : CString} {pre preT S T : Bytes} {b c d : UInt8}

theorem andM_some {a b : Bool} : (some a <&&> some b) = some (a && b) := by
  cases a <;> rfl

theorem pure_true_andM {x : Option Bool} : (pure true <&&> x) = x := rfl

theorem byteAt_append (h : s.bytes = pre ++ S) : s.byteAt pre.length = some (S.headD 0) := by
  rw [CString.byteAt, h, List.append_assoc, List.getElem?_append_right (Nat.le_refl _),
    Nat.sub_self]
  cases S with
  | nil => rfl
  | cons b S => rfl

theorem isAt_append (h : s.bytes = pre ++ S) :
    s.isAt pre.length d = some (decide (S.headD 0 = d)) := by
  rw [CString.isAt, byteAt_append h]
  rfl

theorem isNotAt_append (h : s.bytes = pre ++ S) :
    s.isNotAt pre.length d = some (decide (S.headD 0 ≠ d)) := by
  rw [CString.isNotAt, byteAt_append h]
  rfl

/-- One position further. -/
theorem bytes_step (h : s.bytes = pre ++ b :: S) : s.bytes = (pre ++ [b]) ++ S := by
  rw [h, List.append_assoc]
  rfl

theorem length_step : (pre ++ [b]).length = pre.length + 1 := by
  simp

theorem isAt_next (h : s.bytes = pre ++ b :: S) :
    s.isAt (pre.length + 1) d = some (decide (S.headD 0 = d)) := by
  rw [← length_step (b := b)]
  exact isAt_append (bytes_step h)

/-- The bytes of a string are no terminators. -/
theorem ne_zero_of_bytes (h : s.bytes = pre ++ b :: S) : b ≠ 0 := by
  rintro rfl
  exact s.noNul (by simp [h])

theorem prev_ne_zero (h : s.bytes = pre ++ S) (hpre : pre ≠ []) : pre.getLastD 0 ≠ 0 := by
  intro hzero
  have hmem : pre.getLastD 0 ∈ pre := by
    rw [List.getLastD_eq_getLast?, List.getLast?_eq_some_getLast hpre]
    exact List.getLast_mem hpre
  rw [hzero] at hmem
  exact s.noNul (by simp [h, hmem])

theorem byteAt_prev (h : s.bytes = pre ++ S) (hpre : pre ≠ []) :
    s.byteAt (pre.length - 1) = some (pre.getLastD 0) := by
  obtain ⟨front, c, rfl⟩ := List.eq_nil_or_concat pre |>.resolve_left hpre
  rw [List.concat_eq_append] at h ⊢
  rw [List.append_assoc] at h
  have hlength : (front ++ [c]).length - 1 = front.length := by simp
  rw [hlength, byteAt_append h]
  simp

theorem isAt_prev (h : s.bytes = pre ++ S) (hpre : pre ≠ []) :
    s.isAt (pre.length - 1) d = some (decide (pre.getLastD 0 = d)) := by
  rw [CString.isAt, byteAt_prev h hpre]
  rfl

theorem isNotAt_prev (h : s.bytes = pre ++ S) (hpre : pre ≠ []) :
    s.isNotAt (pre.length - 1) d = some (decide (pre.getLastD 0 ≠ d)) := by
  rw [CString.isNotAt, byteAt_prev h hpre]
  rfl

/-- The byte in front belongs to the same level. -/
theorem insideLevel_eq (h : s.bytes = pre ++ S) :
    insideLevel s pre.length = some (decide (pre.getLastD 0 ≠ 0 ∧ pre.getLastD 0 ≠ slash)) := by
  by_cases hpre : pre = []
  · subst hpre
    rfl
  · have hpos : 0 < pre.length := List.length_pos_iff.mpr hpre
    have hne := prev_ne_zero h hpre
    rw [insideLevel, isNotAt_prev h hpre, decide_eq_true hpos, pure_true_andM, Bool.decide_and,
      decide_eq_true hne, Bool.true_and]

theorem atParent_eq (hsub : sub.bytes = pre ++ b :: S) (htopic : topic.bytes = preT ++ c :: T) :
    atParent sub sub.bytes.length topic.bytes.length pre.length preT.length =
      some (decide (T = [] ∧ S = [slash, hash])) := by
  have hlen : preT.length + 1 = topic.bytes.length ∧ pre.length + 3 = sub.bytes.length ↔
      T = [] ∧ S.length = 2 := by
    rw [hsub, htopic]
    simp only [List.length_append, List.length_cons, ← List.length_eq_zero_iff]
    omega
  rw [atParent]
  by_cases hend : T = [] ∧ S.length = 2
  · obtain ⟨x, y, hS⟩ := List.length_eq_two.mp hend.2
    rw [decide_eq_true (hlen.mpr hend)]
    rw [hS] at hsub ⊢
    rw [isAt_next hsub, show pre.length + 2 = (pre ++ [b]).length + 1 by simp,
      isAt_next (bytes_step hsub)]
    rw [pure_true_andM, andM_some]
    simp [hend.1]
  · have hne : ¬ (T = [] ∧ S = [slash, hash]) := by
      rintro ⟨hT, rfl⟩
      exact hend ⟨hT, rfl⟩
    rw [decide_eq_false (mt hlen.mp hend), decide_eq_false hne]
    rfl

theorem atLastPlus_eq (hsub : sub.bytes = pre ++ b :: S) (htopic : topic.bytes = preT ++ c :: T) :
    (pure (decide (preT.length + 1 = topic.bytes.length ∧ pre.length + 1 + 1 = sub.bytes.length)) <&&>
      sub.isAt (pre.length + 1) plus) = some (decide (T = [] ∧ S = [plus])) := by
  have hlen : preT.length + 1 = topic.bytes.length ∧ pre.length + 1 + 1 = sub.bytes.length ↔
      T = [] ∧ S.length = 1 := by
    rw [hsub, htopic]
    simp only [List.length_append, List.length_cons, ← List.length_eq_zero_iff]
    omega
  by_cases hend : T = [] ∧ S.length = 1
  · obtain ⟨x, hS⟩ := List.length_eq_one_iff.mp hend.2
    rw [decide_eq_true (hlen.mpr hend), pure_true_andM, isAt_next hsub, hS]
    simp [hend.1]
  · have hne : ¬ (T = [] ∧ S = [plus]) := by
      rintro ⟨hT, rfl⟩
      exact hend ⟨hT, rfl⟩
    rw [decide_eq_false (mt hlen.mp hend), decide_eq_false hne]
    rfl

theorem badPlus_eq (hsub : sub.bytes = pre ++ b :: S) :
    (pure (decide (pre.length + 1 < sub.bytes.length)) <&&>
      sub.isNotAt (pre.length + 1) slash) = some (decide (S.headD slash ≠ slash)) := by
  have hlen : pre.length + 1 < sub.bytes.length ↔ S ≠ [] := by
    rw [hsub, List.length_append, List.length_cons, ← List.length_pos_iff]
    omega
  cases S with
  | nil =>
    rw [decide_eq_false (mt hlen.mp (by simp))]
    rfl
  | cons x S =>
    rw [decide_eq_true (hlen.mpr (by simp)), pure_true_andM, ← length_step (b := b),
      isNotAt_append (bytes_step hsub)]
    rfl

/-- Behind what is skipped, the level is over. -/
theorem skipLevel_append (h : topic.bytes = preT ++ T) :
    topic.bytes = (preT ++ T.takeWhile (· ≠ slash)) ++ T.dropWhile (· ≠ slash) := by
  rw [List.append_assoc, List.takeWhile_append_dropWhile, h]

theorem skipLevel_eq (h : topic.bytes = preT ++ T) :
    skipLevel topic preT.length = (preT ++ T.takeWhile (· ≠ slash)).length := by
  rw [skipLevel, h, List.drop_left, List.length_append]

theorem atPlusParent_eq (hsub : sub.bytes = pre ++ b :: S) (htopic : topic.bytes = preT ++ T) :
    atPlusParent sub sub.bytes.length topic.bytes.length pre.length preT.length =
      some (decide (T = [] ∧ pre.getLastD 0 = plus ∧ b = slash ∧ S = [hash])) := by
  have hlen : (pre.length > 0 ∧ pre.length + 2 = sub.bytes.length ∧
      preT.length = topic.bytes.length) ↔ pre ≠ [] ∧ S.length = 1 ∧ T = [] := by
    rw [hsub, htopic, ← List.length_pos_iff]
    simp only [List.length_append, List.length_cons, ← List.length_eq_zero_iff]
    omega
  rw [atPlusParent]
  by_cases hend : pre ≠ [] ∧ S.length = 1 ∧ T = []
  · obtain ⟨x, hS⟩ := List.length_eq_one_iff.mp hend.2.1
    rw [decide_eq_true (hlen.mpr hend)]
    rw [hS] at hsub ⊢
    rw [isAt_prev hsub hend.1, isAt_append hsub, isAt_next hsub, pure_true_andM, andM_some, andM_some]
    simp [hend.2.2]
  · have hne : ¬ (T = [] ∧ pre.getLastD 0 = plus ∧ b = slash ∧ S = [hash]) := by
      rintro ⟨hT, hprev, rfl, rfl⟩
      refine hend ⟨?_, rfl, hT⟩
      rintro rfl
      revert hprev
      decide
    rw [decide_eq_false (mt hlen.mp hend), decide_eq_false hne]
    rfl

end Positions

/-! ## The loop on what follows the positions -/

/-- The loop, in terms of the byte in front (0 for none) and of what follows. -/
def matchesFrom (prev : UInt8) : Bytes → Bytes → Except MosqError Bool
  | [], _ => .ok false
  | s :: S, T =>
    if s = T.headD 0 then
      if T.tail = [] ∧ S = [slash, hash] then .ok true
      else if S = [] ∧ T.tail = [] then .ok true
      else if T.tail = [] ∧ S = [plus] then if s ≠ slash then .error .inval else .ok true
      else matchesFrom s S T.tail
    else if s = plus then
      if prev ≠ 0 ∧ prev ≠ slash then .error .inval
      else if S.headD slash ≠ slash then .error .inval
      else if T.dropWhile (· ≠ slash) = [] ∧ S = [] then .ok true
      else matchesFrom plus S (T.dropWhile (· ≠ slash))
    else if s = hash then
      if prev ≠ 0 ∧ prev ≠ slash then .error .inval
      else if S ≠ [] then .error .inval
      else .ok true
    else .ok (decide (T = [] ∧ prev = plus ∧ s = slash ∧ S = [hash]))

theorem matchesLoop_eq {sub topic : CString} {S : Bytes} {fuel : Nat} (hfuel : S.length < fuel)
    {pre preT T : Bytes} (hsub : sub.bytes = pre ++ S) (htopic : topic.bytes = preT ++ T) :
    matchesLoop sub topic fuel pre.length preT.length =
      some (matchesFrom (pre.getLastD 0) S T) := by
  -- on what the loop has not read of the filter, which every round shortens
  induction S generalizing fuel pre preT T with
  | nil =>
    obtain ⟨fuel, rfl⟩ := Nat.exists_eq_succ_of_ne_zero (Nat.ne_of_gt hfuel)
    have hend : ¬ (pre.length < sub.bytes.length ∧ preT.length ≤ topic.bytes.length) := by
      simp [hsub]
    rw [matchesLoop]
    simp [hend, matchesFrom]
  | cons s S ih =>
    obtain ⟨fuel, rfl⟩ := Nat.exists_eq_succ_of_ne_zero (Nat.ne_of_gt (Nat.zero_lt_of_lt hfuel))
    have hin : pre.length < sub.bytes.length ∧ preT.length ≤ topic.bytes.length := by
      simp [hsub, htopic]
    rw [matchesLoop]
    simp only [if_pos hin, byteAt_append hsub, byteAt_append htopic, List.headD_cons,
      Option.bind_eq_bind, Option.bind_some]
    -- equal characters: both strings go on by one
    by_cases hs : s = T.headD 0
    · obtain ⟨t, T, rfl⟩ : ∃ t T', T = t :: T' := by
        cases T with
        | nil => exact absurd hs (ne_zero_of_bytes hsub)
        | cons t T => exact ⟨t, T, rfl⟩
      have hsub' := bytes_step hsub
      have hnext := ih (Nat.lt_of_succ_lt_succ hfuel) hsub' (bytes_step htopic)
      have hinside := insideLevel_eq hsub'
      rw [length_step] at hnext hinside
      rw [length_step, List.getLastD_concat] at hnext
      rw [List.getLastD_concat] at hinside
      have hends : pre.length + 1 = sub.bytes.length ∧ preT.length + 1 = topic.bytes.length ↔
          S = [] ∧ T = [] := by
        rw [hsub, htopic]
        simp only [List.length_append, List.length_cons, ← List.length_eq_zero_iff]
        omega
      rw [if_pos hs, atParent_eq hsub htopic, matchesFrom, if_pos hs, List.tail_cons]
      simp only [Option.bind_some, decide_eq_true_eq, hends, atLastPlus_eq hsub htopic, hinside,
        ne_zero_of_bytes hsub, ne_eq, not_false_eq_true, true_and, hnext]
      split_ifs <;> rfl
    -- different ones: a plus passes over the rest of the level, a hash over all that is
    -- left
    · have hnext := ih (Nat.lt_of_succ_lt_succ hfuel) (bytes_step hsub) (skipLevel_append htopic)
      rw [length_step, ← skipLevel_eq htopic, List.getLastD_concat] at hnext
      have hlast : pre.length + 1 = sub.bytes.length ↔ S = [] := by
        rw [hsub, List.length_append, List.length_cons, ← List.length_eq_zero_iff]
        omega
      have hskipped : skipLevel topic preT.length = topic.bytes.length ↔
          T.dropWhile (· ≠ slash) = [] := by
        have hlength := congrArg List.length (skipLevel_append htopic)
        rw [List.length_append] at hlength
        rw [skipLevel_eq htopic, ← List.length_eq_zero_iff]
        omega
      rw [if_neg hs, insideLevel_eq hsub, atPlusParent_eq hsub htopic, badPlus_eq hsub, matchesFrom,
        if_neg hs]
      simp only [Option.bind_some, decide_eq_true_eq, hnext, ne_eq, hlast, hskipped]
      by_cases hplus : s = plus
      · rw [if_pos hplus, if_pos hplus, hplus]
        split_ifs <;> rfl
      · rw [if_neg hplus, if_neg hplus]
        split_ifs <;> rfl

/-! ## The result level by level -/

/-- Whether the levels of a topic are those a filter asks for. -/
def levelsMatch (filter topic : List Bytes) : Bool := LevelFilter.accepts [plus] [hash] filter topic

theorem levelsMatch_level {f t : Bytes} {fs ts : List Bytes} (h : PlainLevel f) :
    levelsMatch (f :: fs) (t :: ts) = (decide (f = t) && levelsMatch fs ts) := by
  apply LevelFilter.accepts_cons_level
  · rintro rfl
    exact h.1 (List.mem_singleton.mpr rfl)
  · rintro rfl
    exact h.2 (List.mem_singleton.mpr rfl)

theorem levelsMatch_plus {t : Bytes} {fs ts : List Bytes} :
    levelsMatch ([plus] :: fs) (t :: ts) = levelsMatch fs ts :=
  LevelFilter.accepts_single _ _ (by decide)

theorem levelsMatch_hash {ts : List Bytes} : levelsMatch [[hash]] ts = true :=
  LevelFilter.accepts_multi _ _

/-- Without levels there is only what a last `#` takes. -/
theorem levelsMatch_nil_right {s : Bytes} (h : FilterLevels (topicLevels s)) :
    levelsMatch (topicLevels s) [] = decide (s = [hash]) := by
  by_cases hs : s = [hash]
  · subst hs
    rfl
  · rw [decide_eq_false hs]
    obtain ⟨l, ls, hls⟩ := topicLevels_cases s
    rw [hls, levelsMatch, LevelFilter.accepts_nil_right, Bool.and_eq_false_iff,
      decide_eq_false_iff_not]
    by_cases hl : l = [hash]
    · right
      rw [List.isEmpty_eq_false_iff]
      rintro rfl
      refine hs ?_
      have hjoin : [slash].intercalate (s.splitOn slash) = s := List.intercalate_splitOn slash
      rw [show s.splitOn slash = [l] from hls, hl] at hjoin
      simpa using hjoin.symm
    · exact .inl hl

/-- The end of a topic behind a whole level. -/
theorem topicLevels_dropWhile {s level : Bytes} {levels : List Bytes}
    (h : topicLevels s = level :: levels) :
    topicLevels (s.dropWhile (· ≠ slash)) = [] :: levels := by
  induction s generalizing level levels with
  | nil =>
    rw [topicLevels_nil] at h
    rw [← (List.cons.inj h).2]
    rfl
  | cons b s ih =>
    by_cases hb : b = slash
    · subst hb
      rw [topicLevels_slash] at h
      have hkeep : (slash :: s).dropWhile (· ≠ slash) = slash :: s := by simp
      rw [hkeep, topicLevels_slash, (List.cons.inj h).2]
    · obtain ⟨l, ls, hls⟩ := topicLevels_cases s
      rw [topicLevels_cons hb hls] at h
      have hdrop : (b :: s).dropWhile (· ≠ slash) = s.dropWhile (· ≠ slash) := by simp [hb]
      rw [hdrop, ih hls, (List.cons.inj h).2]

/-- Where the loop goes on: not at the end of both, nor in front of `/#` with nothing
    left of the topic unless behind a `+`. -/
structure GoesOnAt (prev : UInt8) (S T : Bytes) : Prop where
  notEnd : ¬ (S = [] ∧ T = [])
  notParent : prev ≠ plus → ¬ (T = [] ∧ S = [slash, hash])

/-- What the loop finds at the start of a level, and inside of one; behind a `+` both
    levels are over. -/
structure FindsLevels (prev : UInt8) (S T : Bytes) : Prop where
  start : (prev = 0 ∨ prev = slash) → FilterLevels (topicLevels S) →
    matchesFrom prev S T = .ok (levelsMatch (topicLevels S) (topicLevels T))
  inside : prev ≠ 0 ∧ prev ≠ slash → ∀ {l t ls ts}, topicLevels S = l :: ls →
    topicLevels T = t :: ts → PlainLevel l → FilterLevels ls → (prev = plus → l = [] ∧ t = []) →
    matchesFrom prev S T = .ok (decide (l = t) && levelsMatch ls ts)

/-- The end of a round in which both bytes are slashes. -/
theorem afterSlash {S T : Bytes} (hlevels : FilterLevels (topicLevels S))
    (ih : GoesOnAt slash S T → FindsLevels slash S T) :
    (if T = [] ∧ S = [slash, hash] then Except.ok true
      else if S = [] ∧ T = [] then .ok true
      else if T = [] ∧ S = [plus] then if slash ≠ slash then .error MosqError.inval else .ok true
      else matchesFrom slash S T) = .ok (levelsMatch (topicLevels S) (topicLevels T)) := by
  split_ifs with hparent hend hplus hslash
  · rw [hparent.1, hparent.2]
    rfl
  · rw [hend.1, hend.2]
    rfl
  · exact absurd rfl hslash
  · rw [hplus.1, hplus.2]
    rfl
  · exact (ih ⟨hend, fun _ => hparent⟩).start (.inr rfl) hlevels

/-- The end of a round in which both bytes are the same and belong to a level. -/
theorem afterLevelByte {s : UInt8} {S T l t : Bytes} {ls ts : List Bytes} (hzero : s ≠ 0)
    (hslash : s ≠ slash) (hplus : s ≠ plus) (hS : topicLevels S = l :: ls)
    (hT : topicLevels T = t :: ts) (hl : PlainLevel l) (hls : FilterLevels ls)
    (ih : GoesOnAt s S T → FindsLevels s S T) :
    (if T = [] ∧ S = [slash, hash] then Except.ok true
      else if S = [] ∧ T = [] then .ok true
      else if T = [] ∧ S = [plus] then if s ≠ slash then .error MosqError.inval else .ok true
      else matchesFrom s S T) = .ok (decide (s :: l = s :: t) && levelsMatch ls ts) := by
  have hsame : decide (s :: l = s :: t) = decide (l = t) := by simp
  rw [hsame]
  split_ifs with hparent hend hlast
  · rw [hparent.2] at hS
    rw [hparent.1] at hT
    cases hS
    cases hT
    rfl
  · rw [hend.1] at hS
    rw [hend.2] at hT
    cases hS
    cases hT
    rfl
  · -- a `+` inside of a level
    rw [hlast.2] at hS
    cases hS
    exact absurd (List.mem_singleton.mpr rfl) hl.1
  · exact (ih ⟨hend, fun _ => hparent⟩).inside ⟨hzero, hslash⟩ hS hT hl hls
      fun h => absurd h hplus

/-- A byte that differs decides between two levels. -/
theorem cons_ne_of_head_ne {s : UInt8} {l t T : Bytes} {ts : List Bytes}
    (hs : s ≠ T.headD 0) (hT : topicLevels T = t :: ts) : s :: l ≠ t := by
  cases T with
  | nil =>
    cases hT
    simp
  | cons c T =>
    by_cases hc : c = slash
    · rw [hc, topicLevels_slash] at hT
      rw [← (List.cons.inj hT).1]
      simp
    · obtain ⟨t', ts', hT'⟩ := topicLevels_cases T
      rw [topicLevels_cons hc hT'] at hT
      rw [← (List.cons.inj hT).1]
      rintro heq
      exact hs (List.cons.inj heq).1

/-- The same for a slash: a level that goes on is not the empty one. -/
theorem nil_ne_of_head_ne {T t : Bytes} {ts : List Bytes} (hs : slash ≠ T.headD 0) (hT : T ≠ [])
    (h : topicLevels T = t :: ts) : t ≠ [] := by
  rw [Ne, head_topicLevels_eq_nil h]
  cases T with
  | nil => exact absurd rfl hT
  | cons c T => exact fun heq => hs heq.symm

section Round

variable {prev s : UInt8} {S T : Bytes}
  (ih : ∀ {prev : UInt8} {T : Bytes}, PlainLevel T → GoesOnAt prev S T → FindsLevels prev S T)
include ih

/-- A round at a slash of the filter, when its level is over. -/
theorem findsLevels_slash (hgoes : GoesOnAt prev (slash :: S) T) (hT : PlainLevel T)
    (hlevels : FilterLevels (topicLevels S)) {t : Bytes} {ts : List Bytes}
    (ht : topicLevels T = t :: ts) (hplus : prev = plus → t = []) :
    matchesFrom prev (slash :: S) T = .ok (decide ([] = t) && levelsMatch (topicLevels S) ts) := by
  by_cases hs : slash = T.headD 0
  · -- the level of the topic is over, too
    obtain ⟨T, rfl⟩ : ∃ T', T = slash :: T' := by
      cases T with
      | nil => exact absurd hs (by decide)
      | cons c T => exact ⟨T, by rw [show slash = c from hs]⟩
    rw [topicLevels_slash] at ht
    obtain ⟨rfl, rfl⟩ := List.cons.inj ht
    rw [matchesFrom, if_pos hs, List.tail_cons, afterSlash hlevels (ih (plainLevel_cons.mp hT).2)]
    rfl
  · have hslash : slash ≠ plus ∧ slash ≠ hash := by decide
    rw [matchesFrom, if_neg hs, if_neg hslash.1, if_neg hslash.2]
    by_cases hend : T = []
    · subst hend
      cases ht
      rw [levelsMatch_nil_right hlevels]
      by_cases hprev : prev = plus
      · simp [hprev]
      · have hne : S ≠ [hash] := fun h => hgoes.notParent hprev ⟨rfl, by rw [h]⟩
        simp [hprev, hne]
    · have hne := nil_ne_of_head_ne hs hend ht
      simp [hend, hne.symm]

/-- A round at an ordinary byte of the filter. -/
theorem findsLevels_byte (hzero : s ≠ 0) (hslash : s ≠ slash) (hplus : s ≠ plus) (hhash : s ≠ hash)
    (hT : PlainLevel T) {l t : Bytes} {ls ts : List Bytes} (hl : topicLevels S = l :: ls)
    (ht : topicLevels T = t :: ts) (hplain : PlainLevel l) (hls : FilterLevels ls) :
    matchesFrom prev (s :: S) T = .ok (decide (s :: l = t) && levelsMatch ls ts) := by
  by_cases hs : s = T.headD 0
  · obtain ⟨T, rfl⟩ : ∃ T', T = s :: T' := by
      cases T with
      | nil => exact absurd hs hzero
      | cons c T => exact ⟨T, by rw [show s = c from hs]⟩
    obtain ⟨t', ts', ht'⟩ := topicLevels_cases T
    rw [topicLevels_cons hslash ht'] at ht
    obtain ⟨rfl, rfl⟩ := List.cons.inj ht
    rw [matchesFrom, if_pos hs, List.tail_cons,
      afterLevelByte hzero hslash hplus hl ht' hplain hls (ih (plainLevel_cons.mp hT).2)]
  · have hne : s :: l ≠ t := cons_ne_of_head_ne hs ht
    rw [matchesFrom, if_neg hs, if_neg hplus, if_neg hhash, decide_eq_false hne]
    simp [hslash]

/-- A round at a `+` of the filter. -/
theorem findsLevels_plus (hprev : prev = 0 ∨ prev = slash) (hT : PlainLevel T)
    {ls : List Bytes} (hl : topicLevels S = [] :: ls) (hls : FilterLevels ls) {t : Bytes}
    {ts : List Bytes} (ht : topicLevels T = t :: ts) :
    matchesFrom prev (plus :: S) T = .ok (levelsMatch ls ts) := by
  have hs : plus ≠ T.headD 0 := by
    cases T with
    | nil => decide
    | cons c T => exact fun heq => hT.1 (by simp [show plus = c from heq])
  have hinside : ¬ (prev ≠ 0 ∧ prev ≠ slash) := by tauto
  have hnext : S.headD slash = slash := (head_topicLevels_eq_nil hl).mp rfl
  have ht' := topicLevels_dropWhile ht
  have hT' : PlainLevel (T.dropWhile (· ≠ slash)) :=
    ⟨fun h => hT.1 (List.dropWhile_subset _ h), fun h => hT.2 (List.dropWhile_subset _ h)⟩
  rw [matchesFrom, if_neg hs, if_pos rfl, if_neg hinside, if_neg (not_not.mpr hnext)]
  split_ifs with hend
  · rw [hend.2] at hl
    rw [hend.1] at ht'
    cases hl
    cases ht'
    rfl
  · have hgoes : GoesOnAt plus S (T.dropWhile (· ≠ slash)) :=
      ⟨fun h => hend ⟨h.2, h.1⟩, fun h => absurd rfl h⟩
    rw [(ih hT' hgoes).inside (by decide) hl ht' plainLevel_nil hls fun _ => ⟨rfl, rfl⟩]
    rfl

end Round

theorem findsLevels {prev : UInt8} {S T : Bytes} (hS0 : 0 ∉ S) (hT : PlainLevel T)
    (hgoes : GoesOnAt prev S T) : FindsLevels prev S T := by
  -- on the rest of the filter, for a round at the start of a level and for one inside
  -- of it
  induction S generalizing prev T with
  | nil =>
    obtain ⟨t, ts, ht⟩ := topicLevels_cases T
    have hne : T ≠ [] := fun h => hgoes.notEnd ⟨rfl, h⟩
    -- the filter ends and the topic does not, so they do not match
    have hfalse : (decide ([] = t) && levelsMatch [] ts) = false := by
      rw [Bool.and_eq_false_iff]
      by_cases htnil : [] = t
      · right
        show ts.isEmpty = false
        rw [List.isEmpty_eq_false_iff]
        rintro rfl
        rw [← htnil] at ht
        exact hne (topicLevels_eq_nil_iff.mp ht)
      · exact .inl (decide_eq_false htnil)
    constructor
    · intro _ _
      rw [matchesFrom, topicLevels_nil, ht, levelsMatch_level plainLevel_nil, hfalse]
    · rintro - l t' ls ts' hl ht' - - -
      rw [topicLevels_nil] at hl
      obtain ⟨rfl, rfl⟩ := List.cons.inj hl
      obtain ⟨rfl, rfl⟩ := List.cons.inj (ht.symm.trans ht')
      rw [matchesFrom, hfalse]
  | cons s S ih =>
    rw [List.mem_cons, not_or] at hS0
    have hzero : s ≠ 0 := Ne.symm hS0.1
    have ih := fun {prev : UInt8} {T : Bytes} => @ih prev T hS0.2
    obtain ⟨l, ls, hl⟩ := topicLevels_cases S
    constructor
    -- at the start of a level: by what its first character may be
    · intro hprev hlevels
      obtain ⟨t, ts, ht⟩ := topicLevels_cases T
      have hnotPlus : prev ≠ plus := by
        rintro rfl
        revert hprev
        decide
      by_cases hslash : s = slash
      · subst hslash
        rw [topicLevels_slash, filterLevels_cons_nil] at hlevels
        rw [topicLevels_slash, ht, levelsMatch_level plainLevel_nil,
          findsLevels_slash ih hgoes hT hlevels ht fun h => absurd h hnotPlus]
      · rw [topicLevels_cons hslash hl] at hlevels ⊢
        by_cases hplus : s = plus
        · subst hplus
          obtain ⟨rfl, hls⟩ := filterLevels_cons_plus.mp hlevels
          rw [ht, levelsMatch_plus, findsLevels_plus ih hprev hT hl hls ht]
        · by_cases hhash : s = hash
          · subst hhash
            obtain ⟨rfl, rfl⟩ := filterLevels_cons_hash.mp hlevels
            have hend : S = [] := topicLevels_eq_nil_iff.mp hl
            have hs : hash ≠ T.headD 0 := by
              cases T with
              | nil => decide
              | cons c T => exact fun heq => hT.2 (by simp [show hash = c from heq])
            have hinside : ¬ (prev ≠ 0 ∧ prev ≠ slash) := by tauto
            rw [levelsMatch_hash, matchesFrom, if_neg hs, if_neg (by decide), if_pos rfl,
              if_neg hinside, if_neg (not_not.mpr hend)]
          · obtain ⟨hplain, hls⟩ := (filterLevels_cons_plain hplus hhash).mp hlevels
            rw [ht, levelsMatch_level (plainLevel_cons.mpr ⟨⟨hplus, hhash⟩, hplain⟩),
              findsLevels_byte ih hzero hslash hplus hhash hT hl ht hplain hls]
    -- inside of a level there are no wildcards
    · rintro hprev l' t ls' ts hl' ht hplain hls hover
      by_cases hslash : s = slash
      · subst hslash
        rw [topicLevels_slash] at hl'
        obtain ⟨rfl, rfl⟩ := List.cons.inj hl'
        exact findsLevels_slash ih hgoes hT hls ht fun h => (hover h).2
      · rw [topicLevels_cons hslash hl] at hl'
        obtain ⟨rfl, rfl⟩ := List.cons.inj hl'
        obtain ⟨⟨hplus, hhash⟩, hplain⟩ := plainLevel_cons.mp hplain
        exact findsLevels_byte ih hzero hslash hplus hhash hT hl ht hplain hls

/-! ## The matching -/

/-- The rule for topics of the server: only filters that begin with a dollar match them. -/
def sameDollar (sub topic : CString) : Bool :=
  decide (sub.bytes.headD 0 = dollar ↔ topic.bytes.headD 0 = dollar)

/-- On a filter that may be subscribed to and a topic that may be published to, the
    matching reads nothing behind the strings, and finds out whether the levels of the
    topic are those the filter asks for. -/
theorem mosquittoTopicMatchesSub_eq {sub topic : CString}
    (hsub : mosquittoSubTopicCheck sub = .ok ()) (htopic : mosquittoPubTopicCheck topic = .ok ())
    (hsub' : sub.bytes ≠ []) (htopic' : topic.bytes ≠ []) :
    mosquittoTopicMatchesSub sub topic = some (.ok (sameDollar sub topic &&
      levelsMatch (topicLevels sub.bytes) (topicLevels topic.bytes))) := by
  have hlength : ¬ (sub.bytes.length = 0 ∨ topic.bytes.length = 0) := by
    simp [hsub', htopic']
  have hat : sub.byteAt 0 = some (sub.bytes.headD 0) := byteAt_append (List.nil_append _).symm
  have hat' : topic.byteAt 0 = some (topic.bytes.headD 0) :=
    byteAt_append (List.nil_append _).symm
  rw [mosquittoTopicMatchesSub, if_neg hlength, hat, hat']
  simp only [Option.bind_eq_bind, Option.bind_some]
  split_ifs with hdollar
  · have hfalse : sameDollar sub topic = false := by
      rw [sameDollar, decide_eq_false_iff_not]
      tauto
    rw [hfalse]
    rfl
  · have htrue : sameDollar sub topic = true := by
      rw [sameDollar, decide_eq_true_eq]
      tauto
    have hloop := matchesLoop_eq (Nat.lt_succ_self sub.bytes.length)
      (List.nil_append sub.bytes).symm (List.nil_append topic.bytes).symm
    have hgoes : GoesOnAt 0 sub.bytes topic.bytes := ⟨fun h => hsub' h.1, fun _ h => htopic' h.1⟩
    have hfinds := findsLevels sub.noNul (mosquittoPubTopicCheck_ok_iff.mp htopic).1 hgoes
    rw [htrue, Bool.true_and,
      ← hfinds.start (.inl rfl) (mosquittoSubTopicCheck_ok_iff.mp hsub).1]
    exact hloop

/-- What MQTT says: the levels of the topic are those of the filter, where `+` is any one
    level, and a `#` in the end any number of them. -/
def MatchesLevels (filter topic : List Bytes) : Prop :=
  List.Forall₂ (fun f l => f = l ∨ f = [plus]) filter topic ∨
    ∃ front levels rest, filter = front ++ [[hash]] ∧ topic = levels ++ rest ∧
      List.Forall₂ (fun f l => f = l ∨ f = [plus]) front levels

/-- The walk over the two strings stays inside of them, always answers, and finds a match
    when MQTT says so and both or none of the strings begin with a dollar. -/
theorem mosquittoTopicMatchesSub_iff {sub topic : CString}
    (hsub : mosquittoSubTopicCheck sub = .ok ()) (htopic : mosquittoPubTopicCheck topic = .ok ())
    (hsub' : sub.bytes ≠ []) (htopic' : topic.bytes ≠ []) :
    (∃ result, mosquittoTopicMatchesSub sub topic = some (.ok result)) ∧
      (mosquittoTopicMatchesSub sub topic = some (.ok true) ↔
        (sub.bytes.headD 0 = dollar ↔ topic.bytes.headD 0 = dollar) ∧
        MatchesLevels (topicLevels sub.bytes) (topicLevels topic.bytes)) := by
  rw [mosquittoTopicMatchesSub_eq hsub htopic hsub' htopic']
  refine ⟨⟨_, rfl⟩, ?_⟩
  simp only [Option.some.injEq, Except.ok.injEq, Bool.and_eq_true, sameDollar, decide_eq_true_eq]
  exact and_congr_right fun _ => LevelFilter.accepts_iff _ _

/-- The filter `site/+/#`. -/
def siteFilter : CString := ⟨ascii "site/+/#", by decide⟩

/-- The topic `site/door`. -/
def siteTopic : CString := ⟨ascii "site/door", by decide⟩

theorem mosquittoTopicMatchesSub_site :
    mosquittoTopicMatchesSub siteFilter siteTopic = some (.ok true) :=
  (@mosquittoTopicMatchesSub_iff siteFilter siteTopic (by decide) (by decide) (by decide)
    (by decide)).2.mpr ⟨by decide, (LevelFilter.accepts_iff _ _).mp rfl⟩

end WeeveMQ
