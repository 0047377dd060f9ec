/-
# Lease records

One script writes the record of a lease, four compare it with the record that their caller
would have, two read the worker id back, and the client reads the worker id and the token.
The length before the first colon counts bytes, so nothing in the worker id or the token
can be taken for a delimiter. A record that no script has written may count into a
character; reading it then panics instead of reporting an error.
-/

import Mathlib.Data.List.TakeWhile
import Redloop.Queue.Lookup

namespace Redloop

/-! ## Comparing records -/

/-- The job, the worker id and the token of an operation that has to hold a lease. -/
def Op.leaseArgs : Op → Option (Bytes × Bytes × Bytes)
  | .heartbeat workerId jobId leaseToken _ _ => some (jobId, workerId, leaseToken)
  | .ack workerId jobId leaseToken _ => some (jobId, workerId, leaseToken)
  | .completeAndReschedule workerId jobId leaseToken _ _ => some (jobId, workerId, leaseToken)
  | .failOrRetry request => some (request.jobId, request.workerId, request.leaseToken)
  | _ => none

namespace Store

variable {s : Store} {jobId workerId leaseToken callerId callerToken : Bytes}

/-- The holder of a lease alone is served. -/
theorem isOk_reply_iff_holdsLease {op : Op}
    (hargs : op.leaseArgs = some (jobId, callerId, callerToken)) :
    (s.reply op).isOk ↔ s.HoldsLease jobId callerId callerToken := by
  have hguard {served : Store × Reply} (hok : served.2.isOk) :
      (if ¬ s.HoldsLease jobId callerId callerToken then (s, Reply.leaseMismatch)
        else served).2.isOk ↔ s.HoldsLease jobId callerId callerToken := by
    split_ifs with hholds
    · exact iff_of_true hok hholds
    · exact iff_of_false (by simp) hholds
  cases op with
  | heartbeat =>
      cases hargs
      exact hguard (Reply.isOk_ok _)
  | ack =>
      cases hargs
      exact hguard (Reply.isOk_ok _)
  | completeAndReschedule =>
      cases hargs
      apply hguard
      dsimp only
      split_ifs <;> exact Reply.isOk_ok _
  | failOrRetry =>
      cases hargs
      apply hguard
      dsimp only
      split_ifs <;> exact Reply.isOk_ok _
  | _ => cases hargs

/-- Whoever does not hold the lease is told so, and nothing changes. -/
theorem exec_of_not_holdsLease {op : Op}
    (hargs : op.leaseArgs = some (jobId, callerId, callerToken))
    (hholds : ¬ s.HoldsLease jobId callerId callerToken) :
    s.exec op = (s, Reply.leaseMismatch) := by
  cases op with
  | heartbeat | ack | completeAndReschedule | failOrRetry =>
      cases hargs
      exact if_pos hholds
  | _ => cases hargs

/-- Under a packed record, the lease is held by the worker id and the token of the record. -/
theorem holdsLease_iff_of_packMeta
    (hrecord : s.leaseMeta.lookup jobId = some (packMeta workerId leaseToken))
    (hleased : (s.leased.score jobId).isSome) :
    s.HoldsLease jobId callerId callerToken ↔ callerId = workerId ∧ callerToken = leaseToken := by
  unfold HoldsLease
  rw [hrecord, Option.some.injEq, packMeta_inj, and_iff_left hleased, eq_comm,
    eq_comm (a := leaseToken)]

end Store

open Store

/-! ## The codec -/

/-- The numeral of a record is what the scripts print for a length of at most 14 digits. -/
theorem packMeta_eq_generalText {workerId : Bytes} (hlength : workerId.length < 10 ^ 14)
    (leaseToken : Bytes) :
    packMeta workerId leaseToken =
      generalText 14 workerId.length ++ colon :: (workerId ++ leaseToken) := by
  have hfits : excessDigits 14 (workerId.length : ℤ).natAbs = 0 :=
    (excessDigits_eq_zero_iff (by decide)).mpr hlength
  rw [packMeta, generalText_of_excessDigits_eq_zero hfits]
  simp [decimalInt]

/-- The record of a lease gives its worker id and token back to every reader, differs from
the record of any other lease, and is matched by its holder alone. -/
theorem lease_record_codec (workerId leaseToken : Text) :
    parseLeaseMeta (packMeta workerId.bytes leaseToken.bytes) =
        some (.ok (workerId.bytes, leaseToken.bytes)) ∧
      workerFromMeta (packMeta workerId.bytes leaseToken.bytes) = some workerId.bytes ∧
      (∀ otherWorker otherToken : Text,
        packMeta workerId.bytes leaseToken.bytes =
            packMeta otherWorker.bytes otherToken.bytes ↔
          workerId = otherWorker ∧ leaseToken = otherToken) ∧
      ∀ (s : Store) (jobId : Bytes),
        s.leaseMeta.lookup jobId = some (packMeta workerId.bytes leaseToken.bytes) →
        (s.leased.score jobId).isSome →
          ∀ (op : Op) (callerId callerToken : Bytes),
            op.leaseArgs = some (jobId, callerId, callerToken) →
            ((s.reply op).isOk ↔ callerId = workerId.bytes ∧ callerToken = leaseToken.bytes) ∧
              (¬ (callerId = workerId.bytes ∧ callerToken = leaseToken.bytes) →
                s.exec op = (s, Reply.leaseMismatch)) := by
  refine ⟨?_, workerFromMeta_packMeta _ _, fun otherWorker otherToken => ?_, ?_⟩
  · apply parseLeaseMeta_packMeta _ leaseToken.isUtf8.head?
    have hle := workerId.length_le
    unfold u64Max
    omega
  · rw [packMeta_inj]
    constructor
    · rintro ⟨hworker, htoken⟩
      exact ⟨Text.ext_bytes hworker, Text.ext_bytes htoken⟩
    · rintro ⟨rfl, rfl⟩
      exact ⟨rfl, rfl⟩
  · intro s jobId hrecord hleased op callerId callerToken hargs
    have hholder : s.HoldsLease jobId callerId callerToken ↔ _ :=
      Store.holdsLease_iff_of_packMeta hrecord hleased
    constructor
    · rw [Store.isOk_reply_iff_holdsLease hargs, hholder]
    · intro hother
      exact Store.exec_of_not_holdsLease hargs (mt hholder.mp hother)

/-- The holder of a lease under a worker id with a colon acks it, and another worker whose
id and token run together to the same bytes does not. -/
theorem lease_record_codec_sample :
    let s := empty.run
      [.enqueue ⟨"job", none, .always, true⟩ (.ofSeconds 1),
        .reserve { sampleConfig with workerId := "1:a" } 1 (.ofSeconds 2) ["token"]]
    (s.reply (.ack "1:a" "job" "token" (.ofSeconds 3))).isOk ∧
      s.exec (.ack "1:" "job" "atoken" (.ofSeconds 3)) = (s, Reply.leaseMismatch) := by
  intro s
  have hcodec := (lease_record_codec (.ofString "1:a") (.ofString "token")).2.2.2 s "job"
    (by decide) (by decide)
  exact ⟨(hcodec _ _ _ rfl).1.mpr ⟨rfl, rfl⟩, (hcodec _ _ _ rfl).2 (by decide)⟩

/-! ## Reading any record -/

/-- A record is read as a worker id and a token under the length that stands before its
first colon, or it is reported as invalid data. -/
def RecoversOrRejects (record : Bytes) : Prop :=
  (∃ workerId leaseToken, parseLeaseMeta record = some (.ok (workerId, leaseToken)) ∧
    ∃ length, record = length ++ colon :: (workerId ++ leaseToken) ∧ colon ∉ length ∧
      parseUnsigned u64Max length = some workerId.length) ∨
    ∃ field, parseLeaseMeta record = some (.error (.invalidData field))

/-- The length before the first colon of a record ends inside a character of the rest. -/
def SplitsCharacter (record : Bytes) : Prop :=
  ∃ length rest size byte, record = length ++ colon :: rest ∧ colon ∉ length ∧
    parseUnsigned u64Max length = some size ∧ size ≠ 0 ∧ rest[size]? = some byte ∧
      ¬ StartsCharacter byte

/-- A slice panics inside a character or behind the end. -/
theorem splitAtByte_eq_none_iff {text : Bytes} {offset : ℕ} (hle : offset ≤ text.length) :
    splitAtByte text offset = none ↔
      offset ≠ 0 ∧ ∃ byte, text[offset]? = some byte ∧ ¬ StartsCharacter byte := by
  unfold splitAtByte
  cases hbyte : text[offset]? with
  | none => simp [hle]
  | some byte => simp [hle, not_or]

theorem splitAtByte_eq_some {text first rest : Bytes} {offset : ℕ} (hle : offset ≤ text.length)
    (hsplit : splitAtByte text offset = some (first, rest)) :
    text = first ++ rest ∧ first.length = offset := by
  unfold splitAtByte at hsplit
  split_ifs at hsplit
  cases hsplit
  exact ⟨(List.take_append_drop offset text).symm, List.length_take_of_le hle⟩

/-- A record without a number before its first colon is rejected. -/
theorem parseLeaseMeta_of_no_size {length : Bytes} (hlength : colon ∉ length)
    (hsize : parseUnsigned u64Max length = none) (rest : Bytes) :
    parseLeaseMeta (length ++ colon :: rest) =
      some (.error (.invalidData "lease_meta.length")) := by
  rw [parseLeaseMeta, takeWhile_append_mark hlength, dropWhile_append_mark hlength]
  dsimp only
  rw [hsize]

/-- A record with a number before its first colon is split at this number of bytes. -/
theorem parseLeaseMeta_of_size {length : Bytes} (hlength : colon ∉ length) {size : ℕ}
    (hsize : parseUnsigned u64Max length = some size) (rest : Bytes) :
    parseLeaseMeta (length ++ colon :: rest) =
      if rest.length < size then some (.error (.invalidData "lease_meta.worker_id"))
      else (splitAtByte rest size).map Except.ok := by
  rw [parseLeaseMeta, takeWhile_append_mark hlength, dropWhile_append_mark hlength]
  dsimp only
  rw [hsize]

/-- A record without a colon is rejected. -/
theorem parseLeaseMeta_of_no_colon {record : Bytes} (hcolon : colon ∉ record) :
    parseLeaseMeta record = some (.error (.invalidData "lease_meta.delimiter")) := by
  have hnone : record.dropWhile (· ≠ colon) = [] := by
    rw [List.dropWhile_eq_nil_iff]
    intro byte hmem
    simpa using ne_of_mem_of_not_mem hmem hcolon
  rw [parseLeaseMeta, hnone]

/-- Whether a record with a colon counts into a character depends on the first colon. -/
theorem splitsCharacter_append_iff {length rest : Bytes} (hlength : colon ∉ length) :
    SplitsCharacter (length ++ colon :: rest) ↔
      ∃ size, parseUnsigned u64Max length = some size ∧ size ≤ rest.length ∧
        splitAtByte rest size = none := by
  constructor
  · rintro ⟨other, otherRest, size, byte, heq, hother, hsize, hpos, hbyte, hinside⟩
    obtain ⟨rfl, rfl⟩ := (append_cons_inj_of_first hlength hother).mp heq
    have hle : size ≤ rest.length := (List.getElem?_eq_some_iff.mp hbyte).1.le
    exact ⟨size, hsize, hle, (splitAtByte_eq_none_iff hle).mpr ⟨hpos, byte, hbyte, hinside⟩⟩
  · rintro ⟨size, hsize, hle, hsplit⟩
    obtain ⟨hpos, byte, hbyte, hinside⟩ := (splitAtByte_eq_none_iff hle).mp hsplit
    exact ⟨length, rest, size, byte, rfl, hlength, hsize, hpos, hbyte, hinside⟩

/-- A record that panics is neither read nor rejected. -/
theorem not_recoversOrRejects_of_none {record : Bytes} (hpanics : parseLeaseMeta record = none) :
    ¬ RecoversOrRejects record := by
  rintro (⟨_, _, hok, _⟩ | ⟨_, herr⟩)
  · cases hpanics.symm.trans hok
  · cases hpanics.symm.trans herr

/-- A record is read or rejected exactly when its length does not end inside a character. -/
theorem recoversOrRejects_iff (record : Bytes) :
    RecoversOrRejects record ↔ ¬ SplitsCharacter record := by
  by_cases hcolon : colon ∈ record
  · obtain ⟨length, rest, rfl, hlength⟩ := List.eq_append_cons_of_mem hcolon
    rw [splitsCharacter_append_iff hlength]
    cases hsize : parseUnsigned u64Max length with
    | none =>
        apply iff_of_true
        · exact Or.inr ⟨_, parseLeaseMeta_of_no_size hlength hsize rest⟩
        · rintro ⟨size, ⟨⟩, _⟩
    | some size =>
        have hparse := parseLeaseMeta_of_size hlength hsize rest
        simp only [Option.some.injEq, exists_eq_left']
        by_cases hshort : rest.length < size
        · rw [if_pos hshort] at hparse
          exact iff_of_true (Or.inr ⟨_, hparse⟩) fun hsplits => hshort.not_ge hsplits.1
        · rw [if_neg hshort] at hparse
          rw [not_lt] at hshort
          cases hsplit : splitAtByte rest size with
          | none =>
              rw [hsplit, Option.map_none] at hparse
              exact iff_of_false (not_recoversOrRejects_of_none hparse)
                fun hwhole => hwhole ⟨hshort, rfl⟩
          | some parts =>
              obtain ⟨workerId, leaseToken⟩ := parts
              rw [hsplit, Option.map_some] at hparse
              obtain ⟨rfl, rfl⟩ := splitAtByte_eq_some hshort hsplit
              apply iff_of_true
              · exact Or.inl ⟨_, _, hparse, length, rfl, hlength, hsize⟩
              · rintro ⟨_, ⟨⟩⟩
  · apply iff_of_true
    · exact Or.inr ⟨_, parseLeaseMeta_of_no_colon hcolon⟩
    · rintro ⟨length, rest, _, _, rfl, _⟩
      exact hcolon (by simp)

/-- Reading a record panics exactly when its length ends inside a character. -/
theorem parseLeaseMeta_eq_none_iff (record : Bytes) :
    parseLeaseMeta record = none ↔ SplitsCharacter record := by
  constructor
  · intro hpanics
    by_contra hwhole
    exact not_recoversOrRejects_of_none hpanics ((recoversOrRejects_iff record).mpr hwhole)
  · rintro ⟨length, rest, size, byte, rfl, hlength, hsize, hpos, hbyte, hinside⟩
    have hle : size ≤ rest.length := (List.getElem?_eq_some_iff.mp hbyte).1.le
    have hsplit := (splitAtByte_eq_none_iff hle).mpr ⟨hpos, byte, hbyte, hinside⟩
    rw [parseLeaseMeta_of_size hlength hsize, if_neg hle.not_gt, hsplit, Option.map_none]

/-- A load panics exactly when it takes the job for leased and the length of the lease
record that it finds ends inside a character. -/
theorem getJobDuring_panics_iff (s : Store) (between : BetweenReads) (jobId : Bytes) :
    s.getJobDuring between jobId = none ↔
      s.ReadsCount between jobId ∧ s.ReadsLease between jobId ∧
        ∃ record, (s.atLeaseMeta between).leaseMeta.lookup jobId = some record ∧
          SplitsCharacter record := by
  rcases getJobDuring_eq s between jobId with ⟨hcount, hload⟩ | ⟨hcount, count, hload⟩
  · rw [hload]
    exact iff_of_false (by simp) fun hreads => hcount hreads.1
  · rw [hload, and_iff_right hcount]
    unfold JobLookup.record ReadsLease scoreText
    cases hready : s.ready.score jobId with
    | some score => simp
    | none =>
        cases hleased : (s.atLeased between).leased.score jobId with
        | some score =>
            cases hmeta : (s.atLeaseMeta between).leaseMeta.lookup jobId with
            | none => simp
            | some record => simp [← parseLeaseMeta_eq_none_iff]
        | none =>
            cases (s.atFailed between).failed.score jobId <;>
              cases (s.atScheduled between).scheduled.score jobId <;> simp

/-- The slices around a colon of a text do not panic, and reading the text as a lease
record gives the worker id and the token or an error, exactly when the length before its
first colon does not end inside a character. -/
theorem parseLeaseMeta_rejects_iff (record : Text) :
    (∀ first rest, record.bytes = first ++ colon :: rest →
      (splitAtByte record.bytes first.length).isSome ∧
        (splitAtByte record.bytes (first.length + 1)).isSome) ∧
      (RecoversOrRejects record.bytes ↔ ¬ SplitsCharacter record.bytes) := by
  refine ⟨fun first rest heq => ?_, recoversOrRejects_iff record.bytes⟩
  have hrest : IsUtf8 rest := (IsUtf8.split (by decide) (heq ▸ record.isUtf8)).2
  constructor
  · have hcolon : (colon :: rest).head?.all (StartsCharacter ·) := rfl
    rw [heq, splitAtByte_append hcolon]
    rfl
  · have hmark : splitAtByte (first ++ [colon] ++ rest) (first ++ [colon]).length =
        some (first ++ [colon], rest) := splitAtByte_append hrest.head?
    rw [List.length_append, List.length_singleton, List.append_assoc] at hmark
    rw [heq, show first ++ colon :: rest = first ++ ([colon] ++ rest) from rfl, hmark]
    rfl

/-- A record whose length of one byte ends inside an accented letter is neither read nor
reported. -/
theorem split_character_panics :
    (Text.ofString "1:é").bytes = utf8 "1:é" ∧ parseLeaseMeta (utf8 "1:é") = none ∧
      ¬ RecoversOrRejects (Text.ofString "1:é").bytes := by
  have hpanics : parseLeaseMeta (utf8 "1:é") = none := by decide
  exact ⟨rfl, hpanics, not_recoversOrRejects_of_none hpanics⟩

end Redloop
