/-
# Reading replies

What the store client makes of a script's reply: success, one of the errors the
script can report, or an error for a reply that does not have the expected form.
-/

import Redloop.Store.Exec

namespace Redloop

/-! ## Numbers and times -/

/-- The largest unsigned 32-bit integer. -/
def u32Max : ℕ := 2 ^ 32 - 1

/-- The largest unsigned 64-bit integer. -/
def u64Max : ℕ := 2 ^ 64 - 1

/-- Read an unsigned integer of at most the given size, with an optional plus. -/
def parseUnsigned (max : ℕ) (value : Bytes) : Option ℕ :=
  (parseDecimal (if value.head? = some 43 then value.tail else value)).filter (· ≤ max)

/-- Read a signed 64-bit integer. -/
def parseI64 (field : String) (value : Bytes) : Except Error ℤ :=
  match parseDecimalInt value with
  | some number =>
      if i64Min ≤ number ∧ number ≤ i64Max then .ok number else .error (.invalidData field)
  | none => .error (.invalidData field)

/-- The timestamp of a number of microseconds since the epoch. -/
def fromMicros (value : ℤ) : Except Error Timestamp :=
  if hrange : minTimestampNanos ≤ value * 1000 ∧ value * 1000 ≤ maxTimestampNanos then
    .ok ⟨value * 1000, hrange⟩
  else .error (.invalidTimestamp value)

/-- Read a job state. -/
def parseState (value : Bytes) : Except Error JobState :=
  match JobState.fromStr value with
  | some state => .ok state
  | none => .error (.invalidData "job_state")

/-! ## Replies -/

/-- The error a script reports about a job. -/
def parseScriptError (jobId : Bytes) (response : Reply) : Error :=
  let kind := response[1]?
  if kind = some (utf8 "not_found") then .notFound jobId
  else if kind = some (utf8 "invalid_state") then
    .invalidState jobId ((response[2]?.bind JobState.fromStr).getD .failed)
  else if kind = some (utf8 "lease_mismatch") then .leaseMismatch jobId
  else if kind = some (utf8 "invalid_config") then .invalidConfig .retryPolicyMismatch
  else .invalidData "script.response"

/-- The result of a heartbeat, an ack or a completion with a reschedule. -/
def parseLeaseResponse (jobId : Bytes) (response : Reply) : Except Error Unit :=
  if response.isOk then .ok () else .error (parseScriptError jobId response)

/-- An unsigned integer at a position of a reply. -/
def parseCount (max : ℕ) (field : String) (value : Option Bytes) : Except Error ℕ :=
  match value.bind (parseUnsigned max) with
  | some count => .ok count
  | none => .error (.invalidData field)

theorem parseCount_of_parseUnsigned {max : ℕ} {value : Bytes} {count : ℕ}
    (hparse : parseUnsigned max value = some count) (field : String) :
    parseCount max field (some value) = .ok count := by
  rw [parseCount, Option.bind_some, hparse]

/-- The result of a failure request: the failure count. The reported state and
schedule are read and dropped. -/
def parseFailureResponse (jobId : Bytes) (response : Reply) : Except Error ℕ :=
  if ¬ response.isOk then .error (parseScriptError jobId response)
  else do
    let failureCount ← parseCount u32Max "fail_or_retry.failure_count" response[1]?
    match response[2]? with
    | none => throw (.invalidData "fail_or_retry.state")
    | some value => discard (parseState value)
    match response[3]? with
    | none => pure failureCount
    | some value =>
        if value = utf8 "0" then pure failureCount
        else
          let micros ← parseI64 "fail_or_retry.schedule_at" value
          let _ ← fromMicros micros
          pure failureCount

/-- The result of reaping: how many leases were taken back. -/
def parseReapResponse (namespaceName : Bytes) (response : Reply) : Except Error ℕ :=
  if ¬ response.isOk then .error (parseScriptError namespaceName response)
  else parseCount u64Max "reap_expired.count" response[1]?

/-- The jobs of a reserve reply, three texts for each. -/
def parseReservedJobs : List Bytes → Except Error (List ReservedJob)
  | [] => .ok []
  | jobId :: leaseToken :: leasedUntil :: rest => do
      let _ ← parseI64 "leased_until" leasedUntil
      let jobs ← parseReservedJobs rest
      pure (⟨jobId, leaseToken⟩ :: jobs)
  | _ => .error (.invalidData "reserve.response")

/-- The next activation a reserve reply announces. -/
def parseNextSchedule (value : Option Bytes) : Except Error (Option Timestamp) :=
  match value with
  | none => pure none
  | some value =>
      if value = utf8 "0" then pure none
      else do
        let micros ← parseI64 "next_schedule_at" value
        let timestamp ← fromMicros micros
        pure (some timestamp)

/-- The result of a reserve. A refusal names the worker. -/
def parseReserveResponse (workerId : Bytes) (response : Reply) : Except Error ReserveBatch :=
  if ¬ response.isOk then .error (parseScriptError workerId response)
  else do
    let nextScheduleAt ← parseNextSchedule response[1]?
    let jobs ← parseReservedJobs (response.drop 2)
    pure ⟨jobs, nextScheduleAt⟩

/-- Read a text of a reply that has to be there. -/
def parseRequired {α : Type} (field : String) (parse : Bytes → Except Error α)
    (value : Option Bytes) : Except Error α :=
  match value with
  | none => .error (.invalidData field)
  | some value => parse value

/-- Read an enqueue status. -/
def parseEnqueueStatus (value : Bytes) : Except Error EnqueueStatus :=
  match EnqueueStatus.fromStr value with
  | some status => .ok status
  | none => .error (.invalidData "enqueue.status")

/-- The result of an enqueue. -/
def parseEnqueueResponse (jobId : Bytes) (response : Reply) : Except Error EnqueueResult :=
  if ¬ response.isOk then .error (parseScriptError jobId response)
  else do
    let status ← parseRequired "enqueue.status" parseEnqueueStatus response[1]?
    let state ← parseRequired "enqueue.state" parseState response[2]?
    pure ⟨jobId, state, status⟩

/-- A time of a reply, where a missing text and a zero stand for none. -/
def parseOptionalTime (field : String) (value : Option Bytes) :
    Except Error (Option Timestamp) :=
  match value with
  | none => pure none
  | some value =>
      if value = utf8 "0" then pure none
      else do
        let micros ← parseI64 field value
        let timestamp ← fromMicros micros
        pure (some timestamp)

/-- The result of a reschedule. -/
def parseRescheduleResponse (jobId : Bytes) (response : Reply) :
    Except Error RescheduleResult :=
  if ¬ response.isOk then .error (parseScriptError jobId response)
  else do
    let state ← parseRequired "reschedule.state" parseState response[2]?
    let scheduleAt ← parseOptionalTime "reschedule.schedule_at" response[3]?
    pure ⟨jobId, state, scheduleAt⟩

/-! ## Records and scores -/

/-- What the client reads of a registration record. -/
structure StoredWorkerConfig where
  concurrency : ℕ
  leaseDurationMs : ℕ
  deriving DecidableEq

/-- Read a registration record. Its fields are separated by colons. -/
def parseWorkerConfigRecord (record : Bytes) : Except Error StoredWorkerConfig := do
  let concurrency ← parseCount u64Max "workers:config.concurrency"
    (some (record.takeWhile (· ≠ colon)))
  let leaseDurationMs ← parseCount u64Max "workers:config.lease_duration_ms"
    (match record.dropWhile (· ≠ colon) with
      | [] => none
      | _ :: rest => some (rest.takeWhile (· ≠ colon)))
  pure ⟨concurrency, leaseDurationMs⟩

/-- The error the Redis client raises for a reply that is not of the asked type. -/
def decodeError (operation : String) : Error := .redis operation ⟨false, false, false⟩

/-- Read the score of a sorted-set entry as a signed 64-bit integer. -/
def decodeScore (operation : String) (score : ℤ) : Except Error ℤ :=
  match parseDecimalInt (generalText 17 score) with
  | some number =>
      if i64Min ≤ number ∧ number ≤ i64Max then .ok number else .error (decodeError operation)
  | none => .error (decodeError operation)

/-- Read a counter field as an unsigned integer of at most the given size. -/
def decodeCount (max : ℕ) (operation : String) (count : Option ℤ) : Except Error (Option ℕ) :=
  match count with
  | none => .ok none
  | some count =>
      match parseUnsigned max (decimalInt count) with
      | some count => .ok (some count)
      | none => .error (decodeError operation)

/-- Read several counter fields of a hash. -/
def hmget (max : ℕ) (operation : String) (hash : Hash ℤ) :
    List Bytes → Except Error (List (Option ℕ))
  | [] => .ok []
  | field :: rest => do
      let count ← decodeCount max operation (hash.lookup field)
      let others ← hmget max operation hash rest
      pure (count :: others)

/-- A score of at most 17 digits is a signed 64-bit integer. -/
theorem mem_i64_of_natAbs_lt {score : ℤ} (hfits : score.natAbs < 10 ^ 17) :
    i64Min ≤ score ∧ score ≤ i64Max := by
  unfold i64Min i64Max
  omega

/-- The text of a score is a numeral when the score has at most 17 digits. -/
theorem parseDecimalInt_scoreText (score : ℤ) :
    parseDecimalInt (generalText 17 score) =
      if score.natAbs < 10 ^ 17 then some score else none := by
  rw [parseDecimalInt_generalText]
  simp only [excessDigits_eq_zero_iff (show 0 < 17 by decide)]

/-- Scores of at most 17 digits are read exactly, and no others. -/
theorem decodeScore_eq (operation : String) (score : ℤ) :
    decodeScore operation score =
      if score.natAbs < 10 ^ 17 then .ok score else .error (decodeError operation) := by
  unfold decodeScore
  rw [parseDecimalInt_scoreText]
  split_ifs with hfits
  · exact if_pos (mem_i64_of_natAbs_lt hfits)
  · rfl

theorem parseI64_scoreText (field : String) (score : ℤ) :
    parseI64 field (generalText 17 score) =
      if score.natAbs < 10 ^ 17 then .ok score else .error (.invalidData field) := by
  unfold parseI64
  rw [parseDecimalInt_scoreText]
  split_ifs with hfits
  · exact if_pos (mem_i64_of_natAbs_lt hfits)
  · rfl

/-- A numeral is read as an unsigned integer when it is in range. -/
theorem parseUnsigned_decimalInt (max : ℕ) (value : ℤ) :
    parseUnsigned max (decimalInt value) =
      if 0 ≤ value ∧ value ≤ max then some value.toNat else none := by
  by_cases hnegative : value < 0
  · rw [decimalInt, if_pos hnegative, parseUnsigned, if_neg (by simp),
      parseDecimal_eq_none_of_mem List.mem_cons_self (Or.inl (by decide)),
      Option.filter_none, if_neg (by omega)]
  · have hsign : (decimal value.natAbs).head? ≠ some 43 := by
      intro hhead
      have hrange := mem_decimal (List.mem_of_head? hhead)
      simp at hrange
    rw [decimalInt, if_neg hnegative, parseUnsigned, if_neg hsign, parseDecimal_decimal,
      Option.filter_some]
    by_cases hle : value.natAbs ≤ max
    · rw [if_pos (by simpa using hle), if_pos (by omega)]
      exact congrArg some (by omega)
    · rw [if_neg (by simpa using hle), if_neg (by omega)]

theorem parseUnsigned_decimal (max n : ℕ) :
    parseUnsigned max (decimal n) = if n ≤ max then some n else none := by
  have htext : decimal n = decimalInt n := by simp [decimalInt]
  rw [htext, parseUnsigned_decimalInt]
  simp

/-- A counter field that is absent or in range is read, and no other. -/
theorem decodeCount_eq_ok_iff {max : ℕ} {operation : String} {count : Option ℤ}
    {decoded : Option ℕ} :
    decodeCount max operation count = .ok decoded ↔
      decoded = count.map Int.toNat ∧
        ∀ value, count = some value → 0 ≤ value ∧ value ≤ max := by
  cases count with
  | none => simp [decodeCount, eq_comm]
  | some value =>
      simp only [decodeCount, parseUnsigned_decimalInt, Option.map_some, Option.some.injEq,
        forall_eq']
      split_ifs with hrange
      · simp [hrange, eq_comm]
      · simp [hrange]

/-- Several counter fields are read when each of them is. -/
theorem hmget_eq_ok_iff {max : ℕ} {operation : String} {hash : Hash ℤ} {fields : List Bytes}
    {counts : List (Option ℕ)} :
    hmget max operation hash fields = .ok counts ↔
      counts = fields.map (fun field => (hash.lookup field).map Int.toNat) ∧
        ∀ field ∈ fields, ∀ value, hash.lookup field = some value →
          0 ≤ value ∧ value ≤ max := by
  induction fields generalizing counts with
  | nil => simp [hmget, eq_comm]
  | cons field rest ih =>
      simp only [hmget, bind_eq_ok_iff, decodeCount_eq_ok_iff, ih, List.forall_mem_cons]
      constructor
      · rintro ⟨_, ⟨rfl, hfirst⟩, _, ⟨rfl, hrest⟩, hcounts⟩
        cases hcounts
        exact ⟨rfl, hfirst, hrest⟩
      · rintro ⟨rfl, hfirst, hrest⟩
        exact ⟨_, ⟨rfl, hfirst⟩, _, ⟨rfl, hrest⟩, rfl⟩

/-- A number that is printed in exponent form is not read as an unsigned integer. -/
theorem parseUnsigned_generalText (max precision : ℕ) (value : ℤ) :
    parseUnsigned max (generalText precision value) =
      if excessDigits precision value.natAbs = 0 then parseUnsigned max (decimalInt value)
      else none := by
  split_ifs with hfits
  · rw [generalText_of_excessDigits_eq_zero hfits]
  · have hmem := mem_generalText_of_excessDigits_ne_zero hfits
    have hdigits : 101 ∈ if (generalText precision value).head? = some 43
        then (generalText precision value).tail else generalText precision value := by
      split_ifs with hplus
      · obtain ⟨rest, hrest⟩ := List.head?_eq_some_iff.mp hplus
        rw [hrest] at hmem ⊢
        simpa using hmem
      · exact hmem
    rw [parseUnsigned, parseDecimal_eq_none_of_mem hdigits (Or.inr (by decide)),
      Option.filter_none]

/-- A number that is printed in full is read when it is a signed 64-bit integer. -/
theorem parseI64_fixedText (field : String) (value : ℤ) :
    parseI64 field (fixedText value) =
      if i64Min ≤ value ∧ value ≤ i64Max then .ok value else .error (.invalidData field) := by
  rw [parseI64, fixedText, parseDecimalInt_decimalInt]

/-- Only zero is printed in full as zero. -/
theorem eq_zero_of_fixedText {value : ℤ} (htext : fixedText value = utf8 "0") : value = 0 := by
  have hread := parseDecimalInt_decimalInt value
  rw [show decimalInt value = utf8 "0" from htext,
    show parseDecimalInt (utf8 "0") = some 0 by decide, Option.some.injEq] at hread
  exact hread.symm

/-- Only the score zero is printed as zero. -/
theorem eq_zero_of_scoreText {score : ℤ} (htext : generalText 17 score = utf8 "0") :
    score = 0 := by
  have hread := parseDecimalInt_scoreText score
  rw [htext, show parseDecimalInt (utf8 "0") = some 0 by decide] at hread
  split_ifs at hread
  exact (Option.some.inj hread).symm

/-- A time that is printed in full and in range is read, and zero as none. -/
theorem parseOptionalTime_fixedText (field : String) {value : ℤ}
    (hrange : minTimestampNanos ≤ value * 1000 ∧ value * 1000 ≤ maxTimestampNanos) :
    parseOptionalTime field (some (fixedText value)) =
      .ok (if value = 0 then none else some ⟨value * 1000, hrange⟩) := by
  have hi64 : i64Min ≤ value ∧ value ≤ i64Max := by
    unfold minTimestampNanos maxTimestampNanos at hrange
    unfold i64Min i64Max
    omega
  unfold parseOptionalTime
  dsimp only
  by_cases hzero : value = 0
  · rw [if_pos hzero, if_pos (by rw [hzero]; decide)]
    rfl
  · rw [if_neg hzero, if_neg (mt eq_zero_of_fixedText hzero), parseI64_fixedText, if_pos hi64]
    exact bind_eq_ok_iff.mpr ⟨_, rfl, bind_eq_ok_iff.mpr ⟨_, dif_pos hrange, rfl⟩⟩

/-! ## What the results say about the replies -/

/-- A batch lists the leases of its texts. -/
theorem leasesOfTexts_of_parseReservedJobs {texts : List Bytes} {jobs : List ReservedJob}
    (hparse : parseReservedJobs texts = .ok jobs) :
    leasesOfTexts texts = jobs.map fun job => (job.jobId, job.leaseToken) := by
  induction texts using parseReservedJobs.induct generalizing jobs with
  | case1 =>
      cases hparse
      rfl
  | case2 jobId leaseToken leasedUntil rest ih =>
      rw [parseReservedJobs, bind_eq_ok_iff] at hparse
      obtain ⟨_, _, hparse⟩ := hparse
      obtain ⟨others, hrest, hjobs⟩ := bind_eq_ok_iff.mp hparse
      cases hjobs
      rw [leasesOfTexts, ih hrest, List.map_cons]
  | case3 texts hnil htriple => simp [parseReservedJobs] at hparse

/-- A decoded batch lists the leases of the reply. -/
theorem leases_of_parseReserveResponse {workerId : Bytes} {response : Reply}
    {batch : ReserveBatch} (hparse : parseReserveResponse workerId response = .ok batch) :
    response.leases = batch.jobs.map fun job => (job.jobId, job.leaseToken) := by
  unfold parseReserveResponse at hparse
  split_ifs at hparse
  obtain ⟨_, _, hparse⟩ := bind_eq_ok_iff.mp hparse
  obtain ⟨jobs, hjobs, hbatch⟩ := bind_eq_ok_iff.mp hparse
  cases hbatch
  exact leasesOfTexts_of_parseReservedJobs hjobs

end Redloop
