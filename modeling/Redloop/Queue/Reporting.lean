/-
# Reporting what has been done

A script changes the store first and reports numbers afterwards: the deadline of the
leases it granted, the activation it announces, a failure count and the time of a
retry. The client reads them as integers and timestamps of limited range, and an
answer it cannot read is an error although the store has changed. The deadline and the
retry time are sums that nothing bounds, so they can leave the range.
-/

import Redloop.Queue.Grants

namespace Redloop

/-! ## Sums of doubles -/

/-- A sum of doubles from this number on is rounded to at least `2 ^ 63`. -/
def deadlineBound : ℤ := 2 ^ 63 - 512

/-- A sum of doubles from this number on, in microseconds, is rounded to a time after the
last timestamp. -/
def retryTimeBound : ℤ := 8210266876800000000 - 512

/-- The double of a timestamp is not before the first timestamp. -/
theorem le_ofInt_micros (now : Timestamp) : -8334601228800000000 ≤ Double.ofInt (micros now) := by
  have hmin : -8334601228800000000 ≤ micros now := by
    have hrange := now.property.1
    unfold minTimestampNanos at hrange
    unfold micros
    omega
  calc (-8334601228800000000 : ℤ) = Double.ofInt (-8334601228800000000) := by decide
    _ ≤ Double.ofInt (micros now) := Double.ofInt_mono hmin

/-- The double of a natural number is not negative. -/
theorem ofInt_nonneg {value : ℤ} (hvalue : 0 ≤ value) : 0 ≤ Double.ofInt value :=
  Double.ofInt_mono hvalue

/-- A sum that is not before the first timestamp is rounded to such a number. -/
theorem le_add {first second : ℤ} (hsum : -8334601228800000000 ≤ first + second) :
    -8334601228800000000 ≤ Double.add first second := by
  calc (-8334601228800000000 : ℤ) = Double.ofInt (-8334601228800000000) := by decide
    _ ≤ Double.add first second := Double.ofInt_mono hsum

/-- When a sum of doubles is a signed 64-bit integer. -/
theorem add_mem_i64_iff {first second : ℤ} (hsum : -8334601228800000000 ≤ first + second) :
    i64Min ≤ Double.add first second ∧ Double.add first second ≤ i64Max ↔
      first + second < deadlineBound := by
  have hle := le_add hsum
  have hlt : Double.add first second < 2 ^ 63 ↔ first + second < deadlineBound :=
    Double.ofInt_lt_iff (by decide) (by decide)
  rw [← hlt]
  unfold i64Min i64Max
  omega

/-- When a sum of doubles is a timestamp in microseconds. -/
theorem add_mem_timestamp_iff {first second : ℤ} (hsum : -8334601228800000000 ≤ first + second) :
    minTimestampNanos ≤ Double.add first second * 1000 ∧
        Double.add first second * 1000 ≤ maxTimestampNanos ↔
      first + second < retryTimeBound := by
  have hle := le_add hsum
  have hlt : Double.add first second < 8210266876800000000 ↔ first + second < retryTimeBound :=
    Double.ofInt_lt_iff (by decide) (by decide)
  rw [← hlt]
  unfold minTimestampNanos maxTimestampNanos
  omega

/-! ## Reading the numbers -/

/-- When a time that is printed in full can be read. The zero that stands for no time is
in range. -/
theorem fixedTime_readable_iff {field : String} {value : ℤ} :
    (fixedText value = utf8 "0" ∨
        ∃ timestamp, (parseI64 field (fixedText value) >>= fromMicros) = .ok timestamp) ↔
      minTimestampNanos ≤ value * 1000 ∧ value * 1000 ≤ maxTimestampNanos := by
  rw [parseI64_fixedText]
  by_cases hrange : minTimestampNanos ≤ value * 1000 ∧ value * 1000 ≤ maxTimestampNanos
  · have hi64 : i64Min ≤ value ∧ value ≤ i64Max := by
      unfold minTimestampNanos maxTimestampNanos at hrange
      unfold i64Min i64Max
      omega
    rw [if_pos hi64]
    exact iff_of_true (Or.inr ⟨_, dif_pos hrange⟩) hrange
  · refine iff_of_false ?_ hrange
    rintro (htext | ⟨timestamp, hread⟩)
    · rw [eq_zero_of_fixedText htext] at hrange
      exact hrange (by decide)
    · obtain ⟨micros, hmicros, htime⟩ := bind_eq_ok_iff.mp hread
      split_ifs at hmicros
      cases hmicros
      rw [fromMicros, dif_neg hrange] at htime
      cases htime

/-- When the activation that a reserve announces can be read. -/
theorem exists_parseNextSchedule_iff {score : ℤ} :
    (∃ next, parseNextSchedule (some (generalText 17 score)) = .ok next) ↔
      score.natAbs < 10 ^ 17 := by
  unfold parseNextSchedule
  dsimp only
  rw [parseI64_scoreText]
  split_ifs with hzero hfits
  · rw [eq_zero_of_scoreText hzero]
    exact iff_of_true ⟨_, rfl⟩ (by decide)
  · have hrange : minTimestampNanos ≤ score * 1000 ∧ score * 1000 ≤ maxTimestampNanos := by
      unfold minTimestampNanos maxTimestampNanos
      omega
    refine iff_of_true ⟨some ⟨score * 1000, hrange⟩, ?_⟩ hfits
    exact bind_eq_ok_iff.mpr ⟨score, rfl, bind_eq_ok_iff.mpr ⟨_, dif_pos hrange, rfl⟩⟩
  · refine iff_of_false ?_ hfits
    rintro ⟨next, hread⟩
    cases hread

/-- The announced activation is read unless its score is too long. -/
theorem exists_parseNextSchedule_announced_iff {announced : Option ℤ} :
    (∃ next, parseNextSchedule (some
      (match announced with
        | none => utf8 "0"
        | some score => generalText 17 score)) = .ok next) ↔
      ∀ score, announced = some score → score.natAbs < 10 ^ 17 := by
  cases announced with
  | none => exact iff_of_true ⟨none, rfl⟩ (by simp)
  | some score => simpa using exists_parseNextSchedule_iff

/-- The jobs of a reply can be read when their deadlines can. -/
theorem exists_parseReservedJobs_iff {granted : List GrantedLease} :
    (∃ jobs, parseReservedJobs (granted.flatMap fun lease =>
      [lease.jobId, lease.leaseToken, fixedText lease.deadline]) = .ok jobs) ↔
      ∀ lease ∈ granted, i64Min ≤ lease.deadline ∧ lease.deadline ≤ i64Max := by
  induction granted with
  | nil => simp [parseReservedJobs]
  | cons lease granted ih =>
      rw [List.forall_mem_cons, ← ih]
      simp only [List.flatMap_cons, List.cons_append, List.nil_append, parseReservedJobs,
        bind_eq_ok_iff, parseI64_fixedText]
      constructor
      · rintro ⟨_, _, hdeadline, jobs, hjobs, _⟩
        split_ifs at hdeadline with hrange
        exact ⟨hrange, jobs, hjobs⟩
      · rintro ⟨hrange, jobs, hjobs⟩
        exact ⟨_, _, if_pos hrange, jobs, hjobs, rfl⟩

/-- When a failure count can be read. -/
theorem exists_parseCount_iff (field : String) {count : ℤ} :
    (∃ failures, parseCount u32Max field (some (generalText 14 (Double.ofInt count))) =
      .ok failures) ↔ 0 ≤ count ∧ count ≤ u32Max := by
  have hsign : Double.ofInt count < 0 ↔ count < 0 :=
    Double.ofInt_lt_iff (by decide) (by decide)
  have hmax : Double.ofInt count ≤ u32Max ↔ count ≤ u32Max :=
    Double.ofInt_le_natCast_iff (by decide)
  unfold parseCount
  rw [Option.bind_some, parseUnsigned_generalText, parseUnsigned_decimalInt]
  by_cases hrange : 0 ≤ count ∧ count ≤ u32Max
  · have hround : 0 ≤ Double.ofInt count ∧ Double.ofInt count ≤ u32Max := by omega
    have hfits : excessDigits 14 (Double.ofInt count).natAbs = 0 := by
      rw [excessDigits_eq_zero_iff (by decide)]
      unfold u32Max at hround
      omega
    rw [if_pos hfits, if_pos hround]
    exact iff_of_true ⟨_, rfl⟩ hrange
  · rw [if_neg (show ¬ (0 ≤ Double.ofInt count ∧ Double.ofInt count ≤ u32Max) by omega), ite_self]
    simp [hrange]

/-- When the reply to a failure request can be read. -/
theorem exists_parseFailureResponse_iff (jobId : Bytes) (count : ℤ) (state : JobState)
    (schedule : Bytes) :
    (∃ failures, parseFailureResponse jobId
        ["ok", generalText 14 (Double.ofInt count), state.asStr, schedule] = .ok failures) ↔
      (0 ≤ count ∧ count ≤ u32Max) ∧
        (schedule = utf8 "0" ∨ ∃ timestamp,
          (parseI64 "fail_or_retry.schedule_at" schedule >>= fromMicros) = .ok timestamp) := by
  have hstate : ∃ found, parseState state.asStr = .ok found := by
    cases state <;> exact ⟨_, rfl⟩
  obtain ⟨found, hstate⟩ := hstate
  rw [← exists_parseCount_iff "fail_or_retry.failure_count"]
  unfold parseFailureResponse
  rw [if_neg (by simp)]
  simp only [List.getElem?_cons_succ, List.getElem?_cons_zero]
  cases parseCount u32Max "fail_or_retry.failure_count"
      (some (generalText 14 (Double.ofInt count))) with
  | error error => simp [bind, Except.bind]
  | ok failures =>
      simp only [hstate, Except.ok.injEq, exists_eq', true_and]
      by_cases hzero : schedule = utf8 "0"
      · simp only [hzero, if_true]
        exact iff_of_true ⟨failures, rfl⟩ (Or.inl trivial)
      · simp only [hzero, if_false, false_or, bind_eq_ok_iff]
        constructor
        · rintro ⟨_, _, _, _, _, micros, hmicros, timestamp, htimestamp, _⟩
          exact ⟨timestamp, micros, hmicros, htimestamp⟩
        · rintro ⟨timestamp, micros, hmicros, htimestamp⟩
          exact ⟨failures, failures, rfl, (), rfl, micros, hmicros, timestamp, htimestamp, rfl⟩

/-- A retry delay is not negative. -/
theorem PolicyArgs.delayMs_nonneg (args : PolicyArgs) (failureCount : ℤ) :
    0 ≤ args.delayMs failureCount := by
  have hrounds (rounds : ℕ) : 0 ≤ args.delayRounds rounds := by
    induction rounds with
    | zero => exact ofInt_nonneg (Int.natCast_nonneg _)
    | succ rounds ih =>
        have hfactor := ofInt_nonneg (Int.natCast_nonneg args.backoffB)
        exact le_min (ofInt_nonneg (Int.mul_nonneg ih hfactor))
          (ofInt_nonneg (Int.natCast_nonneg _))
  unfold delayMs
  split
  · exact le_rfl
  · exact ofInt_nonneg (Int.natCast_nonneg _)
  · exact hrounds _

namespace Store

variable {s : Store} {jobs : Bytes → Job}

/-! ## Reserve -/

/-- A reserve that leased jobs is reported as a success. -/
def ReportsReserve (s : Store) (config : WorkerConfig) (availableCapacity : ℕ)
    (now : Timestamp) (leaseTokens : List Bytes) : Prop :=
  let reply := s.reply (.reserve config availableCapacity now leaseTokens)
  reply.isOk → reply.leases ≠ [] →
    ∃ batch, parseReserveResponse config.workerId reply = .ok batch

/-- A failure request that ended a lease is reported as a success. -/
def ReportsFailure (s : Store) (request : FailureRequest) : Prop :=
  let reply := s.reply (.failOrRetry request)
  reply.isOk → ∃ failures, parseFailureResponse request.jobId reply = .ok failures

/-- A reserve that leases something announces a deadline in range, and an activation that
fits into 17 digits. -/
structure ReserveInRange (s : Store) (args : ReserveArgs) : Prop where
  deadline : Double.ofInt args.now + Double.ofInt args.leaseDuration < deadlineBound
  announced : ∀ score, s.announced args = some score → score.natAbs < 10 ^ 17

/-- When the reply to a reserve that leased jobs can be read. -/
theorem exists_parseReserveResponse_iff {config : WorkerConfig} {availableCapacity : ℕ}
    {now : Timestamp} {leaseTokens : List Bytes} {args : ReserveArgs}
    (hargs : args = reserveArgs config availableCapacity now leaseTokens)
    (hgrants : s.grants args ≠ []) {workerId : Bytes} :
    (∃ batch, parseReserveResponse workerId (s.reserveReply args) = .ok batch) ↔
      s.ReserveInRange args := by
  have hsum : -8334601228800000000 ≤
      Double.ofInt args.now + Double.ofInt args.leaseDuration := by
    have hduration : 0 ≤ args.leaseDuration := hargs ▸ durationMicros_nonneg config.leaseDuration
    have hnonneg := ofInt_nonneg hduration
    have hle : -8334601228800000000 ≤ Double.ofInt args.now := hargs ▸ le_ofInt_micros now
    omega
  have hdeadlines : (∀ lease ∈ s.grants args,
      i64Min ≤ lease.deadline ∧ lease.deadline ≤ i64Max) ↔
        Double.ofInt args.now + Double.ofInt args.leaseDuration < deadlineBound := by
    rw [← add_mem_i64_iff hsum]
    constructor
    · intro hall
      obtain ⟨lease, hmem⟩ := List.exists_mem_of_ne_nil _ hgrants
      have hrange := hall lease hmem
      rw [deadline_of_mem_grants hmem] at hrange
      exact hrange
    · intro hrange lease hmem
      rw [deadline_of_mem_grants hmem]
      exact hrange
  have hfields : s.ReserveInRange args ↔
      Double.ofInt args.now + Double.ofInt args.leaseDuration < deadlineBound ∧
        ∀ score, s.announced args = some score → score.natAbs < 10 ^ 17 :=
    ⟨fun h => ⟨h.deadline, h.announced⟩, fun h => ⟨h.1, h.2⟩⟩
  rw [hfields, ← hdeadlines, ← exists_parseNextSchedule_announced_iff,
    ← exists_parseReservedJobs_iff]
  unfold parseReserveResponse reserveReply
  rw [if_neg (by simp)]
  simp only [bind_eq_ok_iff]
  constructor
  · rintro ⟨_, next, hnext, jobs, hjobs, _⟩
    exact ⟨⟨jobs, hjobs⟩, next, hnext⟩
  · rintro ⟨⟨jobs, hjobs⟩, next, hnext⟩
    exact ⟨_, next, hnext, jobs, hjobs, rfl⟩

/-- When a reserve is reported as it was applied. -/
theorem reportsReserve_iff (hrefines : Refines s jobs) {config : WorkerConfig}
    {availableCapacity : ℕ} {now : Timestamp} {leaseTokens : List Bytes} {args : ReserveArgs}
    (hargs : args = reserveArgs config availableCapacity now leaseTokens) :
    s.ReportsReserve config availableCapacity now leaseTokens ↔
      (availableCapacity ≠ 0 → ¬ s.registry.Refuses config.retryPolicyKey →
        s.eligible args.nowUs ≠ [] → leaseTokens ≠ [] → s.ReserveInRange args) := by
  have hpolicyKey : args.retryPolicyKey = config.retryPolicyKey := hargs ▸ rfl
  have htokens : args.leaseTokens = leaseTokens := hargs ▸ rfl
  unfold ReportsReserve
  by_cases hcapacity : availableCapacity = 0
  · simp [reply, exec, hcapacity, Reply.leases, leasesOfTexts]
  · have hargsCapacity : args.capacity ≠ 0 := hargs ▸ hcapacity
    have hreply : s.reply (.reserve config availableCapacity now leaseTokens) =
        (s.reserve args).2 := by
      rw [reply, exec, if_neg hcapacity, hargs]
    simp only [hreply, reply_reserve hrefines, hpolicyKey, hcapacity, ne_eq, not_false_eq_true,
      true_imp_iff]
    by_cases hrefuses : s.registry.Refuses config.retryPolicyKey
    · simp [hrefuses, Reply.policyMismatch]
    · have hleases : (s.reserveReply args).leases = [] ↔ s.grants args = [] := by
        rw [leases_reserveReply, List.map_eq_nil_iff]
      have hok : (s.reserveReply args).isOk := Reply.isOk_ok _
      simp only [hrefuses, if_false, hok, true_imp_iff, not_false_eq_true, hleases,
        grants_eq_nil_iff hargsCapacity, htokens, not_or, and_imp]
      refine forall_congr' fun heligible => forall_congr' fun htoken => ?_
      refine exists_parseReserveResponse_iff hargs ?_
      rw [Ne, grants_eq_nil_iff hargsCapacity, htokens, not_or]
      exact ⟨heligible, htoken⟩

/-! ## Failure -/

/-- A failure count that is an unsigned 32-bit integer, and a retry time that a timestamp
can hold. -/
structure FailureInRange (s : Store) (request : FailureRequest) (count : ℤ) : Prop where
  counted : 0 ≤ count ∧ count ≤ u32Max
  retried : request.action = .retryable →
    (failureArgs request.retryPolicy).shouldRetry count →
      (failureArgs request.retryPolicy).delayMs count ≠ 0 →
        Double.ofInt (micros request.now) +
          Double.mul ((failureArgs request.retryPolicy).delayMs count) 1000 < retryTimeBound

/-- The reply to a failure of the lease holder: the failure count with this failure, where
the job goes and when. -/
theorem reply_failOrRetry_of_holdsLease {request : FailureRequest} {count : ℤ}
    (hholds : s.HoldsLease request.jobId request.workerId request.leaseToken)
    (hcount : Hash.counter s.failures request.jobId + 1 = count) :
    s.reply (.failOrRetry request) = utf8 "ok" :: generalText 14 (Double.ofInt count) ::
      if request.action = .terminal ∨
          ¬ (failureArgs request.retryPolicy).shouldRetry (Double.ofInt count) then
        [JobState.failed.asStr, utf8 "0"]
      else if (failureArgs request.retryPolicy).delayMs (Double.ofInt count) = 0 then
        [JobState.ready.asStr, utf8 "0"]
      else
        [JobState.scheduled.asStr, fixedText (Double.add (Double.ofInt (micros request.now))
          (Double.mul ((failureArgs request.retryPolicy).delayMs (Double.ofInt count)) 1000))] := by
  have hcounter : Hash.counter (Hash.incrBy s.failures request.jobId 1) request.jobId = count := by
    rw [Hash.counter, Hash.lookup_incrBy, if_pos rfl, Option.getD_some, hcount]
  simp only [reply, exec, failOrRetry, hholds, not_true, if_false, dropLease, hcounter]
  split_ifs <;> rfl

/-- A retry is never scheduled before the range of times. -/
theorem le_retryTime (request : FailureRequest) (count : ℤ) :
    -8334601228800000000 ≤ Double.ofInt (micros request.now) +
      Double.mul ((failureArgs request.retryPolicy).delayMs count) 1000 := by
  have hdelay := (failureArgs request.retryPolicy).delayMs_nonneg count
  have hnonneg : 0 ≤ Double.mul ((failureArgs request.retryPolicy).delayMs count) 1000 :=
    ofInt_nonneg (by omega)
  have hle := le_ofInt_micros request.now
  omega

/-- When a failure request is reported as it was applied. -/
theorem reportsFailure_iff (request : FailureRequest) :
    s.ReportsFailure request ↔
      (s.HoldsLease request.jobId request.workerId request.leaseToken →
        s.FailureInRange request (Hash.counter s.failures request.jobId + 1)) := by
  unfold ReportsFailure
  by_cases hholds : s.HoldsLease request.jobId request.workerId request.leaseToken
  · simp only [hholds, true_imp_iff]
    generalize hcount : Hash.counter s.failures request.jobId + 1 = count
    have hround (hcounted : 0 ≤ count ∧ count ≤ u32Max) : Double.ofInt count = count :=
      Double.ofInt_of_natAbs_lt (by unfold u32Max at hcounted; omega)
    rw [reply_failOrRetry_of_holdsLease hholds hcount]
    simp only [Reply.isOk_ok, true_imp_iff]
    split_ifs with hfailed hready
    · rw [exists_parseFailureResponse_iff, and_iff_left (Or.inl rfl)]
      refine ⟨fun hcounted => ⟨hcounted, fun hretryable hretry _ => ?_⟩, fun h => h.counted⟩
      rw [hround hcounted, hretryable] at hfailed
      simp [hretry] at hfailed
    · rw [exists_parseFailureResponse_iff, and_iff_left (Or.inl rfl)]
      refine ⟨fun hcounted => ⟨hcounted, fun _ _ hdelay => ?_⟩, fun h => h.counted⟩
      rw [hround hcounted] at hready
      exact absurd hready hdelay
    · rw [exists_parseFailureResponse_iff, fixedTime_readable_iff,
        add_mem_timestamp_iff (le_retryTime request _)]
      constructor
      · rintro ⟨hcounted, hbound⟩
        rw [hround hcounted] at hbound
        exact ⟨hcounted, fun _ _ _ => hbound⟩
      · intro hrange
        obtain ⟨hnotTerminal, hretry⟩ := not_or.mp hfailed
        rw [hround hrange.counted] at hready hretry ⊢
        refine ⟨hrange.counted, hrange.retried ?_ (not_not.mp hretry) hready⟩
        cases haction : request.action with
        | retryable => rfl
        | terminal => exact absurd haction hnotTerminal
  · have hreply : s.reply (.failOrRetry request) = Reply.leaseMismatch := by
      simp only [reply, exec, failOrRetry, hholds, not_false_eq_true, if_true]
    simp [hreply, hholds]

/-- A reserve that leased jobs and a failure request that ended a lease are reported as
applied exactly when the numbers they print are in range. -/
theorem mutations_reported_iff (ops : List Op) :
    (∀ config availableCapacity now leaseTokens,
      (empty.run ops).ReportsReserve config availableCapacity now leaseTokens ↔
        (availableCapacity ≠ 0 → ¬ (empty.run ops).registry.Refuses config.retryPolicyKey →
          (empty.run ops).eligible (Double.ofInt (micros now)) ≠ [] → leaseTokens ≠ [] →
            (empty.run ops).ReserveInRange
              (reserveArgs config availableCapacity now leaseTokens))) ∧
      ∀ request, (empty.run ops).ReportsFailure request ↔
        ((empty.run ops).HoldsLease request.jobId request.workerId request.leaseToken →
          (empty.run ops).FailureInRange request
            (Hash.counter (empty.run ops).failures request.jobId + 1)) := by
  obtain ⟨jobs, hrefines⟩ := exists_refines_run ops
  constructor
  · intro config availableCapacity now leaseTokens
    have hargs := Eq.refl (reserveArgs config availableCapacity now leaseTokens)
    have hreserve := reportsReserve_iff hrefines hargs
    exact hreserve
  · exact reportsFailure_iff

/-- The sample configuration with the longest lease duration. -/
def longestLeaseConfig : WorkerConfig :=
  { sampleConfig with leaseDuration := ⟨maxDurationNanos, le_rfl⟩ }

/-- A worker whose leases last longer than the range of deadlines leases a job and is told
that the reply is invalid. -/
theorem longest_lease_not_reported :
    longestLeaseConfig.validate = .ok () ∧
      ¬ (empty.run [.enqueue ⟨"job", none, .always, true⟩ (.ofSeconds 1)]).ReportsReserve
        longestLeaseConfig 1 (.ofSeconds 2) ["token"] := by
  refine ⟨by decide, fun hreports => ?_⟩
  obtain ⟨batch, hbatch⟩ := hreports (by decide) (by decide)
  have herror : parseReserveResponse longestLeaseConfig.workerId
      ((empty.run [.enqueue ⟨"job", none, .always, true⟩ (.ofSeconds 1)]).reply
        (.reserve longestLeaseConfig 1 (.ofSeconds 2) ["token"])) =
      .error (.invalidData "leased_until") := by decide
  cases herror.symm.trans hbatch

end Store

end Redloop
