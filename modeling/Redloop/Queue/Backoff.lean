/-
# Exponential backoff

The delay of an exponential backoff is computed by a loop that runs once for each failure
before the current one. Each round multiplies the delay and caps the product, so from the
second failure on the delay is the capped power of the multiplier. The first delay goes
through no round: it is the initial delay, also when that is above the cap.
-/

import Redloop.Queue.RetryBudget

namespace Redloop

/-! ## The loop -/

/-- Below a cap that is exact, a number is not rounded, and above it the rounding is hidden. -/
theorem Double.min_ofInt {value : ℤ} {cap : ℕ} (hvalue : 0 ≤ value) (hcap : cap < 2 ^ 53) :
    min (Double.ofInt value) cap = min value cap := by
  by_cases hexact : value < 2 ^ 53
  · rw [Double.ofInt_of_natAbs_lt (by omega)]
  · have hlarge : Double.ofInt (2 ^ 53) ≤ Double.ofInt value := Double.ofInt_mono (by omega)
    have hrounded : Double.ofInt (2 ^ 53) = 2 ^ 53 := by decide
    rw [min_eq_right (by omega), min_eq_right (by omega)]

/-- Capping a factor that is capped again does not matter. -/
theorem min_min_mul (value factor cap : ℕ) :
    min (min value cap * factor) cap = min (value * factor) cap := by
  rcases le_total value cap with hle | hle
  · rw [min_eq_left hle]
  · rcases Nat.eq_zero_or_pos factor with rfl | hpos
    · rw [mul_zero, mul_zero]
    · rw [min_eq_right hle, min_eq_right (Nat.le_mul_of_pos_right cap hpos),
        min_eq_right (hle.trans (Nat.le_mul_of_pos_right value hpos))]

/-- From the first round on, the delay is the capped power. -/
theorem PolicyArgs.delayRounds_succ {args : PolicyArgs} (hinitial : args.backoffA < 2 ^ 53)
    (hfactor : args.backoffB < 2 ^ 53) (hcap : args.backoffC < 2 ^ 53) (rounds : ℕ) :
    args.delayRounds (rounds + 1) =
      min (args.backoffA * args.backoffB ^ (rounds + 1)) args.backoffC := by
  have hexact {value : ℕ} (hlt : value < 2 ^ 53) : Double.ofInt (value : ℤ) = value :=
    Double.ofInt_of_natAbs_lt (by omega)
  have hround {rounds value : ℕ} (hdelay : args.delayRounds rounds = value) :
      args.delayRounds (rounds + 1) = min (value * args.backoffB) args.backoffC := by
    rw [delayRounds, hdelay, hexact hfactor, hexact hcap, Double.mul, ← Nat.cast_mul,
      Double.min_ofInt (Int.natCast_nonneg _) hcap, Nat.cast_min]
  induction rounds with
  | zero =>
      have hdelay : args.delayRounds 0 = args.backoffA := hexact hinitial
      rw [hround hdelay, zero_add, pow_one]
  | succ rounds ih => rw [hround ih, min_min_mul, pow_succ _ (rounds + 1), mul_assoc]

/-- The backoff of a retry policy. -/
def RetryPolicy.backoff : RetryPolicy → Backoff
  | .never => .none
  | .count _ backoff => backoff
  | .infinite backoff => backoff

/-- The delay of an exponential backoff before the retry of the given failure. -/
def exponentialDelay (initialDelayMs multiplier maxDelayMs failure : ℕ) : ℕ :=
  min (initialDelayMs * multiplier ^ (failure - 1)) maxDelayMs

variable {initialDelayMs maxDelayMs : UInt64} {multiplier : UInt32}

/-- The delay that the script chooses: the first one is not capped. -/
theorem delayMs_of_exponential {policy : RetryPolicy}
    (hbackoff : policy.backoff = .exponential initialDelayMs multiplier maxDelayMs)
    (hinitial : initialDelayMs.toNat < 2 ^ 53) (hcap : maxDelayMs.toNat < 2 ^ 53) {failure : ℕ}
    (hfirst : 1 ≤ failure) :
    (failureArgs policy).delayMs failure =
      if failure = 1 then (initialDelayMs.toNat : ℤ)
      else exponentialDelay initialDelayMs.toNat multiplier.toNat maxDelayMs.toNat failure := by
  have hargs : (failureArgs policy).backoffKind = .exponential ∧
      (failureArgs policy).backoffA = initialDelayMs.toNat ∧
        (failureArgs policy).backoffB = multiplier.toNat ∧
          (failureArgs policy).backoffC = maxDelayMs.toNat := by
    cases policy with
    | never => cases hbackoff
    | count _ backoff =>
        obtain rfl : backoff = _ := hbackoff
        exact ⟨rfl, rfl, rfl, rfl⟩
    | infinite backoff =>
        obtain rfl : backoff = _ := hbackoff
        exact ⟨rfl, rfl, rfl, rfl⟩
  obtain ⟨hkind, hA, hB, hC⟩ := hargs
  have hdelay : (failureArgs policy).delayMs failure =
      (failureArgs policy).delayRounds (failure - 1) := by
    unfold PolicyArgs.delayMs
    rw [hkind]
    show (failureArgs policy).delayRounds ((failure : ℤ) - 1).toNat = _
    congr 1
    omega
  rw [hdelay]
  obtain ⟨rounds, rfl⟩ := Nat.exists_eq_add_of_le' hfirst
  cases rounds with
  | zero =>
      rw [if_pos rfl]
      show Double.ofInt (failureArgs policy).backoffA = _
      rw [hA, Double.ofInt_of_natAbs_lt (by omega)]
  | succ rounds =>
      have hfactor : multiplier.toNat < 2 ^ 53 := multiplier.toNat_lt.trans (by norm_num)
      rw [if_neg (by omega), Nat.add_sub_cancel,
        PolicyArgs.delayRounds_succ (hA ▸ hinitial) (hB ▸ hfactor) (hC ▸ hcap), hA, hB, hC]
      rfl

/-! ## The retry -/

namespace Store

variable {s : Store} {request : FailureRequest}

/-- A retry with backoff takes the lease away, counts the failure and puts the job in ready,
or in scheduled when there is a delay. -/
theorem slot_next_retry (hholds : s.HoldsLease request.jobId request.workerId request.leaseToken)
    (haction : request.action = .retryable) {failure : ℕ}
    (hfailure : Hash.counter s.failures request.jobId + 1 = failure) (hexact : failure < 2 ^ 53)
    (hretry : ¬ request.retryPolicy.GivesUp failure) :
    (s.next (.failOrRetry request)).slot request.jobId =
      let delayMs := (failureArgs request.retryPolicy).delayMs failure
      if delayMs = 0 then
        { s.slot request.jobId with
          ready := some (Double.ofInt (micros request.now))
          leased := none
          leaseMeta := none
          rerun := false
          failures := some failure }
      else
        { s.slot request.jobId with
          scheduled := some (Double.add (Double.ofInt (micros request.now))
            (Double.mul delayMs 1000))
          leased := none
          leaseMeta := none
          rerun := false
          failures := some failure } := by
  have hround : Double.ofInt (failure : ℤ) = failure := Double.ofInt_of_natAbs_lt (by omega)
  have hshould : (failureArgs request.retryPolicy).shouldRetry failure := by
    rw [← hround]
    exact (shouldRetry_failureArgs _ _).mpr hretry
  have hcounter : Hash.counter (Hash.incrBy s.failures request.jobId 1) request.jobId =
      failure := by
    rw [Hash.counter, Hash.lookup_incrBy, if_pos rfl, Option.getD_some]
    exact hfailure
  have hcontinue : ¬ (request.action = .terminal ∨
      ¬ (failureArgs request.retryPolicy).shouldRetry failure) := by
    rw [haction, hshould]
    simp
  dsimp only
  rw [next, exec, failOrRetry, if_neg (not_not.mpr hholds)]
  dsimp only [dropLease]
  rw [hcounter, hround, if_neg hcontinue]
  split_ifs with hdelay
  · simp [slot, Hash.lookup_incrBy, hfailure]
  · simp [slot, Hash.lookup_incrBy, hfailure]

/-- A retry follows the law of its exponential backoff. -/
structure FollowsBackoff (s : Store) (request : FailureRequest)
    (initialDelayMs multiplier maxDelayMs failure : ℕ) : Prop where
  /-- The delay is the capped power. -/
  delay : (failureArgs request.retryPolicy).delayMs failure =
    exponentialDelay initialDelayMs multiplier maxDelayMs failure
  /-- The delay is not above the cap. -/
  capped : (failureArgs request.retryPolicy).delayMs failure ≤ maxDelayMs
  /-- The job is ready now when there is no delay, and scheduled after the delay otherwise. -/
  placed : (s.next (.failOrRetry request)).slot request.jobId =
    if exponentialDelay initialDelayMs multiplier maxDelayMs failure = 0 then
      { s.slot request.jobId with
        ready := some (micros request.now)
        leased := none
        leaseMeta := none
        rerun := false
        failures := some failure }
    else
      { s.slot request.jobId with
        scheduled := some (micros request.now +
          1000 * exponentialDelay initialDelayMs multiplier maxDelayMs failure)
        leased := none
        leaseMeta := none
        rerun := false
        failures := some failure }

/-- The first delay is the capped power when it is not above the cap. -/
theorem delayMs_eq_exponentialDelay_iff
    (hbackoff : request.retryPolicy.backoff =
      .exponential initialDelayMs multiplier maxDelayMs)
    (hinitial : initialDelayMs.toNat < 2 ^ 53) (hcap : maxDelayMs.toNat < 2 ^ 53) {failure : ℕ}
    (hfirst : 1 ≤ failure) :
    (failureArgs request.retryPolicy).delayMs failure =
        exponentialDelay initialDelayMs.toNat multiplier.toNat maxDelayMs.toNat failure ↔
      2 ≤ failure ∨ initialDelayMs ≤ maxDelayMs := by
  rw [delayMs_of_exponential hbackoff hinitial hcap hfirst, UInt64.le_iff_toNat_le]
  split_ifs with hone
  · subst hone
    unfold exponentialDelay
    rw [Nat.sub_self, pow_zero, mul_one, Nat.cast_inj, eq_comm, min_eq_left_iff]
    omega
  · exact iff_of_true rfl (Or.inl (by omega))

/-- The retry of a failure follows the law of its exponential backoff exactly when it is not
the first failure or the initial delay is not above the cap. The failures that the store
counts for a job that waits or is leased are those of its lifecycle. -/
theorem exponential_backoff_iff
    (hbackoff : request.retryPolicy.backoff =
      .exponential initialDelayMs multiplier maxDelayMs)
    (haction : request.action = .retryable) {failure : ℕ} (hfirst : 1 ≤ failure)
    (hretry : ¬ request.retryPolicy.GivesUp failure) (hexact : failure < 2 ^ 53)
    (hnow : (micros request.now).natAbs < 2 ^ 53)
    (hdelays : 1000 * max initialDelayMs.toNat maxDelayMs.toNat < 2 ^ 53)
    (hlatest : micros request.now + 1000 * max initialDelayMs.toNat maxDelayMs.toNat < 2 ^ 53) :
    (∀ s : Store, s.HoldsLease request.jobId request.workerId request.leaseToken →
      Hash.counter s.failures request.jobId + 1 = failure →
        (s.FollowsBackoff request initialDelayMs.toNat multiplier.toNat maxDelayMs.toNat failure ↔
          2 ≤ failure ∨ initialDelayMs ≤ maxDelayMs)) ∧
      ∀ ops, RunKeepsCount empty ops → (empty.run ops).IsActive request.jobId →
        Hash.counter (empty.run ops).failures request.jobId =
          lifecycleFailures request.jobId empty 0 ops := by
  have hinitial : initialDelayMs.toNat < 2 ^ 53 := by omega
  have hcap : maxDelayMs.toNat < 2 ^ 53 := by omega
  have hlaw := delayMs_eq_exponentialDelay_iff hbackoff hinitial hcap hfirst
  constructor
  · intro s hholds hfailure
    refine ⟨fun hfollows => hlaw.mp hfollows.delay, fun hcondition => ?_⟩
    have hdelay := hlaw.mpr hcondition
    have hle : exponentialDelay initialDelayMs.toNat multiplier.toNat maxDelayMs.toNat failure ≤
        maxDelayMs.toNat := min_le_right _ _
    refine ⟨hdelay, by omega, ?_⟩
    have hmul : Double.mul
        (exponentialDelay initialDelayMs.toNat multiplier.toNat maxDelayMs.toNat failure) 1000 =
        1000 * exponentialDelay initialDelayMs.toNat multiplier.toNat maxDelayMs.toNat failure := by
      rw [Double.mul, mul_comm]
      exact Double.ofInt_of_natAbs_lt (by omega)
    rw [slot_next_retry hholds haction hfailure hexact hretry, hdelay]
    dsimp only
    rw [hmul, Double.ofInt_of_natAbs_lt hnow, Double.add, Double.ofInt_of_natAbs_lt (by omega)]
    simp only [Nat.cast_eq_zero]
  · intro ops hrun hactive
    have hfresh : Job.absent.Counts 0 := fun hactive => hactive.elim
    obtain ⟨jobs, hrefines, hcounts⟩ :=
      counts_run hrun Refines.empty (fun _ => Job.wf_absent) hfresh
    rw [Hash.counter, hrefines.failures_eq]
    exact hcounts ((isActive_iff (hrefines.slot_eq _)).mp hactive)

/-- The sample configuration with an exponential backoff. -/
def backoffConfig (initialDelayMs maxDelayMs : UInt64) : WorkerConfig :=
  { sampleConfig with retryPolicy := .infinite (.exponential initialDelayMs 2 maxDelayMs) }

/-- The first failure of a job under this configuration. -/
def firstFailure (initialDelayMs maxDelayMs : UInt64) : FailureRequest :=
  ⟨"worker", "job", "token", .retryable, (backoffConfig initialDelayMs maxDelayMs).retryPolicy,
    .ofSeconds 9⟩

/-- An initial delay of ten milliseconds under a cap of five delays the job for ten. -/
theorem first_delay_above_cap :
    let s := empty.run
      [.enqueue ⟨"job", none, .always, true⟩ (.ofSeconds 1),
        .reserve (backoffConfig 10 5) 1 (.ofSeconds 2) ["token"]]
    (backoffConfig 10 5).validate = .ok () ∧ s.HoldsLease "job" "worker" "token" ∧
      Hash.counter s.failures "job" + 1 = 1 ∧
        (s.next (.failOrRetry (firstFailure 10 5))).scheduled.score "job" =
          some (micros (.ofSeconds 9) + 1000 * 10) ∧
          ¬ s.FollowsBackoff (firstFailure 10 5) 10 2 5 1 := by
  refine ⟨by decide, by decide, by decide, by decide, fun hfollows => ?_⟩
  exact absurd hfollows.capped (by decide)

/-- A later failure of the job under a cap of fifty milliseconds. -/
def laterFailure (leaseToken : Bytes) (now : Timestamp) : FailureRequest :=
  { firstFailure 10 50 with leaseToken := leaseToken, now := now }

/-- The third failure under a cap of fifty milliseconds follows the law: the delay has been
doubled twice, to forty. -/
theorem exponential_backoff_sample :
    let s := empty.run
      [.enqueue ⟨"job", none, .always, true⟩ (.ofSeconds 1),
        .reserve (backoffConfig 10 50) 1 (.ofSeconds 2) ["one"],
        .failOrRetry (laterFailure "one" (.ofSeconds 3)),
        .reserve (backoffConfig 10 50) 1 (.ofSeconds 4) ["two"],
        .failOrRetry (laterFailure "two" (.ofSeconds 5)),
        .reserve (backoffConfig 10 50) 1 (.ofSeconds 6) ["three"]]
    exponentialDelay 10 2 50 3 = 40 ∧
      s.FollowsBackoff (laterFailure "three" (.ofSeconds 7)) 10 2 50 3 := by
  intro s
  have hbackoff : (laterFailure "three" (.ofSeconds 7)).retryPolicy.backoff =
    .exponential 10 2 50 := rfl
  have hlaw := exponential_backoff_iff hbackoff rfl (by decide : 1 ≤ 3) id (by decide)
    (by decide) (by decide) (by decide)
  exact ⟨by decide, (hlaw.1 s (by decide) (by decide)).mpr (Or.inl (by decide))⟩

end Store

end Redloop
