/-
# The life of one job

What the queue promises about a single job, without the structures that store
it. A job is absent, waits in ready or scheduled, is leased to one holder, or has
failed; beside its placement it has a failure count. A rerun request exists only
during a lease, so it is part of the leased placement and a marker outside a
lease cannot be stated.

Each store operation is one transition of this machine. `none` means that the
operation is refused and the job stays as it is.
-/

import Redloop.Store.Exec

namespace Redloop

/-- Where a job is. -/
inductive Placement
  | absent
  | ready (score : ℤ)
  | scheduled (score : ℤ)
  | leased (deadline : ℤ) (workerId leaseToken : Bytes) (rerun : Bool)
  | failed (score : ℤ)
  deriving DecidableEq

/-- A job: its placement and its failure count, absent while it has not failed. -/
structure Job where
  placement : Placement
  failures : Option ℤ
  deriving DecidableEq

/-- The waiting placement a target stands for. -/
def Target.placement (target : Target) : Placement :=
  if target.state = .ready then .ready target.score else .scheduled target.score

theorem Target.placement_cases (target : Target) :
    target.placement = .ready target.score ∨ target.placement = .scheduled target.score := by
  unfold Target.placement
  split
  · exact Or.inl rfl
  · exact Or.inr rfl

namespace Job

/-- The job that has never been enqueued. -/
def absent : Job := ⟨.absent, none⟩

/-- A job waits when it is in ready or scheduled. -/
def IsWaiting (job : Job) : Prop :=
  match job.placement with
  | .ready _ | .scheduled _ => True
  | _ => False

/-- A job is placed when it is in one of the four sets. -/
def IsPlaced (job : Job) : Prop := job.placement ≠ .absent

/-- A job is leased to a holder. -/
def LeasedTo (job : Job) (workerId leaseToken : Bytes) : Prop :=
  ∃ deadline rerun, job.placement = .leased deadline workerId leaseToken rerun

/-- A job that keeps its failure count and moves elsewhere. -/
def moveTo (job : Job) (placement : Placement) : Job := { job with placement := placement }

/-- The failure count with one more failure. -/
def countFailure (job : Job) : ℤ := job.failures.getD 0 + 1

/-- Replace a waiting placement unless the request matches it or the mode keeps it. -/
def replaceWaiting (job : Job) (target : Target) (mode : ReplaceMode) (score : ℤ) : Job :=
  if job.placement = target.placement ∨ ¬ mode.shouldReplace target.score score then job
  else job.moveTo target.placement

/-- Immediate enqueue: run at least once more from now on. -/
def enqueueImmediate (nowUs : ℤ) (job : Job) : Job :=
  match job.placement with
  | .absent => job.moveTo (.ready nowUs)
  | .ready _ => job
  | .scheduled _ => job.moveTo (.ready nowUs)
  | .leased deadline workerId leaseToken _ =>
      job.moveTo (.leased deadline workerId leaseToken true)
  | .failed _ => ⟨.ready nowUs, none⟩

/-- Scheduled enqueue: wait for the target, unless the job is leased. -/
def enqueueScheduled (target : Target) (mode : ReplaceMode) (job : Job) : Option Job :=
  match job.placement with
  | .absent => some (job.moveTo target.placement)
  | .ready score => some (job.replaceWaiting target mode score)
  | .scheduled score => some (job.replaceWaiting target mode score)
  | .leased _ _ _ _ => none
  | .failed _ => some ⟨target.placement, none⟩

/-- Reschedule a waiting job. -/
def reschedule (target : Target) (mode : ReplaceMode) (job : Job) : Option Job :=
  match job.placement with
  | .ready score => some (job.replaceWaiting target mode score)
  | .scheduled score => some (job.replaceWaiting target mode score)
  | _ => none

/-- The operator commands. -/
def operator (op : OperatorOp) (nowUs : ℤ) (job : Job) : Option Job :=
  match op, job.placement with
  | .cancel, .scheduled _ => some absent
  | .cancel, .failed _ => some absent
  | .requeue, .ready _ | .retryNow, .ready _ => some job
  | .requeue, .scheduled _ | .retryNow, .scheduled _ => some (job.moveTo (.ready nowUs))
  | .requeue, .failed _ | .retryNow, .failed _ | .forceRetry, .failed _ =>
      some ⟨.ready nowUs, none⟩
  | .forceAck, .leased _ _ _ rerun => some ⟨if rerun then .ready nowUs else .absent, none⟩
  | .forceFail, .leased _ _ _ _ => some ⟨.failed nowUs, some job.countFailure⟩
  | _, _ => none

/-- Run a transition of the lease holder. Anyone else is refused. -/
def asHolder (workerId leaseToken : Bytes) (transition : Bool → Job) (job : Job) : Option Job :=
  match job.placement with
  | .leased _ holder token rerun =>
      if holder = workerId ∧ token = leaseToken then some (transition rerun) else none
  | _ => none

/-- Only the holder of the lease gets past the lease check. -/
theorem asHolder_eq_some_iff {workerId leaseToken : Bytes} {transition : Bool → Job}
    {job job' : Job} :
    job.asHolder workerId leaseToken transition = some job' ↔
      ∃ deadline rerun, job.placement = .leased deadline workerId leaseToken rerun ∧
        job' = transition rerun := by
  unfold asHolder
  cases job.placement with
  | leased deadline holder token rerun =>
      simp only [Option.ite_none_right_eq_some, Option.some.injEq, Placement.leased.injEq]
      constructor
      · rintro ⟨⟨rfl, rfl⟩, rfl⟩
        exact ⟨deadline, rerun, ⟨rfl, rfl, rfl, rfl⟩, rfl⟩
      · rintro ⟨_, _, ⟨_, rfl, rfl, rfl⟩, rfl⟩
        exact ⟨⟨rfl, rfl⟩, rfl⟩
  | _ => simp

/-- A heartbeat extends the lease. -/
def heartbeat (workerId leaseToken : Bytes) (deadline : ℤ) (job : Job) : Option Job :=
  job.asHolder workerId leaseToken fun rerun =>
    job.moveTo (.leased deadline workerId leaseToken rerun)

/-- An ack ends the job, unless a rerun was requested. -/
def ack (workerId leaseToken : Bytes) (nowUs : ℤ) (job : Job) : Option Job :=
  job.asHolder workerId leaseToken fun rerun => ⟨if rerun then .ready nowUs else .absent, none⟩

/-- Completing with a reschedule starts a fresh lifecycle. A rerun request wins
over the schedule. -/
def completeAndReschedule (workerId leaseToken : Bytes) (target : Target) (nowUs : ℤ)
    (job : Job) : Option Job :=
  job.asHolder workerId leaseToken fun rerun =>
    ⟨if rerun then .ready nowUs else target.placement, none⟩

/-- Where a failed attempt goes, given the failure count that includes it. -/
def failurePlacement (action : FailureAction) (args : PolicyArgs) (nowUs : ℤ)
    (failureCount : ℤ) : Placement :=
  if action = .terminal ∨ ¬ args.shouldRetry failureCount then .failed nowUs
  else if args.delayMs failureCount = 0 then .ready nowUs
  else .scheduled (Double.add nowUs (Double.mul (args.delayMs failureCount) 1000))

theorem failurePlacement_cases (action : FailureAction) (args : PolicyArgs) (nowUs : ℤ)
    (failureCount : ℤ) :
    failurePlacement action args nowUs failureCount = .failed nowUs ∨
      failurePlacement action args nowUs failureCount = .ready nowUs ∨
        ∃ score, failurePlacement action args nowUs failureCount = .scheduled score := by
  unfold failurePlacement
  split_ifs
  · exact Or.inl rfl
  · exact Or.inr (Or.inl rfl)
  · exact Or.inr (Or.inr ⟨_, rfl⟩)

/-- A failed attempt counts one failure and retries or fails the job. A rerun
request is dropped. -/
def failOrRetry (workerId leaseToken : Bytes) (action : FailureAction) (args : PolicyArgs)
    (nowUs : ℤ) (job : Job) : Option Job :=
  job.asHolder workerId leaseToken fun _ =>
    ⟨failurePlacement action args nowUs (Double.ofInt job.countFailure), some job.countFailure⟩

/-- A waiting job is leased. -/
def lease (workerId leaseToken : Bytes) (deadline : ℤ) (job : Job) : Job :=
  job.moveTo (.leased deadline workerId leaseToken false)

/-- An expired lease is taken back. -/
def reap (nowUs : ℤ) (job : Job) : Option Job :=
  match job.placement with
  | .leased deadline _ _ _ => if deadline ≤ nowUs then some (job.moveTo (.ready nowUs)) else none
  | _ => none

/-- Only an expired lease is taken back. -/
theorem reap_eq_some_iff {nowUs : ℤ} {job job' : Job} :
    job.reap nowUs = some job' ↔
      ∃ deadline workerId leaseToken rerun,
        job.placement = .leased deadline workerId leaseToken rerun ∧ deadline ≤ nowUs ∧
          job' = job.moveTo (.ready nowUs) := by
  unfold reap
  cases job.placement <;> simp [eq_comm]

/-- The delete step of a purge: a failed job is gone, any other job loses its
failure count. -/
def purge (job : Job) : Job :=
  match job.placement with
  | .failed _ => absent
  | placement => ⟨placement, none⟩

end Job

namespace Op

/-- The job an operation is aimed at, for the operations on a single job. -/
def target : Op → Option Bytes
  | enqueue request _ => some request.jobId
  | reschedule jobId _ _ => some jobId
  | operator _ jobId _ => some jobId
  | heartbeat _ jobId _ _ _ => some jobId
  | ack _ jobId _ _ => some jobId
  | completeAndReschedule _ jobId _ _ _ => some jobId
  | failOrRetry request => some request.jobId
  | _ => none

/-- What an operation on a single job does to that job. -/
def outcome (op : Op) (job : Job) : Option Job :=
  match op with
  | enqueue request now =>
      if request.allowExistingCurrentRun then
        some (job.enqueueImmediate (Double.ofInt (micros now)))
      else
        job.enqueueScheduled
          (normalizeTarget (Double.ofInt (scheduleMicros request.scheduleAt))
            (Double.ofInt (micros now))) request.replaceMode
  | reschedule _ scheduleAt now =>
      job.reschedule
        (normalizeTarget (Double.ofInt (scheduleMicros scheduleAt)) (Double.ofInt (micros now)))
        .always
  | operator op _ now => job.operator op (Double.ofInt (micros now))
  | heartbeat workerId _ leaseToken now leaseDuration =>
      job.heartbeat workerId leaseToken (Double.ofInt (heartbeatDeadline now leaseDuration))
  | ack workerId _ leaseToken now => job.ack workerId leaseToken (Double.ofInt (micros now))
  | completeAndReschedule workerId _ leaseToken scheduleAt now =>
      job.completeAndReschedule workerId leaseToken
        (normalizeTarget (Double.ofInt (scheduleMicros scheduleAt)) (Double.ofInt (micros now)))
        (Double.ofInt (micros now))
  | failOrRetry request =>
      job.failOrRetry request.workerId request.leaseToken request.action
        (failureArgs request.retryPolicy) (Double.ofInt (micros request.now))
  | _ => none

/-- An enqueue that succeeds runs one of its two transitions. -/
theorem outcome_enqueue_cases {request : EnqueueRequest} {now : Timestamp} {job job' : Job}
    (houtcome : (enqueue request now).outcome job = some job') :
    (∃ nowUs, job' = job.enqueueImmediate nowUs) ∨
      ∃ target mode, job.enqueueScheduled target mode = some job' := by
  unfold outcome at houtcome
  dsimp only at houtcome
  split_ifs at houtcome
  · exact Or.inl ⟨_, (Option.some.inj houtcome).symm⟩
  · exact Or.inr ⟨_, _, houtcome⟩

end Op

/-- What a reserve that grants the given leases can do to one job: keep it, lease
it if it waits, or lose it when the tokens run out. -/
def ReserveStep (args : ReserveArgs) (leases : List (Bytes × Bytes)) (jobId : Bytes)
    (job job' : Job) : Prop :=
  (job' = job ∧ ∀ token, (jobId, token) ∉ leases) ∨
    (job.IsWaiting ∧ ∃ token ∈ args.leaseTokens, (jobId, token) ∈ leases ∧
      (∀ other, (jobId, other) ∈ leases → other = token) ∧
        job' = job.lease args.workerId token args.deadline) ∨
    (job.IsWaiting ∧ job' = job.moveTo .absent ∧ (∀ token, (jobId, token) ∉ leases) ∧
      args.leaseTokens.length < args.capacity)

/-- What one operation, answered with the given reply, can do to one job. An
operation on a single job runs that job's transition, a reserve leases waiting
jobs, a reap takes expired leases back, and a purge deletes the selected jobs. -/
def JobStep (op : Op) (reply : Reply) (jobId : Bytes) (job job' : Job) : Prop :=
  match op with
  | .reserve config availableCapacity now leaseTokens =>
      ReserveStep (reserveArgs config availableCapacity now leaseTokens) reply.leases jobId
        job job'
  | .reapExpired now _ => job' = job ∨ job.reap (Double.ofInt (micros now)) = some job'
  | .purgeFailedRead _ => job' = job
  | .purgeFailedDelete jobIds => job' = if jobId ∈ jobIds then job.purge else job
  | .workersCleanup _ => job' = job
  | op =>
      if op.target = some jobId then
        job' = (op.outcome job).getD job ∧ reply.isOk = (op.outcome job).isSome
      else job' = job

/-- A step of an operation on a single job runs that job's transition and leaves
the other jobs alone. -/
theorem jobStep_of_target {op : Op} {jobId : Bytes} (htarget : op.target = some jobId)
    {reply : Reply} {other : Bytes} {job job' : Job} :
    JobStep op reply other job job' ↔
      if other = jobId then
        job' = (op.outcome job).getD job ∧ reply.isOk = (op.outcome job).isSome
      else job' = job := by
  by_cases hother : other = jobId
  · subst hother
    cases op <;> simp_all [JobStep, Op.target]
  · cases op <;> simp_all [JobStep, Op.target, Ne.symm hother]

/-- The ways a step can change a job. -/
inductive JobChange (reply : Reply) (jobId : Bytes) (job job' : Job) : Op → Prop
  | kept {op : Op} (hkept : job' = job) : JobChange reply jobId job job' op
  | transition {op : Op} (htarget : op.target = some jobId)
      (houtcome : op.outcome job = some job') (hok : reply.isOk = true) :
      JobChange reply jobId job job' op
  | leased {config : WorkerConfig} {availableCapacity : ℕ} {now : Timestamp}
      {leaseTokens : List Bytes} {token : Bytes} (hwaiting : job.IsWaiting)
      (htoken : token ∈ leaseTokens) (hlease : (jobId, token) ∈ reply.leases)
      (hleased : job' = job.lease config.workerId token
        (reserveArgs config availableCapacity now leaseTokens).deadline) :
      JobChange reply jobId job job' (.reserve config availableCapacity now leaseTokens)
  | lost {config : WorkerConfig} {availableCapacity : ℕ} {now : Timestamp}
      {leaseTokens : List Bytes} (hwaiting : job.IsWaiting)
      (hshort : leaseTokens.length < availableCapacity) (hlost : job' = job.moveTo .absent) :
      JobChange reply jobId job job' (.reserve config availableCapacity now leaseTokens)
  | reaped {now : Timestamp} {limit : ℕ}
      (hreap : job.reap (Double.ofInt (micros now)) = some job') :
      JobChange reply jobId job job' (.reapExpired now limit)
  | purged {jobIds : List Bytes} (hmem : jobId ∈ jobIds) (hpurged : job' = job.purge) :
      JobChange reply jobId job job' (.purgeFailedDelete jobIds)

/-- Every step keeps the job or is one of the changes. -/
theorem JobStep.change {op : Op} {reply : Reply} {jobId : Bytes} {job job' : Job}
    (hstep : JobStep op reply jobId job job') : JobChange reply jobId job job' op := by
  by_cases htarget : ∃ target, op.target = some target
  · obtain ⟨target, htarget⟩ := htarget
    rw [jobStep_of_target htarget] at hstep
    split_ifs at hstep with hjob
    · obtain ⟨rfl, hok⟩ := hstep
      cases houtcome : op.outcome job with
      | none => exact .kept rfl
      | some next =>
          rw [houtcome] at hok
          exact .transition (hjob ▸ htarget) houtcome hok
    · exact .kept hstep
  · cases op with
    | reserve config availableCapacity now leaseTokens =>
        rcases hstep with ⟨hkept, _⟩ | ⟨hwaiting, token, hmem, hlease, _, hleased⟩ |
          ⟨hwaiting, hlost, _, hshort⟩
        · exact .kept hkept
        · exact .leased hwaiting hmem hlease hleased
        · exact .lost hwaiting hshort hlost
    | reapExpired now limit =>
        rcases hstep with hkept | hreap
        · exact .kept hkept
        · exact .reaped hreap
    | purgeFailedRead selector => exact .kept hstep
    | workersCleanup workerIds => exact .kept hstep
    | purgeFailedDelete jobIds =>
        by_cases hmem : jobId ∈ jobIds
        · exact .purged hmem (hstep.trans (if_pos hmem))
        · exact .kept (hstep.trans (if_neg hmem))
    | _ => exact absurd ⟨_, rfl⟩ htarget

end Redloop
