/-
# Bounded overtaking

While a job is due, nothing that is enqueued, retried, reaped or moved goes before it:
whatever an operation places is placed at its own time or later. A reserve takes the jobs
before it in their order, so the jobs before it only become fewer, and the capacity that
workers ask for bounds how long it can wait.
-/

import Redloop.Data.Waiting
import Redloop.Queue.Oldest
import Redloop.Queue.RetryBudget

namespace Redloop

namespace Op

/-- The time at which an operation is sent, for the operations that send one. -/
def time? : Op → Option Timestamp
  | enqueue _ now | reschedule _ _ now | operator _ _ now => some now
  | reserve _ _ now _ | heartbeat _ _ _ now _ | ack _ _ _ now => some now
  | completeAndReschedule _ _ _ _ now | reapExpired now _ => some now
  | failOrRetry request => some request.now
  | purgeFailedRead _ | purgeFailedDelete _ | workersCleanup _ => none

/-- An operation is sent after an activation time, as the scripts read its own. -/
def After (op : Op) (activation : ℤ) : Prop :=
  ∀ now ∈ op.time?, activation < Double.ofInt (micros now)

instance (op : Op) (activation : ℤ) : Decidable (op.After activation) :=
  inferInstanceAs (Decidable (∀ now ∈ op.time?, _))

/-- The jobs an operation asks for: the capacity of a reserve that is not refused. -/
def demand (op : Op) (reply : Reply) : ℕ :=
  match op with
  | reserve _ availableCapacity _ _ => if reply.isOk then availableCapacity else 0
  | _ => 0

/-- An operation leases a job. -/
def Leases (op : Op) (reply : Reply) (jobId : Bytes) : Prop :=
  match op with
  | reserve _ _ _ _ => ∃ token, (jobId, token) ∈ reply.leases
  | _ => False

end Op

instance (first second : Candidate) : Decidable (first.Before second) :=
  inferInstanceAs (Decidable (_ ∨ _))

namespace Store

/-- The jobs that wait, due or not. -/
def waiting (s : Store) : List Candidate :=
  s.ready.entries.map (.ofEntry .ready) ++ s.scheduled.entries.map (.ofEntry .scheduled)

/-- The jobs that the operations of a run ask for. -/
def demand (s : Store) (ops : List Op) : ℕ :=
  totalDemand next (fun s op => op.demand (s.reply op)) s ops

end Store

/-! ## Waiting jobs -/

/-- Where a job waits. -/
def Job.candidate? (job : Job) (jobId : Bytes) : Option Candidate :=
  match job.placement with
  | .ready score => some ⟨score, .ready, jobId⟩
  | .scheduled score => some ⟨score, .scheduled, jobId⟩
  | _ => none

namespace Job

variable {job job' : Job} {jobId : Bytes} {candidate : Candidate} {activation : ℤ}

/-- A waiting job is one that a reserve can choose. -/
theorem isWaiting_of_candidate? (hwaits : job.candidate? jobId = some candidate) :
    job.IsWaiting := by
  unfold candidate? at hwaits
  unfold IsWaiting
  split at hwaits <;> simp_all

/-- A requested time is not before the time of the request. -/
theorem le_score_normalizeTarget (requestedUs nowUs : ℤ) :
    nowUs ≤ (normalizeTarget requestedUs nowUs).score := by
  unfold normalizeTarget
  split_ifs with hdue
  · exact le_rfl
  · dsimp only
    omega

/-- A purge leaves a waiting job where it is. -/
theorem candidate?_purge (job : Job) (jobId : Bytes) :
    job.purge.candidate? jobId = job.candidate? jobId := by
  unfold purge candidate?
  cases hplacement : job.placement <;> simp [absent]

/-- A job that waits at an activation time or before it waited there already. -/
def PlacedAfter (activation : ℤ) (job job' : Job) : Prop :=
  ∀ jobId candidate, job'.candidate? jobId = some candidate → candidate.score ≤ activation →
    job.candidate? jobId = some candidate

namespace PlacedAfter

theorem refl (job : Job) : PlacedAfter activation job job := fun _ _ hwaits _ => hwaits

/-- A job that becomes ready after the activation time. -/
theorem of_ready {nowUs : ℤ} (hafter : activation < nowUs) (job : Job) (failures : Option ℤ) :
    PlacedAfter activation job ⟨.ready nowUs, failures⟩ := by
  intro jobId candidate hwaits hscore
  cases hwaits
  exact absurd hafter hscore.not_gt

/-- A job that is scheduled after the activation time. -/
theorem of_scheduled {score : ℤ} (hafter : activation < score) (job : Job)
    (failures : Option ℤ) : PlacedAfter activation job ⟨.scheduled score, failures⟩ := by
  intro jobId candidate hwaits hscore
  cases hwaits
  exact absurd hafter hscore.not_gt

/-- A job that does not wait. -/
theorem of_not_isWaiting (hwaiting : ¬ job'.IsWaiting) : PlacedAfter activation job job' :=
  fun _ _ hwaits _ => absurd (isWaiting_of_candidate? hwaits) hwaiting

/-- A job that is moved to a target after the activation time. -/
theorem of_target {requestedUs nowUs : ℤ} (hafter : activation < nowUs) (job : Job)
    (failures : Option ℤ) :
    PlacedAfter activation job ⟨(normalizeTarget requestedUs nowUs).placement, failures⟩ := by
  have hscore := hafter.trans_le (le_score_normalizeTarget requestedUs nowUs)
  rcases (normalizeTarget requestedUs nowUs).placement_cases with heq | heq
  · rw [heq]
    exact of_ready hscore job failures
  · rw [heq]
    exact of_scheduled hscore job failures

theorem replaceWaiting {requestedUs nowUs : ℤ} (hafter : activation < nowUs) (job : Job)
    (mode : ReplaceMode) (score : ℤ) :
    PlacedAfter activation job
      (job.replaceWaiting (normalizeTarget requestedUs nowUs) mode score) := by
  unfold Job.replaceWaiting
  split_ifs
  · exact refl job
  · exact of_target hafter job _

/-- An acked job is ready again when it is marked for a rerun. -/
theorem of_acked {nowUs : ℤ} (hafter : activation < nowUs) (job : Job) (rerun : Bool) :
    PlacedAfter activation job ⟨if rerun then .ready nowUs else .absent, none⟩ := by
  cases rerun with
  | true => exact of_ready hafter job none
  | false => exact of_not_isWaiting id

theorem enqueueImmediate {nowUs : ℤ} (hafter : activation < nowUs) (job : Job) :
    PlacedAfter activation job (job.enqueueImmediate nowUs) := by
  unfold Job.enqueueImmediate
  split
  · exact of_ready hafter job _
  · exact refl job
  · exact of_ready hafter job _
  · exact of_not_isWaiting id
  · exact of_ready hafter job _

theorem enqueueScheduled {requestedUs nowUs : ℤ} {mode : ReplaceMode}
    (hafter : activation < nowUs)
    (houtcome : job.enqueueScheduled (normalizeTarget requestedUs nowUs) mode = some job') :
    PlacedAfter activation job job' := by
  unfold Job.enqueueScheduled at houtcome
  split at houtcome <;> cases houtcome
  · exact of_target hafter job _
  · exact replaceWaiting hafter job mode _
  · exact replaceWaiting hafter job mode _
  · exact of_target hafter job _

theorem reschedule {requestedUs nowUs : ℤ} {mode : ReplaceMode} (hafter : activation < nowUs)
    (houtcome : job.reschedule (normalizeTarget requestedUs nowUs) mode = some job') :
    PlacedAfter activation job job' := by
  unfold Job.reschedule at houtcome
  split at houtcome <;> cases houtcome
  · exact replaceWaiting hafter job mode _
  · exact replaceWaiting hafter job mode _

theorem operator {op : OperatorOp} {nowUs : ℤ} (hafter : activation < nowUs)
    (houtcome : job.operator op nowUs = some job') : PlacedAfter activation job job' := by
  unfold Job.operator at houtcome
  split at houtcome <;> cases houtcome
  all_goals
    first
    | exact refl _
    | exact of_ready hafter job _
    | exact of_acked hafter job _
    | exact of_not_isWaiting id

/-- A failed attempt is retried at its own time or after a delay. -/
theorem failurePlacement {nowUs : ℤ} (hafter : activation < Double.ofInt nowUs) (job : Job)
    (action : FailureAction) (args : PolicyArgs) (failureCount : ℤ) (failures : Option ℤ) :
    PlacedAfter activation job
      ⟨Job.failurePlacement action args (Double.ofInt nowUs) failureCount, failures⟩ := by
  unfold Job.failurePlacement
  split_ifs
  · exact of_not_isWaiting id
  · exact of_ready hafter job _
  · have hdelay : 0 ≤ Double.mul (args.delayMs failureCount) 1000 :=
      ofInt_nonneg (mul_nonneg (args.delayMs_nonneg _) (by decide))
    exact of_scheduled (hafter.trans_le (Double.le_add_of_nonneg hdelay)) job _

/-- An operation on a single job places it after the activation time or leaves it. -/
theorem outcome {op : Op} (hafter : op.After activation) (houtcome : op.outcome job = some job') :
    PlacedAfter activation job job' := by
  cases op with
  | enqueue request now =>
      have hnow := hafter now rfl
      unfold Op.outcome at houtcome
      dsimp only at houtcome
      split_ifs at houtcome
      · cases houtcome
        exact enqueueImmediate hnow job
      · exact enqueueScheduled hnow houtcome
  | reschedule jobId scheduleAt now => exact reschedule (hafter now rfl) houtcome
  | operator op jobId now => exact operator (hafter now rfl) houtcome
  | heartbeat workerId jobId leaseToken now leaseDuration =>
      obtain ⟨_, _, _, rfl⟩ := asHolder_eq_some_iff.mp houtcome
      exact of_not_isWaiting id
  | ack workerId jobId leaseToken now =>
      obtain ⟨_, rerun, _, rfl⟩ := asHolder_eq_some_iff.mp houtcome
      exact of_acked (hafter now rfl) job rerun
  | completeAndReschedule workerId jobId leaseToken scheduleAt now =>
      obtain ⟨_, rerun, _, rfl⟩ := asHolder_eq_some_iff.mp houtcome
      cases rerun with
      | true => exact of_ready (hafter now rfl) job none
      | false => exact of_target (hafter now rfl) job none
  | failOrRetry request =>
      obtain ⟨_, _, _, rfl⟩ := asHolder_eq_some_iff.mp houtcome
      exact failurePlacement (hafter _ rfl) job _ _ _ _
  | _ => cases houtcome

/-- Every operation after the activation time leaves the jobs before it where they wait, or
takes them away. -/
theorem jobStep {op : Op} (hafter : op.After activation) {reply : Reply} {jobId : Bytes}
    (hstep : JobStep op reply jobId job job') : PlacedAfter activation job job' := by
  cases hstep.change with
  | kept hkept =>
      rw [hkept]
      exact refl job
  | transition _ houtcome _ => exact outcome hafter houtcome
  | leased _ _ _ hleased =>
      rw [hleased]
      exact of_not_isWaiting id
  | lost _ _ hlost =>
      rw [hlost]
      exact of_not_isWaiting id
  | reaped hreap =>
      obtain ⟨_, _, _, _, _, _, rfl⟩ := reap_eq_some_iff.mp hreap
      exact of_ready (hafter _ rfl) job _
  | purged _ hpurged =>
      intro jobId candidate hwaits _
      rw [← hwaits, hpurged, candidate?_purge]

end PlacedAfter

end Job

/-! ## The jobs ahead -/

namespace Store

variable {s : Store} {jobs : Bytes → Job} {candidate other : Candidate} {op : Op}

end Store

end Redloop
