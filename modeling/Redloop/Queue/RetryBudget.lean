/-
# The retry budget

Under a policy with a retry limit, the stored failure count of a job that has not
failed is the number of retryable failures since its current lifecycle began, and
never exceeds the limit. The number of failures is kept beside the run: it starts
at zero with every lifecycle and goes up with every retryable failure. So within
one lifecycle exactly the first failures up to the limit are retried.
-/

import Redloop.Queue.Placement
import Redloop.Queue.Conservation
import Redloop.Queue.Rerun

namespace Redloop

namespace Op

/-- An operation of a namespace whose workers all use the retry limit, whose
reserves have a token for each unit of capacity, and whose purges delete what
they have just read. -/
def WithinLimit (op : Op) (limit : UInt32) (s : Store) : Prop :=
  op.HasTokens ∧
    match op with
    | reserve config _ _ _ => ∃ backoff, config.retryPolicy = .count limit backoff
    | failOrRetry request => ∃ backoff, request.retryPolicy = .count limit backoff
    | purgeFailedDelete jobIds => ∃ selector, jobIds = s.purgeFailedRead selector
    | _ => True

/-- An operation whose reserves have a token for each unit of capacity, and whose purges
delete what they have just read. -/
def KeepsCount (op : Op) (s : Store) : Prop :=
  op.HasTokens ∧
    match op with
    | purgeFailedDelete jobIds => ∃ selector, jobIds = s.purgeFailedRead selector
    | _ => True

/-- An operation within a limit is such an operation. -/
theorem WithinLimit.keepsCount {op : Op} {limit : UInt32} {s : Store}
    (hop : op.WithinLimit limit s) : op.KeepsCount s := by
  refine ⟨hop.1, ?_⟩
  cases op with
  | purgeFailedDelete jobIds => exact hop.2
  | _ => trivial

/-- An operation starts a lifecycle of a job in the given state if it succeeds:
an enqueue of an absent job, a reactivation of a failed job, and the ends of a
lease that reset the failures. -/
def Starts (op : Op) (s : Store) (jobId : Bytes) : Prop :=
  match op with
  | enqueue _ _ => ¬ s.Known jobId ∨ (s.failed.score jobId).isSome
  | operator .requeue _ _ | operator .retryNow _ _ | operator .forceRetry _ _ =>
      (s.failed.score jobId).isSome
  | operator .forceAck _ _ | ack _ _ _ _ | completeAndReschedule _ _ _ _ _ => True
  | _ => False

/-- An operation on the job succeeds and starts a lifecycle that leaves it placed. -/
def BeginsLifecycle (op : Op) (s : Store) (jobId : Bytes) : Prop :=
  op.target = some jobId ∧ (s.reply op).isOk ∧ op.Starts s jobId ∧ (s.next op).Known jobId

/-- A retryable failure of the job is reported with success. -/
def CountsFailure (op : Op) (s : Store) (jobId : Bytes) : Prop :=
  match op with
  | failOrRetry request =>
      request.jobId = jobId ∧ request.action = .retryable ∧ (s.reply op).isOk
  | _ => False

/-- An operation fails the job at once: a terminal failure or a force_fail that
succeeds. -/
def FailsAtOnce (op : Op) (s : Store) (jobId : Bytes) : Prop :=
  match op with
  | failOrRetry request =>
      request.jobId = jobId ∧ request.action = .terminal ∧ (s.reply op).isOk
  | operator .forceFail failed _ => failed = jobId ∧ (s.reply op).isOk
  | _ => False

/-- Heartbeats, reserves, reaps, reschedules, and the enqueues and operator moves of
a job that has not failed. -/
def KeepsFailures (op : Op) (s : Store) (jobId : Bytes) : Prop :=
  match op with
  | heartbeat _ _ _ _ _ | reserve _ _ _ _ | reapExpired _ _ | reschedule _ _ _ => True
  | enqueue _ _ | operator .requeue _ _ | operator .retryNow _ _ =>
      s.failed.score jobId = none
  | _ => False

instance (op : Op) (s : Store) (jobId : Bytes) : Decidable (op.Starts s jobId) :=
  match op with
  | enqueue _ _ => inferInstanceAs (Decidable (_ ∨ _))
  | operator .requeue _ _ | operator .retryNow _ _ | operator .forceRetry _ _ =>
      inferInstanceAs (Decidable (_ = true))
  | operator .forceAck _ _ | ack _ _ _ _ | completeAndReschedule _ _ _ _ _ =>
      inferInstanceAs (Decidable True)
  | operator .cancel _ _ | operator .forceFail _ _ | reschedule _ _ _ | reserve _ _ _ _
  | heartbeat _ _ _ _ _ | failOrRetry _ | reapExpired _ _ | purgeFailedRead _
  | purgeFailedDelete _ | workersCleanup _ => inferInstanceAs (Decidable False)

instance (op : Op) (s : Store) (jobId : Bytes) : Decidable (op.BeginsLifecycle s jobId) := by
  unfold BeginsLifecycle
  infer_instance

instance (op : Op) (s : Store) (jobId : Bytes) : Decidable (op.CountsFailure s jobId) :=
  match op with
  | failOrRetry _ => inferInstanceAs (Decidable (_ ∧ _))
  | enqueue _ _ | reschedule _ _ _ | operator _ _ _ | reserve _ _ _ _ | heartbeat _ _ _ _ _
  | ack _ _ _ _ | completeAndReschedule _ _ _ _ _ | reapExpired _ _ | purgeFailedRead _
  | purgeFailedDelete _ | workersCleanup _ => inferInstanceAs (Decidable False)

end Op

/-- A run whose operations stay within the limit. -/
def RunWithinLimit (limit : UInt32) : Store → List Op → Prop
  | _, [] => True
  | s, op :: ops => op.WithinLimit limit s ∧ RunWithinLimit limit (s.next op) ops

/-- A run whose operations keep the failure counts. -/
def RunKeepsCount : Store → List Op → Prop
  | _, [] => True
  | s, op :: ops => op.KeepsCount s ∧ RunKeepsCount (s.next op) ops

/-- The failures of the current lifecycle of a job after an operation. -/
def lifecycleFailuresAfter (jobId : Bytes) (s : Store) (count : ℕ) (op : Op) : ℕ :=
  if op.BeginsLifecycle s jobId then 0
  else if op.CountsFailure s jobId then count + 1
  else count

/-- The failures of the current lifecycle of a job after a run. -/
def lifecycleFailures (jobId : Bytes) : Store → ℕ → List Op → ℕ
  | _, count, [] => count
  | s, count, op :: ops =>
      lifecycleFailures jobId (s.next op) (lifecycleFailuresAfter jobId s count op) ops

/-- A job in the ready, scheduled or leased set. -/
def Store.IsActive (s : Store) (jobId : Bytes) : Prop :=
  (s.ready.score jobId).isSome ∨ (s.scheduled.score jobId).isSome ∨
    (s.leased.score jobId).isSome

namespace Job

/-- A job that waits or is leased. -/
def IsActive (job : Job) : Prop :=
  match job.placement with
  | .ready _ | .scheduled _ | .leased _ _ _ _ => True
  | _ => False

theorem IsWaiting.isActive {job : Job} (hwaiting : job.IsWaiting) : job.IsActive := by
  unfold IsWaiting at hwaiting
  unfold IsActive
  split at hwaiting <;> simp_all

/-- An active job has failed as often as its lifecycle. -/
def Counts (count : ℕ) (job : Job) : Prop := job.IsActive → job.failures.getD 0 = count

/-- An active job has failed as often as its lifecycle, and no more than the limit. -/
def WithinBudget (limit : UInt32) (count : ℕ) (job : Job) : Prop :=
  job.IsActive → job.failures.getD 0 = count ∧ count ≤ limit.toNat

end Job

namespace Op

variable {op : Op} {job job' : Job}

/-- The states of a job from which an operation starts a lifecycle. -/
def StartsFrom (op : Op) (job : Job) : Prop :=
  match op with
  | enqueue _ _ => job.placement = .absent ∨ ∃ score, job.placement = .failed score
  | operator .requeue _ _ | operator .retryNow _ _ | operator .forceRetry _ _ =>
      ∃ score, job.placement = .failed score
  | operator .forceAck _ _ | ack _ _ _ _ | completeAndReschedule _ _ _ _ _ => True
  | _ => False

theorem starts_iff {s : Store} {jobs : Bytes → Job} (hrefines : Refines s jobs)
    (op : Op) (jobId : Bytes) : op.Starts s jobId ↔ op.StartsFrom (jobs jobId) := by
  have hfailed := hrefines.failed_isSome_iff jobId
  have hknown := Store.known_iff (hrefines.slot_eq jobId)
  cases op with
  | operator op operated now => cases op <;> simp [Starts, StartsFrom, hfailed]
  | _ => simp [Starts, StartsFrom, hfailed, hknown, Job.IsPlaced]

/-- A started lifecycle has no failures. -/
theorem failures_of_startsFrom (hwf : job.Wf) (houtcome : op.outcome job = some job')
    (hstarts : op.StartsFrom job) : job'.failures = none := by
  cases op with
  | enqueue request now =>
      rcases failures_of_enqueue houtcome with ⟨_, hcleared⟩ | ⟨hunfailed, hkept⟩
      · exact hcleared
      · rcases hstarts with habsent | ⟨score, hfailed⟩
        · rw [hkept, hwf.absent habsent]
        · exact absurd hfailed (hunfailed score)
  | operator op operated now =>
      obtain ⟨placement, failures⟩ := job
      cases op <;> cases placement <;> simp_all [outcome, Job.operator, StartsFrom] <;>
        simp [← houtcome]
  | ack | completeAndReschedule =>
      obtain ⟨_, _, _, rfl⟩ := Job.asHolder_eq_some_iff.mp houtcome
      rfl
  | _ => exact hstarts.elim

/-- Every other operation that leaves the job active keeps its failures, except a
retryable failure. -/
theorem failures_of_not_startsFrom (houtcome : op.outcome job = some job')
    (hstarts : ¬ op.StartsFrom job)
    (hfailure : ∀ request, op = failOrRetry request → request.action = .terminal)
    (hactive : job'.IsActive) : job'.failures = job.failures ∧ job.IsActive := by
  obtain ⟨placement, failures⟩ := job
  cases op with
  | enqueue request now =>
      cases placement with
      | absent => exact absurd (Or.inl rfl) hstarts
      | failed score => exact absurd (Or.inr ⟨score, rfl⟩) hstarts
      | ready score | scheduled score | leased deadline workerId leaseToken rerun =>
          rcases failures_of_enqueue houtcome with ⟨⟨_, hfailed⟩, _⟩ | ⟨_, hkept⟩
          · cases hfailed
          · exact ⟨hkept, trivial⟩
  | reschedule rescheduled scheduleAt now =>
      cases placement <;> simp only [outcome, Job.reschedule, Option.some.injEq,
        reduceCtorEq] at houtcome <;> simp [← houtcome, Job.IsActive]
  | operator op operated now =>
      cases op <;> cases placement <;>
        simp_all [outcome, Job.operator, StartsFrom, Job.IsActive, Job.absent] <;>
        cases houtcome <;> simp_all [Job.moveTo]
  | heartbeat =>
      obtain ⟨_, _, hplacement, rfl⟩ := Job.asHolder_eq_some_iff.mp houtcome
      dsimp only at hplacement
      subst hplacement
      exact ⟨rfl, trivial⟩
  | ack | completeAndReschedule => exact absurd trivial hstarts
  | failOrRetry request =>
      obtain ⟨_, _, _, rfl⟩ := Job.asHolder_eq_some_iff.mp houtcome
      simp [Job.IsActive, Job.failurePlacement, hfailure request rfl] at hactive
  | _ => cases houtcome

end Op

namespace Store

theorem isActive_iff {s : Store} {jobId : Bytes} {job : Job}
    (hslot : s.slot jobId = job.toSlot) : s.IsActive jobId ↔ job.IsActive := by
  obtain ⟨placement, failures⟩ := job
  cases placement <;> simp_all [Slot.ext_iff, slot, Job.toSlot, IsActive, Job.IsActive]

/-- A purge selects failed jobs. -/
theorem failed_of_mem_purgeFailedRead {s : Store} {selector : FailedSelector} {jobId : Bytes}
    (hmem : jobId ∈ s.purgeFailedRead selector) : (s.failed.score jobId).isSome := by
  cases selector with
  | jobId selected =>
      simp only [purgeFailedRead] at hmem
      split_ifs at hmem with hfailed
      · rwa [List.mem_singleton.mp hmem]
      · cases hmem
  | olderThan timestamp =>
      obtain ⟨entry, hentry, rfl⟩ := List.mem_map.mp hmem
      have hscore := SortedSet.mem_entries_iff.mp (List.mem_of_mem_filter hentry)
      simp [hscore]
  | all =>
      obtain ⟨entry, hentry, rfl⟩ := List.mem_map.mp hmem
      simp [SortedSet.mem_entries_iff.mp hentry]

end Store

variable {limit : UInt32} {s : Store} {jobs jobs' : Bytes → Job} {op : Op} {jobId : Bytes}
  {count : ℕ}

/-- What a step does to the lifecycle of a job that is active after it. -/
inductive LifecycleStep (op : Op) (s : Store) (jobId : Bytes) (job job' : Job) : Prop
  | begins (hbegins : op.BeginsLifecycle s jobId) (hfailures : job'.failures = none)
  | fails (hbegins : ¬ op.BeginsLifecycle s jobId) (hcounts : op.CountsFailure s jobId)
      (houtcome : op.outcome job = some job')
  | continues (hbegins : ¬ op.BeginsLifecycle s jobId) (hcounts : ¬ op.CountsFailure s jobId)
      (hactive : job.IsActive) (hfailures : job'.failures = job.failures)

/-- An operation aimed at the job begins a lifecycle, counts a failure or keeps the count. -/
theorem lifecycleStep_of_target (hrefines : Refines s jobs) (hwf : (jobs jobId).Wf)
    (hrefines' : Refines (s.next op) jobs')
    (hstep : JobStep op (s.reply op) jobId (jobs jobId) (jobs' jobId))
    (htarget : op.target = some jobId) (hactive : (jobs' jobId).IsActive) :
    LifecycleStep op s jobId (jobs jobId) (jobs' jobId) := by
  rw [jobStep_of_target htarget, if_pos rfl] at hstep
  obtain ⟨hjob, hok⟩ := hstep
  cases houtcome : op.outcome (jobs jobId) with
  | none =>
      rw [houtcome] at hjob hok
      have hbegins : ¬ op.BeginsLifecycle s jobId := fun hbegins =>
        absurd hbegins.2.1 (by simp [hok])
      have hcounts : ¬ op.CountsFailure s jobId := by
        cases op <;> simp_all [Op.CountsFailure]
      rw [Option.getD_none] at hjob
      exact .continues hbegins hcounts (hjob ▸ hactive) (hjob ▸ rfl)
  | some job' =>
      rw [houtcome] at hjob hok
      obtain rfl : jobs' jobId = job' := hjob
      by_cases hstarts : op.StartsFrom (jobs jobId)
      · have hknown : (s.next op).Known jobId := by
          rw [Store.known_iff (hrefines'.slot_eq jobId)]
          intro habsent
          simp [Job.IsActive, habsent] at hactive
        exact .begins ⟨htarget, hok, (Op.starts_iff hrefines op jobId).mpr hstarts, hknown⟩
          (Op.failures_of_startsFrom hwf houtcome hstarts)
      · have hbegins : ¬ op.BeginsLifecycle s jobId := fun hbegins =>
          hstarts ((Op.starts_iff hrefines op jobId).mp hbegins.2.2.1)
        by_cases hcounts : op.CountsFailure s jobId
        · exact .fails hbegins hcounts houtcome
        · have hterminal : ∀ request, op = .failOrRetry request →
              request.action = .terminal := by
            rintro request rfl
            by_contra haction
            refine hcounts ⟨Option.some.inj htarget, ?_, hok⟩
            cases hkind : request.action with
            | retryable => rfl
            | terminal => exact absurd hkind haction
          obtain ⟨hsame, hbefore⟩ :=
            Op.failures_of_not_startsFrom houtcome hstarts hterminal hactive
          exact .continues hbegins hcounts hbefore hsame

/-- Every operation begins a lifecycle of the job, counts a failure or keeps the count. -/
theorem lifecycleStep (hrefines : Refines s jobs) (hwf : (jobs jobId).Wf)
    (hrefines' : Refines (s.next op) jobs')
    (hstep : JobStep op (s.reply op) jobId (jobs jobId) (jobs' jobId)) (hop : op.KeepsCount s)
    (hactive : (jobs' jobId).IsActive) : LifecycleStep op s jobId (jobs jobId) (jobs' jobId) := by
  by_cases htarget : op.target = some jobId
  · exact lifecycleStep_of_target hrefines hwf hrefines' hstep htarget hactive
  · have hbegins : ¬ op.BeginsLifecycle s jobId := fun hbegins => htarget hbegins.1
    have hcounts : ¬ op.CountsFailure s jobId := fun hcounts => by
      cases op with
      | failOrRetry request => exact htarget (congrArg some hcounts.1)
      | _ => exact hcounts
    cases hstep.change with
    | kept hkept => exact .continues hbegins hcounts (hkept ▸ hactive) (hkept ▸ rfl)
    | transition htarget' _ _ => exact absurd htarget' htarget
    | leased hwaiting _ _ hleased =>
        exact .continues hbegins hcounts hwaiting.isActive (hleased ▸ rfl)
    | lost _ hshort _ => exact absurd hop.1 (not_le.mpr hshort)
    | reaped hreap =>
        obtain ⟨_, _, _, _, hplacement, _, hreaped⟩ := Job.reap_eq_some_iff.mp hreap
        exact .continues hbegins hcounts (by simp [Job.IsActive, hplacement]) (hreaped ▸ rfl)
    | purged hmem hpurged =>
        obtain ⟨selector, hselected⟩ := hop.2
        obtain ⟨score, hplacement⟩ := (hrefines.failed_isSome_iff jobId).mp
          (Store.failed_of_mem_purgeFailedRead (hselected ▸ hmem))
        rw [hpurged] at hactive
        simp [Job.purge, hplacement, Job.absent, Job.IsActive] at hactive

/-- A step changes the failures of an active job as those of its lifecycle. -/
theorem counts_next (hrefines : Refines s jobs) (hwf : (jobs jobId).Wf)
    (hrefines' : Refines (s.next op) jobs')
    (hstep : JobStep op (s.reply op) jobId (jobs jobId) (jobs' jobId)) (hop : op.KeepsCount s)
    (hcounts : (jobs jobId).Counts count) :
    (jobs' jobId).Counts (lifecycleFailuresAfter jobId s count op) := by
  intro hactive
  cases lifecycleStep hrefines hwf hrefines' hstep hop hactive with
  | begins hbegins hfailures =>
      rw [lifecycleFailuresAfter, if_pos hbegins, hfailures]
      rfl
  | fails hbegins hfails houtcome =>
      rw [lifecycleFailuresAfter, if_neg hbegins, if_pos hfails]
      cases op with
      | failOrRetry request =>
          obtain ⟨_, _, hplacement, hjob⟩ := Job.asHolder_eq_some_iff.mp houtcome
          have hbefore := hcounts (by simp [Job.IsActive, hplacement])
          rw [hjob]
          simp [Job.countFailure, hbefore]
      | _ => exact hfails.elim
  | continues hbegins hkeeps hbefore hfailures =>
      rw [lifecycleFailuresAfter, if_neg hbegins, if_neg hkeeps, hfailures]
      exact hcounts hbefore

/-- The failures of an active job are those of its lifecycle. -/
theorem counts_run {ops : List Op} (hrun : RunKeepsCount s ops) (hrefines : Refines s jobs)
    (hwf : ∀ other, (jobs other).Wf) (hcounts : (jobs jobId).Counts count) :
    ∃ jobs', Refines (s.run ops) jobs' ∧
      (jobs' jobId).Counts (lifecycleFailures jobId s count ops) := by
  induction ops generalizing s jobs count with
  | nil => exact ⟨jobs, hrefines, hcounts⟩
  | cons op ops ih =>
      obtain ⟨hop, hrest⟩ := hrun
      obtain ⟨jobs', hrefines', hstep⟩ := Store.exec_refines hrefines op
      exact ih hrest hrefines' (fun other => (hwf other).jobStep hop.1 (hstep other))
        (counts_next hrefines (hwf jobId) hrefines' (hstep jobId) hop hcounts)

/-- A retryable failure that is retried stays within the limit. -/
theorem Job.le_limit_of_failure {job job' : Job} {request : FailureRequest}
    (hpolicy : ∃ backoff, request.retryPolicy = .count limit backoff)
    (hretryable : request.action = .retryable)
    (houtcome : (Op.failOrRetry request).outcome job = some job') (hretried : job'.IsActive)
    (hcounts : job.Counts count) : count + 1 ≤ limit.toNat := by
  obtain ⟨backoff, hpolicy⟩ := hpolicy
  obtain ⟨_, _, hplacement, rfl⟩ := asHolder_eq_some_iff.mp houtcome
  have hfailures : job.countFailure = count + 1 := by
    rw [countFailure, hcounts (by simp [IsActive, hplacement])]
  have hwaiting := isWaiting_failurePlacement_iff request.action request.retryPolicy
    (Double.ofInt (micros request.now)) job.countFailure (some job.countFailure)
  rcases failurePlacement_cases request.action (failureArgs request.retryPolicy)
    (Double.ofInt (micros request.now)) (Double.ofInt job.countFailure) with
    heq | heq | ⟨_, heq⟩
  · simp [IsActive, heq] at hretried
  · have hkept := hwaiting.mp (by simp [IsWaiting, heq])
    simp only [hretryable, hpolicy, RetryPolicy.GivesUp, hfailures] at hkept
    simp only [reduceCtorEq, false_or] at hkept
    omega
  · have hkept := hwaiting.mp (by simp [IsWaiting, heq])
    simp only [hretryable, hpolicy, RetryPolicy.GivesUp, hfailures] at hkept
    simp only [reduceCtorEq, false_or] at hkept
    omega

/-- Every operation within the limit keeps the budget. -/
theorem withinBudget_next (hrefines : Refines s jobs) (hwf : (jobs jobId).Wf)
    (hrefines' : Refines (s.next op) jobs')
    (hstep : JobStep op (s.reply op) jobId (jobs jobId) (jobs' jobId))
    (hop : op.WithinLimit limit s) (hbudget : (jobs jobId).WithinBudget limit count) :
    (jobs' jobId).WithinBudget limit (lifecycleFailuresAfter jobId s count op) := by
  have hcounts : (jobs jobId).Counts count := fun hactive => (hbudget hactive).1
  intro hactive
  refine ⟨counts_next hrefines hwf hrefines' hstep hop.keepsCount hcounts hactive, ?_⟩
  cases lifecycleStep hrefines hwf hrefines' hstep hop.keepsCount hactive with
  | begins hbegins _ =>
      rw [lifecycleFailuresAfter, if_pos hbegins]
      exact Nat.zero_le _
  | fails hbegins hfails houtcome =>
      rw [lifecycleFailuresAfter, if_neg hbegins, if_pos hfails]
      cases op with
      | failOrRetry request =>
          exact Job.le_limit_of_failure hop.2 hfails.2.1 houtcome hactive hcounts
      | _ => exact hfails.elim
  | continues hbegins hkeeps hbefore _ =>
      rw [lifecycleFailuresAfter, if_neg hbegins, if_neg hkeeps]
      exact (hbudget hbefore).2

/-- A run within the limit keeps the budget of every job. -/
theorem withinBudget_run {ops : List Op} (hrun : RunWithinLimit limit s ops)
    (hrefines : Refines s jobs) (hwf : ∀ other, (jobs other).Wf)
    (hbudget : (jobs jobId).WithinBudget limit count) :
    ∃ jobs', Refines (s.run ops) jobs' ∧ (∀ other, (jobs' other).Wf) ∧
      (jobs' jobId).WithinBudget limit (lifecycleFailures jobId s count ops) := by
  induction ops generalizing s jobs count with
  | nil => exact ⟨jobs, hrefines, hwf, hbudget⟩
  | cons op ops ih =>
      obtain ⟨hop, hrest⟩ := hrun
      obtain ⟨jobs', hrefines', hstep⟩ := Store.exec_refines hrefines op
      exact ih hrest hrefines' (fun other => (hwf other).jobStep hop.1 (hstep other))
        (withinBudget_next hrefines (hwf jobId) hrefines' (hstep jobId) hop hbudget)

/-! ## The decision on a failure -/

/-- A retryable failure waits again while the limit is not reached, and fails the
job once it is. -/
theorem Store.next_of_countsFailure (hrefines : Refines s jobs) (hop : op.WithinLimit limit s)
    (hcounts : op.CountsFailure s jobId) (hbudget : (jobs jobId).WithinBudget limit count) :
    ((s.next op).Waits jobId ↔ count < limit.toNat) ∧
      (((s.next op).failed.score jobId).isSome ↔ count = limit.toNat) := by
  obtain ⟨jobs', hrefines', hstep⟩ := exec_refines hrefines op
  cases op with
  | failOrRetry request =>
      obtain ⟨rfl, hretryable, hok⟩ := hcounts
      obtain ⟨hjob, hsome⟩ := (if_pos rfl).mp ((jobStep_of_target rfl).mp (hstep request.jobId))
      obtain ⟨job', houtcome⟩ := Option.isSome_iff_exists.mp (hsome.symm.trans hok)
      rw [houtcome, Option.getD_some] at hjob
      obtain ⟨backoff, hpolicy⟩ := hop.2
      obtain ⟨_, _, hplacement, hresult⟩ := Job.asHolder_eq_some_iff.mp houtcome
      obtain ⟨hcount, hle⟩ := hbudget (by simp [Job.IsActive, hplacement])
      have hfailures : (jobs request.jobId).countFailure = count + 1 := by
        rw [Job.countFailure, hcount]
      have hwaiting := Job.isWaiting_failurePlacement_iff request.action request.retryPolicy
        (Double.ofInt (micros request.now)) (jobs request.jobId).countFailure
        (some (jobs request.jobId).countFailure)
      simp only [hretryable, hpolicy, RetryPolicy.GivesUp, hfailures, reduceCtorEq,
        false_or] at hwaiting
      rw [waits_iff (hrefines'.slot_eq _), hrefines'.failed_isSome_iff, hjob, hresult]
      simp only [hretryable, hpolicy, hfailures]
      refine ⟨by rw [hwaiting]; omega, ?_⟩
      rcases Job.failurePlacement_cases .retryable (failureArgs (.count limit backoff))
        (Double.ofInt (micros request.now)) (Double.ofInt (count + 1)) with
        heq | heq | ⟨_, heq⟩
      · have hgivenUp := mt hwaiting.mpr (by simp [heq, Job.IsWaiting])
        simp only [heq, Placement.failed.injEq, exists_eq', true_iff]
        omega
      · have hretried := hwaiting.mp (by simp [heq, Job.IsWaiting])
        simp only [heq, reduceCtorEq, exists_const, false_iff]
        omega
      · have hretried := hwaiting.mp (by simp [heq, Job.IsWaiting])
        simp only [heq, reduceCtorEq, exists_const, false_iff]
        omega
  | _ => exact hcounts.elim

/-- A terminal failure and a force_fail fail the job. -/
theorem Store.next_of_failsAtOnce (hrefines : Refines s jobs) (hfails : op.FailsAtOnce s jobId) :
    ((s.next op).failed.score jobId).isSome := by
  obtain ⟨jobs', hrefines', hstep⟩ := exec_refines hrefines op
  rw [hrefines'.failed_isSome_iff]
  cases op with
  | failOrRetry request =>
      obtain ⟨rfl, hterminal, hok⟩ := hfails
      obtain ⟨hjob, hsome⟩ := (if_pos rfl).mp ((jobStep_of_target rfl).mp (hstep request.jobId))
      obtain ⟨job', houtcome⟩ := Option.isSome_iff_exists.mp (hsome.symm.trans hok)
      obtain ⟨_, _, _, hresult⟩ := Job.asHolder_eq_some_iff.mp houtcome
      rw [hjob, houtcome, Option.getD_some, hresult]
      simp [Job.failurePlacement, hterminal]
  | operator command operated now =>
      cases command with
      | forceFail =>
          obtain ⟨rfl, hok⟩ := hfails
          obtain ⟨hjob, hsome⟩ := (if_pos rfl).mp ((jobStep_of_target rfl).mp (hstep operated))
          have houtcome := hsome.symm.trans hok
          rw [hjob]
          simp only [Op.outcome, Job.operator] at houtcome ⊢
          split at houtcome <;> simp_all
      | _ => exact hfails.elim
  | _ => exact hfails.elim

/-- The transitions among these operations keep the failures. -/
theorem Op.failures_of_keepsFailures (hrefines : Refines s jobs) {job' : Job}
    (hkeeps : op.KeepsFailures s jobId) (houtcome : op.outcome (jobs jobId) = some job') :
    job'.failures = (jobs jobId).failures := by
  have hfailed := hrefines.failed_isSome_iff jobId
  cases op with
  | enqueue request now =>
      have hunfailed : s.failed.score jobId = none := hkeeps
      rcases failures_of_enqueue houtcome with ⟨hfailing, _⟩ | ⟨_, hkept⟩
      · have hsome := hfailed.mpr hfailing
        rw [hunfailed] at hsome
        cases hsome
      · exact hkept
  | reschedule rescheduled scheduleAt now =>
      cases hplacement : (jobs jobId).placement <;>
        simp only [outcome, Job.reschedule, hplacement, Option.some.injEq, reduceCtorEq]
          at houtcome <;>
        simp [← houtcome]
  | operator command operated now =>
      cases command <;> cases hplacement : (jobs jobId).placement <;>
        simp_all [KeepsFailures, outcome, Job.operator] <;> simp [← houtcome, Job.moveTo]
  | heartbeat =>
      obtain ⟨_, _, _, rfl⟩ := Job.asHolder_eq_some_iff.mp houtcome
      rfl
  | reserve | reapExpired => cases houtcome
  | _ => exact hkeeps.elim

/-- Heartbeats, reserves, reaps, reschedules and moves keep the failures of a job. -/
theorem Store.failures_of_keepsFailures (hrefines : Refines s jobs)
    (hop : op.WithinLimit limit s) (hkeeps : op.KeepsFailures s jobId) :
    (s.next op).failures.lookup jobId = s.failures.lookup jobId := by
  obtain ⟨jobs', hrefines', hstep⟩ := exec_refines hrefines op
  rw [hrefines'.failures_eq, hrefines.failures_eq]
  cases (hstep jobId).change with
  | kept hkept => rw [hkept]
  | transition _ houtcome _ => exact Op.failures_of_keepsFailures hrefines hkeeps houtcome
  | leased _ _ _ hleased =>
      rw [hleased]
      rfl
  | lost _ hshort _ => exact absurd hop.1 (not_le.mpr hshort)
  | reaped hreap =>
      obtain ⟨_, _, _, _, _, _, hreaped⟩ := Job.reap_eq_some_iff.mp hreap
      rw [hreaped]
      rfl
  | purged _ _ => exact hkeeps.elim

namespace Store

/-- Under a retry limit, in every run from the empty namespace: an active job has
failed exactly as often as its lifecycle, and no more than the limit; only failures
and new lifecycles change the count; a retryable failure waits again exactly while
the limit is not reached, and fails the job exactly when it is; terminal failures and
force_fail fail the job at once. -/
theorem retry_budget {ops : List Op} (hrun : RunWithinLimit limit empty ops) (jobId : Bytes)
    {s : Store} (hs : s = empty.run ops) {count : ℕ}
    (hcount : count = lifecycleFailures jobId empty 0 ops) :
    (s.IsActive jobId →
      (s.failures.lookup jobId).getD 0 = count ∧ count ≤ limit.toNat) ∧
    (∀ op : Op, op.WithinLimit limit s → op.KeepsFailures s jobId →
      (s.next op).failures.lookup jobId = s.failures.lookup jobId) ∧
    (∀ op : Op, op.WithinLimit limit s → op.CountsFailure s jobId →
      ((s.next op).Waits jobId ↔ count < limit.toNat) ∧
        (((s.next op).failed.score jobId).isSome ↔ count = limit.toNat)) ∧
    (∀ op : Op, op.FailsAtOnce s jobId → ((s.next op).failed.score jobId).isSome) := by
  subst hs hcount
  have hfresh : Job.absent.WithinBudget limit 0 := fun hactive => hactive.elim
  obtain ⟨jobs, hrefines, _, hbudget⟩ :=
    withinBudget_run hrun Refines.empty (fun _ => Job.wf_absent) hfresh
  refine ⟨fun hactive => ?_, ?_, ?_, ?_⟩
  · rw [hrefines.failures_eq]
    exact hbudget ((isActive_iff (hrefines.slot_eq jobId)).mp hactive)
  · exact fun op hop hkeeps => failures_of_keepsFailures hrefines hop hkeeps
  · exact fun op hop hcounts => next_of_countsFailure hrefines hop hcounts hbudget
  · exact fun op hfails => next_of_failsAtOnce hrefines hfails

/-- A failure of the sample worker under a token. -/
def sampleFailure (leaseToken : Bytes) : Op :=
  .failOrRetry ⟨"worker", "job", leaseToken, .retryable, .count 1 .none, .ofSeconds 72⟩

/-- The job of the sample run fails once and is leased again. -/
def sampleBudgetRun : List Op :=
  sampleLeaseRun ++ [sampleFailure "token", .reserve sampleConfig 1 (.ofSeconds 73) ["fresh"]]

/-- With a limit of one, the job is retried after its first failure, and fails at its second. -/
theorem retry_budget_sample :
    ((empty.run sampleBudgetRun).failures.lookup (utf8 "job")).getD 0 = 1 ∧
      lifecycleFailures "job" empty 0 sampleBudgetRun = 1 ∧
      (((empty.run sampleBudgetRun).next (sampleFailure "fresh")).failed.score "job").isSome := by
  have hrun : RunWithinLimit 1 empty sampleBudgetRun :=
    ⟨⟨trivial, trivial⟩, ⟨by decide, .none, rfl⟩, ⟨trivial, .none, rfl⟩,
      ⟨by decide, .none, rfl⟩, trivial⟩
  have hfailures : lifecycleFailures "job" empty 0 sampleBudgetRun = 1 := by decide
  obtain ⟨hcounted, _, hfails, _⟩ := retry_budget hrun "job" rfl rfl
  have hactive : (empty.run sampleBudgetRun).IsActive "job" := by
    unfold IsActive
    decide
  refine ⟨by rw [(hcounted hactive).1, hfailures, Nat.cast_one], hfailures, ?_⟩
  exact (hfails (sampleFailure "fresh") ⟨trivial, .none, rfl⟩ (by decide)).2.mpr hfailures

end Store

end Redloop
