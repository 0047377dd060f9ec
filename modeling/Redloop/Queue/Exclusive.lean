/-
# Exclusive leases

From the reserve that grants a lease until the lease is completed, forced away by
an operator or reaped at or after its deadline, the job stays leased to the same
worker under the same token, with the deadline last written for it. No other
operation disturbs it, so no reserve returns the job meanwhile. The script of the reap
reads the time as a double, so this holds exactly of the runs in which no reap is rounded
up to the deadline of a lease that it takes.
-/

import Redloop.Queue.Fencing
import Redloop.Queue.Reaping

namespace Redloop

namespace Op

/-- The operations that end a lease with the given deadline: a completion of the
lease that succeeds, a force command on the job, and a reap at a time, as the
script reads it, at or after the deadline. -/
def EndsLease (op : Op) (reply : Reply) (workerId jobId leaseToken : Bytes) (deadline : ℤ) :
    Prop :=
  match op with
  | ack _ _ _ _ | completeAndReschedule _ _ _ _ _ | failOrRetry _ =>
      op.IsCompletion workerId jobId leaseToken ∧ reply.isOk
  | operator .forceAck job _ | operator .forceFail job _ => job = jobId
  | reapExpired now _ => deadline ≤ Double.ofInt (micros now)
  | _ => False

instance (op : Op) (workerId jobId leaseToken : Bytes) :
    Decidable (op.IsCompletion workerId jobId leaseToken) := by
  unfold IsCompletion
  split <;> infer_instance

instance (op : Op) (reply : Reply) (workerId jobId leaseToken : Bytes) (deadline : ℤ) :
    Decidable (op.EndsLease reply workerId jobId leaseToken deadline) := by
  unfold EndsLease
  split <;> infer_instance

/-- The operations that end a lease by the time of the clock: those above, but a reap only
at a time at or after the deadline itself. -/
def ClosesLease (op : Op) (reply : Reply) (workerId jobId leaseToken : Bytes) (deadline : ℤ) :
    Prop :=
  match op with
  | reapExpired now _ => deadline ≤ micros now
  | _ => op.EndsLease reply workerId jobId leaseToken deadline

/-- The client and operator commands on a job that respect its lease. -/
def RespectsLease (op : Op) (jobId : Bytes) : Prop :=
  match op with
  | enqueue request _ => request.jobId = jobId
  | reschedule job _ _ => job = jobId
  | operator .cancel job _ | operator .requeue job _ | operator .retryNow job _
  | operator .forceRetry job _ => job = jobId
  | _ => False

/-- The deadline of a lease after an operation: a heartbeat that succeeds writes
the one it asks for. -/
def deadlineAfter (op : Op) (reply : Reply) (workerId jobId leaseToken : Bytes)
    (deadline : ℤ) : ℤ :=
  match op with
  | heartbeat worker job token now leaseDuration =>
      if (worker = workerId ∧ job = jobId ∧ token = leaseToken) ∧ reply.isOk then
        Double.ofInt (heartbeatDeadline now leaseDuration)
      else deadline
  | _ => deadline

end Op

variable {s : Store} {jobs : Bytes → Job} {op : Op} {workerId jobId leaseToken : Bytes}
  {deadline : ℤ}

namespace Job

variable {job job' : Job} {rerun : Bool}

/-- An operation aimed at a leased job keeps the lease unless it ends it. -/
theorem leased_of_target {reply : Reply} (htarget : op.target = some jobId)
    (hplacement : job.placement = .leased deadline workerId leaseToken rerun)
    (hok : reply.isOk = (op.outcome job).isSome)
    (hends : ¬ op.EndsLease reply workerId jobId leaseToken deadline) :
    ∃ marked, ((op.outcome job).getD job).placement =
      .leased (op.deadlineAfter reply workerId jobId leaseToken deadline) workerId leaseToken
        marked := by
  obtain ⟨placement, failures⟩ := job
  subst hplacement
  cases op with
  | enqueue request now =>
      cases hallow : request.allowExistingCurrentRun <;>
        simp [Op.outcome, hallow, Job.enqueueImmediate, Job.enqueueScheduled, Job.moveTo,
          Op.deadlineAfter]
  | reschedule job scheduleAt now => simp [Op.outcome, Job.reschedule, Op.deadlineAfter]
  | operator op job now =>
      cases op <;> simp_all [Op.outcome, Job.operator, Op.deadlineAfter, Op.EndsLease, Op.target]
  | heartbeat worker job token now leaseDuration =>
      by_cases hholder : workerId = worker ∧ leaseToken = token
      · obtain ⟨rfl, rfl⟩ := hholder
        simp_all [Op.outcome, Job.heartbeat, Job.asHolder, Job.moveTo, Op.deadlineAfter,
          Op.target]
      · have hother : ¬ ((worker = workerId ∧ job = jobId ∧ token = leaseToken) ∧ reply.isOk) := by
          rintro ⟨⟨rfl, _, rfl⟩, _⟩
          exact hholder ⟨rfl, rfl⟩
        have hrefused : (Op.heartbeat worker job token now leaseDuration).outcome
            ⟨.leased deadline workerId leaseToken rerun, failures⟩ = none := if_neg hholder
        simp [hrefused, Op.deadlineAfter, hother]
  | ack worker job token now =>
      have hother : ¬ (workerId = worker ∧ leaseToken = token) := by
        rintro ⟨rfl, rfl⟩
        simp_all [Op.outcome, Job.ack, Job.asHolder, Op.EndsLease, Op.IsCompletion, Op.target]
      simp [Op.outcome, Job.ack, Job.asHolder, hother, Op.deadlineAfter]
  | completeAndReschedule worker job token scheduleAt now =>
      have hother : ¬ (workerId = worker ∧ leaseToken = token) := by
        rintro ⟨rfl, rfl⟩
        simp_all [Op.outcome, Job.completeAndReschedule, Job.asHolder, Op.EndsLease,
          Op.IsCompletion, Op.target]
      simp [Op.outcome, Job.completeAndReschedule, Job.asHolder, hother, Op.deadlineAfter]
  | failOrRetry request =>
      have hother : ¬ (workerId = request.workerId ∧ leaseToken = request.leaseToken) := by
        rintro ⟨rfl, rfl⟩
        simp_all [Op.outcome, Job.failOrRetry, Job.asHolder, Op.EndsLease, Op.IsCompletion,
          Op.target]
      simp [Op.outcome, Job.failOrRetry, Job.asHolder, hother, Op.deadlineAfter]
  | _ => cases htarget

/-- Every operation keeps a lease unless it ends it. -/
theorem leased_of_jobStep {reply : Reply} (hstep : JobStep op reply jobId job job')
    (hplacement : job.placement = .leased deadline workerId leaseToken rerun)
    (hends : ¬ op.EndsLease reply workerId jobId leaseToken deadline) :
    ∃ marked, job'.placement =
      .leased (op.deadlineAfter reply workerId jobId leaseToken deadline) workerId leaseToken
        marked := by
  by_cases htarget : op.target = some jobId
  · rw [jobStep_of_target htarget, if_pos rfl] at hstep
    rw [hstep.1]
    exact leased_of_target htarget hplacement hstep.2 hends
  · have hdeadline : op.deadlineAfter reply workerId jobId leaseToken deadline = deadline := by
      cases op <;> simp_all [Op.deadlineAfter, Op.target]
    rw [hdeadline]
    cases hstep.change with
    | kept hkept => exact ⟨rerun, hkept ▸ hplacement⟩
    | transition htarget' _ _ => exact absurd htarget' htarget
    | leased hwaiting _ _ _ => simp [IsWaiting, hplacement] at hwaiting
    | lost hwaiting _ _ => simp [IsWaiting, hplacement] at hwaiting
    | reaped hreap =>
        obtain ⟨found, _, _, _, hfound, hexpired, _⟩ := reap_eq_some_iff.mp hreap
        rw [hplacement] at hfound
        cases hfound
        exact absurd hexpired hends
    | purged _ hpurged => exact ⟨rerun, by simp [hpurged, purge, hplacement]⟩

end Job

/-! ## A held lease in the store -/

/-- The structures of the store say that the job is leased as given, and nothing else. -/
def Store.ShowsLease (s : Store) (workerId jobId leaseToken : Bytes) (deadline : ℤ) : Prop :=
  s.leased.score jobId = some deadline ∧
    s.leaseMeta.lookup jobId = some (packMeta workerId leaseToken) ∧
    s.ready.score jobId = none ∧ s.scheduled.score jobId = none ∧ s.failed.score jobId = none

/-- A store in which the job is leased as given. -/
def Store.Leases (s : Store) (workerId jobId leaseToken : Bytes) (deadline : ℤ) : Prop :=
  ∃ jobs rerun, Refines s jobs ∧
    (jobs jobId).placement = .leased deadline workerId leaseToken rerun

namespace Store

/-- What a lease looks like in the store. -/
theorem Leases.showsLease (hleases : s.Leases workerId jobId leaseToken deadline) :
    s.ShowsLease workerId jobId leaseToken deadline := by
  obtain ⟨jobs, rerun, hrefines, hplacement⟩ := hleases
  have hslot := hrefines.slot_eq jobId
  simp_all [ShowsLease, Slot.ext_iff, Store.slot, Job.toSlot]

/-- One operation. -/
theorem Leases.next (hleases : s.Leases workerId jobId leaseToken deadline)
    (hends : ¬ op.EndsLease (s.reply op) workerId jobId leaseToken deadline) :
    (s.next op).Leases workerId jobId leaseToken
      (op.deadlineAfter (s.reply op) workerId jobId leaseToken deadline) := by
  obtain ⟨jobs, rerun, hrefines, hplacement⟩ := hleases
  obtain ⟨jobs', hrefines', hstep⟩ := exec_refines hrefines op
  obtain ⟨marked, hplacement'⟩ := Job.leased_of_jobStep (hstep jobId) hplacement hends
  exact ⟨jobs', marked, hrefines', hplacement'⟩

/-- No reserve returns a leased job. -/
theorem Leases.not_mem_leases (hleases : s.Leases workerId jobId leaseToken deadline)
    (config : WorkerConfig) (availableCapacity : ℕ) (now : Timestamp) (leaseTokens : List Bytes)
    (token : Bytes) :
    (jobId, token) ∉ (s.reply (.reserve config availableCapacity now leaseTokens)).leases := by
  obtain ⟨jobs, rerun, hrefines, hplacement⟩ := hleases
  obtain ⟨jobs', -, hstep⟩ :=
    exec_refines hrefines (.reserve config availableCapacity now leaseTokens)
  have hbusy : ¬ (jobs jobId).IsWaiting := by simp [Job.IsWaiting, hplacement]
  rcases hstep jobId with ⟨_, hnone⟩ | ⟨hwaiting, _⟩ | ⟨hwaiting, _⟩
  · exact hnone token
  · exact absurd hwaiting hbusy
  · exact absurd hwaiting hbusy

/-- A reserve leases the jobs it returns. -/
theorem leases_of_reserve (hrefines : Refines s jobs) {config : WorkerConfig}
    {availableCapacity : ℕ} {now : Timestamp} {leaseTokens : List Bytes}
    (hgrant : (jobId, leaseToken) ∈
      (s.reply (.reserve config availableCapacity now leaseTokens)).leases) :
    (s.next (.reserve config availableCapacity now leaseTokens)).Leases config.workerId jobId
      leaseToken (reserveArgs config availableCapacity now leaseTokens).deadline := by
  obtain ⟨jobs', hrefines', hstep⟩ :=
    exec_refines hrefines (.reserve config availableCapacity now leaseTokens)
  rcases hstep jobId with ⟨_, hnone⟩ | ⟨_, token, _, _, honly, hleased⟩ | ⟨_, _, hnone, _⟩
  · exact absurd hgrant (hnone leaseToken)
  · rw [← honly leaseToken hgrant] at hleased
    exact ⟨jobs', false, hrefines', by rw [hleased]; rfl⟩
  · exact absurd hgrant (hnone leaseToken)

/-- The commands that respect leases. -/
theorem Leases.next_of_respectsLease (hleases : s.Leases workerId jobId leaseToken deadline)
    (hrespects : op.RespectsLease jobId) :
    (s.next op).Leases workerId jobId leaseToken deadline := by
  have hends : ¬ op.EndsLease (s.reply op) workerId jobId leaseToken deadline := by
    cases op with
    | operator op job now => cases op <;> simp_all [Op.RespectsLease, Op.EndsLease]
    | _ => simp_all [Op.RespectsLease, Op.EndsLease]
  have hdeadline : op.deadlineAfter (s.reply op) workerId jobId leaseToken deadline = deadline := by
    cases op <;> simp_all [Op.RespectsLease, Op.deadlineAfter]
  exact hdeadline ▸ hleases.next hends

/-- A reap keeps the leases that it does not take. -/
theorem Leases.next_of_not_reaped (hleases : s.Leases workerId jobId leaseToken deadline)
    {now : Timestamp} {limit : ℕ}
    (hother : jobId ∉ s.reaped (Double.ofInt (micros now)) limit) :
    (s.next (.reapExpired now limit)).Leases workerId jobId leaseToken deadline := by
  obtain ⟨jobs, rerun, hrefines, hplacement⟩ := hleases
  obtain ⟨jobs', hrefines', -⟩ := exec_refines hrefines (.reapExpired now limit)
  have hslot := slot_of_not_reaped hother
  rw [hrefines'.slot_eq, hrefines.slot_eq] at hslot
  exact ⟨jobs', rerun, hrefines', Job.toSlot_injective hslot ▸ hplacement⟩

/-- An operation that does not end the lease by the time of the clock keeps it, unless it is
a reap whose time is rounded up to the deadline and that takes the lease. -/
theorem Leases.next_of_open (hleases : s.Leases workerId jobId leaseToken deadline)
    (hopen : ¬ op.ClosesLease (s.reply op) workerId jobId leaseToken deadline)
    (hintime : ∀ now limit, op = .reapExpired now limit → micros now < deadline →
      deadline ≤ Double.ofInt (micros now) →
        jobId ∉ s.reaped (Double.ofInt (micros now)) limit) :
    (s.next op).Leases workerId jobId leaseToken
      (op.deadlineAfter (s.reply op) workerId jobId leaseToken deadline) := by
  by_cases hends : op.EndsLease (s.reply op) workerId jobId leaseToken deadline
  · -- only of a reap do the two notions differ
    cases op with
    | reapExpired now limit =>
        exact hleases.next_of_not_reaped (hintime now limit rfl (not_le.mp hopen) hends)
    | _ => exact absurd hends hopen
  · exact hleases.next hends

end Store

/-! ## Runs -/

/-- A run that holds a lease: a reserve has granted it, and since then it has not ended by
the time of the clock. The number is the deadline that the reserve or the last heartbeat of
the lease wrote. -/
inductive LeaseHeld (workerId jobId leaseToken : Bytes) : List Op → ℤ → Prop where
  /-- A reserve of the worker has granted the lease. -/
  | granted {before : List Op} {config : WorkerConfig} {availableCapacity : ℕ}
      {now : Timestamp} {leaseTokens : List Bytes} (hworker : config.workerId = workerId)
      (hgrant : (jobId, leaseToken) ∈ ((Store.empty.run before).reply
        (.reserve config availableCapacity now leaseTokens)).leases) :
      LeaseHeld workerId jobId leaseToken
        (before ++ [.reserve config availableCapacity now leaseTokens])
        (reserveArgs config availableCapacity now leaseTokens).deadline
  /-- An operation has not ended it. -/
  | kept {ops : List Op} {op : Op} {deadline : ℤ}
      (hheld : LeaseHeld workerId jobId leaseToken ops deadline)
      (hopen : ¬ op.ClosesLease ((Store.empty.run ops).reply op) workerId jobId leaseToken
        deadline) :
      LeaseHeld workerId jobId leaseToken (ops ++ [op])
        (op.deadlineAfter ((Store.empty.run ops).reply op) workerId jobId leaseToken deadline)

/-- What the store after a run owes to the leases that the run holds: the job stays leased
to the same worker under the same token with the deadline last written, no reserve returns
it, the commands that respect leases leave it alone, and no other lease of the job is held. -/
structure KeepsLeases (ops : List Op) : Prop where
  shown : ∀ workerId jobId leaseToken deadline, LeaseHeld workerId jobId leaseToken ops deadline →
    (Store.empty.run ops).ShowsLease workerId jobId leaseToken deadline
  notReserved : ∀ workerId jobId leaseToken deadline,
    LeaseHeld workerId jobId leaseToken ops deadline →
      ∀ config availableCapacity now leaseTokens token, (jobId, token) ∉
        ((Store.empty.run ops).reply (.reserve config availableCapacity now leaseTokens)).leases
  respected : ∀ workerId jobId leaseToken deadline,
    LeaseHeld workerId jobId leaseToken ops deadline → ∀ op : Op, op.RespectsLease jobId →
      ((Store.empty.run ops).next op).ShowsLease workerId jobId leaseToken deadline
  single : ∀ workerId jobId leaseToken deadline otherId otherToken other,
    LeaseHeld workerId jobId leaseToken ops deadline →
      LeaseHeld otherId jobId otherToken ops other →
        otherId = workerId ∧ otherToken = leaseToken

/-- Leases are exclusive at every moment of a run. -/
def ExclusiveLeases (ops : List Op) : Prop :=
  ∀ first rest, ops = first ++ rest → KeepsLeases first

/-- No reap of a run takes a held lease before its deadline because its time, read as a
double, is rounded up to that deadline. -/
def ReapsInTime (ops : List Op) : Prop :=
  ∀ first now limit rest, ops = first ++ .reapExpired now limit :: rest →
    ∀ workerId jobId leaseToken deadline, LeaseHeld workerId jobId leaseToken first deadline →
      micros now < deadline → deadline ≤ Double.ofInt (micros now) →
        jobId ∉ (Store.empty.run first).reaped (Double.ofInt (micros now)) limit

/-- A run reaps in time as long as a longer run does. -/
theorem ReapsInTime.of_append {first rest : List Op} (hintime : ReapsInTime (first ++ rest)) :
    ReapsInTime first := by
  intro before now limit after hfirst
  exact hintime before now limit (after ++ rest) (by simp [hfirst])

namespace Store

variable {ops : List Op}

/-- While a lease is held its job is leased, in a run without an early reap. -/
theorem leases_of_leaseHeld (hintime : ReapsInTime ops)
    (hheld : LeaseHeld workerId jobId leaseToken ops deadline) :
    (empty.run ops).Leases workerId jobId leaseToken deadline := by
  induction hheld with
  | @granted before config availableCapacity now leaseTokens hworker hgrant =>
      obtain ⟨jobs, hrefines⟩ := exists_refines_run before
      subst hworker
      rw [run_append, run_cons, run_nil]
      exact leases_of_reserve hrefines hgrant
  | @kept ops op deadline hheld hopen ih =>
      rw [run_append, run_cons, run_nil]
      apply (ih hintime.of_append).next_of_open hopen
      rintro now limit rfl
      exact hintime ops now limit [] rfl _ _ _ _ hheld

/-- A store keeps the leases that it holds. -/
theorem keepsLeases_of_leases
    (hleases : ∀ workerId jobId leaseToken deadline,
      LeaseHeld workerId jobId leaseToken ops deadline →
        (empty.run ops).Leases workerId jobId leaseToken deadline) : KeepsLeases ops where
  shown _ _ _ _ hheld := (hleases _ _ _ _ hheld).showsLease
  notReserved _ _ _ _ hheld := (hleases _ _ _ _ hheld).not_mem_leases
  respected _ _ _ _ hheld _ hrespects :=
    ((hleases _ _ _ _ hheld).next_of_respectsLease hrespects).showsLease
  single _ _ _ _ _ _ _ hheld hother := by
    have hshows := (hleases _ _ _ _ hheld).showsLease
    have hotherShows := (hleases _ _ _ _ hother).showsLease
    exact packMeta_inj.mp (Option.some.inj (hotherShows.2.1.symm.trans hshows.2.1))

/-- Leases are exclusive throughout a run exactly when no reap takes one early because its
time is rounded up. -/
theorem exclusive_lease_iff (ops : List Op) : ExclusiveLeases ops ↔ ReapsInTime ops := by
  constructor
  · intro hexclusive first now limit rest hops workerId jobId leaseToken deadline hheld hearly _
      hreaped
    have hstill : LeaseHeld workerId jobId leaseToken (first ++ [.reapExpired now limit])
        deadline := hheld.kept (not_le.mpr hearly)
    have hkeeps := hexclusive (first ++ [.reapExpired now limit]) rest (by simp [hops])
    have hleased := (hkeeps.shown _ _ _ _ hstill).1
    rw [run_append, run_cons, run_nil, leased_of_reaped hreaped] at hleased
    cases hleased
  · rintro hintime first rest rfl
    exact keepsLeases_of_leases fun _ _ _ _ hheld => leases_of_leaseHeld hintime.of_append hheld

/-- A run whose reaps come at times that doubles hold reaps in time. -/
theorem reapsInTime_of_exact (hexact : ∀ now limit, .reapExpired now limit ∈ ops →
    Double.ofInt (micros now) = micros now) : ReapsInTime ops := by
  rintro first now limit rest rfl _ _ _ deadline _ hearly hdue
  rw [hexact now limit (by simp)] at hdue
  exact absurd hdue hearly.not_ge

/-- A reap takes the oldest of three leases, and the latest stays as it was granted. -/
theorem exclusive_lease_sample :
    let ops := sampleLeasesRun ++ [.reapExpired (.ofSeconds 94) 1]
    ExclusiveLeases ops ∧ (empty.run ops).ShowsLease "other" "third" "three" 95000000 := by
  intro ops
  have hexclusive : ExclusiveLeases ops := by
    apply (exclusive_lease_iff ops).mpr
    apply reapsInTime_of_exact
    intro now limit hmem
    simp only [ops, sampleLeasesRun, List.cons_append, List.nil_append, List.mem_cons,
      reduceCtorEq, Op.reapExpired.injEq, List.not_mem_nil, or_false, false_or] at hmem
    obtain ⟨rfl, rfl⟩ := hmem
    decide
  have hgranted : LeaseHeld "other" "third" "three"
      (sampleLeasesRun.take 4 ++
        [.reserve { sampleConfig with workerId := "other" } 1 (.ofSeconds 65) ["three"]])
      95000000 := LeaseHeld.granted rfl (by decide)
  have hopen : ¬ (95000000 : ℤ) ≤ micros (.ofSeconds 94) := by decide
  have hheld : LeaseHeld "other" "third" "three" ops 95000000 := hgranted.kept hopen
  exact ⟨hexclusive, (hexclusive ops [] (List.append_nil ops).symm).shown _ _ _ _ hheld⟩

/-- A reap takes a lease one microsecond before its deadline. -/
theorem earlyReap_not_exclusive :
    ¬ ExclusiveLeases (lateLeaseRun ++ [.reapExpired earlyReapTime 1]) := by
  intro hexclusive
  have hgranted : LeaseHeld "worker" "job" "token" lateLeaseRun 9007199254740996 :=
    LeaseHeld.granted rfl (by decide)
  have hopen : ¬ (9007199254740996 : ℤ) ≤ micros earlyReapTime := by decide
  have hheld : LeaseHeld "worker" "job" "token"
      (lateLeaseRun ++ [.reapExpired earlyReapTime 1]) 9007199254740996 := hgranted.kept hopen
  have hshows := (hexclusive _ [] (List.append_nil _).symm).shown _ _ _ _ hheld
  exact absurd hshows.1 (by decide)

end Store

end Redloop
