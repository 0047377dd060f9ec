/-
# Lease fencing

A lease is fenced by its token: heartbeats and completions take effect exactly
while their worker id and token are those of the current lease of the job. When
no token is handed to two reserves, a lease that has ended never becomes current
again, so a completion that is sent many times takes effect at most once.
-/

import Redloop.Job.Run

namespace Redloop

namespace Op

/-- The tokens a reserve may grant. -/
def leaseTokens : Op → List Bytes
  | reserve _ _ _ leaseTokens => leaseTokens
  | _ => []

/-- An operation is a completion of the given lease. -/
def IsCompletion (op : Op) (workerId jobId leaseToken : Bytes) : Prop :=
  match op with
  | ack worker job token _ => worker = workerId ∧ job = jobId ∧ token = leaseToken
  | completeAndReschedule worker job token _ _ =>
      worker = workerId ∧ job = jobId ∧ token = leaseToken
  | failOrRetry request =>
      request.workerId = workerId ∧ request.jobId = jobId ∧ request.leaseToken = leaseToken
  | _ => False

/-- A reserve for the worker grants the lease. -/
def Grants (op : Op) (reply : Reply) (workerId jobId leaseToken : Bytes) : Prop :=
  match op with
  | reserve config _ _ leaseTokens =>
      config.workerId = workerId ∧ leaseToken ∈ leaseTokens ∧
        (jobId, leaseToken) ∈ reply.leases
  | _ => False

/-- A lease is granted under a token of the reserve. -/
theorem Grants.mem_leaseTokens {op : Op} {reply : Reply} {workerId jobId leaseToken : Bytes}
    (hgrants : op.Grants reply workerId jobId leaseToken) : leaseToken ∈ op.leaseTokens := by
  cases op with
  | reserve => exact hgrants.2.1
  | _ => exact hgrants.elim

/-- An operation is a heartbeat or a completion of the given lease. -/
def Carries (op : Op) (workerId jobId leaseToken : Bytes) : Prop :=
  match op with
  | heartbeat worker job token _ _ => worker = workerId ∧ job = jobId ∧ token = leaseToken
  | op => op.IsCompletion workerId jobId leaseToken

end Op

/-- Every token is handed to at most one reserve. -/
def FreshTokens (ops : List Op) : Prop :=
  ops.Pairwise fun first second => ∀ token ∈ first.leaseTokens, token ∉ second.leaseTokens

/-- The lease of a job is held by a worker under a token. -/
def Store.CurrentLease (s : Store) (jobId workerId leaseToken : Bytes) : Prop :=
  ∃ jobs, Refines s jobs ∧ (jobs jobId).LeasedTo workerId leaseToken

variable {s : Store} {jobs : Bytes → Job} {op : Op} {workerId jobId leaseToken : Bytes}

theorem Refines.currentLease_iff (hrefines : Refines s jobs) :
    s.CurrentLease jobId workerId leaseToken ↔ (jobs jobId).LeasedTo workerId leaseToken := by
  constructor
  · rintro ⟨jobs', hrefines', hleased⟩
    rwa [hrefines.unique hrefines']
  · exact fun hleased => ⟨jobs, hrefines, hleased⟩

/-- The store a run ends in refines some jobs. -/
theorem Store.exists_refines_run (ops : List Op) : ∃ jobs, Refines (empty.run ops) jobs := by
  refine List.foldlRecOn (motive := fun s => ∃ jobs, Refines s jobs) ops next
    ⟨_, Refines.empty⟩ ?_
  rintro s ⟨jobs, hrefines⟩ op _
  obtain ⟨jobs', hrefines', _⟩ := exec_refines hrefines op
  exact ⟨jobs', hrefines'⟩

/-! ## One operation -/

namespace Op

theorem Carries.of_isCompletion (hcompletion : op.IsCompletion workerId jobId leaseToken) :
    op.Carries workerId jobId leaseToken := by
  cases op <;> simp_all [Carries, IsCompletion]

theorem Carries.target (hcarries : op.Carries workerId jobId leaseToken) :
    op.target = some jobId := by
  cases op <;> simp_all [Carries, IsCompletion, Op.target]

/-- A heartbeat or completion succeeds exactly for the holder of the lease. -/
theorem Carries.outcome_isSome (hcarries : op.Carries workerId jobId leaseToken) (job : Job) :
    (op.outcome job).isSome ↔ job.LeasedTo workerId leaseToken := by
  have hholder (transition : Bool → Job) :
      (job.asHolder workerId leaseToken transition).isSome ↔
        job.LeasedTo workerId leaseToken := by
    rw [Option.isSome_iff_exists]
    simp only [Job.asHolder_eq_some_iff, Job.LeasedTo]
    constructor
    · rintro ⟨_, deadline, rerun, hplacement, _⟩
      exact ⟨deadline, rerun, hplacement⟩
    · rintro ⟨deadline, rerun, hplacement⟩
      exact ⟨_, deadline, rerun, hplacement, rfl⟩
  cases op with
  | heartbeat | ack | completeAndReschedule | failOrRetry =>
      obtain ⟨rfl, rfl, rfl⟩ := hcarries
      exact hholder _
  | _ => exact hcarries.elim

/-- A completion ends the lease. -/
theorem IsCompletion.not_leasedTo (hcompletion : op.IsCompletion workerId jobId leaseToken)
    {job job' : Job} (houtcome : op.outcome job = some job') (otherWorker otherToken : Bytes) :
    ¬ job'.LeasedTo otherWorker otherToken := by
  rintro ⟨deadline, rerun, hplacement⟩
  cases op with
  | ack =>
      obtain ⟨_, marked, _, rfl⟩ := Job.asHolder_eq_some_iff.mp houtcome
      cases marked <;> simp at hplacement
  | completeAndReschedule worker completed token scheduleAt now =>
      obtain ⟨_, marked, _, rfl⟩ := Job.asHolder_eq_some_iff.mp houtcome
      cases marked with
      | true => simp at hplacement
      | false =>
          rcases Target.placement_cases (normalizeTarget
            (Double.ofInt (scheduleMicros scheduleAt)) (Double.ofInt (micros now)))
            with heq | heq <;> simp [heq] at hplacement
  | failOrRetry request =>
      obtain ⟨_, _, _, rfl⟩ := Job.asHolder_eq_some_iff.mp houtcome
      rcases Job.failurePlacement_cases request.action (failureArgs request.retryPolicy)
        (Double.ofInt (micros request.now)) (Double.ofInt job.countFailure) with
        heq | heq | ⟨_, heq⟩ <;> simp [heq] at hplacement
  | _ => exact hcompletion.elim

end Op

namespace Job

variable {job job' : Job}

/-- A waiting placement is no lease. -/
theorem not_leasedTo_target (target : Target) (failures : Option ℤ) :
    ¬ LeasedTo ⟨target.placement, failures⟩ workerId leaseToken := by
  rintro ⟨deadline, rerun, hplacement⟩
  rcases target.placement_cases with heq | heq <;> simp [heq] at hplacement

theorem LeasedTo.of_replaceWaiting {target : Target} {mode : ReplaceMode} {score : ℤ}
    (hleased : (job.replaceWaiting target mode score).LeasedTo workerId leaseToken) :
    job.LeasedTo workerId leaseToken := by
  unfold replaceWaiting at hleased
  split_ifs at hleased
  · exact hleased
  · exact absurd hleased (not_leasedTo_target target _)

/-- An enqueue may mark a lease but never makes one. -/
theorem LeasedTo.of_enqueueImmediate {nowUs : ℤ}
    (hleased : (job.enqueueImmediate nowUs).LeasedTo workerId leaseToken) :
    job.LeasedTo workerId leaseToken := by
  obtain ⟨placement, failures⟩ := job
  cases placement <;> simp_all [enqueueImmediate, LeasedTo, moveTo]

theorem LeasedTo.of_enqueueScheduled {target : Target} {mode : ReplaceMode}
    (houtcome : job.enqueueScheduled target mode = some job')
    (hleased : job'.LeasedTo workerId leaseToken) : job.LeasedTo workerId leaseToken := by
  unfold enqueueScheduled at houtcome
  split at houtcome <;> cases houtcome
  · exact absurd hleased (not_leasedTo_target target _)
  · exact hleased.of_replaceWaiting
  · exact hleased.of_replaceWaiting
  · exact absurd hleased (not_leasedTo_target target _)

theorem LeasedTo.of_reschedule {target : Target} {mode : ReplaceMode}
    (houtcome : job.reschedule target mode = some job')
    (hleased : job'.LeasedTo workerId leaseToken) : job.LeasedTo workerId leaseToken := by
  unfold reschedule at houtcome
  split at houtcome <;> cases houtcome
  · exact hleased.of_replaceWaiting
  · exact hleased.of_replaceWaiting

/-- No operator command leaves the job leased. -/
theorem not_leasedTo_operator {op : OperatorOp} {nowUs : ℤ}
    (houtcome : job.operator op nowUs = some job') : ¬ job'.LeasedTo workerId leaseToken := by
  rintro ⟨deadline, rerun, hplacement⟩
  unfold operator at houtcome
  split at houtcome <;> cases houtcome <;> simp_all [absent, moveTo]
  split_ifs at hplacement

/-- No operation on a single job makes someone the holder of its lease. -/
theorem LeasedTo.of_outcome (houtcome : op.outcome job = some job')
    (hleased : job'.LeasedTo workerId leaseToken) : job.LeasedTo workerId leaseToken := by
  cases op with
  | enqueue request now =>
      rcases Op.outcome_enqueue_cases houtcome with ⟨_, rfl⟩ | ⟨_, _, hscheduled⟩
      · exact hleased.of_enqueueImmediate
      · exact hleased.of_enqueueScheduled hscheduled
  | reschedule jobId scheduleAt now => exact hleased.of_reschedule houtcome
  | operator op jobId now => exact absurd hleased (not_leasedTo_operator houtcome)
  | heartbeat worker jobId token now leaseDuration =>
      obtain ⟨deadline, rerun, hplacement, rfl⟩ := asHolder_eq_some_iff.mp houtcome
      obtain ⟨_, _, hmoved⟩ := hleased
      cases hmoved
      exact ⟨deadline, rerun, hplacement⟩
  | ack worker jobId token now =>
      have hcompletion : (Op.ack worker jobId token now).IsCompletion worker jobId token :=
        ⟨rfl, rfl, rfl⟩
      exact absurd hleased (hcompletion.not_leasedTo houtcome _ _)
  | completeAndReschedule worker jobId token scheduleAt now =>
      have hcompletion : (Op.completeAndReschedule worker jobId token scheduleAt
          now).IsCompletion worker jobId token := ⟨rfl, rfl, rfl⟩
      exact absurd hleased (hcompletion.not_leasedTo houtcome _ _)
  | failOrRetry request =>
      have hcompletion : (Op.failOrRetry request).IsCompletion request.workerId request.jobId
          request.leaseToken := ⟨rfl, rfl, rfl⟩
      exact absurd hleased (hcompletion.not_leasedTo houtcome _ _)
  | _ => cases houtcome

/-- A holder becomes one by a reserve that grants it the lease. -/
theorem LeasedTo.of_jobStep {reply : Reply} (hstep : JobStep op reply jobId job job')
    (hleased : job'.LeasedTo workerId leaseToken) :
    job.LeasedTo workerId leaseToken ∨ op.Grants reply workerId jobId leaseToken := by
  cases hstep.change with
  | kept hkept => exact Or.inl (hkept ▸ hleased)
  | transition _ houtcome _ => exact Or.inl (hleased.of_outcome houtcome)
  | leased _ htoken hlease hgranted =>
      obtain ⟨_, _, hplacement⟩ := hleased
      rw [hgranted] at hplacement
      cases hplacement
      exact Or.inr ⟨rfl, htoken, hlease⟩
  | lost _ _ hlost =>
      obtain ⟨_, _, hplacement⟩ := hleased
      rw [hlost] at hplacement
      cases hplacement
  | reaped hreap =>
      obtain ⟨_, _, _, _, _, _, hreaped⟩ := reap_eq_some_iff.mp hreap
      obtain ⟨_, _, hplacement⟩ := hleased
      rw [hreaped] at hplacement
      cases hplacement
  | purged _ hpurged =>
      obtain ⟨deadline, rerun, hplacement⟩ := hleased
      rw [hpurged] at hplacement
      cases hbefore : job.placement <;>
        simp_all [purge, absent, LeasedTo]

end Job

/-! ## Runs -/

namespace Op.Carries

/-- The reply to a heartbeat or completion. -/
theorem isOk_iff (hcarries : op.Carries workerId jobId leaseToken) (hrefines : Refines s jobs) :
    (s.reply op).isOk ↔ (jobs jobId).LeasedTo workerId leaseToken := by
  obtain ⟨jobs', -, hstep⟩ := Store.exec_refines hrefines op
  have hjob := (jobStep_of_target hcarries.target).mp (hstep jobId)
  rw [if_pos rfl] at hjob
  rw [hjob.2, hcarries.outcome_isSome]

/-- Without the lease a heartbeat or completion is answered with a mismatch and
changes nothing. -/
theorem exec_eq_of_not_leasedTo (hcarries : op.Carries workerId jobId leaseToken)
    (hrefines : Refines s jobs) (hleased : ¬ (jobs jobId).LeasedTo workerId leaseToken) :
    s.exec op = (s, Reply.leaseMismatch) := by
  have hholds : ¬ s.HoldsLease jobId workerId leaseToken :=
    mt (Store.holdsLease_iff (hrefines.slot_eq jobId)).mp hleased
  cases op with
  | heartbeat | ack | completeAndReschedule | failOrRetry =>
      obtain ⟨rfl, rfl, rfl⟩ := hcarries
      exact if_pos hholds
  | _ => exact hcarries.elim

end Op.Carries

namespace Store

/-- A run from the empty namespace has a reserve that granted the lease. -/
def Granted (ops : List Op) (workerId jobId leaseToken : Bytes) : Prop :=
  ∃ earlier op later, ops = earlier ++ op :: later ∧
    op.Grants ((empty.run earlier).reply op) workerId jobId leaseToken

/-- A current lease was granted by a reserve of the run. -/
theorem granted_of_currentLease {ops : List Op}
    (hcurrent : (empty.run ops).CurrentLease jobId workerId leaseToken) :
    Granted ops workerId jobId leaseToken := by
  induction ops using List.reverseRecOn with
  | nil =>
      obtain ⟨deadline, rerun, hplacement⟩ := Refines.empty.currentLease_iff.mp hcurrent
      cases hplacement
  | append_singleton ops op ih =>
      obtain ⟨jobs, hrefines⟩ := exists_refines_run ops
      obtain ⟨jobs', hrefines', hstep⟩ := exec_refines hrefines op
      rw [run_append, run_cons, run_nil, hrefines'.currentLease_iff] at hcurrent
      rcases hcurrent.of_jobStep (hstep jobId) with hbefore | hgrants
      · obtain ⟨earlier, granting, later, hops, hgrants⟩ :=
          ih (hrefines.currentLease_iff.mpr hbefore)
        exact ⟨earlier, granting, later ++ [op], by simp [hops], hgrants⟩
      · exact ⟨ops, op, [], rfl, hgrants⟩

/-- A lease that is not current stays so while no reserve has its token. -/
theorem not_currentLease_run {ops : List Op} (hrefines : ∃ jobs, Refines s jobs)
    (hcurrent : ¬ s.CurrentLease jobId workerId leaseToken)
    (htokens : ∀ op ∈ ops, leaseToken ∉ op.leaseTokens) :
    (∃ jobs, Refines (s.run ops) jobs) ∧
      ¬ (s.run ops).CurrentLease jobId workerId leaseToken := by
  refine List.foldlRecOn (motive := fun s => (∃ jobs, Refines s jobs) ∧
    ¬ s.CurrentLease jobId workerId leaseToken) ops next ⟨hrefines, hcurrent⟩ ?_
  rintro s ⟨⟨jobs, hrefines⟩, hcurrent⟩ op hmem
  obtain ⟨jobs', hrefines', hstep⟩ := exec_refines hrefines op
  refine ⟨⟨jobs', hrefines'⟩, ?_⟩
  rw [hrefines'.currentLease_iff]
  intro hleased
  rcases hleased.of_jobStep (hstep jobId) with hbefore | hgrants
  · exact hcurrent (hrefines.currentLease_iff.mpr hbefore)
  · exact htokens op hmem hgrants.mem_leaseTokens

/-- With fresh tokens a lease that has ended never becomes current again. -/
theorem not_currentLease_of_ended {first : List Op} {op : Op} {second rest : List Op}
    (hfresh : FreshTokens (first ++ op :: second ++ rest))
    (hbefore : (empty.run first).CurrentLease jobId workerId leaseToken)
    (hafter : ¬ (empty.run (first ++ [op])).CurrentLease jobId workerId leaseToken) :
    ¬ (empty.run (first ++ op :: second)).CurrentLease jobId workerId leaseToken := by
  obtain ⟨earlier, granting, between, hfirst, hgrants⟩ := granted_of_currentLease hbefore
  have hlater : ∀ later ∈ second, leaseToken ∉ later.leaseTokens := by
    intro later hmem
    rw [FreshTokens, hfirst, List.append_assoc, List.pairwise_append] at hfresh
    exact hfresh.2.2 granting (by simp) later (by simp [hmem]) leaseToken
      hgrants.mem_leaseTokens
  have hsplit : first ++ op :: second = (first ++ [op]) ++ second := by simp
  rw [hsplit, run_append]
  exact (not_currentLease_run (exists_refines_run _) hafter hlater).2

/-- An answered completion ends its lease. -/
theorem ended_of_isCompletion {first : List Op}
    (hcompletion : op.IsCompletion workerId jobId leaseToken)
    (hok : ((empty.run first).reply op).isOk) :
    (empty.run first).CurrentLease jobId workerId leaseToken ∧
      ¬ (empty.run (first ++ [op])).CurrentLease jobId workerId leaseToken := by
  have hcarries := Op.Carries.of_isCompletion hcompletion
  obtain ⟨jobs, hrefines⟩ := exists_refines_run first
  have hleased := (hcarries.isOk_iff hrefines).mp hok
  refine ⟨hrefines.currentLease_iff.mpr hleased, ?_⟩
  obtain ⟨jobs', hrefines', hstep⟩ := exec_refines hrefines op
  rw [run_append, run_cons, run_nil, hrefines'.currentLease_iff]
  have hjob := (jobStep_of_target hcarries.target).mp (hstep jobId)
  rw [if_pos rfl] at hjob
  obtain ⟨next, hnext⟩ :=
    Option.isSome_iff_exists.mp ((hcarries.outcome_isSome (jobs jobId)).mpr hleased)
  rw [hjob.1, hnext]
  exact hcompletion.not_leasedTo hnext workerId leaseToken

/-- With fresh tokens, a lease takes effect at most once: of the completions that
carry it at most one succeeds, heartbeats and completions succeed exactly while it
is current, once it has ended they change nothing, and the failures it counts are
at most one. -/
theorem lease_takes_effect_once {ops : List Op} (hfresh : FreshTokens ops)
    (workerId jobId leaseToken : Bytes) :
    (∀ first op second later rest, ops = first ++ op :: second ++ later :: rest →
      op.IsCompletion workerId jobId leaseToken → later.IsCompletion workerId jobId leaseToken →
        ((empty.run first).reply op).isOk →
          ¬ ((empty.run (first ++ op :: second)).reply later).isOk) ∧
    (∀ first op rest, ops = first ++ op :: rest → op.Carries workerId jobId leaseToken →
      (((empty.run first).reply op).isOk ↔
        (empty.run first).CurrentLease jobId workerId leaseToken)) ∧
    (∀ first op second later rest, ops = first ++ op :: second ++ later :: rest →
      (empty.run first).CurrentLease jobId workerId leaseToken →
        ¬ (empty.run (first ++ [op])).CurrentLease jobId workerId leaseToken →
          later.Carries workerId jobId leaseToken →
            (empty.run (first ++ op :: second)).exec later =
              (empty.run (first ++ op :: second), Reply.leaseMismatch)) ∧
    (∀ first op second later rest, ops = first ++ op :: second ++ later :: rest →
      op.IsCompletion workerId jobId leaseToken → later.IsCompletion workerId jobId leaseToken →
        ((empty.run first).next op).failures.lookup jobId ≠
            (empty.run first).failures.lookup jobId →
          ((empty.run (first ++ op :: second)).next later).failures.lookup jobId =
            (empty.run (first ++ op :: second)).failures.lookup jobId) := by
  have hfenced (first : List Op) (op : Op) (second : List Op) (later : Op) (rest : List Op)
      (hops : ops = first ++ op :: second ++ later :: rest)
      (hbefore : (empty.run first).CurrentLease jobId workerId leaseToken)
      (hafter : ¬ (empty.run (first ++ [op])).CurrentLease jobId workerId leaseToken)
      (hcarries : later.Carries workerId jobId leaseToken) :
      (empty.run (first ++ op :: second)).exec later =
        (empty.run (first ++ op :: second), Reply.leaseMismatch) := by
    obtain ⟨jobs, hrefines⟩ := exists_refines_run (first ++ op :: second)
    refine hcarries.exec_eq_of_not_leasedTo hrefines ?_
    rw [← hrefines.currentLease_iff]
    exact not_currentLease_of_ended (hops ▸ hfresh) hbefore hafter
  refine ⟨?_, ?_, hfenced, ?_⟩
  · intro first op second later rest hops hop hlater hok
    obtain ⟨hbefore, hafter⟩ := ended_of_isCompletion hop hok
    rw [reply, hfenced first op second later rest hops hbefore hafter (.of_isCompletion hlater)]
    simp
  · intro first op rest _ hcarries
    obtain ⟨jobs, hrefines⟩ := exists_refines_run first
    rw [hcarries.isOk_iff hrefines, hrefines.currentLease_iff]
  · intro first op second later rest hops hop hlater hraised
    have hcarries := Op.Carries.of_isCompletion hop
    have hok : ((empty.run first).reply op).isOk := by
      obtain ⟨jobs, hrefines⟩ := exists_refines_run first
      rw [hcarries.isOk_iff hrefines]
      by_contra hleased
      rw [next, hcarries.exec_eq_of_not_leasedTo hrefines hleased] at hraised
      exact hraised rfl
    obtain ⟨hbefore, hafter⟩ := ended_of_isCompletion hop hok
    rw [next, hfenced first op second later rest hops hbefore hafter (.of_isCompletion hlater)]

/-- The second of two equal acks is refused. -/
theorem lease_takes_effect_once_sample :
    ¬ ((empty.run (sampleLeaseRun ++ [sampleAck])).reply sampleAck).isOk := by
  have hfresh : FreshTokens (sampleLeaseRun ++ [sampleAck] ++ [sampleAck]) := by
    unfold FreshTokens
    decide
  have hack : sampleAck.IsCompletion "worker" "job" "token" := ⟨rfl, rfl, rfl⟩
  exact (lease_takes_effect_once hfresh _ _ _).1 sampleLeaseRun sampleAck [] sampleAck [] rfl
    hack hack (by decide)

end Store

end Redloop
