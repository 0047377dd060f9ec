/-
# What can end an enqueued job

After an enqueue was answered ok, every lease of its job that was granted before is
marked for a rerun, and stays marked as long as it is the lease of the job. The job
then leaves all four sets only through an operator, through a purge, or through an
ack of a lease under a token that no reserve had before the enqueue.
-/

import Redloop.Queue.Conservation
import Redloop.Queue.Fencing

namespace Redloop

variable {s : Store} {jobs : Bytes → Job} {op : Op} {jobId workerId leaseToken : Bytes}
  {tokens : List Bytes}

/-- The tokens that the reserves of a run may grant. -/
def tokensOf (ops : List Op) : List Bytes := ops.flatMap Op.leaseTokens

/-- With fresh tokens, no later operation has a token of an earlier one. -/
theorem FreshTokens.not_mem_tokensOf {first rest : List Op}
    (hfresh : FreshTokens (first ++ rest)) {op : Op} (hmem : op ∈ rest) {token : Bytes}
    (htoken : token ∈ op.leaseTokens) : token ∉ tokensOf first := by
  intro hfirst
  obtain ⟨earlier, hearlier, hgranted⟩ := List.mem_flatMap.mp hfirst
  rw [FreshTokens, List.pairwise_append] at hfresh
  exact hfresh.2.2 earlier hearlier op hmem token hgranted htoken

/-! ## Marked leases -/

namespace Job

variable {job job' : Job}

/-- A lease of the job under one of the tokens is marked for a rerun. -/
def MarkedUnder (job : Job) (tokens : List Bytes) : Prop :=
  ∀ deadline workerId leaseToken rerun,
    job.placement = .leased deadline workerId leaseToken rerun → leaseToken ∈ tokens →
      rerun = true

/-- A job that is not leased has no lease to mark. -/
theorem MarkedUnder.of_not_leasedTo
    (hunleased : ∀ workerId leaseToken, ¬ job.LeasedTo workerId leaseToken) :
    job.MarkedUnder tokens := by
  intro deadline workerId leaseToken rerun hplacement
  exact absurd ⟨deadline, rerun, hplacement⟩ (hunleased workerId leaseToken)

/-- A scheduled enqueue leaves no lease. -/
theorem not_leasedTo_enqueueScheduled {target : Target} {mode : ReplaceMode}
    (houtcome : job.enqueueScheduled target mode = some job') :
    ¬ job'.LeasedTo workerId leaseToken := by
  intro hafter
  obtain ⟨deadline, rerun, hplacement⟩ := hafter.of_enqueueScheduled houtcome
  simp [enqueueScheduled, hplacement] at houtcome

theorem not_leasedTo_reschedule {target : Target} {mode : ReplaceMode}
    (houtcome : job.reschedule target mode = some job') :
    ¬ job'.LeasedTo workerId leaseToken := by
  intro hafter
  obtain ⟨deadline, rerun, hplacement⟩ := hafter.of_reschedule houtcome
  simp [reschedule, hplacement] at houtcome

/-- An immediate enqueue marks the lease of its job, if there is one. -/
theorem markedUnder_enqueueImmediate (nowUs : ℤ) :
    (job.enqueueImmediate nowUs).MarkedUnder tokens := by
  intro deadline workerId leaseToken rerun hplacement _
  unfold enqueueImmediate at hplacement
  cases hbefore : job.placement <;> simp_all [moveTo]

/-- After an enqueue a lease of the job is marked, under whatever token. -/
theorem markedUnder_enqueue {request : EnqueueRequest} {now : Timestamp}
    (houtcome : (Op.enqueue request now).outcome job = some job') : job'.MarkedUnder tokens := by
  rcases Op.outcome_enqueue_cases houtcome with ⟨_, rfl⟩ | ⟨_, _, hscheduled⟩
  · exact markedUnder_enqueueImmediate _
  · apply MarkedUnder.of_not_leasedTo
    intro workerId leaseToken
    exact not_leasedTo_enqueueScheduled hscheduled

namespace MarkedUnder

/-- No operation on a single job removes the mark of a lease that it keeps. -/
theorem of_outcome (hmarked : job.MarkedUnder tokens) (houtcome : op.outcome job = some job') :
    job'.MarkedUnder tokens := by
  cases op with
  | enqueue request now => exact markedUnder_enqueue houtcome
  | reschedule jobId scheduleAt now =>
      exact of_not_leasedTo fun _ _ => not_leasedTo_reschedule houtcome
  | operator op jobId now => exact of_not_leasedTo fun _ _ => not_leasedTo_operator houtcome
  | heartbeat worker jobId token now leaseDuration =>
      obtain ⟨deadline, rerun, hplacement, rfl⟩ := asHolder_eq_some_iff.mp houtcome
      intro _ _ _ _ hmoved htoken
      cases hmoved
      exact hmarked _ _ _ _ hplacement htoken
  | ack worker jobId token now =>
      have hcompletion : (Op.ack worker jobId token now).IsCompletion worker jobId token :=
        ⟨rfl, rfl, rfl⟩
      exact of_not_leasedTo (hcompletion.not_leasedTo houtcome)
  | completeAndReschedule worker jobId token scheduleAt now =>
      have hcompletion : (Op.completeAndReschedule worker jobId token scheduleAt
          now).IsCompletion worker jobId token := ⟨rfl, rfl, rfl⟩
      exact of_not_leasedTo (hcompletion.not_leasedTo houtcome)
  | failOrRetry request =>
      have hcompletion : (Op.failOrRetry request).IsCompletion request.workerId request.jobId
          request.leaseToken := ⟨rfl, rfl, rfl⟩
      exact of_not_leasedTo (hcompletion.not_leasedTo houtcome)
  | _ => cases houtcome

/-- No step with other tokens removes the mark of a lease that it keeps. -/
theorem of_jobStep (hmarked : job.MarkedUnder tokens)
    (hnew : ∀ token ∈ op.leaseTokens, token ∉ tokens) {reply : Reply}
    (hstep : JobStep op reply jobId job job') : job'.MarkedUnder tokens := by
  cases hstep.change with
  | kept hkept => rwa [hkept]
  | transition _ houtcome _ => exact hmarked.of_outcome houtcome
  | leased _ htoken _ hleased =>
      rw [hleased]
      intro _ _ _ _ hplacement hmem
      cases hplacement
      exact absurd hmem (hnew _ htoken)
  | lost _ _ hlost =>
      rw [hlost]
      intro _ _ _ _ hplacement
      cases hplacement
  | reaped hreap =>
      obtain ⟨_, _, _, _, _, _, rfl⟩ := reap_eq_some_iff.mp hreap
      intro _ _ _ _ hplacement
      cases hplacement
  | purged _ hpurged =>
      rw [hpurged]
      intro deadline worker token rerun hplacement
      refine hmarked deadline worker token rerun ?_
      cases hbefore : job.placement <;> simp_all [purge, absent]

end MarkedUnder

end Job

namespace Store

/-- The lease of the job, if it has one of the tokens, is marked for a rerun. -/
def MarkedUnder (s : Store) (jobId : Bytes) (tokens : List Bytes) : Prop :=
  ∃ jobs, Refines s jobs ∧ (jobs jobId).MarkedUnder tokens

/-- An enqueue that is answered ok leaves no unmarked lease. -/
theorem markedUnder_of_enqueue (hrefines : Refines s jobs) {request : EnqueueRequest}
    {now : Timestamp} (hok : (s.reply (.enqueue request now)).isOk) (tokens : List Bytes) :
    (s.next (.enqueue request now)).MarkedUnder request.jobId tokens := by
  obtain ⟨jobs', hrefines', hstep⟩ := exec_refines hrefines (.enqueue request now)
  have hjob := (jobStep_of_target rfl).mp (hstep request.jobId)
  rw [if_pos rfl, hok] at hjob
  obtain ⟨job', houtcome⟩ := Option.isSome_iff_exists.mp hjob.2.symm
  refine ⟨jobs', hrefines', ?_⟩
  rw [hjob.1, houtcome]
  exact Job.markedUnder_enqueue houtcome

/-- A lease stays marked while no reserve has its token. -/
theorem MarkedUnder.run (hmarked : s.MarkedUnder jobId tokens) {ops : List Op}
    (hnew : ∀ op ∈ ops, ∀ token ∈ op.leaseTokens, token ∉ tokens) :
    (s.run ops).MarkedUnder jobId tokens := by
  refine List.foldlRecOn (motive := fun s => s.MarkedUnder jobId tokens) ops next hmarked ?_
  rintro s ⟨jobs, hrefines, hjob⟩ op hmem
  obtain ⟨jobs', hrefines', hstep⟩ := exec_refines hrefines op
  exact ⟨jobs', hrefines', hjob.of_jobStep (hnew op hmem) (hstep jobId)⟩

/-- An ack of a marked lease sends the job back to ready. -/
theorem MarkedUnder.ready_of_ack (hmarked : s.MarkedUnder jobId tokens) {now : Timestamp}
    (hok : (s.reply (.ack workerId jobId leaseToken now)).isOk) (htoken : leaseToken ∈ tokens) :
    ((s.next (.ack workerId jobId leaseToken now)).ready.score jobId).isSome := by
  obtain ⟨jobs, hrefines, hjob⟩ := hmarked
  obtain ⟨jobs', hrefines', hstep⟩ :=
    exec_refines hrefines (.ack workerId jobId leaseToken now)
  have hacked := (jobStep_of_target rfl).mp (hstep jobId)
  rw [if_pos rfl, hok] at hacked
  obtain ⟨job', houtcome⟩ := Option.isSome_iff_exists.mp hacked.2.symm
  obtain ⟨deadline, rerun, hplacement, rfl⟩ := Job.asHolder_eq_some_iff.mp houtcome
  have hrerun := hjob _ _ _ _ hplacement htoken
  have hready := congrArg Slot.ready (hrefines'.slot_eq jobId)
  rw [hacked.1, houtcome, hrerun] at hready
  simp only [slot, Job.toSlot, Option.getD_some, if_true] at hready
  rw [hready]
  rfl

/-- An ack that removes its job had a lease without a mark. -/
theorem MarkedUnder.not_mem_of_removes (hmarked : s.MarkedUnder jobId tokens) {now : Timestamp}
    (hremoves : (Op.ack workerId jobId leaseToken now).Removes s jobId) :
    leaseToken ∉ tokens := by
  intro htoken
  obtain ⟨_, hok, hunmarked⟩ := hremoves
  obtain ⟨jobs, hrefines, hjob⟩ := hmarked
  have hcarries : (Op.ack workerId jobId leaseToken now).Carries workerId jobId leaseToken :=
    ⟨rfl, rfl, rfl⟩
  obtain ⟨deadline, rerun, hplacement⟩ := (hcarries.isOk_iff hrefines).mp hok
  have hrerun := hjob _ _ _ _ hplacement htoken
  rw [hrerun] at hplacement
  exact hunmarked ((hrefines.mem_rerun_iff jobId).mpr ⟨_, _, _, hplacement⟩)

/-! ## Runs -/

/-- A job that was known and is not any more was removed by an operation in between. -/
theorem exists_removes {first rest : List Op} (htokens : ∀ op ∈ first ++ rest, op.HasTokens)
    (hknown : (empty.run first).Known jobId) (hgone : ¬ (empty.run (first ++ rest)).Known jobId) :
    ∃ middle op last, rest = middle ++ op :: last ∧
      op.Removes (empty.run (first ++ middle)) jobId := by
  induction rest using List.reverseRecOn with
  | nil =>
      rw [List.append_nil] at hgone
      exact absurd hknown hgone
  | append_singleton middle op ih =>
      by_cases hbefore : (empty.run (first ++ middle)).Known jobId
      · obtain ⟨jobs, hrefines⟩ := exists_refines_run (first ++ middle)
        have hchange := known_next_iff hrefines (htokens op (by simp)) jobId
        rw [← List.append_assoc, run_append, run_cons, run_nil, hchange] at hgone
        push Not at hgone
        exact ⟨middle, op, [], rfl, hgone.2 hbefore⟩
      · have hprefix : ∀ op ∈ first ++ middle, op.HasTokens := by
          intro op hmem
          refine htokens op ?_
          rw [← List.append_assoc]
          exact List.mem_append_left _ hmem
        obtain ⟨earlier, removing, later, hmiddle, hremoves⟩ := ih hprefix hbefore
        exact ⟨earlier, removing, later ++ [op], by simp [hmiddle], hremoves⟩

section Enqueued

variable {first rest : List Op} {request : EnqueueRequest} {now : Timestamp}

/-- After an enqueue that was answered ok, the leases under earlier tokens stay marked. -/
theorem markedUnder_after_enqueue (hfresh : FreshTokens (first ++ .enqueue request now :: rest))
    (hok : ((empty.run first).reply (.enqueue request now)).isOk) {middle : List Op}
    (hinitial : middle <+: rest) :
    (empty.run (first ++ .enqueue request now :: middle)).MarkedUnder request.jobId
      (tokensOf first) := by
  obtain ⟨jobs, hrefines⟩ := exists_refines_run first
  rw [run_append, run_cons]
  apply (markedUnder_of_enqueue hrefines hok _).run
  intro op hmem token htoken
  have hlater : op ∈ Op.enqueue request now :: rest :=
    List.mem_cons_of_mem _ (hinitial.subset hmem)
  exact hfresh.not_mem_tokensOf hlater htoken

/-- After an enqueue that was answered ok, a job leaves all four sets through an
operation that removes it, and not through an ack of a lease under an earlier token. -/
theorem removed_after_enqueue (hfresh : FreshTokens (first ++ .enqueue request now :: rest))
    (htokens : ∀ op ∈ first ++ .enqueue request now :: rest, op.HasTokens)
    (hok : ((empty.run first).reply (.enqueue request now)).isOk)
    (hgone : ¬ (empty.run (first ++ .enqueue request now :: rest)).Known request.jobId) :
    ∃ middle op last, rest = middle ++ op :: last ∧
      op.Removes (empty.run (first ++ .enqueue request now :: middle)) request.jobId ∧
        ∀ workerId leaseToken ackedAt, op = .ack workerId request.jobId leaseToken ackedAt →
          leaseToken ∉ tokensOf first := by
  obtain ⟨jobs, hrefines⟩ := exists_refines_run first
  have hknown : (empty.run (first ++ [.enqueue request now])).Known request.jobId := by
    rw [run_append, run_cons, run_nil]
    exact (known_next_iff_of_target hrefines rfl request.jobId).mpr (Or.inl ⟨rfl, hok⟩)
  have hsplit (ops : List Op) : first ++ .enqueue request now :: ops =
      (first ++ [.enqueue request now]) ++ ops := by simp
  rw [hsplit] at htokens hgone
  obtain ⟨middle, op, last, hrest, hremoves⟩ := exists_removes htokens hknown hgone
  rw [← hsplit] at hremoves
  refine ⟨middle, op, last, hrest, hremoves, ?_⟩
  rintro workerId leaseToken ackedAt rfl
  have hmarked := markedUnder_after_enqueue hfresh hok ⟨_, hrest.symm⟩
  exact hmarked.not_mem_of_removes hremoves

end Enqueued

end Store

end Redloop
