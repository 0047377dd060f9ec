/-
# At-least-once delivery

In every run of clients and workers, with lost replies, crashes, reaps and retried
completions in any order, a job that was enqueued leaves the namespace only through an
operator, through a purge, or after a lease that was granted later was run to
completion and acked. A lease that was held at the enqueue does not absorb it: its ack
sends the job back to ready.
-/

import Redloop.Queue.Delivery
import Redloop.System.Processes

namespace Redloop

/-- An operator removes the job: it is cancelled, acked by force or purged. -/
def Op.RemovesByOperator (op : Op) (jobId : Bytes) : Prop :=
  match op with
  | operator .cancel target _ => target = jobId
  | operator .forceAck target _ => target = jobId
  | purgeFailedDelete jobIds => jobId ∈ jobIds
  | _ => False

/-- Only an operator or an ack removes a job. -/
theorem Op.Removes.cases {op : Op} {s : Store} {jobId : Bytes} (hremoves : op.Removes s jobId) :
    op.RemovesByOperator jobId ∨
      ∃ workerId leaseToken ackedAt, op = .ack workerId jobId leaseToken ackedAt := by
  cases op with
  | operator command target now =>
      cases command with
      | cancel => exact Or.inl hremoves.1.symm
      | forceAck => exact Or.inl hremoves.1.symm
      | _ => exact hremoves.elim
  | ack workerId target leaseToken ackedAt =>
      obtain ⟨rfl, _⟩ := hremoves
      exact Or.inr ⟨workerId, leaseToken, ackedAt, rfl⟩
  | purgeFailedDelete jobIds => exact Or.inl hremoves.1
  | _ => exact hremoves.elim

/-- The store that a history leads to. -/
def storeAfter (history : List Entry) : Store := Store.empty.run (executedOps history)

/-- A process ran the handler of a lease to completion: a reserve of it granted the lease,
then the handler was started, and then it returned that the job is complete. -/
def RanToCompletion (history : List Entry) (pid : ℕ) (workerId jobId leaseToken : Bytes) : Prop :=
  ∃ id config availableCapacity now leaseTokens reply,
    (Op.reserve config availableCapacity now leaseTokens).Grants reply workerId jobId
        leaseToken ∧
      [.executed id (some pid) (.reserve config availableCapacity now leaseTokens) reply,
        .spawned pid ⟨jobId, leaseToken⟩,
        .finished pid ⟨⟨jobId, leaseToken⟩, some (.ok .complete)⟩].Sublist history

/-- A lease that a reserve lists has one of its tokens. -/
theorem Store.mem_leaseTokens_of_mem_leases (ops : List Op) {config : WorkerConfig}
    {availableCapacity : ℕ} {now : Timestamp} {leaseTokens : List Bytes} {jobId token : Bytes}
    (hlease : (jobId, token) ∈ ((empty.run ops).reply
      (.reserve config availableCapacity now leaseTokens)).leases) : token ∈ leaseTokens := by
  obtain ⟨jobs, hrefines⟩ := exists_refines_run ops
  obtain ⟨_, _, hstep⟩ :=
    exec_refines hrefines (.reserve config availableCapacity now leaseTokens)
  rcases hstep jobId with ⟨_, hnone⟩ | ⟨_, granted, hmem, _, hunique, _⟩ | ⟨_, _, hnone, _⟩
  · exact absurd hlease (hnone token)
  · rw [hunique token hlease]
    exact hmem
  · exact absurd hlease (hnone token)

namespace System

variable {s : System}

namespace Sound

/-- Every executed operation has its tokens. -/
theorem hasTokens (hsound : s.Sound) : ∀ op ∈ executedOps s.history, op.HasTokens := by
  intro op hop
  obtain ⟨entry, hentry, hentryOp⟩ := List.mem_filterMap.mp hop
  cases entry with
  | executed id sender executed reply =>
      cases hentryOp
      have hsent := (hsound.recorded.executed_iff _ _ _ _).mp hentry
      exact (hsound.calls _ (List.mem_of_getElem? hsent)).hasTokens
  | _ => cases hentryOp

/-- The worker of a process is known by one id. -/
theorem workerId_eq (hsound : s.Sound) {pid reserveId ackId : ℕ} {config : WorkerConfig}
    {availableCapacity : ℕ} {reservedAt ackedAt : Timestamp} {leaseTokens : List Bytes}
    {reserveReply ackReply : Reply} {workerId jobId leaseToken : Bytes}
    (hreserve : .executed reserveId (some pid)
      (.reserve config availableCapacity reservedAt leaseTokens) reserveReply ∈ s.history)
    (hack : .executed ackId (some pid) (.ack workerId jobId leaseToken ackedAt) ackReply ∈
      s.history) : config.workerId = workerId := by
  have hsentReserve := (hsound.recorded.executed_iff _ _ _ _).mp hreserve
  have hsentAck := (hsound.recorded.executed_iff _ _ _ _).mp hack
  obtain ⟨process, hprocess, hsentBy⟩ :=
    (hsound.calls _ (List.mem_of_getElem? hsentReserve)).sentBy pid rfl
  obtain ⟨process', hprocess', hsentBy'⟩ :=
    (hsound.calls _ (List.mem_of_getElem? hsentAck)).sentBy pid rfl
  rw [hprocess] at hprocess'
  cases hprocess'
  have hconfig : config = process.worker.config := hsentBy
  have hworker : workerId = process.worker.config.workerId := hsentBy'
  rw [hconfig, hworker]

/-- An ack is executed after its lease was run to completion. -/
theorem ranToCompletion (hsound : s.Sound) {before after : List Entry} {id : ℕ}
    {sender : Option ℕ} {workerId jobId leaseToken : Bytes} {ackedAt : Timestamp} {reply : Reply}
    (hhistory : s.history =
      before ++ .executed id sender (.ack workerId jobId leaseToken ackedAt) reply :: after) :
    ∃ pid, sender = some pid ∧ RanToCompletion before pid workerId jobId leaseToken := by
  obtain ⟨pid, rfl, hfinished⟩ := hsound.caused before _ after hhistory
  have hcaused : Justified Caused before := (hhistory ▸ hsound.caused).of_append
  obtain ⟨beforeFinish, afterFinish, hfinishSplit, hspawned⟩ := hcaused.of_mem hfinished
  obtain ⟨beforeSpawn, afterSpawn, hspawnSplit, hreserved⟩ :=
    (hfinishSplit ▸ hcaused).of_append.of_mem hspawned
  obtain ⟨reserveId, config, availableCapacity, now, leaseTokens, reserveReply, hreserve,
    hlease⟩ := hreserved
  have hchain := sublist_concat_of_split
    (sublist_concat_of_split (List.singleton_sublist.mpr hreserve) hspawnSplit) hfinishSplit
  have hmem : Entry.executed reserveId (some pid)
      (.reserve config availableCapacity now leaseTokens) reserveReply ∈ before :=
    hchain.subset (by simp)
  have hworker : config.workerId = workerId := by
    apply hsound.workerId_eq
    · rw [hhistory]
      exact List.mem_append_left _ hmem
    · rw [hhistory]
      exact List.mem_append_right _ List.mem_cons_self
  have htoken : leaseToken ∈ leaseTokens := by
    have hanswered : Justified AnsweredByStore before :=
      (hhistory ▸ hsound.recorded.answered).of_append
    obtain ⟨earlier, _, _, hanswer⟩ := hanswered.of_mem hmem
    rw [AnsweredByStore] at hanswer
    rw [hanswer] at hlease
    exact Store.mem_leaseTokens_of_mem_leases _ hlease
  exact ⟨pid, rfl, reserveId, config, availableCapacity, now, leaseTokens, reserveReply,
    ⟨hworker, htoken, hlease⟩, hchain⟩

end Sound

section Enqueued

variable {first rest : List Entry} {id : ℕ} {sender : Option ℕ} {request : EnqueueRequest}
  {now : Timestamp} {reply : Reply}

/-- The operations around an enqueue of the history. -/
theorem executedOps_enqueue (first rest : List Entry) (id : ℕ) (sender : Option ℕ)
    (request : EnqueueRequest) (now : Timestamp) (reply : Reply) :
    executedOps (first ++ .executed id sender (.enqueue request now) reply :: rest) =
      executedOps first ++ .enqueue request now :: executedOps rest := by
  rw [executedOps_append]
  rfl

namespace Sound

/-- An enqueue of the history was answered by the store at its time. -/
theorem reply_enqueue (hsound : s.Sound)
    (hhistory : s.history = first ++ .executed id sender (.enqueue request now) reply :: rest) :
    reply = (Store.empty.run (executedOps first)).reply (.enqueue request now) :=
  hsound.recorded.answered first _ rest hhistory

/-- An ack of a lease under a later token follows a run of its handler that started after
the enqueue. -/
theorem ranToCompletion_after (hsound : s.Sound) {middle last : List Entry} {ackId : ℕ}
    {ackSender : Option ℕ} {workerId jobId leaseToken : Bytes} {ackedAt : Timestamp}
    {ackReply : Reply}
    (hhistory : s.history = first ++ .executed id sender (.enqueue request now) reply ::
      (middle ++
        .executed ackId ackSender (.ack workerId jobId leaseToken ackedAt) ackReply :: last))
    (hlater : leaseToken ∉ tokensOf (executedOps first)) :
    ∃ pid, ackSender = some pid ∧ RanToCompletion middle pid workerId jobId leaseToken := by
  have hsplit : s.history =
      (first ++ [.executed id sender (.enqueue request now) reply] ++ middle) ++
        .executed ackId ackSender (.ack workerId jobId leaseToken ackedAt) ackReply :: last := by
    rw [hhistory]
    simp
  obtain ⟨pid, hsender, reserveId, config, availableCapacity, reservedAt, leaseTokens,
    reserveReply, hgrants, hchain⟩ := hsound.ranToCompletion hsplit
  refine ⟨pid, hsender, reserveId, config, availableCapacity, reservedAt, leaseTokens,
    reserveReply, hgrants, sublist_of_sublist_append hchain ?_⟩
  intro hmem
  rcases List.mem_append.mp hmem with hearlier | henqueue
  · apply hlater
    exact List.mem_flatMap.mpr
      ⟨_, List.mem_filterMap.mpr ⟨_, hearlier, rfl⟩, hgrants.mem_leaseTokens⟩
  · simp at henqueue

end Sound

/-- In every run, a job whose enqueue was answered ok leaves all four sets later only when
an operator removes it, or when an ack follows a lease that was granted after the enqueue
and whose handler returned that the job is complete. The ack of a lease that was held at
the enqueue sends the job back to ready. -/
theorem delivered_at_least_once {namespaceName : Bytes} {actions : List Action}
    (hrun : (initial namespaceName).run actions = some s)
    (hhistory : s.history = first ++ .executed id sender (.enqueue request now) reply :: rest)
    (hok : reply.isOk) :
    (¬ s.store.Known request.jobId →
      ∃ middle removalId removalSender op removalReply last,
        rest = middle ++ .executed removalId removalSender op removalReply :: last ∧
          op.Removes (storeAfter
            (first ++ .executed id sender (.enqueue request now) reply :: middle))
              request.jobId ∧
            (op.RemovesByOperator request.jobId ∨
              ∃ pid workerId leaseToken ackedAt, removalSender = some pid ∧
                op = .ack workerId request.jobId leaseToken ackedAt ∧
                  RanToCompletion middle pid workerId request.jobId leaseToken)) ∧
    ∀ middle ackId ackSender workerId leaseToken ackedAt ackReply last,
      rest = middle ++
        .executed ackId ackSender (.ack workerId request.jobId leaseToken ackedAt) ackReply ::
          last →
        ackReply.isOk → (storeAfter first).HoldsLease request.jobId workerId leaseToken →
          ((storeAfter (first ++ .executed id sender (.enqueue request now) reply ::
            (middle ++ [.executed ackId ackSender
              (.ack workerId request.jobId leaseToken ackedAt) ackReply]))).ready.score
                request.jobId).isSome := by
  have hsound := sound_run hrun
  have hops : executedOps s.history =
      executedOps first ++ .enqueue request now :: executedOps rest := by
    rw [hhistory, executedOps_enqueue]
  have hfresh := hops ▸ hsound.recorded.fresh
  have hreply := hsound.reply_enqueue hhistory
  rw [hreply] at hok
  constructor
  · intro hgone
    rw [hsound.recorded.store_eq, hops] at hgone
    obtain ⟨before, op, after, hrest, hremoves, hlater⟩ :=
      Store.removed_after_enqueue hfresh (hops ▸ hsound.hasTokens) hok hgone
    obtain ⟨middle, removalId, removalSender, removalReply, last, rfl, rfl⟩ :=
      exists_split_of_executedOps hrest
    refine ⟨middle, removalId, removalSender, op, removalReply, last, rfl, ?_, ?_⟩
    · rw [storeAfter, executedOps_enqueue]
      exact hremoves
    · rcases hremoves.cases with hoperator | ⟨workerId, leaseToken, ackedAt, rfl⟩
      · exact Or.inl hoperator
      · obtain ⟨pid, hsender, hran⟩ :=
          hsound.ranToCompletion_after hhistory (hlater workerId leaseToken ackedAt rfl)
        exact Or.inr ⟨pid, workerId, leaseToken, ackedAt, hsender, rfl, hran⟩
  · rintro middle ackId ackSender workerId leaseToken ackedAt ackReply last rfl hacked hholds
    obtain ⟨jobs, hrefines⟩ := Store.exists_refines_run (executedOps first)
    have hcurrent : (storeAfter first).CurrentLease request.jobId workerId leaseToken :=
      ⟨jobs, hrefines, (Store.holdsLease_iff (hrefines.slot_eq _)).mp hholds⟩
    obtain ⟨earlier, op, later, hfirst, hgrants⟩ := Store.granted_of_currentLease hcurrent
    have htoken : leaseToken ∈ tokensOf (executedOps first) :=
      List.mem_flatMap.mpr ⟨op, by simp [hfirst], hgrants.mem_leaseTokens⟩
    have hmiddle : executedOps middle <+: executedOps (middle ++
        .executed ackId ackSender (.ack workerId request.jobId leaseToken ackedAt) ackReply ::
          last) := by
      rw [executedOps_append]
      exact List.prefix_append _ _
    have hmarked := Store.markedUnder_after_enqueue hfresh hok hmiddle
    have hanswer : AnsweredByStore
        (first ++ .executed id sender (.enqueue request now) reply :: middle)
        (.executed ackId ackSender (.ack workerId request.jobId leaseToken ackedAt) ackReply) :=
      hsound.recorded.answered _ _ last (by rw [hhistory]; simp)
    rw [AnsweredByStore, executedOps_enqueue] at hanswer
    have hready := hmarked.ready_of_ack (hanswer ▸ hacked) htoken
    rw [storeAfter, executedOps_enqueue, executedOps_append, ← List.cons_append,
      ← List.append_assoc, Store.run_append]
    exact hready

end Enqueued

/-- The sample run acks the enqueued job after its handler has completed. -/
theorem delivered_at_least_once_sample :
    ∃ s, (initial "jobs").run sampleAckActions = some s ∧ ¬ s.store.Known "job" ∧
      ∃ middle removalId removalSender op removalReply last,
        s.history.tail = middle ++ .executed removalId removalSender op removalReply :: last ∧
          (op.RemovesByOperator "job" ∨
            ∃ pid workerId leaseToken ackedAt, removalSender = some pid ∧
              op = .ack workerId "job" leaseToken ackedAt ∧
                RanToCompletion middle pid workerId "job" leaseToken) := by
  have hok : (Store.empty.reply
      (.enqueue ⟨"job", none, .always, true⟩ (.ofSeconds 11))).isOk := by decide
  have hends : ((initial "jobs").run sampleAckActions).any fun s =>
      ¬ s.store.Known "job" ∧
        s.history.head? = some (.executed 0 none
          (.enqueue ⟨"job", none, .always, true⟩ (.ofSeconds 11))
          (Store.empty.reply (.enqueue ⟨"job", none, .always, true⟩ (.ofSeconds 11)))) := by
    decide
  obtain ⟨s, hrun, hfacts⟩ := Option.any_eq_true _ _ |>.mp hends
  obtain ⟨hgone, hhead⟩ := of_decide_eq_true hfacts
  obtain ⟨rest, hhistory⟩ := List.head?_eq_some_iff.mp hhead
  have hdelivered := delivered_at_least_once hrun (hhistory.trans (List.nil_append _).symm) hok
  obtain ⟨middle, removalId, removalSender, op, removalReply, last, hrest, _, hcause⟩ :=
    hdelivered.1 hgone
  refine ⟨s, hrun, hgone, middle, removalId, removalSender, op, removalReply, last, ?_, hcause⟩
  rw [hhistory]
  exact hrest

end System

end Redloop
