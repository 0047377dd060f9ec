/-
# Refused operations

A script cannot be rolled back, so every error exit has to come before its first
write. Each script is shown to end in success or in an error exit that leaves the
store as it was, and the error the client reads from such a reply says what the
store holds: the job is unknown, the job is in the named state, the caller does
not hold the lease, or the worker's retry policy is not the namespace's.
-/

import Redloop.Queue.Fencing
import Redloop.Queue.Placement
import Redloop.Store.Decode

namespace Redloop

/-- Whether a reply reports an error. -/
def Reply.isErr (reply : Reply) : Bool := reply.head? = some (utf8 "err")

@[simp]
theorem Reply.isErr_ok (rest : List Bytes) : Reply.isErr (utf8 "ok" :: rest) = false := by
  have hne : utf8 "ok" ≠ utf8 "err" := by decide
  simp [Reply.isErr, hne]

namespace Op

/-- The operations that are run by a script. -/
def IsScript : Op → Prop
  | purgeFailedRead _ | purgeFailedDelete _ | workersCleanup _ => False
  | _ => True

instance (op : Op) : Decidable op.IsScript := by
  unfold IsScript
  split <;> infer_instance

/-- What the client names in the error it makes of a refusal: the worker for a
reserve and the job otherwise. -/
def subject : Op → Bytes
  | reserve config _ _ _ => config.workerId
  | op => op.target.getD []

/-- What an error says about the store that refused the operation. -/
def Refuses (op : Op) (s : Store) (error : Error) : Prop :=
  match op with
  | enqueue { jobId, .. } _ | reschedule jobId _ _ | operator _ jobId _ =>
      error = .notFound jobId ∧ s.placements jobId = [] ∨
        ∃ state, error = .invalidState jobId state ∧ s.placements jobId = [state]
  | heartbeat workerId jobId leaseToken _ _ | ack workerId jobId leaseToken _
  | completeAndReschedule workerId jobId leaseToken _ _ =>
      error = .leaseMismatch jobId ∧ ¬ s.HoldsLease jobId workerId leaseToken
  | failOrRetry request =>
      error = .leaseMismatch request.jobId ∧
        ¬ s.HoldsLease request.jobId request.workerId request.leaseToken
  | reserve config _ _ _ =>
      error = .invalidConfig .retryPolicyMismatch ∧
        ∃ policy, s.cfg.lookup (utf8 "retry_policy") = some policy ∧
          policy ≠ config.retryPolicyKey
  | _ => False

end Op

/-! ## Error replies -/

/-- The reply to a reserve with another retry policy than the namespace's. -/
def Reply.policyMismatch : Reply := ["err", "invalid_config", "retry_policy_mismatch"]

@[simp]
theorem parseScriptError_notFound (jobId : Bytes) :
    parseScriptError jobId Reply.notFound = .notFound jobId := rfl

@[simp]
theorem parseScriptError_leaseMismatch (jobId : Bytes) :
    parseScriptError jobId Reply.leaseMismatch = .leaseMismatch jobId := rfl

@[simp]
theorem parseScriptError_invalidState (jobId : Bytes) (state : JobState) :
    parseScriptError jobId (Reply.invalidState state) = .invalidState jobId state := by
  cases state <;> rfl

namespace Store

variable {s : Store} {jobId : Bytes}

/-- The ways in which a script on one job ends: with success, or with an error that
is returned before anything was written. -/
inductive Exits (s : Store) (jobId : Bytes) : Store × Reply → Prop
  | ok {result : Store × Reply} (hok : result.2.isErr = false) : Exits s jobId result
  | notFound (hfound : (s.currentState jobId).1 = none) : Exits s jobId (s, Reply.notFound)
  | invalidState {state : JobState} (hfound : (s.currentState jobId).1 = some state) :
      Exits s jobId (s, Reply.invalidState state)

theorem reschedule_exits (nowUs requestedUs : ℤ) (mode : ReplaceMode) :
    s.Exits jobId (s.reschedule jobId nowUs requestedUs mode) := by
  unfold reschedule
  split
  · next hfound => exact .notFound (by rw [hfound])
  · next state score hfound =>
      split_ifs with hother
      · exact .invalidState (by rw [hfound])
      · dsimp only
        split_ifs <;> exact .ok (Reply.isErr_ok _)

/-- An immediate enqueue is never refused. -/
theorem enqueueImmediate_isErr (cleared : Store) (nowUs : ℤ) (state : Option JobState)
    (wasFailed : Bool) :
    (cleared.enqueueImmediate jobId nowUs state wasFailed).2.isErr = false := by
  unfold enqueueImmediate
  split
  · exact Reply.isErr_ok _
  · split_ifs <;> exact Reply.isErr_ok _
  · exact Reply.isErr_ok _
  · dsimp only
    split_ifs <;> exact Reply.isErr_ok _

/-- A scheduled enqueue is refused for a leased job alone. -/
theorem enqueueScheduled_isErr (cleared : Store) (nowUs requestedUs : ℤ) (mode : ReplaceMode)
    {state : Option JobState} (score : ℤ) (wasFailed : Bool) (hstate : state ≠ some .leased) :
    (cleared.enqueueScheduled jobId nowUs requestedUs mode state score wasFailed).2.isErr =
      false := by
  unfold enqueueScheduled
  dsimp only
  split
  · contradiction
  · dsimp only
    split_ifs <;> exact Reply.isErr_ok _
  · split_ifs <;> exact Reply.isErr_ok _

theorem enqueueOrReschedule_exits (op : EnqueueOp) (now requested : ℤ) (mode : ReplaceMode) :
    s.Exits jobId (s.enqueueOrReschedule op jobId now requested mode) := by
  cases op with
  | reschedule => exact reschedule_exits _ _ _
  | enqueueImmediate => exact .ok (enqueueImmediate_isErr _ _ _ _)
  | enqueueScheduled =>
      unfold enqueueOrReschedule
      dsimp only
      by_cases hfailed : (s.currentState jobId).1 = some .failed
      · -- the failed record was removed, but a job without a state is not refused
        simp only [hfailed, decide_true, if_true]
        exact .ok (enqueueScheduled_isErr _ _ _ _ _ _ (by simp))
      · simp only [hfailed, decide_false, if_false]
        by_cases hleased : (s.currentState jobId).1 = some .leased
        · rw [hleased]
          exact .invalidState hleased
        · exact .ok (enqueueScheduled_isErr _ _ _ _ _ _ hleased)

theorem cancel_exits {state : JobState} (hfound : (s.currentState jobId).1 = some state) :
    s.Exits jobId (s.cancel jobId state) := by
  unfold cancel
  split
  · exact .ok (Reply.isErr_ok _)
  · exact .ok (Reply.isErr_ok _)
  · exact .invalidState hfound

theorem requeue_exits (nowUs : ℤ) {state : JobState}
    (hfound : (s.currentState jobId).1 = some state) :
    s.Exits jobId (s.requeue jobId nowUs state) := by
  unfold requeue
  split
  · exact .invalidState hfound
  · exact .ok (Reply.isErr_ok _)
  · exact .ok (Reply.isErr_ok _)
  · exact .ok (Reply.isErr_ok _)

theorem forceRetry_exits (nowUs : ℤ) {state : JobState}
    (hfound : (s.currentState jobId).1 = some state) :
    s.Exits jobId (s.forceRetry jobId nowUs state) := by
  unfold forceRetry
  split_ifs
  · exact .invalidState hfound
  · exact .ok (Reply.isErr_ok _)

/-- A force command finds the holder of every packed lease record. -/
theorem forceLeased_exits (hmeta : (s.currentState jobId).1 = some .leased →
      ∃ workerId leaseToken, s.leaseMeta.lookup jobId = some (packMeta workerId leaseToken))
    {state : JobState} (hfound : (s.currentState jobId).1 = some state)
    (command : Store → Store) : s.Exits jobId (s.forceLeased jobId state command) := by
  unfold forceLeased
  split_ifs with hleased
  · exact .invalidState hfound
  · rw [not_not] at hleased
    obtain ⟨workerId, leaseToken, hrecord⟩ := hmeta (hleased ▸ hfound)
    simp only [hrecord, workerFromMeta_packMeta]
    exact .ok (Reply.isErr_ok _)

theorem operatorTransition_exits (hmeta : (s.currentState jobId).1 = some .leased →
      ∃ workerId leaseToken, s.leaseMeta.lookup jobId = some (packMeta workerId leaseToken))
    (op : OperatorOp) (now : ℤ) : s.Exits jobId (s.operatorTransition op jobId now) := by
  unfold operatorTransition
  dsimp only
  split
  · next hfound => exact .notFound hfound
  · next state hfound =>
      cases op with
      | cancel => exact cancel_exits hfound
      | requeue => exact requeue_exits _ hfound
      | retryNow => exact requeue_exits _ hfound
      | forceRetry => exact forceRetry_exits _ hfound
      | forceAck => exact forceLeased_exits hmeta hfound _
      | forceFail => exact forceLeased_exits hmeta hfound _

/-- A heartbeat or completion is refused for the holder of no lease alone. -/
theorem holder_exits {workerId leaseToken : Bytes} {held : Store × Reply}
    (hheld : held.2.isErr = false)
    (herr : (if ¬ s.HoldsLease jobId workerId leaseToken then (s, Reply.leaseMismatch)
      else held).2.isErr) :
    (if ¬ s.HoldsLease jobId workerId leaseToken then (s, Reply.leaseMismatch) else held) =
        (s, Reply.leaseMismatch) ∧ ¬ s.HoldsLease jobId workerId leaseToken := by
  split_ifs at herr ⊢ with hholds
  · simp [hheld] at herr
  · exact ⟨rfl, hholds⟩

/-! ## Reachable stores -/

/-- The state the scripts find is where the job is. -/
theorem placements_eq {jobs : Bytes → Job} (hrefines : Refines s jobs) (jobId : Bytes) :
    s.placements jobId = (s.currentState jobId).1.toList := by
  have hslot := hrefines.slot_eq jobId
  rw [currentState_eq hslot]
  cases hplacement : (jobs jobId).placement <;>
    simp_all [Slot.ext_iff, slot, Job.toSlot, placements]

/-- A leased job has a packed lease record. -/
theorem leaseMeta_of_leased {jobs : Bytes → Job} (hrefines : Refines s jobs)
    (hfound : (s.currentState jobId).1 = some .leased) :
    ∃ workerId leaseToken, s.leaseMeta.lookup jobId = some (packMeta workerId leaseToken) := by
  have hslot := hrefines.slot_eq jobId
  rw [currentState_eq hslot] at hfound
  cases hplacement : (jobs jobId).placement with
  | leased deadline workerId leaseToken rerun =>
      refine ⟨workerId, leaseToken, ?_⟩
      simp_all [Slot.ext_iff, slot, Job.toSlot]
  | _ => simp [hplacement] at hfound

/-- What an error exit of a script on one job says. -/
theorem Exits.refusal (hrefines : ∃ jobs, Refines s jobs) {result : Store × Reply}
    (hexits : s.Exits jobId result) (herr : result.2.isErr) :
    result.1 = s ∧
      (parseScriptError jobId result.2 = .notFound jobId ∧ s.placements jobId = [] ∨
        ∃ state, parseScriptError jobId result.2 = .invalidState jobId state ∧
          s.placements jobId = [state]) := by
  obtain ⟨jobs, hrefines⟩ := hrefines
  rw [placements_eq hrefines]
  cases hexits with
  | ok hok => simp [hok] at herr
  | notFound hfound => exact ⟨rfl, Or.inl ⟨by simp, by rw [hfound]; rfl⟩⟩
  | invalidState hfound =>
      exact ⟨rfl, Or.inr ⟨_, parseScriptError_invalidState _ _, by rw [hfound]; rfl⟩⟩

/-- A reserve is refused for another policy alone, before it registers the worker. -/
theorem reserve_isErr {config : WorkerConfig} {availableCapacity : ℕ} {now : Timestamp}
    {leaseTokens : List Bytes}
    (herr : (s.reply (.reserve config availableCapacity now leaseTokens)).isErr) :
    s.exec (.reserve config availableCapacity now leaseTokens) =
        (s, Reply.policyMismatch) ∧
      ∃ policy, s.cfg.lookup (utf8 "retry_policy") = some policy ∧
        policy ≠ config.retryPolicyKey := by
  unfold reply at herr
  unfold exec at herr ⊢
  dsimp only at herr ⊢
  split_ifs at herr ⊢
  · simp at herr
  · unfold reserve at herr ⊢
    split at herr
    · simp [reserveJobs] at herr
    · next policy hpolicy =>
        split_ifs at herr ⊢ with hother
        · exact ⟨rfl, policy, hpolicy, hother⟩
        · simp [reserveJobs] at herr

/-- In every reachable store, a script that answers with an error leaves every
structure as it was, and the client reads from the reply what made it refuse. -/
theorem error_reply (ops : List Op) {op : Op} (hscript : op.IsScript)
    (herr : ((empty.run ops).reply op).isErr) :
    (empty.run ops).next op = empty.run ops ∧
      op.Refuses (empty.run ops) (parseScriptError op.subject ((empty.run ops).reply op)) := by
  have hrefines := exists_refines_run ops
  generalize empty.run ops = s at *
  cases op with
  | enqueue request now => exact (enqueueOrReschedule_exits _ _ _ _).refusal hrefines herr
  | reschedule jobId scheduleAt now =>
      exact (enqueueOrReschedule_exits _ _ _ _).refusal hrefines herr
  | operator op jobId now =>
      obtain ⟨jobs, hjobs⟩ := hrefines
      exact (operatorTransition_exits (leaseMeta_of_leased hjobs) _ _).refusal ⟨jobs, hjobs⟩ herr
  | heartbeat workerId jobId leaseToken now leaseDuration =>
      obtain ⟨hexec, hholds⟩ := holder_exits (Reply.isErr_ok _) herr
      exact ⟨congrArg Prod.fst hexec, congrArg (parseScriptError jobId) (congrArg Prod.snd hexec),
        hholds⟩
  | ack workerId jobId leaseToken now =>
      obtain ⟨hexec, hholds⟩ := holder_exits (Reply.isErr_ok _) herr
      exact ⟨congrArg Prod.fst hexec, congrArg (parseScriptError jobId) (congrArg Prod.snd hexec),
        hholds⟩
  | completeAndReschedule workerId jobId leaseToken scheduleAt now =>
      obtain ⟨hexec, hholds⟩ := holder_exits (by
        dsimp only
        split_ifs <;> exact Reply.isErr_ok _) herr
      exact ⟨congrArg Prod.fst hexec, congrArg (parseScriptError jobId) (congrArg Prod.snd hexec),
        hholds⟩
  | failOrRetry request =>
      obtain ⟨hexec, hholds⟩ := holder_exits (by
        dsimp only
        split_ifs <;> exact Reply.isErr_ok _) herr
      exact ⟨congrArg Prod.fst hexec,
        congrArg (parseScriptError request.jobId) (congrArg Prod.snd hexec), hholds⟩
  | reserve config availableCapacity now leaseTokens =>
      obtain ⟨hexec, hpolicy⟩ := reserve_isErr herr
      refine ⟨congrArg Prod.fst hexec, ?_, hpolicy⟩
      rw [reply, hexec]
      rfl
  | reapExpired now limit =>
      simp only [reply, exec, reapExpired] at herr
      split_ifs at herr <;> exact absurd herr (by simp)
  | _ => exact hscript.elim

/-- The second of two workers with different policies is refused. -/
theorem error_reply_sample :
    let s := empty.run sampleLeaseRun
    let op := Op.reserve { sampleConfig with retryPolicy := .never } 1 (.ofSeconds 3) ["other"]
    s.next op = s ∧
      op.Refuses s (parseScriptError op.subject (s.reply op)) :=
  error_reply sampleLeaseRun (by decide) (by decide)

end Store

end Redloop
