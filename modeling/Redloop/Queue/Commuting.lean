/-
# Operations on different jobs

An operation that is aimed at one job reads and writes what the namespace holds for that
job. Beyond it, a heartbeat notes when its worker was seen, and an operation that ends a
lease lowers the counter of its holder. So operations on different jobs commute, and how the
operations of many clients are interleaved matters job by job only. An operation that is
sent twice does nothing the second time.
-/

import Redloop.Data.Commuting
import Redloop.Queue.Conservation
import Redloop.Queue.Reaping
import Redloop.Queue.Retries
import Redloop.Queue.Splitting

namespace Redloop

/-- What an operation can share with another: a job, or the time at which a worker was seen. -/
inductive Resource
  | job (jobId : Bytes)
  | lastSeen (workerId : Bytes)
  deriving DecidableEq

/-- What an operation uses. An operation that is not aimed at one job uses everything. -/
def Op.uses (op : Op) : Resource → Bool
  | .job jobId => op.target.all (· = jobId)
  | .lastSeen workerId =>
      match op with
      | heartbeat seenId _ _ _ _ => seenId = workerId
      | op => op.target.isNone

/-- Lowering the counters of some workers and then of others, in either order. -/
theorem Hash.decrementAll_comm (hash : Hash ℤ) (first second : List Bytes) :
    (hash.decrementAll first).decrementAll second =
      (hash.decrementAll second).decrementAll first := by
  have hboth (first second : List Bytes) : (hash.decrementAll first).decrementAll second =
      hash.decrementAll (first ++ second) := List.foldl_append.symm
  apply Finmap.ext_lookup
  intro field
  rw [hboth, hboth, Hash.lookup_decrementAll, Hash.lookup_decrementAll, List.count_append,
    List.count_append, Nat.add_comm]

/-- A worker that is seen twice at one time. -/
theorem Registry.see_see (registry : Registry) (workerId : Bytes) (nowUs : ℤ) :
    (registry.see workerId nowUs).see workerId nowUs = registry.see workerId nowUs := by
  unfold see
  dsimp only
  rw [SortedSet.add_add]

/-- Two workers that are seen in either order. -/
theorem Registry.see_comm (registry : Registry) {first second : Bytes} (hne : first ≠ second)
    (firstUs secondUs : ℤ) :
    (registry.see first firstUs).see second secondUs =
      (registry.see second secondUs).see first firstUs := by
  unfold see
  dsimp only
  congr 1
  apply SortedSet.ext_score
  intro member
  simp only [SortedSet.score_add]
  by_cases hfirst : member = first
  · simp [hfirst, hne]
  · simp [hfirst]

namespace Store

variable {s s' : Store} {jobs : Bytes → Job} {op : Op} {jobId target : Bytes}

/-! ## Answers -/

theorem currentState_congr (hslot : s'.slot jobId = s.slot jobId) :
    s'.currentState jobId = s.currentState jobId := by
  simp only [slot, Slot.mk.injEq] at hslot
  obtain ⟨hready, hscheduled, hleased, hfailed, _⟩ := hslot
  rw [currentState, currentState, hready, hscheduled, hleased, hfailed]

theorem holdsLease_congr (hslot : s'.slot jobId = s.slot jobId) (workerId leaseToken : Bytes) :
    s'.HoldsLease jobId workerId leaseToken ↔ s.HoldsLease jobId workerId leaseToken := by
  simp only [slot, Slot.mk.injEq] at hslot
  obtain ⟨_, _, hleased, _, hmeta, _⟩ := hslot
  rw [HoldsLease, HoldsLease, hleased, hmeta]

theorem reply_reschedule_congr (hslot : s'.slot jobId = s.slot jobId) (nowUs requestedUs : ℤ)
    (mode : ReplaceMode) :
    (s'.reschedule jobId nowUs requestedUs mode).2 =
      (s.reschedule jobId nowUs requestedUs mode).2 := by
  unfold reschedule
  rw [currentState_congr hslot]
  split
  · rfl
  · dsimp only
    split_ifs <;> rfl

theorem reply_enqueueOrReschedule_congr (hslot : s'.slot jobId = s.slot jobId) (op : EnqueueOp)
    (now requested : ℤ) (mode : ReplaceMode) :
    (s'.enqueueOrReschedule op jobId now requested mode).2 =
      (s.enqueueOrReschedule op jobId now requested mode).2 := by
  have hrerun : jobId ∈ s'.rerun ↔ jobId ∈ s.rerun := by
    simpa [slot] using congrArg Slot.rerun hslot
  cases op with
  | reschedule => exact reply_reschedule_congr hslot _ _ _
  | enqueueImmediate =>
      unfold enqueueOrReschedule
      rw [currentState_congr hslot]
      dsimp only
      by_cases hfailed : (s.currentState jobId).1 = some .failed
      · rw [if_pos hfailed, if_pos hfailed, if_pos hfailed]
        rfl
      · rw [if_neg hfailed, if_neg hfailed, if_neg hfailed]
        unfold enqueueImmediate
        split
        · rfl
        · simp only [hrerun]
          split_ifs <;> rfl
        · rfl
        · rfl
  | enqueueScheduled =>
      unfold enqueueOrReschedule
      rw [currentState_congr hslot]
      dsimp only
      unfold enqueueScheduled
      dsimp only
      split
      · rfl
      · rfl
      · split_ifs <;> rfl

theorem reply_operatorTransition_congr (hslot : s'.slot jobId = s.slot jobId) (op : OperatorOp)
    (now : ℤ) : (s'.operatorTransition op jobId now).2 = (s.operatorTransition op jobId now).2 := by
  have hmeta : s'.leaseMeta.lookup jobId = s.leaseMeta.lookup jobId :=
    congrArg Slot.leaseMeta hslot
  have hforce (state : JobState) (command : Store → Store) :
      (s'.forceLeased jobId state command).2 = (s.forceLeased jobId state command).2 := by
    unfold forceLeased
    rw [hmeta]
    split_ifs
    · rfl
    · split
      · rfl
      · split <;> rfl
  unfold operatorTransition
  rw [currentState_congr hslot]
  dsimp only
  split
  · rfl
  · next state _ =>
      cases op with
      | cancel => cases state <;> rfl
      | requeue => cases state <;> rfl
      | retryNow => cases state <;> rfl
      | forceRetry => cases state <;> rfl
      | forceAck => exact hforce _ _
      | forceFail => exact hforce _ _

theorem reply_completeAndReschedule_congr (hslot : s'.slot jobId = s.slot jobId)
    (workerId leaseToken : Bytes) (now schedule : ℤ) :
    (s'.completeAndReschedule jobId workerId leaseToken now schedule).2 =
      (s.completeAndReschedule jobId workerId leaseToken now schedule).2 := by
  have hrerun : jobId ∈ s'.rerun ↔ jobId ∈ s.rerun := by
    simpa [slot] using congrArg Slot.rerun hslot
  have hreply (s : Store) : (s.completeAndReschedule jobId workerId leaseToken now schedule).2 =
      if ¬ s.HoldsLease jobId workerId leaseToken then Reply.leaseMismatch
      else if jobId ∈ s.rerun then [utf8 "ok", utf8 "ready", utf8 "0"]
      else if Double.ofInt schedule = 0 ∨ Double.ofInt schedule ≤ Double.ofInt now then
        [utf8 "ok", utf8 "ready", utf8 "0"]
      else [utf8 "ok", utf8 "scheduled", fixedText (Double.ofInt schedule)] := by
    unfold completeAndReschedule
    by_cases hholds : s.HoldsLease jobId workerId leaseToken
    · rw [if_neg (not_not.mpr hholds), if_neg (not_not.mpr hholds)]
      exact (apply_ite Prod.snd _ _ _).trans (if_congr Iff.rfl rfl (apply_ite Prod.snd _ _ _))
    · rw [if_pos hholds, if_pos hholds]
  simp only [hreply, holdsLease_congr hslot, hrerun]

theorem reply_failOrRetry_congr (hslot : s'.slot jobId = s.slot jobId)
    (workerId leaseToken : Bytes) (now : ℤ) (action : FailureAction) (args : PolicyArgs) :
    (s'.failOrRetry jobId workerId leaseToken now action args).2 =
      (s.failOrRetry jobId workerId leaseToken now action args).2 := by
  have hfailures : s'.failures.lookup jobId = s.failures.lookup jobId :=
    congrArg Slot.failures hslot
  have hcounted : Hash.counter (Hash.incrBy s'.failures jobId 1) jobId =
      Hash.counter (Hash.incrBy s.failures jobId 1) jobId := by
    unfold Hash.counter
    rw [Hash.lookup_incrBy, Hash.lookup_incrBy, Hash.counter, Hash.counter, hfailures]
  have hreply (s : Store) : (s.failOrRetry jobId workerId leaseToken now action args).2 =
      if ¬ s.HoldsLease jobId workerId leaseToken then Reply.leaseMismatch
      else
        let failureCount := Double.ofInt (Hash.counter (Hash.incrBy s.failures jobId 1) jobId)
        if action = .terminal ∨ ¬ args.shouldRetry failureCount then
          [utf8 "ok", generalText 14 failureCount, utf8 "failed", utf8 "0"]
        else if args.delayMs failureCount = 0 then
          [utf8 "ok", generalText 14 failureCount, utf8 "ready", utf8 "0"]
        else
          [utf8 "ok", generalText 14 failureCount, utf8 "scheduled",
            fixedText (Double.add (Double.ofInt now)
              (Double.mul (args.delayMs failureCount) 1000))] := by
    unfold failOrRetry
    by_cases hholds : s.HoldsLease jobId workerId leaseToken
    · rw [if_neg (not_not.mpr hholds), if_neg (not_not.mpr hholds)]
      exact (apply_ite Prod.snd _ _ _).trans (if_congr Iff.rfl rfl (apply_ite Prod.snd _ _ _))
    · rw [if_pos hholds, if_pos hholds]
  simp only [hreply, holdsLease_congr hslot, hcounted]

/-- What an operation on a single job answers depends on what the store holds for the job. -/
theorem reply_congr (htarget : op.target = some target)
    (hslot : s'.slot target = s.slot target) : s'.reply op = s.reply op := by
  cases op with
  | enqueue request now =>
      cases htarget
      exact reply_enqueueOrReschedule_congr hslot _ _ _ _
  | reschedule jobId scheduleAt now =>
      cases htarget
      exact reply_enqueueOrReschedule_congr hslot _ _ _ _
  | operator op jobId now =>
      cases htarget
      exact reply_operatorTransition_congr hslot _ _
  | heartbeat workerId jobId leaseToken now leaseDuration =>
      cases htarget
      dsimp only [reply, exec, heartbeat]
      simp only [holdsLease_congr hslot, apply_ite Prod.snd]
  | ack workerId jobId leaseToken now =>
      cases htarget
      dsimp only [reply, exec, ack]
      simp only [holdsLease_congr hslot, apply_ite Prod.snd]
  | completeAndReschedule workerId jobId leaseToken scheduleAt now =>
      cases htarget
      exact reply_completeAndReschedule_congr hslot _ _ _ _
  | failOrRetry request =>
      cases htarget
      exact reply_failOrRetry_congr hslot _ _ _ _ _
  | _ => cases htarget

/-! ## Lease counters -/

/-- The worker whose lease of a job has ended between two stores. -/
def endedHolder (s s' : Store) (jobId : Bytes) : List Bytes :=
  if (s'.leaseMeta.lookup jobId).isSome then [] else (s.holder jobId).toList

/-- The lease counters have been lowered for the lease of a job that has ended. -/
def CountsEnded (s s' : Store) (jobId : Bytes) : Prop :=
  s'.workersLeases = s.workersLeases.decrementAll (s.endedHolder s' jobId)

theorem endedHolder_of_kept (hmeta : s'.leaseMeta.lookup jobId = s.leaseMeta.lookup jobId) :
    s.endedHolder s' jobId = [] := by
  unfold endedHolder holder
  rw [hmeta]
  cases s.leaseMeta.lookup jobId <;> rfl

theorem CountsEnded.of_kept (hmeta : s'.leaseMeta = s.leaseMeta)
    (hcount : s'.workersLeases = s.workersLeases) : s.CountsEnded s' jobId := by
  rw [CountsEnded, endedHolder_of_kept (by rw [hmeta]), hcount]
  rfl

theorem CountsEnded.of_dropLease {workerId leaseToken : Bytes}
    (hrecord : s.leaseMeta.lookup jobId = some (packMeta workerId leaseToken))
    (hmeta : s'.leaseMeta = Finmap.erase jobId s.leaseMeta)
    (hcount : s'.workersLeases = s.workersLeases.decrement workerId) :
    s.CountsEnded s' jobId := by
  have hended : s.endedHolder s' jobId = [workerId] := by
    unfold endedHolder holder
    rw [hmeta, Finmap.lookup_erase, hrecord, Option.bind_some, workerFromMeta_packMeta]
    rfl
  rw [CountsEnded, hended, hcount]
  rfl

theorem CountsEnded.rerunIfMarked (hcounts : s.CountsEnded s' jobId) (nowUs : ℤ) :
    s.CountsEnded (s'.rerunIfMarked jobId nowUs) jobId := by
  unfold Store.rerunIfMarked
  split_ifs
  · exact hcounts
  · exact hcounts

theorem countsEnded_forceLeased (hrefines : Refines s jobs) {state : JobState}
    {command : Store → Store}
    (hcommand : ∀ dropped, s.CountsEnded dropped jobId → s.CountsEnded (command dropped) jobId) :
    s.CountsEnded (s.forceLeased jobId state command).1 jobId := by
  have hslot := congrArg Slot.leaseMeta (hrefines.slot_eq jobId)
  unfold forceLeased
  split_ifs
  · exact .of_kept rfl rfl
  · split
    · exact .of_kept rfl rfl
    · next record hrecord =>
        split
        · exact .of_kept rfl rfl
        · next workerId hworker =>
            refine hcommand _ ?_
            simp only [slot, hrecord, Job.toSlot] at hslot
            cases hplacement : (jobs jobId).placement with
            | leased deadline holderId leaseToken rerun =>
                simp only [hplacement, Option.some.injEq] at hslot
                rw [hslot, workerFromMeta_packMeta, Option.some.injEq] at hworker
                subst hworker
                exact .of_dropLease (hrecord.trans (congrArg some hslot)) rfl rfl
            | _ => simp [hplacement] at hslot

/-- An operation on a single job lowers the counter of the worker whose lease it ends. -/
theorem countsEnded_next (hrefines : Refines s jobs) (htarget : op.target = some target) :
    s.CountsEnded (s.next op) target := by
  have henqueue (op : EnqueueOp) (jobId : Bytes) (now requested : ℤ) (mode : ReplaceMode) :
      s.CountsEnded (s.enqueueOrReschedule op jobId now requested mode).1 jobId := by
    obtain ⟨_, _, _, _, _, heq⟩ := s.enqueueOrReschedule_frame op jobId now requested mode
    rw [heq]
    exact .of_kept rfl rfl
  cases op with
  | enqueue request now =>
      cases htarget
      exact henqueue _ _ _ _ _
  | reschedule jobId scheduleAt now =>
      cases htarget
      exact henqueue _ _ _ _ _
  | operator op jobId now =>
      cases htarget
      dsimp only [next, exec, operatorTransition]
      split
      · exact .of_kept rfl rfl
      · next state _ =>
          cases op with
          | cancel => cases state <;> exact .of_kept rfl rfl
          | requeue => cases state <;> exact .of_kept rfl rfl
          | retryNow => cases state <;> exact .of_kept rfl rfl
          | forceRetry => cases state <;> exact .of_kept rfl rfl
          | forceAck =>
              apply countsEnded_forceLeased hrefines
              intro dropped hcounts
              have hcleared : s.CountsEnded
                { dropped with failures := Finmap.erase target dropped.failures } target := hcounts
              exact hcleared.rerunIfMarked _
          | forceFail =>
              exact countsEnded_forceLeased hrefines fun dropped hcounts => hcounts
  | heartbeat workerId jobId leaseToken now leaseDuration =>
      cases htarget
      dsimp only [next, exec, heartbeat]
      split_ifs <;> exact .of_kept rfl rfl
  | ack workerId jobId leaseToken now =>
      cases htarget
      dsimp only [next, exec, ack]
      split_ifs with hholds
      · exact (CountsEnded.of_dropLease hholds.1 rfl rfl).rerunIfMarked _
      · exact .of_kept rfl rfl
  | completeAndReschedule workerId jobId leaseToken scheduleAt now =>
      cases htarget
      dsimp only [next, exec, completeAndReschedule]
      split_ifs with hholds
      · exact (CountsEnded.of_dropLease hholds.1 rfl rfl).rerunIfMarked _
      · exact .of_dropLease hholds.1 rfl rfl
      · exact .of_dropLease hholds.1 rfl rfl
      · exact .of_kept rfl rfl
  | failOrRetry request =>
      cases htarget
      dsimp only [next, exec, failOrRetry]
      split_ifs with hholds
      · exact .of_dropLease hholds.1 rfl rfl
      · exact .of_dropLease hholds.1 rfl rfl
      · exact .of_dropLease hholds.1 rfl rfl
      · exact .of_kept rfl rfl
  | _ => cases htarget

/-! ## Operations on different jobs -/

/-- An operation on a single job leaves what the store holds for the job as its transition
says. -/
theorem slot_next_target (hrefines : Refines s jobs) (htarget : op.target = some target) :
    (s.next op).slot target = ((op.outcome (jobs target)).getD (jobs target)).toSlot := by
  obtain ⟨jobs', hrefines', hstep⟩ := exec_refines hrefines op
  have hjob := (jobStep_of_target htarget).mp (hstep target)
  rw [if_pos rfl] at hjob
  rw [hrefines'.slot_eq, hjob.1]

/-- What the store holds for a job after an operation depends on what it held before. -/
theorem slot_next_congr {jobs' : Bytes → Job} (hrefines : Refines s jobs)
    (hrefines' : Refines s' jobs') (htarget : op.target = some target)
    (hslot : s'.slot target = s.slot target) :
    (s'.next op).slot target = (s.next op).slot target := by
  have hjob : jobs' target = jobs target :=
    Job.toSlot_injective ((hrefines'.slot_eq target).symm.trans
      (hslot.trans (hrefines.slot_eq target)))
  rw [slot_next_target hrefines htarget, slot_next_target hrefines' htarget, hjob]

/-- What a heartbeat that is served notes: its worker and its time. -/
def seen (s : Store) : Op → Option (Bytes × ℤ)
  | .heartbeat workerId jobId leaseToken now _ =>
      if s.HoldsLease jobId workerId leaseToken then some (workerId, Double.ofInt (micros now))
      else none
  | _ => none

/-- An operation on a single job notes in the registry when its worker was seen. -/
theorem registry_next_of_target (htarget : op.target = some target) :
    (s.next op).registry =
      (s.seen op).elim s.registry fun seen => s.registry.see seen.1 seen.2 := by
  rw [registry_next]
  cases op with
  | heartbeat workerId jobId leaseToken now leaseDuration =>
      dsimp only [seen]
      split_ifs <;> rfl
  | reserve | workersCleanup => cases htarget
  | _ => rfl

theorem seen_congr (htarget : op.target = some target) (hslot : s'.slot target = s.slot target) :
    s'.seen op = s.seen op := by
  cases op with
  | heartbeat workerId jobId leaseToken now leaseDuration =>
      cases htarget
      simp only [seen, holdsLease_congr hslot]
  | _ => rfl

theorem uses_of_seen {workerId : Bytes} {nowUs : ℤ} (hseen : s.seen op = some (workerId, nowUs)) :
    op.uses (.lastSeen workerId) := by
  cases op with
  | heartbeat seenId jobId leaseToken now leaseDuration =>
      dsimp only [seen] at hseen
      split_ifs at hseen
      cases hseen
      exact decide_eq_true rfl
  | _ => cases hseen

/-- Independent operations are aimed at different jobs. -/
theorem exists_targets_of_independent {other : Op} (hindependent : Independent Op.uses op other) :
    ∃ target otherTarget, op.target = some target ∧ other.target = some otherTarget ∧
      target ≠ otherTarget := by
  cases htarget : op.target with
  | none =>
      cases hother : other.target with
      | none =>
          exact absurd (by simp [Op.uses, hother])
            (hindependent (.job []) (by simp [Op.uses, htarget]))
      | some otherTarget =>
          exact absurd (by simp [Op.uses, hother])
            (hindependent (.job otherTarget) (by simp [Op.uses, htarget]))
  | some target =>
      have hfree := hindependent (.job target) (by simp [Op.uses, htarget])
      cases hother : other.target with
      | none => exact absurd (by simp [Op.uses, hother]) hfree
      | some otherTarget =>
          refine ⟨target, otherTarget, rfl, rfl, ?_⟩
          rintro rfl
          exact hfree (by simp [Op.uses, hother])

/-- Independent operations commute. -/
theorem next_comm (hrefines : Refines s jobs) {first second : Op}
    (hindependent : Independent Op.uses first second) :
    (s.next first).next second = (s.next second).next first := by
  obtain ⟨one, other, hone, hother, hne⟩ := exists_targets_of_independent hindependent
  obtain ⟨jobs₁, hrefines₁, _⟩ := exec_refines hrefines first
  obtain ⟨jobs₂, hrefines₂, _⟩ := exec_refines hrefines second
  have hfirst : (s.next first).slot other = s.slot other :=
    slot_next_of_ne_target hrefines hone hne.symm
  have hsecond : (s.next second).slot one = s.slot one :=
    slot_next_of_ne_target hrefines hother hne
  have hafterFirst : ((s.next first).next second).slot other = (s.next second).slot other :=
    slot_next_congr hrefines hrefines₁ hother hfirst
  have hafterSecond : ((s.next second).next first).slot one = (s.next first).slot one :=
    slot_next_congr hrefines hrefines₂ hone hsecond
  apply eq_of_slots
  · intro jobId
    by_cases hjob : jobId = other
    · subst hjob
      rw [hafterFirst, slot_next_of_ne_target hrefines₂ hone hne.symm]
    · rw [slot_next_of_ne_target hrefines₁ hother hjob]
      by_cases hjob' : jobId = one
      · subst hjob'
        exact hafterSecond.symm
      · rw [slot_next_of_ne_target hrefines hone hjob', slot_next_of_ne_target hrefines₂ hone hjob',
          slot_next_of_ne_target hrefines hother hjob]
  · rw [registry_next_of_target hother, registry_next_of_target hone,
      registry_next_of_target hone, registry_next_of_target hother,
      seen_congr hother hfirst, seen_congr hone hsecond]
    cases hseen : s.seen first with
    | none => cases s.seen second <;> rfl
    | some seen =>
        cases hother : s.seen second with
        | none => rfl
        | some otherSeen =>
            have hworkers : seen.1 ≠ otherSeen.1 := by
              intro hsame
              apply hindependent (.lastSeen seen.1) (uses_of_seen hseen)
              rw [hsame]
              exact uses_of_seen hother
            exact Registry.see_comm s.registry hworkers seen.2 otherSeen.2
  · have hendedSecond : (s.next first).endedHolder ((s.next first).next second) other =
        s.endedHolder (s.next second) other := by
      have hafter : _ = _ := congrArg Slot.leaseMeta hafterFirst
      have hbefore : _ = _ := congrArg Slot.leaseMeta hfirst
      simp only [slot] at hafter hbefore
      rw [endedHolder, endedHolder, holder, holder, hafter, hbefore]
    have hendedFirst : (s.next second).endedHolder ((s.next second).next first) one =
        s.endedHolder (s.next first) one := by
      have hafter : _ = _ := congrArg Slot.leaseMeta hafterSecond
      have hbefore : _ = _ := congrArg Slot.leaseMeta hsecond
      simp only [slot] at hafter hbefore
      rw [endedHolder, endedHolder, holder, holder, hafter, hbefore]
    rw [countsEnded_next hrefines₁ hother, countsEnded_next hrefines hone,
      countsEnded_next hrefines₂ hone, countsEnded_next hrefines hother, hendedSecond,
      hendedFirst]
    exact Hash.decrementAll_comm _ _ _

/-! ## Interleavings -/

/-- The replies of a run to the operations that are aimed at a job, or, without one, to the
operations that are not aimed at a single job. -/
def repliesTo (s : Store) (target : Option Bytes) (ops : List Op) : List Reply :=
  answersTo next reply Op.target target s ops

/-- The steps of independent operations commute in the refined stores. -/
theorem commutes_next : Commutes next (fun s => ∃ jobs, Refines s jobs) Op.uses where
  kept := by
    rintro s op ⟨jobs, hrefines⟩
    obtain ⟨jobs', hrefines', _⟩ := exec_refines hrefines op
    exact ⟨jobs', hrefines'⟩
  commute := by
    rintro s first second ⟨jobs, hrefines⟩ hindependent
    exact next_comm hrefines hindependent

/-- Every operation uses something. -/
theorem exists_uses (op : Op) : ∃ resource, op.uses resource := by
  cases htarget : op.target with
  | none => exact ⟨.job [], by simp [Op.uses, htarget]⟩
  | some target => exact ⟨.job target, by simp [Op.uses, htarget]⟩

/-- How the operations of many clients are interleaved matters job by job only: two runs in
which the same operations use each job in the same order, and note each worker in the same
order, end in the same store and give the same replies. -/
theorem interleavings_agree (before : List Op) {first second : List Op}
    (hsame : SameUses Op.uses first second) :
    (empty.run before).run first = (empty.run before).run second ∧
      ∀ target, (empty.run before).repliesTo target first =
        (empty.run before).repliesTo target second := by
  have hrefined : ∃ jobs, Refines (empty.run before) jobs := exists_refines_run before
  refine ⟨foldl_eq_of_sameUses commutes_next exists_uses hrefined hsame, fun target => ?_⟩
  apply answersTo_eq_of_sameUses commutes_next exists_uses _ _ hrefined hsame
  · intro op other hindependent
    obtain ⟨one, two, hone, htwo, hne⟩ := exists_targets_of_independent hindependent
    rw [hone, htwo]
    exact fun heq => hne (Option.some.inj heq)
  · rintro s op other ⟨jobs, hrefines⟩ hindependent
    obtain ⟨one, two, hone, htwo, hne⟩ := exists_targets_of_independent hindependent
    exact reply_congr htwo (slot_next_of_ne_target hrefines hone hne.symm)

/-- Two clients enqueue different jobs, in either order. -/
theorem interleavings_agree_sample :
    let first : Op := .enqueue ⟨"one", none, .always, true⟩ (.ofSeconds 1)
    let second : Op := .enqueue ⟨"two", none, .always, true⟩ (.ofSeconds 2)
    (empty.run []).run [first, second] = (empty.run []).run [second, first] := by
  refine (interleavings_agree [] fun resource => ?_).1
  cases resource with
  | lastSeen workerId => rfl
  | job jobId =>
      by_cases hone : utf8 "one" = jobId
      · subst hone
        rfl
      · simp [usersOf, List.filter_cons, Op.uses, Op.target, hone]

/-! ## Repeating -/

end Store

namespace Job

variable {job job' : Job} {target : Target} {mode : ReplaceMode}

/-- A job that is asked to wait for a target stays where it is or waits there. -/
theorem replaceWaiting_cases (target : Target) (mode : ReplaceMode) (score : ℤ) :
    job.replaceWaiting target mode score = job ∨
      (job.replaceWaiting target mode score).placement = target.placement := by
  unfold replaceWaiting
  split_ifs
  · exact Or.inl rfl
  · exact Or.inr rfl

/-- A job that waits at a target keeps waiting there. -/
theorem enqueueScheduled_of_placement (hplacement : job.placement = target.placement) :
    job.enqueueScheduled target mode = some job := by
  have hkept (score : ℤ) : job.replaceWaiting target mode score = job := if_pos (Or.inl hplacement)
  unfold enqueueScheduled
  rcases target.placement_cases with htarget | htarget
  · rw [hplacement, htarget]
    exact congrArg some (hkept _)
  · rw [hplacement, htarget]
    exact congrArg some (hkept _)

theorem reschedule_of_placement (hplacement : job.placement = target.placement) :
    job.reschedule target mode = some job := by
  have hkept (score : ℤ) : job.replaceWaiting target mode score = job := if_pos (Or.inl hplacement)
  unfold reschedule
  rcases target.placement_cases with htarget | htarget
  · rw [hplacement, htarget]
    exact congrArg some (hkept _)
  · rw [hplacement, htarget]
    exact congrArg some (hkept _)

theorem enqueueScheduled_again (houtcome : job.enqueueScheduled target mode = some job') :
    job'.enqueueScheduled target mode = some job' := by
  have hcases : job' = job ∨ job'.placement = target.placement := by
    unfold enqueueScheduled at houtcome
    split at houtcome <;> cases houtcome
    · exact Or.inr rfl
    · exact replaceWaiting_cases target mode _
    · exact replaceWaiting_cases target mode _
    · exact Or.inr rfl
  rcases hcases with rfl | hplacement
  · exact houtcome
  · exact enqueueScheduled_of_placement hplacement

theorem reschedule_again (houtcome : job.reschedule target mode = some job') :
    job'.reschedule target mode = some job' := by
  have hcases : job' = job ∨ job'.placement = target.placement := by
    unfold reschedule at houtcome
    split at houtcome <;> cases houtcome
    · exact replaceWaiting_cases target mode _
    · exact replaceWaiting_cases target mode _
  rcases hcases with rfl | hplacement
  · exact houtcome
  · exact reschedule_of_placement hplacement

/-- A command that is given again is refused, or leaves the job as it is. -/
theorem operator_again {op : OperatorOp} {nowUs : ℤ}
    (houtcome : job.operator op nowUs = some job') :
    job'.operator op nowUs = none ∨ job'.operator op nowUs = some job' := by
  obtain ⟨placement, failures⟩ := job
  cases op <;> cases placement <;>
    simp only [operator, Option.some.injEq, reduceCtorEq] at houtcome <;> subst houtcome
  all_goals
    first
    | exact Or.inl rfl
    | exact Or.inr rfl
    | (next rerun => cases rerun <;> exact Or.inl rfl)

/-- A heartbeat that is sent again asks for the deadline that it has set. -/
theorem heartbeat_again {workerId leaseToken : Bytes} {deadline : ℤ}
    (houtcome : job.heartbeat workerId leaseToken deadline = some job') :
    job'.heartbeat workerId leaseToken deadline = some job' := by
  obtain ⟨_, rerun, _, rfl⟩ := asHolder_eq_some_iff.mp houtcome
  exact asHolder_eq_some_iff.mpr ⟨deadline, rerun, rfl, rfl⟩

/-- Whoever does not hold the lease is refused. -/
theorem asHolder_of_not_leasedTo {workerId leaseToken : Bytes}
    (hnot : ¬ job.LeasedTo workerId leaseToken) (transition : Bool → Job) :
    job.asHolder workerId leaseToken transition = none := by
  cases houtcome : job.asHolder workerId leaseToken transition with
  | none => rfl
  | some _ =>
      obtain ⟨deadline, rerun, hplacement, _⟩ := asHolder_eq_some_iff.mp houtcome
      exact absurd ⟨deadline, rerun, hplacement⟩ hnot

end Job

/-- A transition that is run again is refused, or leaves the job as it is. -/
theorem Op.outcome_again {op : Op} {job job' : Job} (houtcome : op.outcome job = some job') :
    op.outcome job' = none ∨ op.outcome job' = some job' := by
  cases op with
  | enqueue request now =>
      dsimp only [Op.outcome] at houtcome ⊢
      split_ifs at houtcome ⊢ with himmediate
      · cases houtcome
        exact Or.inr (congrArg some (Job.enqueueImmediate_again _ _ job))
      · exact Or.inr (Job.enqueueScheduled_again houtcome)
  | reschedule jobId scheduleAt now => exact Or.inr (Job.reschedule_again houtcome)
  | operator op jobId now => exact Job.operator_again houtcome
  | heartbeat workerId jobId leaseToken now leaseDuration =>
      exact Or.inr (Job.heartbeat_again houtcome)
  | ack workerId jobId leaseToken now =>
      have hcompletion : (Op.ack workerId jobId leaseToken now).IsCompletion workerId jobId
        leaseToken := ⟨rfl, rfl, rfl⟩
      have hended := hcompletion.not_leasedTo houtcome workerId leaseToken
      exact Or.inl (Job.asHolder_of_not_leasedTo hended _)
  | completeAndReschedule workerId jobId leaseToken scheduleAt now =>
      have hcompletion : (Op.completeAndReschedule workerId jobId leaseToken scheduleAt
        now).IsCompletion workerId jobId leaseToken := ⟨rfl, rfl, rfl⟩
      have hended := hcompletion.not_leasedTo houtcome workerId leaseToken
      exact Or.inl (Job.asHolder_of_not_leasedTo hended _)
  | failOrRetry request =>
      have hcompletion : (Op.failOrRetry request).IsCompletion request.workerId request.jobId
        request.leaseToken := ⟨rfl, rfl, rfl⟩
      have hended := hcompletion.not_leasedTo houtcome request.workerId request.leaseToken
      exact Or.inl (Job.asHolder_of_not_leasedTo hended _)
  | _ => cases houtcome

namespace Store

/-- A heartbeat that is sent again is served as before. -/
theorem seen_next (hrefines : Refines s jobs) (htarget : op.target = some target) :
    (s.next op).seen op = s.seen op := by
  cases op with
  | heartbeat workerId jobId leaseToken now leaseDuration =>
      cases htarget
      let op : Op := .heartbeat workerId target leaseToken now leaseDuration
      have hslot : (s.next op).slot target = _ := slot_next_target hrefines rfl
      have hholds : (s.next op).HoldsLease target workerId leaseToken ↔
          s.HoldsLease target workerId leaseToken := by
        rw [holdsLease_iff hslot, holdsLease_iff (hrefines.slot_eq target)]
        cases houtcome : op.outcome (jobs target) with
        | none => rfl
        | some job' =>
            obtain ⟨deadline, rerun, hplacement, rfl⟩ := Job.asHolder_eq_some_iff.mp houtcome
            exact iff_of_true ⟨_, rerun, rfl⟩ ⟨deadline, rerun, hplacement⟩
      show (if (s.next op).HoldsLease target workerId leaseToken then _ else none) = _
      simp only [hholds]
      rfl
  | _ => rfl

/-- An operation that is sent twice does nothing the second time. -/
theorem next_next (hrefines : Refines s jobs) (htarget : op.target = some target) :
    (s.next op).next op = s.next op := by
  obtain ⟨jobs', hrefines', hstep⟩ := exec_refines hrefines op
  have hjob := (jobStep_of_target htarget).mp (hstep target)
  rw [if_pos rfl] at hjob
  have hslot : ((s.next op).next op).slot target = (s.next op).slot target := by
    rw [slot_next_target hrefines' htarget, hrefines'.slot_eq]
    cases houtcome : op.outcome (jobs target) with
    | none =>
        rw [houtcome] at hjob
        rw [hjob.1, Option.getD_none, houtcome, Option.getD_none]
    | some job' =>
        rw [houtcome] at hjob
        rw [hjob.1, Option.getD_some]
        rcases op.outcome_again houtcome with hrefused | hkept
        · rw [hrefused, Option.getD_none]
        · rw [hkept, Option.getD_some]
  apply eq_of_slots
  · intro jobId
    by_cases hother : jobId = target
    · rwa [hother]
    · exact slot_next_of_ne_target hrefines' htarget hother
  · rw [registry_next_of_target htarget, seen_next hrefines htarget,
      registry_next_of_target htarget]
    cases s.seen op with
    | none => rfl
    | some seen => exact Registry.see_see s.registry seen.1 seen.2
  · have hkept : (s.next op).endedHolder ((s.next op).next op) target = [] :=
      endedHolder_of_kept (congrArg Slot.leaseMeta hslot)
    rw [countsEnded_next hrefines' htarget, hkept]
    rfl

/-- An operation on a single job that arrives again, with only independent operations since,
changes nothing. -/
theorem repeated_operation_absorbed (before : List Op) {op : Op} {target : Bytes}
    (htarget : op.target = some target) {between : List Op}
    (hindependent : ∀ other ∈ between, Independent Op.uses op other) :
    ((empty.run before).run (op :: between)).next op = (empty.run before).run (op :: between) := by
  obtain ⟨jobs, hrefines⟩ := exists_refines_run before
  have hmoved : (empty.run before).run (op :: between) = ((empty.run before).run between).next op :=
    foldl_step_of_independent commutes_next ⟨jobs, hrefines⟩ hindependent
  obtain ⟨jobs', hrefines'⟩ := hrefines.exists_run between
  rw [hmoved]
  exact next_next hrefines' htarget

/-- An ack that arrives again after an enqueue of another job. -/
theorem repeated_operation_absorbed_sample :
    let other : Op := .enqueue ⟨"other", none, .always, true⟩ (.ofSeconds 4)
    ((empty.run sampleLeaseRun).run [sampleAck, other]).next sampleAck =
      (empty.run sampleLeaseRun).run [sampleAck, other] := by
  have htarget : sampleAck.target = some (utf8 "job") := rfl
  refine repeated_operation_absorbed sampleLeaseRun htarget ?_
  intro other hmem resource hack
  obtain rfl := List.mem_singleton.mp hmem
  cases resource with
  | lastSeen workerId => cases hack
  | job jobId =>
      obtain rfl : utf8 "job" = jobId := of_decide_eq_true hack
      decide

end Store

end Redloop
