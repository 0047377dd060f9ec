/-
# The attempts a worker tracks

A lease attempt goes from its handler task to the map of completed attempts, and
from there to a store call and out of the active map, or back. The worker tracks
its attempts when the active keys are, counted with multiplicity, the tasks that
are not joined, the completed attempts and the one that is being resolved. Every
reaction keeps this as long as reserves grant new attempts only.
-/

import Mathlib.Data.Finset.Basic
import Mathlib.Tactic.Abel
import Redloop.Worker.Steps

namespace Redloop

def FinishedTask.attemptKey (task : FinishedTask) : LeaseAttemptKey := task.lease.attemptKey

/-- The task that returned a result. -/
def CompletedLease.task (completed : CompletedLease) : FinishedTask :=
  ⟨⟨completed.jobId, completed.leaseToken⟩, some completed.result⟩

/-- The handler tasks that are not joined, by their attempts. -/
def JoinSet.keys (joinSet : JoinSet) : Multiset LeaseAttemptKey :=
  ↑(joinSet.running.map ReservedJob.attemptKey) + ↑(joinSet.finished.map FinishedTask.attemptKey)

/-- The jobs a poll reports as granted. -/
def Event.granted : Event → List ReservedJob
  | .poll { reserved := some (.ok batch), .. } => batch.jobs
  | _ => []

/-! ## Moving attempts between the collections -/

/-- A task that ends stays in the join set. -/
theorem JoinSet.keys_finish {joinSet : JoinSet} {task : FinishedTask}
    (hmem : task.lease ∈ joinSet.running) : (joinSet.finish task).keys = joinSet.keys := by
  have hperm := (List.perm_cons_erase hmem).map ReservedJob.attemptKey
  have hkeys : (↑(joinSet.running.map ReservedJob.attemptKey) : Multiset LeaseAttemptKey) =
      ↑((joinSet.running.erase task.lease).map ReservedJob.attemptKey) + {task.attemptKey} := by
    rw [Multiset.coe_eq_coe.mpr hperm, List.map_cons, ← Multiset.cons_coe, ← Multiset.singleton_add,
      add_comm]
    rfl
  simp only [keys, finish, List.map_append, List.map_cons, List.map_nil, ← Multiset.coe_add, hkeys,
    Multiset.coe_singleton]
  exact (add_assoc _ _ _).symm.trans (add_right_comm _ _ _)

/-- Inserting new reserved jobs adds their keys. -/
theorem ActiveLeases.keys_foldl_addReserved {jobs : List ReservedJob} {active : ActiveLeases}
    (hnodup : (jobs.map ReservedJob.attemptKey).Nodup)
    (hnew : ∀ job ∈ jobs, job.attemptKey ∉ active) :
    (jobs.foldl addReserved active).keys.val =
      active.keys.val + ↑(jobs.map ReservedJob.attemptKey) := by
  induction jobs generalizing active with
  | nil => simp
  | cons job rest ih =>
      rw [List.map_cons, List.nodup_cons] at hnodup
      have hkeys : (active.addReserved job).keys = insert job.attemptKey active.keys := keys_add
      rw [List.foldl_cons, ih hnodup.2]
      · rw [hkeys, Finset.insert_val_of_notMem (mt Finmap.mem_keys.mp (hnew job (by simp))),
          List.map_cons, ← Multiset.cons_coe, Multiset.cons_add, Multiset.add_cons]
      · intro other hother hmem
        rw [← Finmap.mem_keys, hkeys, Finset.mem_insert, Finmap.mem_keys] at hmem
        rcases hmem with heq | hmem
        · exact hnodup.1 (heq ▸ List.mem_map_of_mem hother)
        · exact hnew other (by simp [hother]) hmem

theorem Event.granted_of_reserved {ready : Ready} {batch : ReserveBatch}
    (hready : ready.reserved = some (.ok batch)) : (Event.poll ready).granted = batch.jobs := by
  obtain ⟨_, _, _, reserved, _, _⟩ := ready
  cases hready
  rfl

namespace Worker

/-- Recording a returned handler adds its key. -/
theorem keys_recordJoinResult {pending pending' : PendingCompleted} {task : FinishedTask}
    (hrecord : recordJoinResult pending task = .ok pending') :
    pending'.keys = insert task.attemptKey pending.keys := by
  unfold recordJoinResult at hrecord
  cases hresult : task.result with
  | none => simp [hresult] at hrecord
  | some result =>
      rw [hresult] at hrecord
      cases hrecord
      rw [PendingCompleted.keys_add]
      rfl

/-- Draining moves the keys of the finished tasks to the completed attempts. -/
theorem keys_drainJoinedJobs {finished : List FinishedTask} {pending pending' : PendingCompleted}
    (hdrain : drainJoinedJobs pending finished = .ok pending')
    (hnodup : (pending.keys.val + ↑(finished.map FinishedTask.attemptKey)).Nodup) :
    pending'.keys.val = pending.keys.val + ↑(finished.map FinishedTask.attemptKey) := by
  induction finished generalizing pending with
  | nil =>
      cases hdrain
      simp
  | cons task rest ih =>
      rw [drainJoinedJobs, List.foldlM_cons] at hdrain
      obtain ⟨recorded, hrecord, hrest⟩ := bind_eq_ok_iff.mp hdrain
      have hsplit : pending.keys.val + ↑((task :: rest).map FinishedTask.attemptKey) =
          task.attemptKey ::ₘ (pending.keys.val + ↑(rest.map FinishedTask.attemptKey)) := by
        rw [List.map_cons, ← Multiset.cons_coe, Multiset.add_cons]
      rw [hsplit, Multiset.nodup_cons] at hnodup
      have hnew : task.attemptKey ∉ pending.keys := fun hmem =>
        hnodup.1 (Multiset.mem_add.mpr (Or.inl hmem))
      have hkeys : recorded.keys.val = task.attemptKey ::ₘ pending.keys.val := by
        rw [keys_recordJoinResult hrecord, Finset.insert_val_of_notMem hnew]
      rw [ih hrest (by rwa [hkeys, Multiset.cons_add, Multiset.nodup_cons]), hkeys, hsplit,
        Multiset.cons_add]

variable {w w' : Worker} {now : Timestamp} {event : Event} {effects : List Effect}
  {key : LeaseAttemptKey}

/-- The attempt whose store call is awaited. -/
def resolving (w : Worker) : Multiset LeaseAttemptKey :=
  match w.phase with
  | .completing completed _ => {completed.attemptKey}
  | _ => 0

/-- The active attempts are the disjoint union of the tasks that are not joined,
the completed attempts, and the one that is being resolved. -/
def Tracks (w : Worker) : Prop :=
  w.active.keys.val = w.joinSet.keys + w.pendingCompleted.keys.val + w.resolving

/-- The attempts that are granted are new and different. -/
def GrantsNew (w : Worker) (event : Event) : Prop :=
  (event.granted.map ReservedJob.attemptKey).Nodup ∧
    ∀ lease ∈ event.granted, lease.attemptKey ∉ w.active

/-- No attempt is being resolved, and the worker tracks its attempts. -/
def Settled (w : Worker) : Prop :=
  w.active.keys.val = w.joinSet.keys + w.pendingCompleted.keys.val

theorem tracks_iff_settled (hresolving : w.resolving = 0) : w.Tracks ↔ w.Settled := by
  rw [Tracks, Settled, hresolving, add_zero]

/-! ## Steps -/

/-- Resolving keeps track of the attempt it takes out of the map. -/
theorem Settled.resolvePendingCompleted (hsettled : w.Settled) (now : Timestamp)
    (order : List LeaseAttemptKey) : (w.resolvePendingCompleted now order).1.Tracks := by
  rcases w.resolvePendingCompleted_cases now order with
    heq | ⟨key, completed, rest, hget, heq⟩
  · rw [heq]
    exact (tracks_iff_settled rfl).mpr hsettled
  · obtain ⟨hkey, hmem⟩ := PendingCompleted.of_get_eq_some hget
    rw [heq]
    simp only [Tracks, resolving, Finmap.keys_erase, Finset.erase_val, hkey, add_assoc]
    rw [add_comm ((Finmap.keys w.pendingCompleted).val.erase key), Multiset.singleton_add,
      Multiset.cons_erase hmem]
    exact hsettled

/-- A heartbeat round leaves the attempts alone. -/
theorem Settled.heartbeatActive (hsettled : w.Settled) (now : Timestamp)
    (order : List LeaseAttemptKey) : (w.heartbeatActive now order).1.Tracks := by
  rcases w.heartbeatActive_cases now order with heq | ⟨key, _, rest, _, heq⟩
  · rw [heq]
    exact (tracks_iff_settled rfl).mpr hsettled
  · rw [heq]
    exact (tracks_iff_settled rfl).mpr hsettled

/-- The drain at the top of the loop leaves only running tasks in the join set. -/
theorem Settled.drain (hsettled : w.Settled) {pending : PendingCompleted}
    (hdrain : drainJoinedJobs w.pendingCompleted w.joinSet.finished = .ok pending) :
    w.active.keys.val = ↑(w.joinSet.running.map ReservedJob.attemptKey) + pending.keys.val := by
  have hsplit : w.active.keys.val = ↑(w.joinSet.running.map ReservedJob.attemptKey) +
      (w.pendingCompleted.keys.val + ↑(w.joinSet.finished.map FinishedTask.attemptKey)) := by
    rw [hsettled, JoinSet.keys, add_assoc, add_comm (Finmap.keys w.pendingCompleted).val]
  have hnodup := hsplit ▸ w.active.keys.nodup
  rw [keys_drainJoinedJobs hdrain (Multiset.nodup_of_le (Multiset.le_add_left _ _) hnodup),
    hsplit]

theorem resolving_joinNext : w.joinNext.resolving = 0 := by
  unfold Worker.joinNext
  split
  · rfl
  · split <;> rfl

/-- Joining one handler moves its attempt. -/
theorem Settled.joinNext (hsettled : w.Settled) (hfinished : w.joinSet.finished ≠ [])
    (hruns : w.joinNext.Runs) : w.joinNext.Settled := by
  unfold Worker.joinNext at hruns ⊢
  split
  · contradiction
  · next task rest htasks =>
      rw [htasks] at hruns
      split
      · next error herror =>
          simp only [herror] at hruns
          exact absurd rfl (hruns error)
      · next pending hrecord =>
          have hnodup : (w.pendingCompleted.keys.val + {task.attemptKey}).Nodup := by
            refine Multiset.nodup_of_le ?_ (hsettled ▸ w.active.keys.nodup)
            rw [add_comm]
            refine add_le_add (Multiset.singleton_le.mpr ?_) le_rfl
            rw [JoinSet.keys, htasks, List.map_cons, ← Multiset.cons_coe, Multiset.add_cons]
            exact Multiset.mem_cons_self _ _
          have hdrain : drainJoinedJobs w.pendingCompleted [task] = .ok pending := by
            simpa [drainJoinedJobs] using hrecord
          have hkeys := keys_drainJoinedJobs hdrain (by simpa using hnodup)
          rw [Settled] at hsettled ⊢
          simp only [hsettled, hkeys, JoinSet.keys, htasks, List.map_cons, List.map_nil,
            ← Multiset.cons_coe, Multiset.coe_nil, Multiset.add_cons, Multiset.cons_add, add_zero]

/-- Spawning new attempts adds them on both sides. -/
theorem Settled.foldl_spawnJob (hsettled : w.Settled) {jobs : List ReservedJob}
    (hnodup : (jobs.map ReservedJob.attemptKey).Nodup)
    (hnew : ∀ job ∈ jobs, job.attemptKey ∉ w.active) : (jobs.foldl spawnJob w).Settled := by
  rw [Worker.foldl_spawnJob, Settled, ActiveLeases.keys_foldl_addReserved hnodup hnew, hsettled]
  simp only [JoinSet.keys, List.map_append, ← Multiset.coe_add]
  abel

/-- The reply to a reserve spawns the granted attempts or none. -/
theorem Settled.resumeReserve (hsettled : w.Settled) {reserved : Except Error ReserveBatch}
    (hnew : ∀ batch, reserved = .ok batch → (batch.jobs.map ReservedJob.attemptKey).Nodup ∧
      ∀ job ∈ batch.jobs, job.attemptKey ∉ w.active)
    (hruns : (w.resumeReserve now reserved).1.Runs) :
    (w.resumeReserve now reserved).1.Tracks := by
  unfold Worker.resumeReserve at hruns ⊢
  cases reserved with
  | ok batch =>
      obtain ⟨hnodup, hnew⟩ := hnew batch rfl
      dsimp only at hruns ⊢
      split_ifs
      · have hgranted : Settled
            { w with
              nextScheduleAt := batch.nextScheduleAt
              pollDelay := w.config.pollIntervalMin
              phase := .top } := hsettled
        refine (tracks_iff_settled ?_).mpr (hgranted.foldl_spawnJob hnodup hnew)
        rw [Worker.foldl_spawnJob]
        rfl
      · exact (tracks_iff_settled rfl).mpr hsettled
  | error error =>
      dsimp only at hruns ⊢
      split_ifs at hruns ⊢
      · exact (tracks_iff_settled rfl).mpr hsettled
      · exact absurd rfl (hruns error)

/-- The reply to a completion drops the attempt or puts it back. -/
theorem Tracks.resumeCompletion (htracks : w.Tracks) {completed : CompletedLease}
    {rest : List LeaseAttemptKey} {reply : Except Error Unit}
    (hphase : w.phase = .completing completed rest)
    (hruns : (w.resumeCompletion now completed rest reply).1.Runs) :
    (w.resumeCompletion now completed rest reply).1.Tracks := by
  have hactive : w.active.keys.val = completed.attemptKey ::ₘ
      (w.joinSet.keys + w.pendingCompleted.keys.val) := by
    have hresolving : w.resolving = {completed.attemptKey} := by simp [resolving, hphase]
    rw [htracks, hresolving, ← Multiset.singleton_add, add_comm]
  have hdropped : Settled { w with active := Finmap.erase completed.attemptKey w.active } := by
    rw [Settled, Finmap.keys_erase, Finset.erase_val, hactive, Multiset.erase_cons_head]
  have hnew : completed.attemptKey ∉ w.pendingCompleted.keys := by
    intro hmem
    have hnodup := hactive ▸ w.active.keys.nodup
    exact (Multiset.nodup_cons.mp hnodup).1 (Multiset.mem_add.mpr (Or.inr hmem))
  unfold Worker.resumeCompletion at hruns ⊢
  split
  · exact hdropped.resolvePendingCompleted _ _
  · exact hdropped.resolvePendingCompleted _ _
  · next error hmismatch =>
      simp only at hruns
      split_ifs at hruns ⊢ with hrecoverable
      · refine (tracks_iff_settled rfl).mpr ?_
        rw [Settled, PendingCompleted.keys_add, Finset.insert_val_of_notMem hnew,
          Multiset.add_cons]
        exact hactive
      · exact absurd rfl (hruns error)

/-- A select that starts leaves the attempts alone. -/
theorem Settled.startSelect (hsettled : w.Settled) {select : Select}
    (hphase : w.phase = .selecting select) : (w.startSelect select).1.Tracks := by
  unfold Worker.startSelect
  split
  · exact (tracks_iff_settled (by simp [resolving, hphase])).mpr hsettled
  · exact (tracks_iff_settled rfl).mpr hsettled

/-- The reply to a heartbeat leaves the attempts alone. -/
theorem Settled.resumeHeartbeat (hsettled : w.Settled) (sentAt : Timestamp)
    (rest : List LeaseAttemptKey) (reply : Except Error Unit)
    (hruns : (w.resumeHeartbeat sentAt key rest reply).1.Runs) :
    (w.resumeHeartbeat sentAt key rest reply).1.Tracks := by
  unfold Worker.resumeHeartbeat at hruns ⊢
  split
  · exact hsettled.heartbeatActive _ _
  · have hdisabled : Settled { w with active := w.active.disableHeartbeat key } := by
      rw [Settled, ActiveLeases.keys_disableHeartbeat]
      exact hsettled
    exact hdisabled.heartbeatActive _ _
  · next error hmismatch =>
      simp only at hruns
      split_ifs at hruns ⊢
      · exact (tracks_iff_settled rfl).mpr hsettled
      · exact absurd rfl (hruns error)

/-- The reply to a reap leaves the attempts alone. -/
theorem Settled.resumeReap (hsettled : w.Settled) (reply : Except Error Unit)
    (hruns : (w.resumeReap reply).Runs) : (w.resumeReap reply).Tracks := by
  unfold Worker.resumeReap at hruns ⊢
  split
  · exact (tracks_iff_settled rfl).mpr hsettled
  · next error =>
      simp only at hruns
      split_ifs at hruns ⊢
      · exact (tracks_iff_settled rfl).mpr hsettled
      · exact absurd rfl (hruns error)

/-- Every reaction after which the worker still runs keeps track of its attempts. -/
theorem Tracks.of_reacts (htracks : w.Tracks) (hnew : w.GrantsNew event)
    (hreacts : w.Reacts now event w' effects) (hruns : w'.Runs) : w'.Tracks := by
  have hsettled (hresolving : w.resolving = 0) : w.Settled :=
    (tracks_iff_settled hresolving).mp htracks
  cases hreacts with
  | finish _ hmem =>
      rw [Tracks, JoinSet.keys_finish hmem]
      exact htracks
  | drainFailed hphase hdrain => exact absurd rfl (hruns _)
  | turn hphase hdrain horder =>
      apply Settled.resolvePendingCompleted
      rw [Settled, JoinSet.keys, (hsettled (by simp [resolving, hphase])).drain hdrain]
      simp
  | enter hphase htokens =>
      exact (tracks_iff_settled rfl).mpr (hsettled (by simp [resolving, hphase]))
  | join hphase hbranch hfinished =>
      have hjoined := (hsettled (by simp [resolving, hphase])).joinNext hfinished hruns
      exact (tracks_iff_settled resolving_joinNext).mpr hjoined
  | heartbeatTick hphase hbranch horder =>
      have hticked : Settled { w with heartbeatTick := w.heartbeatTick.tick } :=
        hsettled (by simp [resolving, hphase])
      exact hticked.heartbeatActive _ _
  | reapTick hphase hbranch =>
      exact (tracks_iff_settled rfl).mpr (hsettled (by simp [resolving, hphase]))
  | runtimeSleep hphase hbranch hbackoff =>
      exact (tracks_iff_settled rfl).mpr (hsettled (by simp [resolving, hphase]))
  | reserve hphase hbranch henabled hready =>
      refine (hsettled (by simp [resolving, hphase])).resumeReserve ?_ hruns
      rintro batch rfl
      simpa only [GrantsNew, Event.granted_of_reserved hready] using hnew
  | pollSleep hphase hbranch henabled =>
      exact (tracks_iff_settled rfl).mpr (hsettled (by simp [resolving, hphase]))
  | wait hphase hbranch => exact (hsettled (by simp [resolving, hphase])).startSelect hphase
  | completion hphase => exact htracks.resumeCompletion hphase hruns
  | heartbeat hphase => exact (hsettled (by simp [resolving, hphase])).resumeHeartbeat _ _ _ hruns
  | reap hphase => exact (hsettled (by simp [resolving, hphase])).resumeReap _ hruns

end Worker

end Redloop
