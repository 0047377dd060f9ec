/-
# Workers stay within their concurrency

What a worker relies on when it tracks its attempts is what Redis and its own calls
provide: a reserve is answered with no more jobs than it asks for, all different, under
tokens that were never used. So in every run of the system each worker has at most as many
attempts as its concurrency allows, and they are those of its handlers.
-/

import Redloop.System.Handlers
import Redloop.Worker.Lifecycle

namespace Redloop

namespace Worker

variable {w w' : Worker} {now : Timestamp} {event : Event} {effects : List Effect}
  {key : LeaseAttemptKey}

/-- An attempt becomes active when its handler is started. -/
theorem Reacts.mem_active (hreacts : w.Reacts now event w' effects) (hnew : w.GrantsNew event)
    (hkey : key ∈ w'.active) :
    key ∈ w.active ∨ ∃ lease ∈ spawns effects, lease.attemptKey = key := by
  cases hreacts.activeChange with
  | kept hactive _ => exact Or.inl (hactive ▸ hkey)
  | spawned _ hactive hspawns =>
      rw [hactive, ← Finmap.mem_keys, ← Finset.mem_val,
        ActiveLeases.keys_foldl_addReserved hnew.1 hnew.2, Multiset.mem_add] at hkey
      rcases hkey with hold | hadded
      · exact Or.inl (Finmap.mem_keys.mp hold)
      · right
        rw [hspawns]
        exact List.mem_map.mp hadded
  | resolved _ _ hactive _ =>
      rw [hactive, Finmap.mem_erase] at hkey
      exact Or.inl hkey.2
  | lost _ hactive _ =>
      rw [hactive, ← Finmap.mem_keys, ActiveLeases.keys_disableHeartbeat, Finmap.mem_keys] at hkey
      exact Or.inl hkey

/-- A worker that tracks its attempts runs no more handlers than it has attempts. -/
theorem Tracks.length_running_le (htracks : w.Tracks) :
    w.joinSet.running.length ≤ w.active.len := by
  have hcard := congrArg Multiset.card htracks
  simp only [JoinSet.keys, Multiset.card_add, Multiset.coe_card, List.length_map] at hcard
  show _ ≤ w.active.keys.val.card
  omega

end Worker

namespace System

variable {s s' : System} {action : Action} {pid : ℕ} {process : Process}

/-- The attempts of a process are within its concurrency, its own and tracked. -/
structure KeepsWithin (s : System) (pid : ℕ) (process : Process) : Prop where
  fits : process.worker.Fits
  tracks : process.worker.Runs → process.worker.Tracks
  active : ∀ key ∈ process.worker.active, .spawned pid ⟨key.jobId, key.leaseToken⟩ ∈ s.history

theorem KeepsWithin.extends (hkeeps : s.KeepsWithin pid process) (hextends : s.Extends s') :
    s'.KeepsWithin pid process :=
  ⟨hkeeps.fits, hkeeps.tracks, fun key hkey => hextends.history _ (hkeeps.active key hkey)⟩

/-- A worker starts without attempts. -/
theorem keepsWithin_of_start {namespaceName : Bytes} {config : WorkerConfig} {instant : Instant}
    {worker : Worker} (hstart : Worker.start namespaceName config instant = .ok worker) :
    s.KeepsWithin pid ⟨worker, none, true⟩ := by
  obtain ⟨_, _, hstart⟩ := bind_eq_ok_iff.mp hstart
  cases hstart
  refine ⟨⟨Nat.zero_le _, fun _ hphase => ?_⟩, fun _ => rfl, fun key hkey => ?_⟩
  · cases hphase
  · exact absurd hkey (Finmap.notMem_empty)

section Observe

variable {moment : Moment} {event : Event} {worker : Worker} {effects : List Effect}

/-- The attempts that an event reports as granted are new to the process. -/
theorem KeepsWithin.grantsNew (hkeeps : s.KeepsWithin pid process) (hsound : s.Sound)
    (honce : s.RunsHandlersOnce) (hprocess : s.processes[pid]? = some process)
    (hdelivers : s.Delivers process event) : process.worker.GrantsNew event := by
  by_cases hgranted : event.granted = []
  · simp [Worker.GrantsNew, hgranted]
  · obtain ⟨id, _, _, _, _, _, _, hid, hcall, hnodup, _, htokens⟩ :=
      hsound.granted_awaited hdelivers hgranted
    refine ⟨?_, fun lease hlease hactive => ?_⟩
    · have hjobIds : (event.granted.map ReservedJob.attemptKey).map LeaseAttemptKey.jobId =
          event.granted.map ReservedJob.jobId := by
        rw [List.map_map]
        rfl
      exact (hjobIds ▸ hnodup).of_map
    · have hspawned := hkeeps.active _ hactive
      exact honce.unspent pid process id _ hprocess hid hcall _
        (mem_started.mpr ⟨pid, hspawned⟩) (htokens lease hlease)

/-- No more jobs are granted than the select has asked for. -/
theorem Sound.granted_le_capacity (hsound : s.Sound)
    (hprocess : s.processes[pid]? = some process) (hdelivers : s.Delivers process event)
    {select : Select} (hphase : process.worker.phase = .selecting select) :
    event.granted.length ≤ select.capacity := by
  by_cases hgranted : event.granted = []
  · simp [hgranted]
  · obtain ⟨id, _, _, _, _, _, _, hid, hcall, _, hlength, _⟩ :=
      hsound.granted_awaited hdelivers hgranted
    obtain ⟨awaited, hawaited, _, hawaits⟩ := (hsound.processes pid process hprocess).awaits id hid
    rw [hcall] at hawaited
    cases hawaited
    unfold Worker.Awaits at hawaits
    rw [hphase] at hawaits
    cases hawaits.2.2
    exact hlength

/-- After an event the process is within its concurrency. -/
theorem KeepsWithin.observed (hkeeps : s.KeepsWithin pid process) (hsound : s.Sound)
    (honce : s.RunsHandlersOnce) (hprocess : s.processes[pid]? = some process)
    (hdelivers : s.Delivers process event)
    (hreacts : { process.worker with instant := moment.instant }.Reacts moment.now event worker
      effects) (awaiting : Option ℕ) (alive : Bool) :
    (s.observed pid process event worker effects).KeepsWithin pid ⟨worker, awaiting, alive⟩ := by
  have hnew : ({ process.worker with instant := moment.instant } : Worker).GrantsNew event :=
    hkeeps.grantsNew hsound honce hprocess hdelivers
  have hfits : ({ process.worker with instant := moment.instant } : Worker).Fits :=
    ⟨hkeeps.fits.len_le, hkeeps.fits.capacity_eq⟩
  refine ⟨hfits.of_reacts ?_ hreacts, fun hruns => ?_, fun key hkey => ?_⟩
  · exact fun select hphase => hsound.granted_le_capacity hprocess hdelivers hphase
  · have htracks : ({ process.worker with instant := moment.instant } : Worker).Tracks :=
      hkeeps.tracks hreacts.runs
    exact htracks.of_reacts hnew hreacts hruns
  · rcases hreacts.mem_active hnew hkey with hold | ⟨lease, hlease, rfl⟩
    · exact List.mem_append_left _ (hkeeps.active key hold)
    · exact List.mem_append_right _ (mem_entriesOf_spawned hlease)

end Observe

/-- Every process of the system stays within its concurrency. -/
def AllWithin (s : System) : Prop :=
  ∀ pid process, s.processes[pid]? = some process → s.KeepsWithin pid process

theorem AllWithin.step (hwithin : s.AllWithin) (hsound : s.Sound) (honce : s.RunsHandlersOnce)
    (hsteps : s.Steps action s') : s'.AllWithin := by
  have hextends := hsteps.extends
  have hkept (pid : ℕ) (process : Process) (hprocess : s.processes[pid]? = some process) :
      s'.KeepsWithin pid process := (hwithin pid process hprocess).extends hextends
  intro pid process hprocess
  cases hsteps with
  | start hstart =>
      rcases getElem?_concat_cases hprocess with hold | ⟨rfl, rfl⟩
      · exact hkept pid process hold
      · exact keepsWithin_of_start hstart
  | @crash crashed old hcrashed =>
      rcases getElem?_set_cases hprocess with ⟨rfl, rfl⟩ | hold
      · have hbefore := hkept crashed old hcrashed
        exact ⟨hbefore.fits, hbefore.tracks, hbefore.active⟩
      · exact hkept pid process hold
  | @observe observer observing moment event worker effects hobserving _ hstep hdelivers _ =>
      rcases getElem?_set_cases hprocess with ⟨rfl, rfl⟩ | hold
      · exact (hwithin observer observing hobserving).observed hsound honce hobserving hdelivers
          (Worker.step_eq_some hstep).2 _ _
      · exact hkept pid process hold
  | _ => exact hkept pid process hprocess

/-- In every run of the system each worker has at most as many attempts as its concurrency
allows, and each is of a handler that it has started. While it runs, its attempts are those
of its handlers that are not joined, its completed results, and the one being resolved, so
it never runs more handlers than its concurrency. -/
theorem workers_within_concurrency {namespaceName : Bytes} {actions : List Action}
    (hrun : (initial namespaceName).run actions = some s)
    (hprocess : s.processes[pid]? = some process) :
    process.worker.active.len ≤ process.worker.config.concurrency.toNat ∧
      (∀ key ∈ process.worker.active, .spawned pid ⟨key.jobId, key.leaseToken⟩ ∈ s.history) ∧
      (process.worker.Runs → process.worker.Tracks ∧
        process.worker.joinSet.running.length ≤ process.worker.config.concurrency.toNat) := by
  suffices hall : s.Sound ∧ s.RunsHandlersOnce ∧ s.AllWithin by
    have hkeeps := hall.2.2 pid process hprocess
    refine ⟨hkeeps.fits.len_le, hkeeps.active, fun hruns => ?_⟩
    have htracks := hkeeps.tracks hruns
    exact ⟨htracks, htracks.length_running_le.trans hkeeps.fits.len_le⟩
  apply runTrace_invariant
    (motive := fun s => s.Sound ∧ s.RunsHandlersOnce ∧ s.AllWithin) _ _ hrun
  · exact ⟨sound_initial namespaceName, runsHandlersOnce_initial namespaceName,
      by simp [AllWithin, initial]⟩
  · rintro middle action next ⟨hsound, honce, hwithin⟩ hstep
    have hsteps := step_eq_some hstep
    exact ⟨hsound.step hsteps, honce.step hsound hsteps, hwithin.step hsound honce hsteps⟩

/-- The worker of the sample run is within its concurrency while it holds the lease. -/
theorem workers_within_concurrency_sample :
    ∃ s process, (initial "jobs").run sampleAckActions = some s ∧
      s.processes[0]? = some process ∧
        process.worker.active.len ≤ process.worker.config.concurrency.toNat := by
  have hends : ((initial "jobs").run sampleAckActions).any fun s =>
      s.processes[0]?.isSome := by decide
  obtain ⟨s, hrun, hfacts⟩ := Option.any_eq_true _ _ |>.mp hends
  obtain ⟨process, hprocess⟩ := Option.isSome_iff_exists.mp hfacts
  exact ⟨s, process, hrun, hprocess, (workers_within_concurrency hrun hprocess).1⟩

end System

end Redloop
