/-
# Conditional replaces

A scheduled enqueue that replaces only later times lets a waiting job keep its place
against every time that is not strictly earlier. Any number of such enqueues therefore
leaves the job at the first of the earliest times, and since requests for one time put
the job in one place, their order makes no difference. The same holds for the latest
times. The store computes with doubles and takes the zero microsecond for no time, so
the time that wins is not always the time that was asked for.
-/

import Redloop.Data.Best
import Redloop.Queue.Answers
import Redloop.Queue.Precision

namespace Redloop

/-! ## Offers to one job -/

/-- The time of a placement. -/
def Placement.time (placement : Placement) : ℤ := placement.score.getD 0

theorem Target.placement_time (target : Target) : target.placement.time = target.score := by
  rcases target.placement_cases with htarget | htarget <;> rw [htarget] <;> rfl

variable {σ : Type} [LinearOrder σ] {rank : ℤ → σ} {mode : ReplaceMode}

/-- A mode that replaces a time by one of strictly smaller rank. -/
structure ReplaceMode.RanksBy (mode : ReplaceMode) (rank : ℤ → σ) : Prop where
  shouldReplace_iff : ∀ targetScore existingScore,
    mode.shouldReplace targetScore existingScore = true ↔ rank targetScore < rank existingScore
  injective : Function.Injective rank

/-- Earlier times have smaller ranks. -/
theorem ReplaceMode.ranksBy_ifEarlier : RanksBy .ifEarlier (id : ℤ → ℤ) :=
  ⟨fun _ _ => decide_eq_true_iff, Function.injective_id⟩

/-- Later times have smaller ranks in the reversed order. -/
theorem ReplaceMode.ranksBy_ifLater : RanksBy .ifLater (OrderDual.toDual : ℤ → ℤᵒᵈ) :=
  ⟨fun _ _ => decide_eq_true_iff, OrderDual.toDual.injective⟩

namespace Job

variable {job : Job} {target : Target}

/-- Where a job waits. -/
def waiting (job : Job) : Option Placement :=
  match job.placement with
  | .ready score => some (.ready score)
  | .scheduled score => some (.scheduled score)
  | _ => none

/-- The failure count that outlives an enqueue. -/
def keptFailures (job : Job) : Option ℤ :=
  match job.placement with
  | .failed _ => none
  | _ => job.failures

/-- A scheduled enqueue. A leased job refuses it and stays. -/
def offer (target : Target) (mode : ReplaceMode) (job : Job) : Job :=
  (job.enqueueScheduled target mode).getD job

theorem placement_of_waiting {placement : Placement} (hwaiting : job.waiting = some placement) :
    job.placement = placement := by
  unfold waiting at hwaiting
  split at hwaiting <;> simp_all

/-- A job that waits has not failed. -/
theorem keptFailures_of_waiting {placement : Placement}
    (hwaiting : job.waiting = some placement) : job.keptFailures = job.failures := by
  obtain ⟨found, failures⟩ := job
  cases found with
  | failed score => cases hwaiting
  | _ => rfl

/-- A job waits where its target asks for. -/
theorem waiting_of_target (target : Target) (failures : Option ℤ) :
    waiting ⟨target.placement, failures⟩ = some target.placement := by
  rcases target.placement_cases with htarget | htarget <;> rw [htarget] <;> rfl

/-- A waiting job keeps its place unless the offer is strictly better. -/
theorem replaceWaiting_of_ranksBy (hmode : mode.RanksBy rank) {score : ℤ}
    (hscore : job.placement.score = some score) :
    job.replaceWaiting target mode score =
      if rank target.score < rank score then job.moveTo target.placement else job := by
  unfold replaceWaiting
  by_cases hbetter : rank target.score < rank score
  · have hreplaces := (hmode.shouldReplace_iff _ _).mpr hbetter
    rw [if_pos hbetter, if_neg]
    rintro (hsame | hkept)
    · rw [hsame] at hscore
      rcases target.placement_cases with htarget | htarget <;> rw [htarget] at hscore <;>
        cases hscore <;> exact lt_irrefl _ hbetter
    · exact hkept hreplaces
  · rw [if_neg hbetter, if_pos]
    exact Or.inr (mt (hmode.shouldReplace_iff _ _).mp hbetter)

/-- An offer to a waiting job. -/
theorem offer_of_replaceWaiting (hmode : mode.RanksBy rank) {holder : Placement}
    (hoffer : job.offer target mode = job.replaceWaiting target mode holder.time)
    (hscore : job.placement.score = some holder.time) (hwaiting : job.waiting = some holder) :
    (job.offer target mode).failures = job.failures ∧
      (job.offer target mode).waiting =
        if rank target.score < rank holder.time then some target.placement
        else some holder := by
  rw [hoffer, replaceWaiting_of_ranksBy hmode hscore]
  split_ifs
  · exact ⟨rfl, waiting_of_target target job.failures⟩
  · exact ⟨rfl, hwaiting⟩

/-- What an offer does to a job that is not leased. -/
theorem offer_spec (hmode : mode.RanksBy rank) (hleased : job.placement.state ≠ some .leased)
    (target : Target) :
    (job.offer target mode).failures = job.keptFailures ∧
      (job.offer target mode).waiting =
        match job.waiting with
        | none => some target.placement
        | some holder =>
            if rank target.score < rank holder.time then some target.placement
            else some holder := by
  obtain ⟨placement, failures⟩ := job
  cases placement with
  | leased deadline workerId leaseToken rerun => exact absurd rfl hleased
  | absent => exact ⟨rfl, waiting_of_target target failures⟩
  | failed score => exact ⟨rfl, waiting_of_target target none⟩
  | ready score => exact offer_of_replaceWaiting hmode rfl rfl rfl
  | scheduled score => exact offer_of_replaceWaiting hmode rfl rfl rfl

/-- A job that waits is not leased. -/
theorem state_ne_leased {placement : Placement} (hwaiting : job.waiting = some placement) :
    job.placement.state ≠ some .leased := by
  obtain ⟨found, failures⟩ := job
  cases found with
  | leased deadline workerId leaseToken rerun => cases hwaiting
  | _ => simp [Placement.state]

/-- An offer leaves a job waiting, at a place that is as good as its target. -/
theorem exists_waiting_offer (hmode : mode.RanksBy rank)
    (hleased : job.placement.state ≠ some .leased) (target : Target) :
    ∃ placement, (job.offer target mode).waiting = some placement ∧
      rank placement.time ≤ rank target.placement.time := by
  rw [(offer_spec hmode hleased target).2, target.placement_time]
  split
  · exact ⟨_, rfl, by rw [target.placement_time]⟩
  · split_ifs with hbetter
    · exact ⟨_, rfl, by rw [target.placement_time]⟩
    · exact ⟨_, rfl, not_lt.mp hbetter⟩

/-- The offers of several targets, one after the other. -/
def offers (targets : List Target) (mode : ReplaceMode) (job : Job) : Job :=
  targets.foldl (fun job target => job.offer target mode) job

theorem offers_append_singleton (targets : List Target) (target : Target) :
    job.offers (targets ++ [target]) mode = (job.offers targets mode).offer target mode :=
  List.foldl_append

/-- After several offers the job waits at the first of the best places, and the failures of
a failed job are forgotten. -/
theorem offers_spec (hmode : mode.RanksBy rank) (hleased : job.placement.state ≠ some .leased)
    (targets : List Target) :
    (job.offers targets mode).placement.state ≠ some .leased ∧
      (job.offers targets mode).keptFailures = job.keptFailures ∧
      (job.offers targets mode).waiting =
        List.argmin (fun placement : Placement => rank placement.time)
          (job.waiting.toList ++ targets.map Target.placement) := by
  induction targets using List.reverseRecOn with
  | nil =>
      refine ⟨hleased, rfl, ?_⟩
      cases hwaiting : job.waiting with
      | none => exact hwaiting
      | some holder => exact hwaiting
  | append_singleton targets target ih =>
      obtain ⟨hunleased, hkept, hwaiting⟩ := ih
      obtain ⟨hfailures, hoffered⟩ := offer_spec hmode hunleased target
      obtain ⟨placement, hplaced, _⟩ := exists_waiting_offer hmode hunleased target
      rw [offers_append_singleton]
      refine ⟨state_ne_leased hplaced, ?_, ?_⟩
      · rw [keptFailures_of_waiting hplaced, hfailures, hkept]
      · rw [hoffered, List.map_append, ← List.append_assoc, List.map_singleton,
          List.argmin_concat, ← hwaiting, target.placement_time]
        cases (job.offers targets mode).waiting with
        | none => rfl
        | some holder => rfl

/-- The job that several offers lead to. -/
theorem exists_best_of_offers (hmode : mode.RanksBy rank)
    (hleased : job.placement.state ≠ some .leased) {targets : List Target}
    (hne : targets ≠ []) :
    ∃ best,
      best ∈ List.argmin (fun placement : Placement => rank placement.time)
        (job.waiting.toList ++ targets.map Target.placement) ∧
      job.offers targets mode = ⟨best, job.keptFailures⟩ := by
  obtain ⟨_, hkept, hwaiting⟩ := offers_spec hmode hleased targets
  cases hbest : (job.offers targets mode).waiting with
  | none =>
      rw [hbest, eq_comm, List.argmin_eq_none, List.append_eq_nil_iff, List.map_eq_nil_iff]
        at hwaiting
      exact absurd hwaiting.2 hne
  | some best =>
      refine ⟨best, hwaiting.symm.trans hbest, ?_⟩
      rw [keptFailures_of_waiting hbest] at hkept
      have hplacement := placement_of_waiting hbest
      cases hfinal : job.offers targets mode
      rw [hfinal] at hkept hplacement
      rw [← hkept, ← hplacement]

/-- Requests for one time ask for one place. -/
theorem placement_eq_of_time {nowUs first second : ℤ}
    (htime : (normalizeTarget first nowUs).placement.time =
      (normalizeTarget second nowUs).placement.time) :
    (normalizeTarget first nowUs).placement = (normalizeTarget second nowUs).placement := by
  by_cases hfirst : first = 0 ∨ first ≤ nowUs <;> by_cases hsecond : second = 0 ∨ second ≤ nowUs
  · rw [placement_of_due hfirst, placement_of_due hsecond]
  · rw [placement_of_due hfirst, placement_of_later hsecond] at htime
    exact absurd (Or.inr (show second ≤ nowUs from htime.ge)) hsecond
  · rw [placement_of_later hfirst, placement_of_due hsecond] at htime
    exact absurd (Or.inr (show first ≤ nowUs from htime.le)) hfirst
  · rw [placement_of_later hfirst, placement_of_later hsecond] at htime ⊢
    exact congrArg Placement.scheduled htime

/-- Several offers at one time of the clock lead to one job in whatever order they come. -/
theorem offers_eq_of_perm (hmode : mode.RanksBy rank)
    (hleased : job.placement.state ≠ some .leased) (nowUs : ℤ) {first second : List ℤ}
    (hperm : first.Perm second) :
    job.offers (first.map fun requestedUs => normalizeTarget requestedUs nowUs) mode =
      job.offers (second.map fun requestedUs => normalizeTarget requestedUs nowUs) mode := by
  by_cases hnil : first = []
  · subst hnil
    rw [← hperm.nil_eq]
  · have hother : second ≠ [] := fun heq => hnil (by rwa [heq, List.perm_nil] at hperm)
    obtain ⟨best, hbest, hfirst⟩ := exists_best_of_offers hmode hleased
      (mt List.map_eq_nil_iff.mp hnil)
    obtain ⟨other, hsame, hsecond⟩ := exists_best_of_offers hmode hleased
      (mt List.map_eq_nil_iff.mp hother)
    have hargmin := argmin_append_eq_of_perm
      (fun placement : Placement => rank placement.time) job.waiting
      ((hperm.map fun requestedUs => normalizeTarget requestedUs nowUs).map Target.placement) ?_
    · rw [hargmin] at hbest
      cases hbest.symm.trans hsame
      rw [hfirst, hsecond]
    · simp only [List.mem_map, exists_exists_and_eq_and]
      rintro _ ⟨a, _, rfl⟩ _ ⟨b, _, rfl⟩ hrank
      exact placement_eq_of_time (hmode.injective hrank)

/-- A waiting job keeps its place against offers that are not better. -/
theorem offers_eq_self (hmode : mode.RanksBy rank) {holder : Placement}
    (hwaiting : job.waiting = some holder) {targets : List Target}
    (hle : ∀ target ∈ targets, rank holder.time ≤ rank target.placement.time) :
    job.offers targets mode = job := by
  by_cases hnil : targets = []
  · rw [hnil]
    rfl
  · obtain ⟨best, hbest, hoffers⟩ := exists_best_of_offers hmode (state_ne_leased hwaiting) hnil
    have hholder : List.argmin (fun placement : Placement => rank placement.time)
        (holder :: targets.map Target.placement) = some holder := by
      apply argmin_cons_of_le
      intro challenger hmem
      obtain ⟨target, htarget, rfl⟩ := List.mem_map.mp hmem
      exact hle target htarget
    rw [hwaiting] at hbest
    cases hbest.symm.trans hholder
    rw [hoffers, keptFailures_of_waiting hwaiting, ← placement_of_waiting hwaiting]

end Job

/-! ## Requests to the store -/

namespace Store

variable {s s' : Store} {jobId : Bytes} {job : Job}

/-- The structures of the store are the slots of its jobs, the registry and the lease
counters. -/
theorem eq_of_slots (hslots : ∀ jobId, s.slot jobId = s'.slot jobId)
    (hregistry : s.registry = s'.registry) (hleases : s.workersLeases = s'.workersLeases) :
    s = s' := by
  have hrerun : s.rerun = s'.rerun := by
    ext jobId
    exact decide_eq_decide.mp (congrArg Slot.rerun (hslots jobId))
  obtain ⟨hcfg, hseen, hconfig⟩ := Registry.mk.inj hregistry
  cases s
  cases s'
  simp only [Store.mk.injEq]
  exact ⟨hcfg, Finmap.ext_lookup fun jobId => congrArg Slot.failures (hslots jobId),
    SortedSet.ext_score fun jobId => congrArg Slot.ready (hslots jobId),
    SortedSet.ext_score fun jobId => congrArg Slot.scheduled (hslots jobId),
    SortedSet.ext_score fun jobId => congrArg Slot.leased (hslots jobId),
    Finmap.ext_lookup fun jobId => congrArg Slot.leaseMeta (hslots jobId),
    hrerun, SortedSet.ext_score fun jobId => congrArg Slot.failed (hslots jobId),
    hseen, hconfig, hleases⟩

/-- The time that a waiting job waits for. -/
def waitingTime (s : Store) (jobId : Bytes) : Option ℤ :=
  (s.ready.score jobId).or (s.scheduled.score jobId)

theorem waitingTime_of_slot (hslot : s.slot jobId = job.toSlot) :
    s.waitingTime jobId = job.waiting.map Placement.time := by
  obtain ⟨placement, failures⟩ := job
  cases placement <;>
    simp_all [Slot.ext_iff, slot, Job.toSlot, waitingTime, Job.waiting, Placement.time,
      Placement.score]

/-- The target of a request, as the script computes it. -/
def requestTarget (now scheduleAt : Timestamp) : Target :=
  normalizeTarget (Double.ofInt (micros scheduleAt)) (Double.ofInt (micros now))

/-- Scheduled enqueues of one job at one time of the clock. -/
def replaceOps (jobId : Bytes) (mode : ReplaceMode) (now : Timestamp)
    (requests : List Timestamp) : List Op :=
  requests.map fun scheduleAt => scheduleOp jobId scheduleAt mode now

/-- What a scheduled enqueue does to the store. -/
theorem slot_next_scheduleOp (hslot : s.slot jobId = job.toSlot) (scheduleAt : Timestamp)
    (mode : ReplaceMode) (now : Timestamp) :
    (s.next (scheduleOp jobId scheduleAt mode now)).slot jobId =
        (job.offer (requestTarget now scheduleAt) mode).toSlot ∧
      ∀ other, other ≠ jobId →
        (s.next (scheduleOp jobId scheduleAt mode now)).slot other = s.slot other := by
  have hrealizes : Realizes s (s.exec (scheduleOp jobId scheduleAt mode now)) jobId
      (job.enqueueScheduled (requestTarget now scheduleAt) mode) :=
    enqueueScheduled_realizes hslot _ _ _
  unfold Job.offer
  cases houtcome : job.enqueueScheduled (requestTarget now scheduleAt) mode with
  | none =>
      rw [houtcome] at hrealizes
      rw [next, hrealizes.1]
      exact ⟨hslot, fun _ _ => rfl⟩
  | some job' =>
      rw [houtcome] at hrealizes
      exact ⟨hrealizes.1, hrealizes.2.2⟩

theorem workersLeases_enqueueOrReschedule (s : Store) (op : EnqueueOp) (jobId : Bytes)
    (now requested : ℤ) (mode : ReplaceMode) :
    (s.enqueueOrReschedule op jobId now requested mode).1.workersLeases = s.workersLeases := by
  obtain ⟨_, _, _, _, _, heq⟩ := s.enqueueOrReschedule_frame op jobId now requested mode
  rw [heq]

/-- What several scheduled enqueues of one job do to the store. -/
theorem run_replaceOps (hslot : s.slot jobId = job.toSlot) (mode : ReplaceMode)
    (now : Timestamp) (requests : List Timestamp) :
    (s.run (replaceOps jobId mode now requests)).slot jobId =
        (job.offers (requests.map (requestTarget now)) mode).toSlot ∧
      (∀ other, other ≠ jobId →
        (s.run (replaceOps jobId mode now requests)).slot other = s.slot other) ∧
      (s.run (replaceOps jobId mode now requests)).registry = s.registry ∧
      (s.run (replaceOps jobId mode now requests)).workersLeases = s.workersLeases := by
  induction requests generalizing s job with
  | nil => exact ⟨hslot, fun _ _ => rfl, rfl, rfl⟩
  | cons scheduleAt requests ih =>
      obtain ⟨hnext, hframe⟩ := slot_next_scheduleOp hslot scheduleAt mode now
      obtain ⟨hfinal, hothers, hregistry, hleases⟩ := ih hnext
      exact ⟨hfinal, fun other hne => (hothers other hne).trans (hframe other hne),
        hregistry.trans (registry_enqueueOrReschedule s .enqueueScheduled _ _ _ _),
        hleases.trans (workersLeases_enqueueOrReschedule s .enqueueScheduled _ _ _ _)⟩

/-- A requested time, where a time that has come counts as the current one. -/
def normalisedTime (now scheduleAt : Timestamp) : ℤ := max (micros scheduleAt) (micros now)

/-- The time at which the script lets a requested job wait. -/
theorem requestTarget_time (now scheduleAt : Timestamp) :
    (requestTarget now scheduleAt).placement.time =
      if micros scheduleAt = 0 then Double.ofInt (micros now)
      else Double.ofInt (normalisedTime now scheduleAt) := by
  unfold requestTarget
  rw [normalisedTime, Double.ofInt_max]
  by_cases hdue : Double.ofInt (micros scheduleAt) = 0 ∨
      Double.ofInt (micros scheduleAt) ≤ Double.ofInt (micros now)
  · rw [placement_of_due hdue]
    split_ifs with hzero
    · rfl
    · have hpast := hdue.resolve_left (mt Double.ofInt_eq_zero_iff.mp hzero)
      exact (max_eq_right hpast).symm
  · obtain ⟨hnonzero, hlater⟩ := not_or.mp hdue
    rw [placement_of_later hdue, if_neg (mt Double.ofInt_eq_zero_iff.mpr hnonzero)]
    exact (max_eq_left (not_le.mp hlater).le).symm

/-- The time a job waits for and the times that it is requested for. -/
def activationTimes (s : Store) (jobId : Bytes) (times : Timestamp → ℤ)
    (requests : List Timestamp) : Set ℤ :=
  {time | time ∈ s.waitingTime jobId} ∪
    {time | ∃ scheduleAt ∈ requests, times scheduleAt = time}

/-- What conditional replaces owe to a job: their order makes no difference, the job waits
for the best of its own time and the requested times, and a job whose own time is as good
as any keeps its place. -/
structure ReplacesBest (s : Store) (jobId : Bytes) (mode : ReplaceMode)
    (best : Set ℤ → ℤ → Prop) (now : Timestamp) (requests : List Timestamp) : Prop where
  order : ∀ other : List Timestamp, other.Perm requests →
    s.run (replaceOps jobId mode now other) = s.run (replaceOps jobId mode now requests)
  time : ∃ time, (s.run (replaceOps jobId mode now requests)).waitingTime jobId = some time ∧
    best (s.activationTimes jobId (normalisedTime now) requests) time
  tie : ∀ existing ∈ s.waitingTime jobId,
    best (s.activationTimes jobId (normalisedTime now) requests) existing →
      s.run (replaceOps jobId mode now requests) = s

variable {best : Set ℤ → ℤ → Prop}

/-- The time that the script computes for a request. -/
def scriptTime (now scheduleAt : Timestamp) : ℤ := (requestTarget now scheduleAt).placement.time

/-- Enqueues that do the same to the job do the same to the store. -/
theorem run_replaceOps_eq (hslot : s.slot jobId = job.toSlot) {requests other : List Timestamp}
    (hoffers : job.offers (requests.map (requestTarget now)) mode =
      job.offers (other.map (requestTarget now)) mode) :
    s.run (replaceOps jobId mode now requests) = s.run (replaceOps jobId mode now other) := by
  obtain ⟨hfinal, hframe, hregistry, hleases⟩ := run_replaceOps hslot mode now requests
  obtain ⟨hother, hotherFrame, hotherRegistry, hotherLeases⟩ := run_replaceOps hslot mode now other
  apply eq_of_slots
  · intro id
    by_cases hid : id = jobId
    · rw [hid, hfinal, hother, hoffers]
    · rw [hframe id hid, hotherFrame id hid]
  · rw [hregistry, hotherRegistry]
  · rw [hleases, hotherLeases]

/-- The job waits for the best time that the script computes. -/
theorem exists_best_waitingTime (hslot : s.slot jobId = job.toSlot)
    (hunleased : job.placement.state ≠ some .leased) (hmode : mode.RanksBy rank)
    (now : Timestamp) {requests : List Timestamp} (hne : requests ≠ []) :
    ∃ time, (s.run (replaceOps jobId mode now requests)).waitingTime jobId = some time ∧
      IsBest rank (s.activationTimes jobId (scriptTime now) requests) time := by
  obtain ⟨placement, hmem, _⟩ := Job.exists_best_of_offers hmode hunleased
    (mt List.map_eq_nil_iff.mp hne)
  have hwaiting := (Job.offers_spec hmode hunleased (requests.map (requestTarget now))).2.2
  rw [hmem] at hwaiting
  have hleast {candidate : Placement} (hcandidate : candidate ∈ job.waiting.toList ++
      (requests.map (requestTarget now)).map Target.placement) :
      rank placement.time ≤ rank candidate.time := by
    have hle := List.le_of_mem_argmin hcandidate hmem
    exact hle
  refine ⟨placement.time, ?_, ?_, ?_⟩
  · rw [waitingTime_of_slot (run_replaceOps hslot mode now requests).1, hwaiting]
    rfl
  · rcases List.mem_append.mp (List.argmin_mem hmem) with hholder | htarget
    · left
      show placement.time ∈ s.waitingTime jobId
      rw [waitingTime_of_slot hslot, Option.mem_toList.mp hholder]
      rfl
    · right
      simp only [List.map_map, List.mem_map] at htarget
      obtain ⟨scheduleAt, hrequest, hplacement⟩ := htarget
      exact ⟨scheduleAt, hrequest, congrArg Placement.time hplacement⟩
  · rintro _ (hother | ⟨scheduleAt, hrequest, rfl⟩)
    · rw [Set.mem_ofPred_eq, waitingTime_of_slot hslot] at hother
      obtain ⟨holder, hholder, rfl⟩ := Option.mem_map.mp hother
      exact hleast (List.mem_append_left _ (Option.mem_toList.mpr hholder))
    · exact hleast (List.mem_append_right _ (List.mem_map_of_mem (List.mem_map_of_mem hrequest)))

/-- What the enqueues do: the job waits for the best time that the script computes. -/
theorem replaces_scriptTimes (hwf : s.WellFormed) (hleased : s.leased.score jobId = none)
    (hmode : mode.RanksBy rank)
    (hbest : ∀ times time, best times time ↔ IsBest rank times time)
    (now : Timestamp) {requests : List Timestamp} (hne : requests ≠ []) :
    (∀ other : List Timestamp, other.Perm requests →
      s.run (replaceOps jobId mode now other) = s.run (replaceOps jobId mode now requests)) ∧
    (∃ time, (s.run (replaceOps jobId mode now requests)).waitingTime jobId = some time ∧
      best (s.activationTimes jobId (scriptTime now) requests) time) ∧
    ∀ existing ∈ s.waitingTime jobId,
      best (s.activationTimes jobId (scriptTime now) requests) existing →
        s.run (replaceOps jobId mode now requests) = s := by
  obtain ⟨job, hslot⟩ := hwf.exists_job jobId
  have hunleased : job.placement.state ≠ some .leased := by
    obtain ⟨placement, failures⟩ := job
    cases placement with
    | leased deadline workerId leaseToken rerun =>
        cases hleased.symm.trans (congrArg Slot.leased hslot)
    | _ => simp [Placement.state]
  refine ⟨fun other hperm => ?_, ?_, fun existing hexisting hleast => ?_⟩
  · apply run_replaceOps_eq hslot
    have hsame := Job.offers_eq_of_perm hmode hunleased (Double.ofInt (micros now))
      (hperm.map fun scheduleAt => Double.ofInt (micros scheduleAt))
    simp only [List.map_map] at hsame
    exact hsame
  · obtain ⟨time, hwaits, hleast⟩ := exists_best_waitingTime hslot hunleased hmode now hne
    exact ⟨time, hwaits, (hbest _ _).mpr hleast⟩
  · rw [waitingTime_of_slot hslot] at hexisting
    obtain ⟨holder, hholder, rfl⟩ := Option.mem_map.mp hexisting
    have hkept : job.offers (requests.map (requestTarget now)) mode = job := by
      apply Job.offers_eq_self hmode hholder
      intro target htarget
      obtain ⟨scheduleAt, hrequest, rfl⟩ := List.mem_map.mp htarget
      exact ((hbest _ _).mp hleast).2 _ (Or.inr ⟨scheduleAt, hrequest, rfl⟩)
    have hnothing : job.offers (([] : List Timestamp).map (requestTarget now)) mode = job := rfl
    exact run_replaceOps_eq hslot (hkept.trans hnothing.symm)

/-- The best of the times that the script computes is the best of the requested times, or
the job waits for a time that is as good as both. -/
theorem replacesBest_iff (hwf : s.WellFormed) (hleased : s.leased.score jobId = none)
    (hmode : mode.RanksBy rank)
    (hbest : ∀ times time, best times time ↔ IsBest rank times time) (now : Timestamp)
    {requests : List Timestamp} (hne : requests ≠ []) {requested computed : ℤ}
    (hrequested : best {time | ∃ scheduleAt ∈ requests, normalisedTime now scheduleAt = time}
      requested)
    (hcomputed : best {time | ∃ scheduleAt ∈ requests, scriptTime now scheduleAt = time}
      computed) :
    s.ReplacesBest jobId mode best now requests ↔
      computed = requested ∨ ∃ time ∈ s.waitingTime jobId,
        rank time ≤ rank computed ∧ rank time ≤ rank requested := by
  obtain ⟨horder, ⟨time, htime, hleast⟩, htie⟩ :=
    replaces_scriptTimes hwf hleased hmode hbest now hne
  rw [hbest] at hrequested hcomputed hleast
  rw [← isBest_union_iff hmode.injective hrequested hcomputed hleast, ← hbest]
  constructor
  · intro hreplaces
    obtain ⟨other, hother, hgiven⟩ := hreplaces.time
    cases htime.symm.trans hother
    exact hgiven
  · intro hgiven
    refine ⟨horder, ⟨time, htime, hgiven⟩, fun existing hexisting hkept => ?_⟩
    rw [hbest] at hgiven hkept
    apply htie existing hexisting
    rw [hbest, hkept.unique hmode.injective hgiven]
    exact hleast

/-- The requested times. -/
def requestedTimes (now : Timestamp) (requests : List Timestamp) : Set ℤ :=
  {time | ∃ scheduleAt ∈ requests, normalisedTime now scheduleAt = time}

/-- The number that the script has for the earliest requested time. A request for the zero
microsecond counts as one for the current time, also when that time is negative. -/
def scriptEarliest (now : Timestamp) (requests : List Timestamp) (earliest : ℤ) : ℤ :=
  if micros now < 0 ∧ ∃ scheduleAt ∈ requests, micros scheduleAt = 0 then
    Double.ofInt (micros now)
  else Double.ofInt earliest

/-- The script keeps the earliest requested time as it is, or the job waits for a time that
is not later, neither than that time nor than what the script makes of it. -/
def KeepsEarliest (existing : Option ℤ) (now : Timestamp) (requests : List Timestamp) : Prop :=
  ∀ earliest, IsLeast (requestedTimes now requests) earliest →
    scriptEarliest now requests earliest = earliest ∨ ∃ time ∈ existing,
      time ≤ scriptEarliest now requests earliest ∧ time ≤ earliest

/-- The script keeps the latest requested time as it is, which is not the zero microsecond
unless it has come, or the job waits for a time that is not earlier, neither than that time
nor than its double. -/
def KeepsLatest (existing : Option ℤ) (now : Timestamp) (requests : List Timestamp) : Prop :=
  ∀ latest, IsGreatest (requestedTimes now requests) latest →
    (Double.ofInt latest = latest ∧ ¬ (micros now < 0 ∧ latest = 0)) ∨ ∃ time ∈ existing,
      Double.ofInt latest ≤ time ∧ latest ≤ time

/-- The script rounds requested times, except those at the zero microsecond. -/
theorem scriptTime_eq (now scheduleAt : Timestamp) :
    scriptTime now scheduleAt =
      if micros now < 0 ∧ micros scheduleAt = 0 then Double.ofInt (micros now)
      else Double.ofInt (normalisedTime now scheduleAt) := by
  rw [scriptTime, requestTarget_time]
  by_cases hzero : micros scheduleAt = 0
  · rw [if_pos hzero]
    split_ifs with hnegative
    · rfl
    · rw [normalisedTime, max_eq_right (by omega)]
  · rw [if_neg hzero, if_neg (fun h => hzero h.2)]

/-- No requested time is before the current one. -/
theorem ofInt_now_le_scriptTime (now scheduleAt : Timestamp) :
    Double.ofInt (micros now) ≤ scriptTime now scheduleAt := by
  rw [scriptTime_eq]
  split_ifs
  · exact le_rfl
  · exact Double.ofInt_mono (le_max_right _ _)

/-- The script never puts a requested time later. -/
theorem scriptTime_le (now scheduleAt : Timestamp) :
    scriptTime now scheduleAt ≤ Double.ofInt (normalisedTime now scheduleAt) := by
  rw [scriptTime_eq]
  split_ifs
  · exact Double.ofInt_mono (le_max_right _ _)
  · exact le_rfl

/-- The earliest time that the script computes. -/
theorem isLeast_scriptEarliest {now : Timestamp} {requests : List Timestamp} {earliest : ℤ}
    (hearliest : IsLeast (requestedTimes now requests) earliest) :
    IsLeast {time | ∃ scheduleAt ∈ requests, scriptTime now scheduleAt = time}
      (scriptEarliest now requests earliest) := by
  unfold scriptEarliest
  split_ifs with hzero
  · obtain ⟨hnegative, scheduleAt, hrequest, htime⟩ := hzero
    refine ⟨⟨scheduleAt, hrequest, ?_⟩, ?_⟩
    · rw [scriptTime_eq, if_pos ⟨hnegative, htime⟩]
    · rintro _ ⟨other, _, rfl⟩
      exact ofInt_now_le_scriptTime now other
  · have hrounded {scheduleAt : Timestamp} (hrequest : scheduleAt ∈ requests) :
        scriptTime now scheduleAt = Double.ofInt (normalisedTime now scheduleAt) := by
      rw [scriptTime_eq, if_neg fun h => hzero ⟨h.1, scheduleAt, hrequest, h.2⟩]
    obtain ⟨⟨scheduleAt, hrequest, rfl⟩, hleast⟩ := hearliest
    refine ⟨⟨scheduleAt, hrequest, hrounded hrequest⟩, ?_⟩
    rintro _ ⟨other, hother, rfl⟩
    rw [hrounded hother]
    exact Double.ofInt_mono (hleast ⟨other, hother, rfl⟩)

/-- The latest time that the script computes, unless it is the zero microsecond. -/
theorem isGreatest_ofInt {now : Timestamp} {requests : List Timestamp} {latest : ℤ}
    (hlatest : IsGreatest (requestedTimes now requests) latest)
    (hnonzero : ¬ (micros now < 0 ∧ latest = 0)) :
    IsGreatest {time | ∃ scheduleAt ∈ requests, scriptTime now scheduleAt = time}
      (Double.ofInt latest) := by
  obtain ⟨⟨scheduleAt, hrequest, rfl⟩, hgreatest⟩ := hlatest
  constructor
  · refine ⟨scheduleAt, hrequest, ?_⟩
    rw [scriptTime_eq, if_neg]
    rintro ⟨hnegative, hzero⟩
    exact hnonzero ⟨hnegative, by rw [normalisedTime, hzero, max_eq_left hnegative.le]⟩
  · rintro _ ⟨other, hother, rfl⟩
    exact (scriptTime_le now other).trans (Double.ofInt_mono (hgreatest ⟨other, hother, rfl⟩))

/-- A time before 1970 for which no request is later than zero is computed as negative. -/
theorem scriptTime_neg {now : Timestamp} {requests : List Timestamp}
    (hnegative : micros now < 0) (hlatest : IsGreatest (requestedTimes now requests) 0)
    {scheduleAt : Timestamp} (hrequest : scheduleAt ∈ requests) :
    scriptTime now scheduleAt < 0 := by
  rw [scriptTime_eq]
  split_ifs with hzero
  · exact Double.ofInt_neg_iff.mpr hnegative
  · have hle : normalisedTime now scheduleAt ≤ 0 := hlatest.2 ⟨scheduleAt, hrequest, rfl⟩
    rw [Double.ofInt_neg_iff]
    unfold normalisedTime at hle ⊢
    omega

/-- Earlier replaces form a minimum. -/
theorem replaces_ifEarlier_iff (hwf : s.WellFormed) (hleased : s.leased.score jobId = none)
    (now : Timestamp) {requests : List Timestamp} (hne : requests ≠ []) :
    s.ReplacesBest jobId .ifEarlier IsLeast now requests ↔
      KeepsEarliest (s.waitingTime jobId) now requests := by
  obtain ⟨earliest, hearliest⟩ : ∃ earliest, IsLeast (requestedTimes now requests) earliest :=
    exists_isBest id (normalisedTime now) hne
  rw [replacesBest_iff hwf hleased ReplaceMode.ranksBy_ifEarlier
    (fun _ _ => isBest_id_iff.symm) now hne hearliest (isLeast_scriptEarliest hearliest)]
  constructor
  · intro hkeeps other hother
    rwa [hother.unique hearliest]
  · intro hkeeps
    exact hkeeps earliest hearliest

/-- Later replaces of which none is after the zero microsecond, at a time before it. -/
theorem replaces_ifLater_zero_iff (hwf : s.WellFormed) (hleased : s.leased.score jobId = none)
    {now : Timestamp} {requests : List Timestamp} (hne : requests ≠ [])
    (hnegative : micros now < 0) (hlatest : IsGreatest (requestedTimes now requests) 0) :
    s.ReplacesBest jobId .ifLater IsGreatest now requests ↔
      ∃ time ∈ s.waitingTime jobId, 0 ≤ time := by
  obtain ⟨computed, hcomputed⟩ : ∃ computed,
      IsGreatest {time | ∃ scheduleAt ∈ requests, scriptTime now scheduleAt = time} computed :=
    exists_isBest OrderDual.toDual (scriptTime now) hne
  have hbefore : computed < 0 := by
    obtain ⟨scheduleAt, hrequest, rfl⟩ := hcomputed.1
    exact scriptTime_neg hnegative hlatest hrequest
  rw [replacesBest_iff hwf hleased ReplaceMode.ranksBy_ifLater
    (fun _ _ => isBest_toDual_iff.symm) now hne hlatest hcomputed, or_iff_right hbefore.ne]
  apply exists_congr
  intro time
  apply and_congr_right
  intro _
  show computed ≤ time ∧ 0 ≤ time ↔ 0 ≤ time
  exact and_iff_right_of_imp hbefore.le.trans

/-- Later replaces form a maximum. -/
theorem replaces_ifLater_iff (hwf : s.WellFormed) (hleased : s.leased.score jobId = none)
    (now : Timestamp) {requests : List Timestamp} (hne : requests ≠ []) :
    s.ReplacesBest jobId .ifLater IsGreatest now requests ↔
      KeepsLatest (s.waitingTime jobId) now requests := by
  obtain ⟨latest, hlatest⟩ : ∃ latest, IsGreatest (requestedTimes now requests) latest :=
    exists_isBest OrderDual.toDual (normalisedTime now) hne
  have hiff : s.ReplacesBest jobId .ifLater IsGreatest now requests ↔
      (Double.ofInt latest = latest ∧ ¬ (micros now < 0 ∧ latest = 0)) ∨
        ∃ time ∈ s.waitingTime jobId, Double.ofInt latest ≤ time ∧ latest ≤ time := by
    by_cases hzero : micros now < 0 ∧ latest = 0
    · obtain ⟨hnegative, rfl⟩ := hzero
      rw [replaces_ifLater_zero_iff hwf hleased hne hnegative hlatest,
        show Double.ofInt 0 = 0 by decide]
      simp [hnegative]
    · rw [replacesBest_iff hwf hleased ReplaceMode.ranksBy_ifLater
        (fun _ _ => isBest_toDual_iff.symm) now hne hlatest (isGreatest_ofInt hlatest hzero)]
      simp only [hzero, not_false_eq_true, and_true]
      rfl
  rw [hiff]
  constructor
  · intro hkeeps other hother
    rwa [hother.unique hlatest]
  · intro hkeeps
    exact hkeeps latest hlatest

/-- Conditional replaces form a minimum in every order, and keep a time on a tie, exactly when
the script keeps the earliest requested time as it is or the job's own time comes first; and
likewise for the maximum. -/
theorem conditional_replaces_iff (s : Store) (hwf : s.WellFormed) (jobId : Bytes)
    (hleased : s.leased.score jobId = none) (now : Timestamp) (requests : List Timestamp)
    (hne : requests ≠ []) :
    (s.ReplacesBest jobId .ifEarlier IsLeast now requests ↔
      KeepsEarliest (s.waitingTime jobId) now requests) ∧
      (s.ReplacesBest jobId .ifLater IsGreatest now requests ↔
        KeepsLatest (s.waitingTime jobId) now requests) :=
  ⟨replaces_ifEarlier_iff hwf hleased now hne, replaces_ifLater_iff hwf hleased now hne⟩

/-- Two requests move a job from the fifth second to the third in either order. -/
theorem conditional_replaces_sample :
    let s := empty.run [scheduleOp "job" (.ofSeconds 5) .always (.ofSeconds 1)]
    s.ReplacesBest "job" .ifEarlier IsLeast (.ofSeconds 1) [.ofSeconds 4, .ofSeconds 3] := by
  intro s
  have hwf : s.WellFormed := (storesWf_run (by decide)).wellFormed
  apply (conditional_replaces_iff s hwf "job" (by decide) (.ofSeconds 1)
    [.ofSeconds 4, .ofSeconds 3] (by simp)).1.mpr
  intro earliest hearliest
  left
  obtain ⟨scheduleAt, hrequest, rfl⟩ := hearliest.1
  rcases List.mem_pair.mp hrequest with rfl | rfl
  · decide
  · decide

/-- A job that is requested for a time that no double holds waits for another time. -/
theorem unrepresentedTime_not_replacesBest :
    empty.WellFormed ∧ empty.leased.score "job" = none ∧
      ¬ empty.ReplacesBest "job" .ifEarlier IsLeast (.ofSeconds 1) [unrepresentedTime] := by
  refine ⟨wellFormed_empty, by decide, fun hreplaces => ?_⟩
  obtain ⟨time, hwaiting, hleast⟩ := hreplaces.time
  have hrounded : (empty.run (replaceOps "job" .ifEarlier (.ofSeconds 1)
      [unrepresentedTime])).waitingTime "job" = some 9007199254740992 := by decide
  cases hrounded.symm.trans hwaiting
  rcases hleast.1 with hnone | ⟨scheduleAt, hrequest, htime⟩
  · cases hnone
  · rw [List.mem_singleton.mp hrequest] at htime
    exact absurd htime (by decide)

end Store

end Redloop
