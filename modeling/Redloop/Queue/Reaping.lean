/-
# Reaping the oldest leases

A reap takes expired leases back in the order of their deadlines, as many as its limit
allows. Each of its jobs becomes ready, loses its record and its marker, and lowers the
counter of the worker that held it. Reaping again and again, rounded up, as often as the
limit divides the number of expired leases, leaves none. The script reads the time as a
double, so a reap that has anything to do does all this exactly when its double is the time.
-/

import Redloop.Queue.LeaseCounters
import Redloop.Queue.Placement
import Redloop.Store.Decode

namespace Redloop

/-! ## Counting down -/

/-- A counter that drops by a number, and is deleted once it is not positive. -/
def countDown (count : Option ℤ) (drop : ℕ) : Option ℤ :=
  if drop = 0 then count
  else if count.getD 0 - drop ≤ 0 then none
  else some (count.getD 0 - drop)

/-- Dropping by one and then by more is dropping at once. -/
theorem countDown_countDown_one (count : Option ℤ) (drop : ℕ) :
    countDown (countDown count 1) drop = countDown count (drop + 1) := by
  have hone : (countDown count 1).getD 0 = max (count.getD 0 - 1) 0 := by
    unfold countDown
    rw [if_neg one_ne_zero]
    split_ifs with hzero
    · exact (max_eq_right hzero).symm
    · exact (max_eq_left (not_le.mp hzero).le).symm
  cases drop with
  | zero => rfl
  | succ drop =>
      unfold countDown at hone ⊢
      rw [if_neg (Nat.succ_ne_zero drop), if_neg (Nat.succ_ne_zero (drop + 1)), hone]
      rcases le_total (count.getD 0 - 1) 0 with hle | hle
      · rw [max_eq_right hle, if_pos (by omega), if_pos (by omega)]
      · rw [max_eq_left hle, Nat.cast_succ (drop + 1), ← sub_sub, sub_right_comm]

/-- A quotient that is rounded up covers the number that was divided. -/
theorem le_ceil_mul (number : ℕ) {divisor : ℕ} (hpos : 1 ≤ divisor) :
    number ≤ (number + divisor - 1) / divisor * divisor := by
  have hquotient := Nat.div_add_mod' (number + divisor - 1) divisor
  have hrest := Nat.mod_lt (number + divisor - 1) hpos
  omega

/-- Lower the counters of the listed workers, one after the other. -/
def Hash.decrementAll (hash : Hash ℤ) (workers : List Bytes) : Hash ℤ :=
  workers.foldl Hash.decrement hash

/-- A counter drops by the number of times that its worker is listed. -/
theorem Hash.lookup_decrementAll (hash : Hash ℤ) (workers : List Bytes) (field : Bytes) :
    (hash.decrementAll workers).lookup field =
      countDown (hash.lookup field) (workers.count field) := by
  induction workers generalizing hash with
  | nil => rfl
  | cons worker workers ih =>
      show ((hash.decrement worker).decrementAll workers).lookup field = _
      rw [ih, lookup_decrement]
      by_cases hfield : field = worker
      · subst hfield
        rw [if_pos rfl, List.count_cons_self, ← countDown_countDown_one]
        rfl
      · rw [if_neg hfield, List.count_cons_of_ne (Ne.symm hfield)]

namespace Store

variable {s : Store} {nowUs : ℤ}

/-- The leases that have expired, in the order of their deadlines. -/
def expired (s : Store) (nowUs : ℤ) : List (ℤ ×ₗ Bytes) := s.leased.rangeByScore (· ≤ nowUs)

theorem leased_reapJob (s : Store) (jobId : Bytes) (nowUs : ℤ) :
    (s.reapJob jobId nowUs).leased = s.leased.erase jobId := by
  unfold reapJob
  split <;> rfl

theorem leaseMeta_reapJob (s : Store) (jobId : Bytes) (nowUs : ℤ) :
    (s.reapJob jobId nowUs).leaseMeta = Finmap.erase jobId s.leaseMeta := by
  unfold reapJob
  split <;> rfl

/-- The worker that the record of a job names. -/
def holder (s : Store) (jobId : Bytes) : Option Bytes :=
  (s.leaseMeta.lookup jobId).bind workerFromMeta

/-- Taking one lease back lowers the counter of its holder. -/
theorem workersLeases_reapJob (s : Store) (jobId : Bytes) (nowUs : ℤ) :
    (s.reapJob jobId nowUs).workersLeases =
      s.workersLeases.decrementAll (s.holder jobId).toList := by
  unfold reapJob holder
  cases (s.leaseMeta.lookup jobId).bind workerFromMeta <;> rfl

/-- Taking one lease back makes its job ready and keeps the others. -/
theorem slot_reapJob (s : Store) (jobId other : Bytes) (nowUs : ℤ) :
    (s.reapJob jobId nowUs).slot other =
      if other = jobId then
        { s.slot other with ready := some nowUs, leased := none, leaseMeta := none, rerun := false }
      else s.slot other := by
  have hslot : (s.reapJob jobId nowUs).slot other =
      { s with
        leased := s.leased.erase jobId
        leaseMeta := Finmap.erase jobId s.leaseMeta
        rerun := s.rerun.erase jobId
        ready := s.ready.add jobId nowUs : Store }.slot other := by
    unfold reapJob
    split <;> rfl
  rw [hslot]
  split_ifs with hother
  · subst hother
    simp [slot]
  · simp [slot, hother]

/-- Taking the first expired lease back leaves the others. -/
theorem expired_reapJob {entry : ℤ ×ₗ Bytes} {rest : List (ℤ ×ₗ Bytes)}
    (hexpired : s.expired nowUs = entry :: rest) :
    (s.reapJob (ofLex entry).2 nowUs).expired nowUs = rest := by
  unfold expired
  rw [leased_reapJob]
  exact SortedSet.rangeByScore_erase_of_cons hexpired

/-! ## The loop -/

/-- Take the listed leases back. -/
def reapAll (s : Store) (nowUs : ℤ) (jobIds : List Bytes) : Store :=
  jobIds.foldl (fun s jobId => s.reapJob jobId nowUs) s

/-- The jobs that a reap takes back. -/
def reaped (s : Store) (nowUs : ℤ) (limit : ℕ) : List Bytes :=
  ((s.expired nowUs).take limit).map fun entry => (ofLex entry).2

theorem reaped_succ {entry : ℤ ×ₗ Bytes} {rest : List (ℤ ×ₗ Bytes)}
    (hexpired : s.expired nowUs = entry :: rest) (limit : ℕ) :
    s.reaped nowUs (limit + 1) =
      (ofLex entry).2 :: (s.reapJob (ofLex entry).2 nowUs).reaped nowUs limit := by
  rw [reaped, reaped, expired_reapJob hexpired, hexpired, List.take_succ_cons, List.map_cons]

/-- A round without an expired lease ends the loop. -/
theorem reapLoop_of_nil (hexpired : s.expired nowUs = []) (limit count : ℕ) :
    reapLoop nowUs (limit + 1) s count = (s, count) := by
  have hhead : (s.leased.rangeByScore (· ≤ nowUs)).head? = none := congrArg List.head? hexpired
  rw [reapLoop, hhead]

/-- A round takes the first expired lease back. -/
theorem reapLoop_of_cons {entry : ℤ ×ₗ Bytes} {rest : List (ℤ ×ₗ Bytes)}
    (hexpired : s.expired nowUs = entry :: rest) (limit count : ℕ) :
    reapLoop nowUs (limit + 1) s count =
      reapLoop nowUs limit (s.reapJob (ofLex entry).2 nowUs) (count + 1) := by
  have hhead : (s.leased.rangeByScore (· ≤ nowUs)).head? = some entry :=
    congrArg List.head? hexpired
  rw [reapLoop, hhead]

/-- The loop takes the first expired leases back and counts them. -/
theorem reapLoop_eq (limit : ℕ) (s : Store) (count : ℕ) :
    reapLoop nowUs limit s count =
      (s.reapAll nowUs (s.reaped nowUs limit), count + (s.reaped nowUs limit).length) := by
  induction limit generalizing s count with
  | zero => rfl
  | succ limit ih =>
      cases hexpired : s.expired nowUs with
      | nil =>
          rw [reapLoop_of_nil hexpired, reaped, hexpired]
          rfl
      | cons entry rest =>
          rw [reapLoop_of_cons hexpired, ih, reaped_succ hexpired, List.length_cons,
            Nat.add_assoc, Nat.add_comm 1]
          rfl

/-- What the reaped leases leave expired. -/
theorem expired_reapAll (limit : ℕ) (s : Store) :
    (s.reapAll nowUs (s.reaped nowUs limit)).expired nowUs = (s.expired nowUs).drop limit := by
  induction limit generalizing s with
  | zero => rfl
  | succ limit ih =>
      cases hexpired : s.expired nowUs with
      | nil =>
          rw [reaped, hexpired]
          exact hexpired
      | cons entry rest =>
          rw [reaped_succ hexpired, List.drop_succ_cons, ← expired_reapJob hexpired]
          exact ih _

/-- The reaped jobs are ready, and the others are kept. -/
theorem slot_reapAll (jobIds : List Bytes) (s : Store) (jobId : Bytes) :
    (s.reapAll nowUs jobIds).slot jobId =
      if jobId ∈ jobIds then
        { s.slot jobId with ready := some nowUs, leased := none, leaseMeta := none, rerun := false }
      else s.slot jobId := by
  induction jobIds generalizing s with
  | nil => rfl
  | cons first rest ih =>
      show ((s.reapJob first nowUs).reapAll nowUs rest).slot jobId = _
      rw [ih, slot_reapJob]
      by_cases hfirst : jobId = first
      · simp [hfirst]
      · simp [hfirst]

/-- The scheduled jobs, the failed jobs and the failure counts stay. -/
theorem reapAll_frame (s : Store) (nowUs : ℤ) (jobIds : List Bytes) :
    (s.reapAll nowUs jobIds).scheduled = s.scheduled ∧
      (s.reapAll nowUs jobIds).failed = s.failed ∧
        (s.reapAll nowUs jobIds).failures = s.failures := by
  have hslot (jobId : Bytes) :
      ((s.reapAll nowUs jobIds).slot jobId).scheduled = (s.slot jobId).scheduled ∧
        ((s.reapAll nowUs jobIds).slot jobId).failed = (s.slot jobId).failed ∧
          ((s.reapAll nowUs jobIds).slot jobId).failures = (s.slot jobId).failures := by
    rw [slot_reapAll]
    split_ifs <;> exact ⟨rfl, rfl, rfl⟩
  refine ⟨?_, ?_, ?_⟩
  · exact SortedSet.ext_score fun jobId => (hslot jobId).1
  · exact SortedSet.ext_score fun jobId => (hslot jobId).2.1
  · exact Finmap.ext_lookup fun jobId => (hslot jobId).2.2

/-- The holders of the reaped leases lose them. -/
theorem workersLeases_reapAll {jobIds : List Bytes} (hnodup : jobIds.Nodup) (s : Store) :
    (s.reapAll nowUs jobIds).workersLeases =
      s.workersLeases.decrementAll (jobIds.filterMap s.holder) := by
  induction jobIds generalizing s with
  | nil => rfl
  | cons first rest ih =>
      obtain ⟨hfirst, hrest⟩ := List.nodup_cons.mp hnodup
      have hholders : rest.filterMap (s.reapJob first nowUs).holder = rest.filterMap s.holder := by
        apply List.filterMap_congr
        intro jobId hmem
        have hother : jobId ≠ first := by
          rintro rfl
          exact hfirst hmem
        rw [holder, leaseMeta_reapJob, Hash.lookup_erase, if_neg hother, holder]
      show ((s.reapJob first nowUs).reapAll nowUs rest).workersLeases = _
      rw [ih hrest, hholders, workersLeases_reapJob]
      cases hholder : s.holder first with
      | none => rw [List.filterMap_cons_none hholder]; rfl
      | some workerId => rw [List.filterMap_cons_some hholder]; rfl

/-- No job is reaped twice. -/
theorem nodup_reaped (s : Store) (nowUs : ℤ) (limit : ℕ) : (s.reaped nowUs limit).Nodup :=
  s.leased.members_nodup.sublist (((List.take_sublist _ _).trans List.filter_sublist).map _)

/-- A reap takes as many leases as have expired and its limit allows. -/
theorem length_reaped (s : Store) (nowUs : ℤ) (limit : ℕ) :
    (s.reaped nowUs limit).length = min limit (s.expired nowUs).length := by
  rw [reaped, List.length_map, List.length_take]

/-! ## A reap -/

/-- What a reap does and answers. Without a limit it does nothing. -/
theorem exec_reapExpired (s : Store) (now : Timestamp) (limit : ℕ) :
    s.exec (.reapExpired now limit) =
      (s.reapAll (Double.ofInt (micros now)) (s.reaped (Double.ofInt (micros now)) limit),
        [utf8 "ok", generalText 14 (s.reaped (Double.ofInt (micros now)) limit).length]) := by
  by_cases hlimit : limit = 0
  · subst hlimit
    have hzero : generalText 14 ((0 : ℕ) : ℤ) = utf8 "0" := by decide
    show (s, [utf8 "ok", utf8 "0"]) = (s, [utf8 "ok", generalText 14 ((0 : ℕ) : ℤ)])
    rw [hzero]
  · rw [exec, if_neg hlimit, reapExpired, reapLoop_eq, Nat.zero_add]

/-- The printed count is read as it is exactly when it has at most 14 digits. -/
theorem parseReapResponse_generalText (namespaceName : Bytes) (count : ℕ) :
    parseReapResponse namespaceName [utf8 "ok", generalText 14 count] = .ok count ↔
      count < 10 ^ 14 := by
  have hprinted : excessDigits 14 count = 0 ↔ count < 10 ^ 14 :=
    excessDigits_eq_zero_iff (by decide)
  rw [parseReapResponse, if_neg (by simp)]
  show parseCount u64Max _ (some (generalText 14 count)) = _ ↔ _
  rw [parseCount, Option.bind_some, parseUnsigned_generalText, parseUnsigned_decimalInt,
    Int.natAbs_natCast, ← hprinted]
  split_ifs with hfits hrange
  · simp [hfits]
  · have hsmall := hprinted.mp hfits
    unfold u64Max at hrange
    omega
  · simp [hfits]

/-- What a reap owes to the leases whose deadline is at or before the time of the clock: it
takes the oldest back, as many as its limit allows, and nothing else changes. -/
structure ReapsOldest (s : Store) (namespaceName : Bytes) (now : Timestamp) (limit : ℕ) :
    Prop where
  /-- The jobs of the first expired leases are ready now, without record and marker. -/
  moved : ∀ entry ∈ (s.expired (micros now)).take limit,
    (s.next (.reapExpired now limit)).slot (ofLex entry).2 =
      { ready := some (micros now), failures := s.failures.lookup (ofLex entry).2 }
  /-- The other jobs stay as they are. -/
  kept : ∀ jobId, (∀ entry ∈ (s.expired (micros now)).take limit, (ofLex entry).2 ≠ jobId) →
    (s.next (.reapExpired now limit)).slot jobId = s.slot jobId
  /-- The leases that have not expired stay. -/
  unexpired : ∀ jobId deadline, s.leased.score jobId = some deadline → micros now < deadline →
    (s.next (.reapExpired now limit)).slot jobId = s.slot jobId
  /-- No failure count changes. -/
  failures : (s.next (.reapExpired now limit)).failures = s.failures
  /-- The scheduled jobs stay. -/
  scheduled : (s.next (.reapExpired now limit)).scheduled = s.scheduled
  /-- The failed jobs stay. -/
  failed : (s.next (.reapExpired now limit)).failed = s.failed
  /-- The counter of each worker drops by the number of its leases that are taken back. -/
  counters : ∀ workerId, (s.next (.reapExpired now limit)).workersLeases.lookup workerId =
    countDown (s.workersLeases.lookup workerId)
      (((s.expired (micros now)).take limit).countP
        fun entry => s.holder (ofLex entry).2 = some workerId)
  /-- The client reads how many leases were taken back. -/
  counted : parseReapResponse namespaceName (s.reply (.reapExpired now limit)) =
    .ok (min limit (s.expired (micros now)).length)
  /-- As many reaps as it takes, rounded up, leave no expired lease. -/
  cleared : 1 ≤ limit → ∀ jobId deadline,
    ((fun s => s.next (.reapExpired now limit))^[
      ((s.expired (micros now)).length + limit - 1) / limit] s).leased.score jobId =
        some deadline → micros now < deadline

/-- When a reap does what it owes: it has nothing to do, whether its time is read as it is or
as a double, or that double is the time itself and the number of leases it takes back has at
most 14 digits. -/
def ReapsExactly (s : Store) (now : Timestamp) (limit : ℕ) : Prop :=
  limit = 0 ∨ s.expired (max (micros now) (Double.ofInt (micros now))) = [] ∨
    (Double.ofInt (micros now) = micros now ∧
      min limit (s.expired (micros now)).length < 10 ^ 14)

/-- A well-formed leased job is in no other set. -/
theorem WellFormed.slot_of_leased (hwf : s.WellFormed) {jobId : Bytes} {deadline : ℤ}
    (hleased : s.leased.score jobId = some deadline) :
    (s.slot jobId).scheduled = none ∧ (s.slot jobId).failed = none := by
  obtain ⟨job, hslot⟩ := hwf.exists_job jobId
  obtain ⟨placement, failures⟩ := job
  cases placement <;> simp_all [Slot.ext_iff, slot, Job.toSlot]

/-- The expired leases are those whose deadline is not after the time. -/
theorem mem_expired_iff {entry : ℤ ×ₗ Bytes} :
    entry ∈ s.expired nowUs ↔
      s.leased.score (ofLex entry).2 = some (ofLex entry).1 ∧ (ofLex entry).1 ≤ nowUs := by
  unfold expired
  rw [SortedSet.rangeByScore, List.mem_filter, SortedSet.mem_entries_iff, decide_eq_true_iff]

/-- No lease has expired when all deadlines are later. -/
theorem expired_eq_nil_iff :
    s.expired nowUs = [] ↔
      ∀ jobId deadline, s.leased.score jobId = some deadline → nowUs < deadline := by
  rw [List.eq_nil_iff_forall_not_mem]
  constructor
  · intro hnone jobId deadline hleased
    by_contra hle
    exact hnone (toLex (deadline, jobId)) (mem_expired_iff.mpr ⟨hleased, not_lt.mp hle⟩)
  · intro hlater entry hentry
    obtain ⟨hleased, hle⟩ := mem_expired_iff.mp hentry
    exact (hlater _ _ hleased).not_ge hle

/-- The jobs of the first expired leases are those that a reap takes. -/
theorem mem_reaped_iff {limit : ℕ} {jobId : Bytes} :
    jobId ∈ s.reaped nowUs limit ↔
      ∃ entry ∈ (s.expired nowUs).take limit, (ofLex entry).2 = jobId := List.mem_map

/-- What a reap leaves, and what it answers. -/
theorem next_reapExpired (s : Store) (now : Timestamp) (limit : ℕ) :
    s.next (.reapExpired now limit) = s.reapAll (Double.ofInt (micros now))
      (s.reaped (Double.ofInt (micros now)) limit) := by
  rw [next, exec_reapExpired]

/-- A reap takes the leases that it finds expired. -/
theorem leased_of_reaped {jobId : Bytes} {now : Timestamp} {limit : ℕ}
    (hreaped : jobId ∈ s.reaped (Double.ofInt (micros now)) limit) :
    (s.next (.reapExpired now limit)).leased.score jobId = none := by
  rw [next_reapExpired]
  exact (congrArg Slot.leased (slot_reapAll _ s jobId)).trans (by rw [if_pos hreaped])

/-- A reap leaves the other jobs as they are. -/
theorem slot_of_not_reaped {jobId : Bytes} {now : Timestamp} {limit : ℕ}
    (hother : jobId ∉ s.reaped (Double.ofInt (micros now)) limit) :
    (s.next (.reapExpired now limit)).slot jobId = s.slot jobId := by
  rw [next_reapExpired, slot_reapAll, if_neg hother]

/-- Reaping again takes the next expired leases back. -/
theorem expired_iterate (now : Timestamp) (limit calls : ℕ) (s : Store) :
    ((fun s => s.next (.reapExpired now limit))^[calls] s).expired (Double.ofInt (micros now)) =
      (s.expired (Double.ofInt (micros now))).drop (calls * limit) := by
  induction calls generalizing s with
  | zero => rw [Nat.zero_mul]; rfl
  | succ calls ih =>
      have hnext : (s.next (.reapExpired now limit)).expired (Double.ofInt (micros now)) =
          (s.expired (Double.ofInt (micros now))).drop limit := by
        rw [next_reapExpired, expired_reapAll]
      rw [Function.iterate_succ_apply, ih, hnext, List.drop_drop, Nat.succ_mul, Nat.add_comm]

/-- A reap at a time that a double holds takes the oldest expired leases back. -/
theorem reapsOldest_of_exact (hwf : s.WellFormed) (namespaceName : Bytes) {now : Timestamp}
    {limit : ℕ} (hexact : Double.ofInt (micros now) = micros now)
    (hcount : min limit (s.expired (micros now)).length < 10 ^ 14) :
    s.ReapsOldest namespaceName now limit := by
  have hnext : s.next (.reapExpired now limit) =
      s.reapAll (micros now) (s.reaped (micros now) limit) := by
    rw [next_reapExpired, hexact]
  have hkept {jobId : Bytes} (hother : jobId ∉ s.reaped (micros now) limit) :
      (s.next (.reapExpired now limit)).slot jobId = s.slot jobId :=
    slot_of_not_reaped (by rwa [hexact])
  obtain ⟨hscheduled, hfailed, hfailures⟩ :=
    s.reapAll_frame (micros now) (s.reaped (micros now) limit)
  constructor
  case moved =>
    intro entry hentry
    obtain ⟨hleased, _⟩ := mem_expired_iff.mp (List.mem_of_mem_take hentry)
    obtain ⟨hunscheduled, hunfailed⟩ := hwf.slot_of_leased hleased
    rw [hnext, slot_reapAll, if_pos (mem_reaped_iff.mpr ⟨entry, hentry, rfl⟩)]
    dsimp only
    rw [hunscheduled, hunfailed]
    rfl
  case kept =>
    intro jobId hother
    apply hkept
    intro hreaped
    obtain ⟨entry, hentry, hjob⟩ := mem_reaped_iff.mp hreaped
    exact hother entry hentry hjob
  case unexpired =>
    intro jobId deadline hleased hlater
    apply hkept
    intro hreaped
    obtain ⟨entry, hentry, rfl⟩ := mem_reaped_iff.mp hreaped
    obtain ⟨hscore, hle⟩ := mem_expired_iff.mp (List.mem_of_mem_take hentry)
    cases hleased.symm.trans hscore
    exact absurd hle hlater.not_ge
  case failures => rw [hnext, hfailures]
  case scheduled => rw [hnext, hscheduled]
  case failed => rw [hnext, hfailed]
  case counters =>
    intro workerId
    rw [hnext, workersLeases_reapAll (s.nodup_reaped _ _), Hash.lookup_decrementAll,
      List.count_filterMap, reaped, List.countP_map]
    apply congrArg (countDown _)
    apply List.countP_congr
    intro entry _
    exact beq_iff_eq.trans decide_eq_true_iff.symm
  case counted =>
    rw [reply, exec_reapExpired, hexact, length_reaped]
    exact (parseReapResponse_generalText namespaceName _).mpr hcount
  case cleared =>
    intro hlimit jobId deadline hleased
    refine expired_eq_nil_iff.mp ?_ jobId deadline hleased
    have hrest := expired_iterate now limit
      (((s.expired (micros now)).length + limit - 1) / limit) s
    rw [hexact] at hrest
    rw [hrest, List.drop_eq_nil_of_le (le_ceil_mul _ hlimit)]

/-- A reap without anything to do owes nothing. -/
theorem reapsOldest_of_idle (namespaceName : Bytes) {now : Timestamp} {limit : ℕ}
    (hnone : (s.expired (micros now)).take limit = [])
    (hidle : s.reaped (Double.ofInt (micros now)) limit = []) :
    s.ReapsOldest namespaceName now limit := by
  have hnext : s.next (.reapExpired now limit) = s := by
    rw [next_reapExpired, hidle]
    rfl
  have hlength : min limit (s.expired (micros now)).length = 0 := by
    rw [← List.length_take, hnone, List.length_nil]
  constructor
  case moved => simp [hnone]
  case kept => exact fun _ _ => by rw [hnext]
  case unexpired => exact fun _ _ _ _ => by rw [hnext]
  case failures => rw [hnext]
  case scheduled => rw [hnext]
  case failed => rw [hnext]
  case counters =>
    intro workerId
    rw [hnext, hnone]
    rfl
  case counted =>
    rw [reply, exec_reapExpired, hidle, hlength]
    exact (parseReapResponse_generalText namespaceName 0).mpr (by decide)
  case cleared =>
    intro hlimit jobId deadline hleased
    have hexpired : s.expired (micros now) = [] := by
      apply List.eq_nil_of_length_eq_zero
      omega
    rw [hexpired, List.length_nil, Nat.zero_add, Nat.div_eq_of_lt (by omega)] at hleased
    exact expired_eq_nil_iff.mp hexpired jobId deadline hleased

/-- A reap that has something to do, and does what it owes, reads its time as it is. -/
theorem ReapsOldest.exact {namespaceName : Bytes} {now : Timestamp} {limit : ℕ}
    (hreaps : s.ReapsOldest namespaceName now limit) (hlimit : limit ≠ 0)
    (hexpired : s.expired (max (micros now) (Double.ofInt (micros now))) ≠ []) :
    Double.ofInt (micros now) = micros now := by
  obtain ⟨limit, rfl⟩ := Nat.exists_eq_succ_of_ne_zero hlimit
  cases hfirst : s.expired (micros now) with
  | cons entry rest =>
      -- the oldest lease is ready since the time that the script reads
      have hmem : entry ∈ (s.expired (micros now)).take (limit + 1) := by simp [hfirst]
      have hmoved := hreaps.moved entry hmem
      obtain ⟨hleased, _⟩ := mem_expired_iff.mp (List.mem_of_mem_take hmem)
      by_cases hreaped : (ofLex entry).2 ∈ s.reaped (Double.ofInt (micros now)) (limit + 1)
      · have hready := congrArg Slot.ready hmoved
        rw [next_reapExpired, slot_reapAll, if_pos hreaped] at hready
        exact Option.some.inj hready
      · rw [slot_of_not_reaped hreaped] at hmoved
        cases hleased.symm.trans (congrArg Slot.leased hmoved)
  | nil =>
      -- a lease that has not expired is taken
      have hlater := expired_eq_nil_iff.mp hfirst
      obtain ⟨entry, hentry⟩ := List.exists_mem_of_ne_nil _ hexpired
      obtain ⟨hleased, hle⟩ := mem_expired_iff.mp hentry
      have hdue : s.expired (Double.ofInt (micros now)) ≠ [] := by
        apply List.ne_nil_of_mem (a := entry)
        apply mem_expired_iff.mpr ⟨hleased, ?_⟩
        exact (le_max_iff.mp hle).resolve_left (hlater _ _ hleased).not_ge
      obtain ⟨oldest, rest, holdest⟩ := List.exists_cons_of_ne_nil hdue
      have hmem : oldest ∈ (s.expired (Double.ofInt (micros now))).take (limit + 1) := by
        simp [holdest]
      obtain ⟨hleased, _⟩ := mem_expired_iff.mp (List.mem_of_mem_take hmem)
      have hkept := hreaps.unexpired _ _ hleased (hlater _ _ hleased)
      have htaken := leased_of_reaped (mem_reaped_iff.mpr ⟨oldest, hmem, rfl⟩)
      cases (htaken.symm.trans (congrArg Slot.leased hkept)).trans hleased

/-- From a well-formed store, a reap takes the oldest expired leases back, as many as its limit
allows, and reaping again clears them, exactly when it has nothing to do or reads its time as it
is and counts at most 14 digits. -/
theorem reap_takes_oldest_iff (hwf : s.WellFormed) (namespaceName : Bytes) (now : Timestamp)
    (limit : ℕ) : s.ReapsOldest namespaceName now limit ↔ s.ReapsExactly now limit := by
  constructor
  · intro hreaps
    by_cases hlimit : limit = 0
    · exact Or.inl hlimit
    by_cases hexpired : s.expired (max (micros now) (Double.ofInt (micros now))) = []
    · exact Or.inr (Or.inl hexpired)
    have hexact := hreaps.exact hlimit hexpired
    refine Or.inr (Or.inr ⟨hexact, ?_⟩)
    have hcounted := hreaps.counted
    rw [reply, exec_reapExpired, hexact, length_reaped] at hcounted
    exact (parseReapResponse_generalText namespaceName _).mp hcounted
  · rintro (rfl | hexpired | ⟨hexact, hcount⟩)
    · exact reapsOldest_of_idle namespaceName List.take_zero rfl
    · have hlater := expired_eq_nil_iff.mp hexpired
      have hnone : s.expired (micros now) = [] := expired_eq_nil_iff.mpr
        fun jobId deadline hleased => (le_max_left _ _).trans_lt (hlater jobId deadline hleased)
      have hidle : s.expired (Double.ofInt (micros now)) = [] := expired_eq_nil_iff.mpr
        fun jobId deadline hleased => (le_max_right _ _).trans_lt (hlater jobId deadline hleased)
      exact reapsOldest_of_idle namespaceName (by rw [hnone, List.take_nil])
        (by rw [reaped, hidle, List.take_nil, List.map_nil])
    · exact reapsOldest_of_exact hwf namespaceName hexact hcount

/-- Three jobs are leased, two by one worker and one by another. -/
def sampleLeasesRun : List Op :=
  [.enqueue ⟨"first", none, .always, true⟩ (.ofSeconds 61),
    .enqueue ⟨"second", none, .always, true⟩ (.ofSeconds 62),
    .enqueue ⟨"third", none, .always, true⟩ (.ofSeconds 63),
    .reserve sampleConfig 2 (.ofSeconds 64) ["one", "two"],
    .reserve { sampleConfig with workerId := "other" } 1 (.ofSeconds 65) ["three"]]

/-- A reap of at most two leases takes the two oldest of the three that have expired. -/
theorem reap_takes_oldest_sample :
    ((empty.run sampleLeasesRun).expired (micros (.ofSeconds 100))).length = 3 ∧
      (empty.run sampleLeasesRun).ReapsOldest "jobs" (.ofSeconds 100) 2 := by
  have hwf : (empty.run sampleLeasesRun).WellFormed := (storesWf_run (by decide)).wellFormed
  have hcount : min 2 ((empty.run sampleLeasesRun).expired (micros (.ofSeconds 100))).length <
      10 ^ 14 := (min_le_left _ _).trans_lt (by decide)
  exact ⟨by decide, (reap_takes_oldest_iff hwf "jobs" (.ofSeconds 100) 2).mpr
    (Or.inr (Or.inr ⟨by decide, hcount⟩))⟩

/-- A time that its double is one microsecond after. -/
def earlyReapTime : Timestamp :=
  ⟨9007199254740995000, by unfold minTimestampNanos maxTimestampNanos; omega⟩

/-- A time at which the sample worker reserves until one microsecond after that time. -/
def lateReserveTime : Timestamp :=
  ⟨9007199224740996000, by unfold minTimestampNanos maxTimestampNanos; omega⟩

/-- A job is leased until one microsecond after the reap. -/
def lateLeaseRun : List Op :=
  [.enqueue ⟨"job", none, .always, true⟩ (.ofSeconds 66)] ++
    [.reserve sampleConfig 1 lateReserveTime ["token"]]

/-- A reap takes a lease one microsecond before its deadline. -/
theorem earlyReap_not_reapsOldest :
    (empty.run lateLeaseRun).WellFormed ∧
      ¬ (empty.run lateLeaseRun).ReapsOldest "jobs" earlyReapTime 1 := by
  refine ⟨(storesWf_run (by decide)).wellFormed, fun hreaps => ?_⟩
  have hkept := hreaps.unexpired "job" 9007199254740996 (by decide) (by decide)
  exact absurd (congrArg Slot.leased hkept) (by decide)

end Store

end Redloop
