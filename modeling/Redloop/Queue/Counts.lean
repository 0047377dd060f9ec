/-
# What the counts say

Every job that the namespace knows belongs to one of the five figures. The figures are read
one after the other, while jobs move from one to another, so their sum can differ from the
number of the known jobs, but by no more than the number of moves between the reads. When
nothing moves the counts are exact, and they tell how many jobs a reserve can lease.
-/

import Redloop.Data.Census
import Redloop.Queue.Conservation
import Redloop.Queue.Grants
import Redloop.Queue.Reaping
import Redloop.Queue.Splitting
import Redloop.Store.Counts

namespace Redloop

/-- The figures of the counts. -/
inductive QueueFigure
  | ready
  | scheduledDue
  | scheduledFuture
  | leased
  | failed
  deriving DecidableEq

/-- The scores that a figure counts at a time. -/
def QueueFigure.bound (figure : QueueFigure) (nowUs score : ℤ) : Bool :=
  match figure with
  | .scheduledDue => score ≤ nowUs
  | .scheduledFuture => nowUs < score
  | _ => true

/-- The figures in the order in which they are read, with what other clients do after each. -/
def BetweenCounts.reads (between : BetweenCounts) : List (QueueFigure × List Op) :=
  [(.ready, between.afterReady), (.scheduledDue, between.afterDue),
    (.scheduledFuture, between.afterFuture), (.leased, between.afterLeased), (.failed, [])]

/-- How many jobs an operation can move: its job, or as many as it asks for. -/
def Op.reach : Op → ℕ
  | reserve _ availableCapacity _ _ => availableCapacity
  | reapExpired _ limit => limit
  | purgeFailedDelete jobIds => jobIds.length
  | heartbeat .. | purgeFailedRead _ | workersCleanup _ => 0
  | _ => 1

/-- A reserve changes at most one job in each round. -/
theorem ReserveRun.exists_touched {args : ReserveArgs} {rounds : ℕ} {tokens : List Bytes}
    {jobs jobs' : Bytes → Job} {granted : List GrantedLease}
    (hrun : ReserveRun args rounds tokens jobs granted jobs') :
    ∃ touched : List Bytes, touched.length ≤ rounds ∧
      ∀ jobId ∉ touched, jobs' jobId = jobs jobId := by
  induction hrun with
  | done => exact ⟨[], Nat.zero_le _, fun _ _ => rfl⟩
  | @outOfTokens rounds jobs lostId _ =>
      refine ⟨[lostId], Nat.succ_le_succ (Nat.zero_le _), fun jobId hnot => ?_⟩
      exact Function.update_of_ne (List.ne_of_not_mem_cons hnot) _ _
  | @grant rounds token tokens jobs jobs' leasedId granted _ _ ih =>
      obtain ⟨touched, hlength, hkept⟩ := ih
      refine ⟨leasedId :: touched, Nat.succ_le_succ hlength, fun jobId hnot => ?_⟩
      rw [hkept jobId (List.not_mem_of_not_mem_cons hnot),
        Function.update_of_ne (List.ne_of_not_mem_cons hnot)]

namespace Store

/-- The jobs that the namespace knows. -/
def knownJobs (s : Store) : Finset Bytes :=
  s.ready.members ∪ s.scheduled.members ∪ s.leased.members ∪ s.failed.members

/-- The jobs that the namespace knows at some time of a run. -/
def everKnown (s : Store) : List Op → Finset Bytes
  | [] => s.knownJobs
  | op :: ops => s.knownJobs ∪ (s.next op).everKnown ops

/-- The figure that a job belongs to at a time. -/
def figure? (s : Store) (nowUs : ℤ) (jobId : Bytes) : Option QueueFigure :=
  match (s.currentState jobId).1 with
  | none => none
  | some .ready => some .ready
  | some .scheduled =>
      if (s.currentState jobId).2 ≤ nowUs then some .scheduledDue else some .scheduledFuture
  | some .leased => some .leased
  | some .failed => some .failed

/-- The set in which the jobs of a figure are. -/
def figureSet (s : Store) : QueueFigure → ZSet
  | .ready => s.ready
  | .scheduledDue | .scheduledFuture => s.scheduled
  | .leased => s.leased
  | .failed => s.failed

/-- What is read for a figure: how many jobs of its set have a score within its bound. -/
def readFigure (s : Store) (nowUs : ℤ) (figure : QueueFigure) : ℕ :=
  zcount (s.figureSet figure) (figure.bound nowUs)

/-- How many times a job changes its figure in a run. -/
def moves (s : Store) (nowUs : ℤ) (ops : List Op) : ℕ :=
  movesOf next (fun s => s.figure? nowUs) (s.everKnown ops) s ops

variable {s : Store} {jobs : Bytes → Job} {items : Finset Bytes} {nowUs : ℤ} {jobId : Bytes}

/-! ## The figure of a job -/

theorem mem_knownJobs : jobId ∈ s.knownJobs ↔ s.Known jobId := by
  simp only [knownJobs, Finset.mem_union, SortedSet.mem_members, Known, or_assoc]

/-- The figure of a job depends on what the store holds for it. -/
theorem figure?_congr {s' : Store} (hslot : s'.slot jobId = s.slot jobId) :
    s'.figure? nowUs jobId = s.figure? nowUs jobId := by
  have hcurrent : s'.currentState jobId = s.currentState jobId := by
    simp only [slot, Slot.mk.injEq] at hslot
    obtain ⟨hready, hscheduled, hleased, hfailed, _⟩ := hslot
    rw [currentState, currentState, hready, hscheduled, hleased, hfailed]
  rw [figure?, figure?, hcurrent]

/-- The figure of a job says where it is placed. -/
theorem figure?_eq (hrefines : Refines s jobs) (nowUs : ℤ) (jobId : Bytes) :
    s.figure? nowUs jobId =
      match (jobs jobId).placement with
      | .absent => none
      | .ready _ => some .ready
      | .scheduled score => if score ≤ nowUs then some .scheduledDue else some .scheduledFuture
      | .leased _ _ _ _ => some .leased
      | .failed _ => some .failed := by
  rw [figure?, currentState_eq (hrefines.slot_eq jobId)]
  cases (jobs jobId).placement <;> rfl

/-- A job has a figure when it is known. -/
theorem isSome_figure?_iff (hrefines : Refines s jobs) (nowUs : ℤ) :
    (s.figure? nowUs jobId).isSome ↔ s.Known jobId := by
  rw [figure?_eq hrefines, known_iff (hrefines.slot_eq jobId), Job.IsPlaced]
  cases (jobs jobId).placement with
  | scheduled score => simp only [ne_eq, reduceCtorEq, not_false_eq_true]; split_ifs <;> simp
  | _ => simp

/-! ## What is read for a figure -/

/-- A job belongs to a figure when it is in its set with a score within its bound. -/
theorem figure?_eq_some_iff (hrefines : Refines s jobs) {figure : QueueFigure} :
    s.figure? nowUs jobId = some figure ↔
      ∃ score, (s.figureSet figure).score jobId = some score ∧ figure.bound nowUs score := by
  have hslot := hrefines.slot_eq jobId
  rw [figure?_eq hrefines]
  simp only [Slot.ext_iff, slot, Job.toSlot] at hslot
  cases hplacement : (jobs jobId).placement with
  | scheduled score =>
      simp only [hplacement] at hslot
      cases figure <;> simp [figureSet, QueueFigure.bound, hslot] <;> split_ifs <;> simp_all
  | _ =>
      simp only [hplacement] at hslot
      cases figure <;> simp [figureSet, QueueFigure.bound, hslot]

/-- A figure is read as the number of the jobs that belong to it. -/
theorem readFigure_eq (hrefines : Refines s jobs) (hitems : s.knownJobs ⊆ items)
    (figure : QueueFigure) :
    s.readFigure nowUs figure =
      (items.filter fun jobId => s.figure? nowUs jobId = some figure).card := by
  have hnodup : (((s.figureSet figure).rangeByScore (figure.bound nowUs)).map
      fun entry => (ofLex entry).2).Nodup :=
    (s.figureSet figure).members_nodup.sublist (List.filter_sublist.map _)
  rw [readFigure, zcount, ← List.length_map, ← List.toFinset_card_of_nodup hnodup]
  congr 1
  ext jobId
  rw [List.mem_toFinset, List.mem_map, Finset.mem_filter]
  constructor
  · rintro ⟨entry, hmem, rfl⟩
    obtain ⟨hentry, hbound⟩ := List.mem_filter.mp hmem
    have hfigure : s.figure? nowUs (ofLex entry).2 = some figure :=
      (figure?_eq_some_iff hrefines).mpr ⟨_, SortedSet.mem_entries_iff.mp hentry, hbound⟩
    have hknown : s.Known (ofLex entry).2 :=
      (isSome_figure?_iff hrefines nowUs).mp (Option.isSome_of_eq_some hfigure)
    exact ⟨hitems (mem_knownJobs.mpr hknown), hfigure⟩
  · rintro ⟨_, hfigure⟩
    obtain ⟨score, hscore, hbound⟩ := (figure?_eq_some_iff hrefines).mp hfigure
    exact ⟨toLex (score, jobId),
      List.mem_filter.mpr ⟨SortedSet.score_eq_some_iff.mp hscore, hbound⟩, rfl⟩

/-! ## Counting while jobs move -/

/-- The jobs known at a time of a run are among those known at some time. -/
theorem everKnown_run_subset (s : Store) (first rest : List Op) :
    (s.run first).everKnown rest ⊆ s.everKnown (first ++ rest) := by
  induction first generalizing s with
  | nil => exact subset_rfl
  | cons op first ih => exact (ih (s.next op)).trans Finset.subset_union_right

theorem knownJobs_subset_everKnown (s : Store) (ops : List Op) :
    s.knownJobs ⊆ s.everKnown ops := by
  cases ops with
  | nil => exact subset_rfl
  | cons op ops => exact Finset.subset_union_left

/-- What is read for the figures in turn. -/
def readAlong (nowUs : ℤ) : Store → List (QueueFigure × List Op) → ℕ
  | _, [] => 0
  | s, (figure, ops) :: rest => s.readFigure nowUs figure + readAlong nowUs (s.run ops) rest

/-- What is read in turn are the numbers of jobs that belong to the figures at the time. -/
theorem readAlong_eq (hrefines : Refines s jobs) (counts : List (QueueFigure × List Op))
    (hitems : s.everKnown (counts.flatMap Prod.snd) ⊆ items) :
    readAlong nowUs s counts =
      ((readingsAlong next (fun s => s.figure? nowUs) s counts).map fun reading =>
        reading.count items).sum := by
  induction counts generalizing s jobs with
  | nil => rfl
  | cons count rest ih =>
      obtain ⟨figure, ops⟩ := count
      have hknown : s.knownJobs ⊆ items := (knownJobs_subset_everKnown s _).trans hitems
      obtain ⟨jobs', hrefines'⟩ : ∃ jobs', Refines (s.run ops) jobs' := hrefines.exists_run ops
      rw [readAlong, readFigure_eq hrefines hknown, ih hrefines']
      · rfl
      · exact (everKnown_run_subset s ops _).trans hitems

/-! ## What an operation moves -/

/-- A heartbeat moves no job. -/
theorem figure?_next_heartbeat (hrefines : Refines s jobs)
    (workerId leasedId leaseToken : Bytes) (now : Timestamp) (leaseDuration : Duration)
    (jobId : Bytes) :
    (s.next (.heartbeat workerId leasedId leaseToken now leaseDuration)).figure? nowUs jobId =
      s.figure? nowUs jobId := by
  obtain ⟨jobs', hrefines', hstep⟩ :=
    exec_refines hrefines (.heartbeat workerId leasedId leaseToken now leaseDuration)
  have hjob := (jobStep_of_target rfl).mp (hstep jobId)
  rw [figure?_eq hrefines, figure?_eq hrefines']
  split_ifs at hjob with hother
  · rw [hjob.1]
    cases houtcome : (Op.heartbeat workerId leasedId leaseToken now leaseDuration).outcome
        (jobs jobId) with
    | none => rfl
    | some job =>
        obtain ⟨deadline, rerun, hplacement, rfl⟩ := Job.asHolder_eq_some_iff.mp houtcome
        rw [hplacement]
        rfl
  · rw [hjob]

/-- The jobs outside of those that an operation reaches for keep their figures. -/
theorem exists_touched (hrefines : Refines s jobs) (nowUs : ℤ) (op : Op) :
    ∃ touched : List Bytes, touched.length ≤ op.reach ∧
      ∀ jobId ∉ touched, (s.next op).figure? nowUs jobId = s.figure? nowUs jobId := by
  have htarget {target : Bytes} (hop : op.target = some target) :
      ∀ jobId ∉ [target], (s.next op).figure? nowUs jobId = s.figure? nowUs jobId := by
    intro jobId hnot
    exact figure?_congr (slot_next_of_ne_target hrefines hop (List.ne_of_not_mem_cons hnot))
  cases op with
  | enqueue request now => exact ⟨_, le_rfl, htarget rfl⟩
  | reschedule jobId scheduleAt now => exact ⟨_, le_rfl, htarget rfl⟩
  | operator op jobId now => exact ⟨_, le_rfl, htarget rfl⟩
  | heartbeat workerId jobId leaseToken now leaseDuration =>
      exact ⟨[], le_rfl, fun _ _ => figure?_next_heartbeat hrefines _ _ _ _ _ _⟩
  | ack workerId jobId leaseToken now => exact ⟨_, le_rfl, htarget rfl⟩
  | completeAndReschedule workerId jobId leaseToken scheduleAt now =>
      exact ⟨_, le_rfl, htarget rfl⟩
  | failOrRetry request => exact ⟨_, le_rfl, htarget rfl⟩
  | reserve config availableCapacity now leaseTokens =>
      by_cases hcapacity : availableCapacity = 0
      · refine ⟨[], Nat.zero_le _, fun jobId _ => ?_⟩
        rw [next, exec, if_pos hcapacity]
      · obtain ⟨jobs', granted, hrun, hrefines', _⟩ := reserve_refines hrefines
          (reserveArgs config availableCapacity now leaseTokens)
        obtain ⟨touched, hlength, hkept⟩ := hrun.exists_touched
        refine ⟨touched, hlength, fun jobId hnot => figure?_congr ?_⟩
        rw [next, exec, if_neg hcapacity]
        exact slot_eq_of_refines hrefines hrefines' (hkept jobId hnot)
  | reapExpired now limit =>
      refine ⟨s.reaped (Double.ofInt (micros now)) limit, ?_, fun jobId hnot => figure?_congr ?_⟩
      · rw [reaped, List.length_map]
        exact List.length_take_le _ _
      · rw [next, exec_reapExpired, slot_reapAll, if_neg hnot]
  | purgeFailedRead selector => exact ⟨[], le_rfl, fun _ _ => rfl⟩
  | purgeFailedDelete jobIds =>
      exact ⟨jobIds, le_rfl, fun _ hnot =>
        figure?_congr (slot_next_purgeFailedDelete hrefines hnot)⟩
  | workersCleanup workerIds => exact ⟨[], le_rfl, fun _ _ => rfl⟩

/-- An operation moves at most the jobs that it reaches for. -/
theorem card_moved_next_le (hrefines : Refines s jobs) (nowUs : ℤ) (items : Finset Bytes)
    (op : Op) : (moved items (s.figure? nowUs) ((s.next op).figure? nowUs)).card ≤ op.reach := by
  obtain ⟨touched, hlength, hkept⟩ := exists_touched hrefines nowUs op
  calc (moved items (s.figure? nowUs) ((s.next op).figure? nowUs)).card
      ≤ touched.toFinset.card := by
        apply Finset.card_le_card
        intro jobId hmem
        rw [List.mem_toFinset]
        by_contra hnot
        exact (Finset.mem_filter.mp hmem).2 (hkept jobId hnot)
    _ ≤ touched.length := touched.toFinset_card_le
    _ ≤ op.reach := hlength

/-- A run moves at most the jobs that its operations reach for. -/
theorem movesOf_le (hrefines : Refines s jobs) (nowUs : ℤ) (items : Finset Bytes)
    (ops : List Op) :
    movesOf next (fun s => s.figure? nowUs) items s ops ≤ (ops.map Op.reach).sum := by
  induction ops generalizing s jobs with
  | nil => exact le_rfl
  | cons op ops ih =>
      obtain ⟨jobs', hrefines', _⟩ := exec_refines hrefines op
      exact Nat.add_le_add (card_moved_next_le hrefines nowUs items op) (ih hrefines')

/-! ## The counts -/

/-- The counts are what is read for the figures in turn. -/
theorem total_countsDuring (s : Store) (between : BetweenCounts) (now : Timestamp) :
    (s.countsDuring between now).total =
      readAlong (Double.ofInt (micros now)) s between.reads := by
  have hcard (set : ZSet) : set.card = zcount set (fun _ => true) := by
    rw [zcount, SortedSet.rangeByScore_true]
    rfl
  simp only [countsDuring, QueueCounts.total, hcard, Nat.add_assoc]
  rfl

/-- All known jobs belong to a figure that is read. -/
theorem toCount_reads_iff (hrefines : Refines s jobs) (between : BetweenCounts) :
    ToCount (readingsAlong next (fun s => s.figure? nowUs) s between.reads)
      (s.figure? nowUs jobId) ↔ s.Known jobId := by
  rw [toCount_iff, counted_readingsAlong, ← isSome_figure?_iff hrefines nowUs]
  cases s.figure? nowUs jobId with
  | none => simp
  | some figure => cases figure <;> simp [BetweenCounts.reads]

/-- The counts differ from the number of the jobs that were known when they began by at most
the moves between the reads, and an operation moves at most the jobs that it reaches for. -/
theorem counts_within_moves (before : List Op) (between : BetweenCounts) (now : Timestamp) :
    let s := empty.run before
    let moves := s.moves (Double.ofInt (micros now)) between.ops
    let total := (s.countsDuring between now).total
    total ≤ s.knownJobs.card + moves ∧ s.knownJobs.card ≤ total + moves ∧
      moves ≤ (between.ops.map Op.reach).sum := by
  intro s moves total
  let nowUs := Double.ofInt (micros now)
  let place (s : Store) : Bytes → Option QueueFigure := s.figure? nowUs
  let items := s.everKnown between.ops
  let readings := readingsAlong next place s between.reads
  obtain ⟨jobs, hrefines⟩ : ∃ jobs, Refines s jobs := exists_refines_run before
  have hops : between.reads.flatMap Prod.snd = between.ops := by
    simp [BetweenCounts.reads, BetweenCounts.ops]
  have htotal : total = (readings.map fun reading => reading.count items).sum :=
    (total_countsDuring s between now).trans (readAlong_eq hrefines _ (by rw [hops]))
  have hmoves : totalMoved items (place s) readings ≤ moves := by
    have hle := totalMoved_readingsAlong_le next place items s [] between.reads
    rwa [List.nil_append, hops] at hle
  have hnodup : (readings.map Reading.counted).Nodup := by
    have hfigures : between.reads.map Prod.fst =
      [.ready, .scheduledDue, .scheduledFuture, .leased, .failed] := rfl
    rw [counted_readingsAlong, hfigures]
    decide
  have hknown : (items.filter fun jobId => ToCount readings (place s jobId)) = s.knownJobs := by
    ext jobId
    rw [Finset.mem_filter, toCount_reads_iff hrefines, mem_knownJobs]
    exact and_iff_right_of_imp fun hjob =>
      knownJobs_subset_everKnown s _ (mem_knownJobs.mpr hjob)
  rw [htotal, ← hknown]
  refine ⟨?_, ?_, movesOf_le hrefines nowUs items between.ops⟩
  · exact (sum_count_le hnodup).trans (Nat.add_le_add_left hmoves _)
  · exact card_le_sum_count.trans (Nat.add_le_add_left hmoves _)

/-- A job that is leased between the reads of ready and of leased is counted twice. -/
example :
    ((empty.run [.enqueue ⟨"job", none, .always, true⟩ (.ofSeconds 1)]).countsDuring
      { BetweenCounts.none with
        afterReady := [.reserve sampleConfig 1 (.ofSeconds 2) ["token"]] }
      (.ofSeconds 2)).total = 2 := by
  decide

/-! ## Counts around a reserve -/

variable {config : WorkerConfig} {availableCapacity : ℕ} {now : Timestamp}
  {leaseTokens : List Bytes}

/-- The jobs that a reserve leases. -/
def leasedBy (s : Store) (op : Op) : List Bytes := (s.reply op).leases.map Prod.fst

/-- No job is leased twice by one reserve. -/
theorem nodup_leasedBy (hrefines : Refines s jobs) (config : WorkerConfig)
    (availableCapacity : ℕ) (now : Timestamp) (leaseTokens : List Bytes) :
    (s.leasedBy (.reserve config availableCapacity now leaseTokens)).Nodup := by
  by_cases hcapacity : availableCapacity = 0
  · simp [leasedBy, reply, exec, hcapacity, Reply.leases, leasesOfTexts]
  · obtain ⟨_, granted, hrun, _, hleases⟩ := reserve_refines hrefines
      (reserveArgs config availableCapacity now leaseTokens)
    rw [leasedBy, reply, exec, if_neg hcapacity, hleases, List.map_map]
    exact hrun.nodup_jobIds

/-- A leased job was ready or due. -/
theorem figure?_of_mem_leasedBy (hrefines : Refines s jobs)
    (hmem : jobId ∈ s.leasedBy (.reserve config availableCapacity now leaseTokens)) :
    s.figure? (Double.ofInt (micros now)) jobId = some .ready ∨
      s.figure? (Double.ofInt (micros now)) jobId = some .scheduledDue := by
  by_cases hrefuses : s.registry.Refuses config.retryPolicyKey
  · rw [leasedBy, (reserve_of_refuses hrefuses _ _).2] at hmem
    cases hmem
  · rw [leasedBy, jobIds_leases hrefuses, candidates_eq_eligible hrefines] at hmem
    obtain ⟨candidate, htaken, rfl⟩ := List.mem_map.mp hmem
    rw [figure?_eq_some_iff hrefines, figure?_eq_some_iff hrefines]
    rcases mem_eligible.mp (List.mem_of_mem_take htaken) with ⟨_, hscore⟩ | ⟨_, hscore, hdue⟩
    · exact Or.inl ⟨_, hscore, rfl⟩
    · exact Or.inr ⟨_, hscore, decide_eq_true hdue⟩

/-- A reserve with its tokens moves the jobs that it leases to leased, and no other. -/
theorem figure?_next_reserve (hrefines : Refines s jobs)
    (htokens : availableCapacity ≤ leaseTokens.length) (nowUs : ℤ) (jobId : Bytes) :
    let op : Op := .reserve config availableCapacity now leaseTokens
    (s.next op).figure? nowUs jobId =
      if jobId ∈ s.leasedBy op then some .leased else s.figure? nowUs jobId := by
  intro op
  obtain ⟨jobs', hrefines', hstep⟩ := exec_refines hrefines op
  have hmem : jobId ∈ s.leasedBy op ↔ ∃ token, (jobId, token) ∈ (s.reply op).leases := by
    simp [leasedBy]
  rcases hstep jobId with ⟨hkept, hnone⟩ | ⟨_, token, _, hlease, _, hleased⟩ | ⟨_, _, _, hshort⟩
  · rw [if_neg (mt hmem.mp (not_exists.mpr hnone)), figure?_eq hrefines, figure?_eq hrefines',
      hkept]
  · rw [if_pos (hmem.mpr ⟨token, hlease⟩), figure?_eq hrefines', hleased]
    rfl
  · exact absurd htokens (not_le.mpr hshort)

/-- The counts of a store that nobody else changes are the figures of its jobs. -/
theorem counts_eq (s : Store) (now : Timestamp) :
    let nowUs := Double.ofInt (micros now)
    s.counts now =
      ⟨s.readFigure nowUs .ready, s.readFigure nowUs .scheduledDue,
        s.readFigure nowUs .scheduledFuture, s.readFigure nowUs .leased,
        s.readFigure nowUs .failed⟩ := by
  have hcard (set : ZSet) : set.card = zcount set (fun _ => true) := by
    rw [zcount, SortedSet.rangeByScore_true]
    rfl
  simp only [counts, countsDuring, BetweenCounts.none, run_nil, hcard]
  rfl

/-- A reserve leases the ready and due jobs up to its capacity. -/
theorem length_leases (hrefines : Refines s jobs)
    (hrefuses : ¬ s.registry.Refuses config.retryPolicyKey)
    (htokens : availableCapacity ≤ leaseTokens.length) :
    (s.reply (.reserve config availableCapacity now leaseTokens)).leases.length =
      min availableCapacity ((s.counts now).readyCount + (s.counts now).scheduledDueCount) := by
  have hjobs := congrArg List.length (jobIds_leases hrefuses availableCapacity now leaseTokens)
  rw [candidates_eq_eligible hrefines] at hjobs
  simp only [List.length_map, List.length_take, min_eq_left htokens, eligible,
    List.length_merge] at hjobs
  exact hjobs

/-- A figure is read as a sum over the jobs. -/
theorem readFigure_eq_sum (hrefines : Refines s jobs) (hitems : s.knownJobs ⊆ items)
    (figure : QueueFigure) :
    s.readFigure nowUs figure =
      ∑ jobId ∈ items, if s.figure? nowUs jobId = some figure then 1 else 0 := by
  rw [readFigure_eq hrefines hitems, Finset.card_filter]

/-- The leased jobs are counted among those that were known. -/
theorem length_leases_eq_sum (hrefines : Refines s jobs) (hitems : s.knownJobs ⊆ items) :
    let op : Op := .reserve config availableCapacity now leaseTokens
    (s.reply op).leases.length = ∑ jobId ∈ items, if jobId ∈ s.leasedBy op then 1 else 0 := by
  intro op
  have hleased : (items.filter (· ∈ s.leasedBy op)) = (s.leasedBy op).toFinset := by
    ext jobId
    rw [Finset.mem_filter, List.mem_toFinset]
    apply and_iff_right_of_imp
    intro hmem
    have hfigure : (s.figure? (Double.ofInt (micros now)) jobId).isSome := by
      rcases figure?_of_mem_leasedBy hrefines hmem with hready | hdue
      · exact Option.isSome_of_eq_some hready
      · exact Option.isSome_of_eq_some hdue
    exact hitems (mem_knownJobs.mpr ((isSome_figure?_iff hrefines _).mp hfigure))
  rw [← Finset.card_filter, hleased, List.toFinset_card_of_nodup (nodup_leasedBy hrefines _ _ _ _),
    leasedBy, List.length_map]

/-- A reserve leases as many jobs as the counts show as ready and due, up to its capacity, and
the counts show afterwards that exactly these have been moved to leased. -/
theorem counts_reserve (before : List Op) (config : WorkerConfig) {availableCapacity : ℕ}
    (now : Timestamp) {leaseTokens : List Bytes}
    (htokens : availableCapacity ≤ leaseTokens.length) :
    let s := empty.run before
    let op : Op := .reserve config availableCapacity now leaseTokens
    let leased := (s.reply op).leases.length
    let counts := s.counts now
    let after := (s.next op).counts now
    (¬ s.registry.Refuses config.retryPolicyKey →
        leased = min availableCapacity (counts.readyCount + counts.scheduledDueCount)) ∧
      after.readyCount + after.scheduledDueCount + leased =
        counts.readyCount + counts.scheduledDueCount ∧
      after.leasedCount = counts.leasedCount + leased ∧
      after.scheduledFutureCount = counts.scheduledFutureCount ∧
      after.failedCount = counts.failedCount := by
  intro s op leased counts after
  let nowUs := Double.ofInt (micros now)
  let items := s.knownJobs ∪ (s.next op).knownJobs
  obtain ⟨jobs, hrefines⟩ : ∃ jobs, Refines s jobs := exists_refines_run before
  obtain ⟨jobs', hrefines', _⟩ := exec_refines hrefines op
  have hknown : s.knownJobs ⊆ items := Finset.subset_union_left
  have hlater : (s.next op).knownJobs ⊆ items := Finset.subset_union_right
  have hcounts (figure : QueueFigure) : s.readFigure nowUs figure = _ :=
    readFigure_eq_sum hrefines hknown figure
  have hafter (figure : QueueFigure) : (s.next op).readFigure nowUs figure = _ :=
    readFigure_eq_sum hrefines' hlater figure
  have hleased : leased = ∑ jobId ∈ items, if jobId ∈ s.leasedBy op then 1 else 0 :=
    length_leases_eq_sum hrefines hknown
  have hmoved (jobId : Bytes) :
      (jobId ∈ s.leasedBy op ∧ (s.next op).figure? nowUs jobId = some .leased ∧
        (s.figure? nowUs jobId = some .ready ∨ s.figure? nowUs jobId = some .scheduledDue)) ∨
      (jobId ∉ s.leasedBy op ∧ (s.next op).figure? nowUs jobId = s.figure? nowUs jobId) := by
    have hfigure : (s.next op).figure? nowUs jobId = _ :=
      figure?_next_reserve hrefines htokens nowUs jobId
    by_cases hmem : jobId ∈ s.leasedBy op
    · exact Or.inl ⟨hmem, hfigure.trans (if_pos hmem), figure?_of_mem_leasedBy hrefines hmem⟩
    · exact Or.inr ⟨hmem, hfigure.trans (if_neg hmem)⟩
  have hkept (figure : QueueFigure) (hother : figure = .scheduledFuture ∨ figure = .failed) :
      (s.next op).readFigure nowUs figure = s.readFigure nowUs figure := by
    rw [hcounts, hafter]
    refine Finset.sum_congr rfl fun jobId _ => ?_
    rcases hmoved jobId with ⟨_, hnow, hwas | hwas⟩ | ⟨_, hsame⟩
    · rcases hother with rfl | rfl <;> simp [hnow, hwas]
    · rcases hother with rfl | rfl <;> simp [hnow, hwas]
    · rw [hsame]
  simp only [after, counts, counts_eq]
  refine ⟨fun hrefuses => ?_, ?_, ?_, hkept _ (Or.inl rfl), hkept _ (Or.inr rfl)⟩
  · have hlength : leased = min availableCapacity _ := length_leases hrefines hrefuses htokens
    rwa [counts_eq] at hlength
  · rw [hcounts, hcounts, hafter, hafter, hleased, ← Finset.sum_add_distrib,
      ← Finset.sum_add_distrib, ← Finset.sum_add_distrib]
    refine Finset.sum_congr rfl fun jobId _ => ?_
    rcases hmoved jobId with ⟨hmem, hnow, hwas | hwas⟩ | ⟨hnot, hsame⟩
    · simp [hmem, hnow, hwas]
    · simp [hmem, hnow, hwas]
    · simp [hnot, hsame]
  · rw [hcounts, hafter, hleased, ← Finset.sum_add_distrib]
    refine Finset.sum_congr rfl fun jobId _ => ?_
    rcases hmoved jobId with ⟨hmem, hnow, hwas | hwas⟩ | ⟨hnot, hsame⟩
    · simp [hmem, hnow, hwas]
    · simp [hmem, hnow, hwas]
    · simp [hnot, hsame]

/-- A worker reserves two of four jobs, of which one is ready, two are due and one is not. -/
theorem counts_reserve_sample :
    let before : List Op := [.enqueue ⟨"ready", none, .always, true⟩ (.ofSeconds 1),
      .enqueue ⟨"due", some (.ofSeconds 3), .always, false⟩ (.ofSeconds 2),
      .enqueue ⟨"also", some (.ofSeconds 4), .always, false⟩ (.ofSeconds 2),
      .enqueue ⟨"future", some (.ofSeconds 9), .always, false⟩ (.ofSeconds 2)]
    let s := empty.run before
    let op : Op := .reserve sampleConfig 2 (.ofSeconds 5) ["one", "two"]
    (s.reply op).leases.length = 2 ∧
      (s.counts (.ofSeconds 5)).readyCount + (s.counts (.ofSeconds 5)).scheduledDueCount = 3 ∧
      ((s.next op).counts (.ofSeconds 5)).readyCount +
        ((s.next op).counts (.ofSeconds 5)).scheduledDueCount + 2 = 3 := by
  intro before s op
  have hleases : (s.reply op).leases.length = 2 := by decide
  have htokens : 2 ≤ (["one", "two"] : List Bytes).length := by decide
  have hwaiting : (s.counts (.ofSeconds 5)).readyCount +
      (s.counts (.ofSeconds 5)).scheduledDueCount = 3 := by decide
  have hmoved := (counts_reserve before sampleConfig (.ofSeconds 5) htokens).2.1
  rw [hleases, hwaiting] at hmoved
  exact ⟨hleases, hwaiting, hmoved⟩

end Store

end Redloop
