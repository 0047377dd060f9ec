/-
# What a reserve grants

The leases of a reserve are given to the first eligible jobs under its tokens, in order.
Its reply lists them behind the activation that it announces, and the store before the
call determines both.
-/

import Redloop.Queue.Duplicates
import Redloop.Queue.Refusal
import Redloop.Queue.Registry

namespace Redloop

namespace Store

variable {s : Store} {jobs : Bytes → Job}

/-! ## The loop of a call -/

/-- A reserve that is not refused does to the jobs what its loop does. -/
theorem exists_reserveLoop {config : WorkerConfig}
    (hrefuses : ¬ s.registry.Refuses config.retryPolicyKey) (availableCapacity : ℕ)
    (now : Timestamp) (leaseTokens : List Bytes) :
    ∃ cfg lastSeen configs,
      let op : Op := .reserve config availableCapacity now leaseTokens
      let looped := reserveLoop (reserveArgs config availableCapacity now leaseTokens)
        availableCapacity
        { s with cfg := cfg, workersLastSeen := lastSeen, workersConfig := configs } []
      (s.next op).ready = looped.1.ready ∧ (s.next op).scheduled = looped.1.scheduled ∧
        (s.next op).leased = looped.1.leased ∧ (s.next op).leaseMeta = looped.1.leaseMeta ∧
          (s.reply op).leases = looped.2.map fun lease => (lease.jobId, lease.leaseToken) := by
  by_cases hcapacity : availableCapacity = 0
  · subst hcapacity
    exact ⟨s.cfg, s.workersLastSeen, s.workersConfig, rfl, rfl, rfl, rfl, rfl⟩
  · let args := reserveArgs config availableCapacity now leaseTokens
    have hexec : s.exec (.reserve config availableCapacity now leaseTokens) = s.reserve args :=
      if_neg hcapacity
    have hreserve : ∃ cfg, s.reserve args = { s with cfg := cfg }.reserveJobs args := by
      unfold reserve
      cases hpinned : s.cfg.lookup (utf8 "retry_policy") with
      | none => exact ⟨_, rfl⟩
      | some existing =>
          have hsame : existing = args.retryPolicyKey := by
            by_contra hother
            exact hrefuses ⟨existing, hpinned, hother⟩
          exact ⟨s.cfg, if_neg (not_not.mpr hsame)⟩
    obtain ⟨cfg, hreserve⟩ := hreserve
    refine ⟨cfg, s.workersLastSeen.add args.workerId args.nowUs,
      Finmap.insert args.workerId args.workerConfigRecord s.workersConfig, ?_⟩
    simp only [next, reply, hexec, hreserve]
    exact ⟨rfl, rfl, rfl, rfl, leasesOfTexts_granted _⟩

/-- The jobs that a reserve which is not refused leases. -/
theorem jobIds_leases {config : WorkerConfig}
    (hrefuses : ¬ s.registry.Refuses config.retryPolicyKey)
    (availableCapacity : ℕ) (now : Timestamp) (leaseTokens : List Bytes) :
    (s.reply (.reserve config availableCapacity now leaseTokens)).leases.map Prod.fst =
      ((s.candidates (Double.ofInt (micros now))).take
        (min availableCapacity leaseTokens.length)).map Candidate.jobId := by
  obtain ⟨_, _, _, _, _, _, _, hleases⟩ :=
    exists_reserveLoop hrefuses availableCapacity now leaseTokens
  rw [hleases, List.map_map]
  show List.map GrantedLease.jobId _ = _
  rw [granted_reserveLoop, List.nil_append, jobIds_zipWith_leaseOf, List.length_nil,
    List.drop_zero, List.take_take, min_comm]
  rfl

/-- What a reserve that is not refused leaves ready. -/
theorem ready_score_next_reserve {config : WorkerConfig}
    (hrefuses : ¬ s.registry.Refuses config.retryPolicyKey)
    (availableCapacity : ℕ) (now : Timestamp) (leaseTokens : List Bytes) (jobId : Bytes) :
    (s.next (.reserve config availableCapacity now leaseTokens)).ready.score jobId =
      if Takes (s.takes (reserveArgs config availableCapacity now leaseTokens)
        availableCapacity 0) .ready jobId then none
      else s.ready.score jobId := by
  obtain ⟨_, _, _, hready, _⟩ := exists_reserveLoop hrefuses availableCapacity now leaseTokens
  rw [hready, ready_reserveLoop]
  rfl

/-- What it leaves scheduled of the jobs without a current copy. -/
theorem scheduled_score_next_reserve {config : WorkerConfig}
    (hrefuses : ¬ s.registry.Refuses config.retryPolicyKey)
    (availableCapacity : ℕ) (now : Timestamp) (leaseTokens : List Bytes) {jobId : Bytes}
    (hfree : ¬ s.Current jobId) :
    (s.next (.reserve config availableCapacity now leaseTokens)).scheduled.score jobId =
      if Takes (s.takes (reserveArgs config availableCapacity now leaseTokens)
        availableCapacity 0) .scheduled jobId then none
      else s.scheduled.score jobId := by
  obtain ⟨_, _, _, _, hscheduled, _⟩ :=
    exists_reserveLoop hrefuses availableCapacity now leaseTokens
  rw [hscheduled]
  exact scheduled_reserveLoop hfree

/-! ## The reply -/

/-- The activation a reserve announces: the first one after its time among the scheduled
jobs it leaves. It compares with the 14-digit text of its time. -/
def announced (s : Store) (args : ReserveArgs) : Option ℤ :=
  ((s.takeAll (s.taken args)).scheduled.rangeByScore
    (Double.ofInt (generalValue 14 args.nowUs) < ·)).head?.map fun entry => (ofLex entry).1

/-- The leases a reserve grants. -/
def grants (s : Store) (args : ReserveArgs) : List GrantedLease :=
  List.zipWith (fun candidate token => ⟨candidate.jobId, token, args.deadline⟩)
    ((s.eligible args.nowUs).take args.capacity) args.leaseTokens

/-- The answer of a reserve that is not refused. -/
def reserveReply (s : Store) (args : ReserveArgs) : Reply :=
  utf8 "ok" ::
    (match s.announced args with
      | none => utf8 "0"
      | some score => generalText 17 score) ::
    (s.grants args).flatMap fun lease =>
      [lease.jobId, lease.leaseToken, fixedText lease.deadline]

/-- The announced activation is the text of a score, or zero. -/
theorem nextFuture_eq (s : Store) (nowUs : ℤ) :
    s.nextFuture nowUs =
      match ((s.scheduled.rangeByScore (Double.ofInt (generalValue 14 nowUs) < ·)).head?.map
        fun entry => (ofLex entry).1) with
      | none => utf8 "0"
      | some score => generalText 17 score := by
  unfold nextFuture
  cases (s.scheduled.rangeByScore (Double.ofInt (generalValue 14 nowUs) < ·)).head? <;> rfl

/-- A reserve looks at the waiting jobs only. -/
theorem reserveReply_congr (s s' : Store) (hready : s.ready = s'.ready)
    (hscheduled : s.scheduled = s'.scheduled) (args : ReserveArgs) :
    s.reserveReply args = s'.reserveReply args := by
  have heligible : s.eligible args.nowUs = s'.eligible args.nowUs := by
    unfold eligible
    rw [hready, hscheduled]
  have htaken : s.taken args = s'.taken args := by
    unfold taken
    rw [heligible]
  unfold reserveReply announced grants
  rw [heligible, htaken, (takeAll_congr s s' hready hscheduled _).2]

/-- What a reserve answers behind its policy check. -/
theorem reply_reserveJobs (hrefines : Refines s jobs) (args : ReserveArgs) :
    (s.reserveJobs args).2 = s.reserveReply args := by
  have hregistered : Refines (s.registerWorker args) jobs := hrefines.congr fun _ => rfl
  obtain ⟨_, hscheduled, hgranted⟩ :=
    reserveLoop_takes args args.capacity hregistered []
  rw [reserveReply_congr s (s.registerWorker args) rfl rfl]
  simp only [List.length_nil, Nat.sub_zero, List.drop_zero, List.nil_append] at hscheduled hgranted
  unfold reserveJobs
  dsimp only
  rw [nextFuture_eq, hscheduled, hgranted]
  rfl

/-- What a reserve answers. -/
theorem reply_reserve (hrefines : Refines s jobs) (args : ReserveArgs) :
    (s.reserve args).2 =
      if s.registry.Refuses args.retryPolicyKey then Reply.policyMismatch
      else s.reserveReply args := by
  have hpolicy : s.registry.retryPolicy = s.cfg.lookup (utf8 "retry_policy") := rfl
  unfold reserve
  cases hpinned : s.cfg.lookup (utf8 "retry_policy") with
  | none =>
      simp only [Registry.Refuses, hpolicy, hpinned, reduceCtorEq, false_and, exists_false,
        if_false]
      have hpinnedStore : Refines
          { s with
            cfg := Finmap.insert (utf8 "retry_policy") args.retryPolicyKey
              (Finmap.insert (utf8 "version") (utf8 "1") s.cfg) } jobs :=
        hrefines.congr fun _ => rfl
      rw [reply_reserveJobs hpinnedStore]
      refine reserveReply_congr _ s ?_ ?_ args <;> rfl
  | some policy =>
      simp only [Registry.Refuses, hpolicy, hpinned, Option.some.injEq, exists_eq_left']
      split_ifs
      · rfl
      · exact reply_reserveJobs hrefines args

/-- The leases that the reply lists. -/
theorem leases_reserveReply (s : Store) (args : ReserveArgs) :
    (s.reserveReply args).leases =
      (s.grants args).map fun lease => (lease.jobId, lease.leaseToken) :=
  leasesOfTexts_granted _

/-- A reserve grants leases when a job is eligible and it has capacity and a token. -/
theorem grants_eq_nil_iff {args : ReserveArgs} (hcapacity : args.capacity ≠ 0) :
    s.grants args = [] ↔ s.eligible args.nowUs = [] ∨ args.leaseTokens = [] := by
  simp [grants, List.zipWith_eq_nil_iff, hcapacity]

/-- All leases of a call have one deadline. -/
theorem deadline_of_mem_grants {args : ReserveArgs} {lease : GrantedLease}
    (hmem : lease ∈ s.grants args) : lease.deadline = args.deadline := by
  obtain ⟨index, hlt, rfl⟩ := List.mem_iff_getElem.mp hmem
  simp [grants]

end Store

end Redloop
