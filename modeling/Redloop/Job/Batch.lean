/-
# The batch scripts refine the job machine

Reserve and reap change one job in each round of a loop, and a purge deletes a
list of jobs. Each loop is described by the run it performs on the job machine,
and the store refines the assignment that this run ends in.
-/

import Redloop.Job.Scripts

namespace Redloop

variable {s : Store} {jobs : Bytes → Job}

/-! ## Changing one job -/

/-- A store that differs from a refined one in a single slot refines the updated
assignment. -/
theorem Refines.update (hrefines : Refines s jobs) {s' : Store} {jobId : Bytes} {job : Job}
    (hslot : s'.slot jobId = job.toSlot)
    (hframe : ∀ other, other ≠ jobId → s'.slot other = s.slot other) :
    Refines s' (Function.update jobs jobId job) := by
  refine ⟨fun other => ?_⟩
  by_cases hother : other = jobId
  · subst hother
    rw [Function.update_self, hslot]
  · rw [Function.update_of_ne hother, hframe other hother, hrefines.slot_eq]

/-- A store with the same slots refines the same assignment. -/
theorem Refines.congr (hrefines : Refines s jobs) {s' : Store}
    (hframe : ∀ jobId, s'.slot jobId = s.slot jobId) : Refines s' jobs :=
  ⟨fun jobId => (hframe jobId).trans (hrefines.slot_eq jobId)⟩

/-! ## Reserve -/

/-- The rounds of a reserve: each takes one waiting job and leases it under the
next token. A round without a token loses its job and is the last one. -/
inductive ReserveRun (args : ReserveArgs) :
    ℕ → List Bytes → (Bytes → Job) → List GrantedLease → (Bytes → Job) → Prop
  | done (rounds : ℕ) (tokens : List Bytes) (jobs : Bytes → Job) :
      ReserveRun args rounds tokens jobs [] jobs
  | outOfTokens {rounds : ℕ} {jobs : Bytes → Job} {jobId : Bytes}
      (hwaiting : (jobs jobId).IsWaiting) :
      ReserveRun args (rounds + 1) [] jobs []
        (Function.update jobs jobId ((jobs jobId).moveTo .absent))
  | grant {rounds : ℕ} {token : Bytes} {tokens : List Bytes} {jobs jobs' : Bytes → Job}
      {jobId : Bytes} {granted : List GrantedLease} (hwaiting : (jobs jobId).IsWaiting)
      (hrest : ReserveRun args rounds tokens
        (Function.update jobs jobId ((jobs jobId).lease args.workerId token args.deadline))
        granted jobs') :
      ReserveRun args (rounds + 1) (token :: tokens) jobs
        (⟨jobId, token, args.deadline⟩ :: granted) jobs'

namespace ReserveRun

variable {args : ReserveArgs} {rounds : ℕ} {tokens : List Bytes} {jobs' : Bytes → Job}
  {granted : List GrantedLease}

/-- The leases are granted under the first tokens, in order. -/
theorem tokens_prefix (hrun : ReserveRun args rounds tokens jobs granted jobs') :
    granted.map GrantedLease.leaseToken <+: tokens := by
  induction hrun with
  | done => exact List.nil_prefix
  | outOfTokens => exact List.nil_prefix
  | grant _ _ ih => exact List.prefix_cons_inj _ |>.mpr ih

/-- Every lease is for a job that was waiting. -/
theorem isWaiting_of_mem (hrun : ReserveRun args rounds tokens jobs granted jobs')
    {lease : GrantedLease} (hmem : lease ∈ granted) : (jobs lease.jobId).IsWaiting := by
  induction hrun with
  | done => cases hmem
  | outOfTokens => cases hmem
  | @grant _ _ _ jobs _ jobId _ hwaiting _ ih =>
      rcases List.mem_cons.mp hmem with rfl | hrest
      · exact hwaiting
      · have hlater := ih hrest
        by_cases hjob : lease.jobId = jobId
        · rwa [hjob]
        · rwa [Function.update_of_ne hjob] at hlater

/-- A job that does not wait is left alone. -/
theorem eq_of_not_isWaiting (hrun : ReserveRun args rounds tokens jobs granted jobs')
    {jobId : Bytes} (hwaiting : ¬ (jobs jobId).IsWaiting) : jobs' jobId = jobs jobId := by
  induction hrun with
  | done => rfl
  | outOfTokens htaken =>
      rw [Function.update_of_ne]
      rintro rfl
      exact hwaiting htaken
  | @grant _ _ _ jobs _ leasedId _ htaken _ ih =>
      have hne : jobId ≠ leasedId := by
        rintro rfl
        exact hwaiting htaken
      rw [ih (by rwa [Function.update_of_ne hne]), Function.update_of_ne hne]

/-- What the run does to one job. -/
theorem jobStep (hrun : ReserveRun args rounds tokens jobs granted jobs') (jobId : Bytes) :
    (jobs' jobId = jobs jobId ∧ ∀ lease ∈ granted, lease.jobId ≠ jobId) ∨
      ((jobs jobId).IsWaiting ∧ ∃ lease ∈ granted, lease.jobId = jobId ∧
        (∀ other ∈ granted, other.jobId = jobId → other = lease) ∧
          jobs' jobId = (jobs jobId).lease args.workerId lease.leaseToken args.deadline) ∨
      ((jobs jobId).IsWaiting ∧ jobs' jobId = (jobs jobId).moveTo .absent ∧
        (∀ lease ∈ granted, lease.jobId ≠ jobId) ∧ tokens.length < rounds) := by
  induction hrun with
  | done rounds tokens jobs => exact Or.inl ⟨rfl, by simp⟩
  | @outOfTokens rounds jobs takenId htaken =>
      by_cases hjob : jobId = takenId
      · subst hjob
        exact Or.inr (Or.inr ⟨htaken, Function.update_self _ _ _, by simp, by simp⟩)
      · exact Or.inl ⟨Function.update_of_ne hjob _ _, by simp⟩
  | @grant rounds token tokens jobs jobs' leasedId granted htaken hrest ih =>
      by_cases hjob : jobId = leasedId
      · -- the later rounds find the job leased and cannot grant it again
        subst hjob
        have hleased : ¬ (Function.update jobs jobId
            ((jobs jobId).lease args.workerId token args.deadline) jobId).IsWaiting := by
          simp [Job.lease, Job.moveTo, Job.IsWaiting]
        have hlater : ∀ lease ∈ granted, lease.jobId ≠ jobId := by
          rintro lease hmem rfl
          exact hleased (hrest.isWaiting_of_mem hmem)
        refine Or.inr (Or.inl ⟨htaken, _, List.mem_cons_self, rfl, ?_, ?_⟩)
        · intro other hother hsame
          rcases List.mem_cons.mp hother with rfl | hmem
          · rfl
          · exact absurd hsame (hlater other hmem)
        · rw [hrest.eq_of_not_isWaiting hleased, Function.update_self]
      · rw [Function.update_of_ne hjob] at ih
        rcases ih with ⟨hkept, hnone⟩ | ⟨hwaiting, lease, hmem, hlease, honly, hgranted⟩ |
          ⟨hwaiting, hlost, hnone, hshort⟩
        · exact Or.inl ⟨hkept, List.forall_mem_cons.mpr ⟨Ne.symm hjob, hnone⟩⟩
        · refine Or.inr (Or.inl ⟨hwaiting, lease, List.mem_cons_of_mem _ hmem, hlease, ?_,
            hgranted⟩)
          exact List.forall_mem_cons.mpr ⟨fun hsame => absurd hsame.symm hjob, honly⟩
        · refine Or.inr (Or.inr ⟨hwaiting, hlost, List.forall_mem_cons.mpr ⟨Ne.symm hjob, hnone⟩,
            ?_⟩)
          simpa using hshort

/-- No job is granted twice. -/
theorem nodup_jobIds (hrun : ReserveRun args rounds tokens jobs granted jobs') :
    (granted.map GrantedLease.jobId).Nodup := by
  induction hrun with
  | done => exact List.nodup_nil
  | outOfTokens => exact List.nodup_nil
  | @grant rounds token tokens jobs jobs' leasedId granted htaken hrest ih =>
      refine List.nodup_cons.mpr ⟨fun hmem => ?_, ih⟩
      obtain ⟨lease, hlease, hsame⟩ := List.mem_map.mp hmem
      have hlater := hrest.isWaiting_of_mem hlease
      simp [hsame, Job.lease, Job.moveTo, Job.IsWaiting] at hlater

/-- A reserve with all its tokens steps each job as the job machine does. -/
theorem reserveStep (hrun : ReserveRun args args.capacity args.leaseTokens jobs granted jobs')
    (jobId : Bytes) :
    ReserveStep args (granted.map fun lease => (lease.jobId, lease.leaseToken)) jobId
      (jobs jobId) (jobs' jobId) := by
  have habsent (hnone : ∀ lease ∈ granted, lease.jobId ≠ jobId) (token : Bytes) :
      (jobId, token) ∉ granted.map fun lease => (lease.jobId, lease.leaseToken) := by
    intro hmem
    obtain ⟨lease, hlease, hpair⟩ := List.mem_map.mp hmem
    exact hnone lease hlease (Prod.mk.inj hpair).1
  rcases hrun.jobStep jobId with ⟨hkept, hnone⟩ | ⟨hwaiting, lease, hmem, rfl, honly, hleased⟩ |
    ⟨hwaiting, hlost, hnone, hshort⟩
  · exact Or.inl ⟨hkept, habsent hnone⟩
  · refine Or.inr (Or.inl ⟨hwaiting, lease.leaseToken, ?_, List.mem_map_of_mem hmem, ?_, hleased⟩)
    · exact hrun.tokens_prefix.subset (List.mem_map_of_mem hmem)
    · intro token htoken
      obtain ⟨other, hother, hpair⟩ := List.mem_map.mp htoken
      obtain ⟨hsame, rfl⟩ := Prod.mk.inj hpair
      rw [honly other hother hsame]
  · exact Or.inr (Or.inr ⟨hwaiting, hlost, habsent hnone, hshort⟩)

end ReserveRun

namespace Store

/-- In a refined store no scheduled job is ready or leased, so there are no
duplicates to drop. -/
theorem dropDuplicates_eq_self (hrefines : Refines s jobs) (nowUs : ℤ) (rounds : ℕ) :
    dropDuplicates nowUs rounds s = s := by
  cases rounds with
  | zero => rfl
  | succ rounds =>
      unfold dropDuplicates
      split
      · rfl
      · next candidate hdue =>
          have hscore := (SortedSet.head?_rangeByScore_eq_some_iff.mp hdue).1
          have hslot := hrefines.slot_eq (ofLex candidate).2
          rw [if_neg]
          cases hplacement : (jobs (ofLex candidate).2).placement <;>
            simp_all [Slot.ext_iff, slot, Job.toSlot]

/-- The job a round chooses waits in the set it is chosen from. -/
theorem waiting_of_chooseCandidate (hrefines : Refines s jobs) {nowUs : ℤ} {source : JobState}
    {jobId : Bytes}
    (hchosen : chooseCandidate s.ready.entries.head? (s.dueCandidate nowUs) =
      some (source, jobId)) :
    (∃ score, (jobs jobId).placement = .ready score ∧ source = .ready) ∨
      ∃ score, (jobs jobId).placement = .scheduled score ∧ source = .scheduled := by
  have hready (candidate : ℤ ×ₗ Bytes) (hhead : s.ready.entries.head? = some candidate) :
      ∃ score, (jobs (ofLex candidate).2).placement = .ready score := by
    have hscore := SortedSet.mem_entries_iff.mp (List.mem_of_head? hhead)
    have hslot := hrefines.slot_eq (ofLex candidate).2
    cases hplacement : (jobs (ofLex candidate).2).placement <;>
      simp_all [Slot.ext_iff, slot, Job.toSlot]
  have hscheduled (candidate : ℤ ×ₗ Bytes) (hdue : s.dueCandidate nowUs = some candidate) :
      ∃ score, (jobs (ofLex candidate).2).placement = .scheduled score := by
    have hscore := (SortedSet.head?_rangeByScore_eq_some_iff.mp hdue).1
    have hslot := hrefines.slot_eq (ofLex candidate).2
    cases hplacement : (jobs (ofLex candidate).2).placement <;>
      simp_all [Slot.ext_iff, slot, Job.toSlot]
  unfold chooseCandidate at hchosen
  grind

/-- Taking a waiting job out of its set. -/
theorem refines_removeWaiting (hrefines : Refines s jobs) {source : JobState} {jobId : Bytes}
    (hwaiting : (∃ score, (jobs jobId).placement = .ready score ∧ source = .ready) ∨
      ∃ score, (jobs jobId).placement = .scheduled score ∧ source = .scheduled) :
    Refines (s.removeWaiting source jobId)
      (Function.update jobs jobId ((jobs jobId).moveTo .absent)) := by
  have hslot := hrefines.slot_eq jobId
  rcases hwaiting with ⟨score, hplacement, rfl⟩ | ⟨score, hplacement, rfl⟩
  all_goals
    simp only [Slot.ext_iff, slot, Job.toSlot, hplacement] at hslot
    unfold removeWaiting
    refine hrefines.update ?_ fun other hne => ?_
    · simp [slot, Job.moveTo, Job.toSlot, hslot]
    · simp [slot, hne]

/-- Recording the lease of a job that has left its set. -/
theorem refines_grantLease {jobId : Bytes} {job : Job} (workerId token : Bytes) (deadline : ℤ)
    (hremoved : Refines s (Function.update jobs jobId (job.moveTo .absent))) :
    Refines (s.grantLease workerId ⟨jobId, token, deadline⟩)
      (Function.update jobs jobId (job.lease workerId token deadline)) := by
  have hslot := hremoved.slot_eq jobId
  rw [Function.update_self] at hslot
  simp only [Slot.ext_iff, slot, Job.toSlot, Job.moveTo] at hslot
  rw [← Function.update_idem (job.moveTo .absent) (job.lease workerId token deadline) jobs]
  unfold grantLease
  refine hremoved.update ?_ fun other hne => ?_
  · simp [slot, Job.lease, Job.moveTo, Job.toSlot, hslot]
  · simp [slot, Finmap.lookup_insert_of_ne, hne]

/-- The reserve loop performs a run of the job machine. -/
theorem reserveLoop_refines (args : ReserveArgs) (rounds : ℕ) (hrefines : Refines s jobs)
    (granted : List GrantedLease) :
    ∃ jobs' added,
      ReserveRun args rounds (args.leaseTokens.drop granted.length) jobs added jobs' ∧
        Refines (reserveLoop args rounds s granted).1 jobs' ∧
          (reserveLoop args rounds s granted).2 = granted ++ added := by
  induction rounds generalizing s jobs granted with
  | zero => exact ⟨jobs, [], .done _ _ _, hrefines, (List.append_nil _).symm⟩
  | succ rounds ih =>
      unfold reserveLoop
      simp only [dropDuplicates_eq_self hrefines]
      split
      · exact ⟨jobs, [], .done _ _ _, hrefines, (List.append_nil _).symm⟩
      · next source jobId hchosen =>
          have hsource := waiting_of_chooseCandidate hrefines hchosen
          have hwaiting : (jobs jobId).IsWaiting := by
            rcases hsource with ⟨score, hplacement, _⟩ | ⟨score, hplacement, _⟩ <;>
              simp [Job.IsWaiting, hplacement]
          have hremoved := refines_removeWaiting hrefines hsource
          split
          · next hnone =>
              rw [List.drop_eq_nil_of_le (List.getElem?_eq_none_iff.mp hnone)]
              exact ⟨_, [], .outOfTokens hwaiting, hremoved, (List.append_nil _).symm⟩
          · next token hsome =>
              obtain ⟨hlt, htoken⟩ := List.getElem?_eq_some_iff.mp hsome
              obtain ⟨jobs', added, hrun, hrefined, hgranted⟩ :=
                ih (refines_grantLease args.workerId token args.deadline hremoved)
                  (granted ++ [⟨jobId, token, args.deadline⟩])
              rw [List.length_append, List.length_singleton] at hrun
              rw [List.drop_eq_getElem_cons hlt, htoken]
              refine ⟨jobs', _, .grant hwaiting hrun, hrefined, ?_⟩
              rw [hgranted, List.append_assoc]
              rfl

/-- A reserve reply lists the leases that were granted. -/
theorem leasesOfTexts_granted (granted : List GrantedLease) :
    leasesOfTexts (granted.flatMap fun lease =>
      [lease.jobId, lease.leaseToken, fixedText lease.deadline]) =
      granted.map fun lease => (lease.jobId, lease.leaseToken) := by
  induction granted with
  | nil => rfl
  | cons lease granted ih => simpa [leasesOfTexts] using ih

/-- The reserve script behind its policy check. -/
theorem reserveJobs_refines (hrefines : Refines s jobs) (args : ReserveArgs) :
    ∃ jobs' granted, ReserveRun args args.capacity args.leaseTokens jobs granted jobs' ∧
      Refines (s.reserveJobs args).1 jobs' ∧
        (s.reserveJobs args).2.leases = granted.map fun lease =>
          (lease.jobId, lease.leaseToken) := by
  have hregistered : Refines (s.registerWorker args) jobs := hrefines.congr fun _ => rfl
  obtain ⟨jobs', granted, hrun, hrefined, hgranted⟩ :=
    reserveLoop_refines args args.capacity hregistered []
  refine ⟨jobs', granted, hrun, hrefined, ?_⟩
  have hreply := leasesOfTexts_granted granted
  rw [List.nil_append] at hgranted
  rw [← hgranted] at hreply ⊢
  exact hreply

/-- The script `reserve` performs a run of the job machine. A reserve that fails
its policy check performs the empty run. -/
theorem reserve_refines (hrefines : Refines s jobs) (args : ReserveArgs) :
    ∃ jobs' granted, ReserveRun args args.capacity args.leaseTokens jobs granted jobs' ∧
      Refines (s.reserve args).1 jobs' ∧
        (s.reserve args).2.leases = granted.map fun lease =>
          (lease.jobId, lease.leaseToken) := by
  unfold reserve
  split
  · have hpinned : Refines
        { s with
          cfg := Finmap.insert (utf8 "retry_policy") args.retryPolicyKey
            (Finmap.insert (utf8 "version") (utf8 "1") s.cfg) } jobs :=
      hrefines.congr fun _ => rfl
    exact reserveJobs_refines hpinned args
  · split_ifs
    · exact ⟨jobs, [], .done _ _ _, hrefines, rfl⟩
    · exact reserveJobs_refines hrefines args

end Store

/-! ## Reaping -/

/-- The rounds of a reap: each takes one expired lease back. -/
inductive ReapRun (nowUs : ℤ) : ℕ → (Bytes → Job) → List Bytes → (Bytes → Job) → Prop
  | done (limit : ℕ) (jobs : Bytes → Job) : ReapRun nowUs limit jobs [] jobs
  | reap {limit : ℕ} {jobs jobs' : Bytes → Job} {jobId : Bytes} {job : Job}
      {reaped : List Bytes} (hexpired : (jobs jobId).reap nowUs = some job)
      (hrest : ReapRun nowUs limit (Function.update jobs jobId job) reaped jobs') :
      ReapRun nowUs (limit + 1) jobs (jobId :: reaped) jobs'

namespace ReapRun

variable {nowUs : ℤ} {limit : ℕ} {jobs' : Bytes → Job} {reaped : List Bytes}

/-- A lease that has been taken back is not one any more. -/
theorem reap_eq_none {job job' : Job} (hreaped : job.reap nowUs = some job') :
    job'.reap nowUs = none := by
  obtain ⟨placement, failures⟩ := job
  cases placement with
  | leased deadline workerId leaseToken rerun =>
      simp only [Job.reap, Option.ite_none_right_eq_some, Option.some.injEq] at hreaped
      rw [← hreaped.2]
      rfl
  | _ => simp [Job.reap] at hreaped

/-- What the run does to one job. -/
theorem jobStep (hrun : ReapRun nowUs limit jobs reaped jobs') (jobId : Bytes) :
    (jobId ∉ reaped ∧ jobs' jobId = jobs jobId) ∨
      (jobId ∈ reaped ∧ (jobs jobId).reap nowUs = some (jobs' jobId)) := by
  induction hrun with
  | done => exact Or.inl ⟨List.not_mem_nil, rfl⟩
  | @reap limit jobs jobs' takenId job reaped hexpired hrest ih =>
      by_cases hjob : jobId = takenId
      · subst hjob
        rw [Function.update_self] at ih
        refine Or.inr ⟨List.mem_cons_self, ?_⟩
        rcases ih with ⟨_, hkept⟩ | ⟨_, hagain⟩
        · rw [hkept, hexpired]
        · rw [reap_eq_none hexpired] at hagain
          cases hagain
      · rw [Function.update_of_ne hjob] at ih
        simpa [hjob] using ih

/-- No lease is taken back twice. -/
theorem nodup (hrun : ReapRun nowUs limit jobs reaped jobs') : reaped.Nodup := by
  induction hrun with
  | done => exact List.nodup_nil
  | @reap limit jobs jobs' takenId job reaped hexpired hrest ih =>
      refine List.nodup_cons.mpr ⟨fun hmem => ?_, ih⟩
      rcases hrest.jobStep takenId with ⟨hnot, _⟩ | ⟨_, hagain⟩
      · exact hnot hmem
      · rw [Function.update_self, reap_eq_none hexpired] at hagain
        cases hagain

end ReapRun

namespace Store

/-- Taking one expired lease back. -/
theorem refines_reapJob (hrefines : Refines s jobs) {jobId : Bytes} {nowUs deadline : ℤ}
    (hleased : s.leased.score jobId = some deadline) (hexpired : deadline ≤ nowUs) :
    ∃ job, (jobs jobId).reap nowUs = some job ∧
      Refines (s.reapJob jobId nowUs) (Function.update jobs jobId job) := by
  have hslot := hrefines.slot_eq jobId
  cases hplacement : (jobs jobId).placement with
  | leased found workerId leaseToken rerun =>
      simp only [Slot.ext_iff, slot, Job.toSlot, hplacement] at hslot
      obtain rfl : deadline = found := by simpa [hleased] using hslot.2.2.1
      refine ⟨_, by rw [Job.reap, hplacement]; exact if_pos hexpired, ?_⟩
      simp only [reapJob, hslot, Option.bind_some, workerFromMeta_packMeta]
      refine hrefines.update ?_ fun other hne => ?_
      · simp [slot, Job.moveTo, Job.toSlot, hslot]
      · simp [slot, hne]
  | _ => simp [Slot.ext_iff, slot, Job.toSlot, hplacement, hleased] at hslot

/-- The reap loop performs a run of the job machine and counts its rounds. -/
theorem reapLoop_refines (nowUs : ℤ) (limit : ℕ) (hrefines : Refines s jobs) (count : ℕ) :
    ∃ jobs' reaped, ReapRun nowUs limit jobs reaped jobs' ∧
      Refines (reapLoop nowUs limit s count).1 jobs' ∧
        (reapLoop nowUs limit s count).2 = count + reaped.length := by
  induction limit generalizing s jobs count with
  | zero => exact ⟨jobs, [], .done _ _, hrefines, rfl⟩
  | succ limit ih =>
      unfold reapLoop
      split
      · exact ⟨jobs, [], .done _ _, hrefines, rfl⟩
      · next candidate hfirst =>
          obtain ⟨hscore, hexpired, _⟩ := SortedSet.head?_rangeByScore_eq_some_iff.mp hfirst
          obtain ⟨job, hreap, hreaped⟩ :=
            refines_reapJob hrefines hscore (of_decide_eq_true hexpired)
          obtain ⟨jobs', reaped, hrun, hrefined, hcount⟩ := ih hreaped (count + 1)
          refine ⟨jobs', _, .reap hreap hrun, hrefined, ?_⟩
          rw [hcount, List.length_cons]
          omega

/-- The script `reap_expired` performs a run of the job machine and answers with
its length. -/
theorem reapExpired_refines (hrefines : Refines s jobs) (now : ℤ) (limit : ℕ) :
    ∃ jobs' reaped, ReapRun (Double.ofInt now) limit jobs reaped jobs' ∧
      Refines (s.reapExpired now limit).1 jobs' ∧
        (s.reapExpired now limit).2 = [utf8 "ok", generalText 14 reaped.length] := by
  obtain ⟨jobs', reaped, hrun, hrefined, hcount⟩ :=
    reapLoop_refines (Double.ofInt now) limit hrefines 0
  refine ⟨jobs', reaped, hrun, hrefined, ?_⟩
  rw [zero_add] at hcount
  simp only [reapExpired, hcount]

end Store

end Redloop
