/-
# Splitting reserves

How a worker divides its capacity over calls does not matter to the queue. A reserve leaves
the store and leases the jobs that several reserves at the same time leave and lease with
the same tokens. The loop of the script is cut where the first call runs out of tokens:
either it has leased a job in each round and the rest goes on from there, or it has found
no more candidates and the rest finds none.
-/

import Redloop.Queue.Grants

namespace Redloop

/-- Two reserve calls differ in their capacity and their tokens only. -/
structure ReserveArgs.SameCall (args other : ReserveArgs) : Prop where
  workerId : other.workerId = args.workerId
  nowUs : other.nowUs = args.nowUs
  deadline : other.deadline = args.deadline

namespace Store

variable {s : Store} {args other : ReserveArgs} {nowUs : ℤ} {granted before : List GrantedLease}
  {rounds : ℕ}

/-! ## The loop of a reserve -/

/-- A store in which the loop finds no candidate, whatever its tokens. -/
def Exhausted (s : Store) (nowUs : ℤ) : Prop :=
  ∀ args : ReserveArgs, args.nowUs = nowUs →
    ∀ rounds granted, reserveLoop args rounds s granted = (s, granted)

/-- A round that finds no candidate leaves none. -/
theorem exhausted_of_nil (hnil : s.candidates nowUs = []) :
    (dropDuplicates nowUs s.scheduled.card s).Exhausted nowUs := by
  rintro args rfl rounds granted
  have hready : (dropDuplicates args.nowUs s.scheduled.card s).ready = s.ready := by
    obtain ⟨_, heq⟩ := dropDuplicates_frame args.nowUs s.scheduled.card s
    rw [heq]
  have hchosen : chooseCandidate s.ready.entries.head?
      ((dropDuplicates args.nowUs s.scheduled.card s).dueCandidate args.nowUs) = none := by
    rw [chooseCandidate_dropDuplicates, hnil]
    rfl
  have hdue : (dropDuplicates args.nowUs s.scheduled.card s).dueCandidate args.nowUs = none := by
    cases hfound : (dropDuplicates args.nowUs s.scheduled.card s).dueCandidate args.nowUs with
    | none => rfl
    | some candidate =>
        rw [hfound] at hchosen
        unfold chooseCandidate at hchosen
        split at hchosen <;> simp_all
        split_ifs at hchosen
  cases rounds with
  | zero => rfl
  | succ rounds =>
      unfold reserveLoop
      simp only [dropDuplicates_of_none hdue, hready, hchosen]

/-- The rounds of a loop can be run in two parts, when the first has its tokens. -/
theorem reserveLoop_add {first : ℕ} (second : ℕ)
    (htokens : granted.length + first ≤ args.leaseTokens.length) :
    reserveLoop args (first + second) s granted =
      reserveLoop args second (reserveLoop args first s granted).1
        (reserveLoop args first s granted).2 := by
  induction first generalizing s granted with
  | zero => rw [Nat.zero_add, reserveLoop]
  | succ first ih =>
      rw [Nat.succ_add_eq_add_succ, Nat.add_succ]
      cases hcandidates : s.candidates args.nowUs with
      | nil =>
          rw [reserveLoop_of_nil hcandidates, reserveLoop_of_nil hcandidates]
          exact (exhausted_of_nil hcandidates args rfl _ _).symm
      | cons candidate rest =>
          have htoken := List.getElem?_eq_getElem (l := args.leaseTokens) (i := granted.length)
            (by omega)
          rw [reserveLoop_of_token hcandidates htoken, reserveLoop_of_token hcandidates htoken]
          apply ih
          rw [List.length_append, List.length_singleton]
          omega

/-- A loop that has its tokens leases a job in each round, or finds no more candidates. -/
theorem length_or_exhausted (htokens : granted.length + rounds ≤ args.leaseTokens.length) :
    (reserveLoop args rounds s granted).2.length = granted.length + rounds ∨
      (reserveLoop args rounds s granted).1.Exhausted args.nowUs := by
  induction rounds generalizing s granted with
  | zero => exact Or.inl rfl
  | succ rounds ih =>
      cases hcandidates : s.candidates args.nowUs with
      | nil =>
          rw [reserveLoop_of_nil hcandidates]
          exact Or.inr (exhausted_of_nil hcandidates)
      | cons candidate rest =>
          have htoken := List.getElem?_eq_getElem (l := args.leaseTokens) (i := granted.length)
            (by omega)
          rw [reserveLoop_of_token hcandidates htoken, Nat.add_succ, ← Nat.succ_add]
          have hlength (lease : GrantedLease) :
              (granted ++ [lease]).length = granted.length.succ := by simp
          rw [← hlength]
          apply ih
          rw [hlength]
          omega

/-- A loop depends on the tokens that it reaches only. -/
theorem reserveLoop_congr (hsame : args.SameCall other)
    (htokens : ∀ index < rounds, args.leaseTokens[granted.length + index]? =
      other.leaseTokens[before.length + index]?) :
    ∃ s' added, reserveLoop args rounds s granted = (s', granted ++ added) ∧
      reserveLoop other rounds s before = (s', before ++ added) := by
  induction rounds generalizing s granted before with
  | zero => exact ⟨s, [], by simp [reserveLoop], by simp [reserveLoop]⟩
  | succ rounds ih =>
      have hfirst : args.leaseTokens[granted.length]? = other.leaseTokens[before.length]? :=
        htokens 0 (by omega)
      cases hcandidates : s.candidates args.nowUs with
      | nil =>
          have hother : s.candidates other.nowUs = [] := hsame.nowUs ▸ hcandidates
          rw [reserveLoop_of_nil hcandidates, reserveLoop_of_nil hother, hsame.nowUs]
          exact ⟨_, [], by rw [List.append_nil], by rw [List.append_nil]⟩
      | cons candidate rest =>
          have hother : s.candidates other.nowUs = candidate :: rest := hsame.nowUs ▸ hcandidates
          cases htoken : args.leaseTokens[granted.length]? with
          | none =>
              rw [reserveLoop_of_no_token hcandidates htoken,
                reserveLoop_of_no_token hother (hfirst.symm.trans htoken), hsame.nowUs]
              exact ⟨_, [], by rw [List.append_nil], by rw [List.append_nil]⟩
          | some token =>
              have hlease : leaseOf other candidate token = leaseOf args candidate token := by
                rw [leaseOf, leaseOf, hsame.deadline]
              rw [reserveLoop_of_token hcandidates htoken,
                reserveLoop_of_token hother (hfirst.symm.trans htoken), hlease, hsame.nowUs,
                hsame.workerId]
              have hrest : ∀ index < rounds,
                  args.leaseTokens[(granted ++ [leaseOf args candidate token]).length + index]? =
                    other.leaseTokens[(before ++ [leaseOf args candidate token]).length +
                      index]? := by
                intro index hindex
                have hnext := htokens (index + 1) (by omega)
                rw [List.length_append, List.length_append, List.length_singleton]
                rwa [Nat.add_assoc, Nat.add_comm 1, Nat.add_assoc, Nat.add_comm 1]
              obtain ⟨s', added, hleft, hright⟩ := ih hrest
              refine ⟨s', leaseOf args candidate token :: added, hleft.trans ?_, hright.trans ?_⟩
              · rw [List.append_assoc, List.singleton_append]
              · rw [List.append_assoc, List.singleton_append]

/-- What two loops do one after the other, one loop does with the tokens of both. -/
theorem reserveLoop_append {head tail whole : ReserveArgs} (hhead : whole.SameCall head)
    (htail : whole.SameCall tail)
    (htokens : whole.leaseTokens = head.leaseTokens ++ tail.leaseTokens) (capacity : ℕ)
    (s : Store) :
    let looped := reserveLoop head head.leaseTokens.length s []
    let rest := reserveLoop tail capacity looped.1 []
    reserveLoop whole (head.leaseTokens.length + capacity) s [] =
      (rest.1, looped.2 ++ rest.2) := by
  intro looped rest
  have hnil : ([] : List GrantedLease).length = 0 := List.length_nil
  have hsplit : reserveLoop whole (head.leaseTokens.length + capacity) s [] =
      reserveLoop whole capacity (reserveLoop whole head.leaseTokens.length s []).1
        (reserveLoop whole head.leaseTokens.length s []).2 := by
    apply reserveLoop_add
    rw [htokens, hnil, List.length_append]
    omega
  have hfirst : reserveLoop whole head.leaseTokens.length s [] = looped := by
    obtain ⟨s', added, hleft, hright⟩ : ∃ s' added,
        reserveLoop whole head.leaseTokens.length s [] = (s', [] ++ added) ∧
          looped = (s', [] ++ added) := by
      apply reserveLoop_congr hhead
      intro index hindex
      rw [htokens, hnil, Nat.zero_add, List.getElem?_append_left hindex]
    rw [hleft, hright]
  have hbound : ([] : List GrantedLease).length + head.leaseTokens.length ≤
      head.leaseTokens.length := by rw [hnil, Nat.zero_add]
  rw [hsplit, hfirst]
  rcases length_or_exhausted hbound with hlength | hexhausted
  · -- the first loop has used its tokens, so the rest goes on with those of the second
    have hlength : looped.2.length = head.leaseTokens.length := by
      rw [← Nat.zero_add head.leaseTokens.length]
      exact hlength
    obtain ⟨s', added, hleft, hright⟩ : ∃ s' added,
        reserveLoop whole capacity looped.1 looped.2 = (s', looped.2 ++ added) ∧
          rest = (s', [] ++ added) := by
      apply reserveLoop_congr htail
      intro index _
      rw [htokens, hlength, hnil, Nat.zero_add,
        List.getElem?_append_right (Nat.le_add_right _ _), Nat.add_sub_cancel_left]
    rw [hleft, hright, List.nil_append]
  · -- the first loop has found no more candidates, and neither does the rest
    have hexhausted : looped.1.Exhausted head.nowUs := hexhausted
    have hrest : rest = (looped.1, []) :=
      hexhausted tail (htail.nowUs.trans hhead.nowUs.symm) capacity []
    rw [hexhausted whole hhead.nowUs.symm capacity looped.2, hrest, List.append_nil]

/-! ## Registering -/

/-- A store with another registry. -/
def withRegistry (s : Store) (registry : Registry) : Store :=
  { s with
    cfg := registry.cfg
    workersLastSeen := registry.workersLastSeen
    workersConfig := registry.workersConfig }

/-- What a reserve that is not refused does: it registers its worker and runs its loop. -/
def accept (s : Store) (args : ReserveArgs) : Store × List GrantedLease :=
  reserveLoop args args.capacity (s.withRegistry (s.registry.register args)) []

theorem reserve_of_not_refuses (hrefuses : ¬ s.registry.Refuses args.retryPolicyKey) :
    (s.reserve args).1 = (s.accept args).1 ∧
      (s.reserve args).2.leases =
        (s.accept args).2.map fun lease => (lease.jobId, lease.leaseToken) := by
  have hpolicy : s.registry.retryPolicy = s.cfg.lookup (utf8 "retry_policy") := rfl
  have haccept : s.reserve args = ((s.accept args).1, utf8 "ok" ::
      (s.accept args).1.nextFuture args.nowUs :: (s.accept args).2.flatMap fun lease =>
        [lease.jobId, lease.leaseToken, fixedText lease.deadline]) := by
    unfold reserve accept Registry.register
    rw [hpolicy]
    cases hpinned : s.cfg.lookup (utf8 "retry_policy") with
    | none => rfl
    | some existing =>
        have hsame : existing = args.retryPolicyKey := by
          by_contra hother
          exact hrefuses ⟨existing, hpinned, hother⟩
        exact if_neg (not_not.mpr hsame)
  rw [haccept]
  exact ⟨rfl, leasesOfTexts_granted _⟩

end Store

/-- Adding a member twice with one score adds it once. -/
theorem SortedSet.add_add (set : ZSet) (member : Bytes) (value : ℤ) :
    (set.add member value).add member value = set.add member value := by
  apply SortedSet.ext_score
  intro other
  simp only [SortedSet.score_add]
  split_ifs <;> rfl

namespace Registry

variable {registry : Registry} {args other : ReserveArgs}

/-- A worker that has just registered is accepted under the same policy. -/
theorem not_refuses_register (hrefuses : ¬ registry.Refuses args.retryPolicyKey) :
    ¬ (registry.register args).Refuses args.retryPolicyKey := by
  rintro ⟨policy, hpinned, hother⟩
  unfold register retryPolicy at hpinned
  cases hlookup : registry.cfg.lookup (utf8 "retry_policy") with
  | none =>
      simp only [hlookup, Finmap.lookup_insert, Option.some.injEq] at hpinned
      exact hother hpinned.symm
  | some existing =>
      simp only [hlookup] at hpinned
      exact hrefuses ⟨policy, hlookup.trans hpinned, hother⟩

/-- Registering again at the same time changes nothing. -/
theorem register_register (hworker : other.workerId = args.workerId)
    (hnow : other.nowUs = args.nowUs)
    (hrecord : other.workerConfigRecord = args.workerConfigRecord) :
    (registry.register args).register other = registry.register args := by
  have hpinned : (registry.register args).retryPolicy ≠ none := by
    unfold register retryPolicy
    cases hlookup : registry.cfg.lookup (utf8 "retry_policy") <;> simp [hlookup]
  obtain ⟨policy, hpolicy⟩ := Option.ne_none_iff_exists'.mp hpinned
  rw [register, hpolicy, hworker, hnow, hrecord]
  unfold register
  dsimp only
  rw [SortedSet.add_add, Finmap.insert_insert]

end Registry

namespace Store

/-! ## Reserves -/

/-- The leases that a run grants, in order. -/
def runLeases (s : Store) : List Op → List (Bytes × Bytes)
  | [] => []
  | op :: ops => (s.reply op).leases ++ (s.next op).runLeases ops

variable {s : Store} {config : WorkerConfig} {now : Timestamp}

/-- A refused reserve changes nothing and leases nothing. -/
theorem reserve_of_refuses (hrefuses : s.registry.Refuses config.retryPolicyKey) (capacity : ℕ)
    (tokens : List Bytes) :
    s.next (.reserve config capacity now tokens) = s ∧
      (s.reply (.reserve config capacity now tokens)).leases = [] := by
  unfold next reply exec
  dsimp only
  split_ifs with hcapacity
  · exact ⟨rfl, rfl⟩
  · obtain ⟨existing, hpinned, hother⟩ := hrefuses
    have hpinned : s.cfg.lookup (utf8 "retry_policy") = some existing := hpinned
    have hexec : s.reserve (reserveArgs config capacity now tokens) =
        (s, Reply.policyMismatch) := by
      unfold reserve
      rw [hpinned]
      exact if_pos hother
    rw [hexec]
    exact ⟨rfl, rfl⟩

/-- A reserve for some jobs that is not refused. -/
theorem next_reserve_of_not_refuses (hrefuses : ¬ s.registry.Refuses config.retryPolicyKey)
    {capacity : ℕ} (hcapacity : capacity ≠ 0) (now : Timestamp) (tokens : List Bytes) :
    s.next (.reserve config capacity now tokens) =
        (s.accept (reserveArgs config capacity now tokens)).1 ∧
      (s.reply (.reserve config capacity now tokens)).leases =
        (s.accept (reserveArgs config capacity now tokens)).2.map fun lease =>
          (lease.jobId, lease.leaseToken) := by
  have hargs : ¬ s.registry.Refuses (reserveArgs config capacity now tokens).retryPolicyKey :=
    hrefuses
  have hexec : s.exec (.reserve config capacity now tokens) =
      s.reserve (reserveArgs config capacity now tokens) := if_neg hcapacity
  rw [next, reply, hexec]
  exact reserve_of_not_refuses hargs

/-- After a reserve its worker is registered, so another one only runs its loop. -/
theorem accept_accept (s : Store) (config : WorkerConfig) (now : Timestamp)
    (first second : List Bytes) (capacity : ℕ) :
    let head := s.accept (reserveArgs config first.length now first)
    head.1.accept (reserveArgs config capacity now second) =
      reserveLoop (reserveArgs config capacity now second) capacity head.1 [] := by
  intro head
  let args := reserveArgs config first.length now first
  have hregistry : head.1.registry = s.registry.register args := registry_reserveLoop _ _ _ _
  have hregistered : (s.registry.register args).register
      (reserveArgs config capacity now second) = s.registry.register args :=
    Registry.register_register rfl rfl rfl
  have hsame : head.1.withRegistry
      (head.1.registry.register (reserveArgs config capacity now second)) = head.1 := by
    rw [hregistry, hregistered, ← hregistry]
    rfl
  show reserveLoop _ capacity (head.1.withRegistry _) [] = _
  rw [hsame]

/-- A reserve that is not refused can be split after some of its tokens. -/
theorem reserve_append_of_not_refuses (hrefuses : ¬ s.registry.Refuses config.retryPolicyKey)
    {first : List Bytes} (hfirst : first.length ≠ 0) (second : List Bytes) (capacity : ℕ) :
    let whole : Op := .reserve config (first.length + capacity) now (first ++ second)
    let head : Op := .reserve config first.length now first
    let tail : Op := .reserve config capacity now second
    s.next whole = (s.next head).next tail ∧
      (s.reply whole).leases = (s.reply head).leases ++ ((s.next head).reply tail).leases := by
  intro whole head tail
  let headArgs := reserveArgs config first.length now first
  let tailArgs := reserveArgs config capacity now second
  let wholeArgs := reserveArgs config (first.length + capacity) now (first ++ second)
  have hheadCall : wholeArgs.SameCall headArgs := ⟨rfl, rfl, rfl⟩
  have htailCall : wholeArgs.SameCall tailArgs := ⟨rfl, rfl, rfl⟩
  have hloop := accept_accept s config now first second capacity
  have happend : s.accept wholeArgs =
      (((s.accept headArgs).1.accept tailArgs).1,
        (s.accept headArgs).2 ++ ((s.accept headArgs).1.accept tailArgs).2) := by
    rw [hloop]
    exact reserveLoop_append hheadCall htailCall rfl capacity
      (s.withRegistry (s.registry.register headArgs))
  have hwholeCapacity : first.length + capacity ≠ 0 := by omega
  obtain ⟨hwhole, hwholeLeases⟩ :=
    next_reserve_of_not_refuses hrefuses hwholeCapacity now (first ++ second)
  obtain ⟨hhead, hheadLeases⟩ := next_reserve_of_not_refuses hrefuses hfirst now first
  rw [hwhole, hwholeLeases, hhead, hheadLeases, happend, List.map_append]
  by_cases hcapacity : capacity = 0
  · subst hcapacity
    rw [hloop]
    exact ⟨rfl, rfl⟩
  · have hregistry : (s.accept headArgs).1.registry = s.registry.register headArgs :=
      registry_reserveLoop _ _ _ _
    have haccepted : ¬ (s.accept headArgs).1.registry.Refuses config.retryPolicyKey := by
      rw [hregistry]
      exact Registry.not_refuses_register hrefuses
    obtain ⟨htail, htailLeases⟩ := next_reserve_of_not_refuses haccepted hcapacity now second
    rw [htail, htailLeases]
    exact ⟨rfl, rfl⟩

/-- What two reserves do at the same time, one reserve does with the tokens of both. -/
theorem reserve_append (s : Store) (config : WorkerConfig) (now : Timestamp)
    (first second : List Bytes) (capacity : ℕ) :
    let whole : Op := .reserve config (first.length + capacity) now (first ++ second)
    let head : Op := .reserve config first.length now first
    let tail : Op := .reserve config capacity now second
    s.next whole = (s.next head).next tail ∧
      (s.reply whole).leases = (s.reply head).leases ++ ((s.next head).reply tail).leases := by
  intro whole head tail
  by_cases hrefuses : s.registry.Refuses config.retryPolicyKey
  · obtain ⟨hwhole, hwholeLeases⟩ : s.next whole = s ∧ (s.reply whole).leases = [] :=
      reserve_of_refuses hrefuses _ _
    obtain ⟨hhead, hheadLeases⟩ : s.next head = s ∧ (s.reply head).leases = [] :=
      reserve_of_refuses hrefuses _ _
    obtain ⟨htail, htailLeases⟩ : s.next tail = s ∧ (s.reply tail).leases = [] :=
      reserve_of_refuses hrefuses _ _
    rw [hhead, hwhole, htail, hwholeLeases, hheadLeases, htailLeases]
    exact ⟨rfl, rfl⟩
  · by_cases hfirst : first.length = 0
    · have hnil : first = [] := List.length_eq_zero_iff.mp hfirst
      have hwhole : whole = tail := by simp [whole, tail, hnil]
      have hhead : s.next head = s ∧ (s.reply head).leases = [] := by
        rw [next, reply, exec, if_pos hfirst]
        exact ⟨rfl, rfl⟩
      rw [hwhole, hhead.1, hhead.2]
      exact ⟨rfl, rfl⟩
    · exact reserve_append_of_not_refuses hrefuses hfirst second capacity

/-- However a worker divides its tokens over reserves at the same time, the reserves leave the
store that one reserve with all the tokens leaves, and lease the same jobs under the same
tokens in the same order. -/
theorem reserve_split (s : Store) (config : WorkerConfig) (now : Timestamp)
    (batches : List (List Bytes)) :
    let whole : Op := .reserve config batches.flatten.length now batches.flatten
    let parts : List Op := batches.map fun tokens => .reserve config tokens.length now tokens
    s.next whole = s.run parts ∧ (s.reply whole).leases = s.runLeases parts := by
  induction batches generalizing s with
  | nil => exact ⟨rfl, rfl⟩
  | cons tokens rest ih =>
      obtain ⟨hnext, hleases⟩ :=
        reserve_append s config now tokens rest.flatten rest.flatten.length
      obtain ⟨hrest, hrestLeases⟩ := ih (s.next (.reserve config tokens.length now tokens))
      rw [List.flatten_cons, List.length_append]
      exact ⟨hnext.trans hrest,
        hleases.trans (congrArg ((s.reply _).leases ++ ·) hrestLeases)⟩

end Store

end Redloop
