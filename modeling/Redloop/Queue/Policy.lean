/-
# One retry policy per namespace

The first reserve of a namespace pins the key of its retry policy, and every later
reserve compares its own key with it. The keys of different policies differ, so
all workers that are granted leases have the same policy. A failed attempt is
resolved without a look at the pinned key; that its policy is the pinned one
follows from who can hold a lease.
-/

import Redloop.Queue.Refusal
import Redloop.Queue.Registry

namespace Redloop

/-! ## Policy keys -/

theorem decimal_append_colon_inj {first second : ℕ} {rest others : Bytes} :
    decimal first ++ colon :: rest = decimal second ++ colon :: others ↔
      first = second ∧ rest = others := by
  rw [append_cons_inj_of_first (colon_not_mem_decimal _) (colon_not_mem_decimal _),
    decimal_injective.eq_iff]

theorem utf8_colon_append (rest : Bytes) : utf8 ":" ++ rest = colon :: rest := rfl

/-- The kind of a backoff is the first byte of its key. -/
theorem Backoff.head?_key (backoff : Backoff) :
    backoff.key.head? = some (match backoff with
      | none => 110
      | fixed _ => 102
      | exponential _ _ _ => 101) := by
  cases backoff <;> rfl

/-- Different backoffs have different keys. -/
theorem Backoff.key_injective : Function.Injective Backoff.key := by
  intro first second heq
  have hhead := congrArg List.head? heq
  rw [head?_key, head?_key] at hhead
  cases first <;> cases second <;> simp only [Option.some.injEq] at hhead <;>
    first | exact absurd hhead (by decide) | skip
  · rfl
  · rw [Backoff.key, Backoff.key, List.append_cancel_left_eq, decimal_injective.eq_iff,
      UInt64.toNat_inj] at heq
    rw [heq]
  · simp only [Backoff.key, List.append_assoc, List.append_cancel_left_eq, utf8_colon_append,
      List.cons_append, decimal_append_colon_inj, decimal_injective.eq_iff, UInt64.toNat_inj,
      UInt32.toNat_inj] at heq
    obtain ⟨hinitial, hmultiplier, hmax⟩ := heq
    rw [hinitial, hmultiplier, hmax]

/-- The kind of a retry policy is the first byte of its key. -/
theorem WorkerConfig.head?_retryPolicyKey (config : WorkerConfig) :
    config.retryPolicyKey.head? = some (match config.retryPolicy with
      | .never => 110
      | .count _ _ => 99
      | .infinite _ => 105) := by
  unfold retryPolicyKey
  cases config.retryPolicy <;> rfl

/-- Different retry policies have different keys. -/
theorem WorkerConfig.retryPolicyKey_inj {config other : WorkerConfig} :
    config.retryPolicyKey = other.retryPolicyKey ↔ config.retryPolicy = other.retryPolicy := by
  constructor
  · intro heq
    have hhead := congrArg List.head? heq
    rw [head?_retryPolicyKey, head?_retryPolicyKey] at hhead
    unfold retryPolicyKey at heq
    cases hfirst : config.retryPolicy <;> cases hsecond : other.retryPolicy <;>
      simp only [hfirst, hsecond] at heq hhead <;>
      first | exact absurd hhead (by decide) | skip
    · rfl
    · simp only [List.append_assoc, List.append_cancel_left_eq, utf8_colon_append,
        decimal_append_colon_inj, UInt32.toNat_inj, Backoff.key_injective.eq_iff] at heq
      rw [heq.1, heq.2]
    · rw [List.append_cancel_left_eq, Backoff.key_injective.eq_iff] at heq
      rw [heq]
  · intro heq
    unfold retryPolicyKey
    rw [heq]

/-! ## The pinned policy -/

namespace Op

/-- The configuration of an executed reserve. -/
def reserveConfig? : Op → Option WorkerConfig
  | reserve config availableCapacity _ _ => if availableCapacity = 0 then none else some config
  | _ => none

/-- The retry policy that an executed reserve or a failure request carries. -/
def retryPolicy? : Op → Option RetryPolicy
  | failOrRetry request => some request.retryPolicy
  | op => op.reserveConfig?.map WorkerConfig.retryPolicy

end Op

/-- The configuration of the first executed reserve. -/
def pinningConfig (ops : List Op) : Option WorkerConfig := ops.findSome? Op.reserveConfig?

/-- Every failure request carries the retry policy of the worker that was granted
its lease. -/
def CarriesPolicy (ops : List Op) : Prop :=
  ∀ first request rest, ops = first ++ .failOrRetry request :: rest →
    ∀ earlier config availableCapacity now leaseTokens later,
      first = earlier ++ .reserve config availableCapacity now leaseTokens :: later →
        (Op.reserve config availableCapacity now leaseTokens).Grants
            ((Store.empty.run earlier).reply (.reserve config availableCapacity now leaseTokens))
            request.workerId request.jobId request.leaseToken →
          config.retryPolicy = request.retryPolicy

namespace Registry

variable {registry : Registry}

/-- Registering pins the policy of the first worker only. -/
theorem retryPolicy_register (args : ReserveArgs) :
    (registry.register args).retryPolicy =
      registry.retryPolicy.or (some args.retryPolicyKey) := by
  unfold retryPolicy register
  dsimp only
  cases hpolicy : registry.cfg.lookup (utf8 "retry_policy") with
  | none => simp [retryPolicy, hpolicy]
  | some policy => simp [retryPolicy, hpolicy]

/-- A worker that is not refused has the key that is pinned from then on. -/
theorem retryPolicy_of_not_refuses {retryPolicyKey : Bytes}
    (hrefuses : ¬ registry.Refuses retryPolicyKey) :
    registry.retryPolicy.or (some retryPolicyKey) = some retryPolicyKey := by
  cases hpolicy : registry.retryPolicy with
  | none => rfl
  | some policy =>
      rw [Option.some_or, Option.some_inj]
      by_contra hne
      exact hrefuses ⟨policy, hpolicy, hne⟩

end Registry

namespace Store

variable {s : Store} {ops : List Op}

/-- Only an executed reserve of a namespace without policy pins one. -/
theorem retryPolicy_next (s : Store) (op : Op) :
    (s.next op).registry.retryPolicy =
      s.registry.retryPolicy.or (op.reserveConfig?.map WorkerConfig.retryPolicyKey) := by
  rw [registry_next]
  cases op with
  | reserve config availableCapacity now leaseTokens =>
      by_cases hcapacity : availableCapacity = 0
      · simp [hcapacity, Op.reserveConfig?]
      · simp only [hcapacity, false_or, Op.reserveConfig?, if_false, Option.map_some]
        split_ifs with hrefuses
        · obtain ⟨policy, hpolicy, _⟩ := hrefuses
          rw [hpolicy, Option.some_or]
        · exact Registry.retryPolicy_register _
  | heartbeat =>
      dsimp only
      split_ifs <;> exact Option.or_none.symm
  | _ => exact Option.or_none.symm

/-- The policy of a run is that of its first executed reserve. -/
theorem retryPolicy_run (ops : List Op) :
    (empty.run ops).registry.retryPolicy =
      (pinningConfig ops).map WorkerConfig.retryPolicyKey := by
  induction ops using List.reverseRecOn with
  | nil => rfl
  | append_singleton ops op ih =>
      rw [run_append, run_cons, run_nil, retryPolicy_next, ih, pinningConfig, pinningConfig,
        List.findSome?_append, Option.map_or]
      congr 2
      cases hconfig : op.reserveConfig? <;> simp [hconfig]

/-- A policy that is pinned stays pinned. -/
theorem pinningConfig_append {first : List Op} (rest : List Op) {config : WorkerConfig}
    (hpinned : pinningConfig first = some config) :
    pinningConfig (first ++ rest) = some config := by
  rw [pinningConfig, List.findSome?_append]
  exact congrArg (Option.or · _) hpinned

/-! ## Accepted and refused reserves -/

variable {config : WorkerConfig} {availableCapacity : ℕ} {now : Timestamp}
  {leaseTokens : List Bytes}

/-- A refused reserve answers with the mismatch and changes nothing. -/
theorem exec_reserve_of_refuses (hcapacity : availableCapacity ≠ 0)
    (hrefuses : s.registry.Refuses config.retryPolicyKey) :
    s.exec (.reserve config availableCapacity now leaseTokens) = (s, Reply.policyMismatch) := by
  obtain ⟨policy, hpolicy, hne⟩ := hrefuses
  have hlookup : s.cfg.lookup (utf8 "retry_policy") = some policy := hpolicy
  simp only [exec, if_neg hcapacity, reserve, hlookup]
  exact if_pos hne

/-- A reserve that grants a lease is executed and not refused. -/
theorem not_refuses_of_grants {workerId jobId leaseToken : Bytes}
    (hgrants : (Op.reserve config availableCapacity now leaseTokens).Grants
      (s.reply (.reserve config availableCapacity now leaseTokens)) workerId jobId leaseToken) :
    availableCapacity ≠ 0 ∧ ¬ s.registry.Refuses config.retryPolicyKey := by
  obtain ⟨_, _, hlease⟩ := hgrants
  have hcapacity : availableCapacity ≠ 0 := by
    rintro rfl
    exact List.not_mem_nil hlease
  refine ⟨hcapacity, fun hrefuses => ?_⟩
  rw [reply, exec_reserve_of_refuses hcapacity hrefuses] at hlease
  exact List.not_mem_nil hlease

/-- A reserve that is executed and not refused carries the pinned policy. -/
theorem pinned_of_not_refuses {first rest : List Op}
    (hops : ops = first ++ .reserve config availableCapacity now leaseTokens :: rest)
    (hcapacity : availableCapacity ≠ 0)
    (hrefuses : ¬ (empty.run first).registry.Refuses config.retryPolicyKey) :
    (pinningConfig ops).map WorkerConfig.retryPolicy = some config.retryPolicy := by
  have hnext := retryPolicy_next (empty.run first)
    (.reserve config availableCapacity now leaseTokens)
  rw [Op.reserveConfig?, if_neg hcapacity, Option.map_some,
    Registry.retryPolicy_of_not_refuses hrefuses] at hnext
  have hrun := retryPolicy_run (first ++ [.reserve config availableCapacity now leaseTokens])
  rw [run_append, run_cons, run_nil, hnext, eq_comm, Option.map_eq_some_iff] at hrun
  obtain ⟨pinned, hpinned, hkey⟩ := hrun
  have hsplit : ops = (first ++ [.reserve config availableCapacity now leaseTokens]) ++ rest := by
    simp [hops]
  rw [hsplit, pinningConfig_append rest hpinned, Option.map_some,
    WorkerConfig.retryPolicyKey_inj.mp hkey]

/-- A failure request that is answered ok carries the pinned policy, since its lease
was granted by a reserve that passed the policy check. -/
theorem pinned_of_failOrRetry {first rest : List Op} {request : FailureRequest}
    (hcarries : CarriesPolicy ops) (hops : ops = first ++ .failOrRetry request :: rest)
    (hok : ((empty.run first).reply (.failOrRetry request)).isOk) :
    (pinningConfig ops).map WorkerConfig.retryPolicy = some request.retryPolicy := by
  obtain ⟨jobs, hrefines⟩ := exists_refines_run first
  have hcarry : (Op.failOrRetry request).Carries request.workerId request.jobId
      request.leaseToken := ⟨rfl, rfl, rfl⟩
  have hcurrent := hrefines.currentLease_iff.mpr ((hcarry.isOk_iff hrefines).mp hok)
  obtain ⟨earlier, op, later, hfirst, hgrants⟩ := granted_of_currentLease hcurrent
  cases op with
  | reserve config availableCapacity now leaseTokens =>
      obtain ⟨hcapacity, hrefuses⟩ := not_refuses_of_grants hgrants
      have hpolicy := hcarries first request rest hops earlier config availableCapacity now
        leaseTokens later hfirst hgrants
      have hsplit : ops = earlier ++ .reserve config availableCapacity now leaseTokens ::
          (later ++ .failOrRetry request :: rest) := by
        simp [hops, hfirst]
      rw [← hpolicy]
      exact pinned_of_not_refuses hsplit hcapacity hrefuses
  | _ => exact hgrants.elim

/-- A namespace has one retry policy. The first executed reserve pins it and it
never changes, every executed reserve and every failure request that is answered ok
carries it, and a reserve with another policy is refused, is granted nothing and
registers nothing. The keys that are compared tell all policies apart. -/
theorem one_retry_policy {ops : List Op} (hcarries : CarriesPolicy ops) :
    (∀ first second rest, ops = first ++ second ++ rest →
      (empty.run first).registry.retryPolicy =
          (pinningConfig first).map WorkerConfig.retryPolicyKey ∧
        ((empty.run first).registry.retryPolicy.isSome →
          (empty.run (first ++ second)).registry.retryPolicy =
            (empty.run first).registry.retryPolicy)) ∧
    (∀ first op rest policy, ops = first ++ op :: rest → op.retryPolicy? = some policy →
      ((empty.run first).reply op).isOk →
        (pinningConfig ops).map WorkerConfig.retryPolicy = some policy) ∧
    (∀ first config availableCapacity now leaseTokens rest,
      ops = first ++ .reserve config availableCapacity now leaseTokens :: rest →
        availableCapacity ≠ 0 →
          (pinningConfig ops).map WorkerConfig.retryPolicy ≠ some config.retryPolicy →
            let op := Op.reserve config availableCapacity now leaseTokens
            parseReserveResponse config.workerId ((empty.run first).reply op) =
                .error (.invalidConfig .retryPolicyMismatch) ∧
              ((empty.run first).reply op).leases = [] ∧
              (empty.run first).next op = empty.run first) ∧
    (∀ config other : WorkerConfig, config.retryPolicyKey = other.retryPolicyKey ↔
      config.retryPolicy = other.retryPolicy) ∧
    Function.Injective Backoff.key := by
  refine ⟨?_, ?_, ?_, fun _ _ => WorkerConfig.retryPolicyKey_inj, Backoff.key_injective⟩
  · intro first second rest _
    refine ⟨retryPolicy_run first, fun hpinned => ?_⟩
    simp only [retryPolicy_run, Option.isSome_map] at hpinned ⊢
    obtain ⟨config, hconfig⟩ := Option.isSome_iff_exists.mp hpinned
    rw [pinningConfig_append second hconfig, hconfig]
  · intro first op rest policy hops hpolicy hok
    cases op with
    | reserve config availableCapacity now leaseTokens =>
        simp only [Op.retryPolicy?, Op.reserveConfig?] at hpolicy
        split_ifs at hpolicy with hcapacity
        · cases hpolicy
        · cases hpolicy
          refine pinned_of_not_refuses hops hcapacity fun hrefuses => ?_
          rw [reply, exec_reserve_of_refuses hcapacity hrefuses] at hok
          exact absurd hok (by simp [Reply.policyMismatch])
    | failOrRetry request =>
        cases hpolicy
        exact pinned_of_failOrRetry hcarries hops hok
    | _ => cases hpolicy
  · intro first config availableCapacity now leaseTokens rest hops hcapacity hother
    have hrefuses : (empty.run first).registry.Refuses config.retryPolicyKey := by
      by_contra hrefuses
      exact hother (pinned_of_not_refuses hops hcapacity hrefuses)
    dsimp only
    rw [reply, next, exec_reserve_of_refuses hcapacity hrefuses]
    exact ⟨rfl, rfl, rfl⟩

/-- The worker of the sample run fails its attempt under the pinned policy. -/
theorem one_retry_policy_sample :
    let request : FailureRequest :=
      ⟨"worker", "job", "token", .retryable, .count 1 .none, .ofSeconds 3⟩
    (pinningConfig (sampleLeaseRun ++ [.failOrRetry request])).map WorkerConfig.retryPolicy =
      some request.retryPolicy := by
  intro request
  have hcarries : CarriesPolicy (sampleLeaseRun ++ [.failOrRetry request]) := by
    intro first failed rest hops earlier config availableCapacity now leaseTokens later hfirst _
    have hfailed : Op.failOrRetry failed ∈ sampleLeaseRun ++ [.failOrRetry request] := by
      simp [hops]
    have hreserve : Op.reserve config availableCapacity now leaseTokens ∈
        sampleLeaseRun ++ [.failOrRetry request] := by
      simp [hops, hfirst]
    simp only [sampleLeaseRun, List.cons_append, List.nil_append, List.mem_cons, reduceCtorEq,
      Op.failOrRetry.injEq, Op.reserve.injEq, List.not_mem_nil, false_or, or_false]
      at hfailed hreserve
    rw [hfailed, hreserve.1]
    rfl
  exact (one_retry_policy hcarries).2.1 sampleLeaseRun (.failOrRetry request) [] _ rfl rfl
    (by decide)

end Store

end Redloop
