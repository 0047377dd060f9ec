/-
# Client methods

What the handles of a client and the workers do with the keyspace. A method checks its
arguments, sends commands one after another, each with the time at which it is sent,
reads the replies, and ends at the first error. Methods that only read are not among
them. Clients share the deployment with all others: their commands run one at a time,
a command that has failed may have run, or may still run, and a client can stop at any
point.
-/

import Redloop.Data.Orderly
import Redloop.Keyspace.Isolation
import Redloop.Store.Decode

namespace Redloop

open Keyspace

/-! ## Requests -/

/-- What the builders make: a request to run now, which joins a current run, or a request
for a time, which says how it treats a placement that it finds. -/
def EnqueueRequest.Built (request : EnqueueRequest) : Prop :=
  if request.allowExistingCurrentRun then
    request.scheduleAt = none ∧ request.replaceMode = .always
  else request.scheduleAt.isSome

/-- Batch enqueue item built from the fluent job API. -/
structure BatchEnqueueItem where
  request : EnqueueRequest
  built : request.Built

/-- Namespace-scoped queue handle. -/
structure Namespace where
  keyPrefix : Bytes
  name : Bytes
  deriving DecidableEq

/-- Immediate job builder. -/
structure JobBuilder where
  handle : Namespace
  jobId : Bytes

/-- Scheduled job builder with replacement controls. -/
structure ScheduledJobBuilder where
  handle : Namespace
  jobId : Bytes
  scheduleAt : Timestamp
  replaceMode : ReplaceMode

namespace JobBuilder

/-- Moves the builder into the scheduled path. -/
def scheduleAt (builder : JobBuilder) (scheduleAt : Timestamp) : ScheduledJobBuilder :=
  ⟨builder.handle, builder.jobId, scheduleAt, .always⟩

/-- Converts the builder into a batch item. -/
def intoBatchItem (builder : JobBuilder) : BatchEnqueueItem where
  request := ⟨builder.jobId, none, .always, true⟩
  built := ⟨rfl, rfl⟩

end JobBuilder

namespace ScheduledJobBuilder

/-- Only replace an existing waiting placement when the new activation time is earlier. -/
def replaceIfEarlier (builder : ScheduledJobBuilder) : ScheduledJobBuilder :=
  { builder with replaceMode := .ifEarlier }

/-- Only replace an existing waiting placement when the new activation time is later. -/
def replaceIfLater (builder : ScheduledJobBuilder) : ScheduledJobBuilder :=
  { builder with replaceMode := .ifLater }

/-- Converts the builder into a batch item. -/
def intoBatchItem (builder : ScheduledJobBuilder) : BatchEnqueueItem where
  request := ⟨builder.jobId, some builder.scheduleAt, builder.replaceMode, false⟩
  built := rfl

end ScheduledJobBuilder

/-- The builders make all such requests, and no others. -/
theorem EnqueueRequest.built_iff (request : EnqueueRequest) :
    request.Built ↔ ∃ builder : JobBuilder, request = builder.intoBatchItem.request ∨
      ∃ scheduleAt, ∃ scheduled ∈ [builder.scheduleAt scheduleAt,
          (builder.scheduleAt scheduleAt).replaceIfEarlier,
          (builder.scheduleAt scheduleAt).replaceIfLater],
        request = scheduled.intoBatchItem.request := by
  constructor
  · intro hbuilt
    obtain ⟨jobId, schedule, mode, immediate⟩ := request
    refine ⟨⟨⟨"", ""⟩, jobId⟩, ?_⟩
    cases immediate with
    | true =>
        obtain ⟨hschedule, hmode⟩ : schedule = none ∧ mode = .always := hbuilt
        subst hschedule hmode
        exact Or.inl rfl
    | false =>
        obtain ⟨scheduleAt, hschedule⟩ := Option.isSome_iff_exists.mp hbuilt
        dsimp only at hschedule
        subst hschedule
        refine Or.inr ⟨scheduleAt, ?_⟩
        cases mode with
        | always => exact ⟨_, List.mem_cons_self, rfl⟩
        | ifEarlier => exact ⟨_, List.mem_cons_of_mem _ List.mem_cons_self, rfl⟩
        | ifLater =>
            exact ⟨_, List.mem_cons_of_mem _ (List.mem_cons_of_mem _ List.mem_cons_self), rfl⟩
  · rintro ⟨builder, rfl | ⟨scheduleAt, scheduled, _, rfl⟩⟩
    · exact builder.intoBatchItem.built
    · exact scheduled.intoBatchItem.built

/-- Job ids have at most 256 bytes. -/
def validateJobId (jobId : Bytes) : Except Error Unit :=
  if 256 < jobId.length then .error (.jobIdTooLong jobId.length) else .ok ()

/-! ## Methods -/

/-- A method that sends commands and can fail. -/
abbrev Client := ExceptT Error (Program Timestamp Command (Except Error Reply))

namespace Namespace

variable (handle : Namespace)

/-- Run an operation in the namespace. -/
def exec (op : Timestamp → Op) : Client Reply :=
  Program.ask fun now => .exec handle.keyPrefix handle.name (op now)

/-- Enter the namespace into the catalog. A failure is logged and dropped. -/
def rememberNamespace : Client Unit :=
  Program.ignoreError
    (Program.ask fun _ => .rememberNamespace handle.keyPrefix handle.name : Client Reply)

/-- Enqueue one job. -/
def enqueueRequest (request : EnqueueRequest) : Client EnqueueResult := do
  Program.ofExcept (validateJobId request.jobId)
  let response ← handle.exec (.enqueue request)
  let result ← Program.ofExcept (parseEnqueueResponse request.jobId response)
  handle.rememberNamespace
  pure result

/-- Enqueue the items of a batch, one after another. -/
def enqueueBatch : List BatchEnqueueItem → Client (List EnqueueResult)
  | [] => pure []
  | item :: rest => do
      let result ← handle.enqueueRequest item.request
      let results ← enqueueBatch rest
      pure (result :: results)

/-- Reschedules a waiting job. -/
def reschedule (jobId : Bytes) (scheduleAt : Option Timestamp) : Client RescheduleResult := do
  Program.ofExcept (validateJobId jobId)
  let response ← handle.exec (.reschedule jobId scheduleAt)
  let result ← Program.ofExcept (parseRescheduleResponse jobId response)
  handle.rememberNamespace
  pure result

/-- Run an operator command on one job. -/
def operatorTransition (op : OperatorOp) (jobId : Bytes) : Client Unit := do
  Program.ofExcept (validateJobId jobId)
  let response ← handle.exec (.operator op jobId)
  Program.ofExcept (parseLeaseResponse jobId response)

/-- Cancels a scheduled or failed job. -/
def cancel (jobId : Bytes) : Client Unit := handle.operatorTransition .cancel jobId

/-- Force-acknowledges a leased job. -/
def forceAck (jobId : Bytes) : Client Unit := handle.operatorTransition .forceAck jobId

/-- Force-fails a leased job. -/
def forceFail (jobId : Bytes) : Client Unit := handle.operatorTransition .forceFail jobId

/-- Moves a scheduled or failed job into ready. -/
def requeue (jobId : Bytes) : Client Unit := handle.operatorTransition .requeue jobId

/-- Retries a failed or scheduled job immediately. -/
def retryNow (jobId : Bytes) : Client Unit := handle.operatorTransition .retryNow jobId

/-- Reactivates a failed job immediately. -/
def forceRetry (jobId : Bytes) : Client Unit := handle.operatorTransition .forceRetry jobId

/-- Purges failed jobs matching the selector. -/
def purgeFailed (selector : FailedSelector) : Client ℕ := do
  let jobIds ← handle.exec fun _ => .purgeFailedRead selector
  if jobIds.isEmpty then pure 0
  else
    let _ ← handle.exec fun _ => .purgeFailedDelete jobIds
    pure jobIds.length

/-- The delete transaction of a worker listing, for the workers that it found stale. -/
def workersCleanup (staleWorkers : List Bytes) : Client Unit :=
  if staleWorkers.isEmpty then pure ()
  else do
    let _ ← handle.exec fun _ => .workersCleanup staleWorkers
    pure ()

/-- Lease jobs to a worker. -/
def reserve (config : WorkerConfig) (availableCapacity : ℕ) (leaseTokens : List Bytes) :
    Client ReserveBatch :=
  if availableCapacity = 0 then pure ⟨[], none⟩
  else do
    let response ← handle.exec fun now => .reserve config availableCapacity now leaseTokens
    let batch ← Program.ofExcept (parseReserveResponse config.workerId response)
    handle.rememberNamespace
    pure batch

/-- Extend a lease. -/
def heartbeat (workerId jobId leaseToken : Bytes) (now : Timestamp) (leaseDuration : Duration) :
    Client Unit := do
  let response ← handle.exec fun _ => .heartbeat workerId jobId leaseToken now leaseDuration
  Program.ofExcept (parseLeaseResponse jobId response)

/-- Complete a job. -/
def ack (workerId jobId leaseToken : Bytes) : Client Unit := do
  let response ← handle.exec (.ack workerId jobId leaseToken)
  Program.ofExcept (parseLeaseResponse jobId response)

/-- Complete a job and schedule it again. -/
def completeAndReschedule (workerId jobId leaseToken : Bytes) (scheduleAt : Option Timestamp) :
    Client Unit := do
  let response ← handle.exec (.completeAndReschedule workerId jobId leaseToken scheduleAt)
  Program.ofExcept (parseLeaseResponse jobId response)

/-- Resolve a failed attempt. -/
def failOrRetry (request : FailureRequest) : Client ℕ := do
  let response ← handle.exec fun _ => .failOrRetry request
  Program.ofExcept (parseFailureResponse request.jobId response)

/-- Take expired leases back. -/
def reapExpired (limit : ℕ) : Client ℕ :=
  if limit = 0 then pure 0
  else do
    let response ← handle.exec fun now => .reapExpired now limit
    Program.ofExcept (parseReapResponse handle.name response)

end Namespace

/-- Executes the builder as an immediate enqueue. -/
def JobBuilder.execute (builder : JobBuilder) : Client EnqueueResult :=
  builder.handle.enqueueRequest ⟨builder.jobId, none, .always, true⟩

/-- Executes the scheduled builder. -/
def ScheduledJobBuilder.execute (builder : ScheduledJobBuilder) : Client EnqueueResult :=
  builder.handle.enqueueRequest
    ⟨builder.jobId, some builder.scheduleAt, builder.replaceMode, false⟩

/-- The methods, with their arguments. The request of a builder is that of its item. -/
inductive Method
  | execute (item : BatchEnqueueItem)
  | enqueueBatch (items : List BatchEnqueueItem)
  | reschedule (jobId : Bytes) (scheduleAt : Option Timestamp)
  | cancel (jobId : Bytes)
  | forceAck (jobId : Bytes)
  | forceFail (jobId : Bytes)
  | requeue (jobId : Bytes)
  | retryNow (jobId : Bytes)
  | forceRetry (jobId : Bytes)
  | purgeFailed (selector : FailedSelector)
  | workersCleanup (staleWorkers : List Bytes)
  | reserve (config : WorkerConfig) (availableCapacity : ℕ) (leaseTokens : List Bytes)
  | heartbeat (workerId jobId leaseToken : Bytes) (now : Timestamp) (leaseDuration : Duration)
  | ack (workerId jobId leaseToken : Bytes)
  | completeAndReschedule (workerId jobId leaseToken : Bytes) (scheduleAt : Option Timestamp)
  | failOrRetry (request : FailureRequest)
  | reapExpired (limit : ℕ)

/-- What a method returns. -/
inductive Answer
  | unit
  | enqueued (result : EnqueueResult)
  | batch (items : List EnqueueResult)
  | rescheduled (result : RescheduleResult)
  | reserved (batch : ReserveBatch)
  | count (count : ℕ)
  deriving DecidableEq

/-- A call of a method of a handle. -/
structure Invocation where
  handle : Namespace
  method : Method

namespace Invocation

/-- Wrap what a method returns. -/
def answer {α : Type} (wrap : α → Answer) (client : Client α) : Client Answer := do
  let result ← client
  pure (wrap result)

/-- What a call does. -/
def client (invocation : Invocation) : Client Answer :=
  let handle := invocation.handle
  match invocation.method with
  | .execute item => answer .enqueued (handle.enqueueRequest item.request)
  | .enqueueBatch items => answer .batch (handle.enqueueBatch items)
  | .reschedule jobId scheduleAt => answer .rescheduled (handle.reschedule jobId scheduleAt)
  | .cancel jobId => answer (fun _ => .unit) (handle.cancel jobId)
  | .forceAck jobId => answer (fun _ => .unit) (handle.forceAck jobId)
  | .forceFail jobId => answer (fun _ => .unit) (handle.forceFail jobId)
  | .requeue jobId => answer (fun _ => .unit) (handle.requeue jobId)
  | .retryNow jobId => answer (fun _ => .unit) (handle.retryNow jobId)
  | .forceRetry jobId => answer (fun _ => .unit) (handle.forceRetry jobId)
  | .purgeFailed selector => answer .count (handle.purgeFailed selector)
  | .workersCleanup staleWorkers => answer (fun _ => .unit) (handle.workersCleanup staleWorkers)
  | .reserve config availableCapacity leaseTokens =>
      answer .reserved (handle.reserve config availableCapacity leaseTokens)
  | .heartbeat workerId jobId leaseToken now leaseDuration =>
      answer (fun _ => .unit) (handle.heartbeat workerId jobId leaseToken now leaseDuration)
  | .ack workerId jobId leaseToken =>
      answer (fun _ => .unit) (handle.ack workerId jobId leaseToken)
  | .completeAndReschedule workerId jobId leaseToken scheduleAt =>
      answer (fun _ => .unit)
        (handle.completeAndReschedule workerId jobId leaseToken scheduleAt)
  | .failOrRetry request => answer .count (handle.failOrRetry request)
  | .reapExpired limit => answer .count (handle.reapExpired limit)

/-- A builder is executed by the call for its batch item. -/
theorem client_execute (builder : JobBuilder) :
    client ⟨builder.handle, .execute builder.intoBatchItem⟩ = answer .enqueued builder.execute :=
  rfl

/-- A scheduled builder is executed by the call for its batch item. -/
theorem client_execute_scheduled (builder : ScheduledJobBuilder) :
    client ⟨builder.handle, .execute builder.intoBatchItem⟩ = answer .enqueued builder.execute :=
  rfl

/-- The program of a call. -/
def body (invocation : Invocation) :
    Program Timestamp Command (Except Error Reply) (Except Error Answer) :=
  invocation.client.run

end Invocation

/-- The reply of a command, where an entry in a catalog is not answered with a text. -/
def Keyspace.serve (keyspace : Keyspace) (command : Command) : Keyspace × Reply :=
  match command with
  | .exec keyPrefix namespaceName op =>
      keyspace.exec (namespaceKeys keyPrefix namespaceName) op
  | .rememberNamespace keyPrefix namespaceName =>
      (keyspace.rememberNamespace keyPrefix namespaceName, [])

/-- The keyspace of a Redis deployment before anything happened. -/
def Keyspace.empty : Keyspace := fun _ => none

/-- A deployment with the calls of its clients and workers. -/
abbrev Deployment :=
  Service Keyspace Invocation Timestamp Command Reply Error (Except Error Answer)

/-- What can happen in a deployment. -/
abbrev DeploymentEvent := ServiceEvent Invocation Timestamp Error

namespace Deployment

/-- The deployment after a sequence of events. -/
abbrev run (events : List DeploymentEvent) : Option Deployment :=
  Service.run Keyspace.serve Invocation.body Keyspace.empty events

/-- The enqueues among the commands, in the namespace of whoever sends them. -/
def enqueueOf : Command → Option EnqueueRequest
  | .exec _ _ (.enqueue request _) => some request
  | _ => none

/-- The enqueues that have run for a call, with their replies, in their order. -/
def enqueued (s : Deployment) (index : ℕ) : List (EnqueueRequest × Reply) :=
  ofKind enqueueOf (s.servedTo index)

end Deployment

/-! ## Rules -/

namespace Namespace

variable {handle : Namespace} {α : Type}
  {asks : List (Command × Except Error Reply) → Command → Prop}
  {exchanges : List (Command × Except Error Reply)}

/-- The command that runs an operation in the namespace. -/
def command (handle : Namespace) (op : Op) : Command := .exec handle.keyPrefix handle.name op

/-- The command that enters the namespace into the catalog. -/
def rememberCommand (handle : Namespace) : Command :=
  .rememberNamespace handle.keyPrefix handle.name

@[simp]
theorem meets_exec {op : Timestamp → Op}
    {ends : List (Command × Except Error Reply) → Except Error Reply → Prop} :
    (handle.exec op).run.Meets asks ends exchanges ↔
      ∀ now, asks exchanges (handle.command (op now)) ∧
        ∀ response, ends (exchanges ++ [(handle.command (op now), response)]) response :=
  Program.meets_ask

@[simp]
theorem meets_rememberNamespace
    {ends : List (Command × Except Error Reply) → Except Error Unit → Prop} :
    handle.rememberNamespace.run.Meets asks ends exchanges ↔
      Timestamp → asks exchanges handle.rememberCommand ∧
        ∀ response, ends (exchanges ++ [(handle.rememberCommand, response)]) (.ok ()) := by
  rw [rememberNamespace, Program.meets_ignoreError, Program.meets_ask]
  rfl

/-- A job id of at most 256 bytes is valid. -/
theorem validateJobId_eq_ok_iff {jobId : Bytes} :
    validateJobId jobId = .ok () ↔ jobId.length ≤ 256 := by
  unfold validateJobId
  split_ifs with hlong
  · simpa using hlong
  · simpa using not_lt.mp hlong

/-- The rule of an enqueue: it is refused for its job id, or it is sent and fails, or it is
answered with an error, or it is answered and the namespace is remembered. -/
theorem meets_enqueueRequest {request : EnqueueRequest}
    {ends : List (Command × Except Error Reply) → Except Error EnqueueResult → Prop}
    (hlong : 256 < request.jobId.length →
      ends exchanges (.error (.jobIdTooLong request.jobId.length)))
    (hsend : request.jobId.length ≤ 256 → ∀ now,
      asks exchanges (handle.command (.enqueue request now)))
    (hfail : ∀ now error,
      ends (exchanges ++ [(handle.command (.enqueue request now), .error error)]) (.error error))
    (hrefuse : ∀ now reply error, parseEnqueueResponse request.jobId reply = .error error →
      ends (exchanges ++ [(handle.command (.enqueue request now), .ok reply)]) (.error error))
    (hanswer : ∀ now reply result, parseEnqueueResponse request.jobId reply = .ok result →
      let answered := exchanges ++ [(handle.command (.enqueue request now), .ok reply)]
      asks answered handle.rememberCommand ∧ ∀ response,
        ends (answered ++ [(handle.rememberCommand, response)]) (.ok result)) :
    (handle.enqueueRequest request).run.Meets asks ends exchanges := by
  unfold enqueueRequest
  simp only [Program.meets_run_bind, Program.meets_ofExcept, meets_exec, meets_rememberNamespace,
    Program.meets_run_pure]
  constructor
  · intro _ hvalid now
    refine ⟨hsend (validateJobId_eq_ok_iff.mp hvalid) now, ?_⟩
    rintro (error | reply)
    · refine ⟨by simp, ?_⟩
      rintro _ ⟨⟩
      exact hfail now error
    · refine ⟨?_, by simp⟩
      rintro _ ⟨⟩
      refine ⟨?_, fun error => hrefuse now reply error⟩
      intro result hresult _
      obtain ⟨hremember, hends⟩ := hanswer now reply result hresult
      exact ⟨hremember, fun response => ⟨fun _ _ => hends response, by simp⟩⟩
  · intro error hinvalid
    unfold validateJobId at hinvalid
    split_ifs at hinvalid with hlength
    cases hinvalid
    exact hlong hlength

end Namespace

end Redloop
