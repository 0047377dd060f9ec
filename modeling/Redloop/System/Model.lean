/-
# Clients, workers and Redis

The whole of one namespace: clients and workers send store calls, Redis executes
each of them at most once and in any order, and a worker learns what its client
read from the reply of the call it waits for, or that the command failed. A call
whose caller is gone is still executed. Replies can be lost, workers can crash at
any time and start again, and what happens is recorded in a history.
-/

import Redloop.Queue.Fencing
import Redloop.Store.Decode
import Redloop.Worker.Changes

namespace Redloop

/-! ## Calls -/

/-- The operations of clients and operators. The others are sent by workers. -/
def Op.IsClient : Op → Prop
  | enqueue _ _ | reschedule _ _ _ | operator _ _ _ => True
  | purgeFailedRead _ | purgeFailedDelete _ | workersCleanup _ => True
  | _ => False

instance : DecidablePred Op.IsClient
  | .enqueue _ _ | .reschedule _ _ _ | .operator _ _ _ => instDecidableTrue
  | .purgeFailedRead _ | .purgeFailedDelete _ | .workersCleanup _ => instDecidableTrue
  | .reserve _ _ _ _ | .heartbeat _ _ _ _ _ | .ack _ _ _ _ => instDecidableFalse
  | .completeAndReschedule _ _ _ _ _ | .failOrRetry _ | .reapExpired _ _ => instDecidableFalse

/-- A store call that was sent: the worker that sent it, or none for a client, and what
Redis answered when it executed the call. -/
structure Call where
  sender : Option ℕ
  op : Op
  reply : Option Reply

namespace Call

/-- A call that is not executed yet. -/
def send (sender : Option ℕ) (op : Op) : Call := ⟨sender, op, none⟩

/-- Redis executes the call. -/
def execute (call : Call) (store : Store) : Call :=
  { call with reply := some (store.reply call.op) }

/-- What the worker's client reads from the reply to a reserve. -/
def batch? (call : Call) : Option (Except Error ReserveBatch) :=
  match call.op, call.reply with
  | .reserve config _ _ _, some reply => some (parseReserveResponse config.workerId reply)
  | _, _ => none

/-- What the worker's client reads from the reply to a call whose result has no value,
or whose value the worker drops. -/
def result? (call : Call) (namespaceName : Bytes) : Option (Except Error Unit) :=
  match call.op, call.reply with
  | .heartbeat _ jobId _ _ _, some reply => some (parseLeaseResponse jobId reply)
  | .ack _ jobId _ _, some reply => some (parseLeaseResponse jobId reply)
  | .completeAndReschedule _ jobId _ _ _, some reply => some (parseLeaseResponse jobId reply)
  | .failOrRetry request, some reply =>
      some ((parseFailureResponse request.jobId reply).map fun _ => ())
  | .reapExpired _ _, some reply => some ((parseReapResponse namespaceName reply).map fun _ => ())
  | _, _ => none

end Call

/-- A command fails without a reply: it times out, or the client reports an error. -/
def Error.IsTransport : Error → Prop
  | redis _ _ | commandTimedOut _ _ => True
  | _ => False

instance : DecidablePred Error.IsTransport
  | .redis _ _ | .commandTimedOut _ _ => instDecidableTrue
  | .jobIdTooLong _ | .invalidState _ _ | .notFound _ | .leaseMismatch _ => instDecidableFalse
  | .invalidConfig _ | .invalidCursor _ | .invalidTimestamp _ => instDecidableFalse
  | .invalidData _ | .workerTaskJoin => instDecidableFalse

/-- The result of a command that failed without a reply. -/
def IsFailure {α : Type} : Except Error α → Prop
  | .error error => error.IsTransport
  | .ok _ => False

instance {α : Type} : DecidablePred (IsFailure (α := α))
  | .error error => inferInstanceAs (Decidable error.IsTransport)
  | .ok _ => instDecidableFalse

/-! ## State -/

/-- A worker process, and the call whose reply it waits for. -/
structure Process where
  worker : Worker
  awaiting : Option ℕ
  alive : Bool

/-- What is recorded: a call that Redis executed, a handler that was started, a handler
that ended, and an attempt whose completion was answered. -/
inductive Entry
  | executed (id : ℕ) (sender : Option ℕ) (op : Op) (reply : Reply)
  | spawned (pid : ℕ) (lease : ReservedJob)
  | finished (pid : ℕ) (task : FinishedTask)
  | answered (pid : ℕ) (key : LeaseAttemptKey)
  deriving DecidableEq

/-- The operation of an execution. -/
def Entry.op? : Entry → Option Op
  | executed _ _ op _ => some op
  | _ => none

/-- The operations that a history executed, in their order. -/
def executedOps (history : List Entry) : List Op := history.filterMap Entry.op?

/-- The system of one namespace. Calls and processes are known by their position; the
answers to the calls in `lost` reach nobody any more. -/
structure System where
  namespaceName : Bytes
  store : Store
  sent : List Call
  lost : List ℕ
  processes : List Process
  history : List Entry

/-- What can happen: a client sends a call, a worker is started or crashes, Redis
executes a call, the answer to a call is lost, or a worker observes an event. -/
inductive Action
  | submit (op : Op)
  | start (config : WorkerConfig) (instant : Instant)
  | crash (pid : ℕ)
  | execute (id : ℕ)
  | lose (id : ℕ)
  | observe (pid : ℕ) (moment : Moment) (event : Event)

/-! ## Workers and their replies -/

namespace Worker

/-- The worker waits for the reply to a store call. -/
def AwaitsReply (w : Worker) : Prop :=
  match w.phase with
  | .completing _ _ | .heartbeating _ _ _ | .reaping => True
  | .selecting select => select.startedAt.isSome ∧ w.ReserveEnabled select.capacity
  | .top | .entering | .returned _ => False

instance (w : Worker) : Decidable w.AwaitsReply := by
  unfold AwaitsReply
  split <;> infer_instance

end Worker

/-- The attempt that an event resolves in a phase: its completion is answered, or its
lease is gone. -/
def resolvedKey (phase : Phase) (event : Event) : Option LeaseAttemptKey :=
  match phase, event with
  | .completing completed _, .resume (.ok ()) => some completed.attemptKey
  | .completing completed _, .resume (.error (.leaseMismatch _)) => some completed.attemptKey
  | _, _ => none

/-- What is recorded when a worker observes an event. -/
def entriesOf (pid : ℕ) (phase : Phase) (event : Event) (effects : List Effect) : List Entry :=
  (match event with
    | .finish task => [.finished pid task]
    | _ => []) ++
  ((resolvedKey phase event).toList.map (.answered pid) ++ (spawns effects).map (.spawned pid))

/-- An event tells the worker that the command it waits for failed. -/
def Event.ReportsFailure : Event → Prop
  | .poll ready => ∃ reserved ∈ ready.reserved, IsFailure reserved
  | .resume reply => IsFailure reply
  | _ => False

instance : DecidablePred Event.ReportsFailure
  | .poll ready =>
      match hready : ready.reserved with
      | none => isFalse (by simp [Event.ReportsFailure, hready])
      | some reserved =>
          decidable_of_iff (IsFailure reserved) (by simp [Event.ReportsFailure, hready])
  | .resume reply => inferInstanceAs (Decidable (IsFailure reply))
  | .finish _ | .turn _ | .enter _ => instDecidableFalse

/-- A worker can be told what its client read from a reply, or that the command failed. -/
def Answers {α : Type} (read : Option (Except Error α)) (result : Except Error α) : Prop :=
  read = some result ∨ IsFailure result

instance {α : Type} [DecidableEq α] (read : Option (Except Error α)) (result : Except Error α) :
    Decidable (Answers read result) :=
  inferInstanceAs (Decidable (_ ∨ _))

namespace System

/-- A call whose answer can still arrive. -/
def arriving (s : System) (id : ℕ) : Option Call := if id ∈ s.lost then none else s.sent[id]?

/-- The replies that an event reports are those of the call the process waits for. -/
def Delivers (s : System) (process : Process) : Event → Prop
  | .poll ready =>
      match ready.reserved, process.awaiting with
      | none, _ => True
      | some _, none => False
      | some reserved, some id => Answers ((s.arriving id).bind Call.batch?) reserved
  | .resume reply =>
      match process.awaiting with
      | none => False
      | some id => Answers ((s.arriving id).bind (Call.result? · s.namespaceName)) reply
  | _ => True

instance (s : System) (process : Process) : DecidablePred (s.Delivers process)
  | .poll ready => by
      unfold Delivers
      dsimp only
      split <;> infer_instance
  | .resume reply => by
      unfold Delivers
      dsimp only
      split <;> infer_instance
  | .finish _ | .turn _ | .enter _ => instDecidableTrue

/-- The tokens of new calls are in no call that was sent. -/
def Fresh (s : System) (ops : List Op) : Prop :=
  ∀ op ∈ ops, ∀ call ∈ s.sent, ∀ token ∈ op.leaseTokens, token ∉ call.op.leaseTokens

instance (s : System) (ops : List Op) : Decidable (s.Fresh ops) :=
  inferInstanceAs (Decidable (∀ op ∈ ops, ∀ call ∈ s.sent, _))

/-- The lost answers after an event that may report that the awaited command failed. -/
def lostAfter (s : System) (process : Process) (event : Event) : List ℕ :=
  if event.ReportsFailure then process.awaiting.toList ++ s.lost else s.lost

/-! ## Steps -/

/-- The namespace before anything happened. -/
def initial (namespaceName : Bytes) : System := ⟨namespaceName, .empty, [], [], [], []⟩

/-- A worker has observed an event: the store call it makes is sent and it waits for the
reply, or it goes on as before. -/
def observed (s : System) (pid : ℕ) (process : Process) (event : Event) (worker : Worker)
    (effects : List Effect) : System :=
  { s with
    sent := s.sent ++ (calls effects).map (Call.send (some pid))
    lost := s.lostAfter process event
    processes := s.processes.set pid
      { process with
        worker := worker
        awaiting :=
          if calls effects ≠ [] then some s.sent.length
          else if worker.AwaitsReply then process.awaiting
          else none }
    history := s.history ++ entriesOf pid process.worker.phase event effects }

/-- A worker observes an event, when it is alive and the event can happen. -/
def observe (s : System) (pid : ℕ) (process : Process) (moment : Moment) (event : Event) :
    Option System :=
  match process.worker.step moment event with
  | none => none
  | some (worker, effects) =>
      if process.alive ∧ s.Delivers process event ∧ s.Fresh (calls effects) then
        some (s.observed pid process event worker effects)
      else none

/-- The system after an action, when the action can happen. -/
def step (s : System) : Action → Option System
  | .submit op =>
      if op.IsClient then some { s with sent := s.sent ++ [.send none op] } else none
  | .start config instant =>
      match Worker.start s.namespaceName config instant with
      | .ok worker => some { s with processes := s.processes ++ [⟨worker, none, true⟩] }
      | .error _ => none
  | .crash pid =>
      match s.processes[pid]? with
      | some process =>
          some { s with processes := s.processes.set pid { process with alive := false } }
      | none => none
  | .execute id =>
      match s.sent[id]? with
      | some call =>
          if call.reply = none then
            some
              { s with
                store := s.store.next call.op
                sent := s.sent.set id (call.execute s.store)
                history := s.history ++
                  [.executed id call.sender call.op (s.store.reply call.op)] }
          else none
      | none => none
  | .lose id => if id < s.sent.length then some { s with lost := id :: s.lost } else none
  | .observe pid moment event =>
      match s.processes[pid]? with
      | some process => s.observe pid process moment event
      | none => none

/-- The system after a sequence of actions. -/
def run (s : System) (actions : List Action) : Option System := runTrace step s actions

end System

/-- A client enqueues a job, and a worker asks Redis for it. -/
def sampleReserveActions : List Action :=
  [.submit (.enqueue ⟨"job", none, .always, true⟩ (.ofSeconds 11)), .execute 0,
    .start sampleConfig 0, .observe 0 (.ofMillis 11) (.turn []),
    .observe 0 (.ofMillis 12) (.enter ["token"]), .observe 0 (.ofMillis 13) (.poll {}), .execute 1]

/-- The worker starts a handler for the job, which completes, and Redis executes its ack. -/
def sampleAckActions : List Action :=
  sampleReserveActions ++
    [.observe 0 (.ofMillis 14) (.poll { reserved := some (.ok ⟨[⟨"job", "token"⟩], none⟩) }),
      .observe 0 (.ofMillis 15) (.finish ⟨⟨"job", "token"⟩, some (.ok .complete)⟩),
      .observe 0 (.ofMillis 16) (.turn [⟨"job", "token"⟩]), .execute 2]

end Redloop
