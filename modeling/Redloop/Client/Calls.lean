/-
# Calls on one queue

Clients and workers share a deployment, and their commands run between each other. All
of them see one queue for each namespace nevertheless: the commands that have run, taken
one after another from the empty queue, give every reply that a call has got, in an order
that agrees with the order of the commands within a call and with the order of calls that
do not overlap. What a caller cannot know is where its failed commands stand in it, and
whether they do.
-/

import Redloop.Client.Catalog
import Redloop.Data.Linear

namespace Redloop

namespace Deployment

open Keyspace

variable {first second : List DeploymentEvent} {s middle : Deployment}

/-- The operations of one namespace explain a log: each reply is that of the operations before
it. -/
def ExplainedBy (log : List (Served Command Reply)) : Prop :=
  ∀ before index keyPrefix name op reply after,
    log = before ++ ⟨index, .exec keyPrefix name op, reply⟩ :: after →
      reply = (Store.empty.run (opsIn keyPrefix name before)).reply op

theorem explainedBy_log (hrun : run first = some s) : ExplainedBy s.log := by
  intro before index keyPrefix name op reply after hsplit
  have hanswered := (Service.log_run hrun).2 before _ after hsplit
  rw [← readStore_serverAfter]
  exact hanswered

/-- In every run of a deployment, the log of the commands that have run is a sequential run that
all calls agree with. Each namespace is where its own operations lead from the empty queue, and
each reply is that of its own operations before. A call does what its program does with its
answers; each of its commands has run once or, unless it was answered, not at all, and the
answered ones stand in the log in the order of the call. A call that has ended at some point of the
run has no commands after it but failed ones, and a call that starts later has none before it. -/
theorem calls_linearize (hmiddle : run first = some middle)
    (hrun : run (first ++ second) = some s) :
    (∀ keyPrefix name, s.server.readStore (namespaceKeys keyPrefix name) =
        Store.empty.run (opsIn keyPrefix name s.log)) ∧
      ExplainedBy s.log ∧
      (∀ index session, s.sessions[index]? = some session →
        (Invocation.body session.method).Reaches session.exchanges session.current ∧
          ((s.servedTo index).map Prod.fst ++ session.pending).Perm session.made ∧
          session.answered.Sublist (s.servedTo index)) ∧
      ∃ later, s.log = middle.log ++ later ∧
        (∀ served ∈ middle.log, served.index < middle.sessions.length) ∧
        ∀ served ∈ later, ∀ session result, middle.sessions[served.index]? = some session →
          session.result? = some result →
            ∃ error, (served.request, .error error) ∈ session.exchanges := by
  refine ⟨?_, explainedBy_log hrun, ?_, ?_⟩
  · intro keyPrefix name
    rw [(Service.log_run hrun).1, readStore_serverAfter]
  · intro index session hsession
    have honce := Service.once_run hrun hsession
    have hsound := (Service.sound_run hrun).2 index session hsession
    exact ⟨hsound.reaches, honce.perm, honce.sublist⟩
  · obtain ⟨howners, hsound⟩ := Service.sound_run hmiddle
    obtain ⟨later, hlog, hended⟩ := Service.log_grows hmiddle hrun
    refine ⟨later, hlog, howners, ?_⟩
    intro served hmem session result hsession hresult
    have habandoned := (hended _ session result hsession hresult).2 served hmem rfl
    exact (hsound _ session hsession).failed_of_abandoned _ habandoned

/-- After the sample batch has returned, an operator makes its job ready at once. -/
def sampleLaterEvents : List DeploymentEvent :=
  [.start ⟨⟨"", "jobs"⟩, .requeue "job"⟩, .send 1 (.ofSeconds 43), .serve 1, .deliver 1]

/-- The operator's command has run after those of the sample batch, in one sequential run. -/
theorem calls_linearize_sample :
    ∃ middle s later, run sampleBatchEvents = some middle ∧
      run (sampleBatchEvents ++ sampleLaterEvents) = some s ∧ s.log = middle.log ++ later ∧
        s.server.readStore (namespaceKeys "" "jobs") =
          Store.empty.run (opsIn "" "jobs" (middle.log ++ later)) := by
  obtain ⟨middle, hmiddle⟩ : ∃ middle, run sampleBatchEvents = some middle := ⟨_, rfl⟩
  obtain ⟨s, hrun⟩ : ∃ s, run (sampleBatchEvents ++ sampleLaterEvents) = some s := ⟨_, rfl⟩
  obtain ⟨hstore, _, _, later, hlog, _⟩ := calls_linearize hmiddle hrun
  refine ⟨middle, s, later, hmiddle, hrun, hlog, ?_⟩
  rw [← hlog]
  exact hstore "" "jobs"

end Deployment

end Redloop
