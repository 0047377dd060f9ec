/-
# Enqueue and reschedule

One script serves immediate enqueues, scheduled enqueues and reschedules. It
reads the job's current placement once, and the three operations decide
separately what to do with it. A requested time of zero, or one that has already
passed, asks for the ready set at the current time.
-/

import Redloop.Store.State

namespace Redloop

/-- The operations of the enqueue script. -/
inductive EnqueueOp
  | enqueueImmediate
  | enqueueScheduled
  | reschedule
  deriving DecidableEq

/-- Where a request asks the job to wait, and the schedule it reports. -/
structure Target where
  state : JobState
  score : ℤ
  scheduleValue : ℤ

/-- The placement a requested time stands for. -/
def normalizeTarget (requestedUs nowUs : ℤ) : Target :=
  if requestedUs = 0 ∨ requestedUs ≤ nowUs then ⟨.ready, nowUs, 0⟩
  else ⟨.scheduled, requestedUs, requestedUs⟩

/-- Whether the replace mode lets a target score replace an existing one. -/
def ReplaceMode.shouldReplace (mode : ReplaceMode) (targetScore existingScore : ℤ) : Bool :=
  match mode with
  | .ifEarlier => targetScore < existingScore
  | .ifLater => existingScore < targetScore
  | .always => true

namespace Store

/-- Take a waiting job out of its set. -/
def removeWaiting (s : Store) (state : JobState) (jobId : Bytes) : Store :=
  match state with
  | .ready => { s with ready := s.ready.erase jobId }
  | .scheduled => { s with scheduled := s.scheduled.erase jobId }
  | _ => s

/-- Put a job where a target asks for it. -/
def addTarget (s : Store) (target : Target) (jobId : Bytes) : Store :=
  match target.state with
  | .ready => { s with ready := s.ready.add jobId target.score }
  | _ => { s with scheduled := s.scheduled.add jobId target.score }

/-- Drop a rerun marker. -/
def clearRerun (s : Store) (jobId : Bytes) : Store := { s with rerun := s.rerun.erase jobId }

/-- Forget that a job has failed. -/
def clearFailed (s : Store) (jobId : Bytes) : Store :=
  { s with
    failed := s.failed.erase jobId
    failures := Finmap.erase jobId s.failures
    rerun := s.rerun.erase jobId }

/-- The move shared by reschedule and scheduled enqueue of a waiting job. -/
def moveWaiting (s : Store) (state : JobState) (target : Target) (jobId : Bytes) : Store :=
  ((s.removeWaiting state jobId).clearRerun jobId).addTarget target jobId

/-- The schedule reported for a waiting job that stays where it is. -/
def existingSchedule (state : JobState) (score : ℤ) : ℤ :=
  if state = .scheduled then score else 0

/-- The reschedule branch of the script. -/
def reschedule (s : Store) (jobId : Bytes) (nowUs requestedUs : ℤ) (mode : ReplaceMode) :
    Store × Reply :=
  match s.currentState jobId with
  | (none, _) => (s, Reply.notFound)
  | (some state, score) =>
      if state = .leased ∨ state = .failed then (s, Reply.invalidState state)
      else
        let target := normalizeTarget requestedUs nowUs
        if ¬ mode.shouldReplace target.score score then
          (s, ["ok", "unchanged", state.asStr, fixedText (existingSchedule state score)])
        else if state = target.state ∧ score = target.score then
          (s, ["ok", "unchanged", state.asStr, fixedText target.scheduleValue])
        else
          (s.moveWaiting state target jobId,
            ["ok", "updated", target.state.asStr, fixedText target.scheduleValue])

/-- The immediate branch, for a job found in the given state after a failed job
has been cleared. -/
def enqueueImmediate (s : Store) (jobId : Bytes) (nowUs : ℤ) (state : Option JobState)
    (wasFailed : Bool) : Store × Reply :=
  match state with
  | some .ready => (s, ["ok", "unchanged", "ready", "0"])
  | some .leased =>
      if jobId ∈ s.rerun then (s, ["ok", "unchanged", "leased", "0"])
      else ({ s with rerun := insert jobId s.rerun }, ["ok", "updated", "leased", "0"])
  | some .scheduled =>
      ({ s with
          scheduled := s.scheduled.erase jobId
          rerun := s.rerun.erase jobId
          ready := s.ready.add jobId nowUs },
        ["ok", "updated", "ready", "0"])
  | _ =>
      ({ s with ready := s.ready.add jobId nowUs },
        if wasFailed then ["ok", "updated", "ready", "0"] else ["ok", "created", "ready", "0"])

/-- The scheduled branch, for a job found in the given state after a failed job
has been cleared. -/
def enqueueScheduled (s : Store) (jobId : Bytes) (nowUs requestedUs : ℤ) (mode : ReplaceMode)
    (state : Option JobState) (score : ℤ) (wasFailed : Bool) : Store × Reply :=
  let target := normalizeTarget requestedUs nowUs
  match state with
  | some .leased => (s, Reply.invalidState .leased)
  | none =>
      ((s.clearRerun jobId).addTarget target jobId,
        if wasFailed then
          ["ok", "updated", target.state.asStr, generalText 14 target.scheduleValue]
        else ["ok", "created", target.state.asStr, fixedText target.scheduleValue])
  | some state =>
      if state = target.state ∧ score = target.score then
        (s, ["ok", "unchanged", state.asStr, fixedText target.scheduleValue])
      else if ¬ mode.shouldReplace target.score score then
        (s, ["ok", "unchanged", state.asStr, fixedText (existingSchedule state score)])
      else
        (s.moveWaiting state target jobId,
          ["ok", "updated", target.state.asStr, fixedText target.scheduleValue])

/-- The script `enqueue_or_reschedule`. The times are the integers whose numerals
the caller passes. -/
def enqueueOrReschedule (s : Store) (op : EnqueueOp) (jobId : Bytes) (now requested : ℤ)
    (mode : ReplaceMode) : Store × Reply :=
  let nowUs := Double.ofInt now
  let requestedUs := Double.ofInt requested
  match op with
  | .reschedule => s.reschedule jobId nowUs requestedUs mode
  | _ =>
      let (found, foundScore) := s.currentState jobId
      let wasFailed := found = some .failed
      let cleared := if wasFailed then s.clearFailed jobId else s
      let state := if wasFailed then none else found
      let score := if wasFailed then 0 else foundScore
      match op with
      | .enqueueImmediate => cleared.enqueueImmediate jobId nowUs state wasFailed
      | _ => cleared.enqueueScheduled jobId nowUs requestedUs mode state score wasFailed

end Store

end Redloop
