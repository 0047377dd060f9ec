/-
# Namespaces in one keyspace

All namespaces of all clients share the keyspace of one Redis deployment. An
operation reads the structures under the keys of its own namespace and writes
them back under the same keys, so a run of operations in any namespaces leaves
each namespace as if the others were not there.
-/

import Redloop.Keyspace.Keys
import Redloop.Store.Exec

namespace Redloop

/-- What is stored under a key. -/
inductive Value
  | texts (hash : Hash Bytes)
  | counters (hash : Hash ℤ)
  | scores (set : ZSet)
  | members (set : Finset Bytes)

/-- The keyspace of a Redis deployment. -/
def Keyspace := Bytes → Option Value

namespace Value

/-- The text hash under a key. A missing key reads as empty. -/
def toTexts : Option Value → Hash Bytes
  | some (texts hash) => hash
  | _ => ∅

/-- The counter hash under a key. -/
def toCounters : Option Value → Hash ℤ
  | some (counters hash) => hash
  | _ => ∅

/-- The sorted set under a key. -/
def toScores : Option Value → ZSet
  | some (scores set) => set
  | _ => ∅

/-- The set under a key. -/
def toMembers : Option Value → Finset Bytes
  | some (members set) => set
  | _ => ∅

end Value

namespace Store

/-- What is stored under the key of a structure. An empty structure has no key. -/
def value (s : Store) : KeyKind → Option Value
  | .cfg => if s.cfg = ∅ then none else some (.texts s.cfg)
  | .failures => if s.failures = ∅ then none else some (.counters s.failures)
  | .ready => if s.ready = ∅ then none else some (.scores s.ready)
  | .scheduled => if s.scheduled = ∅ then none else some (.scores s.scheduled)
  | .leased => if s.leased = ∅ then none else some (.scores s.leased)
  | .leaseMeta => if s.leaseMeta = ∅ then none else some (.texts s.leaseMeta)
  | .rerun => if s.rerun = ∅ then none else some (.members s.rerun)
  | .failed => if s.failed = ∅ then none else some (.scores s.failed)
  | .workersLastSeen => if s.workersLastSeen = ∅ then none else some (.scores s.workersLastSeen)
  | .workersConfig => if s.workersConfig = ∅ then none else some (.texts s.workersConfig)
  | .workersLeases => if s.workersLeases = ∅ then none else some (.counters s.workersLeases)

/-- The store that the structures of a namespace make up. -/
def ofValues (values : KeyKind → Option Value) : Store where
  cfg := Value.toTexts (values .cfg)
  failures := Value.toCounters (values .failures)
  ready := Value.toScores (values .ready)
  scheduled := Value.toScores (values .scheduled)
  leased := Value.toScores (values .leased)
  leaseMeta := Value.toTexts (values .leaseMeta)
  rerun := Value.toMembers (values .rerun)
  failed := Value.toScores (values .failed)
  workersLastSeen := Value.toScores (values .workersLastSeen)
  workersConfig := Value.toTexts (values .workersConfig)
  workersLeases := Value.toCounters (values .workersLeases)

/-- Reading back what was stored gives the store. -/
@[simp]
theorem ofValues_value (s : Store) : ofValues s.value = s := by
  obtain ⟨cfg, failures, ready, scheduled, leased, leaseMeta, rerun, failed, lastSeen, config,
    leases⟩ := s
  simp only [ofValues, value, mk.injEq]
  refine ⟨?_, ?_, ?_, ?_, ?_, ?_, ?_, ?_, ?_, ?_, ?_⟩ <;>
    split_ifs with hempty <;> first | exact hempty.symm | rfl

end Store

namespace Keyspace

variable {keyspace : Keyspace}

/-- The store of the namespace with the given keys. -/
def readStore (keyspace : Keyspace) (keys : NamespaceKeys) : Store :=
  .ofValues fun kind => keyspace (keys.key kind)

/-- Replace the structures of one namespace. -/
def writeStore (keyspace : Keyspace) (keys : NamespaceKeys) (s : Store) : Keyspace := fun key =>
  match KeyKind.all.find? fun kind => keys.key kind = key with
  | some kind => s.value kind
  | none => keyspace key

/-- Run an operation in the namespace with the given keys. -/
def exec (keyspace : Keyspace) (keys : NamespaceKeys) (op : Op) : Keyspace × Reply :=
  (keyspace.writeStore keys ((keyspace.readStore keys).next op),
    (keyspace.readStore keys).reply op)

/-- Add a namespace to the catalog of a key prefix. -/
def rememberNamespace (keyspace : Keyspace) (keyPrefix namespaceName : Bytes) : Keyspace :=
  fun key =>
    if key = namespacesKey keyPrefix then
      some (.members (insert namespaceName (Value.toMembers (keyspace key))))
    else keyspace key

/-- What clients do to a keyspace: operations in their namespaces, and entries in
the catalogs. -/
inductive Command
  | exec (keyPrefix namespaceName : Bytes) (op : Op)
  | rememberNamespace (keyPrefix namespaceName : Bytes)
  deriving DecidableEq

/-- The keyspace after a command. -/
def next (keyspace : Keyspace) : Command → Keyspace
  | .exec keyPrefix namespaceName op =>
      (keyspace.exec (namespaceKeys keyPrefix namespaceName) op).1
  | .rememberNamespace keyPrefix namespaceName =>
      keyspace.rememberNamespace keyPrefix namespaceName

/-- The keyspace after a sequence of commands. -/
def run (keyspace : Keyspace) (commands : List Command) : Keyspace := commands.foldl next keyspace

/-- The operation of a command in the given namespace. -/
def Command.opIn (keyPrefix namespaceName : Bytes) : Command → Option Op
  | exec commandPrefix commandName op =>
      if commandPrefix = keyPrefix ∧ commandName = namespaceName then some op else none
  | rememberNamespace _ _ => none

/-! ## Frames -/

/-- What a namespace reads after its structures were replaced. -/
theorem readStore_writeStore_self (keyPrefix namespaceName : Bytes) (s : Store) :
    (keyspace.writeStore (namespaceKeys keyPrefix namespaceName) s).readStore
      (namespaceKeys keyPrefix namespaceName) = s := by
  have hvalue (kind : KeyKind) :
      keyspace.writeStore (namespaceKeys keyPrefix namespaceName) s
        ((namespaceKeys keyPrefix namespaceName).key kind) = s.value kind := by
    unfold writeStore
    split
    · next found hfound =>
        have hkey := List.find?_some hfound
        rw [decide_eq_true_eq, key_namespaceKeys_inj] at hkey
        rw [hkey.2.2]
    · next hnone =>
        have hother := List.find?_eq_none.mp hnone kind kind.mem_all
        simp at hother
  simp only [readStore, hvalue]
  exact s.ofValues_value

/-- Writing one namespace changes no key of any other kind. -/
theorem writeStore_of_ne {keys : NamespaceKeys} {key : Bytes} (hne : ∀ kind, keys.key kind ≠ key)
    (s : Store) : keyspace.writeStore keys s key = keyspace key := by
  unfold writeStore
  rw [List.find?_eq_none.mpr fun kind _ => by simpa using hne kind]

/-- What a namespace reads after the structures of another were replaced. -/
theorem readStore_writeStore_of_ne {keyPrefix namespaceName otherPrefix otherName : Bytes}
    (hne : ¬ (keyPrefix = otherPrefix ∧ namespaceName = otherName)) (s : Store) :
    (keyspace.writeStore (namespaceKeys keyPrefix namespaceName) s).readStore
        (namespaceKeys otherPrefix otherName) =
      keyspace.readStore (namespaceKeys otherPrefix otherName) := by
  unfold readStore
  congr 1
  funext kind
  apply writeStore_of_ne
  intro written heq
  obtain ⟨hkeyPrefix, hname, _⟩ := key_namespaceKeys_inj.mp heq
  exact hne ⟨hkeyPrefix, hname⟩

/-- What a namespace reads after an entry in a catalog. -/
theorem readStore_rememberNamespace (keyPrefix namespaceName otherPrefix otherName : Bytes) :
    (keyspace.rememberNamespace keyPrefix namespaceName).readStore
        (namespaceKeys otherPrefix otherName) =
      keyspace.readStore (namespaceKeys otherPrefix otherName) := by
  unfold readStore
  congr 1
  funext kind
  exact if_neg (key_namespaceKeys_ne_namespacesKey _ _ _ _)

/-- One command does to a namespace what its operation there does. -/
theorem readStore_next (keyPrefix namespaceName : Bytes) (command : Command) :
    (keyspace.next command).readStore (namespaceKeys keyPrefix namespaceName) =
      (keyspace.readStore (namespaceKeys keyPrefix namespaceName)).run
        (command.opIn keyPrefix namespaceName).toList := by
  cases command with
  | exec commandPrefix commandName op =>
      simp only [next, exec, Command.opIn]
      split_ifs with hown
      · obtain ⟨rfl, rfl⟩ := hown
        exact readStore_writeStore_self _ _ _
      · exact readStore_writeStore_of_ne hown _
  | rememberNamespace commandPrefix commandName =>
      exact readStore_rememberNamespace _ _ _ _

/-- A run does to a namespace what its operations there do. -/
theorem readStore_run (keyPrefix namespaceName : Bytes) (commands : List Command) :
    (keyspace.run commands).readStore (namespaceKeys keyPrefix namespaceName) =
      (keyspace.readStore (namespaceKeys keyPrefix namespaceName)).run
        (commands.filterMap (Command.opIn keyPrefix namespaceName)) := by
  induction commands generalizing keyspace with
  | nil => rfl
  | cons command rest ih =>
      rw [run, List.foldl_cons]
      refine ih.trans ?_
      rw [readStore_next, ← Store.run_append]
      cases hop : command.opIn keyPrefix namespaceName <;> simp [hop]

/-- Keys tell prefixes, namespaces and structures apart, no catalog is kept under
one of them, and in every run of commands in any namespaces the store and the
next reply of each namespace are those of its own operations alone. -/
theorem namespace_isolation (keyPrefix namespaceName otherPrefix otherName : Bytes) :
    (∀ kind other, (namespaceKeys keyPrefix namespaceName).key kind =
        (namespaceKeys otherPrefix otherName).key other ↔
      keyPrefix = otherPrefix ∧ namespaceName = otherName ∧ kind = other) ∧
    (∀ kind, (namespaceKeys keyPrefix namespaceName).key kind ≠ namespacesKey otherPrefix) ∧
    ∀ (keyspace : Keyspace) (commands : List Command) (op : Op),
      let keys := namespaceKeys keyPrefix namespaceName
      let own := (keyspace.readStore keys).run
        (commands.filterMap (Command.opIn keyPrefix namespaceName))
      (keyspace.run commands).readStore keys = own ∧
        ((keyspace.run commands).exec keys op).2 = own.reply op ∧
          ∀ key, (∀ kind, keys.key kind ≠ key) →
            ((keyspace.run commands).exec keys op).1 key = keyspace.run commands key := by
  refine ⟨fun _ _ => key_namespaceKeys_inj,
    fun kind => key_namespaceKeys_ne_namespacesKey _ _ _ kind, ?_⟩
  intro keyspace commands op keys own
  have hread : (keyspace.run commands).readStore keys = own := readStore_run _ _ _
  refine ⟨hread, ?_, fun key hne => writeStore_of_ne hne _⟩
  rw [exec, hread]

end Keyspace

end Redloop
