/-
# Key names

A namespace keeps its structures under eleven keys, built from the key prefix of
the connection, the hexadecimal slot of the namespace name and a suffix for each
structure. No part is escaped, so what keeps the keys of different namespaces
apart is where the last brace of a key stands: the prefix may contain braces, the
slot and the suffixes do not.
-/

import Mathlib.Data.List.Basic
import Mathlib.Data.Fintype.Defs
import Redloop.Store.State

namespace Redloop

/-! ## Texts -/

/-- A lower-case hexadecimal digit. -/
def hexDigit (digit : ℕ) : UInt8 := (if digit < 10 then 48 + digit else 87 + digit).toUInt8

/-- The two hexadecimal digits of a byte. -/
def hexByte (byte : UInt8) : Bytes := [hexDigit (byte.toNat / 16), hexDigit (byte.toNat % 16)]

/-- The hexadecimal digits of a byte string. -/
def hexBytes (bytes : Bytes) : Bytes := bytes.flatMap hexByte

/-- The byte of an opening brace. -/
def openBrace : UInt8 := 123

/-- The byte of a closing brace. -/
def closeBrace : UInt8 := 125

theorem hexByte_injective : Function.Injective hexByte := by
  have hdigit : ∀ first < 16, ∀ second < 16, hexDigit first = hexDigit second →
      first = second := by decide
  intro first second heq
  have hfirst := first.toNat_lt
  have hsecond := second.toNat_lt
  simp only [hexByte, List.cons.injEq, and_true] at heq
  have hhigh := hdigit _ (by omega) _ (by omega) heq.1
  have hlow := hdigit _ (by omega) _ (by omega) heq.2
  exact UInt8.toNat_inj.mp (by omega)

/-- Different byte strings have different digits. -/
theorem hexBytes_injective : Function.Injective hexBytes := by
  intro first
  induction first with
  | nil =>
      intro second heq
      cases second with
      | nil => rfl
      | cons byte rest => simp [hexBytes, hexByte] at heq
  | cons byte rest ih =>
      intro second heq
      cases second with
      | nil => simp [hexBytes, hexByte] at heq
      | cons other others =>
          simp only [hexBytes, List.flatMap_cons] at heq
          obtain ⟨hbyte, hrest⟩ := List.append_inj heq rfl
          rw [hexByte_injective hbyte, ih hrest]

/-- A slot has no braces. -/
theorem not_mem_hexBytes {bytes : Bytes} {byte : UInt8} (hlarge : 103 ≤ byte.toNat) :
    byte ∉ hexBytes bytes := by
  have hdigit : ∀ digit < 16, (hexDigit digit).toNat < 103 := by decide
  intro hmem
  obtain ⟨source, -, hmem⟩ := List.mem_flatMap.mp hmem
  have hsource := source.toNat_lt
  simp only [hexByte, List.mem_cons, List.not_mem_nil, or_false] at hmem
  rcases hmem with rfl | rfl
  · exact absurd (hdigit _ (by omega)) hlarge.not_gt
  · exact absurd (hdigit _ (by omega)) hlarge.not_gt

/-! ## Keys -/

/-- The structures of a namespace. -/
inductive KeyKind
  | cfg
  | failures
  | ready
  | scheduled
  | leased
  | leaseMeta
  | rerun
  | failed
  | workersLastSeen
  | workersConfig
  | workersLeases
  deriving DecidableEq

/-- Every structure of a namespace. -/
def KeyKind.all : List KeyKind :=
  [cfg, failures, ready, scheduled, leased, leaseMeta, rerun, failed, workersLastSeen,
    workersConfig, workersLeases]

theorem KeyKind.mem_all (kind : KeyKind) : kind ∈ all := by cases kind <;> decide

instance : Fintype KeyKind := ⟨KeyKind.all.toFinset, fun kind => List.mem_toFinset.mpr kind.mem_all⟩

/-- The keys of a namespace. -/
structure NamespaceKeys where
  cfg : Bytes
  failures : Bytes
  ready : Bytes
  scheduled : Bytes
  leased : Bytes
  leaseMeta : Bytes
  rerun : Bytes
  failed : Bytes
  workersLastSeen : Bytes
  workersConfig : Bytes
  workersLeases : Bytes
  deriving DecidableEq

/-- The key of one structure. -/
def NamespaceKeys.key (keys : NamespaceKeys) : KeyKind → Bytes
  | .cfg => keys.cfg
  | .failures => keys.failures
  | .ready => keys.ready
  | .scheduled => keys.scheduled
  | .leased => keys.leased
  | .leaseMeta => keys.leaseMeta
  | .rerun => keys.rerun
  | .failed => keys.failed
  | .workersLastSeen => keys.workersLastSeen
  | .workersConfig => keys.workersConfig
  | .workersLeases => keys.workersLeases

/-- The key of the namespace catalog. -/
def namespacesKey (keyPrefix : Bytes) : Bytes :=
  if keyPrefix = [] then utf8 "namespaces" else keyPrefix ++ utf8 ":namespaces"

/-- A key of the namespace with the given slot. -/
def scopedKey (keyPrefix slot suffix : Bytes) : Bytes :=
  if keyPrefix = [] then openBrace :: slot ++ closeBrace :: colon :: suffix
  else keyPrefix ++ openBrace :: slot ++ closeBrace :: colon :: suffix

/-- The keys of a namespace under a key prefix. -/
def namespaceKeys (keyPrefix namespaceName : Bytes) : NamespaceKeys :=
  let slot := hexBytes namespaceName
  { cfg := scopedKey keyPrefix slot "cfg"
    failures := scopedKey keyPrefix slot "failures"
    ready := scopedKey keyPrefix slot "ready"
    scheduled := scopedKey keyPrefix slot "scheduled"
    leased := scopedKey keyPrefix slot "leased"
    leaseMeta := scopedKey keyPrefix slot "lease_meta"
    rerun := scopedKey keyPrefix slot "rerun"
    failed := scopedKey keyPrefix slot "failed"
    workersLastSeen := scopedKey keyPrefix slot "workers:last_seen"
    workersConfig := scopedKey keyPrefix slot "workers:config"
    workersLeases := scopedKey keyPrefix slot "workers:leases" }

/-- The suffix of a structure. -/
def KeyKind.suffix : KeyKind → Bytes
  | cfg => "cfg"
  | failures => "failures"
  | ready => "ready"
  | scheduled => "scheduled"
  | leased => "leased"
  | leaseMeta => "lease_meta"
  | rerun => "rerun"
  | failed => "failed"
  | workersLastSeen => "workers:last_seen"
  | workersConfig => "workers:config"
  | workersLeases => "workers:leases"

theorem KeyKind.suffix_injective : Function.Injective KeyKind.suffix := by
  unfold Function.Injective
  decide

theorem KeyKind.closeBrace_not_mem_suffix : ∀ kind : KeyKind, closeBrace ∉ kind.suffix := by
  decide

/-- Every key is the prefix, the braced slot, a colon and the suffix. -/
theorem key_namespaceKeys (keyPrefix namespaceName : Bytes) (kind : KeyKind) :
    (namespaceKeys keyPrefix namespaceName).key kind =
      keyPrefix ++ openBrace :: (hexBytes namespaceName ++ closeBrace :: colon :: kind.suffix) := by
  have hscoped (suffix : Bytes) : scopedKey keyPrefix (hexBytes namespaceName) suffix =
      keyPrefix ++ openBrace :: (hexBytes namespaceName ++ closeBrace :: colon :: suffix) := by
    unfold scopedKey
    split_ifs with hempty
    · simp [hempty]
    · simp
  cases kind <;> exact hscoped _

/-! ## Injectivity -/

/-- A key determines the prefix, the namespace and the structure it belongs to. -/
theorem key_namespaceKeys_inj {keyPrefix otherPrefix namespaceName otherName : Bytes}
    {kind other : KeyKind} :
    (namespaceKeys keyPrefix namespaceName).key kind =
        (namespaceKeys otherPrefix otherName).key other ↔
      keyPrefix = otherPrefix ∧ namespaceName = otherName ∧ kind = other := by
  have hsuffix (kind : KeyKind) : closeBrace ∉ colon :: kind.suffix := by
    simpa [closeBrace, colon] using KeyKind.closeBrace_not_mem_suffix kind
  have hslot (name : Bytes) : openBrace ∉ hexBytes name := not_mem_hexBytes (by decide)
  have hsplit (start name : Bytes) (tail : Bytes) :
      start ++ openBrace :: (hexBytes name ++ closeBrace :: tail) =
        (start ++ openBrace :: hexBytes name) ++ closeBrace :: tail := by simp
  rw [key_namespaceKeys, key_namespaceKeys, hsplit, hsplit,
    append_cons_inj_of_last (hsuffix _) (hsuffix _), append_cons_inj_of_last (hslot _) (hslot _),
    hexBytes_injective.eq_iff, List.cons.injEq, KeyKind.suffix_injective.eq_iff]
  simp only [true_and, and_assoc]

/-- The catalog key ends in a way in which no other key does. -/
theorem key_namespaceKeys_ne_namespacesKey (keyPrefix namespaceName otherPrefix : Bytes)
    (kind : KeyKind) :
    (namespaceKeys keyPrefix namespaceName).key kind ≠ namespacesKey otherPrefix := by
  intro heq
  have hend := congrArg (fun bytes => bytes.reverse.take 3) heq
  have hcatalog : (namespacesKey otherPrefix).reverse.take 3 = (utf8 "ces").reverse := by
    unfold namespacesKey
    split_ifs
    · decide
    · rw [List.reverse_append, List.take_append_of_le_length (by decide)]
      decide
  have hkey : ((namespaceKeys keyPrefix namespaceName).key kind).reverse.take 3 =
      kind.suffix.reverse.take 3 := by
    have hlength : 3 ≤ kind.suffix.reverse.length := by cases kind <;> decide
    simp only [key_namespaceKeys, List.reverse_append, List.reverse_cons, List.append_assoc]
    exact List.take_append_of_le_length hlength
  have hother : ∀ kind : KeyKind, kind.suffix.reverse.take 3 ≠ (utf8 "ces").reverse := by decide
  exact hother kind (hkey.symm.trans (hend.trans hcatalog))

end Redloop
