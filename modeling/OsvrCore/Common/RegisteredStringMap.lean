/-
# String registries of two endpoints

A registry names strings by their positions in a table that only grows. A
client also keeps a second table, from the IDs of its peer to its own. IDs are
32 bits wide and one value is reserved for the empty ID, so a table with more
than `2 ^ 32` strings reuses IDs, and a peer list that long is never finished.
-/

import OsvrCore.Math.Interning
import Mathlib.Algebra.Group.Nat.Defs
import OsvrCore.Common.JsonValue

set_option autoImplicit false

namespace OSVR.Common

open Math

/-- Tag types of the string IDs. -/
inductive StringIdTag
  | localString
  | peerString

/-- `TypeSafeId`, with the wrapped type both tags use. -/
structure TypeSafeId (tag : StringIdTag) where
  value : UInt32
  deriving DecidableEq, Repr

namespace TypeSafeId

variable {tag : StringIdTag}

/-- The largest value of the wrapped type. -/
def sentinel : UInt32 := 0xFFFFFFFF

/-- The ID of the default constructor. -/
def invalid : TypeSafeId tag := ⟨sentinel⟩

def empty (id : TypeSafeId tag) : Bool := id.value == sentinel

end TypeSafeId

abbrev StringID := TypeSafeId .localString

abbrev PeerStringID := TypeSafeId .peerString

/-- `std::out_of_range`, with its text. -/
structure OutOfRange where
  what : String
  deriving DecidableEq, Repr

/-- Members of `RegisteredStringMap`. -/
structure RegisteredStringMap where
  regEntries : List Str
  modified : Bool
  deriving DecidableEq

namespace RegisteredStringMap

def init : RegisteredStringMap where
  regEntries := []
  modified := false

/-- The ID is the first position of the string, which is appended when missing. -/
def getStringID (m : RegisteredStringMap) (str : Str) : RegisteredStringMap × StringID :=
  if str ∈ m.regEntries then (m, ⟨UInt32.ofNat (m.regEntries.idxOf str)⟩)
  else
    ({ regEntries := m.regEntries ++ [str], modified := true },
      ⟨UInt32.ofNat m.regEntries.length⟩)

/-- An ID without a string gives the empty string. -/
def getStringFromId (m : RegisteredStringMap) (id : StringID) : Str :=
  if id.value.toNat ≥ m.regEntries.length then [] else m.regEntries.getD id.value.toNat []

def clearModifiedFlag (m : RegisteredStringMap) : RegisteredStringMap :=
  { m with modified := false }

end RegisteredStringMap

/-- Members of `CorrelatedStringMap`. -/
structure CorrelatedStringMap where
  localMap : RegisteredStringMap
  remoteToLocal : List UInt32
  deriving DecidableEq

namespace CorrelatedStringMap

def init : CorrelatedStringMap where
  localMap := .init
  remoteToLocal := []

def getStringID (m : CorrelatedStringMap) (str : Str) : CorrelatedStringMap × StringID :=
  ({ m with localMap := (m.localMap.getStringID str).1 }, (m.localMap.getStringID str).2)

def getStringFromId (m : CorrelatedStringMap) (id : StringID) : Str :=
  m.localMap.getStringFromId id

/-- The empty ID of the peer is the empty local ID, before any range check. -/
def convertPeerToLocalID (m : CorrelatedStringMap) (peerID : PeerStringID) :
    Except OutOfRange StringID :=
  if peerID.empty then .ok .invalid
  else if peerID.value.toNat ≥ m.remoteToLocal.length then .error ⟨"Peer ID out of range!"⟩
  else .ok ⟨m.remoteToLocal.getD peerID.value.toNat 0⟩

/-- The loop of `setupPeerMappings` from index `i` on. The index has 32 bits and
the length it is compared with has more. -/
def setupLoop (peerEntries : List Str) :
    ℕ → UInt32 → CorrelatedStringMap → Option CorrelatedStringMap
  | 0, _, _ => none
  | fuel + 1, i, m =>
      if i.toNat < peerEntries.length then
        let registered := m.localMap.getStringID (peerEntries.getD i.toNat [])
        setupLoop peerEntries fuel (i + 1)
          { localMap := registered.1, remoteToLocal := m.remoteToLocal ++ [registered.2.value] }
      else some m

/-- `none` when the call never returns; see `setupLoop_never`. -/
def setupPeerMappings (m : CorrelatedStringMap) (peerEntries : List Str) :
    Option CorrelatedStringMap :=
  setupLoop peerEntries (peerEntries.length + 1) 0 { m with remoteToLocal := [] }

end CorrelatedStringMap

/-! ## Runs of two endpoints -/

/-- The registry of one endpoint and the correlated registry of its peer. -/
structure StringMaps where
  server : RegisteredStringMap
  client : CorrelatedStringMap
  deriving DecidableEq

/-- A call on one of the two endpoints. -/
inductive StringMapCall
  | serverGetStringID (str : Str)
  | serverGetStringFromId (id : StringID)
  | serverClearModifiedFlag
  | getStringID (str : Str)
  | getStringFromId (id : StringID)
  | convertPeerToLocalID (peerID : PeerStringID)
  | setupPeerMappings (peerEntries : List Str)
  deriving DecidableEq

namespace StringMapCall

/-- Does the call install a peer list? -/
def installs : StringMapCall → Bool
  | setupPeerMappings _ => true
  | serverGetStringID _ | serverGetStringFromId _ | serverClearModifiedFlag | getStringID _
  | getStringFromId _ | convertPeerToLocalID _ => false

end StringMapCall

/-- What a call returns. -/
inductive StringMapReply
  | id (id : StringID)
  | string (str : Str)
  | converted (result : Except OutOfRange StringID)
  | nothing
  deriving DecidableEq

namespace StringMaps

def init : StringMaps where
  server := .init
  client := .init

/-- One call with its reply; `none` when it never returns. -/
def call (s : StringMaps) : StringMapCall → Option (StringMaps × StringMapReply)
  | .serverGetStringID str =>
      some ({ s with server := (s.server.getStringID str).1 }, .id (s.server.getStringID str).2)
  | .serverGetStringFromId id => some (s, .string (s.server.getStringFromId id))
  | .serverClearModifiedFlag => some ({ s with server := s.server.clearModifiedFlag }, .nothing)
  | .getStringID str =>
      some ({ s with client := (s.client.getStringID str).1 }, .id (s.client.getStringID str).2)
  | .getStringFromId id => some (s, .string (s.client.getStringFromId id))
  | .convertPeerToLocalID peerID => some (s, .converted (s.client.convertPeerToLocalID peerID))
  | .setupPeerMappings peerEntries =>
      (s.client.setupPeerMappings peerEntries).map fun client => ({ s with client }, .nothing)

/-- A sequence of calls with their replies. -/
def execute (s : StringMaps) : List StringMapCall → Option (StringMaps × List StringMapReply)
  | [] => some (s, [])
  | first :: calls => do
      let (middle, reply) ← s.call first
      let (final, replies) ← middle.execute calls
      return (final, reply :: replies)

/-- No table holds more strings than there are IDs. -/
def FitIds (s : StringMaps) : Prop :=
  s.server.regEntries.length ≤ 2 ^ 32 ∧ s.client.localMap.regEntries.length ≤ 2 ^ 32

instance (s : StringMaps) : Decidable s.FitIds :=
  inferInstanceAs (Decidable (s.server.regEntries.length ≤ 2 ^ 32 ∧
    s.client.localMap.regEntries.length ≤ 2 ^ 32))

end StringMaps

/-- Two requests for the ID of a string get the same reply exactly when the
strings are the same, wherever in the run they are made. -/
def IdsIdentify (request : Str → StringMapCall) (calls : List StringMapCall)
    (replies : List StringMapReply) : Prop :=
  ∀ (i j : ℕ) (first second : Str) (firstID secondID : StringID),
    calls[i]? = some (request first) → calls[j]? = some (request second) →
    replies[i]? = some (.id firstID) → replies[j]? = some (.id secondID) →
    (firstID = secondID ↔ first = second)

/-! ## Registries -/

namespace RegisteredStringMap

variable {m : RegisteredStringMap} {str : Str}

@[simp] theorem regEntries_getStringID (m : RegisteredStringMap) (str : Str) :
    (m.getStringID str).1.regEntries = intern m.regEntries str := by
  unfold getStringID intern
  split <;> rfl

/-- The ID can be read off the table the call leaves. -/
theorem id_getStringID (m : RegisteredStringMap) (str : Str) :
    (m.getStringID str).2 = ⟨UInt32.ofNat ((intern m.regEntries str).idxOf str)⟩ := by
  rw [idxOf_intern]
  unfold getStringID
  split
  next => rfl
  next hnew => rw [List.idxOf_eq_length hnew]

theorem toNat_idxOf (hsize : m.regEntries.length ≤ 2 ^ 32) (hmem : str ∈ m.regEntries) :
    (UInt32.ofNat (m.regEntries.idxOf str)).toNat = m.regEntries.idxOf str := by
  have hposition := List.idxOf_lt_length_of_mem hmem
  exact UInt32.toNat_ofNat_of_lt (by simp only [UInt32.size]; omega)

/-- The ID of a registered string gives it back. -/
theorem getStringFromId_idxOf (hsize : m.regEntries.length ≤ 2 ^ 32) (hmem : str ∈ m.regEntries) :
    m.getStringFromId ⟨UInt32.ofNat (m.regEntries.idxOf str)⟩ = str := by
  have hposition := List.idxOf_lt_length_of_mem hmem
  have hinside : ¬ m.regEntries.idxOf str ≥ m.regEntries.length := by omega
  simp only [getStringFromId, toNat_idxOf hsize hmem, hinside, if_false, List.getD,
    getElem?_idxOf hmem, Option.getD_some]

theorem id_eq_iff {other : Str} (hsize : m.regEntries.length ≤ 2 ^ 32) (hmem : str ∈ m.regEntries)
    (hother : other ∈ m.regEntries) :
    (⟨UInt32.ofNat (m.regEntries.idxOf str)⟩ : StringID) =
        ⟨UInt32.ofNat (m.regEntries.idxOf other)⟩ ↔ str = other := by
  constructor
  · intro heq
    have hvalue := congrArg (fun id : StringID => id.value.toNat) heq
    simp only [toNat_idxOf hsize hmem, toNat_idxOf hsize hother] at hvalue
    exact eq_of_idxOf_eq hmem hother hvalue
  · intro heq
    rw [heq]

end RegisteredStringMap

/-! ## The translation table -/

namespace CorrelatedStringMap

/-- The translation table holds the local IDs of `peerEntries`, in order. -/
structure Mirrors (m : CorrelatedStringMap) (peerEntries : List Str) : Prop where
  known : ∀ str ∈ peerEntries, str ∈ m.localMap.regEntries
  ids : m.remoteToLocal =
    peerEntries.map fun str => UInt32.ofNat (m.localMap.regEntries.idxOf str)

namespace Mirrors

variable {m after : CorrelatedStringMap} {peerEntries : List Str}

/-- Registrations disturb no translation. -/
theorem mono (hmirrors : m.Mirrors peerEntries)
    (hgrows : m.localMap.regEntries <+: after.localMap.regEntries)
    (hsame : after.remoteToLocal = m.remoteToLocal) : after.Mirrors peerEntries where
  known str hstr := hgrows.subset (hmirrors.known str hstr)
  ids := by
    rw [hsame, hmirrors.ids]
    apply List.map_congr_left
    intro str hstr
    rw [idxOf_of_begins hgrows (hmirrors.known str hstr)]

/-- One pass of the loop of `setupPeerMappings`. -/
theorem register (hmirrors : m.Mirrors peerEntries) (str : Str) :
    Mirrors { localMap := (m.localMap.getStringID str).1
              remoteToLocal := m.remoteToLocal ++ [(m.localMap.getStringID str).2.value] }
      (peerEntries ++ [str]) := by
  have hgrows := prefix_intern m.localMap.regEntries str
  constructor
  · intro entry hentry
    simp only [List.mem_append, List.mem_singleton] at hentry
    rw [RegisteredStringMap.regEntries_getStringID]
    cases hentry with
    | inl hearlier => exact hgrows.subset (hmirrors.known entry hearlier)
    | inr hlast => exact hlast ▸ mem_intern _ _
  · rw [List.map_append, RegisteredStringMap.regEntries_getStringID,
      RegisteredStringMap.id_getStringID, hmirrors.ids]
    apply congrArg (· ++ _)
    apply List.map_congr_left
    intro entry hentry
    rw [idxOf_of_begins hgrows (hmirrors.known entry hentry)]

end Mirrors

variable {m after : CorrelatedStringMap} {peerEntries : List Str}

/-- The loop finishes with the whole list mirrored. The induction is on the
fuel, the invariant is that the entries before the index are mirrored. -/
theorem setupLoop_finishes (hlength : peerEntries.length < 2 ^ 32) {fuel k : ℕ}
    (hk : k ≤ peerEntries.length) (hfuel : peerEntries.length < fuel + k)
    (hmirrors : m.Mirrors (peerEntries.take k)) :
    ∃ after, setupLoop peerEntries fuel (UInt32.ofNat k) m = some after ∧
      after.Mirrors peerEntries ∧ m.localMap.regEntries <+: after.localMap.regEntries := by
  induction fuel generalizing k m with
  | zero => omega
  | succ fuel ih =>
      have hindex : (UInt32.ofNat k).toNat = k :=
        UInt32.toNat_ofNat_of_lt (by simp only [UInt32.size]; omega)
      rw [setupLoop, hindex]
      split
      next hinside =>
        have hnext : UInt32.ofNat k + 1 = UInt32.ofNat (k + 1) := by simp
        have hentry : peerEntries.getD k [] = peerEntries[k] := by simp [hinside]
        have htake : peerEntries.take (k + 1) = peerEntries.take k ++ [peerEntries[k]] := by simp
        have hstep := hmirrors.register peerEntries[k]
        rw [← htake] at hstep
        have ⟨after, hafter, hall, hgrows⟩ := ih hinside (by omega) hstep
        rw [RegisteredStringMap.regEntries_getStringID] at hgrows
        rw [hentry, hnext]
        exact ⟨after, hafter, hall, (prefix_intern _ _).trans hgrows⟩
      next hend =>
        have hwhole : peerEntries.take k = peerEntries := List.take_of_length_le (by omega)
        exact ⟨m, rfl, hwhole ▸ hmirrors, List.prefix_rfl⟩

/-- A list with as many entries as there are index values is never finished. -/
theorem setupLoop_never (hlength : 2 ^ 32 ≤ peerEntries.length) (fuel : ℕ) (i : UInt32) :
    setupLoop peerEntries fuel i m = none := by
  induction fuel generalizing i m with
  | zero => rfl
  | succ fuel ih =>
      have hindex : i.toNat < peerEntries.length := by
        have hwidth := i.toNat_lt
        omega
      rw [setupLoop, if_pos hindex]
      exact ih _

/-- What an installation that returns leaves. -/
theorem mirrors_of_setupPeerMappings (hsetup : m.setupPeerMappings peerEntries = some after) :
    peerEntries.length < 2 ^ 32 ∧ after.Mirrors peerEntries ∧
      m.localMap.regEntries <+: after.localMap.regEntries := by
  by_cases hlength : peerEntries.length < 2 ^ 32
  · have hempty : Mirrors { m with remoteToLocal := [] } (peerEntries.take 0) :=
      ⟨by simp, by simp⟩
    have ⟨_, hafter, hmirrors, hgrows⟩ :=
      setupLoop_finishes hlength (Nat.zero_le _) (Nat.lt_succ_self _) hempty
    cases hsetup.symm.trans hafter
    exact ⟨hlength, hmirrors, hgrows⟩
  · rw [setupPeerMappings, setupLoop_never (by omega)] at hsetup
    cases hsetup

/-- A peer list is installed if the index can count its entries, and no other. -/
theorem setupPeerMappings_returns_iff (m : CorrelatedStringMap) (peerEntries : List Str) :
    (∃ after, m.setupPeerMappings peerEntries = some after) ↔ peerEntries.length < 2 ^ 32 := by
  apply Iff.intro
  · rintro ⟨after, hafter⟩
    exact (mirrors_of_setupPeerMappings hafter).1
  · intro hlength
    have hempty : Mirrors { m with remoteToLocal := [] } (peerEntries.take 0) :=
      ⟨by simp, by simp⟩
    have ⟨after, hafter, _⟩ :=
      setupLoop_finishes hlength (Nat.zero_le _) (Nat.lt_succ_self _) hempty
    exact ⟨after, hafter⟩

/-- An index of the mirrored list is translated to the string at that index. -/
theorem Mirrors.getStringFromId_convert (hmirrors : m.Mirrors peerEntries)
    (hlength : peerEntries.length < 2 ^ 32) (hsize : m.localMap.regEntries.length ≤ 2 ^ 32)
    {peerID : PeerStringID} {str : Str} (hstr : peerEntries[peerID.value.toNat]? = some str) :
    (m.convertPeerToLocalID peerID).map m.getStringFromId = .ok str := by
  obtain ⟨hinside, heq⟩ := List.getElem?_eq_some_iff.mp hstr
  have hmem : str ∈ peerEntries := List.mem_of_getElem? hstr
  have hnotEmpty : peerID.empty = false := by
    simp only [TypeSafeId.empty, TypeSafeId.sentinel, beq_eq_false_iff_ne]
    intro hsentinel
    rw [hsentinel] at hinside
    simp at hinside
    omega
  have hrange : ¬ peerID.value.toNat ≥ m.remoteToLocal.length := by
    rw [hmirrors.ids, List.length_map]
    omega
  have hid : m.remoteToLocal.getD peerID.value.toNat 0 =
      UInt32.ofNat (m.localMap.regEntries.idxOf str) := by
    simp [hmirrors.ids, List.getD, hstr]
  simp only [convertPeerToLocalID, hnotEmpty, hrange, hid, if_false, Bool.false_eq_true,
    Except.map, getStringFromId]
  rw [RegisteredStringMap.getStringFromId_idxOf hsize (hmirrors.known str hmem)]

/-- An index outside the mirrored list is rejected, the empty ID apart. -/
theorem Mirrors.convert_outside (hmirrors : m.Mirrors peerEntries) {peerID : PeerStringID}
    (houtside : peerEntries[peerID.value.toNat]? = none) :
    m.convertPeerToLocalID peerID =
      if peerID.empty then .ok .invalid else .error ⟨"Peer ID out of range!"⟩ := by
  have hrange : peerID.value.toNat ≥ m.remoteToLocal.length := by
    rw [hmirrors.ids, List.length_map]
    exact List.getElem?_eq_none_iff.mp houtside
  simp only [convertPeerToLocalID, hrange, if_true]

end CorrelatedStringMap

/-! ## Histories -/

namespace StringMaps

variable {s after final : StringMaps} {first : StringMapCall}
  {calls : List StringMapCall} {replies : List StringMapReply} {peerEntries : List Str}

theorem execute_cons (hrun : s.execute (first :: calls) = some (final, replies)) :
    ∃ middle reply rest, s.call first = some (middle, reply) ∧
      middle.execute calls = some (final, rest) ∧ replies = reply :: rest := by
  simp only [execute, Option.bind_eq_bind, Option.bind_eq_some_iff, Prod.exists] at hrun
  have ⟨middle, reply, hcall, _, rest, hrest, hresult⟩ := hrun
  cases hresult
  exact ⟨middle, reply, rest, hcall, hrest, rfl⟩

theorem execute_append {earlier later : List StringMapCall}
    (hrun : s.execute (earlier ++ later) = some (final, replies)) :
    ∃ middle before rest, s.execute earlier = some (middle, before) ∧
      middle.execute later = some (final, rest) := by
  induction earlier generalizing s replies with
  | nil => exact ⟨s, [], replies, rfl, hrun⟩
  | cons first earlier ih =>
      have ⟨next, reply, rest, hcall, hrest, _⟩ := execute_cons hrun
      have ⟨middle, before, last, hbefore, hlast⟩ := ih hrest
      exact ⟨middle, reply :: before, last, by simp [execute, hcall, hbefore], hlast⟩

/-- No call removes or moves a string of either registry. -/
theorem call_grows {reply : StringMapReply} (hcall : s.call first = some (after, reply)) :
    s.server.regEntries <+: after.server.regEntries ∧
      s.client.localMap.regEntries <+: after.client.localMap.regEntries := by
  cases first with
  | serverGetStringID str =>
      cases hcall
      simp [prefix_intern]
  | getStringID str =>
      cases hcall
      simp [CorrelatedStringMap.getStringID, prefix_intern]
  | setupPeerMappings peerEntries =>
      simp only [call, Option.map_eq_some_iff] at hcall
      obtain ⟨client, hsetup, heq⟩ := hcall
      cases heq
      exact ⟨List.prefix_rfl, (CorrelatedStringMap.mirrors_of_setupPeerMappings hsetup).2.2⟩
  | serverGetStringFromId id => cases hcall; exact ⟨List.prefix_rfl, List.prefix_rfl⟩
  | serverClearModifiedFlag => cases hcall; exact ⟨List.prefix_rfl, List.prefix_rfl⟩
  | getStringFromId id => cases hcall; exact ⟨List.prefix_rfl, List.prefix_rfl⟩
  | convertPeerToLocalID peerID => cases hcall; exact ⟨List.prefix_rfl, List.prefix_rfl⟩

theorem execute_grows (hrun : s.execute calls = some (final, replies)) :
    s.server.regEntries <+: final.server.regEntries ∧
      s.client.localMap.regEntries <+: final.client.localMap.regEntries := by
  induction calls generalizing s replies with
  | nil =>
      cases hrun
      exact ⟨List.prefix_rfl, List.prefix_rfl⟩
  | cons first calls ih =>
      have ⟨middle, _, _, hcall, hrest, _⟩ := execute_cons hrun
      have hfirst := call_grows hcall
      have hlater := ih hrest
      exact ⟨hfirst.1.trans hlater.1, hfirst.2.trans hlater.2⟩

/-- Only an installation touches the translation table. -/
theorem call_keeps {reply : StringMapReply} (hkeeps : first.installs = false)
    (hcall : s.call first = some (after, reply)) :
    after.client.remoteToLocal = s.client.remoteToLocal := by
  cases first with
  | setupPeerMappings peerEntries => cases hkeeps
  | serverGetStringID str => cases hcall; rfl
  | serverGetStringFromId id => cases hcall; rfl
  | serverClearModifiedFlag => cases hcall; rfl
  | getStringID str => cases hcall; rfl
  | getStringFromId id => cases hcall; rfl
  | convertPeerToLocalID peerID => cases hcall; rfl

/-- An installed list stays mirrored until the next installation. -/
theorem mirrors_execute (hmirrors : s.client.Mirrors peerEntries)
    (hkeeps : ∀ later ∈ calls, later.installs = false)
    (hrun : s.execute calls = some (final, replies)) : final.client.Mirrors peerEntries := by
  induction calls generalizing s replies with
  | nil =>
      cases hrun
      exact hmirrors
  | cons first calls ih =>
      have ⟨middle, _, _, hcall, hrest, _⟩ := execute_cons hrun
      have hfirst := hkeeps first (by simp)
      have hmiddle := hmirrors.mono (call_grows hcall).2 (call_keeps hfirst hcall)
      exact ih hmiddle (fun later hlater => hkeeps later (by simp [hlater])) hrest

/-! ## IDs over a run -/

/-- `request` registers a string in `table` and replies with its ID. -/
structure Registers (table : StringMaps → RegisteredStringMap)
    (request : Str → StringMapCall) : Prop where
  grows : ∀ {s after : StringMaps} {calls replies},
    s.execute calls = some (after, replies) → (table s).regEntries <+: (table after).regEntries
  call : ∀ {s after : StringMaps} {str reply}, s.call (request str) = some (after, reply) →
    str ∈ (table after).regEntries ∧
      reply = .id ⟨UInt32.ofNat ((table after).regEntries.idxOf str)⟩

theorem registers_server : Registers (fun s => s.server) .serverGetStringID where
  grows hrun := (execute_grows hrun).1
  call := by
    intro s after str reply hcall
    cases hcall
    simp [RegisteredStringMap.id_getStringID, mem_intern]

theorem registers_client : Registers (fun s => s.client.localMap) .getStringID where
  grows hrun := (execute_grows hrun).2
  call := by
    intro s after str reply hcall
    cases hcall
    simp [CorrelatedStringMap.getStringID, RegisteredStringMap.id_getStringID, mem_intern]

section Registers

variable {table : StringMaps → RegisteredStringMap} {request : Str → StringMapCall}
  (hregisters : Registers table request)

include hregisters

/-- A reply can be read off the table at the end of the run. -/
theorem Registers.reply (hrun : s.execute calls = some (final, replies)) {i : ℕ} {str : Str}
    (hcall : calls[i]? = some (request str)) :
    str ∈ (table final).regEntries ∧
      replies[i]? = some (.id ⟨UInt32.ofNat ((table final).regEntries.idxOf str)⟩) := by
  induction calls generalizing s replies i with
  | nil => simp at hcall
  | cons first calls ih =>
      have ⟨middle, reply, rest, hfirst, hrest, hreplies⟩ := execute_cons hrun
      subst hreplies
      cases i with
      | zero =>
          simp only [List.getElem?_cons_zero, Option.some.injEq] at hcall
          subst hcall
          have ⟨hmem, hreply⟩ := hregisters.call hfirst
          have hgrows := hregisters.grows hrest
          rw [List.getElem?_cons_zero, hreply, idxOf_of_begins hgrows hmem]
          exact ⟨hgrows.subset hmem, rfl⟩
      | succ i =>
          rw [List.getElem?_cons_succ] at hcall ⊢
          exact ih hrest hcall

theorem Registers.idsIdentify (hrun : s.execute calls = some (final, replies))
    (hsize : (table final).regEntries.length ≤ 2 ^ 32) : IdsIdentify request calls replies := by
  intro i j firstStr secondStr firstID secondID hfirst hsecond hfirstReply hsecondReply
  have ⟨hfirstMem, hfirstID⟩ := hregisters.reply hrun hfirst
  have ⟨hsecondMem, hsecondID⟩ := hregisters.reply hrun hsecond
  cases hfirstReply.symm.trans hfirstID
  cases hsecondReply.symm.trans hsecondID
  exact RegisteredStringMap.id_eq_iff hsize hfirstMem hsecondMem

end Registers

/-- Every run of the two endpoints, from empty registries: IDs identify strings, the lists that
the index can count are installed, and the list installed last is translated entry by entry ever
after. -/
theorem peer_translation (hrun : init.execute calls = some (final, replies))
    (hfit : final.FitIds) :
    IdsIdentify .serverGetStringID calls replies ∧ IdsIdentify .getStringID calls replies ∧
      (∀ peerEntries, (∃ after, final.client.setupPeerMappings peerEntries = some after) ↔
        peerEntries.length < 2 ^ 32) ∧
      ∀ earlier peerEntries later, calls = earlier ++ .setupPeerMappings peerEntries :: later →
        (∀ call ∈ later, call.installs = false) → ∀ peerID : PeerStringID,
          (∀ str, peerEntries[peerID.value.toNat]? = some str →
            (final.client.convertPeerToLocalID peerID).map final.client.getStringFromId =
              .ok str) ∧
          (peerEntries[peerID.value.toNat]? = none →
            final.client.convertPeerToLocalID peerID =
              if peerID.empty then .ok .invalid else .error ⟨"Peer ID out of range!"⟩) := by
  refine ⟨registers_server.idsIdentify hrun hfit.1, registers_client.idsIdentify hrun hfit.2,
    final.client.setupPeerMappings_returns_iff, ?_⟩
  intro earlier peerEntries later hcalls hkeeps peerID
  rw [hcalls] at hrun
  have ⟨middle, _, _, _, hinstall⟩ := execute_append hrun
  have ⟨installed, _, _, hcall, hlater, _⟩ := execute_cons hinstall
  simp only [call, Option.map_eq_some_iff] at hcall
  obtain ⟨client, hsetup, heq⟩ := hcall
  cases heq
  have ⟨hlength, hmirrors, _⟩ := CorrelatedStringMap.mirrors_of_setupPeerMappings hsetup
  have hfinal := mirrors_execute hmirrors hkeeps hlater
  constructor
  · intro str hstr
    exact hfinal.getStringFromId_convert hlength hfit.2 hstr
  · intro houtside
    exact hfinal.convert_outside houtside

/-- A peer list with a repeated entry, and a registration after it. -/
def repeatedPeers : List StringMapCall :=
  [.serverGetStringID "b".toList, .getStringID "a".toList,
    .setupPeerMappings ["b".toList, "a".toList, "b".toList], .getStringID "c".toList]

def repeatedPeersFinal : StringMaps where
  server := { regEntries := ["b".toList], modified := true }
  client :=
    { localMap := { regEntries := ["a".toList, "b".toList, "c".toList], modified := true }
      remoteToLocal := [1, 0, 1] }

theorem peer_translation_repeatedPeers :
    (repeatedPeersFinal.client.convertPeerToLocalID ⟨2⟩).map
        repeatedPeersFinal.client.getStringFromId = .ok "b".toList ∧
      repeatedPeersFinal.client.convertPeerToLocalID ⟨3⟩ =
        .error ⟨"Peer ID out of range!"⟩ := by
  have hrun : init.execute repeatedPeers =
      some (repeatedPeersFinal, [.id ⟨0⟩, .id ⟨0⟩, .nothing, .id ⟨2⟩]) := by decide
  have hlaw := (peer_translation hrun (by decide)).2.2.2 [_, _] _ [_] rfl (by decide)
  exact ⟨(hlaw ⟨2⟩).1 _ (by decide), (hlaw ⟨3⟩).2 (by decide)⟩

/-! ## Where the IDs run out -/

/-- A run that only registers strings at the client returns. -/
theorem execute_register (s : StringMaps) (strs : List Str) :
    ∃ final replies, s.execute (strs.map .getStringID) = some (final, replies) ∧
      final.client.localMap.regEntries = internAll s.client.localMap.regEntries strs := by
  induction strs generalizing s with
  | nil => exact ⟨s, [], rfl, rfl⟩
  | cons str strs ih =>
      have ⟨final, replies, hrest, hentries⟩ :=
        ih { s with client := (s.client.getStringID str).1 }
      refine ⟨final, .id (s.client.getStringID str).2 :: replies, ?_, ?_⟩
      · simp [execute, call, hrest]
      · simpa [CorrelatedStringMap.getStringID] using hentries

/-- The string registered as number `i` gets `i`, cut to the width of an ID. -/
theorem reply_of_distinct {strs : List Str} (hnodup : strs.Nodup) :
    ∃ final replies, init.execute (strs.map .getStringID) = some (final, replies) ∧
      ∀ i < strs.length, replies[i]? = some (.id ⟨UInt32.ofNat i⟩) := by
  have ⟨final, replies, hrun, hentries⟩ := execute_register init strs
  have htable : final.client.localMap.regEntries = strs := by
    rw [hentries]
    exact internAll_of_disjoint hnodup (by simp [init, CorrelatedStringMap.init,
      RegisteredStringMap.init])
  refine ⟨final, replies, hrun, ?_⟩
  intro i hi
  have hcall : (strs.map StringMapCall.getStringID)[i]? = some (.getStringID strs[i]) := by
    simp [hi]
  have hreply := (registers_client.reply hrun hcall).2
  rw [htable, hnodup.idxOf_getElem i hi] at hreply
  exact hreply

/-- `count` different strings. -/
def distinctStrs (count : ℕ) : List Str := (List.range count).map (List.replicate · 'a')

theorem nodup_distinctStrs (count : ℕ) : (distinctStrs count).Nodup := by
  apply List.Nodup.map _ List.nodup_range
  intro first second heq
  simpa using congrArg List.length heq

/-- Enough different strings make two of them share an ID. -/
theorem not_idsIdentify {i j count : ℕ} (hi : i < count) (hj : j < count) (hdiffer : i ≠ j)
    (hsame : UInt32.ofNat i = UInt32.ofNat j) :
    ∃ final replies, init.execute ((distinctStrs count).map .getStringID) =
        some (final, replies) ∧
      ¬ IdsIdentify .getStringID ((distinctStrs count).map .getStringID) replies := by
  have ⟨final, replies, hrun, hreply⟩ := reply_of_distinct (nodup_distinctStrs count)
  have hlength : (distinctStrs count).length = count := by simp [distinctStrs]
  rw [hlength] at hreply
  have hcall (k : ℕ) (hk : k < count) :
      ((distinctStrs count).map StringMapCall.getStringID)[k]? =
        some (.getStringID (List.replicate k 'a')) := by
    simp [distinctStrs, hk]
  refine ⟨final, replies, hrun, ?_⟩
  intro hidentify
  have hstrs := (hidentify i j _ _ _ _ (hcall i hi) (hcall j hj) (hreply i hi)
    (hreply j hj)).mp (by rw [hsame])
  have hlengths := congrArg List.length hstrs
  simp only [List.length_replicate] at hlengths
  exact hdiffer hlengths

/-- An index outside the peer list that is not rejected, the empty ID, and two
strings with one ID, the first and the last of `2 ^ 32 + 1`. -/
theorem not_peer_translation :
    (∃ final replies, init.execute [.setupPeerMappings ["a".toList]] = some (final, replies) ∧
      final.client.convertPeerToLocalID ⟨0xFFFFFFFF⟩ = .ok .invalid) ∧
    ∃ final replies, init.execute ((distinctStrs (2 ^ 32 + 1)).map .getStringID) =
        some (final, replies) ∧
      ¬ IdsIdentify .getStringID ((distinctStrs (2 ^ 32 + 1)).map .getStringID) replies := by
  constructor
  · exact ⟨_, _, rfl, by decide⟩
  · exact not_idsIdentify (Nat.zero_lt_succ _) (Nat.lt_succ_self _) (by decide) (by decide)

end StringMaps

end OSVR.Common
