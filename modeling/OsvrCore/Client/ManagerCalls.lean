/-
# What entering and releasing an interface change

A manager with one more interface at a node, and with one less: the other nodes keep
their interfaces, and the handlers stay unless the last interface of a node goes.
-/

import OsvrCore.Client.ClientInterfaceObjectManager

set_option autoImplicit false

namespace OSVR.Client

open Common Math

namespace ClientManager

variable {manager : ClientManager} {iface : ClientInterface} {node query : NodePath}

/-- The manager when an interface has been entered at its node. -/
def entered (manager : ClientManager) (node : NodePath) (iface : ClientInterface) : ClientManager :=
  { manager with interfaces := ((manager.interfaces.touch node).addInterfaceAt node iface).1 }

/-- The manager when an interface has been taken out of its node. -/
def withdrawn (manager : ClientManager) (node : NodePath) (iface : ClientInterface) :
    ClientManager :=
  { manager with interfaces := ((manager.interfaces.touch node).removeInterfaceAt node iface).1 }

theorem value_entered_of_ne (hquery : query ≠ node) :
    (manager.entered node iface).interfaces.value query = manager.interfaces.value query := by
  unfold entered InterfaceTree.addInterfaceAt
  dsimp only
  split
  · rw [InterfaceTree.value_touch]
  · rw [InterfaceTree.value_setValue, if_neg hquery, InterfaceTree.value_touch]

theorem value_entered_of_empty (iface : ClientInterface)
    (hempty : (manager.interfaces.value node).interfaces = []) :
    (manager.entered node iface).interfaces.value node =
      { manager.interfaces.value node with interfaces := [iface] } := by
  simp [entered, InterfaceTree.addInterfaceAt, hempty, InterfaceTree.value_setValue]

theorem handlers_entered : (manager.entered node iface).interfaces.handlers =
    manager.interfaces.handlers := InterfaceTree.handlers_addInterfaceAt

/-- Looking up a path that is not located changes no value. -/
theorem snd_run_releaseInterface_of_failure {reached : NodePath} {error : TreeError}
    (hpath : locateAbsolute iface.path = ⟨reached, some error⟩) :
    ((releaseInterface iface).run manager).2 =
      { manager with interfaces := manager.interfaces.touch reached } := by
  rw [releaseInterface, Program.run_bind_of_error (run_getNodeForPath_of_failure hpath)]

theorem value_withdrawn : (manager.withdrawn node iface).interfaces.value query =
    if query = node ∧ iface ∈ (manager.interfaces.value node).interfaces then
      { manager.interfaces.value node with
        interfaces := (manager.interfaces.value node).interfaces.erase iface }
    else manager.interfaces.value query := by
  unfold withdrawn InterfaceTree.removeInterfaceAt
  dsimp only
  rw [InterfaceTree.value_touch]
  split
  next hmem =>
    rw [InterfaceTree.value_setValue, InterfaceTree.value_touch]
    simp [hmem]
  next hmem =>
    rw [InterfaceTree.value_touch]
    simp [hmem]

/-- Only the last interface of a path takes its handler along. -/
theorem snd_run_releaseInterface (manager : ClientManager)
    (hpath : locateAbsolute iface.path = ⟨node, none⟩) :
    ((releaseInterface iface).run manager).2 =
      if (manager.interfaces.value node).interfaces.erase iface = [] then
        { manager.withdrawn node iface with
          interfaces := ((manager.withdrawn node iface).interfaces.touch node).removeHandler node }
      else manager.withdrawn node iface := by
  rw [releaseInterface, Program.run_bind_of_ok (run_getNodeForPath hpath)]
  simp only [Program.run_bind, Program.run_get, Program.run_modify]
  have hlast : ((manager.interfaces.touch node).removeInterfaceAt node iface).2 =
      ((manager.interfaces.value node).interfaces.erase iface).isEmpty := by
    unfold InterfaceTree.removeInterfaceAt
    rw [InterfaceTree.value_touch]
  rw [hlast]
  cases hinterfaces : (manager.interfaces.value node).interfaces.erase iface with
  | nil =>
      rw [List.isEmpty_nil, if_pos rfl, if_pos rfl, run_eraseHandlerForPath hpath]
      rfl
  | cons first rest =>
      rw [List.isEmpty_cons, if_neg (List.cons_ne_nil first rest)]
      rfl

/-- A release takes the interface away from its node. -/
theorem interfaces_released (hpath : locateAbsolute iface.path = ⟨node, none⟩) :
    ((((releaseInterface iface).run manager).2).interfaces.value query).interfaces =
      if query = node then (manager.interfaces.value node).interfaces.erase iface
      else (manager.interfaces.value query).interfaces := by
  have hwithdrawn : ((manager.withdrawn node iface).interfaces.value query).interfaces =
      if query = node then (manager.interfaces.value node).interfaces.erase iface
      else (manager.interfaces.value query).interfaces := by
    rw [value_withdrawn]
    by_cases hquery : query = node
    · by_cases hmem : iface ∈ (manager.interfaces.value node).interfaces
      · rw [if_pos ⟨hquery, hmem⟩, if_pos hquery]
      · rw [if_neg fun h => hmem h.2, if_pos hquery, hquery, List.erase_of_not_mem hmem]
    · rw [if_neg fun h => hquery h.1, if_neg hquery]
  rw [snd_run_releaseInterface manager hpath]
  split
  · dsimp only
    rw [InterfaceTree.value_removeHandler, InterfaceTree.value_touch, InterfaceTree.value_touch,
      ← hwithdrawn]
    split
    next hquery => rw [hquery]
    next => rfl
  · exact hwithdrawn

/-- It takes the handler along when it is the last one there. -/
theorem handlers_released (hpath : locateAbsolute iface.path = ⟨node, none⟩) :
    (((releaseInterface iface).run manager).2).interfaces.handlers =
      if (manager.interfaces.value node).interfaces.erase iface = [] then
        HandlerContainer.remove manager.interfaces.handlers (manager.interfaces.value node).handler
      else manager.interfaces.handlers := by
  have hhandlers : (manager.withdrawn node iface).interfaces.handlers =
      manager.interfaces.handlers := InterfaceTree.handlers_removeInterfaceAt
  have hhandler : ((manager.withdrawn node iface).interfaces.value node).handler =
      (manager.interfaces.value node).handler := by
    rw [value_withdrawn]
    split
    · rfl
    · rfl
  rw [snd_run_releaseInterface manager hpath]
  split
  · dsimp only
    rw [InterfaceTree.handlers_removeHandler, InterfaceTree.value_touch, hhandler,
      InterfaceTree.handlers_touch, hhandlers]
  · exact hhandlers

/-- Releasing an interface does not change the interfaces of other paths. -/
theorem interfaces_releaseInterface (hpath : locateAbsolute iface.path = ⟨node, none⟩)
    (hquery : query = node → iface ∉ (manager.interfaces.value node).interfaces) :
    ((((releaseInterface iface).run manager).2).interfaces.value query).interfaces =
      (manager.interfaces.value query).interfaces := by
  rw [interfaces_released hpath]
  split
  next heq => rw [List.erase_of_not_mem (hquery heq), heq]
  next => rfl

/-- Releasing the interface takes a handler away. -/
def disconnectsLast (manager : ClientManager) (node : NodePath) (iface : ClientInterface) : Bool :=
  ((manager.interfaces.value node).interfaces.erase iface).isEmpty &&
    (manager.interfaces.value node).handler.isSome

theorem handlers_releaseInterface (hpath : locateAbsolute iface.path = ⟨node, none⟩)
    (hlast : manager.disconnectsLast node iface = false) :
    (((releaseInterface iface).run manager).2).interfaces.handlers =
      manager.interfaces.handlers := by
  rw [handlers_released hpath]
  split
  next hempty =>
    rw [disconnectsLast, hempty, List.isEmpty_nil, Bool.true_and, Option.isSome_eq_false_iff,
      Option.isNone_iff_eq_none] at hlast
    rw [hlast]
    rfl
  next => rfl

end ClientManager

end OSVR.Client
