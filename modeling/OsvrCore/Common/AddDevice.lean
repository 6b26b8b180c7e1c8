/-
# Adding devices to a path tree

`addDevice`, and what a lookup leaves behind when it throws. The components of a
path are checked one after the other, and a node is created for each before the
next one is checked, so an exception leaves the nodes of the components before
the one that is rejected.
-/

import OsvrCore.Common.PathParseAndRetrieve
import OsvrCore.Math.ProgramLoop

set_option autoImplicit false

namespace OSVR.Common

open Math

/-! ## The device of a plugin -/

/-- The exceptions of `addDevice`. -/
inductive AddDeviceError
  | invalidDeviceName (details : Str)
  | tree (error : TreeError)
  deriving DecidableEq

/-- `elements::ifNullReplaceWith`, on the value of a node. -/
def ifNullReplaceWith (node : NodePath) (element : PathElement) : TreeProgram Unit := do
  if (← TreeProgram.valueAt node).isNull then TreeProgram.setValue node element

/-- A device element without anything set. -/
def defaultDeviceElement : PathElement := .deviceElement [] [] .null

/-- Climb to the last parent before the root. -/
def lastParent (plugin : NodePath) : NodePath :=
  if 1 < plugin.length then lastParent plugin.dropLast else plugin
termination_by plugin.length
decreasing_by simp; omega

/-- The name with the leading separator that may be missing. -/
def normalizeDeviceName (deviceName : Str) : Str :=
  if deviceName.head? == some '/' then deviceName else '/' :: deviceName

/-- The end of `addDevice`, with the node of the device. -/
def setDevice (deviceName : Str) (device : NodePath) :
    Program PathTree AddDeviceError NodePath := do
  -- the node is the root, or its parent is
  if device.length < 2 then
    Program.throw (.invalidDeviceName
      ("Given device name did not include both a plugin component and a device component: ".toList
        ++ deviceName))
  else
    (ifNullReplaceWith device defaultDeviceElement).mapError .tree
    (ifNullReplaceWith (lastParent device.dropLast) .pluginElement).mapError .tree
    return device

/-- `addDevice`; it does not look at the element it is given. -/
def addDevice (deviceName : Str) (_dev : PathElement) :
    Program PathTree AddDeviceError NodePath := do
  if deviceName.length < 3 then
    Program.throw (.invalidDeviceName
      ("Given device name is too short to be a complete device name: ".toList ++ deviceName))
  else
    let device ← (getNodeByPath (normalizeDeviceName deviceName)).mapError .tree
    setDevice deviceName device

/-! ## What a path is rejected for -/

/-- The components that `getNodeByPath` throws at. -/
def isRejected (component : Component) : Bool :=
  component.1.isEmpty || component.1 == ['.', '.']

/-- The name that a component asks for, if it asks for one. -/
def toName? (component : Component) : Option PathName :=
  if h : IsName component.1 then some ⟨component.1, h⟩ else none

/-- The components of an absolute path; that of the root has none. -/
def pathComponents (path : Str) : List Component :=
  if path.tail.isEmpty then [] else components (trimTrailing path.tail)

/-- An absolute path without rejected components. -/
def isAccepted (path : Str) : Bool :=
  isPathAbsolute path && (pathComponents path).all fun component => !isRejected component

/-- The names that an absolute path gives before the first rejected component. -/
def leadingNames (path : Str) : NodePath :=
  if isPathAbsolute path then
    ((pathComponents path).takeWhile fun component => !isRejected component).filterMap toName?
  else []

theorem follow_eq (path : Str) (list : List Component) :
    (follow path list).reached =
        (list.takeWhile fun component => !isRejected component).filterMap toName? ∧
      ((follow path list).failure = none ↔
        (list.all fun component => !isRejected component) = true) := by
  induction list with
  | nil => simp [follow]
  | cons component rest ih =>
      obtain ⟨hreached, hfailure⟩ := ih
      rw [follow]
      by_cases hempty : component.1 = []
      · simp [hempty, isRejected]
      by_cases hhere : component.1 = ['.']
      · have hnone : toName? component = none := by simp [toName?, IsName, hhere]
        simp [hhere, isRejected, hnone, hreached, hfailure]
      by_cases hparent : component.1 = ['.', '.']
      · simp [hparent, isRejected]
      · have hname : IsName component.1 := ⟨hempty, component.2, hhere, hparent⟩
        have hsome : toName? component = some ⟨component.1, hname⟩ := by simp [toName?, hname]
        simp [hempty, hhere, hparent, isRejected, hsome, Located.below, hreached, hfailure]

/-- Where `getNodeByPath` leads, from the components alone. -/
theorem locateAbsolute_eq (path : Str) :
    (locateAbsolute path).reached = leadingNames path ∧
      ((locateAbsolute path).failure = none ↔ isAccepted path = true) := by
  rcases path with _ | ⟨c, rest⟩
  · simp [locateAbsolute, leadingNames, isAccepted, isPathAbsolute]
  · by_cases hc : c = '/'
    · subst hc
      by_cases hrest : rest = []
      · simp [locateAbsolute, locate, leadingNames, isAccepted, isPathAbsolute, pathComponents,
          hrest]
      · have h := follow_eq (trimTrailing rest) (components (trimTrailing rest))
        simpa [locateAbsolute, locate, leadingNames, isAccepted, isPathAbsolute, pathComponents,
          hrest] using h
    · simp [locateAbsolute, leadingNames, isAccepted, isPathAbsolute, hc]

/-! ## What an exception leaves behind -/

/-- A run that throws ends with the tree it began with. -/
def LeavesAlone {ε α : Type} (program : Program PathTree ε α) (tree : PathTree) : Prop :=
  ∀ reason after, program.run tree = (.error reason, after) → after = tree

theorem leavesAlone_getNodeByPath_iff (tree : PathTree) (path : Str) :
    LeavesAlone (getNodeByPath path) tree ↔
      isAccepted path = true ∨ (tree.value? (leadingNames path)).isSome = true := by
  obtain ⟨hreached, hfailure⟩ := locateAbsolute_eq path
  rw [LeavesAlone, run_getNodeByPath, ← hfailure, ← hreached, ← NamedTree.touch_eq_self_iff]
  rcases locateAbsolute path with ⟨reached, _ | error⟩
  · simp [Located.result]
  · simp [Located.result]

/-- A run that throws leaves the tree alone exactly when it ends with that tree. -/
theorem leavesAlone_iff_of_error {ε α : Type} {program : Program PathTree ε α}
    {tree after : PathTree} {reason : Abort ε} (hrun : program.run tree = (.error reason, after)) :
    LeavesAlone program tree ↔ after = tree := by
  apply Iff.intro
  · exact fun h => h reason after hrun
  · rintro rfl reason' after' hrun'
    rw [hrun] at hrun'
    exact (congrArg Prod.snd hrun').symm

theorem leavesAlone_of_ok {ε α : Type} {program : Program PathTree ε α} {tree after : PathTree}
    {value : α} (hrun : program.run tree = (.ok value, after)) : LeavesAlone program tree := by
  intro reason after' hrun'
  rw [hrun] at hrun'
  cases hrun'

theorem run_ifNullReplaceWith (tree : PathTree) (node : NodePath) (element : PathElement) :
    ∃ after, (ifNullReplaceWith node element).run tree = (.ok (), after) := by
  rw [ifNullReplaceWith, Program.run_bind]
  split
  next value after _ =>
    split
    · exact ⟨_, rfl⟩
    · exact ⟨_, rfl⟩
  next hrun => cases hrun

theorem run_setDevice_of_short (tree : PathTree) (deviceName : Str) {device : NodePath}
    (h : device.length < 2) : ∃ reason, (setDevice deviceName device).run tree =
      (.error reason, tree) := by
  rw [setDevice, if_pos h]
  exact ⟨_, rfl⟩

theorem run_setDevice_of_long (tree : PathTree) (deviceName : Str) {device : NodePath}
    (h : ¬ device.length < 2) : ∃ after, (setDevice deviceName device).run tree =
      (.ok device, after) := by
  obtain ⟨marked, hdevice⟩ := run_ifNullReplaceWith tree device defaultDeviceElement
  obtain ⟨after, hplugin⟩ :=
    run_ifNullReplaceWith marked (lastParent device.dropLast) .pluginElement
  rw [setDevice, if_neg h, Program.run_bind_of_ok (Program.run_mapError_of_ok hdevice),
    Program.run_bind_of_ok (Program.run_mapError_of_ok hplugin)]
  exact ⟨after, rfl⟩

/-- `addDevice` leaves the tree alone when it throws exactly if the name is too
short to be looked up, or does not make it throw, or every node that the lookup
would create is there already. -/
theorem leavesAlone_addDevice_iff (tree : PathTree) (deviceName : Str) (dev : PathElement) :
    LeavesAlone (addDevice deviceName dev) tree ↔
      deviceName.length < 3 ∨
      (isAccepted (normalizeDeviceName deviceName) = true ∧
        2 ≤ (leadingNames (normalizeDeviceName deviceName)).length) ∨
      (tree.value? (leadingNames (normalizeDeviceName deviceName))).isSome = true := by
  by_cases hshort : deviceName.length < 3
  · have hrun : ∃ reason, (addDevice deviceName dev).run tree = (.error reason, tree) := by
      rw [addDevice, if_pos hshort]
      exact ⟨_, rfl⟩
    obtain ⟨reason, hrun⟩ := hrun
    simp [leavesAlone_iff_of_error hrun, hshort]
  obtain ⟨hreached, hfailure⟩ := locateAbsolute_eq (normalizeDeviceName deviceName)
  have hlookup := run_getNodeByPath tree (normalizeDeviceName deviceName)
  rw [← hfailure, ← hreached, ← NamedTree.touch_eq_self_iff, addDevice, if_neg hshort]
  rcases hlocated : locateAbsolute (normalizeDeviceName deviceName) with ⟨device, _ | error⟩
  · rw [hlocated] at hlookup
    have hbind : ((getNodeByPath (normalizeDeviceName deviceName)).mapError AddDeviceError.tree >>=
        setDevice deviceName).run tree = (setDevice deviceName device).run (tree.touch device) :=
      Program.run_bind_of_ok (Program.run_mapError_of_ok hlookup)
    by_cases hlength : device.length < 2
    · obtain ⟨reason, hrun⟩ := run_setDevice_of_short (tree.touch device) deviceName hlength
      rw [leavesAlone_iff_of_error (hbind.trans hrun)]
      simp [hshort, hlength]
    · obtain ⟨after, hrun⟩ := run_setDevice_of_long (tree.touch device) deviceName hlength
      have halone := leavesAlone_of_ok (hbind.trans hrun)
      simp [halone, Nat.le_of_not_lt hlength]
  · rw [hlocated] at hlookup
    have hbind : ((getNodeByPath (normalizeDeviceName deviceName)).mapError AddDeviceError.tree >>=
        setDevice deviceName).run tree =
        (.error (.thrown (.tree error)), tree.touch device) :=
      Program.run_bind_of_error (Program.run_mapError_of_error hlookup)
    rw [leavesAlone_iff_of_error hbind]
    simp [hshort]

/-- A failed `getNodeByPath` and a failed `addDevice` leave the tree alone exactly
where the nodes up to the rejected component, or up to the plugin without a
device, are there before. -/
theorem failures_leave_tree_iff (tree : PathTree) (path deviceName : Str) (dev : PathElement) :
    (LeavesAlone (getNodeByPath path) tree ↔
      isAccepted path = true ∨ (tree.value? (leadingNames path)).isSome = true) ∧
    (LeavesAlone (addDevice deviceName dev) tree ↔
      deviceName.length < 3 ∨
      (isAccepted (normalizeDeviceName deviceName) = true ∧
        2 ≤ (leadingNames (normalizeDeviceName deviceName)).length) ∨
      (tree.value? (leadingNames (normalizeDeviceName deviceName))).isSome = true) :=
  ⟨leavesAlone_getNodeByPath_iff tree path, leavesAlone_addDevice_iff tree deviceName dev⟩

/-- An empty second component, and a plugin without a device, in an empty tree. -/
theorem not_leavesAlone :
    ¬ LeavesAlone (getNodeByPath "/a//b".toList) PathTree.empty ∧
      ¬ LeavesAlone (addDevice "/ab".toList defaultDeviceElement) PathTree.empty := by
  rw [leavesAlone_getNodeByPath_iff, leavesAlone_addDevice_iff]
  decide

end OSVR.Common
