/-
# Configuring a display

A display configuration is made from the descriptor in the path tree: two eyes or one, the
inputs they are shown on, and for each eye a viewport, an offset and a rotation of its axis.
Whatever throws leads to no configuration; a read past the end of a list and a failed
assertion do not.
-/

import OsvrCore.Client.DisplayDescriptor
import OsvrCore.Client.FailedRequests
import OsvrCore.Client.ViewerEye

set_option autoImplicit false

namespace OSVR.Client

open Common Math Util

structure DisplayInput where
  width : UInt32
  height : UInt32
  deriving DecidableEq

namespace DisplayInput

def new (width height : Int32) : DisplayInput := ⟨width.toUInt32, height.toUInt32⟩

def getDisplayWidth (input : DisplayInput) : Int32 := input.width.toInt32

def getDisplayHeight (input : DisplayInput) : Int32 := input.height.toInt32

@[simp] theorem getDisplayWidth_new (width height : Int32) :
    (new width height).getDisplayWidth = width := rfl

@[simp] theorem getDisplayHeight_new (width height : Int32) :
    (new width height).getDisplayHeight = height := rfl

end DisplayInput

structure Viewer where
  head : Option ClientInterface
  eyes : List ViewerEye

structure DisplayConfig where
  viewers : List Viewer
  displayInputs : List DisplayInput

/-- What ends the configuration: an exception, which is caught, or a read past the end of a
list or a failed assertion. -/
inductive DisplayFault
  | exception (error : DisplayException)
  | outOfBounds (index : ℕ)
  | assertion

abbrev DisplayProgram (α : Type) := Program OpeningContext DisplayFault α

/-! ## One eye -/

/-- `operator[]` of a vector. -/
def elementAt {α : Type} (items : List α) (index : ℕ) : Except DisplayFault α :=
  match items[index]? with
  | some item => .ok item
  | none => .error (.outOfBounds index)

section Eye

variable (arithmetic : AngleArithmetic) (descriptor : DisplayDescriptor)

def computeViewport (eye : ℕ) : Except DisplayException Viewport := do
  match ← descriptor.getDisplayMode with
  | .fullScreen =>
      let width := (← descriptor.getDisplayWidth).toInt
      let height := (← descriptor.getDisplayHeight).toInt
      return { left := 0, bottom := 0, width, height }
  | .horizontalSideBySide =>
      let height := (← descriptor.getDisplayHeight).toInt
      let width := (← descriptor.getDisplayWidth).toInt.tdiv 2
      -- Eye 0 starts at the left, eye 1 starts in the middle.
      return { left := eye * width, bottom := 0, width, height }
  | .verticalSideBySide =>
      let width := (← descriptor.getDisplayWidth).toInt
      let height := (← descriptor.getDisplayHeight).toInt.tdiv 2
      -- Eye 0 in the top half, eye 1 at the bottom.
      return { left := 0, bottom := if eye = 0 then height else 0, width, height }

/-- `computeSymmetricFOVRect` of the fields of view. -/
def computeRect : Rectd :=
  let right := arithmetic.tan (descriptor.monocularHorizontalFOV / 2)
  let top := arithmetic.tan (descriptor.monocularVerticalFOV / 2)
  { left := -right, right, top, bottom := -top }

/-- What all eyes have in common. -/
structure EyeSetup where
  offset : Fin 3 → ℚ
  distort : Option RadialDistortionParameters
  axisOffset : ℚ
  displayInputIndices : List ℕ

/-- The eye of an index, without its interface. -/
def viewerEye (setup : EyeSetup) (eye : ℕ) : Except DisplayFault ViewerEye := do
  -- Turns 0 into -1 and 1 into 1.
  let offsetFactor : ℚ := 2 * eye - 1
  let distortEye ← match setup.distort with
    | none => pure none
    | some params => do
        let info ← elementAt descriptor.eyes eye
        pure (some { params with centerOfProjection := ![info.centerProjX, info.centerProjY] })
  let xlateOffset : Fin 3 → ℚ := fun axis => offsetFactor * setup.offset axis
  let eyeAxisOffset := setup.axisOffset * -1 * offsetFactor
  let displayInputIdx ← elementAt setup.displayInputIndices eye
  let viewport ← (computeViewport descriptor eye).mapError .exception
  let info ← elementAt descriptor.eyes eye
  return {
    pose := none, offset := xlateOffset, viewport
    unitBounds := computeRect arithmetic descriptor, rot180 := info.rotate180
    pitchTilt := descriptor.pitchTilt, radDistortParams := distortEye
    displayInputIdx, opticalAxisOffsetY := eyeAxisOffset }

end Eye

/-! ## All eyes -/

def HEAD_PATH : Str := "/me/head".toList

theorem isName_display : IsName "display".toList := by decide

/-- The node of `/display`. -/
def displayNode : NodePath := [⟨"display".toList, isName_display⟩]

/-- `getStringParameter`; a node that is missing or has no text gives the empty one. -/
def OpeningContext.getStringParameter (context : OpeningContext) (node : NodePath) : Str :=
  match context.manager.tree.value? node with
  | some (.stringElement value) => value
  | some .nullElement | some .sensorElement | some .interfaceElement | some (.deviceElement _ _ _)
  | some .pluginElement | some (.aliasElement _ _) | none => []

namespace DisplayProgram

variable {α : Type}

/-- Code of the client. -/
def ofClient (program : OpeningProgram α) : DisplayProgram α :=
  program.mapError fun error => .exception (.client error)

/-- `~InternalInterfaceOwner`. -/
def release : Option ClientInterface → OpeningProgram Unit
  | none => pure ()
  | some iface => do
      let _ ← OpeningContext.releaseInterface iface

/-- The result is that of an exception. -/
def isException : Except (Abort DisplayFault) α → Bool
  | .error (.thrown (.exception _)) => true
  | .error (.thrown (.outOfBounds _)) | .error (.thrown .assertion) | .error .undefined
  | .error .outOfFuel | .ok _ => false

/-- The interface is released when an exception ends the program. -/
def releasing (iface : Option ClientInterface) (program : DisplayProgram α) : DisplayProgram α :=
  fun context =>
    let (result, after) := program.run context
    (result, if isException result then ((release iface).run after).2 else after)

/-- An exception leads to nothing. -/
def caught (program : DisplayProgram α) : DisplayProgram (Option α) := fun context =>
  let (result, after) := program.run context
  (if isException result then .ok none else result.map some, after)

end DisplayProgram

open DisplayProgram

section Create

variable (asserts : Bool) (arithmetic : AngleArithmetic) (env : ClientEnvironment) (fuel : ℕ)

/-- `InternalInterfaceOwner` of a path, with what comes after it. -/
def owning {α : Type} (path : Str) (next : Option ClientInterface → DisplayProgram α) :
    DisplayProgram α := do
  let iface ← ofClient (OpeningContext.getInterface env fuel path)
  releasing iface (next iface)

def createEyes (descriptor : DisplayDescriptor) (setup : EyeSetup) :
    List ℕ → DisplayProgram (List ViewerEye)
  | [] => return []
  | eye :: rest => do
      let made ← Program.ofExcept (viewerEye arithmetic descriptor setup eye)
      owning env fuel HEAD_PATH fun pose => do
        let others ← createEyes descriptor setup rest
        return { made with pose } :: others

/-- The offset of an eye to the right, and the indices of the eyes. -/
def stereoOrMono (descriptor : DisplayDescriptor) : (Fin 3 → ℚ) × List ℕ :=
  if descriptor.eyes.length = 2 then (![DisplayDescriptor.getIPDMeters / 2, 0, 0], [0, 1])
  else (0, [0])

def distortParameters (descriptor : DisplayDescriptor) : Option RadialDistortionParameters :=
  let k1 := descriptor.distort
  if k1.k1_red ≠ 0 ∨ k1.k1_green ≠ 0 ∨ k1.k1_blue ≠ 0 then
    some { k1 := ![k1.k1_red, k1.k1_green, k1.k1_blue], centerOfProjection := 0 }
  else none

/-- The angle of the optical axis for the part of the view that the eyes do not share. -/
def axisOffset (descriptor : DisplayDescriptor) : ℚ :=
  if descriptor.overlapPercent < 1 then
    let hfov := descriptor.monocularHorizontalFOV
    (hfov - hfov * descriptor.overlapPercent) / 2
  else 0

/-- The input of each eye, and the inputs. -/
def inferDisplayInputs (descriptor : DisplayDescriptor) :
    Except DisplayException (List ℕ × List DisplayInput) := do
  if descriptor.eyes.length = 2 then
    if (← descriptor.getDisplayMode) = .fullScreen then
      -- Two eyes and the full screen mean two screens.
      let input := .new (← descriptor.getDisplayWidth) (← descriptor.getDisplayHeight)
      return ([0, 1], [input, input])
  return ([0, 0], [.new (← descriptor.getDisplayWidth) (← descriptor.getDisplayHeight)])

/-- What is configured once the viewer has its interface. -/
def configure (descriptor : DisplayDescriptor) (head : Option ClientInterface) :
    DisplayProgram DisplayConfig := do
  let (offset, eyeIndices) := stereoOrMono descriptor
  let (displayInputIndices, displayInputs) ←
    Program.ofExcept ((inferDisplayInputs descriptor).mapError .exception)
  if asserts ∧ displayInputIndices.length < descriptor.eyes.length then
    Program.throw .assertion
  let setup := {
    offset, distort := distortParameters descriptor, axisOffset := axisOffset descriptor
    displayInputIndices }
  let eyes ← createEyes arithmetic env fuel descriptor setup eyeIndices
  return { viewers := [{ head, eyes }], displayInputs }

/-- `DisplayConfigFactory::create`. -/
def DisplayConfig.create : DisplayProgram (Option DisplayConfig) := caught do
  let descriptorString := (← Program.get).getStringParameter displayNode
  let descriptor ← Program.ofExcept
    ((DisplayDescriptor.parse arithmetic env.codec descriptorString).mapError .exception)
  owning env fuel HEAD_PATH (configure asserts arithmetic env fuel descriptor)

end Create

/-! ## Well-formed configurations -/

/-- A viewport lies in the bounds of an input. -/
structure Viewport.Inside (viewport : Viewport) (input : DisplayInput) : Prop where
  left : 0 ≤ viewport.left
  bottom : 0 ≤ viewport.bottom
  width : 0 ≤ viewport.width
  height : 0 ≤ viewport.height
  right : viewport.left + viewport.width ≤ input.getDisplayWidth.toInt
  top : viewport.bottom + viewport.height ≤ input.getDisplayHeight.toInt

/-- Two viewports have no pixel in common: one is beside the other, or below it. -/
def Viewport.Disjoint (first second : Viewport) : Prop :=
  (first.left + first.width ≤ second.left ∨ second.left + second.width ≤ first.left) ∨
    first.bottom + first.height ≤ second.bottom ∨ second.bottom + second.height ≤ first.bottom

/-- An offset in the mirror between the left and the right. -/
def mirrored (offset : Fin 3 → ℚ) : Fin 3 → ℚ := fun axis =>
  if axis.val = 0 then -offset axis else offset axis

structure DisplayConfig.WellFormed (cfg : DisplayConfig) : Prop where
  inside : ∀ viewer ∈ cfg.viewers, ∀ eye ∈ viewer.eyes,
    ∃ input, cfg.displayInputs[eye.displayInputIdx]? = some input ∧
      eye.viewport.Inside input
  disjoint : ∀ viewer ∈ cfg.viewers, viewer.eyes.Pairwise fun first second =>
    first.displayInputIdx = second.displayInputIdx →
      first.viewport.Disjoint second.viewport
  mirrored : ∀ viewer ∈ cfg.viewers, ∀ left right, viewer.eyes = [left, right] →
    right.offset = mirrored left.offset ∧
      right.opticalAxisOffsetY = -left.opticalAxisOffsetY
  centered : ∀ viewer ∈ cfg.viewers, ∀ eye, viewer.eyes = [eye] →
    eye.offset = 0 ∧ eye.opticalAxisOffsetY = 0

/-- A configuration is returned that is well formed, or there is none. -/
inductive WellFormedResult : Except (Abort DisplayFault) (Option DisplayConfig) → Prop
  | configured {cfg : DisplayConfig} (h : cfg.WellFormed) : WellFormedResult (.ok (some cfg))
  | nothing : WellFormedResult (.ok none)

/-- The same before exceptions have been caught. -/
inductive WellFormedRun : Except (Abort DisplayFault) DisplayConfig → Prop
  | configured {cfg : DisplayConfig} (h : cfg.WellFormed) : WellFormedRun (.ok cfg)
  | exception (error : DisplayException) : WellFormedRun (.error (.thrown (.exception error)))

section Results

variable {program : DisplayProgram DisplayConfig} {context : OpeningContext} {cfg : DisplayConfig}

theorem wellFormedRun_ok_iff : WellFormedRun (.ok cfg) ↔ cfg.WellFormed := by
  apply Iff.intro
  · rintro ⟨h⟩
    exact h
  · exact .configured

theorem wellFormedResult_caught_iff :
    WellFormedResult ((caught program).run context).1 ↔ WellFormedRun (program.run context).1 := by
  show WellFormedResult (if isException (program.run context).1 then .ok none
    else (program.run context).1.map some) ↔ _
  rcases (program.run context).1 with (error | _ | _) | cfg
  · cases error with
    | exception error => exact iff_of_true .nothing (.exception error)
    | outOfBounds index => exact iff_of_false nofun nofun
    | assertion => exact iff_of_false nofun nofun
  · exact iff_of_false nofun nofun
  · exact iff_of_false nofun nofun
  · rw [wellFormedRun_ok_iff]
    apply Iff.intro
    · rintro ⟨h⟩
      exact h
    · exact .configured

theorem wellFormedRun_releasing_iff (iface : Option ClientInterface) :
    WellFormedRun ((releasing iface program).run context).1 ↔
      WellFormedRun (program.run context).1 := Iff.rfl

end Results

/-! ## Viewports -/

/-- The viewport of an eye at a resolution. -/
def viewportOf (resolution : Resolution) (eye : ℕ) : Viewport :=
  match resolution.display_mode with
  | .fullScreen => ⟨0, 0, resolution.width.toInt, resolution.height.toInt⟩
  | .horizontalSideBySide =>
      ⟨eye * resolution.width.toInt.tdiv 2, 0, resolution.width.toInt.tdiv 2,
        resolution.height.toInt⟩
  | .verticalSideBySide =>
      ⟨0, if eye = 0 then resolution.height.toInt.tdiv 2 else 0, resolution.width.toInt,
        resolution.height.toInt.tdiv 2⟩

/-- The dimensions are not negative. -/
structure Resolution.Valid (resolution : Resolution) : Prop where
  width : 0 ≤ resolution.width.toInt
  height : 0 ≤ resolution.height.toInt

section Viewports

variable {arithmetic : AngleArithmetic} {descriptor : DisplayDescriptor} {resolution : Resolution}
  {eye : ℕ}

theorem computeViewport_of_active (hactive : descriptor.activeResolution = .ok resolution)
    (eye : ℕ) : computeViewport descriptor eye = .ok (viewportOf resolution eye) := by
  rw [computeViewport, DisplayDescriptor.getDisplayMode, DisplayDescriptor.getDisplayWidth,
    DisplayDescriptor.getDisplayHeight, hactive, viewportOf]
  cases hmode : resolution.display_mode <;> simp [Except.map, hmode] <;> rfl

theorem viewportOf_inside (h : resolution.Valid) (heye : eye ≤ 1) :
    (viewportOf resolution eye).Inside (.new resolution.width resolution.height) := by
  have hwidth := h.width
  have hheight := h.height
  have hhalf (size : ℤ) (hsize : 0 ≤ size) : 0 ≤ size.tdiv 2 ∧ 2 * size.tdiv 2 ≤ size := by
    rw [Int.tdiv_eq_ediv_of_nonneg hsize]
    omega
  have hindex : eye = 0 ∨ eye = 1 := by omega
  rw [viewportOf]
  cases resolution.display_mode with
  | fullScreen => exact ⟨le_rfl, le_rfl, hwidth, hheight, by simp, by simp⟩
  | horizontalSideBySide =>
      obtain ⟨hnonneg, hfits⟩ := hhalf _ hwidth
      rcases hindex with rfl | rfl
      · exact ⟨by simp, le_rfl, hnonneg, hheight, by simp; omega, by simp⟩
      · exact ⟨by simpa using hnonneg, le_rfl, hnonneg, hheight, by simp; omega, by simp⟩
  | verticalSideBySide =>
      obtain ⟨hnonneg, hfits⟩ := hhalf _ hheight
      rcases hindex with rfl | rfl
      · exact ⟨le_rfl, hnonneg, hwidth, hnonneg, by simp, by simp; omega⟩
      · exact ⟨le_rfl, le_rfl, hwidth, hnonneg, by simp, by simp; omega⟩

theorem viewportOf_disjoint (hmode : resolution.display_mode ≠ .fullScreen) :
    (viewportOf resolution 0).Disjoint (viewportOf resolution 1) := by
  rw [viewportOf, viewportOf]
  cases h : resolution.display_mode with
  | fullScreen => exact absurd h hmode
  | horizontalSideBySide =>
      refine .inl (.inl ?_)
      simp
  | verticalSideBySide =>
      refine .inr (.inr ?_)
      simp

end Viewports

/-! ## The eyes that are made -/

section Eyes

variable {arithmetic : AngleArithmetic} {env : ClientEnvironment} {fuel : ℕ}
  {descriptor : DisplayDescriptor} {resolution : Resolution} {setup : EyeSetup}
  {context : OpeningContext} {eye : ℕ}

/-- What is said about an eye of an index; all but its interface comes from the setup. -/
structure MadeFor (resolution : Resolution) (setup : EyeSetup) (eye : ℕ) (made : ViewerEye) :
    Prop where
  offset : made.offset = fun axis => (2 * eye - 1) * setup.offset axis
  viewport : made.viewport = viewportOf resolution eye
  input : setup.displayInputIndices[eye]? = some made.displayInputIdx
  axis : made.opticalAxisOffsetY = setup.axisOffset * -1 * (2 * eye - 1)

theorem elementAt_of_getElem? {α : Type} {items : List α} {index : ℕ} {item : α}
    (h : items[index]? = some item) : elementAt items index = .ok item := by
  rw [elementAt, h]

theorem viewerEye_of_active (hactive : descriptor.activeResolution = .ok resolution)
    (heye : eye < descriptor.eyes.length) (hinput : eye < setup.displayInputIndices.length) :
    ∃ made, viewerEye arithmetic descriptor setup eye = .ok made ∧
      MadeFor resolution setup eye made := by
  have hinfo := elementAt_of_getElem? (List.getElem?_eq_getElem heye)
  have hindex := List.getElem?_eq_getElem hinput
  rw [viewerEye, hinfo, elementAt_of_getElem? hindex, computeViewport_of_active hactive]
  cases setup.distort with
  | none => exact ⟨_, rfl, rfl, rfl, hindex, rfl⟩
  | some params => exact ⟨_, rfl, rfl, rfl, hindex, rfl⟩

/-- A read of an eye that does not exist ends the making of the eye. -/
theorem viewerEye_of_missing (hactive : descriptor.activeResolution = .ok resolution)
    (heye : descriptor.eyes.length ≤ eye) (hinput : eye < setup.displayInputIndices.length) :
    viewerEye arithmetic descriptor setup eye = .error (.outOfBounds eye) := by
  have hinfo : elementAt descriptor.eyes eye = .error (.outOfBounds eye) := by
    rw [elementAt, List.getElem?_eq_none heye]
  rw [viewerEye, hinfo, elementAt_of_getElem? (List.getElem?_eq_getElem hinput),
    computeViewport_of_active hactive]
  cases setup.distort <;> rfl

/-! ## Requests for the head -/

theorem isName_me : IsName "me".toList := by decide

theorem isName_head : IsName "head".toList := by decide

/-- The node of the path of the head. -/
def headNode : NodePath := [⟨"me".toList, isName_me⟩, ⟨"head".toList, isName_head⟩]

theorem locateAbsolute_head : locateAbsolute HEAD_PATH = ⟨headNode, none⟩ :=
  locateAbsolute_getFullPath headNode

/-- The head has an interface. -/
def HasHead (context : OpeningContext) : Prop :=
  (context.manager.interfaces.value headNode).interfaces ≠ []

/-- Another interface for the head connects nothing and throws nothing. -/
theorem run_owning_of_hasHead {α : Type} (hhead : HasHead context)
    (next : Option ClientInterface → DisplayProgram α) :
    ∃ pose after, HasHead after ∧
      (owning env (fuel + 1) HEAD_PATH next).run context =
        (releasing pose (next pose)).run after := by
  have hrun : (OpeningContext.getInterface env (fuel + 1) HEAD_PATH).run context =
      (.ok (some ⟨context.created, HEAD_PATH⟩), { context.entering headNode HEAD_PATH with
        interfaces := context.interfaces ++ [⟨context.created, HEAD_PATH⟩] }) :=
    OpeningContext.run_getInterfaceWith_of_occupied locateAbsolute_head hhead
  refine ⟨_, _, ?_, Program.run_bind_of_ok (Program.run_mapError_of_ok hrun)⟩
  exact OpeningContext.occupied_entering headNode hhead

theorem run_releasing_of_ok {α : Type} {program : DisplayProgram α} {value : α}
    {after : OpeningContext} (iface : Option ClientInterface)
    (hrun : program.run context = (.ok value, after)) :
    (releasing iface program).run context = (.ok value, after) := by
  show ((program.run context).1, if isException (program.run context).1 then _
    else (program.run context).2) = _
  rw [hrun]
  rfl

/-- When every eye can be made, all are, each with an interface for the head. -/
theorem run_createEyes (indices : List ℕ)
    (hmade : ∀ index ∈ indices, ∃ made, viewerEye arithmetic descriptor setup index = .ok made ∧
      MadeFor resolution setup index made) (hhead : HasHead context) :
    ∃ eyes final, (createEyes arithmetic env (fuel + 1) descriptor setup indices).run context =
        (.ok eyes, final) ∧ List.Forall₂ (MadeFor resolution setup) indices eyes := by
  induction indices generalizing context with
  | nil => exact ⟨[], context, rfl, .nil⟩
  | cons index indices ih =>
      obtain ⟨⟨made, hview, hspec⟩, hrest⟩ := List.forall_mem_cons.mp hmade
      obtain ⟨pose, after, hafter, howning⟩ := run_owning_of_hasHead hhead fun pose => do
        let others ← createEyes arithmetic env (fuel + 1) descriptor setup indices
        return { made with pose } :: others
      obtain ⟨others, final, hothers, hspecs⟩ := ih hrest hafter
      refine ⟨{ made with pose } :: others, final, ?_, .cons ?_ hspecs⟩
      · rw [createEyes, hview, Program.run_bind_of_ok (Program.run_ofExcept_ok _ _)]
        refine howning.trans (run_releasing_of_ok pose ?_)
        rw [Program.run_bind_of_ok hothers]
        rfl
      · exact ⟨hspec.offset, hspec.viewport, hspec.input, hspec.axis⟩

/-! ## What comes of the eyes -/

/-- Every eye of a viewer that is shown on an input lies in its bounds. -/
theorem MadeFor.inside {made : ViewerEye} {inputs : List DisplayInput}
    (h : MadeFor resolution setup eye made) (hvalid : resolution.Valid) (heye : eye ≤ 1)
    (hinputs : ∀ index ∈ setup.displayInputIndices,
      inputs[index]? = some (.new resolution.width resolution.height)) :
    ∃ input, inputs[made.displayInputIdx]? = some input ∧ made.viewport.Inside input := by
  refine ⟨_, hinputs _ (List.mem_of_getElem? h.input), ?_⟩
  rw [h.viewport]
  exact viewportOf_inside hvalid heye

/-- Two eyes are well formed when they share an input only if it is divided. -/
theorem wellFormed_stereo {head : Option ClientInterface} {eyes : List ViewerEye}
    {inputs : List DisplayInput} {distance : ℚ} (hvalid : resolution.Valid)
    (hmade : List.Forall₂ (MadeFor resolution setup) [0, 1] eyes)
    (hoffset : setup.offset = ![distance, 0, 0])
    (hinputs : ∀ index ∈ setup.displayInputIndices,
      inputs[index]? = some (.new resolution.width resolution.height))
    (hshared : setup.displayInputIndices[0]? = setup.displayInputIndices[1]? →
      resolution.display_mode ≠ .fullScreen) :
    DisplayConfig.WellFormed ⟨[⟨head, eyes⟩], inputs⟩ := by
  obtain _ | ⟨hleft, _ | ⟨hright, _ | _⟩⟩ := hmade
  constructor
  case inside =>
    intro viewer hviewer eye heye
    rw [List.mem_singleton.mp hviewer] at heye
    rcases List.mem_pair.mp heye with rfl | rfl
    · exact hleft.inside hvalid (by decide) hinputs
    · exact hright.inside hvalid le_rfl hinputs
  case disjoint =>
    intro viewer hviewer
    rw [List.mem_singleton.mp hviewer, List.pairwise_pair]
    intro hsame
    rw [hleft.viewport, hright.viewport]
    apply viewportOf_disjoint
    apply hshared
    rw [hleft.input, hright.input, hsame]
  case mirrored =>
    intro viewer hviewer left right heyes
    rw [List.mem_singleton.mp hviewer] at heyes
    cases heyes
    apply And.intro
    · rw [hleft.offset, hright.offset, hoffset]
      funext axis
      fin_cases axis <;> simp [OSVR.Client.mirrored]
      norm_num
    · rw [hleft.axis, hright.axis]
      norm_num
  case centered =>
    intro viewer hviewer eye heyes
    rw [List.mem_singleton.mp hviewer] at heyes
    cases heyes

/-- One eye in the middle is well formed when its axis is not turned. -/
theorem wellFormed_mono_iff {head : Option ClientInterface} {eyes : List ViewerEye}
    {inputs : List DisplayInput} (hvalid : resolution.Valid)
    (hmade : List.Forall₂ (MadeFor resolution setup) [0] eyes) (hoffset : setup.offset = 0)
    (hinputs : ∀ index ∈ setup.displayInputIndices,
      inputs[index]? = some (.new resolution.width resolution.height)) :
    DisplayConfig.WellFormed ⟨[⟨head, eyes⟩], inputs⟩ ↔ setup.axisOffset = 0 := by
  obtain _ | ⟨hmade, _ | _⟩ := hmade
  rename_i eye
  have haxis : eye.opticalAxisOffsetY = setup.axisOffset := by
    rw [hmade.axis]
    simp
  apply Iff.intro
  · intro h
    rw [← haxis]
    exact (h.centered _ List.mem_cons_self eye rfl).2
  · intro hzero
    constructor
    case inside =>
      intro viewer hviewer eye heye
      rw [List.mem_singleton.mp hviewer] at heye
      rw [List.mem_singleton.mp heye]
      exact hmade.inside hvalid (by decide) hinputs
    case disjoint =>
      intro viewer hviewer
      rw [List.mem_singleton.mp hviewer]
      exact List.pairwise_singleton _ _
    case mirrored =>
      intro viewer hviewer left right heyes
      rw [List.mem_singleton.mp hviewer] at heyes
      cases heyes
    case centered =>
      intro viewer hviewer eye heyes
      rw [List.mem_singleton.mp hviewer] at heyes
      cases heyes
      refine ⟨?_, haxis.trans hzero⟩
      rw [hmade.offset, hoffset]
      funext axis
      exact mul_zero _

/-! ## When the configuration is well formed -/

/-- Two eyes are always configured consistently. A single one is when the field of view is
not split; more than two are taken for one where assertions are off, and none are not seen. -/
def DisplayDescriptor.Configurable (asserts : Bool) (descriptor : DisplayDescriptor) : Prop :=
  descriptor.eyes.length = 2 ∨
    descriptor.eyes ≠ [] ∧ (asserts = true → descriptor.eyes.length ≤ 2) ∧
      (1 ≤ descriptor.overlapPercent ∨ descriptor.monocularHorizontalFOV = 0)

theorem axisOffset_eq_zero_iff : axisOffset descriptor = 0 ↔
    1 ≤ descriptor.overlapPercent ∨ descriptor.monocularHorizontalFOV = 0 := by
  rw [axisOffset]
  split
  next hlt =>
    have hfactor : (descriptor.monocularHorizontalFOV -
        descriptor.monocularHorizontalFOV * descriptor.overlapPercent) / 2 =
          descriptor.monocularHorizontalFOV * ((1 - descriptor.overlapPercent) / 2) := by ring
    have hrest : (1 - descriptor.overlapPercent) / 2 ≠ 0 := by linarith
    rw [hfactor, mul_eq_zero, or_iff_left hrest, or_iff_right (not_le.mpr hlt)]
  next hle => exact iff_of_true rfl (.inl (not_lt.mp hle))

/-- Both ways to assign inputs give every eye an input of the resolution. -/
theorem inferDisplayInputs_of_active (hactive : descriptor.activeResolution = .ok resolution) :
    ∃ indices inputs, inferDisplayInputs descriptor = .ok (indices, inputs) ∧
      indices.length = 2 ∧
      (∀ index ∈ indices, inputs[index]? = some (.new resolution.width resolution.height)) ∧
      (indices[0]? = indices[1]? → descriptor.eyes.length = 2 →
        resolution.display_mode ≠ .fullScreen) := by
  have hone : ∀ index ∈ [0, 0], [DisplayInput.new resolution.width resolution.height][index]? =
      some (.new resolution.width resolution.height) := by simp
  rw [inferDisplayInputs, DisplayDescriptor.getDisplayMode, DisplayDescriptor.getDisplayWidth,
    DisplayDescriptor.getDisplayHeight, hactive]
  by_cases hstereo : descriptor.eyes.length = 2
  · by_cases hfull : resolution.display_mode = .fullScreen
    · refine ⟨[0, 1], [.new resolution.width resolution.height,
        .new resolution.width resolution.height], ?_, rfl, by simp, by simp⟩
      rw [if_pos hstereo]
      show (if resolution.display_mode = .fullScreen then _ else _) = _
      rw [if_pos hfull]
      rfl
    · refine ⟨[0, 0], [.new resolution.width resolution.height], ?_, rfl, hone, fun _ _ => hfull⟩
      rw [if_pos hstereo]
      show (if resolution.display_mode = .fullScreen then _ else _) = _
      rw [if_neg hfull]
      rfl
  · refine ⟨[0, 0], [.new resolution.width resolution.height], ?_, rfl, hone,
      fun _ h => absurd h hstereo⟩
    rw [if_neg hstereo]
    rfl

/-- The configuration is ended by the assertion, or the eyes are made. -/
theorem run_configure {asserts : Bool} {head : Option ClientInterface} {indices : List ℕ}
    {inputs : List DisplayInput} (hinputs : inferDisplayInputs descriptor = .ok (indices, inputs)) :
    (configure asserts arithmetic env fuel descriptor head).run context =
      if asserts ∧ indices.length < descriptor.eyes.length then
        (.error (.thrown .assertion), context)
      else (createEyes arithmetic env fuel descriptor ⟨(stereoOrMono descriptor).1,
          distortParameters descriptor, axisOffset descriptor, indices⟩
            (stereoOrMono descriptor).2 >>=
        fun eyes => pure ⟨[⟨head, eyes⟩], inputs⟩).run context := by
  rw [configure, hinputs]
  show (if asserts ∧ indices.length < descriptor.eyes.length then _ else _ :
    DisplayProgram DisplayConfig).run context = _
  split
  · rfl
  · rfl

/-- Two eyes are made and well formed. -/
theorem wellFormedRun_stereo {head : Option ClientInterface} {inputs : List DisplayInput}
    (hhead : HasHead context) (hactive : descriptor.activeResolution = .ok resolution)
    (hvalid : resolution.Valid) (hstereo : descriptor.eyes.length = 2)
    (hoffset : setup.offset = ![DisplayDescriptor.getIPDMeters / 2, 0, 0])
    (hlength : setup.displayInputIndices.length = 2)
    (hinputs : ∀ index ∈ setup.displayInputIndices,
      inputs[index]? = some (.new resolution.width resolution.height))
    (hshared : setup.displayInputIndices[0]? = setup.displayInputIndices[1]? →
      resolution.display_mode ≠ .fullScreen) :
    WellFormedRun ((createEyes arithmetic env (fuel + 1) descriptor setup [0, 1] >>=
      fun eyes => pure ⟨[⟨head, eyes⟩], inputs⟩).run context).1 := by
  have hmade : ∀ index ∈ [0, 1], ∃ made, viewerEye arithmetic descriptor setup index = .ok made ∧
      MadeFor resolution setup index made := by
    intro index hindex
    have hlt : index < 2 := by
      rcases List.mem_pair.mp hindex with rfl | rfl <;> decide
    exact viewerEye_of_active hactive (hstereo ▸ hlt) (hlength ▸ hlt)
  obtain ⟨eyes, final, heyes, hspecs⟩ := run_createEyes [0, 1] hmade hhead
  rw [Program.run_bind_of_ok heyes]
  exact .configured (wellFormed_stereo hvalid hspecs hoffset hinputs hshared)

/-- One eye is well formed when it is there and its axis is not turned. -/
theorem wellFormedRun_mono_iff {head : Option ClientInterface} {inputs : List DisplayInput}
    (hhead : HasHead context) (hactive : descriptor.activeResolution = .ok resolution)
    (hvalid : resolution.Valid) (hoffset : setup.offset = 0)
    (hlength : setup.displayInputIndices.length = 2)
    (hinputs : ∀ index ∈ setup.displayInputIndices,
      inputs[index]? = some (.new resolution.width resolution.height)) :
    WellFormedRun ((createEyes arithmetic env (fuel + 1) descriptor setup [0] >>=
        fun eyes => pure ⟨[⟨head, eyes⟩], inputs⟩).run context).1 ↔
      descriptor.eyes ≠ [] ∧ setup.axisOffset = 0 := by
  have hinput : 0 < setup.displayInputIndices.length := by
    rw [hlength]
    decide
  cases heyes : descriptor.eyes with
  | nil =>
      have hmissing : viewerEye arithmetic descriptor setup 0 = .error (.outOfBounds 0) :=
        viewerEye_of_missing hactive (by rw [heyes]; rfl) hinput
      apply iff_of_false
      · rw [createEyes, hmissing]
        exact nofun
      · exact fun h => h.1 rfl
  | cons first others =>
      have hmade : ∀ index ∈ [0], ∃ made, viewerEye arithmetic descriptor setup index = .ok made ∧
          MadeFor resolution setup index made := by
        intro index hindex
        rw [List.mem_singleton.mp hindex]
        exact viewerEye_of_active hactive (by rw [heyes]; exact Nat.succ_pos _) hinput
      obtain ⟨eyes, final, hrun, hspecs⟩ := run_createEyes [0] hmade hhead
      rw [Program.run_bind_of_ok hrun, and_iff_right (List.cons_ne_nil first others)]
      exact wellFormedRun_ok_iff.trans (wellFormed_mono_iff hvalid hspecs hoffset hinputs)

/-- What is configured when the head has an interface: nothing without a resolution. -/
theorem wellFormedRun_configure_iff {asserts : Bool} {head : Option ClientInterface}
    (hhead : HasHead context) (hvalid : ∀ resolution ∈ descriptor.resolutions, resolution.Valid) :
    WellFormedRun ((configure asserts arithmetic env (fuel + 1) descriptor head).run context).1 ↔
      (descriptor.resolutions ≠ [] → descriptor.Configurable asserts) := by
  cases hresolutions : descriptor.resolutions with
  | nil =>
      have hactive : descriptor.activeResolution = .error .outOfRange := by
        rw [DisplayDescriptor.activeResolution, hresolutions]
      have hinputs : inferDisplayInputs descriptor = .error .outOfRange := by
        rw [inferDisplayInputs, DisplayDescriptor.getDisplayMode, DisplayDescriptor.getDisplayWidth,
          hactive]
        split <;> rfl
      apply iff_of_true
      · rw [configure, hinputs]
        exact .exception .outOfRange
      · exact fun h => absurd rfl h
  | cons resolution rest =>
      have hactive : descriptor.activeResolution = .ok resolution := by
        rw [DisplayDescriptor.activeResolution, hresolutions]
      have hvalid' : resolution.Valid := hvalid resolution (hresolutions ▸ List.mem_cons_self)
      obtain ⟨indices, inputs, hinputs, hlength, hplaces, hshared⟩ :=
        inferDisplayInputs_of_active hactive
      rw [run_configure hinputs, forall_prop_of_true (List.cons_ne_nil resolution rest), hlength,
        DisplayDescriptor.Configurable]
      by_cases hstereo : descriptor.eyes.length = 2
      · rw [if_neg (by rw [hstereo]; exact fun h => Nat.lt_irrefl 2 h.2),
          stereoOrMono, if_pos hstereo]
        apply iff_of_true _ (.inl hstereo)
        exact wellFormedRun_stereo hhead hactive hvalid' hstereo rfl hlength hplaces
          fun h => hshared h hstereo
      · rw [or_iff_right hstereo]
        split
        next hmany =>
          apply iff_of_false nofun
          exact fun h => absurd (h.2.1 hmany.1) (not_le.mpr hmany.2)
        next hfew =>
          have hallowed : asserts = true → descriptor.eyes.length ≤ 2 :=
            fun hasserts => not_lt.mp fun hmany => hfew ⟨hasserts, hmany⟩
          rw [stereoOrMono, if_neg hstereo, and_iff_right hallowed, ← axisOffset_eq_zero_iff]
          exact wellFormedRun_mono_iff hhead hactive hvalid' rfl hlength hplaces

/-- When there is a descriptor and the head has been requested, the rest is configured. -/
theorem wellFormedResult_create_of_parse {asserts : Bool} {head : Option ClientInterface}
    {after : OpeningContext}
    (hparse : DisplayDescriptor.parse arithmetic env.codec
      (context.getStringParameter displayNode) = .ok descriptor)
    (hrequest : (OpeningContext.getInterface env (fuel + 1) HEAD_PATH).run context =
      (.ok head, after))
    (hvalid : ∀ resolution ∈ descriptor.resolutions, resolution.Valid) :
    WellFormedResult ((DisplayConfig.create asserts arithmetic env (fuel + 1)).run context).1 ↔
      (descriptor.resolutions ≠ [] → descriptor.Configurable asserts) := by
  have hdescriptor : (Program.ofExcept ((DisplayDescriptor.parse arithmetic env.codec
      (context.getStringParameter displayNode)).mapError DisplayFault.exception)).run context =
        (.ok descriptor, context) := by
    rw [hparse]
    rfl
  have hhead : HasHead after := by
    have hleft : HasHead ((OpeningContext.getInterface env (fuel + 1) HEAD_PATH).run context).2 :=
      OpeningContext.occupied_getInterface locateAbsolute_head
    rwa [hrequest] at hleft
  rw [DisplayConfig.create, wellFormedResult_caught_iff,
    Program.run_bind_of_ok (Program.run_get context)]
  dsimp only
  rw [Program.run_bind_of_ok hdescriptor, owning, ofClient,
    Program.run_bind_of_ok (Program.run_mapError_of_ok hrequest), wellFormedRun_releasing_iff,
    wellFormedRun_configure_iff hhead hvalid]

/-- When there is a descriptor and the request for the head does not return, nothing is configured
unless it has thrown. -/
theorem wellFormedResult_create_of_abort {asserts : Bool} {reason : Abort ClientError}
    {after : OpeningContext}
    (hparse : DisplayDescriptor.parse arithmetic env.codec
      (context.getStringParameter displayNode) = .ok descriptor)
    (hrequest : (OpeningContext.getInterface env (fuel + 1) HEAD_PATH).run context =
      (.error reason, after)) :
    WellFormedResult ((DisplayConfig.create asserts arithmetic env (fuel + 1)).run context).1 ↔
      ∃ error, reason = .thrown error := by
  have hdescriptor : (Program.ofExcept ((DisplayDescriptor.parse arithmetic env.codec
      (context.getStringParameter displayNode)).mapError DisplayFault.exception)).run context =
        (.ok descriptor, context) := by
    rw [hparse]
    rfl
  rw [DisplayConfig.create, wellFormedResult_caught_iff,
    Program.run_bind_of_ok (Program.run_get context)]
  dsimp only
  rw [Program.run_bind_of_ok hdescriptor, owning, ofClient,
    Program.run_bind_of_error (Program.run_mapError_of_error hrequest)]
  cases reason with
  | thrown error => exact iff_of_true (.exception (.client error)) ⟨error, rfl⟩
  | undefined => exact iff_of_false nofun nofun
  | outOfFuel => exact iff_of_false nofun nofun

/-- Without a descriptor there is no configuration. -/
theorem wellFormedResult_create_of_error {asserts : Bool} {error : DisplayException}
    (hparse : DisplayDescriptor.parse arithmetic env.codec
      (context.getStringParameter displayNode) = .error error) :
    WellFormedResult ((DisplayConfig.create asserts arithmetic env (fuel + 1)).run context).1 := by
  rw [DisplayConfig.create, wellFormedResult_caught_iff,
    Program.run_bind_of_ok (Program.run_get context)]
  dsimp only
  rw [hparse]
  exact .exception error

/-- A well formed configuration of a display is returned, or there is none, exactly when the
request for the head throws, or returns and the descriptor is configured consistently. -/
theorem create_wellFormed_iff (asserts : Bool) (arithmetic : AngleArithmetic)
    (env : ClientEnvironment) (fuel : ℕ) (context : OpeningContext)
    (hvalid : ∀ descriptor, DisplayDescriptor.parse arithmetic env.codec
      (context.getStringParameter displayNode) = .ok descriptor →
        ∀ resolution ∈ descriptor.resolutions, resolution.Valid) :
    WellFormedResult ((DisplayConfig.create asserts arithmetic env (fuel + 1)).run context).1 ↔
      ∀ descriptor, DisplayDescriptor.parse arithmetic env.codec
          (context.getStringParameter displayNode) = .ok descriptor →
        (∃ error after, (OpeningContext.getInterface env (fuel + 1) HEAD_PATH).run context =
          (.error (.thrown error), after)) ∨
        ∃ head after, (OpeningContext.getInterface env (fuel + 1) HEAD_PATH).run context =
          (.ok head, after) ∧ (descriptor.resolutions ≠ [] → descriptor.Configurable asserts) := by
  cases hparse : DisplayDescriptor.parse arithmetic env.codec
      (context.getStringParameter displayNode) with
  | error error => exact iff_of_true (wellFormedResult_create_of_error hparse) nofun
  | ok descriptor =>
      have hone (p : DisplayDescriptor → Prop) :
          (∀ other, (Except.ok descriptor : Except DisplayException _) = .ok other → p other) ↔
            p descriptor :=
        ⟨fun h => h descriptor rfl, fun h other heq => Except.ok.inj heq ▸ h⟩
      rw [hone]
      rcases hrequest : (OpeningContext.getInterface env (fuel + 1) HEAD_PATH).run context with
        ⟨reason | head, after⟩
      · rw [wellFormedResult_create_of_abort hparse hrequest]
        apply Iff.intro
        · rintro ⟨error, rfl⟩
          exact .inl ⟨error, after, rfl⟩
        · rintro (⟨error, _, heq⟩ | ⟨_, _, heq, _⟩)
          · cases heq
            exact ⟨error, rfl⟩
          · cases heq
      · rw [wellFormedResult_create_of_parse hparse hrequest (hvalid descriptor hparse)]
        apply Iff.intro
        · exact fun h => .inr ⟨head, after, rfl, h⟩
        · rintro (⟨_, _, heq⟩ | ⟨_, _, _, h⟩)
          · cases heq
          · exact h

end Eyes

/-! ## A display with two eyes and one without -/

/-- The description of a display with a number of eyes, whose halves are beside each other. -/
def displayJson (eyes : List Json) : Json :=
  .obj [("hmd".toList, .obj [("eyes".toList, .arr eyes),
    ("field_of_view".toList, .obj [("monocular_horizontal".toList, .int 90),
      ("monocular_vertical".toList, .int 100)]),
    ("resolutions".toList, .arr [.obj [("height".toList, .int 1080),
      ("width".toList, .int 1920)]])])]

/-- The text of the display is read as its description. -/
def displayEnvironment (eyes : List Json) : ClientEnvironment where
  codec := ⟨fun text => if text.isEmpty then none else some (displayJson eyes), fun _ => [],
    fun _ => [], fun _ => []⟩
  fuel := 2
  factoriesByInterface _ := none

/-- A context whose path tree has a display. -/
def displayContext : OpeningContext :=
  { OpeningContext.init with manager := { ClientManager.init with
      tree := PathTree.empty.set displayNode (.stringElement "display".toList) } }

def exactAngles : AngleArithmetic := ⟨id, id⟩

/-- What is parsed for the display. -/
def displayDescriptor (eyes : List EyeInfo) : DisplayDescriptor where
  vendor := []
  model := []
  version := []
  note := []
  monocularHorizontalFOV := 90
  monocularVerticalFOV := 100
  overlapPercent := 1
  pitchTilt := 0
  resolutions := [⟨1920, 1080, 1, .horizontalSideBySide⟩]
  distort := ⟨0, 0, 0⟩
  rightRoll := 0
  leftRoll := 0
  eyes

theorem valid_displayDescriptor (eyes : List EyeInfo) :
    ∀ resolution ∈ (displayDescriptor eyes).resolutions, resolution.Valid := by
  intro resolution hmem
  rw [List.mem_singleton.mp hmem]
  exact ⟨by decide, by decide⟩

/-- Two eyes that leave out all their members. -/
def bothEyes : List Json := [.obj [], .obj []]

theorem parse_bothEyes : DisplayDescriptor.parse exactAngles (displayEnvironment bothEyes).codec
    (displayContext.getStringParameter displayNode) =
      .ok (displayDescriptor [⟨1 / 2, 1 / 2, false⟩, ⟨1 / 2, 1 / 2, false⟩]) := by
  decide +kernel

theorem bothEyes_wellFormed :
    WellFormedResult ((DisplayConfig.create true exactAngles (displayEnvironment bothEyes) 1).run
      displayContext).1 := by
  have hreturned :
      ((OpeningContext.getInterface (displayEnvironment bothEyes) (0 + 1) HEAD_PATH).run
        displayContext).1 = .ok (some ⟨0, HEAD_PATH⟩) := by
    decide +kernel
  rcases hrequest :
      (OpeningContext.getInterface (displayEnvironment bothEyes) (0 + 1) HEAD_PATH).run
        displayContext with ⟨result, after⟩
  rw [hrequest] at hreturned
  cases hreturned
  refine (create_wellFormed_iff true exactAngles (displayEnvironment bothEyes) 0 displayContext
    fun descriptor hparse => ?_).mpr fun descriptor hparse => ?_
  · rw [parse_bothEyes] at hparse
    cases hparse
    exact valid_displayDescriptor _
  · rw [parse_bothEyes] at hparse
    cases hparse
    exact .inr ⟨_, _, hrequest, fun _ => .inl rfl⟩

theorem parse_noEyes : DisplayDescriptor.parse exactAngles (displayEnvironment []).codec
    (displayContext.getStringParameter displayNode) = .ok (displayDescriptor []) := by
  decide +kernel

theorem not_wellFormedResult : ¬ ∀ asserts arithmetic env fuel context,
    (∀ descriptor, DisplayDescriptor.parse arithmetic env.codec
      (OpeningContext.getStringParameter context displayNode) = .ok descriptor →
        ∀ resolution ∈ descriptor.resolutions, resolution.Valid) →
    WellFormedResult ((DisplayConfig.create asserts arithmetic env (fuel + 1)).run context).1 := by
  intro h
  have hvalid : ∀ descriptor, DisplayDescriptor.parse exactAngles (displayEnvironment []).codec
      (displayContext.getStringParameter displayNode) = .ok descriptor →
        ∀ resolution ∈ descriptor.resolutions, resolution.Valid := by
    intro descriptor hparse
    rw [parse_noEyes] at hparse
    cases hparse
    exact valid_displayDescriptor []
  have hreturned : ((OpeningContext.getInterface (displayEnvironment []) (0 + 1) HEAD_PATH).run
      displayContext).1 = .ok (some ⟨0, HEAD_PATH⟩) := by
    decide +kernel
  rcases hrequest : (OpeningContext.getInterface (displayEnvironment []) (0 + 1) HEAD_PATH).run
    displayContext with ⟨result, after⟩
  rw [hrequest] at hreturned
  cases hreturned
  have hiff : WellFormedResult ((DisplayConfig.create true exactAngles (displayEnvironment [])
      (0 + 1)).run displayContext).1 ↔
        ((displayDescriptor []).resolutions ≠ [] → (displayDescriptor []).Configurable true) :=
    wellFormedResult_create_of_parse parse_noEyes hrequest (valid_displayDescriptor [])
  rcases hiff.mp (h true exactAngles (displayEnvironment []) 0 displayContext hvalid)
    (List.cons_ne_nil _ _) with htwo | ⟨hsome, _⟩
  · cases htwo
  · exact hsome rfl

end OSVR.Client
