/-
# The eyes of a viewer

An eye has bounds at unit distance. Its projection is the matrix for these bounds at the
near plane, with their edges swapped where the image is turned by 180 degrees, in the form
that flags ask for. Numbers are exact.
-/

import OsvrCore.Client.InterfaceTree
import OsvrCore.Util.MatrixConventions
import OsvrCore.Util.ProjectionMatrix

set_option autoImplicit false

namespace OSVR.Client

open Math Matrix Util ProjectionOptions

structure Viewport where
  left : ℤ
  bottom : ℤ
  width : ℤ
  height : ℤ
  deriving DecidableEq

/-- `OSVR_RadialDistortionParameters`. -/
structure RadialDistortionParameters where
  k1 : Fin 3 → ℚ
  centerOfProjection : Fin 2 → ℚ

structure ViewerEye where
  pose : Option ClientInterface
  offset : Fin 3 → ℚ
  viewport : Viewport
  unitBounds : Rectd
  rot180 : Bool
  pitchTilt : ℚ
  radDistortParams : Option RadialDistortionParameters
  displayInputIdx : ℕ
  opticalAxisOffsetY : ℚ

/-- What comes of `getProjection` instead of a matrix. -/
inductive ProjectionError
  | thrown (error : OutOfRange)
  | uninitialized
  deriving DecidableEq

namespace ViewerEye

/-- Exchange the edges on opposite sides. -/
def swapEdges (rect : Rectd) : Rectd := ⟨rect.right, rect.left, rect.bottom, rect.top⟩

def getRect (eye : ViewerEye) (near : ℚ) : Rectd :=
  let rect := eye.unitBounds.scale near
  if eye.rot180 then swapEdges rect else rect

/-- `getProjection` without flags, in the original form of the matrix. -/
def getDefaultProjection (eye : ViewerEye) (near far : ℚ) : Matrix (Fin 4) (Fin 4) ℚ :=
  createProjectionMatrix (eye.getRect near) near far

open CompactMatrixConventions in
/-- `getProjection` with flags. -/
def getProjection (eye : ViewerEye) (near far : ℚ) (flags : MatrixConventions) :
    Except ProjectionError (Matrix (Fin 4) (Fin 4) ℚ) := do
  let rect := eye.getRect near
  let compactFlags ← (ofFlags flags).mapError .thrown
  let value := compactFlags.getValue
  if value = computeBits [] then
    return parameterizedCreateProjectionMatrix (ZOutputSigned ||| RightHandedInput) near far rect
  else if value = computeBits [.needsTranspose] then
    return (parameterizedCreateProjectionMatrix (ZOutputSigned ||| RightHandedInput) near far rect)ᵀ
  else if value = computeBits [.leftHandInput] then
    return parameterizedCreateProjectionMatrix LeftHandedInput near far rect
  else if value = computeBits [.leftHandInput, .needsTranspose] then
    return (parameterizedCreateProjectionMatrix LeftHandedInput near far rect)ᵀ
  else if value = computeBits [.unsignedZ] then
    return parameterizedCreateProjectionMatrix ZOutputUnsigned near far rect
  else if value = computeBits [.unsignedZ, .needsTranspose] then
    return (parameterizedCreateProjectionMatrix ZOutputUnsigned near far rect)ᵀ
  else if value = computeBits [.leftHandInput, .unsignedZ] then
    return parameterizedCreateProjectionMatrix (LeftHandedInput ||| ZOutputUnsigned) near far rect
  else if value = computeBits [.leftHandInput, .unsignedZ, .needsTranspose] then
    return (parameterizedCreateProjectionMatrix (LeftHandedInput ||| ZOutputUnsigned) near far
      rect)ᵀ
  else throw .uninitialized

/-! ## What a projection is for -/

/-- A matrix as it is stored, applied to a vector as the flags say. -/
def applyStored (flags : MatrixConventions) (ret : Matrix (Fin 4) (Fin 4) ℚ) (vector : Fin 4 → ℚ) :
    Fin 4 → ℚ :=
  let read := if flags.has OSVR_MATRIX_MASK_ROWMAJOR then readRowMajor (columnMajor ret)
    else readColumnMajor (columnMajor ret)
  if flags.has OSVR_MATRIX_MASK_ROWVECTORS then vector ᵥ* read else read *ᵥ vector

/-- A corner of the frustum over the bounds, at a depth in front of the eye. -/
def frustumCorner (bounds : Rectd) (flags : MatrixConventions) (depth : ℚ) (atRight atTop : Bool) :
    Fin 3 → ℚ :=
  ![depth * if atRight then bounds.right else bounds.left,
    depth * if atTop then bounds.top else bounds.bottom,
    if flags.has OSVR_MATRIX_MASK_LHINPUT then depth else -depth]

/-- A corner of the clip box. -/
def clipCorner (flags : MatrixConventions) (atFar atRight atTop : Bool) : Fin 3 → ℚ :=
  ![if atRight then 1 else -1, if atTop then 1 else -1,
    if atFar then 1 else if flags.has OSVR_MATRIX_MASK_UNSIGNEDZ then 0 else -1]

/-- The projection for the flags sends the corners of the frustum to those of the clip box,
to the opposite edges where the image is turned. With no flags it is the default one. -/
structure ProjectsFrustum (eye : ViewerEye) (near far : ℚ) (flags : MatrixConventions)
    (ret : Matrix (Fin 4) (Fin 4) ℚ) : Prop where
  corners : ∀ atFar atRight atTop, SendsPoint (applyStored flags ret)
    (frustumCorner eye.unitBounds flags (if atFar then far else near) atRight atTop)
    (clipCorner flags atFar (atRight ^^ eye.rot180) (atTop ^^ eye.rot180))
  default : flags = 0 → ret = eye.getDefaultProjection near far

variable {eye : ViewerEye} {near far : ℚ} {flags : MatrixConventions}

/-- The stored matrix is applied as the matrix before the transposition that the flags
need. -/
theorem applyStored_transpose (matrix : Matrix (Fin 4) (Fin 4) ℚ) :
    applyStored flags (if matrixNeedsTranspose flags then matrixᵀ else matrix) = (matrix *ᵥ ·) := by
  funext vector
  rw [applyStored, matrixNeedsTranspose]
  cases flags.has OSVR_MATRIX_MASK_ROWMAJOR <;> cases flags.has OSVR_MATRIX_MASK_ROWVECTORS <;>
    simp [Matrix.vecMul_transpose]

/-- The options that the flags stand for. -/
def optionsOf (flags : MatrixConventions) : OptionType :=
  if flags.has OSVR_MATRIX_MASK_LHINPUT then LeftHandedInput else ZOutputSigned ||| RightHandedInput

/-- Without the flag for unsigned depth, the branch of the flags is taken. -/
theorem getProjection_of_signedZ (h : flags.has OSVR_MATRIX_MASK_UNSIGNEDZ = false) :
    eye.getProjection near far flags =
      let matrix :=
        parameterizedCreateProjectionMatrix (optionsOf flags) near far (eye.getRect near)
      .ok (if matrixNeedsTranspose flags then matrixᵀ else matrix) := by
  obtain ⟨compact, hcompact, hvalue⟩ := CompactMatrixConventions.ofFlags_of_signedZ h
  rw [getProjection, hcompact, optionsOf]
  show (if compact.getValue = _ then _ else _) = _
  rw [hvalue]
  cases matrixNeedsTranspose flags <;> cases flags.has OSVR_MATRIX_MASK_LHINPUT <;> rfl

/-- With the flag for unsigned depth, no branch is reached. -/
theorem getProjection_of_unsignedZ (h : flags.has OSVR_MATRIX_MASK_UNSIGNEDZ = true) :
    eye.getProjection near far flags = .error (.thrown ⟨⟩) := by
  rw [getProjection, CompactMatrixConventions.ofFlags_of_unsignedZ h]
  rfl

theorem isLeftHandedInput_optionsOf :
    isLeftHandedInput (optionsOf flags) = flags.has OSVR_MATRIX_MASK_LHINPUT := by
  rw [optionsOf]
  cases flags.has OSVR_MATRIX_MASK_LHINPUT <;> rfl

theorem isZOutputUnsigned_optionsOf : isZOutputUnsigned (optionsOf flags) = false := by
  rw [optionsOf]
  cases flags.has OSVR_MATRIX_MASK_LHINPUT <;> rfl

theorem proper_getRect (hbounds : eye.unitBounds.Proper) (hnear : near ≠ 0) :
    (eye.getRect near).Proper := by
  have hscaled : (eye.unitBounds.scale near).Proper :=
    ⟨fun h => hbounds.horizontal (mul_right_cancel₀ hnear h),
      fun h => hbounds.vertical (mul_right_cancel₀ hnear h)⟩
  rw [getRect]
  split
  · exact ⟨hscaled.horizontal.symm, hscaled.vertical.symm⟩
  · exact hscaled

/-- A corner of the frustum is seen at a corner of the rectangle at the near plane. -/
theorem frustumCorner_eq (bounds : Rectd) (hnear : near ≠ 0) (depth : ℚ) (atRight atTop : Bool) :
    frustumCorner bounds flags depth atRight atTop =
      pointAt (optionsOf flags) near ((if atRight then bounds.right else bounds.left) * near)
        ((if atTop then bounds.top else bounds.bottom) * near) depth := by
  have hscale (edge : ℚ) : depth * edge = edge * near * depth / near := by
    field_simp
  rw [frustumCorner, pointAt, isLeftHandedInput_optionsOf, hscale, hscale]

/-- The edges of the rectangle are the ends of the range, the other way around where they
are swapped. -/
theorem relative_edge {low high : ℚ} (hne : low ≠ high) (hnear : near ≠ 0) (swapped atHigh : Bool) :
    relative (if swapped then high * near else low * near)
      (if swapped then low * near else high * near) ((if atHigh then high else low) * near) =
        if atHigh ^^ swapped then 1 else -1 := by
  have hscaled : low * near ≠ high * near := fun h => hne (mul_right_cancel₀ hnear h)
  cases swapped <;> cases atHigh
  · exact relative_low hscaled
  · exact relative_high hscaled
  · exact relative_high hscaled.symm
  · exact relative_low hscaled.symm

theorem corners_sent (hnear : 0 < near) (hfar : near < far) (hbounds : eye.unitBounds.Proper)
    (hz : flags.has OSVR_MATRIX_MASK_UNSIGNEDZ = false) (atFar atRight atTop : Bool) :
    SendsPoint
      (parameterizedCreateProjectionMatrix (optionsOf flags) near far (eye.getRect near) *ᵥ ·)
      (frustumCorner eye.unitBounds flags (if atFar then far else near) atRight atTop)
      (clipCorner flags atFar (atRight ^^ eye.rot180) (atTop ^^ eye.rot180)) := by
  have hdepth : (if atFar then far else near) ≠ 0 := by
    split
    · exact (hnear.trans hfar).ne'
    · exact hnear.ne'
  have hclip : clipDepth (optionsOf flags) near far (if atFar then far else near) =
      if atFar then 1 else if flags.has OSVR_MATRIX_MASK_UNSIGNEDZ then 0 else -1 := by
    cases atFar
    · rw [hz]
      exact (clipDepth_near hnear.ne' hfar.ne).trans (by
        rw [isZOutputUnsigned_optionsOf]
        rfl)
    · exact clipDepth_far (hnear.trans hfar).ne' hfar.ne
  have hleft : (eye.getRect near).left = if eye.rot180 then eye.unitBounds.right * near
      else eye.unitBounds.left * near := by
    rw [getRect]
    cases eye.rot180 <;> rfl
  have hright : (eye.getRect near).right = if eye.rot180 then eye.unitBounds.left * near
      else eye.unitBounds.right * near := by
    rw [getRect]
    cases eye.rot180 <;> rfl
  have hbottom : (eye.getRect near).bottom = if eye.rot180 then eye.unitBounds.top * near
      else eye.unitBounds.bottom * near := by
    rw [getRect]
    cases eye.rot180 <;> rfl
  have htop : (eye.getRect near).top = if eye.rot180 then eye.unitBounds.bottom * near
      else eye.unitBounds.top * near := by
    rw [getRect]
    cases eye.rot180 <;> rfl
  have hsent := @sendsPoint_parameterized (optionsOf flags) near far _
    (proper_getRect hbounds hnear.ne') hnear.ne' hfar.ne _ hdepth
    ((if atRight then eye.unitBounds.right else eye.unitBounds.left) * near)
    ((if atTop then eye.unitBounds.top else eye.unitBounds.bottom) * near)
  rw [hleft, hright, hbottom, htop, relative_edge hbounds.horizontal hnear.ne',
    relative_edge hbounds.vertical.symm hnear.ne', hclip] at hsent
  rw [frustumCorner_eq _ hnear.ne']
  exact hsent

/-- There is a projection that is right exactly for the flags without unsigned depth. -/
theorem getProjection_projectsFrustum_iff (hnear : 0 < near) (hfar : near < far)
    (hbounds : eye.unitBounds.Proper) :
    (∃ ret, eye.getProjection near far flags = .ok ret ∧ eye.ProjectsFrustum near far flags ret) ↔
      flags.has OSVR_MATRIX_MASK_UNSIGNEDZ = false := by
  apply Iff.intro
  · rintro ⟨ret, hret, _⟩
    by_contra hset
    rw [getProjection_of_unsignedZ (Bool.not_eq_false _ ▸ hset)] at hret
    cases hret
  · intro hz
    refine ⟨_, getProjection_of_signedZ hz, ?_, ?_⟩
    · intro atFar atRight atTop
      rw [applyStored_transpose]
      exact corners_sent hnear hfar hbounds hz atFar atRight atTop
    · rintro rfl
      exact parameterizedCreateProjectionMatrix_default _

/-- An eye with a field of view of 90 degrees whose image is turned around. -/
def turnedEye : ViewerEye where
  pose := none
  offset := 0
  viewport := ⟨0, 0, 1080, 1200⟩
  unitBounds := ⟨-1, 1, 1, -1⟩
  rot180 := true
  pitchTilt := 0
  radDistortParams := none
  displayInputIdx := 0
  opticalAxisOffsetY := 0

/-- With row-major storage and a left-handed input. -/
theorem turnedEye_projectsFrustum :
    ∃ ret, turnedEye.getProjection 1 3 0x5 = .ok ret ∧ turnedEye.ProjectsFrustum 1 3 0x5 ret :=
  (getProjection_projectsFrustum_iff (by norm_num) (by norm_num)
    ⟨by norm_num [turnedEye], by norm_num [turnedEye]⟩).mpr rfl

theorem not_projectsFrustum : ¬ ∀ (eye : ViewerEye) (near far : ℚ) (flags : MatrixConventions),
    0 < near → near < far → eye.unitBounds.Proper →
      ∃ ret, eye.getProjection near far flags = .ok ret ∧
      eye.ProjectsFrustum near far flags ret := by
  intro hprojects
  obtain ⟨ret, hret, _⟩ := hprojects turnedEye 1 3 0x8 (by norm_num) (by norm_num)
    ⟨by norm_num [turnedEye], by norm_num [turnedEye]⟩
  rw [getProjection_of_unsignedZ rfl] at hret
  cases hret

end ViewerEye

end OSVR.Client
