/-
# Velocities beside positions

A pose is transformed by matrices on both sides, and a velocity by the linear part on the
left and the transpose of the one on the right. The difference of two positions is moved by
the linear part on the left alone, so the two agree exactly when the product with the
transpose leaves it as it is. A change of basis has the same matrix on both sides, so that
a velocity goes through it twice.
-/

import OsvrCore.Common.JSONTransformVisitor

set_option autoImplicit false

namespace OSVR.Common

open Math Matrix

variable {K : Type} [CommRing K]

/-! ## Levels are affine -/

section Levels

variable (arithmetic : LevelArithmetic K) (codec : JsonCodec)

theorem affine_changeBasisFromJson {changeBasis : Json} {t : Transform K}
    (h : changeBasisFromJson arithmetic codec changeBasis = .ok t) : t.Affine := by
  obtain ⟨_, _, h⟩ := exists_of_bind_eq_ok h
  obtain ⟨newX, _, h⟩ := exists_of_bind_eq_ok h
  obtain ⟨_, _, h⟩ := exists_of_bind_eq_ok h
  obtain ⟨newY, _, h⟩ := exists_of_bind_eq_ok h
  obtain ⟨_, _, h⟩ := exists_of_bind_eq_ok h
  obtain ⟨newZ, _, h⟩ := exists_of_bind_eq_ok h
  cases h
  exact ChangeOfBasis.affine_get
    (((ChangeOfBasis.centred_new.setNew 0 newX).setNew 1 newY).setNew 2 newZ)

/-- What a position and an orientation give is an affine map. -/
theorem isAffine_positionOrientation {position : Option (Fin 3 → K)}
    {orientation : Option (Matrix (Fin 3) (Fin 3) K)} {xform : Matrix4 K}
    (h : positionOrientation position orientation = some xform) : IsAffine xform := by
  rw [positionOrientation] at h
  split at h
  next =>
    obtain rfl := Option.some_inj.mp h
    exact isAffine_affineMatrix _ _
  next => cases h

theorem affine_handlePositions {members : JsonMembers} {t : Transform K}
    (h : handlePositions arithmetic codec Transform.identity members = .ok t) : t.Affine := by
  obtain ⟨position, _, h⟩ := exists_of_bind_eq_ok h
  obtain ⟨preposition, _, h⟩ := exists_of_bind_eq_ok h
  obtain ⟨orientation, _, h⟩ := exists_of_bind_eq_ok h
  obtain ⟨preorientation, _, h⟩ := exists_of_bind_eq_ok h
  cases h
  have hpre {before : Transform K} (hbefore : before.Affine) {xform : Matrix4 K}
      (hxform : positionOrientation preposition preorientation = some xform) :
      (before.concatPre xform).Affine :=
    ⟨hbefore.pre.mul (isAffine_positionOrientation hxform), hbefore.post⟩
  cases hposition : positionOrientation position orientation with
  | some xform =>
      have hpost : (Transform.identity.concatPost xform).Affine :=
        ⟨isAffine_one, (isAffine_positionOrientation hposition).mul isAffine_one⟩
      split
      next hxform => exact hpre hpost hxform
      next => exact hpost
  | none =>
      split
      next hxform => exact hpre Transform.affine_identity hxform
      next => exact Transform.affine_identity

theorem affine_levelTransform {v : Json} {t : Transform K}
    (h : levelTransform arithmetic codec v = .ok t) : t.Affine := by
  rw [levelTransform] at h
  cases v with
  | obj members =>
      rw [handleLevel] at h
      cases hbasis : members.lookup CHANGE_BASIS_KEY with
      | some changeBasis =>
          simp only [hbasis] at h
          cases hconverted : changeBasisFromJson arithmetic codec changeBasis with
          | error failure =>
              rw [hconverted] at h
              cases h
          | ok basis =>
              rw [hconverted] at h
              cases h
              exact Transform.affine_identity.transform
                (affine_changeBasisFromJson arithmetic codec hconverted)
      | none =>
          simp only [hbasis] at h
          exact affine_handlePositions arithmetic codec h
  | null | bool _ | int _ | real _ | str _ | arr _ =>
      cases h
      exact Transform.affine_identity

end Levels

/-! ## The levels of a visitor -/

/-- A traversal that only collects results succeeds with what was collected. -/
theorem mapM_id_eq_ok_iff {α ε : Type} (results : List (Except ε α)) (values : List α) :
    results.mapM id = .ok values ↔ results = values.map .ok := by
  induction results generalizing values with
  | nil =>
      cases values with
      | nil => exact iff_of_true rfl rfl
      | cons value values => exact iff_of_false (fun h => by cases h) (fun h => by cases h)
  | cons result results ih =>
      rw [List.mapM_cons]
      apply Iff.intro
      · intro h
        obtain ⟨value, hvalue, h⟩ := exists_of_bind_eq_ok h
        obtain ⟨rest, hrest, h⟩ := exists_of_bind_eq_ok h
        cases h
        rw [List.map_cons, ← (ih rest).mp hrest, ← hvalue]
        rfl
      · intro h
        cases values with
        | nil => cases h
        | cons value values =>
            obtain ⟨rfl, hrest⟩ := List.cons.inj h
            rw [(ih values).mpr hrest]
            rfl

/-- The linear parts on the left, the outermost level first. -/
def linearPosts (levels : List (Transform K)) : Matrix (Fin 3) (Fin 3) K :=
  (levels.map fun level => linearPart level.post).prod

/-- The linear parts on the right, the innermost level first. -/
def linearPres (levels : List (Transform K)) : Matrix (Fin 3) (Fin 3) K :=
  (levels.reverse.map fun level => linearPart level.pre).prod

section Visitor

variable (arithmetic : LevelArithmetic K) (codec : JsonCodec)

/-- The levels of an accepted chain are affine maps, and their linear parts make up those of
the transformation. -/
theorem JSONTransformVisitor.exists_levels {root : Json} {visited : JSONTransformVisitor K}
    (h : JSONTransformVisitor.new arithmetic codec root = .ok visited) :
    ∃ levels, levelTransforms arithmetic codec root = levels.map .ok ∧
      visited.transform.Affine ∧
      linearPart visited.transform.post = linearPosts levels ∧
      linearPart visited.transform.pre = linearPres levels := by
  rw [new_eq] at h
  cases hlevels : (levelTransforms arithmetic codec root).reverse.mapM id with
  | error failure =>
      rw [hlevels] at h
      cases h
  | ok inward =>
      rw [hlevels] at h
      cases h
      have hall : levelTransforms arithmetic codec root = inward.reverse.map .ok := by
        rw [List.map_reverse, ← (mapM_id_eq_ok_iff _ _).mp hlevels, List.reverse_reverse]
      have haffine : ∀ level ∈ inward, level.Affine := by
        intro level hlevel
        have hmem : Except.ok level ∈ levelTransforms arithmetic codec root := by
          rw [hall]
          exact List.mem_map_of_mem (List.mem_reverse.mpr hlevel)
        obtain ⟨value, _, hvalue⟩ := List.mem_map.mp hmem
        exact affine_levelTransform arithmetic codec hvalue
      have hpre : ∀ matrix ∈ inward.map TwoSided.pre, IsAffine matrix :=
        List.forall_mem_map.mpr fun level hlevel => (haffine level hlevel).pre
      have hpost : ∀ matrix ∈ inward.reverse.map TwoSided.post, IsAffine matrix :=
        List.forall_mem_map.mpr fun level hlevel =>
          (haffine level (List.mem_reverse.mp hlevel)).post
      refine ⟨inward.reverse, hall, ⟨?_, ?_⟩, ?_, ?_⟩
      · rw [TwoSided.pre_prod]
        exact isAffine_prod hpre
      · rw [TwoSided.post_prod]
        exact isAffine_prod hpost
      · rw [TwoSided.post_prod, linearPart_prod hpost, List.map_map, linearPosts]
        rfl
      · rw [TwoSided.pre_prod, linearPart_prod hpre, List.map_map, linearPres,
          List.reverse_reverse]
        rfl

end Visitor

/-! ## Velocities and positions -/

/-- For poses of one orientation, the velocity between them is that between what they are
transformed to. -/
def VelocityConsistent (t : Transform K) (orientation : Matrix (Fin 3) (Fin 3) K) : Prop :=
  ∀ first second : Fin 3 → K,
    translationPart (t.transformPose (affineMatrix orientation first)) -
        translationPart (t.transformPose (affineMatrix orientation second)) =
      t.transformLinear (first - second)

/-- Velocities are consistent exactly when the transpose of the linear part on the right leaves
the one on the left as it is. -/
theorem velocityConsistent_iff {t : Transform K} (ht : t.Affine)
    (orientation : Matrix (Fin 3) (Fin 3) K) :
    VelocityConsistent t orientation ↔
      linearPart t.post * (linearPart t.pre)ᵀ = linearPart t.post := by
  have hdifference : ∀ first second : Fin 3 → K,
      translationPart (t.transformPose (affineMatrix orientation first)) -
          translationPart (t.transformPose (affineMatrix orientation second)) =
        linearPart t.post *ᵥ (first - second) :=
    translationPart_around_sub ht.pre orientation
  simp only [VelocityConsistent, hdifference, Transform.transformLinear_eq]
  apply Iff.intro
  · intro h
    apply Matrix.mulVec_injective
    funext vec
    have hvec := h vec 0
    rw [sub_zero] at hvec
    exact hvec.symm
  · intro h first second
    rw [h]

/-- For every accepted chain, the velocities are those of the positions exactly when the product
of the linear parts on the left is the same with the transposed ones of the right behind it;
and so with the room around it. -/
theorem velocities_consistent_iff (arithmetic : LevelArithmetic K) (codec : JsonCodec)
    {root : Json} {visited : JSONTransformVisitor K}
    (hvisited : JSONTransformVisitor.new arithmetic codec root = .ok visited) :
    ∃ levels, levelTransforms arithmetic codec root = levels.map .ok ∧
      (∀ orientation, VelocityConsistent visited.transform orientation ↔
        linearPosts levels * (linearPres levels)ᵀ = linearPosts levels) ∧
      ∀ roomToWorld : Transform K, roomToWorld.Affine → ∀ orientation,
        VelocityConsistent (getCurrentTransform visited.transform roomToWorld) orientation ↔
          linearPart roomToWorld.post * linearPosts levels *
              (linearPres levels * linearPart roomToWorld.pre)ᵀ =
            linearPart roomToWorld.post * linearPosts levels := by
  obtain ⟨levels, hlevels, haffine, hpost, hpre⟩ :=
    JSONTransformVisitor.exists_levels arithmetic codec hvisited
  refine ⟨levels, hlevels, fun orientation => ?_, fun roomToWorld hroom orientation => ?_⟩
  · rw [velocityConsistent_iff haffine, hpost, hpre]
  · have hcurrent : (getCurrentTransform visited.transform roomToWorld).Affine :=
      haffine.transform hroom
    have hpostCurrent : linearPart (getCurrentTransform visited.transform roomToWorld).post =
        linearPart roomToWorld.post * linearPosts levels := by
      rw [← hpost]
      exact linearPart_mul haffine.post
    have hpreCurrent : linearPart (getCurrentTransform visited.transform roomToWorld).pre =
        linearPres levels * linearPart roomToWorld.pre := by
      rw [← hpre]
      exact linearPart_mul hroom.pre
    rw [velocityConsistent_iff hcurrent, hpostCurrent, hpreCurrent]

/-- The axes `y` and `z` are exchanged, one of them with its sign. -/
def turnedBasis : Json :=
  .obj [(CHANGE_BASIS_KEY,
      .obj [(X_KEY, .str ['x']), (Y_KEY, .str ['z']), (Z_KEY, .str ['-', 'y'])]),
    (CHILD_KEY, .str [])]

/-- What the visitor makes of a translation. -/
def translatedTransform : Transform ℤ :=
  { pre := 1, post := affineMatrix 1 (fun axis => if axis.val = 0 then 1 else 0) * 1 }

/-- A translation has no linear part other than the identity, in a room that is moved too. -/
theorem velocities_consistent_translated :
    VelocityConsistent translatedTransform 1 ∧
      VelocityConsistent (getCurrentTransform translatedTransform translatedTransform) 1 := by
  have hvisited : JSONTransformVisitor.new wholeNumbers silentCodec translated =
      .ok { transform := translatedTransform, leaf := .str [] } := rfl
  obtain ⟨levels, hlevels, hconsistent, hroom⟩ :=
    velocities_consistent_iff wholeNumbers silentCodec hvisited
  have htranslated : levelTransforms wholeNumbers silentCodec translated =
      [translatedTransform, 1].map .ok := rfl
  obtain rfl : levels = [translatedTransform, 1] :=
    (List.map_injective_iff.mpr fun _ _ => Except.ok.inj) (hlevels.symm.trans htranslated)
  have haffine : translatedTransform.Affine :=
    ⟨isAffine_one, (isAffine_affineMatrix _ _).mul isAffine_one⟩
  exact ⟨(hconsistent 1).mpr (by decide), (hroom _ haffine 1).mpr (by decide)⟩

/-- A velocity goes through the change of basis twice. -/
theorem not_velocityConsistent_turnedBasis :
    ¬ ∀ root (visited : JSONTransformVisitor ℤ),
      JSONTransformVisitor.new wholeNumbers silentCodec root = .ok visited →
      ∀ orientation, VelocityConsistent visited.transform orientation := by
  intro h
  have hbasis := congrFun (h turnedBasis _ rfl 1 (fun axis => if axis = 1 then 1 else 0) 0) 1
  exact absurd hbasis (by decide)

end OSVR.Common
