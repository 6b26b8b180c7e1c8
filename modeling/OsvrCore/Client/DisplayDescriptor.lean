/-
# Display descriptors

The description of a display, as it is read from JSON. What is missing has a default, what
has the wrong type is an exception; without an entry for the resolution the eyes are not
read at all. Numbers are exact, and angles are turned into radians by a parameter.
-/

import Mathlib.Data.Nat.Notation
import Mathlib.Data.Rat.Defs
import OsvrCore.Client.ClientInterfaceObjectManager

set_option autoImplicit false

namespace OSVR.Client

open Common

/-- The exceptions that configuring a display can come to. -/
inductive DisplayException
  | client (error : ClientError)
  | json (error : JsonError)
  | what (message : Str)
  | outOfRange
  deriving DecidableEq

/-- What is left open of the arithmetic of angles. -/
structure AngleArithmetic where
  degreesToRadians : ℚ → ℚ
  tan : ℚ → ℚ

/-- `DisplayMode`. -/
inductive DisplayMode
  | horizontalSideBySide
  | verticalSideBySide
  | fullScreen
  deriving DecidableEq

structure Resolution where
  width : Int32
  height : Int32
  video_inputs : Int32
  display_mode : DisplayMode
  deriving DecidableEq

structure EyeInfo where
  centerProjX : ℚ
  centerProjY : ℚ
  rotate180 : Bool
  deriving DecidableEq

structure DistortionParams where
  k1_red : ℚ
  k1_green : ℚ
  k1_blue : ℚ
  deriving DecidableEq

structure DisplayDescriptor where
  vendor : Str
  model : Str
  version : Str
  note : Str
  monocularHorizontalFOV : ℚ
  monocularVerticalFOV : ℚ
  overlapPercent : ℚ
  pitchTilt : ℚ
  resolutions : List Resolution
  distort : DistortionParams
  rightRoll : ℚ
  leftRoll : ℚ
  eyes : List EyeInfo
  deriving DecidableEq

/-! ## Reading JSON -/

namespace DisplayDescriptor

section Values

variable {α : Type}

def ofJson (result : Except JsonError α) : Except DisplayException α := result.mapError .json

/-- `operator[]` of a constant value. -/
def child (value : Json) (name : Str) : Except DisplayException Json := ofJson (value.index name)

/-- `get`, with a default for a missing member. -/
def get (value : Json) (name : Str) (defaultValue : Json) : Except DisplayException Json :=
  ofJson ((value.member? name).map (Option.getD · defaultValue))

def asDouble : Json → Except DisplayException ℚ
  | .null => .ok 0
  | .bool b => .ok (if b then 1 else 0)
  | .int n => .ok n
  | .real q => .ok q
  | .str _ | .arr _ | .obj _ => .error (.what "Value is not convertible to double.".toList)

/-- `asInt`; what it answers is an `int`. -/
def asInt (value : Json) : Except DisplayException Int32 := ofJson (value.asInt.map Int32.ofInt)

/-- A number with a default. -/
def getDouble (value : Json) (name : Str) (defaultValue : ℚ) : Except DisplayException ℚ := do
  asDouble (← get value name (.real defaultValue))

end Values

/-- The names of the display modes. -/
def displayMode? (name : Str) : Option DisplayMode :=
  if name = "horz_side_by_side".toList then some .horizontalSideBySide
  else if name = "vert_side_by_side".toList then some .verticalSideBySide
  else if name = "full_screen".toList then some .fullScreen
  else none

def processResolution (resolution : Json) : Except DisplayException Resolution := do
  let video_inputs ← asInt (← get resolution "video_inputs".toList (.int 1))
  let width ← asInt (← child resolution "width".toList)
  let height ← asInt (← child resolution "height".toList)
  let standard : DisplayMode := if 1 < video_inputs then .fullScreen else .horizontalSideBySide
  match ← child resolution "display_mode".toList with
  | .str name => return ⟨width, height, video_inputs, (displayMode? name).getD standard⟩
  | .null | .bool _ | .int _ | .real _ | .arr _ | .obj _ =>
      return ⟨width, height, video_inputs, standard⟩

/-- An entry of the eyes. -/
def processEye (eye : Json) : Except DisplayException EyeInfo := do
  let centerProjX ← getDouble eye "center_proj_x".toList (1 / 2)
  let centerProjY ← getDouble eye "center_proj_y".toList (1 / 2)
  if ← ofJson (eye.isMember "rotate_180".toList) then
    match ← child eye "rotate_180".toList with
    | .bool rotated => return ⟨centerProjX, centerProjY, rotated⟩
    | rot => return ⟨centerProjX, centerProjY, (← asInt rot) != 0⟩
  else return ⟨centerProjX, centerProjY, false⟩

section Parse

variable (arithmetic : AngleArithmetic) (codec : JsonCodec)

def asString (value : Json) : Except DisplayException Str := ofJson (value.asString codec)

/-- `jsonParse`. -/
def jsonParse (text : Str) : Json := (codec.parse text).getD .null

def parse (display_description : Str) : Except DisplayException DisplayDescriptor := do
  let hmd ← child (jsonParse codec display_description) "hmd".toList
  let fov ← child hmd "field_of_view".toList
  let horizontal ← asDouble (← child fov "monocular_horizontal".toList)
  let vertical ← asDouble (← child fov "monocular_vertical".toList)
  let overlap ← getDouble fov "overlap_percent".toList 100
  let pitchTilt ← getDouble fov "pitch_tilt".toList 0
  let devprops ← child hmd "device".toList
  let vendor ← asString codec (← child devprops "vendor".toList)
  let model ← asString codec (← child devprops "model".toList)
  let version ← asString codec (← child devprops "Version".toList)
  let note ← asString codec (← child devprops "Note".toList)
  let resolutions ← child hmd "resolutions".toList
  if resolutions.isNull then
    throw (.what "Display descriptor parse error: Couldn't find resolutions array.".toList)
  let resolutions ← resolutions.elements.mapM processResolution
  let desc : DisplayDescriptor := {
    vendor, model, version, note
    monocularHorizontalFOV := arithmetic.degreesToRadians horizontal
    monocularVerticalFOV := arithmetic.degreesToRadians vertical
    overlapPercent := overlap / 100
    pitchTilt := arithmetic.degreesToRadians pitchTilt
    resolutions
    distort := ⟨0, 0, 0⟩, rightRoll := 0, leftRoll := 0, eyes := [] }
  if resolutions.isEmpty then return desc
  let rendering ← child hmd "rendering".toList
  let rightRoll ← getDouble rendering "right_roll".toList 0
  let leftRoll ← getDouble rendering "left_roll".toList 0
  let distortion ← child hmd "distortion".toList
  let red ← getDouble distortion "k1_red".toList 0
  let green ← getDouble distortion "k1_green".toList 0
  let blue ← getDouble distortion "k1_blue".toList 0
  let eyes ← child hmd "eyes".toList
  if eyes.isNull then
    throw (.what "Display descriptor parse error: Couldn't find eyes array.".toList)
  let eyes ← eyes.elements.mapM processEye
  return { desc with
    rightRoll, leftRoll, distort := ⟨red, green, blue⟩
    eyes }

end Parse

/-! ## What is read of a descriptor -/

variable (desc : DisplayDescriptor)

/-- `activeResolution`, with the check of `at`. -/
def activeResolution : Except DisplayException Resolution :=
  match desc.resolutions with
  | resolution :: _ => .ok resolution
  | [] => .error .outOfRange

def getDisplayWidth : Except DisplayException Int32 := desc.activeResolution.map Resolution.width

def getDisplayHeight : Except DisplayException Int32 := desc.activeResolution.map Resolution.height

def getDisplayMode : Except DisplayException DisplayMode :=
  desc.activeResolution.map Resolution.display_mode

/-- `DEFAULT_IPD_METERS`. -/
def getIPDMeters : ℚ := 63 / 1000

end DisplayDescriptor

end OSVR.Client
