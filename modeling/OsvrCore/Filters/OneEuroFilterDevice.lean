/-
# The One-Euro filter as a device

The device filters the poses of each sensor of its input, and sends a filtered pose for
each that it receives. What it keeps for a sensor is in a vector with gaps, which grows
when a report of a higher sensor comes.
-/

import OsvrCore.Math.Demux
import OsvrCore.Util.EigenFilters
import OsvrCore.Util.EigenInterop
import OsvrCore.Util.MachineIntegers

set_option autoImplicit false

namespace OSVR.Filters

open Math Util Util.Filters

universe u

variable {K : Type u}

/-- A pose report, with its time and the clock when it is handled. -/
structure TimedPose (K : Type u) where
  timestamp : TimeValue
  sensor : ℤ
  pose : PoseState K
  now : TimeValue

/-- What `osvrDeviceTrackerSendPoseTimestamped` is given. -/
structure SentPose (K : Type u) where
  filteredPose : PoseState K
  sensor : ℤ
  timestamp : TimeValue

structure SensorData (K : Type u) where
  positionFilter : OneEuroFilter K (Fin 3 → K)
  orientationFilter : OneEuroFilter K (Util.Quaternion K)
  lastReport : TimeValue

/-- The parameters, and what is in memory that is not initialized. -/
structure DeviceSettings (K : Type u) where
  posParams : Params K
  oriParams : Params K
  uninitializedVector : Fin 3 → K
  uninitializedQuat : Util.Quaternion K

def DeviceSettings.Sensible [Zero K] [LT K] [LE K] (settings : DeviceSettings K) : Prop :=
  settings.posParams.Sensible ∧ settings.oriParams.Sensible

structure OneEuroFilterDevice (K : Type u) where
  sensors : List (Option (SensorData K))

/-- Default parameters for a position filter in meters. -/
def getPositionDefaults [Field K] : Params K :=
  ⟨(115 : ℕ) / (100 : ℕ), 1 / (2 : ℕ), (12 : ℕ) / (10 : ℕ)⟩

/-- Default parameters for an orientation filter. -/
def getOrientationDefaults [Field K] : Params K :=
  ⟨(15 : ℕ) / (10 : ℕ), 1 / (2 : ℕ), (12 : ℕ) / (10 : ℕ)⟩

/-- The differences of the fields do not overflow. -/
def DifferencesFit (timestamp lastReport : TimeValue) : Prop :=
  InInt32 (timestamp.microseconds - lastReport.microseconds) ∧
    InInt64 (timestamp.seconds - lastReport.seconds)

instance (timestamp lastReport : TimeValue) : Decidable (DifferencesFit timestamp lastReport) :=
  inferInstanceAs (Decidable (_ ∧ _))

/-- The time between two reports in seconds, which is taken to be one when time stands still. -/
def reportDt [Field K] [LinearOrder K] (timestamp lastReport : TimeValue) : K :=
  let dt : K := ((timestamp.microseconds - lastReport.microseconds : ℤ) : K) / (1000000 : ℕ) +
    ((timestamp.seconds - lastReport.seconds : ℤ) : K)
  if dt ≤ 0 then 1 else dt

/-- `std::vector::resize`. -/
def resize {α : Type u} (items : List (Option α)) (size : ℕ) : List (Option α) :=
  items.take size ++ .replicate (size - items.length) none

/-- Make sure there are enough entries in the vector. -/
def withRoom {α : Type u} (items : List (Option α)) (sensor : ℕ) : List (Option α) :=
  -- The sum is one of 32 bits.
  if items.length ≤ sensor then resize items ((sensor + 1) % 2 ^ 32) else items

/-- The conversion of a sensor to `OSVR_ChannelCount`. -/
def channelOf (sensor : ℤ) : ℕ := (sensor % 2 ^ 32).toNat

/-- The conversion of a sensor to an index. -/
def indexOf (sensor : ℤ) : ℕ := (sensor % 2 ^ 64).toNat

section Device

variable [Field K] [LinearOrder K] (math : Libm K) (settings : DeviceSettings K)

def makeSensorData (now : TimeValue) : SensorData K where
  positionFilter := .create settings.uninitializedVector settings.posParams
  orientationFilter := .create settings.uninitializedQuat settings.oriParams
  lastReport := now

/-- What is done to the data of the sensor, and the pose that is sent. -/
def filterReport (sensorData : SensorData K) (report : TimedPose K) : SensorData K × SentPose K :=
  let dt := reportDt report.timestamp sensorData.lastReport
  let positionFilter := sensorData.positionFilter.filter (vectorFilterType math) dt
    (vecMap report.pose.translation)
  let orientationFilter := sensorData.orientationFilter.filter
    (quaternionFilterType math) dt report.pose.rotation
  (⟨positionFilter, orientationFilter, report.timestamp⟩,
    ⟨⟨ofVecMap positionFilter.getState, orientationFilter.getState⟩, report.sensor,
      report.timestamp⟩)

namespace OneEuroFilterDevice

/-- The data of a sensor, if there is any. -/
def sensorData? (self : OneEuroFilterDevice K) (sensor : ℕ) : Option (SensorData K) :=
  self.sensors[sensor]?.bind id

/-- A device without reports. -/
def create : OneEuroFilterDevice K := ⟨[]⟩

/-- `ensureSensorId`; `none` when an index is out of bounds, which is undefined. -/
def ensureSensorId (self : OneEuroFilterDevice K) (sensor : ℕ) (now : TimeValue) :
    Option (OneEuroFilterDevice K) :=
  let sensors := withRoom self.sensors sensor
  match sensors[sensor]? with
  | none => none
  | some none => some ⟨sensors.set sensor (some (makeSensorData settings now))⟩
  | some (some _) => some ⟨sensors⟩

/-- `none` also when a difference overflows, which is undefined too. -/
def handleData (self : OneEuroFilterDevice K) (report : TimedPose K) :
    Option (OneEuroFilterDevice K × SentPose K) :=
  (self.ensureSensorId settings (channelOf report.sensor) report.now).bind fun ensured =>
    (ensured.sensorData? (indexOf report.sensor)).bind fun sensorData =>
      if DifferencesFit report.timestamp sensorData.lastReport then
        let filtered := filterReport math sensorData report
        some (⟨ensured.sensors.set (indexOf report.sensor) (some filtered.1)⟩, filtered.2)
      else none

end OneEuroFilterDevice

/-- One sensor by itself. -/
def sensorComponent : Component (SensorData K) (TimedPose K) (SentPose K) where
  create report := makeSensorData settings report.now
  step := filterReport math

/-- A sensor that a report can have. -/
def ValidSensor (report : TimedPose K) : Prop := 0 ≤ report.sensor ∧ InInt32 report.sensor

/-- The time from a report, or from the clock at a report, to any report fits. -/
def TimesFit (reports : List (TimedPose K)) : Prop :=
  ∀ report ∈ reports, ∀ other ∈ reports,
    DifferencesFit report.timestamp other.timestamp ∧ DifferencesFit report.timestamp other.now

end Device

/-! ## The vector -/

section Vector

variable {α : Type u} {items : List (Option α)} {index : ℕ}

/-- A place that is not there is as good as one where nothing is. -/
theorem bind_getElem?_resize (h : items.length ≤ index) (other : ℕ) :
    (resize items (index + 1))[other]?.bind id = items[other]?.bind id := by
  rw [resize, List.take_of_length_le (by omega)]
  by_cases hother : other < items.length
  · rw [List.getElem?_append_left hother]
  · rw [List.getElem?_append_right (by omega), List.getElem?_replicate,
      @List.getElem?_eq_none _ items _ (by omega)]
    split <;> rfl

theorem withRoom_spec (hindex : (index + 1) % 2 ^ 32 = index + 1) :
    index < (withRoom items index).length ∧
      ∀ other : ℕ, (withRoom items index)[other]?.bind id = items[other]?.bind id := by
  rw [withRoom, hindex]
  split
  next hlength =>
    refine ⟨?_, bind_getElem?_resize hlength⟩
    rw [resize, List.take_of_length_le (by omega), List.length_append, List.length_replicate]
    omega
  next hlength => exact ⟨Nat.lt_of_not_le hlength, fun _ => rfl⟩

end Vector

theorem indexOf_eq {sensor : ℤ} (hnonneg : 0 ≤ sensor) (h : InInt32 sensor) :
    indexOf sensor = sensor.toNat ∧ channelOf sensor = sensor.toNat ∧
      (sensor.toNat + 1) % 2 ^ 32 = sensor.toNat + 1 := by
  have hbound : sensor < 2 ^ 31 := h.2
  refine ⟨congrArg Int.toNat (Int.emod_eq_of_lt hnonneg (by omega)),
    congrArg Int.toNat (Int.emod_eq_of_lt hnonneg (by omega)), Nat.mod_eq_of_lt (by omega)⟩

/-! ## One report -/

namespace OneEuroFilterDevice

theorem sensorData?_set {items : List (Option (SensorData K))} {sensor : ℕ} {data : SensorData K}
    (hbound : sensor < items.length) (other : ℕ) :
    sensorData? ⟨items.set sensor (some data)⟩ other =
      if other = sensor then some data else sensorData? ⟨items⟩ other := by
  unfold sensorData?
  by_cases hother : other = sensor
  · rw [if_pos hother, hother, List.getElem?_set_self hbound]
    rfl
  · rw [if_neg hother, List.getElem?_set_ne (Ne.symm hother)]

/-- The sensor is there afterwards, made anew if there was none, and no other changes. -/
theorem ensureSensorId_eq (settings : DeviceSettings K) (self : OneEuroFilterDevice K) {sensor : ℕ}
    (hsensor : (sensor + 1) % 2 ^ 32 = sensor + 1) (now : TimeValue) :
    ∃ ensured, self.ensureSensorId settings sensor now = some ensured ∧
      sensor < ensured.sensors.length ∧
      ensured.sensorData? sensor =
        some ((self.sensorData? sensor).getD (makeSensorData settings now)) ∧
      ∀ other, other ≠ sensor → ensured.sensorData? other = self.sensorData? other := by
  obtain ⟨hroom, hsame⟩ := @withRoom_spec _ self.sensors _ hsensor
  have hentry : (withRoom self.sensors sensor)[sensor]? = some _ := List.getElem?_eq_getElem hroom
  have hlookup := hsame sensor
  rw [hentry, Option.bind_some] at hlookup
  cases hplace : (withRoom self.sensors sensor)[sensor] with
  | none =>
      rw [hplace] at hentry hlookup
      refine ⟨⟨(withRoom self.sensors sensor).set sensor (some (makeSensorData settings now))⟩,
        by simp only [ensureSensorId, hentry], by rwa [List.length_set], ?_, fun other hother => ?_⟩
      · rw [sensorData?_set hroom, if_pos rfl, sensorData?, ← hlookup]
        rfl
      · rw [sensorData?_set hroom, if_neg hother]
        exact hsame other
  | some data =>
      rw [hplace] at hentry hlookup
      refine ⟨⟨withRoom self.sensors sensor⟩, by simp only [ensureSensorId, hentry], hroom, ?_,
        fun other _ => hsame other⟩
      rw [sensorData?, hentry, sensorData?, ← hlookup]
      rfl

/-- A report that comes to a device, of which these are all. -/
def Accepted (all : List (TimedPose K)) (report : TimedPose K) : Prop :=
  ValidSensor report ∧ report ∈ all

/-- The time to any of the reports fits. -/
def Timely (all : List (TimedPose K)) (self : OneEuroFilterDevice K) : Prop :=
  ∀ sensor, ∀ data ∈ self.sensorData? sensor, ∀ report ∈ all,
    DifferencesFit report.timestamp data.lastReport

theorem timely_create (all : List (TimedPose K)) : Timely all create :=
  fun _ _ hmem => by cases hmem

/-- The device does to each of its sensors what is done to one by itself. -/
theorem isWhole_handleData [Field K] [LinearOrder K] (math : Libm K) (settings : DeviceSettings K)
    {all : List (TimedPose K)} (hfits : TimesFit all) : (sensorComponent math settings).IsWhole
    (fun report => report.sensor.toNat) (Accepted all) (Timely all) sensorData?
    (handleData math settings) := by
  constructor
  intro self report htimely ⟨hvalid, hmem⟩
  obtain ⟨hindex, hchannel, hroom⟩ := indexOf_eq hvalid.1 hvalid.2
  obtain ⟨ensured, hensured, hbound, hdata, hothers⟩ :=
    ensureSensorId_eq settings self hroom report.now
  have hfit : DifferencesFit report.timestamp ((self.sensorData? report.sensor.toNat).getD
      (makeSensorData settings report.now)).lastReport := by
    cases hold : self.sensorData? report.sensor.toNat with
    | none => exact (hfits report hmem report hmem).2
    | some data => exact htimely _ data hold report hmem
  refine ⟨⟨ensured.sensors.set report.sensor.toNat (some ((sensorComponent math settings).next
    (self.sensorData? report.sensor.toNat) report).1)⟩, ?_, ?_, ?_, fun other hother => ?_⟩
  · intro other data hother later hlater
    rw [sensorData?_set hbound] at hother
    split at hother
    next =>
      obtain rfl := Option.mem_some_iff.mp hother
      exact (hfits later hlater report hmem).1
    next hne =>
      have hsame : self.sensorData? other = some data := (hothers other hne).symm.trans hother
      exact htimely other data hsame later hlater
  · rw [handleData, hchannel, hensured, Option.bind_some, hindex, hdata, Option.bind_some,
      if_pos hfit]
    rfl
  · rw [sensorData?_set hbound, if_pos rfl]
  · rw [sensorData?_set hbound, if_neg hother]
    exact hothers other hother

end OneEuroFilterDevice

/-! ## One sensor -/

/-- What the data of a sensor is after a pose was sent for it. -/
structure Tracks (settings : DeviceSettings K) (data : SensorData K) (sent : SentPose K) :
    Prop where
  params : data.positionFilter.params = settings.posParams
  oriParams : data.orientationFilter.params = settings.oriParams
  started : data.positionFilter.Started
  oriStarted : data.orientationFilter.Started
  position : data.positionFilter.getState = vecMap sent.filteredPose.translation
  time : data.lastReport = sent.timestamp

/-- The data of a sensor that may not be there yet. -/
def Kept (settings : DeviceSettings K) (state : Option (SensorData K)) : Prop :=
  ∀ data ∈ state, ∃ sent, Tracks settings data sent

variable {settings : DeviceSettings K} {state : Option (SensorData K)}

theorem kept_none : Kept settings none := fun _ hmem => by cases hmem

/-- The filters that a report goes to. -/
theorem Kept.filters (hkept : Kept settings state) (now : TimeValue) :
    let data := state.getD (makeSensorData settings now)
    (data.positionFilter.params = settings.posParams ∧ data.positionFilter.Coherent) ∧
      data.orientationFilter.params = settings.oriParams ∧ data.orientationFilter.Coherent := by
  cases state with
  | none =>
      exact ⟨⟨rfl, OneEuroFilter.coherent_create _ _⟩, rfl, OneEuroFilter.coherent_create _ _⟩
  | some data =>
      obtain ⟨sent, htracks⟩ := hkept data rfl
      exact ⟨⟨htracks.params, htracks.started.1⟩, htracks.oriParams, htracks.oriStarted.1⟩

theorem reportDt_pos [Field K] [LinearOrder K] [IsStrictOrderedRing K]
    (timestamp lastReport : TimeValue) : (0 : K) < reportDt timestamp lastReport := by
  unfold reportDt
  extract_lets dt
  split
  next => exact one_pos
  next hdt => exact lt_of_not_ge hdt

section Runs

variable [Field K] [LinearOrder K] {math : Libm K} {report : TimedPose K}
  {reports : List (TimedPose K)}

theorem Kept.tracks_next (hkept : Kept settings state) (report : TimedPose K) :
    let stepped := (sensorComponent math settings).next state report
    Tracks settings stepped.1 stepped.2 ∧ stepped.2.sensor = report.sensor ∧
      stepped.2.timestamp = report.timestamp := by
  obtain ⟨⟨hparams, -⟩, horiParams, -⟩ := hkept.filters report.now
  refine ⟨⟨hparams, horiParams, OneEuroFilter.started_filter _ _,
    OneEuroFilter.started_filter _ _, ?_, rfl⟩, rfl, rfl⟩
  exact (vecMap_ofVecMap _).symm

omit [Field K] [LinearOrder K] in
theorem Tracks.kept {data : SensorData K} {sent : SentPose K}
    (htracks : Tracks settings data sent) : Kept settings (some data) := by
  intro other hmem
  obtain rfl : data = other := Option.mem_some_iff.mp hmem
  exact ⟨sent, htracks⟩

theorem Kept.run (hkept : Kept settings state) (reports : List (TimedPose K)) :
    Kept settings ((sensorComponent math settings).run state reports).1 := by
  induction reports generalizing state with
  | nil => exact hkept
  | cons report reports ih => exact ih (hkept.tracks_next report).1.kept

/-- After a run there is the data that goes with the last pose that was sent. -/
theorem tracks_run (reports : List (TimedPose K)) (report : TimedPose K) :
    let before := (sensorComponent math settings).run none reports
    ∃ data sent, (sensorComponent math settings).run none (reports ++ [report]) =
        (some data, before.2 ++ [sent]) ∧ Tracks settings data sent ∧
      sent.sensor = report.sensor ∧ sent.timestamp = report.timestamp :=
  ⟨_, _, Component.run_append none reports [report],
    ((kept_none.run reports).tracks_next report)⟩

variable [IsStrictOrderedRing K]

/-- The values of a sensor that is there are in two sets. -/
def Within (P : Set (Fin 3 → K)) (Q : Set (Util.Quaternion K)) (state : Option (SensorData K)) :
    Prop :=
  ∀ data ∈ state, data.positionFilter.getState ∈ P ∧ data.orientationFilter.getState ∈ Q

/-- The poses that are sent stay in what the filters keep the poses that are received in. -/
theorem Kept.run_mem {P : Set (Fin 3 → K)} {Q : Set (Util.Quaternion K)}
    (hpositions : (vectorFilterType math).Keeps P)
    (horientations : (quaternionFilterType math).Keeps Q)
    (hparams : settings.Sensible) (hkept : Kept settings state) (hold : Within P Q state)
    (hin : ∀ report ∈ reports, vecMap report.pose.translation ∈ P ∧ report.pose.rotation ∈ Q) :
    ∀ sent ∈ ((sensorComponent math settings).run state reports).2,
      vecMap sent.filteredPose.translation ∈ P ∧ sent.filteredPose.rotation ∈ Q := by
  induction reports generalizing state with
  | nil => exact fun _ hmem => by cases hmem
  | cons report reports ih =>
      obtain ⟨htracks, -, -⟩ := @Kept.tracks_next _ _ _ _ _ math hkept report
      obtain ⟨hposition, horientation⟩ := hkept.filters report.now
      obtain ⟨hreported, hrotated⟩ := hin report List.mem_cons_self
      have hfirst : Within P Q (some ((sensorComponent math settings).next state report).1) := by
        intro data hmem
        obtain rfl := Option.mem_some_iff.mp hmem
        apply And.intro
        · refine OneEuroFilter.getState_filter_mem hpositions (hposition.1 ▸ hparams.1) hposition.2
            (fun hstarted => ?_) (reportDt_pos _ _) hreported
          cases state with
          | none => cases hstarted
          | some data => exact (hold data rfl).1
        · refine OneEuroFilter.getState_filter_mem horientations (horientation.1 ▸ hparams.2)
            horientation.2 (fun hstarted => ?_) (reportDt_pos _ _) hrotated
          cases state with
          | none => cases hstarted
          | some data => exact (hold data rfl).2
      intro sent hsent
      rcases List.mem_cons.mp hsent with rfl | hsent
      · rw [← htracks.position]
        exact hfirst _ rfl
      · exact ih htracks.kept hfirst
          (fun report hmem => hin report (List.mem_cons_of_mem _ hmem)) sent hsent

/-- A position that does not change is approached by a factor in each report. -/
theorem Tracks.run_approaches {least : K} (hsqrt : ∀ square, 0 ≤ math.sqrt square)
    (hparams : settings.posParams.Sensible) (hleast : 0 < least) {x : Fin 3 → K}
    {data : SensorData K} {start : SentPose K} (htracks : Tracks settings data start)
    (hx : ∀ report ∈ reports, vecMap report.pose.translation = x)
    (hgaps : (start.timestamp :: reports.map TimedPose.timestamp).IsChain
      fun earlier later => least ≤ reportDt later earlier) {n : ℕ} {sent : SentPose K}
    (hsent : ((sensorComponent math settings).run (some data) reports).2[n]? = some sent)
    (axis : Fin 3) :
    |x axis - vecMap sent.filteredPose.translation axis| ≤
      (1 - computeAlpha least settings.posParams.minCutoff) ^ (n + 1) *
        |x axis - vecMap start.filteredPose.translation axis| := by
  induction reports generalizing data start n with
  | nil => cases hsent
  | cons report reports ih =>
      obtain ⟨hnext, -, -⟩ := @Kept.tracks_next _ _ _ _ _ math htracks.kept report
      rw [List.map_cons, List.isChain_cons_cons, ← htracks.time] at hgaps
      have hfirst : |x axis - ((sensorComponent math settings).next (some data)
          report).1.positionFilter.getState axis| ≤
            (1 - computeAlpha least settings.posParams.minCutoff) *
              |x axis - data.positionFilter.getState axis| := by
        rw [← hx report List.mem_cons_self, ← htracks.params]
        exact OneEuroFilter.abs_sub_getState_filter_le hsqrt (htracks.params ▸ hparams)
          htracks.started hleast hgaps.1 axis
      rw [hnext.position, htracks.position] at hfirst
      cases n with
      | zero =>
          obtain rfl := Option.some_inj.mp hsent
          rwa [zero_add, pow_one]
      | succ n =>
          have hrest := ih hnext (fun report hmem => hx report (List.mem_cons_of_mem _ hmem))
            hgaps.2 hsent
          rw [pow_succ, mul_assoc]
          refine hrest.trans (mul_le_mul_of_nonneg_left hfirst (pow_nonneg ?_ _))
          exact sub_nonneg.mpr (computeAlpha_le_one hleast hparams.minCutoff_pos)

end Runs

/-! ## The device -/

/-- The reports of a sensor. -/
def reportsFor (sensor : ℕ) (reports : List (TimedPose K)) : List (TimedPose K) :=
  reports.filter fun report => report.sensor.toNat = sensor

/-- The poses that are sent for the reports of a sensor. -/
def sentFor (sensor : ℕ) (reports : List (TimedPose K)) (sent : List (SentPose K)) :
    List (SentPose K) :=
  ((reports.zip sent).filter fun answered => answered.1.sensor.toNat = sensor).map Prod.snd

namespace OneEuroFilterDevice

section Isolation

variable [Field K] [LinearOrder K] {math : Libm K} {settings : DeviceSettings K}
  {reports : List (TimedPose K)}

theorem sent_of_handleData {self : OneEuroFilterDevice K} {report : TimedPose K}
    {handled : OneEuroFilterDevice K × SentPose K}
    (h : self.handleData math settings report = some handled) :
    (handled.2.sensor, handled.2.timestamp) = (report.sensor, report.timestamp) := by
  obtain ⟨ensured, -, hfiltered⟩ := Option.bind_eq_some_iff.mp h
  obtain ⟨data, -, hanswered⟩ := Option.bind_eq_some_iff.mp hfiltered
  obtain ⟨-, hsent⟩ := Option.ite_none_right_eq_some.mp hanswered
  cases hsent
  rfl

/-- Every pose that is sent has the sensor and the time of its report. -/
theorem headers_of_runInputs {self after : OneEuroFilterDevice K} {sent : List (SentPose K)}
    (hrun : runInputs (handleData math settings) self reports = some (after, sent)) :
    sent.map (fun pose => (pose.sensor, pose.timestamp)) =
      reports.map fun report => (report.sensor, report.timestamp) :=
  map_of_runInputs (fun pose : SentPose K => (pose.sensor, pose.timestamp))
    (fun report => (report.sensor, report.timestamp)) (fun _ _ _ => sent_of_handleData) hrun

/-- What a run is for a sensor. -/
theorem run_sensor {all : List (TimedPose K)} {self after : OneEuroFilterDevice K}
    {sent : List (SentPose K)} (hfits : TimesFit all) (htimely : Timely all self)
    (haccepted : ∀ report ∈ reports, Accepted all report)
    (hrun : runInputs (handleData math settings) self reports = some (after, sent)) :
    Timely all after ∧ ∀ sensor,
      (sensorComponent math settings).run (self.sensorData? sensor) (reportsFor sensor reports) =
        (after.sensorData? sensor, sentFor sensor reports sent) := by
  obtain ⟨last, answers, hlast, hkept, -, hsensors⟩ :=
    (isWhole_handleData math settings hfits).run reports haccepted htimely
  obtain ⟨hafter, hsent⟩ := Prod.mk.inj (Option.some_inj.mp (hlast.symm.trans hrun))
  rw [← hafter, ← hsent]
  exact ⟨hkept, hsensors⟩

/-- Data that is new answers its first report in the same way, whatever was not initialized. -/
theorem next_none_congr {other : DeviceSettings K} (hpos : other.posParams = settings.posParams)
    (hori : other.oriParams = settings.oriParams) (report : TimedPose K) :
    (sensorComponent math other).next none report =
      (sensorComponent math settings).next none report := by
  simp only [Component.next, sensorComponent, Option.getD_none, filterReport, makeSensorData, hpos,
    hori, OneEuroFilter.filter_create]

theorem run_none_congr {other : DeviceSettings K} (hpos : other.posParams = settings.posParams)
    (hori : other.oriParams = settings.oriParams) (reports : List (TimedPose K)) :
    (sensorComponent math other).run none reports =
      (sensorComponent math settings).run none reports := by
  have hrest (data : SensorData K) (reports : List (TimedPose K)) :
      (sensorComponent math other).run (some data) reports =
        (sensorComponent math settings).run (some data) reports := by
    induction reports generalizing data with
    | nil => rfl
    | cons report reports ih =>
        rw [Component.run, Component.run, ih]
        rfl
  cases reports with
  | nil => rfl
  | cons report reports => rw [Component.run, Component.run, next_none_congr hpos hori, hrest]

/-- Every report is answered, and the poses of a sensor are those of one filter that is given
the reports of this sensor alone, in memory of its own. -/
theorem runInputs_handleData (math : Libm K) (settings : DeviceSettings K)
    (hvalid : ∀ report ∈ reports, ValidSensor report) (hfits : TimesFit reports) :
    ∃ after sent, runInputs (handleData math settings) create reports = some (after, sent) ∧
      sent.map (fun pose => (pose.sensor, pose.timestamp)) =
        reports.map (fun report => (report.sensor, report.timestamp)) ∧
      ∀ sensor other, other.posParams = settings.posParams → other.oriParams = settings.oriParams →
        sentFor sensor reports sent =
          ((sensorComponent math other).run none (reportsFor sensor reports)).2 := by
  have haccepted (report : TimedPose K) (hmem : report ∈ reports) : Accepted reports report :=
    ⟨hvalid report hmem, hmem⟩
  obtain ⟨after, sent, hrun, -, -, -⟩ := (isWhole_handleData math settings hfits).run reports
    haccepted (timely_create reports)
  refine ⟨after, sent, hrun, headers_of_runInputs hrun, fun sensor other hpos hori => ?_⟩
  have hsensor := (run_sensor hfits (timely_create reports) haccepted hrun).2 sensor
  rw [run_none_congr hpos hori]
  exact (congrArg Prod.snd hsensor).symm

end Isolation

section Real

variable {settings : DeviceSettings ℝ} {reports still : List (TimedPose ℝ)} {report : TimedPose ℝ}

/-- The pose that is sent for a report is a unit quaternion, at a position in any convex set with
all positions that were received for the same sensor. -/
theorem sent_pose_within {S : Set (Fin 3 → ℝ)} (hS : Convex ℝ S) (hsettings : settings.Sensible)
    (hvalid : ∀ received ∈ reports ++ [report], ValidSensor received)
    (hfits : TimesFit (reports ++ [report]))
    (hin : ∀ received ∈ reports ++ [report], received.sensor = report.sensor →
      vecMap received.pose.translation ∈ S ∧ received.pose.rotation.squaredNorm = 1) :
    ∃ after sent pose, runInputs (handleData Quaternion.realMath settings) create
        (reports ++ [report]) = some (after, sent ++ [pose]) ∧ sent.length = reports.length ∧
      (pose.sensor = report.sensor ∧ pose.timestamp = report.timestamp) ∧
      vecMap pose.filteredPose.translation ∈ S ∧ pose.filteredPose.rotation.squaredNorm = 1 := by
  have haccepted (received : TimedPose ℝ) (hmem : received ∈ reports ++ [report]) :
      Accepted (reports ++ [report]) received := ⟨hvalid received hmem, hmem⟩
  have htimely : Timely (reports ++ [report]) create := timely_create _
  obtain ⟨after, all, hrun, -, hlength, -⟩ :=
    (isWhole_handleData Quaternion.realMath settings hfits).run _ haccepted htimely
  have hmap := headers_of_runInputs hrun
  obtain ⟨sent, pose, rfl⟩ : ∃ sent pose, all = sent ++ [pose] := by
    rcases List.eq_nil_or_concat' all with rfl | hlast
    · simp at hlength
    · exact hlast
  have hsame : sent.length = reports.length := by simpa using hlength
  rw [List.map_append, List.map_append] at hmap
  obtain ⟨-, hlast⟩ := List.append_singleton_inj.mp hmap
  obtain ⟨hsensor, htime⟩ := Prod.mk.inj hlast
  have hmem : pose ∈ ((sensorComponent Quaternion.realMath settings).run none
      (reportsFor report.sensor.toNat (reports ++ [report]))).2 := by
    rw [show (sensorComponent _ settings).run none _ = _ from
      (run_sensor hfits htimely haccepted hrun).2 _, sentFor, List.zip_append hsame.symm]
    simp
  refine ⟨after, sent, pose, hrun, hsame, ⟨hsensor, htime⟩, ?_⟩
  refine Kept.run_mem (keeps_vectorFilterType Real.sqrt_nonneg hS) keeps_quaternionFilterType
    hsettings kept_none (fun _ hmem => by cases hmem) (fun received hreceived => ?_) pose hmem
  obtain ⟨hreceived, hsensor⟩ := List.mem_filter.mp hreceived
  have hnonneg := (hvalid received hreceived).1
  have hnonneg' := (hvalid report (by simp)).1
  exact hin received hreceived (by have := of_decide_eq_true hsensor; omega)

/-- When a sensor does not move any more, whatever the others do, each report brings the pose that
is sent nearer to its position by a factor, which is for the least time between its reports. -/
theorem sent_pose_approaches {least : ℝ} (hleast : 0 < least)
    (hparams : settings.posParams.Sensible)
    (hvalid : ∀ received ∈ reports ++ still, ValidSensor received)
    (hfits : TimesFit (reports ++ still)) {sensor : ℕ} {x : Fin 3 → ℝ}
    (hx : ∀ received ∈ reportsFor sensor still, vecMap received.pose.translation = x)
    {before after : OneEuroFilterDevice ℝ} {sent sentStill : List (SentPose ℝ)}
    (hreports : runInputs (handleData Quaternion.realMath settings) create reports =
      some (before, sent))
    (hstill : runInputs (handleData Quaternion.realMath settings) before still =
      some (after, sentStill))
    {start : SentPose ℝ} (hstart : (sentFor sensor reports sent).getLast? = some start)
    (hgaps : (start.timestamp :: (reportsFor sensor still).map TimedPose.timestamp).IsChain
      fun earlier later => least ≤ reportDt later earlier)
    {n : ℕ} {pose : SentPose ℝ} (hpose : (sentFor sensor still sentStill)[n]? = some pose)
    (axis : Fin 3) :
    |x axis - vecMap pose.filteredPose.translation axis| ≤
      (1 - computeAlpha least settings.posParams.minCutoff) ^ (n + 1) *
        |x axis - vecMap start.filteredPose.translation axis| := by
  have haccepted (received : TimedPose ℝ) (hmem : received ∈ reports ++ still) :
      Accepted (reports ++ still) received := ⟨hvalid received hmem, hmem⟩
  obtain ⟨htimely, hbefore⟩ := run_sensor hfits (timely_create _)
    (fun received hmem => haccepted received (List.mem_append_left _ hmem)) hreports
  obtain ⟨-, hafter⟩ := run_sensor hfits htimely
    (fun received hmem => haccepted received (List.mem_append_right _ hmem)) hstill
  have hfirst :
      (sensorComponent Quaternion.realMath settings).run none (reportsFor sensor reports) =
      (before.sensorData? sensor, sentFor sensor reports sent) := hbefore sensor
  have hsecond := hafter sensor
  -- The last pose goes with the data that the sensor has.
  obtain ⟨data, hdata, htracks⟩ :
      ∃ data, before.sensorData? sensor = some data ∧ Tracks settings data start := by
    rcases List.eq_nil_or_concat' (reportsFor sensor reports) with hnil | ⟨front, last, hconcat⟩
    · rw [hnil] at hfirst
      rw [← (Prod.mk.inj hfirst).2] at hstart
      cases hstart
    · obtain ⟨data, pose, hlast, htracks, -⟩ :=
        @tracks_run _ settings _ _ Quaternion.realMath front last
      rw [hconcat, hlast] at hfirst
      obtain ⟨hstate, hsent⟩ := Prod.mk.inj hfirst
      rw [← hsent, List.getLast?_concat] at hstart
      obtain rfl := Option.some_inj.mp hstart
      exact ⟨data, hstate.symm, htracks⟩
  rw [hdata] at hsecond
  have hposes : ((sensorComponent Quaternion.realMath settings).run (some data)
      (reportsFor sensor still)).2[n]? = some pose := by
    rw [hsecond]
    exact hpose
  exact htracks.run_approaches Real.sqrt_nonneg hparams hleast hx hgaps hposes axis

/-! ### Two sensors -/

noncomputable def defaultSettings : DeviceSettings ℝ :=
  ⟨getPositionDefaults, getOrientationDefaults, 0, .identity⟩

theorem sensible_defaultSettings : defaultSettings.Sensible := by
  refine ⟨⟨?_, ?_⟩, ?_, ?_⟩
  all_goals
    simp only [defaultSettings, getPositionDefaults, getOrientationDefaults]
    positivity

/-- A report of a position on the first axis, at a time in seconds. -/
noncomputable def placeReport (sensor seconds : ℤ) (place : ℝ) : TimedPose ℝ :=
  ⟨⟨seconds, 0⟩, sensor, ⟨⟨place, 0, 0⟩, .identity⟩, ⟨0, 0⟩⟩

/-- One sensor moves once, and another one is reported in between. -/
noncomputable def earlyReports : List (TimedPose ℝ) := [placeReport 0 1 0, placeReport 3 2 0]

theorem validSensor_earlyReports (place : ℝ) :
    ∀ received ∈ earlyReports ++ [placeReport 0 3 place], ValidSensor received := by
  simp [earlyReports, ValidSensor, placeReport, InInt32]

theorem timesFit_earlyReports (place : ℝ) : TimesFit (earlyReports ++ [placeReport 0 3 place]) := by
  intro report hreport other hother
  simp only [earlyReports, List.cons_append, List.nil_append, List.mem_cons, List.not_mem_nil,
    or_false] at hreport hother
  rcases hreport with rfl | rfl | rfl <;> rcases hother with rfl | rfl | rfl <;>
    simp [placeReport, DifferencesFit, InInt32, InInt64]

theorem runInputs_handleData_early :
    ∃ after sent, runInputs (handleData Quaternion.realMath defaultSettings) create
        (earlyReports ++ [placeReport 0 3 1]) = some (after, sent) ∧
      sent.map (fun pose => (pose.sensor, pose.timestamp)) =
        [(0, ⟨1, 0⟩), (3, ⟨2, 0⟩), (0, ⟨3, 0⟩)] ∧
      ∀ sensor other, other.posParams = defaultSettings.posParams →
        other.oriParams = defaultSettings.oriParams →
          sentFor sensor (earlyReports ++ [placeReport 0 3 1]) sent =
            ((sensorComponent Quaternion.realMath other).run none
              (reportsFor sensor (earlyReports ++ [placeReport 0 3 1]))).2 :=
  runInputs_handleData _ _ (validSensor_earlyReports 1) (timesFit_earlyReports 1)

theorem sent_pose_within_unit :
    ∃ after sent pose, runInputs (handleData Quaternion.realMath defaultSettings) create
        (earlyReports ++ [placeReport 0 3 1]) = some (after, sent ++ [pose]) ∧ sent.length = 2 ∧
      (pose.sensor = 0 ∧ pose.timestamp = ⟨3, 0⟩) ∧
      vecMap pose.filteredPose.translation ∈ Set.Icc (0 : Fin 3 → ℝ) 1 ∧
      pose.filteredPose.rotation.squaredNorm = 1 := by
  refine sent_pose_within (convex_Icc 0 1) sensible_defaultSettings (validSensor_earlyReports 1)
    (timesFit_earlyReports 1) fun received hmem _ => ?_
  have hunit : (Quaternion.identity : Util.Quaternion ℝ).squaredNorm = 1 := by
    simp [Quaternion.squaredNorm, Quaternion.dot, Quaternion.identity]
  simp only [earlyReports, List.cons_append, List.nil_append, List.mem_cons, List.not_mem_nil,
    or_false] at hmem
  rcases hmem with rfl | rfl | rfl <;>
    simp [placeReport, hunit, vecMap, Pi.le_def, Fin.forall_fin_succ]

theorem sent_pose_approaches_early :
    let first := filterReport Quaternion.realMath (makeSensorData defaultSettings ⟨0, 0⟩)
      (placeReport 0 1 0)
    let moved := filterReport Quaternion.realMath first.1 (placeReport 0 3 1)
    |1 - vecMap moved.2.filteredPose.translation 0| ≤
      (1 - computeAlpha 1 defaultSettings.posParams.minCutoff) ^ (0 + 1) *
        |1 - vecMap first.2.filteredPose.translation 0| := by
  intro first moved
  have hgap : (1 : ℝ) ≤ reportDt ⟨3, 0⟩ ⟨1, 0⟩ := by norm_num [reportDt]
  refine @sent_pose_approaches defaultSettings earlyReports [placeReport 0 3 1] 1 one_pos
    sensible_defaultSettings.1 (validSensor_earlyReports 1) (timesFit_earlyReports 1) 0 ![1, 0, 0]
    (fun received hmem => ?_) _ _ _ _ rfl rfl _ rfl ?_ 0 _ rfl 0
  · obtain rfl := List.mem_singleton.mp (List.mem_of_mem_filter hmem)
    rfl
  · exact List.isChain_pair.mpr hgap

end Real

end OneEuroFilterDevice

end OSVR.Filters
