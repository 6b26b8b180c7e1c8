/-
# Channels of analog and button messages

A handler reports the channels of a message that were selected: all of them, or one. It
keeps a range, which grows with the messages when all are selected, and intersects it with
the channels up to the last one that can be reported. With a single channel this is the
channel itself, and not the last one of the message.
-/

import OsvrCore.Util.ValueOrRange

set_option autoImplicit false

namespace OSVR.Client

open Util

/-- A message with a value for each of its channels, which an `int` counts. -/
structure ChannelMessage (α : Type) where
  channels : List α
  counted : channels.length < 2 ^ 31

/-- A report of a channel. There is no state where it was read outside of the message. -/
structure ChannelReport (β : Type) where
  sensor : ℤ
  state : Option β
  deriving DecidableEq

/-- Members of `VRPNAnalogHandler` and `VRPNButtonHandler`. -/
structure ChannelHandler where
  all : Bool
  sensors : ValueOrRange

variable {α β : Type}

namespace ChannelMessage

/-- `num_channel` and `num_buttons`. -/
def count (message : ChannelMessage α) : ℤ := message.channels.length

/-- `info.channel[i]` and `info.states[i]`. -/
def read (message : ChannelMessage α) (sensor : ℤ) : Option α :=
  if 0 ≤ sensor then message.channels[sensor.toNat]? else none

end ChannelMessage

namespace ChannelHandler

/-- The constructor. -/
def new : Option ValueOrRange.IntValue → Except RangeError ChannelHandler
  | none => .ok ⟨true, .default⟩
  | some sensor => do return ⟨false, ← ValueOrRange.default.setValue sensor⟩

def maxChannel (handler : ChannelHandler) (message : ChannelMessage α) : ℤ :=
  if handler.all then message.count - 1 else handler.sensors.getValue

/-- The range of all sensors grows with the messages. -/
def grown (handler : ChannelHandler) (maxChannel : ℤ) : Except RangeError ChannelHandler :=
  if handler.all then
    if handler.sensors.empty then do
      return { handler with sensors := ← handler.sensors.setRangeMaxMin maxChannel 0 }
    else do return { handler with sensors := ← handler.sensors.extendRangeToMax maxChannel }
  else .ok handler

/-- The sensors up to the last one. -/
def sensorsTo (handler : ChannelHandler) (maxChannel : ℤ) : Except RangeError ValueOrRange := do
  handler.sensors.getIntersection (← ValueOrRange.rangeZeroTo maxChannel)

/-- The loop over the sensors; a state is converted for its report. -/
def reportSensors (convert : α → β) (handler : ChannelHandler) (message : ChannelMessage α) :
    Except RangeError (List (ChannelReport β) × ChannelHandler) := do
  let handler ← handler.grown (handler.maxChannel message)
  let sensors ← (← handler.sensorsTo (handler.maxChannel message)).values
  return (sensors.map fun sensor => ⟨sensor, (message.read sensor).map convert⟩, handler)

end ChannelHandler

/-! ## The handlers -/

/-- `VRPNAnalogHandler::m_handle`. -/
def VRPNAnalogHandler.handle (handler : ChannelHandler) (info : ChannelMessage α) :
    Except RangeError (List (ChannelReport α) × ChannelHandler) :=
  if handler.sensors.isValue && decide (handler.maxChannel info < handler.sensors.getValue) then
    .ok ([], handler)
  else handler.reportSensors id info

/-- A message of one button, or of all of them. -/
inductive ButtonInfo
  | change (button state : ℤ)
  | states (info : ChannelMessage ℤ)

namespace VRPNButtonHandler

/-- `m_handle` of a single button. -/
def handleChange (handler : ChannelHandler) (button state : ℤ) : List (ChannelReport UInt8) :=
  if !handler.all && !handler.sensors.contains button then []
  else [⟨button, some (UInt8.ofInt state)⟩]

/-- `m_handle` of all buttons. -/
def handleStates (handler : ChannelHandler) (info : ChannelMessage ℤ) :
    Except RangeError (List (ChannelReport UInt8) × ChannelHandler) :=
  if handler.all then handler.reportSensors UInt8.ofInt info
  else do
    if (← handler.sensorsTo (handler.maxChannel info)).empty then return ([], handler)
    else handler.reportSensors UInt8.ofInt info

def handle (handler : ChannelHandler) :
    ButtonInfo → Except RangeError (List (ChannelReport UInt8) × ChannelHandler)
  | .change button state => .ok (handleChange handler button state, handler)
  | .states info => handleStates handler info

end VRPNButtonHandler

/-! ## Histories -/

/-- A handler that has had some messages. -/
def afterMessages {ι ρ : Type}
    (handle : ChannelHandler → ι → Except RangeError (ρ × ChannelHandler))
    (sensor : Option ValueOrRange.IntValue) (history : List ι) :
    Except RangeError ChannelHandler := do
  let first ← ChannelHandler.new sensor
  history.foldlM (fun handler info => Prod.snd <$> handle handler info) first

/-- What a message after some others is reported as. -/
def reportsAfter {ι ρ : Type}
    (handle : ChannelHandler → ι → Except RangeError (ρ × ChannelHandler))
    (sensor : Option ValueOrRange.IntValue) (history : List ι) (info : ι) :
    Except RangeError ρ := do
  Prod.fst <$> handle (← afterMessages handle sensor history) info

/-- The selected channels that exist in the message. -/
def selectedChannels (sensor : Option ValueOrRange.IntValue) (message : ChannelMessage α) :
    List ℕ :=
  (List.range message.channels.length).filter fun i : ℕ => sensor.all fun k => k.1 == (i : ℤ)

theorem selectedChannels_none (message : ChannelMessage α) :
    selectedChannels none message = List.range message.channels.length :=
  List.filter_eq_self.mpr fun _ _ => rfl

/-- The reports of them. -/
def selectedReports (convert : α → β) (sensor : Option ValueOrRange.IntValue)
    (message : ChannelMessage α) : List (ChannelReport β) :=
  (selectedChannels sensor message).map fun i : ℕ => ⟨i, (message.channels[i]?).map convert⟩

/-- What the handlers need: a single channel that is in the message, or in none. -/
def Selects (sensor : Option ValueOrRange.IntValue) (message : ChannelMessage α) : Prop :=
  ∀ k, sensor = some k → k.1 < 0 ∨ k.1 < message.count

theorem selects_none (message : ChannelMessage α) : Selects none message :=
  fun _ h => absurd h (Option.some_ne_none _).symm

namespace ChannelHandler

/-! ## All channels -/

/-- A handler of all channels, with the number that it has seen. -/
def ofAll (seen : ℤ) : ChannelHandler := ⟨true, ⟨0, seen⟩⟩

theorem rangeZeroTo_eq {maxVal : ℤ} (hlow : -1 ≤ maxVal) (hhigh : maxVal + 1 < 2 ^ 31) :
    ValueOrRange.rangeZeroTo maxVal = .ok ⟨0, maxVal + 1⟩ := by
  rw [ValueOrRange.rangeZeroTo, ValueOrRange.rangeMaxMin]
  split
  · rw [ValueOrRange.setMax_eq, if_pos ⟨by omega, hhigh⟩]
  · rw [ValueOrRange.setEmpty, show maxVal + 1 = 0 by omega]

theorem setMax_zero {first other : ℤ} {count : ℤ} (hcount : 0 ≤ count) (hfits : count < 2 ^ 31) :
    (ValueOrRange.mk first other).setMax (count - 1) = .ok ⟨first, count⟩ := by
  rw [ValueOrRange.setMax_eq, Int.sub_add_cancel, if_pos ⟨by omega, hfits⟩]

theorem grown_ofAll {seen count : ℤ} (hcount : 0 ≤ count) (hfits : count < 2 ^ 31) :
    (ofAll seen).grown (count - 1) = .ok (ofAll (max seen count)) := by
  rw [grown, ofAll, if_pos rfl]
  cases hempty : (ValueOrRange.mk 0 seen).empty with
  | true =>
      have hzero : seen = 0 := ((ValueOrRange.empty_iff _).mp hempty).2
      rw [if_pos rfl, ValueOrRange.setRangeMaxMin_eq, setMax_zero hcount hfits, hzero,
        max_eq_right hcount]
      rfl
  | false =>
      rw [if_neg Bool.false_ne_true, ValueOrRange.extendRangeToMax, hempty,
        if_neg Bool.false_ne_true]
      by_cases hmore : count - 1 ≥ seen
      · rw [if_pos hmore, setMax_zero hcount hfits, max_eq_right (by omega)]
        rfl
      · rw [if_neg hmore, max_eq_left (by omega)]
        rfl

theorem sensorsTo_ofAll {seen count : ℤ} (hcount : 0 ≤ count) (hfits : count < 2 ^ 31)
    (hseen : count ≤ seen) : (ofAll seen).sensorsTo (count - 1) = .ok ⟨0, count⟩ := by
  rw [sensorsTo, rangeZeroTo_eq (by omega) (by omega), Int.sub_add_cancel]
  show (ValueOrRange.mk 0 seen).getIntersection ⟨0, count⟩ = _
  rw [ValueOrRange.getIntersection]
  by_cases hzero : count = 0
  · rw [hzero, if_pos (by rfl)]
  · have hother : (ValueOrRange.mk 0 count).empty = false := by simp [ValueOrRange.empty, hzero]
    have hrange : (ValueOrRange.mk 0 seen).empty = false := by
      simp only [ValueOrRange.empty, beq_self_eq_true, Bool.true_and, beq_eq_false_iff_ne]
      omega
    have hmax : min (seen - 1) (count - 1) = count - 1 := by omega
    rw [hother, hrange, if_neg Bool.false_ne_true, if_neg Bool.false_ne_true,
      ValueOrRange.setRangeMaxMin_eq]
    simp only [ValueOrRange.getMax, ValueOrRange.getMin, max_self, hmax]
    exact setMax_zero hcount hfits

theorem values_zeroTo {count : ℕ} (hfits : count < 2 ^ 31) :
    (ValueOrRange.mk 0 count).values = .ok ((List.range count).map fun i : ℕ => (i : ℤ)) := by
  have hvalues : ValueOrRange.iterate (0 + count) 0 = _ := ValueOrRange.iterate_add (by omega)
  simpa [ValueOrRange.values] using hvalues

/-- All channels of a message are reported, however many there were before. -/
theorem reportSensors_ofAll (convert : α → β) (message : ChannelMessage α) (seen : ℤ) :
    (ofAll seen).reportSensors convert message =
      .ok (selectedReports convert none message, ofAll (max seen message.count)) := by
  have hcount : 0 ≤ message.count := Int.natCast_nonneg _
  have hfits : message.count < 2 ^ 31 := by
    have := message.counted
    rw [ChannelMessage.count]
    omega
  have hmax : ∀ seen, (ofAll seen).maxChannel message = message.count - 1 := fun _ => if_pos rfl
  have hvalues := values_zeroTo message.counted
  rw [reportSensors, hmax, grown_ofAll hcount hfits]
  simp only [bind, Except.bind, hmax, sensorsTo_ofAll hcount hfits (le_max_right _ _)]
  rw [ChannelMessage.count, hvalues]
  have hreports : selectedReports convert none message =
      (List.range message.channels.length).map fun i : ℕ =>
        ⟨i, (message.read i).map convert⟩ := by
    simp [selectedReports, selectedChannels_none, ChannelMessage.read]
  simp only [hreports, List.map_map]
  rfl

/-! ## One channel -/

/-- A handler of one channel, which is its last one as well. -/
def ofOne (k : ℤ) : ChannelHandler := ⟨false, ⟨k, k + 1⟩⟩

theorem new_some (k : ValueOrRange.IntValue) :
    new (some k) = if k.1 + 1 < 2 ^ 31 then .ok (ofOne k) else .error .overflow := by
  have hlow := k.2.1
  rw [new, ValueOrRange.setValue, ValueOrRange.setMax_eq]
  by_cases hfits : k.1 + 1 < 2 ^ 31
  · rw [if_pos ⟨by omega, hfits⟩, if_pos hfits]
    rfl
  · rw [if_neg fun h => hfits h.2, if_neg hfits]
    rfl

theorem empty_ofOne (k : ℤ) : (ValueOrRange.mk k (k + 1)).empty = false := by
  apply Bool.eq_false_iff.mpr
  rw [Ne, ValueOrRange.empty_iff]
  simp only
  omega

/-- The range up to the channel has the channel, whatever the message is. -/
theorem sensorsTo_ofOne {k : ℤ} (hlow : -2 ^ 31 ≤ k) (hfits : k + 1 < 2 ^ 31) :
    (ofOne k).sensorsTo k = .ok (if 0 ≤ k then ⟨k, k + 1⟩ else ⟨0, 0⟩) := by
  rw [sensorsTo]
  by_cases hk : 0 ≤ k
  · rw [rangeZeroTo_eq (by omega) hfits, if_pos hk]
    show (ValueOrRange.mk k (k + 1)).getIntersection ⟨0, k + 1⟩ = _
    have hother : (ValueOrRange.mk 0 (k + 1)).empty = false := by
      apply Bool.eq_false_iff.mpr
      rw [Ne, ValueOrRange.empty_iff]
      simp only
      omega
    rw [ValueOrRange.getIntersection, hother, empty_ofOne, if_neg Bool.false_ne_true,
      if_neg Bool.false_ne_true, ValueOrRange.setRangeMaxMin_eq]
    simp only [ValueOrRange.getMax, ValueOrRange.getMin, min_self, Int.add_sub_cancel,
      max_eq_left hk]
    rw [ValueOrRange.setMax_eq, if_pos ⟨by omega, hfits⟩]
  · rw [ValueOrRange.rangeZeroTo, ValueOrRange.rangeMaxMin, if_neg (by omega), if_neg hk]
    rfl

theorem values_ofOne {k : ℤ} (hfits : k + 1 < 2 ^ 31) :
    (ValueOrRange.mk k (k + 1)).values = .ok [k] := by
  have hvalues : ValueOrRange.iterate (k + (1 : ℕ)) k = _ := ValueOrRange.iterate_add (by omega)
  simpa [ValueOrRange.values] using hvalues

/-- The channel is reported with whatever is at its place. -/
theorem reportSensors_ofOne (convert : α → β) (message : ChannelMessage α) {k : ℤ}
    (hlow : -2 ^ 31 ≤ k) (hfits : k + 1 < 2 ^ 31) :
    (ofOne k).reportSensors convert message =
      .ok (if 0 ≤ k then [⟨k, (message.read k).map convert⟩] else [], ofOne k) := by
  have hmax : (ofOne k).maxChannel message = k := rfl
  have hgrown : (ofOne k).grown k = .ok (ofOne k) := rfl
  rw [reportSensors, hmax, hgrown]
  simp only [bind, Except.bind, hmax, sensorsTo_ofOne hlow hfits]
  by_cases hk : 0 ≤ k
  · rw [if_pos hk, if_pos hk, values_ofOne hfits]
    rfl
  · have hnone : (ValueOrRange.mk 0 0).values = .ok [] := by
      rw [ValueOrRange.values, ValueOrRange.iterate, if_pos rfl]
    rw [if_neg hk, if_neg hk, hnone]
    rfl

theorem filter_range_eq (k : ℤ) (n : ℕ) :
    (List.range n).filter (fun i : ℕ => k == (i : ℤ)) =
      if 0 ≤ k ∧ k < n then [k.toNat] else [] := by
  induction n with
  | zero => simp
  | succ n ih =>
      rw [List.range_succ, List.filter_append, ih]
      by_cases hlast : k = n
      · have hbefore : ¬(0 ≤ k ∧ k < n) := by omega
        have hnow : 0 ≤ k ∧ k < (n + 1 : ℕ) := by omega
        rw [if_neg hbefore, if_pos hnow, hlast]
        simp
      · have hsame : (0 ≤ k ∧ k < (n + 1 : ℕ)) ↔ (0 ≤ k ∧ k < n) := by omega
        have hnone : [n].filter (fun i : ℕ => k == (i : ℤ)) = [] := by simp [hlast]
        rw [hnone, List.append_nil]
        exact (if_congr hsame rfl rfl).symm

theorem selectedReports_some (convert : α → β) (k : ValueOrRange.IntValue)
    (message : ChannelMessage α) :
    selectedReports convert (some k) message =
      if 0 ≤ k.1 ∧ k.1 < message.count then [⟨k, (message.read k).map convert⟩] else [] := by
  rw [selectedReports, selectedChannels]
  simp only [Option.all_some, filter_range_eq]
  split
  next hk =>
    have hcast : ((k.1.toNat : ℕ) : ℤ) = k.1 := Int.toNat_of_nonneg hk.1
    simp [ChannelMessage.count, hk, hcast, ChannelMessage.read]
  next hk => rw [ChannelMessage.count, if_neg hk, List.map_nil]

/-- The one report is the right one if the channel is in the message. -/
theorem reported_iff (convert : α → β) (k : ValueOrRange.IntValue) (message : ChannelMessage α) :
    (if 0 ≤ k.1 then [(⟨k, (message.read k).map convert⟩ : ChannelReport β)] else []) =
        selectedReports convert (some k) message ↔ Selects (some k) message := by
  have hselects : Selects (some k) message ↔ k.1 < 0 ∨ k.1 < message.count := by simp [Selects]
  rw [selectedReports_some, hselects]
  by_cases hk : 0 ≤ k.1
  · by_cases hin : k.1 < message.count
    · simp [hk, hin]
    · rw [if_pos hk, if_neg fun h => hin h.2]
      simp [hin, hk]
  · simp [hk]
    omega

/-! ## The handlers -/

/-- What a handler can be after some messages. -/
def IsFor (sensor : Option ValueOrRange.IntValue) (handler : ChannelHandler) : Prop :=
  match sensor with
  | none => ∃ seen, 0 ≤ seen ∧ handler = ofAll seen
  | some k => k.1 + 1 < 2 ^ 31 ∧ handler = ofOne k

/-- A handler of these sensors takes a message as one of them, and reports what is selected
just when it can. -/
def Handles {ι β : Type}
    (handle : ChannelHandler → ι → Except RangeError (List (ChannelReport β) × ChannelHandler))
    (sensor : Option ValueOrRange.IntValue) (info : ι) (expected : List (ChannelReport β))
    (selects : Prop) : Prop :=
  ∀ handler, IsFor sensor handler → ∃ reports next, handle handler info = .ok (reports, next) ∧
    IsFor sensor next ∧ (reports = expected ↔ selects)

theorem isFor_new {sensor : Option ValueOrRange.IntValue} {handler : ChannelHandler}
    (h : new sensor = .ok handler) : IsFor sensor handler := by
  cases sensor with
  | none =>
      cases h
      exact ⟨0, le_refl 0, rfl⟩
  | some k =>
      rw [new_some] at h
      split at h
      next hfits =>
        cases h
        exact ⟨hfits, rfl⟩
      next => cases h

theorem handles_reportSensors (convert : α → β) (sensor : Option ValueOrRange.IntValue)
    (message : ChannelMessage α) :
    Handles (reportSensors convert) sensor message (selectedReports convert sensor message)
      (Selects sensor message) := by
  intro handler hfor
  cases sensor with
  | none =>
      have ⟨seen, hseen, heq⟩ := hfor
      rw [heq, reportSensors_ofAll]
      have hnext : IsFor none (ofAll (max seen message.count)) :=
        ⟨_, le_max_of_le_left hseen, rfl⟩
      exact ⟨_, _, rfl, hnext, iff_of_true rfl (selects_none message)⟩
  | some k =>
      have ⟨hfits, heq⟩ := hfor
      rw [heq, reportSensors_ofOne convert message k.2.1 hfits]
      exact ⟨_, _, rfl, ⟨hfits, rfl⟩, reported_iff convert k message⟩

end ChannelHandler

open ChannelHandler

/-- The analog handler has no other way out: a value is above the last channel only for a
message without channels. -/
theorem VRPNAnalogHandler.handles (sensor : Option ValueOrRange.IntValue)
    (info : ChannelMessage α) :
    Handles handle sensor info (selectedReports id sensor info) (Selects sensor info) := by
  intro handler hfor
  rw [handle]
  split
  next hout =>
    rw [Bool.and_eq_true, decide_eq_true_eq] at hout
    cases sensor with
    | none =>
        have ⟨seen, hseen, heq⟩ := hfor
        subst heq
        have hcount : info.channels.length = 0 := by
          have hless : info.count - 1 < 0 := hout.2
          rw [ChannelMessage.count] at hless
          omega
        have hnothing : selectedReports id none info = [] := by
          rw [selectedReports, selectedChannels_none, hcount]
          rfl
        exact ⟨[], _, rfl, ⟨seen, hseen, rfl⟩, iff_of_true hnothing.symm (selects_none info)⟩
    | some k =>
        have ⟨_, heq⟩ := hfor
        subst heq
        exact absurd hout.2 (lt_irrefl k.1)
  next => exact handles_reportSensors id sensor info handler hfor

namespace VRPNButtonHandler

/-- The button handler has one for a channel below zero only. -/
theorem handles_states (sensor : Option ValueOrRange.IntValue) (info : ChannelMessage ℤ) :
    Handles handleStates sensor info (selectedReports UInt8.ofInt sensor info)
      (Selects sensor info) := by
  intro handler hfor
  have hreports := handles_reportSensors UInt8.ofInt sensor info handler hfor
  cases sensor with
  | none =>
      have ⟨seen, _, heq⟩ := hfor
      subst heq
      exact hreports
  | some k =>
      have ⟨hfits, heq⟩ := hfor
      subst heq
      have hmax : (ofOne k).maxChannel info = k := rfl
      rw [handleStates, if_neg (by exact Bool.false_ne_true), hmax]
      simp only [bind, Except.bind, sensorsTo_ofOne k.2.1 hfits]
      by_cases hk : 0 ≤ k.1
      · rw [if_pos hk, if_neg (by rw [empty_ofOne]; exact Bool.false_ne_true)]
        exact hreports
      · have hreported := reported_iff UInt8.ofInt k info
        rw [if_neg hk] at hreported
        rw [if_neg hk]
        exact ⟨[], ofOne k, rfl, ⟨hfits, rfl⟩, hreported⟩

/-- The reports of a message of either kind. -/
def selected (sensor : Option ValueOrRange.IntValue) : ButtonInfo → List (ChannelReport UInt8)
  | .change button state =>
      if sensor.all fun k => k.1 == button then [⟨button, some (UInt8.ofInt state)⟩] else []
  | .states info => selectedReports UInt8.ofInt sensor info

/-- A message of one button needs a handler only. -/
def SelectsInfo (sensor : Option ValueOrRange.IntValue) : ButtonInfo → Prop
  | .change _ _ => ∀ k, sensor = some k → k.1 + 1 < 2 ^ 31
  | .states info => Selects sensor info

theorem handles (sensor : Option ValueOrRange.IntValue) (info : ButtonInfo) :
    Handles handle sensor info (selected sensor info) (SelectsInfo sensor info) := by
  cases info with
  | states info => exact handles_states sensor info
  | change button state =>
      intro handler hfor
      refine ⟨handleChange handler button state, handler, rfl, hfor, ?_⟩
      cases sensor with
      | none =>
          have ⟨seen, _, heq⟩ := hfor
          subst heq
          exact iff_of_true rfl fun _ h => absurd h (Option.some_ne_none _).symm
      | some k =>
          have ⟨hfits, heq⟩ := hfor
          subst heq
          apply iff_of_true
          · have hcontains : (ValueOrRange.mk k (k + 1)).contains button = (k.1 == button) := by
              apply Bool.eq_iff_iff.mpr
              rw [ValueOrRange.contains_iff, Set.mem_Ico, beq_iff_eq]
              simp only
              omega
            rw [handleChange, ofOne, hcontains]
            cases hmatch : k.1 == button <;> simp [selected, hmatch]
          · intro other hother
            cases hother
            exact hfits

end VRPNButtonHandler

/-! ## Any history -/

section Histories

variable {ι β : Type}
  {handle : ChannelHandler → ι → Except RangeError (List (ChannelReport β) × ChannelHandler)}
  {sensor : Option ValueOrRange.IntValue} {expected : ι → List (ChannelReport β)}
  {selects : ι → Prop}

theorem isFor_afterMessages
    (hhandles : ∀ info, Handles handle sensor info (expected info) (selects info))
    {first : ChannelHandler} (hfirst : new sensor = .ok first) (history : List ι) :
    ∃ handler, afterMessages handle sensor history = .ok handler ∧ IsFor sensor handler := by
  have hfor := isFor_new hfirst
  have hrun : afterMessages handle sensor history =
      history.foldlM (fun handler info => Prod.snd <$> handle handler info) first := by
    rw [afterMessages, hfirst]
    rfl
  rw [hrun]
  clear hfirst hrun
  induction history generalizing first with
  | nil => exact ⟨first, rfl, hfor⟩
  | cons info history ih =>
      have ⟨reports, next, hnext, hforNext, _⟩ := hhandles info first hfor
      have ⟨handler, hrun, hlast⟩ := ih hforNext
      refine ⟨handler, ?_, hlast⟩
      rw [List.foldlM_cons, hnext]
      exact hrun

/-- A history makes no difference to what a message needs. -/
theorem reportsAfter_iff
    (hhandles : ∀ info, Handles handle sensor info (expected info) (selects info))
    (hnew : ∀ error, new sensor = .error error → ∀ info, ¬selects info) (history : List ι)
    (info : ι) : reportsAfter handle sensor history info = .ok (expected info) ↔ selects info := by
  cases hfirst : new sensor with
  | error error =>
      rw [reportsAfter, afterMessages, hfirst]
      exact iff_of_false nofun (hnew error hfirst info)
  | ok first =>
      have ⟨handler, hrun, hfor⟩ := isFor_afterMessages hhandles hfirst history
      have ⟨reports, next, hnext, _, hreports⟩ := hhandles info handler hfor
      have hreportsAfter : reportsAfter handle sensor history info = .ok reports := by
        rw [reportsAfter, hrun]
        show Prod.fst <$> handle handler info = _
        rw [hnext]
        rfl
      rw [hreportsAfter, Except.ok.injEq]
      exact hreports

end Histories

theorem not_selects_of_error {sensor : Option ValueOrRange.IntValue} {error : RangeError}
    (h : new sensor = .error error) (message : ChannelMessage α) : ¬Selects sensor message := by
  cases sensor with
  | none => cases h
  | some k =>
      rw [new_some] at h
      split at h
      next => cases h
      next hfits =>
        intro hselects
        have hcounted := message.counted
        have := hselects k rfl
        rw [ChannelMessage.count] at this
        omega

/-- After any messages, a message is reported channel by channel as it should be, and from
channels that are in it, just when all of them are selected, or the one that is selected is in
the message or below zero. A message of a single button always is. -/
theorem channel_selection (α : Type) (sensor : Option ValueOrRange.IntValue) :
    (∀ (history : List (ChannelMessage α)) (info : ChannelMessage α),
      reportsAfter VRPNAnalogHandler.handle sensor history info =
          .ok (selectedReports id sensor info) ↔ Selects sensor info) ∧
    (∀ (history : List ButtonInfo) (info : ButtonInfo),
      reportsAfter VRPNButtonHandler.handle sensor history info =
          .ok (VRPNButtonHandler.selected sensor info) ↔
        VRPNButtonHandler.SelectsInfo sensor info) ∧
    ∀ (info : ChannelMessage α), ∀ report ∈ selectedReports id sensor info,
      ∃ i state, report = ⟨(i : ℕ), some state⟩ ∧ info.channels[i]? = some state := by
  refine ⟨?_, ?_, ?_⟩
  · intro history info
    exact reportsAfter_iff (fun info => VRPNAnalogHandler.handles sensor info)
      (fun _ herror info => not_selects_of_error herror info) history info
  · intro history info
    apply reportsAfter_iff (VRPNButtonHandler.handles sensor) _ history info
    intro error herror info
    cases info with
    | states info => exact not_selects_of_error herror info
    | change button state =>
        intro hselects
        cases sensor with
        | none => cases herror
        | some k =>
            rw [new_some, if_pos (hselects k rfl)] at herror
            cases herror
  · intro info report hmem
    have ⟨i, hi, hreport⟩ := List.mem_map.mp hmem
    have hlength := List.mem_range.mp (List.mem_filter.mp hi).1
    refine ⟨i, info.channels[i], ?_, List.getElem?_eq_getElem hlength⟩
    rw [← hreport, List.getElem?_eq_getElem hlength]
    rfl

def threeChannels : ChannelMessage ℤ := ⟨[7, 8, 9], by decide⟩

theorem afterMessages_five {ρ ι : Type}
    (handle : ChannelHandler → ι → Except RangeError (ρ × ChannelHandler)) :
    afterMessages handle (some ⟨5, ValueOrRange.Made.inInt32_five⟩) [] = .ok (ofOne 5) := by
  rw [afterMessages, new_some, if_pos (by decide)]
  rfl

/-- The sixth channel of a message of three is read outside of it. -/
theorem reports_sixthChannel :
    reportsAfter VRPNAnalogHandler.handle (some ⟨5, ValueOrRange.Made.inInt32_five⟩) []
        threeChannels = .ok [⟨5, none⟩] ∧
      reportsAfter VRPNButtonHandler.handle (some ⟨5, ValueOrRange.Made.inInt32_five⟩) []
        (.states threeChannels) = .ok [⟨5, none⟩] ∧
      selectedReports (id : ℤ → ℤ) (some ⟨5, ValueOrRange.Made.inInt32_five⟩)
        threeChannels = [] := by
  refine ⟨?_, ?_, by decide⟩
  · have hreports := reportSensors_ofOne (id : ℤ → ℤ) threeChannels (k := 5) (by decide) (by decide)
    rw [reportsAfter, afterMessages_five]
    simp only [bind, Except.bind]
    rw [VRPNAnalogHandler.handle, if_neg (by decide), hreports]
    decide
  · have hreports := reportSensors_ofOne UInt8.ofInt threeChannels (k := 5) (by decide) (by decide)
    have hsensors : (ofOne 5).sensorsTo 5 = .ok ⟨5, 6⟩ := sensorsTo_ofOne (by decide) (by decide)
    have hmax : (ofOne 5).maxChannel threeChannels = 5 := rfl
    rw [reportsAfter, afterMessages_five]
    simp only [bind, Except.bind]
    rw [VRPNButtonHandler.handle, VRPNButtonHandler.handleStates, if_neg (by decide), hmax,
      hsensors]
    simp only [bind, Except.bind]
    rw [if_neg (by decide), hreports]
    decide

end OSVR.Client
