/-
# Feeds

A source puts one value after another into a log that keeps the last few of them, and tells
a reader about each: with the place in the log, or with the value itself. When the reader
comes to a notice it looks up the value, if it is still there, and calls its handlers.
Whatever the order of these steps, the handlers get values of the log in the order of the
log, and a reader that always comes in time misses none.
-/

import OsvrCore.Math.Broadcast
import OsvrCore.Math.Transition

set_option autoImplicit false

namespace OSVR.Math

/-- The value at a place of a log, if it is one of the last. -/
def recent? {α : Type} (capacity : ℕ) (log : List α) (place : ℕ) : Option α :=
  if log.length ≤ place + capacity then log[place]? else none

/-- What a reader is told about the value at a place: only that it is there, or the value. -/
structure Notice (α : Type) where
  place : ℕ
  value : Option α

/-- The log of a source, what is on its way to a reader, and the calls of its handlers, each
with the notice that led to it. -/
structure Feed (κ α : Type) where
  log : List α
  link : Subscriber (Notice α)
  handlers : List κ
  calls : List (κ × Notice α × α)

inductive FeedAction (κ α : Type)
  | register (handler : κ)
  | send (value : α)
  | attach
  | detach
  | receive

namespace Feed

variable {κ α : Type}

def init : Feed κ α := ⟨[], .init, [], []⟩

/-- The notices of the next value. -/
def notices (carries : α → Bool) (feed : Feed κ α) (value : α) : List (Notice α) :=
  ⟨feed.log.length, none⟩ :: if carries value then [⟨feed.log.length, some value⟩] else []

/-- How many notices there have been. -/
def published (carries : α → Bool) (feed : Feed κ α) : ℕ :=
  feed.log.length + feed.log.countP carries

def send (carries : α → Bool) (feed : Feed κ α) (value : α) : Feed κ α :=
  { feed with log := feed.log ++ [value], link := feed.link.publish (feed.notices carries value) }

/-- The value that a notice leads to. -/
def lookup (capacity : ℕ) (feed : Feed κ α) (notice : Notice α) : Option α :=
  match notice.value with
  | none => recent? capacity feed.log notice.place
  | some value => some value

def callAll (feed : Feed κ α) (notice : Notice α) (value : Option α) : List (κ × Notice α × α) :=
  value.toList.flatMap fun value => feed.handlers.map fun handler => (handler, notice, value)

def receive (capacity : ℕ) (feed : Feed κ α) : Option (Feed κ α) := do
  let (notice, link) ← feed.link.take
  some { feed with
    link := link, calls := feed.calls ++ feed.callAll notice (feed.lookup capacity notice) }

end Feed

/-- A source and a reader, where some values are sent with their notices. -/
def feedSystem {κ α : Type} (capacity : ℕ) (carries : α → Bool) :
    TransitionSystem (Feed κ α) (FeedAction κ α) where
  init := .init
  step
    | .register handler, feed => some { feed with handlers := feed.handlers ++ [handler] }
    | .send value, feed => some (feed.send carries value)
    | .attach, feed => some { feed with link := feed.link.attach (feed.published carries) }
    | .detach, feed => some { feed with link := feed.link.detach }
    | .receive, feed => feed.receive capacity

namespace Feed

variable {κ α : Type} {capacity : ℕ} {carries : α → Bool} {feed before after : Feed κ α}
  {action : FeedAction κ α}

theorem place_of_mem_notices {value : α} {notice : Notice α}
    (h : notice ∈ feed.notices carries value) :
    notice.place = feed.log.length ∧ ∀ carried, notice.value = some carried → carried = value := by
  rw [notices] at h
  rcases List.mem_cons.mp h with rfl | h
  · exact ⟨rfl, fun _ hvalue => by cases hvalue⟩
  · split at h
    · rw [List.mem_singleton.mp h]
      exact ⟨rfl, fun _ hvalue => (Option.some.inj hvalue).symm⟩
    · cases h

theorem recent?_eq_some {log : List α} {place : ℕ} {value : α}
    (h : recent? capacity log place = some value) : log[place]? = some value := by
  rw [recent?] at h
  split at h
  · exact h
  · cases h

/-! ## Order -/

/-- The places that the reader has been called for or is going to hear of. -/
def places (feed : Feed κ α) : List ℕ :=
  feed.calls.map (fun call => call.2.1.place) ++ feed.link.pending.map Notice.place

/-- The calls and what is pending are in the order of the log, and right. -/
structure Ordered (feed : Feed κ α) : Prop where
  sorted : feed.places.Pairwise (· ≤ ·)
  bounded : ∀ place ∈ feed.places, place < feed.log.length
  carried : ∀ notice ∈ feed.link.pending, ∀ value, notice.value = some value →
    feed.log[notice.place]? = some value
  called : ∀ call ∈ feed.calls, feed.log[call.2.1.place]? = some call.2.2

theorem mem_pending_publish {messages : List (Notice α)} {link : Subscriber (Notice α)}
    {notice : Notice α} (h : notice ∈ (link.publish messages).pending) :
    notice ∈ link.pending ∨ notice ∈ messages := by
  rw [Subscriber.publish] at h
  split at h
  · exact List.mem_append.mp h
  · exact .inl h

/-- Notices that are lost take no order away. -/
theorem Ordered.forget (h : feed.Ordered) {link : Subscriber (Notice α)}
    (hlink : link.pending = []) : Ordered { feed with link := link } := by
  have hplaces : places { feed with link := link } = feed.calls.map fun call => call.2.1.place := by
    rw [places, hlink, List.map_nil, List.append_nil]
  have hsub : (places { feed with link := link }).Sublist feed.places := by
    rw [hplaces]
    exact List.sublist_append_left _ _
  constructor
  case sorted => exact h.sorted.sublist hsub
  case bounded => exact fun place hplace => h.bounded place (hsub.subset hplace)
  case carried =>
    intro notice hnotice
    rw [show Feed.link { feed with link := link } = link from rfl, hlink] at hnotice
    cases hnotice
  case called => exact h.called

theorem Ordered.send (h : feed.Ordered) (value : α) : (feed.send carries value).Ordered := by
  have hkept {place : ℕ} {old : α} (hold : feed.log[place]? = some old) :
      (feed.send carries value).log[place]? = some old := by
    have hlt := (List.getElem?_eq_some_iff.mp hold).1
    exact (List.getElem?_append_left hlt).trans hold
  have hplaces : (feed.send carries value).places.Sublist
      (feed.places ++ (feed.notices carries value).map Notice.place) := by
    show (feed.calls.map _ ++
        (feed.link.publish (feed.notices carries value)).pending.map _).Sublist _
    rw [places, Subscriber.publish, List.append_assoc]
    split
    · rw [List.map_append]
    · exact (List.sublist_append_left _ _).append_left _
  have hnew {place : ℕ} (hmem : place ∈ (feed.notices carries value).map Notice.place) :
      place = feed.log.length := by
    obtain ⟨notice, hnotice, rfl⟩ := List.mem_map.mp hmem
    exact (place_of_mem_notices hnotice).1
  constructor
  case sorted =>
    apply List.Pairwise.sublist hplaces
    refine List.pairwise_append.mpr ⟨h.sorted, ?_, fun old hold new hmem => ?_⟩
    · refine List.pairwise_of_forall_mem_list fun first hfirst second hsecond => ?_
      exact Nat.le_of_eq ((hnew hfirst).trans (hnew hsecond).symm)
    · rw [hnew hmem]
      exact Nat.le_of_lt (h.bounded old hold)
  case bounded =>
    intro place hmem
    show place < (feed.log ++ [value]).length
    rw [List.length_append]
    rcases List.mem_append.mp (hplaces.subset hmem) with hold | hmem
    · exact Nat.lt_succ_of_lt (h.bounded place hold)
    · rw [hnew hmem]
      exact Nat.lt_succ_self _
  case carried =>
    intro notice hnotice carriedValue hvalue
    rcases mem_pending_publish hnotice with hold | hnotice
    · exact hkept (h.carried notice hold carriedValue hvalue)
    · obtain ⟨hplace, hcarried⟩ := place_of_mem_notices hnotice
      rw [hplace, hcarried carriedValue hvalue]
      exact List.getElem?_concat_length
  case called => exact fun call hcall => hkept (h.called call hcall)

theorem Ordered.receive (h : feed.Ordered) (hreceive : feed.receive capacity = some after) :
    after.Ordered := by
  obtain ⟨⟨notice, link⟩, htake, hafter⟩ := Option.bind_eq_some_iff.mp hreceive
  obtain rfl := Option.some.inj hafter
  have hpending := (Subscriber.pending_of_take htake).1
  have hcalls : ∀ call ∈ feed.callAll notice (feed.lookup capacity notice), call.2.1 = notice ∧
      feed.log[notice.place]? = some call.2.2 := by
    intro call hcall
    rw [callAll, List.mem_flatMap] at hcall
    obtain ⟨value, hvalue, hcall⟩ := hcall
    obtain ⟨handler, -, rfl⟩ := List.mem_map.mp hcall
    refine ⟨rfl, ?_⟩
    have hlookup := Option.mem_toList.mp hvalue
    rw [lookup] at hlookup
    split at hlookup
    · exact recent?_eq_some hlookup
    next carriedValue hcarried =>
      obtain rfl := Option.some.inj hlookup
      exact h.carried notice (by rw [hpending]; exact List.mem_cons_self) carriedValue hcarried
  have hnew {place : ℕ} (hmem : place ∈ (feed.callAll notice (feed.lookup capacity notice)).map
      fun call => call.2.1.place) : place = notice.place := by
    obtain ⟨call, hcall, rfl⟩ := List.mem_map.mp hmem
    rw [(hcalls call hcall).1]
  have hsorted := h.sorted
  have hbounded := h.bounded
  rw [places, hpending, List.map_cons] at hsorted hbounded
  obtain ⟨hold, hpend, hacross⟩ := List.pairwise_append.mp hsorted
  constructor
  case sorted =>
    show (List.map _ (_ ++ _) ++ link.pending.map _).Pairwise _
    rw [List.map_append, List.append_assoc]
    refine List.pairwise_append.mpr ⟨hold, ?_, fun first hfirst second hsecond => ?_⟩
    · refine List.pairwise_append.mpr ⟨?_, hpend.of_cons, fun first hfirst second hsecond => ?_⟩
      · refine List.pairwise_of_forall_mem_list fun first hfirst second hsecond => ?_
        exact Nat.le_of_eq ((hnew hfirst).trans (hnew hsecond).symm)
      · rw [hnew hfirst]
        exact List.rel_of_pairwise_cons hpend hsecond
    · rcases List.mem_append.mp hsecond with hsecond | hsecond
      · rw [hnew hsecond]
        exact hacross first hfirst _ List.mem_cons_self
      · exact hacross first hfirst _ (List.mem_cons_of_mem _ hsecond)
  case bounded =>
    intro place hmem
    have hmem : place ∈ List.map (fun call => call.2.1.place)
        (feed.calls ++ feed.callAll notice (feed.lookup capacity notice)) ++
          link.pending.map Notice.place := hmem
    rw [List.map_append, List.append_assoc] at hmem
    apply hbounded
    rcases List.mem_append.mp hmem with hmem | hmem
    · exact List.mem_append_left _ hmem
    · apply List.mem_append_right
      rcases List.mem_append.mp hmem with hmem | hmem
      · rw [hnew hmem]
        exact List.mem_cons_self
      · exact List.mem_cons_of_mem _ hmem
  case carried =>
    intro other hother
    apply h.carried
    rw [hpending]
    exact List.mem_cons_of_mem _ hother
  case called =>
    intro call hcall
    rcases List.mem_append.mp hcall with hcall | hcall
    · exact h.called call hcall
    · rw [(hcalls call hcall).1]
      exact (hcalls call hcall).2

theorem Ordered.step (h : before.Ordered)
    (hstep : (feedSystem capacity carries).step action before = some after) : after.Ordered := by
  cases action with
  | register handler =>
      obtain rfl := Option.some.inj hstep
      exact ⟨h.sorted, h.bounded, h.carried, h.called⟩
  | send value =>
      obtain rfl := Option.some.inj hstep
      exact h.send value
  | attach =>
      obtain rfl := Option.some.inj hstep
      exact h.forget rfl
  | detach =>
      obtain rfl := Option.some.inj hstep
      exact h.forget rfl
  | receive => exact h.receive hstep

theorem ordered_of_reachable
    (hreach : (feedSystem capacity carries).Reachable feed) : feed.Ordered := by
  have hinvariant : (feedSystem (κ := κ) capacity carries).Invariant (fun _ _ => True) Ordered := by
    refine ⟨⟨List.Pairwise.nil, ?_, ?_, ?_⟩, fun hbefore _ hstep => hbefore.step hstep⟩
    · exact fun _ hmem => by cases hmem
    · exact fun _ hmem => by cases hmem
    · exact fun _ hmem => by cases hmem
  exact hinvariant.reachable hreach

/-! ## A reader in time -/

section Complete

variable [DecidableEq κ] {handler : κ}

/-- The reader is attached and has its handlers before the first value, stays attached, and
comes to the announcement of a value while that is among the last. -/
def Prompt (capacity : ℕ) (feed : Feed κ α) : FeedAction κ α → Prop
  | .register _ | .attach => feed.log = []
  | .detach => False
  | .send _ => True
  | .receive => ∀ notice ∈ feed.link.pending.head?, notice.value = none →
      feed.log.length ≤ notice.place + capacity

/-- The calls of a handler for values that were looked up. -/
def lookedUp (handler : κ) (feed : Feed κ α) : List (κ × Notice α × α) :=
  feed.calls.filter fun call => call.1 = handler ∧ call.2.1.value.isNone

/-- The places that are still to be looked up. -/
def announced (feed : Feed κ α) : List ℕ :=
  (feed.link.pending.filter fun notice => notice.value.isNone).map Notice.place

/-- Each place has been looked up, or is still to be. -/
def Complete (handler : κ) (feed : Feed κ α) : Prop :=
  feed.link.attached = true → feed.handlers.count handler = 1 →
    (feed.lookedUp handler).map (fun call => call.2.1.place) ++ feed.announced =
      List.range feed.log.length

omit [DecidableEq κ] in
theorem announced_notices (value : α) :
    (feed.notices carries value).filter (fun notice => notice.value.isNone) =
      [⟨feed.log.length, none⟩] := by
  rw [notices]
  split <;> rfl

/-- Before the first value there have been no calls, and nothing is pending. -/
theorem Ordered.complete_of_log_eq_nil (h : feed.Ordered) (hlog : feed.log = []) :
    feed.Complete handler := by
  intro _ _
  have hplaces : feed.places = [] := by
    rw [List.eq_nil_iff_forall_not_mem]
    intro place hmem
    have hlt := h.bounded place hmem
    rw [hlog] at hlt
    exact absurd hlt (Nat.not_lt_zero _)
  obtain ⟨hcalls, hpending⟩ := List.append_eq_nil_iff.mp hplaces
  rw [lookedUp, announced, List.map_eq_nil_iff.mp hcalls, List.map_eq_nil_iff.mp hpending, hlog]
  rfl

theorem lookedUp_callAll (notice : Notice α) (value : α) :
    (feed.callAll notice (some value)).filter (fun call =>
      call.1 = handler ∧ call.2.1.value.isNone) =
        if notice.value.isNone then List.replicate (feed.handlers.count handler)
          (handler, notice, value) else [] := by
  rw [callAll, Option.toList_some, List.flatMap_singleton, List.filter_map]
  obtain ⟨place, _ | carried⟩ := notice
  · have hcongr : (feed.handlers.filter ((fun call : κ × Notice α × α =>
        decide (call.1 = handler ∧ call.2.1.value.isNone)) ∘
          fun handler => (handler, ⟨place, none⟩, value))) =
            feed.handlers.filter (· == handler) := by
      apply List.filter_congr
      intro other _
      rw [Bool.eq_iff_iff]
      simp
    rw [hcongr, List.filter_beq, List.map_replicate]
    rfl
  · rw [List.map_eq_nil_iff.mpr]
    · rfl
    · rw [List.filter_eq_nil_iff]
      intro other _
      simp

theorem Complete.send (h : feed.Complete handler) (value : α) :
    (feed.send carries value).Complete handler := by
  intro hattached hcount
  have hold : feed.link.attached = true := by
    show feed.link.attached = true
    have hpublished : (feed.link.publish (feed.notices carries value)).attached = true := hattached
    rw [Subscriber.publish] at hpublished
    split at hpublished
    · exact hpublished
    · exact hpublished
  have hpending : (feed.send carries value).link.pending =
      feed.link.pending ++ feed.notices carries value := by
    show (feed.link.publish _).pending = _
    rw [Subscriber.publish, if_pos hold]
  have hannounced : (feed.send carries value).announced = feed.announced ++ [feed.log.length] := by
    rw [announced, hpending, List.filter_append, List.map_append, announced_notices]
    rfl
  show (feed.lookedUp handler).map _ ++ _ = List.range (feed.log ++ [value]).length
  rw [hannounced, ← List.append_assoc, h hold hcount, List.length_append, List.length_singleton,
    List.range_succ]

theorem Complete.receive (hordered : feed.Ordered) (h : feed.Complete handler)
    (hprompt : Prompt capacity feed .receive) (hreceive : feed.receive capacity = some after) :
    after.Complete handler := by
  obtain ⟨⟨notice, link⟩, htake, hafter⟩ := Option.bind_eq_some_iff.mp hreceive
  obtain rfl := Option.some.inj hafter
  obtain ⟨hpending, hattached⟩ := Subscriber.pending_of_take htake
  intro hafterAttached hcount
  have hold := h (hattached ▸ hafterAttached) hcount
  have hhead : notice ∈ feed.link.pending.head? := by
    rw [hpending]
    exact rfl
  have hlt : notice.place < feed.log.length := by
    apply hordered.bounded
    rw [places, hpending]
    exact List.mem_append_right _ List.mem_cons_self
  have hcount : feed.handlers.count handler = 1 := hcount
  rw [announced, hpending, List.filter_cons] at hold
  show List.map _ (List.filter _ (_ ++ _)) ++ (link.pending.filter _).map _ = _
  cases hvalue : notice.value with
  | none =>
      have hlookup : feed.lookup capacity notice = some feed.log[notice.place] := by
        rw [lookup, hvalue]
        show recent? _ _ _ = _
        rw [recent?, if_pos (hprompt notice hhead hvalue), List.getElem?_eq_getElem hlt]
      rw [List.filter_append, hlookup, lookedUp_callAll, hvalue, hcount, List.map_append,
        List.append_assoc]
      rw [hvalue] at hold
      exact hold
  | some value =>
      have hlookup : feed.lookup capacity notice = some value := by
        rw [lookup, hvalue]
      rw [List.filter_append, hlookup, lookedUp_callAll, hvalue, List.map_append, List.append_assoc]
      rw [hvalue] at hold
      exact hold

/-- In a run in which the reader is always in time, when nothing is on its way any more,
each of its handlers has been called for all values of the log, in their order. -/
theorem lookedUp_of_prompt
    (hreach : (feedSystem capacity carries).ReachableWhile (Prompt capacity) feed)
    (hattached : feed.link.attached = true) (hcount : feed.handlers.count handler = 1)
    (hpending : feed.link.pending = []) :
    (feed.lookedUp handler).map (fun call => call.2.2) = feed.log := by
  have hinvariant : (feedSystem capacity carries).Invariant (Prompt capacity)
      fun feed => feed.Ordered ∧ feed.Complete handler := by
    have hinit : (feedSystem (κ := κ) capacity carries).init.Ordered :=
      @ordered_of_reachable _ _ capacity carries _ .init
    refine ⟨⟨hinit, hinit.complete_of_log_eq_nil rfl⟩, fun {before after action} hbefore hprompt
      hstep => ⟨hbefore.1.step hstep, ?_⟩⟩
    have hordered := hbefore.1.step hstep
    cases action with
    | register other =>
        obtain rfl := Option.some.inj hstep
        exact hordered.complete_of_log_eq_nil hprompt
    | attach =>
        obtain rfl := Option.some.inj hstep
        exact hordered.complete_of_log_eq_nil hprompt
    | send value =>
        obtain rfl := Option.some.inj hstep
        exact hbefore.2.send value
    | detach => exact hprompt.elim
    | receive => exact hbefore.2.receive hbefore.1 hprompt hstep
  obtain ⟨hordered, hcomplete⟩ := hinvariant.reachable hreach
  have hplaces := hcomplete hattached hcount
  rw [announced, hpending, List.filter_nil, List.map_nil, List.append_nil] at hplaces
  have hlength := congrArg List.length hplaces
  rw [List.length_map, List.length_range] at hlength
  apply List.ext_getElem
  · rw [List.length_map, hlength]
  intro place hplace hlog
  have hcall := List.getElem_mem (by rwa [List.length_map] at hplace :
    place < (feed.lookedUp handler).length)
  have hsame : (feed.lookedUp handler)[place].2.1.place = place := by
    have hget := List.getElem_of_eq hplaces (by rwa [List.length_map, hlength])
    rwa [List.getElem_map, List.getElem_range] at hget
  have hvalue := hordered.called _ (List.mem_of_mem_filter hcall)
  rw [hsame, List.getElem?_eq_getElem hlog] at hvalue
  rw [List.getElem_map]
  exact (Option.some.inj hvalue).symm

end Complete

end Feed
end OSVR.Math
