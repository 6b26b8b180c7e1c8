/-
# The route table

Directives are kept as text and are found by the destination that each of them names
when it is parsed anew. So the container is compared with a table that has the
destinations beside the texts: one that replaces or appends, in the order of first use.
The text of a directive is what was added, and the text of one that came in an array
is what the writer makes of it; for the latter the reader has to take it for what it is.
-/

import OsvrCore.Common.AliasProcessor
import OsvrCore.Math.KeyedTable

set_option autoImplicit false

namespace OSVR.Common

open Math

/-- `RouteContainer`, by `m_routingDirectives`. -/
abbrev RouteContainer := List Str

/-- What the functions of the container throw. -/
inductive RoutingError
  | runtimeError (what : Str)
  | json (error : JsonError)
  deriving DecidableEq, Repr

/-- `Json::Value::get`. -/
def Json.get (value : Json) (name : Str) (defaultValue : Json) : Except JsonError Json :=
  (value.member? name).map (Option.getD · defaultValue)

namespace RouteContainer

variable (codec : JsonCodec)

def parseRoutingDirective (routingDirective : Str) : Except RoutingError Json :=
  match codec.parse routingDirective with
  | some val => .ok val
  | none => .error (.runtimeError ("Invalid JSON routing directive: ".toList ++ routingDirective))

def getDestinationFromJson (routingDirective : Json) : Except RoutingError Str :=
  (do (← routingDirective.get DESTINATION_KEY (.str [])).asString codec).mapError .json

def toFastString (val : Json) : Str := codec.write val

def getDestinationFromString (route : Str) : Except RoutingError Str := do
  getDestinationFromJson codec (← parseRoutingDirective codec route)

/-- `std::replace_if`, with whether anything was replaced. The elements up to one for which
the predicate throws have been dealt with. -/
def replaceIf (pred : Str → Except RoutingError Bool) (new : Str) :
    RouteContainer → Except RoutingError Bool × RouteContainer
  | [] => (.ok false, [])
  | directive :: rest =>
      match pred directive with
      | .error error => (.error error, directive :: rest)
      | .ok matched =>
          let (replaced, after) := replaceIf pred new rest
          (replaced.map (matched || ·), (if matched then new else directive) :: after)

/-- The private `m_addRoute`. -/
def addRouteFor (routes : RouteContainer) (destination routingDirective : Str) :
    Except RoutingError Bool × RouteContainer :=
  let (result, after) := replaceIf
    (fun directive => (getDestinationFromString codec directive).map (· == destination))
    routingDirective routes
  match result with
  | .error error => (.error error, after)
  | .ok replaced => (.ok !replaced, if replaced then after else after ++ [routingDirective])

def addRoute (routes : RouteContainer) (routingDirective : Str) :
    Except RoutingError Bool × RouteContainer :=
  match getDestinationFromString codec routingDirective with
  | .error error => (.error error, routes)
  | .ok destination => addRouteFor codec routes destination routingDirective

/-- The loop of the constructor. -/
def addRoutes : List Json → RouteContainer → Except RoutingError RouteContainer
  | [], routes => .ok routes
  | thisRoute :: rest, routes => do
      let destination ← getDestinationFromJson codec thisRoute
      match addRouteFor codec routes destination (toFastString codec thisRoute) with
      | (.error error, _) => .error error
      | (.ok _, after) => addRoutes rest after

/-- The elements that the loop comes to. Values that are no array have no size, but for
objects, which have no elements at an index. -/
def routeElements : Json → Except RoutingError (List Json)
  | .arr items => .ok items
  | .obj (_ :: _) => .error (.json (.wrongType .index))
  | .obj [] | .null | .bool _ | .int _ | .real _ | .str _ => .ok []

/-- The constructor from a JSON array. -/
def ofRoutes (routes : Str) : Except RoutingError RouteContainer :=
  match codec.parse routes with
  | none => .error (.runtimeError ("Invalid JSON routing directive array: ".toList ++ routes))
  | some routesVal => do addRoutes codec (← routeElements routesVal) []

def getRoutes (routes : RouteContainer) (styled : Bool) : Except RoutingError Str := do
  let directives ← routes.mapM (parseRoutingDirective codec)
  return if styled then codec.toStyledString (.arr directives)
    else toFastString codec (.arr directives)

/-- `std::find_if`; an empty string when nothing is found. -/
def getRouteForDestination (destination : Str) : RouteContainer → Except RoutingError Str
  | [] => .ok []
  | directive :: rest => do
      if (← getDestinationFromString codec directive) = destination then return directive
      else getRouteForDestination destination rest

/-! ## Histories -/

/-- What happens to the container of a program: it is assigned a new one, or gets a route. -/
inductive Operation
  | empty
  | ofRoutes (routes : Str)
  | addRoute (routingDirective : Str)

/-- A constructor that throws leaves the container that is there. -/
def apply (routes : RouteContainer) : Operation → RouteContainer
  | .empty => []
  | .ofRoutes array => (ofRoutes codec array).toOption.getD routes
  | .addRoute routingDirective => (addRoute codec routes routingDirective).2

def run (operations : List Operation) : RouteContainer := operations.foldl (apply codec) []

/-- A route of an array, by its destination, as it is written. -/
def directiveOf (route : Json) : Except RoutingError (Str × Str) := do
  return (← getDestinationFromJson codec route, toFastString codec route)

/-- The directives of an array; without them there is no container. -/
def directivesOf (array : Str) : Except RoutingError (List (Str × Str)) :=
  match codec.parse array with
  | none => .error (.runtimeError ("Invalid JSON routing directive array: ".toList ++ array))
  | some routesVal => do (← routeElements routesVal).mapM (directiveOf codec)

/-- The directives added after one more operation, since the container was constructed. -/
def addedBy (added : List (Str × Str)) : Operation → List (Str × Str)
  | .empty => []
  | .ofRoutes array => (directivesOf codec array).toOption.getD added
  | .addRoute routingDirective =>
      match getDestinationFromString codec routingDirective with
      | .ok destination => added ++ [(destination, routingDirective)]
      | .error _ => added

def added (operations : List Operation) : List (Str × Str) := operations.foldl (addedBy codec) []

end RouteContainer

/-! ## Reading what was written -/

/-- What is read of the text of a real number, which has a limited number of digits. -/
def JsonCodec.reread (codec : JsonCodec) (q : Rat) : Json :=
  (codec.parse (codec.realText q)).getD .null

mutual

/-- A value with its real numbers as they are read again. -/
def Json.reread (codec : JsonCodec) : Json → Json
  | .real q => codec.reread q
  | .arr items => .arr (rereadItems codec items)
  | .obj members => .obj (rereadMembers codec members)
  | .null => .null
  | .bool b => .bool b
  | .int n => .int n
  | .str s => .str s

def Json.rereadItems (codec : JsonCodec) : List Json → List Json
  | [] => []
  | item :: items => reread codec item :: rereadItems codec items

def Json.rereadMembers (codec : JsonCodec) : JsonMembers → JsonMembers
  | [] => []
  | (name, value) :: members => (name, reread codec value) :: rereadMembers codec members

end

def Json.isNumeric : Json → Bool
  | .int _ | .real _ => true
  | .null | .bool _ | .str _ | .arr _ | .obj _ => false

/-- The text of a real number is that of a number with this text. -/
def JsonCodec.KeepsNumber (codec : JsonCodec) (q : Rat) : Prop :=
  (codec.reread q).isNumeric = true ∧ (codec.reread q).asString codec = .ok (codec.realText q)

mutual

/-- Every real number in a value keeps its text. -/
def Json.KeepsNumbers (codec : JsonCodec) : Json → Prop
  | .real q => codec.KeepsNumber q
  | .arr items => itemsKeepNumbers codec items
  | .obj members => membersKeepNumbers codec members
  | .null | .bool _ | .int _ | .str _ => True

def Json.itemsKeepNumbers (codec : JsonCodec) : List Json → Prop
  | [] => True
  | item :: items => KeepsNumbers codec item ∧ itemsKeepNumbers codec items

def Json.membersKeepNumbers (codec : JsonCodec) : JsonMembers → Prop
  | [] => True
  | (_, value) :: members => KeepsNumbers codec value ∧ membersKeepNumbers codec members

end

/-- The reader takes what was written of a value for the value, with numbers of the same
texts. -/
structure JsonCodec.ReadsWritten (codec : JsonCodec) (value : Json) : Prop where
  parse_write : codec.parse (codec.write value) = some (value.reread codec)
  keepsNumbers : value.KeepsNumbers codec

/-- The same for the elements of an array that has been read. -/
def JsonCodec.ReadsElements (codec : JsonCodec) (array : Str) : Prop :=
  ∀ items, codec.parse array = some (.arr items) → ∀ item ∈ items, codec.ReadsWritten item

namespace RouteContainer

variable {codec : JsonCodec}

theorem rereadItems_eq_map (items : List Json) :
    Json.rereadItems codec items = items.map (Json.reread codec) := by
  induction items with
  | nil => rfl
  | cons item items ih => rw [Json.rereadItems, ih, List.map_cons]

theorem lookup_rereadMembers (members : JsonMembers) (name : Str) :
    (Json.rereadMembers codec members).lookup name =
      (members.lookup name).map (Json.reread codec) := by
  induction members with
  | nil => rfl
  | cons member members ih =>
      obtain ⟨other, value⟩ := member
      rw [Json.rereadMembers, Json.lookup_cons, Json.lookup_cons, ih]
      split <;> rfl

theorem keepsNumbers_of_mem {items : List Json} (h : Json.itemsKeepNumbers codec items) :
    ∀ item ∈ items, item.KeepsNumbers codec := by
  induction items with
  | nil => simp
  | cons item items ih => exact List.forall_mem_cons.mpr ⟨h.1, ih h.2⟩

theorem keepsNumbers_of_lookup {members : JsonMembers} {name : Str} {value : Json}
    (h : Json.membersKeepNumbers codec members) (hlookup : members.lookup name = some value) :
    value.KeepsNumbers codec := by
  induction members with
  | nil => cases hlookup
  | cons member members ih =>
      rw [Json.lookup_cons] at hlookup
      split at hlookup
      · exact Option.some.inj hlookup ▸ h.1
      · exact ih h.2 hlookup

theorem asString_reread {value : Json} (hnumbers : value.KeepsNumbers codec) :
    (value.reread codec).asString codec = value.asString codec := by
  cases value with
  | real q => exact hnumbers.2
  | null | bool _ | int _ | str _ | arr _ | obj _ => rfl

/-- A directive keeps its destination. -/
theorem getDestinationFromJson_reread {value : Json} (hnumbers : value.KeepsNumbers codec) :
    getDestinationFromJson codec (value.reread codec) = getDestinationFromJson codec value := by
  cases value with
  | real q =>
      have hnumeric : (codec.reread q).isNumeric = true := hnumbers.1
      have hmember : (codec.reread q).member? DESTINATION_KEY = .error (.wrongType .isMember) := by
        cases hreread : codec.reread q with
        | int _ | real _ => rfl
        | null | bool _ | str _ | arr _ | obj _ =>
            rw [hreread] at hnumeric
            cases hnumeric
      rw [getDestinationFromJson, Json.reread, Json.get, hmember]
      rfl
  | obj members =>
      simp only [getDestinationFromJson, Json.get, Json.reread, Json.member?, lookup_rereadMembers]
      cases hdestination : members.lookup DESTINATION_KEY with
      | none => rfl
      | some destination =>
          show ((destination.reread codec).asString codec).mapError _ =
            (destination.asString codec).mapError _
          rw [asString_reread (keepsNumbers_of_lookup hnumbers hdestination)]
  | null | bool _ | int _ | str _ | arr _ => rfl

theorem getDestinationFromString_eq {route : Str} {value : Json}
    (hparse : codec.parse route = some value) :
    getDestinationFromString codec route = getDestinationFromJson codec value := by
  rw [getDestinationFromString, parseRoutingDirective, hparse]
  rfl

/-- The text of a route of an array has the destination of the route. -/
theorem getDestinationFromString_write {route : Json} {destination : Str}
    (hreads : codec.ReadsWritten route)
    (hdestination : getDestinationFromJson codec route = .ok destination) :
    getDestinationFromString codec (toFastString codec route) = .ok destination := by
  rw [toFastString, getDestinationFromString_eq hreads.parse_write,
    getDestinationFromJson_reread hreads.keepsNumbers, hdestination]

/-! ## The container and the table -/

theorem mapM_eq_ok_map {α β ε : Type} {f : α → Except ε β} {g : α → β} {items : List α}
    (h : ∀ item ∈ items, f item = .ok (g item)) : items.mapM f = .ok (items.map g) := by
  induction items with
  | nil => rfl
  | cons item items ih =>
      have ⟨hitem, hrest⟩ := List.forall_mem_cons.mp h
      rw [List.mapM_cons, hitem, ih hrest]
      rfl

variable (codec) in
/-- The container has the texts of a table whose keys are their destinations. -/
structure Shows (routes : RouteContainer) (table : List (Str × Str)) : Prop where
  texts : routes = table.map Prod.snd
  destinations : ∀ entry ∈ table, getDestinationFromString codec entry.2 = .ok entry.1

variable {routes : RouteContainer} {table : List (Str × Str)} {destination routingDirective : Str}

namespace Shows

theorem empty : Shows codec [] [] := ⟨rfl, fun _ hmem => absurd hmem List.not_mem_nil⟩

theorem putEntry (h : Shows codec routes table)
    (hdestination : getDestinationFromString codec routingDirective = .ok destination) :
    Shows codec ((Math.putEntry table (destination, routingDirective)).map Prod.snd)
      (Math.putEntry table (destination, routingDirective)) where
  texts := rfl
  destinations := by
    intro entry hmem
    unfold Math.putEntry at hmem
    split at hmem
    next =>
      have ⟨old, hold, hentry⟩ := List.mem_map.mp hmem
      rw [← hentry]
      split
      · exact hdestination
      · exact h.destinations old hold
    next =>
      rcases List.mem_append.mp hmem with hold | hnew
      · exact h.destinations entry hold
      · rw [List.mem_singleton.mp hnew]
        exact hdestination

/-- Of a container that shows a table, the loop replaces what the table replaces. -/
theorem replaceIf_eq (h : Shows codec routes table) (destination new : Str) :
    replaceIf (fun directive => (getDestinationFromString codec directive).map (· == destination))
        new routes =
      (.ok (decide (destination ∈ table.map Prod.fst)),
        (table.map fun old =>
          if old.1 = destination then (destination, new) else old).map Prod.snd) := by
  obtain ⟨rfl, hdestinations⟩ := h
  induction table with
  | nil => rfl
  | cons entry table ih =>
      have ⟨hentry, hrest⟩ := List.forall_mem_cons.mp hdestinations
      have hpred : (getDestinationFromString codec entry.2).map (· == destination) =
          .ok (entry.1 == destination) := by
        rw [hentry]
        rfl
      rw [List.map_cons, replaceIf, hpred, ih hrest]
      by_cases hmatch : entry.1 = destination
      · simp [hmatch, Except.map]
      · have hbeq : (entry.1 == destination) = false := by simpa using hmatch
        simp [hmatch, hbeq, Ne.symm hmatch, Except.map]

theorem addRouteFor_eq (h : Shows codec routes table) (destination routingDirective : Str) :
    addRouteFor codec routes destination routingDirective =
      (.ok (decide (destination ∉ table.map Prod.fst)),
        (Math.putEntry table (destination, routingDirective)).map Prod.snd) := by
  rw [addRouteFor, h.replaceIf_eq, Math.putEntry]
  by_cases hmem : destination ∈ table.map Prod.fst
  · simp [hmem]
  · have hothers : table.map (fun old => if old.1 = destination then (destination, routingDirective)
        else old) = table := by
      refine (List.map_congr_left fun old hold => ?_).trans (List.map_id table)
      exact if_neg fun heq => hmem (List.mem_map.mpr ⟨old, hold, heq⟩)
    simp only [hmem, hothers]
    simp

theorem addRoute_eq (h : Shows codec routes table)
    (hdestination : getDestinationFromString codec routingDirective = .ok destination) :
    addRoute codec routes routingDirective =
      (.ok (decide (destination ∉ table.map Prod.fst)),
        (Math.putEntry table (destination, routingDirective)).map Prod.snd) := by
  rw [addRoute, hdestination]
  exact h.addRouteFor_eq destination routingDirective

theorem getRouteForDestination_eq (h : Shows codec routes table) (destination : Str) :
    getRouteForDestination codec destination routes = .ok ((table.lookup destination).getD []) := by
  obtain ⟨rfl, hdestinations⟩ := h
  induction table with
  | nil => rfl
  | cons entry table ih =>
      have ⟨hentry, hrest⟩ := List.forall_mem_cons.mp hdestinations
      rw [List.map_cons, getRouteForDestination, hentry, lookup_cons_entry]
      simp only [bind, Except.bind]
      by_cases hmatch : entry.1 = destination
      · rw [if_pos hmatch, if_pos hmatch]
        rfl
      · rw [if_neg hmatch, if_neg hmatch]
        exact ih hrest

theorem getDestinations_eq (h : Shows codec routes table) :
    routes.mapM (getDestinationFromString codec) = .ok (table.map Prod.fst) := by
  rw [h.texts, List.mapM_map]
  exact mapM_eq_ok_map h.destinations

theorem putAll (h : Shows codec routes table) {entries : List (Str × Str)}
    (hentries : ∀ entry ∈ entries, getDestinationFromString codec entry.2 = .ok entry.1) :
    Shows codec ((Math.putAll table entries).map Prod.snd) (Math.putAll table entries) := by
  induction entries generalizing routes table with
  | nil => exact ⟨rfl, h.destinations⟩
  | cons entry entries ih =>
      have ⟨hentry, hrest⟩ := List.forall_mem_cons.mp hentries
      exact ih (h.putEntry hentry) hrest

theorem addRoutes_eq (h : Shows codec routes table) {items : List Json}
    (hreads : ∀ item ∈ items, codec.ReadsWritten item) :
    addRoutes codec items routes =
      (items.mapM (directiveOf codec)).map fun entries =>
        (Math.putAll table entries).map Prod.snd := by
  induction items generalizing routes table with
  | nil => exact congrArg Except.ok h.texts
  | cons item items ih =>
      have ⟨hitem, hrest⟩ := List.forall_mem_cons.mp hreads
      rw [addRoutes, List.mapM_cons, directiveOf]
      cases hdestination : getDestinationFromJson codec item with
      | error error => rfl
      | ok destination =>
          have hnext := h.putEntry (getDestinationFromString_write hitem hdestination)
          simp only [bind, Except.bind, h.addRouteFor_eq, ih hnext hrest]
          cases items.mapM (directiveOf codec) <;> rfl

end Shows

/-! ## Constructions -/

theorem destinations_of_directives {items : List Json} {entries : List (Str × Str)}
    (hreads : ∀ item ∈ items, codec.ReadsWritten item)
    (hentries : items.mapM (directiveOf codec) = .ok entries) :
    ∀ entry ∈ entries, getDestinationFromString codec entry.2 = .ok entry.1 := by
  induction items generalizing entries with
  | nil =>
      cases hentries
      simp
  | cons item items ih =>
      have ⟨hitem, hrest⟩ := List.forall_mem_cons.mp hreads
      rw [List.mapM_cons, directiveOf] at hentries
      cases hdestination : getDestinationFromJson codec item with
      | error error =>
          rw [hdestination] at hentries
          cases hentries
      | ok destination =>
          cases hothers : items.mapM (directiveOf codec) with
          | error error =>
              rw [hdestination, hothers] at hentries
              cases hentries
          | ok others =>
              rw [hdestination, hothers] at hentries
              cases hentries
              have hwritten := getDestinationFromString_write hitem hdestination
              exact List.forall_mem_cons.mpr ⟨hwritten, ih hrest hothers⟩

/-- What the loop of the constructor comes to has been read from the array. -/
theorem readsWritten_of_elements {array : Str} {routesVal : Json} {items : List Json}
    (hreads : codec.ReadsElements array) (hparse : codec.parse array = some routesVal)
    (hitems : routeElements routesVal = .ok items) : ∀ item ∈ items, codec.ReadsWritten item := by
  unfold routeElements at hitems
  split at hitems
  next elements =>
    cases hitems
    exact hreads _ hparse
  next => cases hitems
  all_goals
    cases hitems
    simp

theorem ofRoutes_eq {array : Str} (hreads : codec.ReadsElements array) :
    ofRoutes codec array =
      (directivesOf codec array).map fun entries => (putAll [] entries).map Prod.snd := by
  unfold ofRoutes directivesOf
  cases hparse : codec.parse array with
  | none => rfl
  | some routesVal =>
      simp only [bind, Except.bind]
      cases hitems : routeElements routesVal with
      | error error => rfl
      | ok items =>
          have hwritten := readsWritten_of_elements hreads hparse hitems
          exact Shows.empty.addRoutes_eq hwritten

theorem destinations_of_directivesOf {array : Str} {entries : List (Str × Str)}
    (hreads : codec.ReadsElements array)
    (hentries : directivesOf codec array = .ok entries) :
    ∀ entry ∈ entries, getDestinationFromString codec entry.2 = .ok entry.1 := by
  unfold directivesOf at hentries
  cases hparse : codec.parse array with
  | none =>
      rw [hparse] at hentries
      cases hentries
  | some routesVal =>
      simp only [hparse, bind, Except.bind] at hentries
      cases hitems : routeElements routesVal with
      | error error =>
          rw [hitems] at hentries
          cases hentries
      | ok items =>
          rw [hitems] at hentries
          have hwritten := readsWritten_of_elements hreads hparse hitems
          exact destinations_of_directives hwritten hentries

/-! ## Runs -/

/-- An operation does to the container what it does to the table. -/
theorem Shows.apply {entries : List (Str × Str)} (h : Shows codec routes (Math.putAll [] entries))
    {operation : Operation}
    (hreads : ∀ array, operation = .ofRoutes array → codec.ReadsElements array) :
    Shows codec (RouteContainer.apply codec routes operation)
      (Math.putAll [] (addedBy codec entries operation)) := by
  cases operation with
  | empty => exact Shows.empty
  | ofRoutes array =>
      have harray := hreads array rfl
      rw [RouteContainer.apply, addedBy, ofRoutes_eq harray]
      cases hentries : directivesOf codec array with
      | error error => exact h
      | ok directives =>
          exact Shows.empty.putAll (destinations_of_directivesOf harray hentries)
  | addRoute routingDirective =>
      rw [RouteContainer.apply, addedBy]
      cases hdestination : getDestinationFromString codec routingDirective with
      | error error =>
          rw [addRoute, hdestination]
          exact h
      | ok destination =>
          simp only [h.addRoute_eq hdestination, Math.putAll_concat]
          exact h.putEntry hdestination

theorem shows_run (operations : List Operation)
    (hreads : ∀ array, .ofRoutes array ∈ operations → codec.ReadsElements array) :
    Shows codec (run codec operations) (putAll [] (added codec operations)) := by
  induction operations using List.reverseRecOn with
  | nil => exact Shows.empty
  | append_singleton operations operation ih =>
      have hbefore := ih fun array hmem => hreads array (List.mem_append_left _ hmem)
      have hlast : ∀ array, operation = .ofRoutes array → codec.ReadsElements array :=
        fun array heq => hreads array (by simp [heq])
      have hnext := hbefore.apply hlast
      rw [run, added, List.foldl_append, List.foldl_append]
      exact hnext

/-! ## Rebuilding -/

mutual

/-- What has been read again is read as it is. -/
theorem reread_reread :
    ∀ {value : Json}, value.KeepsNumbers codec →
      (value.reread codec).reread codec = value.reread codec
  | .real q, hnumbers => by
      have ⟨hnumeric, htext⟩ := hnumbers
      rw [Json.reread]
      cases hreread : codec.reread q with
      | real p =>
          rw [hreread] at htext
          have hsame : codec.realText p = codec.realText q := Except.ok.inj htext
          rw [Json.reread, JsonCodec.reread, hsame, ← JsonCodec.reread, hreread]
      | int n => rfl
      | null | bool _ | str _ | arr _ | obj _ =>
          rw [hreread] at hnumeric
          cases hnumeric
  | .arr _, hnumbers => congrArg Json.arr (rereadItems_rereadItems hnumbers)
  | .obj _, hnumbers => congrArg Json.obj (rereadMembers_rereadMembers hnumbers)
  | .null, _ | .bool _, _ | .int _, _ | .str _, _ => rfl

theorem rereadItems_rereadItems :
    ∀ {items : List Json}, Json.itemsKeepNumbers codec items →
      Json.rereadItems codec (Json.rereadItems codec items) = Json.rereadItems codec items
  | [], _ => rfl
  | _ :: _, hnumbers => by
      simp only [Json.rereadItems, reread_reread hnumbers.1, rereadItems_rereadItems hnumbers.2]

theorem rereadMembers_rereadMembers :
    ∀ {members : JsonMembers}, Json.membersKeepNumbers codec members →
      Json.rereadMembers codec (Json.rereadMembers codec members) = Json.rereadMembers codec members
  | [], _ => rfl
  | (_, _) :: _, hnumbers => by
      simp only [Json.rereadMembers, reread_reread hnumbers.1,
        rereadMembers_rereadMembers hnumbers.2]

end

theorem getDestinationFromString_ok {route destination : Str}
    (h : getDestinationFromString codec route = .ok destination) :
    ∃ value, codec.parse route = some value ∧
      getDestinationFromJson codec value = .ok destination := by
  cases hparse : codec.parse route with
  | none =>
      rw [getDestinationFromString, parseRoutingDirective, hparse] at h
      cases h
  | some value => exact ⟨value, rfl, (getDestinationFromString_eq hparse).symm.trans h⟩

/-- Every directive of a table can be parsed. -/
theorem Shows.values (h : Shows codec routes table) :
    ∃ values, routes.mapM (parseRoutingDirective codec) = .ok values ∧
      values.mapM (getDestinationFromJson codec) = .ok (table.map Prod.fst) := by
  obtain ⟨rfl, hdestinations⟩ := h
  induction table with
  | nil => exact ⟨[], rfl, rfl⟩
  | cons entry table ih =>
      have ⟨hentry, hrest⟩ := List.forall_mem_cons.mp hdestinations
      have ⟨values, hvalues, hkeys⟩ := ih hrest
      have ⟨value, hvalue, hkey⟩ := getDestinationFromString_ok hentry
      have hparsed : parseRoutingDirective codec entry.2 = .ok value := by
        rw [parseRoutingDirective, hvalue]
      refine ⟨value :: values, ?_, ?_⟩
      · rw [List.map_cons, List.mapM_cons, hparsed, hvalues]
        rfl
      · rw [List.mapM_cons, hkey, hkeys]
        rfl

/-- The directives of what was read again have the destinations of the values. -/
theorem directives_of_reread {values : List Json} {destinations : List Str}
    (hnumbers : ∀ value ∈ values, value.KeepsNumbers codec)
    (hkeys : values.mapM (getDestinationFromJson codec) = .ok destinations) :
    ∃ entries, (values.map (Json.reread codec)).mapM (directiveOf codec) = .ok entries ∧
      entries.map Prod.fst = destinations ∧
      entries.map Prod.snd = (values.map (Json.reread codec)).map (toFastString codec) := by
  induction values generalizing destinations with
  | nil =>
      cases hkeys
      exact ⟨[], rfl, rfl, rfl⟩
  | cons value values ih =>
      have ⟨hvalue, hrest⟩ := List.forall_mem_cons.mp hnumbers
      rw [List.mapM_cons] at hkeys
      cases hkey : getDestinationFromJson codec value with
      | error error =>
          rw [hkey] at hkeys
          cases hkeys
      | ok destination =>
          cases hothers : values.mapM (getDestinationFromJson codec) with
          | error error =>
              rw [hkey, hothers] at hkeys
              cases hkeys
          | ok others =>
              rw [hkey, hothers] at hkeys
              cases hkeys
              have ⟨entries, hentries, hfirst, hsecond⟩ := ih hrest hothers
              have hdirective : directiveOf codec (value.reread codec) =
                  .ok (destination, toFastString codec (value.reread codec)) := by
                rw [directiveOf, getDestinationFromJson_reread hvalue, hkey]
                rfl
              refine ⟨(destination, toFastString codec (value.reread codec)) :: entries, ?_, ?_, ?_⟩
              · rw [List.map_cons, List.mapM_cons, hdirective, hentries]
                rfl
              · rw [List.map_cons, hfirst]
              · simp only [List.map_cons, hsecond]

/-- What is built from the text of all routes of a table. -/
theorem Shows.rebuild (h : Shows codec routes table) (hnodup : (table.map Prod.fst).Nodup)
    {values : List Json}
    (hvalues : routes.mapM (parseRoutingDirective codec) = .ok values)
    (harray : codec.ReadsWritten (.arr values))
    (helements : ∀ value ∈ values, codec.ReadsWritten (value.reread codec)) :
    ∃ rebuilt entries, ofRoutes codec (toFastString codec (.arr values)) = .ok rebuilt ∧
      Shows codec rebuilt entries ∧ entries.map Prod.fst = table.map Prod.fst ∧
      rebuilt.mapM (parseRoutingDirective codec) = .ok (values.map (Json.reread codec)) := by
  have ⟨others, hothers, hkeys⟩ := h.values
  obtain rfl : others = values := Except.ok.inj (hothers.symm.trans hvalues)
  have hnumbers := keepsNumbers_of_mem harray.keepsNumbers
  have ⟨entries, hentries, hfirst, hsecond⟩ := directives_of_reread hnumbers hkeys
  have hparse : codec.parse (toFastString codec (.arr others)) =
      some (.arr (others.map (Json.reread codec))) := by
    rw [toFastString, harray.parse_write, Json.reread, rereadItems_eq_map]
  have hreads : codec.ReadsElements (toFastString codec (.arr others)) := by
    intro items hitems item hmem
    rw [hparse] at hitems
    cases hitems
    have ⟨value, hvalue, hitem⟩ := List.mem_map.mp hmem
    exact hitem ▸ helements value hvalue
  have hdirectives : directivesOf codec (toFastString codec (.arr others)) = .ok entries := by
    rw [directivesOf, hparse]
    exact hentries
  have hsame : Math.putAll [] entries = entries := putAll_of_nodup (hfirst ▸ hnodup)
  have hshows := Shows.empty.putAll (destinations_of_directivesOf hreads hdirectives)
  rw [hsame] at hshows
  refine ⟨entries.map Prod.snd, entries, ?_, hshows, hfirst, ?_⟩
  · rw [ofRoutes_eq hreads, hdirectives]
    exact congrArg (fun all => Except.ok (List.map Prod.snd all)) hsame
  · have hparsed : ∀ value ∈ others.map (Json.reread codec),
        (parseRoutingDirective codec ∘ toFastString codec) value = .ok value := by
      intro value hmem
      have ⟨old, hold, heq⟩ := List.mem_map.mp hmem
      have hread : codec.parse (codec.write value) = some value := by
        rw [← heq, (helements old hold).parse_write, reread_reread (hnumbers old hold)]
      rw [Function.comp, parseRoutingDirective, toFastString, hread]
    rw [hsecond, List.mapM_map, mapM_eq_ok_map (g := id) hparsed, List.map_id]

/-! ## The law of the table -/

/-- For every history: the destinations are the different ones that were used, in the order
of first use; a search finds what was added last; a directive replaces the one with its
destination, or is appended, and the result says which; one that is refused changes nothing;
and all routes together can be read back as a container with the same directives. -/
theorem route_table_law (operations : List Operation)
    (hreads : ∀ array, .ofRoutes array ∈ operations → codec.ReadsElements array)
    (hrebuilt : ∀ values, (run codec operations).mapM (parseRoutingDirective codec) = .ok values →
      codec.ReadsWritten (.arr values) ∧
        ∀ value ∈ values, codec.ReadsWritten (value.reread codec)) :
    ∃ destinations values rebuilt,
      (run codec operations).mapM (getDestinationFromString codec) = .ok destinations ∧
      destinations.Nodup ∧
      destinations = internAll [] ((added codec operations).map Prod.fst) ∧
      (∀ destination, getRouteForDestination codec destination (run codec operations) =
        .ok ((lastFor destination (added codec operations)).getD [])) ∧
      (∀ routingDirective, addRoute codec (run codec operations) routingDirective =
        match getDestinationFromString codec routingDirective with
        | .error error => (.error error, run codec operations)
        | .ok destination =>
            (.ok (decide (destination ∉ destinations)),
              if destination ∈ destinations then
                (run codec operations).set (destinations.idxOf destination) routingDirective
              else run codec operations ++ [routingDirective])) ∧
      (run codec operations).mapM (parseRoutingDirective codec) = .ok values ∧
      getRoutes codec (run codec operations) false = .ok (toFastString codec (.arr values)) ∧
      ofRoutes codec (toFastString codec (.arr values)) = .ok rebuilt ∧
      rebuilt.mapM (getDestinationFromString codec) = .ok destinations ∧
      rebuilt.mapM (parseRoutingDirective codec) = .ok (values.map (Json.reread codec)) := by
  have hshows := shows_run operations hreads
  have hnodup := nodup_keys_putAll (added codec operations)
  have ⟨values, hvalues, _⟩ := hshows.values
  have ⟨harray, helements⟩ := hrebuilt values hvalues
  have ⟨rebuilt, entries, hbuilt, hagain, hkeys, hsame⟩ :=
    hshows.rebuild hnodup hvalues harray helements
  refine ⟨(putAll [] (added codec operations)).map Prod.fst, values, rebuilt,
    hshows.getDestinations_eq, hnodup, keys_putAll [] (added codec operations), ?_, ?_, hvalues,
    ?_, hbuilt, hkeys ▸ hagain.getDestinations_eq, hsame⟩
  · intro destination
    rw [hshows.getRouteForDestination_eq, lookup_putAll]
  · intro routingDirective
    cases hdestination : getDestinationFromString codec routingDirective with
    | error error => rw [addRoute, hdestination]
    | ok destination =>
        rw [hshows.addRoute_eq hdestination, values_putEntry hnodup, ← hshows.texts]
  · rw [getRoutes, hvalues]
    rfl

def routeText (destination source : String) : Str :=
  "\x7b\"destination\":\"".toList ++ destination.toList ++ "\",\"source\":\"".toList ++
    source.toList ++ "\"\x7d".toList

def routeValue (destination source : String) : Json :=
  .obj [(DESTINATION_KEY, .str destination.toList), (SOURCE_KEY, .str source.toList)]

def writeRoute : Json → Str
  | .obj [(_, .str destination), (_, .str source)] =>
      routeText (String.ofList destination) (String.ofList source)
  | _ => []

/-- Routes of strings, as they are written and read. -/
def routeCodec : JsonCodec where
  parse text := List.lookup text
    [("0".toList, .int 0),
      (routeText "/l" "/a" ++ ['\n'], routeValue "/l" "/a"),
      (routeText "/r" "/b" ++ ['\n'], routeValue "/r" "/b"),
      (routeText "/l" "/c", routeValue "/l" "/c"),
      (routeText "/l" "/c" ++ ['\n'], routeValue "/l" "/c"),
      ('[' :: routeText "/l" "/a" ++ ',' :: routeText "/r" "/b" ++ [']'],
        .arr [routeValue "/l" "/a", routeValue "/r" "/b"]),
      ('[' :: routeText "/l" "/c" ++ ',' :: routeText "/r" "/b" ++ [']', '\n'],
        .arr [routeValue "/l" "/c", routeValue "/r" "/b"])]
  write
    | .arr [first, second] => '[' :: writeRoute first ++ ',' :: writeRoute second ++ [']', '\n']
    | route => writeRoute route ++ ['\n']
  toStyledString _ := []
  realText _ := "0".toList

/-- Two routes, the first of which is replaced. -/
def twoRoutes : List Operation :=
  [.ofRoutes ('[' :: routeText "/l" "/a" ++ ',' :: routeText "/r" "/b" ++ [']']),
    .addRoute (routeText "/l" "/c")]

theorem mapM_parse_twoRoutes : (run routeCodec twoRoutes).mapM (parseRoutingDirective routeCodec) =
    .ok [routeValue "/l" "/c", routeValue "/r" "/b"] := rfl

theorem keepsNumbers_routeValue (destination source : String) :
    (routeValue destination source).KeepsNumbers routeCodec := ⟨trivial, trivial, trivial⟩

theorem readsElements_twoRoutes (array : Str) (hmem : .ofRoutes array ∈ twoRoutes) :
    routeCodec.ReadsElements array := by
  intro items hitems item hitem
  obtain rfl : array = '[' :: routeText "/l" "/a" ++ ',' :: routeText "/r" "/b" ++ [']'] := by
    simpa [twoRoutes] using hmem
  cases hitems
  rcases List.mem_pair.mp hitem with rfl | rfl <;> exact ⟨rfl, keepsNumbers_routeValue _ _⟩

theorem readsWritten_twoRoutes (values : List Json)
    (hvalues : (run routeCodec twoRoutes).mapM (parseRoutingDirective routeCodec) = .ok values) :
    routeCodec.ReadsWritten (.arr values) ∧
      ∀ value ∈ values, routeCodec.ReadsWritten (value.reread routeCodec) := by
  obtain rfl := Except.ok.inj (mapM_parse_twoRoutes.symm.trans hvalues)
  have hnumbers := keepsNumbers_routeValue
  refine ⟨⟨rfl, hnumbers _ _, hnumbers _ _, trivial⟩, fun value hmem => ?_⟩
  rcases List.mem_pair.mp hmem with rfl | rfl <;> exact ⟨rfl, hnumbers _ _⟩

theorem route_table_law_twoRoutes :
    getRouteForDestination routeCodec "/l".toList (run routeCodec twoRoutes) =
        .ok (routeText "/l" "/c") ∧
      ∃ all rebuilt, getRoutes routeCodec (run routeCodec twoRoutes) false = .ok all ∧
        ofRoutes routeCodec all = .ok rebuilt ∧
        rebuilt.mapM (getDestinationFromString routeCodec) = .ok ["/l".toList, "/r".toList] := by
  have ⟨destinations, values, rebuilt, _, _, hfirst, hroute, _, _, hall, hbuilt, hkeys, _⟩ :=
    route_table_law twoRoutes readsElements_twoRoutes readsWritten_twoRoutes
  exact ⟨hroute _, _, rebuilt, hall, hbuilt, hkeys.trans (congrArg Except.ok hfirst)⟩

end RouteContainer
end OSVR.Common
