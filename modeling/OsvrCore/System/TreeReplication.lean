/-
# The path tree of the server at its clients

The server sends its whole tree as a text, and every client that is connected gets the
texts in their order. What a client has is always one of the trees that were sent, read in
its own way, and never an older one than it had; when everything has arrived it is the tree
of the server.
-/

import OsvrCore.Client.MirroredTree
import OsvrCore.Math.Broadcast
import OsvrCore.Server.TreeBroadcast

set_option autoImplicit false

namespace OSVR.System

open Math Common Server Client

/-- The text of a replacement tree. -/
def treeText (codec : JsonCodec) (tree : PathTree) : Str := codec.write (pathTreeToJson tree false)

/-- An application, and the connection from the server to its context. -/
structure Participant where
  application : ApplicationState
  link : Subscriber Str

namespace Participant

/-- The tree in the context of the application. -/
def tree (participant : Participant) : PathTree := participant.application.context.manager.tree

/-- `m_handleReplaceTree` for the next message: what is no JSON text throws. -/
def receive (host : Str) (env : ClientEnvironment) (participant : Participant) :
    Option Participant := do
  let (text, link) ← participant.link.take
  match env.codec.parse text with
  | none => some ⟨participant.application, link⟩
  | some nodes =>
      let application ← participant.application.step host (.replaceTree env nodes)
      some ⟨application, link⟩

end Participant

/-- The server, the trees that it has sent so far, and the participants. -/
structure Replication (ι : Type) where
  server : ServerState
  snapshots : List PathTree
  participants : ι → Participant

inductive ReplicationAction (ι : Type)
  | call (call : ServerCall) (fuel : ℕ)
  | connect (who : ι)
  | disconnect (who : ι)
  | receive (who : ι) (env : ClientEnvironment)
  | getInterface (who : ι) (env : ClientEnvironment) (path : Str)
  | releaseInterface (who : ι) (iface : ClientInterface)

namespace Replication

variable {ι : Type}

/-- The trees that a call sends. -/
def sentBy (codec : JsonCodec) (fuel : ℕ) (call : ServerCall) (server : ServerState) :
    List PathTree := (ServerImpl.sends codec fuel call server).toList

/-- What happens at the server, and is sent from it. -/
def advance (codec : JsonCodec) (server : ServerState) (sent : List PathTree)
    (state : Replication ι) : Replication ι where
  server := server
  snapshots := state.snapshots ++ sent
  participants who :=
    { state.participants who with
      link := (state.participants who).link.publish (sent.map (treeText codec)) }

/-- What happens at one participant. -/
def update [DecidableEq ι] (who : ι) (participant : Participant) (state : Replication ι) :
    Replication ι :=
  { state with participants := Function.update state.participants who participant }

/-- What happens in one application. -/
def inApplication [DecidableEq ι] (who : ι) (host : Str) (event : ApplicationEvent)
    (state : Replication ι) : Option (Replication ι) := do
  let application ← (state.participants who).application.step host event
  some (state.update who { state.participants who with application := application })

end Replication

/-- A server, and the clients that connect to it, each with its host. All read and write
JSON in the same way. -/
def replication {ι : Type} [DecidableEq ι] (codec : JsonCodec) (tree : PathTree) (hosts : ι → Str) :
    TransitionSystem (Replication ι) (ReplicationAction ι) where
  init := ⟨(serverSystem codec tree).init, [], fun who => ⟨(application (hosts who)).init, .init⟩⟩
  step
    | .call call fuel, state => do
        let server ← (serverSystem codec tree).step (call, fuel) state.server
        some (state.advance codec server (Replication.sentBy codec fuel call state.server))
    | .connect who, state =>
        let participant := state.participants who
        some (state.update who
          { participant with link := participant.link.attach state.snapshots.length })
    | .disconnect who, state =>
        let participant := state.participants who
        some (state.update who { participant with link := participant.link.detach })
    | .receive who env, state => do
        let participant ← (state.participants who).receive (hosts who) { env with codec := codec }
        some (state.update who participant)
    | .getInterface who env path, state =>
        state.inApplication who (hosts who) (.getInterface { env with codec := codec } path)
    | .releaseInterface who iface, state =>
        state.inApplication who (hosts who) (.releaseInterface iface)

/-- The writer's text for a tree is read as that tree. -/
def Legible (codec : JsonCodec) (tree : PathTree) : Prop :=
  codec.parse (treeText codec tree) = some (pathTreeToJson tree false)

/-- Only legible trees are sent. -/
def SendsLegibly {ι : Type} (codec : JsonCodec) (state : Replication ι) :
    ReplicationAction ι → Prop
  | .call call fuel => ∀ tree ∈ Replication.sentBy codec fuel call state.server, Legible codec tree
  | .connect _ | .disconnect _ | .receive _ _ | .getInterface _ _ _ | .releaseInterface _ _ => True

/-- And besides, no call of the server fails halfway or changes its tree silently. -/
def SendsAll {ι : Type} (codec : JsonCodec) (state : Replication ι)
    (action : ReplicationAction ι) : Prop :=
  SendsLegibly codec state action ∧
    ∀ call fuel, action = .call call fuel → CallSpared codec call state.server

/-! ## One participant -/

namespace Participant

variable {codec : JsonCodec} {host : Str} {snapshots : List PathTree}
  {participant after : Participant}

/-- What a participant has of the trees that were sent. -/
def Shows (codec : JsonCodec) (host : Str) (snapshots : List PathTree) (participant : Participant) :
    Prop :=
  match participant.link.taken with
  | none => ResolvedFrom .empty participant.tree
  | some place => ∃ tree mirror, snapshots[place]? = some tree ∧
      Localizes codec host tree mirror ∧ ResolvedFrom mirror participant.tree

/-- A participant follows the trees that are sent. -/
structure Synchronous (codec : JsonCodec) (host : Str) (snapshots : List PathTree)
    (participant : Participant) : Prop where
  follows : participant.link.Follows (snapshots.map (treeText codec))
  received : participant.application.context.lastNodes =
    (participant.link.taken.bind (snapshots[·]?)).map fun tree => pathTreeToJson tree false
  mirrors : Mirrors codec host participant.application.context

namespace Synchronous

theorem shows (h : Synchronous codec host snapshots participant) :
    participant.Shows codec host snapshots := by
  have hreceived := h.received
  rw [Shows]
  split
  next htaken =>
    rw [htaken] at hreceived
    exact h.mirrors.fresh hreceived
  next place htaken =>
    have hlt : place < snapshots.length := by
      have hlt := h.follows.taken_lt htaken
      rwa [List.length_map] at hlt
    obtain ⟨nodes, mirror, hlocal, hread, hmirror⟩ := exists_localizes codec host snapshots[place]
    rw [htaken, Option.bind_some, List.getElem?_eq_getElem hlt] at hreceived
    exact ⟨_, mirror, List.getElem?_eq_getElem hlt, hmirror,
      h.mirrors.read _ nodes mirror hreceived hlocal hread⟩

/-- What is sent does not change what has been received. -/
theorem publish (h : Synchronous codec host snapshots participant) (sent : List PathTree) :
    Synchronous codec host (snapshots ++ sent)
      { participant with link := participant.link.publish (sent.map (treeText codec)) } where
  follows := by
    rw [List.map_append]
    exact h.follows.publish _
  received := by
    have hkept : (participant.link.taken.bind ((snapshots ++ sent)[·]?)) =
        participant.link.taken.bind (snapshots[·]?) := by
      cases htaken : participant.link.taken with
      | none => rfl
      | some place =>
          have hlt := h.follows.taken_lt htaken
          rw [List.length_map] at hlt
          exact List.getElem?_append_left hlt
    rw [Subscriber.taken_publish, hkept]
    exact h.received
  mirrors := h.mirrors

theorem attach (h : Synchronous codec host snapshots participant) :
    Synchronous codec host snapshots
      { participant with link := participant.link.attach snapshots.length } where
  follows := by
    have hattached := h.follows.attach
    rwa [List.length_map] at hattached
  received := h.received
  mirrors := h.mirrors

theorem detach (h : Synchronous codec host snapshots participant) :
    Synchronous codec host snapshots { participant with link := participant.link.detach } :=
  ⟨h.follows.detach, h.received, h.mirrors⟩

/-- An event in the application that replaces no tree. -/
theorem unreplaced (env : ClientEnvironment) {application : ApplicationState}
    (h : Synchronous codec host snapshots participant)
    (hsame : OpeningContext.Unreplaced env participant.application.context application.context) :
    Synchronous codec host snapshots { participant with application := application } where
  follows := h.follows
  received := Eq.trans hsame.1 h.received
  mirrors := h.mirrors.unreplaced hsame

end Synchronous

/-- The context that a call leaves. -/
theorem context_of_ofCall {α : Type} {held : Option α → List ClientInterface}
    {outcome : Except (Abort ClientError) α × OpeningContext} {application : ApplicationState}
    (h : ApplicationState.ofCall held outcome = some application) :
    application.context = outcome.2 := by
  obtain ⟨result, context⟩ := outcome
  cases result with
  | ok value =>
      obtain rfl := Option.some.inj h
      rfl
  | error reason =>
      cases reason with
      | thrown error =>
          obtain rfl := Option.some.inj h
          rfl
      | outOfFuel | undefined => cases h

/-- The next message is the next tree, which is put in place. -/
theorem Synchronous.receive {env : ClientEnvironment} (hcodec : env.codec = codec)
    (h : Synchronous codec host snapshots participant)
    (hlegible : ∀ tree ∈ snapshots, Legible codec tree)
    (hreceive : participant.receive host env = some after) :
    Synchronous codec host snapshots after ∧ Subscriber.NotOlder participant.link after.link := by
  subst hcodec
  rw [Participant.receive, Option.bind_eq_bind, Option.bind_eq_some_iff] at hreceive
  obtain ⟨⟨text, link⟩, htake, hreceive⟩ := hreceive
  obtain ⟨hfollows, hnext, htaken, holder⟩ := h.follows.take htake
  rw [List.getElem?_map, Option.map_eq_some_iff] at hnext
  obtain ⟨tree, htree, rfl⟩ := hnext
  have hparse := hlegible tree (List.mem_of_getElem? htree)
  rw [Legible] at hparse
  simp only [hparse, Option.bind_eq_bind, Option.bind_eq_some_iff, Option.some.injEq] at hreceive
  obtain ⟨application, hstep, rfl⟩ := hreceive
  rw [ApplicationState.step] at hstep
  have hcontext := context_of_ofCall hstep
  refine ⟨⟨hfollows, ?_, ?_⟩, holder⟩
  · rw [hcontext, OpeningContext.lastNodes_handleReplaceTree, htaken, Option.bind_some, htree]
    rfl
  · rw [hcontext]
    exact h.mirrors.handleReplaceTree _

end Participant

/-! ## All participants -/

namespace Replication

variable {ι : Type} {codec : JsonCodec} {tree : PathTree} {hosts : ι → Str}
  {before after state : Replication ι} {action : ReplicationAction ι} {who : ι}

/-- All participants follow the trees that the server sends. -/
structure Synchronous (codec : JsonCodec) (hosts : ι → Str) (state : Replication ι) : Prop where
  legible : ∀ tree ∈ state.snapshots, Legible codec tree
  participants : ∀ who,
    (state.participants who).Synchronous codec (hosts who) state.snapshots
  newest :
    ∀ tree, state.snapshots.getLast? = some tree → pathTreeToJson tree false = state.server.sent

/-- More trees have been sent, and no participant has gone back to an older one. -/
structure Onwards (before after : Replication ι) : Prop where
  snapshots : before.snapshots <+: after.snapshots
  links : ∀ who, Subscriber.NotOlder (before.participants who).link (after.participants who).link

theorem Onwards.refl (state : Replication ι) : Onwards state state :=
  ⟨List.prefix_refl _, fun _ => .refl _⟩

theorem Onwards.trans {first second third : Replication ι} (h : Onwards first second)
    (h' : Onwards second third) : Onwards first third :=
  ⟨h.snapshots.trans h'.snapshots, fun who => (h.links who).trans (h'.links who)⟩

namespace Synchronous

/-- What a call of the server sends reaches everyone. -/
theorem call {call : ServerCall} {fuel : ℕ} {server : ServerState}
    (h : before.Synchronous codec hosts)
    (hlegible : ∀ tree ∈ sentBy codec fuel call before.server, Legible codec tree)
    (hstep : (serverSystem codec tree).step (call, fuel) before.server = some server) :
    (before.advance codec server (sentBy codec fuel call before.server)).Synchronous
      codec hosts where
  legible tree hmem := (List.mem_append.mp hmem).elim (h.legible tree) (hlegible tree)
  participants who := (h.participants who).publish _
  newest newest hlast := by
    obtain ⟨result, hrun, -⟩ := serverSystem_step hstep
    have hperformed := run_perform_sends codec fuel call before.server
    have hlast :
        (before.snapshots ++ sentBy codec fuel call before.server).getLast? = some newest :=
      hlast
    rw [sentBy] at hlast
    show _ = server.sent
    cases hsends : ServerImpl.sends codec fuel call before.server with
    | none =>
        simp only [hsends] at hperformed hlast
        rw [Option.toList_none, List.append_nil] at hlast
        rw [h.newest newest hlast, ← hperformed, hrun]
    | some sent =>
        simp only [hsends] at hperformed hlast
        rw [Option.toList_some, List.getLast?_concat] at hlast
        obtain rfl := Option.some.inj hlast
        rw [hrun] at hperformed
        rw [(Prod.mk.inj hperformed).2]

variable [DecidableEq ι]

theorem init : (replication codec tree hosts).init.Synchronous codec hosts where
  legible _ hmem := by cases hmem
  participants who := ⟨Subscriber.follows_init, rfl, .init codec (hosts who)⟩
  newest _ hlast := by cases hlast

/-- Something happens at one participant. -/
theorem update {participant : Participant} (h : before.Synchronous codec hosts)
    (hparticipant : participant.Synchronous codec (hosts who) before.snapshots) :
    (before.update who participant).Synchronous codec hosts where
  legible := h.legible
  participants other := by
    show (Function.update before.participants who participant other).Synchronous _ _ _
    by_cases hother : other = who
    · subst hother
      rw [Function.update_self]
      exact hparticipant
    · rw [Function.update_of_ne hother]
      exact h.participants other
  newest := h.newest

end Synchronous

variable [DecidableEq ι]

theorem Onwards.update {participant : Participant}
    (h : Subscriber.NotOlder (before.participants who).link participant.link) :
    Onwards before (before.update who participant) where
  snapshots := List.prefix_refl _
  links other := by
    show Subscriber.NotOlder _ (Function.update before.participants who participant other).link
    by_cases hother : other = who
    · subst hother
      rw [Function.update_self]
      exact h
    · rw [Function.update_of_ne hother]
      exact .refl _

/-- One step of the server or of a participant. -/
theorem Synchronous.step (h : before.Synchronous codec hosts)
    (hlegible : SendsLegibly codec before action)
    (hstep : (replication codec tree hosts).step action before = some after) :
    after.Synchronous codec hosts ∧ Onwards before after := by
  cases action with
  | call call fuel =>
      obtain ⟨server, hserver, hafter⟩ := Option.bind_eq_some_iff.mp hstep
      obtain rfl := Option.some.inj hafter
      refine ⟨h.call hlegible hserver, List.prefix_append _ _, fun who => ?_⟩
      exact .of_taken_eq (Subscriber.taken_publish _)
  | connect who =>
      obtain rfl := Option.some.inj hstep
      exact ⟨h.update (h.participants who).attach, .update (.of_taken_eq rfl)⟩
  | disconnect who =>
      obtain rfl := Option.some.inj hstep
      exact ⟨h.update (h.participants who).detach, .update (.of_taken_eq rfl)⟩
  | receive who env =>
      obtain ⟨participant, hreceive, hafter⟩ := Option.bind_eq_some_iff.mp hstep
      obtain rfl := Option.some.inj hafter
      obtain ⟨hparticipant, holder⟩ := (h.participants who).receive rfl h.legible hreceive
      exact ⟨h.update hparticipant, .update holder⟩
  | getInterface who env path =>
      obtain ⟨application, happlication, hafter⟩ := Option.bind_eq_some_iff.mp hstep
      obtain rfl := Option.some.inj hafter
      rw [ApplicationState.step] at happlication
      have hcontext := Participant.context_of_ofCall happlication
      refine ⟨h.update ((h.participants who).unreplaced { env with codec := codec } ?_),
        .update (.of_taken_eq rfl)⟩
      rw [hcontext]
      exact OpeningContext.relates_getInterface _ path _
  | releaseInterface who iface =>
      obtain ⟨application, happlication, hafter⟩ := Option.bind_eq_some_iff.mp hstep
      obtain rfl := Option.some.inj hafter
      refine ⟨h.update ?_, .update (.of_taken_eq rfl)⟩
      rw [ApplicationState.step] at happlication
      split at happlication
      · have hcontext := Participant.context_of_ofCall happlication
        apply (h.participants who).unreplaced ⟨codec, 0, fun _ => none⟩
        rw [hcontext]
        exact Mirrors.relates_releaseInterface iface _
      · cases happlication

/-- In every run, each participant has a tree that was sent, read in its way, and from there
on it never gets an older one. -/
theorem shows_and_onwards
    (hreach : (replication codec tree hosts).ReachableWhile (SendsLegibly codec) state) :
    (∀ who, (state.participants who).Shows codec (hosts who) state.snapshots) ∧
      ∀ after, (replication codec tree hosts).LeadsTo (SendsLegibly codec) state after →
        Onwards state after := by
  have hinvariant : (replication codec tree hosts).Invariant (SendsLegibly codec)
      (Synchronous codec hosts) :=
    ⟨.init, fun hbefore hlegible hstep => (hbefore.step hlegible hstep).1⟩
  refine ⟨fun who => ((hinvariant.reachable hreach).participants who).shows, fun after hleads => ?_⟩
  refine (hleads.relates .refl .trans (fun hbefore hlegible hstep => ?_) hreach).2
  exact ((hinvariant.reachable hbefore).step hlegible hstep).2

/-- When no call fails halfway or changes the tree silently, the server has nothing to send,
and everything that it has sent since a participant was connected has arrived, then that
participant has the tree of the server, and resolves paths in it. -/
theorem exists_localizes_of_arrived
    (hreach : (replication codec tree hosts).ReachableWhile (SendsAll codec) state)
    (hclean : state.server.treeDirty = false)
    (hattached : (state.participants who).link.attached = true)
    (hpending : (state.participants who).link.pending = [])
    (hnews : (state.participants who).link.start < state.snapshots.length) :
    ∃ mirror, Localizes codec (hosts who) state.server.tree mirror ∧
      ResolvedFrom mirror (state.participants who).tree ∧ (Shaped mirror → ∀ fuel path,
        ((resolveTreeNode codec fuel path).run (state.participants who).tree).1 =
          ((resolveTreeNode codec fuel path).run mirror).1) := by
  have hinvariant : (replication codec tree hosts).Invariant (SendsAll codec)
      fun state => state.Synchronous codec hosts ∧ state.server.Sent := by
    refine ⟨⟨.init, fun _ => rfl⟩, fun {before after action} hbefore hsends hstep => ?_⟩
    refine ⟨(hbefore.1.step hsends.1 hstep).1, ?_⟩
    cases action with
    | call call fuel =>
        obtain ⟨server, hserver, hafter⟩ := Option.bind_eq_some_iff.mp hstep
        obtain rfl := Option.some.inj hafter
        obtain ⟨result, hrun, hreason⟩ := serverSystem_step hserver
        exact keepsSent_perform fuel (hsends.2 call fuel rfl) hbefore.2 result server hrun hreason
    | connect who | disconnect who =>
        obtain rfl := Option.some.inj hstep
        exact hbefore.2
    | receive who env | getInterface who env path | releaseInterface who iface =>
        obtain ⟨_, -, hafter⟩ := Option.bind_eq_some_iff.mp hstep
        obtain rfl := Option.some.inj hafter
        exact hbefore.2
  obtain ⟨hsynchronous, hsent⟩ := hinvariant.reachable hreach
  have hparticipant := hsynchronous.participants who
  have htaken := hparticipant.follows.taken_eq hattached hpending (by rwa [List.length_map])
  rw [List.length_map] at htaken
  have hshows := hparticipant.shows
  rw [Participant.Shows, htaken] at hshows
  obtain ⟨newest, mirror, hnewest, hmirror, hresolved⟩ := hshows
  rw [← List.getLast?_eq_getElem?] at hnewest
  have hwritten := (hsynchronous.newest newest hnewest).trans (hsent hclean).symm
  refine ⟨mirror, hmirror.of_element_eq (element_eq_of_pathTreeToJson_eq hwritten), hresolved, ?_⟩
  intro hshaped fuel path
  exact hresolved.fst_run_resolveTreeNode hshaped codec fuel path

/-! ## A string at a client -/

def stringTreeText : Str :=
  "[\x7b\"path\":\"/a\",\"string\":\"x\",\"type\":\"StringElement\"\x7d]\n".toList

/-- A reader and a writer that know the tree with one string. -/
def stringTreeCodec : JsonCodec where
  parse text := if text = stringTreeText then some (pathTreeToJson stringTree false) else none
  write json := if json = pathTreeToJson stringTree false then stringTreeText else []
  toStyledString _ := []
  realText _ := []

def stringEnvironment : ClientEnvironment := ⟨stringTreeCodec, 9, fun _ => none⟩

/-- One client, the server on another host. -/
def stringReplication : TransitionSystem (Replication Unit) (ReplicationAction Unit) :=
  replication stringTreeCodec .empty fun _ => "remote".toList

/-- A string is added, a client connects, and the server sends its tree. -/
def stringSent : Replication Unit where
  server := ⟨stringTree, false, pathTreeToJson stringTree false⟩
  snapshots := [stringTree]
  participants _ := ⟨⟨.init, []⟩, ⟨true, [stringTreeText], 0, 0, none⟩⟩

/-- The client receives it. -/
def stringReceived : Replication Unit :=
  (stringReplication.step (.receive () stringEnvironment) stringSent).getD stringSent

theorem legible_stringTree : Legible stringTreeCodec stringTree := by
  unfold Legible
  decide +kernel

theorem reachable_stringSent :
    stringReplication.ReachableWhile (SendsAll stringTreeCodec) stringSent := by
  let started : Replication Unit := stringReplication.init
  let added : Replication Unit :=
    { started with server := ⟨stringTree, true, pathTreeToJson .empty false⟩ }
  let connected : Replication Unit :=
    { added with participants := fun _ => ⟨⟨.init, []⟩, ⟨true, [], 0, 0, none⟩⟩ }
  have hadd : stringReplication.step (.call (.addString "/a".toList "x".toList) 0) started =
      some added := rfl
  have hconnect : stringReplication.step (.connect ()) added = some connected := rfl
  have hupdate : stringReplication.step (.call (.update [.ping]) 0) connected = some stringSent :=
    rfl
  have hspared : SendsAll stringTreeCodec added (.connect ()) :=
    ⟨trivial, fun _ _ hcall => by cases hcall⟩
  refine .step (.step (.step .init ⟨?_, ?_⟩ hadd) hspared hconnect) ⟨?_, ?_⟩ hupdate
  · intro tree hmem
    cases hmem
  · rintro call fuel ⟨⟩
    exact trivial
  · intro tree hmem
    obtain rfl := List.mem_singleton.mp hmem
    exact legible_stringTree
  · rintro call fuel ⟨⟩
    exact ⟨trivial, fun _ _ _ => trivial⟩

theorem step_stringReceived :
    stringReplication.step (.receive () stringEnvironment) stringSent = some stringReceived := by
  have hsome :
      (stringReplication.step (.receive () stringEnvironment) stringSent).isSome = true := by
    decide +kernel
  obtain ⟨state, hstate⟩ := Option.isSome_iff_exists.mp hsome
  rw [stringReceived, hstate]
  rfl

theorem sendsAll_receive : SendsAll stringTreeCodec stringSent (.receive () stringEnvironment) :=
  ⟨trivial, fun _ _ hcall => by cases hcall⟩

theorem reachable_stringReceived :
    stringReplication.ReachableWhile (SendsAll stringTreeCodec) stringReceived :=
  .step reachable_stringSent sendsAll_receive step_stringReceived

theorem shows_and_onwards_stringReceived :
    (stringReceived.participants ()).Shows stringTreeCodec "remote".toList
        stringReceived.snapshots ∧
      stringReceived.snapshots = [stringTree] ∧ Onwards stringSent stringReceived := by
  have hsent := reachable_stringSent.mono fun _ _ hsends => hsends.1
  have hreceived := reachable_stringReceived.mono fun _ _ hsends => hsends.1
  have hleads :
      stringReplication.LeadsTo (SendsLegibly stringTreeCodec) stringSent stringReceived :=
    .single ⟨_, sendsAll_receive.1, step_stringReceived⟩
  exact ⟨(shows_and_onwards hreceived).1 (), by rfl, (shows_and_onwards hsent).2 _ hleads⟩

theorem exists_localizes_stringReceived :
    ∃ mirror, Localizes stringTreeCodec "remote".toList stringReceived.server.tree mirror ∧
      ResolvedFrom mirror (stringReceived.participants ()).tree := by
  obtain ⟨mirror, hmirror, hresolved, -⟩ :=
    @exists_localizes_of_arrived _ _ _ _ _ () _ reachable_stringReceived (by decide +kernel)
      (by decide +kernel) (by decide +kernel) (by decide +kernel)
  exact ⟨mirror, hmirror, hresolved⟩

end Replication

end OSVR.System
