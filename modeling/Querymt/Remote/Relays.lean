/-
`Remote/Relays.lean` -- does every attached peer see each event of a session once?

Mirrors `SessionRegistry::attach_remote_session` and `detach_remote_session`
(`agent/session_registry.rs`), the handlers of `SubscribeEvents` and
`UnsubscribeEvents` of the session actor (`agent/session_actor.rs`), the forwarder
(`agent/remote/event_forwarder.rs`), the fanout it subscribes to (`event_fanout.rs`) and
the relay actor (`agent/remote/event_relay.rs`), for one session and any set of peers.

The peer that attaches spawns a relay actor, registers it under a name of its own and
sends the session the name and the sequence id of the relay. The session looks the name
up and starts a forwarder, which it keeps under the sequence id. Two things are easy to
miss there: sequence ids count the actors of one node, so relays of two peers may have
the same one; and a peer that attaches again replaces its own record of the first relay,
but not the forwarder the session runs for it.

A forwarder is a task of its own. It takes its events from a receiver of the fanout of the
whole node, on which the events of every session go, and which keeps the newest 1024 for it:
what a forwarder is further behind is lost to it. So an event that was emitted is either in
the journal of a peer or still due to it.

Lookups and sends succeed. A forwarder that is aborted takes no event any more. A relay
actor that was registered stays alive: neither attaching again nor detaching stops it.
-/
import Mathlib
import Querymt.Library.Runs

set_option autoImplicit false

open Runs

namespace Querymt.Relays

/-! ## 1. Names -/

inductive MeshScopeId where
  | Lan (lan_id : String)
  | Iroh (mesh_id : String)
  deriving DecidableEq

def MeshScopeId.lan_default : MeshScopeId := .Lan "default"

/-- What the name of a relay is made of. -/
structure RelayName where
  scope : MeshScopeId
  session_id : String
  peer_id : String
  deriving DecidableEq

def scoped_event_relay (scope : MeshScopeId) (session_id peer_id : String) : RelayName :=
  ⟨scope, session_id, peer_id⟩

def select_relay_scope (active_scopes : List MeshScopeId) (preferred_scope : Option MeshScopeId) :
    MeshScopeId :=
  ((preferred_scope.filter fun scope => active_scopes.contains scope).or
    active_scopes.head?).getD .lan_default

/-- The scope that is selected is an active one. -/
theorem select_relay_scope_mem {active_scopes : List MeshScopeId} (h : active_scopes ≠ [])
    (preferred_scope : Option MeshScopeId) :
    select_relay_scope active_scopes preferred_scope ∈ active_scopes := by
  rw [select_relay_scope]
  rcases hpref : preferred_scope.filter fun scope => active_scopes.contains scope with _ | scope
  · rw [Option.none_or, List.head?_eq_some_head h, Option.getD_some]
    exact List.head_mem h
  · have hcontains := (Option.filter_eq_some_iff.1 hpref).2
    exact List.contains_iff_mem.1 hcontains

/-- A peer's end of a mesh that is up. -/
structure MeshHandle where
  peer_id : String
  active_scopes : List MeshScopeId
  has_scope : active_scopes ≠ []

/-! ## 2. Events -/

inductive EventOrigin where
  | Local
  | Remote
  deriving DecidableEq

inductive Durability where
  | Durable
  | Ephemeral
  deriving DecidableEq

/-- The kinds that are told apart below; every other kind is an `Other`. -/
inductive AgentEventKind where
  | AssistantContentDelta (content : String)
  | AssistantThinkingDelta (content : String)
  | RemoteStreamDisconnected (message : String)
  | RemoteStreamReconnected (message : String)
  | RemoteSessionDisconnected (message : String)
  | RemoteProviderHeartbeat (message : String)
  | StreamRecovering (message : String)
  | WorkspaceIndexReady (workspace_root : String)
  | Other (kind : String)
  deriving DecidableEq

def classify_durability : AgentEventKind → Durability
  | .AssistantContentDelta _ | .AssistantThinkingDelta _ | .RemoteStreamDisconnected _
  | .RemoteStreamReconnected _ | .RemoteSessionDisconnected _ | .RemoteProviderHeartbeat _
  | .StreamRecovering _ => .Ephemeral
  | .WorkspaceIndexReady _ | .Other _ => .Durable

structure AgentEvent where
  session_id : String
  kind : AgentEventKind
  origin : EventOrigin
  source_node : Option String
  deriving DecidableEq

/-- A relay actor, on the node of the peer that spawned it. -/
structure EventRelayActor where
  peer_id : String
  sequence_id : ℕ
  session_id : String
  source_label : String
  deriving DecidableEq

/-- `Message<RelayedEvent>`: what the relay stores in the journal of its node. -/
def EventRelayActor.persists (relay : EventRelayActor) (event : AgentEvent) : Option AgentEvent :=
  -- events of other sessions come through the fanout as well
  if event.session_id ≠ relay.session_id then none
  else
    match classify_durability event.kind with
    | .Durable =>
        some { event with
          origin := .Remote
          source_node := event.source_node.or (some relay.source_label) }
    | .Ephemeral => none

/-- `EventFanout`: how many events it keeps for a receiver. -/
def FANOUT_BUFFER : ℕ := 1024

/-- A task of `EventForwarder::start`: the relay it sends to, and the events its receiver
of the fanout has for it, the oldest first. -/
structure EventForwarder where
  relay : EventRelayActor
  receiver : List AgentEvent

namespace EventForwarder

def start (relay : EventRelayActor) : EventForwarder := ⟨relay, []⟩

/-- An event is sent on the fanout. A receiver that is full loses its oldest event; the
`Lagged` that the task gets for it changes nothing more. -/
def receive (f : EventForwarder) (event : AgentEvent) : EventForwarder :=
  if f.receiver.length < FANOUT_BUFFER then { f with receiver := f.receiver ++ [event] }
  else { f with receiver := f.receiver.tail ++ [event] }

@[simp] theorem receive_relay (f : EventForwarder) (event : AgentEvent) :
    (f.receive event).relay = f.relay := by
  rw [receive]
  split <;> rfl

end EventForwarder

/-! ## 3. The session and its peers -/

structure RemoteRelayRegistration where
  relay_actor_id : ℕ
  relay_dht_name : RelayName
  deriving DecidableEq

/-- The node of a peer. The registration is the entry of the session in
`relay_actor_ids`, which is there together with the one in `sessions`. -/
structure Node where
  next_sequence_id : ℕ
  registration : Option RemoteRelayRegistration
  journal : List AgentEvent

structure World where
  session_id : String
  /-- the root of the workspace, once its index is ready -/
  workspace_root : Option String
  /-- `relay_forwarder_handles`: the running forwarders -/
  forwarders : List (ℕ × EventForwarder)
  dht : RelayName → Option EventRelayActor
  nodes : String → Node

inductive Call where
  /-- `skipped` other actors were spawned on the peer's node in the meantime -/
  | Attach (mesh : MeshHandle) (skipped : ℕ) (peer_label : String)
      (preferred_scope : Option MeshScopeId)
  | Detach (peer_id : String)
  /-- any session of the node emits an event -/
  | Emit (session_id : String) (kind : AgentEventKind)
  /-- the forwarder goes round its loop once -/
  | Forward (relay_actor_id : ℕ)

namespace World

variable (w : World)

def is_attached (peer_id : String) : Bool := (w.nodes peer_id).registration.isSome

def set_node (peer_id : String) (node : Node) : World :=
  { w with nodes := Function.update w.nodes peer_id node }

/-- The relay receives an event. -/
def deliver (event : AgentEvent) (relay : EventRelayActor) : World :=
  let node := w.nodes relay.peer_id
  w.set_node relay.peer_id { node with journal := node.journal ++ (relay.persists event).toList }

/-- The fanout of the node: every forwarder gets the event, also one of another session. -/
def publish (event : AgentEvent) : World :=
  { w with forwarders := w.forwarders.map fun f => (f.1, f.2.receive event) }

def emit (session_id : String) (kind : AgentEventKind) : World :=
  w.publish ⟨session_id, kind, .Local, none⟩

/-- The receiver of a forwarder has moved on. -/
def set_receiver (relay_actor_id : ℕ) (receiver : List AgentEvent) : World :=
  { w with
    forwarders := w.forwarders.map fun f =>
      if f.1 = relay_actor_id then (f.1, { f.2 with receiver := receiver }) else f }

/-- One round of the loop of `EventForwarder::start`. -/
def forward (relay_actor_id : ℕ) : World :=
  match w.forwarders.find? fun f => decide (f.1 = relay_actor_id) with
  | none => w
  | some (_, forwarder) =>
      match forwarder.receiver with
      | [] => w
      | event :: receiver =>
          let received := w.set_receiver relay_actor_id receiver
          -- only the events of the session are forwarded
          if event.session_id ≠ w.session_id then received
          else received.deliver event forwarder.relay

/-- The task under the sequence id is aborted first, whoever it sends to. -/
def start_forwarder (relay_actor_id : ℕ) (relay : EventRelayActor) : World :=
  { w with
    forwarders := w.forwarders.filter (fun f => decide (f.1 ≠ relay_actor_id)) ++
      [(relay_actor_id, .start relay)] }

/-- The index was ready before this relay subscribed. -/
def catch_up : World :=
  match w.workspace_root with
  | none => w
  | some workspace_root => w.emit w.session_id (.WorkspaceIndexReady workspace_root)

/-- `Message<SubscribeEvents>`. -/
def subscribe_events (relay_actor_id : ℕ) (relay_dht_name : RelayName) : World :=
  match w.dht relay_dht_name with
  | none => w
  | some relay => (w.start_forwarder relay_actor_id relay).catch_up

/-- `Message<UnsubscribeEvents>`. -/
def unsubscribe_events (relay_actor_id : ℕ) : World :=
  { w with forwarders := w.forwarders.filter fun f => decide (f.1 ≠ relay_actor_id) }

/-- The relay is registered under its name in every active scope. -/
def register_relay (mesh : MeshHandle) (relay : EventRelayActor) : World :=
  { w with
    dht := fun name =>
      if name ∈ mesh.active_scopes.map (scoped_event_relay · w.session_id mesh.peer_id) then
        some relay
      else w.dht name }

def attach_remote_session (mesh : MeshHandle) (skipped : ℕ) (peer_label : String)
    (preferred_scope : Option MeshScopeId) : World :=
  let relay_actor_id := (w.nodes mesh.peer_id).next_sequence_id + skipped
  let relay : EventRelayActor := ⟨mesh.peer_id, relay_actor_id, w.session_id, peer_label⟩
  let relay_dht_name :=
    scoped_event_relay (select_relay_scope mesh.active_scopes preferred_scope) w.session_id
      mesh.peer_id
  let subscribed := (w.register_relay mesh relay).subscribe_events relay_actor_id relay_dht_name
  subscribed.set_node mesh.peer_id
    { subscribed.nodes mesh.peer_id with
      next_sequence_id := relay_actor_id + 1
      -- `insert`: what was registered before is forgotten and its forwarder not told
      registration := some ⟨relay_actor_id, relay_dht_name⟩ }

def detach_remote_session (peer_id : String) : World :=
  let told :=
    match (w.nodes peer_id).registration with
    | none => w
    -- the session is told the number alone, not whose relay it is
    | some registration => w.unsubscribe_events registration.relay_actor_id
  told.set_node peer_id { told.nodes peer_id with registration := none }

def step : Call → World
  | .Attach mesh skipped peer_label preferred_scope =>
      w.attach_remote_session mesh skipped peer_label preferred_scope
  | .Detach peer_id => w.detach_remote_session peer_id
  | .Emit session_id kind => w.emit session_id kind
  | .Forward relay_actor_id => w.forward relay_actor_id

/-- The forwarders that send to relays of the peer. -/
def forwarders_to (peer_id : String) : List (ℕ × EventForwarder) :=
  w.forwarders.filter fun f => decide (f.2.relay.peer_id = peer_id)

/-- What is stored of an event that a forwarder to the relay takes. -/
def stored (relay : EventRelayActor) (event : AgentEvent) : Option AgentEvent :=
  if event.session_id ≠ w.session_id then none else relay.persists event

/-- What a forwarder has still to store. -/
def pending (f : EventForwarder) : List AgentEvent := f.receiver.filterMap (w.stored f.relay)

/-- **What is due to a peer**: its journal, and what the forwarders to it have still to
store. -/
def due (peer_id : String) : List AgentEvent :=
  (w.nodes peer_id).journal ++ (w.forwarders_to peer_id).flatMap fun f => w.pending f.2

/-- The kind, of a durable event of the session. -/
def durable_kind (session_id : String) (kind : AgentEventKind) : List AgentEventKind :=
  if session_id = w.session_id ∧ classify_durability kind = .Durable then [kind] else []

/-- The durable events of the session that a call emits. -/
def emitted : Call → List AgentEventKind
  | .Attach _ _ _ _ => w.workspace_root.toList.map .WorkspaceIndexReady
  | .Emit session_id kind => w.durable_kind session_id kind
  | .Detach _ | .Forward _ => []

/-- An event more loses the forwarder none that it has still to store. -/
def Spares (f : EventForwarder) : Prop :=
  FANOUT_BUFFER ≤ f.receiver.length → ∀ event ∈ f.receiver.head?, w.stored f.relay event = none

end World

/-- No peer is attached; the nodes have spawned any number of actors and have journals of
their own, and the mesh knows any relays. -/
def World.new (session_id : String) (workspace_root : Option String)
    (next_sequence_id : String → ℕ) (journal : String → List AgentEvent)
    (dht : RelayName → Option EventRelayActor) : World :=
  ⟨session_id, workspace_root, [], dht, fun peer => ⟨next_sequence_id peer, none, journal peer⟩⟩

/-! ## 4. The law and the condition -/

/-- **Each event once**: after the call one forwarder runs for each attached peer and none
for any other; what the call emits is due once to each attached peer, next to all that was
due to it before, and nothing is stored for any other; and the forwarders store what is
due, once each has taken what its receiver has. -/
structure EachEventOnce (w : World) (call : Call) : Prop where
  one_forwarder : ∀ peer,
    ((w.step call).forwarders_to peer).length = if (w.step call).is_attached peer then 1 else 0
  due_once : ∀ peer, (w.step call).is_attached peer = true → ∃ source_node,
    (w.step call).due peer =
      w.due peer ++ (w.emitted call).map fun kind => ⟨w.session_id, kind, .Remote, source_node⟩
  no_other : ∀ peer, (w.step call).is_attached peer = false →
    ((w.step call).nodes peer).journal = (w.nodes peer).journal
  persisted : ∀ peer, ∃ rounds : List ℕ,
    ((run World.step (w.step call) (rounds.map .Forward)).nodes peer).journal =
      (w.step call).due peer

/-- A peer attaches when it is not attached, and its new relay has another sequence id than
those of the relays that events are forwarded to. -/
def AttachesFresh (w : World) : Call → Prop
  | .Attach mesh skipped _ _ => w.is_attached mesh.peer_id = false ∧
      ∀ f ∈ w.forwarders, f.1 ≠ (w.nodes mesh.peer_id).next_sequence_id + skipped
  | _ => True

/-- No forwarder is so far behind that an event that goes on the fanout costs it one. -/
def NoneLags (w : World) : Call → Prop
  | .Attach _ _ _ _ => w.workspace_root.isSome = true → ∀ f ∈ w.forwarders, w.Spares f.2
  | .Emit _ _ => ∀ f ∈ w.forwarders, w.Spares f.2
  | _ => True

/-- **The condition.** -/
def Clean (w : World) (call : Call) : Prop := AttachesFresh w call ∧ NoneLags w call

/-- The relays that events are forwarded to. -/
def World.relays (w : World) : List (ℕ × EventRelayActor) :=
  w.forwarders.map fun f => (f.1, f.2.relay)

/-- **The invariant**: the forwarders are those of the registrations. -/
structure World.Inv (w : World) : Prop where
  distinct : (w.relays.map Prod.fst).Nodup
  registered : ∀ f ∈ w.relays, f.2.session_id = w.session_id ∧
    ∃ registration ∈ (w.nodes f.2.peer_id).registration, registration.relay_actor_id = f.1
  forwarded : ∀ peer, ∀ registration ∈ (w.nodes peer).registration,
    ∃ f ∈ w.relays, f.1 = registration.relay_actor_id ∧ f.2.peer_id = peer
  allocated : ∀ peer, ∀ registration ∈ (w.nodes peer).registration,
    registration.relay_actor_id < (w.nodes peer).next_sequence_id

namespace World

variable {w : World}

theorem set_node_self (w : World) (peer : String) (node : Node) :
    (w.set_node peer node).nodes peer = node := by
  dsimp only [set_node]
  rw [Function.update_self]

theorem set_node_of_ne (w : World) {peer other : String} (h : other ≠ peer) (node : Node) :
    (w.set_node peer node).nodes other = w.nodes other := by
  dsimp only [set_node]
  rw [Function.update_of_ne h]

/-! ## 5. What a step does to the relays -/

/-- Forwarders are told apart by their sequence ids. -/
theorem forwarder_unique (hdistinct : (w.relays.map Prod.fst).Nodup) {f g : ℕ × EventForwarder}
    (hf : f ∈ w.forwarders) (hg : g ∈ w.forwarders) (hid : f.1 = g.1) : f = g := by
  rw [relays, List.map_map] at hdistinct
  exact List.inj_on_of_nodup_map hdistinct hf hg hid

/-- **What a forwarder's round does**: nothing, as its receiver is empty; or its receiver
moves on by an event, of which the relay stores what it stores. -/
theorem forward_cases (hdistinct : (w.relays.map Prod.fst).Nodup) (relay_actor_id : ℕ) :
    (w.forward relay_actor_id = w ∧
      ∀ f ∈ w.forwarders, f.1 = relay_actor_id → f.2.receiver = []) ∨
    ∃ f ∈ w.forwarders, f.1 = relay_actor_id ∧ ∃ event receiver, f.2.receiver = event :: receiver ∧
      w.forward relay_actor_id =
        { w.set_receiver relay_actor_id receiver with
          nodes := fun peer =>
            { w.nodes peer with
              journal := (w.nodes peer).journal ++
                if f.2.relay.peer_id = peer then (w.stored f.2.relay event).toList else [] } } := by
  rcases hfound : w.forwarders.find? (fun f => decide (f.1 = relay_actor_id)) with _ | g
  · have hnone := List.find?_eq_none.1 hfound
    refine .inl ⟨by rw [forward, hfound], ?_⟩
    intro f hf hid
    exact absurd (decide_eq_true hid) (hnone f hf)
  have hmem := List.mem_of_find?_eq_some hfound
  have hid : g.1 = relay_actor_id := by simpa using List.find?_some hfound
  rcases hreceiver : g.2.receiver with _ | ⟨event, receiver⟩
  · refine .inl ⟨by simp only [forward, hfound, hreceiver], ?_⟩
    intro f hf hfid
    rw [forwarder_unique hdistinct hf hmem (hfid.trans hid.symm)]
    exact hreceiver
  refine .inr ⟨g, hmem, hid, event, receiver, hreceiver, ?_⟩
  simp only [forward, hfound, hreceiver]
  by_cases hsession : event.session_id ≠ w.session_id
  · simp [hsession, stored, set_receiver]
  · rw [if_neg hsession]
    simp only [stored, if_neg hsession, deliver, set_node, set_receiver, mk.injEq, true_and]
    funext peer
    by_cases hpeer : g.2.relay.peer_id = peer
    · subst hpeer
      rw [Function.update_self, if_pos rfl]
    · rw [Function.update_of_ne (Ne.symm hpeer), if_neg hpeer, List.append_nil]

@[simp] theorem publish_relays (w : World) (event : AgentEvent) :
    (w.publish event).relays = w.relays := by
  simp [relays, publish]

theorem set_receiver_relays (w : World) (relay_actor_id : ℕ) (receiver : List AgentEvent) :
    (w.set_receiver relay_actor_id receiver).relays = w.relays := by
  rw [relays, set_receiver, List.map_map]
  refine List.map_congr_left fun f _ => ?_
  rw [Function.comp_apply]
  split <;> rfl

@[simp] theorem start_forwarder_relays (w : World) (relay_actor_id : ℕ) (relay : EventRelayActor) :
    (w.start_forwarder relay_actor_id relay).relays =
      w.relays.filter (fun f => decide (f.1 ≠ relay_actor_id)) ++ [(relay_actor_id, relay)] := by
  rw [relays, start_forwarder, List.map_append, relays, List.filter_map]
  rfl

/-- The relays of a peer are those of the forwarders to it. -/
theorem forwarders_to_relays (w : World) (peer : String) :
    (w.forwarders_to peer).map (fun f => (f.1, f.2.relay)) =
      w.relays.filter fun f => decide (f.2.peer_id = peer) := by
  rw [forwarders_to, relays, List.filter_map]
  rfl

theorem length_relays_to (w : World) (peer : String) :
    (w.relays.filter fun f => decide (f.2.peer_id = peer)).length =
      (w.forwarders_to peer).length := by
  rw [← forwarders_to_relays, List.length_map]

theorem mem_relays {f : ℕ × EventForwarder} (hf : f ∈ w.forwarders) :
    (f.1, f.2.relay) ∈ w.relays :=
  List.mem_map_of_mem hf

/-! ## 6. The invariant -/

theorem inv_new (session_id : String) (workspace_root : Option String)
    (next_sequence_id : String → ℕ) (journal : String → List AgentEvent)
    (dht : RelayName → Option EventRelayActor) :
    (World.new session_id workspace_root next_sequence_id journal dht).Inv where
  distinct := List.nodup_nil
  registered f hf := by cases hf
  forwarded peer r hr := by cases hr
  allocated peer r hr := by cases hr

/-- What neither starts nor stops a forwarder keeps the invariant. -/
theorem Inv.of_relays (h : w.Inv) {w' : World} (hsession : w'.session_id = w.session_id)
    (hrelays : w'.relays = w.relays)
    (hnodes : ∀ peer, (w'.nodes peer).registration = (w.nodes peer).registration ∧
      (w'.nodes peer).next_sequence_id = (w.nodes peer).next_sequence_id) : w'.Inv := by
  constructor
  · rw [hrelays]
    exact h.distinct
  · intro f hf
    rw [hrelays] at hf
    rw [hsession, (hnodes _).1]
    exact h.registered f hf
  · intro peer
    rw [hrelays, (hnodes _).1]
    exact h.forwarded peer
  · intro peer
    rw [(hnodes _).1, (hnodes _).2]
    exact h.allocated peer

theorem Inv.emit (h : w.Inv) (session_id : String) (kind : AgentEventKind) :
    (w.emit session_id kind).Inv :=
  h.of_relays rfl (w.publish_relays _) fun _ => ⟨rfl, rfl⟩

theorem Inv.forward (h : w.Inv) (relay_actor_id : ℕ) : (w.forward relay_actor_id).Inv := by
  rcases forward_cases h.distinct relay_actor_id with
    ⟨hstep, -⟩ | ⟨f, -, -, event, receiver, -, hstep⟩
  · rw [hstep]
    exact h
  · rw [hstep]
    exact h.of_relays rfl (w.set_receiver_relays relay_actor_id receiver) fun _ => ⟨rfl, rfl⟩

/-- A relay of a peer is the one of its registration. -/
theorem Inv.eq_of_peer (h : w.Inv) {f g : ℕ × EventRelayActor} (hf : f ∈ w.relays)
    (hg : g ∈ w.relays) (hpeer : f.2.peer_id = g.2.peer_id) : f = g := by
  obtain ⟨-, r, hr, hrf⟩ := h.registered f hf
  obtain ⟨-, r', hr', hrg⟩ := h.registered g hg
  rw [hpeer] at hr
  obtain rfl : r = r' := Option.some.inj (hr.symm.trans hr')
  exact List.inj_on_of_nodup_map h.distinct hf hg (hrf.symm.trans hrg)

/-- No relay is one of a peer that is not attached. -/
theorem Inv.peer_ne_of_detached (h : w.Inv) {f : ℕ × EventRelayActor} (hf : f ∈ w.relays)
    {peer : String} (hdetached : w.is_attached peer = false) : f.2.peer_id ≠ peer := by
  rintro rfl
  obtain ⟨-, r, hr, -⟩ := h.registered f hf
  rw [is_attached, hr] at hdetached
  cases hdetached

/-- **An attached peer has one forwarder.** -/
theorem Inv.forwarders_to_of_attached (h : w.Inv) {peer : String}
    (hattached : w.is_attached peer = true) :
    ∃ f ∈ w.forwarders, f.2.relay.peer_id = peer ∧ w.forwarders_to peer = [f] := by
  obtain ⟨r, hr⟩ := Option.isSome_iff_exists.1 hattached
  obtain ⟨f, hf, -, hpeer⟩ := h.forwarded peer r hr
  have hnodup : (w.relays.filter fun f => decide (f.2.peer_id = peer)).Nodup :=
    h.distinct.of_map.filter _
  have hmem : f ∈ w.relays.filter fun f => decide (f.2.peer_id = peer) :=
    List.mem_filter.2 ⟨hf, by simp [hpeer]⟩
  have hall : ∀ g ∈ w.relays.filter fun f => decide (f.2.peer_id = peer), g = f := by
    intro g hg
    obtain ⟨hg, hgpeer⟩ := List.mem_filter.1 hg
    refine h.eq_of_peer hg hf ?_
    rw [decide_eq_true_eq] at hgpeer
    rw [hgpeer, hpeer]
  -- all equal to `f` and no two equal: there is one
  rw [List.eq_replicate_of_mem hall] at hnodup hmem
  have hle := List.nodup_replicate.1 hnodup
  have hpos : (w.relays.filter fun f => decide (f.2.peer_id = peer)).length ≠ 0 :=
    (List.mem_replicate.1 hmem).1
  have hone : (w.forwarders_to peer).length = 1 := by
    rw [← length_relays_to]
    omega
  obtain ⟨g, hg⟩ := List.length_eq_one_iff.1 hone
  have hgmem : g ∈ w.forwarders_to peer := by rw [hg]; exact List.mem_singleton_self g
  obtain ⟨hgmem, hgpeer⟩ := List.mem_filter.1 hgmem
  exact ⟨g, hgmem, of_decide_eq_true hgpeer, hg⟩

theorem Inv.forwarders_to_of_not_attached (h : w.Inv) {peer : String}
    (hattached : w.is_attached peer = false) : w.forwarders_to peer = [] := by
  rw [forwarders_to, List.filter_eq_nil_iff]
  intro f hf hpeer
  exact h.peer_ne_of_detached (mem_relays hf) hattached (of_decide_eq_true hpeer)

theorem Inv.one_forwarder (h : w.Inv) (peer : String) :
    (w.forwarders_to peer).length = if w.is_attached peer then 1 else 0 := by
  by_cases hattached : w.is_attached peer = true
  · obtain ⟨f, -, -, hf⟩ := h.forwarders_to_of_attached hattached
    rw [hf, if_pos hattached]
    rfl
  · rw [h.forwarders_to_of_not_attached (Bool.eq_false_iff.2 hattached), if_neg hattached]
    rfl

/-- The peer of a forwarder is attached, and the forwarder is the only one to it. -/
theorem Inv.forwarders_to_relay (h : w.Inv) {f : ℕ × EventForwarder} (hf : f ∈ w.forwarders) :
    w.is_attached f.2.relay.peer_id = true ∧ w.forwarders_to f.2.relay.peer_id = [f] := by
  obtain ⟨-, r, hr, -⟩ := h.registered _ (mem_relays hf)
  have hattached : w.is_attached f.2.relay.peer_id = true := by rw [is_attached, hr]; rfl
  obtain ⟨g, hg, hgpeer, hto⟩ := h.forwarders_to_of_attached hattached
  have hmem : f ∈ w.forwarders_to f.2.relay.peer_id := List.mem_filter.2 ⟨hf, by simp⟩
  rw [hto, List.mem_singleton] at hmem
  rw [hto, ← hmem]
  exact ⟨hattached, rfl⟩

/-! ## 7. What is due -/

theorem due_of_singleton {peer : String} {f : ℕ × EventForwarder}
    (hf : w.forwarders_to peer = [f]) :
    w.due peer = (w.nodes peer).journal ++ w.pending f.2 := by
  rw [due, hf, List.flatMap_singleton]

theorem due_of_nil {peer : String} (hf : w.forwarders_to peer = []) :
    w.due peer = (w.nodes peer).journal := by
  rw [due, hf, List.flatMap_nil, List.append_nil]

/-- A forwarder that is spared has the event to store next to what it had. -/
theorem pending_receive (w : World) {f : EventForwarder} (hf : w.Spares f) (event : AgentEvent) :
    w.pending (f.receive event) = w.pending f ++ (w.stored f.relay event).toList := by
  have hone : [event].filterMap (w.stored f.relay) = (w.stored f.relay event).toList := by
    rw [List.filterMap_cons]
    cases w.stored f.relay event <;> rfl
  rw [pending, EventForwarder.receive_relay, EventForwarder.receive]
  split
  · dsimp only
    rw [List.filterMap_append, hone]
    rfl
  · next hfull =>
    have hspared := hf (Nat.le_of_not_lt hfull)
    dsimp only
    rw [List.filterMap_append, hone, pending]
    rcases hreceiver : f.receiver with _ | ⟨oldest, rest⟩
    · rfl
    · rw [hreceiver] at hspared
      rw [List.tail_cons, List.filterMap_cons_none (hspared oldest rfl)]

/-- One that is not has an event less. -/
theorem length_pending_receive (w : World) {f : EventForwarder} (hf : ¬ w.Spares f)
    (event : AgentEvent) :
    (w.pending (f.receive event)).length + 1 =
      (w.pending f).length + (w.stored f.relay event).toList.length := by
  rw [Spares] at hf
  push Not at hf
  obtain ⟨hfull, oldest, holdest, hstored⟩ := hf
  obtain ⟨rest, hreceiver⟩ : ∃ rest, f.receiver = oldest :: rest := by
    exact List.head?_eq_some_iff.1 holdest
  obtain ⟨event', hevent'⟩ := Option.ne_none_iff_exists'.1 hstored
  have hone : ([event].filterMap (w.stored f.relay)).length =
      (w.stored f.relay event).toList.length := by
    rw [List.filterMap_cons]
    cases w.stored f.relay event <;> rfl
  rw [pending, EventForwarder.receive_relay, EventForwarder.receive, if_neg (by omega)]
  dsimp only
  rw [List.filterMap_append, List.length_append, hone, pending, hreceiver, List.tail_cons,
    List.filterMap_cons_some hevent', List.length_cons]
  omega

theorem forwarders_to_publish (w : World) (event : AgentEvent) (peer : String) :
    (w.publish event).forwarders_to peer =
      (w.forwarders_to peer).map fun f => (f.1, f.2.receive event) := by
  rw [forwarders_to, publish, List.filter_map, forwarders_to]
  congr 1
  refine List.filter_congr fun f _ => ?_
  rw [Function.comp_apply, EventForwarder.receive_relay]

/-- What becomes due to a peer with one forwarder when an event goes on the fanout. -/
theorem due_publish {peer : String} {f : ℕ × EventForwarder} (hf : w.forwarders_to peer = [f])
    (hspares : w.Spares f.2) (event : AgentEvent) :
    (w.publish event).due peer = w.due peer ++ (w.stored f.2.relay event).toList := by
  have hto : (w.publish event).forwarders_to peer = [(f.1, f.2.receive event)] := by
    rw [forwarders_to_publish, hf]
    rfl
  rw [due_of_singleton hto, due_of_singleton hf, List.append_assoc,
    ← w.pending_receive hspares event]
  rfl

theorem length_due_publish {peer : String} {f : ℕ × EventForwarder}
    (hf : w.forwarders_to peer = [f]) (hspares : ¬ w.Spares f.2) (event : AgentEvent) :
    ((w.publish event).due peer).length + 1 =
      (w.due peer).length + (w.stored f.2.relay event).toList.length := by
  have hto : (w.publish event).forwarders_to peer = [(f.1, f.2.receive event)] := by
    rw [forwarders_to_publish, hf]
    rfl
  have hlength := w.length_pending_receive hspares event
  rw [due_of_singleton hto, due_of_singleton hf, List.length_append, List.length_append,
    Nat.add_assoc]
  change _ + ((w.pending (f.2.receive event)).length + 1) = _
  rw [hlength, Nat.add_assoc]
  rfl

/-- What a relay of the session stores of an event: the durable event of the session, as a
remote one. -/
theorem stored_emitted (w : World) {relay : EventRelayActor}
    (hsession : relay.session_id = w.session_id) (session_id : String) (kind : AgentEventKind) :
    (w.stored relay ⟨session_id, kind, .Local, none⟩).toList =
      (w.durable_kind session_id kind).map fun kind =>
        ⟨w.session_id, kind, .Remote, some relay.source_label⟩ := by
  rw [stored, EventRelayActor.persists, durable_kind, hsession]
  dsimp only
  by_cases hid : session_id = w.session_id
  · subst hid
    cases hkind : classify_durability kind <;> simp
  · rw [if_pos hid, if_neg (fun h => hid h.1)]
    rfl

/-- The catch-up event is due like any other. -/
theorem due_catch_up {peer : String} {f : ℕ × EventForwarder} (hf : w.forwarders_to peer = [f])
    (hsession : f.2.relay.session_id = w.session_id)
    (hspares : w.workspace_root.isSome = true → w.Spares f.2) :
    w.catch_up.due peer = w.due peer ++ (w.workspace_root.toList.map .WorkspaceIndexReady).map
      fun kind => ⟨w.session_id, kind, .Remote, some f.2.relay.source_label⟩ := by
  rcases hroot : w.workspace_root with _ | workspace_root
  · simp [catch_up, hroot]
  · rw [hroot] at hspares
    simp only [catch_up, hroot, emit]
    rw [due_publish hf (hspares rfl), stored_emitted w hsession, durable_kind,
      if_pos ⟨rfl, rfl⟩]
    rfl

/-- The sequence ids of the forwarders and of their relays are the same. -/
theorem fresh_relays {relay_actor_id : ℕ} (h : ∀ f ∈ w.forwarders, f.1 ≠ relay_actor_id) :
    ∀ f ∈ w.relays, f.1 ≠ relay_actor_id := by
  rw [relays, List.forall_mem_map]
  exact h

theorem forwarders_to_start (w : World) {relay_actor_id : ℕ} (relay : EventRelayActor)
    (hfresh : ∀ f ∈ w.forwarders, f.1 ≠ relay_actor_id) (peer : String) :
    (w.start_forwarder relay_actor_id relay).forwarders_to peer = w.forwarders_to peer ++
      if relay.peer_id = peer then [(relay_actor_id, .start relay)] else [] := by
  have hkept : w.forwarders.filter (fun f => decide (f.1 ≠ relay_actor_id)) = w.forwarders :=
    List.filter_eq_self.2 fun f hf => decide_eq_true (hfresh f hf)
  rw [forwarders_to, start_forwarder, hkept, List.filter_append, forwarders_to]
  congr 1
  by_cases hpeer : relay.peer_id = peer
  · rw [if_pos hpeer, List.filter_cons_of_pos (by simp [EventForwarder.start, hpeer])]
    rfl
  · rw [if_neg hpeer, List.filter_cons_of_neg (by simp [EventForwarder.start, hpeer])]
    rfl

/-- What is due is in the journals and with the forwarders. -/
theorem due_congr {w' : World} (hsession : w'.session_id = w.session_id)
    (hforwarders : w'.forwarders = w.forwarders) {peer : String}
    (hjournal : (w'.nodes peer).journal = (w.nodes peer).journal) : w'.due peer = w.due peer := by
  have hstored : w'.stored = w.stored := by
    funext relay event
    rw [stored, stored, hsession]
  have hpending : w'.pending = w.pending := by
    funext f
    rw [pending, pending, hstored]
  rw [due, due, forwarders_to, forwarders_to, hforwarders, hjournal, hpending]

end World

end Querymt.Relays
