/-
`Remote/EachEventOnce.lean` -- what a call of a peer does to the events of the others.

Of `Remote/Relays.lean`. Every step is described once: what attaching does (`Attaches`), what
becomes due at a call (`AddsDue`), and what a round of a forwarder stores. While the
forwarders are those of the registrations, a call keeps the law exactly when it meets the
condition; so it is with every sequence of calls.
-/
import Mathlib
import Querymt.Remote.Relays

set_option autoImplicit false

open Runs

namespace Querymt.Relays

namespace World

variable {w : World}

/-! ## 1. One call -/

/-- **What attaching does**: a forwarder is started under the sequence id; the registration
of the peer is replaced; no other node gets another registration, and none stores
anything. -/
structure Attaches (w w' : World) (peer : String) (relay_actor_id : ℕ) : Prop where
  session_id : w'.session_id = w.session_id
  started : ∃ relay : EventRelayActor, relay.peer_id = peer ∧ relay.session_id = w.session_id ∧
    w'.forwarders = (w.start_forwarder relay_actor_id relay).catch_up.forwarders
  journal : ∀ other, (w'.nodes other).journal = (w.nodes other).journal
  registration : ∃ r : RemoteRelayRegistration, r.relay_actor_id = relay_actor_id ∧
    (w'.nodes peer).registration = some r
  next_sequence_id : (w'.nodes peer).next_sequence_id = relay_actor_id + 1
  others : ∀ other, other ≠ peer → (w'.nodes other).registration = (w.nodes other).registration ∧
    (w'.nodes other).next_sequence_id = (w.nodes other).next_sequence_id

/-- The session finds the relay that was just registered. -/
theorem dht_register_relay (w : World) (mesh : MeshHandle) (relay : EventRelayActor)
    (preferred_scope : Option MeshScopeId) :
    (w.register_relay mesh relay).dht
      (scoped_event_relay (select_relay_scope mesh.active_scopes preferred_scope) w.session_id
        mesh.peer_id) = some relay := by
  have hmem := select_relay_scope_mem mesh.has_scope preferred_scope
  rw [register_relay]
  exact if_pos (List.mem_map_of_mem hmem)

/-- The catch-up event goes to the forwarders; it stores nothing yet. -/
theorem catch_up_spec (w : World) : w.catch_up.session_id = w.session_id ∧
    w.catch_up.nodes = w.nodes ∧ w.catch_up.relays = w.relays := by
  rw [catch_up]
  cases w.workspace_root with
  | none => exact ⟨rfl, rfl, rfl⟩
  | some workspace_root => exact ⟨rfl, rfl, w.publish_relays _⟩

theorem attaches_attach_remote_session (w : World) (mesh : MeshHandle) (skipped : ℕ)
    (peer_label : String) (preferred_scope : Option MeshScopeId) :
    Attaches w (w.attach_remote_session mesh skipped peer_label preferred_scope) mesh.peer_id
      ((w.nodes mesh.peer_id).next_sequence_id + skipped) := by
  set relay_actor_id := (w.nodes mesh.peer_id).next_sequence_id + skipped
  set relay : EventRelayActor := ⟨mesh.peer_id, relay_actor_id, w.session_id, peer_label⟩
  have hfound := dht_register_relay w mesh relay preferred_scope
  have hsubscribe : (w.register_relay mesh relay).subscribe_events relay_actor_id
      (scoped_event_relay (select_relay_scope mesh.active_scopes preferred_scope) w.session_id
        mesh.peer_id) =
      ((w.register_relay mesh relay).start_forwarder relay_actor_id relay).catch_up := by
    simp only [subscribe_events, hfound]
  obtain ⟨hsession, hnodes, -⟩ :=
    ((w.register_relay mesh relay).start_forwarder relay_actor_id relay).catch_up_spec
  rw [attach_remote_session]
  dsimp only
  rw [hsubscribe]
  refine ⟨hsession, ⟨relay, rfl, rfl, ?_⟩, ?_, ?_, ?_, ?_⟩
  · dsimp only [set_node, catch_up, start_forwarder, register_relay]
    cases w.workspace_root <;> rfl
  · intro other
    by_cases hother : other = mesh.peer_id
    · subst hother
      rw [set_node_self, hnodes]
      rfl
    · rw [set_node_of_ne _ hother, hnodes]
      rfl
  · rw [set_node_self]
    exact ⟨_, rfl, rfl⟩
  · rw [set_node_self]
  · intro other hne
    rw [set_node_of_ne _ hne, hnodes]
    exact ⟨rfl, rfl⟩

variable {w' : World} {peer : String} {relay_actor_id : ℕ}

/-- The relay of the sequence id is replaced, or is new. -/
theorem Attaches.relays (ha : Attaches w w' peer relay_actor_id) :
    ∃ relay : EventRelayActor, relay.peer_id = peer ∧ relay.session_id = w.session_id ∧
      w'.relays =
        w.relays.filter (fun f => decide (f.1 ≠ relay_actor_id)) ++ [(relay_actor_id, relay)] := by
  obtain ⟨relay, hrelay, hsession, hforwarders⟩ := ha.started
  refine ⟨relay, hrelay, hsession, ?_⟩
  rw [← start_forwarder_relays, ← (w.start_forwarder relay_actor_id relay).catch_up_spec.2.2,
    World.relays, hforwarders]
  rfl

/-- Attaching anew with a sequence id of its own keeps the invariant. -/
theorem Inv.attach (h : w.Inv) (ha : Attaches w w' peer relay_actor_id)
    (hdetached : w.is_attached peer = false)
    (hfresh : ∀ f ∈ w.relays, f.1 ≠ relay_actor_id) : w'.Inv := by
  obtain ⟨relay, hrelay, hsession, hrelays⟩ := ha.relays
  obtain ⟨r, hr, hregistration⟩ := ha.registration
  have hkept : w.relays.filter (fun f => decide (f.1 ≠ relay_actor_id)) = w.relays :=
    List.filter_eq_self.2 fun f hf => decide_eq_true (hfresh f hf)
  rw [hkept] at hrelays
  constructor
  · rw [hrelays, List.map_append, List.nodup_append]
    refine ⟨h.distinct, List.nodup_singleton _, ?_⟩
    intro id hid id' hid'
    obtain ⟨f, hf, rfl⟩ := List.mem_map.1 hid
    rw [List.mem_singleton.1 hid']
    exact hfresh f hf
  · intro f hf
    rw [hrelays, List.mem_append, List.mem_singleton] at hf
    rw [ha.session_id]
    rcases hf with hf | rfl
    · obtain ⟨hs, old, hold, hid⟩ := h.registered f hf
      have hne := h.peer_ne_of_detached hf hdetached
      rw [(ha.others _ hne).1]
      exact ⟨hs, old, hold, hid⟩
    · refine ⟨hsession, r, ?_, hr⟩
      rw [hrelay]
      exact hregistration
  · intro other old hold
    rw [hrelays]
    by_cases hother : other = peer
    · subst hother
      obtain rfl : r = old := Option.some.inj (hregistration.symm.trans hold)
      exact ⟨_, List.mem_append_right _ (List.mem_singleton_self _), hr.symm, hrelay⟩
    · rw [(ha.others other hother).1] at hold
      obtain ⟨f, hf, hid, hpeer⟩ := h.forwarded other old hold
      exact ⟨f, List.mem_append_left _ hf, hid, hpeer⟩
  · intro other old hold
    by_cases hother : other = peer
    · subst hother
      obtain rfl : r = old := Option.some.inj (hregistration.symm.trans hold)
      rw [ha.next_sequence_id, hr]
      exact Nat.lt_succ_self _
    · rw [(ha.others other hother).1] at hold
      rw [(ha.others other hother).2]
      exact h.allocated other old hold

/-- Attaching twice leaves two forwarders to the peer. -/
theorem detached_of_one_forwarder (h : w.Inv) (ha : Attaches w w' peer relay_actor_id)
    (hnext : (w.nodes peer).next_sequence_id ≤ relay_actor_id)
    (hone : (w'.forwarders_to peer).length = if w'.is_attached peer then 1 else 0) :
    w.is_attached peer = false := by
  rw [Bool.eq_false_iff]
  intro hattached
  obtain ⟨old, hold⟩ := Option.isSome_iff_exists.1 hattached
  obtain ⟨f, hf, hid, hpeer⟩ := h.forwarded peer old hold
  obtain ⟨relay, hrelay, -, hrelays⟩ := ha.relays
  obtain ⟨r, -, hregistration⟩ := ha.registration
  -- sequence ids are never given twice on one node, so the old forwarder is not replaced
  have hlt := h.allocated peer old hold
  have hne : f.1 ≠ relay_actor_id := by omega
  have hnow : w'.is_attached peer = true := by
    rw [is_attached, hregistration]
    rfl
  -- the old forwarder is still there, next to the new one
  have hmem : f ∈ w.relays.filter (fun f => decide (f.1 ≠ relay_actor_id)) :=
    List.mem_filter.2 ⟨hf, decide_eq_true hne⟩
  have hmem' : f ∈ (w.relays.filter fun f => decide (f.1 ≠ relay_actor_id)).filter
      fun f => decide (f.2.peer_id = peer) := List.mem_filter.2 ⟨hmem, decide_eq_true hpeer⟩
  have hpos := List.length_pos_of_mem hmem'
  rw [if_pos hnow, ← length_relays_to, hrelays, List.filter_append, List.length_append,
    List.filter_cons_of_pos (by simp [hrelay]), List.length_cons] at hone
  omega

/-- A sequence id that is taken silences the peer that has it. -/
theorem fresh_of_one_forwarder (h : w.Inv) (ha : Attaches w w' peer relay_actor_id)
    (hdetached : w.is_attached peer = false)
    (hone : ∀ other,
      (w'.forwarders_to other).length = if w'.is_attached other then 1 else 0) :
    ∀ f ∈ w.forwarders, f.1 ≠ relay_actor_id := by
  intro f hf hid
  have hmem := mem_relays hf
  obtain ⟨-, old, hold, hold_id⟩ := h.registered _ hmem
  obtain ⟨relay, hrelay, -, hrelays⟩ := ha.relays
  have hne := h.peer_ne_of_detached hmem hdetached
  have hnow : w'.is_attached f.2.relay.peer_id = true := by
    rw [is_attached, (ha.others _ hne).1, hold]
    rfl
  have hlength := hone f.2.relay.peer_id
  have hnone : (w'.relays.filter fun g => decide (g.2.peer_id = f.2.relay.peer_id)) = [] := by
    rw [List.filter_eq_nil_iff, hrelays]
    intro g hg hpeer
    rw [decide_eq_true_eq] at hpeer
    rw [List.mem_append, List.mem_singleton] at hg
    rcases hg with hg | rfl
    · obtain ⟨hg, hgid⟩ := List.mem_filter.1 hg
      rw [decide_eq_true_eq] at hgid
      rw [h.eq_of_peer hg hmem hpeer] at hgid
      exact hgid hid
    · exact hne (hpeer.symm.trans hrelay)
  rw [if_pos hnow, ← length_relays_to, hnone] at hlength
  cases hlength

theorem detach_nodes_of_ne (w : World) {peer other : String} (h : other ≠ peer) :
    (w.detach_remote_session peer).nodes other = w.nodes other := by
  rw [detach_remote_session, set_node_of_ne _ h]
  split <;> rfl

theorem detach_registration (w : World) (peer : String) :
    ((w.detach_remote_session peer).nodes peer).registration = none := by
  rw [detach_remote_session, set_node_self]

theorem detach_session_id (w : World) (peer : String) :
    (w.detach_remote_session peer).session_id = w.session_id := by
  dsimp only [detach_remote_session, set_node]
  split <;> rfl

/-- A forwarder that is left is not the one the peer has registered. -/
theorem mem_detach_forwarders {peer : String} {f : ℕ × EventForwarder} :
    f ∈ (w.detach_remote_session peer).forwarders ↔
      f ∈ w.forwarders ∧ ∀ r ∈ (w.nodes peer).registration, f.1 ≠ r.relay_actor_id := by
  dsimp only [detach_remote_session, set_node]
  rcases (w.nodes peer).registration with _ | r
  · simp
  · simp [unsubscribe_events]

theorem mem_detach_relays {peer : String} {f : ℕ × EventRelayActor} :
    f ∈ (w.detach_remote_session peer).relays ↔
      f ∈ w.relays ∧ ∀ r ∈ (w.nodes peer).registration, f.1 ≠ r.relay_actor_id := by
  simp only [relays, List.mem_map, mem_detach_forwarders]
  constructor
  · rintro ⟨g, ⟨hg, hid⟩, rfl⟩
    exact ⟨⟨g, hg, rfl⟩, hid⟩
  · rintro ⟨⟨g, hg, rfl⟩, hid⟩
    exact ⟨g, ⟨hg, hid⟩, rfl⟩

/-- Detaching a peer stops its forwarder and no other. -/
theorem Inv.detach (h : w.Inv) (peer : String) : (w.detach_remote_session peer).Inv := by
  have hne : ∀ other, ∀ r ∈ ((w.detach_remote_session peer).nodes other).registration,
      other ≠ peer := by
    rintro other r hr rfl
    rw [detach_registration] at hr
    cases hr
  constructor
  · refine h.distinct.sublist (List.Sublist.map _ (List.Sublist.map _ ?_))
    dsimp only [detach_remote_session, set_node]
    split
    · exact List.Sublist.refl _
    · exact List.filter_sublist
  · intro f hf
    obtain ⟨hf, hid⟩ := mem_detach_relays.1 hf
    obtain ⟨hs, r, hr, hrid⟩ := h.registered f hf
    have hpeer : f.2.peer_id ≠ peer := by
      rintro rfl
      exact hid r hr hrid.symm
    rw [detach_session_id, detach_nodes_of_ne w hpeer]
    exact ⟨hs, r, hr, hrid⟩
  · intro other r hr
    have hother := hne other r hr
    rw [detach_nodes_of_ne w hother] at hr
    obtain ⟨f, hf, hid, hpeer⟩ := h.forwarded other r hr
    refine ⟨f, mem_detach_relays.2 ⟨hf, ?_⟩, hid, hpeer⟩
    -- the forwarder of the peer that leaves is another one
    intro old hold hsame
    obtain ⟨g, hg, hgid, hgpeer⟩ := h.forwarded peer old hold
    have heq := List.inj_on_of_nodup_map h.distinct hf hg (hsame.trans hgid.symm)
    rw [heq, hgpeer] at hpeer
    exact hother hpeer.symm
  · intro other r hr
    have hother := hne other r hr
    rw [detach_nodes_of_ne w hother] at hr ⊢
    exact h.allocated other r hr

/-- **One call keeps the invariant**, where it meets the condition. -/
theorem Inv.step (h : w.Inv) (call : Call) (hcall : AttachesFresh w call) : (w.step call).Inv := by
  cases call with
  | Attach mesh skipped peer_label preferred_scope =>
      exact h.attach (attaches_attach_remote_session w mesh skipped peer_label preferred_scope)
        hcall.1 (fresh_relays hcall.2)
  | Detach peer => exact h.detach peer
  | Emit session_id kind => exact h.emit session_id kind
  | Forward relay_actor_id => exact h.forward relay_actor_id

/-! ## 2. What is due after one call -/

/-- What a call does to what is due: it adds what the call emits, for the peers that are
attached, and stores nothing for the others. -/
structure AddsDue (w w' : World) (kinds : List AgentEventKind) : Prop where
  attached : ∀ peer, w'.is_attached peer = true → ∃ source_node,
    w'.due peer =
      w.due peer ++ kinds.map fun kind => ⟨w.session_id, kind, .Remote, source_node⟩
  others : ∀ peer, w'.is_attached peer = false →
    (w'.nodes peer).journal = (w.nodes peer).journal

/-- The relay a forwarder sends to is one of the session. -/
theorem Inv.relay_session (h : w.Inv) {f : ℕ × EventForwarder} (hf : f ∈ w.forwarders) :
    f.2.relay.session_id = w.session_id :=
  (h.registered _ (mem_relays hf)).1

/-- What is due once the forwarder of a new relay is started. -/
theorem Attaches.due (ha : Attaches w w' peer relay_actor_id) :
    ∃ relay : EventRelayActor, relay.peer_id = peer ∧ relay.session_id = w.session_id ∧
      ∀ other, w'.due other = (w.start_forwarder relay_actor_id relay).catch_up.due other := by
  obtain ⟨relay, hrelay, hsession, hforwarders⟩ := ha.started
  refine ⟨relay, hrelay, hsession, ?_⟩
  intro other
  obtain ⟨hcaught_session, hcaught_nodes, -⟩ :=
    (w.start_forwarder relay_actor_id relay).catch_up_spec
  refine due_congr (ha.session_id.trans hcaught_session.symm) hforwarders ?_
  rw [hcaught_nodes, ha.journal]
  rfl

theorem Inv.addsDue_attach (h : w.Inv) (ha : Attaches w w' peer relay_actor_id)
    (hdetached : w.is_attached peer = false)
    (hfresh : ∀ f ∈ w.forwarders, f.1 ≠ relay_actor_id)
    (hspares : w.workspace_root.isSome = true → ∀ f ∈ w.forwarders, w.Spares f.2) :
    AddsDue w w' (w.workspace_root.toList.map .WorkspaceIndexReady) := by
  obtain ⟨relay, hrelay, hsession, hdue⟩ := ha.due
  refine ⟨?_, fun other _ => ha.journal other⟩
  intro other hattached
  have hto := w.forwarders_to_start relay hfresh other
  rw [hdue]
  by_cases hother : other = peer
  · -- the peer that attaches: its forwarder is new, and nothing was due but its journal
    subst hother
    have hnone := h.forwarders_to_of_not_attached hdetached
    rw [if_pos hrelay, hnone, List.nil_append] at hto
    have hnew : (w.start_forwarder relay_actor_id relay).Spares (.start relay) :=
      fun hfull => absurd hfull (Nat.not_succ_le_zero _)
    have hbefore : (w.start_forwarder relay_actor_id relay).due other = w.due other := by
      rw [due_of_singleton hto, due_of_nil hnone]
      exact List.append_nil _
    refine ⟨some relay.source_label, ?_⟩
    rw [due_catch_up hto hsession fun _ => hnew, hbefore]
    rfl
  · rw [if_neg (by rw [hrelay]; exact Ne.symm hother), List.append_nil] at hto
    have hbefore : w.is_attached other = true := by
      rw [is_attached, (ha.others other hother).1] at hattached
      exact hattached
    obtain ⟨f, hf, -, hf_to⟩ := h.forwarders_to_of_attached hbefore
    rw [hf_to] at hto
    have hkept : (w.start_forwarder relay_actor_id relay).due other = w.due other := by
      rw [due_of_singleton hto, due_of_singleton hf_to]
      rfl
    refine ⟨some f.2.relay.source_label, ?_⟩
    rw [due_catch_up hto (h.relay_session hf) fun hroot => hspares hroot f hf, hkept]
    rfl

theorem Inv.addsDue_emit (h : w.Inv) (session_id : String) (kind : AgentEventKind)
    (hspares : ∀ f ∈ w.forwarders, w.Spares f.2) :
    AddsDue w (w.emit session_id kind) (w.durable_kind session_id kind) := by
  refine ⟨?_, fun _ _ => rfl⟩
  intro peer hattached
  obtain ⟨f, hf, -, hto⟩ := h.forwarders_to_of_attached hattached
  refine ⟨some f.2.relay.source_label, ?_⟩
  rw [World.emit, due_publish hto (hspares f hf), stored_emitted w (h.relay_session hf)]

/-- The forwarders to a peer that stays attached are not touched. -/
theorem Inv.forwarders_to_detach (h : w.Inv) (peer : String) {other : String}
    (hattached : (w.detach_remote_session peer).is_attached other = true) :
    (w.detach_remote_session peer).forwarders_to other = w.forwarders_to other := by
  have hother : other ≠ peer := by
    rintro rfl
    rw [is_attached, detach_registration] at hattached
    cases hattached
  have hbefore : w.is_attached other = true := by
    rw [is_attached, detach_nodes_of_ne w hother] at hattached
    exact hattached
  obtain ⟨f, -, -, hto⟩ := h.forwarders_to_of_attached hbefore
  obtain ⟨g, hg, hgpeer, hto'⟩ := (h.detach peer).forwarders_to_of_attached hattached
  have hmem : g ∈ w.forwarders_to other :=
    List.mem_filter.2 ⟨(mem_detach_forwarders.1 hg).1, decide_eq_true hgpeer⟩
  rw [hto, List.mem_singleton] at hmem
  rw [hto, hto', hmem]

theorem Inv.addsDue_detach (h : w.Inv) (peer : String) :
    AddsDue w (w.detach_remote_session peer) [] := by
  have hjournal : ∀ other, ((w.detach_remote_session peer).nodes other).journal =
      (w.nodes other).journal := by
    intro other
    by_cases hother : other = peer
    · subst hother
      rw [detach_remote_session, set_node_self]
      split <;> rfl
    · rw [detach_nodes_of_ne w hother]
  refine ⟨?_, fun other _ => hjournal other⟩
  intro other hattached
  refine ⟨none, ?_⟩
  rw [due, due, h.forwarders_to_detach peer hattached, hjournal, List.map_nil, List.append_nil]
  have hstored : (w.detach_remote_session peer).pending = w.pending := by
    funext f
    rw [pending, pending]
    congr 1
    funext event
    rw [stored, stored, detach_session_id]
  rw [hstored]

theorem forwarders_to_set_receiver (w : World) (relay_actor_id : ℕ) (receiver : List AgentEvent)
    (peer : String) :
    (w.set_receiver relay_actor_id receiver).forwarders_to peer =
      (w.forwarders_to peer).map fun f =>
        if f.1 = relay_actor_id then (f.1, { f.2 with receiver := receiver }) else f := by
  rw [forwarders_to, set_receiver, List.filter_map, forwarders_to]
  congr 1
  refine List.filter_congr fun f _ => ?_
  rw [Function.comp_apply]
  split <;> rfl

/-- **A round of a peer's forwarder**: its receiver moves on, and what was due is due. -/
theorem Inv.forward_of_cons (h : w.Inv) {f : ℕ × EventForwarder} (hf : f ∈ w.forwarders)
    {event : AgentEvent} {receiver : List AgentEvent}
    (hreceiver : f.2.receiver = event :: receiver) :
    (w.forward f.1).forwarders_to f.2.relay.peer_id = [(f.1, { f.2 with receiver := receiver })] ∧
      (w.forward f.1).due f.2.relay.peer_id = w.due f.2.relay.peer_id := by
  obtain ⟨-, hto⟩ := h.forwarders_to_relay hf
  rcases forward_cases h.distinct f.1 with ⟨-, hempty⟩ | ⟨g, hg, hid, event', receiver', hg', hstep⟩
  · rw [hempty f hf rfl] at hreceiver
    cases hreceiver
  obtain rfl : g = f := forwarder_unique h.distinct hg hf hid
  rw [hreceiver] at hg'
  obtain ⟨rfl, rfl⟩ := List.cons.inj hg'
  have hto' : (w.forward g.1).forwarders_to g.2.relay.peer_id =
      [(g.1, { g.2 with receiver := receiver })] := by
    have hset := w.forwarders_to_set_receiver g.1 receiver g.2.relay.peer_id
    rw [hto, List.map_cons, if_pos rfl] at hset
    rw [hstep]
    exact hset
  refine ⟨hto', ?_⟩
  have hpending : w.pending g.2 = (w.stored g.2.relay event).toList ++
      w.pending { g.2 with receiver := receiver } := by
    rw [pending, pending, hreceiver, List.filterMap_cons]
    cases w.stored g.2.relay event <;> rfl
  rw [due_of_singleton hto', due_of_singleton hto, hpending, ← List.append_assoc, hstep]
  dsimp only
  rw [if_pos rfl]
  rfl

theorem Inv.addsDue_forward (h : w.Inv) (relay_actor_id : ℕ) :
    AddsDue w (w.forward relay_actor_id) [] := by
  rcases forward_cases h.distinct relay_actor_id with
    ⟨hstep, -⟩ | ⟨f, hf, rfl, event, receiver, hreceiver, hstep⟩
  · rw [hstep]
    exact ⟨fun _ _ => ⟨none, (List.append_nil _).symm⟩, fun _ _ => rfl⟩
  obtain ⟨hattached_f, hto_f⟩ := h.forwarders_to_relay hf
  have hregistration : ∀ peer, (w.forward f.1).is_attached peer = w.is_attached peer := by
    intro peer
    rw [hstep]
    rfl
  have hjournal : ∀ peer, f.2.relay.peer_id ≠ peer →
      ((w.forward f.1).nodes peer).journal = (w.nodes peer).journal := by
    intro peer hpeer
    rw [hstep]
    dsimp only
    rw [if_neg hpeer, List.append_nil]
  constructor
  · intro peer hattached
    refine ⟨none, ?_⟩
    rw [List.map_nil, List.append_nil]
    by_cases hpeer : f.2.relay.peer_id = peer
    · subst hpeer
      exact (h.forward_of_cons hf hreceiver).2
    · rw [hregistration] at hattached
      obtain ⟨g, hg, hgpeer, hto⟩ := h.forwarders_to_of_attached hattached
      -- the forwarder to this peer is another one
      have hid : g.1 ≠ f.1 := by
        intro hid
        rw [forwarder_unique h.distinct hg hf hid] at hgpeer
        exact hpeer hgpeer
      have hto' : (w.forward f.1).forwarders_to peer = [g] := by
        have hset := w.forwarders_to_set_receiver f.1 receiver peer
        rw [hto, List.map_cons, if_neg hid, List.map_nil] at hset
        rw [hstep]
        exact hset
      rw [due_of_singleton hto', due_of_singleton hto, hjournal peer hpeer, hstep]
      rfl
  · intro peer hattached
    rw [hregistration] at hattached
    refine hjournal peer ?_
    rintro rfl
    rw [hattached_f] at hattached
    cases hattached

/-- **One call adds what it emits to what is due**, where it meets the condition. -/
theorem Inv.addsDue (h : w.Inv) (call : Call) (hcall : Clean w call) :
    AddsDue w (w.step call) (w.emitted call) := by
  cases call with
  | Attach mesh skipped peer_label preferred_scope =>
      exact h.addsDue_attach
        (attaches_attach_remote_session w mesh skipped peer_label preferred_scope) hcall.1.1
        hcall.1.2 hcall.2
  | Detach peer => exact h.addsDue_detach peer
  | Emit session_id kind => exact h.addsDue_emit session_id kind hcall.2
  | Forward relay_actor_id => exact h.addsDue_forward relay_actor_id

/-- **A forwarder stores what is due** when it has taken what its receiver has. -/
theorem Inv.stores_due {receiver : List AgentEvent} (h : w.Inv) {f : ℕ × EventForwarder}
    (hf : f ∈ w.forwarders) (hreceiver : f.2.receiver = receiver) :
    ((run World.step w ((List.replicate receiver.length f.1).map .Forward)).nodes
      f.2.relay.peer_id).journal = w.due f.2.relay.peer_id := by
  -- on what the receiver has; a round takes the first of it and keeps what is due
  induction receiver generalizing w f with
  | nil =>
      obtain ⟨-, hto⟩ := h.forwarders_to_relay hf
      rw [due_of_singleton hto, pending, hreceiver]
      exact (List.append_nil _).symm
  | cons event receiver ih =>
      obtain ⟨hto, hdue⟩ := h.forward_of_cons hf hreceiver
      have hmem : (f.1, { f.2 with receiver := receiver }) ∈ (w.forward f.1).forwarders := by
        have hself := List.mem_singleton_self (f.1, { f.2 with receiver := receiver })
        rw [← hto] at hself
        exact (List.mem_filter.1 hself).1
      rw [← hdue]
      exact ih (f := (f.1, { f.2 with receiver := receiver })) (h.forward f.1) hmem rfl

theorem Inv.persisted (h : w.Inv) (peer : String) : ∃ rounds : List ℕ,
    ((run World.step w (rounds.map .Forward)).nodes peer).journal = w.due peer := by
  by_cases hattached : w.is_attached peer = true
  · obtain ⟨f, hf, rfl, -⟩ := h.forwarders_to_of_attached hattached
    exact ⟨_, h.stores_due hf rfl⟩
  · refine ⟨[], ?_⟩
    rw [due_of_nil (h.forwarders_to_of_not_attached (Bool.eq_false_iff.2 hattached))]
    rfl

/-- A forwarder that is not spared loses an event that was due. -/
theorem spares_of_length {peer : String} {f : ℕ × EventForwarder}
    (hto : w.forwarders_to peer = [f]) (hsession : f.2.relay.session_id = w.session_id)
    (session_id : String) (kind : AgentEventKind)
    (hlength : ((w.emit session_id kind).due peer).length =
      (w.due peer).length + (w.durable_kind session_id kind).length) : w.Spares f.2 := by
  by_contra hspares
  have hlost := length_due_publish hto hspares ⟨session_id, kind, .Local, none⟩
  rw [stored_emitted w hsession, List.length_map] at hlost
  rw [emit] at hlength
  omega

/-- A catch-up event that is due to every peer has lost no forwarder another one. -/
theorem Inv.spares_of_attach (h : w.Inv) (ha : Attaches w w' peer relay_actor_id)
    (hdetached : w.is_attached peer = false)
    (hfresh : ∀ f ∈ w.forwarders, f.1 ≠ relay_actor_id)
    (hlaw : ∀ other, w'.is_attached other = true → ∃ source_node, w'.due other =
      w.due other ++ (w.workspace_root.toList.map .WorkspaceIndexReady).map
        fun kind => ⟨w.session_id, kind, .Remote, source_node⟩)
    (hroot : w.workspace_root.isSome = true) : ∀ f ∈ w.forwarders, w.Spares f.2 := by
  intro f hf
  obtain ⟨relay, hrelay, -, hdue⟩ := ha.due
  obtain ⟨workspace_root, hworkspace⟩ := Option.isSome_iff_exists.1 hroot
  obtain ⟨hattached, hto⟩ := h.forwarders_to_relay hf
  have hne := h.peer_ne_of_detached (mem_relays hf) hdetached
  have hto' := w.forwarders_to_start relay hfresh f.2.relay.peer_id
  rw [hto, if_neg (by rw [hrelay]; exact Ne.symm hne), List.append_nil] at hto'
  have hkept : (w.start_forwarder relay_actor_id relay).due f.2.relay.peer_id =
      w.due f.2.relay.peer_id := by
    rw [due_of_singleton hto', due_of_singleton hto]
    rfl
  have hcaught : (w.start_forwarder relay_actor_id relay).catch_up =
      (w.start_forwarder relay_actor_id relay).emit w.session_id
        (.WorkspaceIndexReady workspace_root) := by
    simp only [catch_up, start_forwarder, hworkspace]
  have hattached' : w'.is_attached f.2.relay.peer_id = true := by
    rw [is_attached, (ha.others _ hne).1]
    exact hattached
  obtain ⟨source_node, hlength⟩ := hlaw _ hattached'
  rw [hdue, hcaught, hworkspace] at hlength
  have hstarted : (w.start_forwarder relay_actor_id relay).Spares f.2 := by
    refine spares_of_length hto' (h.relay_session hf) w.session_id
      (.WorkspaceIndexReady workspace_root) ?_
    rw [hlength, hkept, List.length_append, durable_kind, if_pos ⟨rfl, rfl⟩]
    rfl
  exact hstarted

/-- **One call keeps the law exactly where it meets the condition.** -/
theorem Inv.each_event_once_step (h : w.Inv) (call : Call) :
    EachEventOnce w call ↔ Clean w call := by
  constructor
  · intro hlaw
    cases call with
    | Attach mesh skipped peer_label preferred_scope =>
        have ha := attaches_attach_remote_session w mesh skipped peer_label preferred_scope
        have hdetached := detached_of_one_forwarder h ha (Nat.le_add_right _ _)
          (hlaw.one_forwarder _)
        have hfresh := fresh_of_one_forwarder h ha hdetached hlaw.one_forwarder
        refine ⟨⟨hdetached, hfresh⟩, ?_⟩
        exact h.spares_of_attach ha hdetached hfresh hlaw.due_once
    | Detach peer => exact ⟨trivial, trivial⟩
    | Emit session_id kind =>
        refine ⟨trivial, ?_⟩
        intro f hf
        obtain ⟨hattached, hto⟩ := h.forwarders_to_relay hf
        obtain ⟨source_node, hdue⟩ := hlaw.due_once f.2.relay.peer_id hattached
        refine spares_of_length hto (h.relay_session hf) session_id kind ?_
        have hlength := congrArg List.length hdue
        rw [List.length_append, List.length_map] at hlength
        exact hlength
    | Forward relay_actor_id => exact ⟨trivial, trivial⟩
  · intro hcall
    have hstep := h.step call hcall.1
    have hadds := h.addsDue call hcall
    exact ⟨hstep.one_forwarder, hadds.attached, hadds.others, hstep.persisted⟩

end World

/-! ## 3. Every sequence of calls -/

/-- **Attached peers see each event once at every call, exactly when every attach is by a
peer that is not attached, with a sequence id that no forwarder has, and no forwarder is so
far behind that an event of the session is lost to it.** -/
theorem each_event_once_iff (session_id : String) (workspace_root : Option String)
    (next_sequence_id : String → ℕ) (journal : String → List AgentEvent)
    (dht : RelayName → Option EventRelayActor) (calls : List Call) :
    Along World.step EachEventOnce
        (.new session_id workspace_root next_sequence_id journal dht) calls ↔
      Along World.step Clean
        (.new session_id workspace_root next_sequence_id journal dht) calls := by
  refine along_iff_of_invariant (fun w call hI => World.Inv.each_event_once_step hI call) ?_
    (World.inv_new session_id workspace_root next_sequence_id journal dht)
  intro w call hI hlaw
  exact hI.step call ((hI.each_event_once_step call).1 hlaw).1

/-- Nobody is attached, and the next actor of every node has the sequence id 7. -/
def two_nodes : World := .new "s" none (fun _ => 7) (fun _ => []) fun _ => none

/-- A peer attaches over the local network. -/
def attach_lan (peer_id : String) : Call :=
  .Attach ⟨peer_id, [.lan_default], List.cons_ne_nil _ _⟩ 0 peer_id none

/-- Two peers whose relays have one sequence id: the first one is silenced. A peer that
attaches twice sees every event twice, and the first forwarder runs on after it has
detached. -/
theorem events_not_once :
    ¬ Along World.step EachEventOnce two_nodes [attach_lan "a", attach_lan "b"] ∧
    ¬ Along World.step EachEventOnce two_nodes [attach_lan "a", attach_lan "a"] ∧
    ¬ EachEventOnce (run World.step two_nodes [attach_lan "a", attach_lan "a"])
        (.Detach "a") := by
  refine ⟨?_, ?_, ?_⟩
  · rintro ⟨-, hlaw, -⟩
    exact absurd (hlaw.one_forwarder "a") (by decide)
  · rintro ⟨-, hlaw, -⟩
    exact absurd (hlaw.one_forwarder "a") (by decide)
  · intro hlaw
    exact absurd (hlaw.one_forwarder "a") (by decide)

end Querymt.Relays
