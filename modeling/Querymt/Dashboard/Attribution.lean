/-
`Dashboard/Attribution.lean` -- each delegation is shown under its own tool call.

What an agent does goes to the group of its active delegation, which is unfinished if no delegation
to the agent has finished since the last request. The rows and groups of the pass only grow, and no
turn shows a row that stays with its delegation.

# Delegations are shown under their own tool calls

In every session that meets the condition the delegations are attached to their own calls, and
what an agent does is in the group of an unfinished delegation to it (`shows_delegations`).
-/
import Querymt.Dashboard.Pairing

set_option autoImplicit false

open Histories

namespace Querymt.ChatView

section

variable {issuer : String → String} {events : List EventItem} {all h : List Action} {s s' : State}

/-! ## 1. What an agent works on -/

theorem requested_before_finish (hs : Session issuer events) {after : List Action}
    (hsplit : actions events = h ++ after) {delegation_id : String} {failed : Bool} {time : ℤ}
    (hfinish : .Finished delegation_id failed time ∈ h)
    (hrequested : delegation_id ∈ requested (actions events)) : delegation_id ∈ requested h := by
  obtain ⟨first, last, rfl⟩ := List.append_of_mem hfinish
  rw [List.append_assoc, List.cons_append] at hsplit
  have hmem := (hs.started first _ _ hsplit delegation_id rfl).2 hrequested
  rw [requested, List.filterMap_append]
  exact List.mem_append_left _ hmem

/-- The delegation in the slot of an agent is unfinished. -/
theorem slot_unfinished (hs : Session issuer events) {after : List Action}
    (hsplit : actions events = h ++ after) {agent_id delegation_id : String}
    (hslot : slot (actions events) agent_id h = some delegation_id) :
    Unfinished agent_id delegation_id h := by
  -- the slot is read off the history from its end, so the induction is from there
  induction h using List.reverseRecOn generalizing after with
  | nil => cases hslot
  | append_singleton h a ih =>
      rw [List.append_assoc, List.singleton_append] at hsplit
      rw [slot_concat] at hslot
      have hold : slot (actions events) agent_id h = some delegation_id →
          (∀ failed time, a ≠ .Finished delegation_id failed time) →
          Unfinished agent_id delegation_id (h ++ [a]) := by
        intro hslot hne
        obtain ⟨hrequest, hopen⟩ := ih hsplit hslot
        refine ⟨List.mem_append_left _ hrequest, fun failed time hmem => ?_⟩
        obtain hmem | hmem := List.mem_append.1 hmem
        · exact hopen failed time hmem
        · exact hne failed time (List.mem_singleton.1 hmem).symm
      cases a with
      | Requested d target =>
          dsimp only at hslot
          by_cases htarget : target = agent_id
          · subst htarget
            rw [if_pos rfl] at hslot
            cases hslot
            refine ⟨List.mem_append_right _ (List.mem_singleton_self _), fun failed time hmem => ?_⟩
            have hmem' : Action.Finished delegation_id failed time ∈ h := by simpa using hmem
            -- an end before the request is of a delegation that is requested twice
            refine hs.fresh_request hsplit (requested_before_finish hs hsplit hmem' ?_)
            rw [hsplit]
            exact mem_requested.2 ⟨target, List.mem_append_right _ List.mem_cons_self⟩
          · rw [if_neg htarget] at hslot
            exact hold hslot fun _ _ heq => by cases heq
      | Finished d failed time =>
          dsimp only at hslot
          split_ifs at hslot with hcontains
          refine hold hslot fun failed' time' heq => hcontains ?_
          cases heq
          refine List.contains_iff_mem.2 ?_
          rw [hsplit]
          exact List.mem_append_left _ (ih hsplit hslot).1
      | _ => exact hold hslot fun _ _ heq => by cases heq

/-- If no delegation to an agent has finished since the last request, its slot is taken. -/
theorem slot_of_none_finished (hs : Session issuer events) {after : List Action}
    (hsplit : actions events = h ++ after) {agent_id : String}
    (hnone : NoneFinishedSince agent_id h) :
    ∃ delegation_id, slot (actions events) agent_id h = some delegation_id := by
  obtain ⟨first, d, last, rfl, hlast⟩ := hnone
  have hkeep : ∀ a ∈ last, ∀ finished failed time, a = .Finished finished failed time →
      (actions events).contains (.Requested finished agent_id) = false := by
    rintro a ha finished failed time rfl
    rw [List.contains_eq_mem, decide_eq_false_iff_not]
    intro hmem
    have hfinish : Action.Finished finished failed time ∈
        first ++ .Requested d agent_id :: last :=
      List.mem_append_right _ (List.mem_cons_of_mem _ ha)
    obtain ⟨agent_id', hrequest⟩ := mem_requested.1
      (requested_before_finish hs hsplit hfinish (mem_requested.2 ⟨_, hmem⟩))
    have hagent := hs.agent_unique hmem (by rw [hsplit]; exact List.mem_append_left _ hrequest)
    exact hlast finished failed time ha (hagent ▸ hrequest)
  rw [List.append_cons]
  clear hsplit hlast
  induction last using List.reverseRecOn with
  | nil => exact ⟨d, by rw [List.append_nil, slot_concat]; exact if_pos rfl⟩
  | append_singleton last a ih =>
      obtain ⟨d', hd'⟩ := ih fun a' ha' => hkeep a' (List.mem_append_left _ ha')
      rw [← List.append_assoc, slot_concat]
      cases a with
      | Requested d'' target =>
          dsimp only
          by_cases htarget : target = agent_id
          · exact ⟨d'', if_pos htarget⟩
          · exact ⟨d', (if_neg htarget).trans hd'⟩
      | Finished finished failed time =>
          dsimp only
          rw [hkeep _ (List.mem_append_right _ (List.mem_singleton_self _)) finished failed time rfl]
          exact ⟨d', hd'⟩
      | _ => exact ⟨d', hd'⟩

/-! ## 2. Rows and groups only grow -/

/-- What later results do not change in a row. -/
def EventRow.core (row : EventRow) : EventItem × Option String × Bool :=
  (row.event, row.delegation_group_id, row.is_delegate_tool_call)

structure Grows (s s' : State) : Prop where
  rows : s.rows.map EventRow.core <+: s'.rows.map EventRow.core
  groups : ∀ key group, s.delegation_groups key = some group →
    ∃ group', s'.delegation_groups key = some group' ∧
      group.events.map EventRow.event <+: group'.events.map EventRow.event

theorem Grows.refl (s : State) : Grows s s :=
  ⟨List.prefix_rfl, fun _ group hgroup => ⟨group, hgroup, List.prefix_rfl⟩⟩

theorem Grows.trans {s'' : State} (h : Grows s s') (h' : Grows s' s'') : Grows s s'' where
  rows := h.rows.trans h'.rows
  groups key group hgroup := by
    obtain ⟨group', hgroup', hprefix⟩ := h.groups key group hgroup
    obtain ⟨group'', hgroup'', hprefix'⟩ := h'.groups key group' hgroup'
    exact ⟨group'', hgroup'', hprefix.trans hprefix'⟩

/-- The two states have the same rows and groups. -/
theorem Grows.of_eq (hrows : s'.rows = s.rows)
    (hgroups : s'.delegation_groups = s.delegation_groups) :
    Grows s s' := by
  refine ⟨by rw [hrows], fun key group hgroup => ⟨group, ?_, List.prefix_rfl⟩⟩
  rw [hgroups, hgroup]

theorem Grows.modify_group (s : State) (key : String)
    {f : DelegationGroupInfo → DelegationGroupInfo}
    (hf : ∀ group, group.events.map EventRow.event <+: (f group).events.map EventRow.event) :
    Grows s (s.modify_group key f) := by
  refine ⟨List.prefix_rfl, fun key' group hgroup => ?_⟩
  by_cases hkey : key' = key
  · subst hkey
    exact ⟨f group, by rw [State.modify_group_self, hgroup]; rfl, hf group⟩
  · exact ⟨group, by rw [State.modify_group_of_ne s f hkey, hgroup], List.prefix_rfl⟩

theorem Grows.push_row (s : State) (row : EventRow) : Grows s (s.push_row row) := by
  refine ⟨?_, fun key group hgroup => ⟨group, hgroup, List.prefix_rfl⟩⟩
  rw [State.push_row, List.map_append]
  exact List.prefix_append ..

theorem Grows.push_to_active (s : State) (active : Option String) (names_agent : Bool)
    (row : EventRow) : Grows s (s.push_to_active active names_agent row) := by
  cases active with
  | none => exact .refl s
  | some group_id =>
      refine .modify_group s group_id fun group => ?_
      rw [List.map_append]
      exact List.prefix_append ..

theorem core_modify (rows : List EventRow) (i : ℕ) (result : EventItem) :
    (rows.modify i (EventRow.with_result result)).map EventRow.core = rows.map EventRow.core :=
  map_modify_of_eq EventRow.core (EventRow.with_result result) (fun _ => rfl) rows i

theorem event_modify (rows : List EventRow) (i : ℕ) (result : EventItem) :
    (rows.modify i (EventRow.with_result result)).map EventRow.event = rows.map EventRow.event :=
  map_modify_of_eq EventRow.event (EventRow.with_result result) (fun _ => rfl) rows i

theorem attach_result_core (s : State) (key : String) (row_index : ℕ) (result : EventItem) :
    (s.attach_result key row_index result).rows.map EventRow.core = s.rows.map EventRow.core := by
  have hrows : (s.attach_result key row_index result).rows =
      s.rows.modify row_index (EventRow.with_result result) := by
    unfold State.attach_result
    dsimp only
    split <;> rfl
  rw [hrows, core_modify]

theorem Grows.attach_result (s : State) (key : String) (row_index : ℕ) (result : EventItem) :
    Grows s (s.attach_result key row_index result) := by
  have hrows : Grows s { s with rows := s.rows.modify row_index (EventRow.with_result result) } := by
    refine ⟨?_, fun _ group hgroup => ⟨group, hgroup, List.prefix_rfl⟩⟩
    rw [core_modify]
  have hmerged := hrows.trans (Grows.modify_group _ key
    (f := fun group =>
      { group with
        delegate_event := group.delegate_event.with_result result
        status := if result.is_failed then .failed else group.status })
    fun _ => List.prefix_rfl)
  unfold State.attach_result
  dsimp only
  split
  · exact hmerged
  · refine hmerged.trans (.modify_group _ _ fun group => ?_)
    rw [event_modify]

theorem Grows.ensure_delegation_group (s : State) (key : String) (event : EventItem) :
    Grows s (s.ensure_delegation_group key event) := by
  unfold State.ensure_delegation_group
  split
  · exact .refl s
  · next hnone =>
    refine ⟨List.prefix_rfl, fun key' group hgroup => ⟨group, ?_, List.prefix_rfl⟩⟩
    have hkey : key' ≠ key := by
      rintro rfl
      rw [hnone] at hgroup
      cases hgroup
    exact (Function.update_of_ne hkey ..).trans hgroup

theorem Grows.open_delegation (s : State) (key : String) (event : EventItem) (row : EventRow) :
    Grows s (s.open_delegation key event row) := by
  have hqueued : Grows s (s.queue_delegation event.get_delegate_target_agent_id key) := by
    rw [queue_delegation_same]
    exact .of_eq rfl rfl
  exact (hqueued.trans (.ensure_delegation_group ..)).trans
    (.modify_group _ _ fun _ => List.prefix_rfl)

theorem Grows.set_active (s : State) (target_agent_id delegation_key : Option String) :
    Grows s (s.set_active target_agent_id delegation_key) := by
  unfold State.set_active
  split <;> exact .of_eq rfl rfl

theorem Grows.on_requested (s : State) (event : EventItem) : Grows s (s.on_requested event) := by
  unfold State.on_requested
  cases event.delegation_of .requested with
  | none => exact .refl s
  | some delegation_id =>
      have htaken : Grows s (s.take_for event.delegation_target_agent_id).2 := by
        unfold State.take_for
        split <;> exact .of_eq rfl rfl
      refine Grows.trans ?_ (.set_active ..)
      refine Grows.trans ?_ (.modify_group _ _ fun _ => List.prefix_rfl)
      refine Grows.trans ?_ (.ensure_delegation_group ..)
      exact htaken.trans (.of_eq rfl rfl)

theorem Grows.on_forked (s : State) (event : EventItem) : Grows s (s.on_forked event) := by
  unfold State.on_forked
  split
  · exact .modify_group _ _ fun _ => List.prefix_rfl
  · exact .refl s

theorem Grows.on_finished (s : State) (type : DelegationEventType) (finished : Status → Status)
    (event : EventItem) : Grows s (s.on_finished type finished event) := by
  unfold State.on_finished
  cases event.delegation_of type with
  | none => exact .refl s
  | some delegation_id =>
      dsimp only
      split
      · exact .refl s
      · refine Grows.trans ?_ (.set_active ..)
        exact .modify_group s _ fun _ => List.prefix_rfl

theorem Grows.on_delegation (s : State) (event : EventItem) : Grows s (s.on_delegation event) := by
  unfold State.on_delegation State.on_failed State.on_completed
  refine Grows.trans ?_ (.on_finished ..)
  refine Grows.trans ?_ (.on_finished ..)
  exact (Grows.on_requested s event).trans (.on_forked _ event)

@[simp] theorem set_active_rows (s : State) (target_agent_id delegation_key : Option String) :
    (s.set_active target_agent_id delegation_key).rows = s.rows := by
  unfold State.set_active
  split <;> rfl

@[simp] theorem modify_group_rows (s : State) (key : String)
    (f : DelegationGroupInfo → DelegationGroupInfo) : (s.modify_group key f).rows = s.rows := rfl

@[simp] theorem ensure_delegation_group_rows (s : State) (key : String) (event : EventItem) :
    (s.ensure_delegation_group key event).rows = s.rows := by
  unfold State.ensure_delegation_group
  split <;> rfl

@[simp] theorem take_for_rows (s : State) (target_agent_id : Option String) :
    (s.take_for target_agent_id).2.rows = s.rows := by
  unfold State.take_for
  split <;> rfl

@[simp] theorem push_to_active_rows (s : State) (active : Option String) (names_agent : Bool)
    (row : EventRow) : (s.push_to_active active names_agent row).rows = s.rows := by
  unfold State.push_to_active
  split <;> rfl

theorem on_finished_rows (s : State) (type : DelegationEventType) (finished : Status → Status)
    (event : EventItem) : (s.on_finished type finished event).rows = s.rows := by
  unfold State.on_finished
  split
  · rfl
  · dsimp only
    split
    · rfl
    · simp

/-- The delegation events leave the rows as they are. -/
theorem on_delegation_rows (s : State) (event : EventItem) :
    (s.on_delegation event).rows = s.rows := by
  have hrequested : (s.on_requested event).rows = s.rows := by
    unfold State.on_requested
    split
    · rfl
    · simp [State.map_delegation]
  have hforked : ((s.on_requested event).on_forked event).rows = (s.on_requested event).rows := by
    unfold State.on_forked
    split <;> rfl
  unfold State.on_delegation State.on_completed State.on_failed
  rw [on_finished_rows, on_finished_rows, hforked, hrequested]

/-! ## 3. The row of an event -/

theorem Grows.attach_pending_result (s : State) (key : String) :
    Grows s (s.attach_pending_result key) := by
  unfold State.attach_pending_result
  split
  · exact .refl s
  · refine Grows.trans ?_ (.attach_result ..)
    exact .of_eq rfl rfl

theorem attach_pending_result_core (s : State) (key : String) :
    (s.attach_pending_result key).rows.map EventRow.core = s.rows.map EventRow.core := by
  unfold State.attach_pending_result
  split
  · rfl
  · rw [attach_result_core]

theorem Grows.on_event (s : State) (infer_tool_name : EventItem → Option String)
    (event : EventItem) : Grows s (s.on_event infer_tool_name event) := by
  unfold State.on_event
  split
  · unfold State.on_system
    split
    · exact .refl s
    · exact .push_row ..
  · refine (Grows.on_delegation s event).trans ?_
    unfold State.on_tool_call
    refine Grows.trans ?_ (.attach_pending_result ..)
    refine Grows.trans ?_ (.push_row ..)
    split
    · refine Grows.trans ?_ (.open_delegation ..)
      exact .of_eq rfl rfl
    · refine Grows.trans ?_ (.push_to_active ..)
      exact .of_eq rfl rfl
  · refine (Grows.on_delegation s event).trans ?_
    unfold State.on_tool_result
    split
    · exact (Grows.attach_result ..).trans (.of_eq rfl rfl)
    · refine Grows.trans ?_ (.push_row ..)
      refine Grows.trans ?_ (.push_to_active ..)
      split <;> exact .of_eq rfl rfl
  · refine (Grows.on_delegation s event).trans ?_
    refine Grows.trans ?_ (.push_row ..)
    exact (Grows.push_to_active ..).trans (.of_eq rfl rfl)
  · refine (Grows.on_delegation s event).trans ?_
    refine Grows.trans ?_ (.push_row ..)
    exact (Grows.push_to_active ..).trans (.of_eq rfl rfl)

theorem grows_build (infer_tool_name : EventItem → Option String) (before after : List EventItem) :
    Grows (build_event_rows_with_delegations infer_tool_name before)
      (build_event_rows_with_delegations infer_tool_name (before ++ after)) := by
  unfold build_event_rows_with_delegations
  rw [List.foldl_append]
  generalize before.foldl (fun s event => s.on_event infer_tool_name event) State.new = s
  induction after generalizing s with
  | nil => exact .refl s
  | cons event after ih => exact (Grows.on_event s infer_tool_name event).trans (ih _)

/-- The last event is in the group of a key. -/
def In (s : State) (key : String) (event : EventItem) : Prop :=
  ∃ group, s.delegation_groups key = some group ∧ event ∈ group.events.map EventRow.event

theorem In.grows {key : String} {event : EventItem} (h : In s key event) (hgrows : Grows s s') :
    In s' key event := by
  obtain ⟨group, hgroup, hmem⟩ := h
  obtain ⟨group', hgroup', hprefix⟩ := hgrows.groups key group hgroup
  exact ⟨group', hgroup', hprefix.subset hmem⟩

theorem in_push_to_active {key : String} {group : DelegationGroupInfo} (names_agent : Bool)
    (row : EventRow) (hgroup : s.delegation_groups key = some group) :
    In (s.push_to_active (some key) names_agent row) key row.event := by
  have hpushed : (s.push_to_active (some key) names_agent row).delegation_groups key = _ :=
    State.modify_group_self ..
  rw [hgroup] at hpushed
  refine ⟨_, hpushed, ?_⟩
  rw [List.map_append]
  exact List.mem_append_right _ (List.mem_singleton_self _)

/-- **The row of an event** of an agent with an active delegation, and its place in the group. -/
theorem on_event_placed (infer_tool_name : EventItem → Option String) {before : List EventItem}
    {event : EventItem} {key : String} {group : DelegationGroupInfo}
    (hcalled : ∀ key, ((s.on_delegation event).tool_call_map key).isSome ↔
      key ∈ calls (actions before))
    (hactive : (s.on_delegation event).active_delegation_key event = some key)
    (hgroup : (s.on_delegation event).delegation_groups key = some group)
    (hshown : Shown before event) (hsystem : event.type ≠ .system)
    (hdelegate : ¬ (event.type = .tool_call ∧ event.is_delegate_tool_call = true)) :
    (s.on_event infer_tool_name event).rows.map EventRow.core =
        s.rows.map EventRow.core ++ [(event, some key, false)] ∧
      In (s.on_event infer_tool_name event) key event := by
  rw [← on_delegation_rows s event]
  -- a row that goes to the active delegation is the last one, and is in its group
  have hplaced : ∀ (t : State) (names_agent : Bool) (row : EventRow),
      t.delegation_groups = (s.on_delegation event).delegation_groups →
      t.rows = (s.on_delegation event).rows → row.core = (event, some key, false) →
      ((t.push_to_active (some key) names_agent row).push_row row).rows.map EventRow.core =
          (s.on_delegation event).rows.map EventRow.core ++ [(event, some key, false)] ∧
        In ((t.push_to_active (some key) names_agent row).push_row row) key event := by
    intro t names_agent row hgroups hrows hcore
    refine ⟨?_, ?_⟩
    · rw [State.push_row, List.map_append, push_to_active_rows, hrows, List.map_singleton, hcore]
    · have hevent : row.event = event := congrArg Prod.fst hcore
      rw [← hevent]
      exact (in_push_to_active names_agent row (by rw [hgroups, hgroup])).grows (.push_row ..)
  unfold State.on_event
  cases htype : event.type with
  | system => exact absurd htype hsystem
  | tool_call =>
      have hplain : event.is_delegate_tool_call = false :=
        Bool.eq_false_of_not_eq_true fun h => hdelegate ⟨htype, h⟩
      dsimp only
      unfold State.on_tool_call
      dsimp only
      rw [if_neg (by rw [hplain]; exact Bool.false_ne_true), hactive]
      have hcore : ((s.on_delegation event).call_row infer_tool_name event).core =
          (event, some key, false) := by
        simp [EventRow.core, State.call_row, hplain, hactive]
      obtain ⟨hrows, hin⟩ := hplaced
        { s.on_delegation event with
          tool_call_map := Function.update (s.on_delegation event).tool_call_map event.tool_call_key
            (some ⟨event.id, ((s.on_delegation event).call_row infer_tool_name event).depth,
              (s.on_delegation event).rows.length⟩) }
        true ((s.on_delegation event).call_row infer_tool_name event) rfl rfl hcore
      exact ⟨(attach_pending_result_core ..).trans hrows, hin.grows (.attach_pending_result ..)⟩
  | tool_result =>
      have hearly : ((truthy event.tool_call_id).bind fun key =>
          ((s.on_delegation event).tool_call_map key).map fun e => (key, e)) = none := by
        -- only a result that comes before its call has a row of its own
        unfold Shown at hshown
        rw [htype] at hshown
        cases hkey : truthy event.tool_call_id with
        | none => rfl
        | some key =>
            rw [Option.bind_some, Option.map_eq_none_iff, ← Option.not_isSome_iff_eq_none, hcalled]
            exact hshown key hkey
      dsimp only
      unfold State.on_tool_result
      rw [hearly, hactive]
      refine hplaced _ false _ ?_ ?_ ?_
      · split <;> rfl
      · split <;> rfl
      · exact congrArg (fun key => (event, key, false)) hactive
  | user =>
      dsimp only
      unfold State.on_message
      rw [hactive]
      obtain ⟨hrows, hin⟩ := hplaced (s.on_delegation event) true
        ((s.on_delegation event).message_row event) rfl rfl
        (congrArg (fun key => (event, key, false)) hactive)
      exact ⟨hrows, hin⟩
  | agent =>
      dsimp only
      unfold State.on_message
      rw [hactive]
      obtain ⟨hrows, hin⟩ := hplaced (s.on_delegation event) true
        ((s.on_delegation event).message_row event) rfl rfl
        (congrArg (fun key => (event, key, false)) hactive)
      exact ⟨hrows, hin⟩

/-- A call or an answer comes last, and leaves the slots as they are. -/
theorem actions_split {event : EventItem} (htype : event.type ≠ .system) :
    ∃ last, event.actions = event.delegation_actions ++ last ∧
      ∀ agent_id h, slot all agent_id (h ++ last) = slot all agent_id h := by
  unfold EventItem.actions
  cases hcase : event.type with
  | system => exact absurd hcase htype
  | tool_call =>
      refine ⟨[event.call], rfl, fun agent_id h => ?_⟩
      rw [slot_concat]
      unfold EventItem.call
      split_ifs <;> rfl
  | tool_result =>
      refine ⟨event.answers, rfl, fun agent_id h => ?_⟩
      unfold EventItem.answers
      split
      · rw [slot_concat]
      · rw [List.append_nil]
  | user => exact ⟨[], (List.append_nil _).symm, fun agent_id h => by rw [List.append_nil]⟩
  | agent => exact ⟨[], (List.append_nil _).symm, fun agent_id h => by rw [List.append_nil]⟩

theorem calls_delegation_actions (event : EventItem) (h : List Action) :
    calls (h ++ event.delegation_actions) = calls h := by
  have hnone : calls event.delegation_actions = [] := by
    unfold calls
    rw [List.filterMap_eq_nil_iff]
    intro a ha
    simp only [EventItem.delegation_actions, List.mem_append, EventItem.requests, EventItem.forks,
      EventItem.ends] at ha
    rcases ha with ((ha | ha) | ha) | ha <;> split at ha <;>
      first
      | exact absurd ha List.not_mem_nil
      | (rw [List.mem_singleton.1 ha]; rfl)
  rw [calls, List.filterMap_append]
  exact (congrArg _ hnone).trans (List.append_nil _)

/-- What holds of a row when an event gets it holds of that row in the end. -/
theorem row_of_prefix {rows all : List EventRow} {core : EventItem × Option String × Bool}
    (h : rows.map EventRow.core ++ [core] <+: all.map EventRow.core) :
    ∃ row, all[rows.length]? = some row ∧ row.core = core := by
  obtain ⟨rest, hrest⟩ := h
  have hget : (all.map EventRow.core)[rows.length]? = some core := by
    rw [← hrest, List.append_assoc, List.getElem?_append_right (by simp)]
    simp
  rw [List.getElem?_map] at hget
  obtain ⟨row, hrow, hcore⟩ := Option.map_eq_some_iff.1 hget
  exact ⟨row, hrow, hcore⟩

/-- A shown event of an agent that works on a delegation is placed in a group of its own. -/
theorem placed_of_works (hs : Session issuer events) (hsep : Separable issuer events)
    (infer_tool_name : EventItem → Option String) {before after : List EventItem}
    {event : EventItem} {agent_id : String} (hsplit : events = before ++ event :: after)
    (hworks : Works before event agent_id) :
    Placed issuer infer_tool_name events before event agent_id := by
  obtain ⟨hagent, hshown, -⟩ := id hworks
  obtain ⟨hsystem, hdelegate, hnone⟩ := hsep.apart before event after hsplit agent_id hworks
  have hactions : actions (before ++ [event]) = actions before ++ event.actions := by
    simp [actions]
  have hwhole : actions events = actions (before ++ [event]) ++ actions after := by
    rw [hsplit]
    simp [actions]
  -- the slot is that of the moment at which the event is placed
  obtain ⟨last, hlast, hslot⟩ := @actions_split (actions events) event hsystem
  obtain ⟨delegation_id, hid⟩ := slot_of_none_finished hs hwhole hnone
  have hunfinished := slot_unfinished hs hwhole hid
  rw [hactions, hlast, ← List.append_assoc, hslot] at hid
  have hsplit' : actions events = actions before ++ event.delegation_actions ++
      (last ++ actions after) := by
    rw [hwhole, hactions, hlast]
    simp only [List.append_assoc]
  have hinv := (inv_build hs hsep infer_tool_name hsplit).on_delegation hs hsep
    (by rw [hsplit]; exact List.mem_append_right _ List.mem_cons_self) hsystem hsplit'
  generalize hbuilt : build_event_rows_with_delegations infer_tool_name before = s at hinv
  have hrequest : Action.Requested delegation_id agent_id ∈ actions events := by
    rw [hwhole]
    exact List.mem_append_left _ hunfinished.1
  have hcall := issuer_called hs hsplit' (slot_unfinished hs hsplit' hid).1
  have hnamed : issuer delegation_id ≠ "" := by
    intro heq
    refine hs.keys_named ?_
    rw [← heq, hsplit', calls, List.filterMap_append]
    exact List.mem_append_left _ (calls_of_delegate_calls hcall)
  have hactive : (s.on_delegation event).active_delegation_key event =
      some (issuer delegation_id) := by
    unfold State.active_delegation_key
    rw [hagent, truthy_eq_some.2 ⟨rfl, agent_named hrequest⟩, Option.bind_some, hinv.active, hid,
      Option.map_some]
    exact truthy_eq_some.2 ⟨rfl, hnamed⟩
  obtain ⟨group, hgroup, -⟩ :=
    Option.map_eq_some_iff.1 ((hinv.grouped (issuer delegation_id)).trans (if_pos hcall))
  have hcalled : ∀ key, ((s.on_delegation event).tool_call_map key).isSome ↔
      key ∈ calls (actions before) := by
    intro key
    rw [hinv.called, calls_delegation_actions]
  obtain ⟨hrows, hin⟩ := on_event_placed infer_tool_name hcalled hactive hgroup hshown hsystem
    hdelegate
  have hgrows := grows_build infer_tool_name (before ++ [event]) after
  have hstep : build_event_rows_with_delegations infer_tool_name (before ++ [event]) =
      s.on_event infer_tool_name event := by
    rw [← hbuilt]
    exact List.foldl_concat ..
  rw [hstep, List.append_assoc, List.singleton_append, ← hsplit] at hgrows
  have hprefix := hgrows.rows
  rw [hrows] at hprefix
  obtain ⟨row, hrow, hcore⟩ := row_of_prefix hprefix
  refine ⟨delegation_id, hunfinished, ⟨row, by rw [hbuilt]; exact hrow, ?_, ?_, ?_⟩,
    hin.grows hgrows⟩
  · exact congrArg Prod.fst hcore
  · exact congrArg (fun core => core.2.1) hcore
  · have hgroup_id : row.delegation_group_id = some (issuer delegation_id) :=
      congrArg (fun core => core.2.1) hcore
    have hplain : row.is_delegate_tool_call = false := congrArg (fun core => core.2.2) hcore
    unfold EventRow.is_hidden
    rw [hgroup_id, hplain, truthy_eq_some.2 ⟨rfl, hnamed⟩]
    rfl

end

/-! ## 4. Turns -/

section

variable {timeline : List ModelTimelineEntry}
  {delegation_groups : String → Option DelegationGroupInfo}

theorem mem_add_to_turn {turn : Turn} {row row' : EventRow}
    (h : row' ∈ (add_to_turn delegation_groups turn row).rows) : row' ∈ turn.rows ∨ row' = row := by
  have hrows : (add_to_turn delegation_groups turn row).rows = turn.rows ∨
      (add_to_turn delegation_groups turn row).rows =
        turn.user_message.toList ++ (turn.agent_messages ++ [row]) ++ turn.tool_calls ∨
      (add_to_turn delegation_groups turn row).rows =
        turn.user_message.toList ++ turn.agent_messages ++ (turn.tool_calls ++ [row]) := by
    unfold add_to_turn
    dsimp only
    cases model_label row.event <;> dsimp only [Turn.rows] <;> split_ifs <;>
      first
      | exact .inl rfl
      | exact .inr (.inl rfl)
      | exact .inr (.inr rfl)
  rcases hrows with hrows | hrows | hrows <;> rw [hrows] at h
  · exact .inl h
  · simp only [List.mem_append, List.mem_singleton] at h
    simp only [Turn.rows, List.mem_append]
    tauto
  · simp only [List.mem_append, List.mem_singleton] at h
    simp only [Turn.rows, List.mem_append]
    tauto

/-- All rows that the turns show so far. -/
def TurnsState.rows (s : TurnsState) : List EventRow :=
  s.turns.flatMap Turn.rows ++ s.current_turn.toList.flatMap Turn.rows

theorem mem_add_row {s : TurnsState} {row row' : EventRow}
    (h : row' ∈ (add_row timeline delegation_groups s row).rows) :
    row' ∈ s.rows ∨ (row' = row ∧ row.is_hidden = false) := by
  -- only a visible row opens a turn or joins one
  unfold add_row at h
  by_cases hhidden : row.is_hidden = true
  · rw [if_pos hhidden] at h
    exact .inl h
  · rw [if_neg hhidden] at h
    have hvisible : row.is_hidden = false := Bool.eq_false_of_not_eq_true hhidden
    by_cases huser : row.event.type = .user
    · rw [if_pos huser] at h
      cases hcurrent : s.current_turn with
      | none =>
          simp only [TurnsState.rows, hcurrent, Option.map_none, Option.toList_none,
            List.append_nil, Option.toList_some, List.flatMap_cons, List.flatMap_nil, Turn.rows,
            start_turn, List.mem_append, List.mem_singleton] at h ⊢
          tauto
      | some turn =>
          simp only [TurnsState.rows, hcurrent, Option.map_some, Option.toList_some,
            List.flatMap_append, List.flatMap_cons, List.flatMap_nil, List.append_nil, Turn.rows,
            start_turn, close_turn, List.mem_append, List.mem_singleton] at h ⊢
          tauto
    · rw [if_neg huser] at h
      cases hcurrent : s.current_turn with
      | some turn =>
          simp only [hcurrent, TurnsState.rows, Option.toList_some, List.flatMap_cons,
            List.flatMap_nil, List.append_nil, List.mem_append] at h ⊢
          obtain h | h := h
          · exact .inl (.inl h)
          · obtain h | h := mem_add_to_turn h
            · exact .inl (.inr h)
            · exact .inr ⟨h, hvisible⟩
      | none =>
          simp only [hcurrent] at h
          split_ifs at h with hmessage
          · simp only [TurnsState.rows, hcurrent, Option.toList_some, Option.toList_none,
              List.flatMap_cons, List.flatMap_nil, List.append_nil, Turn.rows, start_turn,
              List.mem_append, List.mem_singleton] at h ⊢
            tauto
          · exact .inl h

theorem mem_rows_of_fold {rows : List EventRow} {s : TurnsState} {row : EventRow}
    (h : row ∈ (rows.foldl (add_row timeline delegation_groups) s).rows) :
    row ∈ s.rows ∨ row ∈ rows.filter fun row => !row.is_hidden := by
  induction rows generalizing s with
  | nil => exact .inl h
  | cons first rows ih =>
      obtain h | h := ih h
      · obtain h | ⟨rfl, hvisible⟩ := mem_add_row h
        · exact .inl h
        · exact .inr (List.mem_filter.2 ⟨List.mem_cons_self, by rw [hvisible]; rfl⟩)
      · obtain ⟨hmem, hvisible⟩ := List.mem_filter.1 h
        exact .inr (List.mem_filter.2 ⟨List.mem_cons_of_mem _ hmem, hvisible⟩)

/-- A compaction changes no row. -/
theorem attach_compaction_rows (turns : List Turn) (compactions : List TurnCompaction) :
    (compactions.foldl attach_compaction turns).flatMap Turn.rows = turns.flatMap Turn.rows := by
  induction compactions generalizing turns with
  | nil => rfl
  | cons compaction compactions ih =>
      rw [List.foldl_cons, ih]
      unfold attach_compaction
      dsimp only
      split_ifs
      · refine congrArg List.flatten (map_modify_of_eq Turn.rows _ ?_ _ _)
        exact fun _ => rfl
      · rfl

/-- **No turn shows a row that stays with its delegation.** -/
theorem build_turns_rows (infer_tool_name : EventItem → Option String) (events : List EventItem)
    (session_thinking_agent_id : Option String) :
    ((build_turns infer_tool_name events session_thinking_agent_id).turns.flatMap Turn.rows).Subset
      ((build_event_rows_with_delegations infer_tool_name events).rows.filter
        fun row => !row.is_hidden) := by
  intro row hrow
  unfold build_turns at hrow
  dsimp only at hrow
  rw [attach_compaction_rows] at hrow
  generalize hfold : (build_event_rows_with_delegations infer_tool_name events).rows.foldl
    (add_row (build_model_timeline events)
      (build_event_rows_with_delegations infer_tool_name events).delegation_groups)
    ⟨[], none, 0⟩ = s at hrow
  have hshown : row ∈ s.rows := by
    cases hcurrent : s.current_turn with
    | none => simpa [TurnsState.rows, hcurrent] using hrow
    | some turn => simpa [TurnsState.rows, hcurrent, Turn.rows] using hrow
  rw [← hfold] at hshown
  obtain hnone | hvisible := mem_rows_of_fold hshown
  · exact absurd hnone List.not_mem_nil
  · exact hvisible

end

/-! ## 5. Delegations under their own tool calls -/

/-- **Each delegation is shown under its own tool call**, in every session that meets the
condition. -/
theorem shows_delegations (issuer : String → String) (infer_tool_name : EventItem → Option String)
    (events : List EventItem) (hs : Session issuer events) (hsep : Separable issuer events) :
    ShowsDelegations issuer infer_tool_name events := by
  have hinv := inv_build hs hsep infer_tool_name (List.append_nil events).symm
  have hsplit : actions events = actions events ++ [] := (List.append_nil _).symm
  refine ⟨fun delegation_id hmem => ?_, fun key group hgroup delegation_id hid => ?_,
    fun before event after hevents agent_id hworks =>
      placed_of_works hs hsep infer_tool_name hevents hworks, fun _ => build_turns_rows ..⟩
  · obtain ⟨agent_id, hrequest⟩ := mem_requested.1 hmem
    obtain ⟨group, hgroup, hview⟩ := Option.map_eq_some_iff.1
      ((hinv.grouped (issuer delegation_id)).trans (if_pos (issuer_called hs hsplit hrequest)))
    have hshown := (view_delegation_iff hs hsplit (issuer delegation_id) delegation_id).2
      ⟨hmem, rfl⟩
    refine ⟨group, hgroup, ?_, ?_, ?_, ?_⟩
    · rw [← hshown, ← hview]
      rfl
    · exact congrArg CallView.status hview
    · exact congrArg CallView.end_time hview
    · exact congrArg CallView.child_session_id hview
  · have hview := hinv.grouped key
    rw [hgroup, Option.map_some] at hview
    split_ifs at hview
    refine (view_delegation_iff hs hsplit key delegation_id).1 ?_
    rw [← Option.some.inj hview]
    exact hid

def coder_call (id key : String) : EventItem where
  id := id
  agent_id := some "lead"
  type := .tool_call
  timestamp := 1
  tool_call := some ⟨some key, some "delegate", some .in_progress, some ⟨some "coder", none, none⟩⟩

def refusal (id key : String) : EventItem where
  id := id
  agent_id := some "lead"
  type := .tool_result
  timestamp := 2
  tool_call := some ⟨some key, some "delegate", some .failed, none⟩

def coder_request (id delegation_id : String) : EventItem where
  id := id
  agent_id := some "lead"
  type := .agent
  timestamp := 3
  delegation_id := some delegation_id
  delegation_target_agent_id := some "coder"
  delegation_event_type := some .requested

def coder_message (id : String) : EventItem where
  id := id
  agent_id := some "coder"
  type := .agent
  content := "I am at it"
  timestamp := 4
  is_message := true

def coder_done (id delegation_id : String) : EventItem where
  id := id
  agent_id := some "lead"
  type := .agent
  timestamp := 5
  delegation_id := some delegation_id
  delegation_event_type := some .completed

def overlapping_issuer (delegation_id : String) : String :=
  if delegation_id = "del_1" then "call_1" else "call_2"

/-- Two delegations to one agent; neither finishes before the agent's last message. -/
def plain_session : List EventItem :=
  [coder_call "1" "call_1", coder_request "2" "del_1", coder_message "3",
    coder_call "4" "call_2", coder_request "5" "del_2", coder_message "6",
    coder_done "7" "del_1", coder_done "8" "del_2"]

theorem plain_actions : actions plain_session =
    [.Delegated "call_1" (some "coder"), .Requested "del_1" "coder",
      .Delegated "call_2" (some "coder"), .Requested "del_2" "coder",
      .Finished "del_1" false 5, .Finished "del_2" false 5] := by
  decide

theorem plain_is_session : Session overlapping_issuer plain_session := by
  refine ⟨by decide, ?_, ?_, ?_, ?_, ?_, ?_, ?_⟩ <;> rw [plain_actions]
  · decide
  · decide
  · decide
  · decide
  · simp only [throughout_cons, throughout_nil, and_true, reduceCtorEq, false_implies, implies_true,
      true_and, Action.Requested.injEq, and_imp]
    refine ⟨?_, ?_⟩ <;>
    · rintro delegation_id agent_id rfl rfl
      decide
  · decide
  · simp [Action.mentions, calls, Action.called, requested, Action.requested]

/-- An agent that is never asked works on no delegation. -/
theorem not_works {before : List EventItem} {event : EventItem} {agent_id : String}
    (hagent : event.agent_id = some "lead")
    (hnone : requested_of "lead" (actions (before ++ [event])) = []) :
    ¬ Works before event agent_id := by
  rintro ⟨hsome, -, delegation_id, hrequest, -⟩
  rw [hagent] at hsome
  cases hsome
  rw [← mem_requested_of, hnone] at hrequest
  exact List.not_mem_nil hrequest

theorem plain_is_separable : Separable overlapping_issuer plain_session := by
  refine ⟨fun agent_id => ?_, ?_⟩
  · refine List.pairwise_of_forall_mem_list fun earlier hearlier _ _ _ => ?_
    have hall : ∀ key ∈ delegate_calls (actions plain_session),
        key ∈ (requested (actions plain_session)).map overlapping_issuer := by decide
    exact hall earlier (mem_delegate_calls_of_calls_to hearlier)
  · rw [plain_session]
    simp only [throughout_cons, throughout_nil, and_true]
    refine ⟨fun agent_id h => absurd h (not_works rfl (by decide)),
      fun agent_id h => absurd h (not_works rfl (by decide)), fun agent_id h => ?_,
      fun agent_id h => absurd h (not_works rfl (by decide)),
      fun agent_id h => absurd h (not_works rfl (by decide)), fun agent_id h => ?_,
      fun agent_id h => absurd h (not_works rfl (by decide)),
      fun agent_id h => absurd h (not_works rfl (by decide))⟩
    · cases h.1
      exact ⟨by decide, by decide, [.Delegated "call_1" (some "coder")], "del_1", [], by decide,
        fun _ _ _ hmem => absurd hmem List.not_mem_nil⟩
    · cases h.1
      exact ⟨by decide, by decide, [.Delegated "call_1" (some "coder"), .Requested "del_1" "coder",
        .Delegated "call_2" (some "coder")], "del_2", [], by decide,
        fun _ _ _ hmem => absurd hmem List.not_mem_nil⟩

theorem plain_session_shown :
    ShowsDelegations overlapping_issuer (fun _ => none) plain_session :=
  shows_delegations _ _ _ plain_is_session plain_is_separable

def refused_session : List EventItem :=
  [coder_call "1" "call_1", refusal "2" "call_1", coder_call "3" "call_2",
    coder_request "4" "del_1"]

theorem refused_is_session : Session (fun _ => "call_2") refused_session := by
  have hactions : actions refused_session =
      [.Delegated "call_1" (some "coder"), .Answered "call_1" true,
        .Delegated "call_2" (some "coder"), .Requested "del_1" "coder"] := by decide
  refine ⟨by decide, ?_, ?_, ?_, ?_, ?_, ?_, ?_⟩ <;> rw [hactions]
  · decide
  · decide
  · decide
  · decide
  · simp only [throughout_cons, throughout_nil, and_true, reduceCtorEq, false_implies, implies_true,
      true_and, Action.Requested.injEq, and_imp]
    rintro delegation_id agent_id rfl rfl
    decide
  · decide
  · simp [Action.mentions]

def overlapping_session : List EventItem :=
  [coder_call "1" "call_1", coder_request "2" "del_1", coder_call "3" "call_2",
    coder_request "4" "del_2", coder_done "5" "del_2", coder_message "6"]

theorem overlapping_actions : actions overlapping_session =
    [.Delegated "call_1" (some "coder"), .Requested "del_1" "coder",
      .Delegated "call_2" (some "coder"), .Requested "del_2" "coder",
      .Finished "del_2" false 5] := by decide

theorem overlapping_is_session : Session overlapping_issuer overlapping_session := by
  refine ⟨by decide, ?_, ?_, ?_, ?_, ?_, ?_, ?_⟩ <;> rw [overlapping_actions]
  · decide
  · decide
  · decide
  · decide
  · simp only [throughout_cons, throughout_nil, and_true, reduceCtorEq, false_implies, implies_true,
      true_and, Action.Requested.injEq, and_imp]
    refine ⟨?_, ?_⟩ <;>
    · rintro delegation_id agent_id rfl rfl
      decide
  · decide
  · simp [Action.mentions, calls, Action.called, requested, Action.requested]

/-- The first delegation goes on when the second has finished, and its agent is shown outside. -/
theorem overlapping_not_shown :
    ¬ ShowsDelegations overlapping_issuer (fun _ => none) overlapping_session := by
  intro h
  have hworks : Works [coder_call "1" "call_1", coder_request "2" "del_1", coder_call "3" "call_2",
      coder_request "4" "del_2", coder_done "5" "del_2"] (coder_message "6") "coder" := by
    refine ⟨rfl, trivial, "del_1", by decide, fun failed time hmem => ?_⟩
    have hactions := overlapping_actions
    unfold overlapping_session at hactions
    simp only [List.cons_append, List.nil_append, hactions] at hmem
    simp at hmem
  obtain ⟨delegation_id, -, ⟨row, hrow, -, hgroup, -⟩, -⟩ := h.placed _ _ [] rfl "coder" hworks
  have hnone : ((build_event_rows_with_delegations (fun _ => none)
      overlapping_session).rows[5]?).bind EventRow.delegation_group_id = none := by decide
  have hfive : (build_event_rows_with_delegations (fun _ => none)
      [coder_call "1" "call_1", coder_request "2" "del_1", coder_call "3" "call_2",
        coder_request "4" "del_2", coder_done "5" "del_2"]).rows.length = 5 := by decide
  rw [hfive] at hrow
  rw [hrow, Option.bind_some, hgroup] at hnone
  cases hnone

/-- A refused call takes the delegation of the next one, and the end of one delegation ends
another. -/
theorem delegations_mixed :
    (Session (fun _ => "call_2") refused_session ∧
      ¬ ShowsDelegations (fun _ => "call_2") (fun _ => none) refused_session) ∧
    (Session overlapping_issuer overlapping_session ∧
      ¬ ShowsDelegations overlapping_issuer (fun _ => none) overlapping_session) := by
  refine ⟨⟨refused_is_session, fun h => ?_⟩, overlapping_is_session, overlapping_not_shown⟩
  obtain ⟨group, hgroup, hid, -⟩ := h.attached "del_1" (by decide)
  have hnone : ((build_event_rows_with_delegations (fun _ => none)
      refused_session).delegation_groups "call_2").bind DelegationGroupInfo.delegation_id =
        none := by
    decide
  rw [hgroup, Option.bind_some, hid] at hnone
  cases hnone

end Querymt.ChatView
