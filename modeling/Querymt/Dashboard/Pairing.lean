/-
`Dashboard/Pairing.lean` -- each request takes the tool call that issued it.

The pass of `ChatView.lean` is followed action by action. The queue of an agent holds the calls to
it that no request has taken, and the active delegation of an agent is the one requested last,
until any delegation to it finishes. If no refused call waits in front of another one, each request
takes the call that issued it, and the group of a call has the view of the call (`inv_build`).
-/
import Querymt.Dashboard.Delegations

set_option autoImplicit false

open Histories

namespace Querymt.ChatView

/-! ## 1. Calls and requests -/

section

variable {issuer : String → String} {events : List EventItem}

@[simp] theorem calls_concat (h : List Action) (a : Action) :
    calls (h ++ [a]) = calls h ++ a.called.toList := filterMap_concat ..

@[simp] theorem delegate_calls_concat (h : List Action) (a : Action) :
    delegate_calls (h ++ [a]) = delegate_calls h ++ a.delegated.toList := filterMap_concat ..

@[simp] theorem calls_to_concat (agent_id : String) (h : List Action) (a : Action) :
    calls_to agent_id (h ++ [a]) = calls_to agent_id h ++ (a.called_for agent_id).toList :=
  filterMap_concat ..

@[simp] theorem answered_concat (h : List Action) (a : Action) :
    answered (h ++ [a]) = answered h ++ a.answered.toList := filterMap_concat ..

@[simp] theorem requested_concat (h : List Action) (a : Action) :
    requested (h ++ [a]) = requested h ++ a.requested.toList := filterMap_concat ..

@[simp] theorem requested_of_concat (agent_id : String) (h : List Action) (a : Action) :
    requested_of agent_id (h ++ [a]) =
      requested_of agent_id h ++ (a.requested_for agent_id).toList := filterMap_concat ..

theorem mem_calls_to {agent_id key : String} {h : List Action} :
    key ∈ calls_to agent_id h ↔ .Delegated key (some agent_id) ∈ h := by
  unfold calls_to
  rw [List.mem_filterMap]
  constructor
  · rintro ⟨a, ha, hkey⟩
    cases a with
    | Delegated key' target_agent_id =>
        rw [Action.called_for] at hkey
        split_ifs at hkey with htarget
        cases hkey
        rwa [htarget] at ha
    | _ => cases hkey
  · exact fun ha => ⟨_, ha, if_pos rfl⟩

theorem mem_requested_of {agent_id delegation_id : String} {h : List Action} :
    delegation_id ∈ requested_of agent_id h ↔ .Requested delegation_id agent_id ∈ h := by
  unfold requested_of
  rw [List.mem_filterMap]
  constructor
  · rintro ⟨a, ha, hid⟩
    cases a with
    | Requested delegation_id' target_agent_id =>
        rw [Action.requested_for] at hid
        split_ifs at hid with htarget
        cases hid
        rwa [htarget] at ha
    | _ => cases hid
  · exact fun ha => ⟨_, ha, if_pos rfl⟩

theorem mem_requested {delegation_id : String} {h : List Action} :
    delegation_id ∈ requested h ↔ ∃ agent_id, .Requested delegation_id agent_id ∈ h := by
  unfold requested
  rw [List.mem_filterMap]
  constructor
  · rintro ⟨a, ha, hid⟩
    cases a with
    | Requested delegation_id' target_agent_id =>
        cases hid
        exact ⟨target_agent_id, ha⟩
    | _ => cases hid
  · exact fun ⟨agent_id, ha⟩ => ⟨_, ha, rfl⟩

theorem mem_delegate_calls_of_calls_to {agent_id key : String} {h : List Action}
    (hkey : key ∈ calls_to agent_id h) : key ∈ delegate_calls h :=
  List.mem_filterMap.2 ⟨_, mem_calls_to.1 hkey, rfl⟩

theorem calls_of_delegate_calls {key : String} {h : List Action} (hkey : key ∈ delegate_calls h) :
    key ∈ calls h := by
  refine (filterMap_sublist ?_ h).subset hkey
  intro a key h
  cases a with
  | Delegated key' target_agent_id => exact h
  | _ => cases h

theorem calls_to_sublist (agent_id : String) (h : List Action) :
    (calls_to agent_id h).Sublist (calls h) := by
  refine filterMap_sublist ?_ h
  intro a key hkey
  cases a with
  | Delegated key' target_agent_id =>
      rw [Action.called_for] at hkey
      split_ifs at hkey
      exact hkey
  | _ => cases hkey

/-- A delegation has one agent. -/
theorem Session.agent_unique (hs : Session issuer events)
    {delegation_id agent_id agent_id' : String}
    (h : .Requested delegation_id agent_id ∈ actions events)
    (h' : .Requested delegation_id agent_id' ∈ actions events) : agent_id = agent_id' := by
  have heq := eq_of_filterMap_nodup hs.requested_once h h' rfl rfl
  cases heq
  rfl

/-- The calls that issue delegations to an agent are calls to the agent, in their order. -/
theorem Session.issued_sublist (hs : Session issuer events) (agent_id : String)
    {h after : List Action} (hsplit : actions events = h ++ after) :
    ((requested_of agent_id h).map issuer).Sublist (calls_to agent_id h) := by
  induction h using List.reverseRecOn generalizing after with
  | nil => exact List.Sublist.slnil
  | append_singleton h a ih =>
      rw [List.append_assoc, List.singleton_append] at hsplit
      have hcalls : (calls_to agent_id h).Sublist (calls_to agent_id (h ++ [a])) :=
        (List.sublist_append_left h [a]).filterMap _
      by_cases hrequest : ∃ delegation_id, a = .Requested delegation_id agent_id
      · obtain ⟨delegation_id, ha⟩ := hrequest
        exact (hs.issued h a after hsplit delegation_id agent_id ha).trans hcalls
      · have hnone : Action.requested_for agent_id a = none := by
          cases a with
          | Requested delegation_id target_agent_id =>
              refine if_neg fun htarget => hrequest ⟨delegation_id, ?_⟩
              rw [htarget]
          | _ => rfl
        rw [requested_of_concat, hnone, Option.toList_none, List.append_nil]
        exact (ih hsplit).trans hcalls

/-- With no refused call in front of another one, they are the first calls to the agent. -/
theorem issued_initial (hs : Session issuer events) (hsep : Separable issuer events)
    (agent_id : String) :
    (requested_of agent_id (actions events)).map issuer <+: calls_to agent_id (actions events) := by
  have hsub := hs.issued_sublist agent_id (List.append_nil _).symm
  refine prefix_of_closed hsub (hs.keys_distinct.sublist (calls_to_sublist _ _)) ?_
  refine (hsep.none_refused agent_id).imp_of_mem fun {earlier later} hearlier _ himp hlater => ?_
  obtain ⟨delegation_id, hid, rfl⟩ := List.mem_map.1 hlater
  obtain ⟨other, hother, rfl⟩ := List.mem_map.1
    (himp (List.mem_map_of_mem (mem_requested.2 ⟨_, mem_requested_of.1 hid⟩)))
  -- the earlier call issued a delegation to its own agent
  obtain ⟨agent_id', hrequest⟩ := mem_requested.1 hother
  have hcall : issuer other ∈ calls_to agent_id' (actions events) :=
    (hs.issued_sublist agent_id' (List.append_nil _).symm).subset
      (List.mem_map_of_mem (mem_requested_of.2 hrequest))
  have heq := eq_of_filterMap_nodup hs.keys_distinct (mem_calls_to.1 hearlier)
    (mem_calls_to.1 hcall) rfl rfl
  cases heq
  exact List.mem_map_of_mem (mem_requested_of.2 hrequest)

/-- **The head of the queue**: a request takes the call that issued it. -/
theorem calls_to_at_request (hs : Session issuer events) (hsep : Separable issuer events)
    {h after : List Action} {delegation_id agent_id : String}
    (hsplit : actions events = h ++ .Requested delegation_id agent_id :: after) :
    ∃ waiting, calls_to agent_id h =
      (requested_of agent_id h).map issuer ++ issuer delegation_id :: waiting := by
  have hsub := hs.issued h _ after hsplit delegation_id agent_id rfl
  have hsplit' : actions events = (h ++ [.Requested delegation_id agent_id]) ++ after := by
    rw [hsplit, List.append_assoc, List.singleton_append]
  have hrequests : (requested_of agent_id (h ++ [.Requested delegation_id agent_id])).map issuer <+:
      calls_to agent_id (actions events) := by
    refine List.IsPrefix.trans ?_ (issued_initial hs hsep agent_id)
    rw [hsplit']
    exact ((List.prefix_append _ after).filterMap _).map _
  have hcalls : calls_to agent_id h <+: calls_to agent_id (actions events) := by
    rw [hsplit]
    exact (List.prefix_append h _).filterMap _
  obtain ⟨waiting, hwaiting⟩ :=
    List.prefix_of_prefix_length_le hrequests hcalls hsub.length_le
  refine ⟨waiting, ?_⟩
  have hrequested : Action.requested_for agent_id (.Requested delegation_id agent_id) =
      some delegation_id := if_pos rfl
  rw [← hwaiting, requested_of_concat, hrequested, List.map_append, List.append_assoc]
  rfl

end

/-! ## 2. The invariant -/

/-- The delegation to an agent requested last, until any delegation to it finishes. -/
def slot (all : List Action) (agent_id : String) (h : List Action) : Option String :=
  h.foldl (fun delegation_id a =>
    match a with
    | .Requested requested_id target_agent_id =>
        if target_agent_id = agent_id then some requested_id else delegation_id
    | .Finished finished_id _ _ =>
        if all.contains (.Requested finished_id agent_id) then none else delegation_id
    | _ => delegation_id) none

def DelegationGroupInfo.view (group : DelegationGroupInfo) : CallView :=
  ⟨group.delegation_id, group.status, group.end_time, group.child_session_id⟩

/-- **The state after the actions of a session so far**. -/
structure Inv (issuer : String → String) (all h : List Action) (s : State) : Prop where
  queue : ∀ agent_id, s.pending_delegations_by_agent agent_id =
    (calls_to agent_id h).drop (requested_of agent_id h).length
  mapped : ∀ delegation_id, s.delegation_id_to_tool_call delegation_id =
    if delegation_id ∈ requested h then some (issuer delegation_id) else none
  active : ∀ agent_id, s.active_delegation_by_agent agent_id = (slot all agent_id h).map issuer
  grouped : ∀ key, (s.delegation_groups key).map DelegationGroupInfo.view =
    if key ∈ delegate_calls h then some (view_of issuer key h) else none
  targets : ∀ key group delegation_id agent_id, s.delegation_groups key = some group →
    .Requested delegation_id agent_id ∈ h → issuer delegation_id = key →
      group.target_agent_id = some agent_id
  called : ∀ key, (s.tool_call_map key).isSome ↔ key ∈ calls h
  waiting : ∀ key, key ∉ calls h → view_of issuer key h =
    { CallView.new with
      status := if (s.pending_tool_results_by_id key).any EventItem.is_failed then .failed
        else .in_progress }
  unanswered : ∀ key, (s.pending_tool_results_by_id key).isSome → key ∈ answered h

@[simp] theorem State.modify_group_self (s : State) (key : String)
    (f : DelegationGroupInfo → DelegationGroupInfo) :
    (s.modify_group key f).delegation_groups key = (s.delegation_groups key).map f :=
  Function.update_self ..

theorem State.modify_group_of_ne (s : State) {key key' : String}
    (f : DelegationGroupInfo → DelegationGroupInfo) (h : key' ≠ key) :
    (s.modify_group key f).delegation_groups key' = s.delegation_groups key' :=
  Function.update_of_ne h ..

/-- The two states agree on all that the invariant is about. -/
structure SameDelegations (s s' : State) : Prop where
  queue : s'.pending_delegations_by_agent = s.pending_delegations_by_agent
  mapped : s'.delegation_id_to_tool_call = s.delegation_id_to_tool_call
  active : s'.active_delegation_by_agent = s.active_delegation_by_agent
  grouped : ∀ key, (s'.delegation_groups key).map (fun g => (g.view, g.target_agent_id)) =
    (s.delegation_groups key).map fun g => (g.view, g.target_agent_id)
  called : s'.tool_call_map = s.tool_call_map
  pending : s'.pending_tool_results_by_id = s.pending_tool_results_by_id

section

variable {issuer : String → String} {all h : List Action} {s s' : State}

theorem SameDelegations.view (h : SameDelegations s s') (key : String) :
    (s'.delegation_groups key).map DelegationGroupInfo.view =
      (s.delegation_groups key).map DelegationGroupInfo.view := by
  have hpair := congrArg (Option.map Prod.fst) (h.grouped key)
  simpa only [Option.map_map, Function.comp_def] using hpair

theorem SameDelegations.target (h : SameDelegations s s') (key : String) :
    (s'.delegation_groups key).map DelegationGroupInfo.target_agent_id =
      (s.delegation_groups key).map DelegationGroupInfo.target_agent_id := by
  have hpair := congrArg (Option.map Prod.snd) (h.grouped key)
  simpa only [Option.map_map, Function.comp_def] using hpair

theorem SameDelegations.trans {s'' : State} (h : SameDelegations s s')
    (h' : SameDelegations s' s'') : SameDelegations s s'' where
  queue := h'.queue.trans h.queue
  mapped := h'.mapped.trans h.mapped
  active := h'.active.trans h.active
  grouped key := (h'.grouped key).trans (h.grouped key)
  called := h'.called.trans h.called
  pending := h'.pending.trans h.pending

theorem Inv.of_same (hinv : Inv issuer all h s) (hsame : SameDelegations s s') :
    Inv issuer all h s' where
  queue agent_id := by rw [hsame.queue, hinv.queue]
  mapped delegation_id := by rw [hsame.mapped, hinv.mapped]
  active agent_id := by rw [hsame.active, hinv.active]
  grouped key := by rw [hsame.view, hinv.grouped]
  targets key group delegation_id agent_id hgroup hrequest hissuer := by
    have htarget := hsame.target key
    rw [hgroup, Option.map_some] at htarget
    obtain ⟨group', hgroup', heq⟩ := Option.map_eq_some_iff.1 htarget.symm
    rw [← heq]
    exact hinv.targets key group' delegation_id agent_id hgroup' hrequest hissuer
  called key := by rw [hsame.called, hinv.called]
  waiting key hkey := by rw [hsame.pending, hinv.waiting key hkey]
  unanswered key hsome := hinv.unanswered key (by rwa [hsame.pending] at hsome)

theorem view_of_append (key : String) (h : List Action) (a : Action) :
    view_of issuer key (h ++ [a]) = (view_of issuer key h).step issuer key a :=
  List.foldl_concat ..

/-- A group changed in a way that neither its view nor its target shows. -/
theorem SameDelegations.modify_group (s : State) (key : String)
    {f : DelegationGroupInfo → DelegationGroupInfo}
    (hf : ∀ group, ((f group).view, (f group).target_agent_id) =
      (group.view, group.target_agent_id)) : SameDelegations s (s.modify_group key f) where
  queue := rfl
  mapped := rfl
  active := rfl
  grouped key' := by
    by_cases hkey : key' = key
    · subst hkey
      rw [State.modify_group_self, Option.map_map]
      exact congrArg (fun g => (s.delegation_groups key').map g) (funext hf)
    · rw [State.modify_group_of_ne s _ hkey]
  called := rfl
  pending := rfl

theorem SameDelegations.push_to_group (s : State) (key : String) (names_agent : Bool)
    (row : EventRow) : SameDelegations s (s.push_to_group key names_agent row) :=
  .modify_group s key fun _ => rfl

theorem SameDelegations.push_to_active (s : State) (active : Option String) (names_agent : Bool)
    (row : EventRow) : SameDelegations s (s.push_to_active active names_agent row) := by
  cases active with
  | none => exact ⟨rfl, rfl, rfl, fun _ => rfl, rfl, rfl⟩
  | some group_id => exact .push_to_group s group_id names_agent row

theorem SameDelegations.push_row (s : State) (row : EventRow) :
    SameDelegations s (s.push_row row) :=
  ⟨rfl, rfl, rfl, fun _ => rfl, rfl, rfl⟩

/-! ## 3. Requests, forks and ends -/

variable {events : List EventItem}

/-- A tool call that issued a delegation is one of the calls. -/
theorem issuer_called (hs : Session issuer events) {after : List Action}
    (hsplit : actions events = h ++ after) {delegation_id agent_id : String}
    (hrequest : .Requested delegation_id agent_id ∈ h) :
    issuer delegation_id ∈ delegate_calls h :=
  mem_delegate_calls_of_calls_to <| (hs.issued_sublist agent_id hsplit).subset <|
    List.mem_map_of_mem (mem_requested_of.2 hrequest)

theorem Session.fresh_request (hs : Session issuer events) {after : List Action}
    {delegation_id agent_id : String}
    (hsplit : actions events = h ++ .Requested delegation_id agent_id :: after) :
    delegation_id ∉ requested h := by
  intro hmem
  have hnodup := hs.requested_once
  rw [hsplit, requested, List.filterMap_append] at hnodup
  exact (List.nodup_append.1 hnodup).2.2 _ hmem _ List.mem_cons_self rfl

/-- No two delegations have the same tool call. -/
theorem issuer_inj (hs : Session issuer events) {d d' a a' : String}
    (hd : .Requested d a ∈ actions events) (hd' : .Requested d' a' ∈ actions events)
    (heq : issuer d = issuer d') : d = d' := by
  have hcall := (hs.issued_sublist a (List.append_nil _).symm).subset
    (List.mem_map_of_mem (mem_requested_of.2 hd))
  have hcall' := (hs.issued_sublist a' (List.append_nil _).symm).subset
    (List.mem_map_of_mem (mem_requested_of.2 hd'))
  rw [heq] at hcall
  have hsame := eq_of_filterMap_nodup hs.keys_distinct (mem_calls_to.1 hcall)
    (mem_calls_to.1 hcall') rfl rfl
  cases hsame
  have hnodup : ((requested_of a (actions events)).map issuer).Nodup :=
    (hs.keys_distinct.sublist (calls_to_sublist a _)).sublist
      (hs.issued_sublist a (List.append_nil _).symm)
  exact List.inj_on_of_nodup_map hnodup (mem_requested_of.2 hd) (mem_requested_of.2 hd') heq

theorem truthy_eq_some {o : Option String} {a : String} :
    truthy o = some a ↔ o = some a ∧ a ≠ "" := by
  unfold truthy
  rw [Option.filter_eq_some_iff]
  simp

theorem slot_concat (agent_id : String) (h : List Action) (a : Action) :
    slot all agent_id (h ++ [a]) =
      match a with
      | .Requested requested_id target_agent_id =>
          if target_agent_id = agent_id then some requested_id else slot all agent_id h
      | .Finished finished_id _ _ =>
          if all.contains (.Requested finished_id agent_id) then none else slot all agent_id h
      | _ => slot all agent_id h := by
  rw [slot, List.foldl_concat]
  cases a <;> rfl

/-- The state after a request takes the head of the queue. -/
theorem State.on_requested_eq {event : EventItem} {delegation_id agent_id key : String}
    {waiting : List String} {group : DelegationGroupInfo}
    (hid : event.delegation_of .requested = some delegation_id)
    (htarget : truthy event.delegation_target_agent_id = some agent_id)
    (hqueue : s.pending_delegations_by_agent agent_id = key :: waiting)
    (hgroup : s.delegation_groups key = some group) :
    s.on_requested event =
      { s with
        pending_delegations_by_agent :=
          Function.update s.pending_delegations_by_agent agent_id waiting
        delegation_id_to_tool_call :=
          Function.update s.delegation_id_to_tool_call delegation_id (some key)
        delegation_groups :=
          Function.update s.delegation_groups key
            (some
              { group with
                delegation_id := some delegation_id
                target_agent_id := some agent_id
                objective := event.delegation_objective.or group.objective
                start_time := event.timestamp })
        active_delegation_by_agent :=
          Function.update s.active_delegation_by_agent agent_id (some key) } := by
  have hraw := (truthy_eq_some.1 htarget).1
  unfold State.on_requested State.take_for State.set_active
  rw [hid]
  dsimp only
  rw [htarget]
  dsimp only [State.take_pending_delegation]
  rw [hqueue, List.head?_cons, List.tail_cons, Option.getD_some]
  unfold State.ensure_delegation_group State.map_delegation State.modify_group
  dsimp only
  rw [hgroup]
  dsimp only
  rw [hgroup, hraw]
  rfl

theorem Inv.on_requested (hs : Session issuer events) (hsep : Separable issuer events)
    (hinv : Inv issuer (actions events) h s) {event : EventItem} (hevent : event ∈ events)
    (htype : event.type ≠ .system) {after : List Action}
    (hsplit : actions events = h ++ event.requests ++ after) :
    Inv issuer (actions events) (h ++ event.requests) (s.on_requested event) := by
  cases hid : event.delegation_of .requested with
  | none =>
      have hnone : event.requests = [] := by
        unfold EventItem.requests
        rw [hid]
      have hsame : s.on_requested event = s := by
        unfold State.on_requested
        rw [hid]
      rw [hnone, List.append_nil, hsame]
      exact hinv
  | some d =>
      obtain ⟨a, htarget⟩ :=
        Option.ne_none_iff_exists'.1 (hs.named event hevent htype (by rw [hid]; rfl))
      have hrequests : event.requests = [.Requested d a] := by
        unfold EventItem.requests
        rw [hid, htarget]
      rw [hrequests] at hsplit ⊢
      rw [List.append_assoc, List.singleton_append] at hsplit
      have hmem : Action.Requested d a ∈ actions events := by
        rw [hsplit]
        exact List.mem_append_right _ List.mem_cons_self
      obtain ⟨waiting, hcalls⟩ := calls_to_at_request hs hsep hsplit
      have hqueue : s.pending_delegations_by_agent a = issuer d :: waiting := by
        rw [hinv.queue, hcalls]
        exact List.drop_left' (List.length_map _)
      have hcall : issuer d ∈ delegate_calls h := by
        refine @mem_delegate_calls_of_calls_to a _ _ ?_
        rw [hcalls]
        exact List.mem_append_right _ List.mem_cons_self
      obtain ⟨group, hgroup, hview⟩ :=
        Option.map_eq_some_iff.1 ((hinv.grouped (issuer d)).trans (if_pos hcall))
      rw [State.on_requested_eq hid htarget hqueue hgroup]
      refine ⟨fun a' => ?_, fun d' => ?_, fun a' => ?_, fun key => ?_, ?_, ?_, ?_, ?_⟩
      · by_cases ha : a' = a
        · subst ha
          have hone : Action.requested_for a' (.Requested d a') = some d := if_pos rfl
          simp only [Function.update_self, calls_to_concat, requested_of_concat, hone,
            Action.called_for, Option.toList_none, Option.toList_some, List.append_nil, hcalls,
            List.length_append, List.length_singleton]
          rw [List.drop_append, List.drop_of_length_le (by simp)]
          simp
        · have hnone : Action.requested_for a' (.Requested d a) = none := if_neg (Ne.symm ha)
          simp only [calls_to_concat, requested_of_concat, hnone, Action.called_for,
            Option.toList_none, List.append_nil, ← hinv.queue]
          exact Function.update_of_ne ha ..
      · by_cases hd : d' = d
        · subst hd
          simp [Action.requested]
        · simp [Action.requested, hd, hinv.mapped]
      · rw [slot_concat]
        by_cases ha : a = a'
        · subst ha
          simp
        · simp [ha, Ne.symm ha, hinv.active]
      · rw [view_of_append, delegate_calls_concat]
        simp only [Action.delegated, Option.toList_none, List.append_nil, CallView.step]
        by_cases hkey : key = issuer d
        · subst hkey
          rw [if_pos hcall, if_pos rfl, ← hview]
          simp [DelegationGroupInfo.view]
        · rw [if_neg (Ne.symm hkey), ← hinv.grouped]
          exact congrArg _ (Function.update_of_ne hkey ..)
      · intro key group' d' a' hgroup' hrequest hissuer
        by_cases hkey : key = issuer d
        · -- the only delegation of this call is the new one
          subst hkey
          have hrequest' : Action.Requested d' a' ∈ actions events := by
            rw [hsplit]
            obtain hold | hnew := List.mem_append.1 hrequest
            · exact List.mem_append_left _ hold
            · rw [List.mem_singleton.1 hnew]
              exact List.mem_append_right _ List.mem_cons_self
          have hd := issuer_inj hs hrequest' hmem hissuer
          subst hd
          rw [hs.agent_unique hrequest' hmem]
          dsimp only at hgroup'
          rw [Function.update_self] at hgroup'
          cases hgroup'
          rfl
        · obtain hold | hnew := List.mem_append.1 hrequest
          · refine hinv.targets key group' d' a' ?_ hold hissuer
            rw [← hgroup']
            exact (Function.update_of_ne hkey ..).symm
          · cases List.mem_singleton.1 hnew
            exact absurd hissuer.symm hkey
      · simpa [Action.called] using hinv.called
      · intro key hkey
        have hkey' : key ∉ calls h := by simpa [Action.called] using hkey
        rw [view_of_append, CallView.step, if_neg, hinv.waiting key hkey']
        exact fun heq => hkey' (heq ▸ calls_of_delegate_calls hcall)
      · simpa [Action.answered] using hinv.unanswered

/-- A call shows the delegation that it issued. -/
theorem view_delegation_iff (hs : Session issuer events) {after : List Action}
    (hsplit : actions events = h ++ after) (key delegation_id : String) :
    (view_of issuer key h).delegation_id = some delegation_id ↔
      delegation_id ∈ requested h ∧ issuer delegation_id = key := by
  induction h using List.reverseRecOn generalizing after with
  | nil => simp [view_of, CallView.new, requested]
  | append_singleton h a ih =>
      rw [List.append_assoc, List.singleton_append] at hsplit
      rw [view_of_append, requested_concat]
      cases a with
      | Requested d agent_id =>
          simp only [CallView.step, Action.requested, Option.toList_some, List.mem_append,
            List.mem_singleton]
          by_cases hkey : issuer d = key
          · rw [if_pos hkey]
            dsimp only
            constructor
            · intro heq
              cases heq
              exact ⟨.inr rfl, hkey⟩
            · rintro ⟨hold | rfl, hissuer⟩
              · -- two delegations of one call are the same
                obtain ⟨agent_id', hrequest⟩ := mem_requested.1 hold
                have hsame := @issuer_inj issuer events hs delegation_id d agent_id' agent_id
                  (by rw [hsplit]; exact List.mem_append_left _ hrequest)
                  (by rw [hsplit]; exact List.mem_append_right _ List.mem_cons_self)
                  (hissuer.trans hkey.symm)
                rw [hsame]
              · rfl
          · rw [if_neg hkey, ih hsplit]
            constructor
            · exact fun ⟨hold, hissuer⟩ => ⟨.inl hold, hissuer⟩
            · rintro ⟨hold | rfl, hissuer⟩
              · exact ⟨hold, hissuer⟩
              · exact absurd hissuer hkey
      | _ =>
          simp only [CallView.step, Action.requested, Option.toList_none, List.append_nil]
          first
          | exact ih hsplit
          | (split_ifs <;> exact ih hsplit)

theorem step_of_mention {a : Action} {delegation_id key : String} {view : CallView}
    (ha : a.mentions = some delegation_id) (hview : view.delegation_id ≠ some delegation_id) :
    view.step issuer key a = view := by
  cases a with
  | Forked d child_session_id =>
      cases ha
      exact if_neg hview
  | Finished d failed time =>
      cases ha
      exact if_neg hview
  | _ => cases ha

/-- A fork or an end of a delegation that is never requested says nothing. -/
theorem Inv.unchanged (hs : Session issuer events) (hinv : Inv issuer (actions events) h s)
    {a : Action} {delegation_id : String} {after : List Action}
    (ha : a.mentions = some delegation_id) (hsplit : actions events = h ++ a :: after)
    (hnot : delegation_id ∉ requested (actions events)) :
    Inv issuer (actions events) (h ++ [a]) s := by
  -- no view shows the delegation, so the action changes none
  have hstep : ∀ key, view_of issuer key (h ++ [a]) = view_of issuer key h := by
    intro key
    rw [view_of_append]
    refine step_of_mention ha fun hview => hnot ?_
    have hmem := ((view_delegation_iff hs hsplit key delegation_id).1 hview).1
    rw [hsplit, requested, List.filterMap_append]
    exact List.mem_append_left _ hmem
  cases a with
  | Forked d child_session_id =>
      refine ⟨?_, ?_, ?_, ?_, ?_, ?_, ?_, ?_⟩
      · simpa [Action.called_for, Action.requested_for] using hinv.queue
      · simpa [Action.requested] using hinv.mapped
      · simpa only [slot_concat] using hinv.active
      · simpa [hstep, Action.delegated] using hinv.grouped
      · simpa using hinv.targets
      · simpa [Action.called] using hinv.called
      · simpa [hstep, Action.called] using hinv.waiting
      · simpa [Action.answered] using hinv.unanswered
  | Finished d failed time =>
      cases ha
      have hslot : ∀ agent_id,
          (actions events).contains (.Requested delegation_id agent_id) = false := by
        intro agent_id
        rw [List.contains_eq_mem, decide_eq_false_iff_not]
        exact fun hmem => hnot (mem_requested.2 ⟨agent_id, hmem⟩)
      refine ⟨?_, ?_, ?_, ?_, ?_, ?_, ?_, ?_⟩
      · simpa [Action.called_for, Action.requested_for] using hinv.queue
      · simpa [Action.requested] using hinv.mapped
      · simpa only [slot_concat, hslot, Bool.false_eq_true, if_false] using hinv.active
      · simpa [hstep, Action.delegated] using hinv.grouped
      · simpa using hinv.targets
      · simpa [Action.called] using hinv.called
      · simpa [hstep, Action.called] using hinv.waiting
      · simpa [Action.answered] using hinv.unanswered
  | _ => cases ha

/-- A fork or an end of a requested delegation changes the group of its call. -/
theorem Inv.changed (hs : Session issuer events) (hinv : Inv issuer (actions events) h s)
    {a : Action} {delegation_id : String} {after : List Action}
    (ha : a.mentions = some delegation_id) (hsplit : actions events = h ++ a :: after)
    (hrequested : delegation_id ∈ requested h)
    {f : DelegationGroupInfo → DelegationGroupInfo} {active : String → Option String}
    (htarget : ∀ group, (f group).target_agent_id = group.target_agent_id)
    (hview : ∀ group, group.delegation_id = some delegation_id →
      (f group).view = group.view.step issuer (issuer delegation_id) a)
    (hactive : ∀ agent_id, active agent_id =
      (slot (actions events) agent_id (h ++ [a])).map issuer) :
    Inv issuer (actions events) (h ++ [a])
      { s.modify_group (issuer delegation_id) f with active_delegation_by_agent := active } := by
  obtain ⟨agent_id, hrequest⟩ := mem_requested.1 hrequested
  have hcall := issuer_called hs hsplit hrequest
  have hplain : a.called = none ∧ a.delegated = none ∧ a.answered = none ∧ a.requested = none ∧
      (∀ agent_id, a.called_for agent_id = none ∧ a.requested_for agent_id = none) ∧
      ∀ d agent_id, a ≠ .Requested d agent_id := by
    cases a with
    | Forked d child_session_id =>
        exact ⟨rfl, rfl, rfl, rfl, fun _ => ⟨rfl, rfl⟩, fun _ _ heq => by cases heq⟩
    | Finished d failed time =>
        exact ⟨rfl, rfl, rfl, rfl, fun _ => ⟨rfl, rfl⟩, fun _ _ heq => by cases heq⟩
    | _ => cases ha
  obtain ⟨hcalled, hdelegated, hanswered, hnone, hof, hnot⟩ := hplain
  -- the views of the other calls show other delegations
  have hother : ∀ key, key ≠ issuer delegation_id →
      view_of issuer key (h ++ [a]) = view_of issuer key h := by
    intro key hkey
    rw [view_of_append]
    refine step_of_mention ha fun hview => hkey ?_
    exact ((view_delegation_iff hs hsplit key delegation_id).1 hview).2.symm
  refine ⟨?_, ?_, hactive, fun key => ?_, ?_, ?_, ?_, ?_⟩
  · simpa [hof, State.modify_group] using hinv.queue
  · simpa [hnone, State.modify_group] using hinv.mapped
  · simp only [delegate_calls_concat, hdelegated, Option.toList_none, List.append_nil]
    by_cases hkey : key = issuer delegation_id
    · subst hkey
      obtain ⟨group, hgroup, hold⟩ :=
        Option.map_eq_some_iff.1 ((hinv.grouped (issuer delegation_id)).trans (if_pos hcall))
      have hid : group.delegation_id = some delegation_id := by
        have hshown := (view_delegation_iff hs hsplit (issuer delegation_id) delegation_id).2
          ⟨hrequested, rfl⟩
        rwa [← hold] at hshown
      rw [if_pos hcall, view_of_append, ← hold, ← hview group hid, State.modify_group_self, hgroup]
      rfl
    · rw [hother key hkey, ← hinv.grouped, State.modify_group_of_ne s f hkey]
  · intro key group' d agent_id' hgroup' hmem hissuer
    have hmem' : Action.Requested d agent_id' ∈ h := by
      obtain hold | hnew := List.mem_append.1 hmem
      · exact hold
      · exact absurd (List.mem_singleton.1 hnew).symm (hnot d agent_id')
    by_cases hkey : key = issuer delegation_id
    · subst hkey
      rw [State.modify_group_self] at hgroup'
      obtain ⟨group, hgroup, rfl⟩ := Option.map_eq_some_iff.1 hgroup'
      rw [htarget]
      exact hinv.targets _ group d agent_id' hgroup hmem' hissuer
    · rw [State.modify_group_of_ne s f hkey] at hgroup'
      exact hinv.targets key group' d agent_id' hgroup' hmem' hissuer
  · simpa [hcalled, State.modify_group] using hinv.called
  · intro key hkey
    have hkey' : key ∉ calls h := by simpa [hcalled] using hkey
    rw [hother key fun heq => hkey' (heq ▸ calls_of_delegate_calls hcall)]
    exact hinv.waiting key hkey'
  · simpa [hanswered, State.modify_group] using hinv.unanswered

/-- A fork or an end finds the call of its delegation, or no group at all. -/
theorem Inv.mentioned (hs : Session issuer events) (hinv : Inv issuer (actions events) h s)
    {a : Action} {delegation_id : String} {after : List Action}
    (ha : a.mentions = some delegation_id) (hsplit : actions events = h ++ a :: after) :
    (delegation_id ∈ requested h ∧
      (s.delegation_id_to_tool_call delegation_id).getD delegation_id = issuer delegation_id) ∨
    (delegation_id ∉ requested (actions events) ∧
      s.delegation_groups ((s.delegation_id_to_tool_call delegation_id).getD delegation_id) =
        none) := by
  obtain ⟨hfresh, hbefore⟩ := hs.started h a after hsplit delegation_id ha
  by_cases hrequested : delegation_id ∈ requested h
  · refine .inl ⟨hrequested, ?_⟩
    rw [hinv.mapped, if_pos hrequested]
    rfl
  · refine .inr ⟨fun hmem => hrequested (hbefore hmem), ?_⟩
    rw [hinv.mapped, if_neg hrequested, Option.getD_none]
    have hgroup := hinv.grouped delegation_id
    rw [if_neg, Option.map_eq_none_iff] at hgroup
    · exact hgroup
    · intro hcall
      refine hfresh ?_
      rw [hsplit, calls, List.filterMap_append]
      exact List.mem_append_left _ (calls_of_delegate_calls hcall)

theorem State.modify_group_none (s : State) {key : String}
    (f : DelegationGroupInfo → DelegationGroupInfo) (h : s.delegation_groups key = none) :
    s.modify_group key f = s := by
  unfold State.modify_group
  rw [h, Option.map_none, ← h, Function.update_eq_self]

theorem Inv.on_forked (hs : Session issuer events) (hinv : Inv issuer (actions events) h s)
    {event : EventItem} {after : List Action} (hsplit : actions events = h ++ event.forks ++ after) :
    Inv issuer (actions events) (h ++ event.forks) (s.on_forked event) := by
  unfold EventItem.forks at hsplit ⊢
  unfold State.on_forked
  cases hchild : truthy event.fork_child_session_id with
  | none => simpa using hinv
  | some child_session_id =>
      cases hid : truthy event.fork_delegation_id with
      | none => simpa using hinv
      | some delegation_id =>
          simp only [hchild, hid] at hsplit ⊢
          rw [List.append_assoc, List.singleton_append] at hsplit
          obtain ⟨hrequested, hkey⟩ | ⟨hnot, hgroup⟩ := hinv.mentioned hs rfl hsplit
          · rw [hkey]
            refine hinv.changed hs rfl hsplit hrequested (fun _ => rfl) ?_ ?_
            · intro group hgroup
              exact (if_pos hgroup).symm
            · simpa only [slot_concat] using hinv.active
          · rw [State.modify_group_none s _ hgroup]
            exact hinv.unchanged hs rfl hsplit hnot

/-- A requested delegation has an agent with a name. -/
theorem agent_named {delegation_id agent_id : String}
    (h : .Requested delegation_id agent_id ∈ actions events) : agent_id ≠ "" := by
  obtain ⟨event, -, hevent⟩ := List.mem_flatMap.1 h
  have hrequest : Action.Requested delegation_id agent_id ∈ event.delegation_actions →
      agent_id ≠ "" := by
    simp only [EventItem.delegation_actions, List.mem_append, EventItem.requests, EventItem.forks,
      EventItem.ends]
    rintro (((hmem | hmem) | hmem) | hmem)
    · split at hmem
      · next htarget =>
        cases List.mem_singleton.1 hmem
        exact (truthy_eq_some.1 htarget).2
      · exact absurd hmem List.not_mem_nil
    · split at hmem <;> simp at hmem
    · split at hmem <;> simp at hmem
    · split at hmem <;> simp at hmem
  unfold EventItem.actions at hevent
  split at hevent
  · exact absurd hevent List.not_mem_nil
  · obtain hmem | hmem := List.mem_append.1 hevent
    · exact hrequest hmem
    · unfold EventItem.call at hmem
      split_ifs at hmem <;> cases List.mem_singleton.1 hmem
  · obtain hmem | hmem := List.mem_append.1 hevent
    · exact hrequest hmem
    · unfold EventItem.answers at hmem
      split at hmem <;> simp at hmem
  · exact hrequest hevent
  · exact hrequest hevent

theorem Inv.on_finished (hs : Session issuer events) (hinv : Inv issuer (actions events) h s)
    {event : EventItem} {type : DelegationEventType} {finished : Status → Status} {failed : Bool}
    (hfinished : ∀ status, finished status =
      if failed then .failed else if status = .in_progress then .completed else status)
    {after : List Action} (hsplit : actions events = h ++ event.ends type failed ++ after) :
    Inv issuer (actions events) (h ++ event.ends type failed)
      (s.on_finished type finished event) := by
  unfold EventItem.ends at hsplit ⊢
  unfold State.on_finished
  cases hid : event.delegation_of type with
  | none => simpa using hinv
  | some delegation_id =>
      simp only [hid] at hsplit ⊢
      rw [List.append_assoc, List.singleton_append] at hsplit
      obtain ⟨hrequested, hkey⟩ | ⟨hnot, hgroup⟩ := hinv.mentioned hs rfl hsplit
      · obtain ⟨agent_id, hrequest⟩ := mem_requested.1 hrequested
        obtain ⟨group, hgroup, -⟩ := Option.map_eq_some_iff.1
          ((hinv.grouped (issuer delegation_id)).trans (if_pos (issuer_called hs hsplit hrequest)))
        -- the code reads the agent off the group: it is the one of the request
        have htarget := hinv.targets _ group delegation_id agent_id hgroup hrequest rfl
        have hmem : Action.Requested delegation_id agent_id ∈ actions events := by
          rw [hsplit]
          exact List.mem_append_left _ hrequest
        rw [hkey, hgroup]
        dsimp only
        unfold State.set_active
        rw [htarget, truthy_eq_some.2 ⟨rfl, agent_named hmem⟩]
        refine hinv.changed hs rfl hsplit hrequested (fun _ => rfl) ?_ fun agent_id' => ?_
        · intro group' hgroup'
          simp only [CallView.step, DelegationGroupInfo.view, hgroup', if_true, hfinished]
        · rw [slot_concat]
          dsimp only
          by_cases hagent : agent_id' = agent_id
          · subst hagent
            have hcontains : (actions events).contains (.Requested delegation_id agent_id') = true :=
              List.contains_iff_mem.2 hmem
            rw [hcontains, if_pos rfl]
            exact Function.update_self ..
          · have hnot : (actions events).contains (.Requested delegation_id agent_id') = false := by
              rw [List.contains_eq_mem, decide_eq_false_iff_not]
              exact fun hmem' => hagent (hs.agent_unique hmem' hmem)
            rw [hnot, if_neg Bool.false_ne_true, ← hinv.active]
            exact Function.update_of_ne hagent ..
      · rw [hgroup]
        exact hinv.unchanged hs rfl hsplit hnot

/-- **The delegation events** of an event. -/
theorem Inv.on_delegation (hs : Session issuer events) (hsep : Separable issuer events)
    (hinv : Inv issuer (actions events) h s) {event : EventItem} (hevent : event ∈ events)
    (htype : event.type ≠ .system) {after : List Action}
    (hsplit : actions events = h ++ event.delegation_actions ++ after) :
    Inv issuer (actions events) (h ++ event.delegation_actions) (s.on_delegation event) := by
  unfold EventItem.delegation_actions at hsplit ⊢
  simp only [List.append_assoc] at hsplit
  have hrequested := hinv.on_requested hs hsep hevent htype (by rw [hsplit, List.append_assoc])
  have hforked := hrequested.on_forked hs (by rw [hsplit]; simp only [List.append_assoc]; rfl)
  have hcompleted : Inv issuer (actions events)
      (h ++ event.requests ++ event.forks ++ event.ends .completed false)
      (((s.on_requested event).on_forked event).on_completed event) :=
    hforked.on_finished hs (fun _ => rfl) (by rw [hsplit]; simp only [List.append_assoc]; rfl)
  have hfailed : Inv issuer (actions events)
      (h ++ event.requests ++ event.forks ++ event.ends .completed false ++ event.ends .failed true)
      (s.on_delegation event) :=
    hcompleted.on_finished hs (fun _ => rfl)
      (by rw [hsplit]; simp only [List.append_assoc]; rfl)
  simpa only [List.append_assoc] using hfailed

/-! ## 4. Calls and answers -/

/-- Attaching a result changes what the invariant is about in one group only. -/
theorem attach_result_same (s : State) (key : String) (row_index : ℕ) (result : EventItem) :
    SameDelegations (s.merge_delegate_result key result)
      (s.attach_result key row_index result) := by
  have hrows : ∀ rows : List EventRow, SameDelegations (s.merge_delegate_result key result)
      ({ s with rows := rows }.merge_delegate_result key result) :=
    fun rows => ⟨rfl, rfl, rfl, fun key' => rfl, rfl, rfl⟩
  unfold State.attach_result
  dsimp only
  split
  · exact hrows _
  · exact (hrows _).trans (.modify_group _ _ fun _ => rfl)

/-- A result is attached to a call that has been made. -/
theorem Inv.merge_delegate_result (hinv : Inv issuer all h s) {key : String}
    (hkey : key ∈ calls h) (result : EventItem) :
    Inv issuer all (h ++ [.Answered key result.is_failed])
      (s.merge_delegate_result key result) := by
  have hother : ∀ key', key' ≠ key →
      view_of issuer key' (h ++ [.Answered key result.is_failed]) = view_of issuer key' h := by
    intro key' hne
    rw [view_of_append]
    exact if_neg fun hand => hne hand.1.symm
  refine ⟨?_, ?_, ?_, fun key' => ?_, ?_, ?_, fun key' hkey' => ?_, ?_⟩
  · simpa [Action.called_for, Action.requested_for, State.merge_delegate_result,
      State.modify_group] using hinv.queue
  · simpa [Action.requested, State.merge_delegate_result, State.modify_group] using hinv.mapped
  · simpa only [slot_concat, State.merge_delegate_result, State.modify_group] using hinv.active
  · simp only [delegate_calls_concat, Action.delegated, Option.toList_none, List.append_nil]
    by_cases hne : key' = key
    · subst hne
      rw [State.merge_delegate_result, State.modify_group_self, Option.map_map, view_of_append]
      have hgroup := hinv.grouped key'
      by_cases hcall : key' ∈ delegate_calls h
      · rw [if_pos hcall] at hgroup ⊢
        obtain ⟨group, hsome, hview⟩ := Option.map_eq_some_iff.1 hgroup
        rw [hsome, ← hview]
        cases result.is_failed <;> simp [CallView.step, DelegationGroupInfo.view]
      · rw [if_neg hcall] at hgroup ⊢
        rw [Option.map_eq_none_iff.1 hgroup]
        rfl
    · rw [State.merge_delegate_result, State.modify_group_of_ne s _ hne, hother key' hne,
        hinv.grouped]
  · intro key' group delegation_id agent_id hgroup hmem hissuer
    have hmem' : Action.Requested delegation_id agent_id ∈ h := by simpa using hmem
    by_cases hne : key' = key
    · subst hne
      rw [State.merge_delegate_result, State.modify_group_self] at hgroup
      obtain ⟨group', hgroup', rfl⟩ := Option.map_eq_some_iff.1 hgroup
      exact hinv.targets key' group' delegation_id agent_id hgroup' hmem' hissuer
    · rw [State.merge_delegate_result, State.modify_group_of_ne s _ hne] at hgroup
      exact hinv.targets key' group delegation_id agent_id hgroup hmem' hissuer
  · simpa [Action.called, State.merge_delegate_result, State.modify_group] using hinv.called
  · have hnot : key' ∉ calls h := by simpa [Action.called] using hkey'
    rw [hother key' fun heq => hnot (heq ▸ hkey)]
    exact hinv.waiting key' hnot
  · intro key' hsome
    rw [answered_concat]
    exact List.mem_append_left _ (hinv.unanswered key' hsome)

/-- No result waits for a call that has been made, or is made no longer. -/
theorem Inv.forget (hinv : Inv issuer all h s) {key : String} (hkey : key ∈ calls h) :
    Inv issuer all h
      { s with
        pending_tool_results_by_id := Function.update s.pending_tool_results_by_id key none } where
  queue := hinv.queue
  mapped := hinv.mapped
  active := hinv.active
  grouped := hinv.grouped
  targets := hinv.targets
  called := hinv.called
  waiting key' hkey' := by
    have hne : key' ≠ key := fun heq => hkey' (heq ▸ hkey)
    rw [hinv.waiting key' hkey']
    simp [hne]
  unanswered key' hsome := by
    by_cases hne : key' = key
    · subst hne
      simp at hsome
    · refine hinv.unanswered key' ?_
      simpa [hne] using hsome

/-- A result that comes before its call waits for it. -/
theorem Inv.keep_result (hs : Session issuer events) (hinv : Inv issuer (actions events) h s)
    {event : EventItem} {key : String} {after : List Action} (hkey : key ∉ calls h)
    (hsplit : actions events = h ++ .Answered key event.is_failed :: after) :
    Inv issuer (actions events) (h ++ [.Answered key event.is_failed])
      { s with
        pending_tool_results_by_id :=
          Function.update s.pending_tool_results_by_id key (some event) } := by
  -- a second answer to the same call would replace the first
  have hfirst : s.pending_tool_results_by_id key = none := by
    refine Option.not_isSome_iff_eq_none.1 fun hsome => ?_
    have hnodup := hs.answered_once
    rw [hsplit, Querymt.ChatView.answered, List.filterMap_append] at hnodup
    exact (List.nodup_append.1 hnodup).2.2 key (hinv.unanswered key hsome) key
      List.mem_cons_self rfl
  have hother : ∀ key', key' ≠ key →
      view_of issuer key' (h ++ [.Answered key event.is_failed]) = view_of issuer key' h := by
    intro key' hne
    rw [view_of_append]
    exact if_neg fun hand => hne hand.1.symm
  refine ⟨?_, ?_, ?_, fun key' => ?_, ?_, ?_, fun key' hkey' => ?_, fun key' hsome => ?_⟩
  · simpa [Action.called_for, Action.requested_for] using hinv.queue
  · simpa [Action.requested] using hinv.mapped
  · simpa only [slot_concat] using hinv.active
  · simp only [delegate_calls_concat, Action.delegated, Option.toList_none, List.append_nil]
    by_cases hne : key' = key
    · subst hne
      have hcall : key' ∉ delegate_calls h := fun hmem => hkey (calls_of_delegate_calls hmem)
      rw [if_neg hcall]
      exact (hinv.grouped key').trans (if_neg hcall)
    · rw [hother key' hne, hinv.grouped]
  · simpa using hinv.targets
  · simpa [Action.called] using hinv.called
  · have hnot : key' ∉ calls h := by simpa [Action.called] using hkey'
    by_cases hne : key' = key
    · subst hne
      rw [view_of_append, hinv.waiting key' hnot, hfirst]
      cases hfailed : event.is_failed <;> simp [CallView.step, hfailed]
    · rw [hother key' hne, hinv.waiting key' hnot]
      simp [hne]
  · rw [answered_concat]
    by_cases hne : key' = key
    · subst hne
      exact List.mem_append_right _ (List.mem_singleton_self _)
    · refine List.mem_append_left _ (hinv.unanswered key' ?_)
      simpa [hne] using hsome

theorem Session.fresh_call (hs : Session issuer events) {a : Action} {key : String}
    {after : List Action} (ha : a.called = some key) (hsplit : actions events = h ++ a :: after) :
    key ∉ calls h ∧ key ≠ "" := by
  have hkey : key ∈ calls (actions events) := by
    rw [hsplit]
    exact List.mem_filterMap.2 ⟨a, List.mem_append_right _ List.mem_cons_self, ha⟩
  refine ⟨fun hmem => ?_, fun heq => hs.keys_named (heq ▸ hkey)⟩
  have hnodup := hs.keys_distinct
  rw [hsplit, calls, List.filterMap_append, List.filterMap_cons_some ha] at hnodup
  exact (List.nodup_append.1 hnodup).2.2 key hmem key List.mem_cons_self rfl

/-- A tool call that is no delegate tool call. -/
theorem Inv.call (hinv : Inv issuer all h s) (key : String) (entry : ToolCallEntry) :
    Inv issuer all (h ++ [.Called key])
      { s with
        tool_call_map := Function.update s.tool_call_map key (some entry)
        pending_tool_results_by_id :=
          Function.update s.pending_tool_results_by_id key none } := by
  refine ⟨?_, ?_, ?_, fun key' => ?_, ?_, fun key' => ?_, fun key' hkey' => ?_,
    fun key' hsome => ?_⟩
  · simpa [Action.called_for, Action.requested_for] using hinv.queue
  · simpa [Action.requested] using hinv.mapped
  · simpa only [slot_concat] using hinv.active
  · simpa [view_of_append, CallView.step, Action.delegated] using hinv.grouped key'
  · simpa using hinv.targets
  · by_cases hne : key' = key
    · subst hne
      simp [Action.called]
    · simpa [Action.called, hne] using hinv.called key'
  · have hnot : key' ∉ calls h ∧ key' ≠ key := by simpa [Action.called] using hkey'
    simpa [view_of_append, CallView.step, hnot.2] using hinv.waiting key' hnot.1
  · by_cases hne : key' = key
    · subst hne
      simp at hsome
    · simpa [Action.answered] using hinv.unanswered key' (by simpa [hne] using hsome)

/-- A delegate tool call, with the result that waited for it. -/
theorem Inv.delegate (hs : Session issuer events) (hinv : Inv issuer (actions events) h s)
    {key : String} {target_agent_id : Option String} {after : List Action} {entry : ToolCallEntry}
    (hsplit : actions events = h ++ .Delegated key target_agent_id :: after)
    (hqueue : ∀ agent_id, s'.pending_delegations_by_agent agent_id =
      if target_agent_id = some agent_id then s.pending_delegations_by_agent agent_id ++ [key]
      else s.pending_delegations_by_agent agent_id)
    (hmapped : s'.delegation_id_to_tool_call = s.delegation_id_to_tool_call)
    (hactive : s'.active_delegation_by_agent = s.active_delegation_by_agent)
    (hothers : ∀ key', key' ≠ key → s'.delegation_groups key' = s.delegation_groups key')
    (hgroup : (s'.delegation_groups key).map DelegationGroupInfo.view =
      some { CallView.new with
        status := if (s.pending_tool_results_by_id key).any EventItem.is_failed then .failed
          else .in_progress })
    (hcalled : s'.tool_call_map = Function.update s.tool_call_map key (some entry))
    (hpending : s'.pending_tool_results_by_id =
      Function.update s.pending_tool_results_by_id key none) :
    Inv issuer (actions events) (h ++ [.Delegated key target_agent_id]) s' := by
  obtain ⟨hfresh, -⟩ := hs.fresh_call rfl hsplit
  have hview : ∀ key', view_of issuer key' (h ++ [.Delegated key target_agent_id]) =
      view_of issuer key' h := fun key' => view_of_append key' h _
  refine ⟨fun agent_id => ?_, ?_, ?_, fun key' => ?_, ?_, fun key' => ?_, fun key' hkey' => ?_,
    fun key' hsome => ?_⟩
  · -- the queue is what is left of the calls, so the new call comes last
    have hlength : (requested_of agent_id h).length ≤ (calls_to agent_id h).length := by
      have hle := (hs.issued_sublist agent_id hsplit).length_le
      rwa [List.length_map] at hle
    rw [hqueue]
    by_cases hagent : target_agent_id = some agent_id
    · simp [Action.called_for, Action.requested_for, hinv.queue, hagent,
        List.drop_append_of_le_length hlength]
    · simp [Action.called_for, Action.requested_for, hinv.queue, hagent]
  · simpa [Action.requested, hmapped] using hinv.mapped
  · simpa only [slot_concat, hactive] using hinv.active
  · simp only [hview, delegate_calls_concat, Action.delegated, Option.toList_some, List.mem_append,
      List.mem_singleton]
    by_cases hne : key' = key
    · subst hne
      rw [hgroup, hinv.waiting key' hfresh]
      simp
    · rw [hothers key' hne, hinv.grouped]
      simp [hne]
  · intro key' group delegation_id agent_id hsome hmem hissuer
    have hmem' : Action.Requested delegation_id agent_id ∈ h := by simpa using hmem
    have hne : key' ≠ key := by
      rintro rfl
      have hcall := calls_of_delegate_calls (issuer_called hs hsplit hmem')
      exact hfresh (hissuer ▸ hcall)
    rw [hothers key' hne] at hsome
    exact hinv.targets key' group delegation_id agent_id hsome hmem' hissuer
  · rw [hcalled]
    by_cases hne : key' = key
    · subst hne
      simp [Action.called]
    · simpa [Action.called, hne] using hinv.called key'
  · have hnot : key' ∉ calls h ∧ key' ≠ key := by simpa [Action.called] using hkey'
    rw [hview, hpending, Function.update_of_ne hnot.2]
    exact hinv.waiting key' hnot.1
  · rw [hpending] at hsome
    by_cases hne : key' = key
    · subst hne
      simp at hsome
    · simpa [Action.answered] using hinv.unanswered key' (by simpa [hne] using hsome)

/-! ## 5. The events one by one -/

theorem queue_delegation_pending (s : State) (target_agent_id : Option String)
    (key agent_id : String) :
    (s.queue_delegation target_agent_id key).pending_delegations_by_agent agent_id =
      if truthy target_agent_id = some agent_id then s.pending_delegations_by_agent agent_id ++ [key]
      else s.pending_delegations_by_agent agent_id := by
  unfold State.queue_delegation
  cases truthy target_agent_id with
  | none => simp
  | some target =>
      by_cases hagent : agent_id = target
      · subst hagent
        simp [State.add_pending_delegation]
      · simp [State.add_pending_delegation, hagent, Ne.symm hagent]

theorem queue_delegation_same (s : State) (target_agent_id : Option String) (key : String) :
    s.queue_delegation target_agent_id key =
      { s with
        pending_delegations_by_agent :=
          (s.queue_delegation target_agent_id key).pending_delegations_by_agent } := by
  unfold State.queue_delegation
  cases truthy target_agent_id <;> rfl

/-- A group that has just been opened. -/
def opened_group (key : String) (event : EventItem) (row : EventRow) : DelegationGroupInfo :=
  { State.new_group key event with
    target_agent_id := event.get_delegate_target_agent_id.or none
    objective := ((none : Option String).or ((event.tool_call.bind ToolCall.raw_input).bind
      RawInput.objective)).or event.delegation_objective
    delegate_event := row }

theorem open_delegation_eq {key : String} (event : EventItem) (row : EventRow)
    (hnone : s.delegation_groups key = none) :
    s.open_delegation key event row =
      { s with
        pending_delegations_by_agent :=
          (s.queue_delegation event.get_delegate_target_agent_id key).pending_delegations_by_agent
        group_keys := s.group_keys ++ [key]
        delegation_groups :=
          Function.update s.delegation_groups key (some (opened_group key event row)) } := by
  unfold State.open_delegation
  dsimp only
  rw [queue_delegation_same]
  unfold State.ensure_delegation_group State.modify_group
  dsimp only
  rw [hnone]
  dsimp only
  rw [Function.update_self, Function.update_idem]
  rfl

theorem Inv.on_tool_call (hs : Session issuer events) (hinv : Inv issuer (actions events) h s)
    (infer_tool_name : EventItem → Option String) {event : EventItem} {after : List Action}
    (hsplit : actions events = h ++ event.call :: after) :
    Inv issuer (actions events) (h ++ [event.call]) (s.on_tool_call infer_tool_name event) := by
  have hkey : event.call.called = some event.tool_call_key := by
    unfold EventItem.call
    split_ifs <;> rfl
  obtain ⟨hfresh, hnamed⟩ := hs.fresh_call hkey hsplit
  have htruthy : truthy (some event.tool_call_key) = some event.tool_call_key :=
    truthy_eq_some.2 ⟨rfl, hnamed⟩
  have hnone : s.delegation_groups event.tool_call_key = none := by
    have hgroup := hinv.grouped event.tool_call_key
    rwa [if_neg fun hmem => hfresh (calls_of_delegate_calls hmem), Option.map_eq_none_iff] at hgroup
  unfold State.on_tool_call
  dsimp only
  generalize s.call_row infer_tool_name event = row
  by_cases hdelegate : event.is_delegate_tool_call = true
  · -- a delegate call opens a group, and takes the result that waits for it
    have hcall : event.call = .Delegated event.tool_call_key
        (truthy event.get_delegate_target_agent_id) := if_pos hdelegate
    rw [hcall] at hsplit ⊢
    rw [if_pos hdelegate, open_delegation_eq event row]
    swap
    · exact hnone
    unfold State.attach_pending_result State.push_row
    dsimp only
    rw [htruthy, Option.bind_some]
    cases hpending : s.pending_tool_results_by_id event.tool_call_key with
    | none =>
        refine hinv.delegate hs hsplit (fun agent_id => queue_delegation_pending ..) rfl rfl
          (fun key' hne => Function.update_of_ne hne ..) ?_ rfl ?_
        · dsimp only
          rw [Function.update_self, hpending]
          rfl
        · dsimp only
          rw [← hpending, Function.update_eq_self]
    | some result =>
        refine Inv.of_same ?_ (attach_result_same _ _ _ _)
        refine hinv.delegate hs hsplit (fun agent_id => queue_delegation_pending ..) rfl rfl
          (fun key' hne => ?_) ?_ rfl rfl
        · rw [State.merge_delegate_result, State.modify_group_of_ne _ _ hne]
          exact Function.update_of_ne hne ..
        · rw [State.merge_delegate_result, State.modify_group_self]
          dsimp only
          rw [Function.update_self, hpending, Option.any_some]
          cases result.is_failed <;> rfl
  · -- another call has no group, so a result that waits for it changes none
    have hcall : event.call = .Called event.tool_call_key := if_neg hdelegate
    rw [hcall, if_neg hdelegate]
    have hinv' := hinv.call event.tool_call_key ⟨event.id, row.depth, s.rows.length⟩
    generalize hrows : (⟨event.id, row.depth, s.rows.length⟩ : ToolCallEntry) = entry at hinv' ⊢
    have hpushed := (SameDelegations.push_to_active
      { s with tool_call_map := Function.update s.tool_call_map event.tool_call_key (some entry) }
      (s.active_delegation_key event) true row).trans (.push_row _ row)
    generalize (State.push_to_active
      { s with tool_call_map := Function.update s.tool_call_map event.tool_call_key (some entry) }
      (s.active_delegation_key event) true row).push_row row = pushed at hpushed ⊢
    unfold State.attach_pending_result
    rw [htruthy, Option.bind_some, hpushed.pending]
    dsimp only
    cases hpending : s.pending_tool_results_by_id event.tool_call_key with
    | none =>
        rw [← hpending, Function.update_eq_self] at hinv'
        exact hinv'.of_same hpushed
    | some result =>
        have hfree : pushed.delegation_groups event.tool_call_key = none := by
          have hview := hpushed.view event.tool_call_key
          dsimp only at hview
          rwa [hnone, Option.map_none, Option.map_eq_none_iff] at hview
        refine Inv.of_same ?_ (attach_result_same _ _ _ _)
        rw [State.merge_delegate_result, State.modify_group_none]
        · exact hinv'.of_same ⟨hpushed.queue, hpushed.mapped, hpushed.active, hpushed.grouped,
            hpushed.called, rfl⟩
        · exact hfree

theorem Inv.on_tool_result (hs : Session issuer events)
    (hinv : Inv issuer (actions events) h s) {event : EventItem} {after : List Action}
    (hsplit : actions events = h ++ event.answers ++ after) :
    Inv issuer (actions events) (h ++ event.answers) (s.on_tool_result event) := by
  unfold EventItem.answers at hsplit ⊢
  unfold State.on_tool_result
  cases hkey : truthy event.tool_call_id with
  | none =>
      simp only [Option.bind_none, List.append_nil]
      exact hinv.of_same ((SameDelegations.push_to_active ..).trans (.push_row ..))
  | some key =>
      simp only [hkey, Option.bind_some] at hsplit ⊢
      rw [List.append_assoc, List.singleton_append] at hsplit
      cases hentry : s.tool_call_map key with
      | none =>
          -- the call is still to come, and the result waits for it
          have hnot : key ∉ calls h := by
            rw [← hinv.called key, hentry]
            exact Bool.false_ne_true
          rw [Option.map_none]
          exact (hinv.keep_result hs hnot hsplit).of_same
            ((SameDelegations.push_to_active ..).trans (.push_row ..))
      | some entry =>
          have hcalled : key ∈ calls h := by
            rw [← hinv.called key, hentry]
            rfl
          rw [Option.map_some]
          dsimp only
          refine Inv.forget ?_ ?_
          · exact (hinv.merge_delegate_result hcalled event).of_same (attach_result_same ..)
          · simpa [Action.called] using hcalled

theorem Inv.on_message (hinv : Inv issuer all h s) (event : EventItem) :
    Inv issuer all h (s.on_message event) := by
  refine hinv.of_same ((SameDelegations.push_to_active s (s.active_delegation_key event) true
    (s.message_row event)).trans ?_)
  exact ⟨rfl, rfl, rfl, fun _ => rfl, rfl, rfl⟩

theorem Inv.on_system (hinv : Inv issuer all h s) (event : EventItem) :
    Inv issuer all h (s.on_system event) := by
  unfold State.on_system
  split_ifs
  · exact hinv
  · exact hinv.of_same (.push_row ..)

/-- **One event**. -/
theorem Inv.on_event (hs : Session issuer events) (hsep : Separable issuer events)
    (hinv : Inv issuer (actions events) h s) (infer_tool_name : EventItem → Option String)
    {event : EventItem} (hevent : event ∈ events) {after : List Action}
    (hsplit : actions events = h ++ event.actions ++ after) :
    Inv issuer (actions events) (h ++ event.actions) (s.on_event infer_tool_name event) := by
  unfold EventItem.actions at hsplit ⊢
  unfold State.on_event
  have hdelegation : ∀ rest, actions events = h ++ event.delegation_actions ++ rest →
      event.type ≠ .system →
      Inv issuer (actions events) (h ++ event.delegation_actions) (s.on_delegation event) :=
    fun rest hrest htype => hinv.on_delegation hs hsep hevent htype hrest
  cases htype : event.type with
  | system =>
      dsimp only
      rw [List.append_nil]
      exact hinv.on_system event
  | tool_call =>
      simp only [htype, ← List.append_assoc] at hsplit ⊢
      rw [List.append_assoc (h ++ _)] at hsplit
      exact (hdelegation _ hsplit (by rw [htype]; decide)).on_tool_call hs infer_tool_name hsplit
  | tool_result =>
      simp only [htype, ← List.append_assoc] at hsplit ⊢
      refine (hdelegation _ (hsplit.trans (List.append_assoc ..)) ?_).on_tool_result hs hsplit
      rw [htype]
      decide
  | user =>
      simp only [htype] at hsplit ⊢
      exact (hdelegation _ hsplit (by rw [htype]; decide)).on_message event
  | agent =>
      simp only [htype] at hsplit ⊢
      exact (hdelegation _ hsplit (by rw [htype]; decide)).on_message event

/-- **All events of a session so far**. -/
theorem inv_build (hs : Session issuer events) (hsep : Separable issuer events)
    (infer_tool_name : EventItem → Option String) {before after : List EventItem}
    (hsplit : events = before ++ after) :
    Inv issuer (actions events) (actions before)
      (build_event_rows_with_delegations infer_tool_name before) := by
  induction before using List.reverseRecOn generalizing after with
  | nil =>
      refine ⟨fun _ => rfl, fun _ => rfl, fun _ => rfl, fun _ => rfl, ?_, ?_, fun _ _ => rfl, ?_⟩
      · intro key group delegation_id agent_id hgroup
        cases hgroup
      · intro key
        exact iff_of_false Bool.false_ne_true List.not_mem_nil
      · intro key hsome
        cases hsome
  | append_singleton before event ih =>
      rw [List.append_assoc, List.singleton_append] at hsplit
      have hactions : actions (before ++ [event]) = actions before ++ event.actions := by
        simp [actions]
      have hbuild : build_event_rows_with_delegations infer_tool_name (before ++ [event]) =
          (build_event_rows_with_delegations infer_tool_name before).on_event infer_tool_name
            event := List.foldl_concat ..
      rw [hactions, hbuild]
      refine @Inv.on_event issuer _ _ events hs hsep (ih hsplit) infer_tool_name event ?_
        (actions after) ?_
      · rw [hsplit]
        exact List.mem_append_right _ List.mem_cons_self
      · rw [hsplit]
        simp [actions]

end

end Querymt.ChatView
