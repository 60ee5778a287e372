/-
`Membership.lean` -- a joiner that comes back.

Models `join_mesh_via_invite` of `remote/mesh/join.rs` over the nodes of `Admission.lean` and the
joiner's own `mesh_state.json`. A first join spends a use of the invite and leaves a token in the
file, under the mesh that the token names; a later join of that mesh shows the token and spends
nothing.

The two sides name the mesh on their own: the joiner by the inviter and the name in the grant, the
host by its own key and the name in the request. They agree when the host that admits is the
inviter, and then the token is found again.

# Runs

Between the joins anything may happen to the nodes: other peers are admitted, invites are created
and revoked, or run out. What the file says is changed by joins and by leaving; the copy of it that
a running mesh keeps is taken to be the file.

The clock is read anew at each check. A token that is out of date for the joiner is not shown.
-/
import Querymt.Library.Runs
import Querymt.Remote.Admission

set_option autoImplicit false

open Encodings Faults Runs Querymt.Invite

namespace Querymt.Admission

/-! ## 1. A join -/

def is_expired (t : MembershipToken) (now : UInt64) : Bool :=
  decide (t.expires_at ≠ 0) && decide (now > t.expires_at)

/-- `SignedInviteGrant::verify`. -/
def verify_invite (c : Crates) (now : UInt64) (s : SignedInviteGrant) : Except InviteError Unit := do
  if s.grant.version ≠ WIRE_VERSION then
    .error (.InvalidToken ("unsupported grant version: " ++ toString s.grant.version ++
      " (expected 3)"))
  else if s.grant.is_expired now then .error .Expired
  else
    let peer_id ← (c.peer_parse s.grant.inviter_peer_id).mapError fun e =>
      .InvalidToken ("invalid inviter_peer_id: " ++ e)
    let public_key ← (c.try_decode_protobuf ((c.peer_to_bytes peer_id).drop 2)).elim
      (.error (.InvalidSignature ("cannot extract public key from inviter_peer_id; " ++
        "only ed25519 identity PeerIds are supported"))) .ok
    let sig_bytes ← (c.hex_decode s.signature).mapError fun e =>
      .InvalidSignature ("hex decode failed: " ++ e)
    let wire ← s.grant.to_wire_bytes c
    if ¬ c.verify public_key wire sig_bytes then
      .error (.InvalidSignature "ed25519 signature verification failed")
    else return ()

/-- The mesh that an invite is for, as the joiner names it. -/
def mesh_of (invite : SignedInviteGrant) : String :=
  mesh_id_for invite.grant.inviter_peer_id invite.grant.mesh_name

/-- The token for a mesh that is shown, with the peers to ask besides the inviter. -/
def existing_token (disk : MeshState) (now : UInt64) (mesh_id : String) :
    Option (MembershipToken × List PeerEntry) :=
  match disk.meshes mesh_id with
  | none => none
  | some entry =>
      if entry.status = .Active then
        match entry.membership_token with
        | some token => if is_expired token now then none else some (token, entry.known_peers)
        | none => none
      else none

/-- What a join does not decide itself: the clock, whether the state is read and the swarm
started, the network, who is connected once admitted, and whether the state is saved. -/
structure Attempt (c : Crates) where
  verified_at : UInt64
  start : Except String Unit
  checked_at : UInt64
  net : Net c
  connected : List c.PeerId
  stored_at : UInt64
  stored : Except String Unit

/-- The nodes, and the joiner's file. -/
structure World (c : Crates) where
  nodes : c.PeerId → Node c
  disk : MeshState

/-- The parts of a join that fail; the code has a text for each. -/
inductive JoinError
  | Invite (e : InviteError)
  | Start (message : String)
  | NotAdmitted (e : AdmissionError)
  | Store (e : InviteError)
  deriving DecidableEq

def peer_entry (peer_id : String) : PeerEntry := ⟨peer_id, ["/p2p/" ++ peer_id]⟩

section

variable {c : Crates}

/-- The peers that are connected, and the others that the host named. -/
def all_peers (connected : List c.PeerId) (existing_peers : List String) : List PeerEntry :=
  (existing_peers.foldl (fun all p => if p ∈ all then all else all ++ [p])
    (connected.map c.peer_to_string)).map peer_entry

/-- `save` of the changed state, with the answer that it was changed for. -/
def World.store (w : World c) (a : Attempt c) (disk : MeshState) (response : AdmissionResponse) :
    Except JoinError AdmissionResponse × World c :=
  match a.stored with
  | .ok () => (.ok response, { w with disk := disk })
  | .error e => (.error (.Store (.StoreError e)), w)

variable [DecidableEq c.PeerId]

/-- The request, and what the search comes to. -/
def ask (me : c.PeerId) (w : World c) (invite : SignedInviteGrant) (a : Attempt c) :
    Except AdmissionError AdmissionResponse × (c.PeerId → Node c) :=
  let mesh_id := mesh_of invite
  let inviter := invite.grant.inviter_peer_id
  match existing_token w.disk a.checked_at mesh_id with
  | some (token, fallback_peers) =>
      admit_request .production w.nodes a.net mesh_id ("iroh:" ++ mesh_id) inviter fallback_peers
        (.Token token (c.peer_to_string me))
  | none =>
      admit_request .production w.nodes a.net mesh_id ("iroh:" ++ mesh_id) inviter []
        (.Invite invite.grant.invite_id invite.grant.mesh_name (c.peer_to_string me))

/-- `join_mesh_via_invite`, with the response that ends it. -/
def join (me : c.PeerId) (w : World c) (invite : SignedInviteGrant) (a : Attempt c) :
    Except JoinError AdmissionResponse × World c :=
  match verify_invite c a.verified_at invite with
  | .error e => (.error (.Invite e), w)
  | .ok () =>
      match a.start with
      | .error message => (.error (.Start message), w)
      | .ok () =>
          let asked := ask me w invite a
          let w := { w with nodes := asked.2 }
          match asked.1 with
          | .error e => (.error (.NotAdmitted e), w)
          | .ok (.Rejected reason) => (.error (.NotAdmitted (.Rejected reason)), w)
          | .ok (.Admitted token existing_peers) =>
              w.store a (w.disk.upsert_joined_mesh a.stored_at token
                (all_peers a.connected existing_peers)) (.Admitted token existing_peers)
          | .ok (.Readmitted existing_peers) =>
              let fallback_peers :=
                ((existing_token w.disk a.checked_at (mesh_of invite)).map Prod.snd).getD []
              match w.disk.meshes (mesh_of invite) with
              | none => (.ok (.Readmitted existing_peers), w)
              | some _ => w.store a (w.disk.update_known_peers a.stored_at (mesh_of invite)
                  fallback_peers) (.Readmitted existing_peers)

/-! ## 2. Runs -/

inductive Op (c : Crates)
  | join (invite : SignedInviteGrant) (a : Attempt c)
  | request (at_node : c.PeerId) (serving : Serving) (message : AdmissionRequest)
  | invites (at_node : c.PeerId) (op : Invite.Op c)
  | leave (now : UInt64) (mesh_id : String)

/-- An operation of the host itself on its invites. -/
def Node.on_invites (node : Node c) (op : Invite.Op c) : Node c :=
  ⟨node.mesh.map fun mesh => { mesh with invite_store := mesh.invite_store.map op.step }⟩

def World.step (me : c.PeerId) (w : World c) : Op c → World c
  | .join invite a => (Admission.join me w invite a).2
  | .request at_node serving message =>
      { w with nodes :=
          Function.update w.nodes at_node ((w.nodes at_node).handle serving message).2 }
  | .invites at_node op =>
      { w with nodes := Function.update w.nodes at_node ((w.nodes at_node).on_invites op) }
  | .leave now mesh_id => { w with disk := w.disk.mark_left now mesh_id }

/-! ## 3. What a request comes to -/

/-- A token leaves every node as it is. -/
theorem admit_token_nodes (nodes : c.PeerId → Node c) (net : Net c)
    (mesh_id scope inviter : String) (peers : List PeerEntry) (t : MembershipToken)
    (peer_id : String) :
    (admit_request .production nodes net mesh_id scope inviter peers (.Token t peer_id)).2 = nodes := by
  unfold admit_request
  split
  · rfl
  · split
    · unfold deliver
      simp only [Node.handle, Function.update_eq_self]
      split
      · rfl
      · rfl
      · split
        · rfl
        · rfl
    · rfl

/-- An answer is that of a node, and is no rejection. -/
theorem answer_of_admit {nodes : c.PeerId → Node c} {net : Net c}
    {mesh_id scope inviter : String} {peers : List PeerEntry} {request : AdmissionRequest}
    {response : AdmissionResponse}
    (h : (admit_request .production nodes net mesh_id scope inviter peers request).1 = .ok response) :
    ∃ target, ((nodes target).handle net.serving request).1 = response ∧
      ∀ reason, response ≠ .Rejected reason := by
  unfold admit_request at h
  split at h
  · cases h
  · split at h
    · next target _ =>
        unfold deliver at h
        split at h
        · cases h
        · cases h
        · dsimp only at h
          split at h
          · cases h
          · next hno =>
              cases h
              exact ⟨target, rfl, fun reason hr => hno reason hr⟩
    · cases h

omit [DecidableEq c.PeerId] in
theorem handle_token_ne_admitted (node : Node c) (serving : Serving) (t : MembershipToken)
    (peer_id : String) (token : MembershipToken) (existing_peers : List String) :
    (node.handle serving (.Token t peer_id)).1 ≠ .Admitted token existing_peers := by
  simp only [Node.handle, Node.handle_token]
  split
  · simp
  · split
    · simp
    · simp

/-! ## 4. A membership -/

/-- The file has an active entry for the mesh, with the token. -/
def Member (disk : MeshState) (mesh_id : String) (t : MembershipToken) : Prop :=
  ∃ entry, disk.meshes mesh_id = some entry ∧ entry.status = .Active ∧
    entry.membership_token = some t

/-- The token is not out of date. -/
def Current (t : MembershipToken) (now : UInt64) : Prop := t.expires_at = 0 ∨ now ≤ t.expires_at

theorem is_expired_of_current {t : MembershipToken} {now : UInt64} (h : Current t now) :
    is_expired t now = false := by
  rw [is_expired, Bool.and_eq_false_iff, decide_eq_false_iff_not, decide_eq_false_iff_not]
  rcases h with h | h
  · exact Or.inl (not_not.2 h)
  · exact Or.inr (UInt64.not_lt.2 h)

theorem Member.existing_token {disk : MeshState} {mesh_id : String} {t : MembershipToken}
    (h : Member disk mesh_id t) {now : UInt64} (hcurrent : Current t now) :
    ∃ peers, existing_token disk now mesh_id = some (t, peers) := by
  obtain ⟨entry, hentry, hactive, htoken⟩ := h
  refine ⟨entry.known_peers, ?_⟩
  simp only [Admission.existing_token, hentry, hactive, htoken, is_expired_of_current hcurrent]
  rfl

theorem member_upsert (disk : MeshState) (now : UInt64) (t : MembershipToken)
    (peers : List PeerEntry) : Member (disk.upsert_joined_mesh now t peers) t.mesh_id t :=
  ⟨_, MeshState.set_self .., rfl, rfl⟩

theorem Member.update_known_peers {disk : MeshState} {mesh_id : String} {t : MembershipToken}
    (h : Member disk mesh_id t) (now : UInt64) (peers : List PeerEntry) :
    Member (disk.update_known_peers now mesh_id peers) mesh_id t := by
  obtain ⟨entry, hentry, hactive, htoken⟩ := h
  simp only [MeshState.update_known_peers, hentry]
  exact ⟨_, MeshState.set_self .., hactive, htoken⟩

theorem Member.mark_left {disk : MeshState} {mesh_id other : String} {t : MembershipToken}
    (h : Member disk mesh_id t) (now : UInt64) (hne : other ≠ mesh_id) :
    Member (disk.mark_left now other) mesh_id t := by
  obtain ⟨entry, hentry, hactive, htoken⟩ := h
  unfold MeshState.mark_left
  split
  · exact ⟨entry, hentry, hactive, htoken⟩
  · refine ⟨entry, ?_, hactive, htoken⟩
    rw [MeshState.set_of_ne _ hne.symm, hentry]

/-- With a membership, a join asks with its token. -/
theorem ask_of_member {me : c.PeerId} {w : World c} {invite : SignedInviteGrant} {a : Attempt c}
    {t : MembershipToken} (h : Member w.disk (mesh_of invite) t) (hcurrent : Current t a.checked_at) :
    ∃ peers, ask me w invite a = admit_request .production w.nodes a.net (mesh_of invite)
      ("iroh:" ++ mesh_of invite) invite.grant.inviter_peer_id peers
      (.Token t (c.peer_to_string me)) := by
  obtain ⟨peers, hexisting⟩ := h.existing_token hcurrent
  refine ⟨peers, ?_⟩
  simp only [ask, hexisting]

/-- **One join of a member.** It leaves the nodes as they are and keeps the membership, whatever it
comes to, and is never a first admission. -/
theorem join_of_member {me : c.PeerId} {w : World c} {invite : SignedInviteGrant} {a : Attempt c}
    {t : MembershipToken} (h : Member w.disk (mesh_of invite) t) (hcurrent : Current t a.checked_at) :
    (join me w invite a).2.nodes = w.nodes ∧
      Member (join me w invite a).2.disk (mesh_of invite) t ∧
      ∀ token existing_peers, (join me w invite a).1 ≠ .ok (.Admitted token existing_peers) := by
  obtain ⟨peers, hask⟩ := ask_of_member h hcurrent
  have hnodes : (ask me w invite a).2 = w.nodes := by
    rw [hask]
    exact admit_token_nodes _ _ _ _ _ _ _ _
  unfold join
  split
  · exact ⟨rfl, h, by simp⟩
  · split
    · exact ⟨rfl, h, by simp⟩
    · simp only [hnodes]
      split
      · exact ⟨rfl, h, by simp⟩
      · exact ⟨rfl, h, by simp⟩
      · next token existing_peers hanswer =>
          rw [hask] at hanswer
          obtain ⟨target, hhandle, -⟩ := answer_of_admit hanswer
          exact absurd hhandle (handle_token_ne_admitted _ _ _ _ _ _)
      · split
        · exact ⟨rfl, h, by simp⟩
        · unfold World.store
          split
          · exact ⟨rfl, h.update_known_peers _ _, by simp⟩
          · exact ⟨rfl, h, by simp⟩

/-! ## 5. Whole runs -/

/-- The operation does not end the membership: it is a join of this mesh while the token is good,
or leaves another mesh, or happens at a node. -/
def Stays (mesh_id : String) (t : MembershipToken) : World c → Op c → Prop
  | _, .join invite a => mesh_of invite = mesh_id ∧ Current t a.checked_at
  | _, .leave _ other => other ≠ mesh_id
  | _, .request _ _ _ => True
  | _, .invites _ _ => True

/-- A join leaves every node as it is. -/
def SpendsNothing (me : c.PeerId) : World c → Op c → Prop
  | w, .join invite a => (join me w invite a).2.nodes = w.nodes
  | _, _ => True

theorem Member.step {me : c.PeerId} {mesh_id : String} {t : MembershipToken} (w : World c)
    (op : Op c) (h : Member w.disk mesh_id t) (hstays : Stays mesh_id t w op) :
    Member (w.step me op).disk mesh_id t := by
  cases op with
  | join invite a =>
      obtain ⟨rfl, hcurrent⟩ := hstays
      exact (join_of_member h hcurrent).2.1
  | request at_node serving message => exact h
  | invites at_node op => exact h
  | leave now other => exact h.mark_left now hstays

/-- The inviter's entry in the DHT is found before the time is over. -/
def FoundInTime (net : Net c) (inviter : c.PeerId) : Prop :=
  ∃ n, (net.found (n + 1) inviter).isSome ∧
    ∀ i < n, started .production net i + net.took (i + 1) < AdmissionPolicy.production.max_elapsed

/-- The join gets through: the invite is good, the inviter is found, and the answer arrives and is
saved. -/
structure GetsThrough (invite : SignedInviteGrant) (a : Attempt c) : Prop where
  invite_ok : verify_invite c a.verified_at invite = .ok ()
  starts : a.start = .ok ()
  found : ∃ inviter, c.peer_parse invite.grant.inviter_peer_id = .ok inviter ∧
    FoundInTime a.net inviter
  answered : a.net.delivery = .Answered
  saved : a.stored = .ok ()

/-- The peer's id can be read. -/
def Reads (c : Crates) (p : PeerEntry) : Prop := ∃ id, c.peer_parse p.peer_id = .ok id

/-- Every peer in the file can. -/
def Readable (c : Crates) (disk : MeshState) : Prop :=
  ∀ mesh_id entry, disk.meshes mesh_id = some entry → ∀ p ∈ entry.known_peers, Reads c p

theorem exists_fallback_candidates {peers : List PeerEntry}
    (hread : ∀ p ∈ peers, Reads c p) (seen : List c.PeerId) :
    ∃ candidates, fallback_candidates seen peers = .ok candidates := by
  induction peers generalizing seen with
  | nil => exact ⟨[], rfl⟩
  | cons peer peers ih =>
      have hrest : ∀ p ∈ peers, Reads c p :=
        fun p hp => hread p (by simp [hp])
      obtain ⟨id, hid⟩ := hread peer (by simp)
      simp only [fallback_candidates, hid]
      split
      · exact ih hrest seen
      · obtain ⟨candidates, hcandidates⟩ := ih hrest (id :: seen)
        exact ⟨id :: candidates, map_eq_ok.2 ⟨candidates, hcandidates, rfl⟩⟩

/-- An inviter that is found in time ends the search with some manager. -/
theorem admit_of_found (nodes : c.PeerId → Node c) {net : Net c} (mesh_id scope : String)
    {inviter_peer_id : String} {inviter : c.PeerId} {peers : List PeerEntry}
    (hinviter : c.peer_parse inviter_peer_id = .ok inviter) (hfound : FoundInTime net inviter)
    (hread : ∀ p ∈ peers, Reads c p) (request : AdmissionRequest) :
    ∃ target, admit_request .production nodes net mesh_id scope inviter_peer_id peers request =
      deliver nodes net target request := by
  obtain ⟨rest, hrest⟩ := exists_fallback_candidates hread [inviter]
  have hcandidates : admission_candidates inviter_peer_id peers = .ok (inviter :: rest) := by
    simp only [admission_candidates, hinviter]
    exact map_eq_ok.2 ⟨rest, hrest, rfl⟩
  obtain ⟨n, hsome, hearlier⟩ := hfound
  obtain ⟨m, hon, hstop⟩ := seek_stops .production net scope (inviter :: rest)
    (Nat.zero_add (AdmissionPolicy.production.max_elapsed + 1)) (Nat.zero_le _)
    "no lookup attempts completed"
  have hround : (inviter :: rest).findSome? (net.found (n + 1)) ≠ none := by
    rw [List.findSome?_cons]
    cases hinv : net.found (n + 1) inviter with
    | some target => simp
    | none => simp [hinv] at hsome
  -- the search does not pass the round that finds the inviter, nor ends before it for the time
  have hpassed : m ≤ n := by
    by_contra hlt
    exact hround (hon n (Nat.zero_le _) (Nat.not_le.1 hlt)).1
  rcases hstop with ⟨target, -, hseek⟩ | ⟨hnone, htime, -⟩
  · refine ⟨target, ?_⟩
    rw [started, AdmissionPolicy.delay] at hseek
    simp only [admit_request, hcandidates, hseek]
  · rcases Nat.lt_or_ge m n with hlt | hge
    · exact absurd (hearlier m hlt) (Nat.not_lt.2 htime)
    · obtain rfl : m = n := Nat.le_antisymm hpassed hge
      exact absurd hnone hround

/-- A member's join that gets through is let in while its token is good. -/
theorem readmitted_of_member {me : c.PeerId} {w : World c} {invite : SignedInviteGrant}
    {a : Attempt c} {t : MembershipToken} (h : Member w.disk (mesh_of invite) t)
    (hcurrent : Current t a.checked_at) (hread : Readable c w.disk)
    (hthrough : GetsThrough invite a) (hpeer : t.peer_id = c.peer_to_string me)
    (hverify : t.verify c a.net.serving.now = .ok ()) :
    ∃ existing_peers, (join me w invite a).1 = .ok (.Readmitted existing_peers) := by
  obtain ⟨entry, hentry, hactive, htoken⟩ := h
  have hexisting : existing_token w.disk a.checked_at (mesh_of invite) =
      some (t, entry.known_peers) := by
    simp only [existing_token, hentry, hactive, htoken, is_expired_of_current hcurrent]
    rfl
  obtain ⟨inviter, hinviter, hfound⟩ := hthrough.found
  obtain ⟨target, hadmit⟩ := admit_of_found w.nodes (mesh_of invite)
    ("iroh:" ++ mesh_of invite) hinviter hfound (hread _ _ hentry)
    (.Token t (c.peer_to_string me))
  obtain ⟨existing_peers, hhandle⟩ :=
    (readmitted_iff (w.nodes target) a.net.serving t (c.peer_to_string me)).2 ⟨hpeer, hverify⟩
  refine ⟨existing_peers, ?_⟩
  simp only [join, hthrough.invite_ok, hthrough.starts, ask, hexisting, hadmit, deliver,
    hthrough.answered, hhandle, hentry, World.store, hthrough.saved]

/-! ### The peers in the file -/

theorem mem_foldl_insert_peer {peers : List PeerEntry} {known : List PeerEntry} {p : PeerEntry}
    (h : p ∈ peers.foldl insert_peer known) : p ∈ known ∨ p ∈ peers := by
  induction peers generalizing known with
  | nil => exact Or.inl h
  | cons peer peers ih =>
      rcases ih h with hknown | hpeers
      · rw [insert_peer, List.mem_orderedInsert] at hknown
        rcases hknown with rfl | hkept
        · exact Or.inr (by simp)
        · exact Or.inl (List.mem_filter.1 hkept).1
      · exact Or.inr (by simp [hpeers])

theorem mem_foldl_push {more all : List String} {p : String}
    (h : p ∈ more.foldl (fun all p => if p ∈ all then all else all ++ [p]) all) :
    p ∈ all ∨ p ∈ more := by
  induction more generalizing all with
  | nil => exact Or.inl h
  | cons q more ih =>
      rcases ih h with hall | hmore
      · dsimp only at hall
        split at hall
        · exact Or.inl hall
        · rw [List.mem_append, List.mem_singleton] at hall
          exact hall.imp id fun hp => by simp [hp]
      · exact Or.inr (by simp [hmore])

omit [DecidableEq c.PeerId] in
theorem reads_all_peers {connected : List c.PeerId} {existing_peers : List String}
    (h : ∀ p ∈ existing_peers, ∃ id, c.peer_parse p = .ok id) :
    ∀ p ∈ all_peers connected existing_peers, Reads c p := by
  intro p hp
  obtain ⟨name, hname, rfl⟩ := List.mem_map.1 hp
  rcases mem_foldl_push hname with hconnected | hexisting
  · obtain ⟨id, -, rfl⟩ := List.mem_map.1 hconnected
    exact ⟨id, c.parse_to_string id⟩
  · exact h name hexisting

omit [DecidableEq c.PeerId] in
/-- A node names the peers by their ids. -/
theorem existing_peers_of_handle {node : Node c} {serving : Serving} {request : AdmissionRequest}
    {token : MembershipToken} {existing_peers : List String}
    (h : (node.handle serving request).1 = .Admitted token existing_peers) :
    ∀ p ∈ existing_peers, ∃ id, c.peer_parse p = .ok id := by
  have hpeers : ∀ (mesh : Mesh c) (peer_id : String), ∀ p ∈ mesh.existing_peers peer_id,
      ∃ id, c.peer_parse p = .ok id := by
    intro mesh peer_id p hp
    obtain ⟨id, -, rfl⟩ := List.mem_map.1 (List.mem_filter.1 hp).1
    exact ⟨id, c.parse_to_string id⟩
  cases request with
  | Token t peer_id => exact absurd h (handle_token_ne_admitted _ _ _ _ _ _)
  | Invite invite_id mesh_name peer_id =>
      simp only [Node.handle, Node.handle_invite] at h
      split at h
      · cases h
      · split at h
        · cases h
        · split at h
          · cases h
            exact hpeers _ _
          · cases h

omit [DecidableEq c.PeerId] in
theorem Readable.set {disk : MeshState} (h : Readable c disk) {mesh_id : String}
    {entry : MeshStateEntry} (hentry : ∀ p ∈ entry.known_peers, Reads c p) :
    Readable c (disk.set mesh_id entry) := by
  intro other found hfound
  by_cases hother : other = mesh_id
  · subst hother
    rw [MeshState.set_self, Option.some.injEq] at hfound
    rw [← hfound]
    exact hentry
  · rw [MeshState.set_of_ne _ hother] at hfound
    exact h other found hfound

theorem existing_peers_of_ask {me : c.PeerId} {w : World c} {invite : SignedInviteGrant}
    {a : Attempt c} {token : MembershipToken} {existing_peers : List String}
    (h : (ask me w invite a).1 = .ok (.Admitted token existing_peers)) :
    ∀ p ∈ existing_peers, ∃ id, c.peer_parse p = .ok id := by
  dsimp only [ask] at h
  split at h
  · obtain ⟨target, hhandle, -⟩ := answer_of_admit h
    exact existing_peers_of_handle hhandle
  · obtain ⟨target, hhandle, -⟩ := answer_of_admit h
    exact existing_peers_of_handle hhandle

omit [DecidableEq c.PeerId] in
/-- The peers that are asked besides the inviter are in the file. -/
theorem Readable.existing_peers {disk : MeshState} (h : Readable c disk) {now : UInt64}
    {mesh_id : String} {p : PeerEntry}
    (hp : p ∈ ((existing_token disk now mesh_id).map Prod.snd).getD []) : Reads c p := by
  unfold existing_token at hp
  split at hp
  · simp at hp
  · next entry hentry =>
      split at hp
      · split at hp
        · split at hp
          · simp at hp
          · exact h _ _ hentry p hp
        · simp at hp
      · simp at hp

theorem Readable.step {me : c.PeerId} (w : World c) (op : Op c) (h : Readable c w.disk) :
    Readable c (w.step me op).disk := by
  cases op with
  | request at_node serving message => exact h
  | invites at_node op => exact h
  | leave now mesh_id =>
      simp only [World.step, MeshState.mark_left]
      split
      · exact h
      · next entry hentry => exact h.set (h mesh_id entry hentry)
  | join invite a =>
      simp only [World.step, join]
      split
      · exact h
      · split
        · exact h
        · split
          · exact h
          · exact h
          · next token existing_peers hanswer =>
              unfold World.store
              split
              · apply h.set
                intro p hp
                rcases mem_foldl_insert_peer hp with hknown | hnew
                · revert hknown
                  cases hmesh : w.disk.meshes token.mesh_id with
                  | none => simp [MeshState.new_entry]
                  | some entry => exact h _ _ hmesh p
                · exact reads_all_peers (existing_peers_of_ask hanswer) p hnew
              · exact h
          · split
            · exact h
            · next entry hmesh =>
                unfold World.store
                split
                · simp only [MeshState.update_known_peers, hmesh]
                  apply h.set
                  intro p hp
                  rcases mem_foldl_insert_peer hp with hknown | hnew
                  · simp at hknown
                  · exact h.existing_peers hnew
                · exact h

/-! ### The first admission -/

/-- A first admission answers a request with an invite, at some node. -/
theorem admitted_of_ask {me : c.PeerId} {w : World c} {invite : SignedInviteGrant} {a : Attempt c}
    {token : MembershipToken} {existing_peers : List String}
    (h : (ask me w invite a).1 = .ok (.Admitted token existing_peers)) :
    ∃ target, ((w.nodes target).handle a.net.serving (.Invite invite.grant.invite_id
      invite.grant.mesh_name (c.peer_to_string me))).1 = .Admitted token existing_peers := by
  dsimp only [ask] at h
  split at h
  · obtain ⟨target, hhandle, -⟩ := answer_of_admit h
    exact absurd hhandle (handle_token_ne_admitted _ _ _ _ _ _)
  · obtain ⟨target, hhandle, -⟩ := answer_of_admit h
    exact ⟨target, hhandle⟩

/-- A join that ends in a first admission has saved its token. -/
theorem join_admitted {me : c.PeerId} {w : World c} {invite : SignedInviteGrant} {a : Attempt c}
    {token : MembershipToken} {existing_peers : List String}
    (h : (join me w invite a).1 = .ok (.Admitted token existing_peers)) :
    (ask me w invite a).1 = .ok (.Admitted token existing_peers) ∧
      Member (join me w invite a).2.disk token.mesh_id token := by
  unfold join World.store at h ⊢
  split at h
  · cases h
  · split at h
    · cases h
    · dsimp only at h ⊢
      split at h
      · cases h
      · cases h
      · next token' existing' hanswer =>
          split at h
          · next hstored =>
              cases h
              simp only [hanswer]
              exact ⟨trivial, member_upsert _ _ _ _⟩
          · cases h
      · split at h
        · cases h
        · split at h
          · cases h
          · cases h

/-- **A membership is kept.** After a join that the inviter admitted, whatever happens at the nodes
(the invite may be revoked or run out) and however often the mesh is joined again, no join spends
anything at any node while the token lasts and the mesh is not left; and every join that gets
through is let in. -/
theorem membership_is_kept {me : c.PeerId} {w : World c} {invite : SignedInviteGrant}
    {a : Attempt c} {token : MembershipToken} {existing_peers : List String}
    (hread : Readable c w.disk)
    (hsound : ∀ p mesh, (w.nodes p).mesh = some mesh → Sound mesh.keypair)
    (hjoin : (join me w invite a).1 = .ok (.Admitted token existing_peers))
    (hinviter : token.admitted_by = invite.grant.inviter_peer_id) {ops : List (Op c)}
    (hstays : Along (World.step me) (Stays (mesh_of invite) token) (join me w invite a).2 ops) :
    Along (World.step me) (SpendsNothing me) (join me w invite a).2 ops ∧
      ∀ again b, mesh_of again = mesh_of invite → GetsThrough again b →
        Current token b.checked_at → Current token b.net.serving.now →
        ∃ existing_peers, (join me (run (World.step me) (join me w invite a).2 ops) again b).1 =
          .ok (.Readmitted existing_peers) := by
  obtain ⟨hask, hmember⟩ := join_admitted hjoin
  obtain ⟨target, hhandle⟩ := admitted_of_ask hask
  obtain ⟨mesh, store, hmesh, -, hadmit⟩ := (admitted_iff _ _ _).1 ⟨existing_peers, hhandle⟩
  obtain ⟨r, -, -, -, hissue⟩ := admit_peer_eq_ok.1 hadmit
  -- the host and the joiner have the same name for the mesh
  have htoken : token.mesh_id = mesh_of invite ∧ token.peer_id = c.peer_to_string me ∧
      token.expires_at = r.grant.expires_at := by
    obtain ⟨payload, sig, -, -, rfl⟩ := issue_eq_ok hissue
    refine ⟨?_, rfl, rfl⟩
    rw [mesh_of, ← hinviter]
    rfl
  obtain ⟨hid, hpeer, hexpires⟩ := htoken
  rw [hid] at hmember
  have hkept : ∀ w' (op : Op c), Member w'.disk (mesh_of invite) token →
      Stays (mesh_of invite) token w' op →
      Member (World.step me w' op).disk (mesh_of invite) token :=
    fun w' op h hop => h.step w' op hop
  constructor
  · refine along_of_invariant (I := fun w' => Member w'.disk (mesh_of invite) token) hstays hkept ?_
      hmember
    intro w' op h hop
    cases op with
    | join again b =>
        obtain ⟨hagain, hcurrent⟩ := hop
        rw [← hagain] at h
        exact (join_of_member h hcurrent).1
    | request at_node serving message => trivial
    | invites at_node op => trivial
    | leave now other => trivial
  · intro again b hagain hthrough hcurrent hserving
    have hmember' : Member (run (World.step me) (join me w invite a).2 ops).disk (mesh_of again)
        token := by
      rw [hagain]
      exact run_invariant (I := fun w' => Member w'.disk (mesh_of invite) token) hstays hkept
        hmember
    have hread' : Readable c (run (World.step me) (join me w invite a).2 ops).disk := by
      refine run_invariant (I := fun w' => Readable c w'.disk) hstays
        (fun w' op h _ => h.step w' op) ?_
      exact hread.step w (.join invite a)
    apply readmitted_of_member hmember' hcurrent hread' hthrough hpeer
    rw [verify_issued (hsound target mesh hmesh) hissue, ← hexpires]
    exact hserving

end

/-! ### A join, and another after the invite was revoked -/

def sample_invite : SignedInviteGrant where
  grant := invite_for_one.grant
  signature := signing_crates.hex_encode (sign_padded
    ((invite_for_one.grant.to_wire_bytes signing_crates).toOption.getD []))

def sample_world : World signing_crates where
  nodes := fun (p : KnownPeer) => if p = .Ed25519 then host else ⟨none⟩
  disk := ⟨fun _ => none⟩

def sample_attempt : Attempt signing_crates where
  verified_at := 1700000001
  start := .ok ()
  checked_at := 1700000001
  net := { slow_net with lookup := fun _ p => .ok (some p) }
  connected := []
  stored_at := 1700000002
  stored := .ok ()

/-- The joiner is the other peer. -/
def sample_joiner : signing_crates.PeerId := KnownPeer.Rsa

theorem sample_invite_verified : verify_invite signing_crates 1700000001 sample_invite = .ok () := by
  decide +kernel

/-- Whom the token of a first admission names, and until when. -/
def admitter : Except JoinError AdmissionResponse → Option (String × UInt64)
  | .ok (.Admitted token _) => some (token.admitted_by, token.expires_at)
  | _ => none

theorem first_join_admitted :
    admitter (join sample_joiner sample_world sample_invite sample_attempt).1 =
      some (sample_invite.grant.inviter_peer_id, 1700000060) := by
  decide +kernel

def sample_run : List (Op signing_crates) :=
  [.invites KnownPeer.Ed25519 (.revoke (.ok ()) sample_id), .join sample_invite sample_attempt]

theorem membership_survives_revocation :
    Along (World.step sample_joiner) (SpendsNothing sample_joiner)
        (join sample_joiner sample_world sample_invite sample_attempt).2 sample_run ∧
      ∃ existing_peers, (join sample_joiner (run (World.step sample_joiner)
        (join sample_joiner sample_world sample_invite sample_attempt).2 sample_run) sample_invite
        sample_attempt).1 = .ok (.Readmitted existing_peers) := by
  have hfirst := first_join_admitted
  cases hjoin : (join sample_joiner sample_world sample_invite sample_attempt).1 with
  | error e => rw [hjoin] at hfirst; cases hfirst
  | ok response =>
      rw [hjoin] at hfirst
      cases response with
      | Readmitted existing_peers => cases hfirst
      | Rejected reason => cases hfirst
      | Admitted token existing_peers =>
          simp only [admitter, Option.some.injEq, Prod.mk.injEq] at hfirst
          have hcurrent : ∀ now ≤ 1700000060, Current token now := by
            intro now hnow
            rw [← hfirst.2] at hnow
            exact Or.inr hnow
          have hsound : ∀ p mesh, (sample_world.nodes p).mesh = some mesh → Sound mesh.keypair := by
            intro p mesh hmesh
            simp only [sample_world] at hmesh
            split at hmesh
            · cases hmesh
              exact sound_host_keypair
            · cases hmesh
          have hread : Readable signing_crates sample_world.disk := by
            intro mesh_id entry hentry
            cases hentry
          have hstays : Along (World.step sample_joiner) (Stays (mesh_of sample_invite) token)
              (join sample_joiner sample_world sample_invite sample_attempt).2 sample_run :=
            ⟨trivial, ⟨rfl, hcurrent _ (by decide)⟩, trivial⟩
          obtain ⟨halong, hagain⟩ := membership_is_kept hread hsound hjoin hfirst.1 hstays
          exact ⟨halong, hagain sample_invite sample_attempt rfl
            ⟨sample_invite_verified, rfl, ⟨KnownPeer.Ed25519, rfl, 0, rfl, nofun⟩, rfl, rfl⟩
            (hcurrent _ (by decide)) (hcurrent _ (by decide))⟩

end Querymt.Admission
