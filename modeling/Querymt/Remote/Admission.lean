/-
`Admission.lean` -- how a peer gets into a mesh: what a host answers, and whom a joiner asks.

Models the `AdmissionRequest` handler of `remote/node_manager.rs` over the invite store of
`InviteStore.lean`, the `AdmissionService` of `remote/admission.rs`, and what both keep in
`mesh_state.rs`.

# The host

A first join names an invite and takes one of its uses. The mesh name of the request goes into
the token as it is; nothing compares it with the name in the grant (`admitted_iff`).

A reconnect shows a token. It is checked against the key of the peer that the token itself says it
was admitted by, so the answer depends on the token and on the clock, and on nothing that the host
knows: neither is an invite looked up, nor does the signer have to be a member
(`issued_token_readmitted_iff`).

# The joiner

`admit_request` goes around the candidates until one has a node manager, and waits longer after each
round. The first manager that is found gets the request, and whatever comes of it ends the search:
a rejection, or a request whose answer was lost, is not tried again with another candidate. So one
call sends one request at most (`admit_asks_first_manager`).

A peer's id is the one of its keypair. Looking a manager up may give any peer, since names in the
DHT are whatever was registered; time is counted in nanoseconds.
-/
import Querymt.Remote.InviteStore

set_option autoImplicit false

open Encodings Faults Querymt.Invite

namespace Querymt.Admission

/-! ## 1. What is known of a mesh -/

structure PeerEntry where
  peer_id : String
  addrs : List String
  deriving DecidableEq

inductive MeshLocalRole
  | Host
  | Member
  | Both
  deriving DecidableEq

def MeshLocalRole.merge : MeshLocalRole → MeshLocalRole → MeshLocalRole
  | .Both, _ => .Both
  | _, .Both => .Both
  | .Host, .Member => .Both
  | .Member, .Host => .Both
  | left, _ => left

inductive MeshStatus
  | Active
  | Left
  | Revoked
  deriving DecidableEq

/-- `known_peers` are the values of a `BTreeMap`, in the order of the peers' ids. -/
structure MeshStateEntry where
  mesh_id : String
  name : Option String
  role : MeshLocalRole
  status : MeshStatus
  membership_token : Option MembershipToken
  admitted_peers : String → Option MembershipToken
  known_peers : List PeerEntry
  invite_ids : List String
  created_at : UInt64
  updated_at : UInt64
  last_connected : Option UInt64

structure MeshState where
  meshes : String → Option MeshStateEntry

/-- `BTreeMap::insert`. -/
def insert_peer (peers : List PeerEntry) (peer : PeerEntry) : List PeerEntry :=
  (peers.filter fun p => p.peer_id ≠ peer.peer_id).orderedInsert
    (fun p q => ¬ q.peer_id < p.peer_id) peer

namespace MeshState

def set (s : MeshState) (mesh_id : String) (entry : MeshStateEntry) : MeshState :=
  ⟨Function.update s.meshes mesh_id (some entry)⟩

@[simp] theorem set_self (s : MeshState) (mesh_id : String) (entry : MeshStateEntry) :
    (s.set mesh_id entry).meshes mesh_id = some entry := Function.update_self ..

theorem set_of_ne (s : MeshState) {mesh_id other : String} (h : other ≠ mesh_id)
    (entry : MeshStateEntry) : (s.set mesh_id entry).meshes other = s.meshes other :=
  Function.update_of_ne h ..

/-- The entry that an operation inserts for a mesh that has none. -/
def new_entry (now : UInt64) (mesh_id : String) (name : Option String) (role : MeshLocalRole)
    (last_connected : Option UInt64) : MeshStateEntry where
  mesh_id := mesh_id
  name := name
  role := role
  status := .Active
  membership_token := none
  admitted_peers := fun _ => none
  known_peers := []
  invite_ids := []
  created_at := now
  updated_at := now
  last_connected := last_connected

def upsert_joined_mesh (s : MeshState) (now : UInt64) (token : MembershipToken)
    (known_peers : List PeerEntry) : MeshState :=
  let entry := (s.meshes token.mesh_id).getD
    (new_entry now token.mesh_id none .Member (some now))
  s.set token.mesh_id { entry with
    role := entry.role.merge .Member
    status := .Active
    membership_token := some token
    last_connected := some now
    updated_at := now
    known_peers := known_peers.foldl insert_peer entry.known_peers }

def add_admitted_peer (s : MeshState) (now : UInt64) (mesh_id : String) (token : MembershipToken) :
    MeshState :=
  let entry := (s.meshes mesh_id).getD (new_entry now mesh_id none .Host none)
  s.set mesh_id { entry with
    role := entry.role.merge .Host
    status := .Active
    updated_at := now
    admitted_peers := Function.update entry.admitted_peers token.peer_id (some token) }

def update_known_peers (s : MeshState) (now : UInt64) (mesh_id : String) (peers : List PeerEntry) :
    MeshState :=
  match s.meshes mesh_id with
  | none => s
  | some entry => s.set mesh_id { entry with
      known_peers := peers.foldl insert_peer []
      updated_at := now
      last_connected := some now }

def mark_left (s : MeshState) (now : UInt64) (mesh_id : String) : MeshState :=
  match s.meshes mesh_id with
  | none => s
  | some entry => s.set mesh_id { entry with status := .Left, updated_at := now }

end MeshState

/-! ## 2. The host -/

inductive AdmissionRequest
  | Invite (invite_id : String) (mesh_name : Option String) (peer_id : String)
  | Token (membership_token : MembershipToken) (peer_id : String)

inductive AdmissionResponse
  | Admitted (membership_token : MembershipToken) (existing_peers : List String)
  | Readmitted (existing_peers : List String)
  | Rejected (reason : String)
  deriving DecidableEq

/-- The texts of the errors. -/
def error_text : InviteError → String
  | .Expired => "invite token has expired"
  | .InvalidToken message => "invalid invite token: " ++ message
  | .InvalidSignature message => "invalid signature: " ++ message
  | .InviteRevoked => "invite has been revoked"
  | .InviteConsumed => "invite has been fully consumed (no uses remaining)"
  | .NotFound invite_id => "invite not found: " ++ invite_id
  | .StoreError message => "store error: " ++ message

/-- What a `MeshHandle` has for admissions. -/
structure Mesh (c : Crates) where
  keypair : Keypair c
  known_peer_ids : List c.PeerId
  invite_store : Option InviteStore
  mesh_state_store : Option MeshState

structure Node (c : Crates) where
  mesh : Option (Mesh c)

/-- What the environment contributes to one request: the clock, as it is read in turn, and how
saving the invites goes. -/
structure Serving where
  now : UInt64
  issued_at : UInt64
  saved : Except String Unit
  state_now : UInt64

section

variable {c : Crates}

def Mesh.existing_peers (mesh : Mesh c) (peer_id : String) : List String :=
  (mesh.known_peer_ids.map c.peer_to_string).filter fun p => p ≠ peer_id

/-- `handle` of `AdmissionRequest::Invite`. -/
def Node.handle_invite (node : Node c) (serving : Serving) (invite_id : String)
    (mesh_name : Option String) (peer_id : String) : AdmissionResponse × Node c :=
  match node.mesh with
  | none => (.Rejected "host has no mesh handle", node)
  | some mesh =>
      match mesh.invite_store with
      | none => (.Rejected "host has no invite store", node)
      | some store =>
          match store.admit_peer c serving.now serving.issued_at serving.saved invite_id peer_id
            mesh.keypair mesh_name with
          | (.ok token, store) =>
              let mesh_id := mesh_id_for (c.peer_to_string mesh.keypair.peer_id) mesh_name
              (.Admitted token (mesh.existing_peers peer_id), ⟨some { mesh with
                invite_store := some store
                mesh_state_store := mesh.mesh_state_store.map fun state =>
                  state.add_admitted_peer serving.state_now mesh_id token }⟩)
          | (.error e, store) =>
              (.Rejected (error_text e), ⟨some { mesh with invite_store := some store }⟩)

/-- `handle` of `AdmissionRequest::Token`. -/
def Node.handle_token (node : Node c) (serving : Serving) (membership_token : MembershipToken)
    (peer_id : String) : AdmissionResponse :=
  if membership_token.peer_id ≠ peer_id then
    .Rejected "peer_id does not match membership token"
  else
    match membership_token.verify c serving.now with
    | .ok () => .Readmitted (node.mesh.elim [] fun mesh => mesh.existing_peers peer_id)
    | .error e => .Rejected (error_text e)

def Node.handle (node : Node c) (serving : Serving) : AdmissionRequest → AdmissionResponse × Node c
  | .Invite invite_id mesh_name peer_id => node.handle_invite serving invite_id mesh_name peer_id
  | .Token membership_token peer_id =>
      (node.handle_token serving membership_token peer_id, node)

/-! ## 3. What a host answers -/

/-- A keypair of the kind whose peer id holds its public key: it signs, and what it signed is
verified under that key. -/
structure Sound (k : Keypair c) : Prop where
  signs : ∀ payload, ∃ sig, k.sign payload = .ok sig
  verifies : ∃ key, c.try_decode_protobuf ((c.peer_to_bytes k.peer_id).drop 2) = some key ∧
    ∀ payload sig, k.sign payload = .ok sig → c.verify key payload sig = true

/-- What a keypair is asked to sign for a joiner. -/
def unsigned_token (issued_at : UInt64) (mesh_id joiner_peer_id : String) (k : Keypair c)
    (invite_id : String) (permissions : InvitePermissions) (expires_at : UInt64) :
    MembershipToken where
  version := 1
  mesh_id := mesh_id
  peer_id := joiner_peer_id
  admitted_by := c.peer_to_string k.peer_id
  invite_id := invite_id
  permissions := permissions
  issued_at := issued_at
  expires_at := expires_at
  signature := ""

section

variable {k : Keypair c} {issued_at expires_at : UInt64} {mesh_id joiner invite_id : String}
  {permissions : InvitePermissions} {t : MembershipToken}

theorem issue_eq_ok (h : MembershipToken.issue c issued_at mesh_id joiner k invite_id permissions
    expires_at = .ok t) :
    ∃ payload sig,
      (unsigned_token issued_at mesh_id joiner k invite_id permissions expires_at).signable_bytes =
        .ok payload ∧ k.sign payload = .ok sig ∧
      t = { unsigned_token issued_at mesh_id joiner k invite_id permissions expires_at with
        signature := c.hex_encode sig } := by
  unfold MembershipToken.issue at h
  obtain ⟨payload, hpayload, h⟩ := bind_eq_ok.1 h
  obtain ⟨sig, hsig, h⟩ := bind_eq_ok.1 h
  refine ⟨payload, sig, hpayload, mapError_eq_ok.1 hsig, ?_⟩
  cases h
  rfl

theorem verify_signed (hk : Sound k) {payload sig : List UInt8} (hversion : t.version = 1)
    (hadmitted : t.admitted_by = c.peer_to_string k.peer_id)
    (hsignature : t.signature = c.hex_encode sig) (hpayload : t.signable_bytes = .ok payload)
    (hsig : k.sign payload = .ok sig) (now : UInt64) :
    t.verify c now = .ok () ↔ t.expires_at = 0 ∨ now ≤ t.expires_at := by
  obtain ⟨key, hkey, hverify⟩ := hk.verifies
  unfold MembershipToken.verify
  simp only [hversion, hadmitted, hsignature, hpayload, c.parse_to_string, c.hex_decode_encode,
    hkey, Except.mapError, ok_bind, Option.elim_some, hverify payload sig hsig]
  by_cases hexpired : t.expires_at ≠ 0 ∧ now > t.expires_at
  · simp only [ne_eq, not_true_eq_false, if_false, if_pos hexpired, reduceCtorEq, false_iff]
    rintro (h | h)
    · exact hexpired.1 h
    · exact UInt64.not_lt.2 h hexpired.2
  · simp only [ne_eq, not_true_eq_false, if_false, if_neg hexpired]
    refine iff_of_true rfl ?_
    by_cases hforever : t.expires_at = 0
    · exact Or.inl hforever
    · exact Or.inr (UInt64.not_lt.1 fun h => hexpired ⟨hforever, h⟩)

/-- A token that was issued holds for as long as it says. -/
theorem verify_issued (hk : Sound k) (h : MembershipToken.issue c issued_at mesh_id joiner k
    invite_id permissions expires_at = .ok t) (now : UInt64) :
    t.verify c now = .ok () ↔ expires_at = 0 ∨ now ≤ expires_at := by
  obtain ⟨payload, sig, hpayload, hsig, rfl⟩ := issue_eq_ok h
  -- the signature is no part of what is signed
  apply verify_signed hk rfl rfl rfl _ hsig now
  exact hpayload

/-- Short texts are all that issuing needs. -/
theorem exists_issued (hk : Sound k)
    (hshort : (unsigned_token issued_at mesh_id joiner k invite_id permissions expires_at).Short) :
    ∃ t, MembershipToken.issue c issued_at mesh_id joiner k invite_id permissions expires_at =
      .ok t := by
  have hpayload := signable_bytes_of_short hshort
  obtain ⟨sig, hsig⟩ := hk.signs _
  exact ⟨_, bind_eq_ok.2 ⟨_, hpayload, bind_eq_ok.2 ⟨sig, mapError_eq_ok.2 hsig, rfl⟩⟩⟩

theorem readmitted_iff (node : Node c) (serving : Serving) (t : MembershipToken)
    (peer_id : String) : (∃ existing_peers,
        (node.handle serving (.Token t peer_id)).1 = .Readmitted existing_peers) ↔
      t.peer_id = peer_id ∧ t.verify c serving.now = .ok () := by
  simp only [Node.handle, Node.handle_token]
  by_cases hpeer : t.peer_id = peer_id
  · simp only [hpeer, ne_eq, not_true_eq_false, if_false, true_and]
    cases hverify : t.verify c serving.now with
    | ok u => simp
    | error e => simp
  · simp [hpeer]

/-- **Reconnecting.** What a keypair issued for a peer is accepted from that peer by every node,
whatever the node's mesh and invites are, until the time that the token gives, and from nobody
else. The issuer can be anyone, the peer itself included. -/
theorem issued_token_readmitted_iff (hk : Sound k) (h : MembershipToken.issue c issued_at mesh_id
      joiner k invite_id permissions expires_at = .ok t) (node : Node c) (serving : Serving)
    (peer_id : String) :
    (node.handle serving (.Token t peer_id)).2 = node ∧
      ((∃ existing_peers,
          (node.handle serving (.Token t peer_id)).1 = .Readmitted existing_peers) ↔
        peer_id = joiner ∧ (expires_at = 0 ∨ serving.now ≤ expires_at)) := by
  have hpeer : t.peer_id = joiner := by
    obtain ⟨payload, sig, -, -, rfl⟩ := issue_eq_ok h
    rfl
  refine ⟨rfl, ?_⟩
  rw [readmitted_iff, verify_issued hk h, hpeer, eq_comm]

/-- What an admission of `admit_peer` comes from. -/
theorem admit_peer_eq_ok {store : InviteStore} {now : UInt64} {saved : Except String Unit}
    {mesh_name : Option String} :
    (store.admit_peer c now issued_at saved invite_id joiner k mesh_name).1 = .ok t ↔
      ∃ r, store.records invite_id = some r ∧ r.Usable now ∧ saved = .ok () ∧
        MembershipToken.issue c issued_at (mesh_id_for (c.peer_to_string k.peer_id) mesh_name)
          joiner k invite_id r.grant.permissions r.grant.expires_at = .ok t := by
  unfold InviteStore.admit_peer InviteStore.consume
  cases hrecord : store.records invite_id with
  | none => simp
  | some r =>
      simp only [Option.some.injEq, exists_eq_left']
      cases huse : r.take_use now joiner with
      | Refused e =>
          simp only [reduceCtorEq, false_iff]
          rintro ⟨husable, -⟩
          rw [take_use_of_usable husable] at huse
          cases huse
      | Exhausted r' =>
          refine iff_of_false ?_ ?_
          · simp [bind_eq_ok]
          · rintro ⟨husable, -⟩
            rw [take_use_of_usable husable] at huse
            cases huse
      | Taken r' =>
          simp only [bind_eq_ok, save_records, mapError_eq_ok, usable_of_taken huse, true_and]
          constructor
          · rintro ⟨u, hsaved, hissue⟩
            exact ⟨hsaved, hissue⟩
          · rintro ⟨hsaved, hissue⟩
            exact ⟨(), hsaved, hissue⟩

theorem admitted_iff (node : Node c) (serving : Serving) (mesh_name : Option String) :
    (∃ existing_peers, (node.handle serving (.Invite invite_id mesh_name joiner)).1 =
        .Admitted t existing_peers) ↔
      ∃ mesh store, node.mesh = some mesh ∧ mesh.invite_store = some store ∧
        (store.admit_peer c serving.now serving.issued_at serving.saved invite_id joiner
          mesh.keypair mesh_name).1 = .ok t := by
  simp only [Node.handle, Node.handle_invite]
  cases hmesh : node.mesh with
  | none => simp
  | some mesh =>
      cases hstore : mesh.invite_store with
      | none => simp [hstore]
      | some store =>
          simp only [Option.some.injEq, exists_and_left, exists_eq_left', hstore]
          generalize store.admit_peer c serving.now serving.issued_at serving.saved invite_id joiner
            mesh.keypair mesh_name = answer
          obtain ⟨token | e, store'⟩ := answer
          · simp
          · simp

/-- **A first join.** An invite that can be used admits its bearer to the mesh of the name that the
bearer gives, whichever mesh it was made out for; the token is accepted by every node until the
invite's own time is over. -/
theorem invite_opens_every_mesh {node : Node c} {mesh : Mesh c} {store : InviteStore}
    {r : InviteRecord} {serving : Serving} (hk : Sound mesh.keypair) (hmesh : node.mesh = some mesh)
    (hstore : mesh.invite_store = some store) (hrecord : store.records invite_id = some r)
    (husable : r.Usable serving.now) (hsaved : serving.saved = .ok ()) (mesh_name : Option String)
    (hshort : (unsigned_token serving.issued_at
      (mesh_id_for (c.peer_to_string mesh.keypair.peer_id) mesh_name) joiner mesh.keypair invite_id
      r.grant.permissions r.grant.expires_at).Short) :
    ∃ token existing_peers, (node.handle serving (.Invite invite_id mesh_name joiner)).1 =
        .Admitted token existing_peers ∧
      token.mesh_id = mesh_id_for (c.peer_to_string mesh.keypair.peer_id) mesh_name ∧
      ∀ (other : Node c) (later : Serving), (∃ existing_peers,
          (other.handle later (.Token token joiner)).1 = .Readmitted existing_peers) ↔
        r.grant.expires_at = 0 ∨ later.now ≤ r.grant.expires_at := by
  obtain ⟨token, hissue⟩ := exists_issued hk hshort
  have hadmit := admit_peer_eq_ok.2 ⟨r, hrecord, husable, hsaved, hissue⟩
  obtain ⟨existing_peers, hadmitted⟩ :=
    (admitted_iff node serving mesh_name).2 ⟨mesh, store, hmesh, hstore, hadmit⟩
  refine ⟨token, existing_peers, hadmitted, ?_, ?_⟩
  · obtain ⟨payload, sig, -, -, rfl⟩ := issue_eq_ok hissue
    rfl
  · intro other later
    have hreadmitted := (issued_token_readmitted_iff hk hissue other later joiner).2
    rw [hreadmitted]
    exact and_iff_right rfl

end

end

/-! ## 4. The joiner's search -/

/-- `Duration`s in nanoseconds; neither delay is zero. -/
structure AdmissionPolicy where
  max_elapsed : ℕ
  initial_delay : ℕ
  max_delay : ℕ
  initial_pos : 0 < initial_delay
  max_pos : 0 < max_delay

def AdmissionPolicy.production : AdmissionPolicy where
  max_elapsed := 15000000000
  initial_delay := 250000000
  max_delay := 2000000000
  initial_pos := by decide
  max_pos := by decide

inductive AdmissionError
  | InvalidInviterPeer (peer_id reason : String)
  | InvalidFallbackPeer (peer_id reason : String)
  | Rejected (reason : String)
  | NoReachablePeer (inviter_peer_id mesh_id : String) (candidate_count attempts timeout : ℕ)
      (last_error : String)
  | Transport (message : String)
  deriving DecidableEq

/-- What becomes of the request that is sent: it is lost, or its answer is, or neither. -/
inductive Delivery
  | Lost (message : String)
  | Unanswered (message : String)
  | Answered

/-- What the network does in one call of `admit`: what each lookup of each round finds, how long
the rounds take, by how much a sleep is longer than asked for, and how the request fares. -/
structure Net (c : Crates) where
  lookup : ℕ → c.PeerId → Except String (Option c.PeerId)
  took : ℕ → ℕ
  overslept : ℕ → ℕ
  delivery : Delivery
  serving : Serving

section

variable {c : Crates} [DecidableEq c.PeerId]

/-- The candidates after the inviter, each once. -/
def fallback_candidates (seen : List c.PeerId) :
    List PeerEntry → Except AdmissionError (List c.PeerId)
  | [] => .ok []
  | peer :: peers =>
      match c.peer_parse peer.peer_id with
      | .error e => .error (.InvalidFallbackPeer peer.peer_id e)
      | .ok peer_id =>
          if peer_id ∈ seen then fallback_candidates seen peers
          else (fallback_candidates (peer_id :: seen) peers).map (peer_id :: ·)

def admission_candidates (inviter_peer_id : String) (fallback_peers : List PeerEntry) :
    Except AdmissionError (List c.PeerId) :=
  match c.peer_parse inviter_peer_id with
  | .error e => .error (.InvalidInviterPeer inviter_peer_id e)
  | .ok inviter => (fallback_candidates [inviter] fallback_peers).map (inviter :: ·)

/-- One round of lookups: the first manager found, or the last error. -/
def look_for (net : Net c) (scope : String) (attempt : ℕ) :
    List c.PeerId → String → Except String c.PeerId
  | [], last_error => .error last_error
  | candidate :: candidates, _ =>
      match net.lookup attempt candidate with
      | .ok (some target) => .ok target
      | .ok none => look_for net scope attempt candidates
          ("no node manager for " ++ c.peer_to_string candidate ++ " in scope " ++ scope)
      | .error e => look_for net scope attempt candidates ("admission transport error: " ++ e)

/-- The rounds, until a manager is found or the time is over. Every sleep takes time, so there is
fuel for more rounds than there can be. -/
def seek (policy : AdmissionPolicy) (net : Net c) (scope : String) (candidates : List c.PeerId) :
    (fuel attempts elapsed delay : ℕ) → String → Except (ℕ × String) c.PeerId
  | 0, attempts, _, _, last_error => .error (attempts, last_error)
  | fuel + 1, attempts, elapsed, delay, last_error =>
      match look_for net scope (attempts + 1) candidates last_error with
      | .ok target => .ok target
      | .error last_error =>
          let elapsed := elapsed + net.took (attempts + 1)
          if policy.max_elapsed ≤ elapsed then .error (attempts + 1, last_error)
          else seek policy net scope candidates fuel (attempts + 1)
            (elapsed + (delay + net.overslept (attempts + 1))) (min (delay * 2) policy.max_delay)
            last_error

/-- The request on its way to a node, and the answer on its way back. -/
def deliver (nodes : c.PeerId → Node c) (net : Net c) (target : c.PeerId)
    (request : AdmissionRequest) : Except AdmissionError AdmissionResponse × (c.PeerId → Node c) :=
  let handled := (nodes target).handle net.serving request
  let nodes' := Function.update nodes target handled.2
  match net.delivery with
  | .Lost message => (.error (.Transport message), nodes)
  | .Unanswered message => (.error (.Transport message), nodes')
  | .Answered =>
      match handled.1 with
      | .Rejected reason => (.error (.Rejected reason), nodes')
      | response => (.ok response, nodes')

/-- `AdmissionService::admit`, with what it does to the nodes. -/
def admit_request (policy : AdmissionPolicy) (nodes : c.PeerId → Node c) (net : Net c)
    (mesh_id scope inviter_peer_id : String) (fallback_peers : List PeerEntry)
    (request : AdmissionRequest) : Except AdmissionError AdmissionResponse × (c.PeerId → Node c) :=
  match admission_candidates inviter_peer_id fallback_peers with
  | .error e => (.error e, nodes)
  | .ok candidates =>
      match seek policy net scope candidates (policy.max_elapsed + 1) 0 0 policy.initial_delay
        "no lookup attempts completed" with
      | .ok target => deliver nodes net target request
      | .error (attempts, last_error) => (.error (.NoReachablePeer inviter_peer_id mesh_id
          candidates.length attempts policy.max_elapsed last_error), nodes)

end

/-! ## 5. Whom a joiner asks -/

section

variable {c : Crates}

/-- The manager that a lookup finds. -/
def Net.found (net : Net c) (attempt : ℕ) (candidate : c.PeerId) : Option c.PeerId :=
  match net.lookup attempt candidate with
  | .ok target => target
  | .error _ => none

/-- The delay after so many rounds. -/
def AdmissionPolicy.delay (policy : AdmissionPolicy) : ℕ → ℕ
  | 0 => policy.initial_delay
  | n + 1 => min (policy.delay n * 2) policy.max_delay

/-- When the round after so many others starts, if there is one. -/
def started (policy : AdmissionPolicy) (net : Net c) : ℕ → ℕ
  | 0 => 0
  | n + 1 => started policy net n + net.took (n + 1) + (policy.delay n + net.overslept (n + 1))

/-- The time that is slept before that at least. -/
def AdmissionPolicy.waited (policy : AdmissionPolicy) : ℕ → ℕ
  | 0 => 0
  | n + 1 => policy.waited n + policy.delay n

theorem delay_pos (policy : AdmissionPolicy) (n : ℕ) : 0 < policy.delay n := by
  induction n with
  | zero => exact policy.initial_pos
  | succ n ih =>
      have := policy.max_pos
      rw [AdmissionPolicy.delay]
      omega

theorem waited_le_started (policy : AdmissionPolicy) (net : Net c) (n : ℕ) :
    policy.waited n ≤ started policy net n := by
  induction n with
  | zero => exact le_rfl
  | succ n ih =>
      rw [AdmissionPolicy.waited, started]
      omega

theorem le_waited (policy : AdmissionPolicy) (n : ℕ) : n ≤ policy.waited n := by
  induction n with
  | zero => exact le_rfl
  | succ n ih =>
      have := delay_pos policy n
      rw [AdmissionPolicy.waited]
      omega

theorem look_for_found (net : Net c) (scope : String) (attempt : ℕ) (candidates : List c.PeerId)
    (last_error : String) :
    (look_for net scope attempt candidates last_error).toOption =
      candidates.findSome? (net.found attempt) := by
  induction candidates generalizing last_error with
  | nil => rfl
  | cons candidate candidates ih =>
      rw [look_for, List.findSome?_cons, Net.found]
      split
      · next target h => simp [h, Except.toOption]
      · next h => simp [h, ih]
      · next e h => simp [h, ih]

/-- Where the search stops: in the first round that finds a manager, or when the time is over. -/
def StopsAt (policy : AdmissionPolicy) (net : Net c) (candidates : List c.PeerId) (n : ℕ)
    (result : Except (ℕ × String) c.PeerId) : Prop :=
  (∃ target, candidates.findSome? (net.found (n + 1)) = some target ∧ result = .ok target) ∨
    candidates.findSome? (net.found (n + 1)) = none ∧
      policy.max_elapsed ≤ started policy net n + net.took (n + 1) ∧
      ∃ last_error, result = .error (n + 1, last_error)

/-- The search goes on after this round. -/
def GoesOn (policy : AdmissionPolicy) (net : Net c) (candidates : List c.PeerId) (n : ℕ) : Prop :=
  candidates.findSome? (net.found (n + 1)) = none ∧
    started policy net n + net.took (n + 1) < policy.max_elapsed

theorem seek_stops (policy : AdmissionPolicy) (net : Net c) (scope : String)
    (candidates : List c.PeerId) {fuel n : ℕ} (hfuel : n + fuel = policy.max_elapsed + 1)
    (hn : n ≤ policy.max_elapsed) (last_error : String) :
    ∃ m, (∀ i, n ≤ i → i < m → GoesOn policy net candidates i) ∧
      StopsAt policy net candidates m (seek policy net scope candidates fuel n
        (started policy net n) (policy.delay n) last_error) := by
  induction fuel generalizing n last_error with
  | zero => omega
  | succ fuel ih =>
      have hround := look_for_found net scope (n + 1) candidates last_error
      rw [seek]
      cases hlook : look_for net scope (n + 1) candidates last_error with
      | ok target =>
          rw [hlook] at hround
          refine ⟨n, fun i hi hlt => absurd hi (Nat.not_le.2 hlt), Or.inl ⟨target, ?_, rfl⟩⟩
          exact hround.symm
      | error last_error' =>
          rw [hlook] at hround
          by_cases htime : policy.max_elapsed ≤ started policy net n + net.took (n + 1)
          · simp only [if_pos htime]
            refine ⟨n, fun i hi hlt => absurd hi (Nat.not_le.2 hlt), Or.inr ⟨?_, htime, _, rfl⟩⟩
            exact hround.symm
          · simp only [if_neg htime]
            -- the next round starts later, by the delay at least
            have hlate := le_trans (le_waited policy n) (waited_le_started policy net n)
            obtain ⟨m, hon, hstop⟩ := ih (n := n + 1) (by omega) (by omega) last_error'
            refine ⟨m, ?_, hstop⟩
            intro i hi hlt
            by_cases hin : i = n
            · subst hin
              exact ⟨hround.symm, Nat.not_le.1 htime⟩
            · exact hon i (by omega) hlt

variable [DecidableEq c.PeerId]

theorem fallback_candidates_nodup {seen : List c.PeerId} {peers : List PeerEntry}
    {candidates : List c.PeerId} (h : fallback_candidates seen peers = .ok candidates) :
    candidates.Nodup ∧ ∀ p ∈ candidates, p ∉ seen := by
  induction peers generalizing seen candidates with
  | nil =>
      cases h
      exact ⟨List.nodup_nil, fun p hp => absurd hp List.not_mem_nil⟩
  | cons peer peers ih =>
      rw [fallback_candidates] at h
      split at h
      · cases h
      · next peer_id hpeer =>
          split at h
          · exact ih h
          · next hnew =>
              obtain ⟨rest, hrest, rfl⟩ := map_eq_ok.1 h
              obtain ⟨hnodup, hseen⟩ := ih hrest
              constructor
              · rw [List.nodup_cons]
                exact ⟨fun hmem => hseen _ hmem (by simp), hnodup⟩
              · intro p hp
                rw [List.mem_cons] at hp
                rcases hp with rfl | hp
                · exact hnew
                · exact fun hmem => hseen p hp (by simp [hmem])

/-- **A join's search.** Under the policy that is used, `admit` asks one node at most: the first
manager that is found, by rounds and in each round by candidates, the inviter first and no
candidate twice. It gives up when no round found one and the time is over, which is after eleven
rounds at the latest. -/
theorem admit_asks_first_manager (nodes : c.PeerId → Node c) (net : Net c)
    (mesh_id scope inviter_peer_id : String) (fallback_peers : List PeerEntry)
    (request : AdmissionRequest) {candidates : List c.PeerId}
    (hcandidates : admission_candidates inviter_peer_id fallback_peers = .ok candidates) :
    candidates.Nodup ∧ (∃ inviter, c.peer_parse inviter_peer_id = .ok inviter ∧
      candidates.head? = some inviter) ∧
    ∃ n < 11, (∀ i < n, candidates.findSome? (net.found (i + 1)) = none) ∧
      ((∃ target, candidates.findSome? (net.found (n + 1)) = some target ∧
          admit_request .production nodes net mesh_id scope inviter_peer_id fallback_peers request =
            deliver nodes net target request) ∨
        candidates.findSome? (net.found (n + 1)) = none ∧
          15000000000 ≤ started .production net n + net.took (n + 1) ∧
          ∃ last_error,
            admit_request .production nodes net mesh_id scope inviter_peer_id fallback_peers request =
              (.error (.NoReachablePeer inviter_peer_id mesh_id candidates.length (n + 1)
                15000000000 last_error), nodes)) := by
  obtain ⟨inviter, hinviter, rest, hrest, rfl⟩ : ∃ inviter, c.peer_parse inviter_peer_id =
      .ok inviter ∧ ∃ rest, fallback_candidates [inviter] fallback_peers = .ok rest ∧
        inviter :: rest = candidates := by
    unfold admission_candidates at hcandidates
    split at hcandidates
    · cases hcandidates
    · next inviter hinviter => exact ⟨inviter, hinviter, map_eq_ok.1 hcandidates⟩
  obtain ⟨hnodup, hseen⟩ := fallback_candidates_nodup hrest
  refine ⟨List.nodup_cons.2 ⟨fun hmem => hseen _ hmem (by simp), hnodup⟩,
    ⟨inviter, hinviter, rfl⟩, ?_⟩
  obtain ⟨n, hon, hstop⟩ := seek_stops .production net scope (inviter :: rest)
    (Nat.zero_add (AdmissionPolicy.production.max_elapsed + 1)) (Nat.zero_le _)
    "no lookup attempts completed"
  -- the sleeps before the eleventh round are longer than the time there is
  have hrounds : n < 11 := by
    by_contra hlate
    have hten := (hon 10 (by omega) (by omega)).2
    have hwaited := waited_le_started .production net 10
    have hsum : AdmissionPolicy.production.max_elapsed ≤
      AdmissionPolicy.production.waited 10 := by decide
    omega
  refine ⟨n, hrounds, fun i hi => (hon i (Nat.zero_le _) hi).1, ?_⟩
  unfold admit_request
  simp only [hcandidates]
  rcases hstop with ⟨target, hfound, hseek⟩ | ⟨hnone, htime, last_error, hseek⟩
  · refine Or.inl ⟨target, hfound, ?_⟩
    rw [started, AdmissionPolicy.delay] at hseek
    rw [hseek]
  · refine Or.inr ⟨hnone, htime, last_error, ?_⟩
    rw [started, AdmissionPolicy.delay] at hseek
    rw [hseek]
    rfl

end

/-! ### A host with one invite -/

/-- A signature is the start of what it signs, padded to its length. -/
def sign_padded (payload : List UInt8) : List UInt8 := (payload ++ List.replicate 64 0).take 64

def signing_crates : Crates :=
  { known_crates with verify := fun _ payload sig => decide (sig = sign_padded payload) }

instance : DecidableEq signing_crates.PeerId := inferInstanceAs (DecidableEq KnownPeer)

def host_keypair : Keypair signing_crates := ⟨KnownPeer.Ed25519, fun m => .ok (sign_padded m)⟩

theorem sound_host_keypair : Sound host_keypair where
  signs payload := ⟨_, rfl⟩
  verifies := by
    refine ⟨_, rfl, ?_⟩
    intro payload sig h
    cases h
    exact decide_eq_true rfl

def sample_serving : Serving := ⟨1700000001, 1700000001, .ok (), 1700000001⟩

def host : Node signing_crates := ⟨some ⟨host_keypair, [], some one_invite, none⟩⟩

/-- A node that has no mesh and no invites readmits a peer that it never heard of. -/
theorem stranger_readmitted :
    ∃ t, MembershipToken.issue signing_crates 1700000000 "any:mesh" "peer-b" host_keypair "none"
        ⟨true, "member"⟩ 0 = .ok t ∧
      ∃ existing_peers, ((⟨none⟩ : Node signing_crates).handle sample_serving
        (.Token t "peer-b")).1 = .Readmitted existing_peers := by
  have hshort : (unsigned_token 1700000000 "any:mesh" "peer-b" host_keypair "none"
      ⟨true, "member"⟩ 0).Short := by
    simp only [MembershipToken.Short, unsigned_token, List.forall_mem_cons]
    decide
  obtain ⟨t, ht⟩ := exists_issued sound_host_keypair hshort
  exact ⟨t, ht, (issued_token_readmitted_iff sound_host_keypair ht _ sample_serving _).2.2
    ⟨rfl, Or.inl rfl⟩⟩

/-- The invite was made out for `team-a`. -/
theorem invite_opens_team_b :
    ∃ token existing_peers, (host.handle sample_serving
        (.Invite sample_id (some "team-b") "peer-b")).1 = .Admitted token existing_peers ∧
      token.mesh_id = "12D3KooW9tJMax94Lrqw7Y5Qw36viGQAS2gTEPQ5Wg1vTk7xPfQs:team-b" := by
  have husable : invite_for_one.Usable sample_serving.now := ⟨rfl, by decide, by decide⟩
  have hshort : (unsigned_token sample_serving.issued_at
      (mesh_id_for (signing_crates.peer_to_string host_keypair.peer_id) (some "team-b")) "peer-b"
      host_keypair sample_id invite_for_one.grant.permissions
      invite_for_one.grant.expires_at).Short := by
    simp only [MembershipToken.Short, unsigned_token, List.forall_mem_cons]
    decide
  obtain ⟨token, existing_peers, hadmitted, hmesh, -⟩ := invite_opens_every_mesh
    sound_host_keypair (rfl : host.mesh = some _) rfl
    (insert_records_self no_invites sample_id invite_for_one) husable rfl (some "team-b") hshort
  exact ⟨token, existing_peers, hadmitted, hmesh⟩

/-- A network in which only the second round finds the inviter. -/
def slow_net : Net signing_crates where
  lookup attempt p := if attempt = 2 then .ok (some p) else .ok none
  took _ := 1000000
  overslept _ := 0
  delivery := .Answered
  serving := sample_serving

theorem slow_net_asks_inviter :
    admission_candidates (c := signing_crates)
        "12D3KooW9tJMax94Lrqw7Y5Qw36viGQAS2gTEPQ5Wg1vTk7xPfQs" [] = .ok [KnownPeer.Ed25519] ∧
      ∃ n < 11, ∀ i < n,
        [KnownPeer.Ed25519].findSome? (slow_net.found (i + 1)) = none := by
  have hcandidates : admission_candidates (c := signing_crates)
      "12D3KooW9tJMax94Lrqw7Y5Qw36viGQAS2gTEPQ5Wg1vTk7xPfQs" [] = .ok [KnownPeer.Ed25519] := rfl
  obtain ⟨-, -, n, hn, hnone, -⟩ := admit_asks_first_manager (fun _ => host) slow_net "m" "iroh:m" _
    _ (.Invite sample_id none "peer-b") hcandidates
  exact ⟨hcandidates, n, hn, hnone⟩

end Querymt.Admission
