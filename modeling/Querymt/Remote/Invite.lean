/-
`Invite.lean` -- invite grants and membership tokens, and what their signatures cover.

Models `querymt-remote/src/invite.rs`: an `InviteGrant` is what an inviter signs and
hands out as a link, a `MembershipToken` is what the admitting host signs once the
invite was used. Both are signed over bytes of their own layout, so a signature
vouches for a field exactly as far as the layout can tell its values apart.

Peer ids, uuids, keys, hexadecimal and base64 text are the business of other crates.
`Crates` says what of them is used here and what is relied upon: that the conversions
are inverse to each other, and how a peer id starts as bytes. Texts of foreign errors
are whatever the crate prints. The time is an argument, as the code reads it anew in
each call.

The token's layout is length-prefixed throughout and loses nothing, with one exception:
the role, a text, is squeezed into one bit of the flags.
-/
import Querymt.Library.Encodings
import Querymt.Library.Faults

set_option autoImplicit false

open Encodings Faults

namespace Querymt.Invite

/-! ## Data -/

inductive InviteError
  | Expired
  | InvalidToken (message : String)
  | InvalidSignature (message : String)
  | InviteRevoked
  | InviteConsumed
  | NotFound (invite_id : String)
  | StoreError (message : String)
  deriving DecidableEq, Repr

structure InvitePermissions where
  can_invite : Bool
  role : String
  deriving DecidableEq, Repr

structure InviteGrant where
  version : UInt8
  invite_id : String
  inviter_peer_id : String
  mesh_name : Option String
  expires_at : UInt64
  max_uses : UInt32
  permissions : InvitePermissions
  deriving DecidableEq, Repr

structure SignedInviteGrant where
  grant : InviteGrant
  signature : String
  deriving DecidableEq, Repr

structure MembershipToken where
  version : UInt8
  mesh_id : String
  peer_id : String
  admitted_by : String
  invite_id : String
  permissions : InvitePermissions
  issued_at : UInt64
  expires_at : UInt64
  signature : String
  deriving DecidableEq, Repr

/-- `[u8; 16]`. -/
abbrev Uuid := {bytes : List UInt8 // bytes.length = 16}

/-! ## The crates -/

/-- What the code uses of `libp2p`, `uuid`, `hex` and `base64`. An error is the text that
it prints as. -/
structure Crates where
  PeerId : Type
  PublicKey : Type
  peer_to_bytes : PeerId → List UInt8
  peer_from_bytes : List UInt8 → Except String PeerId
  peer_to_string : PeerId → String
  peer_parse : String → Except String PeerId
  try_decode_protobuf : List UInt8 → Option PublicKey
  verify : PublicKey → List UInt8 → List UInt8 → Bool
  uuid_to_string : Uuid → String
  uuid_parse_str : String → Except String Uuid
  hex_encode : List UInt8 → String
  hex_decode : String → Except String (List UInt8)
  base64_encode : List UInt8 → String
  base64_decode : String → Except String (List UInt8)
  utf8_error : List UInt8 → String
  /-- A peer id is a multihash, its content as it is or hashed with SHA-256. -/
  multihash : ∀ p, ∃ code digest, peer_to_bytes p = code :: UInt8.ofNat digest.length :: digest ∧
    (code = 0x00 ∨ code = 0x12) ∧ digest.length < 128
  from_to_bytes : ∀ p, peer_from_bytes (peer_to_bytes p) = .ok p
  to_from_bytes : ∀ {bytes p}, peer_from_bytes bytes = .ok p → peer_to_bytes p = bytes
  parse_to_string : ∀ p, peer_parse (peer_to_string p) = .ok p
  to_string_parse : ∀ {s p}, peer_parse s = .ok p → peer_to_string p = s
  uuid_parse_to_string : ∀ u, uuid_parse_str (uuid_to_string u) = .ok u
  hex_decode_encode : ∀ bytes, hex_decode (hex_encode bytes) = .ok bytes
  base64_decode_encode : ∀ bytes, base64_decode (base64_encode bytes) = .ok bytes
  base64_alphabet : ∀ bytes, ∀ s ∈ (base64_encode bytes).toList, s ∈ base64_symbols

/-- `libp2p::identity::Keypair`: the peer id of its public key, and signing. -/
structure Keypair (c : Crates) where
  peer_id : c.PeerId
  sign : List UInt8 → Except String (List UInt8)

/-! ## Membership tokens -/

def mesh_id_for (inviter_peer_id : String) (mesh_name : Option String) : String :=
  inviter_peer_id ++ ":" ++ mesh_name.getD "anon"

/-- The bytes of a text after their number, in two bytes. -/
def push_str (buf : List UInt8) (s : String) : Except InviteError (List UInt8) :=
  let bytes := as_bytes s
  let len := bytes.length
  if len > 65535 then .error (.InvalidToken s!"field too long: {len} bytes (max 65535)")
  else .ok (buf ++ be_bytes 2 len ++ bytes)

/-- The permissions as bits: the first for `can_invite`, the second for the role
`client`. -/
def InvitePermissions.flags (p : InvitePermissions) : UInt8 :=
  (if p.can_invite then 0x01 else 0) ||| (if p.role = "client" then 0x02 else 0)

def MembershipToken.signable_bytes (t : MembershipToken) : Except InviteError (List UInt8) := do
  let buf := [t.version]
  let buf ← push_str buf t.mesh_id
  let buf ← push_str buf t.peer_id
  let buf ← push_str buf t.admitted_by
  let buf ← push_str buf t.invite_id
  let buf := buf ++ be_bytes 8 t.issued_at.toNat
  let buf := buf ++ be_bytes 8 t.expires_at.toNat
  return buf ++ [t.permissions.flags]

def MembershipToken.issue (c : Crates) (now : UInt64) (mesh_id joiner_peer_id : String)
    (admitter_keypair : Keypair c) (invite_id : String) (permissions : InvitePermissions)
    (expires_at : UInt64) : Except InviteError MembershipToken := do
  let token : MembershipToken :=
    { version := 1, mesh_id := mesh_id, peer_id := joiner_peer_id,
      admitted_by := c.peer_to_string admitter_keypair.peer_id, invite_id := invite_id,
      permissions := permissions, issued_at := now, expires_at := expires_at, signature := "" }
  let payload ← token.signable_bytes
  let sig ← (admitter_keypair.sign payload).mapError fun e =>
    .InvalidSignature ("signing failed: " ++ e)
  return { token with signature := c.hex_encode sig }

def MembershipToken.verify (c : Crates) (now : UInt64) (t : MembershipToken) :
    Except InviteError Unit := do
  if t.version ≠ 1 then
    .error (.InvalidToken s!"unsupported membership token version: {t.version}")
  else if t.expires_at ≠ 0 ∧ now > t.expires_at then .error .Expired
  else
    let peer_id ← (c.peer_parse t.admitted_by).mapError fun e =>
      .InvalidToken ("invalid admitted_by PeerId: " ++ e)
    let public_key ← (c.try_decode_protobuf ((c.peer_to_bytes peer_id).drop 2)).elim
      (.error (.InvalidSignature "cannot extract public key from admitted_by PeerId")) .ok
    let sig_bytes ← (c.hex_decode t.signature).mapError fun e =>
      .InvalidSignature ("hex decode failed: " ++ e)
    let payload ← t.signable_bytes
    if ¬ c.verify public_key payload sig_bytes then
      .error (.InvalidSignature "membership token signature verification failed")
    else return ()

/-! ## What the signed bytes are -/

/-- One field of the layout. -/
def field (s : String) : List UInt8 := be_bytes 2 (as_bytes s).length ++ as_bytes s

/-- The texts of the token are all short enough for their length to be written. -/
def MembershipToken.Short (t : MembershipToken) : Prop :=
  ∀ s ∈ [t.mesh_id, t.peer_id, t.admitted_by, t.invite_id], (as_bytes s).length ≤ 65535

theorem push_str_of_le {s : String} (h : (as_bytes s).length ≤ 65535) (buf : List UInt8) :
    push_str buf s = .ok (buf ++ field s) := by
  have hlen : ¬ (as_bytes s).length > 65535 := by omega
  unfold push_str field
  simp only [if_neg hlen, List.append_assoc]

theorem le_of_push_str {s : String} {buf out : List UInt8} (h : push_str buf s = .ok out) :
    (as_bytes s).length ≤ 65535 := by
  unfold push_str at h
  by_cases hlen : (as_bytes s).length > 65535
  · simp only [if_pos hlen] at h
    cases h
  · omega

theorem signable_bytes_of_short {t : MembershipToken} (h : t.Short) :
    t.signable_bytes = .ok ([t.version] ++ (field t.mesh_id ++ (field t.peer_id ++
      (field t.admitted_by ++ (field t.invite_id ++ (be_bytes 8 t.issued_at.toNat ++
        (be_bytes 8 t.expires_at.toNat ++ [t.permissions.flags]))))))) := by
  simp only [MembershipToken.Short, List.forall_mem_cons] at h
  obtain ⟨h₁, h₂, h₃, h₄, -⟩ := h
  unfold MembershipToken.signable_bytes
  simp only [push_str_of_le h₁, push_str_of_le h₂, push_str_of_le h₃, push_str_of_le h₄,
    ok_bind, List.append_assoc]
  rfl

theorem short_of_signable_bytes {t : MembershipToken} {b : List UInt8}
    (h : t.signable_bytes = .ok b) : t.Short := by
  unfold MembershipToken.signable_bytes at h
  obtain ⟨b₁, h₁, h⟩ := bind_eq_ok.1 h
  obtain ⟨b₂, h₂, h⟩ := bind_eq_ok.1 h
  obtain ⟨b₃, h₃, h⟩ := bind_eq_ok.1 h
  obtain ⟨b₄, h₄, -⟩ := bind_eq_ok.1 h
  simp only [MembershipToken.Short, List.forall_mem_cons]
  exact ⟨le_of_push_str h₁, le_of_push_str h₂, le_of_push_str h₃, le_of_push_str h₄,
    List.forall_mem_nil _⟩

/-- A field is cut off a layout in only one way. -/
theorem field_append_inj {s t : String} {a b : List UInt8} (hs : (as_bytes s).length ≤ 65535)
    (ht : (as_bytes t).length ≤ 65535) (h : field s ++ a = field t ++ b) : s = t ∧ a = b := by
  unfold field at h
  rw [List.append_assoc, List.append_assoc] at h
  obtain ⟨hlen, h⟩ := List.append_inj h (by simp)
  have hlen' := be_bytes_inj (by omega) (by omega) hlen
  obtain ⟨hst, hab⟩ := List.append_inj h hlen'
  exact ⟨as_bytes_inj hst, hab⟩

theorem flags_eq_iff (p q : InvitePermissions) :
    p.flags = q.flags ↔ p.can_invite = q.can_invite ∧ (p.role = "client" ↔ q.role = "client") := by
  unfold InvitePermissions.flags
  by_cases hp : p.role = "client" <;> by_cases hq : q.role = "client" <;>
    cases p.can_invite <;> cases q.can_invite <;> simp [hp, hq] <;> decide

/-! ## What the signature covers -/

/-- The tokens agree on everything but their signatures. -/
structure Agree (t u : MembershipToken) : Prop where
  version : t.version = u.version
  mesh_id : t.mesh_id = u.mesh_id
  peer_id : t.peer_id = u.peer_id
  admitted_by : t.admitted_by = u.admitted_by
  invite_id : t.invite_id = u.invite_id
  issued_at : t.issued_at = u.issued_at
  expires_at : t.expires_at = u.expires_at
  can_invite : t.permissions.can_invite = u.permissions.can_invite
  role : t.permissions.role = u.permissions.role

def MembershipToken.with_role (t : MembershipToken) (role : String) : MembershipToken :=
  { t with permissions := { t.permissions with role := role } }

/-- The tokens agree, signatures aside, once their roles do. -/
def SameButRole (t u : MembershipToken) : Prop := Agree t (u.with_role t.permissions.role)

/-- The signed bytes are the same just where everything but the role is, and the roles
are told apart only as being `client` or not. -/
theorem signable_bytes_eq_iff {t u : MembershipToken} {a b : List UInt8}
    (ht : t.signable_bytes = .ok a) (hu : u.signable_bytes = .ok b) :
    a = b ↔ SameButRole t u ∧
      (t.permissions.role = "client" ↔ u.permissions.role = "client") := by
  have hst := short_of_signable_bytes ht
  have hsu := short_of_signable_bytes hu
  rw [signable_bytes_of_short hst] at ht
  rw [signable_bytes_of_short hsu] at hu
  cases ht
  cases hu
  simp only [MembershipToken.Short, List.forall_mem_cons] at hst hsu
  obtain ⟨t₁, t₂, t₃, t₄, -⟩ := hst
  obtain ⟨u₁, u₂, u₃, u₄, -⟩ := hsu
  constructor
  · intro h
    -- the layout is read from the left, one field after the other
    obtain ⟨hversion, h⟩ := List.append_inj h rfl
    obtain ⟨hmesh, h⟩ := field_append_inj t₁ u₁ h
    obtain ⟨hpeer, h⟩ := field_append_inj t₂ u₂ h
    obtain ⟨hadmitted, h⟩ := field_append_inj t₃ u₃ h
    obtain ⟨hinvite, h⟩ := field_append_inj t₄ u₄ h
    obtain ⟨hissued, h⟩ := List.append_inj h (by simp)
    obtain ⟨hexpires, h⟩ := List.append_inj h (by simp)
    obtain ⟨hcan, hrole⟩ := (flags_eq_iff _ _).1 (List.singleton_inj.1 h)
    have hissued' := be_bytes_inj t.issued_at.toNat_lt u.issued_at.toNat_lt hissued
    have hexpires' := be_bytes_inj t.expires_at.toNat_lt u.expires_at.toNat_lt hexpires
    exact ⟨⟨List.singleton_inj.1 hversion, hmesh, hpeer, hadmitted, hinvite,
      UInt64.toNat_inj.1 hissued', UInt64.toNat_inj.1 hexpires', hcan, rfl⟩, hrole⟩
  · rintro ⟨h, hrole⟩
    have hflags : t.permissions.flags = u.permissions.flags :=
      (flags_eq_iff _ _).2 ⟨h.can_invite, hrole⟩
    rw [h.version, h.mesh_id, h.peer_id, h.admitted_by, h.invite_id, h.issued_at, h.expires_at,
      hflags]
    rfl

/-- Two tokens that are signed over the same bytes agree in every field unless they
differ in the role only and neither role is `client`. -/
theorem signature_covers_iff {t u : MembershipToken} {a b : List UInt8}
    (ht : t.signable_bytes = .ok a) (hu : u.signable_bytes = .ok b) :
    (a = b → Agree t u) ↔
      (¬ SameButRole t u ∨ t.permissions.role = u.permissions.role ∨
        t.permissions.role = "client" ∨ u.permissions.role = "client") := by
  rw [signable_bytes_eq_iff ht hu]
  constructor
  · intro h
    by_contra hno
    simp only [not_or, not_not] at hno
    obtain ⟨hsame, hrole, hclient, hclient'⟩ := hno
    have hagree := h ⟨hsame, iff_of_false hclient hclient'⟩
    exact hrole hagree.role
  · rintro h ⟨hsame, hclient⟩
    have hrole : t.permissions.role = u.permissions.role := by
      obtain h | h | h | h := h
      · exact absurd hsame h
      · exact h
      · rw [h, hclient.1 h]
      · rw [h, hclient.2 h]
    exact { hsame with role := hrole, can_invite := hsame.can_invite }

def sample_token (role : String) : MembershipToken where
  version := 1
  mesh_id := "mesh-a"
  peer_id := "peer-b"
  admitted_by := "12D3KooWDpJ7As7BWAwRMfu1VU2WCqNjvq387JEYKDBj4kx6nXTN"
  invite_id := "invite-1"
  permissions := ⟨false, role⟩
  issued_at := 1700000000
  expires_at := 1700000060
  signature := ""

theorem sample_token_short (role : String) : (sample_token role).Short := by
  simp only [MembershipToken.Short, sample_token, List.forall_mem_cons]
  decide

/-- A token for a member says byte for byte the same as one for an admin. -/
theorem role_not_covered :
    ∃ b, (sample_token "member").signable_bytes = .ok b ∧
      (sample_token "admin").signable_bytes = .ok b ∧
      ¬ Agree (sample_token "member") (sample_token "admin") := by
  have hm := signable_bytes_of_short (sample_token_short "member")
  have ha := signable_bytes_of_short (sample_token_short "admin")
  refine ⟨_, hm, ?_, ?_⟩
  · rw [ha]
    rfl
  · intro h
    exact absurd h.role (by decide)

/-- A role that is `client` is told apart from the others. -/
theorem client_role_covered :
    ∃ a b, (sample_token "client").signable_bytes = .ok a ∧
      (sample_token "member").signable_bytes = .ok b ∧
      (a = b → Agree (sample_token "client") (sample_token "member")) := by
  have hc := signable_bytes_of_short (sample_token_short "client")
  have hm := signable_bytes_of_short (sample_token_short "member")
  exact ⟨_, _, hc, hm, (signature_covers_iff hc hm).2 (.inr (.inr (.inl rfl)))⟩

/-- Whether a token is verified does not depend on which role it names, `client`
aside: a signed token may be handed on with another role. -/
theorem verify_with_role (c : Crates) (now : UInt64) {t : MembershipToken} {role : String}
    (ht : t.permissions.role ≠ "client") (hrole : role ≠ "client") :
    (t.with_role role).verify c now = t.verify c now := by
  have hflags : (t.with_role role).permissions.flags = t.permissions.flags :=
    (flags_eq_iff _ _).2 ⟨rfl, iff_of_false hrole ht⟩
  have hbytes : (t.with_role role).signable_bytes = t.signable_bytes := by
    unfold MembershipToken.signable_bytes
    rw [hflags]
    rfl
  unfold MembershipToken.verify
  rw [hbytes]
  rfl

end Querymt.Invite
