/-
`InviteWire.lean` -- invite grants as bytes and as links.

Models `InviteGrant::{to_wire_bytes, from_wire_bytes}` and `SignedInviteGrant::{encode,
decode, decode_binary}`. The layout is

  version 1 | uuid 16 | peer id 2 + n | expires_at 8 | max_uses 4 | flags 1 | m 1 | name m

where `n` is the second byte of the peer id, so that every offset after it depends on a
byte that was read before, and the same for the name.

Reading is total and canonical (`from_wire_bytes_safe`): no byte string makes it read
outside of the buffer, and what it accepts is what writing the grant gives again, up to
the six bits of the flags that mean nothing. Writing says more than reading takes back:
a peer id that is a SHA-256 hash is written but refused, a role that is neither
`client` nor `member` comes back as `member`, and an empty mesh name as none.
-/
import Querymt.Remote.Invite

set_option autoImplicit false

open Encodings Faults

namespace Querymt.Invite

def WIRE_VERSION : UInt8 := 3

/-! ## The code -/

/-- The layout, from the bytes of its parts. -/
def wire (uuid peer_id expires_at max_uses : List UInt8) (flags : UInt8) (name : List UInt8) :
    List UInt8 :=
  [WIRE_VERSION] ++ (uuid ++ (peer_id ++ (expires_at ++ (max_uses ++
    ([flags, UInt8.ofNat name.length] ++ name)))))

def InviteGrant.to_wire_bytes (c : Crates) (g : InviteGrant) :
    Except InviteError (List UInt8) := do
  let uuid ← (c.uuid_parse_str g.invite_id).mapError fun e =>
    .InvalidToken ("invalid invite_id UUID: " ++ e)
  let peer_id_parsed ← (c.peer_parse g.inviter_peer_id).mapError fun e =>
    .InvalidToken ("invalid inviter_peer_id: " ++ e)
  let peer_id_bytes := c.peer_to_bytes peer_id_parsed
  let name_bytes := as_bytes (g.mesh_name.getD "")
  if name_bytes.length > 255 then
    .error (.InvalidToken "mesh_name exceeds 255 bytes")
  else
    .ok (wire uuid.1 peer_id_bytes (be_bytes 8 g.expires_at.toNat) (be_bytes 4 g.max_uses.toNat)
      g.permissions.flags name_bytes)

/-- The last field of `from_wire_bytes`. -/
def read_mesh_name (c : Crates) (data : List UInt8) (name_start name_len : ℕ) :
    Except (Fault InviteError) (Option String) :=
  if name_len = 0 then .ok none
  else do
    let name_slice ← slice data name_start (name_start + name_len)
    match from_utf8 name_slice with
    | some name => .ok (some name)
    | none => .error (.Error (.InvalidToken
        ("invalid mesh_name UTF-8: " ++ c.utf8_error name_slice)))

def InviteGrant.from_wire_bytes (c : Crates) (data : List UInt8) :
    Except (Fault InviteError) (InviteGrant × ℕ) := do
  reject data.isEmpty (.InvalidToken "empty token")
  let version ← index data 0
  reject (version ≠ WIRE_VERSION)
    (.InvalidToken s!"unsupported wire version: {version} (expected {WIRE_VERSION})")
  reject (data.length < 17) (.InvalidToken "token too short")
  let uuid_slice ← slice data 1 17
  let uuid_bytes ← to_array 16 uuid_slice (.InvalidToken "truncated UUID")
  let invite_id := c.uuid_to_string uuid_bytes
  let peer_id_start := 17
  reject (data.length < peer_id_start + 2) (.InvalidToken "token too short for PeerId")
  let mh_code ← index data peer_id_start
  reject (mh_code ≠ 0x00) (.InvalidToken ("unsupported multihash code: 0x" ++
    String.ofList (hex_chars [mh_code]) ++ " (expected 0x00 identity)"))
  let mh_len_byte ← index data (peer_id_start + 1)
  let mh_len := mh_len_byte.toNat
  let peer_id_total := 2 + mh_len
  reject (data.length < peer_id_start + peer_id_total)
    (.InvalidToken "token too short for PeerId payload")
  let peer_id_slice ← slice data peer_id_start (peer_id_start + peer_id_total)
  let peer_id ← fallible ((c.peer_from_bytes peer_id_slice).mapError fun e =>
    .InvalidToken ("invalid PeerId in wire bytes: " ++ e))
  let pos := peer_id_start + peer_id_total
  reject (data.length < pos + 14) (.InvalidToken "token too short for fixed fields")
  let expires_slice ← slice data pos (pos + 8)
  let expires_bytes ← to_array 8 expires_slice (.InvalidToken "truncated expires_at")
  let expires_at := UInt64.ofNat (of_be expires_bytes.1)
  let max_uses_slice ← slice data (pos + 8) (pos + 12)
  let max_uses_bytes ← to_array 4 max_uses_slice (.InvalidToken "truncated max_uses")
  let max_uses := UInt32.ofNat (of_be max_uses_bytes.1)
  let flags ← index data (pos + 12)
  let name_len_byte ← index data (pos + 13)
  let name_len := name_len_byte.toNat
  let name_start := pos + 14
  reject (data.length < name_start + name_len) (.InvalidToken "token too short for mesh_name")
  let mesh_name ← read_mesh_name c data name_start name_len
  let grant : InviteGrant :=
    { version := version, invite_id := invite_id, inviter_peer_id := c.peer_to_string peer_id,
      mesh_name := mesh_name, expires_at := expires_at, max_uses := max_uses,
      permissions :=
        { can_invite := decide (flags &&& 0x01 ≠ 0),
          role := if flags &&& 0x02 ≠ 0 then "client" else "member" } }
  return (grant, name_start + name_len)

def SignedInviteGrant.encode (c : Crates) (s : SignedInviteGrant) : String :=
  let wire := (s.grant.to_wire_bytes c).toOption.getD []
  let sig_bytes := (c.hex_decode s.signature).toOption.getD []
  c.base64_encode (wire ++ sig_bytes)

def SignedInviteGrant.decode_binary (c : Crates) (bytes : List UInt8) :
    Except (Fault InviteError) SignedInviteGrant := do
  let (grant, consumed) ← InviteGrant.from_wire_bytes c bytes
  let sig_start := consumed
  let remaining := bytes.length - sig_start
  reject (bytes.length < sig_start + 64) (.InvalidToken
    s!"token too short for signature: {remaining} bytes remaining, need 64")
  let extra := bytes.length - sig_start - 64
  reject (bytes.length > sig_start + 64)
    (.InvalidToken s!"unexpected trailing bytes: {extra} extra")
  let sig_bytes ← slice bytes sig_start (sig_start + 64)
  return { grant := grant, signature := c.hex_encode sig_bytes }

/-- `str::strip_prefix`. -/
def strip_prefix (scheme token : String) : Option String :=
  if scheme.toList <+: token.toList then
    some (String.ofList (token.toList.drop scheme.toList.length))
  else none

def SignedInviteGrant.decode (c : Crates) (token : String) :
    Except (Fault InviteError) SignedInviteGrant := do
  let stripped := strip_prefix "qmt://mesh/join/" token
  let raw := stripped.getD token
  let bytes ← fallible ((c.base64_decode raw).mapError fun e =>
    .InvalidToken ("base64 decode failed: " ++ e))
  reject bytes.isEmpty (.InvalidToken "empty token")
  let version ← index bytes 0
  reject (version ≠ WIRE_VERSION)
    (.InvalidToken s!"unsupported token version: {version} (expected {WIRE_VERSION})")
  SignedInviteGrant.decode_binary c bytes

/-! ## Writing -/

theorem to_wire_bytes_eq_ok {c : Crates} {g : InviteGrant} {b : List UInt8} :
    g.to_wire_bytes c = .ok b ↔
      ∃ uuid p, c.uuid_parse_str g.invite_id = .ok uuid ∧ c.peer_parse g.inviter_peer_id = .ok p ∧
        (as_bytes (g.mesh_name.getD "")).length ≤ 255 ∧
        b = wire uuid.1 (c.peer_to_bytes p) (be_bytes 8 g.expires_at.toNat)
          (be_bytes 4 g.max_uses.toNat) g.permissions.flags (as_bytes (g.mesh_name.getD "")) := by
  unfold InviteGrant.to_wire_bytes
  simp only [bind_eq_ok, mapError_eq_ok]
  constructor
  · rintro ⟨uuid, hu, p, hp, h⟩
    split at h
    · cases h
    · rename_i hname
      cases h
      exact ⟨uuid, p, hu, hp, by omega, rfl⟩
  · rintro ⟨uuid, p, hu, hp, hname, rfl⟩
    refine ⟨uuid, hu, p, hp, ?_⟩
    rw [if_neg (by omega)]

/-! ## Reading -/

/-- The grant that reading builds from the parts. -/
def grant_of (c : Crates) (uuid : Uuid) (p : c.PeerId) (expires_at max_uses : List UInt8)
    (flags : UInt8) (mesh_name : Option String) : InviteGrant where
  version := WIRE_VERSION
  invite_id := c.uuid_to_string uuid
  inviter_peer_id := c.peer_to_string p
  mesh_name := mesh_name
  expires_at := UInt64.ofNat (of_be expires_at)
  max_uses := UInt32.ofNat (of_be max_uses)
  permissions :=
    { can_invite := decide (flags &&& 0x01 ≠ 0),
      role := if flags &&& 0x02 ≠ 0 then "client" else "member" }

/-- The name as it is read: none where there are no bytes. -/
def ReadsName (name : List UInt8) (mesh_name : Option String) : Prop :=
  if name = [] then mesh_name = none else ∃ text, mesh_name = some text ∧ as_bytes text = name

/-- The data starts with a layout whose parts are those of the grant. -/
def Reads (c : Crates) (data : List UInt8) (g : InviteGrant) (n : ℕ) : Prop :=
  ∃ (uuid : Uuid) (p : c.PeerId) (expires_at max_uses : List UInt8) (flags : UInt8)
    (name : List UInt8) (mesh_name : Option String),
    expires_at.length = 8 ∧ max_uses.length = 4 ∧ name.length ≤ 255 ∧ ReadsName name mesh_name ∧
    g = grant_of c uuid p expires_at max_uses flags mesh_name ∧
    (c.peer_to_bytes p).head? = some 0x00 ∧ n ≤ data.length ∧
    data.take n = wire uuid.1 (c.peer_to_bytes p) expires_at max_uses flags name

/-- The fixed part of the layout and the name, put together from the reads. -/
theorem take_eq_wire {data peer_id : List UInt8} {flags name_len : UInt8} {k : ℕ}
    (hversion : data[0]? = some WIRE_VERSION) (hpeer : (data.drop 17).take k = peer_id)
    (hflags : data[17 + k + 12]? = some flags) (hlen : data[17 + k + 13]? = some name_len)
    (hname : 17 + k + 14 + name_len.toNat ≤ data.length) :
    data.take (17 + k + 14 + name_len.toNat) =
      wire ((data.drop 1).take 16) peer_id ((data.drop (17 + k)).take 8)
        ((data.drop (17 + k + 8)).take 4) flags
        ((data.drop (17 + k + 14)).take name_len.toNat) := by
  have hlength : UInt8.ofNat ((data.drop (17 + k + 14)).take name_len.toNat).length = name_len := by
    rw [List.length_take, List.length_drop, Nat.min_eq_left (by omega), UInt8.ofNat_toNat]
  have hlast : data.take (17 + k + 14) = data.take (17 + k + 13) ++ [name_len] :=
    take_succ_index hlen
  have hbits : data.take (17 + k + 13) = data.take (17 + k + 12) ++ [flags] :=
    take_succ_index hflags
  have hmax : data.take (17 + k + 12) =
      data.take (17 + k + 8) ++ (data.drop (17 + k + 8)).take 4 := by
    rw [← List.take_add, Nat.add_assoc _ 8 4]
  have hfirst : data.take 17 = data.take 1 ++ (data.drop 1).take 16 := by
    rw [← List.take_add]
  have hone : data.take 1 = [WIRE_VERSION] := take_succ_index hversion
  unfold wire
  rw [hlength, List.take_add, hlast, hbits, hmax, List.take_add, List.take_add, hfirst, hone, hpeer]
  simp only [List.append_assoc, List.cons_append, List.nil_append]

theorem length_slice {data : List UInt8} {a n : ℕ} (h : a + n ≤ data.length) :
    ((data.drop a).take n).length = n := by
  rw [List.length_take, List.length_drop]
  omega

theorem read_mesh_name_reads (c : Crates) {data : List UInt8} {start len : ℕ}
    (h : start + len ≤ data.length) :
    Safe (read_mesh_name c data start len) (ReadsName ((data.drop start).take len)) := by
  have hlen := length_slice h
  unfold read_mesh_name
  by_cases h0 : len = 0
  · rw [if_pos h0]
    refine safe_ok ?_
    unfold ReadsName
    rw [if_pos (List.length_eq_zero_iff.1 (hlen.trans h0))]
  · rw [if_neg h0]
    refine safe_bind (safe_slice len rfl h ?_)
    have hne : (data.drop start).take len ≠ [] := fun hnil => h0 (by rw [← hlen, hnil]; rfl)
    cases htext : from_utf8 ((data.drop start).take len) with
    | none => trivial
    | some text =>
        refine safe_ok ?_
        unfold ReadsName
        rw [if_neg hne]
        exact ⟨text, rfl, as_bytes_of_from_utf8 htext⟩

/-- Whatever the data, reading stays within it, and an accepted grant is spelled out by
the data up to where reading stopped. -/
theorem from_wire_bytes_reads (c : Crates) (data : List UInt8) :
    Safe (InviteGrant.from_wire_bytes c data) fun r => Reads c data r.1 r.2 := by
  unfold InviteGrant.from_wire_bytes
  refine safe_bind (safe_reject fun hempty => ?_)
  have hpos : 0 < data.length := by
    cases data with
    | nil => exact absurd rfl hempty
    | cons b data => simp
  refine safe_bind (safe_index hpos fun version hversion => ?_)
  refine safe_bind (safe_reject fun hwire => ?_)
  refine safe_bind (safe_reject fun hshort => ?_)
  refine safe_bind (safe_slice 16 rfl (by omega) ?_)
  refine safe_bind (safe_to_array fun huuid => ?_)
  refine safe_bind (safe_reject fun hpeer => ?_)
  refine safe_bind (safe_index (by omega) fun mh_code hcode => ?_)
  refine safe_bind (safe_reject fun hidentity => ?_)
  refine safe_bind (safe_index (by omega) fun mh_len hlen => ?_)
  refine safe_bind (safe_reject fun hpayload => ?_)
  refine safe_bind (safe_slice (2 + mh_len.toNat) rfl (by omega) ?_)
  refine safe_bind (safe_fallible fun p hp => ?_)
  refine safe_bind (safe_reject fun hfixed => ?_)
  refine safe_bind (safe_slice 8 rfl (by omega) ?_)
  refine safe_bind (safe_to_array fun hexpires => ?_)
  refine safe_bind (safe_slice 4 rfl (by omega) ?_)
  refine safe_bind (safe_to_array fun hmax => ?_)
  refine safe_bind (safe_index (by omega) fun flags hflags => ?_)
  refine safe_bind (safe_index (by omega) fun name_len hname_len => ?_)
  refine safe_bind (safe_reject fun hname => ?_)
  -- the checks that were passed, as equations and bounds
  have hversion' : data[0]? = some WIRE_VERSION := by
    rw [hversion, not_not.1 hwire]
  have hpeer_slice := (c.to_from_bytes (mapError_eq_ok.1 hp)).symm
  have htake := take_eq_wire hversion' hpeer_slice hflags hname_len (by omega)
  refine safe_bind ((read_mesh_name_reads c (by omega)).imp fun mesh_name hmesh => safe_ok ?_)
  refine ⟨⟨_, huuid⟩, p, _, _, flags, _, mesh_name, hexpires, hmax, ?_, hmesh, ?_, ?_, by omega,
    htake⟩
  · rw [List.length_take]
    have := name_len.toNat_lt
    omega
  · rw [not_not.1 hwire]
    rfl
  · rw [← hpeer_slice, List.head?_take, if_neg (by omega), List.head?_drop, hcode,
      not_not.1 hidentity]

/-! ## Reading what was written -/

theorem read_mesh_name_of_drop (c : Crates) {data name rest : List UInt8} {start : ℕ}
    {mesh_name : Option String} (h : data.drop start = name ++ rest)
    (hlen : start + name.length ≤ data.length) (hname : ReadsName name mesh_name) :
    read_mesh_name c data start name.length = .ok mesh_name := by
  unfold ReadsName at hname
  unfold read_mesh_name
  by_cases hnil : name = []
  · rw [if_pos hnil] at hname
    rw [if_pos (by rw [hnil]; rfl), hname]
  · rw [if_neg hnil] at hname
    obtain ⟨text, rfl, rfl⟩ := hname
    rw [if_neg (fun h0 => hnil (List.length_eq_zero_iff.1 h0)), slice_of_drop h rfl hlen, ok_bind,
      from_utf8_as_bytes]

/-- A layout is read back, whatever comes after it, if its peer id starts as an identity
multihash. -/
theorem from_wire_bytes_wire (c : Crates) {uuid : Uuid} {p : c.PeerId}
    {digest expires_at max_uses name : List UInt8} {flags : UInt8} {mesh_name : Option String}
    (hp : c.peer_to_bytes p = 0x00 :: UInt8.ofNat digest.length :: digest)
    (hdigest : digest.length < 128) (hexpires : expires_at.length = 8)
    (hmax : max_uses.length = 4) (hlen : name.length ≤ 255) (hname : ReadsName name mesh_name)
    (rest : List UInt8) :
    InviteGrant.from_wire_bytes c
        (wire uuid.1 (c.peer_to_bytes p) expires_at max_uses flags name ++ rest) =
      .ok (grant_of c uuid p expires_at max_uses flags mesh_name,
        (wire uuid.1 (c.peer_to_bytes p) expires_at max_uses flags name).length) := by
  obtain ⟨uuid, huuid⟩ := uuid
  have hmh : (UInt8.ofNat digest.length).toNat = digest.length := by
    rw [UInt8.toNat_ofNat', Nat.mod_eq_of_lt (by omega)]
  have hnl : (UInt8.ofNat name.length).toNat = name.length := by
    rw [UInt8.toNat_ofNat', Nat.mod_eq_of_lt (by omega)]
  have hpeer : (c.peer_to_bytes p).length = 2 + digest.length := by
    rw [hp, List.length_cons, List.length_cons]
    omega
  generalize hdata : wire uuid (c.peer_to_bytes p) expires_at max_uses flags name ++ rest = data
  have hsize : data.length = 17 + (2 + digest.length) + 14 + name.length + rest.length := by
    rw [← hdata]
    simp only [wire, List.length_append, List.length_cons, List.length_nil, huuid, hpeer, hexpires,
      hmax]
    omega
  -- what is left of the data after each part
  have d₀ : data.drop 0 = [WIRE_VERSION] ++ (uuid ++ (c.peer_to_bytes p ++ (expires_at ++
      (max_uses ++ ([flags] ++ ([UInt8.ofNat name.length] ++ (name ++ rest))))))) := by
    rw [List.drop_zero, ← hdata]
    simp only [wire, List.append_assoc, List.cons_append, List.nil_append]
  have d₁ := drop_after d₀ (b := 1) rfl
  have d₂ := drop_after d₁ (b := 17) (by rw [huuid])
  have d₃ := drop_after d₂ (b := 17 + (2 + digest.length)) (by rw [hpeer])
  have d₄ := drop_after d₃ (b := 17 + (2 + digest.length) + 8) (by rw [hexpires])
  have d₅ := drop_after d₄ (b := 17 + (2 + digest.length) + 12) (by rw [hmax])
  have d₆ := drop_after d₅ (b := 17 + (2 + digest.length) + 13) rfl
  have d₇ := drop_after d₆ (b := 17 + (2 + digest.length) + 14) rfl
  obtain ⟨tail, dcode⟩ : ∃ tail, data.drop 17 = 0x00 :: UInt8.ofNat digest.length :: tail :=
    ⟨_, by rw [d₂, hp]; rfl⟩
  have dlen : data.drop (17 + 1) = UInt8.ofNat digest.length :: tail := by
    rw [← List.drop_drop, dcode]
    rfl
  have hempty : ¬ data.isEmpty = true := by
    rw [List.isEmpty_iff_length_eq_zero]
    omega
  unfold InviteGrant.from_wire_bytes
  simp only [ok_bind, reject_of_not hempty, index_of_drop d₀, ne_eq, not_true_eq_false,
    reject_of_not (show ¬ False from id), reject_of_not (show ¬ data.length < 17 by omega),
    slice_of_drop d₁ (show 17 = 1 + uuid.length by rw [huuid]) (by omega),
    to_array_of_length huuid]
  simp only [ok_bind, reject_of_not (show ¬ data.length < 17 + 2 by omega), index_of_drop dcode,
    index_of_drop dlen, hmh, not_true_eq_false, reject_of_not (show ¬ False from id),
    reject_of_not (show ¬ data.length < 17 + (2 + digest.length) by omega),
    slice_of_drop d₂ (show 17 + (2 + digest.length) = 17 + _ by rw [hpeer]) (by omega),
    fallible_of_ok (mapError_eq_ok.2 (c.from_to_bytes p))]
  simp only [ok_bind,
    reject_of_not (show ¬ data.length < 17 + (2 + digest.length) + 14 by omega),
    slice_of_drop d₃ (show 17 + (2 + digest.length) + 8 = _ + expires_at.length by rw [hexpires])
      (by omega), to_array_of_length hexpires,
    slice_of_drop d₄ (show 17 + (2 + digest.length) + 12 = _ + max_uses.length by rw [hmax])
      (by omega), to_array_of_length hmax, index_of_drop d₅, index_of_drop d₆, hnl,
    reject_of_not
      (show ¬ data.length < 17 + (2 + digest.length) + 14 + name.length by omega),
    read_mesh_name_of_drop c d₇ (by omega) hname]
  have hwire : (wire uuid (c.peer_to_bytes p) expires_at max_uses flags name).length =
      17 + (2 + digest.length) + 14 + name.length := by
    have := congrArg List.length hdata
    rw [List.length_append] at this
    omega
  rw [hwire]
  rfl

/-! ## The flags -/

theorem can_invite_flags (p : InvitePermissions) :
    decide (p.flags &&& 0x01 ≠ 0) = p.can_invite := by
  unfold InvitePermissions.flags
  by_cases h : p.role = "client"
  · rw [if_pos h]
    cases p.can_invite <;> decide
  · rw [if_neg h]
    cases p.can_invite <;> decide

theorem role_flags (p : InvitePermissions) :
    (if p.flags &&& 0x02 ≠ 0 then "client" else "member") =
      if p.role = "client" then "client" else "member" := by
  unfold InvitePermissions.flags
  by_cases h : p.role = "client"
  · rw [if_pos h, if_pos h]
    cases p.can_invite <;> decide
  · rw [if_neg h, if_neg h]
    cases p.can_invite <;> decide

theorem flags_table : ∀ i : Fin 256,
    ((if UInt8.ofNat i &&& 0x01 ≠ 0 then 0x01 else 0) |||
      (if UInt8.ofNat i &&& 0x02 ≠ 0 then 0x02 else 0)) = UInt8.ofNat i &&& 0x03 := by
  decide +kernel

/-- The permissions that are read say of the flags what two of their bits say. -/
theorem flags_of_read (f : UInt8) :
    InvitePermissions.flags
        { can_invite := decide (f &&& 0x01 ≠ 0),
          role := if f &&& 0x02 ≠ 0 then "client" else "member" } = f &&& 0x03 := by
  have hrole : (if f &&& 0x02 ≠ 0 then "client" else "member") = "client" ↔ f &&& 0x02 ≠ 0 := by
    split
    · exact iff_of_true rfl ‹_›
    · exact iff_of_false (by decide) ‹_›
  have htable := flags_table ⟨f.toNat, f.toNat_lt⟩
  simp only [UInt8.ofNat_toNat] at htable
  unfold InvitePermissions.flags
  simp only [hrole, decide_eq_true_eq]
  exact htable

/-! ## Canonical -/

/-- Where the flags are: after the version, the uuid, the peer id, whose second byte
says how long it is, and the two numbers. -/
def flags_at (data : List UInt8) : ℕ := 17 + (2 + (data.getD 18 0).toNat) + 12

/-- Writing the grant gives the `n` bytes again, with the unused bits of the flags
cleared. -/
structure Canonical (c : Crates) (data : List UInt8) (g : InviteGrant) (n : ℕ) : Prop where
  le : n ≤ data.length
  flags_in : flags_at data < n
  written : g.to_wire_bytes c = .ok ((data.take n).modify (flags_at data) (· &&& 0x03))

theorem be_bytes_read_u64 {bs : List UInt8} (h : bs.length = 8) :
    be_bytes 8 (UInt64.ofNat (of_be bs)).toNat = bs := by
  have hlt : of_be bs < 2 ^ 64 := lt_of_lt_of_eq (of_be_lt bs) (by rw [h]; norm_num)
  rw [UInt64.toNat_ofNat', Nat.mod_eq_of_lt hlt, be_bytes_of_be h]

theorem be_bytes_read_u32 {bs : List UInt8} (h : bs.length = 4) :
    be_bytes 4 (UInt32.ofNat (of_be bs)).toNat = bs := by
  have hlt : of_be bs < 2 ^ 32 := lt_of_lt_of_eq (of_be_lt bs) (by rw [h]; norm_num)
  rw [UInt32.toNat_ofNat', Nat.mod_eq_of_lt hlt, be_bytes_of_be h]

theorem ReadsName.as_bytes_getD {name : List UInt8} {mesh_name : Option String}
    (h : ReadsName name mesh_name) : as_bytes (mesh_name.getD "") = name := by
  unfold ReadsName at h
  by_cases hnil : name = []
  · rw [if_pos hnil] at h
    rw [h, hnil]
    rfl
  · rw [if_neg hnil] at h
    obtain ⟨text, rfl, htext⟩ := h
    exact htext

/-- The layout cut at the flags. -/
theorem wire_cut (uuid peer_id expires_at max_uses name : List UInt8) (flags : UInt8) :
    wire uuid peer_id expires_at max_uses flags name =
      ([WIRE_VERSION] ++ (uuid ++ (peer_id ++ (expires_at ++ max_uses)))) ++
        flags :: (UInt8.ofNat name.length :: name) := by
  simp only [wire, List.append_assoc, List.cons_append, List.nil_append]

theorem modify_append_cons {α : Type} (a : List α) (x : α) (b : List α) (f : α → α) :
    (a ++ x :: b).modify a.length f = a ++ f x :: b := by
  induction a with
  | nil => rfl
  | cons y a ih => rw [List.cons_append, List.length_cons, List.modify_succ_cons, ih]; rfl

theorem Reads.canonical {c : Crates} {data : List UInt8} {g : InviteGrant} {n : ℕ}
    (h : Reads c data g n) : Canonical c data g n := by
  obtain ⟨uuid, p, expires_at, max_uses, flags, name, mesh_name, hexpires, hmax, hlen, hname, rfl,
    -, hle, htake⟩ := h
  obtain ⟨code, digest, hp, -, hdigest⟩ := c.multihash p
  -- the byte after the code of the multihash is the length that reading went by
  have hlength : data.getD 18 0 = UInt8.ofNat digest.length := by
    have hdata := List.take_append_drop n data
    rw [htake, wire, hp, List.append_assoc, List.append_assoc, List.append_assoc] at hdata
    rw [← hdata, List.getD_eq_getElem?_getD, List.singleton_append, List.getElem?_cons_succ,
      List.getElem?_append_right (by rw [uuid.2]; omega), uuid.2]
    rfl
  have hat : flags_at data =
      ([WIRE_VERSION] ++ (uuid.1 ++ (c.peer_to_bytes p ++ (expires_at ++ max_uses)))).length := by
    unfold flags_at
    rw [hlength, UInt8.toNat_ofNat', Nat.mod_eq_of_lt (by omega)]
    simp only [List.length_append, List.length_cons, List.length_nil, uuid.2, hp, hexpires, hmax]
    omega
  refine ⟨hle, ?_, ?_⟩
  · have hn := congrArg List.length htake
    rw [List.length_take, Nat.min_eq_left hle, wire_cut, List.length_append, ← hat,
      List.length_cons] at hn
    omega
  · refine to_wire_bytes_eq_ok.2 ⟨uuid, p, c.uuid_parse_to_string uuid, c.parse_to_string p, ?_, ?_⟩
    · rw [grant_of, hname.as_bytes_getD]
      exact hlen
    · rw [htake, hat, wire_cut, modify_append_cons, wire_cut]
      simp only [grant_of, hname.as_bytes_getD, be_bytes_read_u64 hexpires, be_bytes_read_u32 hmax,
        flags_of_read]

/-- A signed grant is a grant that was read and the 64 bytes after it, to the end. -/
theorem decode_binary_reads (c : Crates) (bytes : List UInt8) :
    Safe (SignedInviteGrant.decode_binary c bytes) fun s =>
      ∃ n, InviteGrant.from_wire_bytes c bytes = .ok (s.grant, n) ∧ bytes.length = n + 64 := by
  unfold SignedInviteGrant.decode_binary
  refine safe_bind ((from_wire_bytes_reads c bytes).with_eq.imp ?_)
  rintro ⟨grant, n⟩ ⟨hread, -⟩
  refine safe_bind (safe_reject fun hshort => ?_)
  refine safe_bind (safe_reject fun htrailing => ?_)
  refine safe_bind (safe_slice 64 rfl (by omega) ?_)
  exact ⟨n, hread, by omega⟩

/-! ## Round trips -/

/-- The grants say the same; the invite id may be written in another form of the same
uuid. -/
structure SameGrant (c : Crates) (g g' : InviteGrant) : Prop where
  version : g'.version = g.version
  invite_id : ∃ uuid, c.uuid_parse_str g.invite_id = .ok uuid ∧
    g'.invite_id = c.uuid_to_string uuid
  inviter_peer_id : g'.inviter_peer_id = g.inviter_peer_id
  mesh_name : g'.mesh_name = g.mesh_name
  expires_at : g'.expires_at = g.expires_at
  max_uses : g'.max_uses = g.max_uses
  can_invite : g'.permissions.can_invite = g.permissions.can_invite
  role : g'.permissions.role = g.permissions.role

/-- The grant is read back from its bytes, whatever follows them, and from its link,
whatever the signature. -/
structure RoundTrips (c : Crates) (g : InviteGrant) (b : List UInt8) : Prop where
  wire : ∀ rest, ∃ g', InviteGrant.from_wire_bytes c (b ++ rest) = .ok (g', b.length) ∧
    SameGrant c g g'
  link : ∀ signature sig, c.hex_decode signature = .ok sig → sig.length = 64 →
    ∃ s, SignedInviteGrant.decode c (SignedInviteGrant.encode c ⟨g, signature⟩) = .ok s ∧
      SameGrant c g s.grant

/-- The peer id holds the key itself. -/
def InviteGrant.IdentityPeer (c : Crates) (g : InviteGrant) : Prop :=
  ∃ p, c.peer_parse g.inviter_peer_id = .ok p ∧ (c.peer_to_bytes p).head? = some 0x00

/-- What the layout has room for. -/
structure Writable (c : Crates) (g : InviteGrant) : Prop where
  identity : g.IdentityPeer c
  role : g.permissions.role = "client" ∨ g.permissions.role = "member"
  named : g.mesh_name ≠ some ""

theorem ReadsName.ne_empty {name : List UInt8} {mesh_name : Option String}
    (h : ReadsName name mesh_name) : mesh_name ≠ some "" := by
  unfold ReadsName at h
  by_cases hnil : name = []
  · rw [if_pos hnil] at h
    rw [h]
    nofun
  · rw [if_neg hnil] at h
    obtain ⟨text, rfl, htext⟩ := h
    intro htext'
    rw [Option.some.inj htext'] at htext
    exact hnil htext.symm

theorem readsName_as_bytes {mesh_name : Option String} (h : mesh_name ≠ some "") :
    ReadsName (as_bytes (mesh_name.getD "")) mesh_name := by
  unfold ReadsName
  cases mesh_name with
  | none => exact (if_pos (rfl : as_bytes "" = [])).mpr rfl
  | some text =>
      have hne : as_bytes text ≠ [] := fun hnil => h (congrArg some (as_bytes_eq_nil.1 hnil))
      rw [Option.getD_some, if_neg hne]
      exact ⟨text, rfl, rfl⟩

/-- What reads back the same can only be what reading builds. -/
theorem writable_of_reads {c : Crates} {g g' : InviteGrant} {data : List UInt8} {n : ℕ}
    (hreads : Reads c data g' n) (hsame : SameGrant c g g') : Writable c g := by
  obtain ⟨uuid, p, expires_at, max_uses, flags, name, mesh_name, -, -, -, hname, rfl, hidentity,
    -, -⟩ := hreads
  refine ⟨⟨p, ?_, hidentity⟩, ?_, ?_⟩
  · rw [← hsame.inviter_peer_id]
    exact c.parse_to_string p
  · rw [← hsame.role]
    simp only [grant_of]
    split
    · exact .inl rfl
    · exact .inr rfl
  · rw [← hsame.mesh_name]
    exact hname.ne_empty

theorem from_wire_bytes_to_wire_bytes {c : Crates} {g : InviteGrant} {b : List UInt8}
    (hv : g.version = WIRE_VERSION) (hb : g.to_wire_bytes c = .ok b) (h : Writable c g)
    (rest : List UInt8) :
    ∃ g', InviteGrant.from_wire_bytes c (b ++ rest) = .ok (g', b.length) ∧ SameGrant c g g' := by
  obtain ⟨uuid, p, hu, hp, hlen, rfl⟩ := to_wire_bytes_eq_ok.1 hb
  obtain ⟨code, digest, hbytes, -, hdigest⟩ := c.multihash p
  have hcode : code = 0x00 := by
    obtain ⟨q, hq, hhead⟩ := h.identity
    rw [hp] at hq
    cases hq
    rw [hbytes] at hhead
    exact Option.some.inj hhead
  subst hcode
  refine ⟨_, from_wire_bytes_wire c hbytes hdigest (length_be_bytes 8 _) (length_be_bytes 4 _) hlen
    (readsName_as_bytes h.named) rest, ?_⟩
  refine ⟨hv.symm, ⟨uuid, hu, rfl⟩, c.to_string_parse hp, rfl, ?_, ?_, can_invite_flags _, ?_⟩
  · have hlt : g.expires_at.toNat < 256 ^ 8 := g.expires_at.toNat_lt
    simp only [grant_of, of_be_be_bytes, Nat.mod_eq_of_lt hlt, UInt64.ofNat_toNat]
  · have hlt : g.max_uses.toNat < 256 ^ 4 := g.max_uses.toNat_lt
    simp only [grant_of, of_be_be_bytes, Nat.mod_eq_of_lt hlt, UInt32.ofNat_toNat]
  · have hrole := role_flags g.permissions
    obtain hclient | hmember := h.role
    · rw [if_pos hclient] at hrole
      exact hrole.trans hclient.symm
    · have hne : ¬ g.permissions.role = "client" := by
        rw [hmember]
        decide
      rw [if_neg hne] at hrole
      exact hrole.trans hmember.symm

theorem writable_of_roundTrips {c : Crates} {g : InviteGrant} {b : List UInt8}
    (h : RoundTrips c g b) : Writable c g := by
  obtain ⟨g', hread, hsame⟩ := h.wire []
  exact writable_of_reads ((from_wire_bytes_reads c _).of_ok hread) hsame

/-- A link without the scheme does not start with it by chance: the colon is no symbol
of the alphabet. -/
theorem strip_prefix_base64 (c : Crates) (bytes : List UInt8) :
    strip_prefix "qmt://mesh/join/" (c.base64_encode bytes) = none := by
  unfold strip_prefix
  refine if_neg fun h => ?_
  have hcolon : ':' ∈ (c.base64_encode bytes).toList := h.subset (by decide)
  have hsymbol := c.base64_alphabet bytes ':' hcolon
  exact absurd hsymbol (by decide)

theorem decode_encode {c : Crates} {g : InviteGrant} {b sig : List UInt8} {signature : String}
    (hb : g.to_wire_bytes c = .ok b) (hsig : c.hex_decode signature = .ok sig) :
    SignedInviteGrant.decode c (SignedInviteGrant.encode c ⟨g, signature⟩) =
      SignedInviteGrant.decode_binary c (b ++ sig) := by
  have hencode : SignedInviteGrant.encode c ⟨g, signature⟩ = c.base64_encode (b ++ sig) := by
    unfold SignedInviteGrant.encode
    rw [hb, hsig]
    rfl
  obtain ⟨tail, hdata⟩ : ∃ tail, b ++ sig = WIRE_VERSION :: tail := by
    obtain ⟨uuid, p, -, -, -, rfl⟩ := to_wire_bytes_eq_ok.1 hb
    exact ⟨_, rfl⟩
  unfold SignedInviteGrant.decode
  simp only [hencode, strip_prefix_base64, Option.getD_none,
    fallible_of_ok (mapError_eq_ok.2 (c.base64_decode_encode _)), ok_bind, hdata]
  rfl

theorem decode_binary_of_read {c : Crates} {g : InviteGrant} {b sig : List UInt8}
    (hread : InviteGrant.from_wire_bytes c (b ++ sig) = .ok (g, b.length))
    (hsig : sig.length = 64) :
    SignedInviteGrant.decode_binary c (b ++ sig) = .ok ⟨g, c.hex_encode sig⟩ := by
  have hlen : (b ++ sig).length = b.length + 64 := by
    rw [List.length_append, hsig]
  have hdrop : (b ++ sig).drop b.length = sig ++ [] := by
    rw [List.drop_left, List.append_nil]
  unfold SignedInviteGrant.decode_binary
  simp only [hread, ok_bind, reject_of_not (show ¬ (b ++ sig).length < b.length + 64 by omega),
    reject_of_not (show ¬ (b ++ sig).length > b.length + 64 by omega),
    slice_of_drop hdrop (show b.length + 64 = _ + sig.length by rw [hsig]) (by omega)]
  rfl

/-! ## Two peers

One peer id of each kind, with the conversions that `libp2p` has for them, and the text
forms as they are defined; the grants below are written and read with these. -/

inductive KnownPeer
  | Ed25519
  | Rsa
  deriving DecidableEq

def KnownPeer.to_bytes : KnownPeer → List UInt8
  | Ed25519 => [0x00, 0x24, 0x08, 0x01, 0x12, 0x20] ++ (List.range 32).map fun i => .ofNat (i + 1)
  | Rsa => [0x12, 0x20] ++ (List.range 32).map fun i => .ofNat (i + 1)

def KnownPeer.to_string : KnownPeer → String
  | Ed25519 => "12D3KooW9tJMax94Lrqw7Y5Qw36viGQAS2gTEPQ5Wg1vTk7xPfQs"
  | Rsa => "QmNQatwxYrvx45JHzALe54be3KTBVQrLtHdPfkmvNNhQkw"

/-- The peer whose form this is. -/
def KnownPeer.find {α : Type} [DecidableEq α] (form : KnownPeer → α) (a : α) :
    Except String KnownPeer :=
  if form .Ed25519 = a then .ok .Ed25519
  else if form .Rsa = a then .ok .Rsa
  else .error "invalid multihash"

theorem KnownPeer.find_form {α : Type} [DecidableEq α] {form : KnownPeer → α}
    (h : form .Ed25519 ≠ form .Rsa) (p : KnownPeer) : find form (form p) = .ok p := by
  cases p with
  | Ed25519 => exact if_pos rfl
  | Rsa => rw [find, if_neg h, if_pos rfl]

theorem KnownPeer.form_of_find {α : Type} [DecidableEq α] {form : KnownPeer → α} {a : α}
    {p : KnownPeer} (h : find form a = .ok p) : form p = a := by
  unfold find at h
  split at h
  · cases h
    assumption
  · split at h
    · cases h
      assumption
    · cases h

/-- Groups of 8, 4, 4, 4 and 12 digits. -/
def hyphenated (digits : List Char) : List Char :=
  digits.take 8 ++ '-' :: ((digits.drop 8).take 4 ++ '-' :: ((digits.drop 12).take 4 ++
    '-' :: ((digits.drop 16).take 4 ++ '-' :: digits.drop 20)))

theorem filter_hyphenated {digits : List Char} (h : ∀ d ∈ digits, d ≠ '-') :
    (hyphenated digits).filter (· ≠ '-') = digits := by
  have hkeep : ∀ l : List Char, l ⊆ digits → l.filter (· ≠ '-') = l := fun l hl =>
    List.filter_eq_self.2 fun d hd => decide_eq_true (h d (hl hd))
  have h₁ := hkeep _ (List.take_subset 8 digits)
  have h₂ := hkeep _ (List.Subset.trans (List.take_subset 4 _) (List.drop_subset 8 digits))
  have h₃ := hkeep _ (List.Subset.trans (List.take_subset 4 _) (List.drop_subset 12 digits))
  have h₄ := hkeep _ (List.Subset.trans (List.take_subset 4 _) (List.drop_subset 16 digits))
  have h₅ := hkeep _ (List.drop_subset 20 digits)
  have hdash : ∀ l : List Char, ('-' :: l).filter (· ≠ '-') = l.filter (· ≠ '-') := fun l =>
    List.filter_cons_of_neg (by decide)
  unfold hyphenated
  rw [List.filter_append, hdash, List.filter_append, hdash, List.filter_append, hdash,
    List.filter_append, hdash, h₁, h₂, h₃, h₄, h₅]
  have hjoin : ∀ a n : ℕ, (digits.drop a).take n ++ digits.drop (a + n) = digits.drop a := by
    intro a n
    rw [← List.drop_drop, List.take_append_drop]
  rw [hjoin 16 4, hjoin 12 4, hjoin 8 4, List.take_append_drop]

def uuid_of_digits (digits : List Char) : Except String Uuid :=
  match hex_bytes (digits.filter (· ≠ '-')) with
  | some bytes => if h : bytes.length = 16 then .ok ⟨bytes, h⟩ else .error "invalid length"
  | none => .error "invalid character"

theorem uuid_of_digits_hyphenated (u : Uuid) :
    uuid_of_digits (hyphenated (hex_chars u.1)) = .ok u := by
  have hdigits : ∀ d ∈ hex_chars u.1, d ≠ '-' := by
    rintro d hd rfl
    exact absurd (mem_hex_chars hd) (by decide)
  unfold uuid_of_digits
  rw [filter_hyphenated hdigits, hex_bytes_chars]
  exact dif_pos u.2

def known_crates : Crates where
  PeerId := KnownPeer
  PublicKey := List UInt8
  peer_to_bytes := KnownPeer.to_bytes
  peer_from_bytes := KnownPeer.find KnownPeer.to_bytes
  peer_to_string := KnownPeer.to_string
  peer_parse := KnownPeer.find KnownPeer.to_string
  try_decode_protobuf bytes :=
    if bytes.take 4 = [0x08, 0x01, 0x12, 0x20] ∧ bytes.length = 36 then some (bytes.drop 4) else none
  verify _ _ _ := false
  uuid_to_string u := String.ofList (hyphenated (hex_chars u.1))
  uuid_parse_str s := uuid_of_digits s.toList
  hex_encode bytes := String.ofList (hex_chars bytes)
  hex_decode s := (hex_bytes s.toList).elim (.error "invalid digits") .ok
  base64_encode bytes := String.ofList (base64_chars bytes)
  base64_decode s := (base64_bytes s.toList).elim (.error "invalid symbols") .ok
  utf8_error _ := "invalid utf-8 sequence"
  multihash p := by
    cases p with
    | Ed25519 => exact ⟨0x00, KnownPeer.Ed25519.to_bytes.drop 2, by decide⟩
    | Rsa => exact ⟨0x12, KnownPeer.Rsa.to_bytes.drop 2, by decide⟩
  from_to_bytes := KnownPeer.find_form (by decide)
  to_from_bytes := KnownPeer.form_of_find
  parse_to_string := KnownPeer.find_form (by decide)
  to_string_parse := KnownPeer.form_of_find
  uuid_parse_to_string u := by
    rw [String.toList_ofList]
    exact uuid_of_digits_hyphenated u
  hex_decode_encode bytes := by
    rw [String.toList_ofList, hex_bytes_chars]
    rfl
  base64_decode_encode bytes := by
    rw [String.toList_ofList, base64_bytes_chars]
    rfl
  base64_alphabet bytes s hs := by
    rw [String.toList_ofList] at hs
    exact mem_base64_chars hs

/-- A grant of one of the two peers. -/
def sample_grant (p : KnownPeer) (mesh_name : Option String) (role : String) : InviteGrant where
  version := 3
  invite_id := "0190a0b0-c0d0-7e0f-8001-020304050607"
  inviter_peer_id := p.to_string
  mesh_name := mesh_name
  expires_at := 1700000000
  max_uses := 2
  permissions := ⟨true, role⟩

def sample_uuid : Uuid :=
  ⟨[0x01, 0x90, 0xa0, 0xb0, 0xc0, 0xd0, 0x7e, 0x0f, 0x80, 0x01, 0x02, 0x03, 0x04, 0x05, 0x06, 0x07],
    rfl⟩

theorem parse_sample_uuid :
    known_crates.uuid_parse_str "0190a0b0-c0d0-7e0f-8001-020304050607" = .ok sample_uuid := by
  decide +kernel

theorem sample_grant_written (p : KnownPeer) (mesh_name : Option String) (role : String)
    (h : (as_bytes (mesh_name.getD "")).length ≤ 255) :
    ∃ b, (sample_grant p mesh_name role).to_wire_bytes known_crates = .ok b :=
  ⟨_, to_wire_bytes_eq_ok.2
    ⟨sample_uuid, p, parse_sample_uuid, known_crates.parse_to_string p, h, rfl⟩⟩

/-- A grant that can be written comes back as it was just where its peer id holds the
key itself, its role is `client` or `member`, and its mesh name is not empty. -/
theorem grant_round_trips_iff {c : Crates} {g : InviteGrant} {b : List UInt8}
    (hv : g.version = WIRE_VERSION) (hb : g.to_wire_bytes c = .ok b) :
    RoundTrips c g b ↔ Writable c g := by
  constructor
  · exact writable_of_roundTrips
  · intro h
    refine ⟨from_wire_bytes_to_wire_bytes hv hb h, ?_⟩
    intro signature sig hsig hlen
    obtain ⟨g', hread, hsame⟩ := from_wire_bytes_to_wire_bytes hv hb h sig
    exact ⟨_, (decode_encode hb hsig).trans (decode_binary_of_read hread hlen), hsame⟩

/-- Three grants that can be written and do not come back: one of a peer whose id is a
hash, one with a role of its own, one with an empty mesh name. -/
theorem grants_lost :
    (∃ b, (sample_grant .Rsa (some "team-a") "client").to_wire_bytes known_crates = .ok b ∧
      ¬ RoundTrips known_crates (sample_grant .Rsa (some "team-a") "client") b) ∧
    (∃ b, (sample_grant .Ed25519 (some "team-a") "admin").to_wire_bytes known_crates = .ok b ∧
      ¬ RoundTrips known_crates (sample_grant .Ed25519 (some "team-a") "admin") b) ∧
    ∃ b, (sample_grant .Ed25519 (some "") "client").to_wire_bytes known_crates = .ok b ∧
      ¬ RoundTrips known_crates (sample_grant .Ed25519 (some "") "client") b := by
  obtain ⟨b₁, h₁⟩ := sample_grant_written .Rsa (some "team-a") "client" (by decide)
  obtain ⟨b₂, h₂⟩ := sample_grant_written .Ed25519 (some "team-a") "admin" (by decide)
  obtain ⟨b₃, h₃⟩ := sample_grant_written .Ed25519 (some "") "client" (by decide)
  refine ⟨⟨b₁, h₁, ?_⟩, ⟨b₂, h₂, ?_⟩, ⟨b₃, h₃, ?_⟩⟩
  · intro h
    obtain ⟨p, hp, hhead⟩ := (writable_of_roundTrips h).identity
    have hrsa : p = .Rsa := Except.ok.inj (hp.symm.trans (known_crates.parse_to_string .Rsa))
    subst hrsa
    exact absurd hhead (by decide)
  · intro h
    exact absurd (writable_of_roundTrips h).role (by decide)
  · intro h
    exact (writable_of_roundTrips h).named rfl

theorem sample_grant_round_trips :
    ∃ b, (sample_grant .Ed25519 (some "team-a") "client").to_wire_bytes known_crates = .ok b ∧
      RoundTrips known_crates (sample_grant .Ed25519 (some "team-a") "client") b := by
  obtain ⟨b, hb⟩ := sample_grant_written .Ed25519 (some "team-a") "client" (by decide)
  exact ⟨b, hb, (grant_round_trips_iff rfl hb).2
    ⟨⟨.Ed25519, known_crates.parse_to_string .Ed25519, rfl⟩, .inl rfl, by decide⟩⟩

/-! ## What is accepted -/

/-- No byte string makes the decoder read outside of it, and what it accepts is what
writing the grant gives again, the unused bits of the flags aside; a signed grant has
64 bytes more and nothing else. -/
theorem wire_decoding_canonical (c : Crates) (data : List UInt8) :
    InviteGrant.from_wire_bytes c data ≠ .error .Panic ∧
    (∀ g n, InviteGrant.from_wire_bytes c data = .ok (g, n) → Canonical c data g n) ∧
    SignedInviteGrant.decode_binary c data ≠ .error .Panic ∧
    ∀ s, SignedInviteGrant.decode_binary c data = .ok s →
      ∃ n, InviteGrant.from_wire_bytes c data = .ok (s.grant, n) ∧ Canonical c data s.grant n ∧
        data.length = n + 64 := by
  have hreads := from_wire_bytes_reads c data
  have hcanonical : ∀ g n, InviteGrant.from_wire_bytes c data = .ok (g, n) →
      Canonical c data g n := fun g n h => (hreads.of_ok h).canonical
  have hsigned := decode_binary_reads c data
  refine ⟨hreads.ne_panic, hcanonical, hsigned.ne_panic, ?_⟩
  intro s hs
  obtain ⟨n, hread, hlen⟩ := hsigned.of_ok hs
  exact ⟨n, hread, hcanonical _ _ hread, hlen⟩

/-- Bytes that are accepted with every bit of the flags set. -/
theorem all_flags_accepted :
    ∃ data s n, SignedInviteGrant.decode_binary known_crates data = .ok s ∧
      Canonical known_crates data s.grant n ∧ data.length = n + 64 := by
  have hpeer : known_crates.peer_to_bytes KnownPeer.Ed25519 =
      0x00 :: UInt8.ofNat (KnownPeer.Ed25519.to_bytes.drop 2).length ::
        KnownPeer.Ed25519.to_bytes.drop 2 := rfl
  have hread : InviteGrant.from_wire_bytes known_crates
      (wire sample_uuid.1 (known_crates.peer_to_bytes KnownPeer.Ed25519) (be_bytes 8 1700000000)
        (be_bytes 4 2) 0xff [] ++ List.replicate 64 0) = .ok (_, _) :=
    from_wire_bytes_wire known_crates hpeer (by decide) rfl rfl (by decide)
      (show ReadsName [] none from rfl) _
  have hdecode := decode_binary_of_read hread (List.length_replicate ..)
  obtain ⟨n, -, hcanonical, hlen⟩ := (wire_decoding_canonical known_crates _).2.2.2 _ hdecode
  exact ⟨_, _, n, hdecode, hcanonical, hlen⟩

end Querymt.Invite
