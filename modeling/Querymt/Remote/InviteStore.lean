/-
`InviteStore.lean` -- the host's record of its invites, and how often one is used.

Models `InviteStore` of `querymt-remote/src/invite.rs`. A record counts the uses that
remain and remembers who used the invite; two operations take a use, `admit_peer` and
`validate_and_consume`, and both go through the same checks: not revoked, not consumed,
not expired, a use left. The store is saved after the change was made, so a failed save
returns an error and leaves the change in place: a use may be spent without an admission,
never the other way round.

The uuid that a new invite draws, the clock and the outcome of saving belong to the
environment; every operation takes its own. An invite starts when it is created and
lasts until its id is drawn again, which a uuid is not expected to be.
-/
import Querymt.Library.Runs
import Querymt.Remote.InviteWire

set_option autoImplicit false

open Encodings Faults Runs

namespace Querymt.Invite

/-! ## Records -/

inductive InviteStatus
  | Pending
  | Consumed
  | Revoked
  deriving DecidableEq, Repr

structure InviteRecord where
  invite_id : String
  grant : InviteGrant
  created_at : UInt64
  uses_remaining : UInt32
  status : InviteStatus
  used_by : List String
  deriving DecidableEq, Repr

def InviteGrant.is_expired (g : InviteGrant) (now : UInt64) : Bool :=
  if g.expires_at = 0 then false else decide (now > g.expires_at)

def InviteGrant.sign (c : Crates) (g : InviteGrant) (keypair : Keypair c) :
    Except InviteError SignedInviteGrant := do
  let wire ← g.to_wire_bytes c
  let signature_bytes ← (keypair.sign wire).mapError fun e =>
    .InvalidSignature ("signing failed: " ++ e)
  return { grant := g, signature := c.hex_encode signature_bytes }

/-- What the checks that both consuming operations make come to: an error, a record that
turns out to be consumed, or a record with one use less. -/
inductive Use
  | Refused (e : InviteError)
  | Exhausted (record : InviteRecord)
  | Taken (record : InviteRecord)

/-- The record after a use. -/
def InviteRecord.used (r : InviteRecord) (joiner_peer_id : String) : InviteRecord :=
  let r :=
    if r.grant.max_uses > 0 then
      let r := { r with uses_remaining := r.uses_remaining - 1 }
      if r.uses_remaining = 0 then { r with status := .Consumed } else r
    else r
  { r with used_by := r.used_by ++ [joiner_peer_id] }

def InviteRecord.take_use (r : InviteRecord) (now : UInt64) (joiner_peer_id : String) : Use :=
  match r.status with
  | .Revoked => .Refused .InviteRevoked
  | .Consumed => .Refused .InviteConsumed
  | .Pending =>
      if r.grant.is_expired now then .Refused .Expired
      else if r.grant.max_uses > 0 ∧ r.uses_remaining = 0 then
        .Exhausted { r with status := .Consumed }
      else .Taken (r.used joiner_peer_id)

/-! ## The store -/

/-- `records: HashMap<String, InviteRecord>`. -/
structure InviteStore where
  records : String → Option InviteRecord

def InviteStore.insert (s : InviteStore) (invite_id : String) (r : InviteRecord) : InviteStore :=
  ⟨Function.update s.records invite_id (some r)⟩

/-- Saving fails as a whole, with the text of whatever failed. -/
def save_records (saved : Except String Unit) : Except InviteError Unit :=
  saved.mapError .StoreError

/-- The grant that `create_invite` signs. -/
def new_grant (c : Crates) (now : UInt64) (uuid : Uuid) (peer_id_str : String)
    (mesh_name : Option String) (ttl_secs : Option UInt64) (max_uses : UInt32)
    (permissions : InvitePermissions) : InviteGrant where
  version := WIRE_VERSION
  invite_id := c.uuid_to_string uuid
  inviter_peer_id := peer_id_str
  mesh_name := mesh_name
  expires_at := (ttl_secs.map fun ttl => now + ttl).getD 0
  max_uses := max_uses
  permissions := permissions

def InviteStore.create_invite (c : Crates) (s : InviteStore) (now created_at : UInt64) (uuid : Uuid)
    (saved : Except String Unit) (keypair : Keypair c) (peer_id_str : String)
    (mesh_name : Option String) (ttl_secs : Option UInt64) (max_uses : UInt32)
    (permissions : InvitePermissions) : Except InviteError SignedInviteGrant × InviteStore :=
  let grant := new_grant c now uuid peer_id_str mesh_name ttl_secs max_uses permissions
  match grant.sign c keypair with
  | .error e => (.error e, s)
  | .ok signed =>
      let record : InviteRecord :=
        { invite_id := grant.invite_id, grant := grant, created_at := created_at,
          uses_remaining := max_uses, status := .Pending, used_by := [] }
      ((save_records saved).map fun _ => signed, s.insert record.invite_id record)

/-- The part that `admit_peer` and `validate_and_consume` have in common: look the
record up, take a use, save. Once the use is saved, `answer` is computed from the record
as it was. -/
def InviteStore.consume {α : Type} (s : InviteStore) (now : UInt64) (saved : Except String Unit)
    (invite_id joiner_peer_id : String) (answer : InviteRecord → Except InviteError α) :
    Except InviteError α × InviteStore :=
  match s.records invite_id with
  | none => (.error (.NotFound invite_id), s)
  | some record =>
      match record.take_use now joiner_peer_id with
      | .Refused e => (.error e, s)
      | .Exhausted record' =>
          (save_records saved >>= fun _ => .error .InviteConsumed, s.insert invite_id record')
      | .Taken record' =>
          (save_records saved >>= fun _ => answer record, s.insert invite_id record')

def InviteStore.admit_peer (c : Crates) (s : InviteStore) (now issued_at : UInt64)
    (saved : Except String Unit) (invite_id joiner_peer_id : String) (keypair : Keypair c)
    (mesh_name : Option String) : Except InviteError MembershipToken × InviteStore :=
  s.consume now saved invite_id joiner_peer_id fun record =>
    let mid := mesh_id_for (c.peer_to_string keypair.peer_id) mesh_name
    MembershipToken.issue c issued_at mid joiner_peer_id keypair invite_id
      record.grant.permissions record.grant.expires_at

def InviteStore.validate_and_consume (s : InviteStore) (now : UInt64) (saved : Except String Unit)
    (invite_id joiner_peer_id : String) : Except InviteError Unit × InviteStore :=
  s.consume now saved invite_id joiner_peer_id fun _ => .ok ()

def InviteStore.revoke (s : InviteStore) (saved : Except String Unit) (invite_id : String) :
    Except InviteError Unit × InviteStore :=
  match s.records invite_id with
  | none => (.error (.NotFound invite_id), s)
  | some record => (save_records saved, s.insert invite_id { record with status := .Revoked })

/-! ## Runs -/

/-- The operations with what the environment contributes to each. -/
inductive Op (c : Crates)
  | create_invite (now created_at : UInt64) (uuid : Uuid) (saved : Except String Unit)
      (keypair : Keypair c) (peer_id_str : String) (mesh_name : Option String)
      (ttl_secs : Option UInt64) (max_uses : UInt32) (permissions : InvitePermissions)
  | admit_peer (now issued_at : UInt64) (saved : Except String Unit)
      (invite_id joiner_peer_id : String) (keypair : Keypair c) (mesh_name : Option String)
  | validate_and_consume (now : UInt64) (saved : Except String Unit)
      (invite_id joiner_peer_id : String)
  | revoke (saved : Except String Unit) (invite_id : String)

namespace Op

variable {c : Crates}

def step (s : InviteStore) : Op c → InviteStore
  | create_invite now created_at uuid saved keypair peer_id_str mesh_name ttl_secs max_uses
      permissions =>
      (s.create_invite c now created_at uuid saved keypair peer_id_str mesh_name ttl_secs max_uses
        permissions).2
  | admit_peer now issued_at saved invite_id joiner_peer_id keypair mesh_name =>
      (s.admit_peer c now issued_at saved invite_id joiner_peer_id keypair mesh_name).2
  | validate_and_consume now saved invite_id joiner_peer_id =>
      (s.validate_and_consume now saved invite_id joiner_peer_id).2
  | revoke saved invite_id => (s.revoke saved invite_id).2

/-- The operation is a creation that draws the id, whether or not it succeeds. -/
def draws (id : String) : Op c → Prop
  | create_invite _ _ uuid _ _ _ _ _ _ _ => c.uuid_to_string uuid = id
  | _ => False

/-- The operation is a successful admission under the id. -/
def admits (id : String) (s : InviteStore) : Op c → Bool
  | admit_peer now issued_at saved invite_id joiner_peer_id keypair mesh_name =>
      invite_id = id &&
        (s.admit_peer c now issued_at saved invite_id joiner_peer_id keypair mesh_name).1.isOk
  | validate_and_consume now saved invite_id joiner_peer_id =>
      invite_id = id && (s.validate_and_consume now saved invite_id joiner_peer_id).1.isOk
  | _ => false

/-- The operation puts a new invite with this many uses into the store, under the id. -/
def creates (id : String) (uses : UInt32) : Op c → Prop
  | create_invite now _ uuid _ keypair peer_id_str mesh_name ttl_secs max_uses permissions =>
      c.uuid_to_string uuid = id ∧ max_uses = uses ∧
        ∃ signed, (new_grant c now uuid peer_id_str mesh_name ttl_secs max_uses permissions).sign c
          keypair = .ok signed
  | _ => False

/-- The operation revokes the invite and reports success. -/
def revokes (id : String) (s : InviteStore) : Op c → Prop
  | revoke saved invite_id => invite_id = id ∧ (s.revoke saved invite_id).1 = .ok ()
  | _ => False

end Op

/-! ## What one operation does to one invite -/

section

variable {c : Crates} {s : InviteStore} {id : String}

@[simp] theorem insert_records_self (s : InviteStore) (id : String) (r : InviteRecord) :
    (s.insert id r).records id = some r := Function.update_self ..

theorem insert_records_of_ne (s : InviteStore) {id id' : String} (r : InviteRecord)
    (h : id ≠ id') : (s.insert id' r).records id = s.records id := Function.update_of_ne h ..

/-- What can become of the record under an id, and whether an admission succeeded with
it. -/
inductive Effect (s : InviteStore) (id : String) : Option InviteRecord → Bool → Prop
  | same : Effect s id (s.records id) false
  | exhausted {r r' : InviteRecord} {now : UInt64} {joiner : String} :
      s.records id = some r → r.take_use now joiner = .Exhausted r' → Effect s id (some r') false
  | taken {r r' : InviteRecord} {now : UInt64} {joiner : String} (admitted : Bool) :
      s.records id = some r → r.take_use now joiner = .Taken r' → Effect s id (some r') admitted
  | revoked {r : InviteRecord} :
      s.records id = some r → Effect s id (some { r with status := .Revoked }) false

theorem effect_consume {α : Type} (now : UInt64) (saved : Except String Unit) (joiner : String)
    (answer : InviteRecord → Except InviteError α) :
    Effect s id ((s.consume now saved id joiner answer).2.records id)
      (s.consume now saved id joiner answer).1.isOk := by
  unfold InviteStore.consume
  split
  · exact .same
  · next r hr =>
    split
    · exact .same
    · next r' hu =>
      simp only [insert_records_self]
      cases saved with
      | error e => exact .exhausted hr hu
      | ok u => exact .exhausted hr hu
    · next r' hu =>
      simp only [insert_records_self]
      exact .taken _ hr hu

/-- The other invites are not concerned. -/
theorem consume_records_of_ne {α : Type} {invite_id : String} (h : id ≠ invite_id) (now : UInt64)
    (saved : Except String Unit) (joiner : String)
    (answer : InviteRecord → Except InviteError α) :
    (s.consume now saved invite_id joiner answer).2.records id = s.records id := by
  unfold InviteStore.consume
  split
  · rfl
  · split
    · rfl
    · exact insert_records_of_ne s _ h
    · exact insert_records_of_ne s _ h

/-- Everything an operation that does not draw the id can do to the invite. -/
theorem step_effect {op : Op c} (h : ¬ op.draws id) :
    Effect s id ((op.step s).records id) (op.admits id s) := by
  cases op with
  | create_invite now created_at uuid saved keypair peer_id_str mesh_name ttl_secs max_uses
      permissions =>
      have hne : id ≠ (new_grant c now uuid peer_id_str mesh_name ttl_secs max_uses
          permissions).invite_id := fun heq => h heq.symm
      simp only [Op.step, Op.admits, InviteStore.create_invite]
      split
      · exact .same
      · rw [insert_records_of_ne s _ hne]
        exact .same
  | admit_peer now issued_at saved invite_id joiner keypair mesh_name =>
      simp only [Op.step, Op.admits]
      by_cases hid : invite_id = id
      · subst hid
        simp only [decide_true, Bool.true_and]
        exact effect_consume ..
      · simp only [hid, decide_false, Bool.false_and]
        rw [InviteStore.admit_peer, consume_records_of_ne (Ne.symm hid)]
        exact .same
  | validate_and_consume now saved invite_id joiner =>
      simp only [Op.step, Op.admits]
      by_cases hid : invite_id = id
      · subst hid
        simp only [decide_true, Bool.true_and]
        exact effect_consume ..
      · simp only [hid, decide_false, Bool.false_and]
        rw [InviteStore.validate_and_consume, consume_records_of_ne (Ne.symm hid)]
        exact .same
  | revoke saved invite_id =>
      simp only [Op.step, Op.admits, InviteStore.revoke]
      split
      · exact .same
      · next r hr =>
        by_cases hid : invite_id = id
        · subst hid
          rw [insert_records_self]
          exact .revoked hr
        · rw [insert_records_of_ne s _ (Ne.symm hid)]
          exact .same

end

/-! ## The account of an invite -/

/-- The uses taken and the uses left are all the uses there are, and with none left the
invite is not pending. -/
structure Accounted (uses : UInt32) (r : InviteRecord) : Prop where
  max_uses : r.grant.max_uses = uses
  total : r.used_by.length + r.uses_remaining.toNat = uses.toNat
  spent : r.uses_remaining = 0 → r.status = .Consumed ∨ r.status = .Revoked

/-- A use is taken of a pending invite only, and only while one is left. -/
theorem take_use_eq_taken {r r' : InviteRecord} {now : UInt64} {joiner : String}
    (h : r.take_use now joiner = .Taken r') :
    r.status = .Pending ∧ ¬ (r.grant.max_uses > 0 ∧ r.uses_remaining = 0) ∧ r' = r.used joiner := by
  unfold InviteRecord.take_use at h
  split at h
  · cases h
  · cases h
  · next hstatus =>
    split at h
    · cases h
    · split at h
      · cases h
      · next hleft =>
        cases h
        exact ⟨hstatus, hleft, rfl⟩

theorem take_use_eq_exhausted {r r' : InviteRecord} {now : UInt64} {joiner : String}
    (h : r.take_use now joiner = .Exhausted r') :
    r.status = .Pending ∧ r' = { r with status := .Consumed } := by
  unfold InviteRecord.take_use at h
  split at h
  · cases h
  · cases h
  · next hstatus =>
    split at h
    · cases h
    · split at h
      · cases h
        exact ⟨hstatus, rfl⟩
      · cases h

theorem used_uses_remaining {r : InviteRecord} (h : r.grant.max_uses > 0) (joiner : String) :
    (r.used joiner).uses_remaining = r.uses_remaining - 1 := by
  unfold InviteRecord.used
  simp only [if_pos h]
  split <;> rfl

theorem used_status {r : InviteRecord} (h : r.grant.max_uses > 0) (joiner : String)
    (hspent : (r.used joiner).uses_remaining = 0) : (r.used joiner).status = .Consumed := by
  rw [used_uses_remaining h] at hspent
  unfold InviteRecord.used
  simp only [if_pos h, if_pos hspent]

theorem used_used_by (r : InviteRecord) (joiner : String) :
    (r.used joiner).used_by = r.used_by ++ [joiner] := by
  unfold InviteRecord.used
  dsimp only
  split
  · split <;> rfl
  · rfl

theorem used_grant (r : InviteRecord) (joiner : String) : (r.used joiner).grant = r.grant := by
  unfold InviteRecord.used
  dsimp only
  split
  · split <;> rfl
  · rfl

namespace Accounted

variable {uses : UInt32} {r r' : InviteRecord}

/-- Taking a use moves it from the uses left to the uses taken. -/
theorem taken {now : UInt64} {joiner : String} (h : Accounted uses r) (hpos : 0 < uses)
    (hu : r.take_use now joiner = .Taken r') :
    Accounted uses r' ∧ r'.uses_remaining.toNat + 1 = r.uses_remaining.toNat := by
  obtain ⟨-, hleft, rfl⟩ := take_use_eq_taken hu
  have hmax : r.grant.max_uses > 0 := by
    rw [h.max_uses]
    exact hpos
  have hne : r.uses_remaining ≠ 0 := fun h0 => hleft ⟨hmax, h0⟩
  have hone : 1 ≤ r.uses_remaining.toNat := by
    by_contra hlt
    exact hne (UInt32.toNat_inj.1 (by rw [UInt32.toNat_zero]; omega))
  have hminus : (r.uses_remaining - 1).toNat = r.uses_remaining.toNat - 1 :=
    UInt32.toNat_sub_of_le _ _ (UInt32.le_iff_toNat_le.2 hone)
  have hremaining := used_uses_remaining hmax joiner
  refine ⟨⟨?_, ?_, ?_⟩, ?_⟩
  · rw [used_grant, h.max_uses]
  · rw [used_used_by, hremaining, hminus, List.length_append, List.length_singleton, ← h.total]
    omega
  · intro hspent
    exact .inl (used_status hmax joiner hspent)
  · rw [hremaining, hminus]
    omega

theorem exhausted {now : UInt64} {joiner : String} (h : Accounted uses r)
    (hu : r.take_use now joiner = .Exhausted r') :
    Accounted uses r' ∧ r'.uses_remaining = r.uses_remaining := by
  obtain ⟨-, rfl⟩ := take_use_eq_exhausted hu
  exact ⟨⟨h.max_uses, h.total, fun _ => .inl rfl⟩, rfl⟩

theorem revoked (h : Accounted uses r) : Accounted uses { r with status := .Revoked } :=
  ⟨h.max_uses, h.total, fun _ => .inr rfl⟩

end Accounted

/-! ## Whole runs -/

section

variable {c : Crates} {s : InviteStore} {id : String} {uses : UInt32}

/-- The store has the invite, and its account is right. -/
def Keeps (id : String) (uses : UInt32) (s : InviteStore) : Prop :=
  ∃ r, s.records id = some r ∧ Accounted uses r

/-- The uses left under an id. -/
def InviteStore.left (s : InviteStore) (id : String) : ℕ :=
  (s.records id).elim 0 fun r => r.uses_remaining.toNat

/-- One operation keeps the account, and an admission costs a use. -/
theorem keeps_step {op : Op c} (h : Keeps id uses s) (hpos : 0 < uses) (hdraw : ¬ op.draws id) :
    Keeps id uses (op.step s) ∧ (op.admits id s).toNat + (op.step s).left id ≤ s.left id := by
  obtain ⟨r, hr, hacc⟩ := h
  have heffect := step_effect (s := s) hdraw
  generalize hafter : (op.step s).records id = o at heffect
  generalize op.admits id s = admitted at heffect
  unfold InviteStore.left
  rw [hafter, hr]
  cases heffect with
  | same =>
      rw [hr] at hafter ⊢
      exact ⟨⟨r, hafter, hacc⟩, by simp⟩
  | exhausted hr₁ hu =>
      rw [hr] at hr₁
      cases hr₁
      obtain ⟨hacc', hleft⟩ := hacc.exhausted hu
      exact ⟨⟨_, hafter, hacc'⟩, by simp [hleft]⟩
  | taken admitted hr₁ hu =>
      rw [hr] at hr₁
      cases hr₁
      obtain ⟨hacc', hleft⟩ := hacc.taken hpos hu
      refine ⟨⟨_, hafter, hacc'⟩, ?_⟩
      have := Bool.toNat_le admitted
      simp only [Option.elim_some]
      omega
  | revoked hr₁ =>
      rw [hr] at hr₁
      cases hr₁
      exact ⟨⟨_, hafter, hacc.revoked⟩, by simp⟩

/-- A new invite has all its uses. -/
theorem keeps_of_creates {op : Op c} (h : op.creates id uses) (hpos : 0 < uses) :
    Keeps id uses (op.step s) ∧ (op.step s).left id = uses.toNat := by
  cases op with
  | create_invite now created_at uuid saved keypair peer_id_str mesh_name ttl_secs max_uses
      permissions =>
      obtain ⟨rfl, rfl, signed, hsign⟩ := h
      have hrecord : ((Op.create_invite now created_at uuid saved keypair peer_id_str mesh_name
          ttl_secs max_uses permissions).step s).records (c.uuid_to_string uuid) = some
            { invite_id := c.uuid_to_string uuid,
              grant := new_grant c now uuid peer_id_str mesh_name ttl_secs max_uses permissions,
              created_at := created_at, uses_remaining := max_uses, status := .Pending,
              used_by := [] } := by
        simp only [Op.step, InviteStore.create_invite, hsign]
        exact insert_records_self ..
      refine ⟨⟨_, hrecord, rfl, by simp, ?_⟩, ?_⟩
      · rintro (h0 : max_uses = 0)
        rw [h0] at hpos
        exact absurd hpos (by decide)
      · unfold InviteStore.left
        rw [hrecord]
        rfl
  | admit_peer => exact h.elim
  | validate_and_consume => exact h.elim
  | revoke => exact h.elim

def IsRevoked (id : String) (s : InviteStore) : Prop :=
  ∃ r, s.records id = some r ∧ r.status = .Revoked

/-- A revoked invite stays revoked and admits nobody. -/
theorem isRevoked_step {op : Op c} (h : IsRevoked id s) (hdraw : ¬ op.draws id) :
    IsRevoked id (op.step s) ∧ op.admits id s = false := by
  obtain ⟨r, hr, hstatus⟩ := h
  have heffect := step_effect (s := s) hdraw
  generalize hafter : (op.step s).records id = o at heffect
  generalize op.admits id s = admitted at heffect ⊢
  cases heffect with
  | same =>
      rw [hr] at hafter
      exact ⟨⟨r, hafter, hstatus⟩, rfl⟩
  | exhausted hr₁ hu =>
      rw [hr] at hr₁
      cases hr₁
      rw [(take_use_eq_exhausted hu).1] at hstatus
      cases hstatus
  | taken admitted hr₁ hu =>
      rw [hr] at hr₁
      cases hr₁
      rw [(take_use_eq_taken hu).1] at hstatus
      cases hstatus
  | revoked hr₁ => exact ⟨⟨_, hafter, rfl⟩, rfl⟩

theorem isRevoked_of_revokes {op : Op c} (h : op.revokes id s) : IsRevoked id (op.step s) := by
  cases op with
  | revoke saved invite_id =>
      obtain ⟨rfl, hok⟩ := h
      simp only [Op.step, InviteStore.revoke] at hok ⊢
      split at hok
      · cases hok
      · exact ⟨_, insert_records_self .., rfl⟩
  | create_invite => exact h.elim
  | admit_peer => exact h.elim
  | validate_and_consume => exact h.elim

/-- Nobody draws the id in the run. -/
theorem along_not_draws {ops : List (Op c)} (h : ∀ op ∈ ops, ¬ op.draws id) :
    Along Op.step (fun _ op => ¬ Op.draws id op) s ops :=
  along_of_forall fun _ op hop => h op hop

end

/-- In any run, from any store: once an invite is created with a number of uses, its
account is right in every state that follows, and no more admissions succeed than it
has uses; once it is revoked, none does. -/
theorem invite_never_over_used {c : Crates} (s : InviteStore) (before : List (Op c)) (op : Op c)
    (after : List (Op c)) (id : String) (hfresh : ∀ o ∈ after, ¬ o.draws id) :
    (∀ uses, op.creates id uses → 0 < uses →
      (∃ r, (run Op.step s (before ++ op :: after)).records id = some r ∧ Accounted uses r) ∧
      tally Op.step (fun s o => (o.admits id s).toNat) (op.step (run Op.step s before)) after ≤
        uses.toNat) ∧
    (op.revokes id (run Op.step s before) →
      Along Op.step (fun s o => o.admits id s = false) (op.step (run Op.step s before)) after) := by
  rw [run_append, run_cons]
  generalize run Op.step s before = s₀
  have hdraws := along_not_draws (s := op.step s₀) hfresh
  constructor
  · intro uses hcreate hpos
    obtain ⟨hkeeps, hleft⟩ := keeps_of_creates (s := s₀) hcreate hpos
    have hall : Along Op.step (fun s o => Keeps id uses s ∧ ¬ Op.draws id o) (op.step s₀) after :=
      along_of_invariant hdraws (fun s o hk hd => (keeps_step hk hpos hd).1)
        (fun s o hk hd => ⟨hk, hd⟩) hkeeps
    constructor
    · exact run_invariant (I := Keeps id uses) hdraws
        (fun s o hk hd => (keeps_step hk hpos hd).1) hkeeps
    · rw [← hleft]
      exact tally_le_stock (InviteStore.left · id) hall fun s o hs => (keeps_step hs.1 hpos hs.2).2
  · intro hrevoke
    exact along_of_invariant hdraws (fun s o hs hd => (isRevoked_step hs hd).1)
      (fun s o hs hd => (isRevoked_step hs hd).2) (isRevoked_of_revokes hrevoke)

/-! ## An invite for two -/

def known_keypair : Keypair known_crates where
  peer_id := KnownPeer.Ed25519
  sign _ := .ok (List.replicate 64 0)

def sample_id : String := known_crates.uuid_to_string sample_uuid

def invite_for_two : Op known_crates :=
  .create_invite 1700000000 1700000000 sample_uuid (.ok ()) known_keypair
    KnownPeer.Ed25519.to_string (some "team-a") (some 60) 2 ⟨true, "client"⟩

theorem invite_for_two_created : invite_for_two.creates sample_id 2 := by
  have hwire : ∃ b, (new_grant known_crates 1700000000 sample_uuid KnownPeer.Ed25519.to_string
      (some "team-a") (some 60) 2 ⟨true, "client"⟩).to_wire_bytes known_crates = .ok b :=
    ⟨_, to_wire_bytes_eq_ok.2 ⟨sample_uuid, KnownPeer.Ed25519,
      known_crates.uuid_parse_to_string sample_uuid,
      known_crates.parse_to_string KnownPeer.Ed25519, by decide, rfl⟩⟩
  obtain ⟨b, hb⟩ := hwire
  refine ⟨rfl, rfl, ?_⟩
  unfold InviteGrant.sign
  rw [hb]
  exact ⟨_, rfl⟩

/-- Three peers try, and one save fails. -/
def joins : List (Op known_crates) :=
  [.validate_and_consume 1700000001 (.ok ()) sample_id "peer-a",
    .admit_peer 1700000002 1700000002 (.error "disk full") sample_id "peer-b" known_keypair
      (some "team-a"),
    .validate_and_consume 1700000003 (.ok ()) sample_id "peer-c"]

def revocation : Op known_crates := .revoke (.ok ()) sample_id

def no_invites : InviteStore := ⟨fun _ => none⟩

theorem revoke_invite_for_two :
    revocation.revokes sample_id (run Op.step no_invites [invite_for_two]) := by
  obtain ⟨⟨r, hr, -⟩, -⟩ :=
    keeps_of_creates (s := no_invites) invite_for_two_created (by decide)
  refine ⟨rfl, ?_⟩
  simp only [run_cons, run_nil, InviteStore.revoke, hr]
  rfl

theorem invite_for_two_kept :
    ((∃ r, (run Op.step no_invites (invite_for_two :: joins)).records sample_id = some r ∧
        Accounted 2 r) ∧
      tally Op.step (fun s o => (o.admits sample_id s).toNat) (invite_for_two.step no_invites)
        joins ≤ 2) ∧
    Along Op.step (fun s o => o.admits sample_id s = false)
      (revocation.step (run Op.step no_invites [invite_for_two])) joins := by
  have hfresh : ∀ o ∈ joins, ¬ o.draws sample_id := by
    simp [joins, Op.draws]
  exact ⟨(invite_never_over_used no_invites [] invite_for_two joins sample_id hfresh).1 2
      invite_for_two_created (by decide),
    (invite_never_over_used no_invites [invite_for_two] revocation joins sample_id hfresh).2
      revoke_invite_for_two⟩

/-! ## Admissions that fail -/

/-- What the uses of an invite are counted by: the uses left and the peers that took
one. -/
def InviteStore.uses_of (s : InviteStore) (id : String) : Option (UInt32 × List String) :=
  (s.records id).map fun r => (r.uses_remaining, r.used_by)

/-- A call that returned an error has taken no use of any invite. -/
def SparesUses {α : Type} (s : InviteStore) (result : Except InviteError α × InviteStore) : Prop :=
  ∀ e, result.1 = .error e → ∀ id, result.2.uses_of id = s.uses_of id

/-- The checks let a peer have a use of the invite. -/
structure InviteRecord.Usable (r : InviteRecord) (now : UInt64) : Prop where
  pending : r.status = .Pending
  current : r.grant.is_expired now = false
  left : ¬ (r.grant.max_uses > 0 ∧ r.uses_remaining = 0)

/-- The host can issue a token: every text that is signed has a length that fits its two
bytes, and the key signs. -/
def Issuable (c : Crates) (issued_at : UInt64) (invite_id joiner_peer_id : String)
    (keypair : Keypair c) (mesh_name : Option String) (r : InviteRecord) : Prop :=
  let admitter := c.peer_to_string keypair.peer_id
  let token : MembershipToken :=
    { version := 1, mesh_id := mesh_id_for admitter mesh_name, peer_id := joiner_peer_id,
      admitted_by := admitter, invite_id := invite_id, permissions := r.grant.permissions,
      issued_at := issued_at, expires_at := r.grant.expires_at, signature := "" }
  token.Short ∧ ∀ payload, token.signable_bytes = .ok payload →
    ∃ sig, keypair.sign payload = .ok sig

section

variable {c : Crates} {s : InviteStore}

theorem take_use_of_usable {r : InviteRecord} {now : UInt64} (h : r.Usable now) (joiner : String) :
    r.take_use now joiner = .Taken (r.used joiner) := by
  unfold InviteRecord.take_use
  simp only [h.pending, h.current, if_neg h.left, Bool.false_eq_true, if_false]

theorem usable_of_taken {r r' : InviteRecord} {now : UInt64} {joiner : String}
    (h : r.take_use now joiner = .Taken r') : r.Usable now := by
  obtain ⟨hpending, hleft, -⟩ := take_use_eq_taken h
  refine ⟨hpending, ?_, hleft⟩
  by_contra hexpired
  rw [Bool.not_eq_false] at hexpired
  unfold InviteRecord.take_use at h
  simp only [hpending, hexpired, if_true] at h
  cases h

/-- Marking a spent invite as consumed leaves its uses as they are. -/
theorem uses_of_exhausted {r r' : InviteRecord} {now : UInt64} {id joiner : String}
    (hr : s.records id = some r) (hu : r.take_use now joiner = .Exhausted r') (id' : String) :
    (s.insert id r').uses_of id' = s.uses_of id' := by
  unfold InviteStore.uses_of
  by_cases hid : id' = id
  · subst hid
    rw [insert_records_self, hr, (take_use_eq_exhausted hu).2]
    rfl
  · rw [insert_records_of_ne s r' hid]

/-- A use that was taken shows: there is one more peer that took it. -/
theorem uses_of_taken_ne {r : InviteRecord} {id : String} (hr : s.records id = some r)
    (joiner : String) : (s.insert id (r.used joiner)).uses_of id ≠ s.uses_of id := by
  unfold InviteStore.uses_of
  rw [insert_records_self, hr]
  intro h
  simp only [Option.map_some, Option.some.injEq, Prod.mk.injEq, used_used_by] at h
  have hlen := congrArg List.length h.2
  rw [List.length_append, List.length_singleton] at hlen
  omega

/-- A call spares the uses when it fails, exactly if nothing that comes after taking the
use can fail: neither saving nor the answer. -/
theorem sparesUses_consume_iff {α : Type} {now : UInt64} {saved : Except String Unit}
    {id joiner : String} {answer : InviteRecord → Except InviteError α} :
    SparesUses s (s.consume now saved id joiner answer) ↔
      ∀ r, s.records id = some r → r.Usable now → saved = .ok () ∧ ∃ a, answer r = .ok a := by
  unfold SparesUses InviteStore.consume
  cases hr : s.records id with
  | none => simp
  | some r =>
    dsimp only
    cases hu : r.take_use now joiner with
    | Refused e =>
        refine iff_of_true (fun _ _ _ => rfl) ?_
        rintro r₁ ⟨⟩ husable
        rw [take_use_of_usable husable] at hu
        cases hu
    | Exhausted r' =>
        refine iff_of_true (fun _ _ => uses_of_exhausted hr hu) ?_
        rintro r₁ ⟨⟩ husable
        rw [take_use_of_usable husable] at hu
        cases hu
    | Taken r' =>
        obtain ⟨-, -, rfl⟩ := take_use_eq_taken hu
        have hne := uses_of_taken_ne hr joiner
        constructor
        · rintro h r₁ ⟨⟩ -
          -- with an error the uses would have to be the same, and they are not
          cases saved with
          | error e => exact absurd (h _ rfl id) hne
          | ok u =>
            refine ⟨rfl, ?_⟩
            cases ha : answer r with
            | error e => exact absurd (h e (by simp [save_records, Except.mapError, ha]) id) hne
            | ok a => exact ⟨a, rfl⟩
        · intro h e he
          obtain ⟨rfl, a, ha⟩ := h r rfl (usable_of_taken hu)
          simp [save_records, Except.mapError, ha] at he

theorem issue_eq_ok_iff {issued_at : UInt64} {invite_id joiner : String} {keypair : Keypair c}
    {mesh_name : Option String} {r : InviteRecord} :
    (∃ token, MembershipToken.issue c issued_at
      (mesh_id_for (c.peer_to_string keypair.peer_id) mesh_name) joiner keypair invite_id
      r.grant.permissions r.grant.expires_at = .ok token) ↔
      Issuable c issued_at invite_id joiner keypair mesh_name r := by
  unfold MembershipToken.issue Issuable
  constructor
  · rintro ⟨token, h⟩
    obtain ⟨payload, hpayload, h⟩ := bind_eq_ok.1 h
    obtain ⟨sig, hsig, -⟩ := bind_eq_ok.1 h
    refine ⟨short_of_signable_bytes hpayload, fun payload₁ h₁ => ?_⟩
    cases hpayload.symm.trans h₁
    exact ⟨sig, mapError_eq_ok.1 hsig⟩
  · rintro ⟨hshort, hsign⟩
    have hpayload := signable_bytes_of_short hshort
    obtain ⟨sig, hsig⟩ := hsign _ hpayload
    refine ⟨_, bind_eq_ok.2 ⟨_, hpayload, bind_eq_ok.2 ⟨sig, mapError_eq_ok.2 hsig, rfl⟩⟩⟩

theorem short_peer_id_of_issuable {issued_at : UInt64} {invite_id joiner : String}
    {keypair : Keypair c} {mesh_name : Option String} {r : InviteRecord}
    (h : Issuable c issued_at invite_id joiner keypair mesh_name r) :
    (as_bytes joiner).length ≤ 65535 :=
  h.1 joiner (by simp)

end

/-- For every store and every call, a failed admission leaves the uses as they were,
exactly if for an invite that the checks let the peer use, nothing can fail after the
checks: the save succeeds, and in `admit_peer` the token can be issued as well. -/
theorem failed_admission_spares_uses_iff (c : Crates) (s : InviteStore) :
    (∀ now issued_at saved invite_id joiner_peer_id (keypair : Keypair c) mesh_name,
      SparesUses s (s.admit_peer c now issued_at saved invite_id joiner_peer_id keypair mesh_name) ↔
        ∀ r, s.records invite_id = some r → r.Usable now →
          saved = .ok () ∧ Issuable c issued_at invite_id joiner_peer_id keypair mesh_name r) ∧
    ∀ now saved invite_id joiner_peer_id,
      SparesUses s (s.validate_and_consume now saved invite_id joiner_peer_id) ↔
        ∀ r, s.records invite_id = some r → r.Usable now → saved = .ok () := by
  constructor
  · intro now issued_at saved invite_id joiner keypair mesh_name
    unfold InviteStore.admit_peer
    simp only [sparesUses_consume_iff, issue_eq_ok_iff]
  · intro now saved invite_id joiner
    unfold InviteStore.validate_and_consume
    simp [sparesUses_consume_iff]

/-- An invite for one use. -/
def invite_for_one : InviteRecord where
  invite_id := sample_id
  grant := new_grant known_crates 1700000000 sample_uuid KnownPeer.Ed25519.to_string (some "team-a")
    (some 60) 1 ⟨true, "client"⟩
  created_at := 1700000000
  uses_remaining := 1
  status := .Pending
  used_by := []

def one_invite : InviteStore := no_invites.insert sample_id invite_for_one

/-- A peer id of any length; a joiner states its own. -/
def peer_id_of (n : ℕ) : String := String.ofList (List.replicate n 'a')

theorem length_peer_id_of (n : ℕ) : (as_bytes (peer_id_of n)).length = n := by
  rw [peer_id_of, as_bytes_ofList, List.length_flatMap, List.map_replicate, List.sum_replicate]
  exact Nat.mul_one n

/-- The use is gone though nobody was admitted: once the disk was full, once the token
could not be issued. -/
theorem use_lost_without_admission :
    ¬ SparesUses one_invite (one_invite.validate_and_consume 1700000001 (.error "disk full")
      sample_id "peer-a") ∧
    ¬ SparesUses one_invite (one_invite.admit_peer known_crates 1700000001 1700000001 (.ok ())
      sample_id (peer_id_of 65536) known_keypair (some "team-a")) := by
  have hrecord : one_invite.records sample_id = some invite_for_one := insert_records_self ..
  have husable : invite_for_one.Usable 1700000001 := ⟨rfl, by decide, by decide⟩
  constructor
  · intro h
    obtain ⟨hsaved, -⟩ := sparesUses_consume_iff.1 h _ hrecord husable
    cases hsaved
  · intro h
    obtain ⟨-, hissued⟩ := sparesUses_consume_iff.1 h _ hrecord husable
    have hshort := short_peer_id_of_issuable (issue_eq_ok_iff.1 hissued)
    rw [length_peer_id_of] at hshort
    omega

end Querymt.Invite
