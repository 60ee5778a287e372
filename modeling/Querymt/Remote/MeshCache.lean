/-
`Remote/MeshCache.lean` -- the lookup cache of the mesh.

Mirrors `CachedMeshTransport` (`agent/remote/cached_transport.rs`): the cache, the
maintenance task with its events, the tasks that pre-warm the cache for a peer, and the
lookups that miss. Each network call of a task is a step of its own, so that a run is any
interleaving of them with the events.

# One sweep

An expired peer is swept out of the cache once. What a task that is still waiting stores
later is not looked at (`late_store_served`).

# Whose entry

A sweep goes by the peer that an entry is filed under. A pre-warmed entry is filed under the
peer that was discovered, whoever the reference leads to.

# Which entry

A new entry goes behind the older ones, and the first of its type is served.

When no step does any of this to a reference that matters, the cache serves no reference to
an expired peer, and none from before a re-discovery (`serves_fresh`). What the network
answers is arbitrary.
-/
import Querymt.Library.Runs

set_option autoImplicit false

open Runs

namespace Querymt.MeshCache

/-! ## 1. The transport -/

abbrev PeerId := String

/-- The types of the actors; those that are pre-warmed have their own names. -/
inductive ActorType where
  | ProviderHostActor
  | RemoteNodeManager
  | Other (name : String)
  deriving DecidableEq

/-- `RemoteActorRef<A>`, with its type and its own peer. -/
structure RemoteActorRef where
  actor : ActorType
  peer_id : Option PeerId
  sequence_id : ℕ
  deriving DecidableEq

/-- `peer_id` is the peer that the entry is filed under. -/
structure CachedEntry where
  peer_id : Option PeerId
  ref : RemoteActorRef
  cached_at : ℕ
  deriving DecidableEq

structure RegistrationEntry where
  dht_name : String
  actor_sequence_id : ℕ
  deriving DecidableEq

/-- Where a run of `prewarm_cache_for_peer` waits. -/
inductive Prewarm where
  | LookupExchange (peer_id : PeerId)
  | AskRegistrations (peer_id : PeerId)
  | LookupEntry (peer_id : PeerId) (name : String) (actor : ActorType)
      (rest : List RegistrationEntry)
  deriving DecidableEq

/-- A call of `lookup_cached` that has missed and waits. -/
structure PendingLookup where
  actor : ActorType
  name : String
  deriving DecidableEq

structure CachedMeshTransport where
  cache : String → List CachedEntry
  prewarms : List Prewarm
  lookups : List PendingLookup

/-- What a lookup of the network finds: whom the reference leads to. -/
structure Answer where
  peer_id : Option PeerId
  sequence_id : ℕ

/-- An event of the maintenance task, a call of `lookup_cached`, or the end of a network call;
`i` says which of the waiting tasks it is. -/
inductive Step where
  | Discovered (peer_id : PeerId)
  | Expired (peer_id : PeerId)
  | ExchangeAnswer (i : ℕ) (result : Except String (Option Answer))
  | RegistrationsAnswer (i : ℕ) (result : Except String (List RegistrationEntry))
  | EntryAnswer (i : ℕ) (result : Except String (Option Answer))
  | Lookup (actor : ActorType) (name : String)
  | LookupAnswer (i : ℕ) (result : Except String (Option Answer))

/-- The next of the registrations that is looked up; those of other actors are passed over. -/
def next_entry (peer_id : PeerId) : List RegistrationEntry → Option Prewarm
  | [] => none
  | entry :: rest =>
      if "provider_host::".toList.isPrefixOf entry.dht_name.toList then
        some (.LookupEntry peer_id entry.dht_name .ProviderHostActor rest)
      else if "node_manager".toList.isPrefixOf entry.dht_name.toList then
        some (.LookupEntry peer_id entry.dht_name .RemoteNodeManager rest)
      else next_entry peer_id rest

/-- A task goes on to its next call, or ends. -/
def go_on (prewarms : List Prewarm) (i : ℕ) (next : Option Prewarm) : List Prewarm :=
  match next with
  | some task => prewarms.set i task
  | none => prewarms.eraseIdx i

/-- What is put into the cache. -/
structure Insertion where
  name : String
  peer_id : Option PeerId
  ref : RemoteActorRef

namespace CachedMeshTransport

variable (t : CachedMeshTransport)

/-- The first entry of the right type. -/
def get_entry (actor : ActorType) (name : String) : Option CachedEntry :=
  (t.cache name).find? fun e => e.ref.actor = actor

/-- `get`: a cache hit. -/
def get (actor : ActorType) (name : String) : Option RemoteActorRef :=
  (t.get_entry actor name).map CachedEntry.ref

def insert (cache : String → List CachedEntry) (ins : Insertion) (now : ℕ) :
    String → List CachedEntry :=
  fun name => if name = ins.name then cache name ++ [⟨ins.peer_id, ins.ref, now⟩] else cache name

def evict_peer (cache : String → List CachedEntry) (peer_id : PeerId) :
    String → List CachedEntry :=
  fun name => (cache name).filter fun e => e.peer_id ≠ some peer_id

/-- What a step puts into the cache: a pre-warmed reference is filed under the peer of the
task, one that was looked up under its own. -/
def inserted : Step → Option Insertion
  | .EntryAnswer i (.ok (some r)) =>
      match t.prewarms[i]? with
      | some (.LookupEntry peer_id name actor _) =>
          some ⟨name, some peer_id, ⟨actor, r.peer_id, r.sequence_id⟩⟩
      | _ => none
  | .LookupAnswer i (.ok (some r)) =>
      t.lookups[i]?.map fun p => ⟨p.name, r.peer_id, ⟨p.actor, r.peer_id, r.sequence_id⟩⟩
  | _ => none

def next_prewarms : Step → List Prewarm
  | .Discovered peer_id => t.prewarms ++ [.LookupExchange peer_id]
  | .ExchangeAnswer i result =>
      match t.prewarms[i]?, result with
      | some (.LookupExchange peer_id), .ok (some _) =>
          go_on t.prewarms i (some (.AskRegistrations peer_id))
      | some (.LookupExchange _), _ => go_on t.prewarms i none
      | _, _ => t.prewarms
  | .RegistrationsAnswer i result =>
      match t.prewarms[i]?, result with
      | some (.AskRegistrations peer_id), .ok registrations =>
          go_on t.prewarms i (next_entry peer_id registrations)
      | some (.AskRegistrations _), _ => go_on t.prewarms i none
      | _, _ => t.prewarms
  | .EntryAnswer i _ =>
      match t.prewarms[i]? with
      -- the loop goes on whatever was found
      | some (.LookupEntry peer_id _ _ rest) => go_on t.prewarms i (next_entry peer_id rest)
      | _ => t.prewarms
  | _ => t.prewarms

def next_lookups : Step → List PendingLookup
  | .Lookup actor name =>
      match t.get actor name with
      | some _ => t.lookups
      | none => t.lookups ++ [⟨actor, name⟩]
  | .LookupAnswer i _ => t.lookups.eraseIdx i
  | _ => t.lookups

def next_cache (s : Step) (now : ℕ) : String → List CachedEntry :=
  match s with
  | .Expired peer_id => evict_peer t.cache peer_id
  | s =>
      match t.inserted s with
      | some ins => insert t.cache ins now
      | none => t.cache

def step (s : Step) (now : ℕ) : CachedMeshTransport :=
  ⟨t.next_cache s now, t.next_prewarms s, t.next_lookups s⟩

end CachedMeshTransport

/-! ## 2. Runs -/

/-- What has happened: the peers that were discovered, those whose last event was their
expiry, and when peers were discovered again and entries stored. -/
structure History where
  discovered : List PeerId
  expired : List PeerId
  rediscoveries : List (PeerId × ℕ)
  stores : List (String × ℕ)

structure World where
  transport : CachedMeshTransport
  now : ℕ
  history : History

namespace World

def initial : World := ⟨⟨fun _ => [], [], []⟩, 0, ⟨[], [], [], []⟩⟩

variable (w : World)

def record (s : Step) : History :=
  match s with
  | .Discovered peer_id =>
      { w.history with
        discovered := peer_id :: w.history.discovered
        expired := w.history.expired.filter (· ≠ peer_id)
        rediscoveries :=
          if w.history.discovered.contains peer_id then
            (peer_id, w.now) :: w.history.rediscoveries
          else w.history.rediscoveries }
  | .Expired peer_id => { w.history with expired := peer_id :: w.history.expired }
  | s =>
      match w.transport.inserted s with
      | some ins => { w.history with stores := (ins.name, w.now) :: w.history.stores }
      | none => w.history

def step (w : World) (s : Step) : World := ⟨w.transport.step s w.now, w.now + 1, w.record s⟩

/-- No hit leads to a peer that has expired and was not discovered since; and once an entry
was stored for a name after a re-discovery of a peer, no hit for the name leads to the peer by
an entry from before the re-discovery. -/
structure ServesFresh : Prop where
  expired : ∀ p ∈ w.history.expired, ∀ actor name r,
    w.transport.get actor name = some r → r.peer_id ≠ some p
  rediscovered : ∀ p d, (p, d) ∈ w.history.rediscoveries →
    ∀ name s, (name, s) ∈ w.history.stores → d < s → ∀ actor e,
      w.transport.get_entry actor name = some e → e.ref.peer_id = some p → d ≤ e.cached_at

/-- An entry that leads to a peer and is from before a re-discovery of it. -/
def Stale (e : CachedEntry) : Prop :=
  ∃ p d, e.ref.peer_id = some p ∧ (p, d) ∈ w.history.rediscoveries ∧ e.cached_at < d

/-- What a step must not do: sweep for a peer while an entry that leads to it is filed under
another; store what leads to an expired peer; store behind an entry that is stale. -/
def Sound (s : Step) : Prop :=
  (∀ p, s = .Expired p → ∀ name, ∀ e ∈ w.transport.cache name,
    e.ref.peer_id = some p → e.peer_id = some p) ∧
  ∀ ins, w.transport.inserted s = some ins →
    (∀ p ∈ w.history.expired, ins.ref.peer_id ≠ some p) ∧
      ∀ e ∈ w.transport.cache ins.name, ¬ w.Stale e

/-! ## 3. The invariant -/

/-- What a run of sound steps keeps: it is about all entries, not only those that are served. -/
structure Inv : Prop where
  expired : ∀ p ∈ w.history.expired, ∀ name, ∀ e ∈ w.transport.cache name,
    e.ref.peer_id ≠ some p
  rediscovered : ∀ p d, (p, d) ∈ w.history.rediscoveries →
    ∀ name s, (name, s) ∈ w.history.stores → d < s → ∀ e ∈ w.transport.cache name,
      e.ref.peer_id = some p → d ≤ e.cached_at
  rediscoveries_past : ∀ p d, (p, d) ∈ w.history.rediscoveries → d < w.now
  stores_past : ∀ name s, (name, s) ∈ w.history.stores → s < w.now

variable {w}

theorem inv_initial : initial.Inv where
  expired _ hp := absurd hp List.not_mem_nil
  rediscovered _ _ hd := absurd hd List.not_mem_nil
  rediscoveries_past _ _ hd := absurd hd List.not_mem_nil
  stores_past _ _ hs := absurd hs List.not_mem_nil

theorem Inv.fresh (h : w.Inv) : w.ServesFresh where
  expired p hp actor name r hr := by
    obtain ⟨e, he, rfl⟩ := Option.map_eq_some_iff.1 hr
    exact h.expired p hp name e (List.mem_of_find?_eq_some he)
  rediscovered p d hd name s hs hlt actor e he :=
    h.rediscovered p d hd name s hs hlt e (List.mem_of_find?_eq_some he)

/-- A step with an event adds nothing to the cache; any other step adds what it inserts. -/
theorem step_cases (w : World) (s : Step) :
    (∃ p, s = .Discovered p) ∨ (∃ p, s = .Expired p) ∨
      (w.transport.inserted s = none ∧ (w.step s).transport.cache = w.transport.cache ∧
        (w.step s).history = w.history) ∨
      ∃ ins, w.transport.inserted s = some ins ∧
        (w.step s).transport.cache = CachedMeshTransport.insert w.transport.cache ins w.now ∧
        (w.step s).history = { w.history with stores := (ins.name, w.now) :: w.history.stores } := by
  have hother : (∀ p, s ≠ .Discovered p) → (∀ p, s ≠ .Expired p) →
      (w.step s).transport.cache = (match w.transport.inserted s with
        | some ins => CachedMeshTransport.insert w.transport.cache ins w.now
        | none => w.transport.cache) ∧
      (w.step s).history = match w.transport.inserted s with
        | some ins => { w.history with stores := (ins.name, w.now) :: w.history.stores }
        | none => w.history := by
    intro hd he
    cases s with
    | Discovered p => exact absurd rfl (hd p)
    | Expired p => exact absurd rfl (he p)
    | ExchangeAnswer i result => exact ⟨rfl, rfl⟩
    | RegistrationsAnswer i result => exact ⟨rfl, rfl⟩
    | EntryAnswer i result => exact ⟨rfl, rfl⟩
    | Lookup actor name => exact ⟨rfl, rfl⟩
    | LookupAnswer i result => exact ⟨rfl, rfl⟩
  by_cases hd : ∃ p, s = .Discovered p
  · exact .inl hd
  · by_cases he : ∃ p, s = .Expired p
    · exact .inr (.inl he)
    · obtain ⟨hcache, hhistory⟩ := hother (fun p h => hd ⟨p, h⟩) (fun p h => he ⟨p, h⟩)
      cases hins : w.transport.inserted s with
      | none =>
          rw [hins] at hcache hhistory
          exact .inr (.inr (.inl ⟨rfl, hcache, hhistory⟩))
      | some ins =>
          rw [hins] at hcache hhistory
          exact .inr (.inr (.inr ⟨ins, rfl, hcache, hhistory⟩))

theorem mem_insert {cache : String → List CachedEntry} {ins : Insertion} {now : ℕ} {name : String}
    {e : CachedEntry} (h : e ∈ CachedMeshTransport.insert cache ins now name) :
    e ∈ cache name ∨ name = ins.name ∧ e = ⟨ins.peer_id, ins.ref, now⟩ := by
  unfold CachedMeshTransport.insert at h
  by_cases hname : name = ins.name
  · rw [if_pos hname] at h
    exact (List.mem_append.1 h).imp_right fun he => ⟨hname, List.mem_singleton.1 he⟩
  · rw [if_neg hname] at h
    exact .inl h

/-- A discovery: the peer is no longer expired, and no entry was stored after it. -/
theorem Inv.discovered (h : w.Inv) (p : PeerId) : (w.step (.Discovered p)).Inv := by
  have hred : ∀ q d, (q, d) ∈ (w.step (.Discovered p)).history.rediscoveries →
      (q, d) ∈ w.history.rediscoveries ∨ d = w.now := by
    intro q d hd
    change (q, d) ∈ (if w.history.discovered.contains p = true then
      (p, w.now) :: w.history.rediscoveries else w.history.rediscoveries) at hd
    split_ifs at hd
    · exact (List.mem_cons.1 hd).symm.imp_right fun heq => (Prod.mk.inj heq).2
    · exact .inl hd
  constructor
  · intro q hq
    exact h.expired q (List.mem_filter.1 hq).1
  · intro q d hd name s hs hlt
    obtain hd | rfl := hred q d hd
    · exact h.rediscovered q d hd name s hs hlt
    · exact absurd (h.stores_past name s hs) (by omega)
  · intro q d hd
    change d < w.now + 1
    obtain hd | rfl := hred q d hd
    · exact Nat.lt_succ_of_lt (h.rediscoveries_past q d hd)
    · exact Nat.lt_succ_self _
  · exact fun name s hs => Nat.lt_succ_of_lt (h.stores_past name s hs)

/-- A sweep: what leads to the peer is filed under it, and goes. -/
theorem Inv.expired_step (h : w.Inv) {p : PeerId} (hsound : w.Sound (.Expired p)) :
    (w.step (.Expired p)).Inv := by
  constructor
  · intro q hq name e he
    obtain ⟨hmem, hkept⟩ := List.mem_filter.1 he
    obtain rfl | hq := List.mem_cons.1 hq
    · intro heq
      exact of_decide_eq_true hkept (hsound.1 q rfl name e hmem heq)
    · exact h.expired q hq name e hmem
  · intro q d hd name s hs hlt e he
    exact h.rediscovered q d hd name s hs hlt e (List.mem_filter.1 he).1
  · exact fun q d hd => Nat.lt_succ_of_lt (h.rediscoveries_past q d hd)
  · exact fun name s hs => Nat.lt_succ_of_lt (h.stores_past name s hs)

/-- A store: the new entry leads to no expired peer, and nothing before it is stale. -/
theorem Inv.stored (h : w.Inv) {s : Step} (hsound : w.Sound s) {ins : Insertion}
    (hins : w.transport.inserted s = some ins)
    (hcache : (w.step s).transport.cache =
      CachedMeshTransport.insert w.transport.cache ins w.now)
    (hhistory : (w.step s).history =
      { w.history with stores := (ins.name, w.now) :: w.history.stores }) :
    (w.step s).Inv := by
  obtain ⟨hexpired, hstale⟩ := hsound.2 ins hins
  constructor
  · intro p hp name e he
    rw [hhistory] at hp
    rw [hcache] at he
    obtain he | ⟨-, rfl⟩ := mem_insert he
    · exact h.expired p hp name e he
    · exact hexpired p hp
  · intro p d hd name t ht hlt e he heq
    rw [hhistory] at hd ht
    rw [hcache] at he
    obtain he | ⟨-, rfl⟩ := mem_insert he
    · obtain hnew | ht := List.mem_cons.1 ht
      · -- the store itself: the entries before it are not stale
        obtain ⟨rfl, rfl⟩ := Prod.mk.inj hnew
        by_contra hbefore
        exact hstale e he ⟨p, d, heq, hd, by omega⟩
      · exact h.rediscovered p d hd name t ht hlt e he heq
    · exact Nat.le_of_lt (h.rediscoveries_past p d hd)
  · intro p d hd
    rw [hhistory] at hd
    exact Nat.lt_succ_of_lt (h.rediscoveries_past p d hd)
  · intro name t ht
    rw [hhistory] at ht
    change t < w.now + 1
    obtain hnew | ht := List.mem_cons.1 ht
    · rw [(Prod.mk.inj hnew).2]
      exact Nat.lt_succ_self _
    · exact Nat.lt_succ_of_lt (h.stores_past name t ht)

theorem Inv.step (h : w.Inv) {s : Step} (hsound : w.Sound s) : (w.step s).Inv := by
  obtain ⟨p, rfl⟩ | ⟨p, rfl⟩ | ⟨-, hcache, hhistory⟩ | ⟨ins, hins, hcache, hhistory⟩ :=
    w.step_cases s
  · exact h.discovered p
  · exact h.expired_step hsound
  · constructor
    · rw [hcache, hhistory]
      exact h.expired
    · rw [hcache, hhistory]
      exact h.rediscovered
    · intro p d hd
      rw [hhistory] at hd
      exact Nat.lt_succ_of_lt (h.rediscoveries_past p d hd)
    · intro name t ht
      rw [hhistory] at ht
      exact Nat.lt_succ_of_lt (h.stores_past name t ht)
  · exact h.stored hsound hins hcache hhistory

/-- After any run of sound steps the cache serves no expired peer and nothing from before a
re-discovery. -/
theorem serves_fresh (steps : List Step) (hsound : Along step Sound initial steps) :
    (run step initial steps).ServesFresh :=
  (run_invariant hsound (fun _ _ h hs => h.step hs) inv_initial).fresh

/-! ### A peer that expires while it is looked up -/

def sample_registrations : List RegistrationEntry := [⟨"provider_host::p", 7⟩]

/-- The peer is discovered and says what it has registered. -/
def sample_prewarm : List Step :=
  [.Discovered "p", .ExchangeAnswer 0 (.ok (some ⟨some "p", 1⟩)),
    .RegistrationsAnswer 0 (.ok sample_registrations)]

/-- The lookup ends before the peer expires. -/
theorem serves_fresh_sample :
    (run step initial (sample_prewarm ++
      [.EntryAnswer 0 (.ok (some ⟨some "p", 7⟩)), .Expired "p"])).ServesFresh := by
  refine serves_fresh _ ⟨⟨nofun, nofun⟩, ⟨nofun, nofun⟩, ⟨nofun, nofun⟩, ⟨nofun, ?_⟩, ⟨?_, nofun⟩,
    trivial⟩
  · intro ins hins
    refine ⟨fun p hp => absurd hp List.not_mem_nil, fun e he => ?_⟩
    exact absurd he List.not_mem_nil
  · intro p hp name e he heq
    -- the one entry is filed under the peer that it leads to
    obtain he | ⟨-, rfl⟩ := mem_insert he
    · exact absurd he List.not_mem_nil
    · obtain rfl := Step.Expired.inj hp
      rfl

/-- It ends afterwards, and the reference is served although its peer has expired. -/
theorem late_store_served :
    ¬ (run step initial (sample_prewarm ++
      [.Expired "p", .EntryAnswer 0 (.ok (some ⟨some "p", 7⟩))])).ServesFresh := by
  intro h
  exact h.expired "p" (by decide) .ProviderHostActor "provider_host::p"
    ⟨.ProviderHostActor, some "p", 7⟩ (by decide) rfl

end World

end Querymt.MeshCache
