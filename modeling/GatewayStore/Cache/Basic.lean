/-
  The cache of one kind. Every change carries the revision that produced it and is dropped if the
  key holds that revision or a newer one already, also after a delete; so replayed and reordered
  changes never move a key back. Everything up to the floor is reflected as a whole, which makes the
  marks of older deletes redundant.
-/
import GatewayStore.Resource.Codec
import GatewayStore.Resource.Rules
import GatewayStore.Store.Basic

namespace GatewayStore

/-- A cached key: its full storage key, the stored bytes and their revision, and the resource in
them if they decode. -/
structure CacheEntry where
  storageKey : String
  value : Bytes
  revision : Nat
  resource : Option Resource

/-- The cache of the keys under a prefix, by the part of the key after it. A tombstone is the
revision of a delete. -/
structure Cache where
  kind : Kind
  keyPrefix : String
  entries : KeyMap CacheEntry
  tombstones : KeyMap Nat
  revision : Nat
  floor : Nat

namespace Cache

def empty (kind : Kind) (keyPrefix : String) : Cache := ⟨kind, keyPrefix, .empty, .empty, 0, 0⟩

/-- The part of a storage key after the prefix, which must not be empty. -/
def resourceKey? (c : Cache) (storageKey : String) : Option String :=
  (Text.drop? c.keyPrefix storageKey).filter (· ≠ "")

/-- The entry for stored bytes. -/
def entryOf (storageKey key : String) (value : Bytes) (revision : Nat) : CacheEntry :=
  ⟨storageKey, value, revision, (Resource.decode key value).toOption⟩

/-- Whether a change of a key is older than what is known about the key. -/
def isStale (c : Cache) (key : String) (revision : Nat) : Bool :=
  revision ≤ c.floor || (c.entries.get? key).any (fun e => revision ≤ e.revision) ||
    (c.tombstones.get? key).any (fun r => revision ≤ r)

/-- Takes a put; tells whether the entries changed. -/
def applyPut (c : Cache) (storageKey : String) (value : Bytes) (revision : Nat) : Bool × Cache :=
  match c.resourceKey? storageKey with
  | none => (false, c)
  | some key =>
    if c.isStale key revision then (false, c)
    else (true, { c with
      entries := c.entries.insert key (entryOf storageKey key value revision)
      tombstones := c.tombstones.erase key
      revision := max c.revision revision })

/-- Takes a delete; tells whether the entries changed. -/
def applyDelete (c : Cache) (storageKey : String) (revision : Nat) : Bool × Cache :=
  match c.resourceKey? storageKey with
  | none => (false, c)
  | some key =>
    if c.isStale key revision then (false, c)
    else (c.entries.contains key, { c with
      entries := c.entries.erase key
      tombstones := c.tombstones.insert key revision
      revision := max c.revision revision })

/-- Takes an event; a put without a value changes nothing. -/
def applyEvent (c : Cache) (e : Event) : Bool × Cache :=
  match e.change with
  | .put value => c.applyPut e.key value e.revision
  | .blindPut => (false, c)
  | .delete => c.applyDelete e.key e.revision

/-- Takes everything up to a revision for reflected. -/
def advanceFloor (c : Cache) (revision : Nat) : Cache :=
  if revision ≤ c.floor then c
  else { c with floor := revision, tombstones := c.tombstones.filter fun _ r => revision < r }

/-- The entries of a listing; a key that is listed twice keeps the last. -/
def entriesOf (c : Cache) (keys : List StoredKey) : KeyMap CacheEntry :=
  .ofPairs (keys.filterMap fun k =>
    (c.resourceKey? k.key).map fun key => (key, entryOf k.key key k.value k.modRevision))

/-- Takes a listing for everything there is; one older than the floor is ignored. Tells whether it
was taken. -/
def replaceAll (c : Cache) (keys : List StoredKey) (revision : Nat) : Bool × Cache :=
  if revision < c.floor then (false, c)
  else (true, { c with
    entries := c.entriesOf keys
    tombstones := .empty
    floor := revision
    revision := max c.revision revision })

def get? (c : Cache) (key : String) : Option CacheEntry := c.entries.get? key

def contains (c : Cache) (key : String) : Bool := c.entries.contains key

/-- The resources that decode, by key. -/
def resources (c : Cache) : List Resource := c.entries.values.filterMap CacheEntry.resource

/-- The stored bytes by storage key. -/
def contents (c : Cache) : List (String × Bytes) :=
  c.entries.values.map fun e => (e.storageKey, e.value)

theorem resourceKey?_eq_some_iff {c : Cache} {storageKey key : String} :
    c.resourceKey? storageKey = some key ↔ storageKey = c.keyPrefix ++ key ∧ key ≠ "" := by
  simp [resourceKey?, Option.filter_eq_some_iff, Text.drop?_eq_some_iff]

end Cache

/-- The caches of the registered kinds. -/
abbrev Caches := Kind → Option Cache

namespace Caches

/-- The live keys that references are checked against. -/
def live (caches : Caches) : LiveKeys where
  isRegistered kind := (caches kind).isSome
  contains kind key := (caches kind).any (·.contains key)

/-- The caches with one more kind. -/
def register (caches : Caches) (c : Cache) : Caches :=
  fun kind => if kind = c.kind then some c else caches kind

end Caches

end GatewayStore
