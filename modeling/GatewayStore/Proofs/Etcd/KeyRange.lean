import GatewayStore.Cache.Basic
import GatewayStore.Etcd.Exchange
import GatewayStore.Proofs.Store.Start

/-
  One notion of the keys under a prefix. The server is asked for an interval of keys, the store in
  memory reads its index from the prefix on and compares events with the prefix, and a cache cuts the
  prefix off. They all mean the keys whose bytes start with those of the prefix
  (`key_ranges_agree`): the interval up to the end of a prefix holds these keys and no others
  (`inRange_rangeEnd_iff`), a watch of a store in memory gives the changes of these keys and of no
  others (`Watches.of_yields`), and the rest is a matter of the order of texts.
-/

namespace GatewayStore.Etcd

open Wire

/-! ## Intervals of keys -/

/-- The keys from a start up to, but not including, an end. The end of one zero byte means that there
is none. -/
def InRange (start stop key : Bytes) : Prop := start ≤ key ∧ (stop = [0] ∨ key < stop)

theorem ne_zero_of_lt {b : UInt8} (hb : b < 0xff) (q : Bytes) : q ++ [b + 1] ≠ [0] := by
  intro h
  cases q with
  | nil =>
    have hzero : b + 1 = 0 := (List.cons.inj h).1
    grind
  | cons a q => simp at h

theorem prefix_snoc_cons (q : Bytes) (b : UInt8) (rest : Bytes) : q ++ [b] <+: q ++ b :: rest :=
  ⟨rest, by rw [List.append_assoc, List.singleton_append]⟩

/-- The keys up to the list with a higher last byte start with the list. -/
theorem inRange_succ_iff {q key : Bytes} {b : UInt8} (hb : b < 0xff) :
    InRange (q ++ [b]) (q ++ [b + 1]) key ↔ q ++ [b] <+: key := by
  have hsucc : b < b + 1 := by grind
  constructor
  · rintro ⟨hle, hlt⟩
    have hlt : key < q ++ [b + 1] := hlt.resolve_left (ne_zero_of_lt hb q)
    have hq : q ≤ key := List.le_trans List.le_append_left hle
    obtain ⟨rest, rfl⟩ := prefix_of_le_of_lt hq hlt (List.prefix_append q _)
    rw [append_le_append_iff] at hle
    rw [append_lt_append_iff] at hlt
    cases rest with
    | nil => exact absurd (List.nil_lt_cons b []) hle
    | cons c rest =>
      have hlow : b < c ∨ b = c := (List.cons_le_cons_iff.1 hle).imp_right And.left
      have hhigh : c < b + 1 := by simpa [List.cons_lt_cons_iff] using hlt
      have hc : c = b := by grind
      exact hc ▸ prefix_snoc_cons q c rest
  · rintro ⟨rest, rfl⟩
    refine ⟨List.le_append_left, .inr ?_⟩
    rw [List.append_assoc]
    exact List.append_left_lt (List.cons_lt_cons_iff.2 (.inl hsucc))

/-- No byte is above 255, so the keys from such a last byte on start with the list, if they start with
what comes before it. -/
theorem inRange_max_iff {q stop key : Bytes} (h : InRange q stop key ↔ q <+: key) :
    InRange (q ++ [0xff]) stop key ↔ q ++ [0xff] <+: key := by
  constructor
  · rintro ⟨hle, hstop⟩
    obtain ⟨rest, rfl⟩ := h.1 ⟨List.le_trans List.le_append_left hle, hstop⟩
    rw [append_le_append_iff] at hle
    cases rest with
    | nil => exact absurd (List.nil_lt_cons 0xff []) hle
    | cons c rest =>
      have hlow : 0xff < c ∨ 0xff = c := (List.cons_le_cons_iff.1 hle).imp_right And.left
      have hc : c = 0xff := by grind
      exact hc ▸ prefix_snoc_cons q c rest
  · intro hstarts
    have hq : q <+: key := (List.prefix_append q [0xff]).trans hstarts
    exact ⟨hstarts.le, (h.2 hq).2⟩

theorem inRange_rangeEndOfReversed_iff (reversed key : Bytes) :
    InRange reversed.reverse (rangeEndOfReversed reversed) key ↔ reversed.reverse <+: key := by
  induction reversed with
  | nil => simp [InRange, rangeEndOfReversed]
  | cons b reversed ih =>
    rw [List.reverse_cons]
    unfold rangeEndOfReversed
    split
    · next hb => exact inRange_succ_iff hb
    · next hb =>
      have hb : b = 0xff := by grind
      exact hb ▸ inRange_max_iff ih

/-- The keys from a prefix up to its end are those that start with it, also if it ends in bytes of
255 or is nothing else. -/
theorem inRange_rangeEnd_iff (keyPrefix key : Bytes) :
    InRange keyPrefix (rangeEnd keyPrefix) key ↔ keyPrefix <+: key := by
  have h := inRange_rangeEndOfReversed_iff keyPrefix.reverse key
  rwa [List.reverse_reverse] at h

/-! ## One notion of the keys under a prefix -/

/-- Whether a listing is to take in a key. -/
def RangeRequest.Selects (r : RangeRequest) (key : Bytes) : Prop := InRange r.key r.rangeEnd key

/-- Whether a watch is to report a key. -/
def WatchCreateRequest.Selects (r : WatchCreateRequest) (key : Bytes) : Prop :=
  InRange r.key r.rangeEnd key

/-- The bytes of a key start with those of a prefix. -/
def Covers (keyPrefix key : String) : Prop := Text.utf8 keyPrefix <+: Text.utf8 key

instance (keyPrefix key : String) : Decidable (Covers keyPrefix key) :=
  inferInstanceAs (Decidable (_ <+: _))

variable {keyPrefix key : String}

theorem covers_iff : Covers keyPrefix key ↔ Text.startsWith keyPrefix key = true :=
  Text.utf8_prefix_utf8_iff

theorem mem_keysUnder {s : Store} {k : StoredKey} : k ∈ s.keysUnder keyPrefix ↔
    Covers keyPrefix k.key ∧
      s.index.get? k.key = some ⟨k.value, k.createRevision, k.modRevision⟩ := by
  rw [Store.keysUnder_eq, KeyMap.mem_listedUnder, covers_iff]

theorem pairwise_keysUnder (s : Store) (keyPrefix : String) :
    (s.keysUnder keyPrefix).Pairwise fun a b => Text.utf8 a.key < Text.utf8 b.key := by
  rw [Store.keysUnder_eq]
  exact (KeyMap.pairwise_listedUnder s.index keyPrefix).imp Text.utf8_lt_utf8_iff.2

/-- What the watcher of a stream gets that a watch opens under a prefix on a store in memory: of the
history, the events from some revision on, and later each put and each delete when it is made; all of
these if their keys are under the prefix, and nothing of other keys. -/
structure Watches (s opened : Store) (keyPrefix : String) (first : Nat) : Prop where
  /-- All events, until something breaks the streams. -/
  events : ∀ moves, (∀ m ∈ moves, m ≠ .abandon s.nextStream) →
    queuedEvents (opened.delivered s.nextStream moves) =
      (s.history.filter fun e => first ≤ e.revision ∧ Covers keyPrefix e.key) ++
        (opened.changes (Store.unbroken moves)).filter fun e => Covers keyPrefix e.key
  /-- One more put, after anything that leaves the stream open. -/
  put : ∀ moves, (∀ m ∈ moves, m ≠ .abandon s.nextStream) → (∀ m ∈ moves, m.outage? = none) →
    ∀ key value condition after, (opened.actAll moves).put key value condition = .ok after →
      opened.delivered s.nextStream (moves ++ [.operate (.put key value condition)]) =
        opened.delivered s.nextStream moves ++
          if Covers keyPrefix key then [.batch [⟨key, .put value, after.revision⟩]] else []
  /-- One more delete, likewise. -/
  delete : ∀ moves, (∀ m ∈ moves, m ≠ .abandon s.nextStream) → (∀ m ∈ moves, m.outage? = none) →
    ∀ key after, (opened.actAll moves).delete key = .ok after →
      opened.delivered s.nextStream (moves ++ [.operate (.delete key)]) =
        opened.delivered s.nextStream moves ++
          if Covers keyPrefix key then [.batch [⟨key, .delete, after.revision⟩]] else []

theorem isUnder_eq (keyPrefix : String) :
    Event.isUnder keyPrefix = fun e => decide (Covers keyPrefix e.key) := by
  funext e
  rw [Bool.eq_iff_iff, decide_eq_true_eq, covers_iff]
  rfl

/-- An open stream under a prefix on which the history is replayed. -/
theorem Watches.of_yields {s opened : Store} {first : Nat}
    (h : opened.Yields s.nextStream [] keyPrefix true (s.replay keyPrefix first))
    (hn : opened.NumbersBelow) : Watches s opened keyPrefix first := by
  refine ⟨fun moves hstays => ?_, fun moves hstays hquiet key value condition after hput => ?_,
    fun moves hstays hquiet key after hdelete => ?_⟩
  · rw [h.queuedEvents_delivered hn hstays, Store.queuedEvents_replay]
    simp only [isUnder_eq, Bool.decide_and]
  · have hchange : (opened.actAll moves).mutation? (.put key value condition) =
        some ⟨key, .put value, after.revision⟩ := by
      simp [Store.mutation?, hput, Except.toOption]
    rw [h.delivered_concat hn hstays hquiet hchange]
    simp only [isUnder_eq, decide_eq_true_eq]
  · have hchange : (opened.actAll moves).mutation? (.delete key) =
        some ⟨key, .delete, after.revision⟩ := by
      simp [Store.mutation?, hdelete, Except.toOption]
    rw [h.delivered_concat hn hstays hquiet hchange]
    simp only [isUnder_eq, decide_eq_true_eq]

theorem isSome_resourceKey? {c : Cache} : (c.resourceKey? key).isSome = true ↔
    Covers c.keyPrefix key ∧ key ≠ c.keyPrefix := by
  rw [covers_iff, Text.startsWith_iff, Option.isSome_iff_exists]
  simp only [Cache.resourceKey?_eq_some_iff]
  constructor
  · rintro ⟨rest, rfl, hrest⟩
    exact ⟨⟨rest, rfl⟩, by simpa using hrest⟩
  · rintro ⟨⟨rest, rfl⟩, hne⟩
    exact ⟨rest, rfl, fun hempty => hne (by rw [hempty, String.append_empty])⟩

/-! ## The main result -/

/-- The server's listing and watch, the listing and the watch of a store in memory at any point of any
run, and a cache all mean the same keys by a prefix, those whose bytes start with it; the cache leaves
out the prefix itself. -/
theorem key_ranges_agree :
    (∀ start key : Bytes, InRange start (rangeEnd start) key ↔ start <+: key) ∧
      (∀ keyPrefix : String,
        (∃ r : RangeRequest, sent? (.range keyPrefix) = some ⟨.range, Message.encode r⟩ ∧
          ∀ key, r.Selects (Text.utf8 key) ↔ Covers keyPrefix key) ∧
        (∀ start, ∃ r : WatchCreateRequest, sent? (.watch keyPrefix start) =
            some ⟨.watch, Message.encode (WatchRequest.mk (some (.create r)))⟩ ∧
          ∀ key, r.Selects (Text.utf8 key) ↔ Covers keyPrefix key) ∧
        (∀ (s : Store) listing, s.range keyPrefix = .ok listing ↔
          s.isOffline = false ∧ listing = ⟨s.keysUnder keyPrefix, s.revision⟩) ∧
        (∀ s : Store,
          (s.keysUnder keyPrefix).Pairwise (fun a b => Text.utf8 a.key < Text.utf8 b.key) ∧
          ∀ k, k ∈ s.keysUnder keyPrefix ↔ Covers keyPrefix k.key ∧
            s.index.get? k.key = some ⟨k.value, k.createRevision, k.modRevision⟩) ∧
        (∀ retention before start opened,
          let s := (Store.withRetention retention).actAll before
          let first := if start = 0 then s.revision + 1 else start
          s.watch keyPrefix start = .ok opened → s.floor ≤ first →
            Watches s opened keyPrefix first)) ∧
      ∀ (c : Cache) key, (c.resourceKey? key).isSome = true ↔
        Covers c.keyPrefix key ∧ key ≠ c.keyPrefix := by
  refine ⟨inRange_rangeEnd_iff, fun keyPrefix => ⟨⟨_, rfl, fun key => ?_⟩,
    fun start => ⟨_, rfl, fun key => ?_⟩, fun s listing => ?_,
    fun s => ⟨pairwise_keysUnder s keyPrefix, fun k => mem_keysUnder⟩,
    fun retention before start opened => ?_⟩, fun c key => isSome_resourceKey?⟩
  · exact inRange_rangeEnd_iff _ _
  · exact inRange_rangeEnd_iff _ _
  · rw [Store.range_eq_ok, Store.keysUnder_eq]
  · intro s first hopened hfloor
    obtain ⟨-, -, rfl⟩ := Store.watch_eq_ok.1 hopened
    have hn := (Store.numbersBelow_withRetention retention).actAll before
    exact .of_yields (.of_live hn _ rfl hfloor) (hn.addStream _)

/-- Puts of keys around a prefix: one that is cut short, the prefix itself, a key under it, and the
first key after those under it. -/
def bordering : List StoreMove :=
  [.operate (.put "/p" [1] none), .operate (.put "/p/" [2] none), .operate (.put "/p/a" [3] none),
    .operate (.put "/p0" [4] none)]

theorem key_ranges_agree_bordering :
    let s := (Store.withRetention 3).actAll bordering
    let opened := s.addStream (s.watchStream "/p/" 2)
    s.watch "/p/" 2 = .ok opened ∧ s.floor ≤ 2 ∧
      queuedEvents (opened.delivered 0
        [.operate (.delete "/p0"), .operate (.put "/p/b" [5] none), .operate (.put "/p" [6] none),
          .operate (.delete "/p/")]) =
        [⟨"/p/", .put [2], 2⟩, ⟨"/p/a", .put [3], 3⟩, ⟨"/p/b", .put [5], 6⟩, ⟨"/p/", .delete, 8⟩] := by
  intro s opened
  have hfloor : s.floor ≤ 2 := by decide +kernel
  obtain ⟨-, hprefix, -⟩ := key_ranges_agree
  obtain ⟨-, -, -, -, hwatches⟩ := hprefix "/p/"
  have hopened := hwatches 3 bordering 2 opened rfl hfloor
  exact ⟨rfl, hfloor, (hopened.events _ (by decide +kernel)).trans (by decide +kernel)⟩

end GatewayStore.Etcd
