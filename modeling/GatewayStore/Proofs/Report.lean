import GatewayStore.Report
import GatewayStore.Proofs.KeyMap
import Mathlib.Data.Finset.Card
import Mathlib.Data.Finset.Dedup

/-
  What a comparison reports: the keys of either side, those that agree, and a pair for each of the
  others (`KindReport.Describes`). A report that describes two sides is the only one that does
  (`Describes.unique`). The first pass meets the stored keys and takes them out of the cached side, the
  second meets what is left, so each key of either side is counted once with its two values
  (`exists_diff_eq`), and the comparison describes its sides (`describes_diff`).
-/

namespace GatewayStore

/-! ## Sides -/

/-- The keys of a list of pairs. -/
def keysOf (l : List (String × Bytes)) : Finset String := (l.map Prod.fst).toFinset

/-- The value of a key in a list of pairs, which is that of the last pair with the key. -/
def valueOf? (l : List (String × Bytes)) (key : String) : Option Bytes := l.reverse.lookup key

/-- The keys of both sides with the same value on each. -/
def consistentKeys (stored cached : List (String × Bytes)) : Finset String :=
  (keysOf stored ∩ keysOf cached).filter fun key => valueOf? stored key = valueOf? cached key

variable {stored cached l : List (String × Bytes)} {key : String}

theorem valueOf?_eq_none_iff : valueOf? l key = none ↔ key ∉ keysOf l := by
  unfold valueOf? keysOf
  rw [List.lookup_eq_none_iff, List.mem_toFinset, List.mem_map]
  constructor
  · rintro h ⟨e, he, rfl⟩
    simpa using h e (List.mem_reverse.2 he)
  · intro h e he
    exact bne_iff_ne.2 fun heq => h ⟨e, List.mem_reverse.1 he, heq.symm⟩

theorem get?_ofPairs (l : List (String × Bytes)) (key : String) :
    (KeyMap.ofPairs l).get? key = valueOf? l key := by
  induction l with
  | nil => rfl
  | cons e l ih =>
    obtain ⟨k, v⟩ := e
    have hfirst : (KeyMap.ofPairs [(k, v)]).get? key = [(k, v)].lookup key := by
      rw [List.lookup_cons]
      change (if key = k then some v else none) = _
      by_cases hk : key = k
      · simp [hk]
      · simp [hk, beq_false_of_ne hk]
    have happend := KeyMap.get?_ofPairs_append [(k, v)] l key
    rw [List.singleton_append] at happend
    rw [happend, ih, hfirst, valueOf?, valueOf?, List.reverse_cons, List.lookup_append]

theorem mem_keys_ofPairs : key ∈ (KeyMap.ofPairs l).keys ↔ key ∈ keysOf l := by
  rw [KeyMap.mem_keys, get?_ofPairs, ne_eq, valueOf?_eq_none_iff, not_not]

theorem card_keysOf (l : List (String × Bytes)) : (keysOf l).card = (KeyMap.ofPairs l).size := by
  have hkeys : (KeyMap.ofPairs l).keys.toFinset = keysOf l := by
    ext key
    rw [List.mem_toFinset, mem_keys_ofPairs]
  rw [← hkeys, List.toFinset_card_of_nodup (KeyMap.nodup_keys _), KeyMap.length_keys]

theorem consistentKeys_subset : consistentKeys stored cached ⊆ keysOf stored ∪ keysOf cached :=
  (Finset.filter_subset _ _).trans Finset.inter_subset_union

theorem mem_consistentKeys : key ∈ consistentKeys stored cached ↔
    key ∈ keysOf stored ∪ keysOf cached ∧ valueOf? stored key = valueOf? cached key := by
  rw [consistentKeys, Finset.mem_filter, Finset.mem_inter, Finset.mem_union]
  refine and_congr_left fun heq => ?_
  have hboth : key ∈ keysOf stored ↔ key ∈ keysOf cached := by
    rw [← not_iff_not, ← valueOf?_eq_none_iff, ← valueOf?_eq_none_iff, heq]
  rw [hboth, and_self, or_self]

/-- The keys that are not consistent are those with two different values, one of which may be none. -/
theorem mem_sdiff_consistentKeys :
    key ∈ (keysOf stored ∪ keysOf cached) \ consistentKeys stored cached ↔
      valueOf? stored key ≠ valueOf? cached key := by
  rw [Finset.mem_sdiff, mem_consistentKeys]
  constructor
  · exact fun ⟨hmem, hnot⟩ heq => hnot ⟨hmem, heq⟩
  · refine fun hne => ⟨?_, fun h => hne h.2⟩
    by_contra hnone
    rw [Finset.notMem_union, ← valueOf?_eq_none_iff, ← valueOf?_eq_none_iff] at hnone
    exact hne (hnone.1.trans hnone.2.symm)

/-! ## What a report describes -/

namespace InconsistentPair

/-- The pair with its sides exchanged. -/
def swap (p : InconsistentPair) : InconsistentPair := ⟨p.key, p.cached, p.stored⟩

theorem swap_involutive : Function.Involutive swap := fun _ => rfl

end InconsistentPair

namespace KindReport

/-- The report with the sides of every pair exchanged. -/
def swap (r : KindReport) : KindReport := { r with pairs := r.pairs.map InconsistentPair.swap }

/-- A report is the comparison of two sides: it counts the keys of either side, the keys of both with
the same value, and the others, for each of which it has a pair with the values of the two sides. The
pairs are in the order of their keys. -/
structure Describes (r : KindReport) (stored cached : List (String × Bytes)) : Prop where
  total_eq : r.total = (keysOf stored ∪ keysOf cached).card
  consistent_eq : r.consistent = (consistentKeys stored cached).card
  inconsistent_eq : r.inconsistent = r.total - r.consistent
  length_pairs : r.pairs.length = r.inconsistent
  ascending : r.pairs.Pairwise fun p q => p.key < q.key
  mem_pairs : ∀ p, p ∈ r.pairs ↔
    p.key ∈ (keysOf stored ∪ keysOf cached) \ consistentKeys stored cached ∧
      p.stored = (valueOf? stored p.key).map Text.lenient ∧
      p.cached = (valueOf? cached p.key).map Text.lenient

variable {r r' : KindReport}

theorem Describes.inconsistent_eq_card (h : r.Describes stored cached) :
    r.inconsistent = ((keysOf stored ∪ keysOf cached) \ consistentKeys stored cached).card := by
  rw [h.inconsistent_eq, h.total_eq, h.consistent_eq,
    Finset.card_sdiff_of_subset consistentKeys_subset]

/-- Two sides have one report. -/
theorem Describes.unique (h : r.Describes stored cached) (h' : r'.Describes stored cached) :
    r = r' := by
  have hnodup {q : KindReport} (hq : q.Describes stored cached) : q.pairs.Nodup := by
    refine hq.ascending.imp ?_
    rintro p _ hlt rfl
    exact String.lt_irrefl _ hlt
  have hperm : r.pairs.Perm r'.pairs :=
    (List.perm_ext_iff_of_nodup (hnodup h) (hnodup h')).2 fun p => by
      rw [h.mem_pairs, h'.mem_pairs]
  have hpairs : r.pairs = r'.pairs := hperm.eq_of_pairwise
    (fun _ _ _ _ hlt hgt => absurd hgt (String.lt_asymm hlt)) h.ascending h'.ascending
  have htotal : r.total = r'.total := h.total_eq.trans h'.total_eq.symm
  have hconsistent : r.consistent = r'.consistent := h.consistent_eq.trans h'.consistent_eq.symm
  have hinconsistent : r.inconsistent = r'.inconsistent := by
    rw [h.inconsistent_eq, h'.inconsistent_eq, htotal, hconsistent]
  obtain ⟨_, _, _, _⟩ := r
  cases htotal
  cases hconsistent
  cases hinconsistent
  cases hpairs
  rfl

theorem consistentKeys_comm (stored cached : List (String × Bytes)) :
    consistentKeys stored cached = consistentKeys cached stored := by
  ext key
  rw [mem_consistentKeys, mem_consistentKeys, Finset.union_comm, eq_comm]

theorem Describes.swap (h : r.Describes stored cached) : r.swap.Describes cached stored where
  total_eq := by rw [Finset.union_comm]; exact h.total_eq
  consistent_eq := by rw [consistentKeys_comm]; exact h.consistent_eq
  inconsistent_eq := h.inconsistent_eq
  length_pairs := (List.length_map _).trans h.length_pairs
  ascending := List.pairwise_map.2 h.ascending
  mem_pairs p := by
    have hmem : p ∈ r.swap.pairs ↔ p.swap ∈ r.pairs :=
      List.mem_map_of_involutive InconsistentPair.swap_involutive
    rw [hmem, h.mem_pairs, Finset.union_comm, consistentKeys_comm]
    exact and_congr_right fun _ => and_comm

/-! ## Counting keys -/

/-- Counts a key with its values on the two sides. -/
def count (storedAt cachedAt : String → Option Bytes) (r : KindReport) (key : String) : KindReport :=
  if storedAt key = cachedAt key then r.agree else r.differ key (storedAt key) (cachedAt key)

/-- The pair of a key with its values on the two sides. -/
def pairAt (storedAt cachedAt : String → Option Bytes) (key : String) : InconsistentPair :=
  ⟨key, (storedAt key).map Text.lenient, (cachedAt key).map Text.lenient⟩

variable {storedAt cachedAt : String → Option Bytes}

theorem foldl_count (keys : List String) (r : KindReport) :
    let others := keys.filter fun k => storedAt k ≠ cachedAt k
    keys.foldl (count storedAt cachedAt) r =
      ⟨r.total + keys.length,
        r.consistent + (keys.filter fun k => storedAt k = cachedAt k).length,
        r.inconsistent + others.length, r.pairs ++ others.map (pairAt storedAt cachedAt)⟩ := by
  induction keys generalizing r with
  | nil => simp
  | cons k keys ih =>
    rw [List.foldl_cons, ih]
    by_cases heq : storedAt k = cachedAt k
    · simp [count, heq, agree, Nat.add_assoc, Nat.add_comm 1]
    · simp [count, heq, differ, pairAt, Nat.add_assoc, Nat.add_comm 1]

/-- The first pass counts the keys that it meets, and takes them out of the cached side. As no key comes
twice, what a key is compared with has not been taken out before. -/
theorem foldl_compareStored {l : List (String × Bytes)} (hl : Assoc.Sorted l)
    (hstored : ∀ e ∈ l, storedAt e.1 = some e.2) (r : KindReport) {rest : KeyMap Bytes}
    (hrest : ∀ e ∈ l, rest.get? e.1 = cachedAt e.1) :
    l.foldl compareStored (r, rest) = ((l.map Prod.fst).foldl (count storedAt cachedAt) r,
      l.foldl (fun rest e => rest.erase e.1) rest) := by
  induction l generalizing r rest with
  | nil => rfl
  | cons e l ih =>
    obtain ⟨hlt, hl'⟩ := Assoc.sorted_cons_iff.1 hl
    have hstep : compareStored (r, rest) e = (count storedAt cachedAt r e.1, rest.erase e.1) := by
      unfold compareStored count
      simp only [hrest e List.mem_cons_self, hstored e List.mem_cons_self, eq_comm]
    rw [List.foldl_cons, hstep]
    refine ih hl' (fun e' he' => hstored e' (List.mem_cons_of_mem _ he')) _ fun e' he' => ?_
    have hne : e'.1 ≠ e.1 := fun heq => String.lt_irrefl e.1 (heq ▸ hlt e' he')
    rw [KeyMap.get?_erase, if_neg hne, hrest e' (List.mem_cons_of_mem _ he')]

/-- The second pass counts keys that are not stored. -/
theorem foldl_differ {l : List (String × Bytes)}
    (hl : ∀ e ∈ l, storedAt e.1 = none ∧ cachedAt e.1 = some e.2) (r : KindReport) :
    l.foldl (fun r e => r.differ e.1 none (some e.2)) r =
      (l.map Prod.fst).foldl (count storedAt cachedAt) r := by
  rw [List.foldl_map]
  refine List.foldl_ext _ _ _ fun r e he => ?_
  obtain ⟨hstored, hcached⟩ := hl e he
  simp [count, hstored, hcached]

end KindReport

open KindReport

/-- The two passes count every key of either side once. -/
theorem exists_diff_eq (stored cached : List (String × Bytes)) :
    ∃ keys : List String, keys.Nodup ∧ keys.toFinset = keysOf stored ∪ keysOf cached ∧
      diff stored cached =
        (keys.foldl (count (valueOf? stored) (valueOf? cached)) .empty).ordered := by
  let rest := (KeyMap.ofPairs stored).entries.foldl (fun rest e => rest.erase e.1)
    (KeyMap.ofPairs cached)
  have hget (key : String) :
      rest.get? key = if key ∈ (KeyMap.ofPairs stored).keys then none else valueOf? cached key := by
    rw [← get?_ofPairs]
    exact KeyMap.get?_foldl_erase _ _ _
  have hrest {key : String} : key ∈ rest.keys ↔ key ∉ keysOf stored ∧ key ∈ keysOf cached := by
    rw [KeyMap.mem_keys, hget, ← mem_keys_ofPairs]
    split
    · next hmem => simp [hmem]
    · next hmem => rw [ne_eq, valueOf?_eq_none_iff, not_not, and_iff_right hmem]
  have hstored : ∀ e ∈ (KeyMap.ofPairs stored).entries, valueOf? stored e.1 = some e.2 := by
    intro e he
    rw [← get?_ofPairs]
    exact KeyMap.get?_eq_some_iff.2 he
  have hleft : ∀ e ∈ rest.entries, valueOf? stored e.1 = none ∧ valueOf? cached e.1 = some e.2 := by
    intro e he
    have hnot : e.1 ∉ keysOf stored := (hrest.1 (List.mem_map_of_mem he)).1
    have hsome : rest.get? e.1 = some e.2 := KeyMap.get?_eq_some_iff.2 he
    rw [hget, if_neg (mem_keys_ofPairs.not.2 hnot)] at hsome
    exact ⟨valueOf?_eq_none_iff.2 hnot, hsome⟩
  refine ⟨(KeyMap.ofPairs stored).keys ++ rest.keys, ?_, ?_, ?_⟩
  · refine List.nodup_append'.2 ⟨KeyMap.nodup_keys _, rest.nodup_keys, fun key hmem hrest' => ?_⟩
    exact (hrest.1 hrest').1 (mem_keys_ofPairs.1 hmem)
  · ext key
    rw [List.mem_toFinset, List.mem_append, Finset.mem_union, mem_keys_ofPairs, hrest]
    tauto
  · have hfirst := foldl_compareStored (KeyMap.ofPairs stored).sorted hstored .empty
      fun e _ => get?_ofPairs cached e.1
    unfold diff
    dsimp only
    rw [hfirst, foldl_differ hleft, ← List.foldl_append]
    rfl

theorem InconsistentPair.precedes_trans (p q t : InconsistentPair) (hpq : p.precedes q = true)
    (hqt : q.precedes t = true) : p.precedes t = true :=
  decide_eq_true (String.le_trans (of_decide_eq_true hpq) (of_decide_eq_true hqt))

theorem InconsistentPair.precedes_total (p q : InconsistentPair) :
    (p.precedes q || q.precedes p) = true := by
  simpa [precedes] using String.le_total p.key q.key

/-- The order of the pairs is strict, as no key has two of them. -/
theorem pairwise_ordered {r : KindReport} (h : (r.pairs.map InconsistentPair.key).Nodup) :
    r.ordered.pairs.Pairwise fun p q => p.key < q.key := by
  have hsorted := List.pairwise_mergeSort InconsistentPair.precedes_trans
    InconsistentPair.precedes_total r.pairs
  have hperm := (List.mergeSort_perm r.pairs InconsistentPair.precedes).map InconsistentPair.key
  have hdistinct := List.pairwise_map.1 (hperm.nodup_iff.2 h)
  exact hsorted.imp₂ (fun p q hle hne => Assoc.lt_of_ne_of_not_lt (Ne.symm hne)
    (String.not_lt.2 (of_decide_eq_true hle))) hdistinct

/-- To count every key of either side once describes the sides. -/
theorem describes_ordered {keys : List String} (hnodup : keys.Nodup)
    (hkeys : keys.toFinset = keysOf stored ∪ keysOf cached) :
    (keys.foldl (count (valueOf? stored) (valueOf? cached)) .empty).ordered.Describes
      stored cached := by
  let same := keys.filter fun k => valueOf? stored k = valueOf? cached k
  let others := keys.filter fun k => valueOf? stored k ≠ valueOf? cached k
  let pairs := others.map (pairAt (valueOf? stored) (valueOf? cached))
  have hcount : keys.foldl (count (valueOf? stored) (valueOf? cached)) .empty =
      ⟨keys.length, same.length, others.length, pairs⟩ := by
    rw [foldl_count]
    simp [empty, same, others, pairs]
  have hsame : same.length = (consistentKeys stored cached).card := by
    rw [← List.toFinset_card_of_nodup (hnodup.filter _)]
    congr 1
    ext key
    rw [List.toFinset_filter, Finset.mem_filter, hkeys, decide_eq_true_iff, mem_consistentKeys]
  have hsum : keys.length = same.length + others.length := by
    simpa only [others, ne_eq, decide_not] using List.length_eq_length_filter_add _
  have hothers {key : String} : key ∈ others ↔
      key ∈ (keysOf stored ∪ keysOf cached) \ consistentKeys stored cached := by
    rw [List.mem_filter, ← List.mem_toFinset, hkeys, decide_eq_true_iff, Finset.mem_sdiff,
      mem_consistentKeys, not_and]
    exact and_congr_right fun hmem => ⟨fun h _ => h, fun h => h hmem⟩
  have hdistinct : (pairs.map InconsistentPair.key).Nodup := by
    rw [List.map_map]
    exact (List.map_id others).symm ▸ hnodup.filter _
  rw [hcount]
  refine ⟨?_, hsame, ?_, ?_, pairwise_ordered hdistinct, fun p => ?_⟩
  · rw [← hkeys, List.toFinset_card_of_nodup hnodup]
    rfl
  · change others.length = keys.length - same.length
    omega
  · exact (List.length_mergeSort _).trans (List.length_map _)
  · rw [ordered, List.mem_mergeSort, List.mem_map, ← hothers]
    constructor
    · rintro ⟨key, hmem, rfl⟩
      exact ⟨hmem, rfl, rfl⟩
    · rintro ⟨hmem, hstored, hcached⟩
      exact ⟨p.key, hmem, by rw [pairAt, ← hstored, ← hcached]⟩

/-- The comparison of two sides describes them. -/
theorem describes_diff (stored cached : List (String × Bytes)) :
    (diff stored cached).Describes stored cached := by
  obtain ⟨keys, hnodup, hkeys, hdiff⟩ := exists_diff_eq stored cached
  rw [hdiff]
  exact describes_ordered hnodup hkeys

/-! ## The main result -/

theorem map_lenient_valueOf?_eq_none_iff :
    (valueOf? l key).map Text.lenient = none ↔ key ∉ keysOf l := by
  rw [Option.map_eq_none_iff, valueOf?_eq_none_iff]

/-- The comparison of two sides is exact: it describes them, and a pair lacks a value exactly on a side
without its key. To exchange the sides exchanges the values of each pair, and nothing else. Two
different values of a key make a pair, also when they read the same as text. -/
theorem diff_exact (stored cached : List (String × Bytes)) :
    (diff stored cached).Describes stored cached ∧
      (∀ p ∈ (diff stored cached).pairs, (p.stored = none ↔ p.key ∉ keysOf stored) ∧
        (p.cached = none ↔ p.key ∉ keysOf cached)) ∧
      diff cached stored = (diff stored cached).swap ∧
      ∀ key v w, valueOf? stored key = some v → valueOf? cached key = some w → v ≠ w →
        ⟨key, some (Text.lenient v), some (Text.lenient w)⟩ ∈ (diff stored cached).pairs := by
  have hdiff := describes_diff stored cached
  refine ⟨hdiff, fun p hp => ?_, (describes_diff cached stored).unique hdiff.swap, ?_⟩
  · obtain ⟨-, hstored, hcached⟩ := (hdiff.mem_pairs p).1 hp
    rw [hstored, hcached]
    exact ⟨map_lenient_valueOf?_eq_none_iff, map_lenient_valueOf?_eq_none_iff⟩
  · intro key v w hv hw hne
    refine (hdiff.mem_pairs _).2 ⟨mem_sdiff_consistentKeys.2 ?_, by rw [hv]; rfl, by rw [hw]; rfl⟩
    rw [hv, hw]
    exact fun h => hne (Option.some.inj h)

/-- Two values that are no text, one of them set twice, and a key that only the cache has. -/
theorem diff_exact_unreadable :
    Text.lenient [255] = Text.lenient [254] ∧
      (diff [("/a", [1]), ("/a", [255])] [("/a", [254]), ("/b", [2])]).inconsistent = 2 ∧
      ⟨"/a", some (Text.lenient [255]), some (Text.lenient [254])⟩ ∈
        (diff [("/a", [1]), ("/a", [255])] [("/a", [254]), ("/b", [2])]).pairs := by
  obtain ⟨hdescribes, -, -, hpair⟩ :=
    diff_exact [("/a", [1]), ("/a", [255])] [("/a", [254]), ("/b", [2])]
  refine ⟨by decide, ?_, hpair "/a" [255] [254] (by decide) (by decide) (by decide)⟩
  rw [hdescribes.inconsistent_eq, hdescribes.total_eq, hdescribes.consistent_eq]
  decide

end GatewayStore
