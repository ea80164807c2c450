import GatewayStore.Hub.Verification
import GatewayStore.Proofs.Cache.Reflection
import GatewayStore.Proofs.Report

/-
  Comparing a cache with the store that it reflects. The listing of a prefix has the bare prefix as a
  key if it is stored, and the cache never has it; on every other key the two agree. So the comparison
  counts every listed key, and the bare prefix as the only difference (`compare_of_reflects`).
-/

namespace GatewayStore

/-- The comparison of a map with itself less one key. -/
theorem diff_of_missing {stored cached : List (String × Bytes)} {missing : String}
    (h : ∀ k, (KeyMap.ofPairs cached).get? k =
      if k = missing then none else (KeyMap.ofPairs stored).get? k) :
    (diff stored cached).total = (KeyMap.ofPairs stored).size ∧
      (diff stored cached).inconsistent =
        if (KeyMap.ofPairs stored).contains missing then 1 else 0 := by
  have hdiff := describes_diff stored cached
  have hvalue (k : String) : valueOf? cached k = if k = missing then none else valueOf? stored k := by
    rw [← get?_ofPairs, ← get?_ofPairs, h]
  have hsubset : keysOf cached ⊆ keysOf stored := fun k hk => by
    by_contra hnot
    rw [← valueOf?_eq_none_iff] at hnot
    refine valueOf?_eq_none_iff.1 ?_ hk
    rw [hvalue, hnot, ite_self]
  have hdiffer : (keysOf stored ∪ keysOf cached) \ consistentKeys stored cached =
      if (KeyMap.ofPairs stored).contains missing then {missing} else ∅ := by
    ext k
    rw [mem_sdiff_consistentKeys, hvalue, KeyMap.contains, get?_ofPairs]
    by_cases hk : k = missing
    · cases hstored : valueOf? stored missing <;> simp [hk, hstored]
    · cases valueOf? stored missing <;> simp [hk]
  constructor
  · rw [hdiff.total_eq, Finset.union_eq_left.2 hsubset, card_keysOf]
  · rw [hdiff.inconsistent_eq_card, hdiffer]
    split <;> rfl

namespace Cache

variable {c : Cache} {index : KeyMap Record} {keyPrefix : String}

theorem sorted_listed (index : KeyMap Record) (keyPrefix : String) :
    Assoc.Sorted ((index.listedUnder keyPrefix).map fun k => (k.key, k.value)) := by
  rw [KeyMap.listedUnder, List.map_map]
  exact Assoc.sorted_map (f := fun e => (e.1, e.2.value)) (fun _ => rfl) (index.sorted.filter _)

theorem mem_listed {k : String} {v : Bytes} :
    (k, v) ∈ (index.listedUnder keyPrefix).map (fun k => (k.key, k.value)) ↔
      Text.startsWith keyPrefix k = true ∧ ∃ r, index.get? k = some r ∧ r.value = v := by
  rw [List.mem_map]
  constructor
  · rintro ⟨listed, hmem, heq⟩
    cases heq
    obtain ⟨hp, hget⟩ := KeyMap.mem_listedUnder.1 hmem
    exact ⟨hp, _, hget, rfl⟩
  · rintro ⟨hp, r, hget, rfl⟩
    exact ⟨r.listed k, KeyMap.mem_listedUnder.2 ⟨hp, hget⟩, rfl⟩

theorem get?_listed {k : String} {v : Bytes} :
    (KeyMap.ofPairs ((index.listedUnder keyPrefix).map fun k => (k.key, k.value))).get? k = some v ↔
      Text.startsWith keyPrefix k = true ∧ ∃ r, index.get? k = some r ∧ r.value = v := by
  rw [← mem_listed]
  rw [KeyMap.get?_eq_some_iff, KeyMap.entries_ofPairs (sorted_listed index keyPrefix)]

/-- The contents of a cache are the stored keys beyond the prefix, with their values. -/
theorem mem_contents (h : c.Reflects keyPrefix index) {k : String} {v : Bytes} :
    (k, v) ∈ c.contents ↔ k ≠ keyPrefix ∧ Text.startsWith keyPrefix k = true ∧
      ∃ r, index.get? k = some r ∧ r.value = v := by
  have hbare {key : String} : keyPrefix ++ key = keyPrefix ↔ key = "" := by
    rw [← String.toList_inj, ← String.toList_inj, String.toList_append]
    simp
  rw [contents, KeyMap.values, List.map_map, List.mem_map]
  constructor
  · rintro ⟨⟨key, entry⟩, hmem, heq⟩
    cases heq
    obtain ⟨hne, r, hget, rfl⟩ := (reflects_iff.1 h key entry).1 (KeyMap.get?_eq_some_iff.2 hmem)
    exact ⟨fun he => hne (hbare.1 he), Text.startsWith_iff.2 ⟨key, rfl⟩, r, hget, rfl⟩
  · rintro ⟨hne, hp, r, hget, rfl⟩
    obtain ⟨key, rfl⟩ := Text.startsWith_iff.1 hp
    refine ⟨(key, entryOf (keyPrefix ++ key) key r.value r.modRevision), ?_, rfl⟩
    exact KeyMap.get?_eq_some_iff.1 ((reflects_iff.1 h key _).2
      ⟨fun he => hne (hbare.2 he), r, hget, rfl⟩)

theorem get?_contents (h : c.Reflects keyPrefix index) (k : String) :
    (KeyMap.ofPairs c.contents).get? k = if k = keyPrefix then none else
      (KeyMap.ofPairs ((index.listedUnder keyPrefix).map fun k => (k.key, k.value))).get? k := by
  have hunique : ∀ k v w, (k, v) ∈ c.contents → (k, w) ∈ c.contents → w = v := by
    intro k v w hv hw
    obtain ⟨-, -, r, hr, rfl⟩ := (mem_contents h).1 hv
    obtain ⟨-, -, r', hr', rfl⟩ := (mem_contents h).1 hw
    rw [hr] at hr'
    cases hr'
    rfl
  ext v : 1
  rw [KeyMap.get?_ofPairs_eq_some_iff hunique, mem_contents h]
  split
  · next heq => simp [heq]
  · next hne => rw [get?_listed, and_iff_right hne]

/-- A cache that reflects a store differs from a listing of it at most at the bare prefix. -/
theorem compare_of_reflects (h : c.Reflects keyPrefix index) (revision : Nat) :
    (c.compare ⟨index.listedUnder keyPrefix, revision⟩).total =
        (index.listedUnder keyPrefix).length ∧
      (c.compare ⟨index.listedUnder keyPrefix, revision⟩).inconsistent =
        if index.contains keyPrefix then 1 else 0 := by
  obtain ⟨htotal, hinconsistent⟩ := diff_of_missing (get?_contents h)
  rw [Cache.compare, htotal, hinconsistent]
  constructor
  · rw [KeyMap.size, KeyMap.entries_ofPairs (sorted_listed index keyPrefix), List.length_map]
  · refine if_congr ?_ rfl rfl
    rw [KeyMap.contains, KeyMap.contains, Option.isSome_iff_exists, Option.isSome_iff_exists]
    constructor
    · rintro ⟨v, hv⟩
      obtain ⟨-, r, hr, -⟩ := get?_listed.1 hv
      exact ⟨r, hr⟩
    · rintro ⟨r, hr⟩
      exact ⟨r.value, get?_listed.2 ⟨Text.startsWith_iff.2 ⟨"", by simp⟩, r, hr, rfl⟩⟩

end Cache

end GatewayStore
