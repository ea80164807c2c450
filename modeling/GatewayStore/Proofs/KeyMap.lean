import GatewayStore.KeyMap
import GatewayStore.Proofs.Text.Order
import Mathlib.Algebra.GroupWithZero.Nat

/-
  Further laws of maps from text keys: the keys of a map, what a filtered map, a map less some keys and
  a map made from a list of pairs hold at a key, what a new value adds to a sum over the values, and
  which entries stand between the first key from a prefix on and the first one that does not start with
  it.
-/

namespace GatewayStore

namespace Assoc

variable {α β : Type}

theorem get?_filter {l : List (String × α)} (h : Sorted l) (p : String → α → Bool) (k : String) :
    get? k (l.filter fun e => p e.1 e.2) = (get? k l).filter (p k) := by
  induction l with
  | nil => rfl
  | cons e l ih =>
    obtain ⟨k', v⟩ := e
    obtain ⟨hlt, hl⟩ := sorted_cons_iff.1 h
    by_cases hk : k = k'
    · subst hk
      cases hp : p k v with
      | true => simp [hp, get?, Option.filter]
      | false =>
        have hnone : get? k l = none := get?_eq_none_of_lt hlt
        simp [hp, get?, ih hl, hnone, Option.filter]
    · cases hp : p k' v with
      | true => simp [hp, get?, hk, ih hl]
      | false => simp [hp, get?, hk, ih hl]

theorem get?_filterMap {l : List (String × α)} (h : Sorted l) (f : String → α → Option β)
    (k : String) : get? k (l.filterMap fun e => (f e.1 e.2).map (Prod.mk e.1)) =
      (get? k l).bind (f k) := by
  induction l with
  | nil => rfl
  | cons e l ih =>
    obtain ⟨k', v⟩ := e
    obtain ⟨hlt, hl⟩ := sorted_cons_iff.1 h
    by_cases hk : k = k'
    · subst hk
      have hnone : get? k l = none := get?_eq_none_of_lt hlt
      cases hf : f k v <;> simp [hf, get?, ih hl, hnone]
    · cases hf : f k' v <;> simp [hf, get?, hk, ih hl]

theorem sorted_filterMap {l : List (String × α)} (h : Sorted l) (f : String → α → Option β) :
    Sorted (l.filterMap fun e => (f e.1 e.2).map (Prod.mk e.1)) := by
  unfold Sorted at *
  refine List.Pairwise.filterMap _ (fun a a' hlt b hb b' hb' => ?_) h
  obtain ⟨w, -, rfl⟩ := Option.map_eq_some_iff.1 hb
  obtain ⟨w', -, rfl⟩ := Option.map_eq_some_iff.1 hb'
  exact hlt

theorem get?_foldl_insert_of_not_mem {k : String} {l : List (String × α)}
    (h : ∀ v, (k, v) ∉ l) (m : List (String × α)) :
    get? k (l.foldl (fun m e => insert e.1 e.2 m) m) = get? k m := by
  induction l generalizing m with
  | nil => rfl
  | cons e l ih =>
    have hne : k ≠ e.1 := fun he => h e.2 (by rw [he]; exact List.mem_cons_self)
    rw [List.foldl_cons, ih fun v hv => h v (List.mem_cons_of_mem _ hv), get?_insert, if_neg hne]

/-- If no key has two values among the pairs, the map holds every pair. -/
theorem get?_foldl_insert_of_mem {k : String} {v : α} {l : List (String × α)}
    (huniq : ∀ w, (k, w) ∈ l → w = v) (h : (k, v) ∈ l) (m : List (String × α)) :
    get? k (l.foldl (fun m e => insert e.1 e.2 m) m) = some v := by
  induction l generalizing m with
  | nil => cases h
  | cons e l ih =>
    rw [List.foldl_cons]
    by_cases hl : (k, v) ∈ l
    · exact ih (fun w hw => huniq w (List.mem_cons_of_mem _ hw)) hl _
    · have he : e = (k, v) := by
        rcases List.mem_cons.1 h with h | h
        · exact h.symm
        · exact absurd h hl
      have hnot : ∀ w, (k, w) ∉ l := fun w hw => by
        have hwv := huniq w (List.mem_cons_of_mem _ hw)
        exact hl (hwv ▸ hw)
      rw [get?_foldl_insert_of_not_mem hnot, he, get?_insert, if_pos rfl]

theorem get?_foldl_insert_eq_some {k : String} {v : α} {l m : List (String × α)}
    (h : get? k (l.foldl (fun m e => insert e.1 e.2 m) m) = some v) :
    (k, v) ∈ l ∨ get? k m = some v := by
  induction l generalizing m with
  | nil => exact .inr h
  | cons e l ih =>
    rcases ih h with hl | hm
    · exact .inl (List.mem_cons_of_mem e hl)
    · rw [get?_insert] at hm
      split at hm
      · next hk =>
        cases hm
        exact .inl (hk ▸ List.mem_cons_self)
      · exact .inr hm

/-- The map of a list of pairs holds nothing but the pairs. -/
theorem mem_of_get?_ofPairs {k : String} {v : α} {l : List (String × α)}
    (h : get? k (ofPairs l) = some v) : (k, v) ∈ l :=
  (get?_foldl_insert_eq_some h).resolve_right (by simp [get?])

theorem isSome_get?_foldl_insert {k : String} {l m : List (String × α)}
    (h : (∃ v, (k, v) ∈ l) ∨ (get? k m).isSome = true) :
    (get? k (l.foldl (fun m e => insert e.1 e.2 m) m)).isSome = true := by
  induction l generalizing m with
  | nil => exact h.resolve_left (by simp)
  | cons e l ih =>
    refine ih ?_
    rw [get?_insert]
    by_cases hk : k = e.1
    · exact .inr (by rw [if_pos hk]; rfl)
    · rw [if_neg hk]
      refine h.imp_left fun ⟨v, hv⟩ => ⟨v, ?_⟩
      rcases List.mem_cons.1 hv with rfl | hv
      · exact absurd rfl hk
      · exact hv

/-- The map of a list of pairs holds something at the key of every pair. -/
theorem not_mem_of_get?_ofPairs {k : String} {l : List (String × α)}
    (h : get? k (ofPairs l) = none) (v : α) : (k, v) ∉ l := fun hv => by
  have hsome := isSome_get?_foldl_insert (m := []) (.inl ⟨v, hv⟩)
  rw [← ofPairs, h] at hsome
  cases hsome

theorem get?_foldl_insert (l m : List (String × α)) (k : String) :
    get? k (l.foldl (fun m e => insert e.1 e.2 m) m) = (get? k (ofPairs l)).or (get? k m) := by
  induction l generalizing m with
  | nil => rfl
  | cons e l ih =>
    have hfirst : get? k (ofPairs (e :: l)) =
        (get? k (ofPairs l)).or (get? k (insert e.1 e.2 [])) := ih _
    rw [List.foldl_cons, ih, hfirst, get?_insert, get?_insert, Option.or_assoc]
    congr 1
    split <;> rfl

theorem mem_of_mem_ofPairs {l : List (String × α)} {e : String × α} (h : e ∈ ofPairs l) : e ∈ l :=
  mem_of_get?_ofPairs (get?_eq_some_of_mem (sorted_ofPairs l) h)

/-- A list in key order is its own map. -/
theorem ofPairs_eq_self {l : List (String × α)} (h : Sorted l) : ofPairs l = l := by
  refine ext (sorted_ofPairs l) h fun k => ?_
  cases hget : get? k (ofPairs l) with
  | some v => exact (get?_eq_some_of_mem h (mem_of_get?_ofPairs hget)).symm
  | none =>
    cases hl : get? k l with
    | none => rfl
    | some v => exact absurd (mem_of_get?_eq_some hl) (not_mem_of_get?_ofPairs hget v)

theorem sum_insert {l : List (String × α)} (h : Sorted l) (count : α → Nat)
    (k : String) (v : α) :
    ((insert k v l).map fun e => count e.2).sum + ((get? k l).map count).getD 0 =
      (l.map fun e => count e.2).sum + count v := by
  induction l with
  | nil => simp [insert, get?]
  | cons e l ih =>
    obtain ⟨k', v'⟩ := e
    obtain ⟨hlt, hl⟩ := sorted_cons_iff.1 h
    unfold insert
    split
    · next heq =>
      simp only [get?, if_pos heq, List.map_cons, List.sum_cons, Option.map_some, Option.getD_some]
      omega
    · next hne =>
      split
      · next hbefore =>
        have hnone : get? k l = none :=
          get?_eq_none_of_lt fun x hx => String.lt_trans hbefore (hlt x hx)
        simp only [get?, if_neg hne, hnone, List.map_cons, List.sum_cons, Option.map_none,
          Option.getD_none]
        omega
      · have hrest := ih hl
        simp only [get?, if_neg hne, List.map_cons, List.sum_cons]
        omega

/-- The keys from a prefix on start with it up to the first one that does not. -/
theorem takeWhile_startsWith {l : List (String × α)} (h : Sorted l) {p : String}
    (hge : ∀ e ∈ l, ¬ e.1 < p) : l.takeWhile (fun e => Text.startsWith p e.1) =
      l.filter fun e => Text.startsWith p e.1 := by
  induction l with
  | nil => rfl
  | cons e l ih =>
    obtain ⟨hlt, hl⟩ := sorted_cons_iff.1 h
    cases hp : Text.startsWith p e.1 with
    | true =>
      have hrest := ih hl fun e' he' => hge e' (List.mem_cons_of_mem _ he')
      simp [hp, hrest]
    | false =>
      have hnone : (e :: l).filter (fun e => Text.startsWith p e.1) = [] := by
        refine List.filter_eq_nil_iff.2 fun e' he' hp' => ?_
        rcases List.mem_cons.1 he' with rfl | he'
        · exact absurd hp' (by simp [hp])
        have hcontra := Text.startsWith_of_not_lt_of_lt (hge e List.mem_cons_self) (hlt e' he') hp'
        rw [hp] at hcontra
        cases hcontra
      rw [hnone]
      simp [hp]

theorem takeWhile_dropWhile_startsWith {l : List (String × α)} (h : Sorted l) (p : String) :
    (l.dropWhile fun e => e.1 < p).takeWhile (fun e => Text.startsWith p e.1) =
      l.filter fun e => Text.startsWith p e.1 := by
  induction l with
  | nil => rfl
  | cons e l ih =>
    obtain ⟨hlt, hl⟩ := sorted_cons_iff.1 h
    by_cases he : e.1 < p
    · have hp : ¬ Text.startsWith p e.1 = true := fun hp => Text.not_lt_of_startsWith hp he
      have hdrop : (e :: l).dropWhile (fun e => e.1 < p) = l.dropWhile fun e => e.1 < p :=
        List.dropWhile_cons_of_pos (decide_eq_true he)
      have hfilter : (e :: l).filter (fun e => Text.startsWith p e.1) =
          l.filter fun e => Text.startsWith p e.1 := List.filter_cons_of_neg hp
      rw [hdrop, hfilter, ih hl]
    · have hdrop : (e :: l).dropWhile (fun e => e.1 < p) = e :: l :=
        List.dropWhile_cons_of_neg fun hlt => he (of_decide_eq_true hlt)
      rw [hdrop]
      refine takeWhile_startsWith h fun e' he' => ?_
      rcases List.mem_cons.1 he' with rfl | he'
      · exact he
      · exact fun hlt' => he (String.lt_trans (hlt e' he') hlt')

end Assoc

namespace KeyMap

variable {α β : Type}

@[simp]
theorem get?_filter (m : KeyMap α) (p : String → α → Bool) (k : String) :
    (m.filter p).get? k = (m.get? k).filter (p k) :=
  Assoc.get?_filter m.sorted p k

/-- What becomes of every value under its key. -/
def filterMap (m : KeyMap α) (f : String → α → Option β) : KeyMap β :=
  ⟨_, Assoc.sorted_filterMap m.sorted f⟩

@[simp]
theorem get?_filterMap (m : KeyMap α) (f : String → α → Option β) (k : String) :
    (m.filterMap f).get? k = (m.get? k).bind (f k) :=
  Assoc.get?_filterMap m.sorted f k

theorem get?_foldl_erase (l : List (String × β)) (m : KeyMap α) (k : String) :
    (l.foldl (fun m e => m.erase e.1) m).get? k =
      if k ∈ l.map Prod.fst then none else m.get? k := by
  induction l generalizing m with
  | nil => simp
  | cons e l ih =>
    rw [List.foldl_cons, ih, get?_erase]
    by_cases hk : k = e.1
    · simp [hk]
    · simp only [hk, List.map_cons, List.mem_cons, false_or, if_false]

/-- A value that is set counts instead of the one before. -/
theorem sum_values_insert (m : KeyMap α) (count : α → Nat) (k : String) (v : α) :
    ((m.insert k v).values.map count).sum + ((m.get? k).map count).getD 0 =
      (m.values.map count).sum + count v := by
  have hsum := Assoc.sum_insert m.sorted count k v
  simp only [values, List.map_map]
  exact hsum

/-- The keys of a map, ascending. -/
def keys (m : KeyMap α) : List String := m.entries.map Prod.fst

theorem mem_keys {m : KeyMap α} {k : String} : k ∈ m.keys ↔ m.get? k ≠ none := by
  rw [keys, List.mem_map, Option.ne_none_iff_exists']
  constructor
  · rintro ⟨e, he, rfl⟩
    exact ⟨e.2, get?_eq_some_iff.2 he⟩
  · rintro ⟨v, hv⟩
    exact ⟨(k, v), get?_eq_some_iff.1 hv, rfl⟩

theorem pairwise_keys (m : KeyMap α) : m.keys.Pairwise (· < ·) := List.pairwise_map.2 m.sorted

theorem nodup_keys (m : KeyMap α) : m.keys.Nodup := by
  refine m.pairwise_keys.imp ?_
  rintro k _ hlt rfl
  exact String.lt_irrefl k hlt

theorem length_keys (m : KeyMap α) : m.keys.length = m.size := List.length_map _

/-- Read from a prefix on until a key does not start with it, a map gives all that start with it. -/
theorem takeWhile_entriesFrom (m : KeyMap α) (p : String) :
    (m.entriesFrom p).takeWhile (fun e => Text.startsWith p e.1) =
      m.entries.filter fun e => Text.startsWith p e.1 :=
  Assoc.takeWhile_dropWhile_startsWith m.sorted p

/-- The map of its own entries. -/
theorem ofPairs_entries (m : KeyMap α) : ofPairs m.entries = m :=
  ext fun k => congrArg (Assoc.get? k) (Assoc.ofPairs_eq_self m.sorted)

theorem ofPairs_ofPairs (l : List (String × α)) : ofPairs (Assoc.ofPairs l) = ofPairs l :=
  ofPairs_entries (ofPairs l)

theorem get?_ofPairs_append (l m : List (String × α)) (k : String) :
    (ofPairs (l ++ m)).get? k = ((ofPairs m).get? k).or ((ofPairs l).get? k) := by
  simp only [get?, ofPairs, Assoc.ofPairs, List.foldl_append]
  exact Assoc.get?_foldl_insert m _ k

theorem get?_ofPairs_eq_none {l : List (String × α)} {k : String} (h : ∀ v, (k, v) ∉ l) :
    (ofPairs l).get? k = none :=
  Assoc.get?_foldl_insert_of_not_mem h []

theorem get?_ofPairs_eq_some {l : List (String × α)} {k : String} {v : α}
    (huniq : ∀ w, (k, w) ∈ l → w = v) (h : (k, v) ∈ l) : (ofPairs l).get? k = some v :=
  Assoc.get?_foldl_insert_of_mem huniq h []

theorem get?_ofPairs_eq_some_iff {l : List (String × α)}
    (huniq : ∀ k v w, (k, v) ∈ l → (k, w) ∈ l → w = v) {k : String} {v : α} :
    (ofPairs l).get? k = some v ↔ (k, v) ∈ l :=
  ⟨Assoc.mem_of_get?_ofPairs, fun h => get?_ofPairs_eq_some (fun w hw => huniq k v w h hw) h⟩

theorem entries_ofPairs {l : List (String × α)} (h : Assoc.Sorted l) : (ofPairs l).entries = l :=
  Assoc.ofPairs_eq_self h

/-- A filter that keeps nothing of the earlier pairs. -/
theorem filter_ofPairs_append {l : List (String × α)} (m : List (String × α)) {p : String → Bool}
    (hl : ∀ e ∈ l, p e.1 = false) :
    (ofPairs (l ++ m)).filter (fun k _ => p k) = (ofPairs m).filter fun k _ => p k := by
  ext k : 1
  rw [get?_filter, get?_filter, get?_ofPairs_append]
  cases hp : p k with
  | true =>
    have hnone : (ofPairs l).get? k = none := get?_ofPairs_eq_none fun v hv => by
      have hfalse := hl _ hv
      rw [hp] at hfalse
      cases hfalse
    rw [hnone, Option.or_none]
  | false => cases (ofPairs m).get? k <;> cases (ofPairs l).get? k <;> rfl

/-- A filter that keeps all pairs. -/
theorem filter_ofPairs_eq_self {l : List (String × α)} {p : String → Bool}
    (hl : ∀ e ∈ l, p e.1 = true) : (ofPairs l).filter (fun k _ => p k) = ofPairs l := by
  ext k : 1
  rw [get?_filter]
  cases hget : (ofPairs l).get? k with
  | none => rfl
  | some v =>
    rw [hl _ (Assoc.mem_of_get?_ofPairs hget)]
    rfl

end KeyMap

end GatewayStore
