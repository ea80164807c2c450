/-
  Maps from text keys, kept as lists in strictly ascending key order. The list operations come
  first, as JSON objects use them directly; `KeyMap` adds the order to the type, so that equal maps
  are equal values.
-/
namespace GatewayStore

namespace Assoc

variable {α β : Type}

/-- The keys strictly ascend. -/
def Sorted (l : List (String × α)) : Prop := l.Pairwise (fun a b => a.1 < b.1)

/-- The value at a key. -/
def get? (k : String) : List (String × α) → Option α
  | [] => none
  | (k', v) :: rest => if k = k' then some v else get? k rest

/-- Sets the value at a key, keeping the order. -/
def insert (k : String) (v : α) : List (String × α) → List (String × α)
  | [] => [(k, v)]
  | (k', v') :: rest =>
    if k = k' then (k, v) :: rest
    else if k < k' then (k, v) :: (k', v') :: rest
    else (k', v') :: insert k v rest

/-- Removes a key. -/
def erase (k : String) : List (String × α) → List (String × α)
  | [] => []
  | (k', v') :: rest => if k = k' then rest else (k', v') :: erase k rest

/-- The map of a list of pairs, in which a later pair wins. -/
def ofPairs (l : List (String × α)) : List (String × α) :=
  l.foldl (fun m e => insert e.1 e.2 m) []

theorem sorted_nil : Sorted ([] : List (String × α)) := List.Pairwise.nil

theorem sorted_cons_iff {e : String × α} {l : List (String × α)} :
    Sorted (e :: l) ↔ (∀ x ∈ l, e.1 < x.1) ∧ Sorted l := List.pairwise_cons

theorem lt_of_ne_of_not_lt {a b : String} (hne : a ≠ b) (h : ¬ a < b) : b < a := by
  rcases Std.lt_trichotomy a b with h' | h' | h'
  · exact absurd h' h
  · exact absurd h' hne
  · exact h'

theorem mem_insert {k : String} {v : α} {l : List (String × α)} {x : String × α}
    (h : x ∈ insert k v l) : x = (k, v) ∨ x ∈ l := by
  induction l with
  | nil => simpa [insert] using h
  | cons e l ih =>
    obtain ⟨k', v'⟩ := e
    unfold insert at h
    split at h
    · rcases List.mem_cons.1 h with h | h
      · exact .inl h
      · exact .inr (List.mem_cons_of_mem _ h)
    · split at h
      · exact List.mem_cons.1 h
      · rcases List.mem_cons.1 h with h | h
        · exact .inr (h ▸ List.mem_cons_self)
        · exact (ih h).imp_right (List.mem_cons_of_mem _)

theorem mem_of_mem_erase {k : String} {l : List (String × α)} {x : String × α}
    (h : x ∈ erase k l) : x ∈ l := by
  induction l with
  | nil => exact h
  | cons e l ih =>
    obtain ⟨k', v'⟩ := e
    unfold erase at h
    split at h
    · exact List.mem_cons_of_mem _ h
    · rcases List.mem_cons.1 h with h | h
      · exact h ▸ List.mem_cons_self
      · exact List.mem_cons_of_mem _ (ih h)

theorem Sorted.insert {l : List (String × α)} (h : Sorted l) (k : String) (v : α) :
    Sorted (insert k v l) := by
  induction l with
  | nil => exact List.pairwise_singleton _ _
  | cons e l ih =>
    obtain ⟨k', v'⟩ := e
    obtain ⟨hlt, hl⟩ := sorted_cons_iff.1 h
    unfold Assoc.insert
    split
    · next hk => exact sorted_cons_iff.2 ⟨fun x hx => hk ▸ hlt x hx, hl⟩
    · next hne =>
      split
      · next hk =>
        refine sorted_cons_iff.2 ⟨fun x hx => ?_, h⟩
        rcases List.mem_cons.1 hx with rfl | hx
        · exact hk
        · exact String.lt_trans hk (hlt x hx)
      · next hk =>
        refine sorted_cons_iff.2 ⟨fun x hx => ?_, ih hl⟩
        rcases mem_insert hx with rfl | hx
        · exact lt_of_ne_of_not_lt hne hk
        · exact hlt x hx

theorem Sorted.erase {l : List (String × α)} (h : Sorted l) (k : String) :
    Sorted (erase k l) := by
  induction l with
  | nil => exact h
  | cons e l ih =>
    obtain ⟨k', v'⟩ := e
    obtain ⟨hlt, hl⟩ := sorted_cons_iff.1 h
    unfold Assoc.erase
    split
    · exact hl
    · exact sorted_cons_iff.2 ⟨fun x hx => hlt x (mem_of_mem_erase hx), ih hl⟩

theorem sorted_foldl_insert {m : List (String × α)} (h : Sorted m) (l : List (String × α)) :
    Sorted (l.foldl (fun m e => insert e.1 e.2 m) m) := by
  induction l generalizing m with
  | nil => exact h
  | cons e l ih => exact ih (h.insert e.1 e.2)

theorem sorted_ofPairs (l : List (String × α)) : Sorted (ofPairs l) :=
  sorted_foldl_insert sorted_nil l

theorem get?_eq_none_of_lt {k : String} {l : List (String × α)} (h : ∀ x ∈ l, k < x.1) :
    get? k l = none := by
  induction l with
  | nil => rfl
  | cons e l ih =>
    obtain ⟨k', v'⟩ := e
    have hk : k < k' := h _ List.mem_cons_self
    have hne : k ≠ k' := fun he => String.lt_irrefl k' (he ▸ hk)
    rw [get?, if_neg hne]
    exact ih fun x hx => h x (List.mem_cons_of_mem _ hx)

theorem get?_insert (k k' : String) (v : α) (l : List (String × α)) :
    get? k' (insert k v l) = if k' = k then some v else get? k' l := by
  induction l with
  | nil => simp [insert, get?]
  | cons e l ih =>
    obtain ⟨k₁, v₁⟩ := e
    unfold insert
    split
    · next hk => subst hk; by_cases h : k' = k <;> simp [get?, h]
    · next hne =>
      split
      · simp [get?]
      · by_cases h₁ : k' = k₁
        · have : k' ≠ k := fun he => hne (he ▸ h₁)
          simp only [get?, if_pos h₁, if_neg this]
        · simp only [get?, if_neg h₁, ih]

theorem get?_erase {l : List (String × α)} (h : Sorted l) (k k' : String) :
    get? k' (erase k l) = if k' = k then none else get? k' l := by
  induction l with
  | nil => simp [erase, get?]
  | cons e l ih =>
    obtain ⟨k₁, v₁⟩ := e
    obtain ⟨hlt, hl⟩ := sorted_cons_iff.1 h
    unfold erase
    split
    · next hk =>
      subst hk
      by_cases h : k' = k
      · rw [if_pos h, h]; exact get?_eq_none_of_lt hlt
      · simp [get?, h]
    · next hne =>
      by_cases h₁ : k' = k₁
      · have : k' ≠ k := fun he => hne (he ▸ h₁)
        simp only [get?, if_pos h₁, if_neg this]
      · simp only [get?, if_neg h₁, ih hl]

theorem mem_of_get?_eq_some {k : String} {v : α} {l : List (String × α)}
    (h : get? k l = some v) : (k, v) ∈ l := by
  induction l with
  | nil => cases h
  | cons e l ih =>
    obtain ⟨k', v'⟩ := e
    unfold get? at h
    split at h
    · next hk => cases h; exact hk ▸ List.mem_cons_self
    · exact List.mem_cons_of_mem _ (ih h)

theorem get?_eq_some_of_mem {k : String} {v : α} {l : List (String × α)} (hs : Sorted l)
    (h : (k, v) ∈ l) : get? k l = some v := by
  induction l with
  | nil => cases h
  | cons e l ih =>
    obtain ⟨k', v'⟩ := e
    obtain ⟨hlt, hl⟩ := sorted_cons_iff.1 hs
    rcases List.mem_cons.1 h with h | h
    · cases h; simp [get?]
    · have hk : k' < k := hlt _ h
      have hne : k ≠ k' := fun he => String.lt_irrefl k' (he ▸ hk)
      rw [get?, if_neg hne]
      exact ih hl h

/-- Sorted lists with the same values are the same. -/
theorem ext {l m : List (String × α)} (hl : Sorted l) (hm : Sorted m)
    (h : ∀ k, get? k l = get? k m) : l = m := by
  induction l generalizing m with
  | nil =>
    cases m with
    | nil => rfl
    | cons e m => have := h e.1; simp [get?] at this
  | cons e l ih =>
    cases m with
    | nil => have := h e.1; simp [get?] at this
    | cons f m =>
      obtain ⟨ke, ve⟩ := e
      obtain ⟨kf, vf⟩ := f
      obtain ⟨hle, hl'⟩ := sorted_cons_iff.1 hl
      obtain ⟨hmf, hm'⟩ := sorted_cons_iff.1 hm
      have hkey : ke = kf := by
        have h₁ : (ke, ve) ∈ (kf, vf) :: m := mem_of_get?_eq_some ((h ke).symm.trans (by simp [get?]))
        have h₂ : (kf, vf) ∈ (ke, ve) :: l := mem_of_get?_eq_some ((h kf).trans (by simp [get?]))
        rcases List.mem_cons.1 h₁ with h₁ | h₁
        · exact congrArg Prod.fst h₁
        · rcases List.mem_cons.1 h₂ with h₂ | h₂
          · exact (congrArg Prod.fst h₂).symm
          · exact absurd (hmf _ h₁) (String.lt_asymm (hle _ h₂))
      subst hkey
      have hv : ve = vf := by have := h ke; simpa [get?] using this
      subst hv
      congr 1
      refine ih hl' hm' fun k => ?_
      by_cases hk : k = ke
      · subst hk
        rw [get?_eq_none_of_lt hle, get?_eq_none_of_lt hmf]
      · have := h k
        simpa [get?, hk] using this

theorem sorted_map {f : String × α → String × β} (hf : ∀ e, (f e).1 = e.1)
    {l : List (String × α)} (h : Sorted l) : Sorted (l.map f) := by
  unfold Sorted at *
  rw [List.pairwise_map]
  exact h.imp fun {a b} hab => by rw [hf a, hf b]; exact hab

end Assoc

/-- A map from text keys. -/
structure KeyMap (α : Type) where
  entries : List (String × α)
  sorted : Assoc.Sorted entries

namespace KeyMap

variable {α β : Type}

def empty : KeyMap α := ⟨[], Assoc.sorted_nil⟩

instance : Inhabited (KeyMap α) := ⟨empty⟩

def get? (m : KeyMap α) (k : String) : Option α := Assoc.get? k m.entries

def contains (m : KeyMap α) (k : String) : Bool := (m.get? k).isSome

def insert (m : KeyMap α) (k : String) (v : α) : KeyMap α :=
  ⟨Assoc.insert k v m.entries, m.sorted.insert k v⟩

def erase (m : KeyMap α) (k : String) : KeyMap α :=
  ⟨Assoc.erase k m.entries, m.sorted.erase k⟩

/-- The entries from a key on. -/
def entriesFrom (m : KeyMap α) (k : String) : List (String × α) :=
  m.entries.dropWhile fun e => e.1 < k

def filter (m : KeyMap α) (p : String → α → Bool) : KeyMap α :=
  ⟨m.entries.filter fun e => p e.1 e.2, m.sorted.filter _⟩

/-- The map of a list of pairs, in which a later pair wins. -/
def ofPairs (l : List (String × α)) : KeyMap α := ⟨Assoc.ofPairs l, Assoc.sorted_ofPairs l⟩

def size (m : KeyMap α) : Nat := m.entries.length

def values (m : KeyMap α) : List α := m.entries.map Prod.snd

@[ext]
theorem ext {m n : KeyMap α} (h : ∀ k, m.get? k = n.get? k) : m = n := by
  obtain ⟨l, hl⟩ := m
  obtain ⟨l', hl'⟩ := n
  cases Assoc.ext hl hl' h
  rfl

@[simp]
theorem get?_empty (k : String) : (empty : KeyMap α).get? k = none := rfl

@[simp]
theorem get?_insert (m : KeyMap α) (k k' : String) (v : α) :
    (m.insert k v).get? k' = if k' = k then some v else m.get? k' :=
  Assoc.get?_insert k k' v m.entries

@[simp]
theorem get?_erase (m : KeyMap α) (k k' : String) :
    (m.erase k).get? k' = if k' = k then none else m.get? k' :=
  Assoc.get?_erase m.sorted k k'

theorem erase_eq_self {m : KeyMap α} {k : String} (h : m.get? k = none) : m.erase k = m := by
  ext k' : 1
  rw [get?_erase]
  split
  · next heq => rw [heq, h]
  · rfl

theorem get?_eq_some_iff {m : KeyMap α} {k : String} {v : α} :
    m.get? k = some v ↔ (k, v) ∈ m.entries :=
  ⟨Assoc.mem_of_get?_eq_some, Assoc.get?_eq_some_of_mem m.sorted⟩

end KeyMap

end GatewayStore
