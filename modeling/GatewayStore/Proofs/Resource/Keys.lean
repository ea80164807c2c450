import GatewayStore.Resource.Rules

/-
  Well-formed keys. A key is checked by its bytes, but as the characters that it may have take one byte
  each, what is accepted are the texts of 1 to 64 such characters (`checkKey_eq_ok_iff`).
-/

namespace GatewayStore

/-- A key as it may be chosen. -/
structure IsKey (key : String) : Prop where
  length_pos : 1 ≤ key.length
  length_le : key.length ≤ 64
  chars : ∀ c ∈ key.toList, c.isAlphanum ∨ c = '-' ∨ c = '_' ∨ c = '.'

theorem isKeyChar_iff {c : Char} :
    isKeyChar c = true ↔ c.isAlphanum ∨ c = '-' ∨ c = '_' ∨ c = '.' := by
  simp [isKeyChar, or_assoc]

theorem utf8Size_of_isKeyChar {c : Char} (h : isKeyChar c = true) : c.utf8Size = 1 := by
  have hle : c.val ≤ 0x7f := by
    rcases isKeyChar_iff.1 h with h | rfl | rfl | rfl
    · have hcases : (c.isUpper || c.isLower || c.isDigit) = true := h
      rw [Bool.or_eq_true, Bool.or_eq_true] at hcases
      rcases hcases with (hupper | hlower) | hdigit
      · exact UInt32.le_trans (of_decide_eq_true hupper).2 (by decide)
      · exact UInt32.le_trans (of_decide_eq_true (Bool.and_eq_true_iff.1 hlower).2) (by decide)
      · exact UInt32.le_trans (of_decide_eq_true (Bool.and_eq_true_iff.1 hdigit).2) (by decide)
    all_goals decide
  simp [Char.utf8Size, hle]

/-- A text of key characters has one byte for each. -/
theorem utf8ByteSize_of_isKeyChar {s : String} (h : ∀ c ∈ s.toList, isKeyChar c = true) :
    s.utf8ByteSize = s.length := by
  induction s using String.push_induction with
  | empty => rfl
  | push s c ih =>
    rw [String.toList_push, List.forall_mem_append, List.forall_mem_singleton] at h
    rw [String.utf8ByteSize_push, String.length_push, ih h.1, utf8Size_of_isKeyChar h.2]

/-- The bytes that are counted are the characters, as other characters are refused. -/
theorem checkKey_eq_ok_iff {key : String} : checkKey key = .ok () ↔ IsKey key := by
  have hpos : key ≠ "" ↔ 1 ≤ key.length := by
    rw [Nat.one_le_iff_ne_zero, ne_eq, ne_eq, String.length_eq_zero_iff]
  have hsize (h : key.toList.all isKeyChar = true) : key.utf8ByteSize = key.length :=
    utf8ByteSize_of_isKeyChar (List.all_eq_true.1 h)
  unfold checkKey maxKeyLength
  constructor
  · intro h
    split at h
    · cases h
    · next hlength =>
      split at h
      · next hchars =>
        rw [not_or, Nat.not_lt, hsize hchars] at hlength
        exact ⟨hpos.1 hlength.1, hlength.2, fun c hc =>
          isKeyChar_iff.1 (List.all_eq_true.1 hchars c hc)⟩
      · cases h
  · rintro ⟨hne, hle, hchars⟩
    have hall : key.toList.all isKeyChar = true :=
      List.all_eq_true.2 fun c hc => isKeyChar_iff.2 (hchars c hc)
    rw [if_neg, if_pos hall]
    rw [not_or, Nat.not_lt, hsize hall]
    exact ⟨hpos.2 hne, hle⟩

end GatewayStore
