import GatewayStore.Resource.Kind

/-
  The prefixes of kinds. No prefix of a kind starts with that of another one, so a key is under the
  prefix of at most one kind (`Kind.eq_of_startsWith`).
-/

namespace GatewayStore

/-- Of two prefixes of one text, one is a prefix of the other. -/
theorem Text.startsWith_or {a b s : String} (ha : startsWith a s = true)
    (hb : startsWith b s = true) : startsWith a b = true ∨ startsWith b a = true := by
  obtain ⟨r, rfl⟩ := startsWith_iff.1 ha
  obtain ⟨r', heq⟩ := startsWith_iff.1 hb
  rw [← String.toList_inj, String.toList_append, String.toList_append] at heq
  rcases List.append_eq_append_iff.1 heq with ⟨l, hl, -⟩ | ⟨l, hl, -⟩
  · left
    refine startsWith_iff.2 ⟨String.ofList l, ?_⟩
    rw [← String.toList_inj, String.toList_append, String.toList_ofList, hl]
  · right
    refine startsWith_iff.2 ⟨String.ofList l, ?_⟩
    rw [← String.toList_inj, String.toList_append, String.toList_ofList, hl]

theorem Text.startsWith_append (p a b : String) :
    startsWith (p ++ a) (p ++ b) = startsWith a b := by
  rw [Bool.eq_iff_iff, startsWith_iff, startsWith_iff]
  simp only [← String.toList_inj, String.toList_append, List.append_assoc,
    List.append_cancel_left_eq]

namespace Kind

theorem mem_all (kind : Kind) : kind ∈ all := by
  cases kind <;> decide

theorem keyPrefix_eq (kind : Kind) (root : String) :
    kind.keyPrefix root = Text.trimSlashes root ++ ("/" ++ kind.segment ++ "/") := by
  simp only [keyPrefix, String.append_assoc]

/-- A key is under the prefix of one kind at most. -/
theorem eq_of_startsWith {a b : Kind} {root key : String}
    (ha : Text.startsWith (a.keyPrefix root) key = true)
    (hb : Text.startsWith (b.keyPrefix root) key = true) : a = b := by
  have hsegments : ∀ a ∈ all, ∀ b ∈ all,
      Text.startsWith ("/" ++ a.segment ++ "/") ("/" ++ b.segment ++ "/") = true → a = b := by
    decide +kernel
  rw [keyPrefix_eq] at ha hb
  rcases Text.startsWith_or ha hb with h | h
  · rw [Text.startsWith_append] at h
    exact hsegments a a.mem_all b b.mem_all h
  · rw [Text.startsWith_append] at h
    exact (hsegments b b.mem_all a a.mem_all h).symm

end Kind

end GatewayStore
