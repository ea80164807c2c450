import GatewayStore.Text.Affix
import GatewayStore.Text.Bytes
import Mathlib.Tactic.SplitIfs

/-
  The order of keys. Texts are ordered by their characters, and their encodings by bytes. Both orders
  are the same (`Text.utf8_lt_utf8_iff`): where two texts first have different characters, their
  encodings first have different bytes, which are ordered like the characters
  (`Text.below_utf8EncodeChar`). So, too, a text starts with another one exactly if its bytes do
  (`Text.utf8_prefix_utf8_iff`). All that starts with a prefix stands together in the order
  (`prefix_of_le_of_lt`).
-/

namespace GatewayStore

/-! ## Lists in lexicographic order -/

section

variable {α : Type} [LT α]

/-- Both lists go on where they first differ, and the first list has less there. -/
def Below : List α → List α → Prop
  | a :: l, b :: m => a < b ∨ a = b ∧ Below l m
  | _, _ => False

variable {l m : List α}

theorem Below.append (h : Below l m) (l' m' : List α) : Below (l ++ l') (m ++ m') := by
  induction l generalizing m with
  | nil => exact h.elim
  | cons a l ih =>
    cases m with
    | nil => exact h.elim
    | cons b m => exact h.imp_right fun ⟨heq, h⟩ => ⟨heq, ih h⟩

theorem Below.lt (h : Below l m) : l < m := by
  induction l generalizing m with
  | nil => exact h.elim
  | cons a l ih =>
    cases m with
    | nil => exact h.elim
    | cons b m => exact List.cons_lt_cons_iff.2 (h.imp_right fun ⟨heq, h⟩ => ⟨heq, ih h⟩)

variable [Std.Asymm (α := α) (· < ·)]

theorem Below.apart (h : Below l m) : ¬ l <+: m ∧ ¬ m <+: l := by
  induction l generalizing m with
  | nil => exact h.elim
  | cons a l ih =>
    cases m with
    | nil => exact h.elim
    | cons b m =>
      rw [List.cons_prefix_cons, List.cons_prefix_cons]
      rcases h with h | ⟨-, h⟩
      · have hne : a ≠ b := fun he => Std.Asymm.asymm a b h (he ▸ h)
        exact ⟨fun hp => hne hp.1, fun hp => hne hp.1.symm⟩
      · exact ⟨fun hp => (ih h).1 hp.2, fun hp => (ih h).2 hp.2⟩

theorem append_lt_append_iff {p : List α} : p ++ l < p ++ m ↔ l < m := by
  induction p with
  | nil => rfl
  | cons a p ih => simp [ih]

theorem append_le_append_iff {p : List α} : p ++ l ≤ p ++ m ↔ l ≤ m :=
  not_congr append_lt_append_iff

variable [Std.Trichotomous (α := α) (· < ·)]

/-- What lies between a prefix and a list that starts with it starts with it as well. -/
theorem prefix_of_le_of_lt {p : List α} (hle : p ≤ l) (hlt : l < m) (h : p <+: m) : p <+: l := by
  induction p generalizing l m with
  | nil => exact List.nil_prefix
  | cons a p ih =>
    obtain ⟨m, rfl⟩ := h
    cases l with
    | nil => exact absurd (List.nil_lt_cons a p) hle
    | cons b l =>
      rw [List.cons_append, List.cons_lt_cons_iff] at hlt
      rw [List.cons_le_cons_iff] at hle
      have hab : a = b := by
        rcases hle with hle | ⟨heq, -⟩
        · rcases hlt with hlt | ⟨heq, -⟩
          · exact absurd hle (Std.Asymm.asymm _ _ hlt)
          · exact heq.symm
        · exact heq
      subst hab
      have hirrefl : ¬ a < a := Std.Irrefl.irrefl (r := (· < ·)) a
      have hle' : p ≤ l := (hle.resolve_left hirrefl).2
      have hlt' : l < p ++ m := (hlt.resolve_left hirrefl).2
      exact List.cons_prefix_cons.2 ⟨rfl, ih hle' hlt' (List.prefix_append p m)⟩

end

/-! ## Encodings letter by letter -/

section

variable {α β : Type} [LT α] [LT β] {f : β → List α} {l m : List β}

theorem flatMap_lt_flatMap (hne : ∀ b, f b ≠ []) (hf : ∀ a b, a < b → Below (f a) (f b))
    (h : l < m) : l.flatMap f < m.flatMap f := by
  induction l generalizing m with
  | nil =>
    cases m with
    | nil => exact absurd h (List.not_lt_nil _)
    | cons b m =>
      obtain ⟨a, l, hb⟩ := List.exists_cons_of_ne_nil (hne b)
      rw [List.flatMap_cons, hb]
      exact List.nil_lt_cons _ _
  | cons a l ih =>
    cases m with
    | nil => exact absurd h (List.not_lt_nil _)
    | cons b m =>
      rw [List.flatMap_cons, List.flatMap_cons]
      rcases List.cons_lt_cons_iff.1 h with hab | ⟨rfl, hlm⟩
      · exact ((hf a b hab).append _ _).lt
      · exact List.append_left_lt (ih hlm)

theorem flatMap_prefix_flatMap_iff [Std.Asymm (α := α) (· < ·)]
    [Std.Trichotomous (α := β) (· < ·)] (hne : ∀ b, f b ≠ [])
    (hf : ∀ a b, a < b → Below (f a) (f b)) : l.flatMap f <+: m.flatMap f ↔ l <+: m := by
  constructor
  · intro h
    induction l generalizing m with
    | nil => exact List.nil_prefix
    | cons a l ih =>
      cases m with
      | nil => exact absurd (List.append_eq_nil_iff.1 (List.prefix_nil.1 h)).1 (hne a)
      | cons b m =>
        rw [List.flatMap_cons, List.flatMap_cons] at h
        have hab : a = b := by
          rcases Std.Trichotomous.rel_or_eq_or_rel_swap (r := (· < ·)) (a := a) (b := b) with
            hlt | heq | hgt
          · exact absurd h ((hf a b hlt).append _ _).apart.1
          · exact heq
          · exact absurd h ((hf b a hgt).append _ _).apart.2
        subst hab
        exact List.cons_prefix_cons.2 ⟨rfl, ih ((List.prefix_append_right_inj _).1 h)⟩
  · rintro ⟨r, rfl⟩
    rw [List.flatMap_append]
    exact List.prefix_append _ _

end

namespace Text

theorem utf8_eq_flatMap (s : String) : utf8 s = s.toList.flatMap String.utf8EncodeChar := by
  have h : s.toUTF8 = s.toList.utf8Encode := String.utf8Encode_toList.symm
  rw [utf8, h, List.utf8Encode]
  simp

theorem utf8EncodeChar_ne_nil (c : Char) : String.utf8EncodeChar c ≠ [] := by
  unfold String.utf8EncodeChar
  dsimp only
  split_ifs <;> exact List.cons_ne_nil _ _

/-- Of two characters the one with the lower number has the lower encoding: if both have the same
length, by the first digit to the base 64 that differs, otherwise by the first byte. -/
theorem below_utf8EncodeChar (c d : Char) (h : c < d) :
    Below (String.utf8EncodeChar c) (String.utf8EncodeChar d) := by
  have hlt : c.val.toNat < d.val.toNat := h
  have hbound : d.val.toNat < 0x110000 := by
    rcases d.valid with hd | hd <;> omega
  have hdigits (n : Nat) : n / 64 / 64 = n / 4096 ∧ n / 4096 / 64 = n / 262144 := by
    rw [Nat.div_div_eq_div_mul, Nat.div_div_eq_div_mul]
    exact ⟨rfl, rfl⟩
  have hc := hdigits c.val.toNat
  have hd := hdigits d.val.toNat
  unfold String.utf8EncodeChar
  dsimp only
  split_ifs <;>
    simp (disch := omega) only [Below, UInt8.lt_iff_toNat_lt, ← UInt8.toNat_inj,
      UInt8.toNat_ofNat', Nat.mod_eq_of_lt] <;> omega

theorem utf8_lt_utf8 {s t : String} (h : s < t) : utf8 s < utf8 t := by
  rw [utf8_eq_flatMap, utf8_eq_flatMap]
  exact flatMap_lt_flatMap utf8EncodeChar_ne_nil below_utf8EncodeChar (String.lt_iff.1 h)

/-- Keys have the same order by characters and by bytes. -/
theorem utf8_lt_utf8_iff {s t : String} : utf8 s < utf8 t ↔ s < t := by
  refine ⟨fun h => ?_, utf8_lt_utf8⟩
  rcases Std.lt_trichotomy s t with hlt | rfl | hgt
  · exact hlt
  · exact absurd h (List.lt_irrefl _)
  · exact absurd h (List.lt_asymm (utf8_lt_utf8 hgt))

theorem startsWith_iff_toList {p s : String} : startsWith p s = true ↔ p.toList <+: s.toList := by
  rw [startsWith_iff]
  constructor
  · rintro ⟨r, rfl⟩
    rw [String.toList_append]
    exact List.prefix_append _ _
  · rintro ⟨r, hr⟩
    refine ⟨String.ofList r, String.toList_inj.1 ?_⟩
    rw [String.toList_append, String.toList_ofList, hr]

theorem not_lt_of_startsWith {p s : String} (h : startsWith p s = true) : ¬ s < p := by
  rw [String.lt_iff]
  exact (startsWith_iff_toList.1 h).le

/-- The texts that start with a prefix are not interrupted by others. -/
theorem startsWith_of_not_lt_of_lt {p s t : String} (hge : ¬ s < p) (hlt : s < t)
    (h : startsWith p t = true) : startsWith p s = true := by
  rw [String.lt_iff] at hge hlt
  rw [startsWith_iff_toList] at h ⊢
  exact prefix_of_le_of_lt (List.not_lt.1 hge) hlt h

/-- A text starts with another one exactly if its bytes do. -/
theorem utf8_prefix_utf8_iff {p s : String} : utf8 p <+: utf8 s ↔ startsWith p s = true := by
  rw [utf8_eq_flatMap, utf8_eq_flatMap, startsWith_iff_toList]
  exact flatMap_prefix_flatMap_iff utf8EncodeChar_ne_nil below_utf8EncodeChar

end Text

end GatewayStore
