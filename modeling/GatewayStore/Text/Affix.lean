/-
  Prefixes of texts. Keys are grouped by prefix, so the statements about kinds rest on these.
-/
namespace GatewayStore.Text

/-- What follows `p` in a list that starts with it. -/
def dropList? [DecidableEq α] : (p s : List α) → Option (List α)
  | [], s => some s
  | _ :: _, [] => none
  | a :: p, b :: s => if a = b then dropList? p s else none

theorem dropList?_eq_some_iff [DecidableEq α] {p s r : List α} :
    dropList? p s = some r ↔ s = p ++ r := by
  induction p generalizing s with
  | nil => simp [dropList?, eq_comm]
  | cons a p ih =>
    cases s with
    | nil => simp [dropList?]
    | cons b s =>
      by_cases h : a = b
      · simp [dropList?, h, ih]
      · simp [dropList?, h, Ne.symm h]

/-- What follows `p` in a text that starts with it. -/
def drop? (p s : String) : Option String := (dropList? p.toList s.toList).map String.ofList

/-- Whether `s` starts with `p`. -/
def startsWith (p s : String) : Bool := (drop? p s).isSome

theorem drop?_eq_some_iff {p s r : String} : drop? p s = some r ↔ s = p ++ r := by
  constructor
  · intro h
    obtain ⟨l, hl, rfl⟩ := Option.map_eq_some_iff.1 h
    rw [dropList?_eq_some_iff] at hl
    rw [← String.toList_inj]
    simp [hl]
  · rintro rfl
    have : dropList? p.toList (p.toList ++ r.toList) = some r.toList :=
      dropList?_eq_some_iff.2 rfl
    simp [drop?, this]

theorem startsWith_iff {p s : String} : startsWith p s = true ↔ ∃ r, s = p ++ r := by
  simp [startsWith, Option.isSome_iff_exists, drop?_eq_some_iff]

/-- The text without the slashes at its end. -/
def trimSlashes (s : String) : String :=
  String.ofList (s.toList.reverse.dropWhile (· == '/')).reverse

/-- Fills a text with blanks on the right to `width` characters. -/
def padRight (width : Nat) (s : String) : String :=
  s ++ String.ofList (List.replicate (width - s.length) ' ')

/-- Texts joined by a separator. -/
def join (separator : String) : List String → String
  | [] => ""
  | [s] => s
  | s :: rest => s ++ separator ++ join separator rest

end GatewayStore.Text
