import GatewayStore.Proofs.Json.Parsed
import GatewayStore.Proofs.KeyMap

/-
  Values that their text gives back. A float may be read as another one, and the reader puts members in
  order; a value without floats whose members are in order is read as itself (`reread_eq`).
-/

namespace GatewayStore.Json

mutual

/-- The numbers of a value without floats are integers. -/
theorem FloatFree.eachNumber {p : Number → Prop} (h : ∀ i fits, p (.integer i fits)) :
    (v : Json) → v.FloatFree → v.EachNumber p
  | .null, _ | .bool _, _ | .string _, _ => trivial
  | .number (.integer i fits), _ => h i fits
  | .array l, hv => FloatFree.eachElement h l hv
  | .object l, hv => FloatFree.eachMember h l hv

theorem FloatFree.eachElement {p : Number → Prop} (h : ∀ i fits, p (.integer i fits)) :
    (l : List Json) → FloatFree.floatFreeElements l → EachNumber.eachElement p l
  | [], _ => trivial
  | v :: l, hl => ⟨FloatFree.eachNumber h v hl.1, FloatFree.eachElement h l hl.2⟩

theorem FloatFree.eachMember {p : Number → Prop} (h : ∀ i fits, p (.integer i fits)) :
    (l : List (String × Json)) → FloatFree.floatFreeMembers l → EachNumber.eachMember p l
  | [], _ => trivial
  | (_, v) :: l, hl => ⟨FloatFree.eachNumber h v hl.1, FloatFree.eachMember h l hl.2⟩

end

theorem floatFreeMembers_iff {l : List (String × Json)} :
    FloatFree.floatFreeMembers l ↔ ∀ e ∈ l, e.2.FloatFree := by
  induction l with
  | nil => simp [FloatFree.floatFreeMembers]
  | cons e l ih =>
    obtain ⟨k, v⟩ := e
    simp [FloatFree.floatFreeMembers, ih]

theorem FloatFree.printable {v : Json} (h : v.FloatFree) {room : Nat} (hdepth : v.depth ≤ room) :
    v.Printable room :=
  ⟨h.eachNumber fun _ _ => trivial, hdepth⟩

mutual

theorem reread_eq : (v : Json) → v.Ordered → v.FloatFree → v.reread = v
  | .null, _, _ | .bool _, _, _ | .string _, _, _ => rfl
  | .number (.integer _ _), _, _ => rfl
  | .array l, ho, hf => congrArg Json.array (rereadElements_eq_self l ho hf)
  | .object l, ho, hf => by
    rw [reread, rereadMembers_eq_self l ho.2 hf, Assoc.ofPairs_eq_self ho.1]

theorem rereadElements_eq_self : (l : List Json) → Ordered.orderedElements l →
    FloatFree.floatFreeElements l → reread.rereadElements l = l
  | [], _, _ => rfl
  | v :: l, ho, hf => by
    rw [reread.rereadElements, reread_eq v ho.1 hf.1, rereadElements_eq_self l ho.2 hf.2]

theorem rereadMembers_eq_self : (l : List (String × Json)) → Ordered.orderedMembers l →
    FloatFree.floatFreeMembers l → reread.rereadMembers l = l
  | [], _, _ => rfl
  | (k, v) :: l, ho, hf => by
    rw [reread.rereadMembers, reread_eq v ho.1 hf.1, rereadMembers_eq_self l ho.2 hf.2]

end

end GatewayStore.Json
