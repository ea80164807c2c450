import GatewayStore.Proofs.Json.Parsed

/-
  Values that are too deep to be read. The reader takes everything before the deepest place as it
  should, and finds no room there for another container (`run_tokens_deep`). So a text that was
  printed is read back exactly if the value does not hold more containers in one another than the
  reader opens (`parse?_render_eq`). There are values of every depth (`nested`).
-/

namespace GatewayStore.Json

namespace Reading

theorem step_openArray_full {around : List Frame} (h : maxDepth ≤ around.length) :
    step (.value around) .openArray = none := by
  simp [step, startValue, h]

theorem step_openObject_full {around : List Frame} (h : maxDepth ≤ around.length) :
    step (.value around) .openObject = none := by
  simp [step, startValue, h]

mutual

theorem run_tokens_deep : (v : Json) → (around : List Frame) → (ts : List Token) →
    around.length ≤ maxDepth → maxDepth < v.depth + around.length →
    run (.value around) (v.tokens ++ ts) = none
  | .null, _, _, hle, h | .bool _, _, _, hle, h | .number _, _, _, hle, h
  | .string _, _, _, hle, h => by
    simp only [depth] at h
    omega
  | .array [], around, ts, _, h => by
    simp only [depth, depth.depths] at h
    simp only [tokens, List.cons_append, run_cons,
      step_openArray_full (show maxDepth ≤ around.length by omega), Option.bind_none]
  | .array (v :: rest), around, ts, _, h => by
    simp only [depth, depth.depths] at h
    by_cases hroom : around.length < maxDepth
    · simp only [tokens, List.cons_append, List.append_assoc, run_cons, step_openArray hroom,
        Option.bind_some]
      rw [run_firstElement]
      by_cases hv : v.depth + (around.length + 1) ≤ maxDepth
      · rw [run_tokens v (.array [] :: around) (tokenElements rest ++ ts) hv]
        exact run_tokenElements_deep rest around [v.reread] ts hroom (by omega)
      · exact run_tokens_deep v (.array [] :: around) (tokenElements rest ++ ts) hroom (by
          rw [List.length_cons]
          omega)
    · simp only [tokens, List.cons_append, run_cons, step_openArray_full (Nat.not_lt.1 hroom),
        Option.bind_none]
  | .object [], around, ts, _, h => by
    simp only [depth, depth.memberDepths] at h
    simp only [tokens, List.cons_append, run_cons,
      step_openObject_full (show maxDepth ≤ around.length by omega), Option.bind_none]
  | .object ((k, v) :: rest), around, ts, _, h => by
    simp only [depth, depth.memberDepths] at h
    by_cases hroom : around.length < maxDepth
    · simp only [tokens, List.cons_append, List.append_assoc, run_cons, step_openObject hroom,
        Option.bind_some]
      by_cases hv : v.depth + (around.length + 1) ≤ maxDepth
      · exact (run_tokens v (.object [] k :: around) (tokenMembers rest ++ ts) hv).trans
          (run_tokenMembers_deep rest around (Assoc.insert k v.reread []) ts hroom (by omega))
      · exact run_tokens_deep v (.object [] k :: around) (tokenMembers rest ++ ts) hroom (by
          rw [List.length_cons]
          omega)
    · simp only [tokens, List.cons_append, run_cons, step_openObject_full (Nat.not_lt.1 hroom),
        Option.bind_none]

theorem run_tokenElements_deep : (l : List Json) → (around : List Frame) →
    (elements : List Json) → (ts : List Token) → around.length < maxDepth →
    maxDepth ≤ depth.depths l + around.length →
    run (.afterElement elements around) (tokenElements l ++ ts) = none
  | [], _, _, _, hlt, h => by
    simp only [depth.depths] at h
    omega
  | v :: rest, around, elements, ts, hlt, h => by
    simp only [depth.depths] at h
    simp only [tokenElements, List.cons_append, List.append_assoc, run_cons]
    by_cases hv : v.depth + (around.length + 1) ≤ maxDepth
    · exact (run_tokens v (.array elements :: around) (tokenElements rest ++ ts) hv).trans
        (run_tokenElements_deep rest around (v.reread :: elements) ts hlt (by omega))
    · exact run_tokens_deep v (.array elements :: around) (tokenElements rest ++ ts) hlt (by
        rw [List.length_cons]
        omega)

theorem run_tokenMembers_deep : (l : List (String × Json)) → (around : List Frame) →
    (members : List (String × Json)) → (ts : List Token) → around.length < maxDepth →
    maxDepth ≤ depth.memberDepths l + around.length →
    run (.afterMember members around) (tokenMembers l ++ ts) = none
  | [], _, _, _, hlt, h => by
    simp only [depth.memberDepths] at h
    omega
  | (k, v) :: rest, around, members, ts, hlt, h => by
    simp only [depth.memberDepths] at h
    simp only [tokenMembers, List.cons_append, List.append_assoc, run_cons]
    by_cases hv : v.depth + (around.length + 1) ≤ maxDepth
    · exact (run_tokens v (.object members k :: around) (tokenMembers rest ++ ts) hv).trans
        (run_tokenMembers_deep rest around (Assoc.insert k v.reread members) ts hlt (by omega))
    · exact run_tokens_deep v (.object members k :: around) (tokenMembers rest ++ ts) hlt (by
        rw [List.length_cons]
        omega)

end

end Reading

/-- What is printed is read back, if it is not too deep. -/
theorem parse?_render_eq {v : Json} (h : v.EachNumber Number.Finite) :
    parse? v.render = if v.depth ≤ Reading.maxDepth then some v.reread else none := by
  split
  · next hdepth => exact Printable.parse?_render ⟨h, hdepth⟩
  · next hdepth =>
    have hnumbers := h.imp fun _ => Number.readable_of_finite
    have hscan := (scans_text v hnumbers (s := []) (fun c hc => by cases hc) .done).scan_eq
    have hrun := Reading.run_tokens_deep v [] [] (Nat.zero_le _) (Nat.not_le.1 hdepth)
    rw [List.append_nil] at hscan
    unfold parse? render
    rw [String.toList_ofList, hscan]
    simp only [Option.bind_eq_bind, Option.bind_some, hrun]
    rfl

/-- Arrays in one another. -/
def nested : Nat → Json
  | 0 => .null
  | n + 1 => .array [nested n]

theorem depth_nested (n : Nat) : (nested n).depth = n := by
  induction n with
  | zero => rfl
  | succ n ih => simp [nested, depth, depth.depths, ih]

theorem floatFree_nested (n : Nat) : (nested n).FloatFree := by
  induction n with
  | zero => trivial
  | succ n ih => exact ⟨ih, trivial⟩

theorem ordered_nested (n : Nat) : (nested n).Ordered := by
  induction n with
  | zero => trivial
  | succ n ih => exact ⟨ih, trivial⟩

end GatewayStore.Json
