import GatewayStore.Proofs.Json.FloatText

/-
  What the reader gives. A value can be written and read again if its numbers are finite and it leaves
  room for the containers around it (`Printable`). The reader gives nothing else, and it gives the
  members of objects in order (`Parsed`), because each of its steps keeps this for everything in the
  open containers (`Reading.Fits`).
-/

namespace GatewayStore.Json

/-- A value with finite numbers and at most `room` containers in one another. -/
structure Printable (v : Json) (room : Nat) : Prop where
  numbers : v.EachNumber Number.Finite
  depth_le : v.depth ≤ room

/-- A value as the reader gives it inside of other containers. -/
structure Parsed (v : Json) (room : Nat) : Prop where
  printable : v.Printable room
  ordered : v.Ordered

/-! ## Containers -/

theorem eachElement_iff {p : Number → Prop} {l : List Json} :
    EachNumber.eachElement p l ↔ ∀ v ∈ l, v.EachNumber p := by
  induction l with
  | nil => simp [EachNumber.eachElement]
  | cons v l ih => simp [EachNumber.eachElement, ih]

theorem eachMember_iff {p : Number → Prop} {l : List (String × Json)} :
    EachNumber.eachMember p l ↔ ∀ e ∈ l, e.2.EachNumber p := by
  induction l with
  | nil => simp [EachNumber.eachMember]
  | cons e l ih =>
    obtain ⟨k, v⟩ := e
    simp [EachNumber.eachMember, ih]

theorem depths_le_iff {l : List Json} {n : Nat} :
    depth.depths l ≤ n ↔ ∀ v ∈ l, v.depth ≤ n := by
  induction l with
  | nil => simp [depth.depths]
  | cons v l ih => simp [depth.depths, ih]

theorem memberDepths_le_iff {l : List (String × Json)} {n : Nat} :
    depth.memberDepths l ≤ n ↔ ∀ e ∈ l, e.2.depth ≤ n := by
  induction l with
  | nil => simp [depth.memberDepths]
  | cons e l ih =>
    obtain ⟨k, v⟩ := e
    simp [depth.memberDepths, ih]

theorem printable_array (room : Nat) {l : List Json} :
    (Json.array l).Printable (room + 1) ↔ ∀ v ∈ l, v.Printable room := by
  constructor
  · rintro ⟨hnumbers, hdepth⟩ v hv
    rw [depth, Nat.add_le_add_iff_right] at hdepth
    exact ⟨eachElement_iff.1 hnumbers v hv, depths_le_iff.1 hdepth v hv⟩
  · intro h
    refine ⟨eachElement_iff.2 fun v hv => (h v hv).numbers, ?_⟩
    rw [depth, Nat.add_le_add_iff_right]
    exact depths_le_iff.2 fun v hv => (h v hv).depth_le

theorem printable_object (room : Nat) {l : List (String × Json)} :
    (Json.object l).Printable (room + 1) ↔ ∀ e ∈ l, e.2.Printable room := by
  constructor
  · rintro ⟨hnumbers, hdepth⟩ e he
    rw [depth, Nat.add_le_add_iff_right] at hdepth
    exact ⟨eachMember_iff.1 hnumbers e he, memberDepths_le_iff.1 hdepth e he⟩
  · intro h
    refine ⟨eachMember_iff.2 fun e he => (h e he).numbers, ?_⟩
    rw [depth, Nat.add_le_add_iff_right]
    exact memberDepths_le_iff.2 fun e he => (h e he).depth_le

theorem printable_string (s : String) (room : Nat) : (Json.string s).Printable room :=
  ⟨trivial, Nat.zero_le room⟩

theorem printable_ofInt64 (i : Int64) (room : Nat) : (ofInt64 i).Printable room :=
  ⟨trivial, Nat.zero_le room⟩

theorem orderedElements_iff {l : List Json} :
    Ordered.orderedElements l ↔ ∀ v ∈ l, v.Ordered := by
  induction l with
  | nil => simp [Ordered.orderedElements]
  | cons v l ih => simp [Ordered.orderedElements, ih]

theorem orderedMembers_iff {l : List (String × Json)} :
    Ordered.orderedMembers l ↔ ∀ e ∈ l, e.2.Ordered := by
  induction l with
  | nil => simp [Ordered.orderedMembers]
  | cons e l ih =>
    obtain ⟨k, v⟩ := e
    simp [Ordered.orderedMembers, ih]

theorem parsed_array (room : Nat) {l : List Json} (h : ∀ v ∈ l, v.Parsed room) :
    (Json.array l).Parsed (room + 1) :=
  ⟨(printable_array room).2 fun v hv => (h v hv).printable,
    orderedElements_iff.2 fun v hv => (h v hv).ordered⟩

theorem parsed_object (room : Nat) {l : List (String × Json)} (hsorted : Assoc.Sorted l)
    (h : ∀ e ∈ l, e.2.Parsed room) : (Json.object l).Parsed (room + 1) :=
  ⟨(printable_object room).2 fun e he => (h e he).printable,
    hsorted, orderedMembers_iff.2 fun e he => (h e he).ordered⟩

mutual

theorem EachNumber.imp {p q : Number → Prop} (h : ∀ n, p n → q n) :
    (v : Json) → v.EachNumber p → v.EachNumber q
  | .null, hv | .bool _, hv | .string _, hv => hv
  | .number n, hv => h n hv
  | .array l, hv => EachNumber.imp_element h l hv
  | .object l, hv => EachNumber.imp_member h l hv

theorem EachNumber.imp_element {p q : Number → Prop} (h : ∀ n, p n → q n) :
    (l : List Json) → EachNumber.eachElement p l → EachNumber.eachElement q l
  | [], hl => hl
  | v :: l, hl => ⟨EachNumber.imp h v hl.1, EachNumber.imp_element h l hl.2⟩

theorem EachNumber.imp_member {p q : Number → Prop} (h : ∀ n, p n → q n) :
    (l : List (String × Json)) → EachNumber.eachMember p l → EachNumber.eachMember q l
  | [], hl => hl
  | (_, v) :: l, hl => ⟨EachNumber.imp h v hl.1, EachNumber.imp_member h l hl.2⟩

end

/-- What is printed is read back. -/
theorem Printable.parse?_render {v : Json} (h : v.Printable Reading.maxDepth) :
    parse? v.render = some v.reread :=
  Json.parse?_render (h.numbers.imp fun _ => Number.readable_of_finite) h.depth_le

/-! ## The reader -/

/-- The values in an open container. -/
def Frame.values : Frame → List Json
  | .array elements => elements
  | .object members _ => members.map Prod.snd

/-- The members of an open object are in order. -/
def Frame.Sorted : Frame → Prop
  | .array _ => True
  | .object members _ => Assoc.Sorted members

namespace Reading

/-- An open container that has room for what it holds inside of `n` others. -/
structure Holds (f : Frame) (n : Nat) : Prop where
  length_lt : n < maxDepth
  values : ∀ v ∈ f.values, v.Parsed (maxDepth - (n + 1))
  sorted : f.Sorted

/-- The name of the next member does not matter. -/
theorem Holds.named {members : List (String × Json)} {old : String} {n : Nat}
    (h : Holds (.object members old) n) (name : String) : Holds (.object members name) n :=
  ⟨h.length_lt, h.values, h.sorted⟩

/-- Open containers of which each has room for what it holds, the innermost first. -/
def Fit : List Frame → Prop
  | [] => True
  | f :: around => Holds f around.length ∧ Fit around

/-- The open containers, the one that is being read included. -/
def frames : Reading → List Frame
  | .value around => around
  | .firstElement around => .array [] :: around
  | .afterElement elements around => .array elements :: around
  | .firstName around => .object [] "" :: around
  | .nextName members around => .object members "" :: around
  | .colon members name around => .object members name :: around
  | .afterMember members around => .object members "" :: around
  | .finished _ => []

/-- Everything that was read fits where it stands. -/
structure Fits (r : Reading) : Prop where
  frames : Fit r.frames
  finished : ∀ v, r = .finished v → v.Parsed maxDepth

theorem fits_of_fit {r : Reading} (h : Fit r.frames) (hr : ∀ v, r ≠ .finished v) : r.Fits :=
  ⟨h, fun v hv => absurd hv (hr v)⟩

theorem values_insert {name : String} {v w : Json} {members : List (String × Json)}
    (h : w ∈ (Assoc.insert name v members).map Prod.snd) : w = v ∨ w ∈ members.map Prod.snd := by
  obtain ⟨e, he, rfl⟩ := List.mem_map.1 h
  rcases Assoc.mem_insert he with rfl | he
  · exact .inl rfl
  · exact .inr (List.mem_map_of_mem he)

/-- A value that has room is delivered to its container. -/
theorem fits_deliver {v : Json} {around : List Frame} (h : Fit around)
    (hv : v.Parsed (maxDepth - around.length)) : (deliver v around).Fits := by
  cases around with
  | nil =>
    refine ⟨trivial, fun w hw => ?_⟩
    cases hw
    exact hv
  | cons f around =>
    obtain ⟨hf, haround⟩ := h
    cases f with
    | array elements =>
      refine fits_of_fit ⟨⟨hf.length_lt, fun w hw => ?_, trivial⟩, haround⟩ (by rintro _ ⟨⟩)
      rcases List.mem_cons.1 hw with rfl | hw
      · exact hv
      · exact hf.values w hw
    | object members name =>
      have hsorted : Assoc.Sorted members := hf.sorted
      refine fits_of_fit ⟨⟨hf.length_lt, fun w hw => ?_, hsorted.insert name v⟩, haround⟩
        (by rintro _ ⟨⟩)
      rcases values_insert hw with rfl | hw
      · exact hv
      · exact hf.values w hw

theorem parsed_closedArray {elements : List Json} {n : Nat} (h : Holds (.array elements) n) :
    (Json.array elements.reverse).Parsed (maxDepth - n) := by
  have hroom : maxDepth - n = maxDepth - (n + 1) + 1 := by have := h.length_lt; omega
  rw [hroom]
  exact parsed_array _ fun v hv => h.values v (List.mem_reverse.1 hv)

theorem parsed_closedObject {members : List (String × Json)} {name : String} {n : Nat}
    (h : Holds (.object members name) n) : (Json.object members).Parsed (maxDepth - n) := by
  have hroom : maxDepth - n = maxDepth - (n + 1) + 1 := by have := h.length_lt; omega
  rw [hroom]
  exact parsed_object _ h.sorted fun e he => h.values e.2 (List.mem_map_of_mem he)

theorem fits_startValue {around : List Frame} {t : Token} {r : Reading} (h : Fit around)
    (ht : ∀ n, t = .number n → n.Finite) (hr : startValue around t = some r) : r.Fits := by
  have hleaf {v : Json} (hnumbers : v.EachNumber Number.Finite) (hdepth : v.depth = 0)
      (hordered : v.Ordered) : (deliver v around).Fits :=
    fits_deliver h ⟨⟨hnumbers, hdepth ▸ Nat.zero_le _⟩, hordered⟩
  have hnew {f : Frame} (hlength : around.length < maxDepth) (hempty : f.values = [])
      (hsorted : f.Sorted) : Fit (f :: around) := ⟨⟨hlength, by simp [hempty], hsorted⟩, h⟩
  unfold startValue at hr
  split at hr
  · cases hr
    exact hleaf trivial rfl trivial
  · cases hr
    exact hleaf trivial rfl trivial
  · cases hr
    exact hleaf (ht _ rfl) rfl trivial
  · cases hr
    exact hleaf trivial rfl trivial
  · split at hr
    · next hlength =>
      cases hr
      exact fits_of_fit (hnew hlength rfl trivial) (by rintro _ ⟨⟩)
    · cases hr
  · split at hr
    · next hlength =>
      cases hr
      exact fits_of_fit (hnew hlength rfl Assoc.sorted_nil) (by rintro _ ⟨⟩)
    · cases hr
  · cases hr

/-- One token keeps what was read as it should be. -/
theorem Fits.step {r r' : Reading} {t : Token} (h : r.Fits) (ht : ∀ n, t = .number n → n.Finite)
    (hstep : r.step t = some r') : r'.Fits := by
  have hframes := h.frames
  unfold Reading.step at hstep
  split at hstep
  · exact fits_startValue hframes ht hstep
  · cases hstep
    exact fits_deliver hframes.2 (parsed_closedArray hframes.1)
  · exact fits_startValue hframes ht hstep
  · cases hstep
    exact fits_of_fit hframes (by rintro _ ⟨⟩)
  · cases hstep
    exact fits_deliver hframes.2 (parsed_closedArray hframes.1)
  · cases hstep
    exact fits_deliver hframes.2 (parsed_closedObject hframes.1)
  · cases hstep
    exact fits_of_fit ⟨hframes.1.named _, hframes.2⟩ (by rintro _ ⟨⟩)
  · cases hstep
    exact fits_of_fit ⟨hframes.1.named _, hframes.2⟩ (by rintro _ ⟨⟩)
  · cases hstep
    exact fits_of_fit hframes (by rintro _ ⟨⟩)
  · cases hstep
    exact fits_of_fit hframes (by rintro _ ⟨⟩)
  · cases hstep
    exact fits_deliver hframes.2 (parsed_closedObject hframes.1)
  · cases hstep

theorem Fits.run {r r' : Reading} {ts : List Token} (h : r.Fits)
    (hts : ∀ n, .number n ∈ ts → n.Finite) (hrun : r.run ts = some r') : r'.Fits := by
  induction ts generalizing r with
  | nil =>
    cases hrun
    exact h
  | cons t ts ih =>
    rw [run_cons] at hrun
    obtain ⟨next, hstep, hrun⟩ := Option.bind_eq_some_iff.1 hrun
    have hnext := h.step (fun n hn => hts n (hn ▸ List.mem_cons_self)) hstep
    exact ih hnext (fun n hn => hts n (List.mem_cons_of_mem t hn)) hrun

end Reading

/-- What is read from a text can be printed, and its members are in order. -/
theorem parsed_of_parse? {s : String} {v : Json} (h : parse? s = some v) :
    v.Parsed Reading.maxDepth := by
  unfold parse? at h
  obtain ⟨ts, hts, h⟩ := Option.bind_eq_some_iff.1 h
  obtain ⟨r, hrun, h⟩ := Option.bind_eq_some_iff.1 h
  have hstart : (Reading.value []).Fits := Reading.fits_of_fit trivial (by rintro _ ⟨⟩)
  have hfits := hstart.run (Token.finite_of_scanFrom hts) hrun
  split at h
  · cases h
    exact hfits.finished _ rfl
  · cases h

end GatewayStore.Json
