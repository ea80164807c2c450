import GatewayStore.Clock.FlakeId

/-
  Generated ids are unique and ascend, whatever the clock shows. A millisecond has 4096 sequence
  numbers, so a generator is at some place in the row of all of them (`place`). Every id moves it
  forward there (`place_lt_advance`): by one place, or to the first one of the millisecond that the
  clock shows. So the generator is never behind the clock, and ahead of it by no more places than it
  has given ids (`place_after_le`). As long as its millisecond keeps to 42 bits, the number of an id
  falls into its three parts (`Fits.millisecond_number`), and numbers are in the order of their places
  (`number_lt_number`).
-/

namespace GatewayStore

namespace FlakeIds

/-- What the clock shows in milliseconds of ids; all times before their epoch are zero. -/
def reading (now : WallTime) : Nat := now.unixMillis - epoch

/-- The highest of some readings. -/
def highestReading (clocks : List WallTime) : Nat := (clocks.map reading).foldr max 0

/-- The generator after an id at each of some readings of the clock. -/
def after (g : FlakeIds) (clocks : List WallTime) : FlakeIds := clocks.foldl advance g

/-- The numbers of the ids that are drawn at some readings of the clock. -/
def numbers (g : FlakeIds) : List WallTime → List Nat
  | [] => []
  | now :: later => (g.advance now).number :: (g.advance now).numbers later

/-- How many sequence numbers of any millisecond come before the current one. -/
def place (g : FlakeIds) : Nat := g.millisecond * 4096 + g.sequence

/-- The node and the sequence number keep to their bits. -/
structure Fits (g : FlakeIds) : Prop where
  node_lt : g.node < 1024
  sequence_le : g.sequence ≤ 4095

variable {g g' : FlakeIds}

/-! ## One id -/

theorem advance_eq (g : FlakeIds) (now : WallTime) :
    g.advance now = g.advanceTo (reading now) := rfl

-- what follows is about readings; to open `advance` would be to count down from the epoch
attribute [local irreducible] advance

theorem fits_ofNode (node : Nat) : (ofNode node).Fits :=
  ⟨Nat.mod_lt _ (by decide), Nat.zero_le _⟩

theorem node_ofNode (node : Nat) : (ofNode node).node = node % 1024 := rfl

theorem node_advance (g : FlakeIds) (now : WallTime) : (g.advance now).node = g.node := by
  rw [advance_eq, advanceTo]
  split
  · rfl
  · split <;> rfl

theorem Fits.advance (h : g.Fits) (now : WallTime) : (g.advance now).Fits := by
  constructor
  · rw [node_advance]
    exact h.node_lt
  · rw [advance_eq]
    exact g.sequence_advanceTo_le _

theorem millisecond_le_advance (g : FlakeIds) (now : WallTime) :
    g.millisecond ≤ (g.advance now).millisecond := by
  rw [advance_eq]
  rcases g.advanceTo_lex (reading now) with hlt | ⟨heq, -⟩
  · exact Nat.le_of_lt hlt
  · exact Nat.le_of_eq heq

/-- A generator is never behind the clock. -/
theorem reading_le_advance (g : FlakeIds) (now : WallTime) :
    reading now ≤ (g.advance now).millisecond := by
  rw [advance_eq, advanceTo]
  split
  · exact Nat.le_refl _
  · next hnot =>
    have hle : reading now ≤ g.millisecond := Nat.not_lt.1 hnot
    split
    · exact Nat.le_succ_of_le hle
    · exact hle

theorem place_lt_advance (h : g.Fits) (now : WallTime) : g.place < (g.advance now).place := by
  have hsequence := h.sequence_le
  have hlex := g.advanceTo_lex (reading now)
  rw [advance_eq, place, place]
  omega

/-- An id takes the next place, or the first one of the millisecond that the clock shows. -/
theorem place_advance_le (h : g.Fits) (now : WallTime) :
    (g.advance now).place ≤ max (g.place + 1) (reading now * 4096) := by
  have hsequence := h.sequence_le
  rw [advance_eq]
  unfold advanceTo place maxSequence
  split
  · dsimp only
    omega
  · split <;> (dsimp only; omega)

/-! ## The number of an id -/

theorem Fits.millisecond_number (h : g.Fits) (hroom : g.millisecond < 2 ^ 42) :
    g.number / 2 ^ 22 = g.millisecond := by
  obtain ⟨hnode, hsequence⟩ := h
  unfold number
  omega

theorem Fits.node_number (h : g.Fits) : g.number / 2 ^ 12 % 1024 = g.node := by
  obtain ⟨hnode, hsequence⟩ := h
  unfold number
  omega

theorem Fits.sequence_number (h : g.Fits) : g.number % 2 ^ 12 = g.sequence := by
  obtain ⟨hnode, hsequence⟩ := h
  unfold number
  omega

/-- Numbers of one node are in the order of their places. -/
theorem number_lt_number (h : g.Fits) (h' : g'.Fits) (hnode : g'.node = g.node)
    (hplace : g.place < g'.place) (hroom : g'.millisecond < 2 ^ 42) : g.number < g'.number := by
  obtain ⟨hnode_lt, hsequence⟩ := h
  obtain ⟨-, hsequence'⟩ := h'
  unfold place at hplace
  unfold number
  omega

/-! ## Many ids -/

theorem after_nil (g : FlakeIds) : g.after [] = g := rfl

theorem after_cons (g : FlakeIds) (now : WallTime) (later : List WallTime) :
    g.after (now :: later) = (g.advance now).after later := rfl

theorem after_append (g : FlakeIds) (clocks clocks' : List WallTime) :
    g.after (clocks ++ clocks') = (g.after clocks).after clocks' :=
  List.foldl_append

theorem highestReading_cons (now : WallTime) (later : List WallTime) :
    highestReading (now :: later) = max (reading now) (highestReading later) := by
  unfold highestReading
  rw [List.map_cons, List.foldr_cons]

theorem numbers_cons (g : FlakeIds) (now : WallTime) (later : List WallTime) :
    g.numbers (now :: later) = (g.advance now).number :: (g.advance now).numbers later := rfl

theorem fits_after (h : g.Fits) (clocks : List WallTime) : (g.after clocks).Fits := by
  induction clocks generalizing g with
  | nil => exact h
  | cons now later ih =>
    rw [after_cons]
    exact ih (h.advance now)

theorem node_after (g : FlakeIds) (clocks : List WallTime) : (g.after clocks).node = g.node := by
  induction clocks generalizing g with
  | nil => rfl
  | cons now later ih => rw [after_cons, ih, node_advance]

theorem millisecond_le_after (g : FlakeIds) (clocks : List WallTime) :
    g.millisecond ≤ (g.after clocks).millisecond := by
  induction clocks generalizing g with
  | nil => exact Nat.le_refl _
  | cons now later ih =>
    rw [after_cons]
    exact Nat.le_trans (g.millisecond_le_advance now) (ih (g.advance now))

/-- A generator is ahead of the highest reading by at most a place for each id. -/
theorem place_after_le (h : g.Fits) (clocks : List WallTime) :
    (g.after clocks).place ≤ max g.place (highestReading clocks * 4096) + clocks.length := by
  induction clocks generalizing g with
  | nil => exact Nat.le_max_left _ _
  | cons now later ih =>
    have hfirst := place_advance_le h now
    have hlater := ih (h.advance now)
    rw [after_cons, highestReading_cons, List.length_cons]
    omega

theorem getElem?_numbers (g : FlakeIds) (clocks : List WallTime) (n : Nat) :
    (g.numbers clocks)[n]? = clocks[n]?.map fun _ => (g.after (clocks.take (n + 1))).number := by
  induction clocks generalizing g n with
  | nil => rfl
  | cons now later ih =>
    rw [numbers_cons, List.take_succ_cons, after_cons]
    cases n with
    | zero =>
      rw [List.getElem?_cons_zero, List.getElem?_cons_zero, Option.map_some, List.take_zero, after_nil]
    | succ n =>
      rw [List.getElem?_cons_succ, List.getElem?_cons_succ]
      exact ih (g.advance now) n

/-- All numbers have the node of their generator. -/
theorem node_of_mem_numbers (h : g.Fits) {clocks : List WallTime} {id : Nat}
    (hid : id ∈ g.numbers clocks) : id / 2 ^ 12 % 1024 = g.node := by
  induction clocks generalizing g with
  | nil => cases hid
  | cons now later ih =>
    rw [← g.node_advance now]
    rw [numbers_cons] at hid
    rcases List.mem_cons.1 hid with rfl | hid
    · exact (h.advance now).node_number
    · exact ih (h.advance now) hid

theorem number_lt_of_mem_numbers (h : g.Fits) {clocks : List WallTime}
    (hroom : (g.after clocks).millisecond < 2 ^ 42) {id : Nat} (hid : id ∈ g.numbers clocks) :
    g.number < id := by
  induction clocks generalizing g with
  | nil => cases hid
  | cons now later ih =>
    rw [numbers_cons] at hid
    rw [after_cons] at hroom
    have hnow : (g.advance now).millisecond < 2 ^ 42 :=
      Nat.lt_of_le_of_lt ((g.advance now).millisecond_le_after later) hroom
    have hlt : g.number < (g.advance now).number :=
      number_lt_number h (h.advance now) (g.node_advance now) (place_lt_advance h now) hnow
    rcases List.mem_cons.1 hid with rfl | hid
    · exact hlt
    · exact Nat.lt_trans hlt (ih (h.advance now) hroom hid)

theorem pairwise_numbers (h : g.Fits) {clocks : List WallTime}
    (hroom : (g.after clocks).millisecond < 2 ^ 42) : (g.numbers clocks).Pairwise (· < ·) := by
  induction clocks generalizing g with
  | nil => exact .nil
  | cons now later ih =>
    rw [after_cons] at hroom
    rw [numbers_cons]
    exact .cons (fun _ hid => number_lt_of_mem_numbers (h.advance now) hroom hid)
      (ih (h.advance now) hroom)

/-! ## The main result -/

theorem after_take_succ (g : FlakeIds) {clocks : List WallTime} {n : Nat} {now : WallTime}
    (h : clocks[n]? = some now) :
    g.after (clocks.take (n + 1)) = (g.after (clocks.take n)).advance now := by
  rw [List.take_add_one, h, Option.toList_some, after_append, after_cons, after_nil]

/-- More readings can only raise the millisecond. -/
theorem millisecond_after_take_le (g : FlakeIds) (clocks : List WallTime) (n : Nat) :
    (g.after (clocks.take n)).millisecond ≤ (g.after clocks).millisecond := by
  have hrest := (g.after (clocks.take n)).millisecond_le_after (clocks.drop n)
  rwa [← after_append, List.take_append_drop] at hrest

/-- A new generator is ahead of the highest reading by a millisecond for every 4096 ids. -/
theorem millisecond_after_ofNode_le (node : Nat) (clocks : List WallTime) :
    ((ofNode node).after clocks).millisecond ≤ highestReading clocks + clocks.length / 4096 := by
  have hstart : (ofNode node).place = 0 := by simp [place, ofNode]
  have hplace := place_after_le (fits_ofNode node) clocks
  rw [hstart, place] at hplace
  omega

/-- As long as the generator's millisecond keeps to 42 bits, its ids strictly ascend whatever the clock
shows, and each of them falls into the generator's millisecond, the lower ten bits of its node's number
and a sequence number. The millisecond is never behind the clock; after some ids it is ahead of the
highest reading by at most one millisecond for every 4096 of them. A generator with other lower ten bits
gives none of these ids. -/
theorem ids_ascend (node : Nat) (clocks : List WallTime)
    (hroom : ((ofNode node).after clocks).millisecond < 2 ^ 42) :
    ((ofNode node).numbers clocks).Pairwise (· < ·) ∧
    (∀ n now, clocks[n]? = some now →
      let g := (ofNode node).after (clocks.take (n + 1))
      ∃ id, ((ofNode node).numbers clocks)[n]? = some id ∧
        id / 2 ^ 22 = g.millisecond ∧ id / 2 ^ 12 % 1024 = node % 1024 ∧
        id % 2 ^ 12 = g.sequence ∧ g.sequence ≤ 4095 ∧ reading now ≤ g.millisecond ∧
        g.millisecond ≤ highestReading (clocks.take (n + 1)) + (n + 1) / 4096) ∧
    ∀ node' clocks', node' % 1024 ≠ node % 1024 →
      ∀ id ∈ (ofNode node).numbers clocks, id ∉ (ofNode node').numbers clocks' := by
  have hfits := fits_ofNode node
  refine ⟨pairwise_numbers hfits hroom, fun n now hnow => ?_, fun node' clocks' hne id hid hid' => ?_⟩
  · intro g
    have hg : g.Fits := fits_after hfits _
    have hnode : g.node = node % 1024 := (node_after (ofNode node) _).trans (node_ofNode node)
    have hbefore : g.millisecond < 2 ^ 42 :=
      Nat.lt_of_le_of_lt (millisecond_after_take_le _ clocks (n + 1)) hroom
    have hclock : reading now ≤ g.millisecond := by
      rw [show g = _ from after_take_succ _ hnow]
      exact reading_le_advance _ now
    have hahead := millisecond_after_ofNode_le node (clocks.take (n + 1))
    have hlength : (clocks.take (n + 1)).length = n + 1 :=
      List.length_take_of_le (List.getElem?_eq_some_iff.1 hnow).1
    rw [hlength] at hahead
    refine ⟨g.number, ?_, hg.millisecond_number hbefore, hnode ▸ hg.node_number, hg.sequence_number,
      hg.sequence_le, hclock, hahead⟩
    rw [getElem?_numbers, hnow, Option.map_some]
  · have hnode := node_of_mem_numbers hfits hid
    have hnode' := node_of_mem_numbers (fits_ofNode node') hid'
    exact hne (hnode'.symm.trans hnode)

/-- A clock that stands still, goes back to before the epoch, and goes on later than before. -/
def skewed : List WallTime := [⟨1577836800005⟩, ⟨1577836800005⟩, ⟨-1⟩, ⟨1577836800007⟩]

theorem ids_ascend_skewed :
    ((ofNode 1030).after skewed).millisecond = 7 ∧
      ((ofNode 1030).numbers skewed).Pairwise (· < ·) ∧
      (∃ id, ((ofNode 1030).numbers skewed)[2]? = some id ∧ id / 2 ^ 22 = 5 ∧
        id / 2 ^ 12 % 1024 = 6 ∧ id % 2 ^ 12 = 2) ∧
      ∀ id ∈ (ofNode 1030).numbers skewed, id ∉ (ofNode 7).numbers skewed := by
  have hlast : ((ofNode 1030).after skewed).millisecond = 7 := by decide +kernel
  have hthird : (ofNode 1030).after (skewed.take 3) = ⟨6, 5, 2⟩ := by decide +kernel
  obtain ⟨hascend, hparts, hother⟩ := ids_ascend 1030 skewed (by rw [hlast]; decide)
  obtain ⟨id, hid, hmillisecond, hnode, hsequence, -⟩ := hparts 2 ⟨-1⟩ rfl
  rw [hthird] at hmillisecond hsequence
  exact ⟨hlast, hascend, ⟨id, hid, hmillisecond, hnode, hsequence⟩, hother 7 skewed (by decide)⟩

end FlakeIds

end GatewayStore
