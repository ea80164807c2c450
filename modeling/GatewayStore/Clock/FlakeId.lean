/-
  Generated ids. An id is a number made of a millisecond, the node that generated it and a sequence
  number, so ids ascend by time of creation.
-/
import GatewayStore.Clock.Time
import GatewayStore.Text.Affix

namespace GatewayStore

/-- The generator's state: the last millisecond used and the last sequence number in it. -/
structure FlakeIds where
  node : Nat
  millisecond : Nat
  sequence : Nat
deriving DecidableEq

namespace FlakeIds

/-- The start of 2020; ids count milliseconds from here. -/
def epoch : Nat := 1577836800000

def nodeCount : Nat := 2 ^ 10

def maxSequence : Nat := 2 ^ 12 - 1

/-- A generator; of the node number the lower ten bits count. -/
def ofNode (node : Nat) : FlakeIds := ⟨node % nodeCount, 0, 0⟩

/-- The node where none is configured. -/
def defaultNode : Nat := 1

/-- The generator after one more id in a millisecond as the clock shows it. A clock that stands
still or goes back leaves the millisecond, and one whose numbers are used up is followed by the
next. -/
def advanceTo (g : FlakeIds) (millisecond : Nat) : FlakeIds :=
  if g.millisecond < millisecond then { g with millisecond := millisecond, sequence := 0 }
  else if maxSequence ≤ g.sequence then { g with millisecond := g.millisecond + 1, sequence := 0 }
  else { g with sequence := g.sequence + 1 }

/-- The generator after one more id. -/
def advance (g : FlakeIds) (now : WallTime) : FlakeIds := g.advanceTo (now.unixMillis - epoch)

/-- The number of the current id, a word of 64 bits. -/
def number (g : FlakeIds) : Nat :=
  g.millisecond * 2 ^ 22 % 2 ^ 64 + g.node * 2 ^ 12 + g.sequence

/-- The current id as a text. -/
def text (g : FlakeIds) : String := toString g.number

/-- The generator never goes back. -/
theorem advanceTo_lex (g : FlakeIds) (millisecond : Nat) :
    g.millisecond < (g.advanceTo millisecond).millisecond ∨
      g.millisecond = (g.advanceTo millisecond).millisecond ∧
        g.sequence < (g.advanceTo millisecond).sequence := by
  unfold advanceTo
  split
  · left; assumption
  · split
    · left; exact Nat.lt_succ_self _
    · right; exact ⟨rfl, Nat.lt_succ_self _⟩

theorem sequence_advanceTo_le (g : FlakeIds) (millisecond : Nat) :
    (g.advanceTo millisecond).sequence ≤ maxSequence := by
  unfold advanceTo
  split
  · exact Nat.zero_le _
  · split
    · exact Nat.zero_le _
    · next hs => exact Nat.lt_of_not_le hs

end FlakeIds

end GatewayStore
