/-
  Wall-clock readings in milliseconds since 1970, and the unix seconds that documents carry.
-/
import GatewayStore.Number.Power

namespace GatewayStore

/-- The least and the greatest signed number of 64 bits. -/
def minSeconds : Int := -2 ^ 63

def maxSeconds : Int := 2 ^ 63 - 1

/-- Unix seconds; the numbers outside the signed 64-bit range are cut to it. -/
def seconds (i : Int) : Int64 := Int64.ofInt (max minSeconds (min maxSeconds i))

theorem toInt_seconds (i : Int) : (seconds i).toInt = max minSeconds (min maxSeconds i) := by
  unfold seconds minSeconds maxSeconds
  rw [Int64.toInt_ofInt_of_le] <;> omega

/-- A reading of the wall clock. -/
structure WallTime where
  millis : Int
deriving DecidableEq

namespace WallTime

/-- Whole seconds, rounded down. -/
def unixSeconds (now : WallTime) : Int64 := seconds (Int.fdiv now.millis 1000)

/-- Milliseconds, with a time before 1970 read as zero. -/
def unixMillis (now : WallTime) : Nat := now.millis.toNat

end WallTime

/-- The update time of a document last updated at `previous`: the current second, but at least one
more than before. -/
def nextUpdateTime (now : WallTime) (previous : Int64) : Int64 :=
  let next := seconds (previous.toInt + 1)
  if now.unixSeconds ≤ next then next else now.unixSeconds

theorem previous_lt_nextUpdateTime {now : WallTime} {previous : Int64}
    (h : previous.toInt < maxSeconds) : previous.toInt < (nextUpdateTime now previous).toInt := by
  have hle := previous.le_toInt
  have hs : (seconds (previous.toInt + 1)).toInt = previous.toInt + 1 := by
    rw [toInt_seconds]
    unfold minSeconds maxSeconds at *
    omega
  unfold nextUpdateTime
  dsimp only
  split
  · omega
  · next hn =>
    rw [Int64.le_iff_toInt_le] at hn
    omega

end GatewayStore
