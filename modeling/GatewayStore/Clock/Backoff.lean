/-
  Waiting times between attempts: they double from an initial one up to a greatest one, and start
  over after a success. There is no limit on the number of attempts.
-/
import GatewayStore.Number.Power

namespace GatewayStore

/-- A length of time. -/
structure Duration where
  nanos : Nat
deriving DecidableEq

namespace Duration

def ofMillis (ms : Nat) : Duration := ⟨ms * 1000000⟩

/-- The whole milliseconds. -/
def millis (d : Duration) : Nat := d.nanos / 1000000

@[simp]
theorem millis_ofMillis (ms : Nat) : (ofMillis ms).millis = ms := by
  simp [ofMillis, millis]

end Duration

/-- The state of a backoff; `attempts` counts the waiting times since the last success. -/
structure Backoff where
  initial : Duration
  greatest : Duration
  attempts : Nat
deriving DecidableEq

namespace Backoff

/-- The doubling stops after this many attempts. -/
def maxDoublings : Nat := 31

/-- The count of attempts stays here. -/
def maxAttempts : Nat := 2 ^ 32 - 1

/-- The longest waiting time in milliseconds. -/
def maxDelay : Nat := 2 ^ 64 - 1

/-- A backoff that has handed out no waiting time; the greatest is at least the initial one. -/
def ofBounds (initial greatest : Duration) : Backoff :=
  ⟨initial, ⟨max initial.nanos greatest.nanos⟩, 0⟩

/-- The waiting time before the next attempt in milliseconds. -/
def delay (b : Backoff) : Nat :=
  if b.initial.nanos = 0 then 0
  else min (min (b.initial.millis * 2 ^ min b.attempts maxDoublings) b.greatest.millis) maxDelay

/-- The state after a waiting time. -/
def advance (b : Backoff) : Backoff := { b with attempts := min (b.attempts + 1) maxAttempts }

/-- The state after a success. -/
def reset (b : Backoff) : Backoff := { b with attempts := 0 }

@[simp]
theorem attempts_reset (b : Backoff) : b.reset.attempts = 0 := rfl

end Backoff

end GatewayStore
