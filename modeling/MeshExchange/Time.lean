import MeshExchange.Text.Decimal

/-!
# Instants and durations

Time is counted in whole nanoseconds. An instant is the time since the start of a run; a duration
never is negative, so a difference stops at zero.

**Results.**
* `Duration.millis`, `Duration.micros`: durations from larger units;
* `Instant.since`: the time from one instant to another, zero if that lies ahead;
* `Duration.text`: a duration in its largest fitting unit, exact.
-/

namespace MeshExchange

/-- A length of time in nanoseconds. -/
abbrev Duration := Nat

/-- Nanoseconds since the start of a run. -/
abbrev Instant := Nat

namespace Duration

/-- Nanoseconds in a microsecond. -/
def microsecond : Duration := 1000

/-- Nanoseconds in a millisecond. -/
def millisecond : Duration := 1000000

/-- Nanoseconds in a second. -/
def second : Duration := 1000000000

/-- A number of microseconds. -/
def micros (n : Nat) : Duration := n * microsecond

/-- A number of milliseconds. -/
def millis (n : Nat) : Duration := n * millisecond

/-- A number of seconds. -/
def seconds (n : Nat) : Duration := n * second

/-- Whole microseconds in a duration. -/
def toMicros (d : Duration) : Nat := d / microsecond

/-- Whole milliseconds in a duration. -/
def toMillis (d : Duration) : Nat := d / millisecond

/-- The duration in seconds, or else the largest unit of which it holds at least one. -/
def text (d : Duration) : String :=
  let (places, unit) :=
    if second ≤ d then (9, "s")
    else if millisecond ≤ d then (6, "ms")
    else if microsecond ≤ d then (3, "µs")
    else (0, "ns")
  String.ofList (Decimal.point places d) ++ unit

end Duration

namespace Instant

/-- The time that has passed from `earlier` to `later`, zero if `earlier` lies ahead. -/
def since (later earlier : Instant) : Duration := later - earlier

end Instant

end MeshExchange
