import StagedLoad.Decimal.Printer
import StagedLoad.Duration.Basic

/-!
# Short forms

How summaries for people write numbers and durations: few digits, and a unit that keeps
them short.

## Main definitions

* `Short.rate`, `Short.percent` — frequencies and shares.
* `Short.millis` — times in milliseconds.
* `Short.duration` — durations.
-/

namespace StagedLoad.Short

/-- What stands for a value that is not there. -/
def absent : String := "-"

/-- A frequency without places; what is not finite is none. -/
def rate (x : Float) : String := if Binary64.isFinite x then Binary64.fixed x 0 else "0"

/-- A time in milliseconds: seconds from a thousand on, microseconds below one. -/
def millis (ms : Float) : String :=
  if !Binary64.isFinite ms then absent
  else if 1000 ≤ ms then Binary64.fixed (ms / 1000) 2 ++ "s"
  else if 1 ≤ ms then Binary64.fixed ms 2 ++ "ms"
  else Binary64.fixed (ms * 1000) 0 ++ "us"

/-- A time in milliseconds, if there is one. -/
def millis? (ms : Option Float) : String := ms.elim absent millis

/-- A share in percent with two places, if there is one. -/
def percent (share : Option Float) : String :=
  share.elim absent fun x => Binary64.fixed (x * 100) 2 ++ "%"

/-- A number in two digits at least. -/
def twoDigits (n : Nat) : String := if n < 10 then "0" ++ toString n else toString n

/-- A duration: minutes and seconds, or whole seconds, or whole milliseconds. -/
def duration (d : Duration) : String :=
  let s := d.wholeSeconds
  if 60 ≤ s then toString (s / 60) ++ "m" ++ twoDigits (s % 60) ++ "s"
  else if 0 < s then toString s ++ "s"
  else toString d.wholeMillis ++ "ms"

end StagedLoad.Short
