import StagedLoad.Decimal.Shortest
import StagedLoad.Duration.Basic

/-!
# Durations in messages

A duration is written in the greatest of the units `s`, `ms`, `µs`, `ns` that it has
at least one of, exactly, with as many decimal places as it needs.

## Main definitions

* `Duration.render` — the text of a duration.
-/

namespace StagedLoad.Duration

/-- A number of nanoseconds counted in units of `unit` nanoseconds: the whole part, then a
point and the rest without zeros at its end, if there is a rest. -/
def renderIn (nanos unit : Nat) (places : Nat) : List Char :=
  let whole := Decimal.digitChars (nanos / unit)
  let rest := nanos % unit
  if rest = 0 then whole
  else
    let ds := Decimal.digitChars rest
    let padded := List.replicate (places - ds.length) '0' ++ ds
    whole ++ '.' :: (padded.reverse.dropWhile (· == '0')).reverse

/-- The text of a duration, such as `1.5s` or `10.001µs`. -/
def render (d : Duration) : String :=
  let n := d.nanos
  String.ofList <|
    if nanosPerSecond ≤ n then renderIn n nanosPerSecond 9 ++ ['s']
    else if nanosPerMilli ≤ n then renderIn n nanosPerMilli 6 ++ ['m', 's']
    else if 1000 ≤ n then renderIn n 1000 3 ++ ['µ', 's']
    else renderIn n 1 0 ++ ['n', 's']

end StagedLoad.Duration
