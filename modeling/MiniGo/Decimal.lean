/-!
Decimal numbers as text, and the shortest decimal inside an interval.

A number is given exactly, as a ratio of natural numbers together with the interval of numbers
that round to it. `Decimal.shortest` walks decimal grids from coarse to fine and takes the first
grid with a point in the interval; on each grid only the two neighbours of the number can be the
nearest point.
-/

namespace MiniGo

structure Decimal where
  coefficient : Nat
  exponent : Int
deriving DecidableEq, Repr

namespace Decimal

/-- The numbers `low / den` to `high / den` around `num / den`; `closed` tells whether the two ends
belong to the interval. -/
structure Target where
  low : Nat
  num : Nat
  high : Nat
  den : Nat
  closed : Bool
deriving Repr

/-- `coefficient * 10 ^ exponent * den`, scaled together with `num` to natural numbers. -/
def scaled (decimal : Decimal) (num den : Nat) : Nat × Nat :=
  match decimal.exponent with
  | .ofNat up => (decimal.coefficient * Nat.pow 10 up * den, num)
  | .negSucc down => (decimal.coefficient * den, num * Nat.pow 10 (down + 1))

def Target.contains (target : Target) (decimal : Decimal) : Bool :=
  let below := decimal.scaled target.low target.den
  let above := decimal.scaled target.high target.den
  if target.closed then below.2 ≤ below.1 && above.1 ≤ above.2
  else below.2 < below.1 && above.1 < above.2

/-- Twice the distance from `num / den` to the lower neighbour reaches one step of the grid, so the
upper neighbour is at least as near. -/
def Target.nearerAbove (target : Target) (below : Decimal) : Bool :=
  let mark := (Decimal.mk (2 * below.coefficient + 1) below.exponent).scaled (2 * target.num) target.den
  mark.1 ≤ mark.2

/-- The largest point of the grid of step `10 ^ exponent` that is not above the number. -/
def Target.floor (target : Target) (exponent : Int) : Decimal :=
  match exponent with
  | .ofNat up => ⟨target.num / (target.den * Nat.pow 10 up), exponent⟩
  | .negSucc down => ⟨target.num * Nat.pow 10 (down + 1) / target.den, exponent⟩

/-- The point of one grid that represents the number, a tie going up. -/
def Target.onGrid? (target : Target) (exponent : Int) : Option Decimal :=
  let below := target.floor exponent
  let above : Decimal := ⟨below.coefficient + 1, exponent⟩
  match target.contains below, target.contains above with
  | true, true => some (if target.nearerAbove below then above else below)
  | true, false => some below
  | false, true => some above
  | false, false => none

/-- The first grid with a point in the interval, from the step `10 ^ exponent` down. -/
def Target.search (target : Target) (exponent : Int) : Nat → Decimal
  | 0 => target.floor exponent
  | grids + 1 =>
    match target.onGrid? exponent with
    | some decimal => decimal
    | none => target.search (exponent - 1) grids

/-- Number of decimal digits before the point, or minus the number of zeros after it. -/
def Target.magnitude (target : Target) : Int :=
  if target.den ≤ target.num then
    ((Nat.toDigits 10 (target.num / target.den)).length : Int)
  else leading target.num 400
where
  leading (num : Nat) : Nat → Int
    | 0 => 0
    | steps + 1 => if target.den ≤ num * 10 then 0 else leading (num * 10) steps - 1

def shortest (target : Target) : Decimal :=
  target.search (target.magnitude - 1) 17

/-- Positional text: no exponent, and a point only when there is a fraction. -/
def positional (decimal : Decimal) : String :=
  let digits := trim decimal.coefficient decimal.exponent 20
  place (Nat.toDigits 10 digits.1) digits.2
where
  trim (coefficient : Nat) (exponent : Int) : Nat → Nat × Int
    | 0 => (coefficient, exponent)
    | steps + 1 =>
      if coefficient % 10 == 0 && coefficient != 0 then trim (coefficient / 10) (exponent + 1) steps
      else (coefficient, exponent)
  place (digits : List Char) : Int → String
    | .ofNat zeros => String.ofList (digits ++ List.replicate zeros '0')
    | .negSucc down =>
      let places := down + 1
      if places < digits.length then
        String.ofList (digits.take (digits.length - places)) ++ "." ++
          String.ofList (digits.drop (digits.length - places))
      else
        "0." ++ String.ofList (List.replicate (places - digits.length) '0') ++ String.ofList digits

end Decimal

end MiniGo
