import MiniGo.Decimal
/-!
Double precision numbers, kept as their 64 bits so that a number survives storage bit for bit.
-/

namespace MiniGo

structure Double where
  bits : UInt64
deriving DecidableEq, Repr, Inhabited

namespace Double

def toFloat (x : Double) : Float := Float.ofBits x.bits

def ofFloat (x : Float) : Double := ⟨x.toBits⟩

def zero : Double := ⟨0⟩

def add (x y : Double) : Double := ofFloat (x.toFloat + y.toFloat)

def sub (x y : Double) : Double := ofFloat (x.toFloat - y.toFloat)

def mul (x y : Double) : Double := ofFloat (x.toFloat * y.toFloat)

def div (x y : Double) : Double := ofFloat (x.toFloat / y.toFloat)

def neg (x : Double) : Double := ⟨x.bits ^^^ 0x8000000000000000⟩

theorem neg_neg (x : Double) : x.neg.neg = x := by
  cases x
  simp only [neg, UInt64.xor_assoc, UInt64.xor_self, UInt64.xor_zero]

/-- Numeric equality: the two zeros are equal and a NaN equals nothing. -/
def equals (x y : Double) : Bool := x.toFloat == y.toFloat

def less (x y : Double) : Bool := x.toFloat < y.toFloat

def lessEq (x y : Double) : Bool := x.toFloat ≤ y.toFloat

def ofInt (n : Int64) : Double := ofFloat n.toFloat

/-- Drops the fraction; numbers out of range go to the nearest bound, a NaN to zero. -/
def toInt (x : Double) : Int64 := x.toFloat.toInt64

def isNegative (x : Double) : Bool := x.bits >>> 63 == 1

def exponentField (x : Double) : Nat := ((x.bits >>> 52) &&& 0x7ff).toNat

def fraction (x : Double) : Nat := (x.bits &&& 0xfffffffffffff).toNat

def isNaN (x : Double) : Bool := x.exponentField == 0x7ff && x.fraction != 0

/-- Magnitude of a finite double, with the numbers that round to it. The four quarter units below
the significand reach the neighbour below, which is nearer when the significand is a power of two. -/
def target (x : Double) : Decimal.Target :=
  let normal := x.exponentField != 0
  let significand := if normal then x.fraction + 0x10000000000000 else x.fraction
  let power : Int := if normal then (x.exponentField : Int) - 1075 else -1074
  let below := if x.fraction == 0 && 1 < x.exponentField then 1 else 2
  let up := Nat.pow 2 (power - 2).toNat
  { low := (4 * significand - below) * up
    num := 4 * significand * up
    high := (4 * significand + 2) * up
    den := Nat.pow 2 (2 - power).toNat
    closed := significand % 2 == 0 }

/-- The fewest digits that read back as the same number, always written positionally. -/
def text (x : Double) : String :=
  if x.exponentField == 0x7ff then
    if x.fraction != 0 then "NaN" else if x.isNegative then "-inf" else "inf"
  else
    let magnitude :=
      if x.exponentField == 0 && x.fraction == 0 then "0" else (Decimal.shortest x.target).positional
    if x.isNegative then "-" ++ magnitude else magnitude

end Double

end MiniGo
