import InterfaceSchema.Text.Basic

/-!
# Nearest doubles and shortest numerals

A double is a whole number of at most 53 bits times a power of two. Every
ratio of whole numbers has a nearest double; if two are equally near, the one
with the even number is taken. In the other direction a double has a shortest
numeral that reads back as this double, found by looking at the neighbours of
its value among the decimal numbers of one digit, of two digits and so on.
All calculations are exact.
-/

namespace InterfaceSchema

/-- A ratio of two whole numbers, the second of them positive. -/
structure Ratio where
  num : Nat
  den : Nat
deriving DecidableEq, Repr

namespace Ratio

/-- A power with any whole exponent. -/
def power (base : Nat) (exponent : Int) : Ratio :=
  if 0 ≤ exponent then ⟨Nat.pow base exponent.toNat, 1⟩ else ⟨1, Nat.pow base (-exponent).toNat⟩

/-- The product. -/
def mul (a b : Ratio) : Ratio := ⟨a.num * b.num, a.den * b.den⟩

/-- The quotient. -/
def div (a b : Ratio) : Ratio := ⟨a.num * b.den, a.den * b.num⟩

/-- Whether the first is less than the second. -/
def less (a b : Ratio) : Bool := a.num * b.den < b.num * a.den

/-- The greatest whole number that is not greater. -/
def floor (a : Ratio) : Nat := a.num / a.den

/-- The nearest whole number; of two equally near ones the even one. -/
def round (a : Ratio) : Nat :=
  let below := a.num / a.den
  let twice := 2 * (a.num % a.den)
  if twice < a.den then below
  else if a.den < twice then below + 1
  else below + below % 2

end Ratio

/-- A finite double that is not negative. -/
structure Double where
  /-- Less than the 53rd power of two. -/
  mantissa : Nat
  /-- The exponent of the power of two, at least -1074. -/
  exponent : Int
deriving DecidableEq, Repr

namespace Double

/-- The least mantissa of 53 bits. -/
def fullMantissa : Nat := Nat.pow 2 52

/-- The exponent of the smallest doubles. -/
def leastExponent : Int := -1074

/-- The exponent of the greatest doubles. -/
def greatestExponent : Int := 971

/-- The value of a double. -/
def value (d : Double) : Ratio := (⟨d.mantissa, 1⟩ : Ratio).mul (Ratio.power 2 d.exponent)

/-- The exponent of the double nearest to a positive ratio. -/
def exponentFor (r : Ratio) : Int :=
  let guess : Int := (Nat.log2 r.num : Int) - (Nat.log2 r.den : Int) - 52
  let found := if (r.div (Ratio.power 2 guess)).less ⟨fullMantissa, 1⟩ then guess - 1 else guess
  max found leastExponent

/-- The double nearest to a ratio, unless it is too large for one. -/
def ofRatio? (r : Ratio) : Option Double :=
  if r.num = 0 then some ⟨0, leastExponent⟩
  else
    let exponent := exponentFor r
    let mantissa := (r.div (Ratio.power 2 exponent)).round
    let rounded : Double := if mantissa = 2 * fullMantissa then ⟨fullMantissa, exponent + 1⟩
      else ⟨mantissa, exponent⟩
    if rounded.exponent ≤ greatestExponent then some rounded else none

/-- The least exponent of ten whose power is greater than a positive
ratio. -/
def decimalPoint (r : Ratio) : Int :=
  if r.num < r.den then
    let count : Int := (Nat.toDigits 10 (r.den / r.num)).length
    if r.less (Ratio.power 10 (1 - count)) then 1 - count else 2 - count
  else (Nat.toDigits 10 r.floor).length

/-- Whether a ratio is nearer to the double than to any other double. -/
def covers (d : Double) (r : Ratio) : Bool :=
  let unit := Ratio.power 2 (d.exponent - 2)
  let below := if d.mantissa = fullMantissa ∧ leastExponent < d.exponent then 1 else 2
  let low := (⟨4 * d.mantissa - below, 1⟩ : Ratio).mul unit
  let high := (⟨4 * d.mantissa + 2, 1⟩ : Ratio).mul unit
  if d.mantissa % 2 = 0 then !r.less low && !high.less r else low.less r && r.less high

/-- The multiple of a power of ten that the double covers and that is nearest
to it, if it covers one. -/
def neighbour? (d : Double) (exponent : Int) : Option Nat :=
  let scaled := d.value.div (Ratio.power 10 exponent)
  let multiple (n : Nat) : Ratio := (⟨n, 1⟩ : Ratio).mul (Ratio.power 10 exponent)
  let below := scaled.floor
  match d.covers (multiple below), d.covers (multiple (below + 1)) with
  | true, true => some scaled.round
  | true, false => some below
  | false, true => some (below + 1)
  | false, false => none

/-- The first neighbour among numbers of `17 - left` digits, of one digit more
and so on. -/
def shortestFrom (d : Double) (point : Int) : Nat → Nat × Int
  | 0 => (d.value.div (Ratio.power 10 (point - 17)) |>.round, point - 17)
  | left + 1 =>
    let exponent := point - (17 - left : Nat)
    match d.neighbour? exponent with
    | some n => (n, exponent)
    | none => shortestFrom d point left

/-- A numeral: a point, then digits without zeros at either end, all of it
times a power of ten. -/
structure Numeral where
  /-- The digits, at least one. -/
  digits : Text
  /-- The exponent of the power of ten. -/
  point : Int
deriving DecidableEq, Repr

/-- The numeral of a whole number times a power of ten. -/
def Numeral.of (n : Nat) (exponent : Int) : Numeral :=
  let digits := Nat.toDigits 10 n
  let kept := (digits.reverse.dropWhile (· == '0')).reverse
  if kept.isEmpty then ⟨['0'], 1⟩ else ⟨kept, exponent + digits.length⟩

/-- The shortest numeral that stands for the double. -/
def shortest (d : Double) : Numeral :=
  if d.mantissa = 0 then Numeral.of 0 0
  else
    let (n, exponent) := d.shortestFrom (decimalPoint d.value) 17
    Numeral.of n exponent

/-- So many zeros. -/
def zeros (count : Nat) : Text := List.replicate count '0'

/-- The numeral with a point at its place and at least one digit after
it. -/
def Numeral.positional (numeral : Numeral) : Text :=
  let digits := numeral.digits
  if numeral.point ≤ 0 then "0." ++ (zeros (-numeral.point).toNat ++ digits)
  else
    let point := numeral.point.toNat
    if digits.length ≤ point then digits ++ (zeros (point - digits.length) ++ ".0".toList)
    else digits.take point ++ ('.' :: digits.drop point)

/-- The numeral with its point after the first digit, and an exponent with its
sign. -/
def Numeral.scientific (numeral : Numeral) : Text :=
  let exponent := numeral.point - 1
  let sign : Text := if exponent < 0 then "-" else "+"
  let more := numeral.digits.tail
  numeral.digits.take 1 ++ ((if more.isEmpty then [] else '.' :: more) ++
    ('e' :: (sign ++ Nat.toDigits 10 exponent.natAbs)))

end Double

end InterfaceSchema
