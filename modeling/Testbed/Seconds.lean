/-! Milliseconds shown as seconds with two places. The number of seconds is first taken to the
nearest binary fraction of 53 digits, once for the count and once for the quotient, and that
fraction is then rounded to hundredths; ties go to the even neighbour each time. -/
namespace Testbed.Seconds

/-- The quotient rounded to a whole number, a half to the even neighbour. -/
def roundDiv (num den : Nat) : Nat :=
  let q := num / den
  let twice := 2 * (num % den)
  if twice < den then q
  else if den < twice then q + 1
  else if q % 2 = 0 then q else q + 1

/-- A fraction with a positive denominator. -/
structure Fraction where
  num : Nat
  den : Nat
deriving DecidableEq, Repr

/-- The fraction times a power of two, which may be a negative one. -/
def Fraction.scale (x : Fraction) (k : Int) : Fraction :=
  if 0 ≤ k then ⟨x.num <<< k.toNat, x.den⟩ else ⟨x.num, x.den <<< (-k).toNat⟩

/-- The power of two that takes a fraction to between `2 ^ 52` and `2 ^ 53`. -/
def binaryShift (x : Fraction) : Int :=
  let guess : Int := 52 - ((x.num.log2 : Int) - (x.den.log2 : Int))
  let y := x.scale guess
  if y.num / y.den < 1 <<< 52 then guess + 1
  else if 1 <<< 53 ≤ y.num / y.den then guess - 1
  else guess

/-- The nearest fraction with 53 binary digits. -/
def toBinary (x : Fraction) : Fraction :=
  if x.num = 0 then ⟨0, 1⟩
  else
    let k := binaryShift x
    let y := x.scale k
    (Fraction.mk (roundDiv y.num y.den) 1).scale (-k)

def hundredths (ms : Nat) : Nat :=
  let count := toBinary ⟨ms, 1⟩
  let seconds := toBinary ⟨count.num, count.den * 1000⟩
  roundDiv (seconds.num * 100) seconds.den

def twoDigits (n : Nat) : String := if n < 10 then s!"0{n}" else s!"{n}"

def render (ms : Nat) : String :=
  let h := hundredths ms
  s!"{h / 100}.{twoDigits (h % 100)}"

end Testbed.Seconds
