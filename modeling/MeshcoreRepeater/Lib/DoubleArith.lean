import MeshcoreRepeater.Lib.Double

/-! # Arithmetic on C doubles

Sum, difference, product and quotient, each the exact result rounded once; `llround`, and
the conversions to integers. `Reading` is for claims that read a program's doubles as exact
numbers: the same expression, computed as C does or without rounding.

* `CDouble.add`, `CDouble.sub`, `CDouble.mul`, `CDouble.div`: the operations.
* `Reading`: one expression under two readings.
-/

namespace ByteLib

namespace CDouble

/-- The value of a finite double; 0 for the others. -/
def value : CDouble → ℚ
  | .fin q => q
  | _ => 0

/-- The sign bit. -/
def isNeg : CDouble → Bool
  | .fin q => q < 0
  | .negZero => true
  | .inf neg => neg
  | .nan neg => neg

def isZero : CDouble → Bool
  | .fin q => q = 0
  | .negZero => true
  | _ => false

/-- `a * b`. The sign of a NaN that an operation makes is not specified; here it is plus. -/
def mul : CDouble → CDouble → CDouble
  | .nan neg, _ => .nan neg
  | _, .nan neg => .nan neg
  | .inf neg, b => if b.isZero then .nan false else .inf (neg != b.isNeg)
  | a, .inf neg => if a.isZero then .nan false else .inf (a.isNeg != neg)
  | a, b => toDouble (a.isNeg != b.isNeg) |a.value * b.value|

/-- `a / b`. -/
def div : CDouble → CDouble → CDouble
  | .nan neg, _ => .nan neg
  | _, .nan neg => .nan neg
  | .inf _, .inf _ => .nan false
  | .inf neg, b => .inf (neg != b.isNeg)
  | a, .inf neg => .zero (a.isNeg != neg)
  | a, b =>
    if b.isZero then if a.isZero then .nan false else .inf (a.isNeg != b.isNeg)
    else toDouble (a.isNeg != b.isNeg) |a.value / b.value|

/-- `a + b`; a sum that cancels is plus zero. -/
def add : CDouble → CDouble → CDouble
  | .nan neg, _ => .nan neg
  | _, .nan neg => .nan neg
  | .inf neg, .inf neg' => if neg = neg' then .inf neg else .nan false
  | .inf neg, _ => .inf neg
  | _, .inf neg => .inf neg
  | .negZero, .negZero => .negZero
  | a, b => ofRat (a.value + b.value)

/-- `-a`. -/
def neg : CDouble → CDouble
  | .fin q => if q = 0 then .negZero else .fin (-q)
  | .negZero => .fin 0
  | .inf s => .inf !s
  | .nan s => .nan !s

/-- `a - b`. -/
def sub (a b : CDouble) : CDouble := a.add b.neg

/-- `llround`: to the nearest integer, a half away from zero. Not a number and the
infinities give no specified value; here it is 0. -/
def llround (d : CDouble) : Int :=
  if d.value < 0 then -⌊|d.value| + 1 / 2⌋ else ⌊d.value + 1 / 2⌋

/-- `(int)d`: towards zero. What C leaves open, an infinity or no number, is 0 here, and a number
that no `int` holds stays as it is. -/
def toInt (d : CDouble) : Int := if 0 ≤ d.value then ⌊d.value⌋ else ⌈d.value⌉

/-- Neither an infinity nor a NaN. -/
def isFinite : CDouble → Bool
  | .fin _ => true
  | .negZero => true
  | _ => false

/-- A NaN. -/
def isNan : CDouble → Bool
  | .nan _ => true
  | _ => false

/-- `(uint32_t)d`, which C defines for a truncated value in range. -/
def toU32 (d : CDouble) : UInt32 := UInt32.ofNat ⌊d.value⌋.toNat

/-- `a >= b`. -/
def ge (a b : CDouble) : Bool := b.lt a || a.eq b

/-- `a <= b`. -/
def le (a b : CDouble) : Bool := b.ge a

end CDouble

/-! ## Readings -/

/-- How the arithmetic of a program on finite doubles is read: each result rounded, as C
computes it, or exactly. -/
inductive Reading where
  | double
  | exact
deriving DecidableEq

namespace Reading

/-- `(double)n`. -/
def cast (R : Reading) (n : Nat) : ℚ :=
  match R with
  | .double => (CDouble.ofRat n).value
  | .exact => n

/-- `a + b`. -/
def add (R : Reading) (a b : ℚ) : ℚ :=
  match R with
  | .double => (CDouble.add (.fin a) (.fin b)).value
  | .exact => a + b

/-- `a - b`. -/
def sub (R : Reading) (a b : ℚ) : ℚ :=
  match R with
  | .double => (CDouble.sub (.fin a) (.fin b)).value
  | .exact => a - b

/-- `a * b`. -/
def mul (R : Reading) (a b : ℚ) : ℚ :=
  match R with
  | .double => (CDouble.mul (.fin a) (.fin b)).value
  | .exact => a * b

/-- `a / b`. -/
def div (R : Reading) (a b : ℚ) : ℚ :=
  match R with
  | .double => (CDouble.div (.fin a) (.fin b)).value
  | .exact => a / b

variable (a b : ℚ) (n : Nat)

@[simp] theorem exact_cast : Reading.exact.cast n = n := rfl
@[simp] theorem exact_add : Reading.exact.add a b = a + b := rfl
@[simp] theorem exact_sub : Reading.exact.sub a b = a - b := rfl
@[simp] theorem exact_mul : Reading.exact.mul a b = a * b := rfl
@[simp] theorem exact_div : Reading.exact.div a b = a / b := rfl

end Reading
end ByteLib
