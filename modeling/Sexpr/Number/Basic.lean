/-
Numbers: exact integers of 64 bits and doubles.

Integer arithmetic is exact or refused: a sum, difference or product outside
the 64-bit range is an overflow, and a quotient stays an integer when it is
exact and fits. As soon as one operand is a double, the operation is carried out
on doubles, and comparison likewise.
-/

namespace Sexpr

inductive Number where
  | int (value : Int64)
  | float (value : Float)

/-- The operations whose integer result may leave the range. -/
inductive Arithmetic where
  | addition
  | subtraction
  | multiplication
deriving Repr, DecidableEq

/-- Why an arithmetic operation has no result. -/
inductive ArithmeticFault where
  | overflow (operation : Arithmetic)
  | divisionByZero
deriving Repr, DecidableEq

def Arithmetic.describe : Arithmetic → String
  | .addition => "addition"
  | .subtraction => "subtraction"
  | .multiplication => "multiplication"

def ArithmeticFault.message : ArithmeticFault → String
  | .overflow operation => s!"integer overflow in {operation.describe}"
  | .divisionByZero => "division by zero"

/-- The integers of 64 bits go from `-wordBound` up to, but not including, it. -/
def wordBound : Int := 0x8000000000000000

/-- The integer as a machine word, if it lies in the 64-bit range. -/
def word? (n : Int) : Option Int64 :=
  if -wordBound ≤ n ∧ n < wordBound then some (Int64.ofInt n) else none

theorem word?_eq_some_iff {n : Int} {w : Int64} : word? n = some w ↔ w.toInt = n := by
  unfold word?
  constructor
  · intro h
    split at h
    · rename_i range
      cases h
      exact Int64.toInt_ofInt_of_le range.1 range.2
    · cases h
  · rintro rfl
    rw [if_pos ⟨Int64.le_toInt w, Int64.toInt_lt w⟩, Int64.ofInt_toInt]

theorem word?_eq_none_iff {n : Int} : word? n = none ↔ n < -wordBound ∨ wordBound ≤ n := by
  unfold word?
  split <;> simp <;> omega

namespace Number

def toFloat : Number → Float
  | .int n => Float.ofInt n.toInt
  | .float x => x

def isZero : Number → Bool
  | .int n => n == 0
  | .float x => x == 0

/-- An operation that is exact on integers, within the range, and otherwise
carried out on doubles. -/
def combine (operation : Arithmetic) (exact : Int → Int → Int) (rounded : Float → Float → Float) :
    Number → Number → Except ArithmeticFault Number
  | .int a, .int b =>
    match word? (exact a.toInt b.toInt) with
    | some n => .ok (.int n)
    | none => .error (.overflow operation)
  | a, b => .ok (.float (rounded a.toFloat b.toFloat))

def add : Number → Number → Except ArithmeticFault Number :=
  combine .addition (· + ·) (· + ·)

def sub : Number → Number → Except ArithmeticFault Number :=
  combine .subtraction (· - ·) (· - ·)

def mul : Number → Number → Except ArithmeticFault Number :=
  combine .multiplication (· * ·) (· * ·)

/-- The quotient of two integers, if it is an integer of 64 bits. -/
def exactQuotient? (a b : Int64) : Option Int64 :=
  if a.toInt.tmod b.toInt = 0 then word? (a.toInt.tdiv b.toInt) else none

/-- Division refuses a zero divisor, whether integer or double. -/
def div (a b : Number) : Except ArithmeticFault Number :=
  if b.isZero then .error .divisionByZero
  else
    match a, b with
    | .int m, .int n =>
      match exactQuotient? m n with
      | some q => .ok (.int q)
      | none => .ok (.float (a.toFloat / b.toFloat))
    | _, _ => .ok (.float (a.toFloat / b.toFloat))

/-- Equality of numbers: exact between integers, otherwise that of doubles. -/
def same : Number → Number → Bool
  | .int a, .int b => a == b
  | a, b => a.toFloat == b.toFloat

instance : BEq Number := ⟨same⟩

/-- Order of numbers. A double that is not a number is comparable to nothing. -/
def compare? : Number → Number → Option Ordering
  | .int a, .int b => some (compare a.toInt b.toInt)
  | a, b =>
    let x := a.toFloat
    let y := b.toFloat
    if x < y then some .lt
    else if y < x then some .gt
    else if x == y then some .eq
    else none

end Number

end Sexpr
