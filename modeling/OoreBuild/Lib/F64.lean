import Mathlib

/-!
# Floating point numbers as rationals

A finite double is a rational number, so comparisons of doubles are comparisons of rationals and
an arithmetic operation is the exact one followed by rounding (`ofRat`). The not-a-number value
is neither below, above nor equal to any number, itself included. The sign of a zero is not kept:
no operation here shows it.
-/

/-- A double: a finite value, an infinity or not a number. -/
inductive F64 where
  | finite (value : ℚ)
  | infinite (negative : Bool)
  | nan
  deriving DecidableEq, Repr

namespace F64

def isFinite : F64 → Bool
  | finite _ => true
  | _ => false

/-! ## Comparisons -/

/-- `a < b`. -/
def lt : F64 → F64 → Bool
  | nan, _ | _, nan => false
  | finite a, finite b => a < b
  | infinite true, infinite true => false
  | infinite true, _ => true
  | _, infinite true => false
  | infinite false, _ => false
  | _, infinite false => true

/-- `a == b`, under which `nan` differs from itself. -/
def eq : F64 → F64 → Bool
  | nan, _ | _, nan => false
  | a, b => a = b

/-- `a <= b`. -/
def le (a b : F64) : Bool := lt a b || eq a b

theorem eq_self_of_isFinite {a : F64} (h : a.isFinite) : eq a a = true := by
  cases a with
  | finite q => exact decide_eq_true rfl
  | infinite negative => cases h
  | nan => cases h

/-! ## Rounding and arithmetic -/

/-- The integer nearest to a rational, a half rounded to the even one. -/
def roundEven (q : ℚ) : ℤ :=
  let low := ⌊q⌋
  if q - low < 1 / 2 then low
  else if 1 / 2 < q - low then low + 1
  else if low % 2 = 0 then low
  else low + 1

/-- The double nearest to a rational: 53 significant bits, exponents from -1022 to 1023. -/
def ofRat (q : ℚ) : F64 :=
  if q = 0 then finite 0
  else
    let unit : ℚ := 2 ^ (max (Int.log 2 |q|) (-1022) - 52)
    let value := roundEven (q / unit) * unit
    if |value| < 2 ^ 1024 then finite value else infinite (q < 0)

def neg : F64 → F64
  | finite a => finite (-a)
  | infinite negative => infinite !negative
  | nan => nan

def abs : F64 → F64
  | finite a => finite |a|
  | infinite _ => infinite false
  | nan => nan

def add : F64 → F64 → F64
  | nan, _ | _, nan => nan
  | finite a, finite b => ofRat (a + b)
  | infinite s, infinite t => if s = t then infinite s else nan
  | infinite s, finite _ | finite _, infinite s => infinite s

def sub (a b : F64) : F64 := add a (neg b)

/-- `a * b` for a positive finite `b`. -/
def mulPos (a : F64) (b : ℚ) : F64 :=
  match a with
  | finite a => ofRat (a * b)
  | a => a

/-- `a / b` for a positive finite `b`. -/
def divPos (a : F64) (b : ℚ) : F64 :=
  match a with
  | finite a => ofRat (a / b)
  | a => a

/-- The larger of two doubles, a number rather than `nan`. -/
def max (a b : F64) : F64 :=
  match a, b with
  | nan, b => b
  | a, nan => a
  | a, b => if lt a b then b else a

/-- The integer nearest to a rational, a half rounded away from zero. -/
def roundRat (q : ℚ) : ℤ := if 0 ≤ q then ⌊q + 1 / 2⌋ else -⌊-q + 1 / 2⌋

/-- `a.round()`. -/
def round : F64 → F64
  | finite a => finite (roundRat a)
  | a => a

/-- `a as i64`, saturating, with `nan` as zero. -/
def toI64 : F64 → ℤ
  | finite a => Max.max (-2 ^ 63) (Min.min (2 ^ 63 - 1) (if 0 ≤ a then ⌊a⌋ else ⌈a⌉))
  | infinite true => -2 ^ 63
  | infinite false => 2 ^ 63 - 1
  | nan => 0

end F64
