/-
**Arithmetic of single-precision numbers.**

Geometry is computed in single precision: every operation rounds its exact result to the nearest
representable number, to the even one of two that are equally near.  The sign of zero is not kept:
nothing here divides by it.

Main definitions: `round32`, `add`, `neg`, `max`, `clamp`, `ceilU32`, `round`, `toU32`, `round64`,
`add64`, `mul64`, `sub64`, `div64`, `toSingle`.
-/

import Mathlib.Data.Rat.Floor
import Weld.ClientSurface

namespace Client.FloatValue

/-! ### Rounding -/

def powerOfTwo (e : ℤ) : ℚ :=
  if 0 ≤ e then ((2 ^ e.toNat : ℕ) : ℚ) else 1 / ((2 ^ (-e).toNat : ℕ) : ℚ)

/-- The place of the leading binary digit of a number that is not zero. -/
def exponent (q : ℚ) : ℤ :=
  let e := (q.num.natAbs.log2 : ℤ) - (q.den.log2 : ℤ)
  if powerOfTwo e ≤ |q| then e else e - 1

/-- The nearest integer, the even one of two. -/
def roundHalfEven (q : ℚ) : ℤ :=
  let below := ⌊q⌋
  let rest := q - below
  if rest < 1 / 2 then below
  else if 1 / 2 < rest then below + 1
  else if below % 2 = 0 then below else below + 1

/-- The nearest single-precision number: 24 binary digits, none of them below the smallest subnormal
number. -/
def round32 (q : ℚ) : FloatValue :=
  if q = 0 then finite 0
  else
    let unit := powerOfTwo (Max.max (exponent q) (-126) - 23)
    let rounded := roundHalfEven (q / unit) * unit
    if powerOfTwo 128 ≤ |rounded| then infinite (decide (q < 0)) else finite rounded

/-! ### Operations -/

def neg : FloatValue → FloatValue
  | finite q => finite (-q)
  | infinite negative => infinite (!negative)
  | nan => nan

def add : FloatValue → FloatValue → FloatValue
  | finite a, finite b => round32 (a + b)
  | infinite a, infinite b => if a = b then infinite a else nan
  | infinite a, finite _ => infinite a
  | finite _, infinite b => infinite b
  | nan, _ | _, nan => nan

def sub (a b : FloatValue) : FloatValue := a.add b.neg

/-- Less than; nothing is comparable to what is not a number. -/
def lt : FloatValue → FloatValue → Bool
  | finite a, finite b => decide (a < b)
  | infinite true, infinite false => true
  | infinite true, finite _ => true
  | finite _, infinite false => true
  | _, _ => false

/-- The larger one; what is not a number is ignored. -/
def max : FloatValue → FloatValue → FloatValue
  | nan, b => b
  | a, nan => a
  | a, b => if a.lt b then b else a

def clamp (a low high : FloatValue) : FloatValue :=
  let raised := if a.lt low then low else a
  if high.lt raised then high else raised

/-- Round up and convert to an unsigned integer of 32 bits, saturating. -/
def ceilU32 : FloatValue → ℕ
  | finite q => min ⌈q⌉.toNat (2 ^ 32 - 1)
  | infinite negative => if negative then 0 else 2 ^ 32 - 1
  | nan => 0

/-- The nearest integer, away from zero when two are equally near. -/
def round : FloatValue → FloatValue
  | finite q => finite (if q < 0 then -⌊-q + 1 / 2⌋ else ⌊q + 1 / 2⌋)
  | infinite negative => infinite negative
  | nan => nan

/-- Convert to an unsigned integer of 32 bits, saturating. -/
def toU32 : FloatValue → ℕ
  | finite q => min ⌊q⌋.toNat (2 ^ 32 - 1)
  | infinite negative => if negative then 0 else 2 ^ 32 - 1
  | nan => 0

/-- An unsigned integer of 32 bits as a single-precision number. -/
def ofU32 (n : ℕ) : FloatValue := round32 n

/-! ### Double precision -/

/-- The nearest double-precision number: 53 binary digits. -/
def round64 (q : ℚ) : FloatValue :=
  if q = 0 then finite 0
  else
    let unit := powerOfTwo (Max.max (exponent q) (-1022) - 52)
    let rounded := roundHalfEven (q / unit) * unit
    if powerOfTwo 1024 ≤ |rounded| then infinite (decide (q < 0)) else finite rounded

def add64 : FloatValue → FloatValue → FloatValue
  | finite a, finite b => round64 (a + b)
  | infinite a, infinite b => if a = b then infinite a else nan
  | infinite a, finite _ => infinite a
  | finite _, infinite b => infinite b
  | nan, _ | _, nan => nan

/-- Zero times infinity is not a number. -/
def mul64 : FloatValue → FloatValue → FloatValue
  | finite a, finite b => round64 (a * b)
  | infinite a, infinite b => infinite (a != b)
  | infinite a, finite b => if b = 0 then nan else infinite (a != decide (b < 0))
  | finite a, infinite b => if a = 0 then nan else infinite (b != decide (a < 0))
  | nan, _ | _, nan => nan

def sub64 (a b : FloatValue) : FloatValue := a.add64 b.neg

def div64 : FloatValue → FloatValue → FloatValue
  | finite a, finite b =>
      if b ≠ 0 then round64 (a / b) else if a = 0 then nan else infinite (decide (a < 0))
  | infinite a, finite b => infinite (a != decide (b < 0))
  | finite _, infinite _ => finite 0
  | infinite _, infinite _ => nan
  | nan, _ | _, nan => nan

/-- A double-precision number in single precision. -/
def toSingle : FloatValue → FloatValue
  | finite q => round32 q
  | value => value

/-! ### Comparing and converting -/

/-- Less than or equal. -/
def le (a b : FloatValue) : Bool := a.lt b || a.same b

/-- The smaller one; what is not a number is ignored. -/
def min : FloatValue → FloatValue → FloatValue
  | nan, b => b
  | a, nan => a
  | a, b => if b.lt a then b else a

/-- A signed integer of 32 bits as a single-precision number. -/
def ofI32 (n : ℤ) : FloatValue := round32 n

/-- Round up. -/
def ceil : FloatValue → FloatValue
  | finite q => finite ⌈q⌉
  | value => value

/-- Convert to a signed integer of 32 bits, towards zero and saturating. -/
def toI32 : FloatValue → ℤ
  | finite q => Max.max (-(2 ^ 31)) (Min.min (if q < 0 then ⌈q⌉ else ⌊q⌋) (2 ^ 31 - 1))
  | infinite negative => if negative then -(2 ^ 31) else 2 ^ 31 - 1
  | nan => 0

end Client.FloatValue
