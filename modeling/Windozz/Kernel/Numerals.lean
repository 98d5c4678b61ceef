import Windozz.Basic.Bytes

set_option autoImplicit false

/-! # Numerals in strings

`copy_number` and `atoi`. A string is the list of its bytes without the terminator, and an `int` is
a word of 32 bits.
-/

namespace Windozz.Kernel

/-- `source[i] >= '0' && source[i] <= '9'`. -/
def isDigit (c : UInt8) : Bool := 48 ≤ c && c ≤ 57

/-- `copy_number`: what it copies. -/
def copyNumber (source : List UInt8) : List UInt8 := source.takeWhile isDigit

/-- A `char` as an `int`. -/
def charToInt (c : UInt8) : BitVec 32 := c.toBitVec.signExtend 32

/-- The loop of `atoi`, from the last character of a string backwards. -/
def atoiLoop : List UInt8 → BitVec 32 → BitVec 32 → BitVec 32
  | [], value, _ => value
  | c :: cs, value, multiplier =>
      atoiLoop cs (value + (charToInt c - charToInt 48) * multiplier) (multiplier * 10)

/-- `atoi`. -/
def atoi (str : List UInt8) : BitVec 32 :=
  if str.head? = some 45 then -(atoiLoop str.tail.reverse 0 1) else atoiLoop str.reverse 0 1

end Windozz.Kernel
