import Arrowlet.Text.Bytes

/-!
# Integers on the command line

An integer is written with an optional sign and in one of four bases: binary after `0b`, octal after
`0o` or a leading `0`, hexadecimal after `0x`, decimal otherwise. Underscores may stand between
digits and after the sign of the base. The value has to fit into 64 bits with a sign.
-/

namespace Arrowlet

/-- Why a text is no integer. -/
inductive IntegerFault where
  /-- It is not written like one. -/
  | malformed
  /-- The value does not fit. -/
  | outOfRange
  deriving DecidableEq, Repr

/-- The fault in words. -/
def IntegerFault.message : IntegerFault → Bytes
  | malformed => "parse error"
  | outOfRange => "value out of range"

namespace Integer

/-- The least number that does not fit into 64 bits without a sign. -/
def unsignedLimit : Nat := 0x10000000000000000

/-- The least number that does not fit into 64 bits with a sign. -/
def signedLimit : Nat := 0x8000000000000000

/-- The separator that may stand between digits. -/
abbrev underscore : UInt8 := 0x5f

/-- The lower-case form of an ASCII letter. -/
def toLower (b : UInt8) : UInt8 := if 0x41 ≤ b && b ≤ 0x5a then b + 0x20 else b

/-- The value of a digit in the largest base that letters allow. -/
def digit? (b : UInt8) : Option Nat :=
  if Bytes.isDigit b then some (b.toNat - 0x30)
  else if Bytes.isLetter b then some ((toLower b).toNat - 0x61 + 10)
  else none

/-- The base that a letter after a leading zero announces. -/
def baseOfLetter? (b : UInt8) : Option Nat :=
  if toLower b = 0x62 then some 2
  else if toLower b = 0x6f then some 8
  else if toLower b = 0x78 then some 16
  else none

/-- The base of a numeral without its sign, the digits that count, and whether a separator may stand
before the first of them. -/
def split : Bytes → Nat × Bytes × Bool
  | 0x30 :: letter :: digit :: rest =>
    match baseOfLetter? letter with
    | some base => (base, digit :: rest, true)
    | none => (8, letter :: digit :: rest, true)
  | 0x30 :: rest => (8, rest, true)
  | numeral => (10, numeral, false)

/-- Reads digits onto a value, and stops at the first that is none or makes the value too large for
64 bits. -/
def readDigits (base : Nat) : Nat → Bytes → Except IntegerFault Nat
  | value, [] => .ok value
  | value, b :: rest =>
    if b = underscore then readDigits base value rest
    else
      match digit? b with
      | none => .error .malformed
      | some d =>
        if base ≤ d then .error .malformed
        else if unsignedLimit ≤ value * base + d then .error .outOfRange
        else readDigits base (value * base + d) rest

/-- Whether every separator stands after a digit and before one. -/
def separated (afterDigit : Bool) : Bytes → Bool
  | [] => afterDigit
  | b :: rest =>
    if b = underscore then afterDigit && separated false rest else separated true rest

/-- The value of a numeral without its sign. -/
def magnitude (numeral : Bytes) : Except IntegerFault Nat :=
  if numeral = [] then .error .malformed
  else do
    let (base, digits, afterDigit) := split numeral
    let value ← readDigits base 0 digits
    if digits.contains underscore && !separated afterDigit digits then .error .malformed
    else return value

/-- The value of a numeral. -/
def parse (text : Bytes) : Except IntegerFault Int :=
  match text with
  | 0x2d :: numeral => do
    let value ← magnitude numeral
    if signedLimit < value then .error .outOfRange else return -Int.ofNat value
  | 0x2b :: numeral => positive numeral
  | numeral => positive numeral
where
  /-- The value of a numeral that has no minus sign. -/
  positive (numeral : Bytes) : Except IntegerFault Int := do
    let value ← magnitude numeral
    if signedLimit ≤ value then .error .outOfRange else return .ofNat value

end Integer

end Arrowlet
