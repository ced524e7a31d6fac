/-!
# Decimal numerals

Writing a natural number in decimal, and reading one that has to fit a 32-bit
word.
-/
namespace GoTree.Text

/-- The decimal digits of `n`. -/
def digits (n : Nat) : List Char := Nat.toDigits 10 n

/-- The decimal text of `n`. -/
def numeral (n : Nat) : String := String.ofList (digits n)

/-- The number that a run of decimal digits stands for. -/
def digitsValue (cs : List Char) : Nat :=
  cs.foldl (fun n c => 10 * n + (c.toNat - '0'.toNat)) 0

/-- The rest of a numeral after its optional plus sign. -/
def unsigned : List Char → List Char
  | '+' :: cs => cs
  | cs => cs

/-- Reads an optional plus sign and at least one decimal digit. Leading zeros
are allowed; the value has to be below 2^32. -/
def readWord? (cs : List Char) : Option UInt32 :=
  let ds := unsigned cs
  if ds ≠ [] ∧ ds.all Char.isDigit ∧ digitsValue ds < UInt32.size then
    some (UInt32.ofNat (digitsValue ds))
  else none

end GoTree.Text
