import GoTree.Position.Basic
import GoTree.Text.Blank
import GoTree.Text.Quoted
/-!
# Reading positions

A position is read from `line:column` with blanks allowed around it. The line
is judged before the column, and a part that is a proper numeral but zero is
told apart from one that is no numeral.
-/
namespace GoTree.Position

/-- The two parts of a written position. -/
inductive Part where
  | line
  | column
  deriving DecidableEq, Repr

def Part.name : Part → String
  | .line => "line"
  | .column => "column"

/-- Why a text is not a position. Mirrors `ParsePositionError`. -/
inductive ReadError where
  | missingColon
  | invalidNumber (part : Part) (text : String)
  | zero (part : Part)
  deriving DecidableEq, Repr

namespace ReadError

/-- The sentence shown for an error. Mirrors the messages of `ParsePositionError`. -/
def message : ReadError → String
  | missingColon => "expected `line:column`"
  | invalidNumber part text => "invalid " ++ part.name ++ " `" ++ text ++ "`"
  | zero part => part.name ++ " must be at least 1"

/-- The error as a record of its cause, the form in which a program that ends
with it reports it. -/
def record : ReadError → String
  | missingColon => "MissingColon"
  | invalidNumber part text =>
    "InvalidNumber \x7b what: " ++ Text.quote part.name ++ ", text: " ++ Text.quote text ++ " \x7d"
  | zero part => "Zero \x7b what: " ++ Text.quote part.name ++ " \x7d"

end ReadError

/-- Reads one part: a 32-bit numeral that is not zero. Mirrors `parse_part`. -/
def readPart (part : Part) (cs : List Char) : Except ReadError UInt32 :=
  match Text.readWord? cs with
  | none => .error (.invalidNumber part (String.ofList cs))
  | some n => if n = 0 then .error (.zero part) else .ok n

/-- Splits at the first colon. -/
def splitColon : List Char → Option (List Char × List Char)
  | [] => none
  | c :: cs => if c = ':' then some ([], cs) else (splitColon cs).map fun p => (c :: p.1, p.2)

/-- Reads a position from a text. Mirrors `Position.from_str`. -/
def read (s : String) : Except ReadError Position :=
  match splitColon (Text.trim s.toList) with
  | none => .error .missingColon
  | some (l, c) => do
    let line ← readPart .line l
    let column ← readPart .column c
    return ⟨line, column⟩

end GoTree.Position
