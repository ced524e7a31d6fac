/-!
# Log lines

What an operation reports while it runs: a level, a message, and named values.
-/
namespace GoTree.Log

inductive Level where
  | trace
  | debug
  deriving DecidableEq, Repr

def Level.name : Level → String
  | trace => "TRACE"
  | debug => "DEBUG"

structure Line where
  level : Level
  message : String
  values : List (String × String)
  deriving DecidableEq, Repr

/-- The line as `LEVEL message key=value …`. -/
def Line.text (l : Line) : String :=
  " ".intercalate (l.level.name :: l.message :: l.values.map fun v => v.1 ++ "=" ++ v.2)

/-- A truth value in a log line. -/
def bool (b : Bool) : String := if b then "true" else "false"

end GoTree.Log
