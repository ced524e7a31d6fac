import GoTree.MethodSet.Basic
import GoTree.MethodSet.Sample
import GoTree.Position.LineIndex
import GoTree.Position.Reader
/-!
# The command

Prints the method set of the interface declared at a position of the sample
file.
-/
namespace GoTree.MethodSet

/-- What a run of the command leaves: its exit code and what it printed. -/
structure Outcome where
  code : Nat
  out : String
  err : String
  deriving DecidableEq, Repr

/-- The position asked for when none is given. -/
def defaultPosition : Position := ⟨4, 5⟩

/-- A method on a line of its own. -/
def methodLine (m : List String × String) : String :=
  "  " ++ ", ".intercalate m.1 ++ ": " ++ m.2 ++ "\n"

/-- The outcome that shows a report. -/
def Report.outcome (wanted : Position) : Report → Outcome
  | missing => ⟨1, "", "no type declaration at " ++ wanted.text ++ "\n"⟩
  | other name tag =>
    ⟨1, "", name ++ " at " ++ wanted.text ++ " is a " ++ tag.name ++ ", not an interface\n"⟩
  | interface name copied methods text =>
    ⟨0, "interface " ++ name ++ " (" ++ Text.numeral copied ++ " nodes copied)\n" ++
      String.join (methods.map methodLine) ++ text ++ "\n", ""⟩

/-- The position that an argument asks for. -/
def wantedPosition : Option String → Except Position.ReadError Position
  | none => .ok defaultPosition
  | some arg => Position.read arg

/-- Runs the command with its first argument. Mirrors `main`. -/
def run (arg? : Option String) : Outcome :=
  match wantedPosition arg? with
  | .error e => ⟨1, "", "Error: " ++ e.record ++ "\n"⟩
  | .ok wanted =>
    let (file, store) := Sample.build Store.empty
    match report store (LineIndex.ofText Sample.source).resolve file.node wanted with
    | .error e => ⟨1, "", "Error: " ++ e.message ++ "\n"⟩
    | .ok r => r.outcome wanted

end GoTree.MethodSet
