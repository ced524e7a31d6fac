import GoTree.MethodSet.Command
/-!
# Command line

`main` prints the method set of the interface at the position `line:column`
given as its first argument.
-/

def main (args : List String) : IO UInt32 := do
  let outcome := GoTree.MethodSet.run args.head?
  IO.print outcome.out
  IO.eprint outcome.err
  return UInt32.ofNat outcome.code
