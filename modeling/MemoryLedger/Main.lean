import MemoryLedger.Demo

/-!
# The tour as a program
-/

open MemoryLedger

def main : IO UInt32 := do
  let output := Demo.output Demo.regionAddress
  IO.print output.stdout
  IO.eprint output.stderr
  return output.status
