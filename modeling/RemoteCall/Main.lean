import RemoteCall.Demo

/-! The command line of the demonstration program. -/

def main (args : List String) : IO UInt32 := do
  let (code, printed) := RemoteCall.Demo.run {} args
  IO.print printed
  return UInt32.ofNat code
