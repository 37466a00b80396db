import Typeahead.Server.Startup

/-! The command line. -/

open Typeahead in
/-- Prepares the server and says so. Notes go to standard error, because standard output carries the
protocol; the transport that carries it is not part of this library. -/
def main : IO Unit := do
  let debug ← IO.getEnv "DEBUG"
  (← IO.getStderr).putStr (Startup.notes (Startup.events debug false))
