import FleetWatch.Config.Report

/-!
# The command line

Reads the configuration of a hub from a file and reports what follows from it.
-/
namespace FleetWatch

def usage : String := "usage: fleetwatch -f <config file>"

/-- The report on the configuration in a file, or what is wrong with it. -/
def reportOn (bytes : ByteArray) : Except String String :=
  match String.fromUTF8? bytes with
  | none => .error (Config.refusalHeading ++ "not valid text")
  | some text =>
    match Config.parse text with
    | .ok c => .ok c.report.print
    | .error .text => .error (Config.refusalHeading ++ "not JSON")
    | .error .shape => .error (Config.refusalHeading ++ "not of the expected shape")

end FleetWatch

/-- The program: exits with 1 when the configuration cannot be used, and with 2 when called
wrongly. -/
def main (args : List String) : IO UInt32 := do
  match args with
  | ["-f", path] =>
    match FleetWatch.reportOn (← IO.FS.readBinFile path) with
    | .ok report => IO.println report; return 0
    | .error complaint => IO.eprintln complaint; return 1
  | _ => IO.eprintln FleetWatch.usage; return 2
