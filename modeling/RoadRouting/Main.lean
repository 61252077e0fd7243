import RoadRouting.CommandLine.Query
import RoadRouting.Json

namespace RoadRouting.CommandLine

def readTextFile (name : String) : IO FileContent := do
  match ← (IO.FS.Handle.mk name .read).toBaseIO with
  | .error _ => return .missing
  | .ok handle =>
    match ← handle.readBinToEnd.toBaseIO with
    | .error _ => return .unreadable
    | .ok bytes =>
      match String.fromUTF8? bytes with
      | some content => return .text content
      | none => return .unreadable

def failureText : Failure → String
  | .usage => "error: the arguments are not understood\n\nUSAGE:\n    <graph> <from> <to> [OPTIONS]"
  | .badArgument => "Error: an argument is not a number of the expected kind"
  | .failed message causes => "\n".intercalate (("Error: " ++ message) :: causes)

end RoadRouting.CommandLine

open RoadRouting

def main (arguments : List String) : IO UInt32 := do
  match ← (CommandLine.answer CommandLine.readTextFile arguments).run with
  | .ok report =>
    IO.println (Json.indented 0 (report.toJson Json.ofFloat))
    return 0
  | .error failure =>
    IO.eprintln (CommandLine.failureText failure)
    return 1
