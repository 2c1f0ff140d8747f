import Stencil.Command.Run

/-!
# The command line program

The program supplies a command with the contents of files. It runs the command with
the contents that it knows and, whenever other paths were opened, reads these and
runs the command again.
-/

namespace Stencil

/-- Reads a file as text. -/
def readFile (path : String) : IO FileText := do
  try
    let bytes ← IO.FS.readBinFile path
    return match String.fromUTF8? bytes with
      | some text => .found text
      | none => .failed
  catch
    | .noFileOrDirectory .. => return .missing
    | _ => return .failed

/-- Runs an invocation until it opens no path whose content is unknown. -/
partial def runWith (known : List (String × FileText)) (invocation : Invocation) : IO Exit := do
  let read (path : String) : FileText := (known.lookup path).getD .failed
  let (exit, opened) := Command.run read invocation
  match opened.filter fun path => (known.lookup path).isNone with
  | [] => return exit
  | unknown =>
    let contents ← unknown.mapM fun path => return (path, ← readFile path)
    runWith (contents ++ known) invocation

end Stencil

/-- The program. -/
def main (arguments : List String) : IO UInt32 := do
  let exit ← Stencil.runWith [] (Stencil.Arguments.read arguments)
  IO.print exit.out
  IO.eprint exit.err
  return exit.status.toUInt32
