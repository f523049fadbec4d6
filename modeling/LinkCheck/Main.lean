import LinkCheck.CommandLine
import LinkCheck.FileTree.OpenedArchive

/-!
# The program

The files to check come from standard input as a zip archive without compression, and the paths among
the arguments are paths in that archive. Everything else is `CommandLine.run`.
-/

namespace LinkCheck

/-- Reads a stream to its end. -/
partial def readToEnd (stream : IO.FS.Stream) (sofar : ByteArray) : IO ByteArray := do
  let block ← stream.read 65536
  if block.isEmpty then return sofar else readToEnd stream (sofar ++ block)

end LinkCheck

/-- Checks the plugin that the arguments name and prints what is found. -/
def main (arguments : List String) : IO UInt32 := do
  let data ← LinkCheck.readToEnd (← IO.getStdin) .empty
  let outcome := LinkCheck.CommandLine.run (.ofArchiveBytes data.toList) arguments
  outcome.output.forM fun line => IO.println line
  return .ofNat outcome.exitCode
