import X86.CommandLine.Listing

/-! The command: machine code in hexadecimal on standard input, its listing on standard output. -/

namespace X86
namespace CommandLine

/-- Everything that can still be read from a stream. -/
partial def readToEnd (stream : IO.FS.Stream) (sofar : ByteArray) : IO ByteArray := do
  let chunk ← stream.read 65536
  if chunk.isEmpty then pure sofar else readToEnd stream (sofar ++ chunk)

/-- Print an outcome; the result is the exit status. -/
def Outcome.print (o : Outcome) : IO UInt32 := do
  IO.print o.stdout
  IO.eprint o.stderr
  pure (UInt32.ofNat o.status)

end CommandLine
end X86

def main (args : List String) : IO UInt32 := do
  match X86.CommandLine.prepare X86.CommandLine.Arguments.parse args with
  | .error outcome => outcome.print
  | .ok respond =>
    let input ← X86.CommandLine.readToEnd (← IO.getStdin) .empty
    (respond input.toList).print
