import X86.CommandLine.Arguments
import X86.CommandLine.HexInput
import X86.Disassembler
import X86.Text.Translator

/-! The command: from arguments and input to output, messages and exit status. -/

namespace X86
namespace CommandLine

/-- Why a run produces no listing. -/
inductive Failure
  | misuse (m : Misuse)
  | input (f : InputFault)
  deriving DecidableEq

namespace Failure

def message : Failure → String
  | misuse m => m.message
  | input f => f.message

def cause? : Failure → Option String
  | misuse _ => none
  | input f => f.cause?

/-- The failure as it is reported, with its cause below. -/
def report (f : Failure) : String :=
  let cause :=
    match f.cause? with
    | some text => "\nCaused by:\n    " ++ text ++ "\n"
    | none => ""
  "Error: " ++ f.message ++ "\n" ++ cause

end Failure

def Arguments.translator (a : Arguments) : Text.Translator where
  dialect := if a.att then .att else .intel
  options := { address := !a.noAddress, binary := !a.noBinary }

/-- The lines for machine code in a mode. -/
def listing (a : Arguments) (mode : Mode) (code : List UInt8) : Except Misuse (List String) := do
  let d ← Disassembler.new (.ofArray code.toArray) {
    target := ⟨mode, a.vendor⟩
    address := a.address
    keepBytes := !a.noBinary }
  pure (d.disassemble.1.map fun (i, _) => a.translator.translate i)

/-- The lines for an input in a mode. -/
def lines (a : Arguments) (mode : Mode) (input : List UInt8) : Except Failure (List String) := do
  let code ← (readInput input).mapError .input
  (listing a mode code).mapError .misuse

structure Outcome where
  status : Nat
  stdout : String := ""
  stderr : String := ""
  deriving DecidableEq

def usage : String :=
  "Usage: x86dasm [OPTIONS] [MODE]\n"

def help : String :=
  "Disassemble hex-encoded x86 machine code read from stdin\n\n" ++ usage ++
    "\nArguments:\n" ++
    "  [MODE]  Processor mode in bits [default: 32]\n" ++
    "\nOptions:\n" ++
    "      --att                Use AT&T syntax instead of Intel\n" ++
    "      --no-address         Omit the address column\n" ++
    "      --no-binary          Omit the instruction bytes column\n" ++
    "      --vendor <VENDOR>    Restrict vendor-specific instructions [default: any] " ++
    "[possible values: any, amd, intel]\n" ++
    "  -a, --address <ADDRESS>  Address of the first byte [default: 0]\n" ++
    "  -h, --help               Print help\n"

namespace Outcome

def stopped : Stop → Outcome
  | .usage => { status := 2, stderr := usage }
  | .help => { status := 0, stdout := help }

def failed (f : Failure) : Outcome :=
  { status := 1, stderr := f.report }

def listed (ls : List String) : Outcome :=
  { status := 0, stdout := String.join (ls.map (· ++ "\n")) }

end Outcome

/-- What the arguments settle before any input is read: the outcome, or how it depends on the
input. -/
def prepare (parse : List String → Except Stop Arguments) (args : List String) :
    Except Outcome (List UInt8 → Outcome) := do
  let a ← (parse args).mapError .stopped
  let mode ← (Mode.ofBits a.mode).mapError fun m => .failed (.misuse m)
  pure fun input =>
    match lines a mode input with
    | .error f => .failed f
    | .ok ls => .listed ls

/-- Run the command, with a parser for its arguments, on the bytes of its input. -/
def runWith (parse : List String → Except Stop Arguments) (args : List String) (input : List UInt8) :
    Outcome :=
  match prepare parse args with
  | .error outcome => outcome
  | .ok respond => respond input

def run (args : List String) (input : List UInt8) : Outcome :=
  runWith Arguments.parse args input

end CommandLine
end X86
