import X86.Lookup.Table
import X86.Text.Blank
import X86.Text.Numeral

/-!
Encoding paths as text, such as `0f 01 /reg=3 /mod=reg /rm=5 /vendor=amd`. Opcode bytes are written
in hexadecimal; `50+r` stands for the eight opcodes from 50 on. A path that cannot be read is
refused with a warning.
-/

namespace X86
namespace Lookup

/-- What can be wrong with a path that is added to a table. -/
inductive Warning
  | badOpcode (path : String)
  | badToken (token path : String)
  | duplicate (path : String)
  | noOpcode (path : String)
  deriving DecidableEq

def Warning.message : Warning → String
  | .badOpcode path => s!"bad opcode token in table path '{path}'"
  | .badToken token path => s!"bad token '{token}' in table path '{path}'"
  | .duplicate path => s!"duplicate table path '{path}'"
  | .noOpcode path => s!"table path '{path}' does not start with an opcode byte"

namespace Path

def byte? (token : List Char) : Option UInt8 :=
  (Text.unsigned? 16 256 token).map UInt8.ofNat

def field? (value : List Char) : Option (Fin 8) :=
  (Text.unsigned? 10 8 value).map (Fin.ofNat 8)

def size? (value : String) : Option (Fin 3) :=
  match value with
  | "16" => some 0
  | "32" => some 1
  | "64" => some 2
  | _ => none

/-- The selector `/key=value`. -/
def selector? (key value : List Char) : Option Step :=
  match String.ofList key, String.ofList value with
  | "sse", "none" => some (.mandatory 0)
  | "sse", "66" => some (.mandatory 1)
  | "sse", "f2" => some (.mandatory 2)
  | "sse", "f3" => some (.mandatory 3)
  | "mod", "mem" => some (.mod 0)
  | "mod", "reg" => some (.mod 1)
  | "reg", _ => (field? value).map .reg
  | "rm", _ => (field? value).map .rm
  | "m", "!64" => some (.mode 0)
  | "m", "64" => some (.mode 1)
  | "o", size => (size? size).map .operandSize
  | "a", size => (size? size).map .addressSize
  | "vendor", "amd" => some (.vendor 0)
  | "vendor", "intel" => some (.vendor 1)
  | _, _ => none

def step? : List Char → Option Step
  | '/' :: selector =>
    match selector.dropWhile (· != '=') with
    | _ :: value => selector? (selector.takeWhile (· != '=')) value
    | [] => none
  | token => (byte? token).map .byte

/-- The part of a token before the marks `+r` at its end, if there are any. -/
def rowBase? (token : List Char) : Option (List Char) :=
  let rec strip : List Char → List Char
    | 'r' :: '+' :: rest => strip rest
    | rest => rest
  let reversed := token.reverse
  match reversed with
  | 'r' :: '+' :: _ => some (strip reversed).reverse
  | _ => none

/-- One way to read the row marks of a path: its text and tokens, or the text of a path with a row
that does not start at a byte. -/
inductive Reading
  | path (text : String) (tokens : List (List Char))
  | badRow (text : String)

/-- Tokens as a path, one blank between them. -/
def joined (tokens : List (List Char)) : String :=
  String.intercalate " " (tokens.map String.ofList)

/-- All readings of the tokens after those already read, which are listed last first. The text is
kept as written until a row mark has been replaced. -/
def readings (text : String) (rowSeen : Bool) (read : List (List Char)) :
    List (List Char) → List Reading
  | [] =>
    let tokens := read.reverse
    [.path (if rowSeen then joined tokens else text) tokens]
  | token :: rest =>
    match rowBase? token with
    | none => readings text rowSeen (token :: read) rest
    | some start =>
      match byte? start with
      | none => [.badRow (if rowSeen then joined (read.reverse ++ token :: rest) else text)]
      | some b =>
        (List.range 8).flatMap fun i =>
          readings text true ((Text.hexByte (b + UInt8.ofNat i)).toList :: read) rest

/-- The steps of a path, or its first token that is none. -/
def steps : List (List Char) → Except (List Char) (List Step)
  | [] => .ok []
  | token :: rest =>
    match step? token with
    | none => .error token
    | some s => (steps rest).map (s :: ·)

end Path

namespace Table

/-- Add the entry of one reading of a path. -/
def insertReading (t : Table) (mnemonic : Mnemonic) (operands : List Template) (flags : UInt16) :
    Path.Reading → Table × List Warning
  | .badRow text => (t, [.badOpcode text])
  | .path text tokens =>
    match Path.steps tokens with
    | .error token => (t, [.badToken (String.ofList token) text])
    | .ok steps =>
      let d : Definition := { steps, mnemonic, operands, flags }
      let warnings :=
        if steps.isEmpty then []
        else if d.hasOpcode then List.replicate (t.clashes d) (.duplicate text)
        else [.noOpcode text]
      (t.insert d, warnings)

/-- Add an entry under a path given as text. The first entry of a path wins. -/
def insertPath (t : Table) (path : String) (mnemonic : Mnemonic) (operands : List Template)
    (flags : UInt16) : Table × List Warning :=
  (Path.readings path false [] (Text.words path.toList)).foldl
    (fun (t, warnings) reading =>
      let (t', more) := t.insertReading mnemonic operands flags reading
      (t', warnings ++ more))
    (t, [])

end Table
end Lookup
end X86
