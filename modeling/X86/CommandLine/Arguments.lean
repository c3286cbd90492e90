import X86.Instances
import X86.Mode
import X86.Text.Numeral

/-!
The arguments of the command. Options may stand before and after the mode, each at most once; `--`
ends them. A value follows its option as the next argument or after an equals sign, and after `-a`
also directly.
-/

namespace X86
namespace CommandLine

structure Arguments where
  mode : Nat := 32
  att : Bool := false
  noAddress : Bool := false
  noBinary : Bool := false
  vendor : Vendor := .any
  address : UInt64 := 0
  deriving DecidableEq

/-- Why arguments lead to no run. -/
inductive Stop
  | usage
  | help
  deriving DecidableEq

namespace Arguments

/-- The arguments met so far. -/
structure Given where
  mode : Option Nat := none
  att : Bool := false
  noAddress : Bool := false
  noBinary : Bool := false
  vendor : Option Vendor := none
  address : Option UInt64 := none
  deriving DecidableEq

/-- The number of bits of a mode, as far as the argument itself tells: from 16 to 64. -/
def mode? (text : List Char) : Option Nat :=
  (Text.unsigned? 10 65 text).filter (16 ≤ ·)

def vendor? (text : List Char) : Option Vendor :=
  match String.ofList text with
  | "any" => some .any
  | "amd" => some .amd
  | "intel" => some .intel
  | _ => none

/-- A hexadecimal address, with or without `0x` in front. -/
def address? (text : List Char) : Option UInt64 :=
  let digits :=
    match text with
    | '0' :: 'x' :: rest => rest
    | _ => text
  (Text.unsigned? 16 (2 ^ 64) digits).map UInt64.ofNat

/-- Set a field that is set at most once. -/
def once (old new : Option α) : Except Stop (Option α) :=
  match old, new with
  | none, some a => .ok (some a)
  | _, _ => .error .usage

def flag (old : Bool) : Except Stop Bool :=
  if old then .error .usage else .ok true

namespace Given

def withMode (g : Given) (text : List Char) : Except Stop Given := do
  pure { g with mode := ← once g.mode (mode? text) }

def withVendor (g : Given) (text : List Char) : Except Stop Given := do
  pure { g with vendor := ← once g.vendor (vendor? text) }

def withAddress (g : Given) (text : List Char) : Except Stop Given := do
  pure { g with address := ← once g.address (address? text) }

end Given

/-- Whether an argument is an option rather than a value; a single dash is a value. -/
def isOption : List Char → Bool
  | '-' :: _ :: _ => true
  | _ => false

/-- All remaining arguments are values. -/
def values (g : Given) : List (List Char) → Except Stop Given
  | [] => .ok g
  | arg :: rest => do values (← g.withMode arg) rest

/-- The options and values from here on. -/
def scan (g : Given) : List (List Char) → Except Stop Given
  | [] => .ok g
  | arg :: rest =>
    let valued (set : List Char → Except Stop Given) :=
      match rest with
      | value :: rest => do
        if isOption value then throw .usage
        scan (← set value) rest
      | [] => .error .usage
    match arg with
    | ['-', '-'] => values g rest
    | '-' :: '-' :: name =>
      let key := String.ofList (name.takeWhile (· != '='))
      match name.dropWhile (· != '=') with
      | _ :: value =>
        match key with
        | "vendor" => do scan (← g.withVendor value) rest
        | "address" => do scan (← g.withAddress value) rest
        | _ => .error .usage
      | [] =>
        match key with
        | "att" => do scan { g with att := ← flag g.att } rest
        | "no-address" => do scan { g with noAddress := ← flag g.noAddress } rest
        | "no-binary" => do scan { g with noBinary := ← flag g.noBinary } rest
        | "vendor" => valued g.withVendor
        | "address" => valued g.withAddress
        | "help" => .error .help
        | _ => .error .usage
    | ['-', 'a'] => valued g.withAddress
    | '-' :: 'a' :: '=' :: value => do scan (← g.withAddress value) rest
    | '-' :: 'a' :: value => do scan (← g.withAddress value) rest
    | '-' :: 'h' :: _ => .error .help
    | '-' :: _ :: _ => .error .usage
    | arg => do scan (← g.withMode arg) rest

/-- Read the arguments; what is not given has its default. -/
def parse (args : List String) : Except Stop Arguments := do
  let g ← scan {} (args.map String.toList)
  pure {
    mode := g.mode.getD 32
    att := g.att
    noAddress := g.noAddress
    noBinary := g.noBinary
    vendor := g.vendor.getD .any
    address := g.address.getD 0 }

end Arguments
end CommandLine
end X86
