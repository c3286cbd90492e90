import X86.Instances

/-! Registers: the numbered register files, their names and their widths. -/

namespace X86

/-- The segment registers, in encoding order. -/
inductive Segment
  | es | cs | ss | ds | fs | gs
  deriving DecidableEq

namespace Segment

def all : List Segment :=
  [es, cs, ss, ds, fs, gs]

def name : Segment → String
  | es => "es"
  | cs => "cs"
  | ss => "ss"
  | ds => "ds"
  | fs => "fs"
  | gs => "gs"

/-- The segment register with the given number; six and seven name none. -/
def ofNumber? (n : Nat) : Option Segment :=
  all[n]?

end Segment

/-- A register that an operand can name. The byte registers `ah`, `ch`, `dh` and `bh` form a file
of their own, beside the low bytes of the sixteen general registers. -/
inductive Register
  | low8 (n : Fin 16)
  | high8 (n : Fin 4)
  | gpr16 (n : Fin 16)
  | gpr32 (n : Fin 16)
  | gpr64 (n : Fin 16)
  | segment (s : Segment)
  | control (n : Fin 16)
  | debug (n : Fin 16)
  | x87 (n : Fin 8)
  | mmx (n : Fin 8)
  | xmm (n : Fin 16)
  | ip
  | eip
  | rip
  deriving DecidableEq

namespace Register

abbrev al : Register := low8 0
abbrev cl : Register := low8 1
abbrev ax : Register := gpr16 0
abbrev dx : Register := gpr16 2
abbrev bx : Register := gpr16 3
abbrev bp : Register := gpr16 5
abbrev si : Register := gpr16 6
abbrev di : Register := gpr16 7
abbrev eax : Register := gpr32 0

/-- The general register `n` of the given width. Without a REX prefix the byte registers four to
seven are the high bytes; widths other than 8, 16 and 32 give the full register. -/
def gpr (size : Nat) (n : Fin 16) (rex : Bool) : Register :=
  match size with
  | 8 =>
      if rex then low8 n
      else if n.val % 8 < 4 then low8 (Fin.ofNat 16 (n.val % 8))
      else high8 (Fin.ofNat 4 (n.val % 8 - 4))
  | 16 => gpr16 n
  | 32 => gpr32 n
  | _ => gpr64 n

/-- A general register's name: the first eight have names of their own. -/
def numbered (names : List String) (n : Nat) (suffix : String) : String :=
  names.getD n (s!"r{n}" ++ suffix)

def name : Register → String
  | low8 n => numbered ["al", "cl", "dl", "bl", "spl", "bpl", "sil", "dil"] n "b"
  | high8 n => ["ah", "ch", "dh", "bh"].getD n ""
  | gpr16 n => numbered ["ax", "cx", "dx", "bx", "sp", "bp", "si", "di"] n "w"
  | gpr32 n => numbered ["eax", "ecx", "edx", "ebx", "esp", "ebp", "esi", "edi"] n "d"
  | gpr64 n => numbered ["rax", "rcx", "rdx", "rbx", "rsp", "rbp", "rsi", "rdi"] n ""
  | segment s => s.name
  | control n => s!"cr{n.val}"
  | debug n => s!"dr{n.val}"
  | x87 n => s!"st{n.val}"
  | mmx n => s!"mm{n.val}"
  | xmm n => s!"xmm{n.val}"
  | ip => "ip"
  | eip => "eip"
  | rip => "rip"

/-- The width of a register in bits. -/
def size : Register → Nat
  | low8 _ | high8 _ => 8
  | gpr16 _ | segment _ | ip => 16
  | gpr32 _ | eip => 32
  | gpr64 _ | control _ | debug _ | mmx _ | rip => 64
  | x87 _ => 80
  | xmm _ => 128

def isSegment : Register → Bool
  | segment _ => true
  | _ => false

/-- Every register. -/
def all : List Register :=
  (List.finRange 16).map low8 ++ (List.finRange 4).map high8 ++ (List.finRange 16).map gpr16
    ++ (List.finRange 16).map gpr32 ++ (List.finRange 16).map gpr64 ++ Segment.all.map segment
    ++ (List.finRange 16).map control ++ (List.finRange 16).map debug
    ++ (List.finRange 8).map x87 ++ (List.finRange 8).map mmx ++ (List.finRange 16).map xmm
    ++ [ip, eip, rip]

def ofName? (text : String) : Option Register :=
  all.find? fun r => r.name == text

theorem mem_all (r : Register) : r ∈ all := by
  cases r with
  | segment s => cases s <;> simp [all, Segment.all]
  | _ => simp [all]

end Register
end X86
