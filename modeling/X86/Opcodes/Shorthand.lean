import X86.Lookup.Table

/-!
Shorthands for instruction definitions. Operands are written as in the opcode maps: the letter names
the encoding (E is the r/m field, G the reg field, I an immediate, J a relative target, O a bare
address, M memory only, V, W and U vector registers, P, Q and N their 64-bit kin) and the suffix
names the width.
-/

namespace X86
namespace Opcodes

open Lookup

def Eb : Template := .regMem .b
def Ew : Template := .regMem .w
def Ed : Template := .regMem .d
def Eq : Template := .regMem .q
def Ev : Template := .regMem .v
def Ey : Template := .regMem .y
def Gb : Template := .reg .b
def Gw : Template := .reg .w
def Gd : Template := .reg .d
def Gv : Template := .reg .v
def Gy : Template := .reg .y
def Rn : Template := .rmReg .native
def Rv : Template := .rmReg .v
def M : Template := .mem .unsized
def Mb : Template := .mem .b
def Mw : Template := .mem .w
def Md : Template := .mem .d
def Mq : Template := .mem .q
def Mt : Template := .mem .t
def Mdq : Template := .mem .dq
def Mv : Template := .mem .v
def My : Template := .mem .y
def Mp : Template := .mem .p
def Ib : Template := .imm .b
def Iw : Template := .imm .w
def Iz : Template := .imm .z
def Iv : Template := .imm .v
def sIb : Template := .immSigned .b
def I1 : Template := .constant 1
def Jb : Template := .relative .b
def Jz : Template := .relative .z
def Ob : Template := .offset .b
def Ov : Template := .offset .v
def Ap : Template := .farPointer
def Sw : Template := .segment
def Cn : Template := .control
def Dn : Template := .debug
def Zb : Template := .opcodeReg .b
def Zv : Template := .opcodeReg .v
def Zy : Template := .opcodeReg .y
def rAX : Template := .sized 0 .v
def eAX : Template := .sized 0 .z
def AL : Template := .fixed .al
def CL : Template := .fixed .cl
def AX : Template := .fixed .ax
def DX : Template := .fixed .dx
def ES : Template := .fixed (.segment .es)
def CS : Template := .fixed (.segment .cs)
def SS : Template := .fixed (.segment .ss)
def DS : Template := .fixed (.segment .ds)
def FS : Template := .fixed (.segment .fs)
def GS : Template := .fixed (.segment .gs)
def ST0 : Template := .st0
def STi : Template := .stRm
def Pq : Template := .mmxReg
def Qq : Template := .mmxRegMem .q
def Nq : Template := .mmxRm
def Vx : Template := .xmmReg
def Wx : Template := .xmmRegMem .dq
def Wq : Template := .xmmRegMem .q
def Wd : Template := .xmmRegMem .d
def Ww : Template := .xmmRegMem .w
def Ux : Template := .xmmRm

/-! Selectors. -/

def np : Step := .mandatory 0
def p66 : Step := .mandatory 1
def pF2 : Step := .mandatory 2
def pF3 : Step := .mandatory 3
def memForm : Step := .mod 0
def regForm : Step := .mod 1
def not64 : Step := .mode 0
def only64 : Step := .mode 1
def o16 : Step := .operandSize 0
def o32 : Step := .operandSize 1
def o64 : Step := .operandSize 2
def a16 : Step := .addressSize 0
def a32 : Step := .addressSize 1
def a64 : Step := .addressSize 2
def amd : Step := .vendor 0
def intel : Step := .vendor 1

/-! Attributes. -/

def default64 : UInt16 := EntryFlags.default64Bit
def invalid64 : UInt16 := EntryFlags.invalid64Bit
def sizedAddress : UInt16 := EntryFlags.addressSizeBit
def string : UInt16 := EntryFlags.stringBit
def far : UInt16 := EntryFlags.farBit
def near : UInt16 := EntryFlags.nearBit

/-- The definition with the given opcode bytes and selectors. -/
def row (opcode : List UInt8) (selectors : List Step) (mnemonic : Mnemonic)
    (operands : List Template) (flags : UInt16 := 0) : Definition where
  steps := opcode.map Step.byte ++ selectors
  mnemonic := mnemonic
  operands := operands
  flags := flags

/-- Eight definitions, for the eight registers that the low bits of the last opcode byte name. -/
def eight (escape : List UInt8) (first : UInt8) (mnemonic : Mnemonic) (operands : List Template)
    (flags : UInt16 := 0) : List Definition :=
  (List.range 8).map fun i => row (escape ++ [first + UInt8.ofNat i]) [] mnemonic operands flags

/-- Definitions for a list of mnemonics that differ only in the number each one has in the list. -/
def numbered (mnemonics : List Mnemonic) (rows : Mnemonic → Nat → List Definition) :
    List Definition :=
  mnemonics.zipIdx.flatMap fun (m, i) => rows m i

end Opcodes
end X86
