import X86.Opcodes.Shorthand

/-! The one-byte opcode map. -/

namespace X86
namespace Opcodes

open Lookup

def aluMnemonics : List Mnemonic :=
  [.ADD, .OR, .ADC, .SBB, .AND, .SUB, .XOR, .CMP]

def shiftMnemonics : List Mnemonic :=
  [.ROL, .ROR, .RCL, .RCR, .SHL, .SHR, .SHL, .SAR]

def jumpMnemonics : List Mnemonic :=
  [.JO, .JNO, .JB, .JAE, .JZ, .JNZ, .JBE, .JA, .JS, .JNS, .JP, .JNP, .JL, .JGE, .JLE, .JG]

/-- The arithmetic rows 00 to 3F share one layout, and 80 to 83 repeat them with immediates. -/
def arithmetic : List Definition :=
  numbered aluMnemonics fun m i =>
    let base := UInt8.ofNat (8 * i)
    let n : Fin 8 := Fin.ofNat 8 i
    [row [base] [] m [Eb, Gb],
     row [base + 1] [] m [Ev, Gv],
     row [base + 2] [] m [Gb, Eb],
     row [base + 3] [] m [Gv, Ev],
     row [base + 4] [] m [AL, Ib],
     row [base + 5] [] m [rAX, Iz],
     row [0x80] [.reg n] m [Eb, Ib],
     row [0x81] [.reg n] m [Ev, Iz],
     row [0x82] [.reg n] m [Eb, Ib] invalid64,
     row [0x83] [.reg n] m [Ev, sIb]]

/-- Segment register pushes and pops, and the decimal adjustments. -/
def segmentStack : List Definition :=
  [row [0x06] [] .PUSH [ES] invalid64,
   row [0x07] [] .POP [ES] invalid64,
   row [0x0E] [] .PUSH [CS] invalid64,
   row [0x16] [] .PUSH [SS] invalid64,
   row [0x17] [] .POP [SS] invalid64,
   row [0x1E] [] .PUSH [DS] invalid64,
   row [0x1F] [] .POP [DS] invalid64,
   row [0x27] [] .DAA [] invalid64,
   row [0x2F] [] .DAS [] invalid64,
   row [0x37] [] .AAA [] invalid64,
   row [0x3F] [] .AAS [] invalid64]

/-- Rows by register. In 64-bit mode 40 to 4F are REX prefixes and never looked up. -/
def registerRows : List Definition :=
  eight [] 0x40 .INC [Zv] invalid64
    ++ eight [] 0x48 .DEC [Zv] invalid64
    ++ eight [] 0x50 .PUSH [Zv] default64
    ++ eight [] 0x58 .POP [Zv] default64

def rows60 : List Definition :=
  [row [0x60] [o16] .PUSHA [] invalid64,
   row [0x60] [o32] .PUSHAD [] invalid64,
   row [0x61] [o16] .POPA [] invalid64,
   row [0x61] [o32] .POPAD [] invalid64,
   row [0x62] [] .BOUND [Gv, M] invalid64,
   row [0x63] [not64] .ARPL [Ew, Gw],
   row [0x63] [only64] .MOVSXD [Gv, Ed],
   row [0x68] [] .PUSH [Iz] default64,
   row [0x69] [] .IMUL [Gv, Ev, Iz],
   row [0x6A] [] .PUSH [sIb] default64,
   row [0x6B] [] .IMUL [Gv, Ev, sIb],
   row [0x6C] [] .INSB [] (string ||| sizedAddress),
   row [0x6D] [o16] .INSW [] (string ||| sizedAddress),
   row [0x6D] [o32] .INSD [] (string ||| sizedAddress),
   row [0x6D] [o64] .INSD [] (string ||| sizedAddress),
   row [0x6E] [] .OUTSB [] (string ||| sizedAddress),
   row [0x6F] [o16] .OUTSW [] (string ||| sizedAddress),
   row [0x6F] [o32] .OUTSD [] (string ||| sizedAddress),
   row [0x6F] [o64] .OUTSD [] (string ||| sizedAddress)]

/-- The conditional jumps, short and near. -/
def conditionalJumps : List Definition :=
  numbered jumpMnemonics fun m i =>
    [row [0x70 + UInt8.ofNat i] [] m [Jb] default64,
     row [0x0F, 0x80 + UInt8.ofNat i] [] m [Jz] default64]

def rows80 : List Definition :=
  [row [0x84] [] .TEST [Eb, Gb],
   row [0x85] [] .TEST [Ev, Gv],
   row [0x86] [] .XCHG [Eb, Gb],
   row [0x87] [] .XCHG [Ev, Gv],
   row [0x88] [] .MOV [Eb, Gb],
   row [0x89] [] .MOV [Ev, Gv],
   row [0x8A] [] .MOV [Gb, Eb],
   row [0x8B] [] .MOV [Gv, Ev],
   row [0x8C] [] .MOV [Ev, Sw],
   row [0x8D] [] .LEA [Gv, M],
   row [0x8E] [] .MOV [Sw, Ew],
   row [0x8F] [.reg 0] .POP [Ev] default64]

/-- Opcode 90 is the exchange of the accumulator with itself, which reads `nop`. -/
def rows90 : List Definition :=
  eight [] 0x90 .XCHG [Zv, rAX]
    ++ [row [0x98] [o16] .CBW [],
        row [0x98] [o32] .CWDE [],
        row [0x98] [o64] .CDQE [],
        row [0x99] [o16] .CWD [],
        row [0x99] [o32] .CDQ [],
        row [0x99] [o64] .CQO [],
        row [0x9A] [] .CALL [Ap] (invalid64 ||| far),
        row [0x9B] [] .WAIT [],
        row [0x9C] [not64, o16] .PUSHFW [],
        row [0x9C] [not64, o32] .PUSHFD [],
        row [0x9C] [only64, o16] .PUSHFW [] default64,
        row [0x9C] [only64, o32] .PUSHFQ [] default64,
        row [0x9C] [only64, o64] .PUSHFQ [] default64,
        row [0x9D] [not64, o16] .POPFW [],
        row [0x9D] [not64, o32] .POPFD [],
        row [0x9D] [only64, o16] .POPFW [] default64,
        row [0x9D] [only64, o32] .POPFQ [] default64,
        row [0x9D] [only64, o64] .POPFQ [] default64,
        row [0x9E] [] .SAHF [],
        row [0x9F] [] .LAHF []]

def rowsA0 : List Definition :=
  [row [0xA0] [] .MOV [AL, Ob],
   row [0xA1] [] .MOV [rAX, Ov],
   row [0xA2] [] .MOV [Ob, AL],
   row [0xA3] [] .MOV [Ov, rAX],
   row [0xA4] [] .MOVSB [] (string ||| sizedAddress),
   row [0xA5] [o16] .MOVSW [] (string ||| sizedAddress),
   row [0xA5] [o32] .MOVSD [] (string ||| sizedAddress),
   row [0xA5] [o64] .MOVSQ [] (string ||| sizedAddress),
   row [0xA6] [] .CMPSB [] sizedAddress,
   row [0xA7] [o16] .CMPSW [] sizedAddress,
   row [0xA7] [o32] .CMPSD [] sizedAddress,
   row [0xA7] [o64] .CMPSQ [] sizedAddress,
   row [0xA8] [] .TEST [AL, Ib],
   row [0xA9] [] .TEST [rAX, Iz],
   row [0xAA] [] .STOSB [] (string ||| sizedAddress),
   row [0xAB] [o16] .STOSW [] (string ||| sizedAddress),
   row [0xAB] [o32] .STOSD [] (string ||| sizedAddress),
   row [0xAB] [o64] .STOSQ [] (string ||| sizedAddress),
   row [0xAC] [] .LODSB [] (string ||| sizedAddress),
   row [0xAD] [o16] .LODSW [] (string ||| sizedAddress),
   row [0xAD] [o32] .LODSD [] (string ||| sizedAddress),
   row [0xAD] [o64] .LODSQ [] (string ||| sizedAddress),
   row [0xAE] [] .SCASB [] sizedAddress,
   row [0xAF] [o16] .SCASW [] sizedAddress,
   row [0xAF] [o32] .SCASD [] sizedAddress,
   row [0xAF] [o64] .SCASQ [] sizedAddress]
    ++ eight [] 0xB0 .MOV [Zb, Ib]
    ++ eight [] 0xB8 .MOV [Zv, Iv]

def shifts : List Definition :=
  numbered shiftMnemonics fun m i =>
    let n : Fin 8 := Fin.ofNat 8 i
    [row [0xC0] [.reg n] m [Eb, Ib],
     row [0xC1] [.reg n] m [Ev, Ib],
     row [0xD0] [.reg n] m [Eb, I1],
     row [0xD1] [.reg n] m [Ev, I1],
     row [0xD2] [.reg n] m [Eb, CL],
     row [0xD3] [.reg n] m [Ev, CL]]

def rowsC0 : List Definition :=
  [row [0xC2] [] .RET [Iw] (default64 ||| near),
   row [0xC3] [] .RET [] (default64 ||| near),
   row [0xC4] [] .LES [Gv, Mp] invalid64,
   row [0xC5] [] .LDS [Gv, Mp] invalid64,
   row [0xC6] [.reg 0] .MOV [Eb, Ib],
   row [0xC7] [.reg 0] .MOV [Ev, Iz],
   row [0xC8] [] .ENTER [Iw, Ib] default64,
   row [0xC9] [] .LEAVE [] default64,
   row [0xCA] [] .RETF [Iw] far,
   row [0xCB] [] .RETF [] far,
   row [0xCC] [] .INT3 [],
   row [0xCD] [] .INT [Ib],
   row [0xCE] [] .INTO [] invalid64,
   row [0xCF] [o16] .IRETW [],
   row [0xCF] [o32] .IRETD [],
   row [0xCF] [o64] .IRETQ [],
   row [0xD4] [] .AAM [Ib] invalid64,
   row [0xD5] [] .AAD [Ib] invalid64,
   row [0xD6] [] .SALC [] invalid64,
   row [0xD7] [] .XLATB [] sizedAddress]

def rowsE0 : List Definition :=
  [row [0xE0] [] .LOOPNE [Jb] (default64 ||| sizedAddress),
   row [0xE1] [] .LOOPE [Jb] (default64 ||| sizedAddress),
   row [0xE2] [] .LOOP [Jb] (default64 ||| sizedAddress),
   row [0xE3] [a16] .JCXZ [Jb] default64,
   row [0xE3] [a32] .JECXZ [Jb] default64,
   row [0xE3] [a64] .JRCXZ [Jb] default64,
   row [0xE4] [] .IN [AL, Ib],
   row [0xE5] [] .IN [eAX, Ib],
   row [0xE6] [] .OUT [Ib, AL],
   row [0xE7] [] .OUT [Ib, eAX],
   row [0xE8] [] .CALL [Jz] default64,
   row [0xE9] [] .JMP [Jz] default64,
   row [0xEA] [] .JMP [Ap] (invalid64 ||| far),
   row [0xEB] [] .JMP [Jb] default64,
   row [0xEC] [] .IN [AL, DX],
   row [0xED] [] .IN [eAX, DX],
   row [0xEE] [] .OUT [DX, AL],
   row [0xEF] [] .OUT [DX, eAX]]

def rowsF0 : List Definition :=
  [row [0xF1] [] .INT1 [],
   row [0xF4] [] .HLT [],
   row [0xF5] [] .CMC [],
   row [0xF6] [.reg 0] .TEST [Eb, Ib],
   row [0xF6] [.reg 1] .TEST [Eb, Ib],
   row [0xF6] [.reg 2] .NOT [Eb],
   row [0xF6] [.reg 3] .NEG [Eb],
   row [0xF6] [.reg 4] .MUL [Eb],
   row [0xF6] [.reg 5] .IMUL [Eb],
   row [0xF6] [.reg 6] .DIV [Eb],
   row [0xF6] [.reg 7] .IDIV [Eb],
   row [0xF7] [.reg 0] .TEST [Ev, Iz],
   row [0xF7] [.reg 1] .TEST [Ev, Iz],
   row [0xF7] [.reg 2] .NOT [Ev],
   row [0xF7] [.reg 3] .NEG [Ev],
   row [0xF7] [.reg 4] .MUL [Ev],
   row [0xF7] [.reg 5] .IMUL [Ev],
   row [0xF7] [.reg 6] .DIV [Ev],
   row [0xF7] [.reg 7] .IDIV [Ev],
   row [0xF8] [] .CLC [],
   row [0xF9] [] .STC [],
   row [0xFA] [] .CLI [],
   row [0xFB] [] .STI [],
   row [0xFC] [] .CLD [],
   row [0xFD] [] .STD [],
   row [0xFE] [.reg 0] .INC [Eb],
   row [0xFE] [.reg 1] .DEC [Eb],
   row [0xFF] [.reg 0] .INC [Ev],
   row [0xFF] [.reg 1] .DEC [Ev],
   row [0xFF] [.reg 2] .CALL [Ev] (default64 ||| near),
   row [0xFF] [.reg 3, memForm] .CALL [Mp] far,
   row [0xFF] [.reg 4] .JMP [Ev] (default64 ||| near),
   row [0xFF] [.reg 5, memForm] .JMP [Mp] far,
   row [0xFF] [.reg 6] .PUSH [Ev] default64]

/-- The one-byte map, and the near conditional jumps beside the short ones. -/
def oneByte : List Definition :=
  arithmetic ++ segmentStack ++ registerRows ++ rows60 ++ conditionalJumps ++ rows80 ++ rows90
    ++ rowsA0 ++ shifts ++ rowsC0 ++ rowsE0 ++ rowsF0

end Opcodes
end X86
