import X86.Opcodes.Shorthand

/-! The vector instructions of the 0F opcode map. -/

namespace X86
namespace Opcodes

open Lookup

/-- A packed-integer instruction: on 64-bit registers plain, on vector registers under 66. -/
def packed (opcode : List UInt8) (m : Mnemonic) : List Definition :=
  [row opcode [np] m [Pq, Qq],
   row opcode [p66] m [Vx, Wx]]

/-- The packed-single, packed-double, scalar-single and scalar-double forms of an operation. -/
def fourForms (opcode : UInt8) (ps pd ss sd : Mnemonic) : List Definition :=
  [row [0x0F, opcode] [np] ps [Vx, Wx],
   row [0x0F, opcode] [p66] pd [Vx, Wx],
   row [0x0F, opcode] [pF3] ss [Vx, Wd],
   row [0x0F, opcode] [pF2] sd [Vx, Wq]]

def floatVectors : List Definition :=
  fourForms 0x51 .SQRTPS .SQRTPD .SQRTSS .SQRTSD
    ++ fourForms 0x58 .ADDPS .ADDPD .ADDSS .ADDSD
    ++ fourForms 0x59 .MULPS .MULPD .MULSS .MULSD
    ++ fourForms 0x5C .SUBPS .SUBPD .SUBSS .SUBSD
    ++ fourForms 0x5D .MINPS .MINPD .MINSS .MINSD
    ++ fourForms 0x5E .DIVPS .DIVPD .DIVSS .DIVSD
    ++ fourForms 0x5F .MAXPS .MAXPD .MAXSS .MAXSD

def vectorMoves : List Definition :=
  [row [0x0F, 0x10] [np] .MOVUPS [Vx, Wx],
   row [0x0F, 0x10] [p66] .MOVUPD [Vx, Wx],
   row [0x0F, 0x10] [pF3] .MOVSS [Vx, Wd],
   row [0x0F, 0x10] [pF2] .MOVSD [Vx, Wq],
   row [0x0F, 0x11] [np] .MOVUPS [Wx, Vx],
   row [0x0F, 0x11] [p66] .MOVUPD [Wx, Vx],
   row [0x0F, 0x11] [pF3] .MOVSS [Wd, Vx],
   row [0x0F, 0x11] [pF2] .MOVSD [Wq, Vx],
   row [0x0F, 0x12] [np, memForm] .MOVLPS [Vx, Mq],
   row [0x0F, 0x12] [np, regForm] .MOVHLPS [Vx, Ux],
   row [0x0F, 0x12] [p66, memForm] .MOVLPD [Vx, Mq],
   row [0x0F, 0x12] [pF2] .MOVDDUP [Vx, Wq],
   row [0x0F, 0x12] [pF3] .MOVSLDUP [Vx, Wx],
   row [0x0F, 0x13] [np, memForm] .MOVLPS [Mq, Vx],
   row [0x0F, 0x13] [p66, memForm] .MOVLPD [Mq, Vx],
   row [0x0F, 0x14] [np] .UNPCKLPS [Vx, Wx],
   row [0x0F, 0x14] [p66] .UNPCKLPD [Vx, Wx],
   row [0x0F, 0x15] [np] .UNPCKHPS [Vx, Wx],
   row [0x0F, 0x15] [p66] .UNPCKHPD [Vx, Wx],
   row [0x0F, 0x16] [np, memForm] .MOVHPS [Vx, Mq],
   row [0x0F, 0x16] [np, regForm] .MOVLHPS [Vx, Ux],
   row [0x0F, 0x16] [p66, memForm] .MOVHPD [Vx, Mq],
   row [0x0F, 0x16] [pF3] .MOVSHDUP [Vx, Wx],
   row [0x0F, 0x17] [np, memForm] .MOVHPS [Mq, Vx],
   row [0x0F, 0x17] [p66, memForm] .MOVHPD [Mq, Vx]]

def vectorConversions : List Definition :=
  [row [0x0F, 0x28] [np] .MOVAPS [Vx, Wx],
   row [0x0F, 0x28] [p66] .MOVAPD [Vx, Wx],
   row [0x0F, 0x29] [np] .MOVAPS [Wx, Vx],
   row [0x0F, 0x29] [p66] .MOVAPD [Wx, Vx],
   row [0x0F, 0x2A] [np] .CVTPI2PS [Vx, Qq],
   row [0x0F, 0x2A] [p66] .CVTPI2PD [Vx, Qq],
   row [0x0F, 0x2A] [pF3] .CVTSI2SS [Vx, Ey],
   row [0x0F, 0x2A] [pF2] .CVTSI2SD [Vx, Ey],
   row [0x0F, 0x2B] [np, memForm] .MOVNTPS [Mdq, Vx],
   row [0x0F, 0x2B] [p66, memForm] .MOVNTPD [Mdq, Vx],
   row [0x0F, 0x2C] [np] .CVTTPS2PI [Pq, Wq],
   row [0x0F, 0x2C] [p66] .CVTTPD2PI [Pq, Wx],
   row [0x0F, 0x2C] [pF3] .CVTTSS2SI [Gy, Wd],
   row [0x0F, 0x2C] [pF2] .CVTTSD2SI [Gy, Wq],
   row [0x0F, 0x2D] [np] .CVTPS2PI [Pq, Wq],
   row [0x0F, 0x2D] [p66] .CVTPD2PI [Pq, Wx],
   row [0x0F, 0x2D] [pF3] .CVTSS2SI [Gy, Wd],
   row [0x0F, 0x2D] [pF2] .CVTSD2SI [Gy, Wq],
   row [0x0F, 0x2E] [np] .UCOMISS [Vx, Wd],
   row [0x0F, 0x2E] [p66] .UCOMISD [Vx, Wq],
   row [0x0F, 0x2F] [np] .COMISS [Vx, Wd],
   row [0x0F, 0x2F] [p66] .COMISD [Vx, Wq]]

def vectorRows50 : List Definition :=
  [row [0x0F, 0x50] [np, regForm] .MOVMSKPS [Gd, Ux],
   row [0x0F, 0x50] [p66, regForm] .MOVMSKPD [Gd, Ux],
   row [0x0F, 0x52] [np] .RSQRTPS [Vx, Wx],
   row [0x0F, 0x52] [pF3] .RSQRTSS [Vx, Wd],
   row [0x0F, 0x53] [np] .RCPPS [Vx, Wx],
   row [0x0F, 0x53] [pF3] .RCPSS [Vx, Wd],
   row [0x0F, 0x54] [np] .ANDPS [Vx, Wx],
   row [0x0F, 0x54] [p66] .ANDPD [Vx, Wx],
   row [0x0F, 0x55] [np] .ANDNPS [Vx, Wx],
   row [0x0F, 0x55] [p66] .ANDNPD [Vx, Wx],
   row [0x0F, 0x56] [np] .ORPS [Vx, Wx],
   row [0x0F, 0x56] [p66] .ORPD [Vx, Wx],
   row [0x0F, 0x57] [np] .XORPS [Vx, Wx],
   row [0x0F, 0x57] [p66] .XORPD [Vx, Wx],
   row [0x0F, 0x5A] [np] .CVTPS2PD [Vx, Wq],
   row [0x0F, 0x5A] [p66] .CVTPD2PS [Vx, Wx],
   row [0x0F, 0x5A] [pF3] .CVTSS2SD [Vx, Wd],
   row [0x0F, 0x5A] [pF2] .CVTSD2SS [Vx, Wq],
   row [0x0F, 0x5B] [np] .CVTDQ2PS [Vx, Wx],
   row [0x0F, 0x5B] [p66] .CVTPS2DQ [Vx, Wx],
   row [0x0F, 0x5B] [pF3] .CVTTPS2DQ [Vx, Wx]]

/-- Packed-integer operations, by opcode. -/
def packedOperations : List (UInt8 × Mnemonic) :=
  [(0x60, .PUNPCKLBW), (0x61, .PUNPCKLWD), (0x62, .PUNPCKLDQ), (0x63, .PACKSSWB),
   (0x64, .PCMPGTB), (0x65, .PCMPGTW), (0x66, .PCMPGTD), (0x67, .PACKUSWB), (0x68, .PUNPCKHBW),
   (0x69, .PUNPCKHWD), (0x6A, .PUNPCKHDQ), (0x6B, .PACKSSDW), (0x74, .PCMPEQB), (0x75, .PCMPEQW),
   (0x76, .PCMPEQD), (0xD1, .PSRLW), (0xD2, .PSRLD), (0xD3, .PSRLQ), (0xD4, .PADDQ),
   (0xD5, .PMULLW), (0xD8, .PSUBUSB), (0xD9, .PSUBUSW), (0xDA, .PMINUB), (0xDB, .PAND),
   (0xDC, .PADDUSB), (0xDD, .PADDUSW), (0xDE, .PMAXUB), (0xDF, .PANDN), (0xE0, .PAVGB),
   (0xE1, .PSRAW), (0xE2, .PSRAD), (0xE3, .PAVGW), (0xE4, .PMULHUW), (0xE5, .PMULHW),
   (0xE8, .PSUBSB), (0xE9, .PSUBSW), (0xEA, .PMINSW), (0xEB, .POR), (0xEC, .PADDSB),
   (0xED, .PADDSW), (0xEE, .PMAXSW), (0xEF, .PXOR), (0xF1, .PSLLW), (0xF2, .PSLLD),
   (0xF3, .PSLLQ), (0xF4, .PMULUDQ), (0xF5, .PMADDWD), (0xF6, .PSADBW), (0xF8, .PSUBB),
   (0xF9, .PSUBW), (0xFA, .PSUBD), (0xFB, .PSUBQ), (0xFC, .PADDB), (0xFD, .PADDW),
   (0xFE, .PADDD)]

def packedIntegers : List Definition :=
  packedOperations.flatMap fun (opcode, m) => packed [0x0F, opcode] m

/-- Shifts by an immediate, by opcode and reg field. -/
def packedShifts : List Definition :=
  ([(0x71, 2, .PSRLW), (0x71, 4, .PSRAW), (0x71, 6, .PSLLW), (0x72, 2, .PSRLD), (0x72, 4, .PSRAD),
    (0x72, 6, .PSLLD), (0x73, 2, .PSRLQ), (0x73, 6, .PSLLQ)]
    : List (UInt8 × Fin 8 × Mnemonic)).flatMap fun (opcode, n, m) =>
    [row [0x0F, opcode] [np, .reg n, regForm] m [Nq, Ib],
     row [0x0F, opcode] [p66, .reg n, regForm] m [Ux, Ib]]

def vectorRows60 : List Definition :=
  [row [0x0F, 0x6C] [p66] .PUNPCKLQDQ [Vx, Wx],
   row [0x0F, 0x6D] [p66] .PUNPCKHQDQ [Vx, Wx],
   row [0x0F, 0x6E] [np, o16] .MOVD [Pq, Ey],
   row [0x0F, 0x6E] [np, o32] .MOVD [Pq, Ey],
   row [0x0F, 0x6E] [np, o64] .MOVQ [Pq, Ey],
   row [0x0F, 0x6E] [p66, o16] .MOVD [Vx, Ey],
   row [0x0F, 0x6E] [p66, o32] .MOVD [Vx, Ey],
   row [0x0F, 0x6E] [p66, o64] .MOVQ [Vx, Ey],
   row [0x0F, 0x6F] [np] .MOVQ [Pq, Qq],
   row [0x0F, 0x6F] [p66] .MOVDQA [Vx, Wx],
   row [0x0F, 0x6F] [pF3] .MOVDQU [Vx, Wx],
   row [0x0F, 0x70] [np] .PSHUFW [Pq, Qq, Ib],
   row [0x0F, 0x70] [p66] .PSHUFD [Vx, Wx, Ib],
   row [0x0F, 0x70] [pF3] .PSHUFHW [Vx, Wx, Ib],
   row [0x0F, 0x70] [pF2] .PSHUFLW [Vx, Wx, Ib],
   row [0x0F, 0x73] [p66, .reg 3, regForm] .PSRLDQ [Ux, Ib],
   row [0x0F, 0x73] [p66, .reg 7, regForm] .PSLLDQ [Ux, Ib],
   row [0x0F, 0x77] [np] .EMMS [],
   row [0x0F, 0x7C] [p66] .HADDPD [Vx, Wx],
   row [0x0F, 0x7C] [pF2] .HADDPS [Vx, Wx],
   row [0x0F, 0x7D] [p66] .HSUBPD [Vx, Wx],
   row [0x0F, 0x7D] [pF2] .HSUBPS [Vx, Wx],
   row [0x0F, 0x7E] [np, o16] .MOVD [Ey, Pq],
   row [0x0F, 0x7E] [np, o32] .MOVD [Ey, Pq],
   row [0x0F, 0x7E] [np, o64] .MOVQ [Ey, Pq],
   row [0x0F, 0x7E] [p66, o16] .MOVD [Ey, Vx],
   row [0x0F, 0x7E] [p66, o32] .MOVD [Ey, Vx],
   row [0x0F, 0x7E] [p66, o64] .MOVQ [Ey, Vx],
   row [0x0F, 0x7E] [pF3] .MOVQ [Vx, Wq],
   row [0x0F, 0x7F] [np] .MOVQ [Qq, Pq],
   row [0x0F, 0x7F] [p66] .MOVDQA [Wx, Vx],
   row [0x0F, 0x7F] [pF3] .MOVDQU [Wx, Vx]]

def vectorRowsC0 : List Definition :=
  [row [0x0F, 0xC2] [np] .CMPPS [Vx, Wx, Ib],
   row [0x0F, 0xC2] [p66] .CMPPD [Vx, Wx, Ib],
   row [0x0F, 0xC2] [pF3] .CMPSS [Vx, Wd, Ib],
   row [0x0F, 0xC2] [pF2] .CMPSD [Vx, Wq, Ib],
   row [0x0F, 0xC3] [np, memForm] .MOVNTI [My, Gy],
   row [0x0F, 0xC4] [np] .PINSRW [Pq, Ed, Ib],
   row [0x0F, 0xC4] [p66] .PINSRW [Vx, Ed, Ib],
   row [0x0F, 0xC5] [np, regForm] .PEXTRW [Gd, Nq, Ib],
   row [0x0F, 0xC5] [p66, regForm] .PEXTRW [Gd, Ux, Ib],
   row [0x0F, 0xC6] [np] .SHUFPS [Vx, Wx, Ib],
   row [0x0F, 0xC6] [p66] .SHUFPD [Vx, Wx, Ib],
   row [0x0F, 0xD0] [p66] .ADDSUBPD [Vx, Wx],
   row [0x0F, 0xD0] [pF2] .ADDSUBPS [Vx, Wx],
   row [0x0F, 0xD6] [p66] .MOVQ [Wq, Vx],
   row [0x0F, 0xD6] [pF3, regForm] .MOVQ2DQ [Vx, Nq],
   row [0x0F, 0xD6] [pF2, regForm] .MOVDQ2Q [Pq, Ux],
   row [0x0F, 0xD7] [np, regForm] .PMOVMSKB [Gd, Nq],
   row [0x0F, 0xD7] [p66, regForm] .PMOVMSKB [Gd, Ux],
   row [0x0F, 0xE6] [p66] .CVTTPD2DQ [Vx, Wx],
   row [0x0F, 0xE6] [pF3] .CVTDQ2PD [Vx, Wq],
   row [0x0F, 0xE6] [pF2] .CVTPD2DQ [Vx, Wx],
   row [0x0F, 0xE7] [np, memForm] .MOVNTQ [Mq, Pq],
   row [0x0F, 0xE7] [p66, memForm] .MOVNTDQ [Mdq, Vx],
   row [0x0F, 0xF0] [pF2, memForm] .LDDQU [Vx, Mdq],
   row [0x0F, 0xF7] [np, regForm] .MASKMOVQ [Pq, Nq],
   row [0x0F, 0xF7] [p66, regForm] .MASKMOVDQU [Vx, Ux]]

/-- The vector instructions of the 0F map. -/
def vector : List Definition :=
  floatVectors ++ vectorMoves ++ vectorConversions ++ vectorRows50 ++ packedIntegers ++ packedShifts
    ++ vectorRows60 ++ vectorRowsC0

end Opcodes
end X86
