import X86.Opcodes.Vector

/-! The opcode maps behind 0F 38 and 0F 3A. -/

namespace X86
namespace Opcodes

open Lookup

/-- Operations with a 64-bit and a vector form. -/
def pairedOperations : List (UInt8 × Mnemonic) :=
  [(0x00, .PSHUFB), (0x01, .PHADDW), (0x02, .PHADDD), (0x03, .PHADDSW), (0x04, .PMADDUBSW),
   (0x05, .PHSUBW), (0x06, .PHSUBD), (0x07, .PHSUBSW), (0x08, .PSIGNB), (0x09, .PSIGNW),
   (0x0A, .PSIGND), (0x0B, .PMULHRSW), (0x1C, .PABSB), (0x1D, .PABSW), (0x1E, .PABSD)]

/-- Vector operations under 66, by opcode, with their source operand. -/
def vectorOperations : List (UInt8 × Mnemonic × Template) :=
  [(0x10, .PBLENDVB, Wx), (0x14, .BLENDVPS, Wx), (0x15, .BLENDVPD, Wx), (0x17, .PTEST, Wx),
   (0x28, .PMULDQ, Wx), (0x29, .PCMPEQQ, Wx), (0x2B, .PACKUSDW, Wx), (0x37, .PCMPGTQ, Wx),
   (0x38, .PMINSB, Wx), (0x39, .PMINSD, Wx), (0x3A, .PMINUW, Wx), (0x3B, .PMINUD, Wx),
   (0x3C, .PMAXSB, Wx), (0x3D, .PMAXSD, Wx), (0x3E, .PMAXUW, Wx), (0x3F, .PMAXUD, Wx),
   (0x40, .PMULLD, Wx), (0x41, .PHMINPOSUW, Wx), (0xDB, .AESIMC, Wx), (0xDC, .AESENC, Wx),
   (0xDD, .AESENCLAST, Wx), (0xDE, .AESDEC, Wx), (0xDF, .AESDECLAST, Wx), (0x2A, .MOVNTDQA, Mdq),
   (0x20, .PMOVSXBW, Wq), (0x21, .PMOVSXBD, Wd), (0x22, .PMOVSXBQ, Ww), (0x23, .PMOVSXWD, Wq),
   (0x24, .PMOVSXWQ, Wd), (0x25, .PMOVSXDQ, Wq), (0x30, .PMOVZXBW, Wq), (0x31, .PMOVZXBD, Wd),
   (0x32, .PMOVZXBQ, Ww), (0x33, .PMOVZXWD, Wq), (0x34, .PMOVZXWQ, Wd), (0x35, .PMOVZXDQ, Wq)]

/-- Vector operations under 66 with an immediate, with their source operand. -/
def immediateOperations : List (UInt8 × Mnemonic × Template) :=
  [(0x08, .ROUNDPS, Wx), (0x09, .ROUNDPD, Wx), (0x0A, .ROUNDSS, Wd), (0x0B, .ROUNDSD, Wq),
   (0x0C, .BLENDPS, Wx), (0x0D, .BLENDPD, Wx), (0x0E, .PBLENDW, Wx), (0x21, .INSERTPS, Wd),
   (0x40, .DPPS, Wx), (0x41, .DPPD, Wx), (0x42, .MPSADBW, Wx), (0x44, .PCLMULQDQ, Wx),
   (0xDF, .AESKEYGENASSIST, Wx), (0x60, .PCMPESTRM, Wx), (0x61, .PCMPESTRI, Wx),
   (0x62, .PCMPISTRM, Wx), (0x63, .PCMPISTRI, Wx)]

def rows0F38 : List Definition :=
  [row [0x0F, 0x38, 0x80] [p66, memForm, intel] .INVEPT [Gy, Mdq] default64,
   row [0x0F, 0x38, 0x81] [p66, memForm, intel] .INVVPID [Gy, Mdq] default64,
   row [0x0F, 0x38, 0xF0] [np, memForm] .MOVBE [Gv, Mv],
   row [0x0F, 0x38, 0xF1] [np, memForm] .MOVBE [Mv, Gv],
   row [0x0F, 0x38, 0xF0] [pF2] .CRC32 [Gy, Eb],
   row [0x0F, 0x38, 0xF1] [pF2] .CRC32 [Gy, Ev]]

def rows0F3A : List Definition :=
  [row [0x0F, 0x3A, 0x0F] [np] .PALIGNR [Pq, Qq, Ib],
   row [0x0F, 0x3A, 0x0F] [p66] .PALIGNR [Vx, Wx, Ib],
   row [0x0F, 0x3A, 0x14] [p66] .PEXTRB [Ed, Vx, Ib],
   row [0x0F, 0x3A, 0x15] [p66] .PEXTRW [Ed, Vx, Ib],
   row [0x0F, 0x3A, 0x16] [p66, o16] .PEXTRD [Ed, Vx, Ib],
   row [0x0F, 0x3A, 0x16] [p66, o32] .PEXTRD [Ed, Vx, Ib],
   row [0x0F, 0x3A, 0x16] [p66, o64] .PEXTRQ [Eq, Vx, Ib],
   row [0x0F, 0x3A, 0x17] [p66] .EXTRACTPS [Ed, Vx, Ib],
   row [0x0F, 0x3A, 0x20] [p66] .PINSRB [Vx, Ed, Ib],
   row [0x0F, 0x3A, 0x22] [p66, o16] .PINSRD [Vx, Ed, Ib],
   row [0x0F, 0x3A, 0x22] [p66, o32] .PINSRD [Vx, Ed, Ib],
   row [0x0F, 0x3A, 0x22] [p66, o64] .PINSRQ [Vx, Eq, Ib]]

/-- The 0F 38 and 0F 3A maps. -/
def threeByte : List Definition :=
  (pairedOperations.flatMap fun (opcode, m) => packed [0x0F, 0x38, opcode] m)
  ++ (vectorOperations.map fun (opcode, m, source) => row [0x0F, 0x38, opcode] [p66] m [Vx, source])
  ++ rows0F38
  ++ (immediateOperations.map fun (opcode, m, source) =>
   row [0x0F, 0x3A, opcode] [p66] m [Vx, source, Ib])
  ++ rows0F3A

end Opcodes
end X86
