import X86.Opcodes.Shorthand

/-! The 0F opcode map, apart from the vector instructions. -/

namespace X86
namespace Opcodes

open Lookup

def moveMnemonics : List Mnemonic :=
  [.CMOVO, .CMOVNO, .CMOVB, .CMOVAE, .CMOVZ, .CMOVNZ, .CMOVBE, .CMOVA,
   .CMOVS, .CMOVNS, .CMOVP, .CMOVNP, .CMOVL, .CMOVGE, .CMOVLE, .CMOVG]

def setMnemonics : List Mnemonic :=
  [.SETO, .SETNO, .SETB, .SETAE, .SETZ, .SETNZ, .SETBE, .SETA,
   .SETS, .SETNS, .SETP, .SETNP, .SETL, .SETGE, .SETLE, .SETG]

/-- Descriptor tables, virtual machines and other system instructions. -/
def systemRows : List Definition :=
  [row [0x0F, 0x00] [.reg 0] .SLDT [Ew],
   row [0x0F, 0x00] [.reg 1] .STR [Ew],
   row [0x0F, 0x00] [.reg 2] .LLDT [Ew],
   row [0x0F, 0x00] [.reg 3] .LTR [Ew],
   row [0x0F, 0x00] [.reg 4] .VERR [Ew],
   row [0x0F, 0x00] [.reg 5] .VERW [Ew],
   row [0x0F, 0x01] [.reg 0, memForm] .SGDT [M],
   row [0x0F, 0x01] [.reg 1, memForm] .SIDT [M],
   row [0x0F, 0x01] [.reg 2, memForm] .LGDT [M],
   row [0x0F, 0x01] [.reg 3, memForm] .LIDT [M],
   row [0x0F, 0x01] [.reg 4] .SMSW [Ew],
   row [0x0F, 0x01] [.reg 6] .LMSW [Ew],
   row [0x0F, 0x01] [.reg 7, memForm] .INVLPG [Mb],
   row [0x0F, 0x01] [.reg 0, regForm, .rm 1, intel] .VMCALL [],
   row [0x0F, 0x01] [.reg 0, regForm, .rm 2, intel] .VMLAUNCH [],
   row [0x0F, 0x01] [.reg 0, regForm, .rm 3, intel] .VMRESUME [],
   row [0x0F, 0x01] [.reg 0, regForm, .rm 4, intel] .VMXOFF [],
   row [0x0F, 0x01] [.reg 1, regForm, .rm 0] .MONITOR [],
   row [0x0F, 0x01] [.reg 1, regForm, .rm 1] .MWAIT [],
   row [0x0F, 0x01] [.reg 1, regForm, .rm 2] .CLAC [],
   row [0x0F, 0x01] [.reg 1, regForm, .rm 3] .STAC [],
   row [0x0F, 0x01] [.reg 2, regForm, .rm 0] .XGETBV [],
   row [0x0F, 0x01] [.reg 2, regForm, .rm 1] .XSETBV [],
   row [0x0F, 0x01] [.reg 3, regForm, .rm 0, amd] .VMRUN [],
   row [0x0F, 0x01] [.reg 3, regForm, .rm 1, amd] .VMMCALL [],
   row [0x0F, 0x01] [.reg 3, regForm, .rm 2, amd] .VMLOAD [],
   row [0x0F, 0x01] [.reg 3, regForm, .rm 3, amd] .VMSAVE [],
   row [0x0F, 0x01] [.reg 3, regForm, .rm 4, amd] .STGI [],
   row [0x0F, 0x01] [.reg 3, regForm, .rm 5, amd] .CLGI [],
   row [0x0F, 0x01] [.reg 3, regForm, .rm 6, amd] .SKINIT [],
   row [0x0F, 0x01] [.reg 3, regForm, .rm 7, amd] .INVLPGA [],
   row [0x0F, 0x01] [.reg 7, regForm, .rm 0, only64] .SWAPGS [],
   row [0x0F, 0x01] [.reg 7, regForm, .rm 1] .RDTSCP []]

def rows0F00 : List Definition :=
  [row [0x0F, 0x02] [] .LAR [Gv, Ew],
   row [0x0F, 0x03] [] .LSL [Gv, Ew],
   row [0x0F, 0x05] [] .SYSCALL [],
   row [0x0F, 0x06] [] .CLTS [],
   row [0x0F, 0x07] [] .SYSRET [],
   row [0x0F, 0x08] [] .INVD [],
   row [0x0F, 0x09] [] .WBINVD [],
   row [0x0F, 0x0B] [] .UD2 [],
   row [0x0F, 0x0D] [.reg 0, memForm] .PREFETCH [Mb],
   row [0x0F, 0x0D] [.reg 1, memForm] .PREFETCHW [Mb],
   row [0x0F, 0x0E] [amd] .FEMMS [],
   row [0x0F, 0x18] [.reg 0, memForm] .PREFETCHNTA [Mb],
   row [0x0F, 0x18] [.reg 1, memForm] .PREFETCHT0 [Mb],
   row [0x0F, 0x18] [.reg 2, memForm] .PREFETCHT1 [Mb],
   row [0x0F, 0x18] [.reg 3, memForm] .PREFETCHT2 [Mb],
   row [0x0F, 0x1F] [.reg 0] .NOP [Ev]]

def rows0F20 : List Definition :=
  [row [0x0F, 0x20] [] .MOV [Rn, Cn],
   row [0x0F, 0x21] [] .MOV [Rn, Dn],
   row [0x0F, 0x22] [] .MOV [Cn, Rn],
   row [0x0F, 0x23] [] .MOV [Dn, Rn],
   row [0x0F, 0x30] [] .WRMSR [],
   row [0x0F, 0x31] [] .RDTSC [],
   row [0x0F, 0x32] [] .RDMSR [],
   row [0x0F, 0x33] [] .RDPMC [],
   row [0x0F, 0x34] [] .SYSENTER [],
   row [0x0F, 0x35] [] .SYSEXIT [],
   row [0x0F, 0x37] [] .GETSEC []]

/-- Conditional moves and conditional byte stores. -/
def conditionals : List Definition :=
  (numbered moveMnemonics fun m i => [row [0x0F, 0x40 + UInt8.ofNat i] [] m [Gv, Ev]])
  ++ numbered setMnemonics fun m i => [row [0x0F, 0x90 + UInt8.ofNat i] [] m [Eb]]

def rows0F70 : List Definition :=
  [row [0x0F, 0x78] [np, intel] .VMREAD [Ey, Gy] default64,
   row [0x0F, 0x79] [np, intel] .VMWRITE [Gy, Ey] default64]

def rows0FA0 : List Definition :=
  [row [0x0F, 0xA0] [] .PUSH [FS] default64,
   row [0x0F, 0xA1] [] .POP [FS] default64,
   row [0x0F, 0xA2] [] .CPUID [],
   row [0x0F, 0xA3] [] .BT [Ev, Gv],
   row [0x0F, 0xA4] [] .SHLD [Ev, Gv, Ib],
   row [0x0F, 0xA5] [] .SHLD [Ev, Gv, CL],
   row [0x0F, 0xA8] [] .PUSH [GS] default64,
   row [0x0F, 0xA9] [] .POP [GS] default64,
   row [0x0F, 0xAA] [] .RSM [],
   row [0x0F, 0xAB] [] .BTS [Ev, Gv],
   row [0x0F, 0xAC] [] .SHRD [Ev, Gv, Ib],
   row [0x0F, 0xAD] [] .SHRD [Ev, Gv, CL],
   row [0x0F, 0xAE] [.reg 0, memForm] .FXSAVE [M],
   row [0x0F, 0xAE] [.reg 1, memForm] .FXRSTOR [M],
   row [0x0F, 0xAE] [.reg 2, memForm] .LDMXCSR [Md],
   row [0x0F, 0xAE] [.reg 3, memForm] .STMXCSR [Md],
   row [0x0F, 0xAE] [.reg 4, memForm] .XSAVE [M],
   row [0x0F, 0xAE] [.reg 5, memForm] .XRSTOR [M],
   row [0x0F, 0xAE] [.reg 6, memForm] .XSAVEOPT [M],
   row [0x0F, 0xAE] [.reg 7, memForm] .CLFLUSH [Mb],
   row [0x0F, 0xAE] [.reg 5, regForm] .LFENCE [],
   row [0x0F, 0xAE] [.reg 6, regForm] .MFENCE [],
   row [0x0F, 0xAE] [.reg 7, regForm] .SFENCE [],
   row [0x0F, 0xAF] [] .IMUL [Gv, Ev]]

def rows0FB0 : List Definition :=
  [row [0x0F, 0xB0] [] .CMPXCHG [Eb, Gb],
   row [0x0F, 0xB1] [] .CMPXCHG [Ev, Gv],
   row [0x0F, 0xB2] [] .LSS [Gv, Mp],
   row [0x0F, 0xB3] [] .BTR [Ev, Gv],
   row [0x0F, 0xB4] [] .LFS [Gv, Mp],
   row [0x0F, 0xB5] [] .LGS [Gv, Mp],
   row [0x0F, 0xB6] [] .MOVZX [Gv, Eb],
   row [0x0F, 0xB7] [] .MOVZX [Gv, Ew],
   row [0x0F, 0xB8] [pF3] .POPCNT [Gv, Ev],
   row [0x0F, 0xBA] [.reg 4] .BT [Ev, Ib],
   row [0x0F, 0xBA] [.reg 5] .BTS [Ev, Ib],
   row [0x0F, 0xBA] [.reg 6] .BTR [Ev, Ib],
   row [0x0F, 0xBA] [.reg 7] .BTC [Ev, Ib],
   row [0x0F, 0xBB] [] .BTC [Ev, Gv],
   row [0x0F, 0xBC] [np] .BSF [Gv, Ev],
   row [0x0F, 0xBC] [pF3] .TZCNT [Gv, Ev],
   row [0x0F, 0xBD] [np] .BSR [Gv, Ev],
   row [0x0F, 0xBD] [pF3] .LZCNT [Gv, Ev],
   row [0x0F, 0xBE] [] .MOVSX [Gv, Eb],
   row [0x0F, 0xBF] [] .MOVSX [Gv, Ew]]

def rows0FC0 : List Definition :=
  [row [0x0F, 0xC0] [] .XADD [Eb, Gb],
   row [0x0F, 0xC1] [] .XADD [Ev, Gv],
   row [0x0F, 0xC7] [.reg 1, memForm, o16] .CMPXCHG8B [Mq],
   row [0x0F, 0xC7] [.reg 1, memForm, o32] .CMPXCHG8B [Mq],
   row [0x0F, 0xC7] [.reg 1, memForm, o64] .CMPXCHG16B [Mdq],
   row [0x0F, 0xC7] [np, .reg 6, memForm, intel] .VMPTRLD [Mq],
   row [0x0F, 0xC7] [p66, .reg 6, memForm, intel] .VMCLEAR [Mq],
   row [0x0F, 0xC7] [pF3, .reg 6, memForm, intel] .VMXON [Mq],
   row [0x0F, 0xC7] [np, .reg 7, memForm, intel] .VMPTRST [Mq],
   row [0x0F, 0xC7] [.reg 6, regForm] .RDRAND [Rv],
   row [0x0F, 0xC7] [.reg 7, regForm] .RDSEED [Rv]]
    ++ eight [0x0F] 0xC8 .BSWAP [Zy]

/-- The 0F map apart from the vector instructions. -/
def twoByte : List Definition :=
  systemRows ++ rows0F00 ++ rows0F20 ++ conditionals ++ rows0F70 ++ rows0FA0 ++ rows0FB0
    ++ rows0FC0

end Opcodes
end X86
