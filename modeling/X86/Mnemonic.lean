/-!
Instruction mnemonics, named as the manuals spell them, and the classes of mnemonics that the text
forms treat apart.
-/

namespace X86

/-- The mnemonics that can be decoded; `INVALID` stands on an instruction that could not be. -/
inductive Mnemonic
  | INVALID | AAA | AAD | AAM | AAS | ADC | ADD | ADDPD | ADDPS | ADDSD | ADDSS | ADDSUBPD
  | ADDSUBPS | AESDEC | AESDECLAST | AESENC | AESENCLAST | AESIMC | AESKEYGENASSIST | AND
  | ANDNPD | ANDNPS | ANDPD | ANDPS | ARPL | BLENDPD | BLENDPS | BLENDVPD | BLENDVPS | BOUND
  | BSF | BSR | BSWAP | BT | BTC | BTR | BTS | CALL | CBW | CDQ | CDQE | CLAC | CLC | CLD
  | CLFLUSH | CLGI | CLI | CLTS | CMC | CMOVA | CMOVAE | CMOVB | CMOVBE | CMOVG | CMOVGE | CMOVL
  | CMOVLE | CMOVNO | CMOVNP | CMOVNS | CMOVNZ | CMOVO | CMOVP | CMOVS | CMOVZ | CMP | CMPPD
  | CMPPS | CMPSB | CMPSD | CMPSQ | CMPSS | CMPSW | CMPXCHG | CMPXCHG16B | CMPXCHG8B | COMISD
  | COMISS | CPUID | CQO | CRC32 | CVTDQ2PD | CVTDQ2PS | CVTPD2DQ | CVTPD2PI | CVTPD2PS
  | CVTPI2PD | CVTPI2PS | CVTPS2DQ | CVTPS2PD | CVTPS2PI | CVTSD2SI | CVTSD2SS | CVTSI2SD
  | CVTSI2SS | CVTSS2SD | CVTSS2SI | CVTTPD2DQ | CVTTPD2PI | CVTTPS2DQ | CVTTPS2PI | CVTTSD2SI
  | CVTTSS2SI | CWD | CWDE | DAA | DAS | DEC | DIV | DIVPD | DIVPS | DIVSD | DIVSS | DPPD | DPPS
  | EMMS | ENTER | EXTRACTPS | F2XM1 | FABS | FADD | FADDP | FBLD | FBSTP | FCHS | FCMOVB
  | FCMOVBE | FCMOVE | FCMOVNB | FCMOVNBE | FCMOVNE | FCMOVNU | FCMOVU | FCOM | FCOM2 | FCOMI
  | FCOMIP | FCOMP | FCOMP3 | FCOMP5 | FCOMPP | FCOS | FDECSTP | FDIV | FDIVP | FDIVR | FDIVRP
  | FEMMS | FFREE | FFREEP | FIADD | FICOM | FICOMP | FIDIV | FIDIVR | FILD | FIMUL | FINCSTP
  | FIST | FISTP | FISTTP | FISUB | FISUBR | FLD | FLD1 | FLDCW | FLDENV | FLDL2E | FLDL2T
  | FLDLG2 | FLDLN2 | FLDPI | FLDZ | FMUL | FMULP | FNCLEX | FNINIT | FNOP | FNSAVE | FNSTCW
  | FNSTENV | FNSTSW | FPATAN | FPREM | FPREM1 | FPTAN | FRNDINT | FRSTOR | FSCALE | FSIN
  | FSINCOS | FSQRT | FST | FSTP | FSTP1 | FSTP8 | FSTP9 | FSUB | FSUBP | FSUBR | FSUBRP | FTST
  | FUCOM | FUCOMI | FUCOMIP | FUCOMP | FUCOMPP | FXAM | FXCH | FXCH4 | FXCH7 | FXRSTOR | FXSAVE
  | FXTRACT | FYL2X | FYL2XP1 | GETSEC | HADDPD | HADDPS | HLT | HSUBPD | HSUBPS | IDIV | IMUL
  | IN | INC | INSB | INSD | INSERTPS | INSW | INT | INT1 | INT3 | INTO | INVD | INVEPT | INVLPG
  | INVLPGA | INVVPID | IRETD | IRETQ | IRETW | JA | JAE | JB | JBE | JCXZ | JECXZ | JG | JGE
  | JL | JLE | JMP | JNO | JNP | JNS | JNZ | JO | JP | JRCXZ | JS | JZ | LAHF | LAR | LDDQU
  | LDMXCSR | LDS | LEA | LEAVE | LES | LFENCE | LFS | LGDT | LGS | LIDT | LLDT | LMSW | LODSB
  | LODSD | LODSQ | LODSW | LOOP | LOOPE | LOOPNE | LSL | LSS | LTR | LZCNT | MASKMOVDQU
  | MASKMOVQ | MAXPD | MAXPS | MAXSD | MAXSS | MFENCE | MINPD | MINPS | MINSD | MINSS | MONITOR
  | MOV | MOVAPD | MOVAPS | MOVBE | MOVD | MOVDDUP | MOVDQ2Q | MOVDQA | MOVDQU | MOVHLPS
  | MOVHPD | MOVHPS | MOVLHPS | MOVLPD | MOVLPS | MOVMSKPD | MOVMSKPS | MOVNTDQ | MOVNTDQA
  | MOVNTI | MOVNTPD | MOVNTPS | MOVNTQ | MOVQ | MOVQ2DQ | MOVSB | MOVSD | MOVSHDUP | MOVSLDUP
  | MOVSQ | MOVSS | MOVSW | MOVSX | MOVSXD | MOVUPD | MOVUPS | MOVZX | MPSADBW | MUL | MULPD
  | MULPS | MULSD | MULSS | MWAIT | NEG | NOP | NOT | OR | ORPD | ORPS | OUT | OUTSB | OUTSD
  | OUTSW | PABSB | PABSD | PABSW | PACKSSDW | PACKSSWB | PACKUSDW | PACKUSWB | PADDB | PADDD
  | PADDQ | PADDSB | PADDSW | PADDUSB | PADDUSW | PADDW | PALIGNR | PAND | PANDN | PAUSE | PAVGB
  | PAVGW | PBLENDVB | PBLENDW | PCLMULQDQ | PCMPEQB | PCMPEQD | PCMPEQQ | PCMPEQW | PCMPESTRI
  | PCMPESTRM | PCMPGTB | PCMPGTD | PCMPGTQ | PCMPGTW | PCMPISTRI | PCMPISTRM | PEXTRB | PEXTRD
  | PEXTRQ | PEXTRW | PHADDD | PHADDSW | PHADDW | PHMINPOSUW | PHSUBD | PHSUBSW | PHSUBW
  | PINSRB | PINSRD | PINSRQ | PINSRW | PMADDUBSW | PMADDWD | PMAXSB | PMAXSD | PMAXSW | PMAXUB
  | PMAXUD | PMAXUW | PMINSB | PMINSD | PMINSW | PMINUB | PMINUD | PMINUW | PMOVMSKB | PMOVSXBD
  | PMOVSXBQ | PMOVSXBW | PMOVSXDQ | PMOVSXWD | PMOVSXWQ | PMOVZXBD | PMOVZXBQ | PMOVZXBW
  | PMOVZXDQ | PMOVZXWD | PMOVZXWQ | PMULDQ | PMULHRSW | PMULHUW | PMULHW | PMULLD | PMULLW
  | PMULUDQ | POP | POPA | POPAD | POPCNT | POPFD | POPFQ | POPFW | POR | PREFETCH | PREFETCHNTA
  | PREFETCHT0 | PREFETCHT1 | PREFETCHT2 | PREFETCHW | PSADBW | PSHUFB | PSHUFD | PSHUFHW
  | PSHUFLW | PSHUFW | PSIGNB | PSIGND | PSIGNW | PSLLD | PSLLDQ | PSLLQ | PSLLW | PSRAD | PSRAW
  | PSRLD | PSRLDQ | PSRLQ | PSRLW | PSUBB | PSUBD | PSUBQ | PSUBSB | PSUBSW | PSUBUSB | PSUBUSW
  | PSUBW | PTEST | PUNPCKHBW | PUNPCKHDQ | PUNPCKHQDQ | PUNPCKHWD | PUNPCKLBW | PUNPCKLDQ
  | PUNPCKLQDQ | PUNPCKLWD | PUSH | PUSHA | PUSHAD | PUSHFD | PUSHFQ | PUSHFW | PXOR | RCL
  | RCPPS | RCPSS | RCR | RDMSR | RDPMC | RDRAND | RDSEED | RDTSC | RDTSCP | RET | RETF | ROL
  | ROR | ROUNDPD | ROUNDPS | ROUNDSD | ROUNDSS | RSM | RSQRTPS | RSQRTSS | SAHF | SALC | SAR
  | SBB | SCASB | SCASD | SCASQ | SCASW | SETA | SETAE | SETB | SETBE | SETG | SETGE | SETL
  | SETLE | SETNO | SETNP | SETNS | SETNZ | SETO | SETP | SETS | SETZ | SFENCE | SGDT | SHL
  | SHLD | SHR | SHRD | SHUFPD | SHUFPS | SIDT | SKINIT | SLDT | SMSW | SQRTPD | SQRTPS | SQRTSD
  | SQRTSS | STAC | STC | STD | STGI | STI | STMXCSR | STOSB | STOSD | STOSQ | STOSW | STR | SUB
  | SUBPD | SUBPS | SUBSD | SUBSS | SWAPGS | SYSCALL | SYSENTER | SYSEXIT | SYSRET | TEST
  | TZCNT | UCOMISD | UCOMISS | UD2 | UNPCKHPD | UNPCKHPS | UNPCKLPD | UNPCKLPS | VERR | VERW
  | VMCALL | VMCLEAR | VMLAUNCH | VMLOAD | VMMCALL | VMPTRLD | VMPTRST | VMREAD | VMRESUME
  | VMRUN | VMSAVE | VMWRITE | VMXOFF | VMXON | WAIT | WBINVD | WRMSR | XADD | XCHG | XGETBV
  | XLATB | XOR | XORPD | XORPS | XRSTOR | XSAVE | XSAVEOPT | XSETBV
  deriving DecidableEq

namespace Mnemonic

/-- The uppercase text of a mnemonic. -/
def name : Mnemonic → String
  | INVALID => "INVALID"
  | AAA => "AAA"
  | AAD => "AAD"
  | AAM => "AAM"
  | AAS => "AAS"
  | ADC => "ADC"
  | ADD => "ADD"
  | ADDPD => "ADDPD"
  | ADDPS => "ADDPS"
  | ADDSD => "ADDSD"
  | ADDSS => "ADDSS"
  | ADDSUBPD => "ADDSUBPD"
  | ADDSUBPS => "ADDSUBPS"
  | AESDEC => "AESDEC"
  | AESDECLAST => "AESDECLAST"
  | AESENC => "AESENC"
  | AESENCLAST => "AESENCLAST"
  | AESIMC => "AESIMC"
  | AESKEYGENASSIST => "AESKEYGENASSIST"
  | AND => "AND"
  | ANDNPD => "ANDNPD"
  | ANDNPS => "ANDNPS"
  | ANDPD => "ANDPD"
  | ANDPS => "ANDPS"
  | ARPL => "ARPL"
  | BLENDPD => "BLENDPD"
  | BLENDPS => "BLENDPS"
  | BLENDVPD => "BLENDVPD"
  | BLENDVPS => "BLENDVPS"
  | BOUND => "BOUND"
  | BSF => "BSF"
  | BSR => "BSR"
  | BSWAP => "BSWAP"
  | BT => "BT"
  | BTC => "BTC"
  | BTR => "BTR"
  | BTS => "BTS"
  | CALL => "CALL"
  | CBW => "CBW"
  | CDQ => "CDQ"
  | CDQE => "CDQE"
  | CLAC => "CLAC"
  | CLC => "CLC"
  | CLD => "CLD"
  | CLFLUSH => "CLFLUSH"
  | CLGI => "CLGI"
  | CLI => "CLI"
  | CLTS => "CLTS"
  | CMC => "CMC"
  | CMOVA => "CMOVA"
  | CMOVAE => "CMOVAE"
  | CMOVB => "CMOVB"
  | CMOVBE => "CMOVBE"
  | CMOVG => "CMOVG"
  | CMOVGE => "CMOVGE"
  | CMOVL => "CMOVL"
  | CMOVLE => "CMOVLE"
  | CMOVNO => "CMOVNO"
  | CMOVNP => "CMOVNP"
  | CMOVNS => "CMOVNS"
  | CMOVNZ => "CMOVNZ"
  | CMOVO => "CMOVO"
  | CMOVP => "CMOVP"
  | CMOVS => "CMOVS"
  | CMOVZ => "CMOVZ"
  | CMP => "CMP"
  | CMPPD => "CMPPD"
  | CMPPS => "CMPPS"
  | CMPSB => "CMPSB"
  | CMPSD => "CMPSD"
  | CMPSQ => "CMPSQ"
  | CMPSS => "CMPSS"
  | CMPSW => "CMPSW"
  | CMPXCHG => "CMPXCHG"
  | CMPXCHG16B => "CMPXCHG16B"
  | CMPXCHG8B => "CMPXCHG8B"
  | COMISD => "COMISD"
  | COMISS => "COMISS"
  | CPUID => "CPUID"
  | CQO => "CQO"
  | CRC32 => "CRC32"
  | CVTDQ2PD => "CVTDQ2PD"
  | CVTDQ2PS => "CVTDQ2PS"
  | CVTPD2DQ => "CVTPD2DQ"
  | CVTPD2PI => "CVTPD2PI"
  | CVTPD2PS => "CVTPD2PS"
  | CVTPI2PD => "CVTPI2PD"
  | CVTPI2PS => "CVTPI2PS"
  | CVTPS2DQ => "CVTPS2DQ"
  | CVTPS2PD => "CVTPS2PD"
  | CVTPS2PI => "CVTPS2PI"
  | CVTSD2SI => "CVTSD2SI"
  | CVTSD2SS => "CVTSD2SS"
  | CVTSI2SD => "CVTSI2SD"
  | CVTSI2SS => "CVTSI2SS"
  | CVTSS2SD => "CVTSS2SD"
  | CVTSS2SI => "CVTSS2SI"
  | CVTTPD2DQ => "CVTTPD2DQ"
  | CVTTPD2PI => "CVTTPD2PI"
  | CVTTPS2DQ => "CVTTPS2DQ"
  | CVTTPS2PI => "CVTTPS2PI"
  | CVTTSD2SI => "CVTTSD2SI"
  | CVTTSS2SI => "CVTTSS2SI"
  | CWD => "CWD"
  | CWDE => "CWDE"
  | DAA => "DAA"
  | DAS => "DAS"
  | DEC => "DEC"
  | DIV => "DIV"
  | DIVPD => "DIVPD"
  | DIVPS => "DIVPS"
  | DIVSD => "DIVSD"
  | DIVSS => "DIVSS"
  | DPPD => "DPPD"
  | DPPS => "DPPS"
  | EMMS => "EMMS"
  | ENTER => "ENTER"
  | EXTRACTPS => "EXTRACTPS"
  | F2XM1 => "F2XM1"
  | FABS => "FABS"
  | FADD => "FADD"
  | FADDP => "FADDP"
  | FBLD => "FBLD"
  | FBSTP => "FBSTP"
  | FCHS => "FCHS"
  | FCMOVB => "FCMOVB"
  | FCMOVBE => "FCMOVBE"
  | FCMOVE => "FCMOVE"
  | FCMOVNB => "FCMOVNB"
  | FCMOVNBE => "FCMOVNBE"
  | FCMOVNE => "FCMOVNE"
  | FCMOVNU => "FCMOVNU"
  | FCMOVU => "FCMOVU"
  | FCOM => "FCOM"
  | FCOM2 => "FCOM2"
  | FCOMI => "FCOMI"
  | FCOMIP => "FCOMIP"
  | FCOMP => "FCOMP"
  | FCOMP3 => "FCOMP3"
  | FCOMP5 => "FCOMP5"
  | FCOMPP => "FCOMPP"
  | FCOS => "FCOS"
  | FDECSTP => "FDECSTP"
  | FDIV => "FDIV"
  | FDIVP => "FDIVP"
  | FDIVR => "FDIVR"
  | FDIVRP => "FDIVRP"
  | FEMMS => "FEMMS"
  | FFREE => "FFREE"
  | FFREEP => "FFREEP"
  | FIADD => "FIADD"
  | FICOM => "FICOM"
  | FICOMP => "FICOMP"
  | FIDIV => "FIDIV"
  | FIDIVR => "FIDIVR"
  | FILD => "FILD"
  | FIMUL => "FIMUL"
  | FINCSTP => "FINCSTP"
  | FIST => "FIST"
  | FISTP => "FISTP"
  | FISTTP => "FISTTP"
  | FISUB => "FISUB"
  | FISUBR => "FISUBR"
  | FLD => "FLD"
  | FLD1 => "FLD1"
  | FLDCW => "FLDCW"
  | FLDENV => "FLDENV"
  | FLDL2E => "FLDL2E"
  | FLDL2T => "FLDL2T"
  | FLDLG2 => "FLDLG2"
  | FLDLN2 => "FLDLN2"
  | FLDPI => "FLDPI"
  | FLDZ => "FLDZ"
  | FMUL => "FMUL"
  | FMULP => "FMULP"
  | FNCLEX => "FNCLEX"
  | FNINIT => "FNINIT"
  | FNOP => "FNOP"
  | FNSAVE => "FNSAVE"
  | FNSTCW => "FNSTCW"
  | FNSTENV => "FNSTENV"
  | FNSTSW => "FNSTSW"
  | FPATAN => "FPATAN"
  | FPREM => "FPREM"
  | FPREM1 => "FPREM1"
  | FPTAN => "FPTAN"
  | FRNDINT => "FRNDINT"
  | FRSTOR => "FRSTOR"
  | FSCALE => "FSCALE"
  | FSIN => "FSIN"
  | FSINCOS => "FSINCOS"
  | FSQRT => "FSQRT"
  | FST => "FST"
  | FSTP => "FSTP"
  | FSTP1 => "FSTP1"
  | FSTP8 => "FSTP8"
  | FSTP9 => "FSTP9"
  | FSUB => "FSUB"
  | FSUBP => "FSUBP"
  | FSUBR => "FSUBR"
  | FSUBRP => "FSUBRP"
  | FTST => "FTST"
  | FUCOM => "FUCOM"
  | FUCOMI => "FUCOMI"
  | FUCOMIP => "FUCOMIP"
  | FUCOMP => "FUCOMP"
  | FUCOMPP => "FUCOMPP"
  | FXAM => "FXAM"
  | FXCH => "FXCH"
  | FXCH4 => "FXCH4"
  | FXCH7 => "FXCH7"
  | FXRSTOR => "FXRSTOR"
  | FXSAVE => "FXSAVE"
  | FXTRACT => "FXTRACT"
  | FYL2X => "FYL2X"
  | FYL2XP1 => "FYL2XP1"
  | GETSEC => "GETSEC"
  | HADDPD => "HADDPD"
  | HADDPS => "HADDPS"
  | HLT => "HLT"
  | HSUBPD => "HSUBPD"
  | HSUBPS => "HSUBPS"
  | IDIV => "IDIV"
  | IMUL => "IMUL"
  | IN => "IN"
  | INC => "INC"
  | INSB => "INSB"
  | INSD => "INSD"
  | INSERTPS => "INSERTPS"
  | INSW => "INSW"
  | INT => "INT"
  | INT1 => "INT1"
  | INT3 => "INT3"
  | INTO => "INTO"
  | INVD => "INVD"
  | INVEPT => "INVEPT"
  | INVLPG => "INVLPG"
  | INVLPGA => "INVLPGA"
  | INVVPID => "INVVPID"
  | IRETD => "IRETD"
  | IRETQ => "IRETQ"
  | IRETW => "IRETW"
  | JA => "JA"
  | JAE => "JAE"
  | JB => "JB"
  | JBE => "JBE"
  | JCXZ => "JCXZ"
  | JECXZ => "JECXZ"
  | JG => "JG"
  | JGE => "JGE"
  | JL => "JL"
  | JLE => "JLE"
  | JMP => "JMP"
  | JNO => "JNO"
  | JNP => "JNP"
  | JNS => "JNS"
  | JNZ => "JNZ"
  | JO => "JO"
  | JP => "JP"
  | JRCXZ => "JRCXZ"
  | JS => "JS"
  | JZ => "JZ"
  | LAHF => "LAHF"
  | LAR => "LAR"
  | LDDQU => "LDDQU"
  | LDMXCSR => "LDMXCSR"
  | LDS => "LDS"
  | LEA => "LEA"
  | LEAVE => "LEAVE"
  | LES => "LES"
  | LFENCE => "LFENCE"
  | LFS => "LFS"
  | LGDT => "LGDT"
  | LGS => "LGS"
  | LIDT => "LIDT"
  | LLDT => "LLDT"
  | LMSW => "LMSW"
  | LODSB => "LODSB"
  | LODSD => "LODSD"
  | LODSQ => "LODSQ"
  | LODSW => "LODSW"
  | LOOP => "LOOP"
  | LOOPE => "LOOPE"
  | LOOPNE => "LOOPNE"
  | LSL => "LSL"
  | LSS => "LSS"
  | LTR => "LTR"
  | LZCNT => "LZCNT"
  | MASKMOVDQU => "MASKMOVDQU"
  | MASKMOVQ => "MASKMOVQ"
  | MAXPD => "MAXPD"
  | MAXPS => "MAXPS"
  | MAXSD => "MAXSD"
  | MAXSS => "MAXSS"
  | MFENCE => "MFENCE"
  | MINPD => "MINPD"
  | MINPS => "MINPS"
  | MINSD => "MINSD"
  | MINSS => "MINSS"
  | MONITOR => "MONITOR"
  | MOV => "MOV"
  | MOVAPD => "MOVAPD"
  | MOVAPS => "MOVAPS"
  | MOVBE => "MOVBE"
  | MOVD => "MOVD"
  | MOVDDUP => "MOVDDUP"
  | MOVDQ2Q => "MOVDQ2Q"
  | MOVDQA => "MOVDQA"
  | MOVDQU => "MOVDQU"
  | MOVHLPS => "MOVHLPS"
  | MOVHPD => "MOVHPD"
  | MOVHPS => "MOVHPS"
  | MOVLHPS => "MOVLHPS"
  | MOVLPD => "MOVLPD"
  | MOVLPS => "MOVLPS"
  | MOVMSKPD => "MOVMSKPD"
  | MOVMSKPS => "MOVMSKPS"
  | MOVNTDQ => "MOVNTDQ"
  | MOVNTDQA => "MOVNTDQA"
  | MOVNTI => "MOVNTI"
  | MOVNTPD => "MOVNTPD"
  | MOVNTPS => "MOVNTPS"
  | MOVNTQ => "MOVNTQ"
  | MOVQ => "MOVQ"
  | MOVQ2DQ => "MOVQ2DQ"
  | MOVSB => "MOVSB"
  | MOVSD => "MOVSD"
  | MOVSHDUP => "MOVSHDUP"
  | MOVSLDUP => "MOVSLDUP"
  | MOVSQ => "MOVSQ"
  | MOVSS => "MOVSS"
  | MOVSW => "MOVSW"
  | MOVSX => "MOVSX"
  | MOVSXD => "MOVSXD"
  | MOVUPD => "MOVUPD"
  | MOVUPS => "MOVUPS"
  | MOVZX => "MOVZX"
  | MPSADBW => "MPSADBW"
  | MUL => "MUL"
  | MULPD => "MULPD"
  | MULPS => "MULPS"
  | MULSD => "MULSD"
  | MULSS => "MULSS"
  | MWAIT => "MWAIT"
  | NEG => "NEG"
  | NOP => "NOP"
  | NOT => "NOT"
  | OR => "OR"
  | ORPD => "ORPD"
  | ORPS => "ORPS"
  | OUT => "OUT"
  | OUTSB => "OUTSB"
  | OUTSD => "OUTSD"
  | OUTSW => "OUTSW"
  | PABSB => "PABSB"
  | PABSD => "PABSD"
  | PABSW => "PABSW"
  | PACKSSDW => "PACKSSDW"
  | PACKSSWB => "PACKSSWB"
  | PACKUSDW => "PACKUSDW"
  | PACKUSWB => "PACKUSWB"
  | PADDB => "PADDB"
  | PADDD => "PADDD"
  | PADDQ => "PADDQ"
  | PADDSB => "PADDSB"
  | PADDSW => "PADDSW"
  | PADDUSB => "PADDUSB"
  | PADDUSW => "PADDUSW"
  | PADDW => "PADDW"
  | PALIGNR => "PALIGNR"
  | PAND => "PAND"
  | PANDN => "PANDN"
  | PAUSE => "PAUSE"
  | PAVGB => "PAVGB"
  | PAVGW => "PAVGW"
  | PBLENDVB => "PBLENDVB"
  | PBLENDW => "PBLENDW"
  | PCLMULQDQ => "PCLMULQDQ"
  | PCMPEQB => "PCMPEQB"
  | PCMPEQD => "PCMPEQD"
  | PCMPEQQ => "PCMPEQQ"
  | PCMPEQW => "PCMPEQW"
  | PCMPESTRI => "PCMPESTRI"
  | PCMPESTRM => "PCMPESTRM"
  | PCMPGTB => "PCMPGTB"
  | PCMPGTD => "PCMPGTD"
  | PCMPGTQ => "PCMPGTQ"
  | PCMPGTW => "PCMPGTW"
  | PCMPISTRI => "PCMPISTRI"
  | PCMPISTRM => "PCMPISTRM"
  | PEXTRB => "PEXTRB"
  | PEXTRD => "PEXTRD"
  | PEXTRQ => "PEXTRQ"
  | PEXTRW => "PEXTRW"
  | PHADDD => "PHADDD"
  | PHADDSW => "PHADDSW"
  | PHADDW => "PHADDW"
  | PHMINPOSUW => "PHMINPOSUW"
  | PHSUBD => "PHSUBD"
  | PHSUBSW => "PHSUBSW"
  | PHSUBW => "PHSUBW"
  | PINSRB => "PINSRB"
  | PINSRD => "PINSRD"
  | PINSRQ => "PINSRQ"
  | PINSRW => "PINSRW"
  | PMADDUBSW => "PMADDUBSW"
  | PMADDWD => "PMADDWD"
  | PMAXSB => "PMAXSB"
  | PMAXSD => "PMAXSD"
  | PMAXSW => "PMAXSW"
  | PMAXUB => "PMAXUB"
  | PMAXUD => "PMAXUD"
  | PMAXUW => "PMAXUW"
  | PMINSB => "PMINSB"
  | PMINSD => "PMINSD"
  | PMINSW => "PMINSW"
  | PMINUB => "PMINUB"
  | PMINUD => "PMINUD"
  | PMINUW => "PMINUW"
  | PMOVMSKB => "PMOVMSKB"
  | PMOVSXBD => "PMOVSXBD"
  | PMOVSXBQ => "PMOVSXBQ"
  | PMOVSXBW => "PMOVSXBW"
  | PMOVSXDQ => "PMOVSXDQ"
  | PMOVSXWD => "PMOVSXWD"
  | PMOVSXWQ => "PMOVSXWQ"
  | PMOVZXBD => "PMOVZXBD"
  | PMOVZXBQ => "PMOVZXBQ"
  | PMOVZXBW => "PMOVZXBW"
  | PMOVZXDQ => "PMOVZXDQ"
  | PMOVZXWD => "PMOVZXWD"
  | PMOVZXWQ => "PMOVZXWQ"
  | PMULDQ => "PMULDQ"
  | PMULHRSW => "PMULHRSW"
  | PMULHUW => "PMULHUW"
  | PMULHW => "PMULHW"
  | PMULLD => "PMULLD"
  | PMULLW => "PMULLW"
  | PMULUDQ => "PMULUDQ"
  | POP => "POP"
  | POPA => "POPA"
  | POPAD => "POPAD"
  | POPCNT => "POPCNT"
  | POPFD => "POPFD"
  | POPFQ => "POPFQ"
  | POPFW => "POPFW"
  | POR => "POR"
  | PREFETCH => "PREFETCH"
  | PREFETCHNTA => "PREFETCHNTA"
  | PREFETCHT0 => "PREFETCHT0"
  | PREFETCHT1 => "PREFETCHT1"
  | PREFETCHT2 => "PREFETCHT2"
  | PREFETCHW => "PREFETCHW"
  | PSADBW => "PSADBW"
  | PSHUFB => "PSHUFB"
  | PSHUFD => "PSHUFD"
  | PSHUFHW => "PSHUFHW"
  | PSHUFLW => "PSHUFLW"
  | PSHUFW => "PSHUFW"
  | PSIGNB => "PSIGNB"
  | PSIGND => "PSIGND"
  | PSIGNW => "PSIGNW"
  | PSLLD => "PSLLD"
  | PSLLDQ => "PSLLDQ"
  | PSLLQ => "PSLLQ"
  | PSLLW => "PSLLW"
  | PSRAD => "PSRAD"
  | PSRAW => "PSRAW"
  | PSRLD => "PSRLD"
  | PSRLDQ => "PSRLDQ"
  | PSRLQ => "PSRLQ"
  | PSRLW => "PSRLW"
  | PSUBB => "PSUBB"
  | PSUBD => "PSUBD"
  | PSUBQ => "PSUBQ"
  | PSUBSB => "PSUBSB"
  | PSUBSW => "PSUBSW"
  | PSUBUSB => "PSUBUSB"
  | PSUBUSW => "PSUBUSW"
  | PSUBW => "PSUBW"
  | PTEST => "PTEST"
  | PUNPCKHBW => "PUNPCKHBW"
  | PUNPCKHDQ => "PUNPCKHDQ"
  | PUNPCKHQDQ => "PUNPCKHQDQ"
  | PUNPCKHWD => "PUNPCKHWD"
  | PUNPCKLBW => "PUNPCKLBW"
  | PUNPCKLDQ => "PUNPCKLDQ"
  | PUNPCKLQDQ => "PUNPCKLQDQ"
  | PUNPCKLWD => "PUNPCKLWD"
  | PUSH => "PUSH"
  | PUSHA => "PUSHA"
  | PUSHAD => "PUSHAD"
  | PUSHFD => "PUSHFD"
  | PUSHFQ => "PUSHFQ"
  | PUSHFW => "PUSHFW"
  | PXOR => "PXOR"
  | RCL => "RCL"
  | RCPPS => "RCPPS"
  | RCPSS => "RCPSS"
  | RCR => "RCR"
  | RDMSR => "RDMSR"
  | RDPMC => "RDPMC"
  | RDRAND => "RDRAND"
  | RDSEED => "RDSEED"
  | RDTSC => "RDTSC"
  | RDTSCP => "RDTSCP"
  | RET => "RET"
  | RETF => "RETF"
  | ROL => "ROL"
  | ROR => "ROR"
  | ROUNDPD => "ROUNDPD"
  | ROUNDPS => "ROUNDPS"
  | ROUNDSD => "ROUNDSD"
  | ROUNDSS => "ROUNDSS"
  | RSM => "RSM"
  | RSQRTPS => "RSQRTPS"
  | RSQRTSS => "RSQRTSS"
  | SAHF => "SAHF"
  | SALC => "SALC"
  | SAR => "SAR"
  | SBB => "SBB"
  | SCASB => "SCASB"
  | SCASD => "SCASD"
  | SCASQ => "SCASQ"
  | SCASW => "SCASW"
  | SETA => "SETA"
  | SETAE => "SETAE"
  | SETB => "SETB"
  | SETBE => "SETBE"
  | SETG => "SETG"
  | SETGE => "SETGE"
  | SETL => "SETL"
  | SETLE => "SETLE"
  | SETNO => "SETNO"
  | SETNP => "SETNP"
  | SETNS => "SETNS"
  | SETNZ => "SETNZ"
  | SETO => "SETO"
  | SETP => "SETP"
  | SETS => "SETS"
  | SETZ => "SETZ"
  | SFENCE => "SFENCE"
  | SGDT => "SGDT"
  | SHL => "SHL"
  | SHLD => "SHLD"
  | SHR => "SHR"
  | SHRD => "SHRD"
  | SHUFPD => "SHUFPD"
  | SHUFPS => "SHUFPS"
  | SIDT => "SIDT"
  | SKINIT => "SKINIT"
  | SLDT => "SLDT"
  | SMSW => "SMSW"
  | SQRTPD => "SQRTPD"
  | SQRTPS => "SQRTPS"
  | SQRTSD => "SQRTSD"
  | SQRTSS => "SQRTSS"
  | STAC => "STAC"
  | STC => "STC"
  | STD => "STD"
  | STGI => "STGI"
  | STI => "STI"
  | STMXCSR => "STMXCSR"
  | STOSB => "STOSB"
  | STOSD => "STOSD"
  | STOSQ => "STOSQ"
  | STOSW => "STOSW"
  | STR => "STR"
  | SUB => "SUB"
  | SUBPD => "SUBPD"
  | SUBPS => "SUBPS"
  | SUBSD => "SUBSD"
  | SUBSS => "SUBSS"
  | SWAPGS => "SWAPGS"
  | SYSCALL => "SYSCALL"
  | SYSENTER => "SYSENTER"
  | SYSEXIT => "SYSEXIT"
  | SYSRET => "SYSRET"
  | TEST => "TEST"
  | TZCNT => "TZCNT"
  | UCOMISD => "UCOMISD"
  | UCOMISS => "UCOMISS"
  | UD2 => "UD2"
  | UNPCKHPD => "UNPCKHPD"
  | UNPCKHPS => "UNPCKHPS"
  | UNPCKLPD => "UNPCKLPD"
  | UNPCKLPS => "UNPCKLPS"
  | VERR => "VERR"
  | VERW => "VERW"
  | VMCALL => "VMCALL"
  | VMCLEAR => "VMCLEAR"
  | VMLAUNCH => "VMLAUNCH"
  | VMLOAD => "VMLOAD"
  | VMMCALL => "VMMCALL"
  | VMPTRLD => "VMPTRLD"
  | VMPTRST => "VMPTRST"
  | VMREAD => "VMREAD"
  | VMRESUME => "VMRESUME"
  | VMRUN => "VMRUN"
  | VMSAVE => "VMSAVE"
  | VMWRITE => "VMWRITE"
  | VMXOFF => "VMXOFF"
  | VMXON => "VMXON"
  | WAIT => "WAIT"
  | WBINVD => "WBINVD"
  | WRMSR => "WRMSR"
  | XADD => "XADD"
  | XCHG => "XCHG"
  | XGETBV => "XGETBV"
  | XLATB => "XLATB"
  | XOR => "XOR"
  | XORPD => "XORPD"
  | XORPS => "XORPS"
  | XRSTOR => "XRSTOR"
  | XSAVE => "XSAVE"
  | XSAVEOPT => "XSAVEOPT"
  | XSETBV => "XSETBV"

/-- Every mnemonic, in order of declaration. -/
def all : List Mnemonic :=
  (List.range 617).map ofNat

def ofName? (text : String) : Option Mnemonic :=
  all.find? fun m => m.name == text

/-- Shifts and rotates: with a memory destination shifted by `cl`, nothing else tells its size. -/
def isShiftOrRotate : Mnemonic → Bool
  | RCL | ROL | ROR | RCR | SHL | SHR | SAR => true
  | _ => false

def isCall : Mnemonic → Bool
  | CALL => true
  | _ => false

def isJump : Mnemonic → Bool
  | JO | JNO | JB | JAE | JZ | JNZ | JBE | JA | JS | JNS | JP | JNP | JL | JGE | JLE | JG => true
  | JCXZ | JECXZ | JRCXZ | JMP => true
  | _ => false

/-- Mnemonics whose operands stand in the same order in both syntaxes. -/
def keepsOperandOrder : Mnemonic → Bool
  | ENTER | BOUND => true
  | _ => false

end Mnemonic
end X86
