import X86.Opcodes.Shorthand

/-! The floating-point opcodes. -/

namespace X86
namespace Opcodes

open Lookup

/-- Floating-point arithmetic in memory, over the four rows that share it. -/
def floatArithmetic : List Definition :=
  (numbered [.FADD, .FMUL, .FCOM, .FCOMP, .FSUB, .FSUBR, .FDIV, .FDIVR] fun m i =>
    let n : Fin 8 := Fin.ofNat 8 i
    [row [0xD8] [.reg n, memForm] m [Md],
     row [0xD8] [.reg n, regForm] m [ST0, STi],
     row [0xDC] [.reg n, memForm] m [Mq]])
  ++ numbered [.FIADD, .FIMUL, .FICOM, .FICOMP, .FISUB, .FISUBR, .FIDIV, .FIDIVR] fun m i =>
    let n : Fin 8 := Fin.ofNat 8 i
    [row [0xDA] [.reg n, memForm] m [Md],
     row [0xDE] [.reg n, memForm] m [Mw]]

def rowD9 : List Definition :=
  [row [0xD9] [.reg 0, memForm] .FLD [Md],
   row [0xD9] [.reg 2, memForm] .FST [Md],
   row [0xD9] [.reg 3, memForm] .FSTP [Md],
   row [0xD9] [.reg 4, memForm] .FLDENV [M],
   row [0xD9] [.reg 5, memForm] .FLDCW [Mw],
   row [0xD9] [.reg 6, memForm] .FNSTENV [M],
   row [0xD9] [.reg 7, memForm] .FNSTCW [Mw],
   row [0xD9] [.reg 0, regForm] .FLD [ST0, STi],
   row [0xD9] [.reg 1, regForm] .FXCH [ST0, STi],
   row [0xD9] [.reg 2, regForm, .rm 0] .FNOP [],
   row [0xD9] [.reg 3, regForm] .FSTP1 [STi],
   row [0xD9] [.reg 4, regForm, .rm 0] .FCHS [],
   row [0xD9] [.reg 4, regForm, .rm 1] .FABS [],
   row [0xD9] [.reg 4, regForm, .rm 4] .FTST [],
   row [0xD9] [.reg 4, regForm, .rm 5] .FXAM []]

/-- Instructions without operands, by the r/m field of the register form of D9. -/
def floatFunctions : List Definition :=
  (numbered [.FLD1, .FLDL2T, .FLDL2E, .FLDPI, .FLDLG2, .FLDLN2, .FLDZ] fun m i =>
    [row [0xD9] [.reg 5, regForm, .rm (Fin.ofNat 8 i)] m []])
  ++ (numbered [.F2XM1, .FYL2X, .FPTAN, .FPATAN, .FXTRACT, .FPREM1, .FDECSTP, .FINCSTP] fun m i =>
    [row [0xD9] [.reg 6, regForm, .rm (Fin.ofNat 8 i)] m []])
  ++ numbered [.FPREM, .FYL2XP1, .FSQRT, .FSINCOS, .FRNDINT, .FSCALE, .FSIN, .FCOS] fun m i =>
    [row [0xD9] [.reg 7, regForm, .rm (Fin.ofNat 8 i)] m []]

def rowDA : List Definition :=
  [row [0xDA] [.reg 0, regForm] .FCMOVB [ST0, STi],
   row [0xDA] [.reg 1, regForm] .FCMOVE [ST0, STi],
   row [0xDA] [.reg 2, regForm] .FCMOVBE [ST0, STi],
   row [0xDA] [.reg 3, regForm] .FCMOVU [ST0, STi],
   row [0xDA] [.reg 5, regForm, .rm 1] .FUCOMPP []]

def rowDB : List Definition :=
  [row [0xDB] [.reg 0, memForm] .FILD [Md],
   row [0xDB] [.reg 1, memForm] .FISTTP [Md],
   row [0xDB] [.reg 2, memForm] .FIST [Md],
   row [0xDB] [.reg 3, memForm] .FISTP [Md],
   row [0xDB] [.reg 5, memForm] .FLD [Mt],
   row [0xDB] [.reg 7, memForm] .FSTP [Mt],
   row [0xDB] [.reg 0, regForm] .FCMOVNB [ST0, STi],
   row [0xDB] [.reg 1, regForm] .FCMOVNE [ST0, STi],
   row [0xDB] [.reg 2, regForm] .FCMOVNBE [ST0, STi],
   row [0xDB] [.reg 3, regForm] .FCMOVNU [ST0, STi],
   row [0xDB] [.reg 4, regForm, .rm 2] .FNCLEX [],
   row [0xDB] [.reg 4, regForm, .rm 3] .FNINIT [],
   row [0xDB] [.reg 5, regForm] .FUCOMI [ST0, STi],
   row [0xDB] [.reg 6, regForm] .FCOMI [ST0, STi]]

def rowDC : List Definition :=
  [row [0xDC] [.reg 0, regForm] .FADD [STi, ST0],
   row [0xDC] [.reg 1, regForm] .FMUL [STi, ST0],
   row [0xDC] [.reg 2, regForm] .FCOM2 [STi],
   row [0xDC] [.reg 3, regForm] .FCOMP3 [STi],
   row [0xDC] [.reg 4, regForm] .FSUBR [STi, ST0],
   row [0xDC] [.reg 5, regForm] .FSUB [STi, ST0],
   row [0xDC] [.reg 6, regForm] .FDIVR [STi, ST0],
   row [0xDC] [.reg 7, regForm] .FDIV [STi, ST0]]

def rowDD : List Definition :=
  [row [0xDD] [.reg 0, memForm] .FLD [Mq],
   row [0xDD] [.reg 1, memForm] .FISTTP [Mq],
   row [0xDD] [.reg 2, memForm] .FST [Mq],
   row [0xDD] [.reg 3, memForm] .FSTP [Mq],
   row [0xDD] [.reg 4, memForm] .FRSTOR [M],
   row [0xDD] [.reg 6, memForm] .FNSAVE [M],
   row [0xDD] [.reg 7, memForm] .FNSTSW [Mw],
   row [0xDD] [.reg 0, regForm] .FFREE [STi],
   row [0xDD] [.reg 1, regForm] .FXCH4 [STi],
   row [0xDD] [.reg 2, regForm] .FST [STi],
   row [0xDD] [.reg 3, regForm] .FSTP [STi],
   row [0xDD] [.reg 4, regForm] .FUCOM [STi],
   row [0xDD] [.reg 5, regForm] .FUCOMP [STi]]

def rowDE : List Definition :=
  [row [0xDE] [.reg 0, regForm] .FADDP [STi, ST0],
   row [0xDE] [.reg 1, regForm] .FMULP [STi, ST0],
   row [0xDE] [.reg 2, regForm] .FCOMP5 [STi],
   row [0xDE] [.reg 3, regForm, .rm 1] .FCOMPP [],
   row [0xDE] [.reg 4, regForm] .FSUBRP [STi, ST0],
   row [0xDE] [.reg 5, regForm] .FSUBP [STi, ST0],
   row [0xDE] [.reg 6, regForm] .FDIVRP [STi, ST0],
   row [0xDE] [.reg 7, regForm] .FDIVP [STi, ST0]]

def rowDF : List Definition :=
  [row [0xDF] [.reg 0, memForm] .FILD [Mw],
   row [0xDF] [.reg 1, memForm] .FISTTP [Mw],
   row [0xDF] [.reg 2, memForm] .FIST [Mw],
   row [0xDF] [.reg 3, memForm] .FISTP [Mw],
   row [0xDF] [.reg 4, memForm] .FBLD [Mt],
   row [0xDF] [.reg 5, memForm] .FILD [Mq],
   row [0xDF] [.reg 6, memForm] .FBSTP [Mt],
   row [0xDF] [.reg 7, memForm] .FISTP [Mq],
   row [0xDF] [.reg 0, regForm] .FFREEP [STi],
   row [0xDF] [.reg 1, regForm] .FXCH7 [STi],
   row [0xDF] [.reg 2, regForm] .FSTP8 [STi],
   row [0xDF] [.reg 3, regForm] .FSTP9 [STi],
   row [0xDF] [.reg 4, regForm, .rm 0] .FNSTSW [AX],
   row [0xDF] [.reg 5, regForm] .FUCOMIP [ST0, STi],
   row [0xDF] [.reg 6, regForm] .FCOMIP [ST0, STi]]

/-- The floating-point rows D8 to DF. -/
def floatingPoint : List Definition :=
  floatArithmetic ++ rowD9 ++ floatFunctions ++ rowDA ++ rowDB ++ rowDC ++ rowDD ++ rowDE ++ rowDF

end Opcodes
end X86
