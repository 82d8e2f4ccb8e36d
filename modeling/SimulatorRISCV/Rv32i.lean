import Mathlib.Data.BitVec
import Mathlib.Tactic.Common

/-! # The RV32I base integer instructions

Instructions with their operands, the words that encode them, and what each computes from
the values of its source registers and its own address. -/
namespace Rv32i

abbrev Word := BitVec 32
abbrev Reg := BitVec 5

inductive RegOp where
  | add | sub | sll | slt | sltu | xor | srl | sra | or | and
  deriving DecidableEq, Repr

inductive ImmOp where
  | addi | slti | sltiu | xori | ori | andi
  deriving DecidableEq, Repr

inductive ShiftOp where
  | slli | srli | srai
  deriving DecidableEq, Repr

inductive BranchOp where
  | beq | bne | blt | bge | bltu | bgeu
  deriving DecidableEq, Repr

inductive LoadOp where
  | lb | lh | lw | lbu | lhu
  deriving DecidableEq, Repr

inductive StoreOp where
  | sb | sh | sw
  deriving DecidableEq, Repr

/-- Offsets of branches and jumps are in units of two bytes: imm[12:1] and imm[20:1]. -/
inductive Instr where
  | op (o : RegOp) (rd rs1 rs2 : Reg)
  | opImm (o : ImmOp) (rd rs1 : Reg) (imm : BitVec 12)
  | shiftImm (o : ShiftOp) (rd rs1 : Reg) (shamt : BitVec 5)
  | lui (rd : Reg) (imm : BitVec 20)
  | auipc (rd : Reg) (imm : BitVec 20)
  | branch (o : BranchOp) (rs1 rs2 : Reg) (offset : BitVec 12)
  | load (o : LoadOp) (rd rs1 : Reg) (imm : BitVec 12)
  | store (o : StoreOp) (rs1 rs2 : Reg) (imm : BitVec 12)
  | jal (rd : Reg) (offset : BitVec 20)
  deriving DecidableEq, Repr

def rFormat (funct7 : BitVec 7) (rs2 rs1 : Reg) (funct3 : BitVec 3) (rd : Reg)
    (opcode : BitVec 7) : Word :=
  funct7 ++ (rs2 ++ (rs1 ++ (funct3 ++ (rd ++ opcode))))

def iFormat (imm : BitVec 12) (rs1 : Reg) (funct3 : BitVec 3) (rd : Reg)
    (opcode : BitVec 7) : Word :=
  imm ++ (rs1 ++ (funct3 ++ (rd ++ opcode)))

def sFormat (imm : BitVec 12) (rs2 rs1 : Reg) (funct3 : BitVec 3) (opcode : BitVec 7) : Word :=
  rFormat (imm.extractLsb 11 5) rs2 rs1 funct3 (imm.extractLsb 4 0) opcode

/-- The fields imm[12|10:5] and imm[4:1|11]. -/
def bFormat (imm : BitVec 13) (rs2 rs1 : Reg) (funct3 : BitVec 3) (opcode : BitVec 7) : Word :=
  rFormat (imm.extractLsb 12 12 ++ imm.extractLsb 10 5) rs2 rs1 funct3
    (imm.extractLsb 4 1 ++ imm.extractLsb 11 11) opcode

def uFormat (imm : BitVec 20) (rd : Reg) (opcode : BitVec 7) : Word := imm ++ (rd ++ opcode)

/-- The field imm[20|10:1|11|19:12]. -/
def jFormat (imm : BitVec 21) (rd : Reg) (opcode : BitVec 7) : Word :=
  uFormat (imm.extractLsb 20 20 ++ (imm.extractLsb 10 1 ++
    (imm.extractLsb 11 11 ++ imm.extractLsb 19 12))) rd opcode

def RegOp.funct3 : RegOp → BitVec 3
  | .add | .sub => 0b000
  | .sll => 0b001
  | .slt => 0b010
  | .sltu => 0b011
  | .xor => 0b100
  | .srl | .sra => 0b101
  | .or => 0b110
  | .and => 0b111

def RegOp.funct7 : RegOp → BitVec 7
  | .sub | .sra => 0b0100000
  | _ => 0b0000000

def ImmOp.funct3 : ImmOp → BitVec 3
  | .addi => 0b000
  | .slti => 0b010
  | .sltiu => 0b011
  | .xori => 0b100
  | .ori => 0b110
  | .andi => 0b111

def ShiftOp.funct3 : ShiftOp → BitVec 3
  | .slli => 0b001
  | .srli | .srai => 0b101

def ShiftOp.funct7 : ShiftOp → BitVec 7
  | .srai => 0b0100000
  | _ => 0b0000000

def BranchOp.funct3 : BranchOp → BitVec 3
  | .beq => 0b000
  | .bne => 0b001
  | .blt => 0b100
  | .bge => 0b101
  | .bltu => 0b110
  | .bgeu => 0b111

def LoadOp.funct3 : LoadOp → BitVec 3
  | .lb => 0b000
  | .lh => 0b001
  | .lw => 0b010
  | .lbu => 0b100
  | .lhu => 0b101

def StoreOp.funct3 : StoreOp → BitVec 3
  | .sb => 0b000
  | .sh => 0b001
  | .sw => 0b010

def encode : Instr → Word
  | .op o rd rs1 rs2 => rFormat o.funct7 rs2 rs1 o.funct3 rd 0b0110011
  | .opImm o rd rs1 imm => iFormat imm rs1 o.funct3 rd 0b0010011
  | .shiftImm o rd rs1 shamt => rFormat o.funct7 shamt rs1 o.funct3 rd 0b0010011
  | .lui rd imm => uFormat imm rd 0b0110111
  | .auipc rd imm => uFormat imm rd 0b0010111
  | .branch o rs1 rs2 offset => bFormat (offset ++ 0#1) rs2 rs1 o.funct3 0b1100011
  | .load o rd rs1 imm => iFormat imm rs1 o.funct3 rd 0b0000011
  | .store o rs1 rs2 imm => sFormat imm rs2 rs1 o.funct3 0b0100011
  | .jal rd offset => jFormat (offset ++ 0#1) rd 0b1101111

/-- ADDI x1, x0, 16; BEQ x0, x0, 8; JAL x1, 8; SRAI x2, x1, 4. -/
example : encode (.opImm .addi 1 0 16) = 0x01000093#32 ∧
    encode (.branch .beq 0 0 4) = 0x00000463#32 ∧ encode (.jal 1 4) = 0x008000EF#32 ∧
    encode (.shiftImm .srai 2 1 4) = 0x4040D113#32 := by decide

theorem rFormat_bit (funct7 : BitVec 7) (rs2 rs1 : Reg) (funct3 : BitVec 3) (rd : Reg)
    (opcode : BitVec 7) (k : ℕ) : (rFormat funct7 rs2 rs1 funct3 rd opcode).getLsbD k =
      if k < 7 then opcode.getLsbD k
      else if k < 12 then rd.getLsbD (k - 7)
      else if k < 15 then funct3.getLsbD (k - 12)
      else if k < 20 then rs1.getLsbD (k - 15)
      else if k < 25 then rs2.getLsbD (k - 20) else funct7.getLsbD (k - 25) := by
  rw [rFormat, BitVec.getLsbD_append, BitVec.getLsbD_append, BitVec.getLsbD_append,
    BitVec.getLsbD_append, BitVec.getLsbD_append]
  grind

theorem iFormat_bit (imm : BitVec 12) (rs1 : Reg) (funct3 : BitVec 3) (rd : Reg)
    (opcode : BitVec 7) (k : ℕ) : (iFormat imm rs1 funct3 rd opcode).getLsbD k =
      if k < 7 then opcode.getLsbD k
      else if k < 12 then rd.getLsbD (k - 7)
      else if k < 15 then funct3.getLsbD (k - 12)
      else if k < 20 then rs1.getLsbD (k - 15) else imm.getLsbD (k - 20) := by
  rw [iFormat, BitVec.getLsbD_append, BitVec.getLsbD_append, BitVec.getLsbD_append,
    BitVec.getLsbD_append]
  grind

theorem uFormat_bit (imm : BitVec 20) (rd : Reg) (opcode : BitVec 7) (k : ℕ) :
    (uFormat imm rd opcode).getLsbD k =
      if k < 7 then opcode.getLsbD k
      else if k < 12 then rd.getLsbD (k - 7) else imm.getLsbD (k - 12) := by
  rw [uFormat, BitVec.getLsbD_append, BitVec.getLsbD_append]
  grind

theorem sFormat_bit (imm : BitVec 12) (rs2 rs1 : Reg) (funct3 : BitVec 3) (opcode : BitVec 7)
    (k : ℕ) : (sFormat imm rs2 rs1 funct3 opcode).getLsbD k =
      if k < 7 then opcode.getLsbD k
      else if k < 12 then imm.getLsbD (k - 7)
      else if k < 15 then funct3.getLsbD (k - 12)
      else if k < 20 then rs1.getLsbD (k - 15)
      else if k < 25 then rs2.getLsbD (k - 20) else imm.getLsbD (k - 20) := by
  rw [sFormat, rFormat_bit, BitVec.getLsbD_extractLsb, BitVec.getLsbD_extractLsb]
  grind

theorem bFormat_bit (imm : BitVec 13) (rs2 rs1 : Reg) (funct3 : BitVec 3) (opcode : BitVec 7)
    (k : ℕ) : (bFormat imm rs2 rs1 funct3 opcode).getLsbD k =
      if k < 7 then opcode.getLsbD k
      else if k < 8 then imm.getLsbD 11
      else if k < 12 then imm.getLsbD (k - 7)
      else if k < 15 then funct3.getLsbD (k - 12)
      else if k < 20 then rs1.getLsbD (k - 15)
      else if k < 25 then rs2.getLsbD (k - 20)
      else if k < 31 then imm.getLsbD (k - 20) else imm.getLsbD (k - 19) := by
  rw [bFormat, rFormat_bit, BitVec.getLsbD_append, BitVec.getLsbD_append]
  simp only [BitVec.getLsbD_extractLsb]
  grind

theorem jFormat_bit (imm : BitVec 21) (rd : Reg) (opcode : BitVec 7) (k : ℕ) :
    (jFormat imm rd opcode).getLsbD k =
      if k < 7 then opcode.getLsbD k
      else if k < 12 then rd.getLsbD (k - 7)
      else if k < 20 then imm.getLsbD k
      else if k < 21 then imm.getLsbD 11
      else if k < 31 then imm.getLsbD (k - 20) else imm.getLsbD (k - 11) := by
  rw [jFormat, uFormat_bit, BitVec.getLsbD_append, BitVec.getLsbD_append, BitVec.getLsbD_append]
  simp only [BitVec.getLsbD_extractLsb]
  grind

def RegOp.eval (a b : Word) : RegOp → Word
  | .add => a + b
  | .sub => a - b
  | .sll => a <<< (b.toNat % 32)
  | .slt => if a.toInt < b.toInt then 1#32 else 0#32
  | .sltu => if a.toNat < b.toNat then 1#32 else 0#32
  | .xor => a ^^^ b
  | .srl => a >>> (b.toNat % 32)
  | .sra => a.sshiftRight (b.toNat % 32)
  | .or => a ||| b
  | .and => a &&& b

def ImmOp.toRegOp : ImmOp → RegOp
  | .addi => .add
  | .slti => .slt
  | .sltiu => .sltu
  | .xori => .xor
  | .ori => .or
  | .andi => .and

def ShiftOp.toRegOp : ShiftOp → RegOp
  | .slli => .sll
  | .srli => .srl
  | .srai => .sra

def BranchOp.holds (a b : Word) : BranchOp → Bool
  | .beq => a == b
  | .bne => a != b
  | .blt => decide (a.toInt < b.toInt)
  | .bge => decide (b.toInt ≤ a.toInt)
  | .bltu => decide (a.toNat < b.toNat)
  | .bgeu => decide (b.toNat ≤ a.toNat)

namespace Instr

def rd : Instr → Option Reg
  | .op _ rd _ _ | .opImm _ rd _ _ | .shiftImm _ rd _ _ | .lui rd _ | .auipc rd _
  | .load _ rd _ _ | .jal rd _ => some rd
  | .branch .. | .store .. => none

def rs1 : Instr → Option Reg
  | .op _ _ rs1 _ | .opImm _ _ rs1 _ | .shiftImm _ _ rs1 _ | .branch _ rs1 _ _
  | .load _ _ rs1 _ | .store _ rs1 _ _ => some rs1
  | .lui .. | .auipc .. | .jal .. => none

def rs2 : Instr → Option Reg
  | .op _ _ _ rs2 | .branch _ _ rs2 _ | .store _ _ rs2 _ => some rs2
  | _ => none

/-- The rd value computed from the operands and the address alone: a load's comes from
memory, and a jump's is its link. -/
def value (pc a b : Word) : Instr → Option Word
  | .op o _ _ _ => some (o.eval a b)
  | .opImm o _ _ imm => some (o.toRegOp.eval a (imm.signExtend 32))
  | .shiftImm o _ _ shamt => some (o.toRegOp.eval a (shamt.setWidth 32))
  | .lui _ imm => some (imm ++ 0#12)
  | .auipc _ imm => some (pc + (imm ++ 0#12))
  | .branch .. | .load .. | .store .. | .jal .. => none

/-- The effective address of a load or a store. -/
def address (a : Word) : Instr → Option Word
  | .load _ _ _ imm | .store _ _ _ imm => some (a + imm.signExtend 32)
  | _ => none

def redirects (a b : Word) : Instr → Bool
  | .branch o _ _ _ => o.holds a b
  | .jal .. => true
  | _ => false

/-- Where a taken branch or a jump continues. -/
def target (pc : Word) : Instr → Word
  | .branch _ _ _ offset => pc + (offset ++ 0#1).signExtend 32
  | .jal _ offset => pc + (offset ++ 0#1).signExtend 32
  | _ => pc + 4#32

def nextPc (pc a b : Word) (i : Instr) : Word :=
  if i.redirects a b then i.target pc else pc + 4#32

end Instr

end Rv32i
