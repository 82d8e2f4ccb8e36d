import SimulatorRISCV.PipelineDecoder
import Mathlib.Logic.Function.Basic

/-! # Datapath modules: ALU.v, MemoryInstruction.v, MemoryData.v, RegisterFile.v,
PCCounter.v, Pipeline.v and Hazard.v

Each module is the function of its inputs that one evaluation or one clock edge computes.
The memory arrays have 2^17 words and are indexed by the low 17 bits of the word address. -/
namespace PipelineDatapath

open PipelineDecoder

abbrev RegBank := RegNum → Word
abbrev MemArray := BitVec 17 → Word

/-- The case labels of ALU; `none` is its empty `default`. -/
def aluCase (srcA srcB : Word) (aluControl : BitVec 4) : Option Word :=
  if aluControl = aluAdd then some (srcA + srcB)
  else if aluControl = aluSub then some (srcA - srcB)
  else if aluControl = aluAnd then some (srcA &&& srcB)
  else if aluControl = aluOr then some (srcA ||| srcB)
  else if aluControl = aluXor then some (srcA ^^^ srcB)
  else if aluControl = aluShl then some (srcA <<< (srcB.extractLsb 4 0).toNat)
  else if aluControl = aluShr then some (srcA >>> (srcB.extractLsb 4 0).toNat)
  else if aluControl = aluSha then some (srcA.sshiftRight (srcB.extractLsb 4 0).toNat)
  else if aluControl = aluSlt then some (if srcA.slt srcB then 1#32 else 0#32)
  else if aluControl = aluSltu then some (if srcA.ult srcB then 1#32 else 0#32)
  else if aluControl = aluA then some srcA
  else if aluControl = aluB then some srcB
  else none

/-- ALUResult is a latch too: an undefined control leaves the previous result. -/
def alu (srcA srcB : Word) (aluControl : BitVec 4) (held : Word) : Word :=
  (aluCase srcA srcB aluControl).getD held

def memIndex (addrA : Word) : BitVec 17 := addrA.setWidth 17

def readB (toExtend : Bool) (word : Word) : Word :=
  BitVec.fill 24 (toExtend && word[7]) ++ word.extractLsb 7 0
def readH (toExtend : Bool) (word : Word) : Word :=
  BitVec.fill 16 (toExtend && word[15]) ++ word.extractLsb 15 0

def readWidth (width : BitVec 3) (word : Word) : Word :=
  if width[0] then readH (!width[2]) word
  else if width[1] then word
  else readB (!width[2]) word

def memoryInstruction (memBuff : MemArray) (addrA : Word) (width : BitVec 3) : Word :=
  readWidth width (memBuff (memIndex addrA))

def memoryDataRead (memBuff : MemArray) (addrA : Word) (width : BitVec 3) : Word :=
  readWidth width (memBuff (memIndex addrA))

/-- The byte lanes of the addressed word that a store replaces, always from lane 0 up. -/
def mergeLanes (width : BitVec 3) (wd word : Word) : Word :=
  if width[0] then word.extractLsb 31 16 ++ (wd.extractLsb 15 8 ++ wd.extractLsb 7 0)
  else if width[1] then wd.extractLsb 31 8 ++ wd.extractLsb 7 0
  else word.extractLsb 31 8 ++ wd.extractLsb 7 0

def storeWord (memBuff : MemArray) (addrA : Word) (width : BitVec 3) (wd : Word) : MemArray :=
  Function.update memBuff (memIndex addrA)
    (mergeLanes width wd (memBuff (memIndex addrA)))

def memoryDataWrite (memBuff : MemArray) (addrA : Word) (width : BitVec 3) (we : Bool)
    (wd : Word) : MemArray :=
  if we then storeWord memBuff addrA width wd else memBuff

def registerRead (registers : RegBank) (registerNumber : RegNum) : Word :=
  if registerNumber = 0#5 then 0#32 else registers registerNumber

def registerWrite (registers : RegBank) (we : Bool) (writeIndex : RegNum) (data : Word) :
    RegBank :=
  if we && writeIndex != 0#5 then Function.update registers writeIndex data else registers

def pcCounter (en : Bool) (typeInstruction : BitVec 2) (pcExec imm rs1 pc : Word) : Word :=
  if en then
    if typeInstruction = 0b00 then pc + 4#32
    else if typeInstruction = 0b01 then pcExec + imm
    else if typeInstruction = 0b11 then imm + rs1
    else pc
  else pc

/-- A pipeline register at a rising edge; reset wins over a cleared enable. -/
def pipeline {α : Type*} [Zero α] (rst en : Bool) (inputData data : α) : α :=
  if en && !rst then inputData else if rst then 0 else data

/-- 10 forwards from MEM, 01 forwards from WB. -/
def forwardSrc (regWriteMEM regWriteWB : Bool) (registerNumber rdnMEM rdnWB : RegNum) :
    BitVec 2 :=
  BitVec.fill 2 (registerNumber != 0#5) &&&
    (if regWriteMEM && rdnMEM == registerNumber then 0b10
     else if regWriteWB && rdnWB == registerNumber then 0b01 else 0b00)

def loadStall (memToRegExec : Bool) (rs1nDecode rs2nDecode rdnExec : RegNum) : Bool :=
  memToRegExec && (rs1nDecode == rdnExec || rs2nDecode == rdnExec)

def branchIsTaken (jump branch invertBranchTriger : Bool) (aluOut : Word) : Bool :=
  jump || (branch && (invertBranchTriger ^^ (aluOut != 0#32)))

def forwarded (forwardSrc : BitVec 2) (aluOutMEM resultWB captured : Word) : Word :=
  if forwardSrc[1] then aluOutMEM else if forwardSrc[0] then resultWB else captured

def aluSrc1Val (aluSrc1 : Bool) (pc rs1 : Word) : Word := if aluSrc1 then pc else rs1

def aluSrc2Val (aluSrc2 : BitVec 2) (rs2 imm : Word) : Word :=
  if aluSrc2 = 0b00 then rs2 else if aluSrc2 = 0b01 then imm else 4#32

@[simp] theorem alu_idempotent (a b : Word) (op : BitVec 4) (h : Word) :
    alu a b op (alu a b op h) = alu a b op h := by
  unfold alu
  cases aluCase a b op <;> rfl

@[simp] theorem pipeline_load {α : Type*} [Zero α] (a b : α) :
    pipeline false true a b = a := rfl
@[simp] theorem pipeline_hold {α : Type*} [Zero α] (a b : α) :
    pipeline false false a b = b := rfl
@[simp] theorem pipeline_reset {α : Type*} [Zero α] (en : Bool) (a b : α) :
    pipeline true en a b = 0 := by cases en <;> rfl

@[simp] theorem registerRead_zero (registers : RegBank) :
    registerRead registers 0#5 = 0#32 := rfl

theorem registerRead_of_ne (registers : RegBank) {n : RegNum} (h : n ≠ 0#5) :
    registerRead registers n = registers n := if_neg h

@[simp] theorem registerWrite_disabled (registers : RegBank) (n : RegNum) (v : Word) :
    registerWrite registers false n v = registers := rfl

theorem registerWrite_apply (registers : RegBank) (we : Bool) (rd n : RegNum) (v : Word) :
    registerWrite registers we rd v n =
      if we = true ∧ rd ≠ 0#5 ∧ rd = n then v else registers n := by
  cases we with
  | false => simp
  | true =>
    by_cases hz : rd = 0#5
    · simp [registerWrite, hz]
    · by_cases hr : rd = n
      · subst hr; simp [registerWrite, hz]
      · simp [registerWrite, hz, hr, Function.update_of_ne (Ne.symm hr)]

theorem registerRead_write (registers : RegBank) (we : Bool) (rd : RegNum) {n : RegNum}
    (hn : n ≠ 0#5) (v : Word) :
    registerRead (registerWrite registers we rd v) n =
      if we = true ∧ rd = n then v else registers n := by
  rw [registerRead_of_ne _ hn, registerWrite_apply]
  refine if_congr ⟨fun h => ⟨h.1, h.2.2⟩, fun h => ⟨h.1, ?_, h.2⟩⟩ rfl rfl
  rw [h.2]
  exact hn

/-- Writing the value that is already there: the register file's repeated write of a
frozen write-back stage. -/
theorem registerWrite_again (registers : RegBank) (we : Bool) (rd : RegNum) (v : Word) :
    registerWrite (registerWrite registers we rd v) we rd v =
      registerWrite registers we rd v := by
  unfold registerWrite
  split_ifs <;> simp

/-- The forwarding unit with its operand mux: MEM before WB, and never for x0. -/
theorem forwarded_forwardSrc (wm ww : Bool) (n rm rw : RegNum) (fromMEM fromWB captured : Word) :
    forwarded (forwardSrc wm ww n rm rw) fromMEM fromWB captured =
      if n = 0#5 then captured
      else if wm = true ∧ rm = n then fromMEM
      else if ww = true ∧ rw = n then fromWB else captured := by
  by_cases hn : n = 0#5
  · simp [forwarded, forwardSrc, hn]
  · have hb : (n != 0#5) = true := bne_iff_ne.mpr hn
    by_cases hm : wm = true ∧ rm = n
    · simp [forwarded, forwardSrc, BitVec.fill, hb, hn, hm]
    · by_cases hw : ww = true ∧ rw = n
      · simp [forwarded, forwardSrc, BitVec.fill, hb, hn, hm, hw]
      · simp [forwarded, forwardSrc, hm, hw]

end PipelineDatapath
