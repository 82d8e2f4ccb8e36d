import SimulatorRISCV.PipelineSimulator
import SimulatorRISCV.Rv32i

/-! # Single instructions against RV32I

An encoded instruction, decoded over any latches and fed with any operands, makes the
execute stage compute what the instruction set says. -/
namespace PipelineSemantics

open PipelineDecoder PipelineDatapath PipelineSimulator
open Rv32i hiding Word

theorem extract_eq {w : Word} {hi lo : ℕ} {f : BitVec (hi - lo + 1)}
    (h : ∀ k < hi - lo + 1, w.getLsbD (lo + k) = f.getLsbD k) : w.extractLsb hi lo = f := by
  apply BitVec.eq_of_getLsbD_eq
  intro k hk
  rw [BitVec.getLsbD_extractLsb, decide_eq_true hk, Bool.true_and, h k hk]

section RFormat

variable (f7 : BitVec 7) (rs2 rs1 : Reg) (f3 : BitVec 3) (rd : Reg) (op : BitVec 7)

theorem opcodeBits_rFormat : opcodeBits (rFormat f7 rs2 rs1 f3 rd op) = op :=
  extract_eq fun k hk => by rw [rFormat_bit]; grind

theorem rdId_rFormat : rdId (rFormat f7 rs2 rs1 f3 rd op) = rd :=
  extract_eq fun k hk => by rw [rFormat_bit]; grind

theorem funct3_rFormat : funct3 (rFormat f7 rs2 rs1 f3 rd op) = f3 :=
  extract_eq fun k hk => by rw [rFormat_bit]; grind

theorem rs1Id_rFormat : rs1Id (rFormat f7 rs2 rs1 f3 rd op) = rs1 :=
  extract_eq fun k hk => by rw [rFormat_bit]; grind

theorem rs2Id_rFormat : rs2Id (rFormat f7 rs2 rs1 f3 rd op) = rs2 :=
  extract_eq fun k hk => by rw [rFormat_bit]; grind

theorem funct7_rFormat : funct7 (rFormat f7 rs2 rs1 f3 rd op) = f7 :=
  extract_eq fun k hk => by rw [rFormat_bit]; grind

end RFormat

section IFormat

variable (imm : BitVec 12) (rs1 : Reg) (f3 : BitVec 3) (rd : Reg) (op : BitVec 7)

theorem opcodeBits_iFormat : opcodeBits (iFormat imm rs1 f3 rd op) = op :=
  extract_eq fun k hk => by rw [iFormat_bit]; grind

theorem rdId_iFormat : rdId (iFormat imm rs1 f3 rd op) = rd :=
  extract_eq fun k hk => by rw [iFormat_bit]; grind

theorem funct3_iFormat : funct3 (iFormat imm rs1 f3 rd op) = f3 :=
  extract_eq fun k hk => by rw [iFormat_bit]; grind

theorem rs1Id_iFormat : rs1Id (iFormat imm rs1 f3 rd op) = rs1 :=
  extract_eq fun k hk => by rw [iFormat_bit]; grind

end IFormat

theorem opcodeBits_uFormat (imm : BitVec 20) (rd : Reg) (op : BitVec 7) :
    opcodeBits (uFormat imm rd op) = op :=
  extract_eq fun k hk => by rw [uFormat_bit]; grind

theorem rdId_uFormat (imm : BitVec 20) (rd : Reg) (op : BitVec 7) :
    rdId (uFormat imm rd op) = rd :=
  extract_eq fun k hk => by rw [uFormat_bit]; grind

/-- The case of ControlUnit that an instruction selects. -/
def kind : Instr → Opcode
  | .op .. => .rType
  | .opImm .. | .shiftImm .. => .iType
  | .lui .. => .lui
  | .auipc .. => .auipc
  | .branch .. => .branch
  | .load .. => .load
  | .store .. => .store
  | .jal .. => .jal

theorem opcode_encode (i : Instr) : opcode (encode i) = kind i := by
  cases i with
  | op | shiftImm | branch | store => exact congrArg classify (opcodeBits_rFormat ..)
  | opImm | load => exact congrArg classify (opcodeBits_iFormat ..)
  | lui | auipc | jal => exact congrArg classify (opcodeBits_uFormat ..)

/-- Decoder's register numbers are the instruction's. -/
theorem registers_encode (i : Instr) : (∀ r, i.rd = some r → rdId (encode i) = r) ∧
    (∀ r, i.rs1 = some r → rs1Id (encode i) = r) ∧
    (∀ r, i.rs2 = some r → rs2Id (encode i) = r) := by
  cases i with
  | op o rd rs1 rs2 =>
    refine ⟨?_, ?_, ?_⟩ <;> rintro r ⟨⟩
    · exact rdId_rFormat ..
    · exact rs1Id_rFormat ..
    · exact rs2Id_rFormat ..
  | opImm o rd rs1 imm | load o rd rs1 imm =>
    refine ⟨?_, ?_, ?_⟩ <;> rintro r ⟨⟩
    · exact rdId_iFormat ..
    · exact rs1Id_iFormat ..
  | shiftImm o rd rs1 shamt =>
    refine ⟨?_, ?_, ?_⟩ <;> rintro r ⟨⟩
    · exact rdId_rFormat ..
    · exact rs1Id_rFormat ..
  | lui rd imm | auipc rd imm | jal rd offset =>
    refine ⟨?_, ?_, ?_⟩ <;> rintro r ⟨⟩
    exact rdId_uFormat ..
  | branch o rs1 rs2 offset | store o rs1 rs2 imm =>
    refine ⟨?_, ?_, ?_⟩ <;> rintro r ⟨⟩
    · exact rs1Id_rFormat ..
    · exact rs2Id_rFormat ..

/-- Sign extension repeats the last bit of the field. -/
theorem eq_signExtend {n : ℕ} {w : Word} {v : BitVec n}
    (h : ∀ k < 32, w.getLsbD k = if k < n then v.getLsbD k else v.getLsbD (n - 1)) :
    w = v.signExtend 32 := by
  apply BitVec.eq_of_getLsbD_eq
  intro k hk
  rw [BitVec.getLsbD_signExtend, decide_eq_true hk, Bool.true_and, BitVec.msb_eq_getLsbD_last,
    h k hk]

theorem iImm32_iFormat (imm : BitVec 12) (rs1 : Reg) (f3 : BitVec 3) (rd : Reg)
    (op : BitVec 7) : iImm32 (iFormat imm rs1 f3 rd op) = imm.signExtend 32 := by
  apply eq_signExtend
  intro k hk
  rw [iImm32, BitVec.getLsbD_append, BitVec.getLsbD_fill, ← BitVec.getLsbD_eq_getElem]
  simp only [BitVec.getLsbD_extractLsb, iFormat_bit]
  grind

theorem sImm32_sFormat (imm : BitVec 12) (rs2 rs1 : Reg) (f3 : BitVec 3) (op : BitVec 7) :
    sImm32 (sFormat imm rs2 rs1 f3 op) = imm.signExtend 32 := by
  apply eq_signExtend
  intro k hk
  rw [sImm32, BitVec.getLsbD_append, BitVec.getLsbD_fill, BitVec.getLsbD_append,
    ← BitVec.getLsbD_eq_getElem]
  simp only [BitVec.getLsbD_extractLsb, sFormat_bit]
  grind

theorem bImm32_bFormat (offset : BitVec 12) (rs2 rs1 : Reg) (f3 : BitVec 3)
    (op : BitVec 7) : bImm32 (bFormat (offset ++ 0#1) rs2 rs1 f3 op) =
      (offset ++ 0#1).signExtend 32 := by
  have h0 : (offset ++ 0#1).getLsbD 0 = false := BitVec.getLsbD_append
  generalize offset ++ 0#1 = imm at h0 ⊢
  apply eq_signExtend
  intro k hk
  rw [bImm32, BitVec.getLsbD_append, BitVec.getLsbD_fill, BitVec.getLsbD_append,
    BitVec.getLsbD_append, BitVec.getLsbD_append, ← BitVec.getLsbD_eq_getElem]
  simp only [BitVec.getLsbD_extractLsb, bFormat_bit]
  grind

theorem uImm32_uFormat (imm : BitVec 20) (rd : Reg) (op : BitVec 7) :
    uImm32 (uFormat imm rd op) = imm ++ 0#12 := by
  apply BitVec.eq_of_getLsbD_eq
  intro k hk
  rw [uImm32, BitVec.getLsbD_append, BitVec.getLsbD_append]
  simp only [BitVec.getLsbD_extractLsb, uFormat_bit]
  grind

theorem jImm32_jFormat (offset : BitVec 20) (rd : Reg) (op : BitVec 7) :
    jImm32 (jFormat (offset ++ 0#1) rd op) = (offset ++ 0#1).signExtend 32 := by
  have h0 : (offset ++ 0#1).getLsbD 0 = false := BitVec.getLsbD_append
  generalize offset ++ 0#1 = imm at h0 ⊢
  apply eq_signExtend
  intro k hk
  rw [jImm32, BitVec.getLsbD_append, BitVec.getLsbD_fill, BitVec.getLsbD_append,
    BitVec.getLsbD_append, BitVec.getLsbD_append, ← BitVec.getLsbD_eq_getElem]
  simp only [BitVec.getLsbD_extractLsb, jFormat_bit]
  grind

/-- The shift amount is where rs2 is in a register instruction. -/
theorem shamt32_rFormat (f7 : BitVec 7) (shamt : BitVec 5) (rs1 : Reg) (f3 : BitVec 3)
    (rd : Reg) (op : BitVec 7) :
    shamt32 (rFormat f7 shamt rs1 f3 rd op) = shamt.setWidth 32 := by
  have hs : shamt32 (rFormat f7 shamt rs1 f3 rd op) = 0#27 ++ shamt :=
    congrArg (0#27 ++ ·) (rs2Id_rFormat f7 shamt rs1 f3 rd op)
  rw [hs]
  exact (BitVec.setWidth_eq_append (by decide)).symm

/-- The ALU control of a register operation. -/
def aluOpOf : RegOp → BitVec 4
  | .add => aluAdd
  | .sub => aluSub
  | .sll => aluShl
  | .slt => aluSlt
  | .sltu => aluSltu
  | .xor => aluXor
  | .srl => aluShr
  | .sra => aluSha
  | .or => aluOr
  | .and => aluAnd

theorem shift_amount (b : Word) : (b.extractLsb 4 0).toNat = b.toNat % 32 := by
  rw [BitVec.extractLsb_toNat]
  rfl

theorem alu_eval (o : RegOp) (a b h : Word) : alu a b (aluOpOf o) h = o.eval a b := by
  cases o with
  | sll => exact congrArg (a <<< ·) (shift_amount b)
  | srl => exact congrArg (a >>> ·) (shift_amount b)
  | sra => exact congrArg a.sshiftRight (shift_amount b)
  | slt =>
    change (if decide (a.toInt < b.toInt) then _ else _) = _
    simp [RegOp.eval]
  | sltu =>
    change (if decide (a.toNat < b.toNat) then _ else _) = _
    simp [RegOp.eval]
  | _ => rfl

theorem rTypeAluOp_op (o : RegOp) (h : BitVec 4) :
    rTypeAluOp o.funct3 o.funct7 h = aluOpOf o := by
  cases o <;> rfl

theorem iTypeAluOp_opImm (o : ImmOp) (f7 : BitVec 7) (h : BitVec 4) :
    iTypeAluOp o.funct3 f7 h = aluOpOf o.toRegOp := by
  cases o <;> rfl

theorem iTypeAluOp_shiftImm (o : ShiftOp) (h : BitVec 4) :
    iTypeAluOp o.funct3 o.funct7 h = aluOpOf o.toRegOp := by
  cases o <;> rfl

theorem difference_nonzero (a b h : Word) : (alu a b aluSub h != 0#32) = (a != b) := by
  rw [Bool.eq_iff_iff, bne_iff_ne, bne_iff_ne]
  exact not_congr sub_eq_zero

theorem less_nonzero (p : Bool) : ((if p then 1#32 else 0#32) != 0#32) = p := by
  cases p <;> rfl

/-- The branch decision of Hazard: a comparison by the ALU and its inversion. -/
theorem branch_holds (o : BranchOp) (a b h : Word) (op : BitVec 4) (v : Bool) :
    branchIsTaken false true (branchInvert o.funct3 v) (alu a b (branchAluOp o.funct3 op) h) =
      o.holds a b := by
  cases o with
  | beq =>
    change (true ^^ (alu a b aluSub h != 0#32)) = (a == b)
    rw [difference_nonzero, Bool.true_xor, bne, Bool.not_not]
  | bne =>
    change (false ^^ (alu a b aluSub h != 0#32)) = (a != b)
    rw [difference_nonzero, Bool.false_xor]
  | blt =>
    change (false ^^ ((if decide (a.toInt < b.toInt) then 1#32 else 0#32) != 0#32)) = _
    rw [less_nonzero, Bool.false_xor]
    rfl
  | bge =>
    change (true ^^ ((if decide (a.toInt < b.toInt) then 1#32 else 0#32) != 0#32)) = _
    rw [less_nonzero, Bool.true_xor, ← decide_not, BranchOp.holds, decide_eq_decide, Int.not_lt]
  | bltu =>
    change (false ^^ ((if decide (a.toNat < b.toNat) then 1#32 else 0#32) != 0#32)) = _
    rw [less_nonzero, Bool.false_xor]
    rfl
  | bgeu =>
    change (true ^^ ((if decide (a.toNat < b.toNat) then 1#32 else 0#32) != 0#32)) = _
    rw [less_nonzero, Bool.true_xor, ← decide_not, BranchOp.holds, decide_eq_decide, Nat.not_lt]

structure StageResult where
  aluOut : Word
  taken : Bool
  nextPc : Word

/-- One word from Decoder to PCCounter: `rs1` and `rs2` are the operands as forwarded,
`counter` is the address PCCounter stands at. -/
def executeStage (x : XValues) (held : ControlSignals) (aluHeld w pc counter rs1 rs2 : Word) :
    StageResult :=
  let c := decodeControl x w held
  let aluOut := alu (aluSrc1Val c.aluSrc1 pc rs1) (aluSrc2Val c.aluSrc2 rs2 (calcImmediate w))
    c.aluOp aluHeld
  let taken := branchIsTaken c.jump c.branch c.invertBranchTriger aluOut
  { aluOut := aluOut
    taken := taken
    nextPc := pcCounter true (if taken then c.typeInstruction else 0b00#2) pc
      (calcImmediate w) rs1 counter }

/-- The stage computes what the instruction set says of the instruction. -/
structure Implements (i : Instr) (pc counter a b : Word) (t : StageResult) : Prop where
  value : ∀ v, i.value pc a b = some v → t.aluOut = v
  address : ∀ v, i.address a = some v → t.aluOut = v
  taken : t.taken = i.redirects a b
  nextPc : t.nextPc = if i.redirects a b then i.target pc else counter + 4#32

section Stage

variable (x : XValues) (held : ControlSignals) (aluHeld pc counter a b : Word) {w : Word}

theorem stage_rType (hw : opcode w = .rType) : executeStage x held aluHeld w pc counter a b =
    ⟨alu a b (rTypeAluOp (funct3 w) (funct7 w) held.aluOp) aluHeld, false,
      counter + 4#32⟩ := by
  simp only [executeStage, decodeControl, controlUnit, hw]
  rfl

theorem stage_iType (hw : opcode w = .iType) : executeStage x held aluHeld w pc counter a b =
    ⟨alu a (calcImmediate w) (iTypeAluOp (funct3 w) (funct7 w) held.aluOp) aluHeld, false,
      counter + 4#32⟩ := by
  simp only [executeStage, decodeControl, controlUnit, hw]
  rfl

theorem stage_memory (hw : opcode w = .load ∨ opcode w = .store) :
    executeStage x held aluHeld w pc counter a b =
      ⟨a + calcImmediate w, false, counter + 4#32⟩ := by
  rcases hw with hw | hw <;> simp only [executeStage, decodeControl, controlUnit, hw] <;> rfl

theorem stage_auipc (hw : opcode w = .auipc) : executeStage x held aluHeld w pc counter a b =
    ⟨pc + calcImmediate w, false, counter + 4#32⟩ := by
  simp only [executeStage, decodeControl, controlUnit, hw]
  rfl

theorem stage_lui (hw : opcode w = .lui) : executeStage x held aluHeld w pc counter a b =
    ⟨calcImmediate w, false, counter + 4#32⟩ := by
  simp only [executeStage, decodeControl, controlUnit, hw]
  rfl

/-- The link is computed by whatever operation decode last latched. -/
theorem stage_jal (hw : opcode w = .jal) : executeStage x held aluHeld w pc counter a b =
    ⟨alu pc 4#32 held.aluOp aluHeld, true, pc + calcImmediate w⟩ := by
  simp only [executeStage, decodeControl, controlUnit, hw]
  rfl

theorem stage_branch {o : BranchOp} (hw : opcode w = .branch) (hf : funct3 w = o.funct3) :
    executeStage x held aluHeld w pc counter a b =
      ⟨alu a b (branchAluOp o.funct3 held.aluOp) aluHeld, o.holds a b,
        if o.holds a b then pc + calcImmediate w else counter + 4#32⟩ := by
  have ht := branch_holds o a b aluHeld held.aluOp held.invertBranchTriger
  simp only [executeStage, decodeControl, controlUnit, hw, hf, aluSrc1Val, aluSrc2Val,
    Bool.false_eq_true, ↓reduceIte, ht]
  cases o.holds a b <;> rfl

/-- An instruction that only computes a value. -/
theorem implements_value {i : Instr} {v : Word} {t : StageResult}
    (ht : t = ⟨v, false, counter + 4#32⟩) (hv : ∀ u, i.value pc a b = some u → v = u)
    (ha : i.address a = none) (hr : i.redirects a b = false) :
    Implements i pc counter a b t := by
  subst ht
  refine ⟨hv, ?_, hr.symm, ?_⟩
  · intro u hu
    rw [ha] at hu
    cases hu
  · rw [hr]
    rfl

theorem executes_op (o : RegOp) (rd rs1 rs2 : Reg) : Implements (.op o rd rs1 rs2) pc counter a b
    (executeStage x held aluHeld (encode (.op o rd rs1 rs2)) pc counter a b) := by
  have ho : opcode (encode (.op o rd rs1 rs2)) = .rType := opcode_encode _
  refine implements_value pc counter a b (stage_rType x held aluHeld pc counter a b ho) ?_ rfl rfl
  rintro u ⟨⟩
  rw [encode, funct3_rFormat, funct7_rFormat, rTypeAluOp_op, alu_eval]

theorem executes_opImm (o : ImmOp) (rd rs1 : Reg) (imm : BitVec 12) :
    Implements (.opImm o rd rs1 imm) pc counter a b
      (executeStage x held aluHeld (encode (.opImm o rd rs1 imm)) pc counter a b) := by
  have ho : opcode (encode (.opImm o rd rs1 imm)) = .iType := opcode_encode _
  have hf : funct3 (encode (.opImm o rd rs1 imm)) = o.funct3 := funct3_iFormat ..
  have himm : calcImmediate (encode (.opImm o rd rs1 imm)) = imm.signExtend 32 := by
    have hs : iImm32 (encode (.opImm o rd rs1 imm)) = imm.signExtend 32 := iImm32_iFormat ..
    rw [calcImmediate, ho, hf]
    cases o <;> exact hs
  refine implements_value pc counter a b (stage_iType x held aluHeld pc counter a b ho) ?_ rfl rfl
  rintro u ⟨⟩
  rw [himm, hf, iTypeAluOp_opImm, alu_eval]

theorem executes_shiftImm (o : ShiftOp) (rd rs1 : Reg) (shamt : BitVec 5) :
    Implements (.shiftImm o rd rs1 shamt) pc counter a b
      (executeStage x held aluHeld (encode (.shiftImm o rd rs1 shamt)) pc counter a b) := by
  have ho : opcode (encode (.shiftImm o rd rs1 shamt)) = .iType := opcode_encode _
  have hf : funct3 (encode (.shiftImm o rd rs1 shamt)) = o.funct3 := funct3_rFormat ..
  have himm : calcImmediate (encode (.shiftImm o rd rs1 shamt)) = shamt.setWidth 32 := by
    have hs : shamt32 (encode (.shiftImm o rd rs1 shamt)) = shamt.setWidth 32 :=
      shamt32_rFormat ..
    rw [calcImmediate, ho, hf]
    cases o <;> exact hs
  refine implements_value pc counter a b (stage_iType x held aluHeld pc counter a b ho) ?_ rfl rfl
  rintro u ⟨⟩
  have hop : iTypeAluOp o.funct3 (funct7 (encode (.shiftImm o rd rs1 shamt))) held.aluOp =
      aluOpOf o.toRegOp := by rw [encode, funct7_rFormat, iTypeAluOp_shiftImm]
  rw [himm, hf, hop, alu_eval]

theorem calcImmediate_uFormat {w : Word} {imm : BitVec 20} {rd : Reg} {op : BitVec 7}
    (hw : w = uFormat imm rd op) (ho : opcode w = .lui ∨ opcode w = .auipc) :
    calcImmediate w = imm ++ 0#12 := by
  rw [← uImm32_uFormat imm rd op, ← hw]
  rcases ho with ho | ho <;> rw [calcImmediate, ho]

theorem executes_lui (rd : Reg) (imm : BitVec 20) : Implements (.lui rd imm) pc counter a b
    (executeStage x held aluHeld (encode (.lui rd imm)) pc counter a b) := by
  have ho : opcode (encode (.lui rd imm)) = .lui := opcode_encode _
  refine implements_value pc counter a b (stage_lui x held aluHeld pc counter a b ho) ?_ rfl rfl
  rintro u ⟨⟩
  exact calcImmediate_uFormat rfl (Or.inl ho)

theorem executes_auipc (rd : Reg) (imm : BitVec 20) : Implements (.auipc rd imm) pc counter a b
    (executeStage x held aluHeld (encode (.auipc rd imm)) pc counter a b) := by
  have ho : opcode (encode (.auipc rd imm)) = .auipc := opcode_encode _
  refine implements_value pc counter a b (stage_auipc x held aluHeld pc counter a b ho) ?_ rfl rfl
  rintro u ⟨⟩
  exact congrArg (pc + ·) (calcImmediate_uFormat rfl (Or.inr ho))

theorem executes_load (o : LoadOp) (rd rs1 : Reg) (imm : BitVec 12) :
    Implements (.load o rd rs1 imm) pc counter a b
      (executeStage x held aluHeld (encode (.load o rd rs1 imm)) pc counter a b) := by
  have ho : opcode (encode (.load o rd rs1 imm)) = .load := opcode_encode _
  have himm : calcImmediate (encode (.load o rd rs1 imm)) = imm.signExtend 32 := by
    rw [calcImmediate, ho]
    exact iImm32_iFormat ..
  rw [stage_memory x held aluHeld pc counter a b (Or.inl ho), himm]
  refine ⟨fun v h => (nomatch h), ?_, rfl, rfl⟩
  rintro v ⟨⟩
  rfl

theorem executes_store (o : StoreOp) (rs1 rs2 : Reg) (imm : BitVec 12) :
    Implements (.store o rs1 rs2 imm) pc counter a b
      (executeStage x held aluHeld (encode (.store o rs1 rs2 imm)) pc counter a b) := by
  have ho : opcode (encode (.store o rs1 rs2 imm)) = .store := opcode_encode _
  have himm : calcImmediate (encode (.store o rs1 rs2 imm)) = imm.signExtend 32 := by
    rw [calcImmediate, ho]
    exact sImm32_sFormat ..
  rw [stage_memory x held aluHeld pc counter a b (Or.inr ho), himm]
  refine ⟨fun v h => (nomatch h), ?_, rfl, rfl⟩
  rintro v ⟨⟩
  rfl

theorem executes_branch (o : BranchOp) (rs1 rs2 : Reg) (offset : BitVec 12) :
    Implements (.branch o rs1 rs2 offset) pc counter a b
      (executeStage x held aluHeld (encode (.branch o rs1 rs2 offset)) pc counter a b) := by
  have ho : opcode (encode (.branch o rs1 rs2 offset)) = .branch := opcode_encode _
  have himm : calcImmediate (encode (.branch o rs1 rs2 offset)) =
      (offset ++ 0#1).signExtend 32 := by
    rw [calcImmediate, ho]
    exact bImm32_bFormat ..
  rw [stage_branch x held aluHeld pc counter a b ho (funct3_rFormat ..), himm]
  exact ⟨fun v h => (nomatch h), fun v h => (nomatch h), rfl, rfl⟩

theorem executes_jal (rd : Reg) (offset : BitVec 20) :
    Implements (.jal rd offset) pc counter a b
      (executeStage x held aluHeld (encode (.jal rd offset)) pc counter a b) := by
  have ho : opcode (encode (.jal rd offset)) = .jal := opcode_encode _
  have himm : calcImmediate (encode (.jal rd offset)) = (offset ++ 0#1).signExtend 32 := by
    rw [calcImmediate, ho]
    exact jImm32_jFormat ..
  rw [stage_jal x held aluHeld pc counter a b ho, himm]
  exact ⟨fun v h => (nomatch h), fun v h => (nomatch h), rfl, rfl⟩

theorem implements_encode (i : Instr) :
    Implements i pc counter a b (executeStage x held aluHeld (encode i) pc counter a b) := by
  cases i with
  | op o rd rs1 rs2 => exact executes_op x held aluHeld pc counter a b o rd rs1 rs2
  | opImm o rd rs1 imm => exact executes_opImm x held aluHeld pc counter a b o rd rs1 imm
  | shiftImm o rd rs1 sh => exact executes_shiftImm x held aluHeld pc counter a b o rd rs1 sh
  | lui rd imm => exact executes_lui x held aluHeld pc counter a b rd imm
  | auipc rd imm => exact executes_auipc x held aluHeld pc counter a b rd imm
  | branch o rs1 rs2 off => exact executes_branch x held aluHeld pc counter a b o rs1 rs2 off
  | load o rd rs1 imm => exact executes_load x held aluHeld pc counter a b o rd rs1 imm
  | store o rs1 rs2 imm => exact executes_store x held aluHeld pc counter a b o rs1 rs2 imm
  | jal rd off => exact executes_jal x held aluHeld pc counter a b rd off

/-- Whatever was decoded before, every instruction yields its RV32I value, address,
decision and next pc, for all operands. -/
theorem executes_rv32i (i : Instr) :
    Implements i pc counter a b (executeStage x held aluHeld (encode i) pc counter a b) ∧
      (executeStage x held aluHeld (encode i) pc pc a b).nextPc = i.nextPc pc a b :=
  ⟨implements_encode x held aluHeld pc counter a b i,
    (implements_encode x held aluHeld pc pc a b i).nextPc⟩

end Stage

end PipelineSemantics
