import Mathlib.Data.BitVec
import Mathlib.Tactic.Common

/-! # Instruction decode: Ops.v, CalcImmediate.v, ControlUnit.v and Decoder.v

ControlUnit is an incompletely assigned `always @(*)` block, so its outputs are latches:
a signal that a case leaves out keeps the value of the previously decoded word. -/
namespace PipelineDecoder

abbrev Word := BitVec 32
abbrev RegNum := BitVec 5

def aluAdd : BitVec 4 := 0b0000
def aluSub : BitVec 4 := 0b0001
def aluAnd : BitVec 4 := 0b0100
def aluOr : BitVec 4 := 0b0101
def aluXor : BitVec 4 := 0b0110
def aluShl : BitVec 4 := 0b1000
def aluShr : BitVec 4 := 0b1010
def aluSha : BitVec 4 := 0b1011
def aluSlt : BitVec 4 := 0b1100
def aluSltu : BitVec 4 := 0b1101
def aluA : BitVec 4 := 0b0111
def aluB : BitVec 4 := 0b1111

/-- The case labels of ControlUnit; `other` is its `default`. -/
inductive Opcode where
  | rType | iType | store | load | branch | jalr | jal | auipc | lui | zero | other
  deriving DecidableEq, Repr

def classify (opcode : BitVec 7) : Opcode :=
  if opcode = 0b0110011 then .rType
  else if opcode = 0b0010011 then .iType
  else if opcode = 0b0100011 then .store
  else if opcode = 0b0000011 then .load
  else if opcode = 0b1100011 then .branch
  else if opcode = 0b1100111 then .jalr
  else if opcode = 0b1101111 then .jal
  else if opcode = 0b0010111 then .auipc
  else if opcode = 0b0110111 then .lui
  else if opcode = 0b0000000 then .zero
  else .other

def opcodeBits (instr : Word) : BitVec 7 := instr.extractLsb 6 0
def funct3 (instr : Word) : BitVec 3 := instr.extractLsb 14 12
def funct7 (instr : Word) : BitVec 7 := instr.extractLsb 31 25
def rs1Id (instr : Word) : RegNum := instr.extractLsb 19 15
def rs2Id (instr : Word) : RegNum := instr.extractLsb 24 20
def rdId (instr : Word) : RegNum := instr.extractLsb 11 7
def memWidth (instr : Word) : BitVec 3 := funct3 instr

def opcode (instr : Word) : Opcode := classify (opcodeBits instr)

def iImm32 (instr : Word) : Word := BitVec.fill 20 instr[31] ++ instr.extractLsb 31 20
def sImm32 (instr : Word) : Word :=
  BitVec.fill 20 instr[31] ++ (instr.extractLsb 31 25 ++ instr.extractLsb 11 7)
def bImm32 (instr : Word) : Word :=
  BitVec.fill 20 instr[31] ++ (instr.extractLsb 7 7 ++
    (instr.extractLsb 30 25 ++ (instr.extractLsb 11 8 ++ 0#1)))
def uImm32 (instr : Word) : Word := instr.extractLsb 31 12 ++ 0#12
def jImm32 (instr : Word) : Word :=
  BitVec.fill 12 instr[31] ++ (instr.extractLsb 19 12 ++
    (instr.extractLsb 20 20 ++ (instr.extractLsb 30 21 ++ 0#1)))
def shamt32 (instr : Word) : Word := 0#27 ++ instr.extractLsb 24 20

def calcImmediate (instr : Word) : Word :=
  match opcode instr with
  | .iType =>
    if funct3 instr = 0b001 then shamt32 instr
    else if funct3 instr = 0b101 then shamt32 instr
    else iImm32 instr
  | .load => iImm32 instr
  | .store => sImm32 instr
  | .branch => bImm32 instr
  | .jal => jImm32 instr
  | .jalr => iImm32 instr
  | .auipc => uImm32 instr
  | .lui => uImm32 instr
  | .rType | .zero | .other => 0

structure ControlSignals where
  aluOp : BitVec 4
  memToReg : Bool
  memWrite : Bool
  aluSrc1 : Bool
  aluSrc2 : BitVec 2
  regWrite : Bool
  branch : Bool
  invertBranchTriger : Bool
  jump : Bool
  typeInstruction : BitVec 2
  bitExit : Bool
  valid : Bool
  deriving DecidableEq, Repr

/-- The values the simulator build substitutes for the literals `1'bx` and `2'bxx`. -/
structure XValues where
  aluSrc1 : Bool
  aluSrc2 : BitVec 2

def rTypeAluOp (funct3 : BitVec 3) (funct7 : BitVec 7) (held : BitVec 4) : BitVec 4 :=
  if funct3 = 0b000 then (if funct7 = 0b0000000 then aluAdd else aluSub)
  else if funct3 = 0b010 then aluSlt
  else if funct3 = 0b100 then aluXor
  else if funct3 = 0b111 then aluAnd
  else if funct3 = 0b001 then aluShl
  else if funct3 = 0b011 then aluSltu
  else if funct3 = 0b110 then aluOr
  else if funct3 = 0b101 then (if funct7 = 0b0000000 then aluShr else aluSha)
  else held

def iTypeAluOp (funct3 : BitVec 3) (funct7 : BitVec 7) (held : BitVec 4) : BitVec 4 :=
  if funct3 = 0b000 then aluAdd
  else if funct3 = 0b001 then aluShl
  else if funct3 = 0b010 then aluSlt
  else if funct3 = 0b011 then aluSltu
  else if funct3 = 0b100 then aluXor
  else if funct3 = 0b101 then (if funct7 = 0b0000000 then aluShr else aluSha)
  else if funct3 = 0b110 then aluOr
  else if funct3 = 0b111 then aluAnd
  else held

def branchAluOp (funct3 : BitVec 3) (held : BitVec 4) : BitVec 4 :=
  if funct3 = 0b000 then aluSub
  else if funct3 = 0b001 then aluSub
  else if funct3 = 0b100 then aluSlt
  else if funct3 = 0b101 then aluSlt
  else if funct3 = 0b110 then aluSltu
  else if funct3 = 0b111 then aluSltu
  else held

def branchInvert (funct3 : BitVec 3) (held : Bool) : Bool :=
  if funct3 = 0b000 then true
  else if funct3 = 0b001 then false
  else if funct3 = 0b100 then false
  else if funct3 = 0b101 then true
  else if funct3 = 0b110 then false
  else if funct3 = 0b111 then true
  else held

/-- One evaluation of the block. `held` is what the outputs were before it. -/
def controlUnit (x : XValues) (opcode : Opcode) (funct3 : BitVec 3) (funct7 : BitVec 7)
    (held : ControlSignals) : ControlSignals :=
  match opcode with
  | .rType =>
    { held with
      memToReg := false, memWrite := false, aluSrc1 := false, aluSrc2 := 0b00
      branch := false, jump := false, regWrite := true, typeInstruction := 0b00
      bitExit := false, valid := true
      aluOp := rTypeAluOp funct3 funct7 held.aluOp }
  | .iType =>
    { held with
      memToReg := false, memWrite := false, aluSrc1 := false, aluSrc2 := 0b01
      branch := false, jump := false, regWrite := true, typeInstruction := 0b00
      bitExit := false, valid := true
      aluOp := iTypeAluOp funct3 funct7 held.aluOp }
  | .store =>
    { held with
      memToReg := false, memWrite := true, aluSrc1 := false, aluSrc2 := 0b01
      branch := false, jump := false, regWrite := false, typeInstruction := 0b00
      aluOp := aluAdd, bitExit := false, valid := true }
  | .load =>
    { held with
      memToReg := true, memWrite := false, aluSrc1 := false, aluSrc2 := 0b01
      branch := false, jump := false, regWrite := true, typeInstruction := 0b00
      aluOp := aluAdd, bitExit := false, valid := true }
  | .branch =>
    { held with
      memToReg := false, memWrite := false, aluSrc1 := false, aluSrc2 := 0b00
      branch := true, jump := false, regWrite := false, typeInstruction := 0b01
      bitExit := false, valid := true
      aluOp := branchAluOp funct3 held.aluOp
      invertBranchTriger := branchInvert funct3 held.invertBranchTriger }
  | .jalr =>
    -- ALU_op is not assigned: the link address is computed by the held operation.
    { held with
      memToReg := false, memWrite := false, aluSrc1 := true, aluSrc2 := 0b11
      branch := false, jump := true, regWrite := true, typeInstruction := 0b11
      bitExit := false, valid := true }
  | .jal =>
    { held with
      memToReg := false, memWrite := false, aluSrc1 := true, aluSrc2 := 0b11
      branch := false, jump := true, regWrite := true, typeInstruction := 0b01
      bitExit := false, valid := true }
  | .auipc =>
    { held with
      memToReg := false, memWrite := false, aluSrc1 := true, aluSrc2 := 0b01
      aluOp := aluAdd, branch := false, jump := false, regWrite := true
      typeInstruction := 0b00, bitExit := false, valid := true }
  | .lui =>
    { held with
      memToReg := false, memWrite := false, aluSrc1 := false, aluSrc2 := 0b01
      aluOp := aluB, branch := false, jump := false, regWrite := true
      typeInstruction := 0b00, bitExit := false, valid := true }
  | .zero =>
    { held with
      memToReg := false, memWrite := false, aluSrc1 := x.aluSrc1, aluSrc2 := x.aluSrc2
      branch := false, jump := false, regWrite := false, typeInstruction := 0b00
      bitExit := false, valid := false }
  | .other => { held with bitExit := true, valid := true }

/-- The control outputs of Decoder for a word, over the held latches. -/
def decodeControl (x : XValues) (instr : Word) (held : ControlSignals) : ControlSignals :=
  controlUnit x (opcode instr) (funct3 instr) (funct7 instr) held

@[simp] theorem opcode_zero : opcode 0#32 = .zero := rfl
@[simp] theorem calcImmediate_zero : calcImmediate 0#32 = 0 := rfl

theorem funct3_cases (f : BitVec 3) : f = 0b000 ∨ f = 0b001 ∨ f = 0b010 ∨ f = 0b011 ∨
    f = 0b100 ∨ f = 0b101 ∨ f = 0b110 ∨ f = 0b111 := by
  revert f
  decide

theorem rTypeAluOp_assigned (f3 : BitVec 3) (f7 : BitVec 7) (h h' : BitVec 4) :
    rTypeAluOp f3 f7 h = rTypeAluOp f3 f7 h' := by
  rcases funct3_cases f3 with rfl | rfl | rfl | rfl | rfl | rfl | rfl | rfl <;> rfl

theorem iTypeAluOp_assigned (f3 : BitVec 3) (f7 : BitVec 7) (h h' : BitVec 4) :
    iTypeAluOp f3 f7 h = iTypeAluOp f3 f7 h' := by
  rcases funct3_cases f3 with rfl | rfl | rfl | rfl | rfl | rfl | rfl | rfl <;> rfl

theorem branch_assigned {f3 : BitVec 3} (hf : ¬(f3 = 0b010#3 ∨ f3 = 0b011#3))
    (h h' : BitVec 4) (v v' : Bool) :
    branchAluOp f3 h = branchAluOp f3 h' ∧ branchInvert f3 v = branchInvert f3 v' := by
  rcases funct3_cases f3 with rfl | rfl | rfl | rfl | rfl | rfl | rfl | rfl
  all_goals first | exact absurd (by decide) hf | exact ⟨rfl, rfl⟩

theorem branch_latched {f3 : BitVec 3} (hf : f3 = 0b010#3 ∨ f3 = 0b011#3) (h : BitVec 4)
    (v : Bool) : branchAluOp f3 h = h ∧ branchInvert f3 v = v := by
  rcases hf with rfl | rfl <;> exact ⟨rfl, rfl⟩

theorem branch_idempotent (f3 : BitVec 3) (h : BitVec 4) (v : Bool) :
    branchAluOp f3 (branchAluOp f3 h) = branchAluOp f3 h ∧
      branchInvert f3 (branchInvert f3 v) = branchInvert f3 v := by
  by_cases hf : f3 = 0b010#3 ∨ f3 = 0b011#3
  · obtain ⟨hop, hinv⟩ := branch_latched hf h v
    rw [hop, hinv]
    exact ⟨hop, hinv⟩
  · exact branch_assigned hf _ _ _ _

/-- Re-evaluating the block on unchanged inputs changes nothing, so a stalled word
may be decoded any number of times. -/
@[simp] theorem decodeControl_idempotent (x : XValues) (w : Word) (h : ControlSignals) :
    decodeControl x w (decodeControl x w h) = decodeControl x w h := by
  obtain ⟨hop, hinv⟩ := branch_idempotent (funct3 w) h.aluOp h.invertBranchTriger
  have hr := rTypeAluOp_assigned (funct3 w) (funct7 w)
    (rTypeAluOp (funct3 w) (funct7 w) h.aluOp) h.aluOp
  have hi := iTypeAluOp_assigned (funct3 w) (funct7 w)
    (iTypeAluOp (funct3 w) (funct7 w) h.aluOp) h.aluOp
  unfold decodeControl controlUnit
  cases opcode w with
  | rType => rw [hr]
  | iType => rw [hi]
  | branch => rw [hop, hinv]
  | _ => rfl

@[simp] theorem decodeControl_bitExit (x : XValues) (w : Word) (h : ControlSignals) :
    (decodeControl x w h).bitExit = decide (opcode w = .other) := by
  unfold decodeControl controlUnit
  cases opcode w <;> rfl

@[simp] theorem decodeControl_valid (x : XValues) (w : Word) (h : ControlSignals) :
    (decodeControl x w h).valid = decide (opcode w ≠ .zero) := by
  unfold decodeControl controlUnit
  cases opcode w <;> rfl

section Assigned

variable (x : XValues) {w : Word} (h : ControlSignals) (hw : opcode w ≠ .other)
include hw

theorem decodeControl_memToReg :
    (decodeControl x w h).memToReg = decide (opcode w = .load) := by
  unfold decodeControl controlUnit
  cases ho : opcode w <;> first | rfl | exact absurd ho hw

theorem decodeControl_memWrite :
    (decodeControl x w h).memWrite = decide (opcode w = .store) := by
  unfold decodeControl controlUnit
  cases ho : opcode w <;> first | rfl | exact absurd ho hw

theorem decodeControl_branch :
    (decodeControl x w h).branch = decide (opcode w = .branch) := by
  unfold decodeControl controlUnit
  cases ho : opcode w <;> first | rfl | exact absurd ho hw

theorem decodeControl_jump :
    (decodeControl x w h).jump = decide (opcode w = .jal ∨ opcode w = .jalr) := by
  unfold decodeControl controlUnit
  cases ho : opcode w <;> first | rfl | exact absurd ho hw

theorem decodeControl_regWrite : (decodeControl x w h).regWrite =
    decide (opcode w ≠ .store ∧ opcode w ≠ .branch ∧ opcode w ≠ .zero) := by
  unfold decodeControl controlUnit
  cases ho : opcode w <;> first | rfl | exact absurd ho hw

end Assigned

theorem typeInstruction_register (x : XValues) {w : Word} {h : ControlSignals}
    (ht : (decodeControl x w h).typeInstruction = 0b11#2) :
    opcode w = .jalr ∨ (opcode w = .other ∧ h.typeInstruction = 0b11#2) := by
  cases ho : opcode w with
  | jalr => exact Or.inl rfl
  | other => exact Or.inr ⟨rfl, by simpa [decodeControl, controlUnit, ho] using ht⟩
  | _ => simp [decodeControl, controlUnit, ho] at ht

/-- What every case but `default` makes true of the signals it assigns together.
`default` keeps all of them, so the property survives an exit word. -/
structure Coherent (c : ControlSignals) : Prop where
  load_quiet : c.memToReg = true → c.memWrite = false ∧ c.branch = false ∧ c.jump = false
  branch_target : c.branch = true → c.typeInstruction = 0b01
  jump_target : c.jump = true → c.typeInstruction = 0b01 ∨ c.typeInstruction = 0b11
  jump_link : c.jump = true → c.aluSrc1 = true ∧ c.aluSrc2 = 0b11
  store_quiet : c.memWrite = true → c.regWrite = false ∧ c.branch = false ∧ c.jump = false

theorem decodeControl_coherent (x : XValues) (w : Word) {h : ControlSignals}
    (hc : Coherent h) : Coherent (decodeControl x w h) := by
  unfold decodeControl controlUnit
  cases opcode w
  case other => exact ⟨hc.1, hc.2, hc.3, hc.4, hc.5⟩
  all_goals constructor <;> simp

theorem decodeControl_zero_coherent (x : XValues) (h : ControlSignals) :
    Coherent (decodeControl x 0#32 h) := by
  constructor <;> simp [decodeControl, controlUnit]

theorem zero_quiet (x : XValues) {w : Word} (hw : opcode w = .zero) (h : ControlSignals) :
    (decodeControl x w h).regWrite = false ∧ (decodeControl x w h).memWrite = false ∧
      (decodeControl x w h).jump = false ∧ (decodeControl x w h).branch = false := by
  simp [decodeControl, controlUnit, hw]

/-- Two evaluations that differ at most in an InvertBranchTriger nothing looks at. -/
structure Agree (c c' : ControlSignals) : Prop where
  memToReg : c.memToReg = c'.memToReg
  memWrite : c.memWrite = c'.memWrite
  aluSrc1 : c.aluSrc1 = c'.aluSrc1
  aluSrc2 : c.aluSrc2 = c'.aluSrc2
  regWrite : c.regWrite = c'.regWrite
  branch : c.branch = c'.branch
  jump : c.jump = c'.jump
  typeInstruction : c.typeInstruction = c'.typeInstruction
  aluOp : c.aluOp = c'.aluOp
  invert : c.branch = true → c.invertBranchTriger = c'.invertBranchTriger

/-- A BRANCH whose funct3 names no comparison. -/
def UndefinedBranch (w : Word) : Prop :=
  opcode w = .branch ∧ (funct3 w = 0b010#3 ∨ funct3 w = 0b011#3)

instance (w : Word) : Decidable (UndefinedBranch w) := inferInstanceAs (Decidable (_ ∧ _))

/-- The latched outputs that JAL, JALR and an undefined BRANCH go on using. -/
structure LatchesAgree (w : Word) (c c' : ControlSignals) : Prop where
  jump : opcode w = .jal ∨ opcode w = .jalr → c.aluOp = c'.aluOp
  branch : UndefinedBranch w →
    c.aluOp = c'.aluOp ∧ c.invertBranchTriger = c'.invertBranchTriger

/-- Only the words of `LatchesAgree` depend on what was decoded before them. -/
theorem decodeControl_agree (x : XValues) {w : Word} {h h' : ControlSignals}
    (ho : opcode w ≠ .other) (hz : opcode w ≠ .zero)
    (hl : LatchesAgree w (decodeControl x w h) (decodeControl x w h')) :
    Agree (decodeControl x w h) (decodeControl x w h') := by
  have hjump := hl.jump
  have hbranch := hl.branch
  unfold decodeControl controlUnit at hjump hbranch ⊢
  cases hw : opcode w with
  | other => exact absurd hw ho
  | zero => exact absurd hw hz
  | rType =>
    have := rTypeAluOp_assigned (funct3 w) (funct7 w) h.aluOp h'.aluOp
    constructor <;> simp [this]
  | iType =>
    have := iTypeAluOp_assigned (funct3 w) (funct7 w) h.aluOp h'.aluOp
    constructor <;> simp [this]
  | branch =>
    have hop : branchAluOp (funct3 w) h.aluOp = branchAluOp (funct3 w) h'.aluOp ∧
        branchInvert (funct3 w) h.invertBranchTriger =
          branchInvert (funct3 w) h'.invertBranchTriger := by
      by_cases hf : funct3 w = 0b010#3 ∨ funct3 w = 0b011#3
      · simpa [hw] using hbranch ⟨hw, hf⟩
      · exact branch_assigned hf _ _ _ _
    constructor <;> simp [hop.1, hop.2]
  | jal | jalr =>
    have hop : h.aluOp = h'.aluOp := by simpa [hw] using hjump
    constructor <;> simp [hop]
  | store | load | auipc | lui => constructor <;> simp

end PipelineDecoder
