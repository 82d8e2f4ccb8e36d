import SimulatorRISCV.PipelineDatapath

/-! # The top module Simulator.v

A state holds every register bank, both memories' contents that can change, and the two
combinational latches (ControlUnit's outputs and ALUResult) in their settled values.
`posedge` updates all banks from the old state at once and settles the latches;
`negedge` is the register file's write. -/
namespace PipelineSimulator

open PipelineDecoder PipelineDatapath

structure DecodeReg where
  pc : Word
  instr : Word
  deriving DecidableEq

structure ExecVals where
  pc : Word
  rs1Val : Word
  rs2Val : Word
  imm32 : Word
  rs1n : RegNum
  rs2n : RegNum
  rdn : RegNum
  aluOp : BitVec 4
  memWidth : BitVec 3
  deriving DecidableEq

structure ExecFlags where
  memToReg : Bool
  memWrite : Bool
  aluSrc1 : Bool
  aluSrc2 : BitVec 2
  regWrite : Bool
  branch : Bool
  invertBranchTriger : Bool
  jump : Bool
  nextPC : BitVec 2
  bitExit : Bool
  valid : Bool
  deriving DecidableEq

structure MemValues where
  pc : Word
  aluOut : Word
  memWriteData : Word
  deriving DecidableEq

structure MemFlags where
  memWidth : BitVec 3
  memToReg : Bool
  memWrite : Bool
  regWrite : Bool
  rdn : RegNum
  bitExit : Bool
  valid : Bool
  deriving DecidableEq

structure MemDebug where
  imm32 : Word
  rs1n : RegNum
  rs2n : RegNum
  deriving DecidableEq

structure WbVals where
  readData : Word
  aluOut : Word
  deriving DecidableEq

structure WbFlags where
  regWrite : Bool
  memToReg : Bool
  rdn : RegNum
  bitExit : Bool
  valid : Bool
  deriving DecidableEq

structure WbDebug where
  pc : Word
  imm32 : Word
  rs1n : RegNum
  rs2n : RegNum
  deriving DecidableEq

instance : Zero DecodeReg := ⟨0#32, 0#32⟩
instance : Zero ExecVals := ⟨0#32, 0#32, 0#32, 0#32, 0#5, 0#5, 0#5, 0#4, 0#3⟩
instance : Zero ExecFlags :=
  ⟨false, false, false, 0#2, false, false, false, false, 0#2, false, false⟩
instance : Zero MemValues := ⟨0#32, 0#32, 0#32⟩
instance : Zero MemFlags := ⟨0#3, false, false, false, 0#5, false, false⟩
instance : Zero MemDebug := ⟨0#32, 0#5, 0#5⟩
instance : Zero WbVals := ⟨0#32, 0#32⟩
instance : Zero WbFlags := ⟨false, false, 0#5, false, false⟩
instance : Zero WbDebug := ⟨0#32, 0#32, 0#5, 0#5⟩

structure State where
  pc : Word
  registers : RegBank
  dmem : MemArray
  decode : DecodeReg
  control : ControlSignals
  execVals : ExecVals
  execFlags : ExecFlags
  aluResult : Word
  memValues : MemValues
  memFlags : MemFlags
  memDebug : MemDebug
  wbVals : WbVals
  wbFlags : WbFlags
  wbDebug : WbDebug

namespace State

variable (s : State)

def bitExitWB : Bool := s.wbFlags.bitExit

def resultWB : Word := if s.wbFlags.memToReg then s.wbVals.readData else s.wbVals.aluOut

def forwardSrc1Exec : BitVec 2 :=
  forwardSrc s.memFlags.regWrite s.wbFlags.regWrite s.execVals.rs1n s.memFlags.rdn s.wbFlags.rdn
def forwardSrc2Exec : BitVec 2 :=
  forwardSrc s.memFlags.regWrite s.wbFlags.regWrite s.execVals.rs2n s.memFlags.rdn s.wbFlags.rdn

def rs1ValForwardedExec : Word :=
  forwarded s.forwardSrc1Exec s.memValues.aluOut s.resultWB s.execVals.rs1Val
def rs2ValForwardedExec : Word :=
  forwarded s.forwardSrc2Exec s.memValues.aluOut s.resultWB s.execVals.rs2Val

def aluSrc1ValExec : Word :=
  aluSrc1Val s.execFlags.aluSrc1 s.execVals.pc s.rs1ValForwardedExec
def aluSrc2ValExec : Word :=
  aluSrc2Val s.execFlags.aluSrc2 s.rs2ValForwardedExec s.execVals.imm32

/-- ALUOut_exec, the settled output of the ALU. -/
def aluOutExec : Word := s.aluResult

def loadStallExec : Bool :=
  loadStall s.execFlags.memToReg (rs1Id s.decode.instr) (rs2Id s.decode.instr) s.execVals.rdn

def branchIsTakenExec : Bool :=
  branchIsTaken s.execFlags.jump s.execFlags.branch s.execFlags.invertBranchTriger s.aluOutExec

def takenNextPCExec : BitVec 2 := if s.branchIsTakenExec then s.execFlags.nextPC else 0b00#2

/-- What PCCounter loads when it is enabled. JALR's rs1 operand is the value captured in
decode, not the forwarded one. -/
def nextPC : Word :=
  pcCounter true s.takenNextPCExec s.execVals.pc s.execVals.imm32 s.execVals.rs1Val s.pc

def readDataMEM : Word :=
  memoryDataRead s.dmem (s.memValues.aluOut >>> 2) s.memFlags.memWidth

/-! The concatenations at the inputs of the pipeline registers. -/

def decodedVals : ExecVals where
  pc := s.decode.pc
  rs1Val := registerRead s.registers (rs1Id s.decode.instr)
  rs2Val := registerRead s.registers (rs2Id s.decode.instr)
  imm32 := calcImmediate s.decode.instr
  rs1n := rs1Id s.decode.instr
  rs2n := rs2Id s.decode.instr
  rdn := rdId s.decode.instr
  aluOp := s.control.aluOp
  memWidth := memWidth s.decode.instr

def decodedFlags : ExecFlags where
  memToReg := s.control.memToReg
  memWrite := s.control.memWrite
  aluSrc1 := s.control.aluSrc1
  aluSrc2 := s.control.aluSrc2
  regWrite := s.control.regWrite
  branch := s.control.branch
  invertBranchTriger := s.control.invertBranchTriger
  jump := s.control.jump
  nextPC := s.control.typeInstruction
  bitExit := s.control.bitExit
  valid := s.control.valid

def executedValues : MemValues := ⟨s.execVals.pc, s.aluOutExec, s.rs2ValForwardedExec⟩

def executedFlags : MemFlags where
  memWidth := s.execVals.memWidth
  memToReg := s.execFlags.memToReg
  memWrite := s.execFlags.memWrite
  regWrite := s.execFlags.regWrite
  rdn := s.execVals.rdn
  bitExit := s.execFlags.bitExit
  valid := s.execFlags.valid

def executedDebug : MemDebug := ⟨s.execVals.imm32, s.execVals.rs1n, s.execVals.rs2n⟩

def accessedVals : WbVals := ⟨s.readDataMEM, s.memValues.aluOut⟩

def accessedFlags : WbFlags where
  regWrite := s.memFlags.regWrite
  memToReg := s.memFlags.memToReg
  rdn := s.memFlags.rdn
  bitExit := s.memFlags.bitExit
  valid := s.memFlags.valid

def accessedDebug : WbDebug :=
  ⟨s.memValues.pc, s.memDebug.imm32, s.memDebug.rs1n, s.memDebug.rs2n⟩

end State

/-- imem is read at width 010, with its write port tied off. -/
def fetch (imem : MemArray) (pc : Word) : Word := memoryInstruction imem (pc >>> 2) 0b010#3

/-- ControlUnit and ALU re-evaluate after their inputs changed. -/
def settle (x : XValues) (s : State) : State :=
  { s with
    control := decodeControl x s.decode.instr s.control
    aluResult := alu s.aluSrc1ValExec s.aluSrc2ValExec s.execVals.aluOp s.aluResult }

/-- The nonblocking assignments of one rising edge. -/
def updateBanks (imem : MemArray) (rst : Bool) (s : State) : State :=
  { pc := pcCounter (!s.loadStallExec && !s.bitExitWB) s.takenNextPCExec
      s.execVals.pc s.execVals.imm32 s.execVals.rs1Val s.pc
    registers := s.registers
    dmem := memoryDataWrite s.dmem (s.memValues.aluOut >>> 2) s.memFlags.memWidth
      s.memFlags.memWrite s.memValues.memWriteData
    decode := pipeline (rst || s.branchIsTakenExec) (!s.loadStallExec && !s.bitExitWB)
      ⟨s.pc, fetch imem s.pc⟩ s.decode
    control := s.control
    execVals := pipeline (rst || s.loadStallExec || s.branchIsTakenExec) (!s.bitExitWB)
      s.decodedVals s.execVals
    execFlags := pipeline (rst || s.loadStallExec || s.branchIsTakenExec) (!s.bitExitWB)
      s.decodedFlags s.execFlags
    aluResult := s.aluResult
    memValues := pipeline rst (!s.bitExitWB) s.executedValues s.memValues
    memFlags := pipeline rst (!s.bitExitWB) s.executedFlags s.memFlags
    memDebug := pipeline rst (!s.bitExitWB) s.executedDebug s.memDebug
    wbVals := pipeline rst (!s.bitExitWB) s.accessedVals s.wbVals
    wbFlags := pipeline rst (!s.bitExitWB) s.accessedFlags s.wbFlags
    wbDebug := pipeline rst (!s.bitExitWB) s.accessedDebug s.wbDebug }

def posedge (x : XValues) (imem : MemArray) (rst : Bool) (s : State) : State :=
  settle x (updateBanks imem rst s)

/-- The register file's write; no latch input depends on it. -/
def negedge (s : State) : State :=
  { s with registers :=
      registerWrite s.registers s.wbFlags.regWrite s.wbFlags.rdn s.resultWB }

/-- One clock: a rising and then a falling edge. -/
def clockCycle (x : XValues) (imem : MemArray) (rst : Bool) (s : State) : State :=
  negedge (posedge x imem rst s)

structure Outputs where
  bitExit : Bool
  validOut : Bool
  pcOut : Word
  immOut : Word
  rs1nOut : RegNum
  rs2nOut : RegNum
  rdnOut : RegNum
  regWriteOut : Bool
  opcodeOut : Word
  deriving DecidableEq

def State.outputs (s : State) : Outputs where
  bitExit := s.bitExitWB
  validOut := s.wbFlags.valid
  pcOut := s.wbDebug.pc
  immOut := s.wbDebug.imm32
  rs1nOut := s.wbDebug.rs1n
  rs2nOut := s.wbDebug.rs2n
  rdnOut := s.wbFlags.rdn
  regWriteOut := s.wbFlags.regWrite
  opcodeOut := s.decode.instr

/-- What a run starts from. Registers, data memory and both latches are arbitrary. -/
structure PowerOn where
  entry : Word
  registers : RegBank
  dmem : MemArray
  latches : ControlSignals
  aluLatch : Word

/-- Every pipeline register zero and the entry address in PCCounter, before the first
evaluation. -/
def PowerOn.raw (p : PowerOn) : State where
  pc := p.entry
  registers := p.registers
  dmem := p.dmem
  decode := 0
  control := p.latches
  execVals := 0
  execFlags := 0
  aluResult := p.aluLatch
  memValues := 0
  memFlags := 0
  memDebug := 0
  wbVals := 0
  wbFlags := 0
  wbDebug := 0

/-- A run with rst held at 0. -/
structure Run where
  x : XValues
  imem : MemArray
  start : PowerOn

/-- The state after `n` clocks, sampled with the clock low. -/
def Run.state (ρ : Run) : ℕ → State
  | 0 => settle ρ.x ρ.start.raw
  | n + 1 => clockCycle ρ.x ρ.imem false (ρ.state n)

/-- A program at address 0 in an otherwise cleared machine, for concrete runs. -/
def bootProgram (words : List Word) : Run where
  x := ⟨false, 0b00#2⟩
  imem i := words.getD i.toNat 0#32
  start :=
    { entry := 0#32
      registers := fun _ => 0#32
      dmem := fun _ => 0#32
      latches := ⟨0#4, false, false, false, 0#2, false, false, false, false, 0#2, false, false⟩
      aluLatch := 0#32 }

/-- Clock-low states under any history of the reset input. -/
inductive Reachable (x : XValues) (imem : MemArray) : State → Prop where
  | powerOn (p : PowerOn) : Reachable x imem (settle x p.raw)
  | cycle {s} (rst : Bool) : Reachable x imem s → Reachable x imem (clockCycle x imem rst s)

theorem Run.reachable (ρ : Run) (n : ℕ) : Reachable ρ.x ρ.imem (ρ.state n) := by
  induction n with
  | zero => exact .powerOn ρ.start
  | succ n ih => exact .cycle false ih

section Edges

variable (x : XValues) (imem : MemArray) (s : State)

/-- The register write of a clock is that of the instruction the rising edge put in WB. -/
theorem clockCycle_registers (rst : Bool) :
    (clockCycle x imem rst s).registers =
      registerWrite s.registers (clockCycle x imem rst s).wbFlags.regWrite
        (clockCycle x imem rst s).wbFlags.rdn (clockCycle x imem rst s).resultWB := rfl

@[simp] theorem clockCycle_control (rst : Bool) :
    (clockCycle x imem rst s).control =
      decodeControl x (clockCycle x imem rst s).decode.instr s.control := rfl

@[simp] theorem clockCycle_dmem (rst : Bool) :
    (clockCycle x imem rst s).dmem = memoryDataWrite s.dmem (s.memValues.aluOut >>> 2)
      s.memFlags.memWidth s.memFlags.memWrite s.memValues.memWriteData := rfl

theorem clockCycle_aluOut (rst : Bool) :
    (clockCycle x imem rst s).aluOutExec =
      alu (clockCycle x imem rst s).aluSrc1ValExec (clockCycle x imem rst s).aluSrc2ValExec
        (clockCycle x imem rst s).execVals.aluOp s.aluOutExec := rfl

end Edges

/-! Both latches are settled in every clock-low and clock-high state. -/

theorem settle_settle (x : XValues) (s : State) : settle x (settle x s) = settle x s :=
  calc settle x (settle x s)
    _ = { s with
          control := decodeControl x s.decode.instr (decodeControl x s.decode.instr s.control)
          aluResult := alu s.aluSrc1ValExec s.aluSrc2ValExec s.execVals.aluOp
            (alu s.aluSrc1ValExec s.aluSrc2ValExec s.execVals.aluOp s.aluResult) } := rfl
    _ = settle x s := by rw [decodeControl_idempotent, alu_idempotent]; rfl

theorem settle_posedge (x : XValues) (imem : MemArray) (s : State) :
    settle x (posedge x imem false s) = posedge x imem false s := settle_settle _ _

/-- No input of the two latches depends on the register file. -/
theorem negedge_settle (x : XValues) (s : State) :
    negedge (settle x s) = settle x (negedge s) := rfl

theorem settle_clockCycle (x : XValues) (imem : MemArray) (s : State) :
    settle x (clockCycle x imem false s) = clockCycle x imem false s := by
  rw [clockCycle, posedge, negedge_settle, settle_settle]

theorem settle_state (ρ : Run) (n : ℕ) : settle ρ.x (ρ.state n) = ρ.state n := by
  cases n with
  | zero => exact settle_settle _ _
  | succ n => exact settle_clockCycle _ _ _

/-! A clock in which bit_exit_WB is 0 moves every stage on. -/
section Running

variable {x : XValues} {imem : MemArray} {s : State} (h : s.bitExitWB = false)
include h

theorem running_pc : (clockCycle x imem false s).pc =
    if s.loadStallExec then s.pc else s.nextPC := by
  change pcCounter (!s.loadStallExec && !s.bitExitWB) _ _ _ _ _ = _
  rw [h]
  cases s.loadStallExec <;> rfl

theorem running_decode : (clockCycle x imem false s).decode =
    if s.branchIsTakenExec then 0
    else if s.loadStallExec then s.decode else ⟨s.pc, fetch imem s.pc⟩ := by
  change pipeline (false || s.branchIsTakenExec) (!s.loadStallExec && !s.bitExitWB) _ _ = _
  rw [h]
  cases s.branchIsTakenExec <;> cases s.loadStallExec <;> rfl

theorem running_execVals : (clockCycle x imem false s).execVals =
    if s.loadStallExec || s.branchIsTakenExec then 0 else s.decodedVals := by
  change pipeline (false || s.loadStallExec || s.branchIsTakenExec) (!s.bitExitWB) _ _ = _
  rw [h]
  cases s.branchIsTakenExec <;> cases s.loadStallExec <;> rfl

theorem running_execFlags : (clockCycle x imem false s).execFlags =
    if s.loadStallExec || s.branchIsTakenExec then 0 else s.decodedFlags := by
  change pipeline (false || s.loadStallExec || s.branchIsTakenExec) (!s.bitExitWB) _ _ = _
  rw [h]
  cases s.branchIsTakenExec <;> cases s.loadStallExec <;> rfl

private theorem running_bank {α : Type*} [Zero α] (a b : α) :
    pipeline false (!s.bitExitWB) a b = a := by rw [h]; rfl

theorem running_memValues : (clockCycle x imem false s).memValues = s.executedValues :=
  running_bank h _ _
theorem running_memFlags : (clockCycle x imem false s).memFlags = s.executedFlags :=
  running_bank h _ _
theorem running_memDebug : (clockCycle x imem false s).memDebug = s.executedDebug :=
  running_bank h _ _
theorem running_wbVals : (clockCycle x imem false s).wbVals = s.accessedVals :=
  running_bank h _ _
theorem running_wbFlags : (clockCycle x imem false s).wbFlags = s.accessedFlags :=
  running_bank h _ _
theorem running_wbDebug : (clockCycle x imem false s).wbDebug = s.accessedDebug :=
  running_bank h _ _

/-! What the front of the pipeline does in such a clock: it flows, stalls or is flushed. -/

theorem running_flow (x : XValues) (imem : MemArray)
    (hs : s.loadStallExec = false) (ht : s.branchIsTakenExec = false) :
    (clockCycle x imem false s).pc = s.pc + 4#32 ∧
      (clockCycle x imem false s).decode = ⟨s.pc, fetch imem s.pc⟩ ∧
      (clockCycle x imem false s).execVals = s.decodedVals ∧
      (clockCycle x imem false s).execFlags = s.decodedFlags := by
  rw [running_pc h, running_decode h, running_execVals h, running_execFlags h, State.nextPC,
    State.takenNextPCExec, hs, ht]
  exact ⟨rfl, rfl, rfl, rfl⟩

theorem running_stall (x : XValues) (imem : MemArray)
    (hs : s.loadStallExec = true) (ht : s.branchIsTakenExec = false) :
    (clockCycle x imem false s).pc = s.pc ∧
      (clockCycle x imem false s).decode = s.decode ∧
      (clockCycle x imem false s).execVals = 0 ∧
      (clockCycle x imem false s).execFlags = 0 := by
  rw [running_pc h, running_decode h, running_execVals h, running_execFlags h, hs, ht]
  exact ⟨rfl, rfl, rfl, rfl⟩

theorem running_flush (x : XValues) (imem : MemArray)
    (hs : s.loadStallExec = false) (ht : s.branchIsTakenExec = true) :
    (clockCycle x imem false s).pc = s.nextPC ∧
      (clockCycle x imem false s).decode = 0 ∧
      (clockCycle x imem false s).execVals = 0 ∧
      (clockCycle x imem false s).execFlags = 0 := by
  rw [running_pc h, running_decode h, running_execVals h, running_execFlags h, hs, ht]
  exact ⟨rfl, rfl, rfl, rfl⟩

end Running

/-! Once bit_exit_WB is 1 the pc and the MEM and WB banks hold. -/
section Frozen

variable {x : XValues} {imem : MemArray} {s : State} (h : s.bitExitWB = true)
include h

theorem frozen_pc : (clockCycle x imem false s).pc = s.pc := by
  change pcCounter (!s.loadStallExec && !s.bitExitWB) _ _ _ _ _ = _
  simp [h, pcCounter]

private theorem frozen_bank {α : Type*} [Zero α] (a b : α) :
    pipeline false (!s.bitExitWB) a b = b := by rw [h]; rfl

theorem frozen_memValues : (clockCycle x imem false s).memValues = s.memValues :=
  frozen_bank h _ _
theorem frozen_memFlags : (clockCycle x imem false s).memFlags = s.memFlags :=
  frozen_bank h _ _
theorem frozen_memDebug : (clockCycle x imem false s).memDebug = s.memDebug :=
  frozen_bank h _ _
theorem frozen_wbVals : (clockCycle x imem false s).wbVals = s.wbVals :=
  frozen_bank h _ _
theorem frozen_wbFlags : (clockCycle x imem false s).wbFlags = s.wbFlags :=
  frozen_bank h _ _

theorem frozen_wbDebug : (clockCycle x imem false s).wbDebug = s.wbDebug :=
  frozen_bank h _ _

theorem frozen_decode : (clockCycle x imem false s).decode =
    if s.branchIsTakenExec then 0 else s.decode := by
  change pipeline (false || s.branchIsTakenExec) (!s.loadStallExec && !s.bitExitWB) _ _ = _
  rw [h]
  cases s.branchIsTakenExec <;> cases s.loadStallExec <;> rfl

/-- The flushes still act on execute and decode. -/
theorem frozen_execVals : (clockCycle x imem false s).execVals =
    if s.loadStallExec || s.branchIsTakenExec then 0 else s.execVals := by
  change pipeline (false || s.loadStallExec || s.branchIsTakenExec) (!s.bitExitWB) _ _ = _
  rw [h]
  cases s.branchIsTakenExec <;> cases s.loadStallExec <;> rfl

theorem frozen_execFlags : (clockCycle x imem false s).execFlags =
    if s.loadStallExec || s.branchIsTakenExec then 0 else s.execFlags := by
  change pipeline (false || s.loadStallExec || s.branchIsTakenExec) (!s.bitExitWB) _ _ = _
  rw [h]
  cases s.branchIsTakenExec <;> cases s.loadStallExec <;> rfl

/-- bit_exit stays raised. -/
theorem frozen_bitExit : (clockCycle x imem false s).bitExitWB = true := by
  rw [State.bitExitWB, frozen_wbFlags h]
  exact h

end Frozen

theorem Run.bitExit_mono (ρ : Run) {m n : ℕ} (hmn : m ≤ n)
    (h : (ρ.state m).bitExitWB = true) : (ρ.state n).bitExitWB = true := by
  induction n, hmn using Nat.le_induction with
  | base => exact h
  | succ n _ ih => exact frozen_bitExit ih

end PipelineSimulator
