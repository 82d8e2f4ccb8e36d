import SimulatorRISCV.PipelineOutput

/-! # Unknown values

The zero case of ControlUnit assigns x to the operand selectors, and the latches power up
with any contents. Two runs that differ in nothing else show the same outputs, registers and
data memory in every clock, frozen ones included. -/
namespace PipelineUnknowns

open PipelineDecoder PipelineDatapath PipelineSimulator PipelineIssue PipelineRetirement
open PipelineForwarding PipelineArchitecture PipelineHarness PipelineTrace PipelineOutput

structure Idle (c : ControlSignals) : Prop where
  memToReg : c.memToReg = false
  memWrite : c.memWrite = false
  regWrite : c.regWrite = false
  branch : c.branch = false
  jump : c.jump = false

/-- The signals are the same but for the operand selectors of an idle word. -/
structure AlikeControl (c c' : ControlSignals) : Prop where
  rest : ∃ a b, c' = { c with aluSrc1 := a, aluSrc2 := b }
  select : Idle c ∨ c' = c

/-- A held selector can only pass from idle word to idle word. -/
theorem decode_alike {c c' : ControlSignals} (x x' : XValues) (w : Word)
    (h : AlikeControl c c') : AlikeControl (decodeControl x w c) (decodeControl x' w c') := by
  obtain ⟨⟨a, b, rfl⟩, hs⟩ := h
  unfold decodeControl controlUnit
  cases opcode w with
  | zero => exact ⟨⟨x'.aluSrc1, x'.aluSrc2, rfl⟩, Or.inl ⟨rfl, rfl, rfl, rfl, rfl⟩⟩
  | other =>
    refine ⟨⟨a, b, rfl⟩, ?_⟩
    rcases hs with hi | heq
    · exact Or.inl ⟨hi.memToReg, hi.memWrite, hi.regWrite, hi.branch, hi.jump⟩
    · exact Or.inr (congrArg (fun c : ControlSignals =>
        { c with bitExit := true, valid := true }) heq)
  | rType | iType | store | load | branch | jalr | jal | auipc | lui =>
    exact ⟨⟨_, _, rfl⟩, Or.inr rfl⟩

structure IdleFlags (f : ExecFlags) : Prop where
  memToReg : f.memToReg = false
  memWrite : f.memWrite = false
  regWrite : f.regWrite = false
  branch : f.branch = false
  jump : f.jump = false

structure AlikeFlags (f f' : ExecFlags) : Prop where
  rest : ∃ a b, f' = { f with aluSrc1 := a, aluSrc2 := b }
  select : IdleFlags f ∨ f' = f

theorem alikeFlags_refl (f : ExecFlags) : AlikeFlags f f := ⟨⟨_, _, rfl⟩, Or.inr rfl⟩

/-- The relation between the two runs. What an idle word computes may differ. -/
structure Alike (s s' : State) : Prop where
  pc : s'.pc = s.pc
  registers : s'.registers = s.registers
  dmem : s'.dmem = s.dmem
  decode : s'.decode = s.decode
  control : AlikeControl s.control s'.control
  execVals : s'.execVals = s.execVals
  execFlags : AlikeFlags s.execFlags s'.execFlags
  memFlags : s'.memFlags = s.memFlags
  memDebug : s'.memDebug = s.memDebug
  memPc : s'.memValues.pc = s.memValues.pc
  memWriteData : s'.memValues.memWriteData = s.memValues.memWriteData
  aluOut : s.memFlags.regWrite = true ∨ s.memFlags.memWrite = true →
    s'.memValues.aluOut = s.memValues.aluOut
  wbFlags : s'.wbFlags = s.wbFlags
  wbDebug : s'.wbDebug = s.wbDebug
  wbVals : s.wbFlags.regWrite = true → s'.wbVals = s.wbVals

section Alike

variable {s s' : State} (h : Alike s s')
include h

theorem Alike.bitExit : s'.bitExitWB = s.bitExitWB := congrArg WbFlags.bitExit h.wbFlags

theorem Alike.outputs : s'.outputs = s.outputs := by
  unfold State.outputs State.bitExitWB
  rw [h.wbFlags, h.wbDebug, h.decode]

theorem Alike.readData (hw : s.memFlags.regWrite = true) : s'.readDataMEM = s.readDataMEM := by
  rw [State.readDataMEM, h.dmem, h.aluOut (Or.inl hw), h.memFlags]
  rfl

theorem Alike.drained_eq : drained s' = drained s := by
  have hreg : (drained s').registers = (drained s).registers := by
    simp only [drained, h.registers, h.memFlags]
    cases hw : s.memFlags.regWrite with
    | false => rfl
    | true => rw [h.readData hw, h.aluOut (Or.inl hw)]
  have hmem : (drained s').dmem = (drained s).dmem := by
    simp only [drained, h.dmem, h.memFlags, h.memWriteData]
    cases hw : s.memFlags.memWrite with
    | false => rfl
    | true => rw [h.aluOut (Or.inr hw)]
  exact congrArg₂ Arch.mk hreg hmem

theorem Alike.loadStall : s'.loadStallExec = s.loadStallExec := by
  obtain ⟨a, b, hf⟩ := h.execFlags.rest
  rw [State.loadStallExec, h.decode, h.execVals, hf]
  rfl

end Alike

/-- Same program, start and stored operation; anything may differ that has no value. -/
structure SameInputs (ρ ρ' : Run) : Prop where
  imem : ρ'.imem = ρ.imem
  entry : ρ'.start.entry = ρ.start.entry
  registers : ρ'.start.registers = ρ.start.registers
  dmem : ρ'.start.dmem = ρ.start.dmem
  aluOp : ρ'.start.latches.aluOp = ρ.start.latches.aluOp
  invert : ρ'.start.latches.invertBranchTriger = ρ.start.latches.invertBranchTriger

variable {ρ ρ' : Run} {n : ℕ}

section Step

variable (h : Alike (ρ.state n) (ρ'.state n))
include h

theorem rs1_alike : (ρ'.state n).rs1ValForwardedExec = (ρ.state n).rs1ValForwardedExec := by
  rw [rs1_forwarded, rs1_forwarded, h.drained_eq, h.execVals]

theorem rs2_alike : (ρ'.state n).rs2ValForwardedExec = (ρ.state n).rs2ValForwardedExec := by
  rw [rs2_forwarded, rs2_forwarded, h.drained_eq, h.execVals]

/-- Every result that is used is the same. -/
theorem aluOut_alike : IdleFlags (ρ.state n).execFlags ∨
    (ρ'.state n).aluOutExec = (ρ.state n).aluOutExec := by
  rcases h.execFlags.select with hi | hf
  · exact Or.inl hi
  · right
    rw [run_alu, run_alu, State.aluSrc1ValExec, State.aluSrc2ValExec, rs1_alike h, rs2_alike h,
      hf, h.execVals]
    rfl

theorem taken_alike : (ρ'.state n).branchIsTakenExec = (ρ.state n).branchIsTakenExec := by
  obtain ⟨a, b, hf⟩ := h.execFlags.rest
  rw [State.branchIsTakenExec, hf]
  rcases aluOut_alike h with hi | ha
  · rw [State.branchIsTakenExec, hi.branch, hi.jump]
    simp [branchIsTaken]
  · rw [ha]
    rfl

theorem nextPC_alike : (ρ'.state n).nextPC = (ρ.state n).nextPC := by
  obtain ⟨a, b, hf⟩ := h.execFlags.rest
  rw [State.nextPC, State.takenNextPCExec, taken_alike h, h.execVals, h.pc, hf]
  rfl

theorem decodedVals_alike : (ρ'.state n).decodedVals = (ρ.state n).decodedVals := by
  obtain ⟨a, b, hc⟩ := h.control.rest
  rw [State.decodedVals, h.decode, h.registers, hc]
  rfl

theorem decodedFlags_alike : AlikeFlags (ρ.state n).decodedFlags (ρ'.state n).decodedFlags := by
  obtain ⟨⟨a, b, hc⟩, hs⟩ := h.control
  refine ⟨⟨a, b, ?_⟩, ?_⟩
  · rw [State.decodedFlags, hc]
    rfl
  · rcases hs with hi | heq
    · exact Or.inl ⟨hi.memToReg, hi.memWrite, hi.regWrite, hi.branch, hi.jump⟩
    · right
      rw [State.decodedFlags, heq]
      rfl

theorem executedFlags_alike : (ρ'.state n).executedFlags = (ρ.state n).executedFlags := by
  obtain ⟨a, b, hf⟩ := h.execFlags.rest
  rw [State.executedFlags, h.execVals, hf]
  rfl

end Step

theorem alike_zero (hi : SameInputs ρ ρ') : Alike (ρ.state 0) (ρ'.state 0) := by
  have hidle : Idle (decodeControl ρ.x 0#32 ρ.start.latches) := ⟨rfl, rfl, rfl, rfl, rfl⟩
  have hrest : decodeControl ρ'.x 0#32 ρ'.start.latches =
      { decodeControl ρ.x 0#32 ρ.start.latches with
        aluSrc1 := ρ'.x.aluSrc1, aluSrc2 := ρ'.x.aluSrc2 } := by
    simp only [decodeControl, controlUnit, opcode_zero, hi.aluOp, hi.invert]
  exact ⟨hi.entry, hi.registers, hi.dmem, rfl, ⟨⟨_, _, hrest⟩, Or.inl hidle⟩, rfl,
    alikeFlags_refl 0, rfl, rfl, rfl, rfl, fun _ => rfl, rfl, rfl, fun _ => rfl⟩

/-- What the register file and the data memory take over in a clock. -/
theorem writes_alike {s s' : State} {x x' : XValues} {imem imem' : MemArray} (h : Alike s s')
    (hf : (clockCycle x' imem' false s').wbFlags = (clockCycle x imem false s).wbFlags)
    (hv : (clockCycle x imem false s).wbFlags.regWrite = true →
      (clockCycle x' imem' false s').wbVals = (clockCycle x imem false s).wbVals) :
    (clockCycle x' imem' false s').registers = (clockCycle x imem false s).registers ∧
      (clockCycle x' imem' false s').dmem = (clockCycle x imem false s).dmem := by
  refine ⟨?_, congrArg Arch.dmem h.drained_eq⟩
  rw [clockCycle_registers, clockCycle_registers, State.resultWB, State.resultWB, hf, h.registers]
  cases hw : (clockCycle x imem false s).wbFlags.regWrite with
  | false => rfl
  | true => rw [hv hw]

theorem control_alike (hc : AlikeControl (ρ.state n).control (ρ'.state n).control)
    (hd : (ρ'.state (n + 1)).decode = (ρ.state (n + 1)).decode) :
    AlikeControl (ρ.state (n + 1)).control (ρ'.state (n + 1)).control := by
  have hword := congrArg DecodeReg.instr hd
  rw [Run.state, Run.state] at hword ⊢
  rw [clockCycle_control, clockCycle_control, hword]
  exact decode_alike _ _ _ hc

theorem alike_running (h : Alike (ρ.state n) (ρ'.state n)) (hm : ρ'.imem = ρ.imem)
    (hr : (ρ.state n).bitExitWB = false) : Alike (ρ.state (n + 1)) (ρ'.state (n + 1)) := by
  have hr' : (ρ'.state n).bitExitWB = false := h.bitExit.trans hr
  have ht := taken_alike h
  have hs := h.loadStall
  have hflags := executedFlags_alike h
  have hwbFlags : (ρ'.state (n + 1)).wbFlags = (ρ.state (n + 1)).wbFlags := by
    rw [Run.state, Run.state, running_wbFlags hr, running_wbFlags hr', State.accessedFlags,
      h.memFlags]
    rfl
  have hwbVals : (ρ.state (n + 1)).wbFlags.regWrite = true →
      (ρ'.state (n + 1)).wbVals = (ρ.state (n + 1)).wbVals := by
    rw [Run.state, Run.state, running_wbFlags hr, running_wbVals hr, running_wbVals hr']
    intro hw
    rw [State.accessedVals, h.readData hw, h.aluOut (Or.inl hw)]
    rfl
  have hdecode : (ρ'.state (n + 1)).decode = (ρ.state (n + 1)).decode := by
    rw [Run.state, Run.state, running_decode hr, running_decode hr', ht, hs, h.decode, h.pc, hm]
  obtain ⟨hregs, hdmem⟩ := writes_alike h hwbFlags hwbVals
  constructor
  case pc =>
    rw [Run.state, Run.state, running_pc hr, running_pc hr', hs, h.pc, nextPC_alike h]
  case registers => exact hregs
  case dmem => exact hdmem
  case decode => exact hdecode
  case control => exact control_alike h.control hdecode
  case execVals =>
    rw [Run.state, Run.state, running_execVals hr, running_execVals hr', hs, ht,
      decodedVals_alike h]
  case execFlags =>
    rw [Run.state, Run.state, running_execFlags hr, running_execFlags hr', hs, ht]
    split_ifs
    · exact alikeFlags_refl 0
    · exact decodedFlags_alike h
  case memFlags =>
    rw [Run.state, Run.state, running_memFlags hr, running_memFlags hr', hflags]
  case memDebug =>
    rw [Run.state, Run.state, running_memDebug hr, running_memDebug hr', State.executedDebug,
      h.execVals]
    rfl
  case memPc =>
    rw [Run.state, Run.state, running_memValues hr, running_memValues hr']
    exact congrArg ExecVals.pc h.execVals
  case memWriteData =>
    rw [Run.state, Run.state, running_memValues hr, running_memValues hr']
    exact rs2_alike h
  case aluOut =>
    rw [Run.state, Run.state, running_memValues hr, running_memValues hr', running_memFlags hr]
    intro hw
    rcases aluOut_alike h with hi | ha
    · rcases hw with hw | hw
      · exact absurd (hi.regWrite.symm.trans hw) Bool.false_ne_true
      · exact absurd (hi.memWrite.symm.trans hw) Bool.false_ne_true
    · exact ha
  case wbFlags => exact hwbFlags
  case wbDebug =>
    rw [Run.state, Run.state, running_wbDebug hr, running_wbDebug hr', State.accessedDebug,
      h.memPc, h.memDebug]
    rfl
  case wbVals => exact hwbVals

theorem alike_frozen (h : Alike (ρ.state n) (ρ'.state n))
    (hr : (ρ.state n).bitExitWB = true) : Alike (ρ.state (n + 1)) (ρ'.state (n + 1)) := by
  have hr' : (ρ'.state n).bitExitWB = true := h.bitExit.trans hr
  have ht := taken_alike h
  have hs := h.loadStall
  have hwbFlags : (ρ'.state (n + 1)).wbFlags = (ρ.state (n + 1)).wbFlags := by
    rw [Run.state, Run.state, frozen_wbFlags hr, frozen_wbFlags hr', h.wbFlags]
  have hwbVals : (ρ.state (n + 1)).wbFlags.regWrite = true →
      (ρ'.state (n + 1)).wbVals = (ρ.state (n + 1)).wbVals := by
    rw [Run.state, Run.state, frozen_wbFlags hr, frozen_wbVals hr, frozen_wbVals hr']
    exact h.wbVals
  have hdecode : (ρ'.state (n + 1)).decode = (ρ.state (n + 1)).decode := by
    rw [Run.state, Run.state, frozen_decode hr, frozen_decode hr', ht, h.decode]
  have hmem : (ρ.state (n + 1)).memValues = (ρ.state n).memValues := frozen_memValues hr
  have hmem' : (ρ'.state (n + 1)).memValues = (ρ'.state n).memValues := frozen_memValues hr'
  have hflags : (ρ.state (n + 1)).memFlags = (ρ.state n).memFlags := frozen_memFlags hr
  obtain ⟨hregs, hdmem⟩ := writes_alike h hwbFlags hwbVals
  constructor
  case pc =>
    rw [Run.state, Run.state, frozen_pc hr, frozen_pc hr', h.pc]
  case registers => exact hregs
  case dmem => exact hdmem
  case decode => exact hdecode
  case control => exact control_alike h.control hdecode
  case execVals =>
    rw [Run.state, Run.state, frozen_execVals hr, frozen_execVals hr', hs, ht, h.execVals]
  case execFlags =>
    rw [Run.state, Run.state, frozen_execFlags hr, frozen_execFlags hr', hs, ht]
    split_ifs
    · exact alikeFlags_refl 0
    · exact h.execFlags
  case memFlags =>
    rw [Run.state, Run.state, frozen_memFlags hr, frozen_memFlags hr', h.memFlags]
  case memDebug =>
    rw [Run.state, Run.state, frozen_memDebug hr, frozen_memDebug hr', h.memDebug]
  case memPc =>
    rw [hmem, hmem', h.memPc]
  case memWriteData =>
    rw [hmem, hmem', h.memWriteData]
  case aluOut =>
    rw [hmem, hmem', hflags]
    exact h.aluOut
  case wbFlags => exact hwbFlags
  case wbDebug =>
    rw [Run.state, Run.state, frozen_wbDebug hr, frozen_wbDebug hr', h.wbDebug]
  case wbVals => exact hwbVals

theorem alike_run (hi : SameInputs ρ ρ') (n : ℕ) : Alike (ρ.state n) (ρ'.state n) := by
  induction n with
  | zero => exact alike_zero hi
  | succ n ih =>
    cases hr : (ρ.state n).bitExitWB with
    | false => exact alike_running ih hi.imem hr
    | true => exact alike_frozen ih hr

theorem sampleAt_alike (mode : TraceMode) (h : Alike (ρ.state n) (ρ'.state n)) :
    sampleAt ρ' mode n = sampleAt ρ mode n := by
  have hrec : recordAt mode n (ρ'.state n) = recordAt mode n (ρ.state n) := by
    funext num
    cases mode with
    | off => rfl
    | trace =>
      rw [recordAt, traceLine, h.outputs, h.registers]
      rfl
    | traceInstr =>
      rw [recordAt, h.outputs, h.registers]
      rfl
  rw [sampleAt, sampleAt, h.outputs, hrec]

theorem samples_alike (hi : SameInputs ρ ρ') (mode : TraceMode) (k : ℕ) :
    samples ρ' mode k = samples ρ mode k :=
  List.filterMap_congr fun n _ => sampleAt_alike mode (alike_run hi n)

theorem stop_unique {k k' : ℕ} (hl : Live ρ k) (hl' : Live ρ k')
    (hx : (ρ.state k).bitExitWB = true) (hx' : (ρ.state k').bitExitWB = true) : k = k' := by
  rcases lt_trichotomy k k' with hlt | heq | hgt
  · exact absurd ((hl' k hlt).symm.trans hx) Bool.false_ne_true
  · exact heq
  · exact absurd ((hl k' hgt).symm.trans hx') Bool.false_ne_true

structure SameOutput (h h' : Harness) : Prop where
  out : h'.out = h.out
  stopped : h'.stopped = h.stopped

theorem output_alike (hi : SameInputs ρ ρ') (mode : TraceMode) (t : ℕ) :
    SameOutput (clockLoop ρ mode t) (clockLoop ρ' mode t) := by
  have hexit : ∀ k, (ρ'.state k).bitExitWB = (ρ.state k).bitExitWB := fun k =>
    (alike_run hi k).bitExit
  have hlive : ∀ {k}, Live ρ' k → Live ρ k := fun hl m hm => (hexit m).symm.trans (hl m hm)
  cases t with
  | zero => exact ⟨rfl, rfl⟩
  | succ t =>
    rcases clockLoop_prints ρ mode t with ⟨hp, hpr⟩ | ⟨k, hk, ht, hout⟩ <;>
      rcases clockLoop_prints ρ' mode t with ⟨hp', hpr'⟩ | ⟨k', hk', ht', hout'⟩
    · refine ⟨?_, hp'.running.trans hp.running.symm⟩
      rw [hpr.out, hpr'.out, samples_alike hi]
    · have hx := hp.live k' (by omega)
      exact absurd (hx.symm.trans ((hexit k').symm.trans hk'.exit)) Bool.false_ne_true
    · have hx := hlive hp'.live k (by omega)
      exact absurd (hx.symm.trans hk.exit) Bool.false_ne_true
    · obtain rfl := stop_unique hk.live (hlive hk'.live) hk.exit
        ((hexit k').symm.trans hk'.exit)
      refine ⟨?_, hk'.stopped.trans hk.stopped.symm⟩
      rw [hout, hout', samples_alike hi]

/-- Neither what the build puts for x nor what the selectors and ALUResult power up with can
be seen: in every clock, before and after the exit, the outputs, the registers and the data
memory are the same, and main prints the same and stops at the same time. -/
theorem unknowns_invisible (ρ ρ' : Run) (hi : SameInputs ρ ρ') :
    (∀ n, (ρ'.state n).outputs = (ρ.state n).outputs ∧
      contents (ρ'.state n) = contents (ρ.state n)) ∧
    ∀ mode t, SameOutput (clockLoop ρ mode t) (clockLoop ρ' mode t) := by
  refine ⟨?_, output_alike hi⟩
  intro n
  have h := alike_run hi n
  exact ⟨h.outputs, congrArg₂ Arch.mk h.registers h.dmem⟩

def raisedUnknowns : Run where
  x := ⟨true, 0b11#2⟩
  imem := PipelineSequential.stallAndJump.imem
  start :=
    { PipelineSequential.stallAndJump.start with
      latches := ⟨0#4, true, true, true, 0b11#2, true, true, false, true, 0b11#2, true, true⟩
      aluLatch := 0xFFFFFFFF#32 }

theorem raised_unknowns_invisible : SameOutput
    (clockLoop PipelineSequential.stallAndJump .trace 200) (clockLoop raisedUnknowns .trace 200) :=
  (unknowns_invisible PipelineSequential.stallAndJump raisedUnknowns
    ⟨rfl, rfl, rfl, rfl, rfl, rfl⟩).2 .trace 200

end PipelineUnknowns
