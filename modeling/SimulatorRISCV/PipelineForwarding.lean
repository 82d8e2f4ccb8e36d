import SimulatorRISCV.PipelineRetirement

/-! # Forwarding, stalls and the architectural state

The architectural state of a clock-low state is what the register file and the data memory
become once the instructions in WB and MEM have completed. Each running clock advances it by
exactly the instruction in execute, and the forwarded operands are its registers. -/
namespace PipelineForwarding

open PipelineDecoder PipelineDatapath PipelineSimulator PipelineIssue PipelineRetirement

structure Arch where
  registers : RegBank
  dmem : MemArray

/-- WB has already written at the falling edge; only MEM's instruction is pending. -/
def drained (s : State) : Arch where
  registers := registerWrite s.registers s.memFlags.regWrite s.memFlags.rdn
    (if s.memFlags.memToReg then s.readDataMEM else s.memValues.aluOut)
  dmem := memoryDataWrite s.dmem (s.memValues.aluOut >>> 2) s.memFlags.memWidth
    s.memFlags.memWrite s.memValues.memWriteData

def commit (s : State) (a : Arch) : Arch where
  registers := registerWrite a.registers s.execFlags.regWrite s.execVals.rdn
    (if s.execFlags.memToReg
      then memoryDataRead a.dmem (s.aluOutExec >>> 2) s.execVals.memWidth else s.aluOutExec)
  dmem := memoryDataWrite a.dmem (s.aluOutExec >>> 2) s.execVals.memWidth
    s.execFlags.memWrite s.rs2ValForwardedExec

variable {x : XValues} {imem : MemArray} {s : State}

theorem commit_bubble (h : ExecBubble s) (a : Arch) : commit s a = a := by
  unfold commit
  rw [h.regWrite, h.memWrite]
  rfl

theorem registers_drain (h : s.bitExitWB = false) :
    (clockCycle x imem false s).registers = (drained s).registers := by
  rw [clockCycle_registers, running_wbFlags h, State.resultWB, running_wbFlags h,
    running_wbVals h]
  rfl

theorem dmem_drain : (clockCycle x imem false s).dmem = (drained s).dmem := rfl

/-- The step lemma of the architectural state. -/
theorem drained_step (h : s.bitExitWB = false) :
    drained (clockCycle x imem false s) = commit s (drained s) := by
  have hr : (clockCycle x imem false s).registers = _ := registers_drain h
  rw [drained, State.readDataMEM, hr, dmem_drain, running_memFlags h, running_memValues h]
  rfl

theorem registers_next {ρ : Run} {n : ℕ} (hl : Live ρ (n + 1)) :
    (ρ.state (n + 1)).registers = (drained (ρ.state n)).registers :=
  registers_drain (hl n (Nat.lt_succ_self n))

theorem drained_next {ρ : Run} {n : ℕ} (hl : Live ρ (n + 1)) :
    drained (ρ.state (n + 1)) = commit (ρ.state n) (drained (ρ.state n)) :=
  drained_step (hl n (Nat.lt_succ_self n))

/-- What makes an operand captured in decode usable in execute: it is the register's value
but for the writes of WB and MEM, and MEM holds no load of that register. -/
structure Captured (s : State) (n : RegNum) (v : Word) : Prop where
  x0 : n = 0#5 → v = 0#32
  current : n ≠ 0#5 → ¬(s.wbFlags.regWrite = true ∧ s.wbFlags.rdn = n) → v = s.registers n
  no_load : n ≠ 0#5 → s.memFlags.memToReg = true → s.memFlags.rdn ≠ n

/-- The hazard invariant of clock-low states. -/
structure Hazards (s : State) : Prop where
  written : registerWrite s.registers s.wbFlags.regWrite s.wbFlags.rdn s.resultWB = s.registers
  src1 : Captured s s.execVals.rs1n s.execVals.rs1Val
  src2 : Captured s s.execVals.rs2n s.execVals.rs2Val

theorem captured_x0 {v : Word} (hv : v = 0#32) : Captured s 0#5 v :=
  ⟨fun _ => hv, fun h => absurd rfl h, fun h => absurd rfl h⟩

theorem written_of_cycle (rst : Bool) : registerWrite (clockCycle x imem rst s).registers
    (clockCycle x imem rst s).wbFlags.regWrite (clockCycle x imem rst s).wbFlags.rdn
    (clockCycle x imem rst s).resultWB = (clockCycle x imem rst s).registers := by
  rw [clockCycle_registers]
  exact registerWrite_again _ _ _ _

theorem reachable_written (h : Reachable x imem s) :
    registerWrite s.registers s.wbFlags.regWrite s.wbFlags.rdn s.resultWB = s.registers := by
  cases h with
  | powerOn p => rfl
  | cycle rst _ => exact written_of_cycle rst

theorem captured_of_decoded (hr : s.bitExitWB = false) {n : RegNum}
    (hn : s.execFlags.memToReg = true → s.execVals.rdn ≠ n) :
    Captured (clockCycle x imem false s) n (registerRead s.registers n) := by
  constructor
  · intro h
    rw [h]
    rfl
  · intro h hw
    rw [clockCycle_registers, registerWrite_apply, if_neg fun hc => hw ⟨hc.1, hc.2.2⟩,
      registerRead_of_ne _ h]
  · intro _
    rw [running_memFlags hr]
    exact hn

theorem hazards_running (hr : s.bitExitWB = false) : Hazards (clockCycle x imem false s) := by
  have hv : (clockCycle x imem false s).execVals = _ := running_execVals hr
  refine ⟨written_of_cycle false, ?_, ?_⟩ <;> rw [hv] <;> split_ifs with hf
  · exact captured_x0 rfl
  · refine captured_of_decoded hr fun hm hd => hf ?_
    simp [State.loadStallExec, loadStall, hm, State.decodedVals, hd]
  · exact captured_x0 rfl
  · refine captured_of_decoded hr fun hm hd => hf ?_
    simp [State.loadStallExec, loadStall, hm, State.decodedVals, hd]

theorem frozen_registers (hr : s.bitExitWB = true)
    (hw : registerWrite s.registers s.wbFlags.regWrite s.wbFlags.rdn s.resultWB = s.registers) :
    (clockCycle x imem false s).registers = s.registers := by
  rw [clockCycle_registers, State.resultWB, frozen_wbFlags hr, frozen_wbVals hr]
  exact hw

theorem captured_frozen (hr : s.bitExitWB = true) (h : Hazards s) {n : RegNum} {v : Word}
    (hc : Captured s n v) : Captured (clockCycle x imem false s) n v := by
  have hreg : (clockCycle x imem false s).registers = _ := frozen_registers hr h.written
  refine ⟨hc.x0, ?_, ?_⟩
  · rw [frozen_wbFlags hr, hreg]; exact hc.current
  · rw [frozen_memFlags hr]; exact hc.no_load

theorem hazards_step (h : Hazards s) : Hazards (clockCycle x imem false s) := by
  cases hr : s.bitExitWB with
  | false => exact hazards_running hr
  | true =>
    refine ⟨written_of_cycle false, ?_, ?_⟩ <;> rw [frozen_execVals hr] <;> split_ifs
    · exact captured_x0 rfl
    · exact captured_frozen hr h h.src1
    · exact captured_x0 rfl
    · exact captured_frozen hr h h.src2

theorem run_hazards (ρ : Run) (n : ℕ) : Hazards (ρ.state n) := by
  induction n with
  | zero => exact ⟨rfl, captured_x0 rfl, captured_x0 rfl⟩
  | succ n ih => exact hazards_step ih

theorem forwarded_eq_drained (h : Hazards s) {n : RegNum} {v : Word} (hc : Captured s n v) :
    forwarded (forwardSrc s.memFlags.regWrite s.wbFlags.regWrite n s.memFlags.rdn
      s.wbFlags.rdn) s.memValues.aluOut s.resultWB v = registerRead (drained s).registers n := by
  rw [forwarded_forwardSrc]
  by_cases hn : n = 0#5
  · rw [if_pos hn, hc.x0 hn, hn]; rfl
  · rw [if_neg hn, drained, registerRead_write _ _ _ hn]
    split_ifs with hm hl hw
    · exact absurd hm.2 (hc.no_load hn hl)
    · rfl
    · rw [← h.written, registerWrite_apply, if_pos ⟨hw.1, hw.2 ▸ hn, hw.2⟩]
    · exact hc.current hn hw

theorem rs1_forwarded (ρ : Run) (n : ℕ) : (ρ.state n).rs1ValForwardedExec =
    registerRead (drained (ρ.state n)).registers (ρ.state n).execVals.rs1n :=
  forwarded_eq_drained (run_hazards ρ n) (run_hazards ρ n).src1

theorem rs2_forwarded (ρ : Run) (n : ℕ) : (ρ.state n).rs2ValForwardedExec =
    registerRead (drained (ρ.state n)).registers (ρ.state n).execVals.rs2n :=
  forwarded_eq_drained (run_hazards ρ n) (run_hazards ρ n).src2

def pendingWritten (s : State) : RegBank :=
  registerWrite
    (registerWrite s.registers s.wbFlags.regWrite s.wbFlags.rdn s.resultWB)
    s.memFlags.regWrite s.memFlags.rdn
    (if s.memFlags.memToReg then s.readDataMEM else s.memValues.aluOut)

/-- Execute's operands are the registers that the instructions ahead of it leave, and
MEM never forwards the address of a load. -/
structure OperandsCurrent (s : State) : Prop where
  src1 : s.rs1ValForwardedExec =
    if s.execVals.rs1n = 0#5 then 0#32 else pendingWritten s s.execVals.rs1n
  src2 : s.rs2ValForwardedExec =
    if s.execVals.rs2n = 0#5 then 0#32 else pendingWritten s s.execVals.rs2n
  no_address1 : s.memFlags.memToReg = true → s.forwardSrc1Exec.getLsbD 1 = false
  no_address2 : s.memFlags.memToReg = true → s.forwardSrc2Exec.getLsbD 1 = false

theorem forwardSrc_mem_of_ne {wm ww : Bool} {n rm rw : RegNum} (h : n ≠ 0#5 → rm ≠ n) :
    (forwardSrc wm ww n rm rw).getLsbD 1 = false := by
  by_cases hn : n = 0#5
  · simp [forwardSrc, hn]
  · have hr : (rm == n) = false := beq_eq_false_iff_ne.mpr (h hn)
    simp only [forwardSrc, hr, Bool.and_false, Bool.false_eq_true, ↓reduceIte]
    split_ifs <;> simp

theorem operands_current (h : Hazards s) : OperandsCurrent s := by
  have hp : pendingWritten s = (drained s).registers := by
    rw [pendingWritten, h.written]
    rfl
  refine ⟨?_, ?_, fun hm => ?_, fun hm => ?_⟩
  · rw [hp]
    exact forwarded_eq_drained h h.src1
  · rw [hp]
    exact forwarded_eq_drained h h.src2
  · exact forwardSrc_mem_of_ne fun hn => h.src1.no_load hn hm
  · exact forwardSrc_mem_of_ne fun hn => h.src2.no_load hn hm

/-- While the clock is high WB's write is still pending; the falling edge performs it. -/
theorem operands_current_high (h : Hazards (clockCycle x imem false s)) :
    OperandsCurrent (posedge x imem false s) := by
  refine ⟨?_, ?_, fun hm => ?_, fun hm => ?_⟩
  · exact forwarded_eq_drained h h.src1
  · exact forwarded_eq_drained h h.src2
  · exact forwardSrc_mem_of_ne fun hn => h.src1.no_load hn hm
  · exact forwardSrc_mem_of_ne fun hn => h.src2.no_load hn hm

/-- In every state of a run, clock low and clock high, before and after the exit. -/
theorem run_operands_current (ρ : Run) (n : ℕ) : OperandsCurrent (ρ.state n) ∧
    OperandsCurrent (posedge ρ.x ρ.imem false (ρ.state n)) :=
  ⟨operands_current (run_hazards ρ n), operands_current_high (run_hazards ρ (n + 1))⟩

end PipelineForwarding
