import SimulatorRISCV.PipelineForwarding

/-! # The pipeline as a sequential machine over its path

Each path word acts on the architectural state its predecessors leave, under the control
signals it was decoded to. Registers and data memory show the result when it is in WB. -/
namespace PipelineArchitecture

open PipelineDecoder PipelineDatapath PipelineSimulator PipelineIssue PipelineRetirement
open PipelineForwarding

/-- ALU_op names an operation, which it can fail to do only while it keeps its power-on value.
Until then ALUResult is zero, so its latch never shows a stale result. -/
def AluDefined (op : BitVec 4) : Prop := (aluCase 0#32 0#32 op).isSome = true

theorem aluCase_isSome (a b : Word) (op : BitVec 4) :
    (aluCase a b op).isSome = (aluCase 0#32 0#32 op).isSome := by
  simp only [aluCase, apply_ite Option.isSome, Option.isSome_some, Option.isSome_none]

theorem alu_held_of_defined {op : BitVec 4} (h : AluDefined op) (a b u v : Word) :
    alu a b op u = alu a b op v := by
  rw [AluDefined, ← aluCase_isSome a b] at h
  obtain ⟨r, hr⟩ := Option.isSome_iff_exists.mp h
  simp [alu, hr]

theorem alu_of_undefined {op : BitVec 4} (h : ¬ AluDefined op) (a b u : Word) :
    alu a b op u = u := by
  rw [AluDefined, ← aluCase_isSome a b, Bool.not_eq_true, Option.isSome_eq_false_iff,
    Option.isNone_iff_eq_none] at h
  simp [alu, h]

theorem funct7_select_defined {f7 : BitVec 7} {a b : BitVec 4} (ha : AluDefined a)
    (hb : AluDefined b) : AluDefined (if f7 = 0b0000000 then a else b) := by
  split_ifs
  · exact ha
  · exact hb

theorem rTypeAluOp_defined (f3 : BitVec 3) (f7 : BitVec 7) (h : BitVec 4) :
    AluDefined (rTypeAluOp f3 f7 h) := by
  rcases funct3_cases f3 with rfl | rfl | rfl | rfl | rfl | rfl | rfl | rfl
  all_goals first | rfl | exact funct7_select_defined rfl rfl

theorem iTypeAluOp_defined (f3 : BitVec 3) (f7 : BitVec 7) (h : BitVec 4) :
    AluDefined (iTypeAluOp f3 f7 h) := by
  rcases funct3_cases f3 with rfl | rfl | rfl | rfl | rfl | rfl | rfl | rfl
  all_goals first | rfl | exact funct7_select_defined rfl rfl

theorem branchAluOp_defined (f3 : BitVec 3) (h : BitVec 4) :
    AluDefined (branchAluOp f3 h) ∨ branchAluOp f3 h = h := by
  rcases funct3_cases f3 with rfl | rfl | rfl | rfl | rfl | rfl | rfl | rfl
  all_goals first | exact Or.inl rfl | exact Or.inr rfl

/-- Every case that assigns ALU_op names an operation. -/
theorem aluOp_defined (x : XValues) (w : Word) (h : ControlSignals) :
    AluDefined (decodeControl x w h).aluOp ∨ (decodeControl x w h).aluOp = h.aluOp := by
  unfold decodeControl controlUnit
  cases opcode w with
  | rType => exact Or.inl (rTypeAluOp_defined _ _ _)
  | iType => exact Or.inl (iTypeAluOp_defined _ _ _)
  | branch => exact branchAluOp_defined _ _
  | store | load | auipc | lui => exact Or.inl rfl
  | jalr | jal | zero | other => exact Or.inr rfl

/-- `cleared` is an execute stage after reset or a flush. -/
structure AluLatch (s : State) : Prop where
  held : ¬ AluDefined s.control.aluOp →
    ¬ AluDefined s.execVals.aluOp ∨ (s.execVals = 0 ∧ s.execFlags = 0)
  zero : ¬ AluDefined s.execVals.aluOp → s.aluResult = 0#32
  cleared : s.execVals = 0 ∧ s.execFlags = 0 → s.aluResult = 0#32

variable {x : XValues} {imem : MemArray} {s : State}

theorem alu_of_cleared (hv : s.execVals = 0) (hf : s.execFlags = 0) (u : Word) :
    alu s.aluSrc1ValExec s.aluSrc2ValExec s.execVals.aluOp u = 0#32 := by
  have h1 : s.aluSrc1ValExec = 0#32 := by
    rw [State.aluSrc1ValExec, hf, State.rs1ValForwardedExec, State.forwardSrc1Exec, hv]
    exact (forwarded_forwardSrc _ _ _ _ _ _ _ _).trans (if_pos rfl)
  have h2 : s.aluSrc2ValExec = 0#32 := by
    rw [State.aluSrc2ValExec, hf, State.rs2ValForwardedExec, State.forwardSrc2Exec, hv]
    exact (forwarded_forwardSrc _ _ _ _ _ _ _ _).trans (if_pos rfl)
  rw [h1, h2, hv]
  rfl

/-- The execute bank is cleared, loaded from decode or kept. -/
theorem execute_cases (x : XValues) (imem : MemArray) (s : State) (rst : Bool) :
    ((clockCycle x imem rst s).execVals = 0 ∧ (clockCycle x imem rst s).execFlags = 0) ∨
    (clockCycle x imem rst s).execVals = s.decodedVals ∨
    ((clockCycle x imem rst s).execVals = s.execVals ∧
      (clockCycle x imem rst s).execFlags = s.execFlags) := by
  change (pipeline _ _ _ _ = 0 ∧ pipeline _ _ _ _ = 0) ∨ pipeline _ _ _ _ = _ ∨
    (pipeline _ _ _ _ = _ ∧ pipeline _ _ _ _ = _)
  cases rst || s.loadStallExec || s.branchIsTakenExec <;> cases !s.bitExitWB <;> simp

theorem AluLatch.idle (h : AluLatch s) (hc : ¬ AluDefined s.control.aluOp) :
    s.aluResult = 0#32 := (h.held hc).elim h.zero h.cleared

theorem alu_latch_step (rst : Bool) (h : AluLatch s) : AluLatch (clockCycle x imem rst s) := by
  have hout := clockCycle_aluOut x imem s rst
  have hcleared : (clockCycle x imem rst s).execVals = 0 ∧
      (clockCycle x imem rst s).execFlags = 0 → (clockCycle x imem rst s).aluResult = 0#32 :=
    fun hz => hout.trans (alu_of_cleared hz.1 hz.2 _)
  refine ⟨?_, ?_, hcleared⟩
  · intro hc
    rw [clockCycle_control] at hc
    have hs : ¬ AluDefined s.control.aluOp := by
      rcases aluOp_defined x (clockCycle x imem rst s).decode.instr s.control with hd | hd
      · exact absurd hd hc
      · rwa [hd] at hc
    rcases execute_cases x imem s rst with hz | hv | ⟨hv, hf⟩
    · exact Or.inr hz
    · rw [hv]; exact Or.inl hs
    · rw [hv, hf]; exact h.held hs
  · intro he
    rcases execute_cases x imem s rst with hz | hv | ⟨hv, _⟩
    · exact hcleared hz
    · refine hout.trans ((alu_of_undefined he _ _ _).trans (h.idle ?_))
      rwa [hv] at he
    · refine hout.trans ((alu_of_undefined he _ _ _).trans (h.zero ?_))
      rwa [hv] at he

variable {ρ : Run}

theorem run_alu_latch (ρ : Run) (n : ℕ) : AluLatch (ρ.state n) := by
  induction n with
  | zero =>
    have hz : (ρ.state 0).aluResult = 0#32 :=
      alu_of_cleared (s := ρ.start.raw) rfl rfl ρ.start.aluLatch
    exact ⟨fun _ => Or.inr ⟨rfl, rfl⟩, fun _ => hz, fun _ => hz⟩
  | succ n ih => exact alu_latch_step false ih

theorem run_alu (ρ : Run) (n : ℕ) : (ρ.state n).aluOutExec =
    alu (ρ.state n).aluSrc1ValExec (ρ.state n).aluSrc2ValExec (ρ.state n).execVals.aluOp
      0#32 := by
  have hset : ∃ u, (ρ.state n).aluOutExec = alu (ρ.state n).aluSrc1ValExec
      (ρ.state n).aluSrc2ValExec (ρ.state n).execVals.aluOp u := by
    cases n with
    | zero => exact ⟨ρ.start.aluLatch, rfl⟩
    | succ n => exact ⟨(ρ.state n).aluOutExec, rfl⟩
  obtain ⟨u, hu⟩ := hset
  by_cases hd : AluDefined (ρ.state n).execVals.aluOp
  · exact hu.trans (alu_held_of_defined hd _ _ _ _)
  · rw [alu_of_undefined hd]
    exact (run_alu_latch ρ n).zero hd

def operand1 (c : ControlSignals) (pc w : Word) (a : Arch) : Word :=
  aluSrc1Val c.aluSrc1 pc (registerRead a.registers (rs1Id w))

def operand2 (c : ControlSignals) (w : Word) (a : Arch) : Word :=
  aluSrc2Val c.aluSrc2 (registerRead a.registers (rs2Id w)) (calcImmediate w)

def aluValue (c : ControlSignals) (pc w : Word) (a : Arch) : Word :=
  alu (operand1 c pc w a) (operand2 c w a) c.aluOp 0#32

def writeBack (c : ControlSignals) (pc w : Word) (a : Arch) : Word :=
  if c.memToReg then memoryDataRead a.dmem (aluValue c pc w a >>> 2) (memWidth w)
  else aluValue c pc w a

/-- A word's effect on registers and data memory under its control signals. -/
def execute (c : ControlSignals) (pc w : Word) (a : Arch) : Arch where
  registers := registerWrite a.registers c.regWrite (rdId w) (writeBack c pc w a)
  dmem := memoryDataWrite a.dmem (aluValue c pc w a >>> 2) (memWidth w) c.memWrite
    (registerRead a.registers (rs2Id w))

def redirects (c : ControlSignals) (pc w : Word) (a : Arch) : Bool :=
  branchIsTaken c.jump c.branch c.invertBranchTriger (aluValue c pc w a)

section Effect

variable {c c' : ControlSignals} (pc w : Word) (a : Arch)

theorem aluValue_congr (h : Agree c c') : aluValue c pc w a = aluValue c' pc w a := by
  simp only [aluValue, operand1, operand2, h.aluSrc1, h.aluSrc2, h.aluOp]

theorem writeBack_congr (h : Agree c c') : writeBack c pc w a = writeBack c' pc w a := by
  simp only [writeBack, aluValue_congr pc w a h, h.memToReg]

theorem execute_congr (h : Agree c c') : execute c pc w a = execute c' pc w a := by
  simp only [execute, writeBack_congr pc w a h, aluValue_congr pc w a h, h.regWrite, h.memWrite]

theorem redirects_congr (h : Agree c c') : redirects c pc w a = redirects c' pc w a := by
  have hinv := h.invert
  simp only [redirects, branchIsTaken, aluValue_congr pc w a h, ← h.jump, ← h.branch]
  cases hb : c.branch with
  | false => rfl
  | true => rw [hinv hb]

theorem execute_quiet (hr : c.regWrite = false) (hm : c.memWrite = false) :
    execute c pc w a = a := by
  rw [execute, hr, hm]
  rfl

theorem redirects_quiet (hj : c.jump = false) (hb : c.branch = false) :
    redirects c pc w a = false := by
  simp [redirects, branchIsTaken, hj, hb]

end Effect

/-- The architectural state the `i`-th path word finds. -/
def pathArch (ρ : Run) (i : ℕ) : Arch := drained (ρ.state (issueClock ρ i))

variable {i : ℕ}

theorem aluOut_at_issue (hl : Live ρ (issueClock ρ i)) : (ρ.state (issueClock ρ i)).aluOutExec =
    aluValue (pathControl ρ i) (pathPc ρ i) (pathWord ρ i) (pathArch ρ i) := by
  have hh := holds_at_issue hl
  rw [run_alu, State.aluSrc1ValExec, State.aluSrc2ValExec, rs1_forwarded, rs2_forwarded,
    hh.rs1n, hh.rs2n, hh.pc, hh.imm32, hh.aluOp, hh.flags]
  rfl

theorem taken_at_issue (hl : Live ρ (issueClock ρ i)) :
    (ρ.state (issueClock ρ i)).branchIsTakenExec =
      redirects (pathControl ρ i) (pathPc ρ i) (pathWord ρ i) (pathArch ρ i) := by
  rw [State.branchIsTakenExec, aluOut_at_issue hl, (holds_at_issue hl).flags]
  rfl

theorem commit_at_issue (hl : Live ρ (issueClock ρ i)) :
    commit (ρ.state (issueClock ρ i)) (pathArch ρ i) =
      execute (pathControl ρ i) (pathPc ρ i) (pathWord ρ i) (pathArch ρ i) := by
  have hh := holds_at_issue hl
  rw [commit, rs2_forwarded, aluOut_at_issue hl, hh.rs2n, hh.rdn, hh.memWidth, hh.flags]
  rfl

/-- Bubbles between two path words leave the architectural state alone. -/
theorem drained_between {n : ℕ} (hl : Live ρ n) (hi : issueClock ρ i < n)
    (hn : n ≤ issueClock ρ (i + 1)) : drained (ρ.state n) =
      execute (pathControl ρ i) (pathPc ρ i) (pathWord ρ i) (pathArch ρ i) := by
  induction n, Nat.succ_le_of_lt hi using Nat.le_induction with
  | base =>
    rw [drained_next hl]
    exact commit_at_issue (hl.mono (Nat.le_succ _))
  | succ n hin ih =>
    have hb : ExecBubble (ρ.state n) := by
      apply bubble_elsewhere (hl.mono (Nat.le_succ n))
      intro j hj
      have h1 : i < j := by rw [← issueClock_strictMono.lt_iff_lt, ← hj]; omega
      have h2 := (issueClock_strictMono (ρ := ρ)).monotone (show i + 1 ≤ j from h1)
      omega
    rw [drained_next hl, commit_bubble hb]
    exact ih (hl.mono (Nat.le_succ n)) (by omega) (by omega)

theorem drained_start {n : ℕ} (hl : Live ρ n) (hn : n ≤ issueClock ρ 0) :
    drained (ρ.state n) = ⟨ρ.start.registers, ρ.start.dmem⟩ := by
  induction n with
  | zero => rfl
  | succ n ih =>
    have hb : ExecBubble (ρ.state n) := by
      apply bubble_elsewhere (hl.mono (Nat.le_succ n))
      intro j hj
      have := (issueClock_strictMono (ρ := ρ)).monotone (Nat.zero_le j)
      omega
    rw [drained_next hl, commit_bubble hb]
    exact ih (hl.mono (Nat.le_succ n)) (by omega)

theorem pathArch_zero : pathArch ρ 0 = ⟨ρ.start.registers, ρ.start.dmem⟩ := rfl

theorem pathArch_succ (hl : Live ρ (issueClock ρ (i + 1))) : pathArch ρ (i + 1) =
    execute (pathControl ρ i) (pathPc ρ i) (pathWord ρ i) (pathArch ρ i) :=
  drained_between hl (issueClock_strictMono (Nat.lt_add_one i)) le_rfl

/-- When the word is in WB its effect is in the register file and the data memory, and
that of no younger word is. -/
theorem arch_at_retirement (hl : Live ρ (issueClock ρ i + 2)) :
    (⟨(ρ.state (issueClock ρ i + 2)).registers, (ρ.state (issueClock ρ i + 2)).dmem⟩ : Arch) =
      execute (pathControl ρ i) (pathPc ρ i) (pathWord ρ i) (pathArch ρ i) := by
  have hi := issueClock_strictMono (ρ := ρ) (Nat.lt_add_one i)
  rw [← drained_between (hl.mono (Nat.le_succ _)) (Nat.lt_succ_self _) hi, registers_next hl]
  rfl

/-- The MEM stage one clock after the word was in execute. -/
structure MemHolds (ρ : Run) (i : ℕ) (s : State) : Prop where
  flags : s.memFlags = ⟨memWidth (pathWord ρ i), (pathControl ρ i).memToReg,
    (pathControl ρ i).memWrite, (pathControl ρ i).regWrite, rdId (pathWord ρ i),
    (pathControl ρ i).bitExit, (pathControl ρ i).valid⟩
  aluOut : s.memValues.aluOut =
    aluValue (pathControl ρ i) (pathPc ρ i) (pathWord ρ i) (pathArch ρ i)
  memWriteData : s.memValues.memWriteData =
    registerRead (pathArch ρ i).registers (rs2Id (pathWord ρ i))
  dmem : s.dmem = (pathArch ρ i).dmem

theorem mem_at_issue (hl : Live ρ (issueClock ρ i + 1)) :
    MemHolds ρ i (ρ.state (issueClock ρ i + 1)) := by
  have hli := hl.mono (Nat.le_succ _)
  have hh := holds_at_issue hli
  refine ⟨?_, ?_, ?_, rfl⟩
  · rw [mem_flags hl, State.executedFlags, hh.memWidth, hh.rdn, hh.flags]
    rfl
  · rw [mem_values hl, State.executedValues, aluOut_at_issue hli]
  · rw [mem_values hl, State.executedValues, rs2_forwarded, hh.rs2n]
    rfl

theorem result_at_issue (hl : Live ρ (issueClock ρ i + 2)) :
    (ρ.state (issueClock ρ i + 2)).resultWB =
      writeBack (pathControl ρ i) (pathPc ρ i) (pathWord ρ i) (pathArch ρ i) := by
  have hm := mem_at_issue (hl.mono (Nat.le_succ _))
  rw [State.resultWB, Run.state, running_wbVals (hl _ (Nat.lt_succ_self _)),
    running_wbFlags (hl _ (Nat.lt_succ_self _)), State.accessedVals, State.accessedFlags,
    State.readDataMEM, hm.aluOut, hm.flags, hm.dmem]
  rfl

/-- Until it issues, a word's architectural state is the one its predecessor left. -/
theorem drained_eq_pathArch {n : ℕ} (hl : Live ρ (issueClock ρ i)) (hn : n ≤ issueClock ρ i)
    (hi : ∀ j < i, issueClock ρ j < n) : drained (ρ.state n) = pathArch ρ i := by
  cases i with
  | zero => rw [drained_start (hl.mono hn) hn, pathArch_zero]
  | succ i =>
    rw [pathArch_succ hl]
    exact drained_between (hl.mono hn) (hi i (Nat.lt_add_one i)) hn

/-- The operand captured in decode is the register as of two clocks before issue. -/
theorem rs1Val_at_issue (hl : Live ρ (issueClock ρ i)) :
    (ρ.state (issueClock ρ i)).execVals.rs1Val =
      registerRead (drained (ρ.state (issueClock ρ i - 2))).registers
        (rs1Id (pathWord ρ i)) := by
  obtain ⟨n, hn⟩ := issueClock_eq_add_two ρ i
  have hd := decoded_before_issue hl
  have hw : rs1Id (ρ.state (issueClock ρ i - 1)).decode.instr = rs1Id (pathWord ρ i) :=
    (congrArg ExecVals.rs1n hd).symm.trans (holds_at_issue hl).rs1n
  have hreg : (ρ.state (issueClock ρ i - 1)).registers =
      (drained (ρ.state (issueClock ρ i - 2))).registers := by
    rw [hn]
    exact registers_drain (hl n (by omega))
  rw [hd, State.decodedVals, hw, hreg]

end PipelineArchitecture
