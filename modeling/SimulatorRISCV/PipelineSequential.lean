import SimulatorRISCV.PipelineArchitecture

/-! # One word at a time, for every program

The sequential machine executes the words of a path one after the other. Besides the
architectural state it carries what the pipeline lets a word see of earlier ones: the control
latches, the register file as decode read it, and the clock. -/
namespace PipelineSequential

open PipelineDecoder PipelineDatapath PipelineSimulator InOrderIssue PipelineIssue
open PipelineRetirement PipelineForwarding PipelineArchitecture

/-- The state before a word executes. `recent` and `captured` are the registers one and two
clocks earlier; JALR reads the latter. -/
structure Machine where
  pc : Word
  held : ControlSignals
  arch : Arch
  recent : RegBank
  captured : RegBank
  clock : ℕ

namespace Machine

variable (x : XValues) (imem : MemArray) (m : Machine)

def word : Word := fetch imem m.pc

/-- The word behind, which is in decode while this one executes. -/
def shadow : Word := fetch imem (m.pc + 4#32)

def control : ControlSignals := decodeControl x (m.word imem) m.held

def taken : Bool := redirects (m.control x imem) m.pc (m.word imem) m.arch

def stalls : Bool :=
  loadStall (m.control x imem).memToReg (rs1Id (m.shadow imem)) (rs2Id (m.shadow imem))
    (rdId (m.word imem))

def target : Word :=
  if (m.control x imem).typeInstruction = 0b01#2 then m.pc + calcImmediate (m.word imem)
  else calcImmediate (m.word imem) + registerRead m.captured (rs1Id (m.word imem))

def result : Arch := execute (m.control x imem) m.pc (m.word imem) m.arch

def step : Machine :=
  if m.taken x imem then
    -- The shadow word has been decoded and the zero word of the flush over it.
    { pc := m.target x imem
      held := decodeControl x 0#32 (decodeControl x (m.shadow imem) (m.control x imem))
      arch := m.result x imem
      recent := (m.result x imem).registers
      captured := (m.result x imem).registers
      clock := m.clock + 3 }
  else if m.stalls x imem then
    { pc := m.pc + 4#32
      held := m.control x imem
      arch := m.result x imem
      recent := (m.result x imem).registers
      captured := m.arch.registers
      clock := m.clock + 2 }
  else
    { pc := m.pc + 4#32
      held := m.control x imem
      arch := m.result x imem
      recent := m.arch.registers
      captured := m.recent
      clock := m.clock + 1 }

end Machine

def sequential (ρ : Run) : ℕ → Machine
  | 0 =>
    { pc := ρ.start.entry
      held := decodeControl ρ.x 0#32 ρ.start.latches
      arch := ⟨ρ.start.registers, ρ.start.dmem⟩
      recent := ρ.start.registers
      captured := ρ.start.registers
      clock := 2 }
  | i + 1 => (sequential ρ i).step ρ.x ρ.imem

def seqWord (ρ : Run) (i : ℕ) : Word := (sequential ρ i).word ρ.imem

variable {ρ : Run} {i : ℕ}

theorem arch_succ (ρ : Run) (i : ℕ) :
    (sequential ρ (i + 1)).arch = (sequential ρ i).result ρ.x ρ.imem := by
  rw [sequential, Machine.step]
  split_ifs <;> rfl

theorem result_zero_cell (m : Machine) (x : XValues) (imem : MemArray) :
    (m.result x imem).registers 0#5 = m.arch.registers 0#5 :=
  (registerWrite_apply ..).trans (if_neg fun h => h.2.1 h.2.2)

theorem zero_cell (ρ : Run) (i : ℕ) :
    (sequential ρ i).arch.registers 0#5 = ρ.start.registers 0#5 := by
  induction i with
  | zero => rfl
  | succ i ih => rw [arch_succ, result_zero_cell, ih]

/-- A word takes one clock, two behind a load it uses, and three after a redirect. -/
theorem clock_succ (ρ : Run) (i : ℕ) : (sequential ρ (i + 1)).clock =
    (sequential ρ i).clock + (if (sequential ρ i).taken ρ.x ρ.imem then 3
      else if (sequential ρ i).stalls ρ.x ρ.imem then 2 else 1) := by
  rw [sequential, Machine.step]
  split_ifs <;> rfl

theorem clock_strictMono (ρ : Run) : StrictMono fun i => (sequential ρ i).clock := by
  apply strictMono_nat_of_lt_succ
  intro i
  rw [clock_succ]
  split_ifs <;> omega

theorem clock_le (ρ : Run) (i : ℕ) : (sequential ρ i).clock ≤ 3 * i + 2 := by
  induction i with
  | zero => exact le_rfl
  | succ i ih =>
    rw [clock_succ]
    split_ifs <;> omega

/-- The pipeline has the `i`-th word in execute and agrees with the machine before it. -/
structure Follows (ρ : Run) (i : ℕ) : Prop where
  live : Live ρ (issueClock ρ i)
  clock : issueClock ρ i = (sequential ρ i).clock
  pc : pathPc ρ i = (sequential ρ i).pc
  held : (pathItem ρ i).held = (sequential ρ i).held
  arch : pathArch ρ i = (sequential ρ i).arch
  recent : (drained (ρ.state (issueClock ρ i - 1))).registers = (sequential ρ i).recent
  captured : (drained (ρ.state (issueClock ρ i - 2))).registers = (sequential ρ i).captured

theorem Follows.word (h : Follows ρ i) : pathWord ρ i = seqWord ρ i := by
  rw [pathWord, h.pc]
  rfl

theorem Follows.control (h : Follows ρ i) :
    pathControl ρ i = (sequential ρ i).control ρ.x ρ.imem := by
  have hw := h.word
  change decodeControl ρ.x (pathWord ρ i) (pathItem ρ i).held = _
  rw [hw, h.held]
  rfl

theorem Follows.taken (h : Follows ρ i) : (ρ.state (issueClock ρ i)).branchIsTakenExec =
    (sequential ρ i).taken ρ.x ρ.imem := by
  rw [taken_at_issue h.live, h.control, h.pc, h.word, h.arch]
  rfl

theorem Follows.stalls (h : Follows ρ i) : (ρ.state (issueClock ρ i)).loadStallExec =
    (sequential ρ i).stalls ρ.x ρ.imem := by
  have hh := holds_at_issue h.live
  have hm : (ρ.state (issueClock ρ i)).execFlags.memToReg = (pathControl ρ i).memToReg := by
    rw [hh.flags]
    rfl
  have hd : (ρ.state (issueClock ρ i)).execVals.rdn = rdId (pathWord ρ i) := hh.rdn
  rw [State.loadStallExec, decode_at_issue h.live, hm, hd, h.control, h.word, h.pc]
  rfl

theorem Follows.result (h : Follows ρ i) :
    execute (pathControl ρ i) (pathPc ρ i) (pathWord ρ i) (pathArch ρ i) =
      (sequential ρ i).result ρ.x ρ.imem := by
  rw [h.control, h.pc, h.word, h.arch]
  rfl

theorem Follows.target (h : Follows ρ i)
    (ht : (ρ.state (issueClock ρ i)).branchIsTakenExec = true) :
    (ρ.state (issueClock ρ i)).nextPC = (sequential ρ i).target ρ.x ρ.imem := by
  have hh := holds_at_issue h.live
  have hn : (ρ.state (issueClock ρ i)).execFlags.nextPC =
      ((sequential ρ i).control ρ.x ρ.imem).typeInstruction := by
    rw [hh.flags, ← h.control]
    rfl
  have himm : (ρ.state (issueClock ρ i)).execVals.imm32 = calcImmediate (seqWord ρ i) := by
    rw [← h.word]
    exact hh.imm32
  have hpc : (ρ.state (issueClock ρ i)).execVals.pc = (sequential ρ i).pc := by
    rw [← h.pc]
    exact hh.pc
  rw [nextPC_of_taken h.live ht, redirectTarget, hn, himm, hpc, rs1Val_at_issue h.live, h.word,
    h.captured]
  rfl

/-- Between two words the pipeline has completed exactly the first of them. -/
theorem Follows.between (h : Follows ρ i) (hl : Live ρ (issueClock ρ (i + 1))) {n : ℕ}
    (hi : issueClock ρ i < n) (hn : n ≤ issueClock ρ (i + 1)) :
    drained (ρ.state n) = (sequential ρ i).result ρ.x ρ.imem := by
  rw [drained_between (hl.mono hn) hi hn, h.result]

theorem follows_zero (ρ : Run) : Follows ρ 0 := by
  have hl : Live ρ (issueClock ρ 0) := live_first.mono (Nat.le_add_right _ 2)
  refine ⟨hl, rfl, rfl, rfl, rfl, ?_, ?_⟩
  · rw [drained_start (hl.mono (Nat.sub_le _ _)) (Nat.sub_le _ _)]
    rfl
  · rfl

/-- The shadow word's latches, and the zero word's over them, are what a redirect leaves. -/
theorem Follows.held_of_taken (h : Follows ρ i)
    (ht : (ρ.state (issueClock ρ i)).branchIsTakenExec = true) :
    (pathItem ρ (i + 1)).held = decodeControl ρ.x 0#32
      (decodeControl ρ.x ((sequential ρ i).shadow ρ.imem)
        ((sequential ρ i).control ρ.x ρ.imem)) := by
  rw [pathHeld_succ, if_pos ht]
  cases shape_at_issue h.live with
  | execute _ _ _ _ hctl _ =>
    rw [hctl, ← h.control, Machine.shadow, ← h.pc]
    rfl

theorem Follows.next_pc (h : Follows ρ i) :
    pathPc ρ (i + 1) = (sequential ρ (i + 1)).pc := by
  have hstep : sequential ρ (i + 1) = (sequential ρ i).step ρ.x ρ.imem := rfl
  rw [pathPc_succ, hstep, Machine.step, ← h.taken, ← h.stalls]
  cases ht : (ρ.state (issueClock ρ i)).branchIsTakenExec with
  | true => exact h.target ht
  | false =>
    cases (ρ.state (issueClock ρ i)).loadStallExec <;> exact congrArg (· + 4#32) h.pc

theorem follows_step (h : Follows ρ i) (hl : Live ρ (issueClock ρ (i + 1))) :
    Follows ρ (i + 1) := by
  have hlt : issueClock ρ i < issueClock ρ (i + 1) :=
    issueClock_strictMono (Nat.lt_add_one i)
  have hclock := issueClock_succ (ρ := ρ) i
  have hpc := h.next_pc
  have harch : pathArch ρ (i + 1) = (sequential ρ i).result ρ.x ρ.imem :=
    h.between hl hlt le_rfl
  have hstep : sequential ρ (i + 1) = (sequential ρ i).step ρ.x ρ.imem := rfl
  have htaken := h.taken
  have hstalls := h.stalls
  rw [Machine.step] at hstep
  cases ht : (ρ.state (issueClock ρ i)).branchIsTakenExec with
  | true =>
    rw [ht, if_pos rfl] at hclock
    rw [← htaken, ht, if_pos rfl] at hstep
    refine ⟨hl, ?_, hpc, ?_, ?_, ?_, ?_⟩
    · rw [hstep, hclock, h.clock]
    · rw [hstep]
      exact h.held_of_taken ht
    · rw [hstep]
      exact harch
    · rw [hstep, h.between hl (by omega) (Nat.sub_le _ _)]
    · rw [hstep, h.between hl (by omega) (Nat.sub_le _ _)]
  | false =>
    have hheld : (pathItem ρ (i + 1)).held = (sequential ρ i).control ρ.x ρ.imem := by
      rw [pathHeld_succ, ht, ← h.control]
      rfl
    rw [ht, if_neg Bool.false_ne_true] at hclock
    rw [← htaken, ht, if_neg Bool.false_ne_true] at hstep
    cases hs : (ρ.state (issueClock ρ i)).loadStallExec with
    | true =>
      rw [hs, if_pos rfl] at hclock
      rw [← hstalls, hs, if_pos rfl] at hstep
      have hback : issueClock ρ (i + 1) - 2 = issueClock ρ i := by omega
      refine ⟨hl, ?_, hpc, ?_, ?_, ?_, ?_⟩
      · rw [hstep, hclock, h.clock]
      · rw [hstep, hheld]
      · rw [hstep, harch]
      · rw [hstep, h.between hl (by omega) (Nat.sub_le _ _)]
      · rw [hstep, hback, ← h.arch]
        rfl
    | false =>
      rw [hs, if_neg Bool.false_ne_true] at hclock
      rw [← hstalls, hs, if_neg Bool.false_ne_true] at hstep
      have hback : issueClock ρ (i + 1) - 1 = issueClock ρ i := by omega
      have hback2 : issueClock ρ (i + 1) - 2 = issueClock ρ i - 1 := by omega
      refine ⟨hl, ?_, hpc, ?_, ?_, ?_, ?_⟩
      · rw [hstep, hclock, h.clock]
      · rw [hstep, hheld]
      · rw [hstep, harch]
      · rw [hstep, hback, ← h.arch]
        rfl
      · rw [hstep, hback2, h.recent]

theorem follows_of_live (hl : Live ρ (issueClock ρ i)) : Follows ρ i := by
  induction i with
  | zero => exact follows_zero ρ
  | succ i ih =>
    have hlt : issueClock ρ i < issueClock ρ (i + 1) :=
      issueClock_strictMono (Nat.lt_succ_self i)
    exact follows_step (ih (hl.mono hlt.le)) hl

theorem live_until_exit (hw : ∀ j < i, opcode (seqWord ρ j) ≠ .other) :
    Live ρ (issueClock ρ i + 2) := by
  induction i using Nat.strong_induction_on with
  | h i ih =>
    apply live_of_words
    intro j hj
    have hl := ih j hj fun a ha => hw a (ha.trans hj)
    rw [(follows_of_live (hl.mono (Nat.le_add_right _ 2))).word]
    exact hw j hj

theorem follows_until_exit (hw : ∀ j < i, opcode (seqWord ρ j) ≠ .other) : Follows ρ i :=
  follows_of_live ((live_until_exit hw).mono (Nat.le_add_right _ 2))

structure Shown where
  clock : ℕ
  retired : Retired
  regWriteOut : Bool
  registers : RegBank
  dmem : MemArray

def shown (n : ℕ) (s : State) : Option Shown :=
  (wbView s).map fun r => ⟨n, r, s.outputs.regWriteOut, s.registers, s.dmem⟩

def Machine.shown (x : XValues) (imem : MemArray) (m : Machine) : Option Shown :=
  (wordView m.pc (m.word imem)).map fun r =>
    ⟨m.clock + 2, r, (m.control x imem).regWrite, (m.result x imem).registers,
      (m.result x imem).dmem⟩

theorem Follows.arch_shown (h : Follows ρ i) (hl : Live ρ (issueClock ρ i + 2)) :
    (⟨(ρ.state (issueClock ρ i + 2)).registers, (ρ.state (issueClock ρ i + 2)).dmem⟩ : Arch) =
      (sequential ρ i).result ρ.x ρ.imem :=
  (arch_at_retirement hl).trans h.result

theorem Follows.shown (h : Follows ρ i) (hl : Live ρ (issueClock ρ i + 2)) :
    shown (issueClock ρ i + 2) (ρ.state (issueClock ρ i + 2)) =
      (sequential ρ i).shown ρ.x ρ.imem := by
  have harch := h.arch_shown hl
  have hw : (ρ.state (issueClock ρ i + 2)).outputs.regWriteOut =
      ((sequential ρ i).control ρ.x ρ.imem).regWrite := by
    rw [← h.control]
    exact (wb_at hl).1
  rw [PipelineSequential.shown, wbView_at hl, Machine.shown, ← harch, hw, h.pc, h.word, h.clock]
  rfl

theorem shown_elsewhere {n : ℕ} (hl : Live ρ n) (hn : ∀ i, n ≠ issueClock ρ i + 2) :
    shown n (ρ.state n) = none := by
  rw [shown, wbView_elsewhere hl hn]
  rfl

/-- Every program, until its exit word has retired: the valid instructions seen in WB are
the words of the sequential machine, each in the clock the machine gives and with its pc,
fields and write enable, the registers and the data memory. -/
theorem pipeline_is_sequential (ρ : Run) (e : ℕ)
    (hw : ∀ i < e, opcode (seqWord ρ i) ≠ .other) :
    (List.range ((sequential ρ e).clock + 3)).filterMap (fun n => shown n (ρ.state n)) =
      (List.range (e + 1)).filterMap (fun i => (sequential ρ i).shown ρ.x ρ.imem) ∧
    (∀ n < (sequential ρ e).clock + 2, (ρ.state n).outputs.bitExit = false) ∧
    (ρ.state ((sequential ρ e).clock + 2)).outputs.bitExit =
      decide (opcode (seqWord ρ e) = .other) := by
  have he := follows_until_exit hw
  have hl := live_until_exit hw
  have hmono := issueClock_strictMono (ρ := ρ)
  have hc := stageClock_strictMono (ρ := ρ) 2
  rw [← he.clock]
  refine ⟨?_, hl, ?_⟩
  · apply observed_option hc
    · intro i
      have := hmono.le_iff_le (a := i) (b := e)
      omega
    · intro i hi
      have hie : i ≤ e := by
        rw [← hmono.le_iff_le]
        omega
      have hwi : ∀ j < i, opcode (seqWord ρ j) ≠ .other := fun j hj =>
        hw j (lt_of_lt_of_le hj hie)
      exact (follows_until_exit hwi).shown (live_until_exit hwi)
    · intro n hn hne
      exact shown_elsewhere (hl.mono (by omega)) hne
  · rw [← he.word]
    exact exit_in_wb hl

/-- LW x1, 0(x0); ADD x2, x1, x1; JAL x3, 8 over ADDI x4, x0, 1 to ECALL: a load stall, a
redirect, and a link by the ADD that was decoded last. -/
def stallAndJump : Run :=
  bootProgram [0x00002083#32, 0x00108133#32, 0x008001EF#32, 0x00100213#32, 0x00000073#32]

theorem stall_and_jump_sequential : (sequential stallAndJump 3).clock = 8 ∧
    (List.range 11).filterMap (fun n => shown n (stallAndJump.state n)) =
      (List.range 4).filterMap
        (fun i => (sequential stallAndJump i).shown stallAndJump.x stallAndJump.imem) ∧
    (stallAndJump.state 10).outputs.bitExit = true := by
  have hclock : (sequential stallAndJump 3).clock = 8 := by decide +kernel
  have h := pipeline_is_sequential stallAndJump 3 (by decide +kernel)
  rw [hclock] at h
  exact ⟨hclock, h.1, h.2.2.trans (by decide +kernel)⟩

end PipelineSequential
