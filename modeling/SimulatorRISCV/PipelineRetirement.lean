import SimulatorRISCV.PipelineIssue
import Mathlib.Tactic.IntervalCases

/-! # Retirement: order, completeness and timing

Write-back shows in clock `n + 2` what execute held in clock `n`. Together with in-order
issue this gives the retired sequence and the clock in which each instruction retires. -/
namespace PipelineRetirement

open PipelineDecoder PipelineDatapath PipelineSimulator InOrderIssue PipelineIssue

variable {ρ : Run}

theorem mem_flags {n : ℕ} (hl : Live ρ (n + 1)) :
    (ρ.state (n + 1)).memFlags = (ρ.state n).executedFlags :=
  running_memFlags (hl n (Nat.lt_succ_self n))

theorem mem_values {n : ℕ} (hl : Live ρ (n + 1)) :
    (ρ.state (n + 1)).memValues = (ρ.state n).executedValues :=
  running_memValues (hl n (Nat.lt_succ_self n))

theorem wb_flags {n : ℕ} (hl : Live ρ (n + 2)) : (ρ.state (n + 2)).wbFlags =
    { regWrite := (ρ.state n).execFlags.regWrite
      memToReg := (ρ.state n).execFlags.memToReg
      rdn := (ρ.state n).execVals.rdn
      bitExit := (ρ.state n).execFlags.bitExit
      valid := (ρ.state n).execFlags.valid } := by
  rw [Run.state, running_wbFlags (hl (n + 1) (by omega)), State.accessedFlags,
    mem_flags (hl.mono (Nat.le_succ _))]
  rfl

theorem wb_debug {n : ℕ} (hl : Live ρ (n + 2)) : (ρ.state (n + 2)).wbDebug =
    { pc := (ρ.state n).execVals.pc
      imm32 := (ρ.state n).execVals.imm32
      rs1n := (ρ.state n).execVals.rs1n
      rs2n := (ρ.state n).execVals.rs2n } := by
  rw [Run.state, running_wbDebug (hl (n + 1) (by omega)), State.accessedDebug,
    mem_values (hl.mono (Nat.le_succ _)), Run.state, running_memDebug (hl n (by omega))]
  rfl

theorem wb_empty {n : ℕ} (hn : n < 2) : (ρ.state n).wbFlags = 0 := by
  match n with
  | 0 => rfl
  | 1 => rw [Run.state, running_wbFlags rfl]; rfl

theorem bitExit_of_live {n : ℕ} (hl : Live ρ n) (h : (ρ.state n).bitExitWB = true) :
    ∃ i, n = issueClock ρ i + 2 ∧ opcode (pathWord ρ i) = .other := by
  match n with
  | 0 | 1 => rw [State.bitExitWB, wb_empty (by omega)] at h; cases h
  | n + 2 =>
    rw [State.bitExitWB, wb_flags hl] at h
    rcases issue_or_bubble (hl.mono (Nat.le_add_right n 2)) with ⟨i, rfl⟩ | hb
    · refine ⟨i, rfl, ?_⟩
      rw [(holds_at_issue (hl.mono (Nat.le_add_right _ 2))).flags] at h
      simpa [flagsOf, itemControl, pathWord, pathPc] using h
    · rw [hb.bitExit] at h; cases h

theorem exit_in_wb {i : ℕ} (hl : Live ρ (issueClock ρ i + 2)) :
    (ρ.state (issueClock ρ i + 2)).bitExitWB = decide (opcode (pathWord ρ i) = .other) := by
  rw [State.bitExitWB, wb_flags hl, (holds_at_issue (hl.mono (Nat.le_add_right _ 2))).flags]
  exact decodeControl_bitExit _ _ _

theorem valid_in_wb {i : ℕ} (hl : Live ρ (issueClock ρ i + 2)) :
    (ρ.state (issueClock ρ i + 2)).wbFlags.valid = decide (opcode (pathWord ρ i) ≠ .zero) := by
  rw [wb_flags hl, (holds_at_issue (hl.mono (Nat.le_add_right _ 2))).flags]
  exact decodeControl_valid _ _ _

theorem valid_of_live {n : ℕ} (hl : Live ρ n) (h : (ρ.state n).wbFlags.valid = true) :
    ∃ i, n = issueClock ρ i + 2 ∧ opcode (pathWord ρ i) ≠ .zero := by
  match n with
  | 0 | 1 => rw [wb_empty (by omega)] at h; cases h
  | n + 2 =>
    rcases issue_or_bubble (hl.mono (Nat.le_add_right n 2)) with ⟨i, rfl⟩ | hb
    · exact ⟨i, rfl, by simpa [valid_in_wb hl] using h⟩
    · rw [wb_flags hl, hb.valid] at h; cases h

theorem pc_in_wb {i : ℕ} (hl : Live ρ (issueClock ρ i + 2)) :
    (ρ.state (issueClock ρ i + 2)).wbDebug.pc = pathPc ρ i := by
  rw [wb_debug hl]
  exact (holds_at_issue (hl.mono (Nat.le_add_right _ 2))).pc

theorem wb_at (hl : Live ρ (issueClock ρ i + 2)) :
    (ρ.state (issueClock ρ i + 2)).wbFlags.regWrite = (pathControl ρ i).regWrite ∧
      (ρ.state (issueClock ρ i + 2)).wbFlags.rdn = rdId (pathWord ρ i) := by
  have hh := holds_at_issue (hl.mono (Nat.le_add_right _ 2))
  rw [wb_flags hl, hh.flags, hh.rdn]
  exact ⟨rfl, rfl⟩

theorem live_of_no_exit {n : ℕ}
    (h : ∀ i, issueClock ρ i + 2 < n → opcode (pathWord ρ i) ≠ .other) : Live ρ n := by
  induction n with
  | zero => intro m hm; omega
  | succ n ih =>
    have hl := ih (fun i hi => h i (by omega))
    apply hl.succ
    apply Bool.eq_false_iff.mpr
    intro he
    obtain ⟨i, rfl, ho⟩ := bitExit_of_live hl he
    exact h i (Nat.lt_succ_self _) ho

theorem live_of_words {i : ℕ} (h : ∀ j < i, opcode (pathWord ρ j) ≠ .other) :
    Live ρ (issueClock ρ i + 2) :=
  live_of_no_exit fun j hj =>
    h j ((issueClock_strictMono (ρ := ρ)).lt_iff_lt.mp (Nat.add_lt_add_iff_right.mp hj))

theorem live_first : Live ρ (issueClock ρ 0 + 2) :=
  live_of_words fun _ h => absurd h (Nat.not_lt_zero _)

theorem no_exit_of_live {n i : ℕ} (hl : Live ρ n) (hi : issueClock ρ i + 2 < n) :
    opcode (pathWord ρ i) ≠ .other := by
  intro ho
  have he := hl _ hi
  rw [exit_in_wb (hl.mono (by omega)), ho] at he
  cases he

/-- The stage signals of a redirect and of a load stall exclude each other in every clock. -/
theorem taken_excludes_stall {n : ℕ} (hl : Live ρ n)
    (ht : (ρ.state n).branchIsTakenExec = true) : (ρ.state n).loadStallExec = false := by
  rcases issue_or_bubble hl with ⟨i, rfl⟩ | hb
  · cases shape_at_issue hl with
    | execute _ hc _ _ _ hh => exact no_stall_of_taken hc hh ht
  · exact hb.no_stall

/-- The bubble a stall inserts clears the cause of the stall. -/
theorem stall_once {n : ℕ} (hl : Live ρ (n + 1)) (hs : (ρ.state n).loadStallExec = true) :
    (ρ.state (n + 1)).loadStallExec = false := by
  have hf : (clockCycle ρ.x ρ.imem false (ρ.state n)).execFlags = _ :=
    running_execFlags (hl n (Nat.lt_succ_self n))
  rw [hs] at hf
  change (clockCycle ρ.x ρ.imem false (ρ.state n)).loadStallExec = false
  simp only [State.loadStallExec, loadStall, hf]
  rfl

/-- What identifies an instruction at the outputs: its address, the fields of its word
and whether it is an exit word. -/
structure Retired where
  pc : Word
  rs1n : RegNum
  rs2n : RegNum
  rdn : RegNum
  imm32 : Word
  bitExit : Bool
  deriving DecidableEq

def wbView (s : State) : Option Retired :=
  if s.outputs.validOut then
    some ⟨s.outputs.pcOut, s.outputs.rs1nOut, s.outputs.rs2nOut, s.outputs.rdnOut,
      s.outputs.immOut, s.outputs.bitExit⟩
  else none

def wordView (pc w : Word) : Option Retired :=
  if opcode w = .zero then none
  else some ⟨pc, rs1Id w, rs2Id w, rdId w, calcImmediate w, opcode w = .other⟩

theorem wbView_at {i : ℕ} (hl : Live ρ (issueClock ρ i + 2)) :
    wbView (ρ.state (issueClock ρ i + 2)) = wordView (pathPc ρ i) (pathWord ρ i) := by
  have hh := holds_at_issue (hl.mono (Nat.le_add_right _ 2))
  have hx : (ρ.state (issueClock ρ i + 2)).outputs.bitExit =
      decide (opcode (pathWord ρ i) = .other) := exit_in_wb hl
  have hv : (ρ.state (issueClock ρ i + 2)).outputs.validOut =
      decide (opcode (pathWord ρ i) ≠ .zero) := valid_in_wb hl
  unfold wbView wordView
  rw [hv, hx]
  by_cases hz : opcode (pathWord ρ i) = .zero
  · simp [hz]
  · rw [if_neg hz, if_pos (decide_eq_true hz)]
    simp only [State.outputs, wb_flags hl, wb_debug hl, hh.pc, hh.rs1n, hh.rs2n, hh.rdn,
      hh.imm32]
    rfl

theorem wbView_elsewhere {n : ℕ} (hl : Live ρ n) (hn : ∀ i, n ≠ issueClock ρ i + 2) :
    wbView (ρ.state n) = none := by
  apply if_neg
  intro hv
  obtain ⟨i, hi, _⟩ := valid_of_live hl hv
  exact hn i hi

/-- PCCounter's target for a redirect, from the execute stage's own registers. -/
def redirectTarget (s : State) : Word :=
  if s.execFlags.nextPC = 0b01#2 then s.execVals.pc + s.execVals.imm32
  else s.execVals.imm32 + s.execVals.rs1Val

theorem target_of_taken {i : ℕ} (hl : Live ρ (issueClock ρ i))
    (ht : (ρ.state (issueClock ρ i)).branchIsTakenExec = true) :
    (ρ.state (issueClock ρ i)).execFlags.nextPC = 0b01#2 ∨
      (ρ.state (issueClock ρ i)).execFlags.nextPC = 0b11#2 := by
  have hf := (holds_at_issue hl).flags
  have hc := coherent_at_issue hl
  cases hj : (ρ.state (issueClock ρ i)).execFlags.jump with
  | true =>
    rw [hf] at hj ⊢
    exact hc.jump_target hj
  | false =>
    have hb : (ρ.state (issueClock ρ i)).execFlags.branch = true := by
      simp only [State.branchIsTakenExec, branchIsTaken, hj, Bool.false_or,
        Bool.and_eq_true] at ht
      exact ht.1
    rw [hf] at hb ⊢
    exact Or.inl (hc.branch_target hb)

theorem nextPC_of_taken {i : ℕ} (hl : Live ρ (issueClock ρ i))
    (ht : (ρ.state (issueClock ρ i)).branchIsTakenExec = true) :
    (ρ.state (issueClock ρ i)).nextPC = redirectTarget (ρ.state (issueClock ρ i)) := by
  unfold State.nextPC State.takenNextPCExec redirectTarget
  rcases target_of_taken hl ht with hn | hn <;> simp [ht, hn, pcCounter]

/-- In-order retirement up to the first exit. The valid instructions seen in WB are the
words of the path that have reached it, in path order and once each; execute holds nothing
else, so no shadow word and no second copy of a stalled word can have an effect. -/
theorem in_order_retirement (ρ : Run) (k : ℕ) (hl : Live ρ k) :
    (∃ m, (∀ i, issueClock ρ i + 2 ≤ k ↔ i < m) ∧
      (List.range (k + 1)).filterMap (fun n => wbView (ρ.state n)) =
        (List.range m).filterMap (fun i => wordView (pathPc ρ i) (pathWord ρ i))) ∧
    (pathPc ρ 0 = ρ.start.entry ∧ ∀ i, issueClock ρ i ≤ k → pathPc ρ (i + 1) =
      if (ρ.state (issueClock ρ i)).branchIsTakenExec
      then redirectTarget (ρ.state (issueClock ρ i)) else pathPc ρ i + 4#32) ∧
    (∀ i, issueClock ρ i ≤ k →
      ExecHolds ρ.x ρ.imem (pathItem ρ i) (ρ.state (issueClock ρ i))) ∧
    (∀ n ≤ k, (∀ i, n ≠ issueClock ρ i) → ExecBubble (ρ.state n)) ∧
    (∀ n ≤ k, (ρ.state n).branchIsTakenExec = true → (ρ.state n).loadStallExec = false) := by
  have hc := stageClock_strictMono (ρ := ρ) 2
  obtain ⟨m, hm⟩ := exists_issued hc (k + 1)
  refine ⟨⟨m, fun i => Nat.lt_succ_iff.symm.trans (hm i), ?_⟩, ⟨rfl, ?_⟩, ?_, ?_, ?_⟩
  · apply observed_option hc _ _ hm
    · intro i hi
      exact wbView_at (hl.mono (by omega))
    · intro n hn hne
      exact wbView_elsewhere (hl.mono (by omega)) hne
  · intro i hi
    rw [pathPc_succ]
    split_ifs with ht
    · exact nextPC_of_taken (hl.mono hi) ht
    · rfl
  · exact fun i hi => holds_at_issue (hl.mono hi)
  · exact fun n hn => bubble_elsewhere (hl.mono hn)
  · exact fun n hn => taken_excludes_stall (hl.mono hn)

/-- BEQ x0, x0, 8 over ADDI x1, x0, 1 to ADDI x2, x0, 2 and ECALL. -/
def takenBranch : Run :=
  bootProgram [0x00000463#32, 0x00100093#32, 0x00200113#32, 0x00000073#32]

theorem takenBranch_in_order : ∃ m, (∀ i, issueClock takenBranch i + 2 ≤ 8 ↔ i < m) ∧
    (List.range 9).filterMap (fun n => wbView (takenBranch.state n)) =
      (List.range m).filterMap
        (fun i => wordView (pathPc takenBranch i) (pathWord takenBranch i)) := by
  have hl : Live takenBranch 8 := by
    intro n hn
    interval_cases n <;> decide +kernel
  exact (in_order_retirement takenBranch 8 hl).1

def SupportedPath (ρ : Run) : Prop :=
  ∀ i, (∀ j ≤ i, opcode (pathWord ρ j) ≠ .other) → opcode (pathWord ρ i) ≠ .zero

def LoadUse (a b : Word) : Prop :=
  opcode a = .load ∧ (rs1Id b = rdId a ∨ rs2Id b = rdId a)

instance (a b : Word) : Decidable (LoadUse a b) :=
  inferInstanceAs (Decidable (_ ∧ (_ ∨ _)))

def Redirects (a : Word) (taken : Bool) : Prop :=
  (opcode a = .branch ∧ taken = true) ∨ opcode a = .jal ∨ opcode a = .jalr

instance (a : Word) (taken : Bool) : Decidable (Redirects a taken) :=
  inferInstanceAs (Decidable ((_ ∧ _) ∨ _ ∨ _))

theorem taken_iff_redirects {i : ℕ} (hl : Live ρ (issueClock ρ i))
    (ho : opcode (pathWord ρ i) ≠ .other) :
    (ρ.state (issueClock ρ i)).branchIsTakenExec = true ↔
      Redirects (pathWord ρ i) (ρ.state (issueClock ρ i)).branchIsTakenExec := by
  have hf := (holds_at_issue hl).flags
  have hj : (ρ.state (issueClock ρ i)).execFlags.jump =
      decide (opcode (pathWord ρ i) = .jal ∨ opcode (pathWord ρ i) = .jalr) := by
    rw [hf]; exact decodeControl_jump ρ.x _ ho
  have hb : (ρ.state (issueClock ρ i)).execFlags.branch =
      decide (opcode (pathWord ρ i) = .branch) := by
    rw [hf]; exact decodeControl_branch ρ.x _ ho
  constructor
  · intro ht
    by_cases hjump : opcode (pathWord ρ i) = .jal ∨ opcode (pathWord ρ i) = .jalr
    · exact Or.inr hjump
    · refine Or.inl ⟨?_, ht⟩
      simp only [State.branchIsTakenExec, branchIsTaken, hj, hb, hjump, decide_false,
        Bool.false_or, Bool.and_eq_true, decide_eq_true_eq] at ht
      exact ht.1
  · rintro (⟨_, ht⟩ | hjump)
    · exact ht
    · simp only [State.branchIsTakenExec, branchIsTaken, hj, hjump, decide_true, Bool.true_or]

theorem stall_iff_loadUse {i : ℕ} (hl : Live ρ (issueClock ρ i))
    (ho : opcode (pathWord ρ i) ≠ .other)
    (ht : (ρ.state (issueClock ρ i)).branchIsTakenExec = false) :
    (ρ.state (issueClock ρ i)).loadStallExec = true ↔
      LoadUse (pathWord ρ i) (pathWord ρ (i + 1)) := by
  have hm : (ρ.state (issueClock ρ i)).execFlags.memToReg =
      decide (opcode (pathWord ρ i) = .load) := by
    rw [(holds_at_issue hl).flags]; exact decodeControl_memToReg ρ.x _ ho
  have hd : (ρ.state (issueClock ρ i)).decode.instr = pathWord ρ (i + 1) := by
    rw [decode_at_issue hl, pathWord, pathPc_succ, ht]; rfl
  have hrd := (holds_at_issue hl).rdn
  simp only [State.loadStallExec, loadStall, hm, hd, hrd, LoadUse, Bool.and_eq_true,
    Bool.or_eq_true, beq_iff_eq, decide_eq_true_eq]
  rfl

theorem loadUse_of_redirects {a b : Word} {t : Bool} (h : Redirects a t) : ¬ LoadUse a b := by
  rintro ⟨hl, _⟩
  rcases h with ⟨hb, _⟩ | hj | hj
  · rw [hl] at hb; cases hb
  · rw [hl] at hj; cases hj
  · rw [hl] at hj; cases hj

theorem issue_gap {i : ℕ} (hl : Live ρ (issueClock ρ i))
    (ho : opcode (pathWord ρ i) ≠ .other) :
    issueClock ρ (i + 1) = issueClock ρ i + 1 +
      (if LoadUse (pathWord ρ i) (pathWord ρ (i + 1)) then 1 else 0) +
      (if Redirects (pathWord ρ i) (ρ.state (issueClock ρ i)).branchIsTakenExec
        then 2 else 0) := by
  have hr := taken_iff_redirects hl ho
  rw [issueClock_succ]
  cases ht : (ρ.state (issueClock ρ i)).branchIsTakenExec with
  | true =>
    rw [ht] at hr
    have hred := hr.mp rfl
    simp [hred, loadUse_of_redirects hred]
  | false =>
    have hu := stall_iff_loadUse hl ho ht
    rw [ht] at hr
    have hred : ¬ Redirects (pathWord ρ i) false := fun h => Bool.false_ne_true (hr.mpr h)
    simp only [Bool.false_eq_true, ↓reduceIte, hred, hu, Nat.add_zero]

theorem not_valid_before {n : ℕ} (hn : n < 4) : (ρ.state n).wbFlags.valid = false := by
  apply Bool.eq_false_iff.mpr
  intro hv
  have hl : Live ρ (issueClock ρ 0 + 2) := live_first
  obtain ⟨i, hi, _⟩ := valid_of_live (hl.mono (by rw [issueClock_zero]; omega)) hv
  have := (issueClock_strictMono (ρ := ρ)).monotone (Nat.zero_le i)
  rw [issueClock_zero] at this
  omega

theorem first_retired (hw : SupportedPath ρ) :
    (ρ.state 4).outputs.validOut = true ∧ (ρ.state 4).outputs.pcOut = ρ.start.entry := by
  have h4 : issueClock ρ 0 + 2 = 4 := by rw [issueClock_zero]
  have hz : opcode (pathWord ρ 0) ≠ .zero := by
    by_cases ho : opcode (pathWord ρ 0) = .other
    · rw [ho]
      decide
    · apply hw 0
      intro j hj
      rwa [Nat.le_zero.mp hj]
  rw [← h4]
  exact ⟨(valid_in_wb live_first).trans (decide_eq_true hz), pc_in_wb live_first⟩

/-- On a path without zero words nothing comes between two retirements but bubbles. -/
theorem consecutive_retired (hw : SupportedPath ρ) {k₁ k₂ : ℕ} (hl : Live ρ k₂)
    (hlt : k₁ < k₂) (h₁ : (ρ.state k₁).outputs.validOut = true)
    (h₂ : (ρ.state k₂).outputs.validOut = true)
    (hgap : ∀ n, k₁ < n → n < k₂ → (ρ.state n).outputs.validOut = false) :
    ∃ i, k₁ = issueClock ρ i + 2 ∧ k₂ = issueClock ρ (i + 1) + 2 ∧
      opcode (pathWord ρ i) ≠ .other := by
  have hmono := issueClock_strictMono (ρ := ρ)
  obtain ⟨i, rfl, _⟩ := valid_of_live (hl.mono hlt.le) h₁
  obtain ⟨j, rfl, _⟩ := valid_of_live hl h₂
  have hij : i < j := by
    rw [← hmono.lt_iff_lt]
    omega
  have hnot : ∀ a < j, opcode (pathWord ρ a) ≠ .other := by
    intro a ha
    exact no_exit_of_live hl (Nat.add_lt_add_right (hmono ha) 2)
  have hj : j = i + 1 := by
    by_contra hne
    have hbefore : issueClock ρ (i + 1) < issueClock ρ j := hmono (by omega)
    have hafter : issueClock ρ i < issueClock ρ (i + 1) := hmono (Nat.lt_add_one i)
    have hv := hgap (issueClock ρ (i + 1) + 2) (by omega) (by omega)
    have hz : opcode (pathWord ρ (i + 1)) ≠ .zero := by
      apply hw
      intro a ha
      exact hnot a (by omega)
    rw [State.outputs, valid_in_wb (hl.mono (by omega))] at hv
    simp [hz] at hv
  subst hj
  exact ⟨i, rfl, rfl, hnot i hij⟩

/-- Exact retirement timing. `k₁` and `k₂` are the clocks in which two consecutively
retired instructions arrive in WB; the words are read back at their pc_out. -/
theorem retirement_timing (ρ : Run) (hw : SupportedPath ρ) :
    ((ρ.state 4).outputs.validOut = true ∧ (ρ.state 4).outputs.pcOut = ρ.start.entry ∧
      ∀ n < 4, (ρ.state n).outputs.validOut = false) ∧
    (∀ k₁ k₂, Live ρ k₂ → k₁ < k₂ → (ρ.state k₁).outputs.validOut = true →
      (ρ.state k₂).outputs.validOut = true →
      (∀ n, k₁ < n → n < k₂ → (ρ.state n).outputs.validOut = false) →
      k₂ = k₁ + 1 +
        (if LoadUse (fetch ρ.imem (ρ.state k₁).outputs.pcOut)
          (fetch ρ.imem (ρ.state k₂).outputs.pcOut) then 1 else 0) +
        (if Redirects (fetch ρ.imem (ρ.state k₁).outputs.pcOut)
          (ρ.state (k₁ - 2)).branchIsTakenExec then 2 else 0)) ∧
    (∀ n, Live ρ (n + 1) → (ρ.state n).loadStallExec = true →
      (ρ.state (n + 1)).loadStallExec = false ∧ (ρ.state n).branchIsTakenExec = false) := by
  refine ⟨?_, ?_, ?_⟩
  · obtain ⟨hv, hpc⟩ := first_retired hw
    exact ⟨hv, hpc, fun n hn => not_valid_before hn⟩
  · intro k₁ k₂ hl hlt h₁ h₂ hgap
    obtain ⟨i, rfl, rfl, hnot⟩ := consecutive_retired hw hl hlt h₁ h₂ hgap
    have hg := issue_gap (hl.mono (by omega)) hnot
    have hpc₁ : (ρ.state (issueClock ρ i + 2)).outputs.pcOut = pathPc ρ i :=
      pc_in_wb (hl.mono hlt.le)
    have hpc₂ : (ρ.state (issueClock ρ (i + 1) + 2)).outputs.pcOut = pathPc ρ (i + 1) :=
      pc_in_wb hl
    rw [hpc₁, hpc₂, Nat.add_sub_cancel]
    change _ = _ + (if LoadUse (pathWord ρ i) (pathWord ρ (i + 1)) then 1 else 0) +
      (if Redirects (pathWord ρ i) _ then 2 else 0)
    omega
  · intro n hl hs
    refine ⟨stall_once hl hs, ?_⟩
    apply Bool.eq_false_iff.mpr
    intro ht
    rw [taken_excludes_stall (hl.mono (Nat.le_succ n)) ht] at hs
    cases hs

def loadAdd : Run := bootProgram [0x00002083#32, 0x00008133#32, 0x00000073#32]

/-- The ADD waits one clock for the load. -/
theorem loadAdd_timing : 6 = 4 + 1 +
    (if LoadUse (fetch loadAdd.imem (loadAdd.state 4).outputs.pcOut)
      (fetch loadAdd.imem (loadAdd.state 6).outputs.pcOut) then 1 else 0) +
    (if Redirects (fetch loadAdd.imem (loadAdd.state 4).outputs.pcOut)
      (loadAdd.state 2).branchIsTakenExec then 2 else 0) := by
  have hw : SupportedPath loadAdd := by
    intro i hi
    match i with
    | 0 | 1 => decide +kernel
    | i + 2 => exact absurd (by decide +kernel) (hi 2 (by omega))
  have hl : Live loadAdd 6 := by
    intro n hn
    interval_cases n <;> decide +kernel
  refine (retirement_timing loadAdd hw).2.1 4 6 hl (by decide) (by decide +kernel)
    (by decide +kernel) fun n h4 h6 => ?_
  interval_cases n
  decide +kernel

end PipelineRetirement
