import SimulatorRISCV.PipelineArchitecture

/-! # What an exit word does on its way to WB

The default case assigns bit_exit and valid only, so an exit word carries the other control
signals of the word decoded before it into execute, MEM and WB. -/
namespace PipelineExitWord

open PipelineDecoder PipelineDatapath PipelineSimulator PipelineIssue PipelineRetirement
open PipelineForwarding PipelineArchitecture

variable {ρ : Run} {i : ℕ}

structure NoSideEffect (ρ : Run) (i : ℕ) : Prop where
  execute : (ρ.state (issueClock ρ i)).branchIsTakenExec = false
  mem : (ρ.state (issueClock ρ i + 1)).memFlags.memWrite = false
  wb : (ρ.state (issueClock ρ i + 2)).wbFlags.regWrite = true →
    (ρ.state (issueClock ρ i + 2)).wbFlags.rdn = 0#5
  bitExit : (ρ.state (issueClock ρ i + 2)).outputs.bitExit = true
  valid : (ρ.state (issueClock ρ i + 2)).outputs.validOut = true

def HarmlessBefore (ρ : Run) (j : ℕ) (w : Word) : Prop :=
  match opcode (pathWord ρ j) with
  | .zero | .other => True
  | .store => False
  | .rType | .iType | .load | .auipc | .lui => rdId w = 0#5
  | .branch => redirects (pathControl ρ j) (pathPc ρ (j + 1)) w (pathArch ρ (j + 1)) = false
  | .jal | .jalr => False

/-- The exit word is the first of the run, the target of a redirect, or behind a word whose
signals are harmless to it. -/
def QuietLatches (ρ : Run) : ℕ → Prop
  | 0 => True
  | j + 1 => (ρ.state (issueClock ρ j)).branchIsTakenExec = true ∨
      HarmlessBefore ρ j (pathWord ρ (j + 1))

theorem decodeControl_other (x : XValues) {w : Word} (hw : opcode w = .other)
    (h : ControlSignals) : decodeControl x w h = { h with bitExit := true, valid := true } := by
  simp only [decodeControl, controlUnit, hw]

theorem noSideEffect_iff_held (he : opcode (pathWord ρ i) = .other)
    (hl : Live ρ (issueClock ρ i + 2)) : NoSideEffect ρ i ↔
      (pathItem ρ i).held.memWrite = false ∧
      ((pathItem ρ i).held.regWrite = true → rdId (pathWord ρ i) = 0#5) ∧
      redirects (pathItem ρ i).held (pathPc ρ i) (pathWord ρ i) (pathArch ρ i) = false := by
  have hctl : pathControl ρ i = { (pathItem ρ i).held with bitExit := true, valid := true } :=
    decodeControl_other ρ.x he _
  have ht := taken_at_issue (hl.mono (Nat.le_add_right _ 2))
  have hm : (ρ.state (issueClock ρ i + 1)).memFlags.memWrite = (pathControl ρ i).memWrite :=
    congrArg MemFlags.memWrite (mem_at_issue (hl.mono (Nat.le_succ _))).flags
  obtain ⟨hr, hd⟩ := wb_at hl
  rw [hctl] at ht hm hr
  constructor
  · intro h
    refine ⟨hm.symm.trans h.mem, fun hw => hd.symm.trans (h.wb (hr.trans hw)), ?_⟩
    exact ht.symm.trans h.execute
  · rintro ⟨hmem, hreg, hred⟩
    refine ⟨ht.trans hred, hm.trans hmem, fun hw => hd.trans (hreg (hr.symm.trans hw)), ?_, ?_⟩
    · exact (exit_in_wb hl).trans (decide_eq_true he)
    · exact (valid_in_wb hl).trans (by rw [he]; rfl)

theorem quiet_after_zero (x : XValues) (h : ControlSignals) (pc w : Word) (a : Arch) :
    (decodeControl x 0#32 h).memWrite = false ∧
      ((decodeControl x 0#32 h).regWrite = true → rdId w = 0#5) ∧
      redirects (decodeControl x 0#32 h) pc w a = false := by
  obtain ⟨hr, hm, hj, hb⟩ := zero_quiet x opcode_zero h
  refine ⟨hm, ?_, redirects_quiet _ _ _ hj hb⟩
  intro hw
  rw [hr] at hw
  cases hw

theorem harmless_iff {j : ℕ} (ho : opcode (pathWord ρ j) ≠ .other)
    (hj : ¬(opcode (pathWord ρ j) = .jal ∨ opcode (pathWord ρ j) = .jalr)) (w : Word) :
    ((pathControl ρ j).memWrite = false ∧
      ((pathControl ρ j).regWrite = true → rdId w = 0#5) ∧
      redirects (pathControl ρ j) (pathPc ρ (j + 1)) w (pathArch ρ (j + 1)) = false) ↔
    HarmlessBefore ρ j w := by
  have hm : (pathControl ρ j).memWrite = decide (opcode (pathWord ρ j) = .store) :=
    decodeControl_memWrite ρ.x _ ho
  have hr : (pathControl ρ j).regWrite = decide (opcode (pathWord ρ j) ≠ .store ∧
      opcode (pathWord ρ j) ≠ .branch ∧ opcode (pathWord ρ j) ≠ .zero) :=
    decodeControl_regWrite ρ.x _ ho
  have hb : (pathControl ρ j).branch = decide (opcode (pathWord ρ j) = .branch) :=
    decodeControl_branch ρ.x _ ho
  have hjump : (pathControl ρ j).jump = false :=
    (decodeControl_jump ρ.x _ ho).trans (decide_eq_false hj)
  have hq : opcode (pathWord ρ j) ≠ .branch →
      redirects (pathControl ρ j) (pathPc ρ (j + 1)) w (pathArch ρ (j + 1)) = false :=
    fun hne => redirects_quiet _ _ _ hjump (hb.trans (decide_eq_false hne))
  rw [hm, hr, HarmlessBefore]
  cases hw : opcode (pathWord ρ j) with
  | other => exact absurd hw ho
  | jal => exact absurd (Or.inl hw) hj
  | jalr => exact absurd (Or.inr hw) hj
  | branch | store => simp
  | zero | rType | iType | load | auipc | lui => simp [hq (by rw [hw]; decide)]

theorem exit_no_side_effect_iff (ρ : Run) (i : ℕ) (he : opcode (pathWord ρ i) = .other)
    (hl : Live ρ (issueClock ρ i + 2)) : NoSideEffect ρ i ↔ QuietLatches ρ i := by
  rw [noSideEffect_iff_held he hl]
  cases i with
  | zero => exact iff_of_true (quiet_after_zero ρ.x _ _ _ _) trivial
  | succ j =>
    have hlt := issueClock_strictMono (ρ := ρ) (Nat.lt_add_one j)
    have hlj : Live ρ (issueClock ρ j) := hl.mono (by omega)
    have ho : opcode (pathWord ρ j) ≠ .other := no_exit_of_live hl (by omega)
    rw [pathHeld_succ, QuietLatches]
    cases ht : (ρ.state (issueClock ρ j)).branchIsTakenExec with
    | true => exact iff_of_true (quiet_after_zero ρ.x _ _ _ _) (Or.inl rfl)
    | false =>
      have hj : ¬(opcode (pathWord ρ j) = .jal ∨ opcode (pathWord ρ j) = .jalr) := by
        intro hj
        have := (taken_iff_redirects hlj ho).mpr (Or.inr hj)
        rw [ht] at this
        cases this
      simp only [Bool.false_eq_true, ↓reduceIte, false_or]
      exact harmless_iff ho hj _

/-- ADDI x1, x0, 5; SW x1, 0(x0); ECALL. -/
def storeEcall : Run := bootProgram [0x00500093#32, 0x00102023#32, 0x00000073#32]

/-- The ECALL repeats the store as a byte store of x0 and clears the byte. -/
theorem ecall_overwrites_store :
    opcode (pathWord storeEcall 2) = .other ∧
    (storeEcall.state (issueClock storeEcall 2 + 1)).dmem 0#17 = 5#32 ∧
    (storeEcall.state (issueClock storeEcall 2 + 2)).dmem 0#17 = 0#32 ∧
    ¬ NoSideEffect storeEcall 2 := by
  refine ⟨by decide +kernel, by decide +kernel, by decide +kernel, fun h => ?_⟩
  exact absurd h.mem (by decide +kernel)

def addEcall : Run := bootProgram [0x00500093#32, 0x00000073#32]

theorem addEcall_quiet : NoSideEffect addEcall 1 := by
  have hl : Live addEcall (issueClock addEcall 1 + 2) := live_of_not_exit (by decide +kernel)
  have ho : opcode (pathWord addEcall 0) = .iType := by decide +kernel
  refine (exit_no_side_effect_iff addEcall 1 (by decide +kernel) hl).mpr (Or.inr ?_)
  rw [HarmlessBefore, ho]
  decide +kernel

end PipelineExitWord
