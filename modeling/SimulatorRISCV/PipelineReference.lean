import SimulatorRISCV.PipelineArchitecture

/-! # Refinement of the one-word-at-a-time machine by jump-free code

The reference machine decodes every word over cleared latches. On jump-free code no signal
that matters is left unassigned, so the latches of the pipeline make no difference. -/
namespace PipelineReference

open PipelineDecoder PipelineDatapath PipelineSimulator InOrderIssue PipelineIssue
open PipelineRetirement PipelineForwarding PipelineArchitecture

structure Machine where
  pc : Word
  arch : Arch

def cleared : ControlSignals :=
  ⟨0b0000#4, false, false, false, 0b00#2, false, false, false, false, 0b00#2, false, false⟩

def refControl (x : XValues) (w : Word) : ControlSignals := decodeControl x w cleared

def Machine.step (x : XValues) (imem : MemArray) (m : Machine) : Machine where
  pc :=
    if redirects (refControl x (fetch imem m.pc)) m.pc (fetch imem m.pc) m.arch
    then m.pc + calcImmediate (fetch imem m.pc) else m.pc + 4#32
  arch := execute (refControl x (fetch imem m.pc)) m.pc (fetch imem m.pc) m.arch

/-- The reference state before the `i`-th word. -/
def reference (ρ : Run) : ℕ → Machine
  | 0 => ⟨ρ.start.entry, ρ.start.registers, ρ.start.dmem⟩
  | i + 1 => (reference ρ i).step ρ.x ρ.imem

def refWord (ρ : Run) (i : ℕ) : Word := fetch ρ.imem (reference ρ i).pc

/-- R_TYPE, I_TYPE, LOAD, STORE, AUIPC, LUI, the zero opcode, or a BRANCH whose funct3
names a comparison. -/
def JumpFree (w : Word) : Prop :=
  opcode w ≠ .jal ∧ opcode w ≠ .jalr ∧ opcode w ≠ .other ∧
    (opcode w = .branch → funct3 w ≠ 0b010#3 ∧ funct3 w ≠ 0b011#3)

instance (w : Word) : Decidable (JumpFree w) := inferInstanceAs (Decidable (_ ∧ _ ∧ _ ∧ _))

def JumpFreeUntilExit (ρ : Run) : Prop :=
  ∀ i, (∀ j ≤ i, opcode (refWord ρ j) ≠ .other) → JumpFree (refWord ρ i)

/-- The architectural view of a clock: the pc_out of a valid instruction in WB with the
register file and the data memory after the falling edge. -/
structure Snapshot where
  pcOut : Word
  registers : RegBank
  dmem : MemArray

def snapshot (s : State) : Option Snapshot :=
  if s.outputs.validOut then some ⟨s.outputs.pcOut, s.registers, s.dmem⟩ else none

def refSnapshot (ρ : Run) (i : ℕ) : Option Snapshot :=
  if opcode (refWord ρ i) = .zero then none
  else some ⟨(reference ρ i).pc, (reference ρ (i + 1)).arch.registers,
    (reference ρ (i + 1)).arch.dmem⟩

theorem jumpFree_agree (x : XValues) {w : Word} (hw : JumpFree w) (hz : opcode w ≠ .zero)
    (h : ControlSignals) : Agree (decodeControl x w h) (refControl x w) := by
  obtain ⟨hjal, hjalr, hother, hbr⟩ := hw
  refine decodeControl_agree x hother hz ⟨?_, ?_⟩
  · rintro (hj | hj)
    · exact absurd hj hjal
    · exact absurd hj hjalr
  · rintro ⟨hb, h2 | h3⟩
    · exact absurd h2 (hbr hb).1
    · exact absurd h3 (hbr hb).2

theorem jumpFree_effect (x : XValues) {w : Word} (hw : JumpFree w) (h : ControlSignals)
    (pc : Word) (a : Arch) :
    execute (decodeControl x w h) pc w a = execute (refControl x w) pc w a ∧
      redirects (decodeControl x w h) pc w a = redirects (refControl x w) pc w a := by
  by_cases hz : opcode w = .zero
  · obtain ⟨hr, hm, hj, hb⟩ := zero_quiet x hz h
    obtain ⟨hr', hm', hj', hb'⟩ := zero_quiet x hz cleared
    rw [execute_quiet _ _ _ hr hm, redirects_quiet _ _ _ hj hb, refControl,
      execute_quiet _ _ _ hr' hm', redirects_quiet _ _ _ hj' hb']
    exact ⟨rfl, rfl⟩
  · have hag := jumpFree_agree x hw hz h
    exact ⟨execute_congr pc w a hag, redirects_congr pc w a hag⟩

variable {ρ : Run} {i m : ℕ}

structure Matches (ρ : Run) (i : ℕ) : Prop where
  live : Live ρ (issueClock ρ i)
  pc : pathPc ρ i = (reference ρ i).pc
  arch : pathArch ρ i = (reference ρ i).arch

theorem Matches.word (h : Matches ρ i) : pathWord ρ i = refWord ρ i := by
  rw [pathWord, h.pc]
  rfl

theorem jumpFree_next (h : Matches ρ i) (hw : JumpFree (refWord ρ i)) :
    pathPc ρ (i + 1) = if (ρ.state (issueClock ρ i)).branchIsTakenExec
      then pathPc ρ i + calcImmediate (pathWord ρ i) else pathPc ρ i + 4#32 := by
  have hh := holds_at_issue h.live
  have hc := coherent_at_issue h.live
  rw [← h.word] at hw
  have hj : (pathControl ρ i).jump = false :=
    (decodeControl_jump ρ.x _ hw.2.2.1).trans (by simp [hw.1, hw.2.1])
  rw [pathPc_succ]
  split_ifs with ht
  · have hb : (pathControl ρ i).branch = true := by
      have ht' := (taken_at_issue h.live).symm.trans ht
      simp only [redirects, branchIsTaken, hj, Bool.false_or, Bool.and_eq_true] at ht'
      exact ht'.1
    have hn : (ρ.state (issueClock ρ i)).execFlags.nextPC = 0b01#2 := by
      rw [hh.flags]; exact hc.branch_target hb
    rw [nextPC_of_taken h.live ht, redirectTarget, if_pos hn, hh.pc, hh.imm32]
    rfl
  · rfl

theorem matches_step (hm : ∀ j ≤ i, Matches ρ j) (hw : ∀ j ≤ i, JumpFree (refWord ρ j)) :
    Matches ρ (i + 1) := by
  have h := hm i le_rfl
  have hl : Live ρ (issueClock ρ (i + 1)) := by
    apply (live_of_words _).mono (Nat.le_add_right _ 2)
    intro j hj
    rw [(hm j (Nat.lt_succ_iff.mp hj)).word]
    exact (hw j (Nat.lt_succ_iff.mp hj)).2.2.1
  obtain ⟨hex, hred⟩ := jumpFree_effect ρ.x (hw i le_rfl) (pathItem ρ i).held
    (reference ρ i).pc (reference ρ i).arch
  have hctl : pathControl ρ i = decodeControl ρ.x (refWord ρ i) (pathItem ρ i).held := by
    rw [← h.word]; rfl
  refine ⟨hl, ?_, ?_⟩
  · rw [jumpFree_next h (hw i le_rfl), taken_at_issue h.live, h.pc, h.word, h.arch, hctl, hred]
    rfl
  · rw [pathArch_succ hl, h.pc, h.word, h.arch, hctl, hex]
    rfl

theorem path_matches (hw : ∀ j < m, JumpFree (refWord ρ j)) : ∀ j ≤ m, Matches ρ j := by
  induction m with
  | zero =>
    intro j hj
    rw [Nat.le_zero.mp hj]
    exact ⟨live_first.mono (Nat.le_add_right _ 2), rfl, rfl⟩
  | succ m ih =>
    intro j hj
    have hm := ih fun j hj => hw j (Nat.lt_succ_of_lt hj)
    rcases Nat.le_succ_iff.mp hj with hj | rfl
    · exact hm j hj
    · exact matches_step hm fun j hj => hw j (Nat.lt_succ_of_le hj)

theorem snapshot_at (hl : Live ρ (issueClock ρ i + 2)) (h : Matches ρ i)
    (h' : Matches ρ (i + 1)) :
    snapshot (ρ.state (issueClock ρ i + 2)) = refSnapshot ρ i := by
  have hv : (ρ.state (issueClock ρ i + 2)).outputs.validOut = _ := valid_in_wb hl
  have harch := (arch_at_retirement hl).trans ((pathArch_succ h'.live).symm.trans h'.arch)
  rw [snapshot, refSnapshot, hv, h.word, ← harch, ← h.pc]
  have hpc : (ρ.state (issueClock ρ i + 2)).outputs.pcOut = pathPc ρ i := pc_in_wb hl
  by_cases hz : opcode (refWord ρ i) = .zero
  · simp [hz]
  · simp [hz, hpc]

/-- Refinement for jump-free code. Up to the clock that has word `m` in WB the valid
instructions seen there are the retiring words of the reference, in order, each with its
pc and with exactly the registers and data memory the reference has after it. -/
theorem pipeline_refines_reference (ρ : Run) (hj : JumpFreeUntilExit ρ) (m : ℕ)
    (hm : ∀ j ≤ m, opcode (refWord ρ j) ≠ .other) :
    (∀ k ≤ issueClock ρ m + 2, (ρ.state k).outputs.bitExit = false) ∧
    (List.range (issueClock ρ m + 3)).filterMap (fun k => snapshot (ρ.state k)) =
      (List.range (m + 1)).filterMap (refSnapshot ρ) := by
  have hw : ∀ j < m + 1, JumpFree (refWord ρ j) := fun j hjm =>
    hj j fun a ha => hm a (by omega)
  have hmatch := path_matches hw
  have hl : Live ρ (issueClock ρ m + 3) := by
    have hlt := issueClock_strictMono (ρ := ρ) (Nat.lt_add_one m)
    apply (live_of_words (i := m + 1) _).mono (by omega)
    intro j hjm
    rw [(hmatch j (by omega)).word]
    exact hm j (by omega)
  have hc := stageClock_strictMono (ρ := ρ) 2
  refine ⟨fun k hk => hl k (by omega), ?_⟩
  apply observed_option hc
  · intro i
    have := (issueClock_strictMono (ρ := ρ)).le_iff_le (a := i) (b := m)
    omega
  · intro i hi
    have him : i ≤ m := by
      rw [← (issueClock_strictMono (ρ := ρ)).le_iff_le]; omega
    exact snapshot_at (hl.mono (by omega)) (hmatch i (by omega)) (hmatch (i + 1) (by omega))
  · intro k hk hne
    apply if_neg
    intro hv
    obtain ⟨i, hi, _⟩ := valid_of_live (hl.mono hk.le) hv
    exact hne i hi

/-- ADDI x1, x0, 5 and ECALL. -/
def addiEcall : Run := bootProgram [0x00500093#32, 0x00000073#32]

theorem addiEcall_refines :
    (∀ k ≤ issueClock addiEcall 0 + 2, (addiEcall.state k).outputs.bitExit = false) ∧
    (List.range (issueClock addiEcall 0 + 3)).filterMap
        (fun k => snapshot (addiEcall.state k)) =
      (List.range 1).filterMap (refSnapshot addiEcall) := by
  apply pipeline_refines_reference addiEcall _ 0
  · intro j hj
    rw [Nat.le_zero.mp hj]
    decide +kernel
  · intro i hi
    match i with
    | 0 => decide +kernel
    | i + 1 => exact absurd (by decide +kernel) (hi 1 (by omega))

end PipelineReference
