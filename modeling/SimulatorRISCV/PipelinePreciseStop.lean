import SimulatorRISCV.PipelineHalt
import SimulatorRISCV.PipelineHarness

/-! # The state at the break is precise

Stores commit on rising edges from MEM and register writes on falling edges from WB. The
loop breaks after the falling edge that completes the exit word, one rising edge before a
store behind it could commit. -/
namespace PipelinePreciseStop

open PipelineDecoder PipelineDatapath PipelineSimulator InOrderIssue PipelineIssue
open PipelineRetirement PipelineForwarding PipelineArchitecture PipelineHalt PipelineHarness
open ByteMemory

variable {ρ : Run} {i k : ℕ}

/-- The writes of the `i`-th path word on the state its predecessors leave, each with the
one edge it is made on. A zero word has none. -/
def wordWrites (ρ : Run) (i : ℕ) : List (Edge × Write) :=
  (if (pathControl ρ i).memWrite then
    [(.rising (issueClock ρ i + 2),
      .store (aluValue (pathControl ρ i) (pathPc ρ i) (pathWord ρ i) (pathArch ρ i))
        (memWidth (pathWord ρ i))
        (registerRead (pathArch ρ i).registers (rs2Id (pathWord ρ i))))]
  else []) ++
  (if (pathControl ρ i).regWrite && rdId (pathWord ρ i) != 0#5 then
    [(.falling (issueClock ρ i + 2),
      .register (rdId (pathWord ρ i))
        (writeBack (pathControl ρ i) (pathPc ρ i) (pathWord ρ i) (pathArch ρ i)))]
  else [])

def clockWrites (ρ : Run) (n : ℕ) : List (Edge × Write) :=
  (risingWrites (ρ.state n)).map (.rising (n + 1), ·) ++
    (fallingWrites (ρ.state (n + 1))).map (.falling (n + 1), ·)

theorem phaseLog_clocks (ρ : Run) (k : ℕ) :
    phaseLog ρ (2 * k) = (List.range k).flatMap (clockWrites ρ) := by
  induction k with
  | zero => rfl
  | succ k ih =>
    rw [show 2 * (k + 1) = 2 * k + 1 + 1 by omega, phaseLog_succ, phaseLog_succ, ih,
      edgeLog_even, edgeLog_odd, List.range_succ, List.flatMap_append, List.flatMap_singleton,
      List.append_assoc]
    rfl

theorem rising_at_issue (hl : Live ρ (issueClock ρ i + 1)) :
    risingWrites (ρ.state (issueClock ρ i + 1)) =
      if (pathControl ρ i).memWrite then
        [.store (aluValue (pathControl ρ i) (pathPc ρ i) (pathWord ρ i) (pathArch ρ i))
          (memWidth (pathWord ρ i))
          (registerRead (pathArch ρ i).registers (rs2Id (pathWord ρ i)))]
      else [] := by
  have hm := mem_at_issue hl
  rw [risingWrites, hm.flags, hm.aluOut, hm.memWriteData]

theorem falling_at_issue (hl : Live ρ (issueClock ρ i + 2)) :
    fallingWrites (ρ.state (issueClock ρ i + 2)) =
      if (pathControl ρ i).regWrite && rdId (pathWord ρ i) != 0#5 then
        [.register (rdId (pathWord ρ i))
          (writeBack (pathControl ρ i) (pathPc ρ i) (pathWord ρ i) (pathArch ρ i))]
      else [] := by
  have hh := holds_at_issue (hl.mono (Nat.le_add_right _ 2))
  rw [fallingWrites, result_at_issue hl, wb_flags hl, hh.rdn, hh.flags]
  rfl

theorem clockWrites_at (hl : Live ρ (issueClock ρ i + 2)) :
    clockWrites ρ (issueClock ρ i + 1) = wordWrites ρ i := by
  rw [clockWrites, wordWrites, rising_at_issue (hl.mono (Nat.le_succ _)), falling_at_issue hl]
  split_ifs <;> rfl

theorem clockWrites_elsewhere {n : ℕ} (hl : Live ρ (n + 1))
    (hn : ∀ i, n ≠ issueClock ρ i + 1) : clockWrites ρ n = [] := by
  cases n with
  | zero => rfl
  | succ n =>
    have hb : ExecBubble (ρ.state n) :=
      bubble_elsewhere (hl.mono (by omega)) fun i hi => hn i (by omega)
    have hm : risingWrites (ρ.state (n + 1)) = [] := by
      rw [risingWrites, mem_flags (hl.mono (Nat.le_succ _)), State.executedFlags, hb.memWrite]
      rfl
    have hw : fallingWrites (ρ.state (n + 2)) = [] := by
      rw [fallingWrites, wb_flags hl, hb.regWrite]
      rfl
    rw [clockWrites, hm, hw]
    rfl

theorem execute_eq_replay (ρ : Run) (i : ℕ) :
    execute (pathControl ρ i) (pathPc ρ i) (pathWord ρ i) (pathArch ρ i) =
      replay Write.apply ((wordWrites ρ i).map Prod.snd) (pathArch ρ i) := by
  rw [wordWrites, List.map_append, replay_append, execute, registerWrite, memoryDataWrite]
  split_ifs with hr hm hm
  all_goals simp only [Bool.and_eq_true, bne_iff_ne] at hr
  · simp [replay, Write.apply, registerWrite, memoryDataWrite, hr.2]
  · simp [replay, Write.apply, registerWrite, hr.2]
  · simp [replay, Write.apply, memoryDataWrite]
  · rfl

theorem pathArch_replay {e : ℕ} (hl : Live ρ (issueClock ρ e)) : ∀ i ≤ e,
    pathArch ρ i = replay Write.apply (((List.range i).flatMap (wordWrites ρ)).map Prod.snd)
      ⟨ρ.start.registers, ρ.start.dmem⟩ := by
  intro i
  induction i with
  | zero => exact fun _ => pathArch_zero
  | succ i ih =>
    intro hi
    have hmono := (issueClock_strictMono (ρ := ρ)).monotone hi
    rw [pathArch_succ (hl.mono hmono), execute_eq_replay, List.range_succ, List.flatMap_append,
      List.flatMap_singleton, List.map_append, replay_append, ← ih (by omega)]

/-- When main's loop has ended by its break, the writes performed are those of the path
words up to the first exit word, in program order and on the stated edges, and registers
and data memory are the result of exactly these. -/
theorem stop_precise (ρ : Run) (mode : TraceMode) (t : ℕ)
    (hs : (clockLoop ρ mode t).stopped = true) :
    ∃ e, (opcode (pathWord ρ e) = .other ∧ ∀ i < e, opcode (pathWord ρ i) ≠ .other) ∧
      (clockLoop ρ mode t).log = (List.range (e + 1)).flatMap (wordWrites ρ) ∧
      (∀ i ≤ e, pathArch ρ i =
        replay Write.apply (((List.range i).flatMap (wordWrites ρ)).map Prod.snd)
          ⟨ρ.start.registers, ρ.start.dmem⟩) ∧
      contents (clockLoop ρ mode t).top =
        replay Write.apply (((List.range (e + 1)).flatMap (wordWrites ρ)).map Prod.snd)
          ⟨ρ.start.registers, ρ.start.dmem⟩ := by
  obtain ⟨k, hk⟩ := clockLoop_stopped hs
  obtain ⟨e, rfl, he⟩ := bitExit_of_live hk.live hk.exit
  have hmono := issueClock_strictMono (ρ := ρ)
  have hc := stageClock_strictMono (ρ := ρ) 1
  have hlog : (clockLoop ρ mode t).log = (List.range (e + 1)).flatMap (wordWrites ρ) := by
    rw [hk.log, phaseLog_clocks]
    apply observed hc
    · intro i
      have := hmono.le_iff_le (a := i) (b := e)
      omega
    · intro i hi
      exact clockWrites_at (hk.live.mono (by omega))
    · intro n hn hne
      exact clockWrites_elsewhere (hk.live.mono (by omega)) hne
  refine ⟨e, ⟨he, fun i hi => no_exit_of_live hk.live ?_⟩, hlog,
    pathArch_replay (hk.live.mono (by omega)), ?_⟩
  · have := hmono hi
    omega
  · rw [← hlog]
    exact clockLoop_logged ρ mode t

/-- The loop breaks before the SW behind the ECALL commits. -/
theorem ecallStore_precise :
    (clockLoop ecallStore .off 88).stopped = true ∧
    ∃ e, (opcode (pathWord ecallStore e) = .other ∧
        ∀ i < e, opcode (pathWord ecallStore i) ≠ .other) ∧
      (clockLoop ecallStore .off 88).log =
        (List.range (e + 1)).flatMap (wordWrites ecallStore) ∧
      (∀ i ≤ e, pathArch ecallStore i =
        replay Write.apply (((List.range i).flatMap (wordWrites ecallStore)).map Prod.snd)
          ⟨ecallStore.start.registers, ecallStore.start.dmem⟩) ∧
      contents (clockLoop ecallStore .off 88).top =
        replay Write.apply (((List.range (e + 1)).flatMap (wordWrites ecallStore)).map Prod.snd)
          ⟨ecallStore.start.registers, ecallStore.start.dmem⟩ :=
  have hs : (clockLoop ecallStore .off 88).stopped = true := by decide +kernel
  ⟨hs, stop_precise ecallStore .off 88 hs⟩

end PipelinePreciseStop
