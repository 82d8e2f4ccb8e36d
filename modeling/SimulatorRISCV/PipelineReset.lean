import SimulatorRISCV.PipelineSequential

/-! # Reset

The input rst clears the pipeline registers; PCCounter, the register file and the memories
have no reset. A clock with rst set leaves what a fresh start leaves and begins an epoch. -/
namespace PipelineReset

open PipelineDecoder PipelineDatapath PipelineSimulator InOrderIssue PipelineIssue
open PipelineRetirement PipelineForwarding PipelineArchitecture PipelineSequential

/-- The start that a clock with rst set amounts to. The store in MEM is still performed, the
register write of MEM's instruction is lost, and the pc moves on as without rst. -/
def restart (x : XValues) (imem : MemArray) (s : State) : PowerOn where
  entry := (clockCycle x imem false s).pc
  registers := s.registers
  dmem := (drained s).dmem
  latches := s.control
  aluLatch := s.aluResult

theorem reset_cycle (x : XValues) (imem : MemArray) (s : State) :
    clockCycle x imem true s = settle x (restart x imem s).raw := by
  simp only [clockCycle, posedge, updateBanks, Bool.true_or, pipeline_reset]
  rfl

variable {ρ : Run} {i m n : ℕ}

theorem sequential_coherent (ρ : Run) (i : ℕ) : Coherent (sequential ρ i).held := by
  induction i with
  | zero => exact decodeControl_zero_coherent ρ.x _
  | succ i ih =>
    rw [sequential, Machine.step]
    split_ifs
    · exact decodeControl_zero_coherent ρ.x _
    · exact decodeControl_coherent ρ.x _ ih
    · exact decodeControl_coherent ρ.x _ ih

theorem drained_cut (hl : Live ρ n) (hm : ∀ i, issueClock ρ i < n ↔ i < m) :
    drained (ρ.state n) = (sequential ρ m).arch := by
  cases m with
  | zero =>
    have hn : n ≤ issueClock ρ 0 := not_lt.mp fun h => Nat.not_lt_zero 0 ((hm 0).mp h)
    rw [drained_start hl hn]
    rfl
  | succ j =>
    have hj : issueClock ρ j < n := (hm j).mpr (Nat.lt_succ_self j)
    have hn : n ≤ issueClock ρ (j + 1) :=
      not_lt.mp fun h => Nat.lt_irrefl (j + 1) ((hm (j + 1)).mp h)
    rw [drained_between hl hj hn, arch_succ, (follows_of_live (hl.mono hj.le)).result]

theorem registers_cut (hl : Live ρ n) (hm : ∀ i, issueClock ρ i + 2 ≤ n ↔ i < m) :
    (ρ.state n).registers = (sequential ρ m).arch.registers := by
  cases n with
  | zero =>
    have hm0 : m = 0 := by
      by_contra hne
      exact absurd ((hm 0).mpr (Nat.pos_of_ne_zero hne)) (by omega)
    rw [hm0]
    rfl
  | succ n =>
    have hdrained := drained_cut (m := m) (hl.mono (Nat.le_succ n)) fun i => by
      rw [← hm]
      omega
    rw [registers_next hl, hdrained]

def Stores (ρ : Run) (i : ℕ) : Prop :=
  ((sequential ρ i).control ρ.x ρ.imem).memWrite = true

/-- The words whose effect a reset behind clock `n` keeps: those that have been in WB, and a
store in MEM. -/
def Kept (ρ : Run) (n i : ℕ) : Prop :=
  issueClock ρ i + 2 ≤ n ∨ (issueClock ρ i + 1 = n ∧ Stores ρ i)

theorem store_keeps_registers (hs : Stores ρ i) :
    (sequential ρ (i + 1)).arch.registers = (sequential ρ i).arch.registers := by
  have hc : Coherent ((sequential ρ i).control ρ.x ρ.imem) :=
    decodeControl_coherent ρ.x _ (sequential_coherent ρ i)
  rw [arch_succ, Machine.result, execute, (hc.store_quiet hs).1]
  rfl

theorem other_keeps_dmem (hs : ¬ Stores ρ i) :
    (sequential ρ (i + 1)).arch.dmem = (sequential ρ i).arch.dmem := by
  rw [arch_succ, Machine.result, execute, Bool.eq_false_iff.mpr hs]
  rfl

def held (p : PowerOn) : Arch := ⟨p.registers, p.dmem⟩

theorem kept_in_mem (hm : issueClock ρ m + 1 = n) :
    Kept ρ n i ↔ i < m ∨ (i = m ∧ Stores ρ m) := by
  have hlt : issueClock ρ i < issueClock ρ m ↔ i < m := issueClock_strictMono.lt_iff_lt
  have heq : issueClock ρ i = issueClock ρ m ↔ i = m := issueClock_strictMono.injective.eq_iff
  rw [Kept, ← hlt]
  constructor
  · rintro (h | ⟨h, hs⟩)
    · exact Or.inl (by omega)
    · obtain rfl := heq.mp (by omega)
      exact Or.inr ⟨rfl, hs⟩
  · rintro (h | ⟨rfl, hs⟩)
    · exact Or.inl (by omega)
    · exact Or.inr ⟨hm, hs⟩

theorem restart_in_mem (hl : Live ρ n) (hm : issueClock ρ m + 1 = n) :
    ∃ j, (∀ i, i < j ↔ Kept ρ n i) ∧
      held (restart ρ.x ρ.imem (ρ.state n)) = (sequential ρ j).arch := by
  have hmono : ∀ a b, issueClock ρ a < issueClock ρ b ↔ a < b := fun _ _ =>
    issueClock_strictMono.lt_iff_lt
  have hregs : (ρ.state n).registers = (sequential ρ m).arch.registers :=
    registers_cut hl fun k => by
      have := hmono k m
      omega
  have hdrained : drained (ρ.state n) = (sequential ρ (m + 1)).arch :=
    drained_cut hl fun k => by
      have := hmono m k
      omega
  change ∃ j, _ ∧ (⟨(ρ.state n).registers, (drained (ρ.state n)).dmem⟩ : Arch) = _
  rw [hregs, hdrained]
  by_cases hs : Stores ρ m
  · refine ⟨m + 1, fun k => ?_, ?_⟩
    · rw [kept_in_mem hm, Nat.lt_succ_iff_lt_or_eq, and_iff_left hs]
    · rw [← store_keeps_registers hs]
  · refine ⟨m, fun k => ?_, ?_⟩
    · rw [kept_in_mem hm, or_iff_left fun h => hs h.2]
    · rw [other_keeps_dmem hs]

theorem restart_precise (hl : Live ρ n) : ∃ j, (∀ i, i < j ↔ Kept ρ n i) ∧
    held (restart ρ.x ρ.imem (ρ.state n)) = (sequential ρ j).arch := by
  by_cases hin : ∃ m, issueClock ρ m + 1 = n
  · obtain ⟨m, hm⟩ := hin
    exact restart_in_mem hl hm
  · -- nothing is in MEM: what has issued has been in WB
    have hne : ∀ k, issueClock ρ k + 1 ≠ n := fun k hk => hin ⟨k, hk⟩
    obtain ⟨m, hm⟩ := exists_issued (issueClock_strictMono (ρ := ρ)) n
    refine ⟨m, fun k => ?_, ?_⟩
    · have := hne k
      rw [← hm, Kept]
      omega
    · change (⟨(ρ.state n).registers, (drained (ρ.state n)).dmem⟩ : Arch) = _
      have hregs : (ρ.state n).registers = (sequential ρ m).arch.registers :=
        registers_cut hl fun k => by
          have := hne k
          rw [← hm]
          omega
      rw [hregs, drained_cut hl hm]

theorem next_pc (hl : Live ρ n) (hi : ∀ k < i, issueClock ρ k < n) :
    pathPc ρ i = (sequential ρ i).pc := by
  cases i with
  | zero => rfl
  | succ k =>
    have hk : issueClock ρ k < n := hi k (Nat.lt_succ_self k)
    exact (follows_of_live (hl.mono hk.le)).next_pc

theorem restart_entry (hl : Live ρ (n + 1)) : ∃ i, (∀ k, k < i ↔ issueClock ρ k ≤ n) ∧
    (restart ρ.x ρ.imem (ρ.state n)).entry =
      (sequential ρ i).pc + BitVec.ofNat 32 (4 * (n + 3 - issueClock ρ i)) := by
  obtain ⟨i, hitem, hissue⟩ :=
    front_located (nextItem ρ.x ρ.imem) (entryItem ρ) (runSignals ρ) (n + 1)
  have hbefore : ∀ k < i, issueClock ρ k < n + 1 := fun k hk =>
    issued_before _ _ _ hissue hk
  have hpc : pathPc ρ i = (sequential ρ i).pc := next_pc hl hbefore
  have hshape := run_shape hl
  have hnext : (restart ρ.x ρ.imem (ρ.state n)).entry = (ρ.state (n + 1)).pc := rfl
  refine ⟨i, fun k => ⟨fun hk => Nat.lt_succ_iff.mp (hbefore k hk), fun hk => ?_⟩, ?_⟩
  · rw [← (issueClock_strictMono (ρ := ρ)).lt_iff_lt]
    change issueClock ρ k < issue (runSignals ρ) i
    omega
  · rw [hnext, ← hpc]
    change _ = pathPc ρ i + BitVec.ofNat 32 (4 * (n + 3 - issue (runSignals ρ) i))
    rw [hissue, pathPc, pathItem, ← hitem]
    cases hf : front (nextItem ρ.x ρ.imem) (entryItem ρ) (runSignals ρ) (n + 1) with
    | fetch a =>
      rw [hf] at hshape
      cases hshape with
      | fetch _ _ hat =>
        rw [hat]
        simp [Front.item, Front.lag]
    | decode a =>
      rw [hf] at hshape
      cases hshape with
      | decode _ _ hat =>
        rw [hat]
        have hfour : n + 3 - (n + 1 + 1) = 1 := by omega
        simp only [Front.item, Front.lag, hfour]
    | execute a =>
      rw [hf] at hshape
      cases hshape with
      | execute _ _ hat =>
        rw [hat]
        have height : n + 3 - (n + 1 + 0) = 2 := by omega
        simp only [Front.item, Front.lag, height]

/-- What a reset in clock `n` leaves: the effect of the first `j` words of the run. The first
`i` have issued; unless the exit word is in WB, execution goes on behind the words in fetch and
decode, which are lost as well. -/
structure Restarted (ρ : Run) (n : ℕ) (p : PowerOn) (j i : ℕ) : Prop where
  kept : ∀ k, k < j ↔ Kept ρ n k
  held : held p = (sequential ρ j).arch
  issued : ∀ k, k < i ↔ issueClock ρ k ≤ n
  entry : (ρ.state n).bitExitWB = false →
    p.entry = (sequential ρ i).pc + BitVec.ofNat 32 (4 * (n + 3 - issueClock ρ i))

theorem restarted (hl : Live ρ n) :
    ∃ j i, Restarted ρ n (restart ρ.x ρ.imem (ρ.state n)) j i := by
  obtain ⟨j, hj, harch⟩ := restart_precise hl
  obtain ⟨i, hi⟩ := exists_issued (issueClock_strictMono (ρ := ρ)) (n + 1)
  have hissued : ∀ k, k < i ↔ issueClock ρ k ≤ n := fun k => by
    rw [← hi, Nat.lt_succ_iff]
  refine ⟨j, i, hj, harch, hissued, fun hx => ?_⟩
  obtain ⟨i', hi', hentry⟩ := restart_entry (hl.succ hx)
  obtain rfl : i = i' := eq_of_forall_lt_iff fun k => (hissued k).trans (hi' k).symm
  exact hentry

structure Epoch where
  start : PowerOn
  age : ℕ

section History

variable (x : XValues) (imem : MemArray) (p : PowerOn) (rst : ℕ → Bool)

def stateUnder : ℕ → State
  | 0 => settle x p.raw
  | n + 1 => clockCycle x imem (rst n) (stateUnder n)

def epoch : ℕ → Epoch
  | 0 => ⟨p, 0⟩
  | n + 1 =>
    if rst n then ⟨restart x imem (stateUnder x imem p rst n), 0⟩
    else ⟨(epoch n).start, (epoch n).age + 1⟩

def epochRun (n : ℕ) : Run := ⟨x, imem, (epoch x imem p rst n).start⟩

theorem stateUnder_eq (n : ℕ) : stateUnder x imem p rst n =
    (epochRun x imem p rst n).state (epoch x imem p rst n).age := by
  induction n with
  | zero => rfl
  | succ n ih =>
    rw [stateUnder, epochRun, epoch]
    cases hrst : rst n with
    | false =>
      rw [ih]
      rfl
    | true => exact reset_cycle x imem _

/-- Under any signal on rst the pipeline is in the run of its epoch. Unless that run has had an
exit word in WB, a reset starts the next epoch with the effect of its first words and behind
the words that have been fetched. -/
theorem reset_precise :
    (∀ n, stateUnder x imem p rst n =
      (epochRun x imem p rst n).state (epoch x imem p rst n).age) ∧
    ∀ n, rst n = true → Live (epochRun x imem p rst n) (epoch x imem p rst n).age →
      ∃ j i, Restarted (epochRun x imem p rst n) (epoch x imem p rst n).age
        (epoch x imem p rst (n + 1)).start j i := by
  refine ⟨stateUnder_eq x imem p rst, ?_⟩
  intro n hrst hl
  rw [epoch, if_pos hrst, stateUnder_eq]
  exact restarted hl

end History

/-- ADDI x1, x0, 1; SW x1, 0(x0); ADDI x2, x0, 2. In clock 4 the store is in MEM. -/
def storeInMem : Run := bootProgram [0x00100093#32, 0x00102023#32, 0x00200113#32]

def storeInMemEpoch (n : ℕ) : Epoch :=
  epoch storeInMem.x storeInMem.imem storeInMem.start (fun k => k == 4) n

theorem reset_keeps_store : (storeInMemEpoch 5).age = 0 ∧
    (held (storeInMemEpoch 5).start).dmem 0#17 = 1#32 ∧
    ∃ j i, Restarted storeInMem 4 (storeInMemEpoch 5).start j i :=
  ⟨by decide +kernel, by decide +kernel,
    (reset_precise storeInMem.x storeInMem.imem storeInMem.start fun k => k == 4).2 4 rfl
      (live_first.mono (Nat.le_refl 4))⟩

end PipelineReset
