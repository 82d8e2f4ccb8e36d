import SimulatorRISCV.PipelineForwarding

/-! # The machine after bit_exit

bit_exit_WB gates the enables of the pc and of every pipeline register, but neither the
write enable of the data memory nor that of the register file. The frozen MEM stage
therefore repeats its store on every rising edge. -/
namespace PipelineHalt

open PipelineDecoder PipelineDatapath PipelineSimulator PipelineForwarding

theorem mergeLanes_again (width : BitVec 3) (wd word : Word) :
    mergeLanes width wd (mergeLanes width wd word) = mergeLanes width wd word := by
  unfold mergeLanes
  apply BitVec.eq_of_getLsbD_eq
  intro i hi
  split_ifs <;> grind

theorem memoryDataWrite_again (mem : MemArray) (addrA : Word) (width : BitVec 3) (we : Bool)
    (wd : Word) :
    memoryDataWrite (memoryDataWrite mem addrA width we wd) addrA width we wd =
      memoryDataWrite mem addrA width we wd := by
  cases we with
  | false => rfl
  | true => simp [memoryDataWrite, storeWord, mergeLanes_again]

variable {x : XValues} {imem : MemArray} {s t : State}

/-- The banks that hold from a state with bit_exit_WB set on, with `dmem` as its memory. -/
structure Halted (s : State) (dmem : MemArray) (t : State) : Prop where
  pc : t.pc = s.pc
  registers : t.registers = s.registers
  memValues : t.memValues = s.memValues
  memFlags : t.memFlags = s.memFlags
  wbVals : t.wbVals = s.wbVals
  wbFlags : t.wbFlags = s.wbFlags
  dmem : t.dmem = dmem

theorem halted_step (hx : s.bitExitWB = true)
    (hw : registerWrite s.registers s.wbFlags.regWrite s.wbFlags.rdn s.resultWB = s.registers)
    {d : MemArray} (h : Halted s d t) :
    Halted s (memoryDataWrite d (s.memValues.aluOut >>> 2) s.memFlags.memWidth
      s.memFlags.memWrite s.memValues.memWriteData) (clockCycle x imem false t) := by
  have hxt : t.bitExitWB = true := by rw [State.bitExitWB, h.wbFlags]; exact hx
  have hwt : registerWrite t.registers t.wbFlags.regWrite t.wbFlags.rdn t.resultWB =
      t.registers := by
    rw [State.resultWB, h.registers, h.wbFlags, h.wbVals]; exact hw
  constructor
  case pc => rw [frozen_pc hxt, h.pc]
  case registers => rw [frozen_registers hxt hwt, h.registers]
  case memValues => rw [frozen_memValues hxt, h.memValues]
  case memFlags => rw [frozen_memFlags hxt, h.memFlags]
  case wbVals => rw [frozen_wbVals hxt, h.wbVals]
  case wbFlags => rw [frozen_wbFlags hxt, h.wbFlags]
  case dmem => rw [clockCycle_dmem, h.dmem, h.memValues, h.memFlags]

theorem halted_run (h : Reachable x imem s) (hx : s.bitExitWB = true) (n : ℕ) :
    Halted s (drained s).dmem ((clockCycle x imem false)^[n + 1] s) := by
  have hw := reachable_written h
  induction n with
  | zero => exact halted_step hx hw ⟨rfl, rfl, rfl, rfl, rfl, rfl, rfl⟩
  | succ n ih =>
    rw [Function.iterate_succ_apply']
    have hstep : Halted s _ (clockCycle x imem false _) := halted_step hx hw ih
    rwa [drained, memoryDataWrite_again] at hstep

/-- MEM holds no store, or one of bytes the memory already has. -/
def NoPendingStore (s : State) : Prop :=
  s.memFlags.memWrite = false ∨
    mergeLanes s.memFlags.memWidth s.memValues.memWriteData
      (s.dmem (memIndex (s.memValues.aluOut >>> 2))) =
        s.dmem (memIndex (s.memValues.aluOut >>> 2))

theorem drained_dmem_iff : (drained s).dmem = s.dmem ↔ NoPendingStore s := by
  rw [drained, NoPendingStore, memoryDataWrite]
  cases s.memFlags.memWrite with
  | false => simp
  | true => simp [storeWord, Function.update_eq_self_iff]

structure KeepsState (s t : State) : Prop where
  pc : t.pc = s.pc
  registers : t.registers = s.registers
  dmem : t.dmem = s.dmem
  bitExit : t.outputs.bitExit = true

theorem halted_keeps_state_iff (h : Reachable x imem s) (hx : s.bitExitWB = true) :
    (∀ n, KeepsState s ((clockCycle x imem false)^[n] s)) ↔ NoPendingStore s := by
  rw [← drained_dmem_iff]
  constructor
  · exact fun hk => (halted_run h hx 0).dmem.symm.trans (hk 1).dmem
  · intro hd n
    cases n with
    | zero => exact ⟨rfl, rfl, rfl, hx⟩
    | succ n =>
      have hh := halted_run h hx n
      refine ⟨hh.pc, hh.registers, hh.dmem.trans hd, ?_⟩
      exact (congrArg WbFlags.bitExit hh.wbFlags).trans hx

/-- ADDI x1, x0, 5; ECALL; SW x1, 0(x0). Clock 5 has the ECALL in WB and the SW in MEM. -/
def ecallStore : Run := bootProgram [0x00500093#32, 0x00000073#32, 0x00102023#32]

theorem ecallStore_not_frozen : (ecallStore.state 5).bitExitWB = true ∧
    (ecallStore.state 5).dmem 0#17 = 0#32 ∧
    (clockCycle ecallStore.x ecallStore.imem false (ecallStore.state 5)).dmem 0#17 = 5#32 ∧
    ¬ ∀ n, KeepsState (ecallStore.state 5)
      ((clockCycle ecallStore.x ecallStore.imem false)^[n] (ecallStore.state 5)) := by
  refine ⟨by decide +kernel, by decide +kernel, by decide +kernel, fun h => ?_⟩
  exact absurd (congrFun (h 1).dmem 0#17) (by decide +kernel)

def ecallOnly : Run := bootProgram [0x00500093#32, 0x00000073#32]

theorem ecallOnly_frozen : (ecallOnly.state 5).registers 1#5 = 5#32 ∧
    ∀ n, KeepsState (ecallOnly.state 5)
      ((clockCycle ecallOnly.x ecallOnly.imem false)^[n] (ecallOnly.state 5)) :=
  ⟨by decide +kernel, (halted_keeps_state_iff (ecallOnly.reachable 5) (by decide +kernel)).mpr
    (Or.inl (by decide +kernel))⟩

end PipelineHalt
