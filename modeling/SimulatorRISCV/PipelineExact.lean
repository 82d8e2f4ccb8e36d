import SimulatorRISCV.PipelineIsaOutput

/-! # Where the pipeline leaves RV32I

A program that does not overwrite its instructions and whose data accesses MemoryData can serve
leaves RV32I at the first jump that finds no operation for its link, at the first JALR whose
register was written too late for decode or at the first FENCE, and nowhere else. -/
namespace PipelineExact

open PipelineDecoder PipelineDatapath PipelineSimulator PipelineIssue PipelineRetirement
open PipelineForwarding PipelineArchitecture PipelineSequential PipelineSemantics PipelineLinks
open PipelineInstruction PipelineIsa PipelineIsaOutput

variable {ρ : Run} {L : Layout ρ} {i n : ℕ}

/-- The `i`-th word of the pipeline reaches WB, stands at the pc of the `i`-th instruction, and
finds the registers and the data memory of the RV32I machine. -/
structure Matches (L : Layout ρ) (i : ℕ) : Prop where
  live : Live ρ (issueClock ρ i + 2)
  pc : pathPc ρ i = (isa L i).pc
  arch : Shows L.page (isa L i) (pathArch ρ i)

theorem execute_jump {w : Word} (hj : IsJump w) (x : XValues) (held : ControlSignals) (pc : Word)
    (a : Arch) (hz : rdId w ≠ 0#5) :
    (execute (decodeControl x w held) pc w a).registers (rdId w) =
      alu pc 4#32 held.aluOp 0#32 := by
  have hother : opcode w ≠ .other := by
    rcases hj with ho | ho <;> rw [ho] <;> decide
  have hreg := decodeControl_regWrite x held hother
  have hload := decodeControl_memToReg x held hother
  have hcontrol : (decodeControl x w held).regWrite = true ∧
      (decodeControl x w held).memToReg = false := by
    rcases hj with ho | ho <;> rw [hreg, hload, ho] <;> decide
  change registerWrite _ _ _ _ _ = _
  rw [registerWrite_apply, if_pos ⟨hcontrol.1, hz, rfl⟩, writeBack, hcontrol.2,
    if_neg Bool.false_ne_true, aluValue_jump x held hj]

theorem known_of_goes_on (ho : opcode (isaWord L i) ≠ .other) :
    ∀ m ∈ isaInsn L i, m.isFence = false := by
  intro m hm
  cases m with
  | fence rd rs1 order =>
    rw [← encode_of_isaInsn hm] at ho
    exact absurd (opcode_fence rd rs1 order) ho
  | base | jalr | ecall | ebreak => rfl

section Step

variable (h : Agrees L i) (hs : Served L i)
include h hs

theorem links_of_shows (ho : opcode (isaWord L i) ≠ .other)
    (hnext : Shows L.page (isa L (i + 1)) (sequential ρ (i + 1)).arch) :
    ∀ m ∈ isaInsn L i, ∀ rd ∈ m.link, rd ≠ 0#5 → AddsFour (isaOp L i) (isa L i).pc := by
  intro m hm rd hl hz
  have ha : Arrives L i := ⟨h, hs.code⟩
  obtain ⟨m', hm', hexec⟩ := hs.insn
  obtain rfl : m = m' := Option.some.inj (hm.symm.trans hm')
  obtain ⟨_, hrd⟩ := destination_encode ρ.x (sequential ρ i).held (encode_of_isaInsn hm) ho
  have hid : rdId (isaWord L i) = rd := hrd rd (Rv32i.Insn.rd_of_link hl)
  have hwritten := execute_jump (isJump_of_link hm hl) ρ.x (sequential ρ i).held (isa L i).pc
    (sequential ρ i).arch (hid ▸ hz)
  have hread := hnext.read rd
  have hlink : (isa L (i + 1)).read rd = (isa L i).pc + 4#32 := Rv32i.exec_link hexec hl hz
  rw [registerRead_of_ne _ hz, hlink] at hread
  rw [← ha.result_eq, ← arch_succ, hid, hread, h.op] at hwritten
  exact (adds_four_iff _ _).mp hwritten.symm

theorem target_of_pc (hpc : (sequential ρ (i + 1)).pc = (isa L (i + 1)).pc) :
    ∀ m ∈ isaInsn L i, ∀ t ∈ m.indirect,
      (isa L (capturedAt L i)).read t.1 + t.2.signExtend 32 =
        ((isa L i).read t.1 + t.2.signExtend 32) &&& ~~~1#32 := by
  intro m hm t ht
  obtain ⟨m', hm', hexec⟩ := hs.insn
  obtain rfl : m = m' := Option.some.inj (hm.symm.trans hm')
  cases m with
  | jalr rd rs1 offset =>
    obtain rfl := Option.some.inj ht
    obtain ⟨htaken, htarget⟩ := redirect_jalr ⟨h, hs.code⟩ hm
    have hnext : isa L (i + 1) = (isa L i).jalr rd rs1 offset := (Option.some.inj hexec).symm
    rw [sequential, Machine.step, if_pos htaken, hnext, htarget] at hpc
    exact hpc
  | base | fence | ecall | ebreak => cases ht

end Step

theorem matches_of_regular (h : RegularRun L n) (hi : i ≤ n) : Matches L i := by
  have ha := agrees_of_regular (h.mono hi)
  have hf := h.follows hi
  have hl := h.live hi
  rw [← h.issue hi] at hl
  exact ⟨hl, hf.pc.trans ha.pc, hf.arch ▸ ha.arch⟩

theorem handled_of_matches (hr : RegularRun L i) (hs : Served L i) (hm : Matches L (i + 1)) :
    Handled L i := by
  have h := agrees_of_regular hr
  have hf : Follows ρ (i + 1) := follows_of_live (hm.live.mono (Nat.le_add_right _ 2))
  have ho : opcode (isaWord L i) ≠ .other := by
    have hissue : issueClock ρ i < issueClock ρ (i + 1) :=
      issueClock_strictMono (Nat.lt_succ_self i)
    have hgo := no_exit_of_live hm.live (i := i) (by omega)
    have hword : pathWord ρ i = isaWord L i := (hr.follows le_rfl).word.trans
      (Arrives.word ⟨h, hs.code⟩)
    rwa [hword] at hgo
  have hpc : (sequential ρ (i + 1)).pc = (isa L (i + 1)).pc := hf.pc.symm.trans hm.pc
  have harch : Shows L.page (isa L (i + 1)) (sequential ρ (i + 1)).arch := hf.arch ▸ hm.arch
  exact ⟨links_of_shows h hs ho harch, target_of_pc h hs hpc, known_of_goes_on ho⟩

/-- A program that RV32I executes for `n` instructions without overwriting them, with accesses
that MemoryData can serve, runs in the pipeline as on the RV32I machine if and only if its jumps
are right and none of the instructions is a FENCE: no other instruction, hazard or order of
them makes a difference. -/
theorem runs_rv32i_iff (ρ : Run) (L : Layout ρ) (n : ℕ) (hs : ∀ i < n, Served L i) :
    (∀ i ≤ n, Matches L i) ↔ ∀ i < n, Handled L i := by
  constructor
  · intro hm
    suffices hr : RegularRun L n from fun i hi => (hr i hi).2
    intro i hi
    induction i using Nat.strong_induction_on with
    | h i ih =>
      have hbefore : RegularRun L i := fun j hj => ih j hj (hj.trans hi)
      exact ⟨hs i hi, handled_of_matches hbefore (hs i hi) (hm (i + 1) hi)⟩
  · intro hj i hi
    have hr : RegularRun L n := fun i hi => ⟨hs i hi, hj i hi⟩
    exact matches_of_regular hr hi

def staleJalr : Run := bootProgram [0x00800093#32, 0x00008067#32]

/-- ADDI x1, x0, 8; FENCE; ADDI x1, x1, 1. -/
def fenced : Run := bootProgram [0x00800093#32, 0x0FF0000F#32, 0x00108093#32]

theorem fenced_differs : ¬ (∀ i ≤ 2, Matches (.ofPages stackPages staleJalr) i) ∧
    ¬ ∀ i ≤ 3, Matches (.ofPages stackPages fenced) i :=
  ⟨(runs_rv32i_iff staleJalr _ 2 (by decide +kernel)).not.mpr (by decide +kernel),
    (runs_rv32i_iff fenced _ 3 (by decide +kernel)).not.mpr (by decide +kernel)⟩

end PipelineExact
