import SimulatorRISCV.PipelineIsa
import SimulatorRISCV.PipelineExitWord

/-! # What main prints of an RV32I program

A program that ends with an environment call ends main, which has then printed what the RV32I
machine did; the call itself may still store a byte. -/
namespace PipelineIsaOutput

open PipelineDecoder PipelineDatapath PipelineSimulator PipelineIssue PipelineForwarding
open PipelineArchitecture PipelineSequential PipelineSemantics PipelineDataMemory
open PipelineHarness PipelineOutput PipelineInstruction PipelineIsa
open Rv32i (Insn Instr StoreOp encode)

variable {ρ : Run} {L : Layout ρ} {mode : TraceMode} {i n : ℕ}

def isaWritten (L : Layout ρ) (i : ℕ) : Option (RegNum × Word) :=
  ((isaInsn L i).bind Insn.rd).bind fun rd =>
    if rd = 0#5 then none else some (rd, (isa L (i + 1)).read rd)

def isaRegisters (L : Layout ρ) (i : ℕ) : RegBank := fun r =>
  if r = 0#5 then ρ.start.registers 0#5 else (isa L i).read r

/-- What decode holds when the `i`-th instruction is in WB: a word fetched later, or the zero
of a flush. -/
def isaBehind (L : Layout ρ) (i : ℕ) : Word :=
  if isaTaken L i then isaWord L (i + 1)
  else if isaStalls L i then fetch ρ.imem ((isa L i).pc + 8#32)
  else if isaTaken L (i + 1) then 0#32
  else if isaStalls L (i + 1) then fetch ρ.imem ((isa L i).pc + 8#32)
  else fetch ρ.imem ((isa L i).pc + 12#32)

/-- What main prints for an instruction. Only the word that --trace gives as the opcode is not
of the instruction itself. -/
def isaRecord (L : Layout ρ) (mode : TraceMode) (behind : Word) (i : ℕ) : List Line :=
  match mode with
  | .off => []
  | .trace =>
    [.trace behind (isa L i).pc (rdId (isaWord L i)) (rs1Id (isaWord L i))
      (rs2Id (isaWord L i)) (calcImmediate (isaWord L i)) (isaRegisters L (i + 1))]
  | .traceInstr =>
    [.traceInstr (BitVec.ofNat 32 (isaClock L i + 2)) (BitVec.ofNat 32 i) (isa L i).pc
      (isaWritten L i)]

def isaTrace (L : Layout ρ) (mode : TraceMode) (behind : ℕ → Word) (n : ℕ) : List Line :=
  (List.range (n + 1)).flatMap fun i => isaRecord L mode (behind i) i

/-- The records of `n` instructions and of the call that ends the program. Which words the
last two show as their opcodes is left open. -/
def IsaTrace (L : Layout ρ) (mode : TraceMode) (n : ℕ) (lines : List Line) : Prop :=
  ∃ behind : ℕ → Word, (∀ i, i + 1 < n → behind i = isaBehind L i) ∧
    lines = isaTrace L mode behind n

structure Ends (L : Layout ρ) (n : ℕ) : Prop where
  regular : RegularRun L n
  code : isaWord L n = imageWord L n
  call : isaInsn L n = some .ecall ∨ isaInsn L n = some .ebreak

def behindStore (L : Layout ρ) : ℕ → Bool
  | 0 => false
  | i + 1 => opcode (isaWord L i) = .store

/-- What an environment call leaves. Its word assigns no control signal, so behind a store it
stores as well: a byte of x0 or, for EBREAK, of x1, into the first byte of the data memory. -/
def isaEnd (L : Layout ρ) (n : ℕ) : Rv32i.Machine :=
  if behindStore L n then
    { isa L n with
      mem := StoreOp.sb.store (isa L n).mem (cell L.page 0)
        ((isa L n).read (rs2Id (isaWord L n))) }
  else isa L n

theorem destination_encode (x : XValues) (held : ControlSignals) {j : Insn} {w : Word}
    (hw : j.encode = w) (ho : opcode w ≠ .other) :
    (decodeControl x w held).regWrite = j.rd.isSome ∧ ∀ rd ∈ j.rd, rdId w = rd := by
  subst hw
  cases j with
  | base i => exact ⟨control_regWrite x held i, (registers_encode i).1⟩
  | jalr rd rs1 offset =>
    have hreg := decodeControl_regWrite x held ho
    rw [opcode_jalr] at hreg
    refine ⟨hreg, ?_⟩
    rintro r ⟨⟩
    exact rdId_iFormat ..
  | fence rd rs1 order => exact absurd (opcode_fence rd rs1 order) ho
  | ecall | ebreak => exact absurd rfl ho

theorem written_eq (h : RegularRun L n) (hi : i < n) : seqWritten ρ i = isaWritten L i := by
  have ha := h.arrives hi
  have hx := h.executes hi
  obtain ⟨j, hinsn, _⟩ := (h i hi).1.insn
  obtain ⟨hreg, hrd⟩ := destination_encode ρ.x (sequential ρ i).held
    (encode_of_isaInsn hinsn) hx.goes_on
  rw [seqWritten, isaWritten, hinsn, h.word hi, ha.control, hreg]
  cases hd : j.rd with
  | none =>
    rw [Option.bind_some, hd]
    rfl
  | some rd =>
    rw [Option.bind_some, hd, Option.bind_some, Option.isSome_some, Bool.true_and,
      hrd rd hd]
    by_cases hz : rd = 0#5
    · rw [if_pos hz, if_neg (by simp [hz])]
    · rw [if_neg hz, if_pos (bne_iff_ne.mpr hz), ← hx.result.read rd,
        registerRead_of_ne _ hz]

theorem numbered_range (f : ℕ → ℕ → List Line) (k : ℕ) :
    numbered ((List.range k).map f) = (List.range k).flatMap fun i => f i i := by
  induction k with
  | zero => rfl
  | succ k ih =>
    rw [List.range_succ, List.map_append, List.map_singleton, numbered_snoc, ih,
      List.length_map, List.length_range, List.flatMap_append, List.flatMap_singleton]

structure ExitCall (L : Layout ρ) (n : ℕ) : Prop where
  exit : opcode (seqWord ρ n) = .other
  rd : rdId (seqWord ρ n) = 0#5
  rs1 : rs1Id (seqWord ρ n) = 0#5
  width : memWidth (seqWord ρ n) = StoreOp.sb.funct3
  written : isaWritten L n = none

theorem Ends.arrives (h : Ends L n) (hi : i ≤ n) : Arrives L i := by
  rcases hi.lt_or_eq with hlt | rfl
  · exact h.regular.arrives hlt
  · exact ⟨agrees_of_regular h.regular, h.code⟩

theorem Ends.word (h : Ends L n) (hi : i ≤ n) : seqWord ρ i = isaWord L i := (h.arrives hi).word

theorem Ends.exitCall (h : Ends L n) : ExitCall L n := by
  have hw := h.word le_rfl
  rcases h.call with hc | hc
  · have hword : seqWord ρ n = 0x00000073#32 := hw.trans (encode_of_isaInsn hc).symm
    constructor
    case written =>
      rw [isaWritten, hc]
      rfl
    all_goals
      rw [hword]
      rfl
  · have hword : seqWord ρ n = 0x00100073#32 := hw.trans (encode_of_isaInsn hc).symm
    constructor
    case written =>
      rw [isaWritten, hc]
      rfl
    all_goals
      rw [hword]
      rfl

theorem Ends.firstExit (h : Ends L n) : FirstExit ρ n :=
  ⟨h.exitCall.exit, fun _ hj => h.regular.goes_on hj⟩

structure StoreHeld (c : ControlSignals) : Prop where
  memWrite : c.memWrite = true
  aluSrc1 : c.aluSrc1 = false
  aluSrc2 : c.aluSrc2 = 0b01#2
  aluOp : c.aluOp = aluAdd

theorem storeHeld_decode (x : XValues) {w : Word} (hw : opcode w = .store)
    (held : ControlSignals) : StoreHeld (decodeControl x w held) := by
  unfold decodeControl
  rw [hw]
  exact ⟨rfl, rfl, rfl, rfl⟩

theorem held_succ (m : Machine) (x : XValues) (imem : MemArray)
    (h : m.taken x imem = false) : (m.step x imem).held = m.control x imem := by
  rw [Machine.step, h, if_neg Bool.false_ne_true]
  split_ifs <;> rfl

/-- Only behind a store do the latches write memory. -/
theorem held_cases (h : RegularRun L n) :
    (behindStore L n = false ∧ (sequential ρ n).held.memWrite = false) ∨
      (behindStore L n = true ∧ StoreHeld (sequential ρ n).held) := by
  cases n with
  | zero => exact Or.inl ⟨rfl, (zero_quiet ρ.x opcode_zero _).2.1⟩
  | succ i =>
    have hi := Nat.lt_succ_self i
    have ha := h.arrives hi
    have hx := h.executes hi
    by_cases hw : opcode (isaWord L i) = .store
    · right
      refine ⟨decide_eq_true hw, ?_⟩
      have hstore := storeHeld_decode ρ.x hw (sequential ρ i).held
      have hnot : (sequential ρ i).taken ρ.x ρ.imem = false := by
        rw [ha.taken_eq]
        apply redirects_quiet
        all_goals simp only [decodeControl, controlUnit, hw]
      rw [sequential, held_succ _ _ _ hnot, ha.control]
      exact hstore
    · left
      refine ⟨decide_eq_false hw, ?_⟩
      have hquiet : ((sequential ρ i).control ρ.x ρ.imem).memWrite = false := by
        rw [ha.control, decodeControl_memWrite ρ.x _ hx.goes_on]
        exact decide_eq_false hw
      rw [sequential, Machine.step]
      split_ifs
      · exact (zero_quiet ρ.x opcode_zero _).2.1
      · exact hquiet
      · exact hquiet

theorem Ends.result (h : Ends L n) : (sequential ρ n).result ρ.x ρ.imem =
    ⟨(sequential ρ n).arch.registers, memoryDataWrite (sequential ρ n).arch.dmem
      (aluValue (sequential ρ n).held (sequential ρ n).pc (seqWord ρ n)
        (sequential ρ n).arch >>> 2) StoreOp.sb.funct3 (sequential ρ n).held.memWrite
      (registerRead (sequential ρ n).arch.registers (rs2Id (seqWord ρ n)))⟩ := by
  have hx := h.exitCall
  have hw : (sequential ρ n).word ρ.imem = seqWord ρ n := rfl
  rw [Machine.result, Machine.control, hw, PipelineExitWord.decodeControl_other ρ.x hx.exit,
    execute, hx.rd, hx.width, registerWrite]
  simp only [bne_self_eq_false, Bool.and_false, Bool.false_eq_true, ↓reduceIte]
  rfl

theorem Ends.address (h : Ends L n) (hs : StoreHeld (sequential ρ n).held) (pc : Word)
    (a : Arch) : aluValue (sequential ρ n).held pc (seqWord ρ n) a = 0#32 := by
  have hx := h.exitCall
  have himm : calcImmediate (seqWord ρ n) = 0#32 := by
    rw [calcImmediate, hx.exit]
    rfl
  rw [aluValue, operand1, operand2, hs.aluSrc1, hs.aluSrc2, hs.aluOp, hx.rs1, himm]
  rfl

theorem Ends.contents (h : Ends L n) :
    Shows L.page (isaEnd L n) ((sequential ρ n).result ρ.x ρ.imem) := by
  have hs := (agrees_of_regular h.regular).arch
  rw [h.result, isaEnd]
  rcases held_cases h.regular with ⟨hb, hheld⟩ | ⟨hb, hheld⟩
  · rw [hb, if_neg Bool.false_ne_true, hheld]
    exact hs
  · rw [hb, if_pos rfl, h.address hheld, hheld.memWrite]
    have hread : ∀ mem r, { isa L n with mem := mem }.read r = (isa L n).read r := fun _ _ => rfl
    refine ⟨fun r => (hs.read r).trans (hread _ r).symm, fun k hk => ?_⟩
    rw [← h.word le_rfl, ← hs.read]
    exact stored_zero hs _ hk

theorem Ends.stays (h : Ends L n) : isa L (n + 1) = isa L n := by
  rcases h.call with hc | hc
  · exact Rv32i.after_end hc rfl
  · exact Rv32i.after_end hc rfl

theorem Ends.read (h : Ends L n) (hi : i ≤ n) (r : RegNum) :
    registerRead ((sequential ρ i).result ρ.x ρ.imem).registers r = (isa L (i + 1)).read r := by
  rcases hi.lt_or_eq with hlt | rfl
  · exact (h.regular.executes hlt).result.read r
  · rw [h.stays, h.result]
    exact (agrees_of_regular h.regular).arch.read r

theorem Ends.registers (h : Ends L n) (hi : i ≤ n) :
    ((sequential ρ i).result ρ.x ρ.imem).registers = isaRegisters L (i + 1) := by
  funext r
  unfold isaRegisters
  split_ifs with hr
  · rw [hr, result_zero_cell, zero_cell]
  · rw [← h.read hi r, registerRead_of_ne _ hr]

theorem Ends.written (h : Ends L n) (hi : i ≤ n) : seqWritten ρ i = isaWritten L i := by
  rcases hi.lt_or_eq with hlt | rfl
  · exact written_eq h.regular hlt
  · rw [h.exitCall.written, seqWritten, h.exitCall.rd]
    simp

theorem behind_eq (h : RegularRun L n) (hi : i + 1 < n) : seqBehind ρ i = isaBehind L i := by
  have hlt := Nat.lt_of_succ_lt hi
  have ha := h.arrives hlt
  have hnext := h.arrives hi
  unfold seqBehind isaBehind
  rw [(h.executes hlt).taken, (h.executes hi).taken, ha.stalls_eq (h.executes hlt).goes_on,
    hnext.stalls_eq (h.executes hi).goes_on, h.word hi, ha.pc]

theorem Ends.record (h : Ends L n) (mode : TraceMode) (hi : i ≤ n) :
    seqRecord ρ mode i i = isaRecord L mode (seqBehind ρ i) i := by
  have ha := h.arrives hi
  cases mode with
  | off => rfl
  | trace => rw [seqRecord, isaRecord, ha.pc, h.word hi, h.registers hi]
  | traceInstr => rw [seqRecord, isaRecord, ha.clock, ha.pc, h.written hi]

theorem Ends.trace (h : Ends L n) (mode : TraceMode) :
    IsaTrace L mode n (numbered (seqRecords ρ mode (n + 1))) := by
  have hnone : ∀ i ∈ List.range (n + 1), (if opcode (seqWord ρ i) = .zero then none
      else some (seqRecord ρ mode i)) = some (seqRecord ρ mode i) := by
    intro i hi
    apply if_neg
    rcases Nat.lt_succ_iff_lt_or_eq.mp (List.mem_range.mp hi) with hlt | rfl
    · exact h.regular.valid hlt
    · rw [h.exitCall.exit]
      decide
  have hrecord : ∀ i ∈ List.range (n + 1), seqRecord ρ mode i i =
      isaRecord L mode (seqBehind ρ i) i :=
    fun i hi => h.record mode (Nat.lt_succ_iff.mp (List.mem_range.mp hi))
  refine ⟨seqBehind ρ, fun i hi => behind_eq h.regular hi, ?_⟩
  rw [seqRecords, List.filterMap_congr hnone, List.filterMap_eq_map', numbered_range,
    List.flatMap_congr hrecord, isaTrace]

theorem firstExit_unique {e e' : ℕ} (h : FirstExit ρ e) (h' : FirstExit ρ e') : e = e' := by
  rcases lt_trichotomy e e' with hlt | heq | hgt
  · exact absurd h.exit (h'.before e hlt)
  · exact heq
  · exact absurd h'.exit (h.before e' hgt)

structure EndsWith (L : Layout ρ) (mode : TraceMode) (n : ℕ) (m : Rv32i.Machine)
    (h : Harness) : Prop where
  contents : Shows L.page m (contents h.top)
  out : ∃ lines, IsaTrace L mode n lines ∧ h.out = lines ++ [.success]

theorem Ends.stopped_iff (h : Ends L n) (mode : TraceMode) (t : ℕ) :
    (clockLoop ρ mode t).stopped = true ↔ 16 * (isaClock L n + 2) + 8 ≤ t := by
  have hdue : sampleIteration ρ n = 16 * (isaClock L n + 2) + 8 := by
    rw [sampleIteration, (agrees_of_regular h.regular).clock]
  rw [PipelineOutput.stopped_iff, ← hdue]
  constructor
  · rintro ⟨e, he, ht⟩
    rwa [firstExit_unique he h.firstExit] at ht
  · exact fun ht => ⟨n, h.firstExit, ht⟩

theorem Ends.endsWith (h : Ends L n) {mode : TraceMode} {t : ℕ}
    (hs : (clockLoop ρ mode t).stopped = true) :
    EndsWith L mode n (isaEnd L n) (clockLoop ρ mode t) := by
  rcases loop_cases ρ mode t with ⟨m, hr⟩ | ⟨e, he⟩
  · rw [hr.running] at hs
    cases hs
  · obtain rfl := firstExit_unique he.first h.firstExit
    refine ⟨?_, ?_⟩
    · rw [he.contents]
      exact h.contents
    · exact ⟨_, h.trace mode, he.out⟩

/-- A program that reaches an environment call on the RV32I machine ends main in the
iteration that samples the call, with the registers and the memory of that machine and with
the byte that a call behind a store has stored; in each mode the trace is that of its
instructions. -/
theorem main_runs_rv32i (ρ : Run) (L : Layout ρ) (mode : TraceMode) (n t : ℕ) (h : Ends L n) :
    ((clockLoop ρ mode t).stopped = true ↔ 16 * (isaClock L n + 2) + 8 ≤ t) ∧
    ((clockLoop ρ mode t).stopped = true →
      EndsWith L mode n (isaEnd L n) (clockLoop ρ mode t)) :=
  ⟨h.stopped_iff mode t, h.endsWith⟩

/-- LUI x1, 0xFFF80; ADDI x2, x0, 16; SW of x2 through x1 into the first word of the data
memory; ECALL. -/
def storeCall : Run :=
  bootProgram [0xFFF800B7#32, 0x01000113#32, 0x0020A023#32, 0x00000073#32]

def storeCallLayout : Layout storeCall := .ofPages stackPages storeCall

theorem storeCall_ends : Ends storeCallLayout 3 :=
  ⟨by decide +kernel, by decide +kernel, by decide +kernel⟩

/-- The call clears the byte that the store has left. -/
theorem storeCall_main : (clockLoop storeCall .traceInstr 120).stopped = true ∧
    (isa storeCallLayout 3).mem 0xFFF80000#32 = 16#8 ∧
    bytesOf (contents (clockLoop storeCall .traceInstr 120).top).dmem 0 = 0#8 := by
  have h := main_runs_rv32i storeCall storeCallLayout .traceInstr 3 120 storeCall_ends
  have hs := h.1.mpr (by decide +kernel)
  refine ⟨hs, by decide +kernel, ?_⟩
  rw [(h.2 hs).contents.mem 0 (by decide)]
  decide +kernel

end PipelineIsaOutput
