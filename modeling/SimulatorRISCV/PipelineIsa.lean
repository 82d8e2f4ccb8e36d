import SimulatorRISCV.PipelineOutput
import SimulatorRISCV.PipelineInstruction

/-! # Whole programs against RV32I

A program whose accesses are at multiples of four and never at two addresses that share a word
of MemoryData, whose jumps find an operation that links, whose JALRs see their register and
that has no FENCE runs as on a machine that executes RV32I from one memory. -/
namespace PipelineIsa

open PipelineDecoder PipelineDatapath PipelineSimulator PipelineIssue PipelineRetirement
open PipelineForwarding PipelineArchitecture PipelineSequential PipelineSemantics
open PipelineDataMemory PipelineLinks PipelineHarness PipelineOutput PipelineInstruction
open Rv32i (Insn Instr encode)

/-- The memory of an RV32I machine for a run, in which certain bytes are those of the data
memory. The instructions may stand anywhere else. -/
structure Layout (ρ : Run) where
  page : Pages
  mem : Word → Byte
  holds : ∀ k < 2 ^ 19, mem (cell page k) = bytesOf ρ.start.dmem k

/-- What is no byte of the data memory shows the instruction memory. -/
def Layout.ofPages (page : Pages) (ρ : Run) : Layout ρ where
  page := page
  mem addr := if cell page (addr.toNat % 2 ^ 19) = addr then
    bytesOf ρ.start.dmem (addr.toNat % 2 ^ 19) else bytesOf ρ.imem (addr.toNat % 2 ^ 19)
  holds k hk := by rw [cell_mod page hk, if_pos rfl]

variable {ρ : Run} {L : Layout ρ} {i : ℕ}

def boot (L : Layout ρ) : Rv32i.Machine := ⟨ρ.start.entry, ρ.start.registers, L.mem⟩

def isa (L : Layout ρ) (i : ℕ) : Rv32i.Machine := (boot L).after i

def isaWord (L : Layout ρ) (i : ℕ) : Word := (isa L i).fetch
def isaInsn (L : Layout ρ) (i : ℕ) : Option Insn := (isa L i).insn

def imageWord (L : Layout ρ) (i : ℕ) : Word := fetch ρ.imem (isa L i).pc
def isaShadow (L : Layout ρ) (i : ℕ) : Word := fetch ρ.imem ((isa L i).pc + 4#32)

theorem encode_of_isaInsn {n : Insn} (h : isaInsn L i = some n) : n.encode = isaWord L i :=
  Rv32i.encode_of_insn h

def isaTaken (L : Layout ρ) (i : ℕ) : Bool := (isaInsn L i).any (Insn.redirects (isa L i))

def isaStalls (L : Layout ρ) (i : ℕ) : Bool :=
  loadStall (opcode (isaWord L i) = .load) (rs1Id (isaShadow L i)) (rs2Id (isaShadow L i))
    (rdId (isaWord L i))

/-- The clock in which the `i`-th instruction is in execute. -/
def isaClock (L : Layout ρ) : ℕ → ℕ
  | 0 => 2
  | i + 1 => isaClock L i + if isaTaken L i then 3 else if isaStalls L i then 2 else 1

def decodedAt (L : Layout ρ) (i : ℕ) : List Word :=
  if isaTaken L i then [isaWord L i, isaShadow L i] else [isaWord L i]

def isaOp (L : Layout ρ) (i : ℕ) : BitVec 4 :=
  latchedAluOp ρ.start.latches.aluOp ((List.range i).flatMap (decodedAt L))

/-- The instruction before which the registers were as a clock before the `i`-th one. -/
def recentAt (L : Layout ρ) : ℕ → ℕ
  | 0 => 0
  | i + 1 => if isaTaken L i then i + 1 else if isaStalls L i then i + 1 else i

def capturedAt (L : Layout ρ) : ℕ → ℕ
  | 0 => 0
  | i + 1 => if isaTaken L i then i + 1 else if isaStalls L i then i else recentAt L i

/-- The machine neither ends nor traps at an instruction, which it has not overwritten, and
MemoryData can serve its access. -/
structure Served (L : Layout ρ) (i : ℕ) : Prop where
  step : (isa L i).step.isSome = true
  code : isaWord L i = imageWord L i
  access : ∀ n ∈ isaInsn L i, ∀ addr ∈ n.address (isa L i), Accessible L.page addr

/-- A jump finds an operation that gives its link, a JALR its target with the register as
decode has read it, and ControlUnit has no case for a FENCE. -/
structure Handled (L : Layout ρ) (i : ℕ) : Prop where
  link : ∀ n ∈ isaInsn L i, ∀ rd ∈ n.link, rd ≠ 0#5 → AddsFour (isaOp L i) (isa L i).pc
  target : ∀ n ∈ isaInsn L i, ∀ t ∈ n.indirect,
    (isa L (capturedAt L i)).read t.1 + t.2.signExtend 32 =
      ((isa L i).read t.1 + t.2.signExtend 32) &&& ~~~1#32
  known : ∀ n ∈ isaInsn L i, n.isFence = false

-- What an option holds is tried, not all bit vectors.
instance (L : Layout ρ) (i : ℕ) : Decidable (Served L i) :=
  letI (n : Insn) : Decidable (∀ addr ∈ n.address (isa L i), Accessible L.page addr) :=
    Option.decidableForallMem _
  decidable_of_iff (_ ∧ _ ∧ _)
    ⟨fun h => ⟨h.1, h.2.1, h.2.2⟩, fun h => ⟨h.step, h.code, h.access⟩⟩

instance (L : Layout ρ) (i : ℕ) : Decidable (Handled L i) :=
  letI (n : Insn) :
      Decidable (∀ rd ∈ n.link, rd ≠ 0#5 → AddsFour (isaOp L i) (isa L i).pc) :=
    Option.decidableForallMem _
  letI (n : Insn) : Decidable (∀ t ∈ n.indirect,
      (isa L (capturedAt L i)).read t.1 + t.2.signExtend 32 =
        ((isa L i).read t.1 + t.2.signExtend 32) &&& ~~~1#32) :=
    Option.decidableForallMem _
  decidable_of_iff (_ ∧ _ ∧ _)
    ⟨fun h => ⟨h.1, h.2.1, h.2.2⟩, fun h => ⟨h.link, h.target, h.known⟩⟩

def RegularRun (L : Layout ρ) (n : ℕ) : Prop := ∀ i < n, Served L i ∧ Handled L i

instance (L : Layout ρ) (n : ℕ) : Decidable (RegularRun L n) :=
  inferInstanceAs (Decidable (∀ i < n, _))

theorem Served.insn (h : Served L i) :
    ∃ n, isaInsn L i = some n ∧ n.exec (isa L i) = some (isa L (i + 1)) :=
  Rv32i.after_succ h.step

structure Agrees (L : Layout ρ) (i : ℕ) : Prop where
  pc : (sequential ρ i).pc = (isa L i).pc
  arch : Shows L.page (isa L i) (sequential ρ i).arch
  op : (sequential ρ i).held.aluOp = isaOp L i
  recent : ∀ r, registerRead (sequential ρ i).recent r = (isa L (recentAt L i)).read r
  captured : ∀ r, registerRead (sequential ρ i).captured r = (isa L (capturedAt L i)).read r
  clock : (sequential ρ i).clock = isaClock L i

/-- The next word is the instruction. -/
structure Arrives (L : Layout ρ) (i : ℕ) : Prop extends Agrees L i where
  code : isaWord L i = imageWord L i

theorem Arrives.word (h : Arrives L i) : (sequential ρ i).word ρ.imem = isaWord L i :=
  (congrArg (fetch ρ.imem) h.pc).trans h.code.symm

theorem Agrees.shadow (h : Agrees L i) : (sequential ρ i).shadow ρ.imem = isaShadow L i :=
  congrArg (fun pc => fetch ρ.imem (pc + 4#32)) h.pc

theorem agrees_zero (L : Layout ρ) : Agrees L 0 :=
  ⟨rfl, ⟨fun _ => rfl, fun k hk => (L.holds k hk).symm⟩, rfl, fun _ => rfl, fun _ => rfl, rfl⟩

theorem isJump_of_link {m : Insn} {rd : Rv32i.Reg} (hm : isaInsn L i = some m)
    (hl : m.link = some rd) : IsJump (isaWord L i) := by
  have hw : m.encode = isaWord L i := encode_of_isaInsn hm
  rw [← hw]
  cases m with
  | base m =>
    cases m with
    | jal rd offset => exact isJump_jal rd offset
    | op | opImm | shiftImm | lui | auipc | branch | load | store => cases hl
  | jalr rd rs1 offset => exact Or.inr (opcode_jalr rd rs1 offset)
  | fence | ecall | ebreak => cases hl

structure Executes (L : Layout ρ) (i : ℕ) : Prop where
  goes_on : opcode (isaWord L i) ≠ .other
  taken : (sequential ρ i).taken ρ.x ρ.imem = isaTaken L i
  next : (isa L (i + 1)).pc =
    if isaTaken L i then (sequential ρ i).target ρ.x ρ.imem else (isa L i).pc + 4#32
  result : Shows L.page (isa L (i + 1)) ((sequential ρ i).result ρ.x ρ.imem)

theorem Arrives.control (h : Arrives L i) : (sequential ρ i).control ρ.x ρ.imem =
    decodeControl ρ.x (isaWord L i) (sequential ρ i).held := by
  rw [← h.word]
  rfl

theorem Arrives.result_eq (h : Arrives L i) : (sequential ρ i).result ρ.x ρ.imem =
    execute (decodeControl ρ.x (isaWord L i) (sequential ρ i).held) (isa L i).pc (isaWord L i)
      (sequential ρ i).arch := by
  rw [Machine.result, h.control, h.word, h.pc]

theorem Arrives.taken_eq (h : Arrives L i) : (sequential ρ i).taken ρ.x ρ.imem =
    redirects (decodeControl ρ.x (isaWord L i) (sequential ρ i).held) (isa L i).pc (isaWord L i)
      (sequential ρ i).arch := by
  rw [Machine.taken, h.control, h.word, h.pc]

theorem Arrives.target_eq (h : Arrives L i) : (sequential ρ i).target ρ.x ρ.imem =
    if (decodeControl ρ.x (isaWord L i) (sequential ρ i).held).typeInstruction = 0b01#2 then
      (isa L i).pc + calcImmediate (isaWord L i)
    else calcImmediate (isaWord L i) +
      (isa L (capturedAt L i)).read (rs1Id (isaWord L i)) := by
  rw [Machine.target, h.control, h.word, h.pc, h.captured]

theorem link_added (h : Arrives L i) (hj : Handled L i) {n : Insn}
    (hn : isaInsn L i = some n) {rd : Rv32i.Reg} (hl : n.link = some rd) (hz : rd ≠ 0#5) :
    alu (isa L i).pc 4#32 (sequential ρ i).held.aluOp 0#32 = (isa L i).pc + 4#32 := by
  rw [h.op]
  exact (adds_four_iff _ _).mpr (hj.link n hn rd hl hz)

theorem executes_base (h : Arrives L i) (hs : Served L i) (hj : Handled L i)
    {n : Instr} (hn : isaInsn L i = some (.base n)) (hnext : isa L (i + 1) = n.exec (isa L i)) :
    Executes L i := by
  have hw : encode n = isaWord L i := encode_of_isaInsn hn
  have ht : isaTaken L i = n.redirects (n.operand1 (isa L i)) (n.operand2 (isa L i)) := by
    rw [isaTaken, hn]
    rfl
  constructor
  case goes_on =>
    rw [← hw]
    exact kind_ne_other n
  case taken =>
    rw [h.taken_eq, ht, ← hw]
    exact redirects_encode ρ.x _ h.arch
  case next =>
    rw [hnext, ht]
    change (if _ then _ else _) = _
    cases hred : n.redirects (n.operand1 (isa L i)) (n.operand2 (isa L i)) with
    | false => rfl
    | true =>
      rw [if_pos rfl, if_pos rfl, h.target_eq, ← hw, target_encode ρ.x _ h.arch hred]
  case result =>
    rw [hnext, h.result_eq, ← hw]
    apply execute_shows ρ.x _ h.arch (hs.access _ hn)
    intro rd hrd hk hz
    refine link_added h hj hn ?_ hz
    cases n with
    | jal => exact hrd
    | op | opImm | shiftImm | lui | auipc | branch | load | store => cases hk

theorem redirect_jalr (h : Arrives L i) {rd rs1 : Rv32i.Reg} {offset : BitVec 12}
    (hn : isaInsn L i = some (.jalr rd rs1 offset)) :
    (sequential ρ i).taken ρ.x ρ.imem = true ∧ (sequential ρ i).target ρ.x ρ.imem =
      (isa L (capturedAt L i)).read rs1 + offset.signExtend 32 := by
  have hw : (Insn.jalr rd rs1 offset).encode = isaWord L i := encode_of_isaInsn hn
  have ho : opcode (isaWord L i) = .jalr := by rw [← hw, opcode_jalr]
  have hrs1 : rs1Id (isaWord L i) = rs1 := by
    rw [← hw]
    exact rs1Id_iFormat ..
  have himm : calcImmediate (isaWord L i) = offset.signExtend 32 := by
    rw [← hw, calcImmediate_jalr]
  have htype : ¬(decodeControl ρ.x (isaWord L i) (sequential ρ i).held).typeInstruction =
      0b01#2 := by
    simp only [decodeControl, controlUnit, ho]
    decide
  constructor
  · rw [h.taken_eq]
    simp only [redirects, branchIsTaken, decodeControl, controlUnit, ho, Bool.true_or]
  · rw [h.target_eq, if_neg htype, hrs1, himm, BitVec.add_comm]

theorem executes_jalr (h : Arrives L i) (hj : Handled L i) {rd rs1 : Rv32i.Reg}
    {offset : BitVec 12} (hn : isaInsn L i = some (.jalr rd rs1 offset))
    (hnext : isa L (i + 1) = (isa L i).jalr rd rs1 offset) : Executes L i := by
  have hw : (Insn.jalr rd rs1 offset).encode = isaWord L i := encode_of_isaInsn hn
  have ht : isaTaken L i = true := by
    rw [isaTaken, hn]
    rfl
  obtain ⟨htaken, htarget⟩ := redirect_jalr h hn
  constructor
  case goes_on =>
    rw [← hw, opcode_jalr]
    decide
  case taken => rw [htaken, ht]
  case next =>
    rw [hnext, ht, if_pos rfl, htarget]
    exact (hj.target _ hn _ rfl).symm
  case result =>
    rw [hnext, h.result_eq, ← hw]
    exact jalr_shows ρ.x _ rd rs1 offset h.arch (link_added h hj hn rfl)

theorem executes (h : Arrives L i) (hs : Served L i) (hj : Handled L i) : Executes L i := by
  obtain ⟨n, hn, hexec⟩ := hs.insn
  cases n with
  | base n => exact executes_base h hs hj hn (Option.some.inj hexec).symm
  | jalr rd rs1 offset => exact executes_jalr h hj hn (Option.some.inj hexec).symm
  | fence => cases hj.known _ hn
  | ecall | ebreak => cases hexec

theorem Arrives.stalls_eq (h : Arrives L i) (he : opcode (isaWord L i) ≠ .other) :
    (sequential ρ i).stalls ρ.x ρ.imem = isaStalls L i := by
  rw [Machine.stalls, h.control, h.word, h.shadow, decodeControl_memToReg ρ.x _ he]
  rfl

theorem isaOp_succ (L : Layout ρ) (i : ℕ) : isaOp L (i + 1) =
    if isaTaken L i then
      (assignedAluOp (isaShadow L i)).getD ((assignedAluOp (isaWord L i)).getD (isaOp L i))
    else (assignedAluOp (isaWord L i)).getD (isaOp L i) := by
  rw [isaOp, List.range_succ, List.flatMap_append, List.flatMap_singleton, decodedAt]
  split_ifs
  · rw [← List.singleton_append (x := isaWord L i), ← List.append_assoc, latchedAluOp_snoc,
      latchedAluOp_snoc, isaOp]
  · rw [latchedAluOp_snoc, isaOp]

theorem Arrives.control_op (h : Arrives L i) : ((sequential ρ i).control ρ.x ρ.imem).aluOp =
    (assignedAluOp (isaWord L i)).getD (isaOp L i) := by
  rw [h.control, decodeControl_aluOp, h.op]

theorem agrees_succ (h : Arrives L i) (he : Executes L i) : Agrees L (i + 1) := by
  have hstep : sequential ρ (i + 1) = (sequential ρ i).step ρ.x ρ.imem := rfl
  have hnext := he.next
  have hop := isaOp_succ L i
  have hresult := he.result.read
  rw [Machine.step, he.taken, h.stalls_eq he.goes_on] at hstep
  cases ht : isaTaken L i with
  | true =>
    rw [ht, if_pos rfl] at hstep hnext hop
    constructor
    case pc => rw [hstep, hnext]
    case arch =>
      rw [hstep]
      exact he.result
    case op =>
      rw [hstep, hop, ← h.control_op, ← h.shadow]
      exact (decodeControl_aluOp ρ.x 0#32 _).trans (decodeControl_aluOp ρ.x _ _)
    case recent =>
      rw [hstep, recentAt, ht]
      exact hresult
    case captured =>
      rw [hstep, capturedAt, ht]
      exact hresult
    case clock =>
      rw [hstep, isaClock, ht, ← h.clock]
      rfl
  | false =>
    rw [ht, if_neg Bool.false_ne_true] at hstep hnext hop
    cases hs : isaStalls L i with
    | true =>
      rw [hs, if_pos rfl] at hstep
      constructor
      case pc => rw [hstep, hnext, h.pc]
      case arch =>
        rw [hstep]
        exact he.result
      case op =>
        rw [hstep, hop]
        exact h.control_op
      case recent =>
        rw [hstep, recentAt, ht, hs]
        exact hresult
      case captured =>
        rw [hstep, capturedAt, ht, hs]
        exact h.arch.read
      case clock =>
        rw [hstep, isaClock, ht, hs, ← h.clock]
        rfl
    | false =>
      rw [hs, if_neg Bool.false_ne_true] at hstep
      constructor
      case pc => rw [hstep, hnext, h.pc]
      case arch =>
        rw [hstep]
        exact he.result
      case op =>
        rw [hstep, hop]
        exact h.control_op
      case recent =>
        rw [hstep, recentAt, ht, hs]
        exact h.arch.read
      case captured =>
        rw [hstep, capturedAt, ht, hs]
        exact h.recent
      case clock =>
        rw [hstep, isaClock, ht, hs, ← h.clock]
        rfl

theorem agrees_of_regular {n : ℕ} (h : RegularRun L n) : Agrees L n := by
  induction n with
  | zero => exact agrees_zero L
  | succ n ih =>
    have ha := ih fun i hi => h i (hi.trans (Nat.lt_succ_self n))
    obtain ⟨hs, hj⟩ := h n (Nat.lt_succ_self n)
    exact agrees_succ ⟨ha, hs.code⟩ (executes ⟨ha, hs.code⟩ hs hj)

theorem valid_of_encode {n : Insn} {w : Word} (h : n.encode = w) : opcode w ≠ .zero := by
  rw [← h]
  cases n with
  | base i =>
    rw [Insn.encode, opcode_encode]
    intro hz
    cases i <;> cases hz
  | jalr rd rs1 offset =>
    rw [opcode_jalr]
    decide
  | fence rd rs1 order =>
    rw [opcode_fence]
    decide
  | ecall | ebreak => decide

section Regular

variable {n : ℕ} (h : RegularRun L n)
include h

theorem RegularRun.mono {k : ℕ} (hk : k ≤ n) : RegularRun L k :=
  fun i hi => h i (lt_of_lt_of_le hi hk)

theorem RegularRun.arrives (hi : i < n) : Arrives L i :=
  ⟨agrees_of_regular (h.mono hi.le), (h i hi).1.code⟩

theorem RegularRun.executes (hi : i < n) : Executes L i :=
  PipelineIsa.executes (h.arrives hi) (h i hi).1 (h i hi).2

theorem RegularRun.word (hi : i < n) : seqWord ρ i = isaWord L i := (h.arrives hi).word

theorem RegularRun.goes_on (hi : i < n) : opcode (seqWord ρ i) ≠ .other := by
  rw [h.word hi]
  exact (h.executes hi).goes_on

theorem RegularRun.valid (hi : i < n) : opcode (seqWord ρ i) ≠ .zero := by
  obtain ⟨m, hm, _⟩ := (h i hi).1.insn
  rw [h.word hi]
  exact valid_of_encode (encode_of_isaInsn hm)

theorem RegularRun.live (hi : i ≤ n) : Live ρ (isaClock L i + 2) := by
  have hgo : ∀ j < i, opcode (seqWord ρ j) ≠ .other := fun j hj =>
    h.goes_on (lt_of_lt_of_le hj hi)
  rw [← (agrees_of_regular (h.mono hi)).clock, ← (follows_until_exit hgo).clock]
  exact live_until_exit hgo

theorem RegularRun.follows (hi : i ≤ n) : Follows ρ i :=
  follows_until_exit fun _ hj => h.goes_on (lt_of_lt_of_le hj hi)

theorem RegularRun.issue (hi : i ≤ n) : issueClock ρ i = isaClock L i :=
  (h.follows hi).clock.trans (agrees_of_regular (h.mono hi)).clock

end Regular

/-- The `i`-th instruction in WB. -/
structure Retires (L : Layout ρ) (i : ℕ) (s : State) : Prop where
  valid : s.outputs.validOut = true
  goes_on : s.outputs.bitExit = false
  pc : s.outputs.pcOut = (isa L i).pc
  contents : Shows L.page (isa L (i + 1)) (contents s)

theorem retires_of_regular {n : ℕ} (h : RegularRun L n) (hi : i < n) :
    Retires L i (ρ.state (isaClock L i + 2)) := by
  have hf := h.follows hi.le
  have hl : Live ρ (issueClock ρ i + 2) := by
    rw [h.issue hi.le]
    exact h.live hi.le
  have hvalid := valid_in_wb hl
  have hexit := exit_in_wb hl
  have hpc := pc_in_wb hl
  have hcontents := hf.arch_shown hl
  rw [hf.word, decide_eq_true (h.valid hi)] at hvalid
  rw [hf.word, decide_eq_false (h.goes_on hi)] at hexit
  rw [hf.pc, (agrees_of_regular (h.mono hi.le)).pc] at hpc
  rw [h.issue hi.le] at hvalid hexit hpc hcontents
  refine ⟨hvalid, hexit, hpc, ?_⟩
  rw [PipelineHarness.contents, hcontents]
  exact (h.executes hi).result

/-- A program that is regular for `n` instructions retires exactly these, each in its clock
with its pc, and the registers and the memory are then those of RV32I. -/
theorem pipeline_runs_rv32i (ρ : Run) (L : Layout ρ) (n : ℕ) (h : RegularRun L n) :
    (∀ i < n, Retires L i (ρ.state (isaClock L i + 2))) ∧
    ∀ k < isaClock L n + 2,
      (ρ.state k).outputs.validOut = true ↔ ∃ i < n, k = isaClock L i + 2 := by
  refine ⟨fun i hi => retires_of_regular h hi, ?_⟩
  intro k hk
  constructor
  · intro hv
    obtain ⟨i, rfl, _⟩ := valid_of_live ((h.live le_rfl).mono hk.le) hv
    have hn := h.issue le_rfl
    have hi : i < n := by
      rw [← (issueClock_strictMono (ρ := ρ)).lt_iff_lt]
      omega
    exact ⟨i, hi, by rw [h.issue hi.le]⟩
  · rintro ⟨i, hi, rfl⟩
    exact (retires_of_regular h hi).valid

/-- ADDI x1, x0, -16, SW and LW through x1, ADD on the loaded register, JAL over an ADDI, and a
JALR to ECALL. -/
def storeLoadJump : Run :=
  bootProgram [0xFF000093#32, 0x0010A023#32, 0x0000A103#32, 0x001101B3#32, 0x0080026F#32,
    0x00100293#32, 0x00000013#32, 0x00C20367#32, 0x00000073#32]

def stackPages : Pages := fun _ => BitVec.allOnes 13

def storeLoadJumpLayout : Layout storeLoadJump := .ofPages stackPages storeLoadJump

theorem storeLoadJump_regular : RegularRun storeLoadJumpLayout 7 := by decide +kernel

theorem storeLoadJump_retires : isaClock storeLoadJumpLayout 7 = 14 ∧
    (storeLoadJump.state 13).registers 6#5 = 0x20#32 ∧ ∀ i < 7,
      Retires storeLoadJumpLayout i (storeLoadJump.state (isaClock storeLoadJumpLayout i + 2)) :=
  ⟨by decide +kernel, by decide +kernel,
    (pipeline_runs_rv32i storeLoadJump storeLoadJumpLayout 7 storeLoadJump_regular).1⟩

end PipelineIsa
