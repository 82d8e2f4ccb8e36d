import SimulatorRISCV.PipelineLinks

/-! # Jump targets and the parity of the pc

JALR adds the register value captured in decode and keeps bit 0 of the sum. Links are what
the operation that decode holds makes of the pc and 4. -/
namespace PipelineJumps

open PipelineDecoder PipelineDatapath PipelineSimulator PipelineIssue PipelineRetirement
open PipelineForwarding PipelineArchitecture PipelineLinks

theorem jalr_control (x : XValues) {w : Word} (h : ControlSignals) (hw : opcode w = .jalr) :
    (decodeControl x w h).jump = true ∧ (decodeControl x w h).typeInstruction = 0b11#2 := by
  simp [decodeControl, controlUnit, hw]

theorem jalr_imm {w : Word} (hw : opcode w = .jalr) : calcImmediate w = iImm32 w := by
  simp [calcImmediate, hw]

variable {ρ : Run} {i : ℕ}

theorem taken_of_jalr (hj : opcode (pathWord ρ i) = .jalr) (hl : Live ρ (issueClock ρ i)) :
    (ρ.state (issueClock ρ i)).branchIsTakenExec = true ∧
      (ρ.state (issueClock ρ i)).execFlags.nextPC = 0b11#2 := by
  have hf := (holds_at_issue hl).flags
  obtain ⟨hjump, htype⟩ := jalr_control ρ.x (pathItem ρ i).held hj
  refine ⟨?_, ?_⟩
  · have : (ρ.state (issueClock ρ i)).execFlags.jump = true := by rw [hf]; exact hjump
    simp [State.branchIsTakenExec, branchIsTaken, this]
  · rw [hf]; exact htype

theorem posedge_pc (x : XValues) (imem : MemArray) (s : State) :
    (posedge x imem false s).pc = (clockCycle x imem false s).pc := rfl

theorem pc_after_jalr (hj : opcode (pathWord ρ i) = .jalr)
    (hx : (ρ.state (issueClock ρ i)).bitExitWB = false) :
    (posedge ρ.x ρ.imem false (ρ.state (issueClock ρ i))).pc =
      iImm32 (pathWord ρ i) + (ρ.state (issueClock ρ i)).execVals.rs1Val := by
  have hl := (live_of_not_exit hx).mono (Nat.le_succ _)
  obtain ⟨ht, hn⟩ := taken_of_jalr hj hl
  rw [posedge_pc, running_pc hx, taken_excludes_stall hl ht, State.nextPC,
    State.takenNextPCExec, ht, hn, (holds_at_issue hl).imm32]
  exact congrArg (· + _) (jalr_imm hj)

/-- The target a JALR in execute takes, above bit 0, is the immediate plus rs1 as every
older instruction leaves it. One clock later the last of them has written back, and the
JALR itself is only in MEM. -/
def JalrSeesNewest (ρ : Run) (i : ℕ) : Prop :=
  (posedge ρ.x ρ.imem false (ρ.state (issueClock ρ i))).pc >>> 1 =
    (iImm32 (pathWord ρ i) + registerRead (ρ.state (issueClock ρ i + 1)).registers
      (rs1Id (pathWord ρ i))) >>> 1

def Neighbours (imm low high : Word) : Prop := high = low + 1#32 ∧ low[0] = imm[0]

instance (imm low high : Word) : Decidable (Neighbours imm low high) :=
  inferInstanceAs (Decidable (_ ∧ _))

def SourceSettled (s : State) : Prop :=
  s.execVals.rs1Val = s.rs1ValForwardedExec ∨
    Neighbours s.execVals.imm32 s.execVals.rs1Val s.rs1ValForwardedExec ∨
    Neighbours s.execVals.imm32 s.rs1ValForwardedExec s.execVals.rs1Val

instance (s : State) : Decidable (SourceSettled s) := inferInstanceAs (Decidable (_ ∨ _))

theorem bit_zero (a : Word) : a[0] = decide (a.toNat % 2 = 1) := by
  rw [BitVec.getElem_eq_testBit_toNat, Nat.testBit_zero]

theorem sums_agree (imm a b : Word) : (imm + a) >>> 1 = (imm + b) >>> 1 ↔
    a = b ∨ Neighbours imm a b ∨ Neighbours imm b a := by
  have hi := imm.isLt
  have ha := a.isLt
  have hb := b.isLt
  simp only [Neighbours, bit_zero, decide_eq_decide, ← BitVec.toNat_inj,
    BitVec.toNat_ushiftRight, Nat.shiftRight_eq_div_pow, BitVec.toNat_add, BitVec.toNat_ofNat]
  omega

theorem jalr_sees_newest_iff (ρ : Run) (i : ℕ) (hj : opcode (pathWord ρ i) = .jalr)
    (hx : (ρ.state (issueClock ρ i)).bitExitWB = false) :
    JalrSeesNewest ρ i ↔ SourceSettled (ρ.state (issueClock ρ i)) := by
  have hl := (live_of_not_exit hx).mono (Nat.le_succ _)
  have hh := holds_at_issue hl
  have himm : (ρ.state (issueClock ρ i)).execVals.imm32 = iImm32 (pathWord ρ i) :=
    hh.imm32.trans (jalr_imm hj)
  have hreg : (ρ.state (issueClock ρ i + 1)).registers =
      (drained (ρ.state (issueClock ρ i))).registers := registers_drain hx
  have hnew : registerRead (ρ.state (issueClock ρ i + 1)).registers (rs1Id (pathWord ρ i)) =
      (ρ.state (issueClock ρ i)).rs1ValForwardedExec := by
    rw [hreg, rs1_forwarded, hh.rs1n]
    rfl
  rw [JalrSeesNewest, pc_after_jalr hj hx, hnew, ← himm]
  exact sums_agree _ _ _

/-- ADDI x1, x0, 16 followed at once by JALR x0, 0(x1). -/
def backToBackJalr : Run := bootProgram [0x01000093#32, 0x00008067#32]

theorem back_to_back_jalr_stale :
    opcode (pathWord backToBackJalr 1) = .jalr ∧
    (backToBackJalr.state (issueClock backToBackJalr 1)).bitExitWB = false ∧
    ¬ JalrSeesNewest backToBackJalr 1 := by
  unfold JalrSeesNewest
  decide +kernel

/-- ADDI x1, x0, 20, three instructions in between, JALR x2, 0(x1) and ECALL. -/
def spacedJalr : Run :=
  bootProgram [0x01400093#32, 0x00000013#32, 0x00000013#32, 0x00000013#32, 0x00008167#32,
    0x00000073#32]

theorem spaced_jalr_newest : JalrSeesNewest spacedJalr 4 :=
  (jalr_sees_newest_iff spacedJalr 4 (by decide +kernel) (by decide +kernel)).mpr
    (by decide +kernel)

theorem zero_even : (0#32)[0] = false := rfl

theorem even_add_iff (a b : Word) : (a + b)[0] = false ↔ a[0] = b[0] := by
  simp only [bit_zero, BitVec.toNat_add, decide_eq_false_iff_not, decide_eq_decide]
  omega

theorem even_add {a b : Word} (ha : a[0] = false) (hb : b[0] = false) : (a + b)[0] = false :=
  (even_add_iff a b).mpr (ha.trans hb.symm)

theorem lsb_append {m n : ℕ} (a : BitVec m) (b : BitVec n) (hn : 0 < n) :
    (a ++ b).getLsbD 0 = b.getLsbD 0 := by
  rw [BitVec.getLsbD_append, if_pos hn]

theorem branch_offsets_even (w : Word) : (bImm32 w)[0] = false ∧ (jImm32 w)[0] = false := by
  refine ⟨?_, ?_⟩
  · calc (bImm32 w).getLsbD 0
      _ = (w.extractLsb 7 7 ++ (w.extractLsb 30 25 ++ (w.extractLsb 11 8 ++ 0#1))).getLsbD 0 :=
          lsb_append _ _ (by decide)
      _ = (w.extractLsb 30 25 ++ (w.extractLsb 11 8 ++ 0#1)).getLsbD 0 :=
          lsb_append _ _ (by decide)
      _ = (w.extractLsb 11 8 ++ 0#1).getLsbD 0 := lsb_append _ _ (by decide)
      _ = false := lsb_append _ _ (by decide)
  · calc (jImm32 w).getLsbD 0
      _ = (w.extractLsb 19 12 ++ (w.extractLsb 20 20 ++
            (w.extractLsb 30 21 ++ 0#1))).getLsbD 0 := lsb_append _ _ (by decide)
      _ = (w.extractLsb 20 20 ++ (w.extractLsb 30 21 ++ 0#1)).getLsbD 0 :=
          lsb_append _ _ (by decide)
      _ = (w.extractLsb 30 21 ++ 0#1).getLsbD 0 := lsb_append _ _ (by decide)
      _ = false := lsb_append _ _ (by decide)

/-- A word that redirects by `pc + imm` has an even immediate. An exit word may do so over
the latches of a branch, but its own immediate is zero. -/
theorem offset_even (x : XValues) (w : Word) (h : ControlSignals)
    (ht : (decodeControl x w h).typeInstruction = 0b01#2) : (calcImmediate w)[0] = false := by
  cases ho : opcode w with
  | branch => simp only [calcImmediate, ho, branch_offsets_even w]
  | jal => simp only [calcImmediate, ho, branch_offsets_even w]
  | rType | zero | other => simp [calcImmediate, ho]
  | iType | store | load | jalr | auipc | lui =>
    simp [decodeControl, controlUnit, ho] at ht

structure EvenBanks (x : XValues) (s : State) : Prop where
  pc : s.pc[0] = false
  decode : s.decode.pc[0] = false
  exec : s.execVals.pc[0] = false
  mem : s.memValues.pc[0] = false
  wb : s.wbDebug.pc[0] = false
  offset : s.execFlags.nextPC = 0b01#2 → s.execVals.imm32[0] = false
  settled : ∃ h, s.control = decodeControl x s.decode.instr h

theorem nextPC_even {x : XValues} {s : State} (h : EvenBanks x s)
    (hj : s.branchIsTakenExec = true → s.execFlags.nextPC = 0b11#2 →
      s.execVals.imm32[0] = s.execVals.rs1Val[0]) :
    s.nextPC[0] = false := by
  unfold State.nextPC State.takenNextPCExec
  cases ht : s.branchIsTakenExec with
  | false => exact even_add h.pc rfl
  | true =>
    simp only [pcCounter, ↓reduceIte]
    split_ifs with h0 h1 h3
    · exact even_add h.pc rfl
    · exact even_add h.exec (h.offset h1)
    · exact (even_add_iff _ _).mpr (hj ht h3)
    · exact h.pc

theorem decoded_offset {x : XValues} {s : State} (h : EvenBanks x s) :
    s.decodedFlags.nextPC = 0b01#2 → s.decodedVals.imm32[0] = false := by
  obtain ⟨held, hc⟩ := h.settled
  intro hn
  exact offset_even x _ held (by rw [← hc]; exact hn)

theorem even_running {x : XValues} {imem : MemArray} {s : State} (h : EvenBanks x s)
    (hx : s.bitExitWB = false) (hp : (clockCycle x imem false s).pc[0] = false) :
    EvenBanks x (clockCycle x imem false s) := by
  constructor
  case pc => exact hp
  case decode =>
    rw [running_decode hx]
    split_ifs
    · exact zero_even
    · exact h.decode
    · exact h.pc
  case exec =>
    rw [running_execVals hx]
    split_ifs
    · exact zero_even
    · exact h.decode
  case mem =>
    rw [running_memValues hx]
    exact h.exec
  case wb =>
    rw [running_wbDebug hx]
    exact h.mem
  case offset =>
    rw [running_execVals hx, running_execFlags hx]
    split_ifs
    · exact fun hn => absurd hn (by decide)
    · exact decoded_offset h
  case settled => exact ⟨_, rfl⟩

theorem even_frozen {x : XValues} {imem : MemArray} {s : State} (h : EvenBanks x s)
    (hx : s.bitExitWB = true) : EvenBanks x (clockCycle x imem false s) := by
  constructor
  case pc =>
    rw [frozen_pc hx]
    exact h.pc
  case decode =>
    rw [frozen_decode hx]
    split_ifs
    · exact zero_even
    · exact h.decode
  case exec =>
    rw [frozen_execVals hx]
    split_ifs
    · exact zero_even
    · exact h.exec
  case mem =>
    rw [frozen_memValues hx]
    exact h.mem
  case wb =>
    rw [frozen_wbDebug hx]
    exact h.wb
  case offset =>
    rw [frozen_execVals hx, frozen_execFlags hx]
    split_ifs
    · exact fun hn => absurd hn (by decide)
    · exact h.offset
  case settled => exact ⟨_, rfl⟩

/-- An exit word right behind a jump never enters execute, since the jump flushes it: no
path word is decoded over a jump's latches. -/
theorem held_not_jump (hl : Live ρ (issueClock ρ i)) :
    (pathItem ρ i).held.typeInstruction ≠ 0b11#2 ∧ (pathItem ρ i).held.jump = false := by
  -- Induction along the path: a redirect leaves the latches of a bubble.
  induction i with
  | zero =>
    change (decodeControl ρ.x 0#32 _).typeInstruction ≠ _ ∧ (decodeControl ρ.x 0#32 _).jump = _
    simp [decodeControl, controlUnit]
  | succ i ih =>
    have hl' := hl.mono (issueClock_strictMono (Nat.lt_add_one i)).le
    obtain ⟨htype, hjump⟩ := ih hl'
    rw [pathHeld_succ]
    split_ifs with ht
    · simp [decodeControl, controlUnit]
    · constructor
      · intro hn
        rcases typeInstruction_register ρ.x hn with hj | ⟨_, hh⟩
        · exact ht (taken_of_jalr hj hl').1
        · exact htype hh
      · apply Bool.eq_false_iff.mpr
        intro hj
        have hflag : (ρ.state (issueClock ρ i)).execFlags.jump = true := by
          rw [(holds_at_issue hl').flags]
          exact hj
        exact ht (by simp [State.branchIsTakenExec, branchIsTaken, hflag])

theorem jalr_of_register_target (hl : Live ρ (issueClock ρ i))
    (hn : (ρ.state (issueClock ρ i)).execFlags.nextPC = 0b11#2) :
    opcode (pathWord ρ i) = .jalr := by
  rw [(holds_at_issue hl).flags] at hn
  rcases typeInstruction_register ρ.x hn with hj | ⟨_, hh⟩
  · exact hj
  · exact absurd hh (held_not_jump hl).1

theorem jump_flag_iff (hl : Live ρ (issueClock ρ i)) :
    (ρ.state (issueClock ρ i)).execFlags.jump = true ↔ IsJump (pathWord ρ i) := by
  have hflag : (ρ.state (issueClock ρ i)).execFlags.jump =
      (decodeControl ρ.x (pathWord ρ i) (pathItem ρ i).held).jump := by
    rw [(holds_at_issue hl).flags]
    rfl
  rw [hflag]
  by_cases ho : opcode (pathWord ρ i) = .other
  · have hheld : (decodeControl ρ.x (pathWord ρ i) (pathItem ρ i).held).jump = false := by
      simp only [decodeControl, controlUnit, ho]
      exact (held_not_jump hl).2
    rw [hheld, IsJump, ho]
    decide
  · rw [decodeControl_jump ρ.x _ ho, decide_eq_true_iff]
    rfl

/-- The operation makes an even link of an even pc: the right shifts bring bit 4 down, and
the comparisons with 4 give one if they hold. -/
structure EvenLink (op : BitVec 4) (pc : Word) : Prop where
  shift : op = aluShr ∨ op = aluSha → pc[4] = false
  slt : op = aluSlt → ¬ pc.toInt < 4
  sltu : op = aluSltu → ¬ pc.toNat < 4

theorem evenLink_iff {op : BitVec 4} {pc : Word} : EvenLink op pc ↔
    (op = aluShr ∨ op = aluSha → pc[4] = false) ∧ (op = aluSlt → ¬ pc.toInt < 4) ∧
      (op = aluSltu → ¬ pc.toNat < 4) :=
  ⟨fun h => ⟨h.shift, h.slt, h.sltu⟩, fun h => ⟨h.1, h.2.1, h.2.2⟩⟩

instance (op : BitVec 4) (pc : Word) : Decidable (EvenLink op pc) :=
  decidable_of_iff _ evenLink_iff.symm

theorem even_link_iff {pc : Word} (hpc : pc[0] = false) (op : BitVec 4) :
    (alu pc 4#32 op 0#32)[0] = false ↔ EvenLink op pc := by
  have hslt : pc.slt 4#32 = decide (pc.toInt < 4) := rfl
  have hult : pc.ult 4#32 = decide (pc.toNat < 4) := rfl
  rw [evenLink_iff]
  rcases aluOp_cases op with rfl | rfl | rfl | rfl | rfl | rfl | rfl | rfl | rfl | rfl | rfl |
    rfl | hu
  · change (pc + 4#32)[0] = false ↔ _
    simp +decide [even_add_iff, hpc]
  · change (pc - 4#32)[0] = false ↔ _
    rw [BitVec.sub_eq_add_neg]
    simp +decide [even_add_iff, hpc]
  · change (pc &&& 4#32)[0] = false ↔ _
    simp +decide [hpc]
  · change (pc ||| 4#32)[0] = false ↔ _
    simp +decide [hpc]
  · change (pc ^^^ 4#32)[0] = false ↔ _
    simp +decide [hpc]
  · change (pc <<< 4)[0] = false ↔ _
    simp +decide
  · change (pc >>> 4)[0] = false ↔ _
    simp +decide
  · change (pc.sshiftRight 4)[0] = false ↔ _
    simp +decide [BitVec.getElem_sshiftRight]
  · change (if pc.slt 4#32 then 1#32 else 0#32)[0] = false ↔ _
    rw [hslt]
    by_cases h : pc.toInt < 4 <;> simp +decide [h]
  · change (if pc.ult 4#32 then 1#32 else 0#32)[0] = false ↔ _
    rw [hult]
    by_cases h : pc.toNat < 4 <;> simp +decide [h]
  · change pc[0] = false ↔ _
    simp +decide [hpc]
  · change (4#32)[0] = false ↔ _
    simp +decide
  · have hne : ∀ o, AluDefined o → op ≠ o := fun o ho h => hu (h ▸ ho)
    rw [alu_of_undefined hu]
    simp [hne aluShr rfl, hne aluSha rfl, hne aluSlt rfl, hne aluSltu rfl]

/-- Every JALR that the run executes adds an immediate and a captured rs1 of the same parity,
and every jump finds an operation that makes an even link of its pc. -/
structure JumpsEven (ρ : Run) : Prop where
  target : ∀ i, opcode (pathWord ρ i) = .jalr → (ρ.state (issueClock ρ i)).bitExitWB = false →
    (iImm32 (pathWord ρ i))[0] = (ρ.state (issueClock ρ i)).execVals.rs1Val[0]
  link : ∀ i, IsJump (pathWord ρ i) → Live ρ (issueClock ρ i) →
    EvenLink (linkOp ρ i) (pathPc ρ i)

theorem run_even (he : ρ.start.entry[0] = false) (hj : JumpsEven ρ) (n : ℕ) :
    EvenBanks ρ.x (ρ.state n) := by
  induction n with
  | zero =>
    exact ⟨he, zero_even, zero_even, zero_even, zero_even,
      fun hn => absurd (show 0b00#2 = 0b01#2 from hn) (by decide), ⟨_, rfl⟩⟩
  | succ n ih =>
    cases hx : (ρ.state n).bitExitWB with
    | true => exact even_frozen ih hx
    | false =>
      have hl : Live ρ n := (live_of_not_exit hx).mono (Nat.le_succ n)
      refine even_running ih hx ?_
      rw [running_pc hx]
      split_ifs
      · exact ih.pc
      · apply nextPC_even ih
        intro ht hn
        rcases issue_or_bubble hl with ⟨i, rfl⟩ | hb
        · have hjalr := jalr_of_register_target hl hn
          have himm := (holds_at_issue hl).imm32.trans (jalr_imm hjalr)
          rw [himm]
          exact hj.target i hjalr hx
        · rw [hb.not_taken] at ht
          cases ht

/-- The pc, pc_out, the pc in execute, which AUIPC adds to, and the ALU's output for a JAL or
a JALR in execute, which is its link, are even. -/
structure EvenPcs (s : State) : Prop where
  pc : s.pc[0] = false
  pcOut : s.outputs.pcOut[0] = false
  base : s.execVals.pc[0] = false
  link : s.execFlags.jump = true → s.aluOutExec[0] = false

theorem link_out (hj : IsJump (pathWord ρ i)) (hl : Live ρ (issueClock ρ i)) :
    (ρ.state (issueClock ρ i)).aluOutExec = alu (pathPc ρ i) 4#32 (linkOp ρ i) 0#32 :=
  (aluOut_at_issue hl).trans (link_value hj hl)

theorem frozen_no_jump {x : XValues} {imem : MemArray} {s : State} (hx : s.bitExitWB = true) :
    (clockCycle x imem false s).execFlags.jump = false := by
  rw [frozen_execFlags hx]
  split_ifs with h
  · rfl
  · apply Bool.eq_false_iff.mpr
    intro hj
    apply h
    simp [State.branchIsTakenExec, branchIsTaken, hj]

theorem run_link (he : ρ.start.entry[0] = false) (hj : JumpsEven ρ) (n : ℕ)
    (hn : (ρ.state n).execFlags.jump = true) : (ρ.state n).aluOutExec[0] = false := by
  cases n with
  | zero => cases hn
  | succ n =>
    cases hx : (ρ.state n).bitExitWB with
    | true =>
      rw [Run.state, frozen_no_jump hx] at hn
      cases hn
    | false =>
      have hl := live_of_not_exit hx
      rcases issue_or_bubble hl with ⟨i, hi⟩ | hb
      · rw [hi] at hl hn ⊢
        have hjump := (jump_flag_iff hl).mp hn
        have hpc := (run_even he hj (issueClock ρ i)).exec
        rw [(holds_at_issue hl).pc] at hpc
        rw [link_out hjump hl]
        exact (even_link_iff hpc _).mpr (hj.link i hjump hl)
      · rw [hb.jump] at hn
        cases hn

theorem evenPcs_run (he : ρ.start.entry[0] = false) (hj : JumpsEven ρ) (n : ℕ) :
    EvenPcs (ρ.state n) := by
  have hb := run_even he hj n
  exact ⟨hb.pc, hb.wb, hb.exec, run_link he hj n⟩

/-- From an even entry the pcs and links of every reachable state, clock high and clock low,
are even exactly when every executed JALR has operands of equal parity and every executed
jump an operation that keeps its link even. -/
theorem pcs_even_iff (ρ : Run) (he : ρ.start.entry[0] = false) :
    (∀ n, EvenPcs (ρ.state n) ∧ EvenPcs (posedge ρ.x ρ.imem false (ρ.state n))) ↔
      JumpsEven ρ := by
  constructor
  · intro h
    refine ⟨fun i hj hx => ?_, fun i hj hl => ?_⟩
    · have hp := (h (issueClock ρ i)).2.pc
      rw [pc_after_jalr hj hx] at hp
      exact (even_add_iff _ _).mp hp
    · obtain ⟨hlow, _⟩ := h (issueClock ρ i)
      have hpc := hlow.base
      rw [(holds_at_issue hl).pc] at hpc
      have hlink := hlow.link ((jump_flag_iff hl).mpr hj)
      rw [link_out hj hl] at hlink
      exact (even_link_iff hpc _).mp hlink
  · intro hj n
    have hh := evenPcs_run he hj (n + 1)
    exact ⟨evenPcs_run he hj n, ⟨hh.pc, hh.pcOut, hh.base, hh.link⟩⟩

def oddJalr : Run := bootProgram [0x00100067#32]

theorem odd_jalr_pc : oddJalr.start.entry[0] = false ∧ ¬ EvenPcs (oddJalr.state 3) := by
  refine ⟨by decide, fun h => absurd h.pc (by decide +kernel)⟩

theorem spacedJalr_live {i : ℕ} (hl : Live spacedJalr (issueClock spacedJalr i)) : i < 10 := by
  by_contra h
  have hmono : issueClock spacedJalr 10 ≤ issueClock spacedJalr i :=
    (issueClock_strictMono (ρ := spacedJalr)).monotone (not_lt.mp h)
  have hexit := hl.mono hmono (issueClock spacedJalr 10 - 1) (by decide +kernel)
  exact absurd hexit (by decide +kernel)

theorem spacedJalr_even : opcode (pathWord spacedJalr 4) = .jalr ∧
    ∀ n, EvenPcs (spacedJalr.state n) ∧
      EvenPcs (posedge spacedJalr.x spacedJalr.imem false (spacedJalr.state n)) := by
  have htarget : ∀ i < 10, opcode (pathWord spacedJalr i) = .jalr →
      (iImm32 (pathWord spacedJalr i))[0] =
        (spacedJalr.state (issueClock spacedJalr i)).execVals.rs1Val[0] := by decide +kernel
  have hlink : ∀ i < 10, IsJump (pathWord spacedJalr i) →
      EvenLink (linkOp spacedJalr i) (pathPc spacedJalr i) := by decide +kernel
  refine ⟨by decide +kernel,
    (pcs_even_iff spacedJalr (by decide)).mpr ⟨fun i hj hx => ?_, fun i hj hl => ?_⟩⟩
  · exact htarget i (spacedJalr_live ((live_of_not_exit hx).mono (Nat.le_succ _))) hj
  · exact hlink i (spacedJalr_live hl) hj

end PipelineJumps
