import SimulatorRISCV.PipelineArchitecture

/-! # Link addresses

JAL and JALR select the pc and 4 as operands but leave ALU_op to the words that were decoded
before them. The link is pc + 4 exactly when the operation they left gives that sum. -/
namespace PipelineLinks

open PipelineDecoder PipelineDatapath PipelineSimulator PipelineIssue PipelineRetirement
open PipelineForwarding PipelineArchitecture

/-- What decoding a word assigns to ALU_op; `none` where its case leaves the latch. -/
def assignedAluOp (w : Word) : Option (BitVec 4) :=
  match opcode w with
  | .rType => some (rTypeAluOp (funct3 w) (funct7 w) 0#4)
  | .iType => some (iTypeAluOp (funct3 w) (funct7 w) 0#4)
  | .store | .load | .auipc => some aluAdd
  | .lui => some aluB
  | .branch =>
    if funct3 w = 0b010#3 ∨ funct3 w = 0b011#3 then none
    else some (branchAluOp (funct3 w) 0#4)
  | .jalr | .jal | .zero | .other => none

/-- ALU_op after a sequence of words: the operation of the last word that assigns one. -/
def latchedAluOp (initial : BitVec 4) (ws : List Word) : BitVec 4 :=
  (ws.filterMap assignedAluOp).getLastD initial

def decodedWords (ρ : Run) (n : ℕ) : List Word :=
  (List.range n).map fun m => (ρ.state m).decode.instr

theorem decodeControl_aluOp (x : XValues) (w : Word) (h : ControlSignals) :
    (decodeControl x w h).aluOp = (assignedAluOp w).getD h.aluOp := by
  unfold decodeControl controlUnit assignedAluOp
  cases opcode w with
  | rType => exact rTypeAluOp_assigned _ _ _ _
  | iType => exact iTypeAluOp_assigned _ _ _ _
  | branch =>
    by_cases hf : funct3 w = 0b010#3 ∨ funct3 w = 0b011#3
    · simp only [hf, ↓reduceIte, Option.getD_none]
      exact (branch_latched hf h.aluOp false).1
    · simp only [hf, ↓reduceIte, Option.getD_some]
      exact (branch_assigned hf h.aluOp 0#4 false false).1
  | _ => rfl

theorem latchedAluOp_snoc (initial : BitVec 4) (ws : List Word) (w : Word) :
    latchedAluOp initial (ws ++ [w]) = (assignedAluOp w).getD (latchedAluOp initial ws) := by
  unfold latchedAluOp
  rw [List.filterMap_append]
  cases h : assignedAluOp w with
  | none => simp [h]
  | some op => simp [h]

theorem decodedWords_succ (ρ : Run) (n : ℕ) :
    decodedWords ρ (n + 1) = decodedWords ρ n ++ [(ρ.state n).decode.instr] := by
  rw [decodedWords, List.range_succ, List.map_append]
  rfl

theorem run_aluOp (ρ : Run) (n : ℕ) : (ρ.state n).control.aluOp =
    latchedAluOp ρ.start.latches.aluOp (decodedWords ρ (n + 1)) := by
  induction n with
  | zero => exact decodeControl_aluOp ρ.x _ _
  | succ n ih =>
    rw [decodedWords_succ, latchedAluOp_snoc, ← ih]
    exact decodeControl_aluOp ρ.x _ _

theorem and_four (pc : Word) : pc &&& 4#32 = if pc[2] then 4#32 else 0#32 :=
  BitVec.and_twoPow pc 2

theorem bit_two_add_four (pc : Word) : (pc + 4#32)[2] = !pc[2] := by
  simp only [BitVec.getElem_eq_testBit_toNat, Nat.testBit_eq_decide_div_mod_eq,
    BitVec.toNat_add, BitVec.toNat_ofNat]
  rw [← decide_not, decide_eq_decide]
  omega

theorem link_wraps (pc : Word) : (pc + 4#32).toNat = pc.toNat + 4 ∨
    (2 ^ 32 ≤ pc.toNat + 4 ∧ (pc + 4#32).toNat = pc.toNat + 4 - 2 ^ 32) := by
  rw [BitVec.toNat_add, BitVec.toNat_ofNat]
  have := pc.isLt
  omega

theorem sub_link (pc : Word) : pc - 4#32 ≠ pc + 4#32 := by
  bv_omega

theorem and_link (pc : Word) : pc &&& 4#32 ≠ pc + 4#32 := by
  rw [and_four]
  intro h
  by_cases h2 : pc[2] = true
  · rw [if_pos h2] at h
    have hz : pc = 0#32 := by bv_omega
    rw [hz] at h2
    cases h2
  · rw [if_neg h2] at h
    have hz : pc = 0xFFFFFFFC#32 := by bv_omega
    rw [hz] at h2
    exact h2 rfl

theorem or_of_clear {pc : Word} (h : pc[2] = false) : pc ||| 4#32 = pc + 4#32 := by
  have hz : pc &&& 4#32 = 0#32 := by rw [and_four, h]; rfl
  exact (BitVec.add_eq_or_of_and_eq_zero _ _ hz).symm

theorem or_link (pc : Word) : pc ||| 4#32 = pc + 4#32 ↔ pc[2] = false := by
  refine ⟨fun h => ?_, or_of_clear⟩
  have hb : (pc ||| 4#32)[2] = true := by simp
  rw [h, bit_two_add_four, Bool.not_eq_true'] at hb
  exact hb

theorem xor_of_clear {pc : Word} (h : pc[2] = false) : pc ^^^ 4#32 = pc + 4#32 := by
  rw [← or_of_clear h]
  apply BitVec.eq_of_getLsbD_eq
  intro k hk
  rw [BitVec.getLsbD_xor, BitVec.getLsbD_or]
  by_cases h2 : k = 2
  · subst h2
    rw [BitVec.getLsbD_eq_getElem (by decide), h]
    rfl
  · have h4 : (4#32).getLsbD k = false := by
      change (BitVec.twoPow 32 2).getLsbD k = false
      rw [BitVec.getLsbD_twoPow]
      simp [Ne.symm h2]
    rw [h4, Bool.xor_false, Bool.or_false]

theorem xor_link (pc : Word) : pc ^^^ 4#32 = pc + 4#32 ↔ pc[2] = false := by
  refine ⟨fun h => ?_, xor_of_clear⟩
  -- Otherwise clearing bit 2 subtracts 4.
  cases h2 : pc[2] with
  | false => rfl
  | true =>
    have hclear : (pc ^^^ 4#32)[2] = false := by simp [h2]
    have hback : pc = (pc ^^^ 4#32) + 4#32 := by
      rw [← xor_of_clear hclear, BitVec.xor_assoc, BitVec.xor_self, BitVec.xor_zero]
    rw [h] at hback
    exact absurd hback (by bv_omega)

theorem shl_link (pc : Word) : pc <<< 4 = pc + 4#32 ↔ pc = 0xBBBBBBBC#32 := by
  rw [← BitVec.toNat_inj, ← BitVec.toNat_inj, BitVec.toNat_shiftLeft, Nat.shiftLeft_eq,
    BitVec.toNat_add, BitVec.toNat_ofNat, BitVec.toNat_ofNat]
  have := pc.isLt
  omega

theorem shr_link (pc : Word) : pc >>> 4 ≠ pc + 4#32 := by
  rw [Ne, ← BitVec.toNat_inj, BitVec.toNat_ushiftRight, Nat.shiftRight_eq_div_pow]
  have := link_wraps pc
  have := pc.isLt
  omega

theorem sha_link (pc : Word) : pc.sshiftRight 4 = pc + 4#32 ↔ pc = 0xFFFFFFFB#32 := by
  rw [← BitVec.toInt_inj, ← BitVec.toNat_inj, BitVec.toInt_sshiftRight,
    Int.shiftRight_eq_div_pow, BitVec.toInt_eq_toNat_cond, BitVec.toInt_eq_toNat_cond,
    BitVec.toNat_ofNat]
  have := link_wraps pc
  have := pc.isLt
  split_ifs <;> omega

theorem slt_link (pc : Word) :
    (if pc.slt 4#32 then 1#32 else 0#32) = pc + 4#32 ↔ pc = 0xFFFFFFFD#32 := by
  have h : pc.slt 4#32 = decide (pc.toInt < 4) := rfl
  rw [h, BitVec.toInt_eq_toNat_cond]
  simp only [decide_eq_true_eq]
  split_ifs <;> bv_omega

theorem sltu_link (pc : Word) :
    (if pc.ult 4#32 then 1#32 else 0#32) = pc + 4#32 ↔ pc = 0xFFFFFFFC#32 := by
  have h : pc.ult 4#32 = decide (pc.toNat < 4) := rfl
  rw [h]
  simp only [decide_eq_true_eq]
  split_ifs <;> bv_omega

/-- The operation gives pc + 4: it is the addition, or the two agree at this pc. -/
def AddsFour (op : BitVec 4) (pc : Word) : Prop :=
  op = aluAdd ∨ ((op = aluOr ∨ op = aluXor) ∧ pc[2] = false) ∨
  (op = aluB ∧ pc = 0#32) ∨ (op = aluShl ∧ pc = 0xBBBBBBBC#32) ∨
  (op = aluSha ∧ pc = 0xFFFFFFFB#32) ∨ (op = aluSlt ∧ pc = 0xFFFFFFFD#32) ∨
  ((op = aluSltu ∨ ¬ AluDefined op) ∧ pc = 0xFFFFFFFC#32)

instance (op : BitVec 4) : Decidable (AluDefined op) := inferInstanceAs (Decidable (_ = true))

instance (op : BitVec 4) (pc : Word) : Decidable (AddsFour op pc) :=
  inferInstanceAs (Decidable (_ ∨ _))

theorem aluOp_cases (op : BitVec 4) : op = aluAdd ∨ op = aluSub ∨ op = aluAnd ∨ op = aluOr ∨
    op = aluXor ∨ op = aluShl ∨ op = aluShr ∨ op = aluSha ∨ op = aluSlt ∨ op = aluSltu ∨
    op = aluA ∨ op = aluB ∨ ¬ AluDefined op := by
  revert op
  decide

theorem adds_four_iff (op : BitVec 4) (pc : Word) :
    alu pc 4#32 op 0#32 = pc + 4#32 ↔ AddsFour op pc := by
  rcases aluOp_cases op with rfl | rfl | rfl | rfl | rfl | rfl | rfl | rfl | rfl | rfl | rfl |
    rfl | hu
  · exact ⟨fun _ => Or.inl rfl, fun _ => rfl⟩
  · change pc - 4#32 = pc + 4#32 ↔ _
    simp +decide [AddsFour, sub_link]
  · change pc &&& 4#32 = pc + 4#32 ↔ _
    simp +decide [AddsFour, and_link]
  · change pc ||| 4#32 = pc + 4#32 ↔ _
    simp +decide [AddsFour, or_link]
  · change pc ^^^ 4#32 = pc + 4#32 ↔ _
    simp +decide [AddsFour, xor_link]
  · change pc <<< 4 = pc + 4#32 ↔ _
    simp +decide [AddsFour, shl_link]
  · change pc >>> 4 = pc + 4#32 ↔ _
    simp +decide [AddsFour, shr_link]
  · change pc.sshiftRight 4 = pc + 4#32 ↔ _
    simp +decide [AddsFour, sha_link]
  · change (if pc.slt 4#32 then 1#32 else 0#32) = pc + 4#32 ↔ _
    rw [slt_link]
    simp +decide [AddsFour]
  · change (if pc.ult 4#32 then 1#32 else 0#32) = pc + 4#32 ↔ _
    rw [sltu_link]
    simp +decide [AddsFour]
  · change pc = pc + 4#32 ↔ _
    simp +decide [AddsFour]
  · change 4#32 = pc + 4#32 ↔ _
    simp +decide [AddsFour]
  · have hne : ∀ o, AluDefined o → op ≠ o := fun o ho h => hu (h ▸ ho)
    have hz : 0#32 = pc + 4#32 ↔ pc = 0xFFFFFFFC#32 := by constructor <;> intro h <;> bv_omega
    rw [alu_of_undefined hu, hz]
    simp [AddsFour, hu, hne aluAdd rfl, hne aluOr rfl, hne aluXor rfl, hne aluB rfl,
      hne aluShl rfl, hne aluSha rfl, hne aluSlt rfl]

def IsJump (w : Word) : Prop := opcode w = .jal ∨ opcode w = .jalr

instance (w : Word) : Decidable (IsJump w) := inferInstanceAs (Decidable (_ ∨ _))

variable {ρ : Run} {i : ℕ}

def linkOp (ρ : Run) (i : ℕ) : BitVec 4 :=
  latchedAluOp ρ.start.latches.aluOp (decodedWords ρ (issueClock ρ i))

theorem execOp_eq_linkOp (hl : Live ρ (issueClock ρ i)) :
    (pathControl ρ i).aluOp = linkOp ρ i := by
  obtain ⟨n, hn⟩ := issueClock_eq_add_two ρ i
  have hop := congrArg ExecVals.aluOp (decoded_before_issue hl)
  rw [(holds_at_issue hl).aluOp] at hop
  change (pathControl ρ i).aluOp = (ρ.state (issueClock ρ i - 1)).control.aluOp at hop
  rw [hop, linkOp, hn, Nat.add_succ_sub_one, run_aluOp]

theorem jump_control (hj : IsJump (pathWord ρ i)) : (pathControl ρ i).aluSrc1 = true ∧
    (pathControl ρ i).aluSrc2 = 0b11#2 ∧ (pathControl ρ i).memToReg = false ∧
    (pathControl ρ i).regWrite = true := by
  change (decodeControl ρ.x (pathWord ρ i) _).aluSrc1 = _ ∧
    (decodeControl ρ.x (pathWord ρ i) _).aluSrc2 = _ ∧
    (decodeControl ρ.x (pathWord ρ i) _).memToReg = _ ∧
    (decodeControl ρ.x (pathWord ρ i) _).regWrite = _
  rcases hj with hj | hj <;> simp [decodeControl, controlUnit, hj]

theorem link_value (hj : IsJump (pathWord ρ i)) (hl : Live ρ (issueClock ρ i)) :
    aluValue (pathControl ρ i) (pathPc ρ i) (pathWord ρ i) (pathArch ρ i) =
      alu (pathPc ρ i) 4#32 (linkOp ρ i) 0#32 := by
  obtain ⟨h1, h2, _, _⟩ := jump_control hj
  rw [aluValue, operand1, operand2, h1, h2, execOp_eq_linkOp hl]
  rfl

/-- What a jump in execute should give, in both phases of the clock, and what it should
leave in rd. -/
structure LinksNext (ρ : Run) (i : ℕ) : Prop where
  low : (ρ.state (issueClock ρ i)).aluOutExec =
    (ρ.state (issueClock ρ i)).execVals.pc + 4#32
  high : (posedge ρ.x ρ.imem false (ρ.state (issueClock ρ i - 1))).aluOutExec =
    (posedge ρ.x ρ.imem false (ρ.state (issueClock ρ i - 1))).execVals.pc + 4#32
  written : Live ρ (issueClock ρ i + 2) → rdId (pathWord ρ i) ≠ 0#5 →
    (ρ.state (issueClock ρ i + 2)).registers (rdId (pathWord ρ i)) = pathPc ρ i + 4#32

theorem link_written (hj : IsJump (pathWord ρ i)) (hl : Live ρ (issueClock ρ i + 2))
    (hd : rdId (pathWord ρ i) ≠ 0#5) :
    (ρ.state (issueClock ρ i + 2)).registers (rdId (pathWord ρ i)) =
      aluValue (pathControl ρ i) (pathPc ρ i) (pathWord ρ i) (pathArch ρ i) := by
  obtain ⟨_, _, hm, hw⟩ := jump_control hj
  have ha := congrArg Arch.registers (arch_at_retirement hl)
  change (ρ.state (issueClock ρ i + 2)).registers = registerWrite _ _ _ _ at ha
  rw [ha, registerWrite_apply, if_pos ⟨hw, hd, rfl⟩, writeBack, hm]
  rfl

/-- A jump links to the following instruction exactly when the words decoded before it,
flushed ones included, leave an operation that adds 4 to its pc. -/
theorem links_next_iff (ρ : Run) (i : ℕ) (hj : IsJump (pathWord ρ i))
    (hl : Live ρ (issueClock ρ i)) :
    LinksNext ρ i ↔ AddsFour (linkOp ρ i) (pathPc ρ i) := by
  have hpc := (holds_at_issue hl).pc
  have hout := (aluOut_at_issue hl).trans (link_value hj hl)
  rw [← adds_four_iff]
  constructor
  · intro h
    have hlow := h.low
    rwa [hout, hpc] at hlow
  · intro h
    have hlow : (ρ.state (issueClock ρ i)).aluOutExec =
        (ρ.state (issueClock ρ i)).execVals.pc + 4#32 := by rw [hout, hpc]; exact h
    refine ⟨hlow, ?_, ?_⟩
    · obtain ⟨n, hn⟩ := issueClock_eq_add_two ρ i
      rw [hn] at hlow ⊢
      exact hlow
    · intro hl2 hd
      rw [link_written hj hl2 hd, link_value hj hl]
      exact h

/-- BNE x0, x0, 8, not taken, and JAL x1, 8 behind it. -/
def branchThenJal : Run := bootProgram [0x00001463#32, 0x008000EF#32]

/-- The subtraction of the BNE is still latched. -/
theorem branch_then_jal_link : IsJump (pathWord branchThenJal 1) ∧
    Live branchThenJal (issueClock branchThenJal 1) ∧ ¬ LinksNext branchThenJal 1 := by
  refine ⟨by decide +kernel, ?_, fun h => absurd h.low (by decide +kernel)⟩
  exact (live_of_not_exit (by decide +kernel)).mono (Nat.le_succ _)

def addThenJal : Run := bootProgram [0x00100113#32, 0x008000EF#32]

theorem add_then_jal_link : LinksNext addThenJal 1 :=
  (links_next_iff addThenJal 1 (by decide +kernel)
    ((live_of_not_exit (by decide +kernel)).mono (Nat.le_succ _))).mpr (by decide +kernel)

end PipelineLinks
