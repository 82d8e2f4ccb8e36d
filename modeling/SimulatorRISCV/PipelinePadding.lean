import SimulatorRISCV.PipelineIsaOutput
import Mathlib.Data.List.GetD

/-! # Padding a program

A condition on neighbouring words of an image under which every jump links and every JALR
sees its register. What is left for a run is what its accesses are, that JALR's targets are
even and that there is no FENCE. -/
namespace PipelinePadding

open PipelineDecoder PipelineDatapath PipelineSimulator PipelineArchitecture PipelineSemantics
open PipelineLinks PipelineHarness PipelineInstruction PipelineIsa PipelineIsaOutput
open Rv32i (Insn)

def MayRedirect (w : Word) : Prop := opcode w = .branch ∨ IsJump w

instance (w : Word) : Decidable (MayRedirect w) := inferInstanceAs (Decidable (_ ∨ _))

/-- The register file as `v` reads it through rs1 may depend on `w`. -/
def Feeds (w v : Word) : Prop :=
  rdId w = rs1Id v ∧ opcode w ≠ .store ∧ opcode w ≠ .branch

instance (w v : Word) : Decidable (Feeds w v) := inferInstanceAs (Decidable (_ ∧ _))

/-- Three neighbouring words: behind a branch or a jump, and in front of a jump, stands a word
that leaves the addition in ALU_op; the two words in front of a JALR do not write its rs1; and
the one in front of an exit word is no store. -/
structure Spaced (w v u : Word) : Prop where
  behind : MayRedirect w → assignedAluOp v = some aluAdd
  before : IsJump v → assignedAluOp w = some aluAdd
  apart : opcode v = .jalr → ¬ Feeds w v
  apart2 : opcode u = .jalr → ¬ Feeds w u
  calls : opcode v = .other → opcode w ≠ .store

instance (w v u : Word) : Decidable (Spaced w v u) :=
  decidable_of_iff (_ ∧ _ ∧ _ ∧ _ ∧ _)
    ⟨fun h => ⟨h.1, h.2.1, h.2.2.1, h.2.2.2.1, h.2.2.2.2⟩,
      fun h => ⟨h.behind, h.before, h.apart, h.apart2, h.calls⟩⟩

def Padded (imem : MemArray) : Prop :=
  ∀ k, Spaced (imem k) (imem (k + 1#17)) (imem (k + 2#17))

variable {ρ : Run} {L : Layout ρ} {i n : ℕ}

/-- What padding does not settle. -/
structure Aligned (L : Layout ρ) (i : ℕ) : Prop extends Served L i where
  even : ∀ n ∈ isaInsn L i, ∀ t ∈ n.indirect,
    ((isa L i).read t.1 + t.2.signExtend 32).getLsbD 0 = false
  known : ∀ n ∈ isaInsn L i, n.isFence = false

instance (L : Layout ρ) (i : ℕ) : Decidable (Aligned L i) :=
  letI (n : Insn) : Decidable (∀ t ∈ n.indirect,
      ((isa L i).read t.1 + t.2.signExtend 32).getLsbD 0 = false) :=
    Option.decidableForallMem _
  decidable_of_iff (_ ∧ _ ∧ _)
    ⟨fun h => ⟨h.1, h.2.1, h.2.2⟩, fun h => ⟨h.toServed, h.even, h.known⟩⟩

theorem target_even {t : Word} (h : t.getLsbD 0 = false) : t &&& ~~~1#32 = t := by
  apply BitVec.eq_of_getLsbD_eq
  intro k hk
  rw [BitVec.getLsbD_and, BitVec.getLsbD_not]
  rcases k with _ | k
  · rw [h, Bool.false_and]
  · have h1 : (1#32).getLsbD (k + 1) = false := by simp
    rw [h1, decide_eq_true hk, Bool.not_false, Bool.and_true, Bool.and_true]

theorem index_add_four (pc : Word) :
    memIndex ((pc + 4#32) >>> 2) = memIndex (pc >>> 2) + 1#17 := by
  apply BitVec.eq_of_toNat_eq
  simp only [memIndex, BitVec.toNat_setWidth, BitVec.toNat_ushiftRight, BitVec.toNat_add,
    BitVec.toNat_ofNat, Nat.shiftRight_eq_div_pow]
  omega

def isaIndex (L : Layout ρ) (i : ℕ) : BitVec 17 := memIndex ((isa L i).pc >>> 2)

theorem imageWord_eq (L : Layout ρ) (i : ℕ) : imageWord L i = ρ.imem (isaIndex L i) := rfl

theorem isaShadow_eq (L : Layout ρ) (i : ℕ) : isaShadow L i = ρ.imem (isaIndex L i + 1#17) :=
  congrArg ρ.imem (index_add_four _)

theorem mayRedirect_of_taken (ht : isaTaken L i = true) : MayRedirect (isaWord L i) := by
  obtain ⟨n, hn, hr⟩ := (Option.any_eq_true _ _).mp ht
  have hw : n.encode = isaWord L i := encode_of_isaInsn hn
  rw [← hw]
  cases n with
  | base m =>
    have ho : opcode (Insn.base m).encode = kind m := opcode_encode m
    cases m with
    | branch => exact Or.inl ho
    | jal => exact Or.inr (Or.inl ho)
    | op | opImm | shiftImm | lui | auipc | load | store => cases hr
  | jalr rd rs1 offset => exact Or.inr (Or.inr (opcode_jalr rd rs1 offset))
  | fence | ecall | ebreak => cases hr

section Steps

variable (hs : Served L i)
include hs

theorem next_index (ht : isaTaken L i = false) : isaIndex L (i + 1) = isaIndex L i + 1#17 := by
  obtain ⟨m, hm, hexec⟩ := hs.insn
  have hr : m.redirects (isa L i) = false := by rwa [isaTaken, hm] at ht
  have hpc : (isa L (i + 1)).pc = (isa L i).pc + 4#32 := Rv32i.exec_next hexec hr
  rw [isaIndex, hpc, index_add_four]
  rfl

theorem read_of_not_feeds {v : Word} (hf : ¬ Feeds (isaWord L i) v) :
    (isa L (i + 1)).read (rs1Id v) = (isa L i).read (rs1Id v) := by
  obtain ⟨m, hm, hexec⟩ := hs.insn
  have hw : m.encode = isaWord L i := encode_of_isaInsn hm
  apply Rv32i.exec_read hexec
  intro hd
  apply hf
  rw [← hw]
  cases m with
  | base m =>
    have ho : opcode (Insn.base m).encode = kind m := opcode_encode m
    have hkind : kind m ≠ .store ∧ kind m ≠ .branch := by
      cases m with
      | store | branch => cases hd
      | op | opImm | shiftImm | lui | auipc | load | jal =>
        constructor <;> intro hk <;> cases hk
    rw [← ho] at hkind
    exact ⟨(registers_encode m).1 _ hd, hkind⟩
  | jalr rd rs1 offset =>
    have ho := opcode_jalr rd rs1 offset
    refine ⟨(rdId_iFormat ..).trans (Option.some.inj hd), ?_, ?_⟩ <;> rw [ho] <;> decide
  | fence | ecall | ebreak => cases hd

end Steps

/-- Whatever happened before, decode holds the addition in front of a jump. -/
theorem op_before_jump (hp : Padded ρ.imem) (h0 : ρ.start.latches.aluOp = aluAdd)
    (hs : ∀ j ≤ i, Served L j) (hj : IsJump (isaWord L i)) : isaOp L i = aluAdd := by
  cases i with
  | zero => exact h0
  | succ i =>
    have hi := hs i (Nat.le_succ i)
    rw [isaOp_succ]
    cases ht : isaTaken L i with
    | true =>
      have hb := (hp (isaIndex L i)).behind (by
        rw [← imageWord_eq, ← hi.code]
        exact mayRedirect_of_taken ht)
      rw [← isaShadow_eq] at hb
      rw [if_pos rfl, hb, Option.getD_some]
    | false =>
      rw [(hs (i + 1) le_rfl).code, imageWord_eq, next_index hi ht] at hj
      have hb := (hp (isaIndex L i)).before hj
      rw [← imageWord_eq, ← hi.code] at hb
      rw [if_neg Bool.false_ne_true, hb, Option.getD_some]

theorem captured_current (hp : Padded ρ.imem)
    (hs : ∀ j ≤ i, Served L j) (ho : opcode (isaWord L i) = .jalr) :
    (isa L (capturedAt L i)).read (rs1Id (isaWord L i)) =
      (isa L i).read (rs1Id (isaWord L i)) := by
  cases i with
  | zero => rfl
  | succ i =>
    have hi := hs i (Nat.le_succ i)
    have hword := (hs (i + 1) le_rfl).code
    rw [imageWord_eq] at hword
    rw [capturedAt]
    cases ht : isaTaken L i with
    | true => rfl
    | false =>
      have hindex := next_index hi ht
      have hone : (isa L (i + 1)).read (rs1Id (isaWord L (i + 1))) =
          (isa L i).read (rs1Id (isaWord L (i + 1))) := by
        apply read_of_not_feeds hi
        rw [hword, hindex] at ho ⊢
        rw [hi.code, imageWord_eq]
        exact (hp (isaIndex L i)).apart ho
      rw [hone, if_neg Bool.false_ne_true]
      cases hst : isaStalls L i with
      | true => rfl
      | false =>
        rw [if_neg Bool.false_ne_true]
        cases i with
        | zero => rfl
        | succ i =>
          have hi' := hs i (by omega)
          rw [recentAt]
          cases ht' : isaTaken L i with
          | true => rfl
          | false =>
            cases hst' : isaStalls L i with
            | true => rfl
            | false =>
              have hindex' := next_index hi' ht'
              have htwo : isaIndex L (i + 1 + 1) = isaIndex L i + 2#17 := by
                rw [hindex, hindex', BitVec.add_assoc]
                rfl
              refine (read_of_not_feeds hi' ?_).symm
              rw [hword, htwo] at ho ⊢
              rw [hi'.code, imageWord_eq]
              exact (hp (isaIndex L i)).apart2 ho

theorem padded_handled (hp : Padded ρ.imem) (h0 : ρ.start.latches.aluOp = aluAdd)
    (ha : ∀ j ≤ i, Aligned L j) : Handled L i := by
  have hs : ∀ j ≤ i, Served L j := fun j hj => (ha j hj).toServed
  have hi := ha i le_rfl
  refine ⟨?_, ?_, hi.known⟩
  · intro m hm rd hl _
    rw [op_before_jump hp h0 hs (isJump_of_link hm hl)]
    exact Or.inl rfl
  · intro m hm t ht
    have heven := hi.even m hm t ht
    have hw : m.encode = isaWord L i := encode_of_isaInsn hm
    cases m with
    | jalr rd rs1 offset =>
      obtain rfl := Option.some.inj ht
      have hrs1 : rs1Id (isaWord L i) = rs1 := by
        rw [← hw]
        exact rs1Id_iFormat ..
      have hc := captured_current hp hs (by rw [← hw, opcode_jalr])
      rw [hrs1] at hc
      rw [hc, target_even heven]
    | base | fence | ecall | ebreak => cases ht

theorem exit_of_call (hc : isaInsn L i = some .ecall ∨ isaInsn L i = some .ebreak) :
    opcode (isaWord L i) = .other := by
  rcases hc with hc | hc
  · rw [← encode_of_isaInsn hc]
    rfl
  · rw [← encode_of_isaInsn hc]
    rfl

theorem no_store_before (hp : Padded ρ.imem)
    (hs : Served L i) (hcode : isaWord L (i + 1) = imageWord L (i + 1))
    (hx : opcode (isaWord L (i + 1)) = .other) : opcode (isaWord L i) ≠ .store := by
  cases ht : isaTaken L i with
  | true =>
    rcases mayRedirect_of_taken ht with h | h | h <;> rw [h] <;> decide
  | false =>
    rw [hcode, imageWord_eq, next_index hs ht] at hx
    rw [hs.code, imageWord_eq]
    exact (hp (isaIndex L i)).calls hx

structure Calls (L : Layout ρ) (n : ℕ) : Prop where
  aligned : ∀ i < n, Aligned L i
  code : isaWord L n = imageWord L n
  call : isaInsn L n = some .ecall ∨ isaInsn L n = some .ebreak

theorem padded_ends (hp : Padded ρ.imem) (h0 : ρ.start.latches.aluOp = aluAdd)
    (hc : Calls L n) : Ends L n := by
  refine ⟨fun i hi => ⟨(hc.aligned i hi).toServed, ?_⟩, hc.code, hc.call⟩
  exact padded_handled hp h0 fun j hj => hc.aligned j (lt_of_le_of_lt hj hi)

theorem padded_end (hp : Padded ρ.imem) (hc : Calls L n) : isaEnd L n = isa L n := by
  apply if_neg
  rw [Bool.not_eq_true]
  cases n with
  | zero => rfl
  | succ i =>
    have hi := (hc.aligned i (Nat.lt_succ_self i)).toServed
    exact decide_eq_false (no_store_before hp hi hc.code (exit_of_call hc.call))

/-- In a padded image every program that reaches an environment call on the RV32I machine, with
aligned accesses, even targets and no FENCE, ends main as it ends there: neither its jumps nor
what stands around them need a further condition. -/
theorem padded_main_runs (ρ : Run) (L : Layout ρ) (mode : TraceMode) (n t : ℕ)
    (hp : Padded ρ.imem) (h0 : ρ.start.latches.aluOp = aluAdd) (hc : Calls L n) :
    ((clockLoop ρ mode t).stopped = true ↔ 16 * (isaClock L n + 2) + 8 ≤ t) ∧
    ((clockLoop ρ mode t).stopped = true →
      EndsWith L mode n (isa L n) (clockLoop ρ mode t)) := by
  have hends := padded_ends hp h0 hc
  rw [← padded_end hp hc]
  exact ⟨hends.stopped_iff mode t, hends.endsWith⟩

/-- ADDI x1, x0, -16; SW and LW through x1; ADD on the loaded register; JAL over an ADDI; and,
behind another ADDI, a JALR through the link over one more to ECALL. -/
def paddedWords : List Word :=
  [0xFF000093#32, 0x0010A023#32, 0x0000A103#32, 0x001101B3#32, 0x0080026F#32, 0x00100293#32,
    0x00000013#32, 0x01020367#32, 0x00000013#32, 0x00000073#32]

theorem paddedWords_padded : Padded (bootProgram paddedWords).imem := by
  have hword : ∀ k : BitVec 17, (bootProgram paddedWords).imem k =
      paddedWords.getD k.toNat 0#32 := fun _ => rfl
  have hzero : ∀ k : BitVec 17, 10 ≤ k.toNat → (bootProgram paddedWords).imem k = 0#32 :=
    fun k hk => List.getD_eq_default _ _ hk
  intro k
  by_cases hk : k.toNat < 10
  · have hin : ∀ j < 10, Spaced (paddedWords.getD j 0#32) (paddedWords.getD (j + 1) 0#32)
        (paddedWords.getD (j + 2) 0#32) := by decide +kernel
    have h1 : (k + 1#17).toNat = k.toNat + 1 := by bv_omega
    have h2 : (k + 2#17).toNat = k.toNat + 2 := by bv_omega
    rw [hword, hword, hword, h1, h2]
    exact hin _ hk
  · rw [hzero k (not_lt.mp hk)]
    have h1 : (k + 1#17).toNat = 0 ∨ 10 ≤ (k + 1#17).toNat := by bv_omega
    have h2 : (k + 2#17).toNat = 0 ∨ (k + 2#17).toNat = 1 ∨ 10 ≤ (k + 2#17).toNat := by bv_omega
    have hv : (bootProgram paddedWords).imem (k + 1#17) = 0xFF000093#32 ∨
        (bootProgram paddedWords).imem (k + 1#17) = 0#32 := by
      rcases h1 with h1 | h1
      · rw [hword, h1]
        exact Or.inl rfl
      · exact Or.inr (hzero _ h1)
    have hu : (bootProgram paddedWords).imem (k + 2#17) = 0xFF000093#32 ∨
        (bootProgram paddedWords).imem (k + 2#17) = 0x0010A023#32 ∨
        (bootProgram paddedWords).imem (k + 2#17) = 0#32 := by
      rcases h2 with h2 | h2 | h2
      · rw [hword, h2]
        exact Or.inl rfl
      · rw [hword, h2]
        exact Or.inr (Or.inl rfl)
      · exact Or.inr (Or.inr (hzero _ h2))
    rcases hv with hv | hv <;> rcases hu with hu | hu | hu <;> rw [hv, hu] <;> decide +kernel

def paddedLayout : Layout (bootProgram paddedWords) := .ofPages stackPages _

theorem paddedWords_calls : Calls paddedLayout 7 :=
  ⟨by decide +kernel, by decide +kernel, by decide +kernel⟩

theorem paddedWords_main : (clockLoop (bootProgram paddedWords) .trace 264).stopped = true ∧
    EndsWith paddedLayout .trace 7 (isa paddedLayout 7)
      (clockLoop (bootProgram paddedWords) .trace 264) := by
  have h := padded_main_runs (bootProgram paddedWords) paddedLayout .trace 7 264
    paddedWords_padded rfl paddedWords_calls
  have hs := h.1.mpr (by decide +kernel)
  exact ⟨hs, h.2 hs⟩

end PipelinePadding
