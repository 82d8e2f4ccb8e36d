import SimulatorRISCV.PipelineArchitecture
import Mathlib.Tactic.IntervalCases

/-! # Words off the executed path

Two runs from the same start whose images agree on the executed path. A redirect flushes
the word behind it from decode, but the control latches keep what it assigned, and JAL,
JALR and an undefined BRANCH go on using ALU_op from there. -/
namespace PipelineWrongPath

open PipelineDecoder PipelineDatapath PipelineSimulator InOrderIssue PipelineIssue
open PipelineRetirement PipelineForwarding PipelineArchitecture

def withImage (ρ : Run) (imem : MemArray) : Run := { ρ with imem := imem }

def AgreesOnPath (ρ : Run) (imem : MemArray) : Prop :=
  ∀ i, Live ρ (issueClock ρ i) → fetch imem (pathPc ρ i) = pathWord ρ i

/-- A retired instruction as it is seen in WB. -/
structure Retirement where
  pcOut : Word
  rdnOut : RegNum
  regWriteOut : Bool
  resultWB : Word
  deriving DecidableEq

def retirement (s : State) : Option Retirement :=
  if s.outputs.validOut then
    some ⟨s.outputs.pcOut, s.outputs.rdnOut, s.outputs.regWriteOut, s.resultWB⟩
  else none

/-- Same retirement, same registers and same data memory in every clock before the exit. -/
def Invisible (ρ : Run) (imem : MemArray) : Prop :=
  ∀ k, (ρ.state k).bitExitWB = false →
    ((withImage ρ imem).state k).bitExitWB = false ∧
    retirement ((withImage ρ imem).state k) = retirement (ρ.state k) ∧
    ((withImage ρ imem).state k).registers = (ρ.state k).registers ∧
    ((withImage ρ imem).state k).dmem = (ρ.state k).dmem

/-- Whenever a JAL, a JALR or an undefined BRANCH is decoded, the latches it goes on using
are the same in both runs. -/
def SameLatches (ρ : Run) (imem : MemArray) : Prop :=
  ∀ i, (∀ j ≤ i, opcode (pathWord ρ j) ≠ .other) →
    LatchesAgree (pathWord ρ i) (pathControl (withImage ρ imem) i) (pathControl ρ i)

variable {ρ ρ' : Run} {imem : MemArray} {i k : ℕ}

structure SamePath (ρ ρ' : Run) (i : ℕ) : Prop where
  live : Live ρ (issueClock ρ i)
  live' : Live ρ' (issueClock ρ' i)
  clock : issueClock ρ' i = issueClock ρ i
  pc : pathPc ρ' i = pathPc ρ i
  arch : pathArch ρ' i = pathArch ρ i
  word : pathWord ρ' i = pathWord ρ i

theorem drained_same (h : ∀ j ≤ i, SamePath ρ ρ' j) {n : ℕ} (hn : n ≤ issueClock ρ i) :
    drained (ρ'.state n) = drained (ρ.state n) := by
  have hex : ∃ j, n ≤ issueClock ρ j := ⟨i, hn⟩
  have hj : Nat.find hex ≤ i := Nat.find_min' hex hn
  have hle := Nat.find_spec hex
  have hlt : ∀ a < Nat.find hex, issueClock ρ a < n := fun a ha =>
    not_le.mp (Nat.find_min hex ha)
  have hs := h _ hj
  rw [drained_eq_pathArch hs.live hle hlt, ← hs.arch]
  apply drained_eq_pathArch hs.live'
  · rw [hs.clock]
    exact hle
  · intro a ha
    rw [(h a (by omega)).clock]
    exact hlt a ha

theorem effect_same (hx : ρ'.x = ρ.x) (h : SamePath ρ ρ' i)
    (ho : opcode (pathWord ρ i) ≠ .other)
    (hl : LatchesAgree (pathWord ρ i) (pathControl ρ' i) (pathControl ρ i)) :
    execute (pathControl ρ' i) (pathPc ρ' i) (pathWord ρ' i) (pathArch ρ' i) =
      execute (pathControl ρ i) (pathPc ρ i) (pathWord ρ i) (pathArch ρ i) ∧
    redirects (pathControl ρ' i) (pathPc ρ' i) (pathWord ρ' i) (pathArch ρ' i) =
      redirects (pathControl ρ i) (pathPc ρ i) (pathWord ρ i) (pathArch ρ i) ∧
    (opcode (pathWord ρ i) ≠ .zero → Agree (pathControl ρ' i) (pathControl ρ i)) := by
  have hctl : pathControl ρ' i = decodeControl ρ.x (pathWord ρ i) (pathItem ρ' i).held := by
    rw [← h.word, ← hx]; rfl
  rw [h.pc, h.word, h.arch]
  by_cases hz : opcode (pathWord ρ i) = .zero
  · obtain ⟨hr, hm, hj, hb⟩ := zero_quiet ρ.x hz (pathItem ρ i).held
    obtain ⟨hr', hm', hj', hb'⟩ := zero_quiet ρ.x hz (pathItem ρ' i).held
    rw [← hctl] at hr' hm' hj' hb'
    refine ⟨?_, ?_, fun h => absurd hz h⟩
    · rw [execute_quiet _ _ _ hr' hm']
      exact (execute_quiet _ _ _ hr hm).symm
    · rw [redirects_quiet _ _ _ hj' hb']
      exact (redirects_quiet _ _ _ hj hb).symm
  · rw [hctl] at hl ⊢
    have hag : Agree (decodeControl ρ.x _ (pathItem ρ' i).held) (pathControl ρ i) :=
      decodeControl_agree ρ.x ho hz hl
    exact ⟨execute_congr _ _ _ hag, redirects_congr _ _ _ hag, fun _ => hag⟩

theorem taken_same (hx : ρ'.x = ρ.x) (h : SamePath ρ ρ' i)
    (ho : opcode (pathWord ρ i) ≠ .other)
    (hl : LatchesAgree (pathWord ρ i) (pathControl ρ' i) (pathControl ρ i)) :
    (ρ'.state (issueClock ρ' i)).branchIsTakenExec =
      (ρ.state (issueClock ρ i)).branchIsTakenExec := by
  rw [taken_at_issue h.live', taken_at_issue h.live]
  exact (effect_same hx h ho hl).2.1

/-- JALR's operand was captured two clocks earlier, when both runs had the same registers. -/
theorem rs1Val_same (h : ∀ j ≤ i, SamePath ρ ρ' j) :
    (ρ'.state (issueClock ρ' i)).execVals.rs1Val =
      (ρ.state (issueClock ρ i)).execVals.rs1Val := by
  have hs := h i le_rfl
  rw [rs1Val_at_issue hs.live', rs1Val_at_issue hs.live, hs.clock, hs.word,
    drained_same h (Nat.sub_le _ _)]

theorem target_same (hx : ρ'.x = ρ.x) (h : ∀ j ≤ i, SamePath ρ ρ' j)
    (ho : opcode (pathWord ρ i) ≠ .other)
    (hl : LatchesAgree (pathWord ρ i) (pathControl ρ' i) (pathControl ρ i))
    (ht : (ρ.state (issueClock ρ i)).branchIsTakenExec = true) :
    (ρ'.state (issueClock ρ' i)).nextPC = (ρ.state (issueClock ρ i)).nextPC := by
  have hs := h i le_rfl
  have hh := holds_at_issue hs.live
  have hh' := holds_at_issue hs.live'
  have hz : opcode (pathWord ρ i) ≠ .zero := by
    intro hz
    obtain ⟨-, -, hj, hb⟩ := zero_quiet ρ.x hz (pathItem ρ i).held
    rw [taken_at_issue hs.live] at ht
    exact Bool.false_ne_true ((redirects_quiet _ _ _ hj hb).symm.trans ht)
  have htype := ((effect_same hx hs ho hl).2.2 hz).typeInstruction
  have hnext : (ρ'.state (issueClock ρ' i)).execFlags.nextPC =
      (ρ.state (issueClock ρ i)).execFlags.nextPC := by
    rw [hh.flags, hh'.flags]; exact htype
  have hpc : (ρ'.state (issueClock ρ' i)).execVals.pc =
      (ρ.state (issueClock ρ i)).execVals.pc := hh'.pc.trans (hs.pc.trans hh.pc.symm)
  have himm : (ρ'.state (issueClock ρ' i)).execVals.imm32 =
      (ρ.state (issueClock ρ i)).execVals.imm32 :=
    hh'.imm32.trans ((congrArg calcImmediate hs.word).trans hh.imm32.symm)
  rw [nextPC_of_taken hs.live ht,
    nextPC_of_taken hs.live' ((taken_same hx hs ho hl).trans ht), redirectTarget,
    redirectTarget, hnext, hpc, himm, rs1Val_same h]

theorem samePath_succ (hx : ρ'.x = ρ.x) (h : ∀ j ≤ i, SamePath ρ ρ' j)
    (ho : ∀ j ≤ i, opcode (pathWord ρ j) ≠ .other)
    (hl : LatchesAgree (pathWord ρ i) (pathControl ρ' i) (pathControl ρ i))
    (hw : fetch ρ'.imem (pathPc ρ (i + 1)) = pathWord ρ (i + 1)) : SamePath ρ ρ' (i + 1) := by
  have hs := h i le_rfl
  have hoi := ho i le_rfl
  have ht := taken_same hx hs hoi hl
  have hlive : Live ρ (issueClock ρ (i + 1)) :=
    (live_of_words fun j hj => ho j (Nat.lt_succ_iff.mp hj)).mono (Nat.le_add_right _ 2)
  have hlive' : Live ρ' (issueClock ρ' (i + 1)) := by
    apply (live_of_words _).mono (Nat.le_add_right _ 2)
    intro j hj
    rw [(h j (Nat.lt_succ_iff.mp hj)).word]
    exact ho j (Nat.lt_succ_iff.mp hj)
  have hpc : pathPc ρ' (i + 1) = pathPc ρ (i + 1) := by
    rw [pathPc_succ, pathPc_succ, ht, hs.pc]
    split_ifs with htaken
    · exact target_same hx h hoi hl htaken
    · rfl
  have hword : pathWord ρ' (i + 1) = pathWord ρ (i + 1) := by rw [pathWord, hpc, hw]
  refine ⟨hlive, hlive', ?_, hpc, ?_, hword⟩
  · rw [issue_gap hs.live hoi, issue_gap hs.live' (by rw [hs.word]; exact hoi), hword, hs.word,
      ht, hs.clock]
  · rw [pathArch_succ hlive, pathArch_succ hlive']
    exact (effect_same hx hs hoi hl).1

theorem samePath_zero (hs : ρ'.start = ρ.start)
    (hw : fetch ρ'.imem (pathPc ρ 0) = pathWord ρ 0) : SamePath ρ ρ' 0 := by
  have hpc : pathPc ρ' 0 = pathPc ρ 0 := congrArg PowerOn.entry hs
  refine ⟨live_first.mono (Nat.le_add_right _ 2), live_first.mono (Nat.le_add_right _ 2), rfl,
    hpc, ?_, ?_⟩
  · rw [pathArch_zero, pathArch_zero, hs]
  · rw [pathWord, hpc, hw]

/-- The run lemma: the runs share the path up to and including the first exit word. -/
theorem samePath_run (ha : AgreesOnPath ρ imem) (hl : SameLatches ρ imem) {m : ℕ}
    (ho : ∀ j < m, opcode (pathWord ρ j) ≠ .other) :
    ∀ j ≤ m, SamePath ρ (withImage ρ imem) j := by
  have hw : ∀ j ≤ m, fetch imem (pathPc ρ j) = pathWord ρ j := fun j hj =>
    ha j ((live_of_words fun a haj => ho a (by omega)).mono (Nat.le_add_right _ 2))
  induction m with
  | zero =>
    intro j hj
    rw [Nat.le_zero.mp hj]
    exact samePath_zero rfl (hw 0 le_rfl)
  | succ m ih =>
    have hm := ih (fun j hj => ho j (by omega)) fun j hj => hw j (by omega)
    intro j hj
    rcases Nat.le_succ_iff.mp hj with hj | rfl
    · exact hm j hj
    · have hom : ∀ j ≤ m, opcode (pathWord ρ j) ≠ .other := fun j hj => ho j (by omega)
      exact samePath_succ rfl hm hom (hl m hom) (hw (m + 1) le_rfl)

theorem retirement_at (hl : Live ρ (issueClock ρ i + 2)) :
    retirement (ρ.state (issueClock ρ i + 2)) =
      if opcode (pathWord ρ i) = .zero then none
      else some ⟨pathPc ρ i, rdId (pathWord ρ i), (pathControl ρ i).regWrite,
        writeBack (pathControl ρ i) (pathPc ρ i) (pathWord ρ i) (pathArch ρ i)⟩ := by
  have hv : (ρ.state (issueClock ρ i + 2)).outputs.validOut = _ := valid_in_wb hl
  have hpc : (ρ.state (issueClock ρ i + 2)).outputs.pcOut = pathPc ρ i := pc_in_wb hl
  obtain ⟨hr, hd⟩ := wb_at hl
  rw [retirement, hv, hpc, result_at_issue hl, State.outputs, hr, hd]
  by_cases hz : opcode (pathWord ρ i) = .zero <;> simp [hz]

theorem retirement_elsewhere (hl : Live ρ k) (hk : ∀ i, k ≠ issueClock ρ i + 2) :
    retirement (ρ.state k) = none := by
  apply if_neg
  intro hv
  obtain ⟨i, hi, _⟩ := valid_of_live hl hv
  exact hk i hi

theorem retirement_same (hx : ρ'.x = ρ.x) (h : SamePath ρ ρ' i)
    (hl : LatchesAgree (pathWord ρ i) (pathControl ρ' i) (pathControl ρ i))
    (ho : opcode (pathWord ρ i) ≠ .other) (hr : Live ρ (issueClock ρ i + 2))
    (hr' : Live ρ' (issueClock ρ' i + 2)) :
    retirement (ρ'.state (issueClock ρ' i + 2)) = retirement (ρ.state (issueClock ρ i + 2)) := by
  rw [retirement_at hr, retirement_at hr', h.word, h.pc, h.arch]
  by_cases hz : opcode (pathWord ρ i) = .zero
  · rw [if_pos hz, if_pos hz]
  · have hag := (effect_same hx h ho hl).2.2 hz
    rw [if_neg hz, if_neg hz, hag.regWrite, writeBack_congr _ _ _ hag]

theorem contents_same {m : ℕ} (h : ∀ j ≤ m, SamePath ρ ρ' j) (hs : ρ'.start = ρ.start)
    (hl : Live ρ (k + 1)) (hl' : Live ρ' (k + 1)) (hk : k ≤ issueClock ρ m + 1) :
    (ρ'.state k).registers = (ρ.state k).registers ∧ (ρ'.state k).dmem = (ρ.state k).dmem := by
  cases k with
  | zero =>
    exact ⟨congrArg PowerOn.registers hs, congrArg PowerOn.dmem hs⟩
  | succ n =>
    have hd := drained_same h (n := n) (by omega)
    refine ⟨?_, congrArg Arch.dmem hd⟩
    rw [registers_next (hl.mono (Nat.le_succ _)), registers_next (hl'.mono (Nat.le_succ _)), hd]

theorem reached_same {m : ℕ} (h : ∀ j ≤ m, SamePath ρ ρ' j) (hk : k ≤ issueClock ρ m + 1)
    (hi : issueClock ρ' i + 2 ≤ k) : i < m := by
  by_contra hne
  have hmono := (issueClock_strictMono (ρ := ρ')).monotone (not_lt.mp hne)
  rw [(h m le_rfl).clock] at hmono
  omega

theorem live_same {m : ℕ} (h : ∀ j ≤ m, SamePath ρ ρ' j) (hk : k ≤ issueClock ρ m + 1)
    (ho : ∀ j < m, opcode (pathWord ρ j) ≠ .other) : Live ρ' (k + 1) := by
  apply live_of_no_exit
  intro i hi
  have him : i < m := reached_same h hk (Nat.lt_succ_iff.mp hi)
  rw [(h i him.le).word]
  exact ho i him

/-- Words off the executed path are invisible when no JAL, JALR or undefined BRANCH sees
other latches in the one run than in the other. -/
theorem wrong_path_invisible (ρ : Run) (imem : MemArray) (ha : AgreesOnPath ρ imem)
    (hl : SameLatches ρ imem) : Invisible ρ imem := by
  intro k hk
  have hlive : Live ρ (k + 1) := live_of_not_exit hk
  -- `m` words of the path have been in WB; the runs share the path up to word `m`.
  obtain ⟨m, hm⟩ := exists_issued (stageClock_strictMono (ρ := ρ) 2) (k + 1)
  have ho : ∀ j < m, opcode (pathWord ρ j) ≠ .other := by
    intro j hj
    exact no_exit_of_live hlive ((hm j).mpr hj)
  have hsame := samePath_run ha hl ho
  have hlast : k ≤ issueClock ρ m + 1 := by
    have := mt (hm m).mp (lt_irrefl m)
    omega
  have hlive' : Live (withImage ρ imem) (k + 1) := live_same hsame hlast ho
  refine ⟨hlive' k (Nat.lt_succ_self k), ?_, contents_same hsame rfl hlive hlive' hlast⟩
  by_cases hi : ∃ i, k = issueClock ρ i + 2
  · obtain ⟨i, rfl⟩ := hi
    have him : i < m := (hm i).mp (Nat.lt_succ_self _)
    have hs := hsame i him.le
    have hclock := hs.clock
    have hret := retirement_same (show (withImage ρ imem).x = ρ.x from rfl) hs
      (hl i fun j hj => ho j (by omega)) (ho i him) (hlive.mono (Nat.le_succ _))
      (by rw [hclock]; exact hlive'.mono (Nat.le_succ _))
    rwa [hclock] at hret
  · have hne : ∀ i, k ≠ issueClock ρ i + 2 := fun i h => hi ⟨i, h⟩
    rw [retirement_elsewhere (hlive.mono (Nat.le_succ k)) hne]
    apply retirement_elsewhere (hlive'.mono (Nat.le_succ k))
    intro i hk'
    apply hne i
    rw [← (hsame i (reached_same hsame hlast hk'.ge).le).clock]
    exact hk'

/-! BEQ x0, x0, 8 over one shadow word to JAL x1, 8, which jumps over a zero word to ECALL. -/

def overShadow (shadow : Word) : Run :=
  bootProgram [0x00000463#32, shadow, 0x008000EF#32, 0x00000000#32, 0x00000073#32]

def addShadow : Word := 0x00000033#32
def subShadow : Word := 0x40000033#32
def addiShadow : Word := 0x00000013#32

theorem overShadow_agrees (shadow : Word) :
    AgreesOnPath (overShadow addShadow) (overShadow shadow).imem := by
  have hx : ((overShadow addShadow).state 10).bitExitWB = true := by decide +kernel
  intro i hi
  have h5 : i < 5 := by
    by_contra hne
    have hc : issueClock (overShadow addShadow) 5 = 11 := by decide +kernel
    have := issueClock_strictMono (ρ := overShadow addShadow) |>.monotone (not_lt.mp hne)
    rw [hi 10 (by omega)] at hx
    cases hx
  interval_cases i <;> rfl

/-- The link address is 12 over an ADD in the shadow and 4 over a SUB. -/
theorem shadow_sub_changes_link :
    AgreesOnPath (overShadow addShadow) (overShadow subShadow).imem ∧
    (retirement ((overShadow addShadow).state 7)).map Retirement.resultWB = some 12#32 ∧
    (retirement ((overShadow subShadow).state 7)).map Retirement.resultWB = some 4#32 ∧
    ¬ Invisible (overShadow addShadow) (overShadow subShadow).imem := by
  refine ⟨overShadow_agrees _, by decide +kernel, by decide +kernel, fun h => ?_⟩
  have hret := (h 7 (by decide +kernel)).2.1
  exact absurd hret (by decide +kernel)

theorem shadow_addi_invisible :
    Invisible (overShadow addShadow) (overShadow addiShadow).imem := by
  apply wrong_path_invisible _ _ (overShadow_agrees _)
  intro i hi
  have h2 : i < 2 := by
    by_contra hne
    exact hi 2 (not_lt.mp hne) (by decide +kernel)
  interval_cases i
  · exact ⟨fun h => absurd h (by decide +kernel), fun h => absurd h (by decide +kernel)⟩
  · exact ⟨fun _ => by decide +kernel, fun h => absurd h (by decide +kernel)⟩

end PipelineWrongPath
