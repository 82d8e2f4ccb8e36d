import SimulatorRISCV.PipelineSimulator
import SimulatorRISCV.InOrderIssue

/-! # The fetch, decode and execute stages issue one path in order

A path item is an address together with the control latches its word is decoded over.
Until bit_exit_WB rises, the front stages of the machine hold the slots of the in-order
front end: execute holds the item that issues, or a bubble. -/
namespace PipelineIssue

open PipelineDecoder PipelineDatapath PipelineSimulator InOrderIssue

structure Item where
  pc : Word
  held : ControlSignals

section

variable (x : XValues) (imem : MemArray)

def itemControl (a : Item) : ControlSignals := decodeControl x (fetch imem a.pc) a.held

def nextItem (a : Item) : Item := ⟨a.pc + 4#32, itemControl x imem a⟩

/-- After a redirect decode holds the zero word over the latches the shadow word left. -/
def signals (s : State) : Signals Item where
  stall := s.loadStallExec
  redirect := if s.branchIsTakenExec then some ⟨s.nextPC, decodeControl x 0#32 s.control⟩
    else none

end

def flagsOf (c : ControlSignals) : ExecFlags where
  memToReg := c.memToReg
  memWrite := c.memWrite
  aluSrc1 := c.aluSrc1
  aluSrc2 := c.aluSrc2
  regWrite := c.regWrite
  branch := c.branch
  invertBranchTriger := c.invertBranchTriger
  jump := c.jump
  nextPC := c.typeInstruction
  bitExit := c.bitExit
  valid := c.valid

structure ExecHolds (x : XValues) (imem : MemArray) (a : Item) (s : State) : Prop where
  pc : s.execVals.pc = a.pc
  imm32 : s.execVals.imm32 = calcImmediate (fetch imem a.pc)
  rs1n : s.execVals.rs1n = rs1Id (fetch imem a.pc)
  rs2n : s.execVals.rs2n = rs2Id (fetch imem a.pc)
  rdn : s.execVals.rdn = rdId (fetch imem a.pc)
  aluOp : s.execVals.aluOp = (itemControl x imem a).aluOp
  memWidth : s.execVals.memWidth = memWidth (fetch imem a.pc)
  flags : s.execFlags = flagsOf (itemControl x imem a)

structure ExecBubble (s : State) : Prop where
  pc : s.execVals.pc = 0#32
  memToReg : s.execFlags.memToReg = false
  memWrite : s.execFlags.memWrite = false
  regWrite : s.execFlags.regWrite = false
  branch : s.execFlags.branch = false
  jump : s.execFlags.jump = false
  bitExit : s.execFlags.bitExit = false
  valid : s.execFlags.valid = false

/-- The contents of fetch, decode and execute for each position of the next path item. -/
inductive Shape (x : XValues) (imem : MemArray) (s : State) : Front Item → Prop where
  | fetch (a : Item) : Coherent a.held → s.pc = a.pc → s.decode = 0 → s.control = a.held →
      decodeControl x 0#32 a.held = a.held → ExecBubble s → Shape x imem s (.fetch a)
  | decode (a : Item) : Coherent a.held → s.pc = a.pc + 4#32 →
      s.decode = ⟨a.pc, fetch imem a.pc⟩ → s.control = itemControl x imem a →
      ExecBubble s → Shape x imem s (.decode a)
  | execute (a : Item) : Coherent a.held → s.pc = a.pc + 8#32 →
      s.decode = ⟨a.pc + 4#32, fetch imem (a.pc + 4#32)⟩ →
      s.control = itemControl x imem (nextItem x imem a) →
      ExecHolds x imem a s → Shape x imem s (.execute a)

theorem ExecBubble.no_stall {s : State} (h : ExecBubble s) : s.loadStallExec = false := by
  simp [State.loadStallExec, loadStall, h.memToReg]

theorem ExecBubble.not_taken {s : State} (h : ExecBubble s) : s.branchIsTakenExec = false := by
  simp [State.branchIsTakenExec, branchIsTaken, h.jump, h.branch]

theorem bubble_of_flush {s : State} (hv : s.execVals = 0) (hf : s.execFlags = 0) :
    ExecBubble s := by
  constructor <;> first | rw [hv]; rfl | rw [hf]; rfl

variable {x : XValues} {imem : MemArray} {s : State}

theorem bubble_of_zero {t : State} (hd : s.decode = 0)
    (hc : decodeControl x 0#32 s.control = s.control) (hv : t.execVals = s.decodedVals)
    (hf : t.execFlags = s.decodedFlags) : ExecBubble t := by
  have hz : ∀ c : ControlSignals, flagsOf (decodeControl x 0#32 c) =
      ⟨false, false, x.aluSrc1, x.aluSrc2, false, false, c.invertBranchTriger, false, 0#2,
        false, false⟩ := fun _ => rfl
  have hflags : t.execFlags = flagsOf (decodeControl x 0#32 s.control) := by rw [hf, hc]; rfl
  rw [hz] at hflags
  constructor
  · rw [hv]; simp [State.decodedVals, hd]; rfl
  all_goals rw [hflags]

theorem holds_of_decoded {t : State} {a : Item} (hd : s.decode = ⟨a.pc, fetch imem a.pc⟩)
    (hc : s.control = itemControl x imem a) (hv : t.execVals = s.decodedVals)
    (hf : t.execFlags = s.decodedFlags) : ExecHolds x imem a t := by
  constructor
  case flags => rw [hf, ← hc]; rfl
  case aluOp => rw [hv, ← hc]; rfl
  all_goals rw [hv]; simp only [State.decodedVals, hd]

/-- A load never redirects: the two signals come from cases that exclude each other. -/
theorem no_stall_of_taken {a : Item} (hc : Coherent a.held) (h : ExecHolds x imem a s)
    (ht : s.branchIsTakenExec = true) : s.loadStallExec = false := by
  have hcc : Coherent (itemControl x imem a) := decodeControl_coherent x _ hc
  cases hm : (itemControl x imem a).memToReg with
  | false => simp [State.loadStallExec, loadStall, h.flags, flagsOf, hm]
  | true =>
    obtain ⟨_, hb, hj⟩ := hcc.load_quiet hm
    simp [State.branchIsTakenExec, branchIsTaken, h.flags, flagsOf, hb, hj] at ht

/-! One lemma for each way a front stage advances. -/
section Advance

variable {a : Item} (hr : s.bitExitWB = false)
include hr

theorem shape_fetch (h : Shape x imem s (.fetch a)) :
    Shape x imem (clockCycle x imem false s) (.decode a) := by
  cases h with
  | fetch _ hco hpc hdec hctl hz hb =>
    obtain ⟨hp, hd, hv, hf⟩ := running_flow hr x imem hb.no_stall hb.not_taken
    refine .decode a hco ?_ ?_ ?_ ?_
    · rw [hp, hpc]
    · rw [hd, hpc]
    · rw [clockCycle_control, hd, hctl, hpc]; rfl
    · exact bubble_of_zero hdec (by rw [hctl, hz]) hv hf

theorem shape_decode (h : Shape x imem s (.decode a)) :
    Shape x imem (clockCycle x imem false s) (.execute a) := by
  cases h with
  | decode _ hco hpc hdec hctl hb =>
    obtain ⟨hp, hd, hv, hf⟩ := running_flow hr x imem hb.no_stall hb.not_taken
    refine .execute a hco ?_ ?_ ?_ ?_
    · rw [hp, hpc, BitVec.add_assoc]; rfl
    · rw [hd, hpc]
    · rw [clockCycle_control, hd, hctl, hpc]; rfl
    · exact holds_of_decoded hdec hctl hv hf

/-- A redirect flushes the two words behind it. -/
theorem shape_redirect (h : Shape x imem s (.execute a)) (ht : s.branchIsTakenExec = true) :
    Shape x imem (clockCycle x imem false s)
      (.fetch ⟨s.nextPC, decodeControl x 0#32 s.control⟩) := by
  cases h with
  | execute _ hco hpc hdec hctl hh =>
    obtain ⟨hp, hd, hv, hf⟩ := running_flush hr x imem (no_stall_of_taken hco hh ht) ht
    refine .fetch _ (decodeControl_zero_coherent x _) hp hd ?_
      (decodeControl_idempotent x _ _) (bubble_of_flush hv hf)
    rw [clockCycle_control, hd]; rfl

theorem shape_stall (h : Shape x imem s (.execute a)) (ht : s.branchIsTakenExec = false)
    (hs : s.loadStallExec = true) :
    Shape x imem (clockCycle x imem false s) (.decode (nextItem x imem a)) := by
  cases h with
  | execute _ hco hpc hdec hctl hh =>
    obtain ⟨hp, hd, hv, hf⟩ := running_stall hr x imem hs ht
    refine .decode _ (decodeControl_coherent x _ hco) ?_ (by rw [hd, hdec]; rfl) ?_
      (bubble_of_flush hv hf)
    · rw [hp, hpc, nextItem, BitVec.add_assoc]; rfl
    · rw [clockCycle_control, hd, hdec, hctl]; exact decodeControl_idempotent x _ _

theorem shape_flow (h : Shape x imem s (.execute a)) (ht : s.branchIsTakenExec = false)
    (hs : s.loadStallExec = false) :
    Shape x imem (clockCycle x imem false s) (.execute (nextItem x imem a)) := by
  cases h with
  | execute _ hco hpc hdec hctl hh =>
    obtain ⟨hp, hd, hv, hf⟩ := running_flow hr x imem hs ht
    refine .execute _ (decodeControl_coherent x _ hco) ?_ ?_ ?_
      (holds_of_decoded hdec hctl hv hf)
    · rw [hp, hpc, nextItem, BitVec.add_assoc, BitVec.add_assoc]; rfl
    · rw [hd, hpc, nextItem, BitVec.add_assoc]; rfl
    · rw [clockCycle_control, hd, hctl, hpc]
      simp only [itemControl, nextItem, BitVec.add_assoc]; rfl

theorem shape_step {f : Front Item} (h : Shape x imem s f) :
    Shape x imem (clockCycle x imem false s) (f.advance (nextItem x imem) (signals x s)) := by
  cases f with
  | fetch a => exact shape_fetch hr h
  | decode a => exact shape_decode hr h
  | execute a =>
    cases ht : s.branchIsTakenExec with
    | true =>
      simp only [Front.advance, signals, ht, ↓reduceIte]
      exact shape_redirect hr h ht
    | false =>
      cases hs : s.loadStallExec with
      | true =>
        simp only [Front.advance, signals, ht, hs, Bool.false_eq_true, ↓reduceIte]
        exact shape_stall hr h ht hs
      | false =>
        simp only [Front.advance, signals, ht, hs, Bool.false_eq_true, ↓reduceIte]
        exact shape_flow hr h ht hs

end Advance

variable (ρ : Run)

def runSignals (n : ℕ) : Signals Item := signals ρ.x (ρ.state n)

/-- The zero word in decode at power-on settles the latches before the first fetch. -/
def entryItem : Item := ⟨ρ.start.entry, decodeControl ρ.x 0#32 ρ.start.latches⟩

/-- The clock in which the `i`-th word of the path is in execute. -/
def issueClock (i : ℕ) : ℕ := issue (runSignals ρ) i

def pathItem (i : ℕ) : Item := path (nextItem ρ.x ρ.imem) (entryItem ρ) (runSignals ρ) i

def pathPc (i : ℕ) : Word := (pathItem ρ i).pc
def pathWord (i : ℕ) : Word := fetch ρ.imem (pathPc ρ i)
def pathControl (i : ℕ) : ControlSignals := itemControl ρ.x ρ.imem (pathItem ρ i)

def Live (n : ℕ) : Prop := ∀ m < n, (ρ.state m).bitExitWB = false

variable {ρ}

theorem Live.mono {m n : ℕ} (h : Live ρ n) (hmn : m ≤ n) : Live ρ m :=
  fun k hk => h k (lt_of_lt_of_le hk hmn)

theorem Live.succ {n : ℕ} (h : Live ρ n) (hn : (ρ.state n).bitExitWB = false) :
    Live ρ (n + 1) := by
  intro m hm
  rcases Nat.lt_succ_iff_lt_or_eq.mp hm with hm | rfl
  · exact h m hm
  · exact hn

theorem live_of_not_exit {n : ℕ} (h : (ρ.state n).bitExitWB = false) : Live ρ (n + 1) := by
  intro m hm
  apply Bool.eq_false_iff.mpr
  intro hx
  rw [ρ.bitExit_mono (Nat.lt_succ_iff.mp hm) hx] at h
  cases h

theorem issueClock_zero : issueClock ρ 0 = 2 := rfl

theorem issueClock_eq_add_two (ρ : Run) (i : ℕ) : ∃ n, issueClock ρ i = n + 2 := by
  have : 2 ≤ issueClock ρ i := two_le_issue _ i
  exact ⟨issueClock ρ i - 2, by omega⟩

theorem issueClock_succ (i : ℕ) : issueClock ρ (i + 1) = issueClock ρ i + 1 +
    (if (ρ.state (issueClock ρ i)).branchIsTakenExec then 2
     else if (ρ.state (issueClock ρ i)).loadStallExec then 1 else 0) := by
  rw [issueClock, issue_succ, Signals.gap, ← issueClock, Nat.add_assoc]
  cases ht : (ρ.state (issueClock ρ i)).branchIsTakenExec <;> simp [runSignals, signals, ht]

theorem issueClock_strictMono : StrictMono (issueClock ρ) := issue_strictMono _

theorem stageClock_strictMono (d : ℕ) : StrictMono (fun i => issueClock ρ i + d) :=
  fun _ _ h => Nat.add_lt_add_right (issueClock_strictMono h) d

theorem pathPc_succ (i : ℕ) : pathPc ρ (i + 1) =
    if (ρ.state (issueClock ρ i)).branchIsTakenExec then (ρ.state (issueClock ρ i)).nextPC
    else pathPc ρ i + 4#32 := by
  rw [pathPc, pathItem, path, ← issueClock]
  cases ht : (ρ.state (issueClock ρ i)).branchIsTakenExec <;>
    simp [runSignals, signals, ht, pathPc, pathItem, nextItem]

/-- A word that follows a redirect finds the latches of a bubble; any other word finds
those its predecessor left. -/
theorem pathHeld_succ (i : ℕ) : (pathItem ρ (i + 1)).held =
    if (ρ.state (issueClock ρ i)).branchIsTakenExec then
      decodeControl ρ.x 0#32 (ρ.state (issueClock ρ i)).control
    else pathControl ρ i := by
  rw [pathItem, path, ← issueClock]
  cases ht : (ρ.state (issueClock ρ i)).branchIsTakenExec <;>
    simp [runSignals, signals, ht, pathControl, pathItem, nextItem]

theorem run_shape {n : ℕ} (hl : Live ρ n) : Shape ρ.x ρ.imem (ρ.state n)
    (front (nextItem ρ.x ρ.imem) (entryItem ρ) (runSignals ρ) n) := by
  induction n with
  | zero =>
    exact .fetch _ (decodeControl_zero_coherent _ _) rfl rfl rfl
      (decodeControl_idempotent _ _ _) (bubble_of_flush rfl rfl)
  | succ n ih => exact shape_step (hl n (Nat.lt_succ_self n)) (ih (hl.mono (Nat.le_succ n)))

theorem shape_at_issue {i : ℕ} (hl : Live ρ (issueClock ρ i)) :
    Shape ρ.x ρ.imem (ρ.state (issueClock ρ i)) (.execute (pathItem ρ i)) := by
  have h := run_shape hl
  rwa [issueClock, front_issue] at h

theorem holds_at_issue {i : ℕ} (hl : Live ρ (issueClock ρ i)) :
    ExecHolds ρ.x ρ.imem (pathItem ρ i) (ρ.state (issueClock ρ i)) := by
  cases shape_at_issue hl with
  | execute _ _ _ _ _ hh => exact hh

theorem decode_at_issue {i : ℕ} (hl : Live ρ (issueClock ρ i)) :
    (ρ.state (issueClock ρ i)).decode =
      ⟨pathPc ρ i + 4#32, fetch ρ.imem (pathPc ρ i + 4#32)⟩ := by
  cases shape_at_issue hl with
  | execute _ _ _ hd _ _ => exact hd

theorem coherent_at_issue {i : ℕ} (hl : Live ρ (issueClock ρ i)) : Coherent (pathControl ρ i) := by
  cases shape_at_issue hl with
  | execute _ hc _ _ _ _ => exact decodeControl_coherent _ _ hc

/-- A path word enters execute from decode, with the registers of the clock before. -/
theorem decoded_before_issue {i : ℕ} (hl : Live ρ (issueClock ρ i)) :
    (ρ.state (issueClock ρ i)).execVals = (ρ.state (issueClock ρ i - 1)).decodedVals := by
  obtain ⟨m, hm⟩ := issueClock_eq_add_two ρ i
  obtain ⟨n, hn⟩ : ∃ n, issueClock ρ i = n + 1 := ⟨m + 1, hm⟩
  have hf := front_issue (nextItem ρ.x ρ.imem) (entryItem ρ) (runSignals ρ) i
  rw [← issueClock, hn, front] at hf
  rw [hn] at hl ⊢
  have hr := hl n (Nat.lt_succ_self n)
  have hsh := run_shape (hl.mono (Nat.le_succ n))
  rw [Nat.add_sub_cancel, Run.state, running_execVals hr]
  generalize front (nextItem ρ.x ρ.imem) (entryItem ρ) (runSignals ρ) n = f at hf hsh
  cases hsh with
  | fetch a _ _ _ _ _ hb => cases hf
  | decode a _ _ _ _ hb => rw [hb.no_stall, hb.not_taken]; rfl
  | execute a _ _ _ _ hh =>
    cases ht : (ρ.state n).branchIsTakenExec <;> cases hs : (ρ.state n).loadStallExec <;>
      simp [Front.advance, runSignals, signals, ht, hs] at hf ⊢

theorem bubble_elsewhere {n : ℕ} (hl : Live ρ n) (hn : ∀ i, n ≠ issueClock ρ i) :
    ExecBubble (ρ.state n) := by
  have hlag := front_not_execute (nextItem ρ.x ρ.imem) (entryItem ρ) (runSignals ρ) hn
  have h := run_shape hl
  cases hf : front (nextItem ρ.x ρ.imem) (entryItem ρ) (runSignals ρ) n with
  | fetch a =>
    rw [hf] at h
    cases h with
    | fetch _ _ _ _ _ _ hb => exact hb
  | decode a =>
    rw [hf] at h
    cases h with
    | decode _ _ _ _ _ hb => exact hb
  | execute a =>
    rw [hf] at hlag
    exact absurd hlag (lt_irrefl 0)

theorem issue_or_bubble {n : ℕ} (hl : Live ρ n) :
    (∃ i, n = issueClock ρ i) ∨ ExecBubble (ρ.state n) := by
  by_cases h : ∃ i, n = issueClock ρ i
  · exact Or.inl h
  · exact Or.inr (bubble_elsewhere hl (fun i hi => h ⟨i, hi⟩))

end PipelineIssue
