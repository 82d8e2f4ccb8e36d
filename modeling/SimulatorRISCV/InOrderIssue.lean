import Mathlib.Order.WellFounded
import Mathlib.Data.Nat.Find
import Mathlib.Data.List.Basic

/-! # In-order issue with stalls and redirects

A front end that issues one path item at a time. A stall costs one empty slot and a
redirect two. The slots are clocks; items, their successor and the signals are arbitrary. -/
namespace InOrderIssue

variable {α : Type*} {β : Type*}

/-- Where the next path item waits: two slots, one slot or none before it issues. -/
inductive Front (α : Type*) where
  | fetch (a : α)
  | decode (a : α)
  | execute (a : α)

structure Signals (α : Type*) where
  stall : Bool
  redirect : Option α

/-- Signals count only in a slot that issues; a redirect wins over a stall. -/
def Front.advance (next : α → α) (σ : Signals α) : Front α → Front α
  | .fetch a => .decode a
  | .decode a => .execute a
  | .execute a =>
    match σ.redirect with
    | some b => .fetch b
    | none => if σ.stall then .decode (next a) else .execute (next a)

def Front.item : Front α → α
  | .fetch a | .decode a | .execute a => a

def Front.lag : Front α → ℕ
  | .fetch _ => 2
  | .decode _ => 1
  | .execute _ => 0

def front (next : α → α) (entry : α) (σ : ℕ → Signals α) : ℕ → Front α
  | 0 => .fetch entry
  | n + 1 => (front next entry σ n).advance next (σ n)

def Signals.gap (σ : Signals α) : ℕ :=
  1 + (if σ.redirect.isSome then 2 else if σ.stall then 1 else 0)

def issue (σ : ℕ → Signals α) : ℕ → ℕ
  | 0 => 2
  | i + 1 => issue σ i + (σ (issue σ i)).gap

def path (next : α → α) (entry : α) (σ : ℕ → Signals α) : ℕ → α
  | 0 => entry
  | i + 1 => ((σ (issue σ i)).redirect).getD (next (path next entry σ i))

theorem issue_succ (σ : ℕ → Signals α) (i : ℕ) :
    issue σ (i + 1) = issue σ i + (σ (issue σ i)).gap := rfl

theorem issue_strictMono (σ : ℕ → Signals α) : StrictMono (issue σ) := by
  apply strictMono_nat_of_lt_succ
  intro i
  rw [issue_succ, Signals.gap]
  omega

theorem two_le_issue (σ : ℕ → Signals α) (i : ℕ) : 2 ≤ issue σ i :=
  (issue_strictMono σ).monotone (Nat.zero_le i)

variable (next : α → α) (entry : α) (σ : ℕ → Signals α)

/-- The `i`-th path item issues exactly in slot `issue σ i`. -/
theorem front_issue (i : ℕ) :
    front next entry σ (issue σ i) = .execute (path next entry σ i) := by
  induction i with
  | zero => rfl
  | succ i ih =>
    rw [issue_succ, path, Signals.gap]
    cases hr : (σ (issue σ i)).redirect with
    | some b => simp [front, ih, Front.advance, hr]
    | none => cases hs : (σ (issue σ i)).stall <;> simp [front, ih, Front.advance, hr, hs]

theorem front_located (n : ℕ) : ∃ i, (front next entry σ n).item = path next entry σ i ∧
    issue σ i = n + (front next entry σ n).lag := by
  induction n with
  | zero => exact ⟨0, rfl, rfl⟩
  | succ n ih =>
    obtain ⟨i, hp, hi⟩ := ih
    cases hf : front next entry σ n with
    | fetch a =>
      rw [hf] at hp hi
      exact ⟨i, by rw [front, hf]; exact hp, by rw [front, hf]; exact hi⟩
    | decode a =>
      rw [hf] at hp hi
      exact ⟨i, by rw [front, hf]; exact hp, by rw [front, hf]; exact hi⟩
    | execute a =>
      rw [hf] at hp hi
      simp only [Front.item, Front.lag, Nat.add_zero] at hp hi
      refine ⟨i + 1, ?_, ?_⟩
      · rw [path, hi, ← hp, front, hf, Front.advance]
        cases (σ n).redirect with
        | some b => rfl
        | none => cases hs : (σ n).stall <;> simp [Front.item]
      · rw [issue_succ, hi, Signals.gap, front, hf, Front.advance]
        cases (σ n).redirect with
        | some b => simp [Front.lag]
        | none => cases hs : (σ n).stall <;> simp [Front.lag]

theorem issued_before {n i : ℕ} (h : issue σ i = n + (front next entry σ n).lag) {k : ℕ}
    (hk : k < i) : issue σ k < n := by
  by_contra hn
  have hlt := issue_strictMono σ hk
  have hexec := front_issue next entry σ k
  cases hf : front next entry σ n with
  | fetch a =>
    rw [hf] at h
    simp only [Front.lag] at h
    obtain hk0 | hk1 : issue σ k = n ∨ issue σ k = n + 1 := by omega
    · rw [hk0, hf] at hexec
      cases hexec
    · rw [hk1, front, hf] at hexec
      cases hexec
  | decode a =>
    rw [hf] at h
    simp only [Front.lag] at h
    have hk0 : issue σ k = n := by omega
    rw [hk0, hf] at hexec
    cases hexec
  | execute a =>
    rw [hf] at h
    simp only [Front.lag] at h
    omega

theorem front_execute {n : ℕ} {a : α} (h : front next entry σ n = .execute a) :
    ∃ i, n = issue σ i ∧ a = path next entry σ i := by
  obtain ⟨i, hp, hi⟩ := front_located next entry σ n
  rw [h] at hp hi
  exact ⟨i, hi.symm, hp⟩

theorem front_not_execute {n : ℕ} (h : ∀ i, n ≠ issue σ i) :
    0 < (front next entry σ n).lag := by
  cases hf : front next entry σ n with
  | fetch a => exact Nat.succ_pos 1
  | decode a => exact Nat.succ_pos 0
  | execute a =>
    obtain ⟨i, hi, _⟩ := front_execute next entry σ hf
    exact absurd hi (h i)

theorem exists_issued {c : ℕ → ℕ} (hc : StrictMono c) (k : ℕ) :
    ∃ m, ∀ i, c i < k ↔ i < m := by
  have hex : ∃ i, k ≤ c i := ⟨k, hc.le_apply⟩
  refine ⟨Nat.find hex, ?_⟩
  intro i
  constructor
  · intro hi
    by_contra hn
    have := hc.monotone (not_lt.mp hn)
    have := Nat.find_spec hex
    omega
  · intro hi
    exact not_le.mp (Nat.find_min hex hi)

/-- Observations made only in the slots `c i` list, in order, what the items contribute. -/
theorem observed {c : ℕ → ℕ} (hc : StrictMono c) (obs f : ℕ → List β) {k m : ℕ}
    (hm : ∀ i, c i < k ↔ i < m) (hitem : ∀ i, c i < k → obs (c i) = f i)
    (hnone : ∀ n, n < k → (∀ i, n ≠ c i) → obs n = []) :
    (List.range k).flatMap obs = (List.range m).flatMap f := by
  -- Induction on the number of slots; `m` grows exactly when the last of them issues.
  induction k generalizing m with
  | zero =>
    have hm0 : m = 0 := by
      by_contra hne
      have := (hm 0).mpr (by omega)
      omega
    rw [hm0]
    rfl
  | succ k ih =>
    rw [List.range_succ, List.flatMap_append, List.flatMap_singleton]
    by_cases h : ∃ j, k = c j
    · obtain ⟨j, hj⟩ := h
      have hk : ∀ i, c i < k ↔ i < j := by
        intro i
        rw [hj, hc.lt_iff_lt]
      have hmj : m = j + 1 := by
        have h0 := (hm j).mp (by omega)
        have h1 := mt (hm (j + 1)).mpr (by have := hc (Nat.lt_add_one j); omega)
        omega
      have hlast : obs k = f j := by rw [hj]; exact hitem j (by omega)
      rw [ih hk (fun i hi => hitem i (by omega)) (fun n hn => hnone n (by omega)), hmj,
        List.range_succ, List.flatMap_append, List.flatMap_singleton, hlast]
    · have hk : ∀ i, c i < k ↔ i < m := by
        intro i
        rw [← hm i]
        have : k ≠ c i := fun hi => h ⟨i, hi⟩
        omega
      rw [ih hk (fun i hi => hitem i (by omega)) (fun n hn => hnone n (by omega)),
        hnone k (Nat.lt_add_one k) (fun i hi => h ⟨i, hi⟩), List.append_nil]

theorem observed_option {c : ℕ → ℕ} (hc : StrictMono c) (obs f : ℕ → Option β) {k m : ℕ}
    (hm : ∀ i, c i < k ↔ i < m) (hitem : ∀ i, c i < k → obs (c i) = f i)
    (hnone : ∀ n, n < k → (∀ i, n ≠ c i) → obs n = none) :
    (List.range k).filterMap obs = (List.range m).filterMap f := by
  rw [List.filterMap_eq_flatMap_toList, List.filterMap_eq_flatMap_toList]
  apply observed hc _ _ hm
  · intro i hi
    rw [hitem i hi]
  · intro n hn hne
    rw [hnone n hn hne]
    rfl

end InOrderIssue
