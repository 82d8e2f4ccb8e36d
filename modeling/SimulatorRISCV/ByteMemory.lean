import Mathlib.Data.List.Induction
import Mathlib.Tactic.Common

/-! # Byte-addressed memory under a history of stores

Addresses are natural numbers, bytes are any type, and a store covers an interval. A history
is replayed by performing its operations, the oldest first. -/
namespace ByteMemory

section Replay

variable {σ ω : Type*} (step : ω → σ → σ)

def replay (history : List ω) (s : σ) : σ := history.foldl (fun s op => step op s) s

theorem replay_append (h₁ h₂ : List ω) (s : σ) :
    replay step (h₁ ++ h₂) s = replay step h₂ (replay step h₁ s) := List.foldl_append

theorem replay_snoc (h : List ω) (op : ω) (s : σ) :
    replay step (h ++ [op]) s = step op (replay step h s) := replay_append step h [op] s

end Replay

variable {β : Type*}

structure Store (β : Type*) where
  addr : ℕ
  size : ℕ
  byte : ℕ → β

def Store.Covers (st : Store β) (a : ℕ) : Prop := st.addr ≤ a ∧ a < st.addr + st.size

instance (st : Store β) (a : ℕ) : Decidable (st.Covers a) :=
  inferInstanceAs (Decidable (_ ∧ _))

def Store.apply (st : Store β) (m : ℕ → β) : ℕ → β :=
  fun a => if st.Covers a then st.byte (a - st.addr) else m a

/-- The byte of the most recent store that covers the address, else the initial byte. -/
def lastStored (history : List (Store β)) (initial : ℕ → β) (a : ℕ) : β :=
  match history.reverse.find? (fun st => st.Covers a) with
  | some st => st.byte (a - st.addr)
  | none => initial a

theorem apply_covered {st : Store β} {a : ℕ} (h : st.Covers a) (m : ℕ → β) :
    st.apply m a = st.byte (a - st.addr) := if_pos h

theorem apply_frame {st : Store β} {a : ℕ} (h : ¬ st.Covers a) (m : ℕ → β) :
    st.apply m a = m a := if_neg h

/-- Stores that miss an address leave its byte alone. -/
theorem replay_frame {h : List (Store β)} {a : ℕ} (hm : ∀ st ∈ h, ¬ st.Covers a) (m : ℕ → β) :
    replay Store.apply h m a = m a := by
  induction h generalizing m with
  | nil => rfl
  | cons st h ih =>
    have htail : ∀ st ∈ h, ¬ st.Covers a := fun st' hst => hm st' (List.mem_cons_of_mem st hst)
    calc replay Store.apply (st :: h) m a
      _ = replay Store.apply h (st.apply m) a := rfl
      _ = st.apply m a := ih htail _
      _ = m a := apply_frame (hm st List.mem_cons_self) m

/-- Replaying a history leaves in every address what was stored there last. -/
theorem replay_eq_lastStored (history : List (Store β)) (initial : ℕ → β) (a : ℕ) :
    replay Store.apply history initial a = lastStored history initial a := by
  induction history using List.reverseRecOn with
  | nil => rfl
  | append_singleton h st ih =>
    rw [replay_snoc, lastStored, List.reverse_append]
    by_cases hc : st.Covers a
    · simp [Store.apply, hc]
    · rw [apply_frame hc, ih]
      simp [lastStored, hc]

end ByteMemory
