import Mathlib.Algebra.Group.Nat.Defs
import Mathlib.Data.List.TakeDrop
import Mathlib.Tactic.Common

/-! # Input streams on a file

A std::istream over the content of a file. Positions are signed 64 bit offsets. A read that
meets the end of the file sets failbit, and nothing here clears it; eofbit is only set
together with failbit, so failbit alone decides. -/
namespace InputStream

variable {β : Type*}

/-- A file and the largest offset that its file system seeks to. -/
structure File (β : Type*) where
  content : List β
  limit : ℕ
  inside : content.length ≤ limit
  small : limit < 2 ^ 63

structure Stream (β : Type*) extends File β where
  pos : ℕ
  fail : Bool

def File.opened (f : File β) : Stream β := ⟨f, 0, false⟩

/-- A seek beyond the end succeeds; one beyond the limit, as a negative offset is, does not. -/
def Stream.seekg (s : Stream β) (p : BitVec 64) : Stream β :=
  if s.fail then s
  else if s.limit < p.toNat then { s with fail := true }
  else { s with pos := p.toNat }

def Stream.seekEnd (s : Stream β) : Stream β :=
  if s.fail then s else { s with pos := s.content.length }

/-- As a size_t: the largest one when the stream has failed. -/
def Stream.tellg (s : Stream β) : BitVec 64 :=
  if s.fail then BitVec.allOnes 64 else BitVec.ofNat 64 s.pos

/-- What arrives, gcount() elements, and the stream behind it. -/
def Stream.read (s : Stream β) (n : ℕ) : List β × Stream β :=
  if s.fail then ([], s)
  else
    let got := (s.content.drop s.pos).take n
    (got, { s with pos := s.pos + got.length, fail := decide (got.length ≠ n) })

/-- The `n` elements at `p` lie in the file. -/
def Inside (l : List β) (p : BitVec 64) (n : ℕ) : Prop := p.toNat + n ≤ l.length

instance (l : List β) (p : BitVec 64) (n : ℕ) : Decidable (Inside l p n) :=
  inferInstanceAs (Decidable (_ ≤ _))

def window (l : List β) (p : BitVec 64) (n : ℕ) : List β := (l.drop p.toNat).take n

theorem window_length {l : List β} {p : BitVec 64} {n : ℕ} (h : Inside l p n) :
    (window l p n).length = n := by
  unfold Inside at h
  rw [window, List.length_take, List.length_drop]
  omega

variable (s : Stream β) (p : BitVec 64) (n : ℕ)

@[simp] theorem seekg_file : (s.seekg p).toFile = s.toFile := by
  unfold Stream.seekg
  split_ifs <;> rfl

@[simp] theorem seekEnd_file : s.seekEnd.toFile = s.toFile := by
  unfold Stream.seekEnd
  split_ifs <;> rfl

@[simp] theorem read_file : (s.read n).2.toFile = s.toFile := by
  unfold Stream.read
  split_ifs <;> rfl

@[simp] theorem seekEnd_fail : s.seekEnd.fail = s.fail := by
  unfold Stream.seekEnd
  split_ifs <;> rfl

variable {s} {p} {n}

theorem seekg_ok (hf : s.fail = false) (hp : p.toNat ≤ s.limit) :
    s.seekg p = { s with pos := p.toNat } := by
  rw [Stream.seekg, if_neg (Bool.eq_false_iff.mp hf), if_neg (Nat.not_lt.mpr hp)]

theorem seekg_fail_iff : (s.seekg p).fail = false ↔ s.fail = false ∧ p.toNat ≤ s.limit := by
  unfold Stream.seekg
  split_ifs with hf hp
  · simp [hf]
  · exact ⟨nofun, fun h => absurd h.2 (Nat.not_le.mpr hp)⟩
  · exact ⟨fun h => ⟨h, Nat.not_lt.mp hp⟩, fun h => h.1⟩

theorem read_of_fail (h : s.fail = true) : s.read n = ([], s) := if_pos h

theorem read_ok (h : (s.read n).2.fail = false) : s.fail = false := by
  by_contra hf
  rw [Bool.not_eq_false] at hf
  rw [read_of_fail hf, hf] at h
  cases h

theorem read_gcount (h : s.fail = false) :
    (s.read n).1.length = n ↔ (s.read n).2.fail = false := by
  unfold Stream.read
  rw [h]
  simp

theorem size_of_seekEnd (h : s.fail = false) :
    (s.seekEnd.tellg).toNat = s.content.length := by
  have hs := s.small
  have hin := s.inside
  unfold Stream.seekEnd Stream.tellg
  simp only [h, Bool.false_eq_true, ↓reduceIte, BitVec.toNat_ofNat]
  omega

/-- A seek and a read leave a good stream exactly when what is wanted lies in the file. -/
theorem read_seekg_iff (hn : 0 < n) :
    ((s.seekg p).read n).2.fail = false ↔ s.fail = false ∧ Inside s.content p n := by
  have hs := s.inside
  unfold Inside
  constructor
  · intro h
    obtain ⟨hf, hp⟩ := seekg_fail_iff.mp (read_ok h)
    rw [seekg_ok hf hp] at h
    simp only [Stream.read, hf, Bool.false_eq_true, ↓reduceIte, decide_eq_false_iff_not,
      not_not, List.length_take, List.length_drop] at h
    exact ⟨hf, by omega⟩
  · rintro ⟨hf, hin⟩
    rw [seekg_ok hf (by omega)]
    simp only [Stream.read, hf, Bool.false_eq_true, ↓reduceIte, decide_eq_false_iff_not,
      not_not, List.length_take, List.length_drop]
    omega

theorem read_seekg (h : ((s.seekg p).read n).2.fail = false) :
    ((s.seekg p).read n).1 = window s.content p n := by
  obtain ⟨hf, hp⟩ := seekg_fail_iff.mp (read_ok h)
  rw [seekg_ok hf hp]
  simp [Stream.read, hf, window]

theorem read_start (h : s.fail = false) :
    ((s.seekg 0#64).read n).1 = s.content.take n := by
  rw [seekg_ok h (Nat.zero_le _)]
  simp [Stream.read, h]

end InputStream
