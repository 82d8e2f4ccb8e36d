import Mathlib.Algebra.Group.Nat.Defs
import Mathlib.Data.List.TakeWhile
import Mathlib.Tactic.Common

/-! # Formatted output

A std::ostream with its base, fill character and width. Text that numerals are written into
can be read back: a numeral ends at the first character that is no digit. -/
namespace OutputStream

structure Stream where
  text : List Char
  base : ℕ
  fill : Char
  width : ℕ

/-- std::cout at the start of a program. -/
def cout : Stream := ⟨[], 10, ' ', 0⟩

def Stream.hex (o : Stream) : Stream := { o with base := 16 }
def Stream.dec (o : Stream) : Stream := { o with base := 10 }
def Stream.setw (o : Stream) (n : ℕ) : Stream := { o with width := n }
def Stream.setfill (o : Stream) (c : Char) : Stream := { o with fill := c }

def pad (fill : Char) (width : ℕ) (l : List Char) : List Char :=
  List.replicate (width - l.length) fill ++ l

/-- operator<< for strings; every output uses the width up. -/
def Stream.put (o : Stream) (s : List Char) : Stream :=
  { o with text := o.text ++ pad o.fill o.width s, width := 0 }

/-- operator<< for unsigned numbers. -/
def Stream.num (o : Stream) (n : ℕ) : Stream := o.put (Nat.toDigits o.base n)

def signed {w : ℕ} (n : BitVec w) : List Char :=
  if n.msb then '-' :: Nat.toDigits 10 (-n).toNat else Nat.toDigits 10 n.toNat

example : signed (-12 : BitVec 32) = "-12".toList := by decide

/-- operator<< for signed numbers, which have a sign in base 10 only. -/
def Stream.int {w : ℕ} (o : Stream) (n : BitVec w) : Stream :=
  if o.base = 10 then o.put (signed n) else o.num n.toNat

def Stream.endl (o : Stream) : Stream := o.put ['\n']

@[simp] theorem hex_text (o : Stream) : o.hex.text = o.text := rfl
@[simp] theorem hex_base (o : Stream) : o.hex.base = 16 := rfl
@[simp] theorem hex_fill (o : Stream) : o.hex.fill = o.fill := rfl
@[simp] theorem hex_width (o : Stream) : o.hex.width = o.width := rfl
@[simp] theorem dec_text (o : Stream) : o.dec.text = o.text := rfl
@[simp] theorem dec_base (o : Stream) : o.dec.base = 10 := rfl
@[simp] theorem dec_fill (o : Stream) : o.dec.fill = o.fill := rfl
@[simp] theorem dec_width (o : Stream) : o.dec.width = o.width := rfl
@[simp] theorem setw_text (o : Stream) (n : ℕ) : (o.setw n).text = o.text := rfl
@[simp] theorem setw_base (o : Stream) (n : ℕ) : (o.setw n).base = o.base := rfl
@[simp] theorem setw_fill (o : Stream) (n : ℕ) : (o.setw n).fill = o.fill := rfl
@[simp] theorem setw_width (o : Stream) (n : ℕ) : (o.setw n).width = n := rfl
@[simp] theorem put_base (o : Stream) (s : List Char) : (o.put s).base = o.base := rfl
@[simp] theorem put_fill (o : Stream) (s : List Char) : (o.put s).fill = o.fill := rfl
@[simp] theorem put_width (o : Stream) (s : List Char) : (o.put s).width = 0 := rfl
@[simp] theorem put_text (o : Stream) (s : List Char) :
    (o.put s).text = o.text ++ pad o.fill o.width s := rfl
@[simp] theorem endl_width (o : Stream) : o.endl.width = 0 := rfl
@[simp] theorem pad_zero (fill : Char) (l : List Char) : pad fill 0 l = l := by
  rw [pad, Nat.zero_sub, List.replicate_zero, List.nil_append]

/-- From `o` to `o'` text is written in front of what follows, and no width is pending. -/
structure Writes (o o' : Stream) (text : List Char → List Char) : Prop where
  text : ∀ rest, o'.text ++ rest = o.text ++ text rest
  width : o'.width = 0

theorem Writes.trans {o o' o'' : Stream} {f g : List Char → List Char} (h : Writes o o' f)
    (h' : Writes o' o'' g) : Writes o o'' (fun rest => f (g rest)) :=
  ⟨fun rest => (h'.text rest).trans (h.text (g rest)), h'.width⟩

/-- A loop writes what its passes write. -/
theorem writes_foldl {α : Type*} {step : Stream → α → Stream}
    {text : α → List Char → List Char} {P : Stream → Prop}
    (hwidth : ∀ o, P o → o.width = 0)
    (hstep : ∀ o a, P o → Writes o (step o a) (text a) ∧ P (step o a)) (l : List α) {o : Stream}
    (ho : P o) :
    Writes o (l.foldl step o) (fun rest => l.foldr text rest) ∧ P (l.foldl step o) := by
  induction l generalizing o with
  | nil => exact ⟨⟨fun _ => rfl, hwidth o ho⟩, ho⟩
  | cons a l ih =>
    obtain ⟨hw, hp⟩ := hstep o a ho
    obtain ⟨hrest, hq⟩ := ih hp
    exact ⟨⟨fun rest => (hrest.text rest).trans (hw.text _), hrest.width⟩, hq⟩

def digitValue (c : Char) : ℕ := if c.toNat < 58 then c.toNat - 48 else c.toNat - 87

/-- The number that digits write. -/
def value (base : ℕ) (l : List Char) : ℕ := l.foldl (fun n c => base * n + digitValue c) 0

def isDigit (c : Char) : Bool := c ∈ "0123456789abcdef".toList

theorem digitValue_digitChar : ∀ d < 16, digitValue (Nat.digitChar d) = d := by decide

theorem isDigit_digitChar : ∀ d < 16, isDigit (Nat.digitChar d) = true := by decide

section Numerals

variable {base : ℕ} (hb : 1 < base) (h16 : base ≤ 16)
include hb h16

theorem value_toDigits (n : ℕ) : value base (Nat.toDigits base n) = n := by
  induction n using Nat.strongRecOn with
  | ind n ih =>
    rw [Nat.toDigits_eq_if hb]
    split_ifs with hn
    · rw [value, List.foldl_cons, List.foldl_nil, Nat.mul_zero, Nat.zero_add,
        digitValue_digitChar n (by omega)]
    · have hdiv := ih (n / base) (Nat.div_lt_self (by omega) hb)
      have hmod := Nat.mod_lt n (Nat.zero_lt_of_lt hb)
      rw [value] at hdiv ⊢
      rw [List.foldl_append, hdiv, List.foldl_cons, List.foldl_nil,
        digitValue_digitChar _ (by omega), Nat.div_add_mod]

theorem isDigit_of_mem (n : ℕ) : ∀ c ∈ Nat.toDigits base n, isDigit c = true := by
  induction n using Nat.strongRecOn with
  | ind n ih =>
    intro c hc
    rw [Nat.toDigits_eq_if hb] at hc
    split_ifs at hc with hn
    · rw [List.mem_singleton.mp hc]
      exact isDigit_digitChar n (by omega)
    · have hmod := Nat.mod_lt n (Nat.zero_lt_of_lt hb)
      rcases List.mem_append.mp hc with hc | hc
      · exact ih (n / base) (Nat.div_lt_self (by omega) hb) c hc
      · rw [List.mem_singleton.mp hc]
        exact isDigit_digitChar _ (by omega)

theorem toDigits_inj {n m : ℕ} (h : Nat.toDigits base n = Nat.toDigits base m) : n = m := by
  rw [← value_toDigits hb h16 n, h, value_toDigits hb h16 m]

/-- A numeral in front of a character that is no digit can be read back. -/
theorem numeral_append_inj {n m : ℕ} {c d : Char} {r s : List Char} (hc : isDigit c = false)
    (hd : isDigit d = false)
    (h : Nat.toDigits base n ++ c :: r = Nat.toDigits base m ++ d :: s) :
    n = m ∧ c :: r = d :: s := by
  have htake : ∀ (n : ℕ) {c : Char} (r : List Char), isDigit c = false →
      (Nat.toDigits base n ++ c :: r).takeWhile isDigit = Nat.toDigits base n := by
    intro n c r hc
    rw [List.takeWhile_append_of_pos (isDigit_of_mem hb h16 n), List.takeWhile_cons_of_neg,
      List.append_nil]
    rw [hc]
    decide
  have hdigits : Nat.toDigits base n = Nat.toDigits base m := by
    rw [← htake n r hc, h, htake m s hd]
  refine ⟨toDigits_inj hb h16 hdigits, ?_⟩
  rw [hdigits] at h
  exact List.append_cancel_left h

end Numerals

theorem toDigits_ne_minus (n : ℕ) (c : Char) (r s : List Char) (hc : c ≠ '-') :
    Nat.toDigits 10 n ++ c :: r ≠ '-' :: s := by
  intro h
  cases hd : Nat.toDigits 10 n with
  | nil =>
    rw [hd] at h
    exact hc (List.cons.inj h).1
  | cons d ds =>
    rw [hd] at h
    have hdigit := isDigit_of_mem (by decide) (by decide) n d (hd ▸ List.mem_cons_self)
    rw [(List.cons.inj h).1] at hdigit
    exact absurd hdigit (by decide)

/-- A signed numeral in front of a character that is no digit can be read back. -/
theorem signed_append_inj {w : ℕ} {n m : BitVec w} {c d : Char} {r s : List Char}
    (hc : isDigit c = false ∧ c ≠ '-') (hd : isDigit d = false ∧ d ≠ '-')
    (h : signed n ++ c :: r = signed m ++ d :: s) : n = m ∧ c :: r = d :: s := by
  have hinj : ∀ {a b : ℕ}, Nat.toDigits 10 a ++ c :: r = Nat.toDigits 10 b ++ d :: s →
      a = b ∧ c :: r = d :: s := numeral_append_inj (by decide) (by decide) hc.1 hd.1
  unfold signed at h
  split_ifs at h with hn hm hm
  · obtain ⟨hv, hrest⟩ := hinj (List.cons.inj h).2
    exact ⟨BitVec.neg_inj.mp (BitVec.toNat_inj.mp hv), hrest⟩
  · exact absurd h.symm (toDigits_ne_minus _ d s _ hd.2)
  · exact absurd h (toDigits_ne_minus _ c r _ hc.2)
  · obtain ⟨hv, hrest⟩ := hinj h
    exact ⟨BitVec.toNat_inj.mp hv, hrest⟩

theorem value_replicate (base k : ℕ) (l : List Char) :
    value base (List.replicate k '0' ++ l) = value base l := by
  induction k with
  | zero => rfl
  | succ k ih =>
    rw [← ih, List.replicate_succ, List.cons_append, value, List.foldl_cons]
    rfl

theorem pad_length {fill : Char} {width : ℕ} {l : List Char} (h : l.length ≤ width) :
    (pad fill width l).length = width := by
  rw [pad, List.length_append, List.length_replicate]
  omega

/-- Padded numerals that fit their width can be read back whatever follows. -/
theorem padded_append_inj {base width n m : ℕ} {r s : List Char} (hb : 1 < base)
    (h16 : base ≤ 16) (hw : 0 < width) (hn : n < base ^ width) (hm : m < base ^ width)
    (h : pad '0' width (Nat.toDigits base n) ++ r = pad '0' width (Nat.toDigits base m) ++ s) :
    n = m ∧ r = s := by
  have hlen : ∀ n < base ^ width, (pad '0' width (Nat.toDigits base n)).length = width :=
    fun n hn => pad_length ((Nat.length_toDigits_le_iff hb hw).mpr hn)
  obtain ⟨hpad, hrest⟩ := List.append_inj h ((hlen n hn).trans (hlen m hm).symm)
  have hvalue := congrArg (value base) hpad
  rw [pad, pad, value_replicate, value_replicate, value_toDigits hb h16,
    value_toDigits hb h16] at hvalue
  exact ⟨hvalue, hrest⟩

/-- A text made of parts that can each be read back can be read back. -/
theorem foldr_inj {α : Type*} {f g : α → List Char → List Char} {P : α → Prop}
    (h : ∀ a r s, f a r = g a s → P a ∧ r = s) {l : List α} {r s : List Char}
    (hl : l.foldr f r = l.foldr g s) : (∀ a ∈ l, P a) ∧ r = s := by
  induction l with
  | nil => exact ⟨nofun, hl⟩
  | cons a l ih =>
    obtain ⟨ha, hrest⟩ := h a _ _ hl
    obtain ⟨hall, heq⟩ := ih hrest
    refine ⟨fun b hb => ?_, heq⟩
    rcases List.mem_cons.mp hb with rfl | hb
    · exact ha
    · exact hall b hb

end OutputStream
