import SimulatorRISCV.PipelineHarness
import SimulatorRISCV.OutputStream

/-! # The text of the trace

What the two trace branches of the loop and RegfileStr write to std::cout. -/
namespace TraceText

open PipelineDecoder PipelineDatapath PipelineHarness OutputStream

def stars : List Char :=
  "*******************************************************************************".toList

def instrStars : List Char := "***********************************".toList

def printRegister (registers : RegBank) (o : Stream) (regIdx : ℕ) : Stream :=
  let reg := registers (BitVec.ofNat 5 regIdx)
  ((((o.put "  [".toList).dec.setw 2).num regIdx).put "] ".toList |>.put "0x".toList |>.hex.setw
    8).num reg.toNat

/-- One line of RegfileStr: four registers, eight apart. -/
def printRow (registers : RegBank) (o : Stream) (i : ℕ) : Stream :=
  ((List.range 4).foldl (fun o j => printRegister registers o (j * 8 + i)) o).endl

def regfileStr (o : Stream) (registers : RegBank) : Stream :=
  (List.range 8).foldl (printRow registers) (o.setfill '0')

def printWritten (o : Stream) : Option (RegNum × Word) → Stream
  | none => o
  | some (rdn, reg) =>
    ((((o.put "X".toList).dec.num rdn.toNat).put " = 0x".toList).hex.num reg.toNat).endl

/-- The line with the fields of the instruction. -/
def printCmd (o : Stream) (pc : Word) (rd rs1 rs2 : RegNum) (imm : Word) : Stream :=
  let o := (((o.hex.put "0x".toList).num pc.toNat).put ": ".toList).put "CMD".toList
  let o := (o.dec.put " rd = ".toList).num rd.toNat
  let o := (o.put ", rs1 = ".toList).num rs1.toNat
  let o := (o.put ", rs2 = ".toList).num rs2.toNat
  ((o.hex.put ", imm = 0x".toList).num imm.toNat).dec.endl

def printLine (o : Stream) : Line → Stream
  | .trace opcode pc rd rs1 rs2 imm registers =>
    let o := (o.put stars).endl
    let o := ((o.hex.put "Opcode operation: 0x".toList).num opcode.toNat).hex.endl
    regfileStr (printCmd o pc rd rs1 rs2 imm) registers
  | .traceInstr proccessorClock num pc written =>
    let o := o.put (instrStars ++ ['\n'])
    let o := ((o.put "Proccesor clock: ".toList).dec.int proccessorClock).endl
    let o := ((o.put "NUM: ".toList).dec.int num).endl
    let o := (((o.put "PC : ".toList).put "0x".toList).hex.num pc.toNat).endl
    printWritten o written
  | .success => (o.put "Success!".toList).endl

def print (o : Stream) (lines : List Line) : Stream := lines.foldl printLine o

def dec (n : ℕ) : List Char := Nat.toDigits 10 n
def hex (n : ℕ) : List Char := Nat.toDigits 16 n

def registerText (registers : RegBank) (regIdx : ℕ) (rest : List Char) : List Char :=
  "  [".toList ++ (pad '0' 2 (dec regIdx) ++ ("] 0x".toList ++
    (pad '0' 8 (hex (registers (BitVec.ofNat 5 regIdx)).toNat) ++ rest)))

def rowText (registers : RegBank) (i : ℕ) (rest : List Char) : List Char :=
  (List.range 4).foldr (fun j rest => registerText registers (j * 8 + i) rest) ('\n' :: rest)

def regfileText (registers : RegBank) (rest : List Char) : List Char :=
  (List.range 8).foldr (rowText registers) rest

/-- A label, a numeral and the character that ends it. -/
def field (label : String) (numeral : List Char) (stop : Char) (rest : List Char) : List Char :=
  label.toList ++ (numeral ++ stop :: rest)

def writtenText (rest : List Char) : Option (RegNum × Word) → List Char
  | none => rest
  | some (rdn, reg) => field "X" (dec rdn.toNat) ' ' (field "= 0x" (hex reg.toNat) '\n' rest)

/-- The text of a record, in front of what follows. -/
def lineText (rest : List Char) : Line → List Char
  | .trace opcode pc rd rs1 rs2 imm registers =>
    stars ++ '\n' :: field "Opcode operation: 0x" (hex opcode.toNat) '\n'
      (field "0x" (hex pc.toNat) ':' (field " CMD rd = " (dec rd.toNat) ','
        (field " rs1 = " (dec rs1.toNat) ',' (field " rs2 = " (dec rs2.toNat) ','
          (field " imm = 0x" (hex imm.toNat) '\n' (regfileText registers rest))))))
  | .traceInstr proccessorClock num pc written =>
    instrStars ++ '\n' :: field "Proccesor clock: " (signed proccessorClock) '\n'
      (field "NUM: " (signed num) '\n' (field "PC : 0x" (hex pc.toNat) '\n'
        (writtenText rest written)))
  | .success => "Success!\n".toList ++ rest

def linesText (lines : List Line) : List Char := lines.foldr (fun l rest => lineText rest l) []

variable {registers : RegBank} {o : Stream}

theorem writes_register (hw : o.width = 0) (hf : o.fill = '0') (regIdx : ℕ) :
    Writes o (printRegister registers o regIdx) (registerText registers regIdx) where
  text rest := by simp [printRegister, registerText, Stream.num, hw, hf, dec, hex]
  width := rfl

/-- The state between the numbers of RegfileStr. -/
def Filled (o : Stream) : Prop := o.width = 0 ∧ o.fill = '0'

theorem writes_row (registers : RegBank) (ho : Filled o) (i : ℕ) :
    Writes o (printRow registers o i) (rowText registers i) ∧ Filled (printRow registers o i) := by
  obtain ⟨hrow, hw, hf⟩ := writes_foldl (P := Filled)
    (fun o ho => ho.1)
    (fun o j ho => ⟨writes_register ho.1 ho.2 (j * 8 + i), rfl, ho.2⟩)
    (List.range 4) ho
  unfold printRow rowText
  generalize (List.range 4).foldl _ o = mid at hrow hw hf ⊢
  refine ⟨⟨fun rest => ?_, endl_width mid⟩, endl_width mid, hf⟩
  rw [← hrow.text, Stream.endl, put_text, hw, pad_zero, List.append_assoc]
  rfl

theorem writes_regfile (hw : o.width = 0) :
    Writes o (regfileStr o registers) (regfileText registers) := by
  obtain ⟨hrows, _⟩ := writes_foldl (fun o ho => ho.1)
    (fun _ i ho => writes_row registers ho i) (List.range 8)
    (o := o.setfill '0') ⟨hw, rfl⟩
  exact ⟨hrows.text, hrows.width⟩

theorem writes_written (hw : o.width = 0) (written : Option (RegNum × Word)) :
    Writes o (printWritten o written) (fun rest => writtenText rest written) := by
  cases written with
  | none => exact ⟨fun rest => rfl, hw⟩
  | some w =>
    refine ⟨fun rest => ?_, endl_width _⟩
    simp [printWritten, writtenText, field, Stream.num, Stream.endl, hw, dec, hex]

theorem writes_cmd (hw : o.width = 0) (pc : Word) (rd rs1 rs2 : RegNum) (imm : Word) :
    Writes o (printCmd o pc rd rs1 rs2 imm) fun rest => field "0x" (hex pc.toNat) ':'
      (field " CMD rd = " (dec rd.toNat) ',' (field " rs1 = " (dec rs1.toNat) ','
        (field " rs2 = " (dec rs2.toNat) ',' (field " imm = 0x" (hex imm.toNat) '\n' rest)))) where
  text rest := by
    have hcmd : ∀ r, ": ".toList ++ ("CMD".toList ++ (" rd = ".toList ++ r)) =
        ':' :: (" CMD rd = ".toList ++ r) := fun _ => rfl
    have hrs1 : ∀ r, ", rs1 = ".toList ++ r = ',' :: (" rs1 = ".toList ++ r) := fun _ => rfl
    have hrs2 : ∀ r, ", rs2 = ".toList ++ r = ',' :: (" rs2 = ".toList ++ r) := fun _ => rfl
    have himm : ∀ r, ", imm = 0x".toList ++ r = ',' :: (" imm = 0x".toList ++ r) := fun _ => rfl
    unfold printCmd
    dsimp only [Stream.num, Stream.endl, put_text, put_width, put_base, hex_text, hex_base,
      hex_width, dec_text, dec_base, dec_width]
    rw [hw]
    simp only [pad_zero, field, dec, hex, List.append_assoc, List.cons_append, List.nil_append,
      hcmd, hrs1, hrs2, himm]
  width := endl_width _

theorem writes_line (hw : o.width = 0) (l : Line) :
    Writes o (printLine o l) fun rest => lineText rest l := by
  cases l with
  | trace opcode pc rd rs1 rs2 imm registers =>
    have hhead : Writes o (((((o.put stars).endl).hex.put "Opcode operation: 0x".toList).num
        opcode.toNat).hex.endl) fun rest =>
          stars ++ '\n' :: field "Opcode operation: 0x" (hex opcode.toNat) '\n' rest := by
      refine ⟨fun rest => ?_, endl_width _⟩
      dsimp only [Stream.num, Stream.endl, put_text, put_width, put_base, hex_text, hex_base,
        hex_width]
      rw [hw]
      simp only [pad_zero, field, hex, List.append_assoc, List.cons_append, List.nil_append]
    exact hhead.trans ((writes_cmd hhead.width ..).trans (writes_regfile (endl_width _)))
  | traceInstr proccessorClock num pc written =>
    have hpc : ∀ r, "PC : ".toList ++ ("0x".toList ++ r) = "PC : 0x".toList ++ r := fun _ => rfl
    have hhead : Writes o ((((((((o.put (instrStars ++ ['\n'])).put
        "Proccesor clock: ".toList).dec.int proccessorClock).endl.put "NUM: ".toList).dec.int
          num).endl.put "PC : ".toList).put "0x".toList).hex.num pc.toNat).endl fun rest =>
        instrStars ++ '\n' :: field "Proccesor clock: " (signed proccessorClock) '\n'
          (field "NUM: " (signed num) '\n' (field "PC : 0x" (hex pc.toNat) '\n' rest)) := by
      refine ⟨fun rest => ?_, endl_width _⟩
      simp only [Stream.int, dec_base, ↓reduceIte]
      dsimp only [Stream.num, Stream.endl, put_text, put_width, put_base, hex_text, hex_base,
        hex_width, dec_text, dec_base, dec_width]
      rw [hw]
      simp only [pad_zero, field, hex, List.append_assoc, List.cons_append, List.nil_append, hpc]
    exact hhead.trans (writes_written (endl_width _) written)
  | success =>
    refine ⟨fun rest => ?_, endl_width _⟩
    dsimp only [printLine, Stream.endl, put_text, put_width]
    rw [hw, pad_zero, pad_zero, List.append_assoc, List.append_assoc]
    rfl

/-- The statements of main write the text of its records, one behind the other. -/
theorem writes_lines (hw : o.width = 0) (lines : List Line) :
    Writes o (print o lines) fun rest => lines.foldr (fun l rest => lineText rest l) rest :=
  (writes_foldl (P := fun o => o.width = 0) (fun _ h => h)
    (fun _ l h => ⟨writes_line h l, (writes_line h l).width⟩) lines hw).1

theorem print_text (lines : List Line) : (print cout lines).text = linesText lines := by
  have h := (writes_lines (o := cout) rfl lines).text []
  rw [List.append_nil] at h
  exact h

example : linesText [.traceInstr 4 0 0x101f8#32 (some (2#5, 0xffffffe0#32)), .success] =
    ("***********************************\nProccesor clock: 4\nNUM: 0\nPC : 0x101f8\n" ++
      "X2 = 0xffffffe0\nSuccess!\n").toList := by
  decide

theorem field_inj {base n m : ℕ} {label : String} {c : Char} {r s : List Char} (hb : 1 < base)
    (h16 : base ≤ 16) (hc : isDigit c = false)
    (h : field label (Nat.toDigits base n) c r = field label (Nat.toDigits base m) c s) :
    n = m ∧ r = s := by
  obtain ⟨hn, hrest⟩ := numeral_append_inj hb h16 hc hc (List.append_cancel_left h)
  exact ⟨hn, (List.cons.inj hrest).2⟩

theorem field_hex_inj {w : ℕ} {v v' : BitVec w} {label : String} {c : Char} {r s : List Char}
    (hc : isDigit c = false)
    (h : field label (hex v.toNat) c r = field label (hex v'.toNat) c s) : v = v' ∧ r = s := by
  obtain ⟨hv, hrest⟩ := field_inj (by decide) (by decide) hc h
  exact ⟨BitVec.toNat_inj.mp hv, hrest⟩

theorem field_signed_inj {w : ℕ} {v v' : BitVec w} {label : String} {r s : List Char}
    (h : field label (signed v) '\n' r = field label (signed v') '\n' s) : v = v' ∧ r = s := by
  have hend : isDigit '\n' = false ∧ '\n' ≠ '-' := by decide
  obtain ⟨hv, hrest⟩ := signed_append_inj hend hend (List.append_cancel_left h)
  exact ⟨hv, (List.cons.inj hrest).2⟩

theorem field_dec_inj {w : ℕ} {v v' : BitVec w} {label : String} {c : Char} {r s : List Char}
    (hc : isDigit c = false)
    (h : field label (dec v.toNat) c r = field label (dec v'.toNat) c s) : v = v' ∧ r = s := by
  obtain ⟨hv, hrest⟩ := field_inj (by decide) (by decide) hc h
  exact ⟨BitVec.toNat_inj.mp hv, hrest⟩

section Registers

variable {regs regs' : RegBank} {r s : List Char}

theorem registerText_inj {regIdx : ℕ}
    (h : registerText regs regIdx r = registerText regs' regIdx s) :
    regs (BitVec.ofNat 5 regIdx) = regs' (BitVec.ofNat 5 regIdx) ∧ r = s := by
  have hidx := List.append_cancel_left (List.append_cancel_left h)
  have hreg := List.append_cancel_left hidx
  obtain ⟨hv, hrest⟩ := @padded_append_inj 16 8 _ _ _ _ (by decide) (by decide) (by decide)
    (BitVec.isLt (regs _)) (BitVec.isLt (regs' _)) hreg
  exact ⟨BitVec.toNat_inj.mp hv, hrest⟩

theorem rowText_inj {i : ℕ} (h : rowText regs i r = rowText regs' i s) :
    (∀ j ∈ List.range 4, regs (BitVec.ofNat 5 (j * 8 + i)) = regs' (BitVec.ofNat 5 (j * 8 + i))) ∧
      r = s := by
  obtain ⟨hregs, hrest⟩ := foldr_inj (fun j r s => registerText_inj) h
  exact ⟨hregs, (List.cons.inj hrest).2⟩

/-- RegfileStr shows all registers. -/
theorem regfileText_inj (h : regfileText regs r = regfileText regs' s) : regs = regs' ∧ r = s := by
  obtain ⟨hrows, hrest⟩ := foldr_inj (fun i r s => rowText_inj) h
  refine ⟨funext fun k => ?_, hrest⟩
  have hk := k.isLt
  have hrow := hrows (k.toNat % 8) (List.mem_range.mpr (Nat.mod_lt _ (by decide)))
    (k.toNat / 8) (List.mem_range.mpr (by omega))
  have hidx : BitVec.ofNat 5 (k.toNat / 8 * 8 + k.toNat % 8) = k := by
    rw [Nat.div_add_mod', BitVec.ofNat_toNat, BitVec.setWidth_eq]
  rwa [hidx] at hrow

end Registers

/-- What may follow a record: not the line of a written register. -/
def Follows (rest : List Char) : Prop := rest.head? ≠ some 'X'

variable {r s : List Char}

theorem follows_line (l : Line) : Follows (lineText r l) := by
  cases l with
  | trace | traceInstr | success =>
    intro h
    cases h

theorem writtenText_inj (hr : Follows r) (hs : Follows s) {w w' : Option (RegNum × Word)}
    (h : writtenText r w = writtenText s w') : w = w' ∧ r = s := by
  cases w with
  | none =>
    cases w' with
    | none => exact ⟨rfl, h⟩
    | some w' => exact absurd (congrArg List.head? h) hr
  | some w =>
    cases w' with
    | none => exact absurd (congrArg List.head? h).symm hs
    | some w' =>
      obtain ⟨hrdn, hrest⟩ := field_dec_inj rfl h
      obtain ⟨hreg, hrest⟩ := field_hex_inj rfl hrest
      exact ⟨congrArg some (Prod.ext hrdn hreg), hrest⟩

/-- The two kinds of records differ behind their 35th star. -/
theorem stars_ne (r s : List Char) : stars ++ '\n' :: r ≠ instrStars ++ '\n' :: s := by
  intro h
  have h35 : (some '*' : Option Char) = some '\n' := congrArg (fun l => l[35]?) h
  cases h35

theorem ne_of_head {l l' : List Char} {c c' : Char} (h : l.head? = some c)
    (h' : l'.head? = some c') (hne : c ≠ c') : l ≠ l' := by
  rintro rfl
  exact hne (Option.some.inj (h.symm.trans h'))

theorem lineText_inj (hr : Follows r) (hs : Follows s) {l l' : Line}
    (h : lineText r l = lineText s l') : l = l' ∧ r = s := by
  cases l with
  | trace opcode pc rd rs1 rs2 imm registers =>
    cases l' with
    | trace =>
      obtain ⟨rfl, h1⟩ := field_hex_inj rfl (List.cons.inj (List.append_cancel_left h)).2
      obtain ⟨rfl, h2⟩ := field_hex_inj rfl h1
      obtain ⟨rfl, h3⟩ := field_dec_inj rfl h2
      obtain ⟨rfl, h4⟩ := field_dec_inj rfl h3
      obtain ⟨rfl, h5⟩ := field_dec_inj rfl h4
      obtain ⟨rfl, h6⟩ := field_hex_inj rfl h5
      obtain ⟨rfl, hrest⟩ := regfileText_inj h6
      exact ⟨rfl, hrest⟩
    | traceInstr => exact absurd h (stars_ne _ _)
    | success => exact absurd h (ne_of_head rfl rfl (by decide))
  | traceInstr proccessorClock num pc written =>
    cases l' with
    | trace => exact absurd h.symm (stars_ne _ _)
    | traceInstr =>
      obtain ⟨rfl, h1⟩ := field_signed_inj (List.cons.inj (List.append_cancel_left h)).2
      obtain ⟨rfl, h2⟩ := field_signed_inj h1
      obtain ⟨rfl, h3⟩ := field_hex_inj rfl h2
      obtain ⟨rfl, hrest⟩ := writtenText_inj hr hs h3
      exact ⟨rfl, hrest⟩
    | success => exact absurd h (ne_of_head rfl rfl (by decide))
  | success =>
    cases l' with
    | trace | traceInstr => exact absurd h (ne_of_head rfl rfl (by decide))
    | success => exact ⟨rfl, List.append_cancel_left h⟩

theorem follows_lines (lines : List Line) : Follows (linesText lines) := by
  cases lines with
  | nil => nofun
  | cons l lines => exact follows_line l

theorem linesText_ne_nil (l : Line) (lines : List Line) : linesText (l :: lines) ≠ [] := by
  cases l with
  | trace | traceInstr | success => nofun

/-- What main has printed determines the records, in their order. -/
theorem printed_records_iff (lines lines' : List Line) :
    (print cout lines).text = (print cout lines').text ↔ lines = lines' := by
  rw [print_text, print_text]
  constructor
  · intro h
    induction lines generalizing lines' with
    | nil =>
      cases lines' with
      | nil => rfl
      | cons l' lines' => exact absurd h.symm (linesText_ne_nil l' lines')
    | cons l lines ih =>
      cases lines' with
      | nil => exact absurd h (linesText_ne_nil l lines)
      | cons l' lines' =>
        obtain ⟨rfl, hrest⟩ := lineText_inj (follows_lines lines) (follows_lines lines') h
        rw [ih lines' hrest]
  · exact congrArg linesText

end TraceText
