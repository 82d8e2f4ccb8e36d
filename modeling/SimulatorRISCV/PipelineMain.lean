import SimulatorRISCV.PipelineIsaOutput
import SimulatorRISCV.ElfImage
import SimulatorRISCV.TraceText

/-! # main from its arguments to the end of the program

The arguments are checked, the dump file is opened, the file is loaded, PCCounter gets the
entry address and the clock runs. A file whose program is regular runs as RV32I from its own
bytes. -/
namespace PipelineMain

open PipelineDecoder PipelineDatapath PipelineSimulator PipelineIssue PipelineForwarding
open PipelineDataMemory PipelineHarness PipelineOutput PipelineInstruction PipelineIsa
open PipelineIsaOutput
open ElfLoader InputStream ElfHeaders ElfReader ElfImage
open TraceText (print linesText print_text)

def checkArguments (argc : ℕ) : ℕ := if argc < 2 ∨ 3 < argc then 0 else argc - 1

/-- Which branch of the loop prints; argv[2] is read only when it is there. -/
def traceMode (isTrace : Bool) (option : String) : TraceMode :=
  if isTrace && option = "--trace" then .trace
  else if isTrace && option = "--traceInstr" then .traceInstr
  else .off

/-- Where main is: Verilator has ended the process, main has returned -1, died before the clock
or done some iterations. -/
inductive Progress where
  | exited
  | usage (out : List String)
  | failed (f : Failure)
  | clocking (h : Harness)

def Progress.text : Progress → List Char
  | .exited => []
  | .usage out => out.flatMap fun line => line.toList ++ ['\n']
  | .failed _ => []
  | .clocking h => (print OutputStream.cout h.out).text

abbrev FileSystem := String → Option (File Byte)

/-- What Verilator provides: the values of x; the memory from imem's mem_buff on; the rest of
the machine, of which nothing is known once the bytes behind mem_buff have changed; whether
commandArgs returns; and the files as opening out.vcd leaves them. -/
structure Machine where
  x : XValues
  host : ℕ → Byte
  power : (ℕ → Byte) → PowerOn
  commandArgs : List String → Bool
  openVcd : FileSystem → FileSystem

def Machine.run (m : Machine) (imem : MemArray) (entry : Word) (behind : ℕ → Byte) : Run :=
  ⟨m.x, imem, { m.power behind with entry := entry }⟩

/-- main after `t` iterations of its loop, on a file system. -/
def mainProgram (m : Machine) (files : FileSystem) (argv : List String) (t : ℕ) : Progress :=
  let numArguments := checkArguments argv.length
  if !m.commandArgs argv then .exited
  else if numArguments = 0 then
    .usage ["Failed input!\n Wrong number of input!", "Error in args"]
  else
    let files := m.openVcd files
    let path := argv.getD 1 ""
    match loadFile path (files path) m.host with
    | .error f => .failed f
    | .ok (st, entry) =>
      .clocking (clockLoop (m.run (imemOf st.host) entry fun k => st.host (bufferSize + k))
        (traceMode (decide (1 < numArguments)) (argv.getD 2 "")) t)

def imageMem (bs : List Byte) : MemArray := fun i => loadBytes (imageByte bs) .lw (4 * i.toNat)

def fileRun (m : Machine) (bs : List Byte) : Run :=
  m.run (imageMem bs) (entryOf bs) fun k => fileByte m.host bs (bufferSize + k)

theorem imemOf_image {host : ℕ → Byte} {bs : List Byte}
    (h : ∀ a < bufferSize, bytesOf (imemOf host) a = imageByte bs a) :
    imemOf host = imageMem bs := by
  have hbyte : ∀ a < bufferSize, host a = imageByte bs a := by
    intro a ha
    rw [← bytesOf_imemOf host ha]
    exact h a ha
  funext i
  have hi : 4 * i.toNat + 3 < bufferSize := by
    have := i.isLt
    unfold bufferSize
    omega
  rw [imemOf, imageMem, loadBytes, loadBytes, hbyte (4 * i.toNat) (by omega),
    hbyte (4 * i.toNat + 1) (by omega), hbyte (4 * i.toNat + 2) (by omega), hbyte _ hi]

variable {m : Machine} {files : FileSystem} {argv : List String} {t : ℕ}

def modeOf (argv : List String) : TraceMode :=
  traceMode (decide (1 < checkArguments argv.length)) (argv.getD 2 "")

def GoodArguments (argv : List String) : Prop := 2 ≤ argv.length ∧ argv.length ≤ 3

instance (argv : List String) : Decidable (GoodArguments argv) :=
  inferInstanceAs (Decidable (_ ∧ _))

theorem checkArguments_eq_zero : checkArguments argv.length = 0 ↔ ¬ GoodArguments argv := by
  unfold checkArguments GoodArguments
  split_ifs <;> omega

theorem main_exited (h : m.commandArgs argv = false) : mainProgram m files argv t = .exited := by
  unfold mainProgram
  rw [h]
  rfl

def Refuses (path : String) : Option (File Byte) → Failure → Prop
  | none, f => f = .thrown ("Error! Incorrect path to ELF : " ++ path)
  | some file, f => Rejects path file f

theorem loadFile_refuses {path : String} {file : Option (File Byte)} {host : ℕ → Byte}
    {f : Failure} : loadFile path file host = .error f ↔ Refuses path file f := by
  cases file with
  | none => exact ⟨fun h => (Except.error.inj h).symm, fun h => congrArg Except.error h.symm⟩
  | some file => exact loadFile_error_iff path file host f

theorem refuses_or_loadable (path : String) (file : Option (File Byte)) (host : ℕ → Byte) :
    (∃ f, Refuses path file f) ∨ ∃ f, file = some f ∧ Loadable f := by
  cases file with
  | none => exact Or.inl ⟨_, rfl⟩
  | some file =>
    cases hload : loadFile path (some file) host with
    | error f => exact Or.inl ⟨f, loadFile_refuses.mp hload⟩
    | ok r =>
      obtain ⟨st, entry⟩ := r
      exact Or.inr ⟨file, rfl, (loadFile_ok hload).1⟩

section Returns

variable (hr : m.commandArgs argv = true)
include hr

theorem main_usage (h : ¬ GoodArguments argv) : mainProgram m files argv t =
    .usage ["Failed input!\n Wrong number of input!", "Error in args"] := by
  unfold mainProgram
  rw [hr]
  exact if_pos (checkArguments_eq_zero.mpr h)

theorem main_failed (h : GoodArguments argv) {f : Failure}
    (hf : Refuses (argv.getD 1 "") (m.openVcd files (argv.getD 1 "")) f) :
    mainProgram m files argv t = .failed f := by
  have hload : loadFile (argv.getD 1 "") (m.openVcd files (argv.getD 1 "")) m.host = .error f :=
    loadFile_refuses.mpr hf
  unfold mainProgram
  dsimp only
  rw [hr, Bool.not_true, if_neg Bool.false_ne_true,
    if_neg fun hz => checkArguments_eq_zero.mp hz h, hload]

theorem main_clocking (hz : ∀ a < bufferSize, m.host a = 0#8) (h : GoodArguments argv)
    {file : File Byte} (hopen : m.openVcd files (argv.getD 1 "") = some file)
    (hl : Loadable file) : mainProgram m files argv t =
      .clocking (clockLoop (fileRun m file.content) (modeOf argv) t) := by
  obtain ⟨⟨st, entry⟩, hload⟩ : ∃ r, loadFile (argv.getD 1 "") (some file) m.host = .ok r :=
    loadFile_of_loadable hl
  obtain ⟨_, hentry, hloaded⟩ := loadFile_ok hload
  have himage : imemOf st.host = imageMem file.content := by
    refine imemOf_image fun a ha => ?_
    rw [loaded_byte hloaded hz ha, elfByte_eq hl]
  have hbehind : (fun k => st.host (bufferSize + k)) =
      fun k => fileByte m.host file.content (bufferSize + k) :=
    funext fun k => loaded_host hl hloaded _
  unfold mainProgram
  dsimp only
  rw [hr, Bool.not_true, if_neg Bool.false_ne_true,
    if_neg fun hz => checkArguments_eq_zero.mp hz h, hopen, hload]
  dsimp only
  rw [himage, hentry, hbehind]
  rfl

end Returns

theorem main_cases (hz : ∀ a < bufferSize, m.host a = 0#8) :
    (m.commandArgs argv = false ∧ mainProgram m files argv t = .exited) ∨
    (m.commandArgs argv = true ∧ ¬ GoodArguments argv ∧ mainProgram m files argv t =
      .usage ["Failed input!\n Wrong number of input!", "Error in args"]) ∨
    (∃ f, m.commandArgs argv = true ∧ GoodArguments argv ∧
      Refuses (argv.getD 1 "") (m.openVcd files (argv.getD 1 "")) f ∧
      mainProgram m files argv t = .failed f) ∨
    ∃ file, m.commandArgs argv = true ∧ GoodArguments argv ∧
      m.openVcd files (argv.getD 1 "") = some file ∧ Loadable file ∧
      mainProgram m files argv t =
        .clocking (clockLoop (fileRun m file.content) (modeOf argv) t) := by
  cases hr : m.commandArgs argv with
  | false => exact Or.inl ⟨rfl, main_exited hr⟩
  | true =>
    right
    by_cases hargs : GoodArguments argv
    · right
      rcases refuses_or_loadable (argv.getD 1 "") (m.openVcd files (argv.getD 1 "")) m.host with
        ⟨f, hf⟩ | ⟨file, hopen, hl⟩
      · exact Or.inl ⟨f, rfl, hargs, hf, main_failed hr hargs hf⟩
      · exact Or.inr ⟨file, rfl, hargs, hopen, hl, main_clocking hr hz hargs hopen hl⟩
    · exact Or.inl ⟨rfl, hargs, main_usage hr hargs⟩

/-- What main does on any command line and any files, when commandArgs returns: the usage
error, the failure that the file at argv[1] gives once out.vcd is open, or the clock on the
program that its bytes describe. -/
theorem main_outcome (m : Machine) (files : FileSystem) (argv : List String)
    (t : ℕ) (hz : ∀ a < bufferSize, m.host a = 0#8) :
    (mainProgram m files argv t = .exited ↔ m.commandArgs argv = false) ∧
    (∀ out, mainProgram m files argv t = .usage out ↔ m.commandArgs argv = true ∧
      ¬ GoodArguments argv ∧ out = ["Failed input!\n Wrong number of input!", "Error in args"]) ∧
    (∀ f, mainProgram m files argv t = .failed f ↔ m.commandArgs argv = true ∧
      GoodArguments argv ∧ Refuses (argv.getD 1 "") (m.openVcd files (argv.getD 1 "")) f) ∧
    ∀ h, mainProgram m files argv t = .clocking h ↔ m.commandArgs argv = true ∧
      GoodArguments argv ∧ ∃ file, m.openVcd files (argv.getD 1 "") = some file ∧
        Loadable file ∧ h = clockLoop (fileRun m file.content) (modeOf argv) t := by
  have hcases := @main_cases m files argv t hz
  refine ⟨⟨fun h => ?_, main_exited⟩, fun out => ⟨fun h => ?_, ?_⟩, fun f => ⟨fun h => ?_, ?_⟩,
    fun k => ⟨fun h => ?_, ?_⟩⟩
  · rw [h] at hcases
    rcases hcases with ⟨hr, _⟩ | ⟨_, _, heq⟩ | ⟨_, _, _, _, heq⟩ | ⟨_, _, _, _, _, heq⟩
    · exact hr
    all_goals cases heq
  · rw [h] at hcases
    rcases hcases with ⟨_, heq⟩ | ⟨hr, hargs, heq⟩ | ⟨_, _, _, _, heq⟩ | ⟨_, _, _, _, _, heq⟩
    · cases heq
    · exact ⟨hr, hargs, Progress.usage.inj heq⟩
    all_goals cases heq
  · rintro ⟨hr, hargs, rfl⟩
    exact main_usage hr hargs
  · rw [h] at hcases
    rcases hcases with ⟨_, heq⟩ | ⟨_, _, heq⟩ | ⟨g, hr, hargs, hg, heq⟩ | ⟨_, _, _, _, _, heq⟩
    · cases heq
    · cases heq
    · cases heq
      exact ⟨hr, hargs, hg⟩
    · cases heq
  · rintro ⟨hr, hargs, hf⟩
    exact main_failed hr hargs hf
  · rw [h] at hcases
    rcases hcases with ⟨_, heq⟩ | ⟨_, _, heq⟩ | ⟨_, _, _, _, heq⟩ |
      ⟨file, hr, hargs, hopen, hl, heq⟩
    · cases heq
    · cases heq
    · cases heq
    · exact ⟨hr, hargs, file, hopen, hl, Progress.clocking.inj heq⟩
  · rintro ⟨hr, hargs, file, hopen, hl, rfl⟩
    exact main_clocking hr hz hargs hopen hl

def HoldsFile (page : Pages) (m : Machine) (bs : List Byte) : Prop :=
  ∀ k < 2 ^ 19, imageByte bs (cell page k).toNat = bytesOf (fileRun m bs).start.dmem k

def fileLayout (page : Pages) (m : Machine) (bs : List Byte) (h : HoldsFile page m bs) :
    Layout (fileRun m bs) :=
  ⟨page, fun a => imageByte bs a.toNat, h⟩

/-- A 32 bit ELF file whose program reaches an environment call on the RV32I machine that has
the file in its memory ends main with the registers and the memory of that machine and what the
call has stored, and the text it has written is the trace of that machine. -/
theorem main_executes_file (page : Pages) (m : Machine) (files : FileSystem)
    (argv : List String) (t n : ℕ) (file : File Byte) (hz : ∀ a < bufferSize, m.host a = 0#8)
    (hr : m.commandArgs argv = true) (hargs : GoodArguments argv)
    (hopen : m.openVcd files (argv.getD 1 "") = some file) (hl : Loadable file)
    (hd : HoldsFile page m file.content) (hends : Ends (fileLayout page m file.content hd) n) :
    ∃ h, mainProgram m files argv t = .clocking h ∧
      (h.stopped = true ↔ 16 * (isaClock (fileLayout page m file.content hd) n + 2) + 8 ≤ t) ∧
      (h.stopped = true → EndsWith (fileLayout page m file.content hd) (modeOf argv) n
        (isaEnd (fileLayout page m file.content hd) n) h) ∧
      (h.stopped = true → ∃ lines,
        IsaTrace (fileLayout page m file.content hd) (modeOf argv) n lines ∧
        (mainProgram m files argv t).text = linesText (lines ++ [.success])) := by
  have hmain := main_clocking (t := t) hr hz hargs hopen hl
  refine ⟨_, hmain, hends.stopped_iff _ t, hends.endsWith, fun hs => ?_⟩
  obtain ⟨lines, htrace, hout⟩ := (hends.endsWith hs).out
  refine ⟨lines, htrace, ?_⟩
  rw [hmain, Progress.text, print_text, hout]

/-- Verilator acts on arguments that begin with +verilator+; opening out.vcd empties it. -/
def clearedMachine : Machine where
  x := ⟨false, 0b00#2⟩
  host _ := 0#8
  power _ := (bootProgram []).start
  commandArgs argv := argv.all fun arg => !("+verilator+".toList.isPrefixOf arg.toList)
  openVcd files path :=
    if path = "out.vcd" then some ⟨[], addiElf.limit, Nat.zero_le _, addiElf.small⟩
    else files path

theorem imageByte_outside {bs : List Byte} (h : EndsInside bs) {a : ℕ} (ha : bufferSize ≤ a) :
    imageByte bs a = 0#8 := by
  have hnone : (segmentsOf layout32 bs).reverse.find? (fun seg => Provides seg a) = none := by
    rw [List.find?_eq_none]
    intro seg hseg hp
    obtain ⟨ht, _, hhi⟩ : Provides seg a := by simpa using hp
    have hend := h seg (List.mem_reverse.mp hseg) ht
    omega
  rw [imageByte, hnone]

theorem addiElf_holds : HoldsFile stackPages clearedMachine addiElf.content := by
  intro k hk
  have hcell : bufferSize ≤ (cell stackPages k).toNat := by
    have hpage : (stackPages (BitVec.ofNat 17 (k / 4))).toNat = 2 ^ 13 - 1 := rfl
    rw [cell, hpage, BitVec.toNat_ofNat]
    unfold bufferSize
    omega
  rw [imageByte_outside (by decide +kernel) hcell]
  exact (BitVec.extractLsb'_zero ..).symm

def addiLayout : Layout (fileRun clearedMachine addiElf.content) :=
  fileLayout stackPages clearedMachine addiElf.content addiElf_holds

theorem addiElf_ends : Ends addiLayout 1 :=
  ⟨by decide +kernel, by decide +kernel, by decide +kernel⟩

theorem addiElf_outcome : ∃ h, mainProgram clearedMachine (fun _ => some addiElf)
    ["simulator", "addi.elf"] 88 = .clocking h ∧ h.stopped = true := by
  obtain ⟨_, _, _, hclocking⟩ := main_outcome clearedMachine (fun _ => some addiElf)
    ["simulator", "addi.elf"] 88 (fun _ _ => rfl)
  exact ⟨_, (hclocking _).mpr ⟨by decide, by decide, addiElf, rfl, addiElf_loadable, rfl⟩,
    (addiElf_ends.stopped_iff _ _).mpr (by decide +kernel)⟩

theorem addiElf_executes : ∃ h, mainProgram clearedMachine (fun _ => some addiElf)
    ["simulator", "addi.elf", "--traceInstr"] 88 = .clocking h ∧ h.stopped = true ∧
      registerRead h.top.registers 1#5 = 16#32 := by
  obtain ⟨h, hmain, hstop, hends, _⟩ := main_executes_file stackPages clearedMachine
    (fun _ => some addiElf) ["simulator", "addi.elf", "--traceInstr"] 88 1 addiElf
    (fun _ _ => rfl) (by decide) (by decide) rfl addiElf_loadable addiElf_holds addiElf_ends
  have hs := hstop.mpr (by decide +kernel)
  exact ⟨h, hmain, hs, ((hends hs).contents.read 1#5).trans (by decide +kernel)⟩

end PipelineMain
