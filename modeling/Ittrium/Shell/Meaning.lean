import Ittrium.Shell.Commands

/-!
# What the lines of a shell mean

Here there are files with texts and no descriptors, and a script is a list of lines. Of the VFS
remains how many files can still be opened, since the scripts that are being run are open.

* `Library` — what the opens bring
* `scriptLines` — the lines of a script
* `meaning` — what the commands do
* `script_foldl` — **the characters of a script, one after the other, are its lines**
-/

namespace Ittrium.Shell

open Infra Vfs

variable {τ δ : Type}

/-! ## Lines -/

/-- The lines of a script that are run: without carriage returns, cut to the room for a line, and
not empty. -/
def scriptLines (t : Str) : List Str :=
  (((t.filter (· ≠ cr)).splitOn lf).map (·.take (shellLineMax - 1))).filter (· ≠ [])

/-- A line of a script is run up to its first zero. -/
def runLine (run : RunArgv δ) (x : State δ × Int) (line : Str) : State δ × Int :=
  let d := shellExecLine run (cString line) x.1
  (d.state, d.status)

/-! ## Commands -/

/-- What the mounted file systems show: the text that the `n`-th open of a path brings, the type and
the names of a path, and the mounts. -/
structure Library where
  text : Nat → Str → Option Str
  stat : Str → Option Vfs.Stat
  names : Str → Option (List Str)
  mounts : List Str

/-- The number of opens so far, and the desk. -/
structure Sheet (τ : Type) where
  opens : Nat
  desk : Desk τ

def State.write (s : Str) (st : State (Sheet τ)) : State (Sheet τ) :=
  { st with data := { st.data with desk := st.data.desk.write s } }

def State.opened (st : State (Sheet τ)) : State (Sheet τ) :=
  { st with data := { st.data with opens := st.data.opens + 1 } }

section

variable (lib : Library) (getTim : Nat → Option SYSTIM)

/-- What the next open brings while `free` more files can be opened. -/
def Library.next (free : Nat) (path : Str) (st : State (Sheet τ)) : Option Str :=
  if free = 0 then none else lib.text st.data.opens path

/-- A text that is shown through a buffer. -/
def showText (size : Nat) (shown : Str → Str) (t : Str) (st : State (Sheet τ)) :
    State (Sheet τ) :=
  st.write ((pieces size t).flatMap shown)

def meaningShow (free size : Nat) (path : Str)
    (failed : State (Sheet τ) → State (Sheet τ) × Int) (st : State (Sheet τ)) :
    State (Sheet τ) × Int :=
  match lib.next free path st with
  | none => failed st.opened
  | some t => (showText size cString t st.opened, 0)

def meaningCat (free : Nat) (argv : List Str) (st : State (Sheet τ)) : State (Sheet τ) × Int :=
  match argv[1]? with
  | none => (st.write (ascii "usage: cat <path>\r\n"), -1)
  | some path =>
    match lib.next free path st with
    | none => (st.opened.write (ascii "cat: open failed\r\n"), -1)
    | some t => ((st.opened.write t).write (ascii "\r\n"), 0)

/-- The names of a directory, one to a line. -/
def meaningNames (path : Str) (st : State (Sheet τ)) : State (Sheet τ) × Int :=
  match lib.names path with
  | none => (st.write (ascii "ls: error\r\n"), 0)
  | some l => (l.foldl (fun st name => st.write (name ++ ascii "\r\n")) st, 0)

def meaningLs (argv : List Str) (st : State (Sheet τ)) : State (Sheet τ) × Int :=
  let path := argv[1]?.getD [slash]
  match lib.stat path with
  | some ⟨.reg, size⟩ => (st.write (lsFile path size), 0)
  | _ => meaningNames lib path st

/-- The lines of the script are run one after the other, and the status is that of the last one. -/
def meaningSource (free : Nat) (run : RunArgv (Sheet τ)) (argv : List Str)
    (st : State (Sheet τ)) : State (Sheet τ) × Int :=
  match argv[1]? with
  | none => (st.write (ascii "usage: source <path>\r\n"), -1)
  | some path =>
    match lib.next free path st with
    | none => (st.opened.write (ascii "source: open failed\r\n"), -1)
    | some t => (scriptLines t).foldl (runLine run) (st.opened, 0)

def fileMeaning (free : Nat) (run : RunArgv (Sheet τ)) (argv : List Str)
    (st : State (Sheet τ)) : CmdFn τ → State (Sheet τ) × Int
  | .ps => meaningShow lib free 127 (ascii "/proc/tasks")
      (fun st => (st.write (ascii "ps: /proc/tasks unavailable\r\n"), -1)) st
  | .irq => meaningShow lib free 127 (ascii "/proc/interrupts")
      (fun st => (st.write (ascii "irq: /proc/interrupts unavailable\r\n"), -1)) st
  | .ticks => meaningShow lib free 63 (ascii "/proc/ticks")
      (fun st => (st.write (ticksText (getTim st.data.opens)), 0)) st
  | .load => meaningShow lib free 79 (ascii "/sys/cpu/load")
      (meaningShow lib free 79 (ascii "/proc/stat")
        fun st => (st.write (ascii "load: n/a\r\n"), -1)) st
  | .ls => meaningLs lib argv st
  | .cat => meaningCat lib free argv st
  | .source => meaningSource lib free run argv st
  | _ => (st, 0)

variable (cmds : List (ShellCmd τ)) (hist : Hist)

/-- A command that reads no file. -/
def onSheet (f : State (Desk τ) → State (Desk τ) × Int) (st : State (Sheet τ)) :
    State (Sheet τ) × Int :=
  let r := f ⟨st.vars, st.data.desk⟩
  (⟨r.1.vars, { st.data with desk := r.1.data }⟩, r.2)

/-- One command, if `run` says what the lines of a script do. -/
def commandMeaning (free : Nat) (run : RunArgv (Sheet τ)) : RunArgv (Sheet τ) := fun argv st =>
  match argv.head? with
  | none => (st, 0)
  | some name =>
    match cmds.find? fun c => c.name = name with
    | none => (st.write (unknownText name), -1)
    | some c =>
      match deskCmd cmds hist lib.mounts c.fn with
      | some f => onSheet (f argv) st
      | none => fileMeaning lib getTim free run argv st c.fn

/-- What the commands do while `free` files can be opened. A script that is run is one of them. -/
def meaning : Nat → RunArgv (Sheet τ)
  | 0 => commandMeaning lib getTim cmds hist 0 fun _ st => (st, 0)
  | free + 1 => commandMeaning lib getTim cmds hist (free + 1) (meaning free)

end

/-! ## A script is its lines -/

variable {run : RunArgv δ}

theorem modifyHead_nil_append (ls : List Str) : ls.modifyHead ([] ++ ·) = ls := by
  cases ls <;> rfl

/-- A line that ends is run if there is something in it. -/
theorem endLine_eq (line : Str) (st : State δ) (status : Int) :
    Script.endLine run (st, ⟨line, status⟩) =
      if line = [] then (st, ⟨[], status⟩)
      else ((runLine run (st, status) line).1, ⟨[], (runLine run (st, status) line).2⟩) := by
  unfold Script.endLine
  by_cases hline : line = []
  · subst hline
    rw [if_pos rfl, if_pos rfl]
  · rw [if_neg hline, if_neg hline]
    rfl

theorem char_cr (st : State δ) (script : Script) : Script.char run (st, script) cr = (st, script) :=
  if_pos rfl

theorem char_lf (st : State δ) (script : Script) :
    Script.char run (st, script) lf = Script.endLine run (st, script) := by
  unfold Script.char
  rw [if_neg (by decide), if_pos rfl]

/-- What has been read of a line is kept as far as there is room. -/
theorem char_keeps {c : Ch} (hcr : c ≠ cr) (hlf : c ≠ lf) (full : Str) (st : State δ)
    (status : Int) :
    Script.char run (st, ⟨full.take (shellLineMax - 1), status⟩) c =
      (st, ⟨(full ++ [c]).take (shellLineMax - 1), status⟩) := by
  unfold Script.char
  rw [if_neg hcr, if_neg hlf]
  dsimp only
  rw [List.length_take]
  by_cases hroom : full.length < shellLineMax - 1
  · rw [if_pos (by omega), List.take_of_length_le (by omega),
      List.take_of_length_le (by rw [List.length_append, List.length_singleton]; omega)]
  · rw [if_neg (by omega), List.take_append_of_le_length (by omega)]

/-- The same, from a line on of which `full` has been read. -/
theorem script_foldl_from (run : RunArgv δ) (t full : Str) (st : State δ) (status : Int) :
    (let x := Script.endLine run
      (t.foldl (Script.char run) (st, ⟨full.take (shellLineMax - 1), status⟩))
    (x.1, x.2.status)) =
      (((((t.filter (· ≠ cr)).splitOn lf).modifyHead (full ++ ·)).map
        (·.take (shellLineMax - 1))).filter (· ≠ [])).foldl (runLine run) (st, status) := by
  induction t generalizing full st status with
  | nil =>
    simp only [List.foldl_nil, List.filter_nil, List.splitOn_nil, List.modifyHead_cons,
      List.append_nil, List.map_cons, List.map_nil, endLine_eq]
    by_cases hf : full.take (shellLineMax - 1) = [] <;> simp [hf]
  | cons c t ih =>
    rw [List.foldl_cons]
    by_cases hcr : c = cr
    · subst hcr
      rw [char_cr, List.filter_cons_of_neg (by simp)]
      exact ih full st status
    · rw [List.filter_cons_of_pos (by simpa using hcr), List.splitOn_cons_eq_if_modifyHead]
      by_cases hlf : c = lf
      · subst hlf
        rw [if_pos (beq_self_eq_true lf), List.modifyHead_cons, List.append_nil, List.map_cons,
          char_lf, endLine_eq (full.take (shellLineMax - 1))]
        have ih := ih []
        simp only [List.take_nil, modifyHead_nil_append] at ih
        by_cases hf : full.take (shellLineMax - 1) = []
        · rw [if_pos hf, List.filter_cons_of_neg (by simp only [hf]; decide)]
          exact ih st status
        · rw [if_neg hf, List.filter_cons_of_pos (by simpa using hf), List.foldl_cons]
          exact ih _ _
      · have hhead : (full ++ ·) ∘ (c :: ·) = ((full ++ [c]) ++ ·) := by
          funext rest
          simp
        rw [if_neg (by simpa using hlf), List.modifyHead_modifyHead, hhead, char_keeps hcr hlf]
        exact ih (full ++ [c]) st status

/-- **The characters of a script, one after the other, are its lines.** -/
theorem script_foldl (run : RunArgv δ) (t : Str) (st : State δ) (status : Int) :
    (let x := Script.endLine run (t.foldl (Script.char run) (st, ⟨[], status⟩))
    (x.1, x.2.status)) = (scriptLines t).foldl (runLine run) (st, status) := by
  have h := script_foldl_from run t [] st status
  rw [List.take_nil, modifyHead_nil_append] at h
  exact h

end Ittrium.Shell
