import Ittrium.Infra.Drain
import Ittrium.Shell.LineEdit
import Ittrium.Shell.Parse
import Ittrium.Vfs.Calls
import Ittrium.Vfs.Telemetry

/-!
# The commands of `shell.c`

What the commands write, and the variables, are the shell's own; files are read through the VFS. The
loader is not linked, so `elf_run` and `elf_kill` are the stubs of `shell.c`. The commands of an
application work on what it keeps itself.

The data of a shell is `none` once it has touched memory that is not its own, or if it is not done
after `fuel` reads and `fuel` scripts within each other.

* `shellPrintf`, `shellRegister` — with the table that `shellInitBuiltins` fills
* `deskCmd` — the commands that read no file
* `cmdCat`, `cmdLs`, `cmdSource` — and the others that do
* `shellRunArgv`, `shellLines` — the shell
-/

namespace Ittrium.Shell

open Infra Vfs

/-! ## Output -/

/-- An argument of `shell_printf`: a string, which may be null, or a number. -/
inductive PrintfArg where
  | str (s : Option Str)
  | int (v : UW)

def lf : Ch := 0x0a
def cr : Ch := 0x0d
def percent : Ch := 0x25

/-- A sign if there is one, and the digits. -/
def signed (v : UW) : Str :=
  if v.toInt < 0 then ascii "-" ++ decimal 16 (-v).toNat else decimal 16 v.toNat

/-- The digits of a number, the last one first, as far as there is room. -/
def hexDigits (digits : Str) : Nat → Nat → Str
  | 0, _ => []
  | room + 1, v => if v = 0 then [] else digits.getD (v % 16) 0 :: hexDigits digits room (v / 16)

def hexadecimal (digits : Str) (v : UW) : Str :=
  if v = 0 then ascii "0" else (hexDigits digits 16 v.toNat).reverse

/-- What one directive writes. Of an argument that is missing or of the other kind nothing is
written. -/
def directive (d : Ch) (args : List PrintfArg) : Str × List PrintfArg :=
  if d = percent then ([percent], args)
  else if d = 0x73 then
    match args with
    | .str s :: args => (s.getD [], args)
    | _ => ([], args.tail)
  else if d = 0x75 ∨ d = 0x64 ∨ d = 0x78 ∨ d = 0x58 then
    match args with
    | .int v :: args =>
      (if d = 0x75 then decimal 16 v.toNat
        else if d = 0x64 then signed v
        else if d = 0x58 then hexadecimal (ascii "0123456789ABCDEF") v
        else hexadecimal (ascii "0123456789abcdef") v, args)
    | _ => ([], args.tail)
  else ([d], args)

def shellPrintf : Str → List PrintfArg → Str
  | [], _ => []
  | [c], _ => if c = percent then [] else [c]
  | c :: d :: fmt, args =>
    if c = percent then (directive d args).1 ++ shellPrintf fmt (directive d args).2
    else c :: shellPrintf (d :: fmt) args

/-- What the shell has written, and what the commands of the application work on. -/
structure Desk (τ : Type) where
  out : Str
  app : τ

variable {Fs File ε σ τ : Type}

def Desk.write (s : Str) (d : Desk τ) : Desk τ := { d with out := d.out ++ s }

/-- `shell_puts`. -/
def shellPuts (s : Str) (st : State (Desk τ)) : State (Desk τ) :=
  { st with data := st.data.write s }

/-! ## The table -/

/-- `shell_cmd_fn`: the commands of `shell.c`, and those of the application. -/
inductive CmdFn (τ : Type) where
  | help
  | ps
  | ticks
  | irq
  | load
  | ls
  | cat
  | mount
  | run
  | kill
  | echo
  | set
  | unset
  | source
  | history
  | other (fn : RunArgv (Desk τ))

/-- `struct shell_cmd`. -/
structure ShellCmd (τ : Type) where
  name : Str
  help : Option Str
  fn : CmdFn τ

def shellMaxCmds : Nat := 32

/-- `shell_register`, of a name and a function that are not null. -/
def shellRegister (name : Str) (help : Option Str) (fn : CmdFn τ) (cmds : List (ShellCmd τ)) :
    List (ShellCmd τ) × Int :=
  if cmds.length ≥ shellMaxCmds then (cmds, -1)
  else
    match cmds.findIdx? fun c => c.name = name with
    | some i => (cmds.modify i fun c => { c with help, fn }, 0)
    | none => (cmds ++ [⟨name, some (help.getD []), fn⟩], 0)

/-- The commands of `shell.c`, in the order in which they are registered. -/
def builtins : List (Str × Str × CmdFn τ) :=
  [(ascii "help", ascii "list commands", .help),
    (ascii "ps", ascii "list tasks (/proc/tasks)", .ps),
    (ascii "ticks", ascii "system ticks", .ticks),
    (ascii "irq", ascii "IRQ counters (/proc/interrupts)", .irq),
    (ascii "load", ascii "CPU idle% (/sys/cpu/load)", .load),
    (ascii "ls", ascii "list directory", .ls),
    (ascii "cat", ascii "print file", .cat),
    (ascii "mount", ascii "list mounts", .mount),
    (ascii "run", ascii "load and run ELF/ITRM", .run),
    (ascii "kill", ascii "unload ELF task by tskid", .kill),
    (ascii "echo", ascii "print arguments", .echo),
    (ascii "set", ascii "set/list variables", .set),
    (ascii "unset", ascii "unset variables", .unset),
    (ascii "source", ascii "run commands from file", .source),
    (ascii ".", ascii "run commands from file", .source),
    (ascii "history", ascii "show command history", .history)]

/-- `shell_init_builtins`, without the commands of the network and of the board. -/
def shellInitBuiltins (cmds : List (ShellCmd τ)) : List (ShellCmd τ) :=
  builtins.foldl (fun cmds b => (shellRegister b.1 (some b.2.1) b.2.2 cmds).1) cmds

/-! ## Commands that read no file -/

def cmdHelp (cmds : List (ShellCmd τ)) : RunArgv (Desk τ) := fun _ st =>
  (cmds.foldl (fun st c => shellPuts (ascii "  " ++ c.name ++ ascii " - " ++ c.help.getD [] ++
    ascii "\r\n") st) (shellPuts (ascii "commands:\r\n") st), 0)

/-- The mount points are those of `vfs_mount_path`. -/
def cmdMount (mounts : List Str) : RunArgv (Desk τ) := fun _ st =>
  (mounts.foldl (fun st p => shellPuts (shellPrintf (ascii "%s\r\n") [.str (some p)]) st) st, 0)

/-- `E_NOSPT`. -/
def elfRun : UW := -9

/-- `E_NOSPT`. -/
def elfKill : UW := -9

/-- Nothing follows a stub that succeeds. -/
def cmdRun : RunArgv (Desk τ) := fun argv st =>
  if argv.length < 2 then (shellPuts (ascii "usage: run <path> [tskid] [pri]\r\n") st, -1)
  else (shellPuts (shellPrintf (ascii "run: failed (%d)\r\n") [.int elfRun]) st, -1)

def cmdKill : RunArgv (Desk τ) := fun argv st =>
  if argv.length < 2 then (shellPuts (ascii "usage: kill <tskid>\r\n") st, -1)
  else (shellPuts (shellPrintf (ascii "kill: failed (%d)\r\n") [.int elfKill]) st, -1)

/-- The words with blanks between them. -/
def unwords : List Str → Str
  | [] => []
  | [w] => w
  | w :: v :: ws => w ++ blank :: unwords (v :: ws)

def cmdEcho : RunArgv (Desk τ) := fun argv st =>
  (shellPuts (ascii "\r\n") (shellPuts (unwords argv.tail) st), 0)

/-- `shell_var_print_all`. -/
def shellVarPrintAll (st : State (Desk τ)) : State (Desk τ) :=
  (List.finRange shellVarMax).foldl (fun st i =>
    match st.vars i with
    | none => st
    | some v => shellPuts (v.1 ++ equals :: v.2 ++ ascii "\r\n") st) st

/-- The loop of `cmd_set`. -/
def setAll : List Str → State (Desk τ) → State (Desk τ) × Int
  | [], st => (st, 0)
  | arg :: args, st =>
    let name := arg.takeWhile (· ≠ equals)
    if name.length = arg.length ∨ name = [] then
      (shellPuts (ascii "usage: set [NAME=value ...]\r\n") st, -1)
    else if name.length ≥ shellVarName then (shellPuts (ascii "set: name too long\r\n") st, -1)
    else
      let r := shellVarSet name (arg.drop (name.length + 1)) st.vars
      if r.2 then setAll args { st with vars := r.1 }
      else (shellPuts (ascii "set: failed\r\n") { st with vars := r.1 }, -1)

def cmdSet : RunArgv (Desk τ) := fun argv st =>
  if argv.length < 2 then (shellVarPrintAll st, 0) else setAll argv.tail st

/-- The loop of `cmd_unset`. -/
def unsetAll : List Str → State (Desk τ) → State (Desk τ) × Int
  | [], st => (st, 0)
  | arg :: args, st =>
    let r := shellVarUnset arg st.vars
    if r.2 then unsetAll args { st with vars := r.1 }
    else
      (shellPuts (shellPrintf (ascii "unset: %s not set\r\n") [.str (some arg)])
        { st with vars := r.1 }, -1)

def cmdUnset : RunArgv (Desk τ) := fun argv st =>
  if argv.length < 2 then (shellPuts (ascii "usage: unset <NAME>...\r\n") st, -1)
  else unsetAll argv.tail st

/-- The lines are numbered from the oldest on. -/
def cmdHistory (hist : Hist) : RunArgv (Desk τ) := fun _ st =>
  ((List.range hist.count).foldl (fun st k =>
    match histGet (hist.count - k : Nat) hist with
    | none => st
    | some h =>
      shellPuts (shellPrintf (ascii "%d %s\r\n") [.int (BitVec.ofNat 32 (k + 1)), .str (some h)]) st)
    st, 0)

/-- A command that reads no file. -/
def deskCmd (cmds : List (ShellCmd τ)) (hist : Hist) (mounts : List Str) :
    CmdFn τ → Option (RunArgv (Desk τ))
  | .help => some (cmdHelp cmds)
  | .mount => some (cmdMount mounts)
  | .run => some cmdRun
  | .kill => some cmdKill
  | .echo => some cmdEcho
  | .set => some cmdSet
  | .unset => some cmdUnset
  | .history => some (cmdHistory hist)
  | .other fn => some fn
  | .ps | .ticks | .irq | .load | .ls | .cat | .source => none

/-! ## Files -/

/-- The VFS, the number of opens so far, and the desk. -/
structure Session (Fs File ε σ τ : Type) where
  vfs : VfsState Fs File ε σ
  opens : Nat
  desk : Desk τ

/-- What comes from outside at the `n`-th open: what the file system gets, in the memory as it is
then, and the time after it. -/
structure Outside (ε σ : Type) where
  answer : Nat → σ → ε
  getTim : Nat → Option SYSTIM

abbrev ShellState (Fs File ε σ τ : Type) := State (Option (Session Fs File ε σ τ))

/-- A command that reads no file. -/
def onDesk (f : State (Desk τ) → State (Desk τ) × Int) (st : ShellState Fs File ε σ τ) :
    ShellState Fs File ε σ τ × Int :=
  match st.data with
  | none => (st, 0)
  | some w =>
    let r := f ⟨st.vars, w.desk⟩
    (⟨r.1.vars, some { w with desk := r.1.data }⟩, r.2)

def State.puts (s : Str) (st : ShellState Fs File ε σ τ) : ShellState Fs File ε σ τ :=
  { st with data := st.data.map fun w => { w with desk := w.desk.write s } }

def State.stuck (st : ShellState Fs File ε σ τ) : ShellState Fs File ε σ τ :=
  { st with data := none }

section

variable (env : Outside ε σ)

/-- `vfs_open(path, VFS_O_RDONLY)`. -/
def openFile (path : Str) (st : ShellState Fs File ε σ τ) : ShellState Fs File ε σ τ × Int :=
  match st.data with
  | none => (st, -1)
  | some w =>
    let r := vfsOpen path vfsORdonly (env.answer w.opens w.vfs.mem) w.vfs
    ({ st with data := some { w with vfs := r.2, opens := w.opens + 1 } }, r.1)

/-- `vfs_read(fd, buf, size)`. -/
def readFile (fd : Int) (size : Nat) (st : ShellState Fs File ε σ τ) :
    Option ((Int × Str) × ShellState Fs File ε σ τ) :=
  st.data.bind fun w =>
    (vfsRead fd size w.vfs).map fun r => (r.1, { st with data := some { w with vfs := r.2 } })

/-- `vfs_close(fd)`. -/
def closeFile (fd : Int) (st : ShellState Fs File ε σ τ) : ShellState Fs File ε σ τ :=
  { st with
    data := st.data.bind fun w => (vfsClose fd w.vfs).map fun r => { w with vfs := r.2 } }

/-- The loop that writes a file through a buffer of `size` bytes: `shown` is what is written of a
buffer. -/
def showFile (fuel size : Nat) (shown : Str → Str) (fd : Int) (st : ShellState Fs File ε σ τ) :
    ShellState Fs File ε σ τ :=
  match drain (readFile fd size) (fun data st => st.puts (shown data)) fuel st with
  | none => st.stuck
  | some st => closeFile fd st

/-- A zero ends what `shell_puts` writes. -/
def cString (s : Str) : Str := s.takeWhile (· ≠ 0)

/-- A command that shows a pseudo file, or else does `failed`. -/
def cmdShow (fuel size : Nat) (path : Str)
    (failed : ShellState Fs File ε σ τ → ShellState Fs File ε σ τ × Int)
    (st : ShellState Fs File ε σ τ) : ShellState Fs File ε σ τ × Int :=
  let r := openFile env path st
  if r.2 < 0 then failed r.1 else (showFile fuel size cString r.2 r.1, 0)

def cmdPs (fuel : Nat) (st : ShellState Fs File ε σ τ) : ShellState Fs File ε σ τ × Int :=
  cmdShow env fuel 127 (ascii "/proc/tasks")
    (fun st => (st.puts (ascii "ps: /proc/tasks unavailable\r\n"), -1)) st

def cmdIrq (fuel : Nat) (st : ShellState Fs File ε σ τ) : ShellState Fs File ε σ τ × Int :=
  cmdShow env fuel 127 (ascii "/proc/interrupts")
    (fun st => (st.puts (ascii "irq: /proc/interrupts unavailable\r\n"), -1)) st

/-- The time, or that there is none. -/
def ticksText : Option SYSTIM → Str
  | some t => shellPrintf (ascii "%u:%u\r\n") [.int t.stHigh, .int t.stLow]
  | none => ascii "ticks: n/a\r\n"

def cmdTicks (fuel : Nat) (st : ShellState Fs File ε σ τ) : ShellState Fs File ε σ τ × Int :=
  cmdShow env fuel 63 (ascii "/proc/ticks")
    (fun st => (st.puts (ticksText (st.data.bind fun w => env.getTim w.opens)), 0)) st

def cmdLoad (fuel : Nat) (st : ShellState Fs File ε σ τ) : ShellState Fs File ε σ τ × Int :=
  cmdShow env fuel 79 (ascii "/sys/cpu/load")
    (cmdShow env fuel 79 (ascii "/proc/stat")
      fun st => (st.puts (ascii "load: n/a\r\n"), -1)) st

def cmdCat (fuel : Nat) (argv : List Str) (st : ShellState Fs File ε σ τ) :
    ShellState Fs File ε σ τ × Int :=
  match argv[1]? with
  | none => (st.puts (ascii "usage: cat <path>\r\n"), -1)
  | some path =>
    let r := openFile env path st
    if r.2 < 0 then (r.1.puts (ascii "cat: open failed\r\n"), -1)
    else ((showFile fuel 63 id r.2 r.1).puts (ascii "\r\n"), 0)

end

/-- The loop of `cmd_ls`, from the index on. -/
def lsLoop (path : Str) : Nat → Int → ShellState Fs File ε σ τ → ShellState Fs File ε σ τ
  | 0, _, st => st.stuck
  | fuel + 1, idx, st =>
    match st.data.bind fun w => vfsListdir path vfsNameMax idx w.vfs with
    | none => st.stuck
    | some (.name e) => lsLoop path fuel e.idx (st.puts (e.name ++ ascii "\r\n"))
    | some .done => st
    | some (.error rc) => if rc < 0 then st.puts (ascii "ls: error\r\n") else st

/-- The line of a file that is not a directory. -/
def lsFile (path : Str) (size : Nat) : Str :=
  shellPrintf (ascii "%s  %u\r\n") [.str (some path), .int (BitVec.ofNat 32 size)]

def cmdLs (fuel : Nat) (argv : List Str) (st : ShellState Fs File ε σ τ) :
    ShellState Fs File ε σ τ × Int :=
  let path := argv[1]?.getD [slash]
  match st.data.map fun w => vfsStat path w.vfs with
  | none => (st, 0)
  | some (.ok ⟨.reg, size⟩) => (st.puts (lsFile path size), 0)
  | some _ => (lsLoop path fuel 0 st, 0)

/-! ## Scripts -/

/-- `line`, as far as it is filled, and `status`. -/
structure Script where
  line : Str
  status : Int

/-- A line of a script ends. -/
def Script.endLine {δ : Type} (run : RunArgv δ) (x : State δ × Script) : State δ × Script :=
  if x.2.line = [] then x
  else
    let d := shellExecLine run (cString x.2.line) x.1
    (d.state, ⟨[], d.status⟩)

/-- One character of a script. -/
def Script.char {δ : Type} (run : RunArgv δ) (x : State δ × Script) (c : Ch) : State δ × Script :=
  if c = cr then x
  else if c = lf then Script.endLine run x
  else if x.2.line.length + 1 < shellLineMax then (x.1, { x.2 with line := x.2.line ++ [c] })
  else x

/-- The read of `cmd_source`, in the middle of a line. -/
def Script.read (fd : Int) (x : ShellState Fs File ε σ τ × Script) :
    Option ((Int × Str) × (ShellState Fs File ε σ τ × Script)) :=
  (readFile fd 64 x.1).map fun r => (r.1, (r.2, x.2))

section

variable (env : Outside ε σ)

def cmdSource (fuel : Nat) (run : RunArgv (Option (Session Fs File ε σ τ))) (argv : List Str)
    (st : ShellState Fs File ε σ τ) : ShellState Fs File ε σ τ × Int :=
  match argv[1]? with
  | none => (st.puts (ascii "usage: source <path>\r\n"), -1)
  | some path =>
    let r := openFile env path st
    if r.2 < 0 then (r.1.puts (ascii "source: open failed\r\n"), -1)
    else
      match drain (Script.read r.2) (fun data x => data.foldl (Script.char run) x) fuel
          (r.1, ⟨[], 0⟩) with
      | none => (r.1.stuck, 0)
      | some x =>
        let x := Script.endLine run x
        (closeFile r.2 x.1, x.2.status)

/-- A command that reads files. -/
def fileCmd (fuel : Nat) (run : RunArgv (Option (Session Fs File ε σ τ))) (argv : List Str)
    (st : ShellState Fs File ε σ τ) : CmdFn τ → ShellState Fs File ε σ τ × Int
  | .ps => cmdPs env fuel st
  | .ticks => cmdTicks env fuel st
  | .irq => cmdIrq env fuel st
  | .load => cmdLoad env fuel st
  | .ls => cmdLs fuel argv st
  | .cat => cmdCat env fuel argv st
  | .source => cmdSource env fuel run argv st
  | _ => (st, 0)

/-- The paths of `vfs_mount_path`. -/
def mountPaths (mounts : MountIx → Option (Mount Fs File ε σ)) : List Str :=
  (List.finRange vfsMaxMounts).filterMap fun i => (mounts i).map fun m => m.path

def unknownText (name : Str) : Str := shellPrintf (ascii "unknown: %s\r\n") [.str (some name)]

variable (cmds : List (ShellCmd τ)) (hist : Hist)

/-- `shell_run_argv`. A script runs its lines with one level less. -/
def shellRunArgv : Nat → RunArgv (Option (Session Fs File ε σ τ))
  | 0 => fun _ st => (st.stuck, 0)
  | fuel + 1 => fun argv st =>
    match argv.head? with
    | none => (st, 0)
    | some name =>
      match cmds.find? fun c => c.name = name with
      | none => (st.puts (unknownText name), -1)
      | some c =>
        let mounts := st.data.elim [] fun w => mountPaths w.vfs.mounts
        match deskCmd cmds hist mounts c.fn with
        | some f => onDesk (f argv) st
        | none => fileCmd env (fuel + 1) (shellRunArgv fuel) argv st c.fn

end

/-- The loop of `shell_task`, once the lines are read: each line is run, and empty ones are not. -/
def shellLines {δ : Type} (run : RunArgv δ) (lines : List Str) (st : State δ) : State δ :=
  lines.foldl (fun st line => if line = [] then st else (shellExecLine run line st).state) st

end Ittrium.Shell
