import Ittrium.Shell.Chains
import Ittrium.Shell.Meaning
import Ittrium.Vfs.Beside
import Ittrium.Vfs.Pictures

/-!
# Scripts

A script is open while its lines are run, and they may run scripts in turn. Each takes a descriptor,
so there are no more of them than descriptors.

* `Simulates` — two kinds of commands, on data that correspond
* `Mirrors` — the shell on files, and on texts
* `shell_means` — **whatever lines are run, the shell does what they mean, and leaves the
  descriptors and the files as they were**
-/

namespace Ittrium.Shell

open Infra Vfs

/-! ## Lines on data that correspond -/

section

variable {σ σ' : Type} {D : σ → σ' → Prop} {run : RunArgv σ} {run' : RunArgv σ'}

/-- The variables are the same, and the data correspond. -/
structure State.Same (D : σ → σ' → Prop) (x : State σ) (y : State σ') : Prop where
  vars : x.vars = y.vars
  data : D x.data y.data

structure Done.Same (D : σ → σ' → Prop) (d : Done σ) (d' : Done σ') : Prop where
  state : d.state.Same D d'.state
  calls : d.calls = d'.calls
  status : d.status = d'.status

/-- Every command keeps the data in correspondence, with the same status. -/
def Simulates (D : σ → σ' → Prop) (run : RunArgv σ) (run' : RunArgv σ') : Prop :=
  ∀ argv x y, State.Same D x y →
    (run argv x).1.Same D (run' argv y).1 ∧ (run argv x).2 = (run' argv y).2

theorem assignVars_same {x : State σ} {y : State σ'} (argv : List Str) (h : x.Same D y) :
    (assignVars argv x).1 = (assignVars argv y).1 ∧
      (assignVars argv x).2.Same D (assignVars argv y).2 := by
  induction argv generalizing x y with
  | nil => exact ⟨rfl, h⟩
  | cons tok argv ih =>
    unfold assignVars
    cases isAssign tok with
    | none => exact ⟨rfl, h⟩
    | some a => exact ih ⟨by rw [h.vars], h.data⟩

variable {d : Done σ} {d' : Done σ'}

theorem runSegment_same (hrun : Simulates D run run') (seg : Str) (h : d.Same D d') :
    (runSegment run seg d).Same D (runSegment run' seg d') := by
  unfold runSegment
  dsimp only
  rw [h.state.vars]
  split
  · exact ⟨h.state, h.calls, rfl⟩
  · split
    · exact ⟨h.state, h.calls, rfl⟩
    · next hargv =>
      obtain ⟨hfst, hsnd⟩ := assignVars_same (tokenize shellMaxArgs
        (expandVars d'.state.vars (seg.dropWhile isBlank) shellLineMax)) h.state
      rw [hfst]
      split
      · exact ⟨hsnd, h.calls, rfl⟩
      · obtain ⟨hstate, hstatus⟩ := hrun (assignVars (tokenize shellMaxArgs
          (expandVars d'.state.vars (seg.dropWhile isBlank) shellLineMax)) d'.state).1 _ _ hsnd
        exact ⟨hstate, by rw [h.calls], hstatus⟩

variable {ch : Chain σ} {ch' : Chain σ'}

theorem segment_same (hrun : Simulates D run run') (seg : Str) (h : ch.done.Same D ch'.done)
    (hnext : ch.runNext = ch'.runNext) : (ch.segment run seg).Same D (ch'.segment run' seg) := by
  unfold Chain.segment
  dsimp only
  rw [hnext]
  split
  · exact runSegment_same hrun _ h
  · exact h

theorem next_same (hrun : Simulates D run run') (op : ChainOp) (seg : Str)
    (h : ch.done.Same D ch'.done) (hnext : ch.runNext = ch'.runNext) :
    (ch.next run op seg).done.Same D (ch'.next run' op seg).done ∧
      (ch.next run op seg).runNext = (ch'.next run' op seg).runNext := by
  have hseg := segment_same hrun seg h hnext
  refine ⟨hseg, ?_⟩
  unfold Chain.next
  dsimp only
  rw [hseg.status]

/-- The segments that are still to come. -/
theorem runChain_same (hrun : Simulates D run run') (rest : List (ChainOp × Str)) (seg : Str)
    (h : ch.done.Same D ch'.done) (hnext : ch.runNext = ch'.runNext) :
    (runChain run ch seg rest).Same D (runChain run' ch' seg rest) := by
  induction rest generalizing ch ch' seg with
  | nil => exact segment_same hrun seg h hnext
  | cons r rest ih =>
    obtain ⟨hdone, hflag⟩ := next_same hrun r.1 seg h hnext
    exact ih r.2 hdone hflag

/-- **A line keeps the data in correspondence,** with the same calls and the same status. -/
theorem shellExecLine_same (hrun : Simulates D run run') (line : Str) {x : State σ} {y : State σ'}
    (h : x.Same D y) : (shellExecLine run line x).Same D (shellExecLine run' line y) := by
  unfold shellExecLine
  rw [execLoop_eq, execLoop_eq]
  exact runChain_same hrun _ _ ⟨h, rfl, rfl⟩ rfl

end

/-! ## The shell and its meaning -/

variable {Fs File ε σ ω ν τ : Type} {r : Reader Fs File ε σ ω ν} {bound : Nat}
  {p : Picture Fs File ε σ ν} {env : Outside ε σ} {saw : Nat → ω}

/-- `malloc` returns memory that is not in use; whether there is some, and what else there is to be
seen at the `n`-th open, is `saw n`. -/
structure Outside.Answers (r : Reader Fs File ε σ ω ν) (saw : Nat → ω) (env : Outside ε σ) :
    Prop where
  fresh : ∀ n s, r.ok s → r.fresh (env.answer n s) s
  see : ∀ n s, r.ok s → r.see (env.answer n s) = saw n

/-- What the mounted file systems show. -/
def libraryOf (r : Reader Fs File ε σ ω ν) (saw : Nat → ω) (p : Picture Fs File ε σ ν) :
    Library where
  text n path := p.text r path (saw n)
  stat path := p.stat r path
  names path := p.names r path
  mounts := mountPaths p.mounts

/-- The session is on the sheet, and the VFS looks like that. -/
def OnSheet (r : Reader Fs File ε σ ω ν) (p : Picture Fs File ε σ ν)
    (data : Option (Session Fs File ε σ τ)) (sheet : Sheet τ) : Prop :=
  ∃ w, data = some w ∧ w.opens = sheet.opens ∧ w.desk = sheet.desk ∧ Shows r p w.vfs

/-- The shell on files, and the shell on texts. -/
abbrev Mirrors (r : Reader Fs File ε σ ω ν) (p : Picture Fs File ε σ ν)
    (x : ShellState Fs File ε σ τ) (y : State (Sheet τ)) : Prop :=
  State.Same (OnSheet r p) x y

variable {x : ShellState Fs File ε σ τ} {y : State (Sheet τ)}

theorem puts_mirrors (s : Str) (h : Mirrors r p x y) : Mirrors r p (x.puts s) (y.write s) := by
  obtain ⟨hvars, w, hw, hopens, hdesk, hshow⟩ := h
  refine ⟨hvars, { w with desk := w.desk.write s }, ?_, hopens, ?_, hshow⟩
  · simp [State.puts, hw]
  · simp [State.write, hdesk]

theorem onDesk_mirrors (f : State (Desk τ) → State (Desk τ) × Int) (h : Mirrors r p x y) :
    Mirrors r p (onDesk f x).1 (onSheet f y).1 ∧ (onDesk f x).2 = (onSheet f y).2 := by
  obtain ⟨hvars, w, hw, hopens, hdesk, hshow⟩ := h
  have hf : f ⟨x.vars, w.desk⟩ = f ⟨y.vars, y.data.desk⟩ := by rw [hvars, hdesk]
  unfold onDesk onSheet
  rw [hw]
  dsimp only
  rw [hf]
  exact ⟨⟨rfl, _, rfl, hopens, rfl, hshow⟩, rfl⟩

variable [DecidableEq File]

/-- An open fails, or brings a text. -/
theorem openFile_mirrors (hall : AllReadable r bound p.mounts) (henv : env.Answers r saw)
    (path : Str) (h : Mirrors r p x y) :
    ((libraryOf r saw p).next (freeFds p.fds) path y = none ∧ (openFile env path x).2 < 0 ∧
      Mirrors r p (openFile env path x).1 y.opened) ∨
    ∃ t, (libraryOf r saw p).next (freeFds p.fds) path y = some t ∧ t.length ≤ bound ∧
      ∃ (i : FdIx) (d : Fd Fs File ε σ), (openFile env path x).2 = i.val ∧ p.fds i = none ∧
        p.rest d.file = none ∧ Served r d.ops d.file ∧
          Mirrors r (p.take i d t) (openFile env path x).1 y.opened := by
  obtain ⟨hvars, w, hw, hopens, hdesk, hshow⟩ := h
  have hopen : openFile env path x = ({ x with data := some { w with
      vfs := (vfsOpen path vfsORdonly (env.answer w.opens w.vfs.mem) w.vfs).2,
      opens := w.opens + 1 } },
      (vfsOpen path vfsORdonly (env.answer w.opens w.vfs.mem) w.vfs).1) := by
    unfold openFile
    rw [hw]
  have hnext : (libraryOf r saw p).next (freeFds p.fds) path y =
      if freeFds p.fds = 0 then none else p.text r path (saw w.opens) := by
    unfold Library.next libraryOf
    rw [hopens]
  rw [hopen, hnext]
  have hopened : w.opens + 1 = y.opened.data.opens := by rw [hopens]; rfl
  rcases vfsOpen_shows hall hshow (henv.fresh w.opens w.vfs.mem hshow.ok) path with
    ⟨hno, rc, v', hres, hneg, hv⟩ | ⟨hfree, t, ht, hlen, i, d, v', hres, hi, hf, hd, hv⟩
  · rw [hres]
    refine Or.inl ⟨?_, hneg, hvars, _, rfl, hopened, hdesk, hv⟩
    rcases hno with hno | hno
    · rw [if_pos hno]
    · rw [henv.see _ _ hshow.ok] at hno
      rw [hno, ite_self]
  · rw [hres]
    rw [henv.see _ _ hshow.ok] at ht
    refine Or.inr ⟨t, ?_, hlen, i, d, rfl, hi, hf, hd, hvars, _, rfl, hopened, hdesk, hv⟩
    rw [if_neg hfree, ht]

variable {i : FdIx} {d : Fd Fs File ε σ}

/-- A read takes the next bytes of the text. -/
theorem readFile_mirrors (hd : Served r d.ops d.file) (size : Nat) {t : Str}
    (h : Mirrors r (p.take i d t) x y) :
    ∃ x', readFile i.val size x = some ((((t.take size).length : Int), t.take size), x') ∧
      Mirrors r (p.take i d (t.drop size)) x' y := by
  obtain ⟨hvars, w, hw, hopens, hdesk, hshow⟩ := h
  obtain ⟨v', hres, hv⟩ := vfsRead_shows hshow (Function.update_self ..)
    (Function.update_self ..) hd size
  rw [Picture.advance_take] at hv
  refine ⟨{ x with data := some { w with vfs := v' } }, ?_, hvars, _, rfl, hopens, hdesk, hv⟩
  unfold readFile
  rw [hw, Option.bind_some, hres, Option.map_some]

/-- A close leaves what there was before the open. -/
theorem closeFile_mirrors (hi : p.fds i = none) (hf : p.rest d.file = none)
    (hd : Served r d.ops d.file) {t : Str} (h : Mirrors r (p.take i d t) x y) :
    Mirrors r p (closeFile i.val x) y := by
  obtain ⟨hvars, w, hw, hopens, hdesk, hshow⟩ := h
  obtain ⟨rc, v', hres, hv⟩ := vfsClose_shows hshow (Function.update_self ..)
    (Function.update_self ..) hd
  rw [Picture.release_take hi hf] at hv
  refine ⟨hvars, { w with vfs := v' }, ?_, hopens, hdesk, hv⟩
  unfold closeFile
  rw [hw, Option.bind_some, hres, Option.map_some]

/-! ## Commands that show a file -/

theorem write_append (s t : Str) (y : State (Sheet τ)) : (y.write s).write t = y.write (s ++ t) := by
  simp [State.write, Desk.write]

theorem foldl_write (shown : Str → Str) (ds : List Str) (y : State (Sheet τ)) :
    ds.foldl (fun y d => y.write (shown d)) y = y.write (ds.flatMap shown) := by
  induction ds generalizing y with
  | nil => simp [State.write, Desk.write]
  | cons d ds ih => rw [List.foldl_cons, ih, write_append, List.flatMap_cons]

/-- A file that is open is shown and closed. -/
theorem showFile_mirrors {fuel : Nat} (size : Nat) (hsize : 0 < size) (shown : Str → Str)
    (hi : p.fds i = none) (hf : p.rest d.file = none) (hd : Served r d.ops d.file) {t : Str}
    (hfuel : t.length < fuel) (h : Mirrors r (p.take i d t) x y) :
    Mirrors r p (showFile fuel size shown i.val x) (showText size shown t y) := by
  obtain ⟨x', hx, h'⟩ := drain_simulates hsize (readFile i.val size)
    (fun data st => st.puts (shown data)) (fun data y => y.write (shown data))
    (fun t x y => Mirrors r (p.take i d t) x y)
    (fun t x y h => readFile_mirrors hd size h) (fun t data x y h => puts_mirrors _ h) hfuel h
  rw [foldl_write] at h'
  unfold showFile showText
  rw [hx]
  exact closeFile_mirrors hi hf hd h'

variable {fuel : Nat}

/-- The results of a command. -/
abbrev MirrorsResult (r : Reader Fs File ε σ ω ν) (p : Picture Fs File ε σ ν)
    (a : ShellState Fs File ε σ τ × Int) (b : State (Sheet τ) × Int) : Prop :=
  Mirrors r p a.1 b.1 ∧ a.2 = b.2

theorem cmdShow_mirrors (hall : AllReadable r bound p.mounts) (henv : env.Answers r saw)
    (hfuel : bound < fuel) {size : Nat} (hsize : 0 < size) (path : Str)
    {failed : ShellState Fs File ε σ τ → ShellState Fs File ε σ τ × Int}
    {failed' : State (Sheet τ) → State (Sheet τ) × Int}
    (hfailed : ∀ x y, Mirrors r p x y → MirrorsResult r p (failed x) (failed' y))
    (h : Mirrors r p x y) :
    MirrorsResult r p (cmdShow env fuel size path failed x)
      (meaningShow (libraryOf r saw p) (freeFds p.fds) size path failed' y) := by
  unfold cmdShow meaningShow
  rcases openFile_mirrors hall henv path h with
    ⟨hnone, hneg, h'⟩ | ⟨t, hsome, hlen, i, d, hfd, hi, hf, hd, h'⟩
  · dsimp only
    rw [hnone, if_pos hneg]
    exact hfailed _ _ h'
  · dsimp only
    rw [hsome, hfd, if_neg (by omega)]
    exact ⟨showFile_mirrors size hsize cString hi hf hd (by omega) h', rfl⟩

theorem cmdCat_mirrors (hall : AllReadable r bound p.mounts) (henv : env.Answers r saw)
    (hfuel : bound < fuel) (argv : List Str) (h : Mirrors r p x y) :
    MirrorsResult r p (cmdCat env fuel argv x)
      (meaningCat (libraryOf r saw p) (freeFds p.fds) argv y) := by
  unfold cmdCat meaningCat
  cases argv[1]? with
  | none => exact ⟨puts_mirrors _ h, rfl⟩
  | some path =>
    dsimp only
    rcases openFile_mirrors hall henv path h with
      ⟨hnone, hneg, h'⟩ | ⟨t, hsome, hlen, i, d, hfd, hi, hf, hd, h'⟩
    · rw [hnone, if_pos hneg]
      exact ⟨puts_mirrors _ h', rfl⟩
    · have hshow := showFile_mirrors 63 (by decide) id hi hf hd (Nat.lt_of_le_of_lt hlen hfuel) h'
      have hwhole : (pieces 63 t).flatMap id = t := by
        rw [List.flatMap_id, flatten_pieces (by decide)]
      rw [hsome, hfd, if_neg (by omega)]
      rw [showText, hwhole] at hshow
      exact ⟨puts_mirrors _ hshow, rfl⟩

/-! ## Lists -/

omit [DecidableEq File] in
/-- The loop writes the names from the index on. -/
theorem lsLoop_mirrors {path : Str} {l : List Str}
    (hlist : ∀ v : VfsState Fs File ε σ, Shows r p v →
      Enumerates (fun idx => vfsListdir path vfsNameMax idx v) l) (k : Nat) (hk : k ≤ l.length)
    (hfuel : l.length - k < fuel) (h : Mirrors r p x y) :
    Mirrors r p (lsLoop path fuel k x)
      ((l.drop k).foldl (fun st name => st.write (name ++ ascii "\r\n")) y) := by
  induction fuel generalizing k x y with
  | zero => omega
  | succ fuel ih =>
    obtain ⟨hvars, w, hw, hopens, hdesk, hshow⟩ := id h
    obtain ⟨heach, hdone⟩ := hlist w.vfs hshow
    unfold lsLoop
    rw [hw, Option.bind_some]
    by_cases hend : k = l.length
    · subst hend
      rw [hdone, List.drop_length]
      exact h
    · have hlt : k < l.length := by omega
      rw [heach k hlt, List.drop_eq_getElem_cons hlt, List.foldl_cons]
      exact ih (k + 1) (by omega) (by omega) (puts_mirrors _ h)

/-- What a directory shows. -/
theorem lsNames_mirrors (saw : Nat → ω) (hall : AllReadable r bound p.mounts)
    (hfuel : bound < fuel) (path : Str) (h : Mirrors r p x y) :
    MirrorsResult r p (lsLoop path fuel 0 x, 0) (meaningNames (libraryOf r saw p) path y) := by
  obtain ⟨hvars, w, hw, hopens, hdesk, hshow⟩ := id h
  obtain ⟨hnone, hsome⟩ := vfsListdir_shows hall hshow path
  unfold meaningNames libraryOf
  dsimp only
  cases hl : p.names r path with
  | none =>
    obtain ⟨rc, hrc, hneg⟩ := hnone hl
    refine ⟨?_, rfl⟩
    cases fuel with
    | zero => omega
    | succ fuel =>
      unfold lsLoop
      rw [hw, Option.bind_some, hrc]
      dsimp only
      rw [if_pos hneg]
      exact puts_mirrors _ h
  | some l =>
    have hlen := (hsome l hl).1
    exact ⟨lsLoop_mirrors (fun v hv => ((vfsListdir_shows hall hv path).2 l hl).2) 0
      (Nat.zero_le _) (by omega) h, rfl⟩

theorem cmdLs_mirrors (hall : AllReadable r bound p.mounts) (hfuel : bound < fuel)
    (argv : List Str) (h : Mirrors r p x y) :
    MirrorsResult r p (cmdLs fuel argv x) (meaningLs (libraryOf r saw p) argv y) := by
  obtain ⟨hvars, w, hw, hopens, hdesk, hshow⟩ := id h
  have hloop := lsNames_mirrors saw hall hfuel (argv[1]?.getD [slash]) h
  have hstat : (vfsStat (argv[1]?.getD [slash]) w.vfs).toOption =
      (libraryOf r saw p).stat (argv[1]?.getD [slash]) := vfsStat_shows hall hshow _
  unfold cmdLs meaningLs
  dsimp only
  rw [hw, Option.map_some, ← hstat]
  cases vfsStat (argv[1]?.getD [slash]) w.vfs with
  | error rc => exact hloop
  | ok st =>
    obtain ⟨type, size⟩ := st
    cases type with
    | reg => exact ⟨puts_mirrors _ h, rfl⟩
    | dir => exact hloop

/-! ## Scripts within scripts -/

variable {run : RunArgv (Option (Session Fs File ε σ τ))} {run' : RunArgv (Sheet τ)}

/-- The same place of a script. -/
structure InScript (r : Reader Fs File ε σ ω ν) (q : Picture Fs File ε σ ν)
    (a : ShellState Fs File ε σ τ × Script) (b : State (Sheet τ) × Script) : Prop where
  mirrors : Mirrors r q a.1 b.1
  script : a.2 = b.2

section

variable {q : Picture Fs File ε σ ν} {a : ShellState Fs File ε σ τ × Script}
  {b : State (Sheet τ) × Script}

/-- A read in the middle of a line takes the next bytes of the script. -/
theorem readScript_inScript (hd : Served r d.ops d.file) {t : Str}
    (h : InScript r (p.take i d t) a b) :
    ∃ a', Script.read i.val a = some ((((t.take 64).length : Int), t.take 64), a') ∧
      InScript r (p.take i d (t.drop 64)) a' b := by
  obtain ⟨x, hx, hnext⟩ := readFile_mirrors hd 64 h.mirrors
  refine ⟨(x, a.2), ?_, hnext, h.script⟩
  unfold Script.read
  rw [hx, Option.map_some]

omit [DecidableEq File] in
theorem endLine_inScript (hrun : Simulates (OnSheet r q) run run') (h : InScript r q a b) :
    InScript r q (Script.endLine run a) (Script.endLine run' b) := by
  unfold Script.endLine
  rw [h.script]
  by_cases hline : b.2.line = []
  · rw [if_pos hline, if_pos hline]
    exact h
  · rw [if_neg hline, if_neg hline]
    have hd := shellExecLine_same hrun (cString b.2.line) h.mirrors
    exact ⟨hd.state, by dsimp only; rw [hd.status]⟩

omit [DecidableEq File] in
/-- One character of a script. -/
theorem char_inScript (hrun : Simulates (OnSheet r q) run run') (c : Ch) (h : InScript r q a b) :
    InScript r q (Script.char run a c) (Script.char run' b c) := by
  unfold Script.char
  split
  · exact h
  · split
    · exact endLine_inScript hrun h
    · rw [h.script]
      split
      · exact ⟨h.mirrors, rfl⟩
      · exact h

omit [DecidableEq File] in
theorem chars_inScript (hrun : Simulates (OnSheet r q) run run') (s : Str) (h : InScript r q a b) :
    InScript r q (s.foldl (Script.char run) a) (s.foldl (Script.char run') b) := by
  induction s generalizing a b with
  | nil => exact h
  | cons c s ih => exact ih (char_inScript hrun c h)

end

/-- **A script does what its lines mean.** While they are run it takes a descriptor. -/
theorem cmdSource_mirrors (hall : AllReadable r bound p.mounts) (henv : env.Answers r saw)
    (hfuel : bound < fuel) (argv : List Str)
    (hrun : ∀ i d t, p.fds i = none → Simulates (OnSheet r (p.take i d t)) run run')
    (h : Mirrors r p x y) :
    MirrorsResult r p (cmdSource env fuel run argv x)
      (meaningSource (libraryOf r saw p) (freeFds p.fds) run' argv y) := by
  unfold cmdSource meaningSource
  cases argv[1]? with
  | none => exact ⟨puts_mirrors _ h, rfl⟩
  | some path =>
    dsimp only
    rcases openFile_mirrors hall henv path h with
      ⟨hnone, hneg, h'⟩ | ⟨t, hsome, hlen, i, d, hfd, hi, hf, hd, h'⟩
    · rw [hnone, if_pos hneg]
      exact ⟨puts_mirrors _ h', rfl⟩
    · rw [hsome, hfd, if_neg (by omega)]
      have hstart : InScript r (p.take i d t) ((openFile env path x).1, ⟨[], 0⟩)
          (y.opened, ⟨[], 0⟩) := ⟨h', rfl⟩
      obtain ⟨z, hz, hend⟩ := drain_simulates (by decide) (Script.read i.val)
        (fun data z => data.foldl (Script.char run) z)
        (fun data z => data.foldl (Script.char run') z)
        (fun u a b => InScript r (p.take i d u) a b) (fun u a b hab => readScript_inScript hd hab)
        (fun u data a b hab => chars_inScript (hrun i d u hi) data hab)
        (Nat.lt_of_le_of_lt hlen hfuel) hstart
      rw [foldl_pieces (by decide)] at hend
      have hlast := endLine_inScript (hrun i d [] hi) hend
      have hlines := script_foldl run' t y.opened 0
      rw [hz]
      dsimp only
      rw [← hlines]
      exact ⟨closeFile_mirrors hi hf hd hlast.mirrors, congrArg Script.status hlast.script⟩

/-! ## The shell -/

variable {cmds : List (ShellCmd τ)} {hist : Hist}

/-- A command that reads files. -/
theorem fileCmd_mirrors (hall : AllReadable r bound p.mounts) (henv : env.Answers r saw)
    (hfuel : bound < fuel) (argv : List Str)
    (hrun : ∀ i d t, p.fds i = none → Simulates (OnSheet r (p.take i d t)) run run')
    (fn : CmdFn τ) (h : Mirrors r p x y) :
    MirrorsResult r p (fileCmd env fuel run argv x fn)
      (fileMeaning (libraryOf r saw p) env.getTim (freeFds p.fds) run' argv y fn) := by
  have hfailed : ∀ (s : Str) (x : ShellState Fs File ε σ τ) (y : State (Sheet τ)),
      Mirrors r p x y → MirrorsResult r p (x.puts s, (-1 : Int)) (y.write s, -1) :=
    fun s _ _ h => ⟨puts_mirrors s h, rfl⟩
  cases fn with
  | ps => exact cmdShow_mirrors hall henv hfuel (by decide) _ (hfailed _) h
  | irq => exact cmdShow_mirrors hall henv hfuel (by decide) _ (hfailed _) h
  | ticks =>
    refine cmdShow_mirrors hall henv hfuel (by decide) _ (fun x y h => ?_) h
    obtain ⟨-, w, hw, hopens, -⟩ := id h
    have htim : (x.data.bind fun w => env.getTim w.opens) = env.getTim y.data.opens := by
      rw [hw, Option.bind_some, hopens]
    rw [htim]
    exact ⟨puts_mirrors _ h, rfl⟩
  | load =>
    refine cmdShow_mirrors hall henv hfuel (by decide) _ (fun x y h => ?_) h
    exact cmdShow_mirrors hall henv hfuel (by decide) _ (hfailed _) h
  | ls => exact cmdLs_mirrors hall hfuel argv h
  | cat => exact cmdCat_mirrors hall henv hfuel argv h
  | source => exact cmdSource_mirrors hall henv hfuel argv hrun h
  | help | mount | run | kill | echo | set | unset | history | other fn => exact ⟨h, rfl⟩

omit [DecidableEq File] in
theorem mountPaths_eq (saw : Nat → ω) (h : Mirrors r p x y) :
    (x.data.elim [] fun w => mountPaths w.vfs.mounts) = (libraryOf r saw p).mounts := by
  obtain ⟨-, w, hw, -, -, hshow⟩ := h
  rw [hw, Option.elim_some, hshow.mounts]
  rfl

/-- One command, when the lines of a script do what they mean. -/
theorem command_mirrors (hall : AllReadable r bound p.mounts) (henv : env.Answers r saw)
    (hfuel : bound ≤ fuel)
    (hrun : ∀ i d t, p.fds i = none →
      Simulates (OnSheet r (p.take i d t)) (shellRunArgv env cmds hist fuel) run') :
    Simulates (OnSheet r p) (shellRunArgv env cmds hist (fuel + 1))
      (commandMeaning (libraryOf r saw p) env.getTim cmds hist (freeFds p.fds) run') := by
  intro argv x y h
  unfold commandMeaning
  rw [shellRunArgv]
  dsimp only
  cases argv.head? with
  | none => exact ⟨h, rfl⟩
  | some name =>
    dsimp only
    cases cmds.find? fun c => c.name = name with
    | none => exact ⟨puts_mirrors _ h, rfl⟩
    | some c =>
      dsimp only
      rw [mountPaths_eq saw h]
      cases deskCmd cmds hist (libraryOf r saw p).mounts c.fn with
      | none => exact fileCmd_mirrors hall henv (Nat.lt_succ_of_le hfuel) argv hrun c.fn h
      | some f => exact onDesk_mirrors (f argv) h

/-- **A command does what it means,** when there is fuel for the scripts that can still be opened. -/
theorem shellRunArgv_mirrors (hall : AllReadable r bound p.mounts) (henv : env.Answers r saw)
    {free : Nat} (hfree : freeFds p.fds = free) (hfuel : free + bound < fuel) :
    Simulates (OnSheet r p) (shellRunArgv env cmds hist fuel)
      (meaning (libraryOf r saw p) env.getTim cmds hist free) := by
  induction free generalizing p fuel with
  | zero =>
    obtain ⟨fuel, rfl⟩ : ∃ k, fuel = k + 1 := ⟨fuel - 1, by omega⟩
    unfold meaning
    rw [← hfree]
    refine command_mirrors hall henv (by omega) fun i d t hi => ?_
    -- there is no descriptor left
    rw [freeFds_take hi d] at hfree
    omega
  | succ free ih =>
    obtain ⟨fuel, rfl⟩ : ∃ k, fuel = k + 1 := ⟨fuel - 1, by omega⟩
    unfold meaning
    rw [← hfree]
    refine command_mirrors hall henv (by omega) fun i d t hi => ?_
    have hless : freeFds (p.take i d t).fds = free := by
      have htake := freeFds_take hi d
      change freeFds (Function.update p.fds i (some d)) = free
      omega
    exact ih hall hless (by omega)

/-- The lines of a session, one after the other. -/
theorem shellLines_mirrors {δ δ' : Type} {D : δ → δ' → Prop} {run : RunArgv δ} {run' : RunArgv δ'}
    (hrun : Simulates D run run') (lines : List Str) {x : State δ} {y : State δ'}
    (h : x.Same D y) : (shellLines run lines x).Same D (shellLines run' lines y) := by
  induction lines generalizing x y with
  | nil => exact h
  | cons line lines ih =>
    refine ih ?_
    dsimp only
    split
    · exact h
    · exact (shellExecLine_same hrun line h).state

/-- **The shell does what its lines mean.** Whatever lines have been run, the next one is done after
finitely many steps: it passes the same commands on, with the same status at the end, and writes the
same; the descriptors, the files and what is to come of those that were open are as before. -/
theorem shell_means (hall : AllReadable r bound p.mounts) (henv : env.Answers r saw)
    (cmds : List (ShellCmd τ)) (hist : Hist) (fuel : Nat) (hfuel : vfsMaxFd + bound < fuel)
    (lines : List Str) (line : Str) (vars : Vars) (w : Session Fs File ε σ τ)
    (hw : Shows r p w.vfs) :
    let run := shellRunArgv env cmds hist fuel
    let run' := meaning (libraryOf r saw p) env.getTim cmds hist (freeFds p.fds)
    let d := shellExecLine run line (shellLines run lines ⟨vars, some w⟩)
    let d' := shellExecLine run' line (shellLines run' lines ⟨vars, ⟨w.opens, w.desk⟩⟩)
    d.calls = d'.calls ∧ d.status = d'.status ∧ d.state.vars = d'.state.vars ∧
      ∃ w', d.state.data = some w' ∧ w'.opens = d'.state.data.opens ∧
        w'.desk = d'.state.data.desk ∧ Shows r p w'.vfs := by
  intro run run' d d'
  have hle := freeFds_le p.fds
  have hrun : Simulates (OnSheet r p) run run' :=
    shellRunArgv_mirrors hall henv rfl (by omega)
  have hstart : State.Same (OnSheet r p) (⟨vars, some w⟩ : ShellState Fs File ε σ τ)
      ⟨vars, ⟨w.opens, w.desk⟩⟩ := ⟨rfl, w, rfl, rfl, rfl, hw⟩
  have hsession := shellLines_mirrors hrun lines hstart
  obtain ⟨hstate, hcalls, hstatus⟩ := shellExecLine_same hrun line hsession
  exact ⟨hcalls, hstatus, hstate.vars, hstate.data⟩

/-! ## A script that runs itself -/

/-- An address that is not in use, if there is one. -/
noncomputable def unusedAddr {α : Type} (g : Addr → Option α) : Addr :=
  Classical.epsilon fun a => g a = none

theorem unusedAddr_unused {α : Type} {g : Addr → Option α} (h : FinitelyUsed g) :
    g (unusedAddr g) = none := by
  obtain ⟨n, hn⟩ := h
  exact Classical.epsilon_spec (p := fun a => g a = none) ⟨n, hn n (Nat.le_refl n)⟩

/-- There is memory at every open. -/
noncomputable def amplyMemory : Outside (Option Addr × Answer) (RomMem × RamMem) where
  answer _ s := (some (unusedAddr s.1.files), some ⟨unusedAddr s.2.files, fun _ => 0⟩)
  getTim _ := none

theorem amplyMemory_answers :
    amplyMemory.Answers (romReader.beside ramReader) fun _ => (true, true) where
  fresh n s hok := by
    constructor
    · rintro a ⟨⟩
      exact unusedAddr_unused hok.1
    · rintro b ⟨⟩
      exact unusedAddr_unused hok.2
  see n s hok := rfl

/-- A script of two lines, the second of which runs it again. -/
def againScript : RomfsEntry := ⟨ascii "a", ascii "echo hi\n. /a\n", by decide⟩

theorem root_absolute : Absolute [slash] := rfl

theorem root_short : [slash].length < vfsPathMax := by decide

/-- The script at the root, and an empty RAM file system. -/
def againVfs : VfsState (Romfs ⊕ Unit) (Addr ⊕ Addr) (Option Addr × Answer) (RomMem × RamMem) where
  mounts i :=
    if i.val = 0 then
      some ⟨[slash], (romfsOps 64).at leftPlace, .inl [againScript], root_absolute, root_short⟩
    else if i.val = 1 then
      some ⟨ascii "/tmp", (ramfsOps 64).at rightPlace, .inr (), by decide, by decide⟩
    else none
  fds _ := none
  mem := (.empty, .empty)

theorem againVfs_readable :
    AllReadable (romReader.beside ramReader) ramfsMaxSize againVfs.mounts := by
  intro i m hm
  dsimp only [againVfs] at hm
  split at hm
  · obtain rfl := Option.some.inj hm
    exact (rom_readable 64 (by decide) (by decide)).at beside_left rfl
  · split at hm
    · obtain rfl := Option.some.inj hm
      exact (ram_readable 64 (Nat.le_refl _)).at beside_right rfl
    · cases hm

theorem againVfs_ok : (romReader.beside ramReader).ok againVfs.mem :=
  ⟨⟨0, fun _ _ => rfl⟩, ⟨0, fun _ _ => rfl⟩⟩

/-- What the two file systems show. -/
def againLibrary : Library :=
  libraryOf (romReader.beside ramReader) (fun _ => (true, true))
    (pictureOf (romReader.beside ramReader) againVfs)

/-- The script runs until there is no descriptor left. -/
theorem shell_means_again :
    let cmds : List (ShellCmd Unit) := shellInitBuiltins []
    let hist : Hist := ⟨fun _ => [], 0, ⟨0, by decide⟩, by decide⟩
    let run := shellRunArgv amplyMemory cmds hist 5000
    let run' := meaning againLibrary (fun _ => none) cmds hist (freeFds againVfs.fds)
    let d := shellExecLine run (ascii ". /a")
      (shellLines run [ascii "x=1"] ⟨fun _ => none, some ⟨againVfs, 0, ⟨[], ()⟩⟩⟩)
    let d' := shellExecLine run' (ascii ". /a")
      (shellLines run' [ascii "x=1"] ⟨fun _ => none, ⟨0, ⟨[], ()⟩⟩⟩)
    (d.calls = d'.calls ∧ d.status = d'.status ∧ d.state.vars = d'.state.vars ∧
      ∃ w', d.state.data = some w' ∧ w'.opens = d'.state.data.opens ∧
        w'.desk = d'.state.data.desk ∧ Shows (romReader.beside ramReader)
          (pictureOf (romReader.beside ramReader) againVfs) w'.vfs) ∧
      d'.status = -1 ∧ d'.state.data.desk.out =
        (List.replicate 16 (ascii "hi\r\n")).flatten ++ ascii "source: open failed\r\n" :=
  ⟨shell_means againVfs_readable amplyMemory_answers (shellInitBuiltins [])
    ⟨fun _ => [], 0, ⟨0, by decide⟩, by decide⟩ 5000 (by decide) [ascii "x=1"] (ascii ". /a")
    (fun _ => none) ⟨againVfs, 0, ⟨[], ()⟩⟩ (pictureOf_shows againVfs_ok), by decide +kernel⟩

end Ittrium.Shell
