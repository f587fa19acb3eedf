import Ittrium.Vfs.Procfs
import Ittrium.Properties.Runs

/-!
# Snapshots of the pseudo files

A text is generated when its file is opened, and read later. `procfs` copies it for each open.
`sysfs` keeps it in a static buffer, which the next open of the file overwrites, and keeps the old
length.

* `snapshot`, `streamed` — the text of a handle, and what has been read of it
* `Unshaken` — no open changes a text that somebody reads
* `snapshots_isolated` — **then every handle reads the text that its own open has generated**
-/

namespace Ittrium.Vfs

open Infra

variable {cfg : Config} {W : Nat} {board : Board}

/-! ## Both file systems -/

structure Pseudo where
  sys : SysMem
  proc : ProcMem

/-- Which of the two. -/
inductive PseudoFs where
  | sys
  | proc
deriving DecidableEq

/-- A handle: its file system and the pointer. -/
abbrev PseudoHandle := PseudoFs × Addr

inductive PseudoAct (cfg : Config) where
  | open_ (fs : PseudoFs) (rel : Str) (flags : Flags) (tel : Telemetry cfg) (file buf : Option Addr)
  | read (h : PseudoHandle) (len : Nat)
  | lseek (h : PseudoHandle) (off whence : Int)
  | close (h : PseudoHandle)

inductive PseudoRes where
  | opened (res : Except Int Addr)
  | bytes (rc : Int) (data : List UInt8)
  | rc (rc : Int)

abbrev PseudoEvent (cfg : Config) := Event Pseudo (PseudoAct cfg × PseudoRes)

/-- A call of one of them. The other one does not change. -/
def pseudoAct (W : Nat) (board : Board) (m : Pseudo) : PseudoAct cfg → Option (Pseudo × PseudoRes)
  | .open_ .sys rel flags tel file _ =>
    let r := sfOpen rel flags ⟨tel, file⟩ m.sys
    some ({ m with sys := r.2 }, .opened r.1)
  | .open_ .proc rel flags tel file buf =>
    let r := pfOpen board rel flags ⟨tel, file, buf⟩ m.proc
    some ({ m with proc := r.2 }, .opened r.1)
  | .read (.sys, f) len =>
    (sfRead f len m.sys).map fun r => ({ m with sys := r.2 }, .bytes r.1.1 r.1.2)
  | .read (.proc, f) len =>
    (pfRead f len m.proc).map fun r => ({ m with proc := r.2 }, .bytes r.1.1 r.1.2)
  | .lseek (.sys, f) off whence =>
    (sfLseek W f off whence m.sys).map fun r => ({ m with sys := r.2 }, .rc r.1)
  | .lseek (.proc, _) _ _ => some (m, .rc (-1))
  | .close (.sys, f) => (sfClose f m.sys).map fun r => ({ m with sys := r.2 }, .rc r.1)
  | .close (.proc, f) => (pfClose f m.proc).map fun r => ({ m with proc := r.2 }, .rc r.1)

/-- Nothing is at the address. -/
def Pseudo.Unused (m : Pseudo) (a : Addr) : Prop :=
  m.sys.files a = none ∧ m.proc.files a = none ∧ m.proc.bufs a = none

instance Pseudo.decidableUnused (m : Pseudo) (a : Addr) : Decidable (m.Unused a) :=
  inferInstanceAs (Decidable (_ = none ∧ _ = none ∧ _ = none))

/-- `malloc` returns memory that is not in use. -/
def Pseudo.Admits (m : Pseudo) : PseudoAct cfg → Prop
  | .open_ _ _ _ _ file buf =>
    (∀ a ∈ file, m.Unused a) ∧ (∀ a ∈ buf, m.Unused a) ∧ ∀ a ∈ file, a ∉ buf
  | _ => True

instance Pseudo.decidableAdmits (m : Pseudo) (a : PseudoAct cfg) : Decidable (m.Admits a) :=
  PseudoAct.casesOn (motive := fun a => Decidable (m.Admits a)) a
    (fun _ _ _ _ file buf => inferInstanceAs (Decidable
      ((∀ a ∈ file, m.Unused a) ∧ (∀ a ∈ buf, m.Unused a) ∧ ∀ a ∈ file, a ∉ buf)))
    (fun _ _ => inferInstanceAs (Decidable True))
    (fun _ _ _ => inferInstanceAs (Decidable True))
    (fun _ => inferInstanceAs (Decidable True))

/-- The text an open generates. -/
def openText (board : Board) (fs : PseudoFs) (rel : Str) (tel : Telemetry cfg) : Option Str :=
  match fs with
  | .sys => (sysText (strip rel) tel).map Prod.snd
  | .proc => procText board (strip rel) tel

/-- An open of a `sysfs` file generates the text that the handles in use of this file have already.
The text is stored also if the open then fails for want of memory. -/
def Unshaken (m : Pseudo) : PseudoAct cfg → Prop
  | .open_ .sys rel _ tel _ _ =>
    ∀ d t, sysText (strip rel) tel = some (d, t) → ∀ f file, m.sys.files f = some file →
      file.data = d → t = (List.range file.len).map (m.sys.bytes d)
  | _ => True

/-- There are no handles. -/
def PseudoStart (m : Pseudo) : Prop := m = ⟨.empty, .empty⟩

/-- The runs whose calls all meet `C`. -/
abbrev PseudoRun (W : Nat) (board : Board) (C : Pseudo → PseudoAct cfg → Prop) :
    List (PseudoEvent cfg) → Pseudo → Prop :=
  Run PseudoStart fun m l m' => (m.Admits l.1 ∧ C m l.1) ∧ pseudoAct W board m l.1 = some (m', l.2)

/-! ## The past of a handle -/

/-- The text that the open of the handle has generated. -/
def snapshot (board : Board) (h : PseudoHandle) : List (PseudoEvent cfg) → Option Str
  | [] => none
  | ev :: tr =>
    match ev.label with
    | (.open_ fs rel _ tel _ _, .opened (.ok a)) =>
      if (fs, a) = h then openText board fs rel tel else snapshot board h tr
    | _ => snapshot board h tr

/-- Where the handle was set to last, by its open or by a seek, and all that has been read since. -/
def streamed (h : PseudoHandle) : List (PseudoEvent cfg) → Option (Nat × Str)
  | [] => none
  | ev :: tr =>
    match ev.label with
    | (.open_ fs _ _ _ _ _, .opened (.ok a)) => if (fs, a) = h then some (0, []) else streamed h tr
    | (.lseek h' _ _, .rc n) => if h' = h ∧ 0 ≤ n then some (n.toNat, []) else streamed h tr
    | (.read h' _, .bytes _ data) =>
      if h' = h then (streamed h tr).map fun s => (s.1, s.2 ++ data) else streamed h tr
    | _ => streamed h tr

def Pseudo.Open (m : Pseudo) : PseudoHandle → Prop
  | (.sys, f) => (m.sys.files f).isSome
  | (.proc, f) => (m.proc.files f).isSome

/-- Each handle reads its snapshot: what has been read is the text from where the handle was set to,
and the next read goes on there. -/
def Isolated (W : Nat) (board : Board) (tr : List (PseudoEvent cfg)) (m : Pseudo) : Prop :=
  ∀ h, m.Open h → ∃ t start got, snapshot board h tr = some t ∧ streamed h tr = some (start, got) ∧
    got <+: t.drop start ∧ ∀ len,
      let data := (t.drop (start + got.length)).take len
      (pseudoAct W board m (.read h len : PseudoAct cfg)).map Prod.snd =
        some (.bytes data.length data)

/-! ## Texts in memory -/

/-- The handle is at `pos` in the text `t`. -/
def Pseudo.Reads (m : Pseudo) (t : Str) (pos : Nat) : PseudoHandle → Prop
  | (.sys, f) => ∃ file, m.sys.files f = some file ∧ file.pos = pos ∧
      t = (List.range file.len).map (m.sys.bytes file.data)
  | (.proc, f) => ∃ file, m.proc.files f = some file ∧ file.pos = pos ∧ file.len = t.length ∧
      m.proc.bufs file.buf = some (t ++ [0])

/-- Each `procfs` file has a copy of its own. -/
structure ProcMem.Separate (m : ProcMem) : Prop where
  live : ∀ f file, m.files f = some file → m.bufs file.buf ≠ none
  apart : ∀ f g file file', m.files f = some file → m.files g = some file' →
    file.buf = file'.buf → f = g

/-- All handles but `h` are as they were. -/
def Rest (m m' : Pseudo) (h : PseudoHandle) : Prop :=
  ∀ h', h' ≠ h → (m'.Open h' → m.Open h') ∧ ∀ t pos, m.Reads t pos h' → m'.Reads t pos h'

theorem range_slice (g : Nat → Ch) {pos n : Nat} (len : Nat) (h : pos + n ≤ len) :
    (((List.range len).map g).drop pos).take n = (List.range n).map fun k => g (pos + k) := by
  apply List.ext_getElem
  · simp
    omega
  · intro k hk hk'
    simp

/-- The text is in the buffer. -/
theorem fill_text {name t : Str} {tel : Telemetry cfg} {d : SysData} (m : SysMem)
    (h : sysText name tel = some (d, t)) :
    t = (List.range t.length).map ((m.fill t d).bytes d) := by
  apply List.ext_getElem
  · simp
  · intro k hk hk'
    cases d with
    | loopback =>
      obtain rfl := sysText_loopback h
      simp [SysMem.bytes, hk]
    | buf b => simp [SysMem.fill, SysMem.bytes, putStr_of_lt hk]

/-- A buffer that already has the text keeps it. -/
theorem fill_same {m : SysMem} {d d' : SysData} {t : Str} {len : Nat}
    (h : d' = d → t = (List.range len).map (m.bytes d)) :
    (List.range len).map ((m.fill t d).bytes d') = (List.range len).map (m.bytes d') := by
  by_cases hd : d' = d
  · have ht := h hd
    subst hd
    have hlen : t.length = len := by simpa using congrArg List.length ht
    refine List.map_congr_left fun k hk => ?_
    have hk : k < t.length := by simpa [hlen] using hk
    have hbyte : t[k] = m.bytes d' k := by
      have := List.getElem_of_eq ht hk
      simpa using this
    cases d' with
    | loopback => rfl
    | buf b =>
      rw [← hbyte]
      simp [SysMem.fill, SysMem.bytes, putStr_of_lt hk]
  · rw [SysMem.fill_bytes_of_ne t hd]

/-! ## The other handles -/

variable {m m' : Pseudo} {t : Str} {pos : Nat} {h : PseudoHandle}

theorem rest_sysFile (m : Pseudo) (f : Addr) (x : Option SysFile) :
    Rest m { m with sys := m.sys.setFile f x } (.sys, f) := by
  rintro ⟨fs, g⟩ hne
  cases fs with
  | sys =>
    have hg : g ≠ f := by
      rintro rfl
      exact hne rfl
    constructor
    · intro ho
      simpa [Pseudo.Open, SysMem.setFile_of_ne hg] using ho
    · intro t pos hr
      simpa [Pseudo.Reads, SysMem.setFile_of_ne hg] using hr
  | proc => exact ⟨id, fun _ _ => id⟩

theorem rest_procFile (m : Pseudo) (f : Addr) (x : Option ProcFile) :
    Rest m { m with proc := m.proc.setFile f x } (.proc, f) := by
  rintro ⟨fs, g⟩ hne
  cases fs with
  | sys => exact ⟨id, fun _ _ => id⟩
  | proc =>
    have hg : g ≠ f := by
      rintro rfl
      exact hne rfl
    constructor
    · intro ho
      simpa [Pseudo.Open, ProcMem.setFile_of_ne hg] using ho
    · intro t pos hr
      simpa [Pseudo.Reads, ProcMem.setFile_of_ne hg] using hr

/-- A buffer that the other files do not use is given away or given back. -/
theorem rest_procBuf {f b : Addr} {x : Option ProcFile} (s : Option Str)
    (hb : ∀ g file, g ≠ f → m.proc.files g = some file → file.buf ≠ b) :
    Rest m { m with proc := (m.proc.setBuf b s).setFile f x } (.proc, f) := by
  rintro ⟨fs, g⟩ hne
  obtain ⟨hopen, hreads⟩ := rest_procFile { m with proc := m.proc.setBuf b s } f x (fs, g) hne
  cases fs with
  | sys => exact ⟨id, fun _ _ => id⟩
  | proc =>
    refine ⟨fun ho => hopen ho, fun t pos hr => hreads t pos ?_⟩
    obtain ⟨file, hf, hpos, hlen, hbuf⟩ := hr
    have hgf : g ≠ f := by
      rintro rfl
      exact hne rfl
    refine ⟨file, hf, hpos, hlen, ?_⟩
    rw [ProcMem.setBuf_of_ne (hb g file hgf hf)]
    exact hbuf

theorem ProcMem.Separate.setFile {m : ProcMem} {f : Addr} {file file' : ProcFile} (hs : m.Separate)
    (hf : m.files f = some file) (hbuf : file'.buf = file.buf) :
    (m.setFile f (some file')).Separate := by
  have hold : ∀ g x, (m.setFile f (some file')).files g = some x →
      ∃ y, m.files g = some y ∧ x.buf = y.buf := by
    intro g x hx
    by_cases hg : g = f
    · subst hg
      rw [ProcMem.setFile_self] at hx
      cases hx
      exact ⟨file, hf, hbuf⟩
    · rw [ProcMem.setFile_of_ne hg] at hx
      exact ⟨x, hx, rfl⟩
  constructor
  · intro g x hx
    obtain ⟨y, hy, he⟩ := hold g x hx
    rw [he]
    exact hs.live g y hy
  · intro g g' x x' hx hx' heq
    obtain ⟨y, hy, he⟩ := hold g x hx
    obtain ⟨y', hy', he'⟩ := hold g' x' hx'
    exact hs.apart g g' y y' hy hy' (by rw [← he, ← he', heq])

/-! ## Reads, seeks and closes -/

theorem sfRead_text {m : SysMem} {f : Addr} {file : SysFile} (hf : m.files f = some file)
    (ht : t = (List.range file.len).map (m.bytes file.data)) (len : Nat) :
    let data := (t.drop file.pos).take len
    ∃ file' : SysFile, file'.data = file.data ∧ file'.len = file.len ∧
      file'.pos = file.pos + data.length ∧
        sfRead f len m = some (((data.length : Int), data), m.setFile f (some file')) := by
  have hlen : t.length = file.len := by simpa using congrArg List.length ht
  unfold sfRead
  rw [hf]
  dsimp only [Option.map_some]
  by_cases hend : file.pos ≥ file.len
  · rw [dif_pos hend, List.drop_of_length_le (by omega)]
    refine ⟨file, rfl, rfl, by simp, ?_⟩
    rw [SysMem.setFile_same hf]
    simp
  · rw [dif_neg hend]
    have hslice : (t.drop file.pos).take len = (List.range (min len (file.len - file.pos))).map
        fun k => m.bytes file.data (file.pos + k) := by
      rw [← range_slice (m.bytes file.data) file.len (by omega), ← ht,
        List.take_eq_take_iff]
      simp
      omega
    refine ⟨{ file with pos := file.pos + min len (file.len - file.pos), pos_le := by omega },
      rfl, rfl, ?_, ?_⟩
    · simp [hslice]
    · simp [hslice]

theorem pfRead_text {m : ProcMem} {f : Addr} {file : ProcFile} (hf : m.files f = some file)
    (hlen : file.len = t.length) (hbuf : m.bufs file.buf = some (t ++ [0])) (len : Nat) :
    let data := (t.drop file.pos).take len
    ∃ file' : ProcFile, file'.buf = file.buf ∧ file'.len = file.len ∧
      file'.pos = file.pos + data.length ∧
        pfRead f len m = some (((data.length : Int), data), m.setFile f (some file')) := by
  unfold pfRead
  rw [hf, Option.bind_some]
  by_cases hend : file.pos ≥ file.len
  · rw [dif_pos hend, List.drop_of_length_le (by omega)]
    refine ⟨file, rfl, rfl, by simp, ?_⟩
    rw [ProcMem.setFile_same hf]
    simp
  · rw [dif_neg hend, hbuf]
    have hslice : ((t ++ [0]).drop file.pos).take (min len (file.len - file.pos)) =
        (t.drop file.pos).take len := by
      rw [List.drop_append_of_le_length (by omega), List.take_append_of_le_length (by simp; omega),
        List.take_eq_take_iff]
      simp
      omega
    have hcount : ((t.drop file.pos).take len).length = min len (file.len - file.pos) := by
      simp [hlen]
    refine ⟨{ file with pos := file.pos + min len (file.len - file.pos), pos_le := by omega },
      rfl, rfl, ?_, ?_⟩
    · rw [hcount]
    · rw [Option.map_some, hslice, hcount]

theorem reads_read (cfg : Config) (W : Nat) (board : Board) (hr : m.Reads t pos h)
    (hs : m.proc.Separate) (len : Nat) :
    let data := (t.drop pos).take len
    ∃ m', pseudoAct W board m (.read h len : PseudoAct cfg) = some (m', .bytes data.length data) ∧
      m'.Reads t (pos + data.length) h ∧ Rest m m' h ∧ m'.proc.Separate := by
  obtain ⟨fs, f⟩ := h
  cases fs with
  | sys =>
    obtain ⟨file, hf, rfl, ht⟩ := hr
    obtain ⟨file', hdata, hlen, hpos, he⟩ := sfRead_text hf ht len
    refine ⟨_, by rw [pseudoAct, he]; rfl, ⟨file', SysMem.setFile_self _ _ _, hpos, ?_⟩,
      rest_sysFile m f _, hs⟩
    rw [hdata, hlen, SysMem.setFile_bytes]
    exact ht
  | proc =>
    obtain ⟨file, hf, rfl, hlen, hbuf⟩ := hr
    obtain ⟨file', hsame, hlen', hpos, he⟩ := pfRead_text hf hlen hbuf len
    refine ⟨_, by rw [pseudoAct, he]; rfl, ⟨file', ProcMem.setFile_self _ _ _, hpos, ?_, ?_⟩,
      rest_procFile m f _, hs.setFile hf hsame⟩
    · rw [hlen', hlen]
    · rw [hsame]
      exact hbuf

/-- A seek that succeeds goes to the position it returns, within the text. -/
theorem reads_lseek {off whence n : Int} (hr : m.Reads t pos h) (hs : m.proc.Separate)
    (ha : pseudoAct W board m (.lseek h off whence : PseudoAct cfg) = some (m', .rc n)) :
    n < 0 ∧ m' = m ∨
      0 ≤ n ∧ n.toNat ≤ t.length ∧ m'.Reads t n.toNat h ∧ Rest m m' h ∧ m'.proc.Separate := by
  obtain ⟨fs, f⟩ := h
  cases fs with
  | sys =>
    obtain ⟨file, hf, -, ht⟩ := hr
    have hlen : t.length = file.len := by simpa using congrArg List.length ht
    obtain ⟨⟨n', m''⟩, hl, he⟩ := Option.map_eq_some_iff.mp ha
    cases he
    obtain ⟨file', hf', he⟩ := Option.map_eq_some_iff.mp hl
    cases hf.symm.trans hf'
    dsimp only at he
    split at he
    · cases he
      exact Or.inl ⟨Int.negSucc_lt_zero 0, rfl⟩
    · next np hnp =>
      split at he
      · cases he
        exact Or.inl ⟨Int.negSucc_lt_zero 0, rfl⟩
      · cases he
        have hpos := (Int.toNat_natCast (min np.toNat file.len)).symm
        refine Or.inr ⟨by omega, by omega, ⟨_, SysMem.setFile_self _ _ _, hpos, ?_⟩,
          rest_sysFile m f _, hs⟩
        rw [SysMem.setFile_bytes]
        exact ht
  -- `procfs` has no seek
  | proc =>
    cases ha
    exact Or.inl ⟨Int.negSucc_lt_zero 0, rfl⟩

/-- The handle that has been closed is gone. -/
theorem reads_close {r : PseudoRes} (hs : m.proc.Separate)
    (ha : pseudoAct W board m (.close h : PseudoAct cfg) = some (m', r)) :
    ¬ m'.Open h ∧ Rest m m' h ∧ m'.proc.Separate := by
  obtain ⟨fs, f⟩ := h
  cases fs with
  | sys =>
    obtain ⟨x, hx, he⟩ := Option.map_eq_some_iff.mp ha
    cases he
    obtain ⟨file, -, rfl⟩ := Option.map_eq_some_iff.mp hx
    exact ⟨by simp [Pseudo.Open], rest_sysFile m f none, hs⟩
  | proc =>
    obtain ⟨x, hx, he⟩ := Option.map_eq_some_iff.mp ha
    cases he
    obtain ⟨file, hf, rfl⟩ := Option.map_eq_some_iff.mp hx
    -- the buffer that is freed belongs to no other handle
    have hother : ∀ g file', g ≠ f → m.proc.files g = some file' → file'.buf ≠ file.buf :=
      fun g file' hg hf' heq => hg (hs.apart g f file' file hf' hf heq)
    refine ⟨by simp [Pseudo.Open], rest_procBuf none hother, ?_, ?_⟩
    all_goals dsimp only [ProcMem.setFile_bufs]
    · intro g file' hg
      have hne : g ≠ f := by
        rintro rfl
        rw [ProcMem.setFile_self] at hg
        cases hg
      rw [ProcMem.setFile_of_ne hne] at hg
      rw [ProcMem.setBuf_of_ne (hother g file' hne hg)]
      exact hs.live g file' hg
    · intro g g' x x' hg hg' heq
      have hold : ∀ {k : Addr} {y : ProcFile},
          ((m.proc.setBuf file.buf none).setFile f none).files k = some y →
            m.proc.files k = some y := by
        intro k y hk
        by_cases hkf : k = f
        · subst hkf
          rw [ProcMem.setFile_self] at hk
          cases hk
        · rwa [ProcMem.setFile_of_ne hkf] at hk
      exact hs.apart g g' x x' (hold hg) (hold hg') heq

/-! ## Opens -/

/-- All handles are as they were. -/
def Same (m m' : Pseudo) : Prop :=
  ∀ h, (m'.Open h → m.Open h) ∧ ∀ t pos, m.Reads t pos h → m'.Reads t pos h

theorem Same.rest {m₁ : Pseudo} (hsame : Same m m₁) (hrest : Rest m₁ m' h) : Rest m m' h := by
  intro h' hne
  obtain ⟨hopen, hreads⟩ := hrest h' hne
  obtain ⟨hopen₁, hreads₁⟩ := hsame h'
  exact ⟨fun ho => hopen₁ (hopen ho), fun t pos hr => hreads t pos (hreads₁ t pos hr)⟩

/-- A text that the handles in use have already is stored. -/
theorem same_fill {d : SysData}
    (hun : ∀ f file, m.sys.files f = some file → file.data = d →
      t = (List.range file.len).map (m.sys.bytes d)) :
    Same m { m with sys := m.sys.fill t d } := by
  rintro ⟨fs, f⟩
  cases fs with
  | proc => exact ⟨id, fun _ _ => id⟩
  | sys =>
    constructor
    · intro ho
      simpa [Pseudo.Open] using ho
    · rintro t' pos ⟨file, hf, hpos, ht'⟩
      refine ⟨file, by simpa using hf, hpos, ?_⟩
      rw [fill_same (hun f file hf)]
      exact ht'

/-- An open leaves the other handles as they are, and a new handle is where its text begins. -/
theorem reads_open {fs : PseudoFs} {rel : Str} {flags : Flags} {tel : Telemetry cfg}
    {file buf : Option Addr} {r : PseudoRes} (hs : m.proc.Separate)
    (hadm : m.Admits (.open_ fs rel flags tel file buf))
    (hun : Unshaken m (.open_ fs rel flags tel file buf))
    (ha : pseudoAct W board m (.open_ fs rel flags tel file buf) = some (m', r)) :
    m'.proc.Separate ∧ ((∃ rc, r = .opened (.error rc)) ∧ Same m m' ∨
      ∃ a t, r = .opened (.ok a) ∧ openText board fs rel tel = some t ∧ m'.Reads t 0 (fs, a) ∧
        Rest m m' (fs, a)) := by
  cases fs with
  | sys =>
    obtain ⟨hm, hres⟩ := Prod.mk.inj (Option.some.inj ha)
    subst hm hres
    refine ⟨hs, ?_⟩
    rcases sfOpen_cases rel flags ⟨tel, file⟩ m.sys with
      ⟨-, he⟩ | ⟨d, t, -, htext, ⟨-, he⟩ | ⟨a, hfile, he⟩⟩
    · rw [he]
      exact Or.inl ⟨⟨-1, rfl⟩, fun _ => ⟨id, fun _ _ => id⟩⟩
    · rw [he]
      exact Or.inl ⟨⟨-1, rfl⟩, same_fill (hun d t htext)⟩
    · rw [he]
      refine Or.inr ⟨a, t, rfl, ?_, ⟨_, SysMem.setFile_self _ _ _, rfl, ?_⟩, ?_⟩
      · rw [openText, htext]
        rfl
      · rw [SysMem.setFile_bytes]
        exact fill_text m.sys htext
      · exact (same_fill (hun d t htext)).rest (rest_sysFile _ a _)
  | proc =>
    obtain ⟨hm, hres⟩ := Prod.mk.inj (Option.some.inj ha)
    subst hm hres
    rcases pfOpen_cases board rel flags ⟨tel, file, buf⟩ m.proc with
      ⟨-, he⟩ | ⟨t, f, b, -, htext, hfile, hbuf, he⟩
    · rw [he]
      exact ⟨hs, Or.inl ⟨⟨-1, rfl⟩, fun _ => ⟨id, fun _ _ => id⟩⟩⟩
    · dsimp only at hfile hbuf
      subst hfile hbuf
      obtain ⟨hf, hb, -⟩ := hadm
      -- the new buffer was free, so no handle in use refers to it
      have hfree : m.proc.bufs b = none := (hb b rfl).2.2
      have hother : ∀ g x, m.proc.files g = some x → x.buf ≠ b := by
        rintro g x hg rfl
        exact hs.live g x hg hfree
      have hold : ∀ g x, g ≠ f → ((m.proc.setBuf b (some (t ++ [0]))).setFile f
          (some ⟨b, t.length, 0, Nat.zero_le t.length⟩)).files g = some x →
            m.proc.files g = some x := by
        intro g x hg hx
        rwa [ProcMem.setFile_of_ne hg] at hx
      rw [he]
      refine ⟨?_, Or.inr ⟨f, t, rfl, htext, ⟨_, ProcMem.setFile_self _ _ _, rfl, rfl, ?_⟩, ?_⟩⟩
      · constructor
        · intro g x hx
          rw [ProcMem.setFile_bufs]
          by_cases hg : g = f
          · subst hg
            rw [ProcMem.setFile_self] at hx
            cases hx
            simp
          · rw [ProcMem.setBuf_of_ne (hother g x (hold g x hg hx))]
            exact hs.live g x (hold g x hg hx)
        · intro g g' x x' hx hx' heq
          by_cases hg : g = f
          · subst hg
            rw [ProcMem.setFile_self] at hx
            cases hx
            by_contra hne
            exact hother g' x' (hold g' x' (Ne.symm hne) hx') heq.symm
          · by_cases hg' : g' = f
            · subst hg'
              rw [ProcMem.setFile_self] at hx'
              cases hx'
              exact absurd heq (hother g x (hold g x hg hx))
            · exact hs.apart g g' x x' (hold g x hg hx) (hold g' x' hg' hx') heq
      · rw [ProcMem.setFile_bufs, ProcMem.setBuf_self]
      · exact rest_procBuf _ fun g x _ hg => hother g x hg

/-! ## Runs -/

variable {tr : List (PseudoEvent cfg)}

/-- Each handle is where its past says. -/
structure Pseudo.Follows (board : Board) (m : Pseudo) (tr : List (PseudoEvent cfg)) : Prop where
  separate : m.proc.Separate
  reads : ∀ h, m.Open h → ∃ t start got, snapshot board h tr = some t ∧
    streamed h tr = some (start, got) ∧ got <+: t.drop start ∧ start ≤ t.length ∧
      m.Reads t (start + got.length) h

/-- The handle stays where it is. -/
theorem Pseudo.Follows.keep {ev : PseudoEvent cfg} {h' : PseudoHandle} (hm : m.Follows board tr)
    (ho : m'.Open h')
    (hkeep : (m'.Open h' → m.Open h') ∧ ∀ t pos, m.Reads t pos h' → m'.Reads t pos h')
    (hsnap : snapshot board h' (ev :: tr) = snapshot board h' tr)
    (hstream : streamed h' (ev :: tr) = streamed h' tr) :
    ∃ t start got, snapshot board h' (ev :: tr) = some t ∧
      streamed h' (ev :: tr) = some (start, got) ∧ got <+: t.drop start ∧ start ≤ t.length ∧
        m'.Reads t (start + got.length) h' := by
  obtain ⟨t, start, got, hs, hg, hpre, hle, hr⟩ := hm.reads h' (hkeep.1 ho)
  exact ⟨t, start, got, hsnap.trans hs, hstream.trans hg, hpre, hle, hkeep.2 _ _ hr⟩

theorem follows_open {fs : PseudoFs} {rel : Str} {flags : Flags} {tel : Telemetry cfg}
    {file buf : Option Addr} {r : PseudoRes} (hm : m.Follows board tr)
    (hadm : m.Admits (.open_ fs rel flags tel file buf))
    (hun : Unshaken m (.open_ fs rel flags tel file buf))
    (ha : pseudoAct W board m (.open_ fs rel flags tel file buf) = some (m', r)) :
    m'.Follows board (⟨m, (.open_ fs rel flags tel file buf, r), m'⟩ :: tr) := by
  obtain ⟨hsep, ⟨⟨rc, rfl⟩, hsame⟩ | ⟨a, t, rfl, htext, hreads, hrest⟩⟩ :=
    reads_open hm.separate hadm hun ha
  · exact ⟨hsep, fun h ho => hm.keep ho (hsame h) rfl rfl⟩
  · refine ⟨hsep, fun h ho => ?_⟩
    by_cases hh : (fs, a) = h
    · subst hh
      refine ⟨t, 0, [], ?_, ?_, List.nil_prefix, Nat.zero_le _, hreads⟩
      · simp [snapshot, htext]
      · simp [streamed]
    · exact hm.keep ho (hrest h (Ne.symm hh)) (by simp [snapshot, hh]) (by simp [streamed, hh])

theorem follows_read {len : Nat} {r : PseudoRes} (hm : m.Follows board tr)
    (ha : pseudoAct W board m (.read h len : PseudoAct cfg) = some (m', r)) :
    m'.Follows board (⟨m, (.read h len, r), m'⟩ :: tr) := by
  have ho : m.Open h := by
    obtain ⟨fs, f⟩ := h
    cases fs with
    | sys =>
      obtain ⟨x, hx, -⟩ := Option.map_eq_some_iff.mp ha
      obtain ⟨file, hf, -⟩ := Option.map_eq_some_iff.mp hx
      simp [Pseudo.Open, hf]
    | proc =>
      obtain ⟨x, hx, -⟩ := Option.map_eq_some_iff.mp ha
      obtain ⟨file, hf, -⟩ := Option.bind_eq_some_iff.mp hx
      simp [Pseudo.Open, hf]
  obtain ⟨t, start, got, hs, hg, ⟨rest, hpre⟩, hle, hr⟩ := hm.reads h ho
  obtain ⟨m₁, he, hr', hrest, hsep⟩ := reads_read cfg W board hr hm.separate len
  cases he.symm.trans ha
  refine ⟨hsep, fun h' ho' => ?_⟩
  by_cases hh : h = h'
  · subst hh
    have hdrop : t.drop (start + got.length) = rest := by
      rw [← List.drop_drop, ← hpre, List.drop_left]
    refine ⟨t, start, got ++ (t.drop (start + got.length)).take len, hs, ?_, ?_, hle, ?_⟩
    · simp [streamed, hg]
    · rw [hdrop, ← hpre]
      exact (List.prefix_append_right_inj got).mpr (List.take_prefix len rest)
    · rw [List.length_append, ← Nat.add_assoc]
      exact hr'
  · exact hm.keep ho' (hrest h' (Ne.symm hh)) rfl (by simp [streamed, hh])

theorem follows_lseek {off whence : Int} {r : PseudoRes} (hm : m.Follows board tr)
    (ha : pseudoAct W board m (.lseek h off whence : PseudoAct cfg) = some (m', r)) :
    m'.Follows board (⟨m, (.lseek h off whence, r), m'⟩ :: tr) := by
  obtain ⟨n, rfl⟩ : ∃ n, r = .rc n := by
    obtain ⟨fs, f⟩ := h
    cases fs with
    | sys =>
      obtain ⟨x, -, he⟩ := Option.map_eq_some_iff.mp ha
      cases he
      exact ⟨_, rfl⟩
    | proc =>
      cases ha
      exact ⟨_, rfl⟩
  by_cases ho : m.Open h
  · obtain ⟨t, start, got, hs, hg, hpre, hle, hr⟩ := hm.reads h ho
    rcases reads_lseek hr hm.separate ha with ⟨hneg, rfl⟩ | ⟨hpos, hlen, hr', hrest, hsep⟩
    · exact ⟨hm.separate, fun h' ho' => hm.keep ho' ⟨id, fun _ _ => id⟩ rfl
        (by simp [streamed, Int.not_le.mpr hneg])⟩
    · refine ⟨hsep, fun h' ho' => ?_⟩
      by_cases hh : h = h'
      · subst hh
        exact ⟨t, n.toNat, [], hs, by simp [streamed, hpos], List.nil_prefix, hlen, hr'⟩
      · exact hm.keep ho' (hrest h' (Ne.symm hh)) rfl (by simp [streamed, hh])
  · -- only `procfs` answers a seek of a handle that is not open
    obtain ⟨fs, f⟩ := h
    cases fs with
    | sys =>
      obtain ⟨x, hx, -⟩ := Option.map_eq_some_iff.mp ha
      obtain ⟨file, hf, -⟩ := Option.map_eq_some_iff.mp hx
      exact absurd (by simp [Pseudo.Open, hf]) ho
    | proc =>
      cases ha
      exact ⟨hm.separate, fun h' ho' => hm.keep ho' ⟨id, fun _ _ => id⟩ rfl (by simp [streamed])⟩

theorem follows_step {a : PseudoAct cfg} {r : PseudoRes} (hm : m.Follows board tr)
    (hadm : m.Admits a) (hun : Unshaken m a) (ha : pseudoAct W board m a = some (m', r)) :
    m'.Follows board (⟨m, (a, r), m'⟩ :: tr) := by
  cases a with
  | open_ fs rel flags tel file buf => exact follows_open hm hadm hun ha
  | read h len => exact follows_read hm ha
  | lseek h off whence => exact follows_lseek hm ha
  | close h =>
    obtain ⟨hclosed, hrest, hsep⟩ := reads_close hm.separate ha
    refine ⟨hsep, fun h' ho => ?_⟩
    have hne : h' ≠ h := by
      rintro rfl
      exact hclosed ho
    exact hm.keep ho (hrest h' hne) rfl rfl

theorem Pseudo.Follows.isolated (hm : m.Follows board tr) : Isolated W board tr m := by
  intro h ho
  obtain ⟨t, start, got, hs, hg, hpre, -, hr⟩ := hm.reads h ho
  refine ⟨t, start, got, hs, hg, hpre, fun len => ?_⟩
  obtain ⟨m', he, -⟩ := reads_read cfg W board hr hm.separate len
  rw [he]
  rfl

/-- **If no open changes a text that somebody reads, each handle reads the text that its own open
has generated.** -/
theorem snapshots_isolated (h : PseudoRun W board Unshaken tr m) : Isolated W board tr m := by
  suffices hf : m.Follows board tr from hf.isolated
  induction h with
  | start hs =>
    subst hs
    refine ⟨⟨?_, ?_⟩, ?_⟩
    · intro f file hf
      cases hf
    · intro f g file file' hf
      cases hf
    · rintro ⟨fs, f⟩ ho
      cases fs <;> cases ho
  | step _ hs ih => exact follows_step ih hs.1.1 hs.1.2 hs.2

/-- A board without names, and counters that say nothing but the time. -/
def plainBoard : Board := ⟨true, fun _ => ascii "?"⟩

def telAt (wall : UW) : Telemetry smallConfig where
  core := { zeroed.core with telemetryWallTicks := wall }
  taskWall := fun _ => wall
  idleWall := wall
  runtsk := none
  schedtsk := none
  irqCount := fun _ => 0
  heap := 0
  currentEl := 0
  cntfrq := 0
  midr := 0
  sctlr := 0

/-- An open of `cpu/load`. -/
def opensLoad (wall : UW) (a : Addr) : PseudoAct smallConfig :=
  .open_ .sys (ascii "cpu/load") vfsORdonly (telAt wall) (some a) none

/-- `cpu/load` has been opened. -/
def afterLoad : Pseudo :=
  ⟨(sfOpen (ascii "cpu/load") vfsORdonly ⟨telAt 5, some 1⟩ .empty).2, .empty⟩

/-- Two handles of `cpu/load` whose texts agree. -/
theorem snapshots_isolated_twice : ∃ (tr : List (PseudoEvent smallConfig)) (m : Pseudo),
    PseudoRun 64 plainBoard Unshaken tr m ∧ Isolated 64 plainBoard tr m ∧ m.Open (.sys, 1) ∧
      m.Open (.sys, 2) := by
  have hfirst : PseudoRun 64 plainBoard Unshaken
      [⟨⟨.empty, .empty⟩, (opensLoad 5 1, .opened (.ok 1)), afterLoad⟩] afterLoad := by
    refine .step (.start rfl) ⟨⟨?_, ?_⟩, rfl⟩
    · exact ⟨fun a _ => ⟨rfl, rfl, rfl⟩, by simp, by simp⟩
    · intro d t _ f file hf
      cases hf
  have hun : Unshaken afterLoad (opensLoad 5 2) := by
    intro d t ht f file hf hd
    have hfiles : afterLoad.sys.files =
        Function.update (fun _ => none) 1 (some ⟨.buf .load, 15, 0, Nat.zero_le _⟩) := rfl
    by_cases hf1 : f = 1
    · subst hf1
      rw [hfiles, Function.update_self] at hf
      cases hf
      subst hd
      have htext : sysText (strip (ascii "cpu/load")) (telAt 5) =
          some (.buf .load, ascii "0% idle wall=5\n") := by decide +kernel
      cases ht.symm.trans htext
      decide +kernel
    · rw [hfiles, Function.update_of_ne hf1] at hf
      cases hf
  have hadm : afterLoad.Admits (opensLoad 5 2) := by
    refine ⟨fun a ha => ?_, by simp, by simp⟩
    cases ha
    exact ⟨rfl, rfl, rfl⟩
  have hrun := hfirst.step (l := (opensLoad 5 2, .opened (.ok 2))) ⟨⟨hadm, hun⟩, rfl⟩
  exact ⟨_, _, hrun, snapshots_isolated hrun, rfl, rfl⟩

/-- The second text is a byte longer, and the first handle does not get its last byte. -/
theorem snapshots_shaken : ∃ (tr : List (PseudoEvent smallConfig)) (m : Pseudo),
    PseudoRun 64 plainBoard (fun _ _ => True) tr m ∧ ¬ Isolated 64 plainBoard tr m := by
  have hstart : PseudoStart ⟨.empty, .empty⟩ := rfl
  obtain ⟨tr, m, hrun, hopen, hsnap, hread, hdata⟩ := exists_perform
    (f := pseudoAct 64 plainBoard) (C := fun m a => m.Admits a ∧ True) hstart
    [opensLoad 5 1, opensLoad 10 2]
    (fun tr m => (m.sys.files 1).isSome = true ∧
      snapshot plainBoard (.sys, 1) tr = some (ascii "0% idle wall=5\n") ∧
      streamed (.sys, 1) tr = some (0, []) ∧
      (sfRead 1 64 m.sys).map (·.1.2) = some (ascii "0% idle wall=10"))
    (by decide +kernel)
  refine ⟨tr, m, hrun, fun hiso => ?_⟩
  obtain ⟨t, start, got, hs, hg, -, hnext⟩ := hiso (.sys, 1) hopen
  cases hsnap.symm.trans hs
  cases hread.symm.trans hg
  obtain ⟨r, hr, hbytes⟩ := Option.map_eq_some_iff.mp hdata
  have hnext := hnext 64
  rw [pseudoAct, hr] at hnext
  have hsame := (PseudoRes.bytes.inj (Option.some.inj hnext)).2
  have habs := hbytes.symm.trans hsame
  revert habs
  decide +kernel

end Ittrium.Vfs
