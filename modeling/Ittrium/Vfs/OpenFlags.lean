import Ittrium.Vfs.RamSteps

/-!
# Flags of an open

`rf_open` looks at the flags and keeps none of them: `struct ramfs_file` is an entry and a position.

* `openedWith` — the flags a handle was opened with
* `movedTo` — where the calls through a handle have brought it
* `Honoured` — what the flags promise, for one call
* `open_flags_honoured` — **they are honoured when the callers respect them**
-/

namespace Ittrium.Vfs

open Infra

variable {W : Nat} {m m' : RamMem} {rel name : Str} {flags : Flags} {e : Answer} {i j : EntIx}
  {f : Addr} {buf : Nat → UInt8} {len : Nat} {tr past : List RamEvent} {ev : RamEvent}

/-! ## What the flags promise -/

/-- The flags of the open that has returned the handle `f`. -/
def openedWith (f : Addr) : List RamEvent → Option Flags
  | [] => none
  | ev :: tr =>
    match ev.label with
    | (.open_ _ flags _, .opened (.ok a)) => if a = f then some flags else openedWith f tr
    | _ => openedWith f tr

/-- The size of the file that is open as `f`. -/
def RamMem.fileSize (f : Addr) (m : RamMem) : Nat :=
  (m.files f).elim 0 fun file => (m.ents file.ent).size

/-- Where the calls through the handle `f` have brought it: to the size the file had when it was
opened for appending, or to the result of a seek, and from there by the bytes read and written. -/
def movedTo (f : Addr) : List RamEvent → Nat
  | [] => 0
  | ev :: tr =>
    match ev.label with
    | (.open_ _ flags _, .opened (.ok a)) =>
      if a = f then (if flags.has vfsOAppend then ev.post.fileSize f else 0) else movedTo f tr
    | (.read g _, .bytes n _) => if g = f then movedTo f tr + n.toNat else movedTo f tr
    | (.write g _ _ _, .rc n) => if g = f then movedTo f tr + n.toNat else movedTo f tr
    | (.lseek g _ _, .rc n) => if g = f ∧ 0 ≤ n then n.toNat else movedTo f tr
    | _ => movedTo f tr

/-- `flags & VFS_O_RDWR`. -/
def Flags.access (flags : Flags) : Flags := flags &&& vfsORdwr

/-- The handle a call is made through. -/
def RamAct.handle : RamAct → Option Addr
  | .read f _ => some f
  | .write f _ _ _ => some f
  | .lseek f _ _ => some f
  | .close f => some f
  | _ => none

/-- What was in the file `i` is still there. -/
structure Preserved (ent ent' : RamfsEntry) : Prop where
  used : ent'.used = ent.used
  name : ent'.name = ent.name
  size : ent.size ≤ ent'.size
  data : ∀ o < ent.size, ent'.data o = ent.data o

/-- The files of `m` are what they were. -/
def Unchanged (m m' : RamMem) : Prop :=
  ∀ i, (m.ents i).used = true → Preserved (m.ents i) (m'.ents i) ∧ (m'.ents i).size = (m.ents i).size

/-- `len` bytes of `buf` come behind what is in the file `i`, and that is all that happens to the
files. -/
structure Appended (i : EntIx) (buf : Nat → UInt8) (len : Nat) (m m' : RamMem) : Prop where
  size : (m'.ents i).size = (m.ents i).size + len
  bytes : ∀ k < len, (m'.ents i).data ((m.ents i).size + k) = buf k
  keeps : Preserved (m.ents i) (m'.ents i)
  others : ∀ j, j ≠ i → m'.ents j = m.ents j

/-- One call honours the flags. -/
structure Honoured (past : List RamEvent) (ev : RamEvent) : Prop where
  readOnly : ∀ f ∈ ev.label.1.handle, ∀ flags ∈ openedWith f past,
    flags.has vfsOWronly = false → Unchanged ev.pre ev.post
  opens : ∀ rel flags e, ev.label.1 = .open_ rel flags e → flags.has vfsOWronly = false →
    Unchanged ev.pre ev.post
  writeOnly : ∀ f len rc data, ev.label = (.read f len, .bytes rc data) →
    ∀ flags ∈ openedWith f past, flags.access = vfsOWronly → data = []
  appends : ∀ f buf len e n, ev.label = (.write f buf len e, .rc n) → 0 ≤ n → 0 < len →
    ∀ flags ∈ openedWith f past, flags.has vfsOAppend = true → ∀ file ∈ ev.pre.files f,
      n = len ∧ Appended file.ent buf len ev.pre ev.post

/-- The caller does what the flags allow. A file is truncated only for writing, a handle for writing
only is read at the end of the file, a handle that is not for writing writes nothing, and one for
appending writes while the file has the size to which its own calls have brought it. -/
def RespectsFlags (W : Nat) (past : List RamEvent) (m : RamMem) : RamAct → Prop
  | .open_ rel flags _ => flags.has vfsOTrunc = true → flags.has vfsOWronly = false →
      ∀ i ∈ findEnt m rel, (m.ents i).size = 0
  | .read f len => ∀ file ∈ m.files f, ∀ flags ∈ openedWith f past,
      flags.access = vfsOWronly → len = 0 ∨ (m.ents file.ent).size ≤ file.pos
  | .write f _ len e => ∀ file ∈ m.files f, ∀ flags ∈ openedWith f past,
      Stores W (m.ents file.ent) file.pos len e →
        (flags.has vfsOWronly = false → len = 0 ∧ file.pos ≤ (m.ents file.ent).size) ∧
          (flags.has vfsOAppend = true → len = 0 ∨ m.fileSize f = movedTo f past)
  | _ => True

/-- The call of one event of a run. -/
def Respects (W : Nat) (past : List RamEvent) (ev : RamEvent) : Prop :=
  RespectsFlags W past ev.pre ev.label.1

/-- Only the flags of the handle are looked at, not all that there are. -/
instance decidableFlags {P : Flags → Prop} [DecidablePred P] (f : Addr) (past : List RamEvent) :
    Decidable (∀ flags ∈ openedWith f past, P flags) :=
  Option.decidableForallMem _

instance (past : List RamEvent) (m : RamMem) (a : RamAct) : Decidable (RespectsFlags W past m a) :=
  RamAct.casesOn (motive := fun a => Decidable (RespectsFlags W past m a)) a
    (fun rel _ _ => inferInstanceAs (Decidable (_ → _ → ∀ i ∈ findEnt m rel, (m.ents i).size = 0)))
    (fun f _ => inferInstanceAs (Decidable (∀ file ∈ m.files f, ∀ flags ∈ openedWith f past, _ → _)))
    (fun f _ len e => inferInstanceAs (Decidable (∀ file ∈ m.files f, ∀ flags ∈ openedWith f past,
      Stores W (m.ents file.ent) file.pos len e → (_ → _ ∧ _) ∧ (_ → _ ∨ _))))
    (fun _ _ _ => inferInstanceAs (Decidable True))
    (fun _ => inferInstanceAs (Decidable True))
    (fun _ => inferInstanceAs (Decidable True))
    (fun _ _ _ => inferInstanceAs (Decidable True))

instance (past : List RamEvent) (ev : RamEvent) : Decidable (Respects W past ev) :=
  inferInstanceAs (Decidable (RespectsFlags W past ev.pre ev.label.1))

/-! ## One call -/

theorem Preserved.refl (ent : RamfsEntry) : Preserved ent ent := ⟨rfl, rfl, le_refl _, fun _ _ => rfl⟩

theorem Unchanged.of_ents (h : m'.ents = m.ents) : Unchanged m m' := fun i _ => by
  rw [h]
  exact ⟨.refl _, rfl⟩

/-- A write at the end of the file, or of no bytes, leaves what was there. -/
theorem Preserved.store {ent ent' : RamfsEntry} {need pos : Nat} {h : need ≤ ramfsMaxSize}
    (hr : ent.reserve need e h = some ent') (hcap : pos + len ≤ ent'.cap)
    (hpos : len = 0 ∨ ent.size ≤ pos) : Preserved ent (ent'.store pos len buf hcap) := by
  obtain ⟨hname, hused, hsize, -, hdata⟩ := reserve_some hr
  refine ⟨hused, hname, ?_, fun o ho => ?_⟩
  · show ent.size ≤ if pos + len > ent'.size then pos + len else ent'.size
    split <;> omega
  · show (if pos ≤ o ∧ o < pos + len then buf (o - pos) else ent'.data o) = ent.data o
    rw [if_neg (by omega)]
    exact hdata o ho

/-- A write of no bytes inside the file. -/
theorem store_size {ent ent' : RamfsEntry} {need pos : Nat} {h : need ≤ ramfsMaxSize}
    (hr : ent.reserve need e h = some ent') (hcap : pos + len ≤ ent'.cap) (hlen : len = 0)
    (hpos : pos ≤ ent.size) : (ent'.store pos len buf hcap).size = ent.size := by
  have hsize := (reserve_some hr).2.2.1
  show (if pos + len > ent'.size then pos + len else ent'.size) = ent.size
  rw [if_neg (by omega), hsize]

/-- An open that is not for writing leaves the files as they are. -/
theorem unchanged_open {r : RamRes} (hr : Respects W past ⟨m, (.open_ rel flags e, r), m'⟩)
    (ha : ramAct W m (.open_ rel flags e) = some (m', r)) (hw : flags.has vfsOWronly = false) :
    Unchanged m m' := by
  cases ha
  rcases rfOpen_cases rel flags e m with ⟨-, he⟩ | ⟨k, m₁, hne, hent, he⟩
  · exact .of_ents (by rw [he])
  · have hents : (rfOpen rel flags e m).2.ents = (truncEnt k flags m₁).ents := by
      rcases he with ⟨-, he⟩ | ⟨b, -, he⟩ <;> rw [he]
      rfl
    intro i hi
    rw [hents]
    rcases entFor_cases hent with ⟨hfound, hm⟩ | ⟨-, -, hfree, -, hm⟩ <;> subst hm
    · rw [findEnt_strip] at hfound
      by_cases hik : i = k
      · subst hik
        rw [truncEnt_ents_self]
        split
        · next ht =>
          have hsize := hr (Bool.and_eq_true_iff.mp ht).1 hw i hfound
          refine ⟨⟨rfl, rfl, hsize.le, fun o ho => ?_⟩, hsize.symm⟩
          rw [hsize] at ho
          exact absurd ho (Nat.not_lt_zero o)
        · exact ⟨.refl _, rfl⟩
      · rw [truncEnt_of_ne hik]
        exact ⟨.refl _, rfl⟩
    · -- the new file has another entry
      have hik : i ≠ k := by
        rintro rfl
        rw [hfree] at hi
        cases hi
      rw [truncEnt_of_ne hik, RamMem.setEnt_of_ne hik]
      exact ⟨.refl _, rfl⟩

/-- A write at the end of the file. -/
theorem Appended.store {ent' : RamfsEntry} {need : Nat} {h : need ≤ ramfsMaxSize}
    (hr : (m.ents i).reserve need e h = some ent') (hcap : (m.ents i).size + len ≤ ent'.cap)
    (hlen : 0 < len) (hi : m'.ents i = ent'.store (m.ents i).size len buf hcap)
    (ho : ∀ j, j ≠ i → m'.ents j = m.ents j) : Appended i buf len m m' where
  size := by
    have hsize := (reserve_some hr).2.2.1
    rw [hi]
    show (if (m.ents i).size + len > ent'.size then (m.ents i).size + len else ent'.size) = _
    rw [if_pos (by omega)]
  bytes := by
    intro k hk
    rw [hi]
    show (if (m.ents i).size ≤ (m.ents i).size + k ∧ (m.ents i).size + k < (m.ents i).size + len
      then buf ((m.ents i).size + k - (m.ents i).size) else _) = _
    rw [if_pos (by omega), Nat.add_sub_cancel_left]
  keeps := by
    rw [hi]
    exact .store hr hcap (Or.inr (le_refl _))
  others := ho

/-- What a write does to the files, if its result is not an error. -/
theorem rfWrite_files {n : Int} {file : RamfsFile} (hf : m.files f = some file)
    (ha : rfWrite W f buf len e m = some (n, m')) :
    n < 0 ∧ m' = m ∨ n = len ∧ Stores W (m.ents file.ent) file.pos len e ∧
      (len = 0 → file.pos ≤ (m.ents file.ent).size → Unchanged m m') ∧
        (0 < len → file.pos = (m.ents file.ent).size → Appended file.ent buf len m m') := by
  rcases rfWrite_cases hf with ⟨-, he⟩ | ⟨hst, hmax, ent', hr, ⟨hcap, hpos, he⟩ | ⟨-, he⟩⟩
  · cases he.symm.trans ha
    exact Or.inl ⟨by decide, rfl⟩
  · cases he.symm.trans ha
    refine Or.inr ⟨rfl, hst, fun hlen hle i _ => ?_, fun hlen hend => ?_⟩
    · rw [RamMem.setFile_ents]
      by_cases hi : i = file.ent
      · rw [hi, RamMem.setEnt_self]
        exact ⟨.store hr hcap (Or.inl hlen), store_size hr hcap hlen hle⟩
      · rw [RamMem.setEnt_of_ne hi]
        exact ⟨.refl _, rfl⟩
    · simp only [hend] at hr hcap
      refine .store hr hcap hlen ?_ fun j hj => RamMem.setEnt_of_ne hj _ _
      simp only [RamMem.setFile_ents, RamMem.setEnt_self, hend]
  · cases he.symm.trans ha

/-- A write through a handle that is not for writing leaves the files as they are. -/
theorem unchanged_write {r : RamRes} (hr : Respects W past ⟨m, (.write f buf len e, r), m'⟩)
    (ha : ramAct W m (.write f buf len e) = some (m', r)) (ho : flags ∈ openedWith f past)
    (hw : flags.has vfsOWronly = false) : Unchanged m m' := by
  obtain ⟨⟨n, m''⟩, hact, he⟩ := Option.map_eq_some_iff.mp ha
  cases he
  obtain ⟨file, hf, -⟩ := Option.bind_eq_some_iff.mp hact
  rcases rfWrite_files hf hact with ⟨-, rfl⟩ | ⟨-, hst, hnone, -⟩
  · exact .of_ents rfl
  · obtain ⟨hlen, hpos⟩ := (hr file hf flags ho hst).1 hw
    exact hnone hlen hpos

/-! ## Where the handles stand -/

/-- Every handle is where its calls have brought it. -/
def RamMem.Moved (m : RamMem) (tr : List RamEvent) : Prop :=
  ∀ f file, m.files f = some file → file.pos = movedTo f tr

theorem RamMem.fileSize_of {file : RamfsFile} (hf : m.files f = some file) :
    m.fileSize f = (m.ents file.ent).size := by
  unfold fileSize
  rw [hf]
  rfl

/-- The handle `f` is moved, the other ones stay. -/
theorem RamMem.Moved.setFile {file : RamfsFile} (h : m.Moved tr) (hfiles : m'.files = m.files)
    (hself : file.pos = movedTo f (ev :: tr))
    (hother : ∀ g, g ≠ f → movedTo g (ev :: tr) = movedTo g tr) :
    (m'.setFile f (some file)).Moved (ev :: tr) := by
  intro g file' hg
  by_cases hgf : g = f
  · subst hgf
    rw [RamMem.setFile_self] at hg
    cases hg
    exact hself
  · rw [RamMem.setFile_of_ne hgf, hfiles] at hg
    rw [hother g hgf]
    exact h g file' hg

theorem RamMem.Moved.stays (h : m.Moved tr) (hfiles : ∀ g file, m'.files g = some file →
    m.files g = some file ∧ movedTo g (ev :: tr) = movedTo g tr) : m'.Moved (ev :: tr) := by
  intro g file hg
  obtain ⟨hg, he⟩ := hfiles g file hg
  rw [he]
  exact h g file hg

theorem moved_open {r : RamRes} (h : m.Moved tr)
    (ha : ramAct W m (.open_ rel flags e) = some (m', r)) :
    m'.Moved (⟨m, (.open_ rel flags e, r), m'⟩ :: tr) := by
  cases ha
  rcases rfOpen_cases rel flags e m with ⟨-, he⟩ | ⟨k, m₁, -, hent, ⟨-, he⟩ | ⟨b, -, he⟩⟩
  · rw [he]
    exact h.stays fun g file hg => ⟨hg, rfl⟩
  · rw [he]
    refine h.stays fun g file hg => ⟨?_, rfl⟩
    rwa [truncEnt_files, entFor_files hent] at hg
  · rw [he]
    refine h.setFile ((truncEnt_files k flags m₁).trans (entFor_files hent)) ?_ fun g hg => ?_
    · -- an open for appending starts at the size of the file
      simp only [movedTo, if_true, openPos]
      rw [RamMem.fileSize_of (RamMem.setFile_self _ _ _)]
      rfl
    · exact if_neg (Ne.symm hg)

theorem movedTo_read (n : Nat) (data : List UInt8) :
    movedTo f (⟨m, (.read f len, .bytes n data), m'⟩ :: tr) = movedTo f tr + n := by
  show (if f = f then movedTo f tr + (n : Int).toNat else _) = _
  rw [if_pos rfl, Int.toNat_natCast]

theorem movedTo_write (n : Nat) :
    movedTo f (⟨m, (.write f buf len e, .rc n), m'⟩ :: tr) = movedTo f tr + n := by
  show (if f = f then movedTo f tr + (n : Int).toNat else _) = _
  rw [if_pos rfl, Int.toNat_natCast]

theorem movedTo_lseek (off whence : Int) (n : Nat) :
    movedTo f (⟨m, (.lseek f off whence, .rc n), m'⟩ :: tr) = n := by
  show (if f = f ∧ 0 ≤ (n : Int) then (n : Int).toNat else _) = _
  rw [if_pos ⟨rfl, Int.natCast_nonneg n⟩, Int.toNat_natCast]

theorem moved_step {a : RamAct} {r : RamRes} (h : m.Moved tr) (ha : ramAct W m a = some (m', r)) :
    m'.Moved (⟨m, (a, r), m'⟩ :: tr) := by
  cases a with
  | open_ rel flags e => exact moved_open h ha
  | read f len =>
    obtain ⟨x, hx, he⟩ := Option.map_eq_some_iff.mp ha
    cases he
    obtain ⟨file, hf, hread⟩ := Option.map_eq_some_iff.mp hx
    dsimp only at hread
    split at hread
    · subst hread
      refine h.stays fun g file' hg => ⟨hg, ?_⟩
      simp [movedTo]
    · subst hread
      refine h.setFile rfl ?_ fun g hg => if_neg (Ne.symm hg)
      rw [movedTo_read, ← h f file hf]
  | write f buf len e =>
    obtain ⟨⟨n, m''⟩, hact, he⟩ := Option.map_eq_some_iff.mp ha
    cases he
    obtain ⟨file, hf, -⟩ := Option.bind_eq_some_iff.mp hact
    rcases rfWrite_cases hf with ⟨-, he⟩ | ⟨-, -, ent', -, ⟨hcap, hpos, he⟩ | ⟨-, he⟩⟩
    · cases he.symm.trans hact
      refine h.stays fun g file' hg => ⟨hg, ?_⟩
      simp [movedTo]
    · cases he.symm.trans hact
      refine h.setFile rfl ?_ fun g hg => if_neg (Ne.symm hg)
      rw [movedTo_write, ← h f file hf]
    · cases he.symm.trans hact
  | lseek f off whence =>
    obtain ⟨x, hx, he⟩ := Option.map_eq_some_iff.mp ha
    cases he
    obtain ⟨file, hf, hseek⟩ := Option.map_eq_some_iff.mp hx
    dsimp only at hseek
    split at hseek
    · subst hseek
      refine h.stays fun g file' hg => ⟨hg, ?_⟩
      simp [movedTo]
    · split at hseek
      · subst hseek
        refine h.stays fun g file' hg => ⟨hg, ?_⟩
        simp [movedTo]
      · subst hseek
        refine h.setFile rfl ?_ fun g hg => if_neg fun hc => hg hc.1.symm
        rw [movedTo_lseek]
  | close f =>
    obtain ⟨x, hx, he⟩ := Option.map_eq_some_iff.mp ha
    cases he
    obtain ⟨file, -, rfl⟩ := Option.map_eq_some_iff.mp hx
    refine h.stays fun g file' hg => ⟨?_, rfl⟩
    by_cases hgf : g = f
    · subst hgf
      rw [RamMem.setFile_self] at hg
      cases hg
    · rwa [RamMem.setFile_of_ne hgf] at hg
  | stat rel =>
    cases ha
    exact h.stays fun g file hg => ⟨hg, rfl⟩
  | listdir rel nlen idx =>
    obtain ⟨x, -, he⟩ := Option.map_eq_some_iff.mp ha
    cases he
    exact h.stays fun g file hg => ⟨hg, rfl⟩

theorem moved_run (h : RamRun W (fun _ _ => True) tr m) : m.Moved tr := by
  induction h with
  | start hs =>
    subst hs
    rintro f file hf
    cases hf
  | step _ hs ih => exact moved_step ih hs.2

/-! ## One call honours the flags -/

theorem honoured_step {a : RamAct} {r : RamRes} (hm : m.Moved past) (ha : ramAct W m a = some (m', r))
    (hr : Respects W past ⟨m, (a, r), m'⟩) : Honoured past ⟨m, (a, r), m'⟩ where
  readOnly := by
    intro g hg flags ho hw
    cases a with
    | read f len =>
      obtain ⟨x, hx, he⟩ := Option.map_eq_some_iff.mp ha
      cases he
      obtain ⟨file, -, -, hm | ⟨file', -, hm⟩⟩ := rfRead_cases hx
      · exact .of_ents (by rw [hm])
      · exact .of_ents (by rw [hm, RamMem.setFile_ents])
    | write f buf len e =>
      cases hg
      exact unchanged_write hr ha ho hw
    | lseek f off whence =>
      obtain ⟨x, hx, he⟩ := Option.map_eq_some_iff.mp ha
      cases he
      obtain ⟨file, -, hm | ⟨-, file', -, hm⟩⟩ := rfLseek_cases hx
      · exact .of_ents (by rw [hm])
      · exact .of_ents (by rw [hm, RamMem.setFile_ents])
    | close f =>
      obtain ⟨x, hx, he⟩ := Option.map_eq_some_iff.mp ha
      cases he
      obtain ⟨file, -, rfl⟩ := Option.map_eq_some_iff.mp hx
      exact .of_ents rfl
    | open_ rel flags e => cases hg
    | stat rel => cases hg
    | listdir rel nlen idx => cases hg
  opens := by
    rintro rel flags e he hw
    cases he
    exact unchanged_open hr ha hw
  writeOnly := by
    intro f len rc data he flags ho hacc
    cases he
    obtain ⟨x, hx, he⟩ := Option.map_eq_some_iff.mp ha
    obtain ⟨file, hf, hres, -⟩ := rfRead_cases hx
    -- nothing is left to be read where the handle stands
    have hnone : min len ((m.ents file.ent).size - file.pos) = 0 := by
      rcases hr file hf flags ho hacc with h | h
      · omega
      · have hle : (m.ents file.ent).size ≤ file.pos := h
        omega
    rw [hnone] at hres
    cases he
    rw [hres]
    rfl
  appends := by
    intro f buf len e n he hn hlen flags ho happ file hf
    cases he
    obtain ⟨⟨n', m''⟩, hact, he⟩ := Option.map_eq_some_iff.mp ha
    cases he
    rcases rfWrite_files hf hact with ⟨hneg, -⟩ | ⟨hn', hst, -, happend⟩
    · omega
    · have hend : m.fileSize f = movedTo f past :=
        ((hr file hf flags ho hst).2 happ).resolve_left (by omega)
      rw [RamMem.fileSize_of hf, ← hm f file hf] at hend
      exact ⟨hn', happend hlen hend.symm⟩

/-! ## Runs -/

/-- **In a run in which every call respects the flags, every call honours them.** -/
theorem open_flags_honoured (h : RamRun W (fun _ _ => True) tr m)
    (hr : Run.Along (Respects W) tr) : Run.Along Honoured tr :=
  h.along (fun _ _ _ _ hrun hs hp => honoured_step (moved_run hrun) hs.2 hp) hr

/-- Two handles append in turn, the second one after it has gone to the end of the file. -/
theorem open_flags_honoured_two : ∃ tr m, RamRun 64 (fun _ _ => True) tr m ∧
    Run.Along Honoured tr ∧ (rfRead 3 9 m).map (·.1.2) = some [7, 8] := by
  have hstart : RamStart .empty := rfl
  obtain ⟨tr, m, hrun, hr, hread⟩ := exists_perform
    (f := ramAct 64) (C := fun m a => m.Admits 64 a ∧ True) hstart
    [.open_ fileA (vfsOWronly ||| vfsOAppend ||| vfsOCreat) (filledWith 1 0),
      .open_ fileA (vfsOWronly ||| vfsOAppend) (filledWith 2 0),
      .write 1 (fun _ => 7) 1 (filledWith 4 0), .lseek 2 0 vfsSeekEnd,
      .write 2 (fun _ => 8) 1 none, .open_ fileA vfsORdonly (filledWith 3 0)]
    (fun tr m => Run.Along (Respects 64) tr ∧ (rfRead 3 9 m).map (·.1.2) = some [7, 8])
    (by decide +kernel)
  exact ⟨tr, m, hrun, open_flags_honoured hrun hr, hread⟩

/-- A write of the handle `f` that has succeeded and has not made the file longer by its bytes. -/
def writesInside (f : Addr) (ev : RamEvent) : Bool :=
  match ev.label with
  | (.write g _ len _, .rc n) =>
    g = f && 0 < len && 0 ≤ n &&
      (ev.pre.files f).any fun file =>
        (ev.post.ents file.ent).size ≠ (ev.pre.ents file.ent).size + len
  | _ => false

/-- Two handles append, and the second one overwrites what the first one wrote. -/
theorem open_flags_overwrites : ∃ tr m, RamRun 64 (fun _ _ => True) tr m ∧
    ¬ Run.Along Honoured tr := by
  have hstart : RamStart .empty := rfl
  obtain ⟨tr, m, hrun, hbad, happ⟩ := exists_perform
    (f := ramAct 64) (C := fun m a => m.Admits 64 a ∧ True) hstart
    [.open_ fileA (vfsOWronly ||| vfsOAppend ||| vfsOCreat) (filledWith 1 0),
      .open_ fileA (vfsOWronly ||| vfsOAppend) (filledWith 2 0),
      .write 1 (fun _ => 7) 1 (filledWith 4 0), .write 2 (fun _ => 8) 1 none]
    (fun tr _ => tr.head?.any (writesInside 2) = true ∧
      (openedWith 2 tr.tail).any (·.has vfsOAppend) = true) (by decide +kernel)
  refine ⟨tr, m, hrun, fun hall => ?_⟩
  cases tr with
  | nil => cases hbad
  | cons ev past =>
    have hbad : writesInside 2 ev = true := hbad
    -- the last step is a write by the second handle, and the file is as long as before
    unfold writesInside at hbad
    split at hbad
    · next g buf len e n heq =>
      simp only [Bool.and_eq_true, decide_eq_true_eq] at hbad
      obtain ⟨⟨⟨rfl, hlen⟩, hn⟩, hfile⟩ := hbad
      cases ho : openedWith 2 past with
      | none =>
        rw [List.tail_cons, ho] at happ
        cases happ
      | some flags =>
        rw [List.tail_cons, ho] at happ
        cases hf : ev.pre.files 2 with
        | none =>
          rw [hf] at hfile
          cases hfile
        | some file =>
          rw [hf] at hfile
          obtain ⟨-, happended⟩ := hall.1.appends 2 buf len e n heq hn hlen flags ho happ file hf
          simp [happended.size] at hfile
    · cases hbad

end Ittrium.Vfs
