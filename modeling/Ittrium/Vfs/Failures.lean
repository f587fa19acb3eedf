import Ittrium.Vfs.RamSteps
import Ittrium.Vfs.Routing

/-!
# Calls of the RAM file system that fail

`rf_open` makes and truncates the file before it asks for memory, and `ramfs_mount` clears the file
system before the mount is accepted.

* `SameView` — the same files, with what is in them, and the handles where they were
* `Harmless` — a call that would change something only if it succeeded
* `failing_calls` — **a call that fails changes nothing just if it is harmless**
-/

namespace Ittrium.Vfs

open Infra

variable {W : Nat} {m m' : RamMem} {rel name : Str} {flags : Flags} {e : Answer} {i j : EntIx}
  {v v' : VfsState Unit Addr Answer RamMem}

/-! ## Calls and what can be seen of them -/

/-- A call through the VFS. -/
inductive RamCall where
  | open_ (path : Str) (flags : Flags) (e : Answer)
  | write (fd : Int) (buf : Nat → UInt8) (len : Nat) (e : Answer)
  | lseek (fd off whence : Int)
  | mount (path : Str)

def RamCall.call (W : Nat) (v : VfsState Unit Addr Answer RamMem) :
    RamCall → Option (Int × VfsState Unit Addr Answer RamMem)
  | .open_ path flags e => some (vfsOpen path flags e v)
  | .write fd buf len e => vfsWrite fd buf len e v
  | .lseek fd off whence => vfsLseek fd off whence v
  | .mount path => some (ramfsMount W path v)

/-- The call is one of the RAM file system's. -/
def RamCall.OnRam (W : Nat) (v : VfsState Unit Addr Answer RamMem) : RamCall → Prop
  | .open_ path _ _ => ∀ p, pickFd path v = some p → p.mount.ops = ramfsOps W
  | .write fd _ _ _ => ∀ i d, usedFd fd v = some (i, d) → d.ops = ramfsOps W
  | .lseek fd _ _ => ∀ i d, usedFd fd v = some (i, d) → d.ops = ramfsOps W
  | .mount _ => True

/-- The same file, or no file. -/
structure SameFile (ent ent' : RamfsEntry) : Prop where
  used : ent'.used = ent.used
  name : ent.used = true → ent'.name = ent.name
  size : ent.used = true → ent'.size = ent.size
  data : ent.used = true → ∀ o < ent.size, ent'.data o = ent.data o

/-- The same files, and the same positions of the open handles. -/
structure SameView (m m' : RamMem) : Prop where
  ents : ∀ i, SameFile (m.ents i) (m'.ents i)
  files : m'.files = m.files

/-- An open changes nothing before it asks for memory: it has nothing to truncate and does not make
the file. -/
structure RamMem.Keeps (m : RamMem) (rel : Str) (flags : Flags) : Prop where
  found : ∀ i, findEnt m rel = some i → flags.has vfsOTrunc = true → (m.ents i).size = 0
  absent : findEnt m rel = none → strip rel ≠ [] → flags.has vfsOCreat = true → m.Full

/-- An open that gets no memory keeps the files, and a mount finds none. -/
def RamCall.Harmless (v : VfsState Unit Addr Answer RamMem) : RamCall → Prop
  | .open_ path flags e => ∀ p, pickFd path v = some p → e = none → v.mem.Keeps p.rel flags
  | .mount _ => ∀ i, (v.mem.ents i).used = false
  | _ => True

/-! ## Each call -/

theorem SameView.refl (m : RamMem) : SameView m m :=
  ⟨fun _ => ⟨rfl, fun _ => rfl, fun _ => rfl, fun _ _ _ => rfl⟩, rfl⟩

/-- A file in use is the same after `truncEnt` just if it was empty or need not be truncated. -/
theorem sameView_truncEnt (hused : (m.ents i).used = true) :
    SameView m (truncEnt i flags m) ↔ (flags.has vfsOTrunc = true → (m.ents i).size = 0) := by
  constructor
  · intro h ht
    have hsize := (h.ents i).size hused
    rw [truncEnt_size ht] at hsize
    exact hsize.symm
  · intro h
    refine ⟨fun j => ?_, truncEnt_files i flags m⟩
    by_cases hj : j = i
    · subst hj
      rw [truncEnt_ents_self]
      split
      · next ht =>
        have hsize := h (Bool.and_eq_true_iff.mp ht).1
        refine ⟨rfl, fun _ => rfl, fun _ => hsize.symm, fun _ o ho => ?_⟩
        rw [hsize] at ho
        exact absurd ho (Nat.not_lt_zero o)
      · exact (SameView.refl m).ents j
    · rw [truncEnt_of_ne hj]
      exact (SameView.refl m).ents j

/-- A file that is made before there is memory for the handle stays. -/
theorem not_sameView_new (hfree : (m.ents i).used = false)
    (hents : m'.ents i = (truncEnt i flags (m.setEnt i (.new name))).ents i) : ¬ SameView m m' := by
  intro h
  have hused := (h.ents i).used
  rw [hents, truncEnt_used, RamMem.setEnt_self, hfree] at hused
  cases hused

/-- An open that fails. -/
theorem rfOpen_failing {rc : Int} (h : rfOpen rel flags e m = (.error rc, m')) :
    rc = -1 ∧ (SameView m m' ↔ (e = none → m.Keeps rel flags)) := by
  rcases rfOpen_cases rel flags e m with ⟨hno, he⟩ | ⟨i, m₁, hne, hent, ⟨he, hres⟩ | ⟨b, -, he⟩⟩
  · cases he.symm.trans h
    refine ⟨rfl, fun _ _ => ⟨fun i hi => ?_, fun _ hne hc => ?_⟩, fun _ => .refl m⟩
    · have hstrip := (findEnt_some hi).1
      have hnone := (entFor_none.mp (hno.resolve_left hstrip)).1
      rw [findEnt_strip, hi] at hnone
      cases hnone
    · exact (entFor_none.mp (hno.resolve_left hne)).2 hc
  · cases hres.symm.trans h
    refine ⟨rfl, ?_⟩
    rcases entFor_cases hent with ⟨hfound, hm⟩ | ⟨hnone, hc, hfree, -, hm⟩ <;> subst hm
    · rw [findEnt_strip] at hfound
      rw [sameView_truncEnt (findEnt_some hfound).2.1]
      constructor
      · intro hsize _
        refine ⟨fun j hj ht => ?_, fun hnone => ?_⟩
        · rw [Option.some.inj (hj.symm.trans hfound)]
          exact hsize ht
        · rw [hnone] at hfound
          cases hfound
      · exact fun hkeep ht => (hkeep he).found i hfound ht
    · rw [findEnt_strip] at hnone
      refine ⟨fun hsame => absurd hsame (not_sameView_new hfree rfl), fun hkeep => ?_⟩
      have hfull := (hkeep he).absent hnone hne hc i
      rw [hfree] at hfull
      cases hfull
  · cases he.symm.trans h

theorem openAt_ram {p : Picked Unit Addr Answer RamMem} (h : p.mount.ops = ramfsOps W) :
    openAt p flags e m = rfOpen p.rel flags e m := by
  unfold openAt
  rw [h]
  rfl

/-- An open that fails, through the VFS. -/
theorem open_failing {path : Str} {rc : Int} (hon : (RamCall.open_ path flags e).OnRam W v)
    (h : vfsOpen path flags e v = (rc, v')) (hrc : rc < 0) :
    SameView v.mem v'.mem ↔ (RamCall.open_ path flags e).Harmless v := by
  unfold vfsOpen at h
  cases hp : pickFd path v with
  | none =>
    rw [hp] at h
    cases h
    refine ⟨fun _ p hp' => ?_, fun _ => .refl _⟩
    rw [hp] at hp'
    cases hp'
  | some p =>
    rw [hp] at h
    dsimp only at h
    rw [openAt_ram (hon p hp)] at h
    cases hres : rfOpen p.rel flags e v.mem with
    | mk res mem =>
      rw [hres] at h
      cases res with
      | error rc' =>
        cases h
        rw [(rfOpen_failing hres).2]
        refine ⟨fun hk p' hp' he => ?_, fun hk he => hk p hp he⟩
        obtain rfl := Option.some.inj (hp.symm.trans hp')
        exact hk he
      | ok f =>
        cases h
        omega

/-- A write that fails. -/
theorem write_failing {fd : Int} {buf : Nat → UInt8} {len : Nat} {rc : Int}
    (hon : (RamCall.write fd buf len e).OnRam W v)
    (h : vfsWrite fd buf len e v = some (rc, v')) (hrc : rc < 0) : v'.mem = v.mem := by
  unfold vfsWrite at h
  cases hd : usedFd fd v with
  | none =>
    rw [hd] at h
    cases h
    rfl
  | some x =>
    obtain ⟨i, d⟩ := x
    rw [hd, Option.bind_some, hon i d hd] at h
    obtain ⟨⟨n, mem⟩, hw, he⟩ := Option.map_eq_some_iff.mp h
    cases he
    obtain ⟨file, hf, -⟩ := Option.bind_eq_some_iff.mp hw
    rcases rfWrite_cases hf with ⟨-, he⟩ | ⟨-, hmax, ent', -, ⟨hcap, hpos, he⟩ | ⟨-, he⟩⟩
    · cases he.symm.trans hw
      rfl
    · cases he.symm.trans hw
      dsimp only at hrc
      omega
    · cases he.symm.trans hw

theorem lseek_failing {fd off whence : Int} {rc : Int} (hon : (RamCall.lseek fd off whence).OnRam W v)
    (h : vfsLseek fd off whence v = some (rc, v')) (hrc : rc < 0) : v'.mem = v.mem := by
  unfold vfsLseek at h
  cases hd : usedFd fd v with
  | none =>
    rw [hd] at h
    cases h
    rfl
  | some x =>
    obtain ⟨i, d⟩ := x
    rw [hd, Option.bind_some, hon i d hd] at h
    obtain ⟨r, hw, he⟩ := Option.map_eq_some_iff.mp h
    cases he
    obtain ⟨file, -, rfl | ⟨hpos, -⟩⟩ := rfLseek_cases hw
    · rfl
    · omega

/-- A mount that fails has cleared the file system. -/
theorem mount_failing {path : Str} {rc : Int} (h : ramfsMount W path v = (rc, v')) (hrc : rc < 0) :
    SameView v.mem v'.mem ↔ ∀ i, (v.mem.ents i).used = false := by
  have hmem : v'.mem = { v.mem with ents := fun _ => .zero } := by
    rcases (MountCall.mount path (ramfsOps W) ()).call_cases
      { v with mem := { v.mem with ents := fun _ => .zero } } with he | ⟨i, m, -, -, he⟩ | ⟨i, he⟩
    · cases he.symm.trans h
      rfl
    · cases he.symm.trans h
      rfl
    · cases he.symm.trans h
      rfl
  rw [hmem]
  refine ⟨fun hsame i => ((hsame.ents i).used).symm, fun hnone => ⟨fun i => ?_, rfl⟩⟩
  have hi := hnone i
  refine ⟨hi.symm, fun hu => ?_, fun hu => ?_, fun hu => ?_⟩
  all_goals
    rw [hi] at hu
    cases hu

/-! ## All calls -/

/-- **A call that fails leaves the files and the handles as they were just if it is harmless.** -/
theorem failing_calls {c : RamCall} {rc : Int} (hon : c.OnRam W v)
    (h : c.call W v = some (rc, v')) (hrc : rc < 0) :
    SameView v.mem v'.mem ↔ c.Harmless v := by
  cases c with
  | open_ path flags e => exact open_failing hon (Option.some.inj h) hrc
  | write fd buf len e =>
    rw [write_failing hon h hrc]
    exact ⟨fun _ => trivial, fun _ => .refl _⟩
  | lseek fd off whence =>
    rw [lseek_failing hon h hrc]
    exact ⟨fun _ => trivial, fun _ => .refl _⟩
  | mount path => exact mount_failing (Option.some.inj h) hrc

theorem onRam_root (path : Str) (flags : Flags) (e : Answer) :
    (RamCall.open_ path flags e).OnRam 64 ramRoot := fun _ hp =>
  let ⟨_, hk⟩ := pickFd_mounted hp
  ramRoot_ops hk

/-- There is no file `/a`. -/
theorem failing_calls_absent :
    ((RamCall.open_ pathA 0 none).call 64 ramRoot).map Prod.fst = some (-1) ∧
      (SameView ramRoot.mem (vfsOpen pathA 0 none ramRoot).2.mem ↔
        (RamCall.open_ pathA 0 none).Harmless ramRoot) := by
  have hcall : (RamCall.open_ pathA 0 none).call 64 ramRoot =
      some (-1, (vfsOpen pathA 0 none ramRoot).2) := rfl
  exact ⟨rfl, failing_calls (onRam_root _ _ _) hcall (by decide)⟩

/-- Without memory for the handle the file `/a` is made all the same. -/
theorem failing_open_makes : ∃ v', vfsOpen pathA vfsOCreat none ramRoot = (-1, v') ∧
    ¬ SameView ramRoot.mem v'.mem := by
  refine ⟨(vfsOpen pathA vfsOCreat none ramRoot).2, rfl, fun h => ?_⟩
  have hused := (h.ents ⟨0, by decide⟩).used
  cases hused

end Ittrium.Vfs
