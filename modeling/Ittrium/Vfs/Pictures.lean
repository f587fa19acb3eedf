import Ittrium.Vfs.Descriptors
import Ittrium.Vfs.Readers

/-!
# The VFS as it is read

* `Picture` — the mounts, the descriptors, the files, and what is to come of those that are open
* `vfsOpen_shows`, `vfsRead_shows`, `vfsClose_shows` — what the calls do to it
* `vfsStat_shows`, `vfsListdir_shows` — what is said of a path
-/

namespace Ittrium.Vfs

open Infra

variable {Fs File ε σ ω ν : Type}

/-! ## Free descriptors -/

section

variable {fds : FdIx → Option (Fd Fs File ε σ)} {i : FdIx}

/-- The number of descriptors that are not in use. -/
def freeFds (fds : FdIx → Option (Fd Fs File ε σ)) : Nat :=
  (List.finRange vfsMaxFd).countP fun i => (fds i).isNone

theorem allocFd_none : allocFd fds = none ↔ freeFds fds = 0 := by
  unfold allocFd freeFds
  rw [List.find?_eq_none, List.countP_eq_zero]

theorem allocFd_some (h : allocFd fds = some i) : fds i = none := by
  simpa using List.find?_some h

theorem freeFds_le (fds : FdIx → Option (Fd Fs File ε σ)) : freeFds fds ≤ vfsMaxFd := by
  have hle : freeFds fds ≤ (List.finRange vfsMaxFd).length := List.countP_le_length
  rwa [List.length_finRange] at hle

/-- A descriptor that is taken is not free any more. -/
theorem freeFds_take (h : fds i = none) (d : Fd Fs File ε σ) :
    freeFds fds = freeFds (Function.update fds i (some d)) + 1 := by
  have hperm := List.perm_cons_erase (List.mem_finRange i)
  have hrest : ((List.finRange vfsMaxFd).erase i).countP (fun j => (fds j).isNone) =
      ((List.finRange vfsMaxFd).erase i).countP
        fun j => (Function.update fds i (some d) j).isNone := by
    refine List.countP_congr fun j hj => ?_
    have hne : j ≠ i := ((List.nodup_finRange _).mem_erase_iff.mp hj).1
    rw [Function.update_of_ne hne]
  unfold freeFds
  rw [hperm.countP_eq, hperm.countP_eq, List.countP_cons_of_pos (by simp [h]),
    List.countP_cons_of_neg (by simp), hrest]

end

/-! ## Pictures -/

/-- What can be seen of the VFS. -/
structure Picture (Fs File ε σ ν : Type) where
  mounts : MountIx → Option (Mount Fs File ε σ)
  fds : FdIx → Option (Fd Fs File ε σ)
  view : ν
  rest : File → Option Str

/-- The VFS looks like that. -/
structure Shows (r : Reader Fs File ε σ ω ν) (p : Picture Fs File ε σ ν) (v : VfsState Fs File ε σ) :
    Prop where
  ok : r.ok v.mem
  mounts : v.mounts = p.mounts
  fds : v.fds = p.fds
  view : r.view v.mem = p.view
  rest : r.rest v.mem = p.rest

/-- What the VFS looks like. -/
def pictureOf (r : Reader Fs File ε σ ω ν) (v : VfsState Fs File ε σ) : Picture Fs File ε σ ν :=
  ⟨v.mounts, v.fds, r.view v.mem, r.rest v.mem⟩

theorem pictureOf_shows {r : Reader Fs File ε σ ω ν} {v : VfsState Fs File ε σ} (h : r.ok v.mem) :
    Shows r (pictureOf r v) v := ⟨h, rfl, rfl, rfl, rfl⟩

namespace Picture

variable (r : Reader Fs File ε σ ω ν) (p : Picture Fs File ε σ ν) (path : Str)

/-- What an open of the path brings. -/
def text (o : ω) : Option Str :=
  (findMount path p.mounts).bind fun m => r.text p.view m.1.fs m.2 o

def stat : Option Stat := (findMount path p.mounts).bind fun m => r.stat p.view m.1.fs m.2

def names : Option (List Str) := (findMount path p.mounts).bind fun m => r.names p.view m.1.fs m.2

variable [DecidableEq File] (i : FdIx) (d : Fd Fs File ε σ) (t : Str)

/-- The file is open with the text to come. -/
def take : Picture Fs File ε σ ν :=
  { p with fds := Function.update p.fds i (some d), rest := Function.update p.rest d.file (some t) }

/-- The file is closed. -/
def release : Picture Fs File ε σ ν :=
  { p with fds := Function.update p.fds i none, rest := Function.update p.rest d.file none }

/-- What is to come is less. -/
def advance (f : File) : Picture Fs File ε σ ν :=
  { p with rest := Function.update p.rest f (some t) }

variable {p i d t}

theorem release_take (hi : p.fds i = none) (hf : p.rest d.file = none) :
    (p.take i d t).release i d = p := by
  unfold take release
  simp only [Function.update_idem]
  rw [← hi, ← hf, Function.update_eq_self, Function.update_eq_self]

theorem advance_take (u : Str) : (p.take i d t).advance u d.file = p.take i d u := by
  unfold take advance
  simp only [Function.update_idem]

end Picture

/-! ## The calls -/

variable [DecidableEq File] {r : Reader Fs File ε σ ω ν} {bound : Nat}
  {p : Picture Fs File ε σ ν} {v : VfsState Fs File ε σ}

/-- Every file system that is mounted is readable. -/
def AllReadable (r : Reader Fs File ε σ ω ν) (bound : Nat)
    (mounts : MountIx → Option (Mount Fs File ε σ)) : Prop :=
  ∀ i m, mounts i = some m → Readable r bound m.ops m.fs

theorem AllReadable.found {mounts : MountIx → Option (Mount Fs File ε σ)}
    (h : AllReadable r bound mounts) {path rel : Str} {m : Mount Fs File ε σ}
    (hm : findMount path mounts = some (m, rel)) : Readable r bound m.ops m.fs := by
  obtain ⟨i, hi⟩ := (findMount_some hm).mounted
  exact h i m hi

omit [DecidableEq File] in
theorem Shows.becomes (h : Shows r p v) {mem : σ} {rest : File → Option Str}
    (hb : r.Becomes v.mem mem rest) : Shows r { p with rest := rest } { v with mem := mem } :=
  ⟨hb.ok, h.mounts, h.fds, hb.view.trans h.view, hb.rest⟩

omit [DecidableEq File] in
/-- A descriptor is given out, or comes back. -/
theorem Shows.becomes_at (h : Shows r p v) {mem : σ} {rest : File → Option Str}
    (hb : r.Becomes v.mem mem rest) (i : FdIx) (d : Option (Fd Fs File ε σ)) :
    Shows r { p with fds := Function.update p.fds i d, rest := rest }
      { v with fds := Function.update v.fds i d, mem := mem } :=
  ⟨hb.ok, h.mounts, congrArg (fun fds => Function.update fds i d) h.fds, hb.view.trans h.view,
    hb.rest⟩

omit [DecidableEq File] in
theorem pickFd_none {path : Str} (h : findMount path v.mounts = none) : pickFd path v = none := by
  unfold pickFd
  rw [h, Option.bind_none]

omit [DecidableEq File] in
/-- A file system that opens files needs a descriptor. -/
theorem pickFd_some {path rel : Str} {m : Mount Fs File ε σ}
    (h : findMount path v.mounts = some (m, rel)) (hop : m.ops.open.isSome = true) :
    pickFd path v = (allocFd v.fds).map fun fd => ⟨m, rel, fd⟩ := by
  unfold pickFd
  rw [h, Option.bind_some]
  dsimp only
  rw [if_neg (by simpa using Option.isSome_iff_ne_none.mp hop)]

omit [DecidableEq File] in
theorem openAt_eq {m : Mount Fs File ε σ} {op : Fs → Str → Flags → ε → σ → Except Int File × σ}
    (hop : m.ops.open = some op) (rel : Str) (i : FdIx) (flags : Flags) (e : ε) (mem : σ) :
    openAt ⟨m, rel, i⟩ flags e mem = op m.fs rel flags e mem := by
  unfold openAt
  dsimp only
  rw [hop]

/-- An open fails, or takes a free descriptor for a file that was not open. -/
theorem vfsOpen_shows (hall : AllReadable r bound p.mounts) (h : Shows r p v) {e : ε}
    (he : r.fresh e v.mem) (path : Str) :
    ((freeFds p.fds = 0 ∨ p.text r path (r.see e) = none) ∧
      ∃ rc v', vfsOpen path vfsORdonly e v = (rc, v') ∧ rc < 0 ∧ Shows r p v') ∨
    freeFds p.fds ≠ 0 ∧ ∃ t, p.text r path (r.see e) = some t ∧ t.length ≤ bound ∧
      ∃ (i : FdIx) (d : Fd Fs File ε σ) (v' : VfsState Fs File ε σ),
        vfsOpen path vfsORdonly e v = ((i.val : Int), v') ∧ p.fds i = none ∧
          p.rest d.file = none ∧ Served r d.ops d.file ∧ Shows r (p.take i d t) v' := by
  unfold Picture.text
  rw [← h.mounts]
  cases hm : findMount path v.mounts with
  | none =>
    refine Or.inl ⟨Or.inr rfl, -1, v, ?_, by decide, h⟩
    unfold vfsOpen
    rw [pickFd_none hm]
  | some x =>
    obtain ⟨m, rel⟩ := x
    have hread : Readable r bound m.ops m.fs := hall.found (by rw [← h.mounts, hm])
    obtain ⟨op, hop, hlaw⟩ := hread.opens
    obtain ⟨hfail, hopen⟩ := hlaw rel e v.mem h.ok he
    rw [h.view] at hfail hopen
    have hpick := pickFd_some hm (by rw [hop, Option.isSome_some])
    rw [h.fds] at hpick
    rw [Option.bind_some]
    unfold vfsOpen
    rw [hpick]
    cases hfd : allocFd p.fds with
    | none => exact Or.inl ⟨Or.inl (allocFd_none.mp hfd), -1, v, rfl, by decide, h⟩
    | some i =>
      have hfree : freeFds p.fds ≠ 0 := by
        intro hzero
        rw [allocFd_none.mpr hzero] at hfd
        cases hfd
      rw [Option.map_some]
      dsimp only
      rw [openAt_eq hop]
      cases htext : r.text p.view m.fs rel (r.see e) with
      | none =>
        obtain ⟨rc, mem, hres, hneg, hb⟩ := hfail htext
        rw [h.rest] at hb
        rw [hres]
        exact Or.inl ⟨Or.inr rfl, rc, _, rfl, hneg, h.becomes hb⟩
      | some t =>
        obtain ⟨hlen, f, mem, hres, hnew, hserved, hb⟩ := hopen t htext
        rw [h.rest] at hnew hb
        rw [hres]
        exact Or.inr ⟨hfree, t, rfl, hlen, i, ⟨m.ops, f⟩, _, rfl, allocFd_some hfd, hnew, hserved,
          h.becomes_at hb i _⟩

variable {i : FdIx} {d : Fd Fs File ε σ} {t : Str}

/-- A read takes the next bytes. -/
theorem vfsRead_shows (h : Shows r p v) (hi : p.fds i = some d) (ht : p.rest d.file = some t)
    (hd : Served r d.ops d.file) (size : Nat) :
    ∃ v', vfsRead i.val size v = some ((((t.take size).length : Int), t.take size), v') ∧
      Shows r (p.advance (t.drop size) d.file) v' := by
  obtain ⟨op, hop, hread⟩ := hd.reads
  obtain ⟨mem, hres, hb⟩ := hread v.mem t size h.ok (by rw [h.rest, ht])
  unfold vfsRead
  rw [usedFd_of_fds (by rw [h.fds, hi]), Option.bind_some]
  dsimp only
  rw [hop, Option.map_some]
  dsimp only
  rw [hres, Option.map_some]
  rw [h.rest] at hb
  exact ⟨_, rfl, h.becomes hb⟩

/-- A close gives the descriptor back. -/
theorem vfsClose_shows (h : Shows r p v) (hi : p.fds i = some d) (ht : p.rest d.file = some t)
    (hd : Served r d.ops d.file) :
    ∃ rc v', vfsClose i.val v = some (rc, v') ∧ Shows r (p.release i d) v' := by
  obtain ⟨op, hop, hclose⟩ := hd.closes
  obtain ⟨rc, mem, hres, hb⟩ := hclose v.mem t h.ok (by rw [h.rest, ht])
  unfold vfsClose closeAt
  rw [usedFd_of_fds (by rw [h.fds, hi])]
  dsimp only
  rw [hop]
  dsimp only
  rw [hres, Option.map_some]
  rw [h.rest] at hb
  exact ⟨rc, _, rfl, h.becomes_at hb i none⟩

/-! ## Paths -/

theorem vfsStat_shows (hall : AllReadable r bound p.mounts) (h : Shows r p v) (path : Str) :
    (vfsStat path v).toOption = p.stat r path := by
  unfold vfsStat Picture.stat
  rw [h.mounts]
  cases hm : findMount path p.mounts with
  | none => rfl
  | some x =>
    obtain ⟨m, rel⟩ := x
    obtain ⟨op, hop, hlaw⟩ := (hall.found hm).stats
    dsimp only [statAt, Option.bind_some]
    rw [hop]
    dsimp only
    rw [hlaw, h.view]

/-- A path is not listed, or its names are listed one after the other. -/
theorem vfsListdir_shows (hall : AllReadable r bound p.mounts) (h : Shows r p v) (path : Str) :
    (p.names r path = none → ∃ rc, vfsListdir path vfsNameMax 0 v = some (.error rc) ∧ rc < 0) ∧
      ∀ l, p.names r path = some l → l.length ≤ bound ∧
        Enumerates (fun idx => vfsListdir path vfsNameMax idx v) l := by
  unfold vfsListdir Picture.names
  rw [h.mounts]
  cases hm : findMount path p.mounts with
  | none => exact ⟨fun _ => ⟨-1, rfl, by decide⟩, by simp⟩
  | some x =>
    obtain ⟨m, rel⟩ := x
    obtain ⟨op, hop, hlaw⟩ := (hall.found hm).lists
    dsimp only [listAt, Option.bind_some]
    rw [hop]
    dsimp only
    rw [← h.view]
    exact hlaw rel v.mem

end Ittrium.Vfs
