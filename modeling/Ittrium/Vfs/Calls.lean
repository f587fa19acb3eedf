import Ittrium.Infra.Paths
import Mathlib.Data.List.FinRange
import Mathlib.Logic.Function.Basic

/-!
# `vfs.c`

The file systems are called through their operations. What a file system keeps, its own data and its
open files, is the memory `σ`; `Fs` and `File` are the pointers it is called with, and `ε` is what
it gets from outside (the answer of `malloc`). An operation whose result is `none` has touched
memory that is not its own, and nothing is said about what follows.

Paths and flags are not null pointers, and an `ops` that is mounted is not null either.

* `findMount` — with `vfsMount` and `vfsUmount` on the table it searches
* `vfsOpen` — in the three steps `pickFd`, `openAt` and `commitFd`
-/

namespace Ittrium.Vfs

open Infra

/-! ## Constants and flags -/

def vfsMaxMounts : Nat := 8
def vfsMaxFd : Nat := 16
def vfsPathMax : Nat := 128
def vfsNameMax : Nat := 64

abbrev Flags := UInt32

def vfsORdonly : Flags := 0x0001
def vfsOWronly : Flags := 0x0002
def vfsORdwr : Flags := 0x0003
def vfsOCreat : Flags := 0x0100
def vfsOTrunc : Flags := 0x0200
def vfsOAppend : Flags := 0x0400

/-- `flags & flag`. -/
def Flags.has (flags flag : Flags) : Bool := flags &&& flag ≠ 0

def vfsSeekSet : Int := 0
def vfsSeekCur : Int := 1
def vfsSeekEnd : Int := 2

/-- `VFS_TYPE_REG` and `VFS_TYPE_DIR`. -/
inductive FileType where
  | reg
  | dir
deriving DecidableEq

/-- `struct vfs_stat`. -/
structure Stat where
  type : FileType
  size : Nat
deriving DecidableEq

/-- What a `listdir` that finds a name stores: the name, and the index of the next one. -/
structure Listing where
  name : Str
  idx : Int
deriving DecidableEq

/-- What a `listdir` returns: `0` and a name, `1` at the end, or an error. -/
inductive ListResult where
  | name (entry : Listing)
  | done
  | error (rc : Int)
deriving DecidableEq

/-- `strncpy(name, s, nlen - 1); name[nlen - 1] = '\0'`. Without room for the zero it is stored
outside. -/
def storeName (s : Str) (nlen : Nat) : Option Str :=
  if nlen = 0 then none else some (s.take (nlen - 1))

/-! ## The operations of a file system -/

/-- `struct vfs_file_ops`. An error is a negative result. -/
structure FileOps (Fs File ε σ : Type) where
  «open» : Option (Fs → Str → Flags → ε → σ → Except Int File × σ)
  read : Option (File → Nat → σ → Option ((Int × List UInt8) × σ))
  write : Option (File → (Nat → UInt8) → Nat → ε → σ → Option (Int × σ))
  close : Option (File → σ → Option (Int × σ))
  stat : Option (Fs → Str → σ → Except Int Stat)
  lseek : Option (File → Int → Int → σ → Option (Int × σ))
  listdir : Option (Fs → Str → Nat → Int → σ → Option ListResult)

/-- An entry of `mounts` in use. -/
structure Mount (Fs File ε σ : Type) where
  path : Str
  ops : FileOps Fs File ε σ
  fs : Fs
  absolute : Absolute path
  short : path.length < vfsPathMax

/-- An entry of `fds` in use: `struct vfs_fd`. -/
structure Fd (Fs File ε σ : Type) where
  ops : FileOps Fs File ε σ
  file : File

abbrev MountIx := Fin vfsMaxMounts
abbrev FdIx := Fin vfsMaxFd

/-- `mounts`, `fds`, and the memory of the file systems. -/
structure VfsState (Fs File ε σ : Type) where
  mounts : MountIx → Option (Mount Fs File ε σ)
  fds : FdIx → Option (Fd Fs File ε σ)
  mem : σ

variable {Fs File ε σ : Type}

/-- `vfs_init`. -/
def vfsInit (mem : σ) : VfsState Fs File ε σ := ⟨fun _ => none, fun _ => none, mem⟩

/-! ## Mounts -/

def pathEqPrefix (path mnt : Str) : Bool :=
  mnt.length > 0 && mnt.isPrefixOf path &&
    (mnt = [slash] || path.length = mnt.length || path[mnt.length]? = some slash)

/-- The loop of `find_mount`: the mount `i` replaces the best one so far if it is longer. -/
def betterMount (path : Str) (mounts : MountIx → Option (Mount Fs File ε σ))
    (best : Option (MountIx × Mount Fs File ε σ)) (i : MountIx) :
    Option (MountIx × Mount Fs File ε σ) :=
  match mounts i with
  | none => best
  | some m =>
    if !pathEqPrefix path m.path then best
    else if best.all fun b => b.2.path.length < m.path.length then some (i, m)
    else best

/-- What `find_mount` leaves of a path behind the mount point. -/
def relPath (mnt path : Str) : Str :=
  if mnt = [slash] then path.drop 1
  else if path[mnt.length]? = some slash then path.drop (mnt.length + 1)
  else path.drop mnt.length

/-- The mount and the path in it. -/
def findMount (path : Str) (mounts : MountIx → Option (Mount Fs File ε σ)) :
    Option (Mount Fs File ε σ × Str) :=
  if ¬ Absolute path then none
  else
    ((List.finRange vfsMaxMounts).foldl (betterMount path mounts) none).map fun best =>
      (best.2, relPath best.2.path path)

def vfsMount (path : Str) (ops : FileOps Fs File ε σ) (fs : Fs) (v : VfsState Fs File ε σ) :
    Int × VfsState Fs File ε σ :=
  if h : Absolute path ∧ path.length < vfsPathMax then
    if (List.finRange vfsMaxMounts).any fun i => (v.mounts i).any fun m => m.path = path then
      (-1, v)
    else
      match (List.finRange vfsMaxMounts).find? fun i => (v.mounts i).isNone with
      | some i =>
        (0, { v with mounts := Function.update v.mounts i (some ⟨path, ops, fs, h.1, h.2⟩) })
      | none => (-1, v)
  else (-1, v)

def vfsUmount (path : Str) (v : VfsState Fs File ε σ) : Int × VfsState Fs File ε σ :=
  match (List.finRange vfsMaxMounts).find? fun i => (v.mounts i).any fun m => m.path = path with
  | some i => (0, { v with mounts := Function.update v.mounts i none })
  | none => (-1, v)

/-! ## Open files -/

def allocFd (fds : FdIx → Option (Fd Fs File ε σ)) : Option FdIx :=
  (List.finRange vfsMaxFd).find? fun i => (fds i).isNone

/-- What an open needs to go on: the mount, the path in it and a free descriptor. -/
structure Picked (Fs File ε σ : Type) where
  mount : Mount Fs File ε σ
  rel : Str
  fd : FdIx

/-- `vfs_open` up to the file system's own `open`. The mount stays as it is until the descriptor is
taken. -/
def pickFd (path : Str) (v : VfsState Fs File ε σ) : Option (Picked Fs File ε σ) :=
  (findMount path v.mounts).bind fun (m, rel) =>
    if m.ops.open.isNone then none else (allocFd v.fds).map fun fd => ⟨m, rel, fd⟩

/-- The file system's own `open`. -/
def openAt (p : Picked Fs File ε σ) (flags : Flags) (e : ε) (mem : σ) : Except Int File × σ :=
  match p.mount.ops.open with
  | some op => op p.mount.fs p.rel flags e mem
  | none => (.error (-1), mem)

/-- The descriptor is taken. -/
def commitFd (p : Picked Fs File ε σ) (f : File) (v : VfsState Fs File ε σ) :
    VfsState Fs File ε σ :=
  { v with fds := Function.update v.fds p.fd (some ⟨p.mount.ops, f⟩) }

def vfsOpen (path : Str) (flags : Flags) (e : ε) (v : VfsState Fs File ε σ) :
    Int × VfsState Fs File ε σ :=
  match pickFd path v with
  | none => (-1, v)
  | some p =>
    match openAt p flags e v.mem with
    | (.error rc, mem) => (rc, { v with mem })
    | (.ok f, mem) => (p.fd.val, commitFd p f { v with mem })

/-- The descriptor `fd`, if it is in use. -/
def usedFd (fd : Int) (v : VfsState Fs File ε σ) : Option (FdIx × Fd Fs File ε σ) :=
  if h : 0 ≤ fd ∧ fd < vfsMaxFd then
    (v.fds ⟨fd.toNat, by omega⟩).map fun d => (⟨fd.toNat, by omega⟩, d)
  else none

def vfsRead (fd : Int) (len : Nat) (v : VfsState Fs File ε σ) :
    Option ((Int × List UInt8) × VfsState Fs File ε σ) :=
  match (usedFd fd v).bind fun d => d.2.ops.read.map fun op => (op, d.2.file) with
  | none => some ((-1, []), v)
  | some (op, f) => (op f len v.mem).map fun r => (r.1, { v with mem := r.2 })

def vfsWrite (fd : Int) (buf : Nat → UInt8) (len : Nat) (e : ε) (v : VfsState Fs File ε σ) :
    Option (Int × VfsState Fs File ε σ) :=
  match (usedFd fd v).bind fun d => d.2.ops.write.map fun op => (op, d.2.file) with
  | none => some (-1, v)
  | some (op, f) => (op f buf len e v.mem).map fun r => (r.1, { v with mem := r.2 })

/-- The file system's own `close`. -/
def closeAt (d : Fd Fs File ε σ) (mem : σ) : Option (Int × σ) :=
  match d.ops.close with
  | some op => op d.file mem
  | none => some (0, mem)

def vfsClose (fd : Int) (v : VfsState Fs File ε σ) : Option (Int × VfsState Fs File ε σ) :=
  match usedFd fd v with
  | none => some (-1, v)
  | some (i, d) =>
    (closeAt d v.mem).map fun r =>
      (r.1, { v with fds := Function.update v.fds i none, mem := r.2 })

def vfsLseek (fd : Int) (off whence : Int) (v : VfsState Fs File ε σ) :
    Option (Int × VfsState Fs File ε σ) :=
  match (usedFd fd v).bind fun d => d.2.ops.lseek.map fun op => (op, d.2.file) with
  | none => some (-1, v)
  | some (op, f) => (op f off whence v.mem).map fun r => (r.1, { v with mem := r.2 })

/-! ## Paths without an open file -/

/-- `stat` of the mount and the path in it. -/
def statAt (m : Mount Fs File ε σ) (rel : Str) (mem : σ) : Except Int Stat :=
  match m.ops.stat with
  | some op => op m.fs rel mem
  | none => .error (-1)

def vfsStat (path : Str) (v : VfsState Fs File ε σ) : Except Int Stat :=
  match findMount path v.mounts with
  | none => .error (-1)
  | some (m, rel) => statAt m rel v.mem

/-- `listdir` of the mount and the path in it. -/
def listAt (m : Mount Fs File ε σ) (rel : Str) (nlen : Nat) (idx : Int) (mem : σ) :
    Option ListResult :=
  match m.ops.listdir with
  | some op => op m.fs rel nlen idx mem
  | none => some (.error (-1))

def vfsListdir (path : Str) (nlen : Nat) (idx : Int) (v : VfsState Fs File ε σ) :
    Option ListResult :=
  match findMount path v.mounts with
  | none => some (.error (-1))
  | some (m, rel) => listAt m rel nlen idx v.mem

end Ittrium.Vfs
