import Ittrium.Infra.Prefixes
import Ittrium.Infra.Splice
import Ittrium.Shell.Parse
import Ittrium.Vfs.Calls

/-!
# Completion with the tab key

The part of `shell.c` behind `shell_complete_cmds`. What it prints is left out, and with it the flag
that asks for a list of the matches.

* `Names` — the commands, the mounts and the directories
* `shellReplaceToken` — the one place where the line changes
* `shellCompleteCmds` — with the line it leaves and the number of matches
-/

namespace Ittrium.Shell

open Infra (slash Absolute agree memmove memcpy)

/-! ## Lines and names -/

/-- A line in its buffer: the length of the text, and the cursor. -/
structure Line where
  buf : Str
  len : Int
  pos : Int
deriving DecidableEq

/-- The commands in the order of `cmds`, the mounts in the order of `vfs_mount_path`, the names in a
directory in the order of `vfs_listdir`, and what `vfs_stat` says is a directory. -/
structure Names where
  cmds : List Str
  mounts : List Str
  entries : Str → List Str
  isDir : Str → Bool
  absolute : ∀ m ∈ mounts, Absolute m

theorem absolute_nil : ∀ m ∈ ([] : List Str), Absolute m := by
  intro m hm
  cases hm

/-- `strncmp(a, b, n) == 0`. -/
def sameFront (n : Nat) (a b : Str) : Bool := a.take n = b.take n

/-- What `memcpy` takes from a buffer, up to a zero. -/
def copied (buf : Str) (start n : Nat) : Str := ((buf.drop start).take n).takeWhile (· ≠ 0)

/-! ## The token at the cursor -/

/-- `shell_token_at`: where it starts and ends. -/
def shellTokenAt (buf : Str) (len pos : Int) : Nat × Nat :=
  let p := (min (max pos 0) len).toNat
  (p - ((buf.take p).reverse.takeWhile fun c => !isBlank c).length,
    p + (((buf.take len.toNat).drop p).takeWhile fun c => !isBlank c).length)

def shellTokenIsFirst (buf : Str) (start : Nat) : Bool := (buf.take start).all isBlank

def shellReplaceToken (l : Line) (start stop : Nat) (repl : Str) : Option Line :=
  let nlen := l.len - (stop - start) + repl.length
  if nlen < 0 ∨ nlen ≥ l.buf.length then some l
  else do
    let buf ← memmove (start + repl.length) stop (l.len - stop) l.buf
    let buf ← memcpy start repl buf
    let buf ← memcpy nlen [0] buf
    return ⟨buf, nlen, start + repl.length⟩

/-! ## Paths -/

/-- The first match, what all matches have in common, and their number. -/
structure Best where
  best : Str
  common : Str
  found : Nat

def shellMatchUpdate (bestsz : Nat) (b : Best) (name : Str) : Best :=
  if b.found = 0 then
    let s := name.take (bestsz - 1)
    ⟨s, s, 1⟩
  else ⟨b.best, b.common.take (agree b.common name), b.found + 1⟩

/-- The name of a mount point in the directory, as far as there is room. -/
def shellMountChild (dir mnt : Str) (outsz : Nat) : Option Str :=
  if mnt.head? ≠ some slash ∨ outsz < 2 then none
  else
    let p :=
      if dir = [slash] then some mnt.tail
      else if sameFront dir.length mnt dir ∧ mnt[dir.length]? = some slash then
        some (mnt.drop (dir.length + 1))
      else none
    p.bind fun p => if p = [] ∨ slash ∈ p then none else some (p.take (outsz - 1))

/-- `last_slash`. -/
def lastSlash : Str → Option Nat
  | [] => none
  | c :: s =>
    match lastSlash s with
    | some k => some (k + 1)
    | none => if c = slash then some 0 else none

/-- `dir` and `pfx`. A slash in `path` is never behind the end of `dir`, which is as long. -/
def splitPath (path : Str) : Str × Str :=
  match lastSlash path with
  | none => ([slash], path.take (Vfs.vfsNameMax - 1))
  | some 0 => ([slash], (path.drop 1).take (Vfs.vfsNameMax - 1))
  | some k => (path.take k, (path.drop (k + 1)).take (Vfs.vfsNameMax - 1))

/-- The names the loops over `vfs_listdir` and `vfs_mount_path` go through. -/
def listed (N : Names) (dir : Str) : List Str :=
  (N.entries dir).map (·.take (Vfs.vfsNameMax - 1)) ++
    N.mounts.filterMap fun mnt => shellMountChild dir mnt Vfs.vfsNameMax

/-- `out`: the directory and a name in it. -/
def pathIn (dir name : Str) : Option Str :=
  if dir = [slash] then
    if 1 + name.length ≥ Vfs.vfsPathMax then none else some (slash :: name)
  else if dir.length + 1 ≥ Vfs.vfsPathMax then none
  else if dir.length + 1 + name.length ≥ Vfs.vfsPathMax then none
  else some (dir ++ slash :: name)

/-- The line, and the number of matches. -/
def shellCompletePath (N : Names) (l : Line) (start stop : Nat) : Option (Line × Nat) :=
  let path := copied l.buf start (min (stop - start) (Vfs.vfsPathMax - 1))
  let (dir, pfx) := splitPath path
  let b := ((listed N dir).filter fun name => sameFront pfx.length name pfx).foldl
    (shellMatchUpdate Vfs.vfsNameMax) ⟨[], [], 0⟩
  if b.found = 0 then some (l, 0)
  else if b.found = 1 then
    match pathIn dir b.best with
    | none => some (l, b.found)
    | some out =>
      let out :=
        if N.isDir out ∧ out.length + 1 < Vfs.vfsPathMax ∧ out.getLast? ≠ some slash then
          out ++ [slash]
        else out
      (shellReplaceToken l start stop out).map fun l => (l, 1)
  else if b.common.length > pfx.length then
    match pathIn dir b.common with
    | none => some (l, b.found)
    | some out => (shellReplaceToken l start stop out).map fun l => (l, b.found)
  else some (l, b.found)

/-! ## Commands -/

def shellCompleteCmdword (N : Names) (l : Line) (start stop : Nat) : Option (Line × Nat) :=
  let plen := min (stop - start) (shellLineMax - 1)
  let word := copied l.buf start plen
  match N.cmds.filter fun name => sameFront plen name word with
  | [] => some (l, 0)
  | [first] =>
    (shellReplaceToken l start stop (first.take (shellLineMax - 2) ++ [blank])).map fun l => (l, 1)
  | first :: rest =>
    let commonLen := rest.foldl (fun n name => agree (first.take n) name) first.length
    if commonLen > plen then
      (shellReplaceToken l start stop (first.take (min commonLen (shellLineMax - 1)))).map
        fun l => (l, rest.length + 1)
    else some (l, rest.length + 1)

/-- `shell_complete_cmds`. No pointer is null. -/
def shellCompleteCmds (N : Names) (l : Line) : Option (Line × Nat) :=
  if l.len < 0 ∨ l.len ≥ l.buf.length then some (l, 0)
  else
    let (start, stop) := shellTokenAt l.buf l.len l.pos
    if shellTokenIsFirst l.buf start then shellCompleteCmdword N l start stop
    else shellCompletePath N l start stop

end Ittrium.Shell
