import Ittrium.Infra.Terminal
import Ittrium.Shell.LineEdit

/-!
# The output of `lineedit.c`

What the loop of `lineedit_read` puts on the terminal, together with what it reads. A completion
that is asked for it lists the matches as well.

* `redraw` — the whole line, and the cursor back to its place
* `lineeditPrint` — `lineedit_read` with its output
-/

namespace Ittrium.Shell

open Infra
open Infra.Terminal (cr crlf erase right left)

/-! ## Output -/

/-- `redraw`. -/
def redraw (prompt : Str) (l : Line) : Str :=
  cr ++ (prompt ++ l.buf.take l.len.toNat) ++ erase ++
    (List.replicate (l.len - l.pos).toNat left).flatten

/-- The loops that print the matches, one on a row. -/
def listNames (names : List Str) : Str := crlf ++ names.flatMap (· ++ crlf)

/-- What `shell_complete_cmdword` prints when it is asked for a list. -/
def shellListCmdword (N : Names) (l : Line) (start stop : Nat) : Str :=
  let plen := min (stop - start) (shellLineMax - 1)
  let word := copied l.buf start plen
  let names := N.cmds.filter fun name => sameFront plen name word
  if names.length ≤ 1 then [] else listNames names

/-- What `shell_complete_path` prints when it is asked for a list. -/
def shellListPath (N : Names) (l : Line) (start stop : Nat) : Str :=
  let path := copied l.buf start (min (stop - start) (Vfs.vfsPathMax - 1))
  let (dir, pfx) := splitPath path
  let names := (listed N dir).filter fun name => sameFront pfx.length name pfx
  let b := names.foldl (shellMatchUpdate Vfs.vfsNameMax) ⟨[], [], 0⟩
  if b.found ≤ 1 then []
  else if b.common.length > pfx.length ∧ pathIn dir b.common = none then []
  else listNames names

/-- What `shell_complete_cmds` prints when it is asked for a list. -/
def shellListCmds (N : Names) (l : Line) : Str :=
  if l.len < 0 ∨ l.len ≥ l.buf.length then []
  else
    let (start, stop) := shellTokenAt l.buf l.len l.pos
    if shellTokenIsFirst l.buf start then shellListCmdword N l start stop
    else shellListPath N l start stop

/-- A tab, with the line before and after it. -/
def tabEcho (N : Names) (prompt : Str) (tabPending : Bool) (l l' : Line) (n : Nat) : Str :=
  (if tabPending then shellListCmds N l else []) ++
    if n > 1 ∧ tabPending then redraw prompt l'
    else if n ≥ 1 then redraw prompt l'
    else []

def backspaceEcho (prompt : Str) (l l' : Line) : Str := if l.pos > 0 then redraw prompt l' else []

def upEcho (hist : Hist) (prompt : Str) (e e' : Edit) : Str :=
  match histGet (e.histNav + 1) hist with
  | none => []
  | some _ => redraw prompt e'.line

def downEcho (hist : Hist) (prompt : Str) (e e' : Edit) : Str :=
  if e.histNav ≤ 0 then []
  else if e.histNav - 1 = 0 then redraw prompt e'.line
  else
    match histGet (e.histNav - 1) hist with
    | none => []
    | some _ => redraw prompt e'.line

/-- What follows an escape, with the state before and after it. -/
def escapeEcho (hist : Hist) (prompt : Str) (c d : Int) (e e' : Edit) : Str :=
  if isChar c 0x5b then
    if isChar d 0x41 then upEcho hist prompt e e'
    else if isChar d 0x42 then downEcho hist prompt e e'
    else if isChar d 0x43 then if e.line.pos < e.line.len then right else []
    else if isChar d 0x44 then if e.line.pos > 0 then left else []
    else []
  else []

/-- The output comes before the rest. -/
def before (out : Str) (r : Option (Str × Reading)) : Option (Str × Reading) :=
  r.map fun r => (out ++ r.1, r.2)

/-- The loop of `lineedit_read`, with `tab_pending`. -/
def lineeditEcho (hist : Hist) (prompt : Str) : List Key → Bool → Edit → Option (Str × Reading)
  | [], _, e => some ([], .waits e)
  | key :: keys, tabPending, e =>
    let c := key.code
    if c < 0 then lineeditEcho hist prompt keys tabPending e
    else if c = 0x09 then
      (shellCompleteCmds key.names e.line).bind fun r =>
        before (tabEcho key.names prompt tabPending e.line r.1 r.2)
          (lineeditEcho hist prompt keys (r.2 > 1) ⟨r.1, 0⟩)
    else if c = 0x0d ∨ c = 0x0a then
      (memcpy e.line.len [0] e.line.buf).map fun buf =>
        (crlf, .returned e.line.len buf (histPush (buf.takeWhile (· ≠ 0)) hist))
    else if c = 0x7f ∨ c = 0x08 then
      (backspace e.line).bind fun line =>
        before (backspaceEcho prompt e.line line)
          (lineeditEcho hist prompt keys false { e with line })
    else if c = 0x03 then
      (memcpy 0 [0] e.line.buf).map fun buf => ([0x5e, 0x43] ++ crlf, .returned 0 buf hist)
    else if c = 0x1b then
      match keys with
      | s₀ :: s₁ :: keys =>
        (keyEscape hist s₀.code s₁.code e).bind fun e' =>
          before (escapeEcho hist prompt s₀.code s₁.code e e')
            (lineeditEcho hist prompt keys false e')
      | _ => some ([], .waits e)
    else if c < 0x20 ∨ c > 0x7e then lineeditEcho hist prompt keys false e
    else if e.line.len + 1 ≥ e.line.buf.length then lineeditEcho hist prompt keys false e
    else
      (insertChar (UInt8.ofNat c.toNat) e.line).bind fun line =>
        before (redraw prompt line) (lineeditEcho hist prompt keys false ⟨line, 0⟩)

/-- `lineedit_read`, with a buffer and a prompt that are not null. -/
def lineeditPrint (hist : Hist) (prompt : Str) (keys : List Key) (buf : Str) :
    Option (Str × Reading) :=
  if buf.length < 2 then some ([], .returned (-1) buf hist)
  else
    (memcpy 0 [0] buf).bind fun buf =>
      before prompt (lineeditEcho hist prompt keys false ⟨⟨buf, 0, 0⟩, 0⟩)

end Ittrium.Shell
