import Ittrium.Infra.Recent
import Ittrium.Shell.Completion

/-!
# `lineedit.c`

The keys come from `shell_getc`, an error as a negative number. With each key come the names that a
completion would find at that time. What is shown on the terminal is left out.

* `Hist` — the history, a ring of lines
* `lineeditRead` — up to the key that ends the line, or as far as there are keys
-/

namespace Ittrium.Shell

open Infra (memmove memcpy Recent)

def shellHistMax : Nat := 16

/-! ## The history -/

/-- `hist`, `hist_count` and `hist_head`. -/
abbrev Hist := Recent shellHistMax Str

def histPush (line : Str) (h : Hist) : Hist :=
  if line = [] then h else h.push (line.take (shellLineMax - 1))

def histGet (back : Int) (h : Hist) : Option Str := h.get back

/-! ## One key -/

/-- The local variables of `lineedit_read`. -/
structure Edit where
  line : Line
  histNav : Int

/-- The character before the cursor goes. -/
def backspace (l : Line) : Option Line :=
  if l.pos > 0 then do
    let buf ← memmove (l.pos - 1) l.pos (l.len - l.pos) l.buf
    let buf ← memcpy (l.len - 1) [0] buf
    return ⟨buf, l.len - 1, l.pos - 1⟩
  else some l

/-- A character that can be printed. -/
def insertChar (c : Ch) (l : Line) : Option Line := do
  let buf ← (if l.pos < l.len then memmove (l.pos + 1) l.pos (l.len - l.pos) l.buf else some l.buf)
  let buf ← memcpy l.pos [c] buf
  let buf ← memcpy (l.len + 1) [0] buf
  return ⟨buf, l.len + 1, l.pos + 1⟩

/-- The line becomes one of the history, as far as there is room. -/
def recallLine (h : Str) (l : Line) : Option Line := do
  let len : Int := if (h.length : Int) ≥ l.buf.length then l.buf.length - 1 else h.length
  let buf ← memcpy 0 (h.take len.toNat) l.buf
  let buf ← memcpy len [0] buf
  return ⟨buf, len, len⟩

def clear (l : Line) : Option Line := (memcpy 0 [0] l.buf).map fun buf => ⟨buf, 0, 0⟩

def keyUp (hist : Hist) (e : Edit) : Option Edit :=
  match histGet (e.histNav + 1) hist with
  | none => some e
  | some h => (recallLine h e.line).map fun line => ⟨line, e.histNav + 1⟩

def keyDown (hist : Hist) (e : Edit) : Option Edit :=
  if e.histNav ≤ 0 then some e
  else if e.histNav - 1 = 0 then (clear e.line).map fun line => ⟨line, 0⟩
  else
    match histGet (e.histNav - 1) hist with
    | none => some { e with histNav := e.histNav - 1 }
    | some h => (recallLine h e.line).map fun line => ⟨line, e.histNav - 1⟩

/-- `(char)c == d`. -/
def isChar (c d : Int) : Bool := c % 256 = d

/-- What follows an escape. -/
def keyEscape (hist : Hist) (c d : Int) (e : Edit) : Option Edit :=
  if isChar c 0x5b then
    if isChar d 0x41 then keyUp hist e
    else if isChar d 0x42 then keyDown hist e
    else if isChar d 0x43 then
      some (if e.line.pos < e.line.len then { e with line.pos := e.line.pos + 1 } else e)
    else if isChar d 0x44 then
      some (if e.line.pos > 0 then { e with line.pos := e.line.pos - 1 } else e)
    else some e
  else some e

/-! ## The loop -/

/-- What `shell_getc` returns, and the names at that time. -/
structure Key where
  code : Int
  names : Names

/-- The loop waits for a key, or it has returned with a result, a buffer and a history. -/
inductive Reading where
  | waits (e : Edit)
  | returned (r : Int) (buf : Str) (hist : Hist)

/-- The loop of `lineedit_read`. -/
def lineeditLoop (hist : Hist) : List Key → Edit → Option Reading
  | [], e => some (.waits e)
  | key :: keys, e =>
    let c := key.code
    if c < 0 then lineeditLoop hist keys e
    else if c = 0x09 then
      (shellCompleteCmds key.names e.line).bind fun r => lineeditLoop hist keys ⟨r.1, 0⟩
    else if c = 0x0d ∨ c = 0x0a then
      (memcpy e.line.len [0] e.line.buf).map fun buf =>
        .returned e.line.len buf (histPush (buf.takeWhile (· ≠ 0)) hist)
    else if c = 0x7f ∨ c = 0x08 then
      (backspace e.line).bind fun line => lineeditLoop hist keys { e with line }
    else if c = 0x03 then (memcpy 0 [0] e.line.buf).map fun buf => .returned 0 buf hist
    else if c = 0x1b then
      match keys with
      | s₀ :: s₁ :: keys =>
        (keyEscape hist s₀.code s₁.code e).bind fun e => lineeditLoop hist keys e
      | _ => some (.waits e)
    else if c < 0x20 ∨ c > 0x7e then lineeditLoop hist keys e
    else if e.line.len + 1 ≥ e.line.buf.length then lineeditLoop hist keys e
    else
      (insertChar (UInt8.ofNat c.toNat) e.line).bind fun line => lineeditLoop hist keys ⟨line, 0⟩

/-- `lineedit_read`, with a buffer that is not null. -/
def lineeditRead (hist : Hist) (keys : List Key) (buf : Str) : Option Reading :=
  if buf.length < 2 then some (.returned (-1) buf hist)
  else (memcpy 0 [0] buf).bind fun buf => lineeditLoop hist keys ⟨⟨buf, 0, 0⟩, 0⟩

end Ittrium.Shell
