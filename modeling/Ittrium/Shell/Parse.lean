import Ittrium.Kernel.Config

/-!
# `shell_parse.c`

A string is the list of its characters before the terminating zero. A pointer into a buffer is the
rest of the list, and what the code cuts off by storing a zero is cut off the list. The commands and
the data they work on are a parameter.

* `stripComment`, `expandVars`, `tokenize` — the scanners, each with its own view of quotes
* `shellExecLine` — with what it passes to `shell_run_argv`
-/

namespace Ittrium.Shell

/-! ## Characters and constants -/

/-- `char`. -/
abbrev Ch := UInt8
abbrev Str := List Ch

def blank : Ch := 0x20
def tab : Ch := 0x09
def dquote : Ch := 0x22
def hash : Ch := 0x23
def dollar : Ch := 0x24
def amp : Ch := 0x26
def squote : Ch := 0x27
def semi : Ch := 0x3b
def equals : Ch := 0x3d
def underscore : Ch := 0x5f
def lbrace : Ch := 0x7b
def bar : Ch := 0x7c
def rbrace : Ch := 0x7d

def shellLineMax : Nat := 192
def shellMaxArgs : Nat := 16
def shellVarMax : Nat := 16
def shellVarName : Nat := 24
def shellVarVal : Nat := 64

def isBlank (c : Ch) : Bool := c = blank || c = tab

def isQuote (c : Ch) : Bool := c = squote || c = dquote

def isNameStart (c : Ch) : Bool :=
  (0x41 ≤ c && c ≤ 0x5a) || (0x61 ≤ c && c ≤ 0x7a) || c = underscore

def isNameChar (c : Ch) : Bool := isNameStart c || (0x30 ≤ c && c ≤ 0x39)

/-! ## `shell_var.c` -/

/-- `g_vars`: name and value of the variables in use. -/
abbrev Vars := Fin shellVarMax → Option (Str × Str)

def shellVarGet (name : Str) (vars : Vars) : Option Str :=
  (List.finRange shellVarMax).findSome? fun i =>
    (vars i).bind fun v => if v.1 = name then some v.2 else none

/-- The variables, and whether there was room. -/
def shellVarSet (name val : Str) (vars : Vars) : Vars × Bool :=
  if !(name.head?.any isNameStart) || !(name.all isNameChar) || name.length ≥ shellVarName then
    (vars, false)
  else
    let val := val.take (shellVarVal - 1)
    match (List.finRange shellVarMax).find? fun i => (vars i).any fun v => v.1 = name with
    | some i => (Function.update vars i (some (name, val)), true)
    | none =>
      match (List.finRange shellVarMax).find? fun i => (vars i).isNone with
      | some i => (Function.update vars i (some (name, val)), true)
      | none => (vars, false)

/-- The variables, and whether there was one of the name. -/
def shellVarUnset (name : Str) (vars : Vars) : Vars × Bool :=
  match (List.finRange shellVarMax).find? fun i => (vars i).any fun v => v.1 = name with
  | some i => (Function.update vars i none, true)
  | none => (vars, false)

/-! ## Scanners -/

/-- `strip_comment`, inside the quote `q` or outside. -/
def stripComment : Option Ch → Str → Str
  | _, [] => []
  | some q, c :: s => c :: stripComment (if c = q then none else some q) s
  | none, c :: s =>
    if isQuote c then c :: stripComment (some c) s
    else if c = hash then []
    else c :: stripComment none s

/-- The name behind a `$`, and what follows it. The buffer for names is of `SHELL_VAR_NAME` bytes. -/
def varName : Str → Option (Str × Str)
  | [] => none
  | c :: s =>
    if c = lbrace then
      let name := (s.takeWhile (· ≠ rbrace)).take (shellVarName - 1)
      let rest := s.drop name.length
      some (name, if rest.head? = some rbrace then rest.tail else rest)
    else if isNameStart c then
      let name := ((c :: s).takeWhile isNameChar).take (shellVarName - 1)
      some (name, (c :: s).drop name.length)
    else none

theorem varName_length {s name rest : Str} (h : varName s = some (name, rest)) :
    rest.length ≤ s.length := by
  cases s with
  | nil => cases h
  | cons c s =>
    simp only [varName] at h
    by_cases hb : c = lbrace
    · rw [if_pos hb] at h
      obtain ⟨-, rfl⟩ := Prod.mk.inj (Option.some.inj h)
      split <;> simp only [List.length_tail, List.length_drop, List.length_cons] <;> omega
    · rw [if_neg hb] at h
      by_cases hn : isNameStart c = true
      · rw [if_pos hn] at h
        obtain ⟨-, rfl⟩ := Prod.mk.inj (Option.some.inj h)
        rw [List.length_drop]
        omega
      · rw [if_neg hn] at h
        cases h

/-- The loop of `expand_vars`, with room for `room` more characters. -/
def expandLoop (vars : Vars) (q : Option Ch) (room : Nat) (s : Str) : Str :=
  match s with
  | [] => []
  | c :: s =>
    if room = 0 then []
    else if q = some squote then
      if c = squote then expandLoop vars none room s
      else c :: expandLoop vars q (room - 1) s
    else if q = none ∧ isQuote c then c :: expandLoop vars (some c) (room - 1) s
    else if q = some dquote ∧ c = dquote then c :: expandLoop vars none (room - 1) s
    else if c = dollar then
      match h : varName s with
      | some (name, rest) =>
        let val := ((shellVarGet name vars).getD []).take room
        val ++ expandLoop vars q (room - val.length) rest
      | none => c :: expandLoop vars q (room - 1) s
    else c :: expandLoop vars q (room - 1) s
termination_by s.length
decreasing_by
  all_goals simp only [List.length_cons]
  all_goals first
    | omega
    | exact Nat.lt_succ_of_le (varName_length h)

/-- `expand_vars`, into a buffer of `outsz` bytes. -/
def expandVars (vars : Vars) (s : Str) (outsz : Nat) : Str := expandLoop vars none (outsz - 1) s

/-- `tokenize`, with room for `max` more tokens. Behind a quote that is not at the start of a token
the line ends. -/
def tokenize : Nat → Str → List Str
  | 0, _ => []
  | max + 1, s =>
    match s.dropWhile isBlank with
    | [] => []
    | c :: s =>
      if isQuote c then
        s.takeWhile (· ≠ c) :: tokenize max (s.dropWhile (· ≠ c)).tail
      else
        let plain := fun c => !isBlank c && !isQuote c
        let rest := (c :: s).dropWhile plain
        (c :: s).takeWhile plain :: if rest.head?.any isQuote then [] else tokenize max rest.tail

/-- `is_assign`: name and value. -/
def isAssign (tok : Str) : Option (Str × Str) :=
  let name := tok.takeWhile (· ≠ equals)
  if tok.head?.any isNameStart && name.length < tok.length && name.all isNameChar &&
      name.length < shellVarName then
    some (name, tok.drop (name.length + 1))
  else none

/-! ## Lines -/

/-- The variables, and what the commands work on. -/
structure State (σ : Type) where
  vars : Vars
  data : σ

/-- `shell_run_argv`: what the commands do, and the status. -/
abbrev RunArgv (σ : Type) := List Str → State σ → State σ × Int

/-- What a line has done so far: the argument lists passed to `shell_run_argv`, the latest last. -/
structure Done (σ : Type) where
  state : State σ
  calls : List (List Str)
  status : Int

variable {σ : Type}

/-- The leading assignments are made, and the other words are returned. -/
def assignVars : List Str → State σ → List Str × State σ
  | [], st => ([], st)
  | tok :: argv, st =>
    match isAssign tok with
    | some (name, val) => assignVars argv { st with vars := (shellVarSet name val st.vars).1 }
    | none => (tok :: argv, st)

def runSegment (run : RunArgv σ) (seg : Str) (d : Done σ) : Done σ :=
  let seg := seg.dropWhile isBlank
  if seg = [] then { d with status := 0 }
  else
    let argv := tokenize shellMaxArgs (expandVars d.state.vars seg shellLineMax)
    if argv = [] then { d with status := 0 }
    else
      let (argv, st) := assignVars argv d.state
      if argv = [] then { d with state := st, status := 0 }
      else
        let (st, status) := run argv st
        ⟨st, d.calls ++ [argv], status⟩

/-- `enum chain_op`. -/
inductive ChainOp where
  | semi
  | and
  | or

/-- What follows a segment is run only if `runNext`. -/
structure Chain (σ : Type) where
  done : Done σ
  runNext : Bool

/-- A segment ends. -/
def Chain.segment (run : RunArgv σ) (seg : Str) (ch : Chain σ) : Done σ :=
  let seg := seg.dropWhile isBlank
  if ch.runNext ∧ seg ≠ [] then runSegment run seg ch.done else ch.done

/-- A segment ends with a separator. -/
def Chain.next (run : RunArgv σ) (op : ChainOp) (seg : Str) (ch : Chain σ) : Chain σ :=
  let d := ch.segment run seg
  ⟨d, match op with
    | .semi => true
    | .and => d.status = 0
    | .or => d.status ≠ 0⟩

/-- The loop of `shell_exec_line`: `seg` is the segment so far. -/
def execLoop (run : RunArgv σ) : Option Ch → Str → Chain σ → Str → Done σ
  | _, seg, ch, [] => ch.segment run seg
  | some q, seg, ch, c :: s => execLoop run (if c = q then none else some q) (seg ++ [c]) ch s
  | none, seg, ch, c :: s =>
    if isQuote c then execLoop run (some c) (seg ++ [c]) ch s
    else if c = semi then execLoop run none [] (ch.next run .semi seg) s
    else
      match s with
      | [] => execLoop run none (seg ++ [c]) ch []
      | d :: s =>
        if c = amp ∧ d = amp then execLoop run none [] (ch.next run .and seg) s
        else if c = bar ∧ d = bar then execLoop run none [] (ch.next run .or seg) s
        else execLoop run none (seg ++ [c]) ch (d :: s)

/-- `shell_exec_line`, of a line that is not null. -/
def shellExecLine (run : RunArgv σ) (line : Str) (st : State σ) : Done σ :=
  execLoop run none [] ⟨⟨st, [], 0⟩, true⟩ (stripComment none (line.take (shellLineMax - 1)))

end Ittrium.Shell
