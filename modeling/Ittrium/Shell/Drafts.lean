import Ittrium.Shell.LineEdit
import Ittrium.Shell.TabKey

/-!
# The line editor as a text with a cursor

* `Draft.press` — what a key does to the text, the cursor and the position in the history
* `Typed` — a run of the editor, key by key; what a tab puts in place of a token is left open
* `lineedit_refines` — **`lineedit_read` is such a run, in a buffer of any size**
-/

namespace Ittrium.Shell

open Infra

variable {N : Names} {hist : Hist} {l l' : Line} {e e' : Edit} {s pre tok post new x z : Str}
  {cursor size : Nat} {c : Ch}

/-! ## The model -/

/-- A text with a cursor, and the position in the history: `0` outside of it, `1` at the last
line. -/
structure Draft where
  text : Str
  cursor : Nat
  nav : Nat

/-- The keys that do something. -/
inductive Press where
  | char (c : Ch)
  | backspace
  | up
  | down
  | right
  | left
  | tab
  | enter
  | ctrlC

/-- The key changes the text, or moves in it or in the history. -/
def Press.edits : Press → Bool
  | .tab | .enter | .ctrlC => false
  | _ => true

/-- An arrow, by the characters behind the escape. -/
def arrow (c d : Int) : List Press :=
  if isChar c 0x5b then
    if isChar d 0x41 then [.up]
    else if isChar d 0x42 then [.down]
    else if isChar d 0x43 then [.right]
    else if isChar d 0x44 then [.left]
    else []
  else []

/-- The keys in what is received. Errors and all else are nothing, and an escape takes the two
codes behind it. -/
def presses : List Int → List Press
  | [] => []
  | c :: cs =>
    if c < 0 then presses cs
    else if c = 0x09 then .tab :: presses cs
    else if c = 0x0d ∨ c = 0x0a then .enter :: presses cs
    else if c = 0x7f ∨ c = 0x08 then .backspace :: presses cs
    else if c = 0x03 then .ctrlC :: presses cs
    else if c = 0x1b then
      match cs with
      | s₀ :: s₁ :: cs => arrow s₀ s₁ ++ presses cs
      | _ => []
    else if c < 0x20 ∨ c > 0x7e then presses cs
    else .char (UInt8.ofNat c.toNat) :: presses cs

/-- A line of the history, as far as there is room. -/
def Draft.recalled (size : Nat) (line : Str) (nav : Nat) : Draft :=
  ⟨line.take (size - 1), (line.take (size - 1)).length, nav⟩

/-- What such a key does. -/
def Draft.press (size : Nat) (recent : List Str) (m : Draft) : Press → Draft
  | .char c =>
    if m.text.length + 1 < size then
      ⟨m.text.take m.cursor ++ c :: m.text.drop m.cursor, m.cursor + 1, 0⟩
    else m
  | .backspace =>
    if 0 < m.cursor then
      ⟨m.text.take (m.cursor - 1) ++ m.text.drop m.cursor, m.cursor - 1, m.nav⟩
    else m
  | .up =>
    match recent[m.nav]? with
    | some line => .recalled size line (m.nav + 1)
    | none => m
  | .down =>
    match m.nav with
    | 0 => m
    | 1 => ⟨[], 0, 0⟩
    | k + 2 =>
      match recent[k]? with
      | some line => .recalled size line (k + 1)
      | none => m
  | .right => if m.cursor < m.text.length then { m with cursor := m.cursor + 1 } else m
  | .left => { m with cursor := m.cursor - 1 }
  | .tab | .enter | .ctrlC => m

/-- A tab may put something in place of the token at the cursor, if there is room. -/
inductive Draft.Tab (size : Nat) (m : Draft) : Draft → Prop where
  | stays : Draft.Tab size m { m with nav := 0 }
  | replaced {pre tok post new : Str} : TokenAt m.text m.cursor pre tok post →
      pre.length + new.length + post.length < size →
      Draft.Tab size m ⟨pre ++ (new ++ post), pre.length + new.length, 0⟩

/-- How a run of the editor ends. -/
inductive Result where
  | waits (m : Draft)
  | line (s : Str)
  | cancelled

/-- A run of the editor. -/
inductive Typed (size : Nat) (recent : List Str) : List Press → Draft → Result → Prop where
  | waits (m : Draft) : Typed size recent [] m (.waits m)
  | enter (ps : List Press) (m : Draft) : Typed size recent (.enter :: ps) m (.line m.text)
  | ctrlC (ps : List Press) (m : Draft) : Typed size recent (.ctrlC :: ps) m .cancelled
  | tab {ps : List Press} {m m' : Draft} {r : Result} : m.Tab size m' →
      Typed size recent ps m' r → Typed size recent (.tab :: ps) m r
  | press {ps : List Press} {m : Draft} {r : Result} {p : Press} :
      p.edits = true → Typed size recent ps (m.press size recent p) r →
      Typed size recent (p :: ps) m r

/-! ## What it means for the code -/

/-- The local variables show the text, the cursor and the position in the history. -/
structure Edit.Shows (size : Nat) (hist : Hist) (e : Edit) (m : Draft) : Prop where
  line : e.line.Shows m.text m.cursor
  size : e.line.buf.length = size
  nav : e.histNav = m.nav
  range : m.nav ≤ hist.count

/-- The history after a line. -/
def pushed (line : Str) (recent : List Str) : List Str :=
  if line = [] then recent else (line.take (shellLineMax - 1) :: recent).take shellHistMax

/-- The code is as the model: the bounds hold, and what it has returned is the text. -/
def Agrees (size : Nat) (hist : Hist) : Reading → Result → Prop
  | .waits e, .waits m => e.Shows size hist m ∧ 0 ≤ e.line.pos ∧ e.line.pos ≤ e.line.len ∧
      e.line.len < size ∧ 0 ≤ e.histNav ∧ e.histNav ≤ hist.count
  | .returned r buf hist', .line s => r = s.length ∧ Terminated buf s 0 ∧ buf.length = size ∧
      hist'.toList = pushed (s.takeWhile (· ≠ 0)) hist.toList
  | .returned r buf hist', .cancelled =>
      r = 0 ∧ Terminated buf [] 0 ∧ buf.length = size ∧ hist' = hist
  | _, _ => False

/-! ## Changes of the line -/

/-- A copy of nothing changes nothing. -/
theorem memmove_zero {α : Type} {buf b : List α} {dst src : Int}
    (h : memmove dst src 0 buf = some b) : b = buf := by
  unfold memmove at h
  split at h
  · simpa using h.symm
  · cases h

theorem memcpy_nil {α : Type} {buf b : List α} {dst : Int} (h : memcpy dst [] buf = some b) :
    b = buf := by
  unfold memcpy at h
  split at h
  · simpa using h.symm
  · cases h

theorem Line.Shows.in_buf (h : l.Shows s cursor) : s <+: l.buf := by
  obtain ⟨t, ht⟩ := h.terminated
  exact ⟨0 :: t, ht.symm⟩

theorem backspace_shows (h : l.Shows (x ++ (c :: z)) (x.length + 1)) :
    ∃ l', backspace l = some l' ∧ l'.Shows (x ++ z) x.length ∧ l'.buf.length = l.buf.length := by
  have hlen := h.len
  have hpos := h.pos
  have hlt := h.terminated.length_lt
  simp only [List.length_append, List.length_cons] at hlen hlt
  obtain ⟨b, b', b'', hmove, hcopy, hzero, hterm, hb⟩ :=
    splice_spec (y := [c]) (r := []) 0 h.in_buf (by simp only [List.length_nil]; omega)
  obtain rfl := memcpy_nil hcopy
  have hdst : l.pos - 1 = x.length + (([] : Str).length : Int) := by
    rw [List.length_nil]
    omega
  have hn : l.len - l.pos = z.length := by omega
  have hsrc : l.pos = x.length + (([c] : Str).length : Int) := by
    rw [List.length_singleton]
    omega
  have hstop : l.len - 1 = x.length + (([] : Str).length : Int) + z.length := by
    rw [List.length_nil]
    omega
  unfold backspace
  rw [if_pos (by omega), hdst, hn, hsrc, hstop, hmove, Option.bind_eq_bind, Option.bind_some,
    hzero]
  refine ⟨_, rfl, ⟨hterm, ?_, ?_, ?_⟩, hb⟩
  · simp
  · simp
  · simp

theorem insertChar_shows (h : l.Shows (x ++ z) x.length)
    (hroom : (x ++ z).length + 1 < l.buf.length) (c : Ch) :
    ∃ l', insertChar c l = some l' ∧ l'.Shows (x ++ (c :: z)) (x.length + 1) ∧
      l'.buf.length = l.buf.length := by
  have hlen := h.len
  have hpos := h.pos
  simp only [List.length_append] at hlen hroom
  obtain ⟨b, b', b'', hmove, hcopy, hzero, hterm, hb⟩ :=
    splice_spec (y := []) (r := [c]) 0 h.in_buf (by simp only [List.length_singleton]; omega)
  have hmove' : (if l.pos < l.len then memmove (l.pos + 1) l.pos (l.len - l.pos) l.buf
      else some l.buf) = some b := by
    have hsrc : l.pos = x.length + (([] : Str).length : Int) := by
      rw [List.length_nil]
      omega
    have hn : l.len - l.pos = z.length := by omega
    by_cases hlt : l.pos < l.len
    · rw [if_pos hlt, hn, hpos]
      simpa using hmove
    · -- at the end of the line nothing is moved
      have hz : z = [] := List.eq_nil_of_length_eq_zero (by omega)
      subst hz
      rw [if_neg hlt, memmove_zero hmove]
  have hstop : l.len + 1 = x.length + (([c] : Str).length : Int) + z.length := by
    rw [List.length_singleton]
    omega
  unfold insertChar
  rw [hmove', Option.bind_eq_bind, Option.bind_some, hpos, hcopy, Option.bind_some, hstop, hzero]
  refine ⟨_, rfl, ⟨hterm, ?_, ?_, ?_⟩, hb⟩
  · simp only [List.length_append, List.length_cons, List.length_nil]
    omega
  · simp
  · simp

theorem recallLine_shows (hroom : 0 < l.buf.length) (line : Str) :
    ∃ l', recallLine line l = some l' ∧
      l'.Shows (line.take (l.buf.length - 1)) (line.take (l.buf.length - 1)).length ∧
      l'.buf.length = l.buf.length := by
  have hlen : (if (line.length : Int) ≥ l.buf.length then (l.buf.length : Int) - 1
      else line.length) = ((line.take (l.buf.length - 1)).length : Int) := by
    rw [List.length_take]
    split <;> omega
  have htake : line.take (line.take (l.buf.length - 1)).length = line.take (l.buf.length - 1) := by
    rw [List.length_take, List.take_eq_take_iff]
    omega
  obtain ⟨b, b', hcopy, hzero, hterm, hb⟩ := terminated_memcpy (0 : Ch)
    (line.take (l.buf.length - 1)) l.buf (by rw [List.length_take]; omega)
  unfold recallLine
  rw [hlen]
  dsimp only
  rw [Int.toNat_natCast, htake, hcopy, Option.bind_eq_bind, Option.bind_some, hzero]
  exact ⟨_, rfl, ⟨hterm, rfl, rfl, le_rfl⟩, hb⟩

theorem clear_shows (hroom : 0 < l.buf.length) :
    ∃ l', clear l = some l' ∧ l'.Shows [] 0 ∧ l'.buf.length = l.buf.length := by
  obtain ⟨b, b', hcopy, hzero, hterm, hb⟩ := terminated_memcpy (0 : Ch) [] l.buf hroom
  rw [memcpy_nil hcopy] at hzero
  refine ⟨⟨b', 0, 0⟩, ?_, ⟨hterm, rfl, rfl, le_rfl⟩, hb⟩
  have hzero' : memcpy 0 [0] l.buf = some b' := hzero
  rw [clear, hzero']
  rfl

/-! ## Keys -/

section

variable {m : Draft}

theorem Draft.Tab.nav {m' : Draft} (h : m.Tab size m') : m'.nav = 0 := by
  cases h <;> rfl

theorem keyUp_shows (h : e.Shows size hist m) (hsize : 2 ≤ size) :
    ∃ e', keyUp hist e = some e' ∧ e'.Shows size hist (m.press size hist.toList .up) := by
  have hget : histGet (e.histNav + 1) hist = hist.toList[m.nav]? := by
    rw [h.nav]
    exact hist.get_eq m.nav
  unfold keyUp Draft.press
  rw [hget]
  cases hline : hist.toList[m.nav]? with
  | none => exact ⟨e, rfl, h⟩
  | some line =>
    obtain ⟨l', hl', hs, hb⟩ := recallLine_shows (l := e.line) (by rw [h.size]; omega) line
    obtain ⟨hlt, -⟩ := List.getElem?_eq_some_iff.mp hline
    rw [Recent.length_toList] at hlt
    rw [h.size] at hs hb
    refine ⟨⟨l', e.histNav + 1⟩, by simp [hl'], hs, hb, ?_, hlt⟩
    rw [h.nav]
    rfl

theorem press_down_of_two {recent : List Str} {line : Str} {k : Nat} (hm : m.nav = k + 2)
    (hline : recent[k]? = some line) :
    m.press size recent .down = .recalled size line (k + 1) := by
  simp only [Draft.press, hm, hline]

theorem keyDown_shows (h : e.Shows size hist m) (hsize : 2 ≤ size) :
    ∃ e', keyDown hist e = some e' ∧ e'.Shows size hist (m.press size hist.toList .down) := by
  have hnav := h.nav
  have hrange := h.range
  unfold keyDown
  match hm : m.nav with
  | 0 =>
    have hpress : m.press size hist.toList .down = m := by simp only [Draft.press, hm]
    rw [if_pos (by omega), hpress]
    exact ⟨e, rfl, h⟩
  | 1 =>
    have hpress : m.press size hist.toList .down = ⟨[], 0, 0⟩ := by simp only [Draft.press, hm]
    obtain ⟨l', hl', hs, hb⟩ := clear_shows (l := e.line) (by rw [h.size]; omega)
    rw [if_neg (by omega), if_pos (by omega), hpress]
    exact ⟨⟨l', 0⟩, by simp [hl'], hs, hb.trans h.size, rfl, Nat.zero_le _⟩
  | k + 2 =>
    have hidx : e.histNav - 1 = ((k + 1 : Nat) : Int) := by omega
    -- the position is in the history
    have hlt : k < hist.toList.length := by
      rw [Recent.length_toList]
      omega
    have hline := List.getElem?_eq_getElem hlt
    have hget : histGet ((k + 1 : Nat) : Int) hist = some hist.toList[k] := by
      rw [← hline]
      exact hist.get_eq k
    rw [if_neg (by omega), if_neg (by omega), hidx, hget, press_down_of_two hm hline]
    obtain ⟨l', hl', hs, hb⟩ := recallLine_shows (l := e.line) (by rw [h.size]; omega)
      hist.toList[k]
    rw [h.size] at hs hb
    rw [Recent.length_toList] at hlt
    exact ⟨⟨l', ((k + 1 : Nat) : Int)⟩, by simp [hl'], hs, hb, rfl, hlt⟩

theorem keyEscape_shows (h : e.Shows size hist m) (hsize : 2 ≤ size) (c d : Int) :
    ∃ e' m', keyEscape hist c d e = some e' ∧ e'.Shows size hist m' ∧
      ∀ ps r, Typed size hist.toList ps m' r →
        Typed size hist.toList (arrow c d ++ ps) m r := by
  have hlen := h.line.len
  have hpos := h.line.pos
  have hin := h.line.inside
  have hnothing : ∃ e' m', some e = some e' ∧ e'.Shows size hist m' ∧
      ∀ ps r, Typed size hist.toList ps m' r → Typed size hist.toList ([] ++ ps) m r :=
    ⟨e, m, rfl, h, fun _ _ ht => ht⟩
  unfold keyEscape arrow
  by_cases hc : isChar c 0x5b = true
  · rw [if_pos hc, if_pos hc]
    -- up, down, right and left
    by_cases hA : isChar d 0x41 = true
    · rw [if_pos hA, if_pos hA]
      obtain ⟨e', he', hs⟩ := keyUp_shows h hsize
      exact ⟨e', _, he', hs, fun ps r ht => .press rfl ht⟩
    rw [if_neg hA, if_neg hA]
    by_cases hB : isChar d 0x42 = true
    · rw [if_pos hB, if_pos hB]
      obtain ⟨e', he', hs⟩ := keyDown_shows h hsize
      exact ⟨e', _, he', hs, fun ps r ht => .press rfl ht⟩
    rw [if_neg hB, if_neg hB]
    by_cases hC : isChar d 0x43 = true
    · rw [if_pos hC, if_pos hC]
      refine ⟨_, m.press size hist.toList .right, rfl, ?_,
        fun ps r ht => .press rfl ht⟩
      unfold Draft.press
      by_cases hlt : m.cursor < m.text.length
      · rw [if_pos (by omega), if_pos hlt]
        refine ⟨⟨h.line.terminated, hlen, ?_, hlt⟩, h.size, h.nav, h.range⟩
        dsimp only
        omega
      · rw [if_neg (by omega), if_neg hlt]
        exact h
    rw [if_neg hC, if_neg hC]
    by_cases hD : isChar d 0x44 = true
    · rw [if_pos hD, if_pos hD]
      refine ⟨_, m.press size hist.toList .left, rfl, ?_,
        fun ps r ht => .press rfl ht⟩
      unfold Draft.press
      by_cases h0 : 0 < m.cursor
      · rw [if_pos (by omega)]
        refine ⟨⟨h.line.terminated, hlen, ?_, ?_⟩, h.size, h.nav, h.range⟩
        · dsimp only
          omega
        · dsimp only
          omega
      · have hz : m.cursor = 0 := by omega
        rw [if_neg (by omega)]
        refine ⟨⟨h.line.terminated, hlen, ?_, ?_⟩, h.size, h.nav, h.range⟩
        · dsimp only
          omega
        · dsimp only
          omega
    · rw [if_neg hD, if_neg hD]
      exact hnothing
  · rw [if_neg hc, if_neg hc]
    exact hnothing

end

/-! ## Tabs -/

/-- The call leaves the line, or puts something in place of the token. -/
def Retouches (l : Line) (pre post : Str) (r : Option (Line × Nat)) : Prop :=
  ∃ l' n, r = some (l', n) ∧ l'.buf.length = l.buf.length ∧
    (l' = l ∨ ∃ new, l.Fits pre new post ∧
      l'.Shows (pre ++ (new ++ post)) (pre.length + new.length))

theorem retouches_same (l : Line) (pre post : Str) (n : Nat) :
    Retouches l pre post (some (l, n)) := ⟨l, n, rfl, rfl, Or.inl rfl⟩

theorem retouches_replace (h : l.Bounded) (ht : l.text = pre ++ (tok ++ post)) (new : Str)
    (n : Nat) : Retouches l pre post
      ((shellReplaceToken l pre.length (pre.length + tok.length) new).map fun l => (l, n)) := by
  obtain ⟨l', hr, hsize, hl'⟩ := shellReplaceToken_spec h ht new
  refine ⟨l', n, by rw [hr]; rfl, hsize, ?_⟩
  by_cases hfit : l.Fits pre new post
  · rw [if_pos hfit] at hl'
    exact Or.inr ⟨new, hfit, hl'⟩
  · rw [if_neg hfit] at hl'
    exact Or.inl hl'

theorem shellCompleteCmdword_retouches (h : l.Bounded) (ht : l.text = pre ++ (tok ++ post)) :
    Retouches l pre post (shellCompleteCmdword N l pre.length (pre.length + tok.length)) := by
  unfold shellCompleteCmdword
  dsimp only
  split
  · exact retouches_same l pre post 0
  · exact retouches_replace h ht _ 1
  · split
    · exact retouches_replace h ht _ _
    · exact retouches_same l pre post _

theorem shellCompletePath_retouches (h : l.Bounded) (ht : l.text = pre ++ (tok ++ post)) :
    Retouches l pre post (shellCompletePath N l pre.length (pre.length + tok.length)) := by
  unfold shellCompletePath
  dsimp only
  split
  · exact retouches_same l pre post 0
  · split
    · split
      · exact retouches_same l pre post _
      · exact retouches_replace h ht _ 1
    · split
      · split
        · exact retouches_same l pre post _
        · exact retouches_replace h ht _ _
      · exact retouches_same l pre post _

/-- **A completion is a tab of the model.** -/
theorem shellCompleteCmds_shows {m : Draft} (h : e.Shows size hist m) (N : Names) :
    ∃ r m', shellCompleteCmds N e.line = some r ∧ m.Tab size m' ∧
      Edit.Shows size hist ⟨r.1, 0⟩ m' := by
  have hl := h.line.bounded
  obtain ⟨pre, tok, post, htok⟩ := exists_tokenAt m.text m.cursor
  have htok' : TokenAt e.line.text e.line.pos pre tok post := by
    rw [h.line.text, h.line.pos]
    exact htok
  have ht := htok'.eq
  have hr : Retouches e.line pre post (shellCompleteCmds N e.line) := by
    have hnonneg := hl.nonneg
    have hroom := hl.room
    unfold shellCompleteCmds
    rw [if_neg (by omega), shellTokenAt_spec hl htok']
    dsimp only
    split
    · exact shellCompleteCmdword_retouches hl ht
    · exact shellCompletePath_retouches hl ht
  obtain ⟨l', n, hcall, hsize, rfl | ⟨new, hfit, hs⟩⟩ := hr
  · exact ⟨_, _, hcall, .stays, h.line, h.size, rfl, Nat.zero_le _⟩
  · rw [Line.Fits, h.size] at hfit
    exact ⟨_, _, hcall, .replaced htok hfit, hs, hsize.trans h.size, rfl, Nat.zero_le _⟩

/-! ## The run -/

theorem takeWhile_terminated {buf : Str} (h : Terminated buf s 0) :
    buf.takeWhile (· ≠ 0) = s.takeWhile (· ≠ 0) := by
  obtain ⟨t, rfl⟩ := h
  rw [List.takeWhile_append]
  split
  · rename_i hall
    rw [List.takeWhile_cons_of_neg (by simp), List.append_nil]
    exact ((List.takeWhile_prefix _).eq_of_length hall).symm
  · rfl

theorem toList_histPush (line : Str) (hist : Hist) :
    (histPush line hist).toList = pushed line hist.toList := by
  unfold histPush pushed
  split
  · rfl
  · exact hist.toList_push _

theorem enter_agrees {m : Draft} (h : e.Shows size hist m) :
    ∃ buf, memcpy e.line.len [0] e.line.buf = some buf ∧ Agrees size hist
      (.returned e.line.len buf (histPush (buf.takeWhile (· ≠ 0)) hist)) (.line m.text) := by
  obtain ⟨t, ht⟩ := h.line.terminated
  have hcopy : memcpy e.line.len [0] e.line.buf = some (m.text ++ ([0] ++ t)) := by
    rw [ht, h.line.len]
    exact memcpy_append (y := [0]) rfl rfl
  have hterm : Terminated (m.text ++ ([0] ++ t)) m.text 0 := ⟨t, rfl⟩
  refine ⟨_, hcopy, h.line.len, hterm, ?_, ?_⟩
  · rw [← h.size, ht]
    rfl
  · rw [toList_histPush, takeWhile_terminated hterm]

theorem ctrlC_agrees {m : Draft} (h : e.Shows size hist m) :
    ∃ buf, memcpy 0 [0] e.line.buf = some buf ∧
      Agrees size hist (.returned 0 buf hist) .cancelled := by
  obtain ⟨l', hl', hs, hb⟩ := clear_shows h.line.terminated.length_pos
  obtain ⟨buf, hbuf, rfl⟩ := Option.map_eq_some_iff.mp hl'
  exact ⟨buf, hbuf, rfl, hs.terminated, hb.trans h.size, rfl⟩

theorem backspace_press {m : Draft} (h : e.Shows size hist m) :
    ∃ line, backspace e.line = some line ∧
      Edit.Shows size hist { e with line } (m.press size hist.toList .backspace) := by
  have hin := h.line.inside
  have hpos := h.line.pos
  unfold Draft.press
  by_cases h0 : 0 < m.cursor
  · obtain ⟨x, c, z, htext, hx⟩ : ∃ x c z, m.text = x ++ (c :: z) ∧ m.cursor = x.length + 1 := by
      have hlt : m.cursor - 1 < m.text.length := by omega
      refine ⟨m.text.take (m.cursor - 1), m.text[m.cursor - 1], m.text.drop m.cursor, ?_, ?_⟩
      · have hdrop := List.drop_eq_getElem_cons hlt
        rw [Nat.sub_add_cancel h0] at hdrop
        rw [← hdrop, List.take_append_drop]
      · rw [List.length_take]
        omega
    have hline := h.line
    rw [htext, hx] at hline
    obtain ⟨l', hl', hs, hb⟩ := backspace_shows hline
    rw [if_pos h0, htext, hx, Nat.add_sub_cancel, List.take_left,
      show x ++ (c :: z) = (x ++ [c]) ++ z by simp, List.drop_left' (by simp)]
    exact ⟨l', hl', hs, hb.trans h.size, h.nav, h.range⟩
  · rw [if_neg h0, backspace, if_neg (by omega)]
    exact ⟨e.line, rfl, h⟩

theorem insertChar_press {m : Draft} (h : e.Shows size hist m) (c : Ch)
    (hroom : m.text.length + 1 < size) :
    ∃ line, insertChar c e.line = some line ∧
      Edit.Shows size hist ⟨line, 0⟩ (m.press size hist.toList (.char c)) := by
  have hin := h.line.inside
  obtain ⟨x, z, htext, hx⟩ : ∃ x z, m.text = x ++ z ∧ m.cursor = x.length :=
    ⟨m.text.take m.cursor, m.text.drop m.cursor, (List.take_append_drop _ _).symm,
      by rw [List.length_take]; omega⟩
  have hline := h.line
  rw [htext, hx] at hline
  obtain ⟨l', hl', hs, hb⟩ := insertChar_shows hline (by rw [← htext, h.size]; exact hroom) c
  have hpress : m.press size hist.toList (.char c) =
      ⟨m.text.take m.cursor ++ c :: m.text.drop m.cursor, m.cursor + 1, 0⟩ := if_pos hroom
  rw [hpress, htext, hx, List.take_left, List.drop_left]
  exact ⟨l', hl', hs, hb.trans h.size, rfl, Nat.zero_le _⟩

theorem waits_agrees {m : Draft} (h : e.Shows size hist m) :
    Agrees size hist (.waits e) (.waits m) := by
  have hpos := h.line.pos
  have hlen := h.line.len
  have hin := h.line.inside
  have hlt := h.line.terminated.length_lt
  have hsize := h.size
  have hnav := h.nav
  have hrange := h.range
  exact ⟨h, by omega, by omega, by omega, by omega, by omega⟩

/-- **From any state of the loop**, whatever keys come. -/
theorem lineeditLoop_typed (hsize : 2 ≤ size) : ∀ (keys : List Key) (e : Edit) (m : Draft),
    e.Shows size hist m → ∃ o r, lineeditLoop hist keys e = some o ∧
      Typed size hist.toList (presses (keys.map Key.code)) m r ∧ Agrees size hist o r
  | [], e, m, h => ⟨_, _, rfl, .waits m, waits_agrees h⟩
  | key :: keys, e, m, h => by
    have hlen := h.line.len
    have hbuf := h.size
    rw [lineeditLoop.eq_def, List.map_cons, presses.eq_def]
    dsimp only
    by_cases herr : key.code < 0
    · rw [if_pos herr, if_pos herr]
      exact lineeditLoop_typed hsize keys e m h
    rw [if_neg herr, if_neg herr]
    by_cases htab : key.code = 0x09
    · rw [if_pos htab, if_pos htab]
      obtain ⟨r, m', hcall, hm', hs⟩ := shellCompleteCmds_shows h key.names
      rw [hcall, Option.bind_some]
      obtain ⟨o, r', ho, ht, ha⟩ := lineeditLoop_typed hsize keys _ m' hs
      exact ⟨o, r', ho, .tab hm' ht, ha⟩
    rw [if_neg htab, if_neg htab]
    by_cases henter : key.code = 0x0d ∨ key.code = 0x0a
    · rw [if_pos henter, if_pos henter]
      obtain ⟨buf, hcopy, ha⟩ := enter_agrees h
      rw [hcopy]
      exact ⟨_, _, rfl, .enter _ m, ha⟩
    rw [if_neg henter, if_neg henter]
    by_cases hback : key.code = 0x7f ∨ key.code = 0x08
    · rw [if_pos hback, if_pos hback]
      obtain ⟨line, hline, hs⟩ := backspace_press h
      rw [hline, Option.bind_some]
      obtain ⟨o, r, ho, ht, ha⟩ := lineeditLoop_typed hsize keys _ _ hs
      exact ⟨o, r, ho, .press rfl ht, ha⟩
    rw [if_neg hback, if_neg hback]
    by_cases hctrl : key.code = 0x03
    · rw [if_pos hctrl, if_pos hctrl]
      obtain ⟨buf, hcopy, ha⟩ := ctrlC_agrees h
      rw [hcopy]
      exact ⟨_, _, rfl, .ctrlC _ m, ha⟩
    rw [if_neg hctrl, if_neg hctrl]
    by_cases hesc : key.code = 0x1b
    · rw [if_pos hesc, if_pos hesc]
      match keys with
      | [] => exact ⟨_, _, rfl, .waits m, waits_agrees h⟩
      | [s₀] => exact ⟨_, _, rfl, .waits m, waits_agrees h⟩
      | s₀ :: s₁ :: keys =>
        obtain ⟨e', m', he', hs, htyped⟩ := keyEscape_shows h hsize s₀.code s₁.code
        obtain ⟨o, r, ho, ht, ha⟩ := lineeditLoop_typed hsize keys e' m' hs
        refine ⟨o, r, ?_, htyped _ _ ht, ha⟩
        dsimp only
        rw [he', Option.bind_some, ho]
    rw [if_neg hesc, if_neg hesc]
    by_cases hother : key.code < 0x20 ∨ key.code > 0x7e
    · rw [if_pos hother, if_pos hother]
      exact lineeditLoop_typed hsize keys e m h
    rw [if_neg hother, if_neg hother]
    by_cases hroom : m.text.length + 1 < size
    · obtain ⟨line, hline, hs⟩ := insertChar_press h (UInt8.ofNat key.code.toNat) hroom
      rw [if_neg (by omega), hline, Option.bind_some]
      obtain ⟨o, r, ho, ht, ha⟩ := lineeditLoop_typed hsize keys _ _ hs
      exact ⟨o, r, ho, .press rfl ht, ha⟩
    · -- without room the key is lost
      rw [if_pos (by omega)]
      obtain ⟨o, r, ho, ht, ha⟩ := lineeditLoop_typed hsize keys e m h
      refine ⟨o, r, ho, .press rfl ?_, ha⟩
      rw [Draft.press, if_neg hroom]
      exact ht

/-- **`lineedit_read` is a run of the model**, for a buffer of any size, any history and any
keys. -/
theorem lineedit_refines (hist : Hist) (keys : List Key) (buf : Str) (hsize : 2 ≤ buf.length) :
    ∃ o r, lineeditRead hist keys buf = some o ∧
      Typed buf.length hist.toList (presses (keys.map Key.code)) ⟨[], 0, 0⟩ r ∧
      Agrees buf.length hist o r := by
  obtain ⟨l', hl', hs, hb⟩ := clear_shows (l := ⟨buf, 0, 0⟩) (by simp only; omega)
  obtain ⟨b, hcopy, rfl⟩ := Option.map_eq_some_iff.mp hl'
  have hcopy' : memcpy 0 [0] buf = some b := hcopy
  rw [lineeditRead, if_neg (by omega), hcopy', Option.bind_some]
  exact lineeditLoop_typed hsize keys _ _ ⟨hs, hb, rfl, Nat.zero_le _⟩

/-- An empty history, and a key where nothing can be completed. -/
def noHist : Hist := ⟨fun _ => [], 0, ⟨0, by decide⟩, by decide⟩

def bareKey (c : Int) : Key := ⟨c, ⟨[], [], fun _ => [], fun _ => false, absolute_nil⟩⟩

/-- `a`, an arrow to the left, `b` and enter. -/
theorem lineedit_refines_four : ∃ o r,
    lineeditRead noHist ([0x61, 0x1b, 0x5b, 0x44, 0x62, 0x0d].map bareKey) [1, 2, 3] = some o ∧
      Typed 3 noHist.toList [.char 0x61, .left, .char 0x62, .enter] ⟨[], 0, 0⟩ r ∧
      Agrees 3 noHist o r :=
  lineedit_refines noHist ([0x61, 0x1b, 0x5b, 0x44, 0x62, 0x0d].map bareKey) [1, 2, 3] (by decide)

example : (match lineeditRead noHist
      ([0x61, 0x1b, 0x5b, 0x44, 0x62, 0x0d].map bareKey) [1, 2, 3] with
    | some (.returned r buf _) => (r, buf)
    | _ => (0, [])) = (2, [0x62, 0x61, 0]) := by
  decide

end Ittrium.Shell
