import Mathlib.Tactic.Basic
import Mathlib.Data.List.Basic

/-!
# A terminal

A character cell terminal with the few controls that line editors use: carriage return, line feed,
and the sequences `ESC [ K`, `ESC [ C` and `ESC [ D`. A row is as long as it has to be, so nothing
wraps around.

* `Terminal.print` — what the terminal does with a text
* `print_text`, `print_erase`, `print_left` — the cells and the cursor
* `print_redraw` — **writing a row again from the first column on**
-/

namespace Ittrium.Infra

/-- How much of a control sequence has come. -/
inductive Sequence where
  | none
  | escape
  | bracket
  deriving DecidableEq

structure Terminal where
  /-- The rows above the one with the cursor, the first one first. -/
  above : List (List UInt8)
  row : List UInt8
  col : Nat
  seq : Sequence
  deriving DecidableEq

/-- A character that fills a cell. -/
def IsCell (c : UInt8) : Prop := 0x20 ≤ c ∧ c ≤ 0x7e

instance (c : UInt8) : Decidable (IsCell c) := inferInstanceAs (Decidable (_ ∧ _))

/-- A text that fills cells. -/
def Cells (s : List UInt8) : Prop := ∀ c ∈ s, IsCell c

instance (s : List UInt8) : Decidable (Cells s) := List.decidableBAll IsCell s

theorem Cells.mono {s s' : List UInt8} (h : Cells s) (hsub : s' ⊆ s) : Cells s' :=
  fun c hc => h c (hsub hc)

theorem Cells.append {s s' : List UInt8} (h : Cells s) (h' : Cells s') : Cells (s ++ s') := by
  intro c hc
  rcases List.mem_append.mp hc with hc | hc
  · exact h c hc
  · exact h' c hc

theorem Cells.take {s : List UInt8} (h : Cells s) (n : Nat) : Cells (s.take n) :=
  h.mono (List.take_subset n s)

theorem Cells.drop {s : List UInt8} (h : Cells s) (n : Nat) : Cells (s.drop n) :=
  h.mono (List.drop_subset n s)

namespace Terminal

/-- Cells that have not been written are blank. -/
def put (c : UInt8) (t : Terminal) : Terminal :=
  { t with
    row := (t.row ++ List.replicate (t.col - t.row.length) 0x20).take t.col ++
      c :: t.row.drop (t.col + 1)
    col := t.col + 1 }

/-- A character outside of a control sequence. -/
def plain (t : Terminal) (c : UInt8) : Terminal :=
  if c = 0x0d then { t with col := 0 }
  else if c = 0x0a then { t with above := t.above ++ [t.row], row := [] }
  else if c = 0x1b then { t with seq := .escape }
  else if IsCell c then t.put c
  else t

/-- The last character of a control sequence. -/
def control (t : Terminal) (c : UInt8) : Terminal :=
  if c = 0x4b then { t with row := t.row.take t.col, seq := .none }
  else if c = 0x43 then { t with col := t.col + 1, seq := .none }
  else if c = 0x44 then { t with col := t.col - 1, seq := .none }
  else { t with seq := .none }

def receive (t : Terminal) (c : UInt8) : Terminal :=
  match t.seq with
  | .none => t.plain c
  | .escape => { t with seq := if c = 0x5b then .bracket else .none }
  | .bracket => t.control c

/-- The characters come one after the other. -/
def print (s : List UInt8) (t : Terminal) : Terminal := s.foldl receive t

variable {s : List UInt8} {t : Terminal}

@[simp] theorem print_nil (t : Terminal) : t.print [] = t := rfl

theorem print_cons (c : UInt8) (s : List UInt8) (t : Terminal) :
    t.print (c :: s) = (t.receive c).print s := rfl

theorem print_append (s s' : List UInt8) (t : Terminal) :
    t.print (s ++ s') = (t.print s).print s' := List.foldl_append

/-! ## Controls -/

/-- `\r`. -/
def cr : List UInt8 := [0x0d]

/-- `\r\n`. -/
def crlf : List UInt8 := [0x0d, 0x0a]

/-- `\033[K`. -/
def erase : List UInt8 := [0x1b, 0x5b, 0x4b]

/-- `\033[C`. -/
def right : List UInt8 := [0x1b, 0x5b, 0x43]

/-- `\033[D`. -/
def left : List UInt8 := [0x1b, 0x5b, 0x44]

theorem print_cr (h : t.seq = .none) : t.print cr = { t with col := 0 } := by
  simp [cr, print_cons, receive, h, plain]

theorem print_crlf (h : t.seq = .none) :
    t.print crlf = ⟨t.above ++ [t.row], [], 0, .none⟩ := by
  simp [crlf, print_cons, receive, h, plain]

/-- A sequence with the last character `c`. -/
theorem print_sequence (h : t.seq = .none) (c : UInt8) :
    t.print [0x1b, 0x5b, c] = { t with seq := .bracket }.control c := by
  simp [print_cons, receive, h, plain]

theorem print_erase (h : t.seq = .none) :
    t.print erase = { t with row := t.row.take t.col } := by
  rw [erase, print_sequence h]
  simp [control, h]

theorem print_right (h : t.seq = .none) : t.print right = { t with col := t.col + 1 } := by
  rw [right, print_sequence h]
  simp [control, h]

theorem print_left (h : t.seq = .none) : t.print left = { t with col := t.col - 1 } := by
  rw [left, print_sequence h]
  simp [control, h]

/-- The cursor goes `n` columns to the left. -/
theorem print_lefts (h : t.seq = .none) (n : Nat) :
    t.print (List.replicate n left).flatten = { t with col := t.col - n } := by
  induction n generalizing t with
  | zero => rfl
  | succ n ih =>
    have hstep := print_left h
    rw [List.replicate_succ, List.flatten_cons, print_append, hstep, ih (by exact h)]
    congr 1
    exact (Nat.sub_sub ..).trans (congrArg (t.col - ·) (Nat.add_comm 1 n))

/-! ## Texts -/

theorem receive_cell {c : UInt8} (h : t.seq = .none) (hc : IsCell c) (hcol : t.col ≤ t.row.length) :
    t.receive c = { t with row := t.row.take t.col ++ c :: t.row.drop (t.col + 1), col := t.col + 1 } := by
  have hne : c ≠ 0x0d ∧ c ≠ 0x0a ∧ c ≠ 0x1b := by
    refine ⟨?_, ?_, ?_⟩ <;> rintro rfl <;> exact absurd hc.1 (by decide)
  unfold receive plain
  rw [h]
  dsimp only
  rw [if_neg hne.1, if_neg hne.2.1, if_neg hne.2.2, if_pos hc, put,
    Nat.sub_eq_zero_of_le hcol, List.replicate_zero, List.append_nil, h]

/-- **A text is written over the cells from the cursor on.** -/
theorem print_text (h : t.seq = .none) (hs : Cells s) (hcol : t.col ≤ t.row.length) :
    t.print s = { t with
      row := t.row.take t.col ++ s ++ t.row.drop (t.col + s.length), col := t.col + s.length } := by
  induction s generalizing t with
  | nil =>
    rw [print_nil, List.append_nil, List.length_nil, Nat.add_zero, List.take_append_drop]
  | cons c s ih =>
    have hlen : (t.row.take t.col ++ [c]).length = t.col + 1 := by
      rw [List.length_append, List.length_take, List.length_singleton]
      omega
    have hrow : t.row.take t.col ++ c :: t.row.drop (t.col + 1) =
        (t.row.take t.col ++ [c]) ++ t.row.drop (t.col + 1) := by
      rw [List.append_assoc]
      rfl
    rw [print_cons, receive_cell h (hs c List.mem_cons_self) hcol, hrow,
      ih (by exact h) (fun d hd => hs d (List.mem_cons_of_mem c hd)) ?_]
    · congr 1
      · dsimp only
        rw [List.take_left' hlen, List.drop_append, List.drop_of_length_le (by omega), hlen,
          Nat.add_sub_cancel_left, List.nil_append, List.drop_drop, List.length_cons,
          show t.col + 1 + s.length = t.col + (s.length + 1) by omega]
        simp only [List.append_assoc, List.cons_append, List.nil_append]
      · dsimp only
        rw [List.length_cons]
        omega
    · dsimp only
      rw [List.length_append, hlen]
      omega

/-- **A row is written again from the first column on**, and the cursor is put `n` columns before its
end. -/
theorem print_redraw (h : t.seq = .none) (hs : Cells s) (n : Nat) :
    t.print (cr ++ s ++ erase ++ (List.replicate n left).flatten) =
      ⟨t.above, s, s.length - n, .none⟩ := by
  rw [print_append, print_append, print_append, print_cr h,
    print_text (by exact h) hs (Nat.zero_le _), print_erase (by exact h), print_lefts (by exact h)]
  congr 1
  · dsimp only
    rw [List.take_zero, List.nil_append, Nat.zero_add, List.take_left]
  · dsimp only
    rw [Nat.zero_add]

end Terminal

end Ittrium.Infra
