import Ittrium.Shell.Drafts

/-!
# The rows of the history

`hist_push` and `hist_get` of `lineedit.c` on the bytes of the array `hist`. A line is a null pointer
or a string, and `hist_get` returns a null pointer or the address of a row.

* `HistRows` — the rows and the two counters
* `HistRows.Holds` — the rows are a ring of lines, each with its end mark
* `hist_exact` — **the lines got back are the last ones pushed, cut to the size of a row**
-/

namespace Ittrium.Shell

open Infra

/-- `hist`, `hist_count` and `hist_head`. -/
structure HistRows where
  hist : Fin shellHistMax → Str
  histCount : Int
  histHead : Int

namespace HistRows

variable {r r' : HistRows} {h : Hist} {line : Str} {lines : List (Option Str)} {back : Int}
  {i : Fin shellHistMax}

/-- Before the first line all variables are zero. -/
def zero : HistRows := ⟨fun _ => List.replicate shellLineMax 0, 0, 0⟩

/-- The row with an index, if there is one. -/
def rowOf (idx : Int) : Option (Fin shellHistMax) :=
  if h : 0 ≤ idx ∧ idx.toNat < shellHistMax then some ⟨idx.toNat, h.2⟩ else none

/-- `(int)strlen(line)`. -/
def intStrlen (line : Str) : Int := (line.length : Int).bmod (2 ^ 32)

/-- `none` where it would write outside of a row. -/
def histPush (line : Option Str) (r : HistRows) : Option HistRows :=
  match line with
  | none => some r
  | some line =>
    if line = [] then some r
    else
      let n := intStrlen line
      let n := if n ≥ shellLineMax then (shellLineMax : Int) - 1 else n
      -- as a `size_t` a negative length is far too large
      if n < 0 then none
      else do
        let i ← rowOf r.histHead
        let row ← memcpy 0 (line.take n.toNat) (r.hist i)
        let row ← memcpy n [0] row
        return {
          hist := Function.update r.hist i row
          histCount := if r.histCount < shellHistMax then r.histCount + 1 else r.histCount
          histHead := (r.histHead + 1) % shellHistMax }

/-- `none` where it would leave the array. -/
def histGet (back : Int) (r : HistRows) : Option (Option (Fin shellHistMax)) :=
  if back < 1 ∨ back > r.histCount then some none
  else
    let idx := r.histHead - back
    let idx := if idx < 0 then idx + shellHistMax else idx
    (rowOf idx).map some

/-- The string at a row. -/
def text (r : HistRows) (i : Fin shellHistMax) : Str := (r.hist i).takeWhile (· ≠ 0)

/-- All lines are pushed, the first one first. -/
def histPushes (lines : List (Option Str)) (r : HistRows) : Option HistRows :=
  lines.foldlM (fun r line => r.histPush line) r

/-! ## The rows as a ring of lines -/

/-- A string that fits a buffer whose size is an `int`, as the buffer of `lineedit_read` does. -/
def IsLine (line : Str) : Prop := 0 ∉ line ∧ line.length < 2 ^ 31

instance (line : Str) : Decidable (IsLine line) := inferInstanceAs (Decidable (_ ∧ _))

/-- Each row holds a line of the ring with its end mark. -/
structure Holds (r : HistRows) (h : Hist) : Prop where
  rows : ∀ i, Terminated (r.hist i) (h.slot i) 0
  size : ∀ i, (r.hist i).length = shellLineMax
  nul : ∀ i, 0 ∉ h.slot i
  count : r.histCount = h.count
  head : r.histHead = h.head

/-- The history before the first line. -/
def noLines : Hist := ⟨fun _ => [], 0, ⟨0, Nat.zero_lt_succ 15⟩, Nat.zero_le _⟩

theorem holds_zero : zero.Holds noLines where
  rows := fun _ => ⟨List.replicate (shellLineMax - 1) 0, rfl⟩
  size := fun _ => List.length_replicate
  nul := fun _ => List.not_mem_nil
  count := rfl
  head := rfl

theorem intStrlen_eq (h : IsLine line) : intStrlen line = line.length := by
  have := h.2
  unfold intStrlen
  exact Int.bmod_eq_of_le (by omega) (by omega)

theorem rowOf_coe (i : Fin shellHistMax) : rowOf i = some i := by
  have hi := i.isLt
  unfold rowOf
  rw [dif_pos (by omega)]
  rfl

theorem Holds.text_eq (hr : r.Holds h) (i : Fin shellHistMax) : r.text i = h.slot i := by
  unfold text
  rw [takeWhile_terminated (hr.rows i), List.takeWhile_eq_self_iff]
  exact fun c hc => decide_eq_true fun h0 => hr.nul i (h0 ▸ hc)

/-- **A line is pushed**: the row at the head is written, and no other one. -/
theorem Holds.histPush (hr : r.Holds h) (hl : IsLine line) :
    ∃ r', r.histPush (some line) = some r' ∧ r'.Holds (Shell.histPush line h) ∧
      ∀ i, i ≠ h.head → r'.hist i = r.hist i := by
  unfold HistRows.histPush Shell.histPush
  by_cases hne : line = []
  · refine ⟨r, ?_, ?_, fun _ _ => rfl⟩
    · simp only [if_pos hne]
    · rw [if_pos hne]
      exact hr
  · simp only [if_neg hne, intStrlen_eq hl]
    -- the length that is copied is that of the cut line
    have hn : (if (line.length : Int) ≥ shellLineMax then (shellLineMax : Int) - 1 else line.length) =
        (line.take (shellLineMax - 1)).length := by
      rw [List.length_take]
      unfold shellLineMax
      split <;> omega
    have htake : line.take (line.take (shellLineMax - 1)).length = line.take (shellLineMax - 1) := by
      rw [List.length_take, List.take_eq_take_iff]
      omega
    have hlen : (line.take (shellLineMax - 1)).length < (r.hist h.head).length := by
      rw [hr.size, List.length_take]
      unfold shellLineMax
      omega
    obtain ⟨row, row', hrow, hrow', hterm, hsize⟩ :=
      terminated_memcpy 0 (line.take (shellLineMax - 1)) (r.hist h.head) hlen
    have hrow₀ : memcpy 0 (line.take ((line.take (shellLineMax - 1)).length : Int).toNat)
        (r.hist h.head) = some row := by
      rw [Int.toNat_natCast, htake]
      exact hrow
    simp only [hn, hr.head, rowOf_coe, hrow₀, hrow', Option.bind_eq_bind, Option.bind_some,
      if_neg (Int.not_lt.mpr (Int.natCast_nonneg _))]
    refine ⟨_, rfl, ⟨fun i => ?_, fun i => ?_, fun i => ?_, ?_, ?_⟩, fun i hi => ?_⟩
    · by_cases hi : i = h.head
      · subst hi
        simp only [Recent.push, Function.update_self]
        exact hterm
      · simp only [Recent.push, Function.update_of_ne hi]
        exact hr.rows i
    · by_cases hi : i = h.head
      · subst hi
        simp only [Function.update_self]
        exact hsize.trans (hr.size _)
      · simp only [Function.update_of_ne hi]
        exact hr.size i
    · by_cases hi : i = h.head
      · subst hi
        simp only [Recent.push, Function.update_self]
        exact fun h0 => hl.1 (List.mem_of_mem_take h0)
      · simp only [Recent.push, Function.update_of_ne hi]
        exact hr.nul i
    · simp only [Recent.push, hr.count]
      split <;> split <;> omega
    · simp only [Recent.push]
      rfl
    · exact Function.update_of_ne hi _ _

/-- **The row of the `k + 1`-th last line.** -/
theorem Holds.histGet (hr : r.Holds h) {k : Nat} (hk : k < h.count) :
    r.histGet (k + 1 : Nat) = some (some (h.place k)) := by
  have hback : ¬ (((k + 1 : Nat) : Int) < 1 ∨ ((k + 1 : Nat) : Int) > r.histCount) := by
    rw [hr.count]
    omega
  unfold HistRows.histGet
  rw [if_neg hback]
  simp only [hr.head, h.index_eq hk, rowOf_coe, Option.map_some]

/-- Outside of the history there is no row. -/
theorem Holds.histGet_none (hr : r.Holds h) (hback : back < 1 ∨ h.count < back) :
    r.histGet back = some none := by
  unfold HistRows.histGet
  exact if_pos (by rw [hr.count]; exact hback)

/-! ## All lines -/

/-- The lines that are kept: not null pointers, and not empty. -/
def recorded (lines : List (Option Str)) : List Str := lines.filterMap id |>.filter (· ≠ [])

/-- The ring holds the last lines, cut to the size of a row. -/
structure Recalls (r : HistRows) (h : Hist) (lines : List Str) : Prop where
  holds : r.Holds h
  toList : h.toList = ((lines.reverse.map (·.take (shellLineMax - 1))).take shellHistMax)

theorem Recalls.push {line : Option Str} {past : List (Option Str)}
    (hr : r.Recalls h (recorded past)) (hl : ∀ l, line = some l → IsLine l) :
    ∃ r' h', r.histPush line = some r' ∧ r'.Recalls h' (recorded (past ++ [line])) ∧
      ∀ i, i ≠ h.head → r'.hist i = r.hist i := by
  cases line with
  | none =>
    refine ⟨r, h, rfl, ?_, fun _ _ => rfl⟩
    have hrec : recorded (past ++ [none]) = recorded past := by simp [recorded]
    rw [hrec]
    exact hr
  | some line =>
    obtain ⟨r', hpush, hholds, hframe⟩ := hr.holds.histPush (hl line rfl)
    refine ⟨r', _, hpush, ⟨hholds, ?_⟩, hframe⟩
    rw [toList_histPush, pushed]
    by_cases hne : line = []
    · have hrec : recorded (past ++ [some line]) = recorded past := by simp [recorded, hne]
      rw [if_pos hne, hrec, hr.toList]
    · have hrec : recorded (past ++ [some line]) = recorded past ++ [line] := by
        simp [recorded, hne]
      rw [if_neg hne, hrec, hr.toList, List.reverse_append, List.map_append]
      simp only [List.reverse_cons, List.reverse_nil, List.nil_append, List.map_cons, List.map_nil,
        List.singleton_append]
      rw [show shellHistMax = 15 + 1 from rfl, List.take_succ_cons, List.take_succ_cons,
        List.take_take]
      rfl

theorem recalls_pushes : ∀ (lines past : List (Option Str)) (r : HistRows) (h : Hist),
    r.Recalls h (recorded past) → (∀ l, some l ∈ lines → IsLine l) →
    ∃ r' h', r.histPushes lines = some r' ∧ r'.Recalls h' (recorded (past ++ lines)) := by
  intro lines
  induction lines with
  | nil => exact fun past r h hr _ => ⟨r, h, rfl, by rwa [List.append_nil]⟩
  | cons line lines ih =>
    intro past r h hr hl
    obtain ⟨r₁, h₁, hpush, hr₁, -⟩ := hr.push fun l (he : line = some l) =>
      hl l (by simp [he])
    obtain ⟨r', h', hpushes, hr'⟩ := ih (past ++ [line]) r₁ h₁ hr₁ fun l he =>
      hl l (List.mem_cons_of_mem _ he)
    refine ⟨r', h', ?_, ?_⟩
    · unfold histPushes
      rw [List.foldlM_cons, hpush]
      exact hpushes
    · rwa [List.append_assoc] at hr'

/-- The `back`-th last line that has been kept. -/
def lastLine (lines : List (Option Str)) (back : Int) : Option Str :=
  if 1 ≤ back ∧ back ≤ min ((recorded lines).length : Int) shellHistMax then
    ((recorded lines).reverse[(back - 1).toNat]?).map (·.take (shellLineMax - 1))
  else none

/-- **After any lines `hist_get` returns the last ones and nothing else**, and the next line is not
written over any but the oldest one of them. -/
theorem hist_exact (lines : List (Option Str)) (hl : ∀ l, some l ∈ lines → IsLine l) :
    ∃ r, zero.histPushes lines = some r ∧
      (∀ back, ∃ p, r.histGet back = some p ∧ p.map r.text = lastLine lines back) ∧
      ∀ line, (∀ l, line = some l → IsLine l) → ∃ r', r.histPush line = some r' ∧
        ∀ back i, back ≤ (shellHistMax : Int) - 1 → r.histGet back = some (some i) →
          r'.hist i = r.hist i := by
  obtain ⟨r, h, hpushes, hr⟩ := recalls_pushes lines [] zero noLines ⟨holds_zero, rfl⟩ hl
  rw [List.nil_append] at hr
  have hcount : h.count = min (recorded lines).length shellHistMax := by
    rw [← h.length_toList, hr.toList]
    simp [Nat.min_comm]
  refine ⟨r, hpushes, fun back => ?_, fun line hline => ?_⟩
  · unfold lastLine
    by_cases hback : 1 ≤ back ∧ back ≤ min ((recorded lines).length : Int) shellHistMax
    · obtain ⟨k, rfl⟩ : ∃ k : Nat, back = (k + 1 : Nat) := ⟨(back - 1).toNat, by omega⟩
      have hk : k < h.count := by omega
      have hidx : (((k + 1 : Nat) : Int) - 1).toNat = k := by omega
      refine ⟨_, hr.holds.histGet hk, ?_⟩
      rw [if_pos hback, hidx, Option.map_some, hr.holds.text_eq, ← Recent.getElem?_toList hk,
        hr.toList, List.getElem?_take_of_lt (by omega), List.getElem?_map]
    · refine ⟨none, hr.holds.histGet_none (by omega), ?_⟩
      rw [if_neg hback, Option.map_none]
  · obtain ⟨r', h', hpush, -, hframe⟩ := hr.push hline
    refine ⟨r', hpush, fun back i hback hget => hframe i ?_⟩
    by_cases hin : back < 1 ∨ h.count < back
    · rw [hr.holds.histGet_none hin] at hget
      cases hget
    · obtain ⟨k, rfl⟩ : ∃ k : Nat, back = (k + 1 : Nat) := ⟨(back - 1).toNat, by omega⟩
      rw [hr.holds.histGet (by omega)] at hget
      obtain rfl : h.place k = i := Option.some.inj (Option.some.inj hget)
      exact h.place_ne_head (by omega)

/-- A null pointer and an empty line are not kept. -/
theorem hist_exact_two : ∃ r, zero.histPushes [some [97], none, some [98], some []] = some r ∧
    ∃ p, r.histGet 2 = some p ∧ p.map r.text = some [97] := by
  obtain ⟨r, hr, hget, -⟩ := hist_exact [some [97], none, some [98], some []] fun l hl => by
    simp only [List.mem_cons, Option.some.injEq, reduceCtorEq, List.not_mem_nil, or_false,
      false_or] at hl
    rcases hl with rfl | rfl | rfl <;> decide
  exact ⟨r, hr, hget 2⟩

end HistRows

end Ittrium.Shell
