import Mathlib.Algebra.Order.BigOperators.Group.List
import Mathlib.Algebra.Ring.Int.Defs
import Mathlib.Data.List.Pairwise
import Ittrium.Infra.Run
import Ittrium.Kernel.BlkMem

/-!
# The blocks of `get_blk_mem`

The free pointer goes on behind each block and goes back by its size when it is freed. Only two
bytes are left for the size, which is an `INT`, and nothing stops the pointer at the end of
`blk_mem`.

* `ArenaRun` — calls in any order, and what the owners write in between
* `ArenaOk` — what must be true of the blocks
* `Clear` — a block is taken where it fits, with a size of two bytes, above all live blocks
* `arena_ok` — **while blocks are only taken so, the blocks are as they must be**
-/

namespace Ittrium.BlkMem

open Infra

/-- A block: its address, and its size. -/
abbrev MemBlock := Int × Int

/-- The memory, and the blocks that have not been freed, the latest first. -/
structure Arena where
  blk : BlkMem
  live : List MemBlock

inductive BlkCall where
  | get (size : Int)
  | free (p : Int)
  /-- An owner writes a byte. -/
  | write (a : Int) (b : UInt8)

variable {w : Nat} {size n p : Int} {s s' : Arena} {c : BlkCall} {b b' : MemBlock}

namespace MemBlock

/-- The bytes of the size of the block. -/
def Header (w : Nat) (b : MemBlock) (a : Int) : Prop := b.1 - 2 ≤ a ∧ a < b.1 - 2 + w

def Bytes (b : MemBlock) (a : Int) : Prop := b.1 ≤ a ∧ a < b.1 + b.2

def Covers (w : Nat) (b : MemBlock) (a : Int) : Prop := b.Header w a ∨ b.Bytes a

/-- The block is inside `blk_mem` and apart from the blocks `l`, with its header. -/
structure Lies (w : Nat) (size : Int) (l : List MemBlock) (b : MemBlock) : Prop where
  inside : ∀ a, b.Covers w a → 0 ≤ a ∧ a < size
  header : ∀ a, b.Header w a → ¬ b.Bytes a
  apart : ∀ b' ∈ l, ∀ a, b.Covers w a → ¬ b'.Covers w a

end MemBlock

/-- What may be called: sizes are `INT`s, only a live block is freed, and only its owner writes to
it. -/
def Allowed (w : Nat) (s : Arena) : BlkCall → Prop
  | .get n => -(256 ^ w : Int) ≤ 2 * n ∧ 2 * n < 256 ^ w
  | .free p => ∃ b ∈ s.live, b.1 = p
  | .write a _ => ∃ b ∈ s.live, b.Bytes a

def arenaCall (w : Nat) (s : Arena) : BlkCall → Arena × Option Int
  | .get n =>
    let r := getBlkMem w n s.blk
    (⟨r.2, match r.1 with
      | some p => (p, n) :: s.live
      | none => s.live⟩, r.1)
  | .free p => (⟨freeBlkMem w p s.blk, s.live.eraseP fun b => b.1 = p⟩, none)
  | .write a b => (⟨{ s.blk with mem := Function.update s.blk.mem a b }, s.live⟩, none)

abbrev BlkEvent := Event Arena (BlkCall × Option Int)

/-- The calls since `task_initialize`. -/
abbrev ArenaRun (w : Nat) (tr : List BlkEvent) (s : Arena) : Prop :=
  Run (fun s => ∃ mem, s = ⟨BlkMem.start mem, []⟩)
    (fun s l s' => Allowed w s l.1 ∧ arenaCall w s l.1 = (s', l.2)) tr s

/-- What must be true of the blocks. -/
structure ArenaOk (w : Nat) (size : Int) (tr : List BlkEvent) (s : Arena) : Prop where
  inside : ∀ b ∈ s.live, ∀ a, b.Covers w a → 0 ≤ a ∧ a < size
  header : ∀ b ∈ s.live, ∀ a, b.Header w a → ¬ b.Bytes a
  disjoint : s.live.Pairwise fun b b' => ∀ a, b.Covers w a → ¬ b'.Covers w a
  /-- What fits nowhere was refused, also to `cre_tsk`. -/
  refused : ∀ e ∈ tr, ∀ n, e.label.1 = .get n →
    (¬ ∃ p, MemBlock.Lies w size e.pre.live (p, n)) → e.label.2 = none ∧ e.post = e.pre ∧
      creTskStack w none n e.pre.blk = (.error .nomem, e.pre.blk)
  available : s.live = [] → s.blk.pfree = some 0

/-- A block is taken only where it fits: the size takes two bytes, the free pointer is behind all
live blocks, and the block ends inside `blk_mem`. -/
def Clear (w : Nat) (size : Int) (s : Arena) : BlkCall → Prop
  | .get n => w ≤ 2 ∧ 0 ≤ n ∧ 2 * (n + 2) < 256 ^ w ∧
      ∃ p, s.blk.pfree = some p ∧ p + 2 + n ≤ size ∧ ∀ b ∈ s.live, b.1 + b.2 ≤ p
  | _ => True

/-! ## The invariant -/

/-- One of two blocks ends before the other begins. -/
def Apart (b b' : MemBlock) : Prop := b.1 + b.2 ≤ b'.1 - 2 ∨ b'.1 + b'.2 ≤ b.1 - 2

instance apart_symm : Std.Symm Apart := ⟨fun _ _ h => h.symm⟩

/-- A live block, and the size stored before it. -/
structure Stored (w : Nat) (size : Int) (mem : Int → UInt8) (b : MemBlock) : Prop where
  width : w ≤ 2
  start : 2 ≤ b.1
  pos : 0 ≤ b.2
  stop : b.1 + b.2 ≤ size
  range : 2 * (b.2 + 2) < 256 ^ w
  size : readINT w (b.1 - 2) mem = b.2

/-- The free pointer counts the bytes of the live blocks. -/
structure ArenaInv (w : Nat) (size : Int) (s : Arena) : Prop where
  pfree : s.blk.pfree = some (s.live.map fun b => b.2 + 2).sum
  stored : ∀ b ∈ s.live, Stored w size s.blk.mem b
  apart : s.live.Pairwise Apart

theorem Stored.toINT (h : Stored w size s.blk.mem b) : toINT w (b.2 + 2) = b.2 + 2 := by
  have hpos : (0 : Int) < 256 ^ w := Int.pow_pos (by decide)
  have := h.pos
  have := h.range
  exact toINT_of_range ⟨by omega, by omega⟩

theorem ArenaInv.get (h : ArenaInv w size s) (hc : Clear w size s (.get n)) :
    ArenaInv w size (arenaCall w s (.get n)).1 := by
  obtain ⟨hw, hn, hrange, p, hp, hfit, hlive⟩ := hc
  have hpos : (0 : Int) < 256 ^ w := Int.pow_pos (by decide)
  have hsum : p = (s.live.map fun b => b.2 + 2).sum := Option.some.inj (hp.symm.trans h.pfree)
  have hp0 : 0 ≤ p := by
    rw [hsum]
    refine List.sum_nonneg fun x hx => ?_
    obtain ⟨b, hb, rfl⟩ := List.mem_map.mp hx
    have := (h.stored b hb).pos
    omega
  have hget : arenaCall w s (.get n) =
      (⟨⟨putINT w p n s.blk.mem, some (p + (n + 2))⟩, (p + 2, n) :: s.live⟩, some (p + 2)) := by
    simp only [arenaCall, getBlkMem, hp]
    rw [toINT_of_range ⟨by omega, by omega⟩]
  rw [hget]
  refine ⟨?_, fun b hb => ?_, List.pairwise_cons.mpr ⟨fun b hb => ?_, h.apart⟩⟩
  · rw [List.map_cons, List.sum_cons, hsum, Int.add_comm]
  · rcases List.mem_cons.mp hb with rfl | hb
    · refine ⟨hw, by simp only; omega, hn, by simp only; omega, hrange, ?_⟩
      rw [show p + 2 - 2 = p by omega]
      exact readINT_putINT ⟨by omega, by omega⟩
    · have hs := h.stored b hb
      refine { hs with size := ?_ }
      -- the new size is stored behind the block
      rw [← hs.size]
      refine readINT_congr fun a ha ha' => putINT_of_out (Or.inl ?_)
      have := hlive b hb
      have := hs.pos
      omega
  · right
    have := hlive b hb
    simp only
    omega

theorem ArenaInv.free (h : ArenaInv w size s) (ha : Allowed w s (.free p)) :
    ArenaInv w size (arenaCall w s (.free p)).1 := by
  obtain ⟨b₀, hb₀, hbp⟩ := ha
  obtain ⟨b, l₁, l₂, -, hb, hl, herase⟩ :=
    List.exists_of_eraseP (p := fun b : MemBlock => decide (b.1 = p)) hb₀ (by simpa using hbp)
  obtain rfl : b.1 = p := by simpa using hb
  have hmem : b ∈ s.live := by rw [hl]; simp
  have hs := h.stored b hmem
  have hlive : (arenaCall w s (.free b.1)).1.live = l₁ ++ l₂ := herase
  have hsub : (l₁ ++ l₂).Sublist s.live := by
    rw [hl]
    exact List.Sublist.append (List.Sublist.refl _) (List.sublist_cons_self _ _)
  refine ⟨?_, fun b' hb' => ?_, ?_⟩
  · rw [hlive]
    simp only [arenaCall, freeBlkMem, hs.size, hs.toINT, h.pfree, Option.map_some, hl]
    simp only [List.map_append, List.map_cons, List.sum_append, List.sum_cons]
    congr 1
    omega
  · rw [hlive] at hb'
    exact h.stored b' (hsub.subset hb')
  · rw [hlive]
    exact h.apart.sublist hsub

theorem ArenaInv.write {a : Int} {v : UInt8} (h : ArenaInv w size s)
    (ha : Allowed w s (.write a v)) : ArenaInv w size (arenaCall w s (.write a v)).1 := by
  obtain ⟨b, hb, hlow, hhigh⟩ := ha
  refine ⟨h.pfree, fun b' hb' => ?_, h.apart⟩
  have hs := h.stored b' hb'
  refine { hs with size := ?_ }
  -- no size is stored where the owner writes
  rw [← hs.size]
  refine readINT_congr fun a' ha₁ ha₂ => Function.update_of_ne ?_ _ _
  have hw := hs.width
  have hpos := hs.pos
  by_cases hbb : b' = b
  · subst hbb
    omega
  · rcases h.apart.forall hb' hb hbb with hlt | hlt <;> omega

theorem ArenaInv.step (h : ArenaInv w size s) (ha : Allowed w s c) (hc : Clear w size s c) :
    ArenaInv w size (arenaCall w s c).1 := by
  cases c with
  | get n => exact h.get hc
  | free p => exact h.free ha
  | write a v => exact h.write ha

/-! ## The blocks -/

variable {tr : List BlkEvent}

/-- A block and its header take no more than the bytes it is counted for. -/
theorem Stored.covers {mem : Int → UInt8} (h : Stored w size mem b) {a : Int}
    (ha : b.Covers w a) : b.1 - 2 ≤ a ∧ a < b.1 + b.2 := by
  have hw := h.width
  have hpos := h.pos
  rcases ha with ⟨hlow, hhigh⟩ | ⟨hlow, hhigh⟩ <;> omega

theorem Apart.covers {mem mem' : Int → UInt8} (h : Apart b b') (hb : Stored w size mem b)
    (hb' : Stored w size mem' b') (a : Int) (ha : b.Covers w a) : ¬ b'.Covers w a := by
  intro ha'
  obtain ⟨h₁, h₂⟩ := hb.covers ha
  obtain ⟨h₃, h₄⟩ := hb'.covers ha'
  rcases h with h | h <;> omega

/-- What is taken fits. -/
theorem ArenaInv.lies (h : ArenaInv w size s) (hc : Clear w size s (.get n)) :
    ∃ p, MemBlock.Lies w size s.live (p, n) := by
  have hnext := h.get hc
  obtain ⟨-, -, -, p, hp, -, -⟩ := hc
  have hlive : (arenaCall w s (.get n)).1.live = (p + 2, n) :: s.live := by
    simp only [arenaCall, getBlkMem, hp]
  have hnew := hnext.stored (p + 2, n) (by rw [hlive]; simp)
  have hap := hnext.apart
  rw [hlive] at hap
  refine ⟨p + 2, fun a ha => ?_, fun a ha ha' => ?_, fun b hb a ha => ?_⟩
  · have hcov := hnew.covers ha
    have := hnew.start
    have := hnew.stop
    omega
  · have hw := hnew.width
    obtain ⟨-, hhigh⟩ := ha
    obtain ⟨hlow, -⟩ := ha'
    omega
  · exact (List.rel_of_pairwise_cons hap hb).covers hnew (h.stored b hb) a ha

theorem ArenaInv.ok (h : ArenaInv w size s)
    (hr : ∀ e ∈ tr, ∀ n, e.label.1 = .get n →
      ∃ p, MemBlock.Lies w size e.pre.live (p, n)) : ArenaOk w size tr s := by
  refine ⟨fun b hb a ha => ?_, fun b hb a ha ha' => ?_, ?_, fun e he n hn hfit => ?_, fun hl => ?_⟩
  · have hs := h.stored b hb
    have hcov := hs.covers ha
    have := hs.start
    have := hs.stop
    omega
  · have hw := (h.stored b hb).width
    obtain ⟨-, hhigh⟩ := ha
    obtain ⟨hlow, -⟩ := ha'
    omega
  · exact h.apart.imp_of_mem fun hb hb' hap => hap.covers (h.stored _ hb) (h.stored _ hb')
  · exact absurd (hr e he n hn) hfit
  · rw [h.pfree, hl]
    rfl

/-- **While blocks are only taken where they fit, the blocks are as they must be**, in whatever
order they are freed and whatever their owners write. -/
theorem arena_ok (h : ArenaRun w tr s)
    (hc : Run.Along (fun _ e => Clear w size e.pre e.label.1) tr) : ArenaOk w size tr s := by
  suffices hinv : ArenaInv w size s ∧ ∀ e ∈ tr, ∀ n, e.label.1 = .get n →
      ∃ p, MemBlock.Lies w size e.pre.live (p, n) from hinv.1.ok hinv.2
  induction h with
  | start h =>
    obtain ⟨mem, rfl⟩ := h
    exact ⟨⟨rfl, by simp, List.Pairwise.nil⟩, by simp⟩
  | @step tr s s' l _ hs ih =>
    obtain ⟨hnow, hpast⟩ := hc
    obtain ⟨hinv, hfit⟩ := ih hpast
    obtain ⟨c, r⟩ := l
    obtain ⟨ha, hcall⟩ := hs
    have hs' : s' = (arenaCall w s c).1 := by rw [hcall]
    refine ⟨hs' ▸ hinv.step ha hnow, fun e he n hn => ?_⟩
    rcases List.mem_cons.mp he with rfl | he
    · obtain rfl : c = .get n := hn
      exact hinv.lies hnow
    · exact hfit e he n hn

/-- Nothing has been taken of a memory of zeros. -/
def emptyArena : Arena := ⟨BlkMem.start fun _ => 0, []⟩

theorem ArenaRun.call (h : ArenaRun w tr s) (c : BlkCall) (ha : Allowed w s c) :
    ArenaRun w (⟨s, (c, (arenaCall w s c).2), (arenaCall w s c).1⟩ :: tr) (arenaCall w s c).1 :=
  h.step ⟨ha, rfl⟩

theorem arenaRun_empty : ArenaRun w [] emptyArena := .start ⟨_, rfl⟩

instance (w : Nat) (s : Arena) (c : BlkCall) : Decidable (Allowed w s c) :=
  BlkCall.casesOn (motive := fun c => Decidable (Allowed w s c)) c
    (fun _ => inferInstanceAs (Decidable (_ ∧ _)))
    (fun p => inferInstanceAs (Decidable (∃ b ∈ s.live, b.1 = p)))
    (fun a _ => inferInstanceAs (Decidable (∃ b ∈ s.live, b.1 ≤ a ∧ a < b.1 + b.2)))

instance (w : Nat) (size : Int) (s : Arena) (c : BlkCall) : Decidable (Clear w size s c) :=
  BlkCall.casesOn (motive := fun c => Decidable (Clear w size s c)) c
    (fun n => inferInstanceAs (Decidable (w ≤ 2 ∧ 0 ≤ n ∧ 2 * (n + 2) < 256 ^ w ∧
      ∃ p, s.blk.pfree = some p ∧ p + 2 + n ≤ size ∧ ∀ b ∈ s.live, b.1 + b.2 ≤ p)))
    (fun _ => inferInstanceAs (Decidable True))
    (fun _ _ => inferInstanceAs (Decidable True))

/-- Two blocks are taken, written to from end to end, and freed, the first one first; the third one is
where that was. -/
def turnOver : List BlkCall :=
  [.get 8, .get 4, .write 2 1, .write 9 2, .write 12 3, .write 15 4, .free 2, .free 12, .get 10,
    .write 11 5]

/-- With an `INT` of two bytes blocks are freed in another order and taken again. -/
theorem arena_ok_one : ∃ (tr : List BlkEvent) (s : Arena),
    ArenaRun 2 tr s ∧ s.live = [(2, 10)] ∧ s.blk.mem 11 = 5 ∧ ArenaOk 2 64 tr s := by
  obtain ⟨tr, s, h, hlive, hmem, hclear⟩ := exists_perform (f := fun s c => some (arenaCall 2 s c))
    (C := Allowed 2) (Eq.refl emptyArena) turnOver
    (fun tr s => s.live = [(2, 10)] ∧ s.blk.mem 11 = 5 ∧
      Run.Along (fun _ e => Clear 2 64 e.pre e.label.1) tr) (by decide +kernel)
  have hrun : ArenaRun 2 tr s :=
    h.mono (fun _ hs => ⟨_, hs.symm⟩) fun _ _ _ hs => ⟨hs.1, Option.some.inj hs.2⟩
  exact ⟨tr, s, hrun, hlive, hmem, arena_ok hrun hclear⟩

/-- With an `INT` of four bytes the owner of a block of 8 bytes writes over the upper half of its
size. When it is freed the free pointer leaves `blk_mem`, and the next block is outside. -/
theorem arena_overwritten : ∃ tr s, ArenaRun 4 tr s ∧ s.live = [(-16711678, 8)] ∧
    ¬ ArenaOk 4 64 tr s := by
  have h₁ := arenaRun_empty.call (w := 4) (.get 8) ⟨by decide, by decide⟩
  have h₂ := h₁.call (.write 2 0xff) ⟨(2, 8), by decide +kernel, by decide, by decide⟩
  have h₃ := h₂.call (.free 2) ⟨(2, 8), by decide +kernel, rfl⟩
  have h₄ := h₃.call (.get 8) ⟨by decide, by decide⟩
  have hlive : (arenaCall 4 (arenaCall 4 (arenaCall 4 (arenaCall 4 emptyArena (.get 8)).1
      (.write 2 0xff)).1 (.free 2)).1 (.get 8)).1.live = [(-16711678, 8)] := by decide +kernel
  refine ⟨_, _, h₄, hlive, fun h => ?_⟩
  have hin := h.inside (-16711678, 8) (by rw [hlive]; simp) (-16711678)
    (Or.inr ⟨by decide, by decide⟩)
  exact absurd hin.1 (by decide)

end Ittrium.BlkMem
