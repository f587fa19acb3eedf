import Ittrium.Infra.Run
import Ittrium.Properties.Runs
import Ittrium.Refine.Lines

/-!
# The ready queue by itself

`rdyq.h` without the rest of the kernel: any sequence of its operations, on tasks whose priority
changes only while they are not queued.

* `RdyOp` — the operations; `RdyOp.lines` is what they are to do to the lines
* `Queued` — the rings, the bitmap and `top_priority` are those of the lines
* `Implements` — what that means for a caller
* `rdyq_refines` — **the ready queue is a map from priorities to lists of tasks**
-/

namespace Ittrium

open Infra Spec Refine

variable {cfg : Config}

/-! ## Operations -/

/-- The tasks queued at each priority. -/
abbrev RdyLines (cfg : Config) := Int → List (TskIx cfg)

inductive RdyOp (cfg : Config) where
  | init
  | insert (t : TskIx cfg)
  | insertFront (t : TskIx cfg)
  | remove (t : TskIx cfg)
  | rotate (p : Int)
  /-- The priority of a task that is not queued becomes `p`. -/
  | setPri (t : TskIx cfg) (p : Int)
  deriving DecidableEq

/-- The ready queue, and the lines it stands for. -/
structure RdyState (cfg : Config) where
  kernel : Kernel cfg
  lines : RdyLines cfg

namespace RdyOp

/-- The operation, and what it returns: `TRUE` or `FALSE` for `rdyq_insert`. -/
def exec : RdyOp cfg → Kernel cfg → Kernel cfg × Bool
  | .init, s => (rdyqInit s, false)
  | .insert t, s => ((rdyqInsert t s).2, (rdyqInsert t s).1)
  | .insertFront t, s => (rdyqInsertFront t s, false)
  | .remove t, s => (rdyqRemove t s, false)
  | .rotate p, s => (rdyqRotate p s, false)
  | .setPri t p, s => (s.setTcb t fun tcb => { tcb with tskpri := p }, false)

/-- What becomes of the lines, when tasks have the priorities `pri`. -/
def lines (pri : TskIx cfg → Int) (q : RdyLines cfg) : RdyOp cfg → RdyLines cfg
  | .init => fun _ => []
  | .insert t => Function.update q (pri t) (q (pri t) ++ [t])
  | .insertFront t => Function.update q (pri t) (t :: q (pri t))
  | .remove t => Function.update q (pri t) ((q (pri t)).erase t)
  | .rotate p => Function.update q p ((q p).rotate 1)
  | .setPri _ _ => q

end RdyOp

namespace RdyState

variable (n : RdyState cfg)

/-- Priority of a task. -/
def pri (t : TskIx cfg) : Int := (n.kernel.core.tcb t).tskpri

def step (op : RdyOp cfg) : RdyState cfg × Bool :=
  let (s, r) := op.exec n.kernel
  (⟨s, op.lines n.pri n.lines⟩, r)

/-- `t` is in a line. -/
def InLine (t : TskIx cfg) : Prop := ∃ p < cfg.tmaxTpri, t ∈ n.lines p

/-- When an operation may be called. -/
def Permits : RdyOp cfg → Prop
  | .init => True
  | .insert t | .insertFront t => ¬ n.InLine t ∧ 0 ≤ n.pri t ∧ n.pri t < cfg.tmaxTpri
  | .remove t => n.InLine t
  | .rotate p => 0 ≤ p ∧ p < cfg.tmaxTpri
  | .setPri t _ => ¬ n.InLine t

instance (t : TskIx cfg) : Decidable (n.InLine t) := inferInstanceAs (Decidable (∃ _ < _, _))

instance : ∀ op, Decidable (n.Permits op)
  | .init => .isTrue trivial
  | .insert _ | .insertFront _ => inferInstanceAs (Decidable (_ ∧ _ ∧ _))
  | .remove _ => inferInstanceAs (Decidable (RdyState.InLine _ _))
  | .rotate _ => inferInstanceAs (Decidable (_ ∧ _))
  | .setPri _ _ => inferInstanceAs (Decidable (¬ _))

end RdyState

/-- After `rdyq_init`, whatever the memory held before. -/
def RdyStart (n : RdyState cfg) : Prop := ∃ s, n = ⟨rdyqInit s, fun _ => []⟩

/-- Any sequence of operations. -/
abbrev RdyRun : List (Event (RdyState cfg) (RdyOp cfg × Bool)) → RdyState cfg → Prop :=
  Run RdyStart fun n l n' => n.Permits l.1 ∧ some (n.step l.1) = some (n', l.2)

/-! ## The invariant -/

/-- The members of the ring of a node. -/
def rdyElems (q : RdyLines cfg) : Node cfg → List (Node cfg)
  | .priq p => (q p).map .qnode
  | _ => []

/-- The heads of the lines. -/
def RdyHead (r : Node cfg) : Prop := ∃ p, LinePri cfg p ∧ r = .priq p

/-- **The rings, the bitmap and `top_priority` are those of the lines.** -/
structure Queued (n : RdyState cfg) : Prop where
  onLines : OnLines n.lines
  pri : ∀ p t, t ∈ n.lines p → n.pri t = p
  rings : RingFamily n.kernel.links RdyHead (rdyElems n.lines)
  rdyq : RdyOk cfg n.kernel.rdyq n.lines

variable {n : RdyState cfg} {s : Kernel cfg} {q : RdyLines cfg} {t : TskIx cfg} {p : Int}
  {op : RdyOp cfg}

theorem rdyElems_update (q : RdyLines cfg) (p : Int) (ts : List (TskIx cfg)) :
    rdyElems (Function.update q p ts) =
      Function.update (rdyElems q) (.priq p) (ts.map .qnode) := by
  funext r
  by_cases hr : r = .priq p
  · subst hr
    rw [Function.update_self]
    exact congrArg (List.map Node.qnode) (Function.update_self ..)
  · rw [Function.update_of_ne hr]
    cases r with
    | priq p' =>
      have hne : p' ≠ p := fun h => hr (by rw [h])
      exact congrArg (List.map Node.qnode) (Function.update_of_ne hne ..)
    | _ => rfl

/-- What `rdyq_insert` does. -/
theorem rdyqInsert_eq (t : TskIx cfg) (s : Kernel cfg) : rdyqInsert t s =
    (decide ((s.core.tcb t).tskpri < s.rdyq.topPriority),
      { s with
        links := kqueueInsert (.qnode t) (.priq (s.core.tcb t).tskpri) s.links
        rdyq := if (s.core.tcb t).tskpri < s.rdyq.topPriority then
            { rdyqBitmapSet cfg (s.core.tcb t).tskpri s.rdyq with
              topPriority := (s.core.tcb t).tskpri }
          else rdyqBitmapSet cfg (s.core.tcb t).tskpri s.rdyq }) := by
  unfold rdyqInsert
  dsimp only [Kernel.setLinks, Kernel.setRdyq]
  rw [show ∀ p, (rdyqBitmapSet cfg p s.rdyq).topPriority = s.rdyq.topPriority from fun _ => rfl]
  split
  · next h => rw [decide_eq_true h]
  · next h => rw [decide_eq_false h]

theorem rdyqInsertFront_eq (t : TskIx cfg) (s : Kernel cfg) : rdyqInsertFront t s =
    { s with
      links := kqueueInsert (.qnode t) (s.links.next (.priq (s.core.tcb t).tskpri)) s.links
      rdyq := if (s.core.tcb t).tskpri < s.rdyq.topPriority then
          { rdyqBitmapSet cfg (s.core.tcb t).tskpri s.rdyq with
            topPriority := (s.core.tcb t).tskpri }
        else rdyqBitmapSet cfg (s.core.tcb t).tskpri s.rdyq } := by
  unfold rdyqInsertFront
  dsimp only [Kernel.setLinks, Kernel.setRdyq]
  rw [show ∀ p, (rdyqBitmapSet cfg p s.rdyq).topPriority = s.rdyq.topPriority from fun _ => rfl]
  split <;> rfl

theorem rdyHead_priq (hp : LinePri cfg p) : RdyHead (.priq p : Node cfg) := ⟨p, hp, rfl⟩

/-- A task that is in no line is on no ring. -/
theorem offRings_qnode (ht : ¬ n.InLine t) : OffRings RdyHead (rdyElems n.lines) (.qnode t) := by
  rintro r ⟨p, hp, rfl⟩ hm
  obtain ⟨k, hk⟩ := Int.eq_ofNat_of_zero_le hp.1
  have hlt := hp.2
  refine ht ⟨k, by omega, ?_⟩
  simpa [rdyElems, hk] using hm

namespace Queued

theorem inLine_iff (h : Queued n) : n.InLine t ↔ t ∈ n.lines (n.pri t) := by
  constructor
  · rintro ⟨p, -, hm⟩
    rwa [h.pri _ t hm]
  · intro hm
    have hp := h.onLines _ (List.ne_nil_of_mem hm)
    obtain ⟨k, hk⟩ := Int.eq_ofNat_of_zero_le hp.1
    have hlt := hp.2
    exact ⟨k, by omega, hk ▸ hm⟩

theorem ring (h : Queued n) (hp : LinePri cfg p) :
    Ring n.kernel.links (.priq p) ((n.lines p).map .qnode) := h.rings.ring _ (rdyHead_priq hp)

/-- No task is in a line twice. -/
theorem nodup (h : Queued n) (p : Int) : (n.lines p).Nodup := by
  by_cases hne : n.lines p = []
  · rw [hne]
    exact List.nodup_nil
  · exact List.Nodup.of_map _ (h.ring (h.onLines p hne)).members_nodup

/-! ## Operations keep it -/

/-- After `rdyq_init` all lines are empty. -/
theorem init (s : Kernel cfg) : Queued ⟨rdyqInit s, fun _ => []⟩ := by
  have hempty : (fun _ => []) = (rdyElems fun _ => [] : Node cfg → List (Node cfg)) := by
    funext r
    cases r <;> rfl
  refine ⟨fun p hp => absurd rfl hp, fun p t hm => absurd hm List.not_mem_nil, ?_, ?_, ?_⟩
  · have hall := kqueueInitAll_family ((List.range cfg.tmaxTpri).map fun (i : Nat) => Node.priq i)
      (RingFamily.empty s.links (rdyElems fun _ => []))
      (List.nodup_range.map fun i j h => Int.ofNat_inj.mp (Node.priq.inj h))
      (fun x _ => by rw [← hempty]) fun _ _ _ h => h.elim
    rw [List.foldl_map] at hall
    refine hall.mono ?_
    rintro r ⟨p, hp, rfl⟩
    obtain ⟨k, rfl⟩ := Int.eq_ofNat_of_zero_le hp.1
    have hlt := hp.2
    exact ⟨Or.inl (List.mem_map.mpr ⟨k, List.mem_range.mpr (by omega), rfl⟩), rfl⟩
  · intro i hi k hk
    have hz : (rdyqInit s).rdyq.bitmap i = 0 := if_pos ⟨by omega, by omega⟩
    simp [hz]
  · exact (topPri_eq_max fun p _ => rfl).symm

/-- A task joins its line somewhere. -/
theorem join (h : Queued n) (ht : ¬ n.InLine t) (hp : LinePri cfg (n.pri t))
    {ts₁ ts₂ : List (TskIx cfg)} (hts : n.lines (n.pri t) = ts₁ ++ ts₂)
    (hcore : s.core = n.kernel.core)
    (hlinks : s.links = kqueueInsert (.qnode t)
      ((ts₂.map Node.qnode).head?.getD (.priq (n.pri t))) n.kernel.links)
    (hrdyq : s.rdyq = if n.pri t < n.kernel.rdyq.topPriority then
        { rdyqBitmapSet cfg (n.pri t) n.kernel.rdyq with topPriority := n.pri t }
      else rdyqBitmapSet cfg (n.pri t) n.kernel.rdyq) :
    Queued ⟨s, Function.update n.lines (n.pri t) (ts₁ ++ t :: ts₂)⟩ := by
  have hpri : ∀ u, RdyState.pri ⟨s, Function.update n.lines (n.pri t) (ts₁ ++ t :: ts₂)⟩ u =
      n.pri u := fun u => by rw [RdyState.pri, hcore]; rfl
  refine ⟨h.onLines.update hp fun _ hp' => Function.update_of_ne hp' .., fun p u hm => ?_, ?_, ?_⟩
  · rw [hpri]
    by_cases he : p = n.pri t
    · subst he
      have hm : u ∈ ts₁ ++ t :: ts₂ := by simpa using hm
      by_cases hu : u = t
      · rw [hu]
      · refine h.pri _ u ?_
        rw [hts]
        simp only [List.mem_append, List.mem_cons] at hm ⊢
        tauto
    · have hm : u ∈ Function.update n.lines (n.pri t) _ p := hm
      rw [Function.update_of_ne he] at hm
      exact h.pri p u hm
  -- the new node goes before those of `ts₂`, or before the head
  · have hE : rdyElems n.lines (.priq (n.pri t)) = ts₁.map .qnode ++ ts₂.map .qnode := by
      rw [rdyElems, hts, List.map_append]
    have hf := kqueueInsert_family h.rings (rdyHead_priq hp) (offRings_qnode ht) hE
    rw [hlinks, rdyElems_update, List.map_append, List.map_cons]
    exact hf
  · rw [hrdyq]
    exact h.rdyq.insert hp (by simp) fun _ hp' => Function.update_of_ne hp' ..

theorem insert (h : Queued n) (ht : ¬ n.InLine t) (hp : LinePri cfg (n.pri t)) :
    Queued (n.step (.insert t)).1 := by
  show Queued ⟨(rdyqInsert t n.kernel).2, _⟩
  rw [rdyqInsert_eq]
  exact h.join ht hp (List.append_nil _).symm rfl rfl rfl

theorem insertFront (h : Queued n) (ht : ¬ n.InLine t) (hp : LinePri cfg (n.pri t)) :
    Queued (n.step (.insertFront t)).1 := by
  show Queued ⟨rdyqInsertFront t n.kernel, _⟩
  rw [rdyqInsertFront_eq, show n.kernel.links.next (.priq (n.kernel.core.tcb t).tskpri) = _ from
    (h.ring hp).next_head]
  exact h.join ht hp (List.nil_append _).symm rfl rfl rfl

theorem remove (h : Queued n) (ht : n.InLine t) : Queued (n.step (.remove t)).1 := by
  have hm := h.inLine_iff.mp ht
  have hp : LinePri cfg (n.pri t) := h.onLines _ (List.ne_nil_of_mem hm)
  obtain ⟨ts₁, ts₂, -, hq, he⟩ := List.exists_erase_eq hm
  have hE : rdyElems n.lines (.priq (n.pri t)) = ts₁.map .qnode ++ .qnode t :: ts₂.map .qnode := by
    rw [rdyElems, hq, List.map_append, List.map_cons]
  have hf := kqueueRemove_family h.rings (rdyHead_priq hp) hE
  rw [← List.map_append, ← he, ← rdyElems_update] at hf
  have hon : OnLines (Function.update n.lines (n.pri t) ((n.lines (n.pri t)).erase t)) :=
    h.onLines.update hp fun _ hp' => Function.update_of_ne hp' ..
  have hempty := kqueueEmpty_iff hf (rdyHead_priq hp)
  refine ⟨hon, fun p u hu => ?_, ?_, ?_⟩
  · show ((rdyqRemove t n.kernel).core.tcb u).tskpri = p
    rw [rdyqRemove_core]
    have hu : u ∈ Function.update n.lines (n.pri t) ((n.lines (n.pri t)).erase t) p := hu
    by_cases hpt : p = n.pri t
    · subst hpt
      rw [Function.update_self] at hu
      exact h.pri _ u (List.mem_of_mem_erase hu)
    · rw [Function.update_of_ne hpt] at hu
      exact h.pri p u hu
  · show RingFamily (rdyqRemove t n.kernel).links _ _
    rw [rdyqRemove_links]
    exact hf
  · refine h.rdyq.rdyqRemove rfl hp (List.ne_nil_of_mem hm) hon (hempty.trans ?_)
      fun _ hp' => Function.update_of_ne hp' ..
    rw [rdyElems, List.map_eq_nil_iff]
    exact Iff.rfl

theorem rotate (h : Queued n) (hp : LinePri cfg p) : Queued (n.step (.rotate p)).1 := by
  have hperm : ∀ p' u, u ∈ Function.update n.lines p ((n.lines p).rotate 1) p' ↔
      u ∈ n.lines p' := by
    intro p' u
    by_cases he : p' = p
    · subst he
      rw [Function.update_self, List.mem_rotate]
    · rw [Function.update_of_ne he]
  -- the same lines are empty as before, so the bitmap stays right
  have hsame : SameEmpty n.lines (Function.update n.lines p ((n.lines p).rotate 1)) := by
    intro p'
    simp only [List.eq_nil_iff_forall_not_mem, hperm]
  have hkeep : (rdyqRotate p n.kernel).core = n.kernel.core ∧
      (rdyqRotate p n.kernel).rdyq = n.kernel.rdyq := by
    unfold rdyqRotate
    split <;> exact ⟨rfl, rfl⟩
  refine ⟨fun p' hne => h.onLines p' fun hnil => hne ((hsame p').mpr hnil), fun p' u hu => ?_,
    ?_, ?_⟩
  · show ((rdyqRotate p n.kernel).core.tcb u).tskpri = p'
    rw [hkeep.1]
    exact h.pri p' u ((hperm p' u).mp hu)
  · show RingFamily (rdyqRotate p n.kernel).links RdyHead
      (rdyElems (Function.update n.lines p ((n.lines p).rotate 1)))
    have hempty := kqueueEmpty_iff h.rings (rdyHead_priq hp)
    unfold rdyqRotate
    cases hq : n.lines p with
    | nil =>
      rw [if_neg (by simp [hempty.mpr (show rdyElems n.lines (.priq p) = [] by simp [rdyElems, hq])])]
      rw [show ([] : List (TskIx cfg)).rotate 1 = n.lines p by rw [hq]; rfl,
        Function.update_eq_self]
      exact h.rings
    | cons u ts =>
      have hE : rdyElems n.lines (.priq p) = .qnode u :: ts.map .qnode := by
        rw [rdyElems, hq, List.map_cons]
      have hne : ¬ kqueueEmpty (.priq p) n.kernel.links = true := fun hc => by
        rw [hempty.mp hc] at hE
        cases hE
      have hring := h.rings.ring _ (rdyHead_priq hp)
      rw [hE] at hring
      have hf := kqueueRotate_family h.rings (rdyHead_priq hp) hE
      rw [if_pos (by simpa using hne), kqueueRemoveNext_eq hring, List.rotate_cons_succ,
        List.rotate_zero, rdyElems_update, List.map_append]
      exact hf
  · show RdyOk cfg (rdyqRotate p n.kernel).rdyq _
    rw [hkeep.2]
    exact h.rdyq.congr hsame

theorem setPri (h : Queued n) (ht : ¬ n.InLine t) : Queued (n.step (.setPri t p)).1 := by
  refine ⟨h.onLines, fun p' u hu => ?_, h.rings, h.rdyq⟩
  have hne : u ≠ t := by
    rintro rfl
    exact ht (h.inLine_iff.mpr (by rw [h.pri p' u hu]; exact hu))
  show ((n.kernel.setTcb t _).core.tcb u).tskpri = p'
  rw [show (n.kernel.setTcb t _).core.tcb u = n.kernel.core.tcb u from Function.update_of_ne hne ..]
  exact h.pri p' u hu

/-- **Every operation keeps it.** -/
theorem step (h : Queued n) (hp : n.Permits op) : Queued (n.step op).1 := by
  cases op with
  | init => exact .init n.kernel
  | insert t => exact h.insert hp.1 hp.2
  | insertFront t => exact h.insertFront hp.1 hp.2
  | remove t => exact h.remove hp
  | rotate p => exact h.rotate hp
  | setPri t p => exact h.setPri hp

end Queued

/-! ## What a caller sees -/

/-- Bit `p` of the bitmap is set. -/
def rdyqMarked (s : Kernel cfg) (p : Int) : Prop :=
  s.rdyq.bitmap (bitmapWord cfg p) &&& bitmapBit cfg p ≠ 0

/-- The ready queue is what the lines say. -/
structure Implements (n : RdyState cfg) : Prop where
  ring : ∀ p, LinePri cfg p → Ring n.kernel.links (.priq p) ((n.lines p).map .qnode)
  marked : ∀ p, LinePri cfg p → (rdyqMarked n.kernel p ↔ n.lines p ≠ [])
  /-- Every more urgent line is empty, and that of `top_priority` is not, unless all are. -/
  top : (∀ p, LinePri cfg p → p < rdyqTopPri n.kernel → n.lines p = []) ∧
    (rdyqTopPri n.kernel = cfg.tmaxTpri ∨
      LinePri cfg (rdyqTopPri n.kernel) ∧ n.lines (rdyqTopPri n.kernel) ≠ [])
  first : rdyqTop n.kernel = ptr (n.lines (rdyqTopPri n.kernel)).head?
  becomesTop : ∀ t, n.Permits (.insert t) →
    ((rdyqInsert t n.kernel).1 = true ↔ n.pri t < rdyqTopPri n.kernel)
  /-- The search of `rdyq_remove` begins in the bitmap, and `_ffs` of a word that is not zero comes
  to the bit of a line. -/
  search : (∀ p, LinePri cfg p → 0 ≤ bitmapWord cfg p ∧ bitmapWord cfg p < cfg.numBitmap) ∧
    ∀ i : Nat, i < cfg.numBitmap → n.kernel.rdyq.bitmap i ≠ 0 →
      ∃ k, ffs (n.kernel.rdyq.bitmap i) = some k ∧ k < cfg.bitmapsz ∧
        LinePri cfg (i * cfg.bitmapsz + k)

theorem and_bit_ne_zero {x : UINT} {k : Nat} (hk : k < 32) :
    x &&& (1#32 <<< k) ≠ 0 ↔ x.getLsbD k = true := by
  have hbits : ∀ m, m < 32 → (x &&& (1#32 <<< k)).getLsbD m = (x.getLsbD m && decide (m = k)) :=
    fun m hm => by rw [BitVec.getLsbD_and, getLsbD_bit hk hm]
  constructor
  · intro hne
    by_contra hx
    refine hne (BitVec.eq_of_getLsbD_eq fun m hm => ?_)
    rw [hbits m hm]
    by_cases he : m = k
    · subst he
      simpa using hx
    · simp [he]
  · intro hx hz
    have hbit := hbits k hk
    rw [hz, hx] at hbit
    simp at hbit

theorem Queued.implements (h : Queued n) : Implements n := by
  have htop : rdyqTopPri n.kernel = topPri cfg n.lines := h.rdyq.top
  constructor
  · exact fun p hp => h.ring hp
  · intro p hp
    obtain ⟨i, k, hi, hk, hpk, hw, hbit⟩ := bitmapWord_eq hp
    have h32 : cfg.bitmapsz ≤ 32 := cfg.bitmap_fits
    rw [rdyqMarked, hw, hbit, and_bit_ne_zero (by omega), h.rdyq.bitmap i hi k (by omega), ← hpk]
    exact and_iff_right hk
  · rw [htop]
    refine ⟨fun p hp hlt => eq_nil_of_lt_topPri hp.1 hlt, ?_⟩
    rcases topPri_cases n.lines with ⟨-, hmax⟩ | ⟨hl, hne, -⟩
    · exact Or.inl hmax
    · exact Or.inr ⟨hl, hne⟩
  -- the top priority is that of a line, or stands for none
  · unfold rdyqTop
    rw [show n.kernel.rdyq.topPriority = _ from htop, htop]
    rcases topPri_cases n.lines with ⟨-, hmax⟩ | ⟨hl, hne, -⟩
    · have hnil : n.lines (topPri cfg n.lines) = [] := by
        by_contra hne
        have hlt := (h.onLines _ hne).2
        omega
      rw [if_pos hmax, hnil]
      rfl
    · have hlt := hl.2
      rw [if_neg (by omega), (h.ring hl).next_head]
      cases hq : n.lines (topPri cfg n.lines) with
      | nil => exact absurd hq hne
      | cons t ts => rfl
  · intro t _
    rw [rdyqInsert_eq]
    exact decide_eq_true_iff
  · constructor
    · intro p hp
      obtain ⟨i, k, hi, -, -, hw, -⟩ := bitmapWord_eq hp
      rw [hw]
      omega
    · intro i hi hz
      obtain ⟨k, hffs, hk, hbit, -⟩ := ffs_spec hz
      obtain ⟨hksz, hne⟩ := (h.rdyq.bitmap i hi k hk).mp hbit
      exact ⟨k, hffs, hksz, h.onLines _ hne⟩

variable {tr : List (Event (RdyState cfg) (RdyOp cfg × Bool))}

/-- **The ready queue is a map from priorities to lists of tasks**, after any sequence of
operations. -/
theorem rdyq_refines (h : RdyRun tr n) : Implements n := by
  have hq : Queued n := by
    refine h.invariant ?_ fun n l n' hn hs => ?_
    · rintro n ⟨s, rfl⟩
      exact .init s
    · have hstep : (n.step l.1).1 = n' := congrArg Prod.fst (Option.some.inj hs.2)
      rw [← hstep]
      exact hn.step hs.1
  exact hq.implements

/-- Three tasks, the lines of two of them and of none. -/
theorem rdyq_refines_three : ∃ (tr : List (Event (RdyState smallConfig) (RdyOp smallConfig × Bool)))
    (n : RdyState smallConfig), RdyRun tr n ∧ Implements n ∧
      n.lines 1 = [2, 0] ∧ n.lines 0 = [] := by
  have hstart : RdyStart (⟨rdyqInit zeroed, fun _ => []⟩ : RdyState smallConfig) := ⟨zeroed, rfl⟩
  obtain ⟨tr, n, h, h₁, h₀⟩ := exists_perform (f := fun n op => some (RdyState.step n op))
    (C := RdyState.Permits) hstart
    [.setPri 0 1, .setPri 1 0, .setPri 2 1, .insert 0, .insert 1, .insertFront 2, .rotate 1,
      .remove 1, .rotate 1]
    (fun _ n => n.lines 1 = [2, 0] ∧ n.lines 0 = []) (by decide +kernel)
  exact ⟨tr, n, h, rdyq_refines h, h₁, h₀⟩

end Ittrium
