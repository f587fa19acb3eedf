import Ittrium.Refine.Relation
import Ittrium.Spec.Loops

/-!
# Taking a task off its rings and putting it on others

* `RefinesOff.insert`, `RefinesOff.erase` — a node joins a line that is not a ready line, or leaves
* `RefinesOff.selfLink` — a node becomes an empty ring of its own
* `RefinesOff.rdyqInsert`, `RefinesOff.rdyqRemove` — the same for ready lines, with the bitmap
-/

namespace Ittrium.Refine

open Infra Spec

variable {cfg : Config} {X Y : Node cfg → Prop} {s : Kernel cfg} {a a' : Model cfg}
  {t u : TskIx cfg} {l : Line cfg} {ts ts₁ ts₂ : List (TskIx cfg)} {o : ObjId cfg}

/-! ## Nodes on no ring -/

theorem qnode_mem_elems {r : Node cfg} (h : .qnode t ∈ elems a r) : ∃ l, t ∈ a.queue l := by
  cases r with
  | priq p => exact ⟨.ready p, by simpa [elems] using h⟩
  | waitq o => exact ⟨.waitq o, by simpa [elems] using h⟩
  | freeTcb => exact ⟨.free, by simpa [elems] using h⟩
  | _ => simp [elems] at h

theorem wtmeb_mem_elems {r : Node cfg} (h : .wtmeb t ∈ elems a r) : t ∈ a.queue .timer := by
  cases r with
  | timerQueue => simpa [elems] using h
  | _ => simp [elems] at h

/-- The nodes of a task that stands in no line. -/
theorem off_of_nowhere (h : ∀ l, t ∉ a.queue l) (x : Node cfg)
    (hx : x = .qnode t ∨ x = .wtmeb t) (r : Node cfg) : x ∉ elems a r := by
  intro hm
  rcases hx with rfl | rfl
  · obtain ⟨l, hl⟩ := qnode_mem_elems hm
    exact h l hl
  · exact h .timer (wtmeb_mem_elems hm)

/-- A line with other members changes nothing for a node that is not among them. -/
theorem notMem_elems_update {x : Node cfg} (h : ∀ r, x ∉ elems a r)
    (hx : x ∉ ts.map (lineNode l)) (r : Node cfg) :
    x ∉ elems { a with queue := Function.update a.queue l ts } r := by
  rw [elems_setQueue]
  by_cases hr : r = lineHead l
  · rw [hr, Function.update_self]; exact hx
  · rw [Function.update_of_ne hr]; exact h r

/-! ## Heads -/

/-- The wait queue of an object that exists is a ring of its own. -/
theorem heads_waitq (h : LinesInv a) (ho : (a.core.objcb o).state ≠ .noexs) :
    heads a (.waitq o) := by
  cases o with
  | sem i => exact fun hi => ho ((h.mem_freeSem i).mp hi)
  | _ => trivial

/-- A line that gains members loses no head but those of the timers it gains. -/
theorem heads_of_update (hsub : ∀ u, u ∈ a.queue l → u ∈ ts) {r : Node cfg}
    (hr : heads { a with queue := Function.update a.queue l ts } r) : heads a r := by
  cases r with
  | waitq o => cases o <;> exact hr
  | wtmeb u =>
    refine ⟨hr.1, fun hu => hr.2 ?_⟩
    show u ∈ Function.update a.queue l ts .timer
    by_cases hl : l = .timer
    · subst hl
      rw [Function.update_self]
      exact hsub u hu
    · rwa [Function.update_of_ne (Ne.symm hl)]
  | _ => exact hr

/-- A line that loses `t` gains no head but the timer of `t`. -/
theorem heads_of_erase {r : Node cfg} (hr : heads (a.deq l t) r)
    (hne : r ≠ lineNode l t) : heads a r := by
  cases r with
  | waitq o => cases o <;> exact hr
  | wtmeb u =>
    refine ⟨hr.1, fun hu => hr.2 ?_⟩
    by_cases hl : l = .timer
    · subst hl
      have hut : u ≠ t := fun he => hne (by rw [he]; rfl)
      simpa [Model.deq] using (List.mem_erase_of_ne hut).mpr hu
    · rwa [Model.deq_of_ne (Ne.symm hl)]
  | _ => exact hr

/-! ## Joining and leaving a line -/

/-- The rings after a node off them is put into a line. -/
theorem RefinesOff.rings_insert (h : RefinesOff X s a)
    (hl : heads a (lineHead l) ∧ ¬ X (lineHead l)) (hq : a.queue l = ts₁ ++ ts₂)
    (ha : a' = { a with queue := Function.update a.queue l (ts₁ ++ t :: ts₂) })
    (hx : X (lineNode l t)) (hY : ∀ x, X x → Y x ∨ x = lineNode l t)
    (hn : ¬ heads a' (lineNode l t)) :
    RingFamily (kqueueInsert (lineNode l t)
      ((ts₂.map (lineNode l)).head?.getD (lineHead l)) s.links)
      (fun r => heads a' r ∧ ¬ Y r) (elems a') := by
  have hE : elems a (lineHead l) = ts₁.map (lineNode l) ++ ts₂.map (lineNode l) := by
    rw [elems_lineHead, hq, List.map_append]
  have hf := kqueueInsert_family h.rings hl (h.offRings hx) hE
  refine hf.mono fun r hr => ⟨⟨?_, fun hXr => ?_⟩, ?_⟩
  · rw [ha] at hr
    exact heads_of_update (fun u hu => by rw [hq] at hu; simp at hu ⊢; tauto) hr.1
  · rcases hY r hXr with hYr | rfl
    · exact hr.2 hYr
    · exact hn hr.1
  · rw [ha, elems_setQueue, List.map_append, List.map_cons]

/-- The rings after a node is taken out of a line. -/
theorem RefinesOff.rings_erase (h : RefinesOff X s a)
    (hl : heads a (lineHead l) ∧ ¬ X (lineHead l)) (hm : t ∈ a.queue l)
    (hY : ∀ x, X x → Y x) (hx : Y (lineNode l t)) :
    RingFamily (kqueueRemove (lineNode l t) s.links)
      (fun r => heads (a.deq l t) r ∧ ¬ Y r) (elems (a.deq l t)) := by
  obtain ⟨ts₁, ts₂, -, hq, he⟩ := List.exists_erase_eq hm
  have hE : elems a (lineHead l) = ts₁.map (lineNode l) ++ lineNode l t :: ts₂.map (lineNode l) := by
    rw [elems_lineHead, hq, List.map_append, List.map_cons]
  have hf := kqueueRemove_family h.rings hl hE
  refine hf.mono fun r hr => ⟨⟨?_, fun hXr => hr.2 (hY r hXr)⟩, ?_⟩
  · exact heads_of_erase hr.1 fun he => hr.2 (he ▸ hx)
  · rw [Model.deq, elems_setQueue, he, List.map_append]

/-- The links change, and with them lines that are no ready lines. -/
theorem RefinesOff.relink {g : Links (Node cfg) → Links (Node cfg)} (h : RefinesOff X s a)
    (hcore : a'.core = a.core) (hrun : a'.runtsk = a.runtsk)
    (hready : ∀ p, a'.queue (.ready p) = a.queue (.ready p))
    (hrings : RingFamily (g s.links) (fun r => heads a' r ∧ ¬ Y r) (elems a'))
    (hoff : ∀ x, Y x → ∀ r, x ∉ elems a' r) : RefinesOff Y (s.setLinks g) a' := by
  have hq : (fun p => a'.queue (.ready p)) = fun p => a.queue (.ready p) := funext hready
  exact { core := h.core.trans hcore.symm
          runtsk := by rw [hrun]; exact h.runtsk
          schedtsk := by rw [Model.top, hq]; exact h.schedtsk
          onLines := by rw [hq]; exact h.onLines
          rdyq := by rw [hq]; exact h.rdyq
          rings := hrings
          off := hoff }

/-- **A node off the rings joins a line that is no ready line.** -/
theorem RefinesOff.insert (h : RefinesOff X s a) (hr : ∀ p, l ≠ .ready p)
    (hl : heads a (lineHead l) ∧ ¬ X (lineHead l)) (hq : a.queue l = ts₁ ++ ts₂)
    (ha : a' = { a with queue := Function.update a.queue l (ts₁ ++ t :: ts₂) })
    (hx : X (lineNode l t)) (hY : ∀ x, X x → Y x ∨ x = lineNode l t)
    (hn : ¬ heads a' (lineNode l t)) (hoff : ∀ x, Y x → ∀ r, x ∉ elems a' r) :
    RefinesOff Y (s.setLinks (kqueueInsert (lineNode l t)
      ((ts₂.map (lineNode l)).head?.getD (lineHead l)))) a' := by
  refine h.relink (by rw [ha]) (by rw [ha]) (fun p => ?_) (h.rings_insert hl hq ha hx hY hn) hoff
  rw [ha]
  exact Function.update_of_ne (hr p).symm ..

/-- At the end of the line. -/
theorem RefinesOff.enq (h : RefinesOff X s a) (hr : ∀ p, l ≠ .ready p)
    (hl : heads a (lineHead l) ∧ ¬ X (lineHead l)) (hx : X (lineNode l t))
    (hY : ∀ x, X x → Y x ∨ x = lineNode l t) (hn : ¬ heads (a.enq l t) (lineNode l t))
    (hoff : ∀ x, Y x → ∀ r, x ∉ elems (a.enq l t) r) :
    RefinesOff Y (s.setLinks (kqueueInsert (lineNode l t) (lineHead l))) (a.enq l t) :=
  h.insert hr hl (List.append_nil _).symm rfl hx hY hn hoff

/-- **A node leaves a line that is no ready line.** -/
theorem RefinesOff.erase (h : RefinesOff X s a) (hr : ∀ p, l ≠ .ready p)
    (hl : heads a (lineHead l) ∧ ¬ X (lineHead l)) (hm : t ∈ a.queue l)
    (hY : ∀ x, X x → Y x) (hx : Y (lineNode l t))
    (hoff : ∀ x, Y x → ∀ r, x ∉ elems (a.deq l t) r) :
    RefinesOff Y (s.setLinks (kqueueRemove (lineNode l t))) (a.deq l t) :=
  h.relink rfl rfl (fun p => Model.deq_of_ne (hr p).symm) (h.rings_erase hl hm hY hx) hoff

/-- Removing the head of a ring without members changes nothing. -/
theorem RefinesOff.kqueueRemove_self (h : RefinesOff X s a) {x : Node cfg} (hx : heads a x ∧ ¬ X x)
    (hE : elems a x = []) : s.setLinks (kqueueRemove x) = s := by
  unfold Kernel.setLinks
  rw [Ittrium.kqueueRemove_self h.rings hx hE]

/-- **A node off the rings becomes one of its own.** -/
theorem RefinesOff.selfLink (h : RefinesOff X s a) {x : Node cfg} (hx : X x)
    (hE : elems a x = []) (hY : ∀ y, X y → Y y ∨ y = x)
    (hYX : ∀ y, Y y → X y) : RefinesOff Y (s.setLinks (kqueueInit x)) a := by
  refine h.relink rfl rfl (fun _ => rfl) ?_ fun y hy => h.off y (hYX y hy)
  refine (h.rings.selfLink (h.offRings hx)).mono fun r hr => ⟨?_, ?_⟩
  · by_cases he : r = x
    · exact Or.inl he
    · exact Or.inr ⟨hr.1, fun hX => hr.2 ((hY r hX).resolve_right he)⟩
  · by_cases he : r = x
    · rw [he, Function.update_self, hE]
    · rw [Function.update_of_ne he]

/-! ## Ready lines -/

/-- The fields of the ready queue after `rdyq_insert` or `rdyq_insert_front`. -/
theorem RdyOk.insert {q q' : Int → List (TskIx cfg)} {rq : RDYQ} {p : Int} (h : RdyOk cfg rq q)
    (hp : LinePri cfg p) (hq : q' p ≠ []) (hne : ∀ p', p' ≠ p → q' p' = q p') :
    RdyOk cfg (if p < rq.topPriority then { rdyqBitmapSet cfg p rq with topPriority := p }
      else rdyqBitmapSet cfg p rq) q' := by
  have hb : BitmapOk cfg (rdyqBitmapSet cfg p rq).bitmap q' :=
    h.bitmap.set hp hq fun p' hp' => by rw [hne p' hp']
  have ht : topPri cfg q' = if p < topPri cfg q then p else topPri cfg q :=
    topPri_insert hp hq fun p' hp' => by rw [hne p' hp']
  rw [← h.top] at ht
  split
  · next hlt => exact ⟨hb, by rw [ht, if_pos hlt]⟩
  · next hge => exact ⟨hb, by rw [ht, if_neg hge]; rfl⟩

/-- The fields of the ready queue after `rdyq_remove`. -/
theorem RdyOk.remove {q q' : Int → List (TskIx cfg)} {rq : RDYQ} {p : Int} (h : RdyOk cfg rq q)
    (hp : LinePri cfg p) (hon : OnLines q') (hnil : q' p = [])
    (hne : ∀ p', p' ≠ p → q' p' = q p') :
    RdyOk cfg (if p ≠ rq.topPriority then rdyqBitmapClear cfg p rq
      else { rdyqBitmapClear cfg p rq with
        topPriority := rdyqSearch cfg (rdyqBitmapClear cfg p rq).bitmap
          (cfg.numBitmap - bitmapWord cfg p).toNat (bitmapWord cfg p) }) q' := by
  have hsame : ∀ p', p' ≠ p → (q' p' = [] ↔ q p' = []) := fun p' hp' => by rw [hne p' hp']
  have hb := h.bitmap.clear hp hnil hsame
  split
  · next htop =>
    refine ⟨hb, ?_⟩
    rw [h.top] at htop
    exact h.top.trans (topPri_remove hnil hsame htop).symm
  · next htop =>
    obtain ⟨i, k, hi, hk, hpk, hw, -⟩ := bitmapWord_eq hp
    refine ⟨hb, ?_⟩
    have htop' : p = topPri cfg q := (not_not.mp htop).trans h.top
    have hlt : ∀ p' : Int, 0 ≤ p' → p' < (i * cfg.bitmapsz : Nat) → q' p' = [] := by
      intro p' h0 hlt
      have hle : ((i * cfg.bitmapsz : Nat) : Int) ≤ p := by push_cast; omega
      rw [hne p' (by omega)]
      exact eq_nil_of_lt_topPri h0 (by omega)
    rw [hw, show ((cfg.numBitmap : Int) - i).toNat = cfg.numBitmap - i by omega]
    exact rdyqSearch_eq hb hon _ i (by omega) hlt

/-- What `task_make_ready` and `task_change_pri` do with the result of `rdyq_insert`. -/
def insertTop (t : TskIx cfg) (s : Kernel cfg) : Kernel cfg :=
  if (Ittrium.rdyqInsert t s).1 then { (Ittrium.rdyqInsert t s).2 with schedtsk := .qnode t }
  else (Ittrium.rdyqInsert t s).2

/-- **A node off the rings joins its ready line.** -/
theorem RefinesOff.insertTop {p : Int} (h : RefinesOff X s a) (hpri : (a.core.tcb t).tskpri = p)
    (hp : LinePri cfg p) (hXp : ¬ X (.priq p)) (hx : X (.qnode t))
    (hY : ∀ x, X x → Y x ∨ x = .qnode t) (hn : ¬ heads a (.qnode t))
    (hoff : ∀ x, Y x → ∀ r, x ∉ elems (a.enq (.ready p) t) r) :
    RefinesOff Y (insertTop t s) (a.enq (.ready p) t) := by
  have hrings := h.rings_insert (l := .ready p) (t := t) (Y := Y) ⟨hp, hXp⟩
    (List.append_nil _).symm rfl hx hY (fun hh => hn (heads_of_update
      (fun u hu => by rw [List.mem_append]; exact Or.inl hu) hh))
  have hself : (a.enq (.ready p) t).queue (.ready p) = a.queue (.ready p) ++ [t] :=
    Function.update_self ..
  have hne : ∀ p', p' ≠ p → (a.enq (.ready p) t).queue (.ready p') = a.queue (.ready p') :=
    fun p' hp' => Model.enq_of_ne (by simpa using hp')
  have hrdy : RdyOk cfg _ fun p' => (a.enq (.ready p) t).queue (.ready p') :=
    h.rdyq.insert hp (by simp [hself]) hne
  have hpri' : (s.core.tcb t).tskpri = p := by rw [h.core, hpri]
  -- the comparison with `top_priority` is one with the first line that is not empty
  have hlt : (p < s.rdyq.topPriority) ↔ p < topPri cfg fun p => a.queue (.ready p) := by
    rw [h.rdyq.top]
  have htop : (a.enq (.ready p) t).top =
      if p < topPri cfg fun p => a.queue (.ready p) then some t else a.top :=
    topOf_insert hp hself hne
  unfold Refine.insertTop Ittrium.rdyqInsert
  rw [hpri']
  simp only [Kernel.setRdyq, Kernel.setLinks, show (rdyqBitmapSet cfg p s.rdyq).topPriority =
    s.rdyq.topPriority from rfl] at hrdy ⊢
  by_cases hc : p < s.rdyq.topPriority
  · rw [if_pos hc] at hrdy ⊢
    exact { core := h.core, runtsk := h.runtsk
            schedtsk := by rw [htop, if_pos (hlt.mp hc)]; rfl
            onLines := h.onLines.update hp hne
            rdyq := hrdy, rings := hrings, off := hoff }
  · rw [if_neg hc] at hrdy ⊢
    exact { core := h.core, runtsk := h.runtsk
            schedtsk := by rw [htop, if_neg fun hl => hc (hlt.mpr hl)]; exact h.schedtsk
            onLines := h.onLines.update hp hne
            rdyq := hrdy, rings := hrings, off := hoff }

theorem rdyqRemove_schedtsk (t : TskIx cfg) (s : Kernel cfg) :
    (Ittrium.rdyqRemove t s).schedtsk = s.schedtsk := by
  unfold Ittrium.rdyqRemove
  dsimp only
  split
  · rfl
  · split <;> rfl

theorem rdyqRemove_runtsk (t : TskIx cfg) (s : Kernel cfg) :
    (Ittrium.rdyqRemove t s).runtsk = s.runtsk := by
  unfold Ittrium.rdyqRemove
  dsimp only
  split
  · rfl
  · split <;> rfl

theorem rdyqRemove_links (t : TskIx cfg) (s : Kernel cfg) :
    (Ittrium.rdyqRemove t s).links = kqueueRemove (.qnode t) s.links := by
  unfold Ittrium.rdyqRemove
  dsimp only
  split
  · rfl
  · split <;> rfl

/-- **The bit is cleared just if the line is empty now**, and the search is for the next one. -/
theorem RdyOk.rdyqRemove {q q' : Int → List (TskIx cfg)} {p : Int} (h : RdyOk cfg s.rdyq q)
    (hpri : (s.core.tcb t).tskpri = p) (hp : LinePri cfg p) (hq : q p ≠ []) (hon : OnLines q')
    (hempty : kqueueEmpty (.priq p) (kqueueRemove (.qnode t) s.links) ↔ q' p = [])
    (hne : ∀ p', p' ≠ p → q' p' = q p') : RdyOk cfg (Ittrium.rdyqRemove t s).rdyq q' := by
  unfold Ittrium.rdyqRemove
  simp only [hpri, Kernel.setLinks, Kernel.setRdyq,
    show ∀ p, (rdyqBitmapClear cfg p s.rdyq).topPriority = s.rdyq.topPriority from fun _ => rfl]
  split
  · next hc =>
    refine h.congr fun p' => ?_
    by_cases he : p' = p
    · subst he
      have hnil : q' p' ≠ [] := by
        intro hnil
        simp [hempty.mpr hnil] at hc
      exact ⟨fun hnil' => absurd hnil' hnil, fun hnil' => absurd hnil' hq⟩
    · rw [hne p' he]
  · next hc =>
    have hnil := hempty.mp (by simpa using hc)
    have hrdy := h.remove hp hon hnil hne
    split
    · next hd => rwa [if_pos hd] at hrdy
    · next hd => rwa [if_neg hd] at hrdy

/-- **A ready task leaves its line.** `schedtsk` is left to the caller. -/
theorem RefinesOff.rdyqRemove (h : RefinesOff X s a)
    (hm : t ∈ a.queue (.ready (a.core.tcb t).tskpri)) (hY : ∀ x, X x → Y x) (hx : Y (.qnode t))
    (hYp : ∀ p, ¬ Y (.priq p)) (hoff : ∀ x, Y x → ∀ r, x ∉ elems (a.makeUnready t) r) :
    RefinesOff Y { Ittrium.rdyqRemove t s with schedtsk := ptr (a.makeUnready t).top }
      (a.makeUnready t) := by
  have hp : LinePri cfg (a.core.tcb t).tskpri := h.onLines _ (List.ne_nil_of_mem hm)
  have hXp : ¬ X (.priq (a.core.tcb t).tskpri) := fun hX => hYp _ (hY _ hX)
  have hrings := h.rings_erase (l := .ready (a.core.tcb t).tskpri) ⟨hp, hXp⟩ hm hY hx
  have hself : (a.makeUnready t).queue (.ready (a.core.tcb t).tskpri) =
      (a.queue (.ready (a.core.tcb t).tskpri)).erase t := Function.update_self ..
  have hne : ∀ p', p' ≠ (a.core.tcb t).tskpri →
      (a.makeUnready t).queue (.ready p') = a.queue (.ready p') :=
    fun p' hp' => Model.deq_of_ne (by simpa using hp')
  have hon : OnLines fun p' => (a.makeUnready t).queue (.ready p') := h.onLines.update hp hne
  have hempty : kqueueEmpty (.priq (a.core.tcb t).tskpri)
      (kqueueRemove (.qnode t) s.links) ↔
      (a.makeUnready t).queue (.ready (a.core.tcb t).tskpri) = [] := by
    have := kqueueEmpty_iff hrings (r := Node.priq (a.core.tcb t).tskpri) ⟨hp, hYp _⟩
    rw [show kqueueEmpty _ (kqueueRemove (.qnode t) s.links) = true ↔ _ from this]
    simp [elems, Model.makeUnready]
  have hpri' : (s.core.tcb t).tskpri = (a.core.tcb t).tskpri := by rw [h.core]
  exact { core := rdyqRemove_core.trans h.core
          runtsk := (rdyqRemove_runtsk t s).trans h.runtsk
          schedtsk := rfl
          onLines := hon
          rdyq := h.rdyq.rdyqRemove hpri' hp (List.ne_nil_of_mem hm) hon hempty hne
          rings := (rdyqRemove_links t s).symm ▸ hrings
          off := hoff }

end Ittrium.Refine
