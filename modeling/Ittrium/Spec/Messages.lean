import Ittrium.Spec.Objects
import Ittrium.Spec.Timers
import Mathlib.Data.Fintype.Card

/-!
# The message queues

* `queued` — the messages in the chain of a mailbox, first one first
* `Chains` — what holds of the chains of all mailboxes
* `Chains.enqueue`, `Chains.dequeue` — **a message goes to its place in one chain, the first one
  leaves one, the others stay as they are**
* `exec_keeps_messages` — calls on other objects leave the messages alone
-/

namespace Ittrium.Spec

open Infra

variable {cfg : Config} {a a' b : Model cfg} {i j : MbxIx cfg} {m : Fin cfg.nmsg} {c c' : Core cfg}
  {f : MsgPtr cfg → MsgPtr cfg} {l : List (Fin cfg.nmsg)} {cl : Call cfg} {r : Ret cfg}

/-! ## Chains -/

/-- The packets whose link words come from `p` on, at most `n` of them. -/
def walkMsgs (f : MsgPtr cfg → MsgPtr cfg) : Nat → MsgPtr cfg → List (Fin cfg.nmsg)
  | 0, _ => []
  | n + 1, p =>
    match f p with
    | .pkt m => m :: walkMsgs f n (.pkt m)
    | _ => []

/-- The messages in a mailbox. There are none in one that does not exist. -/
def queued (c : Core cfg) (i : MbxIx cfg) : List (Fin cfg.nmsg) :=
  if (c.mbxcb i).obj.state = .noexs then [] else walkMsgs c.msgque cfg.nmsg (.mqHead i)

/-- From `p` on the link words lead through the packets of `l` to a null pointer. -/
abbrev Chain (f : MsgPtr cfg → MsgPtr cfg) (p : MsgPtr cfg) (l : List (Fin cfg.nmsg)) : Prop :=
  Path f p (l.map .pkt) .null

theorem walkMsgs_chain : ∀ {n : Nat} {p : MsgPtr cfg} {l : List (Fin cfg.nmsg)}, l.length ≤ n →
    Chain f p l → walkMsgs f n p = l
  | 0, _, [], _, _ => rfl
  | n + 1, p, [], _, h => by
    rw [walkMsgs, show f p = .null from h]
  | n + 1, p, m :: l, hn, h => by
    rw [walkMsgs, show f p = .pkt m from h.1]
    exact congrArg (m :: ·) (walkMsgs_chain (by simpa using hn) h.2)

theorem length_le_nmsg (h : l.Nodup) : l.length ≤ cfg.nmsg := by
  simpa using h.length_le_card

theorem queued_eq (hs : (c.mbxcb i).obj.state ≠ .noexs) (hnd : l.Nodup)
    (h : Chain c.msgque (.mqHead i) l) : queued c i = l := by
  rw [queued, if_neg hs]
  exact walkMsgs_chain (length_le_nmsg hnd) h

theorem queued_noexs (hs : (c.mbxcb i).obj.state = .noexs) : queued c i = [] := if_pos hs

/-- What holds of the chains. -/
structure Chains (c : Core cfg) : Prop where
  /-- They end with a null pointer. -/
  chain : ∀ i, (c.mbxcb i).obj.state ≠ .noexs → Chain c.msgque (.mqHead i) (queued c i)
  nodup : ∀ i, (queued c i).Nodup
  disjoint : ∀ i j, i ≠ j → ∀ m ∈ queued c i, m ∉ queued c j
  /-- `mq_tail` is the last message, if there is one and messages are not sorted. -/
  tail : ∀ i, ¬ ByMsgpri c i → ∀ m, (queued c i).getLast? = some m → (c.mbxcb i).mqTail = .pkt m
  sorted : ∀ i, ByMsgpri c i → KeySorted c.msgpri (queued c i)

/-- The message is in no mailbox. -/
def Unqueued (c : Core cfg) (m : Fin cfg.nmsg) : Prop := ∀ i, m ∉ queued c i

theorem pkt_injective : Function.Injective (@MsgPtr.pkt cfg) := fun _ _ h => MsgPtr.pkt.inj h

theorem nodup_chain (hnd : l.Nodup) (i : MbxIx cfg) :
    ((.mqHead i :: l.map .pkt) : List (MsgPtr cfg)).Nodup := by
  refine List.nodup_cons.mpr ⟨?_, hnd.map pkt_injective⟩
  simp

theorem pkt_notMem (hm : m ∉ l) (i : MbxIx cfg) :
    (.pkt m : MsgPtr cfg) ∉ (.mqHead i :: l.map .pkt : List (MsgPtr cfg)) := by
  simp [pkt_injective.eq_iff, hm]

/-! ## A message goes into a chain -/

/-- Where a message goes. -/
def place (c : Core cfg) (i : MbxIx cfg) (m : Fin cfg.nmsg) (l : List (Fin cfg.nmsg)) :
    List (Fin cfg.nmsg) :=
  if ByMsgpri c i then insertStable c.msgpri m l else l ++ [m]

theorem mem_place {x : Fin cfg.nmsg} : x ∈ place c i m l ↔ x = m ∨ x ∈ l := by
  unfold place
  split
  · exact mem_insertStable
  · simp [or_comm]

theorem nodup_place (hm : m ∉ l) (hnd : l.Nodup) : (place c i m l).Nodup := by
  unfold place
  split
  · exact nodup_insertStable hm hnd
  · exact List.nodup_append.mpr ⟨hnd, by simp, by
      intro x hx y hy he
      exact hm (List.mem_singleton.mp hy ▸ he ▸ hx)⟩

/-- **The search of `kqueue_insert_mpri` ends in front of the first greater priority.** -/
theorem kqueueInsertMpriLoop_eq (pri : Int) : ∀ {n : Nat} {l : List (Fin cfg.nmsg)}
    {p : MsgPtr cfg}, l.length < n → Chain c.msgque p l →
    kqueueInsertMpriLoop pri c n p =
      .ok (((l.takeWhile fun y => c.msgpri y ≤ pri).map .pkt).getLast?.getD p,
        ((l.dropWhile fun y => c.msgpri y ≤ pri).map .pkt).head?.getD .null)
  | n + 1, [], p, _, h => by
    rw [kqueueInsertMpriLoop, show c.msgque p = .null from h]
    rfl
  | n + 1, x :: l, p, hn, h => by
    rw [kqueueInsertMpriLoop, show c.msgque p = .pkt x from h.1]
    dsimp only
    by_cases hx : c.msgpri x ≤ pri
    · rw [if_neg (not_lt.mpr hx), kqueueInsertMpriLoop_eq pri (by simpa using hn) h.2,
        List.takeWhile_cons_of_pos (by simpa using hx),
        List.dropWhile_cons_of_pos (by simpa using hx), List.map_cons, List.getLast?_cons]
      rfl
    · rw [if_pos (not_le.mp hx), List.takeWhile_cons_of_neg (by simpa using hx),
        List.dropWhile_cons_of_neg (by simpa using hx)]
      rfl

/-- The link words after a message has gone between two parts of a chain. -/
theorem splice_chain {l₁ l₂ : List (Fin cfg.nmsg)} (hnd : (l₁ ++ l₂).Nodup) (hm : m ∉ l₁ ++ l₂)
    (h : Chain f (.mqHead i) (l₁ ++ l₂)) :
    Chain (Function.update (Function.update f (.pkt m) ((l₂.map .pkt).head?.getD .null))
      ((l₁.map .pkt).getLast?.getD (.mqHead i)) (.pkt m)) (.mqHead i) (l₁ ++ m :: l₂) := by
  have hnd' := nodup_chain hnd i
  have hm' := pkt_notMem hm i
  rw [List.map_append] at hnd' hm'
  have h' := Path.splice (x := .pkt m) hnd' hm' (by rw [← List.map_append]; exact h)
  rwa [← List.map_cons, ← List.map_append] at h'

/-- A chain none of whose cells is written. -/
theorem Chain.update {p v : MsgPtr cfg} (h : Chain f (.mqHead i) l)
    (hp : p ∉ (.mqHead i :: l.map .pkt : List (MsgPtr cfg))) :
    Chain (Function.update f p v) (.mqHead i) l :=
  Path.congr (fun _ hz => Function.update_of_ne (ne_of_mem_of_not_mem hz hp) _ _) h

/-- What a write to the link words leaves alone. -/
structure SameMailboxes (c c' : Core cfg) (i : MbxIx cfg) : Prop where
  obj : ∀ j, (c'.mbxcb j).obj = (c.mbxcb j).obj
  msgpri : c'.msgpri = c.msgpri
  tail : ∀ j, j ≠ i → (c'.mbxcb j).mqTail = (c.mbxcb j).mqTail

theorem SameMailboxes.byMsgpri (h : SameMailboxes c c' i) (j : MbxIx cfg) :
    ByMsgpri c' j ↔ ByMsgpri c j := by
  unfold ByMsgpri
  rw [h.obj]

/-- **One mailbox gets another chain**, and the others keep theirs. -/
theorem Chains.replace (h : Chains c) (hcb : ∀ j, j ≠ i → c'.mbxcb j = c.mbxcb j)
    (hp : c'.msgpri = c.msgpri) (hqi : queued c' i = l) (hnd : l.Nodup)
    (hi : Chain c'.msgque (.mqHead i) l)
    (hj : ∀ j, j ≠ i → (c.mbxcb j).obj.state ≠ .noexs → Chain c'.msgque (.mqHead j) (queued c j))
    (hfresh : ∀ j, j ≠ i → ∀ x ∈ l, x ∉ queued c j)
    (htail : ¬ ByMsgpri c' i → ∀ x, l.getLast? = some x → (c'.mbxcb i).mqTail = .pkt x)
    (hsort : ByMsgpri c' i → KeySorted c.msgpri l) :
    Chains c' ∧ queued c' i = l ∧ ∀ j, j ≠ i → queued c' j = queued c j := by
  have hby : ∀ j, j ≠ i → (ByMsgpri c' j ↔ ByMsgpri c j) := by
    intro j hne
    unfold ByMsgpri
    rw [hcb j hne]
  have hqj : ∀ j, j ≠ i → queued c' j = queued c j := by
    intro j hne
    by_cases hn : (c.mbxcb j).obj.state = .noexs
    · rw [queued_noexs hn, queued_noexs (by rw [hcb j hne]; exact hn)]
    · exact queued_eq (by rw [hcb j hne]; exact hn) (h.nodup j) (hj j hne hn)
  -- each field says something of the mailbox `i`, or of another one that is as it was
  refine ⟨⟨fun j hex => ?_, fun j => ?_, fun j k hjk x hx => ?_, fun j hb x hx => ?_, fun j hb => ?_⟩,
    hqi, hqj⟩
  · by_cases he : j = i
    · subst he; rw [hqi]; exact hi
    · rw [hcb j he] at hex
      rw [hqj j he]
      exact hj j he hex
  · by_cases he : j = i
    · subst he; rw [hqi]; exact hnd
    · rw [hqj j he]; exact h.nodup j
  · by_cases he : j = i
    · subst he
      rw [hqi] at hx
      rw [hqj k hjk.symm]
      exact hfresh k hjk.symm x hx
    · rw [hqj j he] at hx
      by_cases hk : k = i
      · subst hk
        rw [hqi]
        exact fun hxl => hfresh j he x hxl hx
      · rw [hqj k hk]
        exact h.disjoint j k hjk x hx
  · by_cases he : j = i
    · subst he
      rw [hqi] at hx
      exact htail hb x hx
    · rw [hqj j he] at hx
      rw [hcb j he]
      exact h.tail j (fun hb' => hb ((hby j he).mpr hb')) x hx
  · rw [hp]
    by_cases he : j = i
    · subst he; rw [hqi]; exact hsort hb
    · rw [hqj j he]; exact h.sorted j ((hby j he).mp hb)

/-- **The chain of one mailbox changes.** -/
theorem Chains.change (h : Chains c) (hsame : SameMailboxes c c' i)
    (hs : (c.mbxcb i).obj.state ≠ .noexs) (hnd : l.Nodup)
    (hi : Chain c'.msgque (.mqHead i) l)
    (hj : ∀ j, j ≠ i → (c.mbxcb j).obj.state ≠ .noexs → Chain c'.msgque (.mqHead j) (queued c j))
    (hfresh : ∀ j, j ≠ i → ∀ x ∈ l, x ∉ queued c j)
    (htail : ¬ ByMsgpri c i → ∀ x, l.getLast? = some x → (c'.mbxcb i).mqTail = .pkt x)
    (hsort : ByMsgpri c i → KeySorted c.msgpri l) :
    Chains c' ∧ queued c' i = l ∧ ∀ j, j ≠ i → queued c' j = queued c j := by
  have hqi : queued c' i = l := queued_eq (by rw [hsame.obj]; exact hs) hnd hi
  refine h.replace (fun j hne => ?_) hsame.msgpri hqi hnd hi hj hfresh
    (fun hb => htail fun hb' => hb ((hsame.byMsgpri i).mpr hb'))
    fun hb => hsort ((hsame.byMsgpri i).mp hb)
  have hobj := hsame.obj j
  have htl := hsame.tail j hne
  cases hc' : c'.mbxcb j with
  | mk obj mqTail =>
    rw [hc'] at hobj htl
    cases hc : c.mbxcb j with
    | mk obj' mqTail' =>
      rw [hc] at hobj htl
      exact congrArg₂ MBXCB.mk hobj htl

/-- The cells of another chain are its head and its packets. -/
theorem other_cells (hne : j ≠ i) {p : MsgPtr cfg}
    (hp : p = .mqHead i ∨ ∃ y, p = .pkt y ∧ y ∉ l) :
    p ∉ (.mqHead j :: l.map .pkt : List (MsgPtr cfg)) := by
  rcases hp with rfl | ⟨y, rfl, hy⟩
  · simp [hne.symm]
  · exact pkt_notMem hy j

theorem last_cell (i : MbxIx cfg) (l : List (Fin cfg.nmsg)) :
    (l.map MsgPtr.pkt).getLast?.getD (.mqHead i) = .mqHead i ∨
      ∃ y ∈ l, (l.map MsgPtr.pkt).getLast?.getD (.mqHead i) = .pkt y := by
  rw [List.getLast?_map]
  cases h : l.getLast? with
  | none => exact Or.inl rfl
  | some y => exact Or.inr ⟨y, List.mem_of_getLast? h, rfl⟩

/-- A message between two parts of the chain of `i`, and the other chains. -/
theorem Chains.splice (l₁ l₂ : List (Fin cfg.nmsg)) (h : Chains c)
    (hs : (c.mbxcb i).obj.state ≠ .noexs) (hm : Unqueued c m) (hl : l₁ ++ l₂ = queued c i)
    (hf : f = Function.update (Function.update c.msgque (.pkt m)
      ((l₂.map .pkt).head?.getD .null)) ((l₁.map .pkt).getLast?.getD (.mqHead i)) (.pkt m)) :
    Chain f (.mqHead i) (l₁ ++ m :: l₂) ∧
      ∀ j, j ≠ i → (c.mbxcb j).obj.state ≠ .noexs → Chain f (.mqHead j) (queued c j) := by
  subst hf
  refine ⟨splice_chain (hl ▸ h.nodup i) (hl ▸ hm i) (hl ▸ h.chain i hs), fun j hne hex => ?_⟩
  refine ((h.chain j hex).update (other_cells hne ?_)).update (other_cells hne ?_)
  · exact Or.inr ⟨m, rfl, hm j⟩
  · rcases last_cell i l₁ with hp | ⟨y, hy, hp⟩
    · exact Or.inl hp
    · refine Or.inr ⟨y, hp, h.disjoint i j hne.symm y ?_⟩
      rw [← hl]
      exact List.mem_append_left _ hy

/-- What a mailbox looks like after a message has gone into it. -/
structure Stored (c c' : Core cfg) (i : MbxIx cfg) (m : Fin cfg.nmsg) : Prop where
  chains : Chains c'
  queued : queued c' i = place c i m (queued c i)
  others : ∀ j, j ≠ i → Spec.queued c' j = Spec.queued c j
  same : SameMailboxes c c' i

/-- **A message goes to its place.** -/
theorem Chains.enqueue (h : Chains c) (hs : (c.mbxcb i).obj.state ≠ .noexs) (hm : Unqueued c m)
    (he : enqueueMsg m i c = .ok c') : Stored c c' i m := by
  have hfresh : ∀ j, j ≠ i → ∀ x ∈ place c i m (queued c i), x ∉ queued c j := by
    intro j hne x hx
    rcases mem_place.mp hx with rfl | hx
    · exact hm j
    · exact h.disjoint i j hne.symm x hx
  have hnd := nodup_place (c := c) (i := i) (hm i) (h.nodup i)
  unfold enqueueMsg at he
  by_cases hb : (c.mbxcb i).obj.objatr &&& taMpri ≠ 0
  · rw [if_pos hb, kqueueInsertMpri,
      kqueueInsertMpriLoop_eq _ (by have := length_le_nmsg (h.nodup i); omega) (h.chain i hs)] at he
    have hc := (Except.ok.inj he).symm
    have hplace : place c i m (queued c i) = _ := if_pos hb
    have hsame : SameMailboxes c c' i := by
      rw [hc]
      exact ⟨fun _ => rfl, rfl, fun _ _ => rfl⟩
    obtain ⟨hi, hj⟩ := h.splice _ _ hs hm List.takeWhile_append_dropWhile
      (congrArg Core.msgque hc)
    rw [hplace] at hnd hfresh
    obtain ⟨h₁, h₂, h₃⟩ := h.change hsame hs hnd hi hj hfresh (fun hn => absurd hb hn)
      fun hb => (h.sorted i hb).insertStable
    exact ⟨h₁, h₂.trans hplace.symm, h₃, hsame⟩
  · rw [if_neg hb] at he
    obtain rfl := Except.ok.inj he
    have hplace : place c i m (queued c i) = queued c i ++ [m] := if_neg hb
    -- the cell written is the head of an empty chain, and the last packet of any other one
    have hcell : (if headmsg i (setNextmsg (.pkt m) .null c) = .null then .mqHead i
        else (c.mbxcb i).mqTail) = ((queued c i).map .pkt).getLast?.getD (.mqHead i) := by
      have hhead : headmsg i (setNextmsg (.pkt m) .null c) = c.msgque (.mqHead i) := by
        simp [headmsg, setNextmsg]
      rw [hhead, (h.chain i hs).first]
      cases hq : (queued c i).getLast? with
      | none => simp [List.getLast?_eq_none_iff.mp hq]
      | some x =>
        rw [List.getLast?_map, hq, h.tail i hb x hq, if_neg ?_]
        · rfl
        · cases hl : queued c i with
          | nil => simp [hl] at hq
          | cons y l => simp
    have hmsgque : (appendMsg m i c).msgque = Function.update (Function.update c.msgque (.pkt m)
        .null) (((queued c i).map .pkt).getLast?.getD (.mqHead i)) (.pkt m) := by
      rw [← hcell]
      unfold appendMsg
      dsimp only
      split <;> rfl
    have hcb : ∀ d : Core cfg, d.mbxcb = c.mbxcb → d.msgpri = c.msgpri →
        SameMailboxes c (d.setMbxcb i fun cb => { cb with mqTail := .pkt m }) i ∧
        ((d.setMbxcb i fun cb => { cb with mqTail := .pkt m }).mbxcb i).mqTail = .pkt m := by
      intro d hd hp
      refine ⟨⟨fun j => ?_, hp, fun j hne => ?_⟩, ?_⟩
      · by_cases he : j = i
        · subst he; simp [Core.setMbxcb, hd]
        · simp [Core.setMbxcb, Function.update_of_ne he, hd]
      · simp [Core.setMbxcb, Function.update_of_ne hne, hd]
      · simp [Core.setMbxcb]
    obtain ⟨hsame, htail⟩ : SameMailboxes c (appendMsg m i c) i ∧
        ((appendMsg m i c).mbxcb i).mqTail = .pkt m := by
      unfold appendMsg
      dsimp only
      split <;> exact hcb _ rfl rfl
    obtain ⟨hi, hj⟩ := h.splice (queued c i) [] hs hm (List.append_nil _) hmsgque
    rw [hplace] at hnd hfresh
    obtain ⟨h₁, h₂, h₃⟩ := h.change hsame hs hnd hi hj hfresh
      (fun _ x hx => by simpa [htail] using hx) fun hbm => absurd hbm hb
    exact ⟨h₁, h₂.trans hplace.symm, h₃, hsame⟩

/-- **The first message leaves.** -/
theorem Chains.dequeue {p : VP} (h : Chains c) (hs : (c.mbxcb i).obj.state ≠ .noexs)
    (hq : queued c i = m :: l) :
    Chains (dequeueMsg i p c) ∧ queued (dequeueMsg i p c) i = l ∧
      (∀ j, j ≠ i → queued (dequeueMsg i p c) j = queued c j) ∧
      (dequeueMsg i p c).msgvar p = .pkt m := by
  have hch := h.chain i hs
  have hnd := h.nodup i
  rw [hq] at hch hnd
  have hhead : headmsg i c = .pkt m := hch.1
  have hnext : c.msgque (.pkt m) = (l.map .pkt).head?.getD .null := hch.2.first
  have hmsgque : (dequeueMsg i p c).msgque =
      Function.update c.msgque (.mqHead i) ((l.map .pkt).head?.getD .null) := by
    rw [← hnext, ← hhead]
    rfl
  have hvar : (dequeueMsg i p c).msgvar p = .pkt m := by
    rw [← hhead]
    exact Function.update_self ..
  have hsame : SameMailboxes c (dequeueMsg i p c) i := ⟨fun _ => rfl, rfl, fun _ _ => rfl⟩
  suffices hnew : Chains (dequeueMsg i p c) ∧ queued (dequeueMsg i p c) i = l ∧
      ∀ j, j ≠ i → queued (dequeueMsg i p c) j = queued c j from
    ⟨hnew.1, hnew.2.1, hnew.2.2, hvar⟩
  refine h.change hsame hs (List.nodup_cons.mp hnd).2 ?_ (fun j hne hex => ?_)
    (fun j hne x hx => ?_) (fun hb x hx => ?_) fun hb => ?_
  -- the head now points where the first message did
  · rw [hmsgque]
    exact @Path.bypass _ _ _ _ _ _ [] _ (nodup_chain hnd i) hch
  · rw [hmsgque]
    exact (h.chain j hex).update (other_cells hne (Or.inl rfl))
  · exact h.disjoint i j hne.symm x (by rw [hq]; simp [hx])
  · refine h.tail i hb x ?_
    rw [hq, List.getLast?_cons, hx]
    rfl
  · have hsort := h.sorted i hb
    rw [hq] at hsort
    exact (List.pairwise_cons.mp hsort).2

/-- **A mailbox is created or deleted**: its chain is empty. -/
theorem Chains.emptied (h : Chains c) (hcb : ∀ j, j ≠ i → c'.mbxcb j = c.mbxcb j)
    (hq : c'.msgque = Function.update c.msgque (.mqHead i) .null) (hp : c'.msgpri = c.msgpri) :
    Chains c' ∧ queued c' i = [] ∧ ∀ j, j ≠ i → queued c' j = queued c j := by
  have hchain : Chain c'.msgque (.mqHead i) [] := by
    rw [hq]
    exact Function.update_self ..
  have hqi : queued c' i = [] := by
    by_cases hn : (c'.mbxcb i).obj.state = .noexs
    · exact queued_noexs hn
    · exact queued_eq hn .nil hchain
  refine h.replace hcb hp hqi .nil hchain (fun j hne hex => ?_) (fun _ _ x hx => by cases hx)
    (fun _ x hx => by cases hx) fun _ => .nil
  rw [hq]
  exact (h.chain j hex).update (other_cells hne (Or.inl rfl))

/-- The messages are where they were, and their priorities are the same. -/
theorem Chains.same (h : Chains c) (hcb : c'.mbxcb = c.mbxcb) (hq : c'.msgque = c.msgque)
    (hp : ∀ j, ∀ x ∈ queued c j, c'.msgpri x = c.msgpri x) : Chains c' ∧ queued c' = queued c := by
  have hqs : queued c' = queued c := by
    funext j
    unfold queued
    rw [hcb, hq]
  refine ⟨⟨?_, ?_, ?_, ?_, fun j hb => ?_⟩, hqs⟩
  · rw [hqs, hcb, hq]; exact h.chain
  · rw [hqs]; exact h.nodup
  · rw [hqs]; exact h.disjoint
  · unfold ByMsgpri
    rw [hqs, hcb]
    exact h.tail
  · unfold ByMsgpri at hb
    rw [hcb] at hb
    rw [hqs]
    exact (h.sorted j hb).imp_of_mem fun hx hy hle => by rwa [hp j _ hx, hp j _ hy]

/-! ## Calls on other objects -/

/-- The calls that move messages, or make or remove a mailbox. -/
def Call.messages : Call cfg → Prop
  | .creMbx _ _ | .acreMbx _ | .sndMbx _ _ | .rcvMbx _ _ | .trcvMbx _ _ _ | .prcvMbx _ _
  | .delMbx _ | .setMsgpri _ _ => True
  | _ => False

/-- Everything but mailboxes and messages. -/
def elsewhere (cfg : Config) : Scope cfg where
  data o := ∀ i, o ≠ .mbx i
  queue _ := True
  messages := False
  suspends := True

/-- **All other calls leave mailboxes and messages alone.** -/
theorem exec_keeps_messages (h : Inv a) (hs : Sound a.core cl) (hc : ¬ Call.messages cl)
    (he : exec cl a = .ok (a', r)) : a'.core.mbxcb = a.core.mbxcb ∧
      a'.core.msgque = a.core.msgque ∧ a'.core.msgpri = a.core.msgpri := by
  by_cases hr : r = .blocked
  · subst hr
    obtain ⟨_, _, _, _, _, _, hb, rfl⟩ := exec_blocks h hs he
    exact ⟨hb.others.objects.mbxcb, hb.others.objects.msgque, hb.others.objects.msgpri⟩
  have hst := h.toSettled
  have hsem : ∀ i : SemIx cfg, (elsewhere cfg).data (.sem i) := fun i j hj => by cases hj
  have hflg : ∀ i : FlgIx cfg, (elsewhere cfg).data (.flg i) := fun i j hj => by cases hj
  suffices hf : Framed (elsewhere cfg) a (exec cl a) by
    have hf := hf _ he hr
    exact ⟨funext fun i => hf.mbxcb i fun hd => hd i rfl, (hf.messages id).1, (hf.messages id).2⟩
  cases cl with
  | creTsk tskid pk => exact hst.framed_creTsk
  | acreTsk pk => exact hst.framed_acreTskLoop _ _
  | delTsk tskid => exact hst.framed_delTsk fun _ => trivial
  | actTsk tskid => exact framed_actTsk.dispatchIfOk
  | iactTsk tskid => exact framed_actTsk
  | chgPri tskid tskpri => exact hst.framed_chgPri
  | rotRdq tskpri => exact framed_rotRdq
  | extTsk => exact hst.framed_extTsk
  | dlyTsk dlytim => exact framed_dlyTsk
  | susTsk tskid => exact hst.framed_susTsk trivial
  | rsmTsk tskid => exact framed_rsmTsk
  | slpTsk => exact framed_slpTsk
  | tslpTsk tmout => exact framed_slpTsk
  | wupTsk tskid => exact hst.framed_wupTsk.dispatchIfOk
  | iwupTsk tskid => exact hst.framed_wupTsk
  | canWup tskid => exact framed_canWup
  | creSem semid pk => exact .ite (fun _ => framed_self) fun _ => framed_creSem fun i _ _ => hsem i
  | acreSem pk => exact framed_acreSemLoop (fun i _ => hsem i) _ _
  | waiSem semid => exact framed_waiSem fun i _ => hsem i
  | twaiSem semid tmout => exact framed_waiSem fun i _ => hsem i
  | polSem semid => exact framed_waiSem fun i _ => hsem i
  | sigSem semid => exact (hst.framed_sigSem fun i _ => ⟨hsem i, trivial⟩).dispatchAll
  | isigSem semid => exact hst.framed_sigSem fun i _ => ⟨hsem i, trivial⟩
  | delSem semid => exact hst.framed_delSem fun i _ => ⟨hsem i, trivial⟩
  | refSem semid => exact framed_refSem
  | creFlg flgid pk => exact .ite (fun _ => framed_self) fun _ => framed_creFlg fun i _ _ => hflg i
  | acreFlg pk => exact framed_acreFlgLoop (fun i _ => hflg i) _ _
  | setFlg flgid setptn => exact (hst.framed_setFlg fun i _ => ⟨hflg i, trivial⟩).dispatchAll
  | isetFlg flgid setptn => exact hst.framed_setFlg fun i _ => ⟨hflg i, trivial⟩
  | clrFlg flgid clrptn => exact framed_clrFlg fun i _ => hflg i
  | waiFlg flgid waiptn wfmode p => exact framed_waiFlg fun i _ => hflg i
  | twaiFlg flgid waiptn wfmode p tmout => exact framed_waiFlg fun i _ => hflg i
  | polFlg flgid waiptn wfmode p => exact framed_waiFlg fun i _ => hflg i
  | refFlg flgid => exact framed_refFlg
  | delFlg flgid => exact hst.framed_delFlg fun i _ => ⟨hflg i, trivial⟩
  | refMbx mbxid => exact framed_refMbx
  | timerHandler => exact (hst.frame_timerHandler fun _ => trivial).framed
  | dispatch => exact (Frame.refl a).dispatch.framed
  | _ => exact absurd trivial hc

end Ittrium.Spec
