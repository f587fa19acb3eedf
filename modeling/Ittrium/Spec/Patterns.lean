import Ittrium.Spec.Objects
import Ittrium.Spec.Timers

/-!
# The patterns of an eventflag

* `Satisfies` — when a pattern ends the wait of a task
* `Offered` — which tasks of the line are released, and what they get
* `offerAll_kept`, `offerAll_cleared` — without `TA_CLR` all tasks the pattern satisfies, with it
  the first one
* `exec_flg` — **what a step does to an eventflag**
-/

namespace Ittrium.Spec

open Infra

variable {cfg : Config} {a a' b : Model cfg} {i : FlgIx cfg} {t u : TskIx cfg} {c : Call cfg}
  {r : Ret cfg} {ptn waiptn : FLGPTN} {wfmode : MODE}

/-! ## Conditions -/

/-- All bits of `waiptn` are set, or one of them, as the mode says. -/
def Satisfies (ptn waiptn : FLGPTN) (wfmode : MODE) : Prop :=
  (wfmode = twfAndw → ptn &&& waiptn = waiptn) ∧ (wfmode = twfOrw → ptn &&& waiptn ≠ 0)

instance (ptn waiptn : FLGPTN) (wfmode : MODE) : Decidable (Satisfies ptn waiptn wfmode) :=
  inferInstanceAs (Decidable (_ ∧ _))

/-- **`eventflag_cond` decides it.** -/
theorem eventflagCond_iff (cb : FLGCB) (h : GoodWait waiptn wfmode) :
    eventflagCond cb waiptn wfmode = true ↔ Satisfies cb.flgptn waiptn wfmode := by
  unfold eventflagCond Satisfies
  rcases h.1 with rfl | rfl
  · rw [if_neg (by decide)]
    simp [twfAndw, twfOrw]
  · rw [if_pos (by decide)]
    simp [twfAndw, twfOrw]

theorem eventflagCond_eq_false (cb : FLGCB) (h : GoodWait waiptn wfmode) :
    eventflagCond cb waiptn wfmode = false ↔ ¬ Satisfies cb.flgptn waiptn wfmode := by
  rw [← eventflagCond_iff cb h, Bool.not_eq_true]

/-- The empty pattern satisfies nobody. -/
theorem not_satisfies_zero (h : GoodWait waiptn wfmode) : ¬ Satisfies 0 waiptn wfmode := by
  intro hs
  rcases h.1 with hm | hm
  · exact h.2 ((BitVec.zero_and.symm.trans (hs.1 hm)).symm)
  · exact hs.2 hm BitVec.zero_and

/-- A pattern with fewer bits satisfies fewer tasks. -/
theorem Satisfies.of_and {x : FLGPTN} (h : Satisfies (ptn &&& x) waiptn wfmode) :
    Satisfies ptn waiptn wfmode := by
  refine ⟨fun hm => ?_, fun hm hz => h.2 hm ?_⟩
  · have hx := h.1 hm
    calc ptn &&& waiptn = ptn &&& (ptn &&& x &&& waiptn) := by rw [hx]
      _ = ptn &&& x &&& waiptn := by rw [BitVec.and_assoc, ← BitVec.and_assoc, BitVec.and_self]
      _ = waiptn := hx
  · calc ptn &&& x &&& waiptn = ptn &&& waiptn &&& x := by
          rw [BitVec.and_assoc, BitVec.and_comm x, BitVec.and_assoc]
      _ = 0#_ &&& x := by rw [hz]; rfl
      _ = 0 := BitVec.zero_and

/-- The condition of the waiting task `t` holds for the pattern of the eventflag. -/
def Model.satisfied (a : Model cfg) (i : FlgIx cfg) (t : TskIx cfg) : Bool :=
  let w := (a.core.tcb t).waitinfo
  eventflagCond (a.core.flgcb i) w.waiptn w.wfmode

/-! ## One task is offered the pattern -/

theorem flgcb_setFlgcb (c : Core cfg) (i : FlgIx cfg) (f : FLGCB → FLGCB) :
    (c.setFlgcb i f).flgcb i = f (c.flgcb i) :=
  Function.update_self ..

/-- The state in which `_set_flg` walks along the line. -/
def Model.setPtn (i : FlgIx cfg) (setptn : FLGPTN) (a : Model cfg) : Model cfg :=
  a.setCore (Core.setFlgcb i fun cb => { cb with flgptn := cb.flgptn ||| setptn })

theorem flgcb_setPtn (i : FlgIx cfg) (setptn : FLGPTN) (a : Model cfg) :
    (a.setPtn i setptn).core.flgcb i =
      { a.core.flgcb i with flgptn := (a.core.flgcb i).flgptn ||| setptn } :=
  flgcb_setFlgcb a.core i fun cb => { cb with flgptn := cb.flgptn ||| setptn }

theorem Settled.setPtn (h : Settled a) (i : FlgIx cfg) (setptn : FLGPTN) :
    Settled (a.setPtn i setptn) :=
  (h.setFlgcb (i := i) (f := fun cb => { cb with flgptn := cb.flgptn ||| setptn })
    fun _ => rfl).settled

theorem release_flgvar (t : TskIx cfg) (e : ER) (a : Model cfg) :
    (a.release t e).core.flgvar = a.core.flgvar := by
  have hc := congrArg Core.flgvar (Model.cancel_core t a)
  rw [Model.release_eq]
  unfold Model.leaveWait
  dsimp only
  split <;> exact hc

theorem offer_unsatisfied (h : a.satisfied i t = false) : a.offer i t = a :=
  if_neg (Bool.eq_false_iff.mp h)

/-- The state after the release of a task the pattern satisfies. -/
structure Releases (i : FlgIx cfg) (t : TskIx cfg) (a b : Model cfg) : Prop where
  settled : Settled b
  queue : b.queue (.waitq (.flg i)) = (a.queue (.waitq (.flg i))).erase t
  state : (b.core.tcb t).state = .rdy ∨ (b.core.tcb t).state = .sus
  ercd : (b.core.tcb t).ercd = .ok
  others : ∀ u, u ≠ t → b.core.tcb u = a.core.tcb u
  flgvar : b.core.flgvar = Function.update a.core.flgvar (a.core.tcb t).waitinfo.pFlgptn
    (a.core.flgcb i).flgptn
  flgcb : b.core.flgcb i = clearFlgptn (a.core.flgcb i)

/-- **A task the pattern satisfies is released.** -/
theorem Settled.releases (h : Settled a) (ht : t ∈ a.queue (.waitq (.flg i)))
    (hc : a.satisfied i t = true) : Releases i t a (a.offer i t) := by
  have hs := (h.offer ht).1.settled
  have ho : a.offer i t = ((a.setCore fun c =>
      { c with
        flgvar := Function.update c.flgvar (a.core.tcb t).waitinfo.pFlgptn
          (c.flgcb i).flgptn }).release t .ok).setCore (Core.setFlgcb i clearFlgptn) := if_pos hc
  rw [ho] at hs ⊢
  have h₁ := (h.setRest (f := fun c => { c with
    flgvar := Function.update c.flgvar (a.core.tcb t).waitinfo.pFlgptn (c.flgcb i).flgptn })
    rfl rfl rfl rfl rfl).settled
  refine ⟨hs, h₁.release_waitq t .ok _, release_tcb_state t .ok _, release_tcb_ercd t .ok _,
    (Others.release .ok h₁.nodup).tcb, release_flgvar t .ok _, ?_⟩
  refine (flgcb_setFlgcb ..).trans ?_
  rw [(release_objects t .ok _).flgcb]
  rfl

/-! ## All tasks are offered it -/

/-- The tasks of `rel` have been released with the pattern `ptn`, all others are as before. -/
structure Offered (i : FlgIx cfg) (rel : List (TskIx cfg)) (ptn : FLGPTN) (a b : Model cfg) :
    Prop where
  queue : b.queue (.waitq (.flg i)) = (a.queue (.waitq (.flg i))).filter fun t => t ∉ rel
  state : ∀ t ∈ rel, (b.core.tcb t).state = .rdy ∨ (b.core.tcb t).state = .sus
  ercd : ∀ t ∈ rel, (b.core.tcb t).ercd = .ok
  pattern : ∀ t ∈ rel, b.core.flgvar (a.core.tcb t).waitinfo.pFlgptn = ptn
  others : ∀ u, u ∉ rel → b.core.tcb u = a.core.tcb u

theorem Offered.none (i : FlgIx cfg) (ptn : FLGPTN) (a : Model cfg) : Offered i [] ptn a a where
  queue := by simp
  state := by simp
  ercd := by simp
  pattern := by simp
  others := fun _ _ => rfl

theorem Releases.offered (h : Releases i t a b) (hs : Settled a) :
    Offered i [t] (a.core.flgcb i).flgptn a b where
  queue := by
    rw [h.queue, (hs.nodup _).erase_eq_filter]
    refine List.filter_congr fun u _ => ?_
    simp [bne, beq_eq_decide]
  state := by simpa using h.state
  ercd := by simpa using h.ercd
  pattern := by
    intro u hu
    rw [List.mem_singleton.mp hu, h.flgvar, Function.update_self]
  others := fun u hu => h.others u (by simpa using hu)

theorem clearFlgptn_kept {cb : FLGCB} (h : cb.obj.objatr &&& taClr = 0) : clearFlgptn cb = cb :=
  if_neg (not_not.mpr h)

theorem clearFlgptn_cleared {cb : FLGCB} (h : cb.obj.objatr &&& taClr ≠ 0) :
    clearFlgptn cb = { cb with flgptn := 0 } :=
  if_pos h

/-- Without `TA_CLR` everybody in the line who is satisfied is released. -/
theorem foldl_offer_kept (hk : (a.core.flgcb i).obj.objatr &&& taClr = 0) (hs : Settled a) :
    ∀ ts : List (TskIx cfg), ts.Nodup → (∀ t ∈ ts, t ∈ a.queue (.waitq (.flg i))) →
      Offered i (ts.filter (a.satisfied i)) (a.core.flgcb i).flgptn a
        (ts.foldl (fun a t => a.offer i t) a) ∧
      (ts.foldl (fun a t => a.offer i t) a).core.flgcb i = a.core.flgcb i ∧
      ∀ p, (ts.foldl (fun a t => a.offer i t) a).core.flgvar p = a.core.flgvar p ∨
        (ts.foldl (fun a t => a.offer i t) a).core.flgvar p = (a.core.flgcb i).flgptn := by
  intro ts
  induction ts generalizing a with
  | nil => exact fun _ _ => ⟨.none i _ a, rfl, fun _ => Or.inl rfl⟩
  | cons t ts ih =>
    intro hnd hm
    obtain ⟨hno, hnd⟩ := List.nodup_cons.mp hnd
    by_cases hc : a.satisfied i t = true
    · have hr := hs.releases (hm t (by simp)) hc
      have hcb : (a.offer i t).core.flgcb i = a.core.flgcb i := hr.flgcb.trans (clearFlgptn_kept hk)
      have hne : ∀ u ∈ ts, u ≠ t := fun u hu he => hno (he ▸ hu)
      have hsat : ∀ u ∈ ts, (a.offer i t).satisfied i u = a.satisfied i u := by
        intro u hu
        unfold Model.satisfied
        rw [hcb, hr.others u (hne u hu)]
      obtain ⟨ho, hcb', hvar⟩ := ih (a := a.offer i t) (by rw [hcb]; exact hk) hr.settled hnd
        fun u hu => by
          rw [hr.queue]
          exact (List.mem_erase_of_ne (hne u hu)).mpr (hm u (by simp [hu]))
      rw [List.filter_congr hsat, hcb] at ho
      rw [hcb] at hcb' hvar
      rw [List.foldl_cons, List.filter_cons_of_pos hc]
      have hrel : t ∉ ts.filter (a.satisfied i) := fun hm => hno (List.mem_of_mem_filter hm)
      refine ⟨⟨?_, ?_, ?_, ?_, ?_⟩, hcb', fun p => ?_⟩
      · rw [ho.queue, (hr.offered hs).queue, List.filter_filter]
        refine List.filter_congr fun u _ => ?_
        simp [Bool.and_comm]
      · intro u hu
        rcases List.mem_cons.mp hu with rfl | hu
        · rw [ho.others u hrel]
          exact hr.state
        · exact ho.state u hu
      · intro u hu
        rcases List.mem_cons.mp hu with rfl | hu
        · rw [ho.others u hrel]
          exact hr.ercd
        · exact ho.ercd u hu
      · intro u hu
        rcases List.mem_cons.mp hu with rfl | hu
        · -- later tasks may have given the same address, and write the same pattern there
          rcases hvar (a.core.tcb u).waitinfo.pFlgptn with hp | hp
          · rw [hp, hr.flgvar, Function.update_self]
          · exact hp
        · have hp := ho.pattern u hu
          rwa [hr.others u fun he => hrel (he ▸ hu)] at hp
      · intro u hu
        rw [List.mem_cons, not_or] at hu
        rw [ho.others u hu.2, hr.others u hu.1]
      · rcases hvar p with hp | hp
        · rw [hp, hr.flgvar]
          by_cases he : p = (a.core.tcb t).waitinfo.pFlgptn
          · rw [he, Function.update_self]
            exact Or.inr rfl
          · rw [Function.update_of_ne he]
            exact Or.inl rfl
        · exact Or.inr hp
    · have hc := Bool.eq_false_iff.mpr hc
      rw [List.foldl_cons, offer_unsatisfied hc, List.filter_cons_of_neg (by simp [hc])]
      exact ih hk hs hnd fun u hu => hm u (by simp [hu])

/-- Nobody is released whom the pattern does not satisfy. -/
theorem foldl_offer_unsatisfied : ∀ ts : List (TskIx cfg), (∀ t ∈ ts, a.satisfied i t = false) →
    ts.foldl (fun a t => a.offer i t) a = a
  | [], _ => rfl
  | t :: ts, h => by
    rw [List.foldl_cons, offer_unsatisfied (h t (by simp))]
    exact foldl_offer_unsatisfied ts fun u hu => h u (by simp [hu])

/-- The requests of the tasks in the line are ones `wai_flg` accepts. -/
def GoodRequests (i : FlgIx cfg) (a : Model cfg) : Prop :=
  ∀ t ∈ a.queue (.waitq (.flg i)),
    GoodWait (a.core.tcb t).waitinfo.waiptn (a.core.tcb t).waitinfo.wfmode

/-- With `TA_CLR` the first task of the line that is satisfied is released. -/
theorem foldl_offer_cleared (hk : (a.core.flgcb i).obj.objatr &&& taClr ≠ 0) (hs : Settled a)
    (hg : GoodRequests i a) :
    ∀ ts : List (TskIx cfg), ts.Nodup → (∀ t ∈ ts, t ∈ a.queue (.waitq (.flg i))) →
      Offered i (ts.find? (a.satisfied i)).toList (a.core.flgcb i).flgptn a
        (ts.foldl (fun a t => a.offer i t) a) ∧
      (ts.foldl (fun a t => a.offer i t) a).core.flgcb i =
        if ts.find? (a.satisfied i) = none then a.core.flgcb i
        else { a.core.flgcb i with flgptn := 0 }
  | [], _, _ => ⟨.none i _ a, by simp⟩
  | t :: ts, hnd, hm => by
    obtain ⟨hno, hnd⟩ := List.nodup_cons.mp hnd
    by_cases hc : a.satisfied i t = true
    · have hr := hs.releases (hm t (by simp)) hc
      have hcb := hr.flgcb.trans (clearFlgptn_cleared hk)
      -- the pattern is empty now, and the walk goes on over tasks that want something
      have hrest : ∀ u ∈ ts, (a.offer i t).satisfied i u = false := by
        intro u hu
        unfold Model.satisfied
        rw [hr.others u fun he => hno (he ▸ hu),
          eventflagCond_eq_false _ (hg u (hm u (by simp [hu]))), hcb]
        exact not_satisfies_zero (hg u (hm u (by simp [hu])))
      rw [List.foldl_cons, foldl_offer_unsatisfied ts hrest, List.find?_cons_of_pos hc]
      exact ⟨hr.offered hs, by rw [if_neg (by simp)]; exact hcb⟩
    · rw [List.foldl_cons, offer_unsatisfied (Bool.eq_false_iff.mpr hc), List.find?_cons_of_neg hc]
      exact foldl_offer_cleared hk hs hg ts hnd fun u hu => hm u (by simp [hu])

/-- **Without `TA_CLR` all tasks the pattern satisfies are released.** -/
theorem offerAll_kept (hk : (a.core.flgcb i).obj.objatr &&& taClr = 0) (hs : Settled a) :
    Offered i ((a.queue (.waitq (.flg i))).filter (a.satisfied i)) (a.core.flgcb i).flgptn a
      (a.offerAll i) ∧ (a.offerAll i).core.flgcb i = a.core.flgcb i := by
  obtain ⟨h₁, h₂, -⟩ := foldl_offer_kept hk hs _ (hs.nodup _) fun _ h => h
  exact ⟨h₁, h₂⟩

/-- **With `TA_CLR` the first of them is released**, and the pattern is empty then. -/
theorem offerAll_cleared (hk : (a.core.flgcb i).obj.objatr &&& taClr ≠ 0) (hs : Settled a)
    (hg : GoodRequests i a) :
    Offered i ((a.queue (.waitq (.flg i))).find? (a.satisfied i)).toList (a.core.flgcb i).flgptn a
      (a.offerAll i) ∧
    (a.offerAll i).core.flgcb i =
      if (a.queue (.waitq (.flg i))).find? (a.satisfied i) = none then a.core.flgcb i
      else { a.core.flgcb i with flgptn := 0 } :=
  foldl_offer_cleared hk hs hg _ (hs.nodup _) fun _ h => h

/-! ## All steps -/

/-- An ID of an eventflag. -/
theorem getFlgcb_of_map {flgid : Int}
    (h : (getFlgcb flgid : Exec (FlgIx cfg)).toOption.map ObjId.flg = some (.flg i)) :
    getFlgcb flgid = .ok i :=
  ok_of_toOption_map (fun _ _ => ObjId.flg.inj) h

/-- The pattern may have lost bits, the rest is the same. -/
def Masked (cb cb' : FLGCB) : Prop := ∃ x, cb' = { cb with flgptn := cb.flgptn &&& x }

theorem Masked.refl (cb : FLGCB) : Masked cb cb :=
  ⟨.allOnes _, by rw [BitVec.and_allOnes]⟩

theorem Masked.clearFlgptn (cb : FLGCB) : Masked cb (clearFlgptn cb) := by
  unfold Ittrium.clearFlgptn
  split
  · exact ⟨0#_, by rw [BitVec.and_zero]; rfl⟩
  · exact .refl cb

theorem WaiFlg.masked {p : VP} (h : WaiFlg i waiptn wfmode p a r b) (hr : r ≠ .blocked) :
    Masked (a.core.flgcb i) (b.core.flgcb i) := by
  cases h with
  | refused _ => exact .refl _
  | failed _ _ _ => exact .refl _
  | blocked _ _ _ => exact absurd rfl hr
  | satisfied _ _ _ =>
    have hcb : ∀ c : Core cfg, c.flgcb = a.core.flgcb →
        Masked (a.core.flgcb i) ((c.setFlgcb i Ittrium.clearFlgptn).flgcb i) := by
      intro c hc
      rw [flgcb_setFlgcb, hc]
      exact .clearFlgptn _
    exact hcb _ rfl

theorem clrFlg_masked {flgid : Int} {clrptn : FLGPTN} (hi : getFlgcb flgid = .ok i)
    (he : exec (.clrFlg flgid clrptn) a = .ok (a', r)) :
    Masked (a.core.flgcb i) (a'.core.flgcb i) := by
  have h : Ensures (clrFlg flgid clrptn a) fun v => Masked (a.core.flgcb i) (v.1.core.flgcb i) := by
    unfold clrFlg
    rw [badFlgid_of_ok hi, hi]
    refine .ite (fun hf => absurd hf (by simp)) fun _ => .bind' fun j hj => ?_
    obtain rfl := Except.ok.inj hj
    refine .ite (fun _ => .ok (.refl _)) fun _ => .ok ⟨clrptn, ?_⟩
    exact flgcb_setFlgcb a.core i fun cb => { cb with flgptn := cb.flgptn &&& clrptn }
  exact h _ he

/-- Nobody waits for an eventflag that has been deleted. -/
theorem delFlg_waitq {flgid : Int} (hi : getFlgcb flgid = .ok i) (hs : Settled a)
    (he : exec (.delFlg flgid) a = .ok (a', r)) : a'.queue (.waitq (.flg i)) = [] := by
  have h : Ensures (delFlg flgid a) fun v => v.1.queue (.waitq (.flg i)) = [] := by
    unfold delFlg
    rw [badFlgid_of_ok hi, hi]
    refine .ite (fun hf => absurd hf (by simp)) fun _ => .bind' fun j hj => ?_
    obtain rfl := Except.ok.inj hj
    refine .ite (fun hn => .ok (hs.waitq_eq_nil (o := .flg i) hn)) fun _ => .ok ?_
    exact releaseAll_waitq hs _
  exact h _ he

theorem offer_obj (i : FlgIx cfg) (t : TskIx cfg) (a : Model cfg) :
    ((a.offer i t).core.flgcb i).obj = (a.core.flgcb i).obj := by
  unfold Model.offer
  dsimp only
  split
  · refine (congrArg FLGCB.obj (flgcb_setFlgcb ..)).trans ?_
    rw [clearFlgptn_obj, (release_objects t .ok _).flgcb]
    rfl
  · rfl

theorem offerAll_obj (i : FlgIx cfg) (a : Model cfg) :
    ((a.offerAll i).core.flgcb i).obj = (a.core.flgcb i).obj := by
  unfold Model.offerAll
  generalize a.queue (.waitq (.flg i)) = ts
  induction ts generalizing a with
  | nil => rfl
  | cons t ts ih => exact (ih _).trans (offer_obj i t a)

/-- What happens to an eventflag: a call sets bits of the pattern, or the pattern loses bits. -/
inductive FlgStep (i : FlgIx cfg) (c : Call cfg) (a a' : Model cfg) : Prop where
  | set {setptn : FLGPTN} : Call.setPtn i c = some setptn →
      (a'.core.flgcb i).obj = (a.core.flgcb i).obj → FlgStep i c a a'
  | masked : Masked (a.core.flgcb i) (a'.core.flgcb i) → FlgStep i c a a'

theorem FlgStep.obj (h : FlgStep i c a a') : (a'.core.flgcb i).obj = (a.core.flgcb i).obj := by
  cases h with
  | set _ h => exact h
  | masked h =>
    obtain ⟨x, hx⟩ := h
    rw [hx]

/-- **What a step other than its deletion does to an eventflag.** -/
theorem exec_flg (h : Inv a) (hs : Sound a.core c) (he : exec c a = .ok (a', r))
    (hex : (a.core.flgcb i).obj.state ≠ .noexs)
    (hdel : ∀ flgid, c = .delFlg flgid → getFlgcb flgid ≠ .ok i) : FlgStep i c a a' := by
  have hsame : a'.core.flgcb i = a.core.flgcb i → FlgStep i c a a' :=
    fun hcb => .masked (by rw [hcb]; exact .refl _)
  by_cases hr : r = .blocked
  · subst hr
    obtain ⟨_, _, _, _, _, _, hb, rfl⟩ := exec_blocks h hs he
    exact hsame (congrFun hb.others.objects.flgcb i)
  have hset : ∀ {setptn}, Call.setPtn i c = some setptn → FlgStep i c a a' := by
    intro setptn hc
    obtain ⟨-, hd⟩ := exec_setFlg hc hex he
    have hcb := congrArg FLGCB.obj (flgcb_setPtn i setptn a)
    refine .set hc ?_
    rw [hd.core, offerAll_obj]
    exact hcb
  have hwai : ∀ {w m p}, Call.flgWait i c = some (w, m, p) → FlgStep i c a a' := by
    intro w m p hw
    obtain ⟨b, hb, hd⟩ := exec_waiFlg hw hex he
    refine .masked ?_
    rw [hd.core]
    exact hb.masked hr
  -- a call on another object cannot change the flag
  by_cases hobj : Call.obj c = some (.flg i)
  · cases c with
    | creFlg flgid pk => exact hsame (by rw [(exec_creFlg_exists (getFlgcb_of_map hobj) hex he).1])
    | refFlg flgid => exact hsame (by rw [exec_refFlg he])
    | delFlg flgid => exact absurd (getFlgcb_of_map hobj) (hdel flgid rfl)
    | clrFlg flgid clrptn => exact .masked (clrFlg_masked (getFlgcb_of_map hobj) he)
    | setFlg flgid setptn => exact hset (if_pos (getFlgcb_of_map hobj))
    | isetFlg flgid setptn => exact hset (if_pos (getFlgcb_of_map hobj))
    | waiFlg flgid w m p => exact hwai (if_pos (getFlgcb_of_map hobj))
    | twaiFlg flgid w m p tmout => exact hwai (if_pos (getFlgcb_of_map hobj))
    | polFlg flgid w m p => exact hwai (if_pos (getFlgcb_of_map hobj))
    | _ => first | cases hobj | exact absurd hobj (toOption_map_ne (by simp))
  · refine hsame ((exec_frame h hs _ he).flgcb i ?_)
    rintro (ho | hn)
    · exact hobj ho
    · exact hex hn

/-- A task that waits for an eventflag has kept its request. -/
theorem exec_waiFlg_blocked {p : VP} (hc : Call.flgWait i c = some (waiptn, wfmode, p))
    (hex : (a.core.flgcb i).obj.state ≠ .noexs) (he : exec c a = .ok (a', .blocked))
    (ht : a.runtsk = some t) :
    (a'.core.tcb t).waitinfo = .flg waiptn wfmode p ∧ GoodWait waiptn wfmode ∧
      ¬ Satisfies (a.core.flgcb i).flgptn waiptn wfmode := by
  obtain ⟨b, hb, hd⟩ := exec_waiFlg hc hex he
  rw [hd.core]
  cases hb with
  | @blocked u tm hg hu hcond =>
    obtain rfl : t = u := Option.some.inj (ht.symm.trans hu)
    refine ⟨?_, hg, (eventflagCond_eq_false _ hg).mp hcond⟩
    obtain ⟨m, hm⟩ := Model.startWait_tcb t tm
      (((a.setTcb t fun tcb => { tcb with ercd := .tmout }).setTcb t fun tcb =>
        { tcb with waitinfo := .flg waiptn wfmode p }).setTcb t fun tcb =>
          { tcb with waitObj := some (.flg i) })
    rw [objWait_core, hm]
    simp only [Model.setTcb_tcb_self]

end Ittrium.Spec
