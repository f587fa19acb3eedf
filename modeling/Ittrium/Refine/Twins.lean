import Ittrium.Infra.Outcome
import Ittrium.Refine.Rdyq
import Ittrium.Spec.Loops

/-!
# States that differ outside the arrays of the ready queue

What lies past the ends of `priq` and `bitmap` may hold anything. As long as all that is used as an
index is one, the kernel does the same whatever it is, and leaves it as it is.

* `withOutside m s` — `s`, with what `m` has outside the arrays
* `InRange` — stored priorities, `top_priority`, bits and links lead nowhere outside
* `Twin m s w` — `s` is in range, and `w` is `withOutside m s`

Each function takes states that are twins to states that are.
-/

namespace Ittrium

open Infra Spec Refine

variable {cfg : Config} {m s s' w : Kernel cfg} {t : TskIx cfg}

/-! ## Outside the arrays -/

/-- `&priq[p]` for an index outside the array. -/
def Outside : Node cfg → Prop
  | .priq p => ¬ LinePri cfg p
  | _ => False

instance : DecidablePred (@Outside cfg) := fun x => by
  cases x with
  | priq p => exact inferInstanceAs (Decidable (¬ (_ ∧ _)))
  | _ => exact .isFalse id

/-- An index outside `bitmap`. -/
def OutsideWord (cfg : Config) (i : Int) : Prop := ¬ (0 ≤ i ∧ i < cfg.numBitmap)

instance : DecidablePred (OutsideWord cfg) := fun _ => inferInstanceAs (Decidable (¬ (_ ∧ _)))

/-- The links `h`, with those of `g` outside `priq`. -/
def linksWithOutside (g h : Links (Node cfg)) : Links (Node cfg) where
  next x := if Outside x then g.next x else h.next x
  prev x := if Outside x then g.prev x else h.prev x

/-- The state `s`, with what `m` has outside `priq` and `bitmap`. -/
def withOutside (m s : Kernel cfg) : Kernel cfg :=
  { s with
    links := linksWithOutside m.links s.links
    rdyq :=
      { s.rdyq with
        bitmap := fun i => if OutsideWord cfg i then m.rdyq.bitmap i else s.rdyq.bitmap i } }

/-- No node of the arrays points at one outside. -/
def InsideLinks (h : Links (Node cfg)) : Prop :=
  ∀ x, ¬ Outside x → ¬ Outside (h.next x) ∧ ¬ Outside (h.prev x)

/-- Only bits of lines are set. -/
def InsideBits (cfg : Config) (bitmap : Int → UINT) : Prop :=
  ∀ i : Nat, i < cfg.numBitmap → ∀ k, k < 32 → (bitmap i).getLsbD k →
    LinePri cfg (i * cfg.bitmapsz + k)

/-- Whatever is used as an index is one. -/
structure InRange (s : Kernel cfg) : Prop where
  tskpri : ∀ t, LinePri cfg (s.core.tcb t).tskpri
  itskpri : ∀ t, LinePri cfg (s.core.tcb t).itskpri
  top : 0 ≤ s.rdyq.topPriority ∧ s.rdyq.topPriority ≤ cfg.tmaxTpri
  bitmap : InsideBits cfg s.rdyq.bitmap
  links : InsideLinks s.links

/-- Everything is in range in `s`, from which `w` differs outside the arrays only. -/
def Twin (m s w : Kernel cfg) : Prop := InRange s ∧ w = withOutside m s

theorem not_outside_priq {p : Int} (hp : LinePri cfg p) : ¬ Outside (.priq p : Node cfg) :=
  not_not.mpr hp

theorem not_outsideWord {p : Int} (hp : LinePri cfg p) : ¬ OutsideWord cfg (bitmapWord cfg p) := by
  obtain ⟨i, k, hi, -, -, hw, -⟩ := bitmapWord_eq hp
  rw [hw]
  exact not_not.mpr ⟨by omega, by omega⟩

/-! ## Links -/

section

variable {h g : Links (Node cfg)} {x y : Node cfg}

theorem linksWithOutside_next (hx : ¬ Outside x) : (linksWithOutside g h).next x = h.next x :=
  if_neg hx

theorem linksWithOutside_prev (hx : ¬ Outside x) : (linksWithOutside g h).prev x = h.prev x :=
  if_neg hx

/-- An entry that is not replaced can be set before or after the others are. -/
theorem update_ite {α β : Type} [DecidableEq α] {P : α → Prop} [DecidablePred P] {x : α} {y : β}
    {f g : α → β} (hx : ¬ P x) :
    Function.update (fun z => if P z then g z else f z) x y =
      fun z => if P z then g z else Function.update f x y z := by
  funext z
  by_cases hz : z = x
  · subst hz
    rw [Function.update_self, if_neg hx, Function.update_self]
  · rw [Function.update_of_ne hz, Function.update_of_ne hz]

theorem setNext_withOutside (hx : ¬ Outside x) :
    setNext x y (linksWithOutside g h) = linksWithOutside g (setNext x y h) :=
  congrArg (Links.mk · (linksWithOutside g h).prev) (update_ite hx)

theorem setPrev_withOutside (hx : ¬ Outside x) :
    setPrev x y (linksWithOutside g h) = linksWithOutside g (setPrev x y h) :=
  congrArg (Links.mk (linksWithOutside g h).next) (update_ite hx)

theorem InsideLinks.setNext (hh : InsideLinks h) (hy : ¬ Outside y) :
    InsideLinks (setNext x y h) := by
  intro z hz
  refine ⟨?_, (hh z hz).2⟩
  show ¬ Outside (Function.update h.next x y z)
  by_cases hzx : z = x
  · rw [hzx, Function.update_self]; exact hy
  · rw [Function.update_of_ne hzx]; exact (hh z hz).1

theorem InsideLinks.setPrev (hh : InsideLinks h) (hy : ¬ Outside y) :
    InsideLinks (setPrev x y h) := by
  intro z hz
  refine ⟨(hh z hz).1, ?_⟩
  show ¬ Outside (Function.update h.prev x y z)
  by_cases hzx : z = x
  · rw [hzx, Function.update_self]; exact hy
  · rw [Function.update_of_ne hzx]; exact (hh z hz).2

/-- A queue primitive keeps to the nodes it finds. -/
def Inside (f : Links (Node cfg) → Links (Node cfg)) : Prop :=
  ∀ h, InsideLinks h →
    InsideLinks (f h) ∧ ∀ g, f (linksWithOutside g h) = linksWithOutside g (f h)

theorem inside_kqueueInit (hx : ¬ Outside x) : Inside (kqueueInit x) := by
  intro h hh
  refine ⟨(hh.setNext hx).setPrev hx, fun g => ?_⟩
  simp only [kqueueInit]
  rw [setNext_withOutside hx, setPrev_withOutside hx]

theorem inside_kqueueInsert (hx : ¬ Outside x) (hy : ¬ Outside y) : Inside (kqueueInsert x y) := by
  intro h hh
  have hp : ¬ Outside (h.prev y) := (hh y hy).2
  have h₁ : InsideLinks (setPrev x (h.prev y) h) := hh.setPrev hp
  have h₂ : InsideLinks (setNext x y (setPrev x (h.prev y) h)) := h₁.setNext hy
  have hp₂ := (h₂ y hy).2
  refine ⟨(h₂.setNext hx).setPrev hx, fun g => ?_⟩
  simp only [kqueueInsert]
  rw [linksWithOutside_prev hy, setPrev_withOutside hx, setNext_withOutside hx,
    linksWithOutside_prev hy, setNext_withOutside hp₂, setPrev_withOutside hy]

theorem inside_kqueueRemove (hx : ¬ Outside x) : Inside (kqueueRemove x) := by
  intro h hh
  obtain ⟨hn, hp⟩ := hh x hx
  have h₁ : InsideLinks (setNext (h.prev x) (h.next x) h) := hh.setNext hn
  obtain ⟨hn₁, hp₁⟩ := h₁ x hx
  constructor
  · unfold kqueueRemove
    split
    · exact h₁.setPrev hp₁
    · exact hh
  · intro g
    simp only [kqueueRemove]
    rw [linksWithOutside_next hx, linksWithOutside_prev hx, setNext_withOutside hp,
      linksWithOutside_next hx, linksWithOutside_prev hx, setPrev_withOutside hn₁]
    split <;> rfl

/-- Taking the first entry off a ring and putting it at the end. -/
theorem inside_rotate (hx : ¬ Outside x) :
    Inside fun h => kqueueInsert (kqueueRemoveNext x h).1 x (kqueueRemoveNext x h).2 := by
  intro h hh
  have he : ¬ Outside (h.next x) := (hh x hx).1
  have h₁ : InsideLinks (setNext x (h.next (h.next x)) h) := hh.setNext (hh _ he).1
  have hne : ¬ Outside ((setNext x (h.next (h.next x)) h).next (h.next x)) := (h₁ _ he).1
  obtain ⟨hl, hc⟩ := inside_kqueueInsert he hx _ (h₁.setPrev hx)
  refine ⟨hl, fun g => ?_⟩
  simp only [kqueueRemoveNext]
  rw [linksWithOutside_next hx, linksWithOutside_next he, setNext_withOutside hx,
    linksWithOutside_next he, setPrev_withOutside hne]
  exact hc g

end

/-! ## Bits -/

section

variable {p : Int} {rq : RDYQ} {bitmap bitmap' : Int → UINT}

theorem InsideBits.set (hb : InsideBits cfg rq.bitmap) (hp : LinePri cfg p) :
    InsideBits cfg (rdyqBitmapSet cfg p rq).bitmap := by
  obtain ⟨i, k, hi, hk, hpk, hw, hbit⟩ := bitmapWord_eq hp
  have h32 : cfg.bitmapsz ≤ 32 := cfg.bitmap_fits
  intro j hj n hn hset
  simp only [rdyqBitmapSet, hw, hbit] at hset
  by_cases hji : j = i
  · subst hji
    rw [Function.update_self, BitVec.getLsbD_or, getLsbD_bit (by omega) hn] at hset
    by_cases hnk : n = k
    · rw [hnk, ← hpk]
      exact hp
    · exact hb j hj n hn (by simpa [hnk] using hset)
  · rw [Function.update_of_ne (by exact_mod_cast hji)] at hset
    exact hb j hj n hn hset

theorem InsideBits.clear (hb : InsideBits cfg rq.bitmap) :
    InsideBits cfg (rdyqBitmapClear cfg p rq).bitmap := by
  intro j hj n hn hset
  refine hb j hj n hn ?_
  simp only [rdyqBitmapClear] at hset
  by_cases hji : (j : Int) = bitmapWord cfg p
  · rw [hji, Function.update_self, BitVec.getLsbD_and] at hset
    rw [hji]
    exact (Bool.and_eq_true_iff.mp hset).1
  · rwa [Function.update_of_ne hji] at hset

/-- The search looks at the words up to the last one. -/
theorem rdyqSearch_congr : ∀ (n i : Nat),
    (∀ j : Nat, i ≤ j → j < i + n → bitmap' j = bitmap j) →
    rdyqSearch cfg bitmap' n i = rdyqSearch cfg bitmap n i
  | 0, _, _ => rfl
  | n + 1, i, h => by
    have ih := rdyqSearch_congr n (i + 1) fun j h₁ h₂ => h j (by omega) (by omega)
    unfold rdyqSearch
    rw [h i (Nat.le_refl i) (by omega)]
    exact if_congr Iff.rfl rfl ih

/-- It finds a line or the null sentinel. -/
theorem rdyqSearch_range (hb : InsideBits cfg bitmap) : ∀ (n i : Nat), i + n = cfg.numBitmap →
    0 ≤ rdyqSearch cfg bitmap n i ∧ rdyqSearch cfg bitmap n i ≤ cfg.tmaxTpri
  | 0, _, _ => by
    unfold rdyqSearch
    omega
  | n + 1, i, hi => by
    have ih := rdyqSearch_range hb n (i + 1) (by omega)
    unfold rdyqSearch
    split
    · next hz =>
      obtain ⟨k, hffs, hk, hbit, -⟩ := ffs_spec hz
      obtain ⟨h₀, hlt⟩ := hb i (by omega) k hk hbit
      have hshort := cfg.tpri_short
      rw [hffs, Option.getD_some, toShort_of_range (by omega) (by omega)]
      omega
    · exact ih

end

/-! ## The ready queue -/

namespace Twin

variable {x y : Node cfg} {f : Core cfg → Core cfg} {g : TCB cfg → TCB cfg}

theorem core (h : Twin m s w) : w.core = s.core := by rw [h.2]; rfl

theorem runtsk (h : Twin m s w) : w.runtsk = s.runtsk := by rw [h.2]; rfl

theorem schedtsk (h : Twin m s w) : w.schedtsk = s.schedtsk := by rw [h.2]; rfl

theorem bitmap (h : Twin m s w) {i : Nat} (hi : i < cfg.numBitmap) :
    w.rdyq.bitmap i = s.rdyq.bitmap i := by
  rw [h.2]
  exact if_neg (not_not.mpr ⟨by omega, by omega⟩)

theorem topPriority (h : Twin m s w) : w.rdyq.topPriority = s.rdyq.topPriority := by rw [h.2]; rfl

theorem next (h : Twin m s w) (hx : ¬ Outside x) : w.links.next x = s.links.next x := by
  rw [h.2]
  exact linksWithOutside_next hx

theorem empty (h : Twin m s w) (hx : ¬ Outside x) :
    kqueueEmpty x w.links = kqueueEmpty x s.links := by
  unfold kqueueEmpty
  rw [h.next hx]

theorem ite {c d : Prop} [Decidable c] [Decidable d] {s' w' : Kernel cfg} (hcd : c ↔ d)
    (h : c → Twin m s w) (h' : ¬c → Twin m s' w') :
    Twin m (if c then s else s') (if d then w else w') := by
  by_cases hc : c
  · rw [if_pos hc, if_pos (hcd.mp hc)]; exact h hc
  · rw [if_neg hc, if_neg fun hd => hc (hcd.mpr hd)]; exact h' hc

theorem setLinks {f : Links (Node cfg) → Links (Node cfg)} (h : Twin m s w) (hf : Inside f) :
    Twin m (s.setLinks f) (w.setLinks f) := by
  obtain ⟨hi, rfl⟩ := h
  obtain ⟨hl, hc⟩ := hf _ hi.links
  refine ⟨⟨hi.tskpri, hi.itskpri, hi.top, hi.bitmap, hl⟩, ?_⟩
  exact congrArg (fun h => { withOutside m s with links := h }) (hc m.links)

/-- Data other than priorities may change. -/
theorem setCore (h : Twin m s w)
    (hf : ∀ t, LinePri cfg ((f s.core).tcb t).tskpri ∧ LinePri cfg ((f s.core).tcb t).itskpri) :
    Twin m (s.setCore f) (w.setCore f) := by
  obtain ⟨hi, rfl⟩ := h
  exact ⟨⟨fun t => (hf t).1, fun t => (hf t).2, hi.top, hi.bitmap, hi.links⟩, rfl⟩

theorem setCore_same (h : Twin m s w) (hf : (f s.core).tcb = s.core.tcb) :
    Twin m (s.setCore f) (w.setCore f) :=
  h.setCore fun t => by rw [hf]; exact ⟨h.1.tskpri t, h.1.itskpri t⟩

theorem setTcb_pri (h : Twin m s w) (h₁ : LinePri cfg (g (s.core.tcb t)).tskpri)
    (h₂ : LinePri cfg (g (s.core.tcb t)).itskpri) : Twin m (s.setTcb t g) (w.setTcb t g) := by
  refine h.setCore fun u => ?_
  unfold Core.setTcb
  dsimp only
  by_cases hu : u = t
  · subst hu
    rw [Function.update_self]
    exact ⟨h₁, h₂⟩
  · rw [Function.update_of_ne hu]
    exact ⟨h.1.tskpri u, h.1.itskpri u⟩

theorem setTcb (h : Twin m s w) (h₁ : (g (s.core.tcb t)).tskpri = (s.core.tcb t).tskpri)
    (h₂ : (g (s.core.tcb t)).itskpri = (s.core.tcb t).itskpri) :
    Twin m (s.setTcb t g) (w.setTcb t g) :=
  h.setTcb_pri (h₁ ▸ h.1.tskpri t) (h₂ ▸ h.1.itskpri t)

theorem setSchedtsk (h : Twin m s w) (x : Node cfg) :
    Twin m { s with schedtsk := x } { w with schedtsk := x } := by
  obtain ⟨hi, rfl⟩ := h
  exact ⟨⟨hi.tskpri, hi.itskpri, hi.top, hi.bitmap, hi.links⟩, rfl⟩

theorem setRuntsk (h : Twin m s w) (x : Node cfg) :
    Twin m { s with runtsk := x } { w with runtsk := x } := by
  obtain ⟨hi, rfl⟩ := h
  exact ⟨⟨hi.tskpri, hi.itskpri, hi.top, hi.bitmap, hi.links⟩, rfl⟩

theorem setTop (h : Twin m s w) {p : Int} (h₀ : 0 ≤ p) (h₁ : p ≤ cfg.tmaxTpri) :
    Twin m (s.setRdyq fun rq => { rq with topPriority := p })
      (w.setRdyq fun rq => { rq with topPriority := p }) := by
  obtain ⟨hi, rfl⟩ := h
  exact ⟨⟨hi.tskpri, hi.itskpri, ⟨h₀, h₁⟩, hi.bitmap, hi.links⟩, rfl⟩

/-- A word of the bitmap is read and written. -/
theorem setWord (h : Twin m s w) {i : Int} (v : UINT → UINT) (hi : ¬ OutsideWord cfg i)
    (hb : InsideBits cfg (Function.update s.rdyq.bitmap i (v (s.rdyq.bitmap i)))) :
    Twin m
      (s.setRdyq fun rq => { rq with bitmap := Function.update rq.bitmap i (v (rq.bitmap i)) })
      (w.setRdyq fun rq => { rq with bitmap := Function.update rq.bitmap i (v (rq.bitmap i)) }) := by
  obtain ⟨hs, rfl⟩ := h
  refine ⟨⟨hs.tskpri, hs.itskpri, hs.top, hb, hs.links⟩, ?_⟩
  have hread : (withOutside m s).rdyq.bitmap i = s.rdyq.bitmap i := if_neg hi
  have heq : Function.update (withOutside m s).rdyq.bitmap i (v ((withOutside m s).rdyq.bitmap i)) =
      fun j => if OutsideWord cfg j then m.rdyq.bitmap j else
        Function.update s.rdyq.bitmap i (v (s.rdyq.bitmap i)) j := by
    rw [hread]
    exact update_ite hi
  exact congrArg (fun b => { withOutside m s with rdyq := { s.rdyq with bitmap := b } }) heq

theorem bitmapSet (h : Twin m s w) {p : Int} (hp : LinePri cfg p) :
    Twin m (s.setRdyq (rdyqBitmapSet cfg p)) (w.setRdyq (rdyqBitmapSet cfg p)) :=
  h.setWord (· ||| bitmapBit cfg p) (not_outsideWord hp) (h.1.bitmap.set hp)

theorem bitmapClear (h : Twin m s w) {p : Int} (hp : LinePri cfg p) :
    Twin m (s.setRdyq (rdyqBitmapClear cfg p)) (w.setRdyq (rdyqBitmapClear cfg p)) :=
  h.setWord (· &&& ~~~ bitmapBit cfg p) (not_outsideWord hp) h.1.bitmap.clear

theorem rdyqTop (h : Twin m s w) : rdyqTop w = rdyqTop s := by
  unfold Ittrium.rdyqTop
  rw [h.topPriority]
  split
  · rfl
  · next hne =>
    have hp : LinePri cfg s.rdyq.topPriority := by
      have := h.1.top
      exact ⟨this.1, by omega⟩
    exact h.next (not_outside_priq hp)

theorem rdyqInsert (h : Twin m s w) (t : TskIx cfg) :
    (rdyqInsert t w).1 = (rdyqInsert t s).1 ∧
      Twin m (rdyqInsert t s).2 (rdyqInsert t w).2 := by
  have hp := h.1.tskpri t
  have h₁ := (h.setLinks (inside_kqueueInsert (x := .qnode t) id (not_outside_priq hp))).bitmapSet hp
  unfold Ittrium.rdyqInsert
  dsimp only
  rw [h.core, h₁.topPriority]
  split
  · exact ⟨rfl, h₁.setTop hp.1 hp.2.le⟩
  · exact ⟨rfl, h₁⟩

theorem rdyqRemove (h : Twin m s w) (t : TskIx cfg) :
    Twin m (rdyqRemove t s) (rdyqRemove t w) := by
  have hp := h.1.tskpri t
  have h₁ := h.setLinks (inside_kqueueRemove (x := .qnode t) id)
  have h₂ := h₁.bitmapClear hp
  unfold Ittrium.rdyqRemove
  dsimp only
  rw [h.core, h₁.empty (not_outside_priq hp)]
  refine .ite Iff.rfl (fun _ => h₁) fun _ => ?_
  rw [h₂.topPriority]
  refine .ite Iff.rfl (fun _ => h₂) fun _ => ?_
  obtain ⟨i, k, hi, -, -, hw, -⟩ := bitmapWord_eq hp
  have hn : ((cfg.numBitmap : Int) - i).toNat = cfg.numBitmap - i := by omega
  have hrange := rdyqSearch_range h₂.1.bitmap (cfg.numBitmap - i) i (by omega)
  have hsame : rdyqSearch cfg _ (cfg.numBitmap - i) i = rdyqSearch cfg _ (cfg.numBitmap - i) i :=
    rdyqSearch_congr _ i fun j _ hj => h₂.bitmap (i := j) (by omega)
  rw [hw, hn]
  have h₃ := h₂.setTop hrange.1 hrange.2
  unfold Kernel.setRdyq at hsame h₃ ⊢
  dsimp only at hsame h₃ ⊢
  rw [hsame]
  exact h₃

theorem rdyqRotate (h : Twin m s w) {p : Int} (hp : LinePri cfg p) :
    Twin m (rdyqRotate p s) (rdyqRotate p w) := by
  have hx : ¬ Outside (.priq p : Node cfg) := not_outside_priq hp
  unfold Ittrium.rdyqRotate
  rw [h.empty hx]
  exact .ite Iff.rfl (fun _ => h.setLinks (inside_rotate hx)) fun _ => h

/-! ### Tasks -/

theorem dispatch (h : Twin m s w) : Twin m (dispatch s) (dispatch w) := by
  obtain ⟨hi, rfl⟩ := h
  exact setRuntsk ⟨hi, rfl⟩ s.schedtsk

theorem setTop_schedtsk (h : Twin m s w) :
    Twin m { s with schedtsk := Ittrium.rdyqTop s } { w with schedtsk := Ittrium.rdyqTop w } := by
  rw [h.rdyqTop]
  exact h.setSchedtsk _

theorem reschedule (h : Twin m s w) : Twin m (reschedule s) (reschedule w) := by
  unfold Ittrium.reschedule
  dsimp only
  rw [h.schedtsk, h.rdyqTop]
  exact .ite Iff.rfl (fun _ => h.setSchedtsk _) fun _ => h

/-- A task joins its ready line, and is the one to run if it becomes top. -/
theorem insertTop (h : Twin m s w) (t : TskIx cfg) :
    Twin m (if (Ittrium.rdyqInsert t s).1 then
        { (Ittrium.rdyqInsert t s).2 with schedtsk := .qnode t } else (Ittrium.rdyqInsert t s).2)
      (if (Ittrium.rdyqInsert t w).1 then
        { (Ittrium.rdyqInsert t w).2 with schedtsk := .qnode t }
        else (Ittrium.rdyqInsert t w).2) := by
  obtain ⟨htop, h'⟩ := h.rdyqInsert t
  rw [htop]
  exact .ite Iff.rfl (fun _ => h'.setSchedtsk _) fun _ => h'

theorem makeReady (h : Twin m s w) (t : TskIx cfg) :
    Twin m (taskMakeReady t s) (taskMakeReady t w) :=
  (h.setTcb (t := t) (g := fun tcb => { tcb with state := .rdy }) rfl rfl).insertTop t

theorem makeUnready (h : Twin m s w) (t : TskIx cfg) :
    Twin m (taskMakeUnready t s) (taskMakeUnready t w) := by
  have h' := h.rdyqRemove t
  unfold taskMakeUnready
  dsimp only
  rw [h'.schedtsk]
  exact .ite Iff.rfl (fun _ => h'.setTop_schedtsk) fun _ => h'

theorem changePri (h : Twin m s w) (t : TskIx cfg) {p : Int} (hp : LinePri cfg p) :
    Twin m (taskChangePri t p s) (taskChangePri t p w) := by
  have h' := h.rdyqRemove t
  exact (h'.setTcb_pri (g := fun tcb => { tcb with tskpri := p }) hp
    (h'.1.itskpri t)).setTop_schedtsk.insertTop t

theorem makeDormant (h : Twin m s w) (t : TskIx cfg) :
    Twin m (s.setCore (taskMakeDormant t)) (w.setCore (taskMakeDormant t)) := by
  refine h.setCore fun u => ?_
  by_cases hu : u = t
  · subst hu
    rw [taskMakeDormant_tcb_self]
    exact ⟨h.1.itskpri u, h.1.itskpri u⟩
  · rw [taskMakeDormant_tcb_of_ne hu]
    exact ⟨h.1.tskpri u, h.1.itskpri u⟩

theorem makeContext (h : Twin m s w) (t : TskIx cfg) :
    Twin m (s.setCore (makeTaskContext t)) (w.setCore (makeTaskContext t)) := by
  refine h.setCore fun u => ?_
  by_cases hu : u = t
  · subst hu
    obtain ⟨ctx, hctx⟩ := makeTaskContext_tcb_self u s.core
    rw [hctx]
    exact ⟨h.1.tskpri u, h.1.itskpri u⟩
  · rw [makeTaskContext_tcb_of_ne hu]
    exact ⟨h.1.tskpri u, h.1.itskpri u⟩

theorem leaveWait (h : Twin m s w) (t : TskIx cfg) :
    Twin m (taskLeaveWait t s) (taskLeaveWait t w) := by
  have h' := h.setTcb (t := t) (g := fun tcb => { tcb with tskwait := .none }) rfl rfl
  unfold taskLeaveWait
  dsimp only
  rw [h'.core]
  exact .ite Iff.rfl (fun _ => h'.makeReady t) fun _ => h'.setTcb rfl rfl

theorem removeQnode (h : Twin m s w) (t : TskIx cfg) :
    Twin m (s.setLinks (kqueueRemove (.qnode t))) (w.setLinks (kqueueRemove (.qnode t))) :=
  h.setLinks (inside_kqueueRemove id)

theorem waitCancel (h : Twin m s w) (t : TskIx cfg) :
    Twin m (waitCancel t s) (waitCancel t w) :=
  (h.setLinks (inside_kqueueRemove (x := .wtmeb t) id)).removeQnode t

theorem waitRelease (h : Twin m s w) (t : TskIx cfg) :
    Twin m (waitRelease t s) (waitRelease t w) :=
  (h.waitCancel t).leaveWait t

theorem waitReleaseOk (h : Twin m s w) (t : TskIx cfg) :
    Twin m (waitReleaseOk t s) (waitReleaseOk t w) :=
  (h.setTcb (t := t) (g := fun tcb => { tcb with ercd := .ok }) rfl rfl).waitRelease t

theorem waitReleaseTmout (h : Twin m s w) (t : TskIx cfg) :
    Twin m (waitReleaseTmout t s) (waitReleaseTmout t w) :=
  (h.removeQnode t).leaveWait t

theorem timerInsert (h : Twin m s w) (t : TskIx cfg) (tmout : TMO) (cb : Option Callback)
    (arg : Node cfg) : Twin m (timerInsert t tmout cb arg s) (timerInsert t tmout cb arg w) := by
  have h' := h.setTcb (t := t)
    (g := fun tcb => { tcb with wtmeb := { tcb.wtmeb with callback := cb, arg := arg } }) rfl rfl
  unfold Ittrium.timerInsert
  refine .ite Iff.rfl (fun _ => h'.setLinks (inside_kqueueInit id)) fun _ => ?_
  exact (h'.setTcb rfl rfl).setLinks (inside_kqueueInsert id id)

theorem makeWait (h : Twin m s w) (t : TskIx cfg) (tmout : TMO) :
    Twin m (makeWait t tmout s) (makeWait t tmout w) := by
  unfold Ittrium.makeWait
  dsimp only
  rw [h.core]
  refine timerInsert ?_ ..
  cases (s.core.tcb t).state with
  | run | rdy => exact (h.makeUnready t).setTcb rfl rfl
  | sus => exact h.setTcb rfl rfl
  | _ => exact h

/-! ### Loops -/

/-- A pointer to a `TCB` is none outside the arrays. -/
theorem not_outside_of_tcbOf {x : Node cfg} (hx : tcbOf x = .ok t) : ¬ Outside x := by
  cases x with
  | qnode t => exact id
  | _ => cases hx

theorem waitDeleteLoop {waitq : Node cfg} (hx : ¬ Outside waitq) : ∀ (n : Nat) {s w : Kernel cfg},
    Twin m s w → Agree (Twin m) (waitDeleteLoop waitq n s) (waitDeleteLoop waitq n w)
  | 0, _, _, _ => .error
  | n + 1, s, w, h => by
    unfold Ittrium.waitDeleteLoop
    rw [h.empty hx, h.next hx]
    refine .ite Iff.rfl (fun _ => .ok h) fun _ => .bindSame fun t _ => ?_
    exact waitDeleteLoop hx n ((h.setTcb rfl rfl).waitRelease t)

theorem waitTskid {waitq : Node cfg} (h : Twin m s w) (hx : ¬ Outside waitq) :
    waitTskid waitq w = waitTskid waitq s := by
  unfold Ittrium.waitTskid
  rw [h.empty hx, h.next hx, h.core]

theorem kqueueFindPriLoop {queue : Node cfg} {prio : Int} (h : Twin m s w)
    (hx : ¬ Outside queue) : ∀ (n : Nat) (entry : Node cfg),
      Agree (fun x y => x = y ∧ ¬ Outside x) (kqueueFindPriLoop queue prio s n entry)
        (kqueueFindPriLoop queue prio w n entry)
  | 0, _ => .error
  | n + 1, entry => by
    unfold Ittrium.kqueueFindPriLoop
    refine .ite Iff.rfl (fun he => .ok ⟨rfl, he ▸ hx⟩) fun _ => .bindSame fun t ht => ?_
    have he := not_outside_of_tcbOf ht
    rw [h.core, h.next he]
    exact .ite Iff.rfl (fun _ => .ok ⟨rfl, he⟩) fun _ => kqueueFindPriLoop h hx n _

theorem objMakeWait (h : Twin m s w) (t : TskIx cfg) (o : ObjId cfg) (tmout : TMO) :
    Agree (Twin m) (objMakeWait t o tmout s) (objMakeWait t o tmout w) := by
  have h' := (h.setTcb (t := t) (g := fun tcb => { tcb with waitObj := some o }) rfl rfl).makeWait
    t tmout
  have hx : ¬ Outside (.waitq o : Node cfg) := id
  unfold Ittrium.objMakeWait
  dsimp only
  rw [h'.core]
  refine .ite Iff.rfl (fun _ => ?_) fun _ => .ok (h'.setLinks (inside_kqueueInsert id hx))
  unfold kqueueInsertPri kqueueFindPri
  rw [h'.core, h'.next hx]
  refine (h'.kqueueFindPriLoop hx _ _).bind ?_
  rintro q _ ⟨rfl, hq⟩
  exact .ok (h'.setLinks (inside_kqueueInsert id hq))

theorem setFlgLoop (i : FlgIx cfg) : ∀ (n : Nat) (queue : Node cfg) {s w : Kernel cfg},
    Twin m s w → Agree (Twin m) (setFlgLoop i n queue s) (setFlgLoop i n queue w)
  | 0, _, _, _, _ => .error
  | n + 1, queue, s, w, h => by
    unfold Ittrium.setFlgLoop
    refine .ite Iff.rfl (fun _ => .ok h) fun _ => .bindSame fun t ht => ?_
    rw [h.core, h.next (not_outside_of_tcbOf ht)]
    refine .ite Iff.rfl (fun _ => setFlgLoop i n _ ?_) fun _ => setFlgLoop i n _ h
    exact ((h.setCore_same rfl).waitReleaseOk t).setCore_same rfl

theorem runCallback (h : Twin m s w) (e : TMEB cfg) :
    Agree (Twin m) (runCallback e s) (runCallback e w) := by
  unfold Ittrium.runCallback
  split
  · exact .bindSame fun t _ => .ok (h.waitReleaseTmout t)
  · exact .ok h

theorem timerLoop : ∀ (n : Nat) (event : Node cfg) {s w : Kernel cfg},
    Twin m s w → Agree (Twin m) (timerLoop n event s) (timerLoop n event w)
  | 0, _, _, _, _ => .error
  | n + 1, event, s, w, h => by
    cases event with
    | timerQueue => exact .ok h
    | wtmeb t =>
      have hnext : w.links.next (.wtmeb t) = s.links.next (.wtmeb t) := h.next id
      have h₁ := h.setTcb (t := t)
        (g := fun tcb => { tcb with wtmeb := { tcb.wtmeb with count := tcb.wtmeb.count - 1 } })
        rfl rfl
      have h₂ := h₁.setLinks (inside_kqueueRemove (x := .wtmeb t) id)
      unfold Ittrium.timerLoop
      dsimp only
      rw [h₁.core, h₂.core, hnext]
      refine .ite Iff.rfl (fun _ => ?_) fun _ => timerLoop n _ h₁
      exact (h₂.runCallback _).bind fun _ _ h₃ => timerLoop n _ h₃
    | _ => exact .error

theorem timerHandler (h : Twin m s w) : Agree (Twin m) (timerHandler s) (timerHandler w) := by
  have htmq : w.links.next .timerQueue = s.links.next .timerQueue := h.next id
  have hrun : runTcb w = runTcb s := congrArg tcbOf h.runtsk
  have hidle : s.runtsk ≠ .null ↔ w.runtsk ≠ .null := by rw [h.runtsk]
  have h₁ := h.setCore_same (f := fun c => (timerHwEnter c).2) rfl
  have h₂ := h₁.setCore_same
    (f := fun c => { c with telemetryWallTicks := c.telemetryWallTicks + 1 }) rfl
  have hloop : ∀ {s w : Kernel cfg} (event : Node cfg), Twin m s w → Agree (Twin m)
      (do let s ← Ittrium.timerLoop (cfg.tnumTskid + 1) event s; .ok (s.setCore timerHwExit))
      (do let s ← Ittrium.timerLoop (cfg.tnumTskid + 1) event w; .ok (s.setCore timerHwExit)) :=
    fun event h => (timerLoop _ event h).bind fun v _ h => .ok (h.setCore_same (timerHwExit_tcb _))
  unfold Ittrium.timerHandler
  refine .ite (by rw [h.core]) (fun _ => .ok h₁) fun _ => .ite hidle (fun _ => ?_) fun _ => ?_
  · refine .bindEq hrun fun t _ => ?_
    dsimp only
    rw [htmq]
    exact hloop _ (h₂.setTcb (t := t) (g := fun tcb => { tcb with runTicks := tcb.runTicks + 1 })
      rfl rfl)
  · dsimp only
    rw [htmq]
    exact hloop _ (h₂.setCore_same
      (f := fun c => { c with telemetryIdleTicks := c.telemetryIdleTicks + 1 }) rfl)

end Twin

end Ittrium
