import Ittrium.Drv.Uart
import Mathlib.Data.List.Nodup
import Mathlib.Data.Fintype.Basic

/-!
# Wake-ups of the console

* `Fifo.toList` — a soft FIFO as a list
* `Spares` — a step does not give the pattern away that another caller needs
* `console_wakes` — **in a run of such steps nobody is left blocked, and the bytes come in order**
* `getc_left_blocked` — in other runs one is
-/

namespace Ittrium.Drv

open Infra

/-! ## The soft FIFOs -/

namespace Fifo

variable {f f' : Fifo} {b : UInt8}

/-- The bytes, the oldest one first. -/
def toList (f : Fifo) : List UInt8 := window f.fifo uartFifoSize f.tail f.count

structure Good (f : Fifo) : Prop where
  head : f.head = (f.tail + f.count) % uartFifoSize
  tail : f.tail < uartFifoSize
  count : f.count ≤ uartFifoSize

@[simp] theorem length_toList (f : Fifo) : f.toList.length = f.count := length_window ..

theorem Good.push (h : f.Good) (hp : f.push b = some f') :
    f'.Good ∧ f'.toList = f.toList ++ [b] ∧ f'.count = f.count + 1 := by
  unfold Fifo.push at hp
  split at hp
  · cases hp
  · next hlt =>
    obtain rfl := Option.some.inj hp
    have hcount : (f.count : Int) < (uartFifoSize : Nat) := by omega
    refine ⟨⟨?_, h.tail, by dsimp only; omega⟩, ?_, rfl⟩
    · dsimp only
      rw [h.head, Nat.mod_add_mod]
      rfl
    · have hw : window
          (Function.update f.fifo (((f.tail : Int) + f.count) % (uartFifoSize : Nat)) b)
          (uartFifoSize : Nat) f.tail (f.count + 1) = f.toList ++ [b] := window_push b hcount
      have hhead : ((f.tail : Int) + f.count) % (uartFifoSize : Nat) = (f.head : Nat) := by
        rw [h.head]
        push_cast
        rfl
      rw [hhead] at hw
      exact hw

theorem push_eq_none : f.push b = none ↔ uartFifoSize ≤ f.count := by
  unfold Fifo.push
  split <;> simp <;> omega

theorem Good.pop (h : f.Good) (hp : f.pop = some (b, f')) :
    f'.Good ∧ f.toList = b :: f'.toList ∧ f.count = f'.count + 1 := by
  have htail := h.tail
  have hle := h.count
  unfold Fifo.pop at hp
  split at hp
  · cases hp
  · next hne =>
    obtain ⟨rfl, rfl⟩ := Prod.mk.inj (Option.some.inj hp)
    obtain ⟨n, hn⟩ := Nat.exists_eq_succ_of_ne_zero hne
    refine ⟨⟨?_, Nat.mod_lt _ (by decide), by dsimp only; omega⟩, ?_, by dsimp only; omega⟩
    · dsimp only
      rw [h.head, Nat.mod_add_mod, hn]
      congr 1
      omega
    · unfold toList
      dsimp only
      rw [hn, window_cons, Int.emod_eq_of_lt (by omega) (by omega)]
      push_cast
      rw [window_emod]

theorem pop_eq_none : f.pop = none ↔ f.count = 0 := by
  unfold Fifo.pop
  split <;> simp [*]

end Fifo

variable {τ : Type} {u : Uart}

/-! ## The UART -/

/-- The bytes that `rx_push` takes. -/
def accepted : List UInt8 → Fifo → List UInt8
  | [], _ => []
  | b :: bs, rx =>
    match rx.push b with
    | some rx => b :: accepted bs rx
    | none => accepted bs rx

/-- **The receive FIFO of the UART is emptied.** -/
theorem rxPush_all : ∀ (bs : List UInt8) (rx : Fifo), rx.Good →
    (bs.foldl (fun rx b => rxPush b rx) rx).Good ∧
    (bs.foldl (fun rx b => rxPush b rx) rx).toList = rx.toList ++ accepted bs rx ∧
    ((bs.foldl (fun rx b => rxPush b rx) rx).count = 0 ↔ rx.count = 0 ∧ bs = []) := by
  intro bs
  induction bs with
  | nil => exact fun rx h => ⟨h, (List.append_nil _).symm, by simp⟩
  | cons b bs ih =>
    intro rx h
    rw [List.foldl_cons, accepted, rxPush]
    cases hp : rx.push b with
    | none =>
      -- the byte is dropped
      have hfull := Fifo.push_eq_none.mp hp
      obtain ⟨h₁, h₂, h₃⟩ := ih rx h
      refine ⟨h₁, h₂, ?_⟩
      rw [Option.getD_none, h₃]
      unfold uartFifoSize at hfull
      constructor
      · omega
      · simp
    | some rx' =>
      obtain ⟨hg, hl, hc⟩ := h.push hp
      obtain ⟨h₁, h₂, h₃⟩ := ih rx' hg
      rw [Option.getD_some]
      refine ⟨h₁, ?_, ?_⟩
      · rw [h₂, hl, List.append_assoc]
        rfl
      · rw [h₃]
        constructor
        · omega
        · simp

theorem or_and {n : Nat} (x y z : BitVec n) : (x ||| y) &&& z = x &&& z ||| y &&& z := by
  ext i
  simp [Bool.and_or_distrib_right]

theorem or_and_ne_zero {n : Nat} (x y z : BitVec n) :
    (x ||| y) &&& z ≠ 0 ↔ x &&& z ≠ 0 ∨ y &&& z ≠ 0 := by
  rw [or_and]
  exact (not_congr BitVec.or_eq_zero_iff).trans not_and_or

/-- The receive, and the transmit interrupt is pending. -/
def Uart.rxCause (u : Uart) : Prop := u.mis &&& (uartIntRx ||| uartIntRt) ≠ 0

def Uart.txCause (u : Uart) : Prop := u.mis &&& uartIntTx ≠ 0

instance (u : Uart) : Decidable u.rxCause := inferInstanceAs (Decidable (_ ≠ _))

instance (u : Uart) : Decidable u.txCause := inferInstanceAs (Decidable (_ ≠ _))

theorem rxCause_congr {ris imsc imsc' : BitVec 32}
    (h : imsc' &&& (uartIntRx ||| uartIntRt) = imsc &&& (uartIntRx ||| uartIntRt)) :
    ris &&& imsc' &&& (uartIntRx ||| uartIntRt) ≠ 0 ↔
      ris &&& imsc &&& (uartIntRx ||| uartIntRt) ≠ 0 := by
  rw [BitVec.and_assoc, h, ← BitVec.and_assoc]

/-- An interrupt that is pending stays so when others are raised. -/
theorem Uart.rxCause.raise {bits : BitVec 32} (h : u.rxCause) :
    ({ u with ris := u.ris ||| bits } : Uart).rxCause := by
  show (u.ris ||| bits) &&& u.imsc &&& (uartIntRx ||| uartIntRt) ≠ 0
  rw [or_and]
  exact (or_and_ne_zero _ _ _).mpr (Or.inl h)

/-- The registers after `uart_tx_kick`. -/
structure Kicked (room : Nat) (u u' : Uart) : Prop where
  good : u'.tx.Good
  count : u'.tx.count = u.tx.count - room
  mask : u'.imsc &&& uartIntTx = 0 ↔ u'.tx.count = 0
  rx : u'.rx = u.rx
  rxCause : u'.rxCause ↔ u.rxCause
  order : u'.written ++ u'.tx.toList = u.written ++ u.tx.toList

theorem maskTx_kicked (h : u.tx.Good) (hr : u.tx.count = u.tx.count - room) :
    Kicked room u u.maskTx := by
  unfold Uart.maskTx
  split
  · next hne =>
    refine ⟨h, hr, ⟨fun h0 => ?_, fun h0 => absurd h0 hne⟩, rfl, ?_, rfl⟩
    · exact absurd h0 ((or_and_ne_zero _ _ _).mpr (Or.inr (by decide)))
    · exact rxCause_congr (by
        show (u.imsc ||| uartIntTx) &&& (uartIntRx ||| uartIntRt) = _
        rw [or_and, show uartIntTx &&& (uartIntRx ||| uartIntRt) = 0 by decide]
        exact BitVec.or_zero)
  · next h0 =>
    refine ⟨h, hr, ⟨fun _ => not_not.mp h0, fun _ => ?_⟩, rfl, ?_, rfl⟩
    · show u.imsc &&& ~~~uartIntTx &&& uartIntTx = 0
      rw [BitVec.and_assoc, show ~~~uartIntTx &&& uartIntTx = 0 by decide]
      exact BitVec.and_zero
    · exact rxCause_congr (by
        show u.imsc &&& ~~~uartIntTx &&& (uartIntRx ||| uartIntRt) = _
        rw [BitVec.and_assoc,
          show ~~~uartIntTx &&& (uartIntRx ||| uartIntRt) = uartIntRx ||| uartIntRt by decide])

theorem uartTxKick_kicked :
    ∀ (room : Nat) (u : Uart), u.tx.Good → Kicked room u (uartTxKick room u) := by
  intro room
  induction room with
  | zero => exact fun u h => maskTx_kicked h rfl
  | succ room ih =>
    intro u h
    rw [uartTxKick]
    cases hp : txPop u.tx with
    | none =>
      have h0 := Fifo.pop_eq_none.mp hp
      exact maskTx_kicked h (by omega)
    | some r =>
      obtain ⟨hg, hl, hc⟩ := h.pop hp
      have hk := ih { u with tx := r.2, written := u.written ++ [r.1] } hg
      refine ⟨hk.good, ?_, hk.mask, hk.rx, hk.rxCause, ?_⟩
      · rw [hk.count]
        dsimp only
        omega
      · rw [hk.order, hl]
        dsimp only
        rw [List.append_assoc]
        rfl

/-- The handler will find or put a byte into the soft receive FIFO. -/
def Uart.rxFilled (u : Uart) : Prop := u.rx.count ≠ 0 ∨ u.rxCause ∧ u.received ≠ []

/-- The handler will find or leave the soft transmit FIFO empty. -/
def Uart.txEmptied (room : Nat) (u : Uart) : Prop :=
  u.tx.count = 0 ∨ u.txCause ∧ u.tx.count ≤ room

instance (u : Uart) : Decidable u.rxFilled := inferInstanceAs (Decidable (_ ∨ _))

instance (room : Nat) (u : Uart) : Decidable (u.txEmptied room) :=
  inferInstanceAs (Decidable (_ ∨ _))

/-- The bits that the handler will set. -/
def Uart.raised (room : Nat) (u : Uart) : FLGPTN :=
  (if u.rxCause ∧ u.rxFilled then uartFlgRx else 0) |||
    (if u.txCause ∧ (u.tx.count < uartFifoSize ∨ room ≠ 0) then uartFlgTx else 0)

/-- The bytes that the handler takes over. -/
def Uart.takes (u : Uart) : List UInt8 := if u.rxCause then accepted u.received u.rx else []

/-- The soft FIFOs are rings, and the transmit interrupt is masked while nothing is to be sent. -/
structure UartInv (u : Uart) : Prop where
  rx : u.rx.Good
  tx : u.tx.Good
  mask : u.imsc &&& uartIntTx = 0 ↔ u.tx.count = 0

/-- The registers after `uart_irq`. -/
structure Handled (room : Nat) (u u' : Uart) : Prop where
  inv : UartInv u'
  toList : u'.rx.toList = u.rx.toList ++ u.takes
  rxCount : u'.rx.count ≠ 0 ↔ u.rxFilled
  txCount : u'.tx.count = 0 ↔ u.txEmptied room

theorem irqRx_spec (hrx : u.rx.Good) :
    (irqRx u.mis u).1 = (if u.rxCause ∧ u.rxFilled then uartFlgRx else 0) ∧
    (irqRx u.mis u).2.rx.Good ∧ (irqRx u.mis u).2.rx.toList = u.rx.toList ++ u.takes ∧
    ((irqRx u.mis u).2.rx.count ≠ 0 ↔ u.rxFilled) ∧ (irqRx u.mis u).2.tx = u.tx ∧
    (irqRx u.mis u).2.imsc = u.imsc := by
  unfold irqRx Uart.takes
  by_cases hc : u.rxCause
  · have hcause : u.mis &&& (uartIntRx ||| uartIntRt) ≠ 0 := hc
    obtain ⟨h₁, h₂, h₃⟩ := rxPush_all u.received u.rx hrx
    have hfill : (u.received.foldl (fun rx b => rxPush b rx) u.rx).count ≠ 0 ↔ u.rxFilled := by
      unfold Uart.rxFilled
      rw [ne_eq, h₃, not_and_or]
      simp only [hc, true_and, ne_eq]
    simp only [if_pos hcause, hc, true_and, if_true]
    refine ⟨?_, h₁, h₂, hfill, rfl, rfl⟩
    exact if_congr hfill rfl rfl
  · have hcause : ¬ (u.mis &&& (uartIntRx ||| uartIntRt) ≠ 0) := hc
    simp only [if_neg hcause, hc, false_and, if_false]
    refine ⟨trivial, hrx, (List.append_nil _).symm, ?_, trivial, trivial⟩
    unfold Uart.rxFilled
    simp only [hc, false_and, or_false]

theorem uartIrq_handled (hu : UartInv u) (room : Nat) :
    (uartIrq room u).1 = u.raised room ∧ Handled room u (uartIrq room u).2 := by
  obtain ⟨h₁, h₂, h₃, h₄, h₅, h₆⟩ := irqRx_spec hu.rx
  unfold uartIrq Uart.raised
  dsimp only
  rw [h₁]
  generalize (irqRx u.mis u).2 = u₁ at h₂ h₃ h₄ h₅ h₆
  unfold irqTx
  by_cases hc : u.txCause
  · have hcause : u.mis &&& uartIntTx ≠ 0 := hc
    have hk := uartTxKick_kicked room (u₁.clear uartIntTx) (show u₁.tx.Good from h₅ ▸ hu.tx)
    have hcount : (uartTxKick room (u₁.clear uartIntTx)).tx.count = u.tx.count - room := by
      rw [hk.count, ← h₅]
      rfl
    have hrx' : (uartTxKick room (u₁.clear uartIntTx)).rx = u₁.rx := hk.rx
    -- after the kick the FIFO has room, if it had any or the UART took something
    have hroom : (uartTxKick room (u₁.clear uartIntTx)).tx.count < uartFifoSize ↔
        u.tx.count < uartFifoSize ∨ room ≠ 0 := by
      have hle := hu.tx.count
      rw [hcount]
      unfold uartFifoSize at hle ⊢
      omega
    simp only [if_pos hcause, hc, true_and]
    refine ⟨congrArg _ (if_congr hroom rfl rfl), ⟨?_, hk.good, hk.mask⟩, ?_, ?_, ?_⟩
    · rw [hrx']
      exact h₂
    · rw [hrx']
      exact h₃
    · rw [hrx']
      exact h₄
    · unfold Uart.txEmptied
      rw [hcount]
      simp only [hc, true_and]
      omega
  · have hcause : ¬ (u.mis &&& uartIntTx ≠ 0) := hc
    simp only [if_neg hcause, hc, false_and, if_false]
    refine ⟨trivial, ⟨h₂, h₅ ▸ hu.tx, ?_⟩, h₃, h₄, ?_⟩
    · rw [h₆, h₅]
      exact hu.mask
    · unfold Uart.txEmptied
      rw [h₅]
      simp only [hc, false_and, or_false]

/-! ## The eventflag -/

namespace Flag

variable {σ : Type} {l : List (σ × FLGPTN)} {ptn : FLGPTN}

theorem walk_zero : ∀ l : List (σ × FLGPTN), walk l 0 = ([], 0, l) := by
  intro l
  induction l with
  | nil => rfl
  | cons w l ih =>
    have h0 : (0 : FLGPTN) &&& w.2 = 0 := BitVec.zero_and
    rw [walk, if_neg (not_not.mpr h0), ih]

/-- What the pattern offers to a task in the queue. -/
def satisfied (ptn : FLGPTN) (w : σ × FLGPTN) : Bool := ptn &&& w.2 ≠ 0

theorem satisfied_iff {w : σ × FLGPTN} : satisfied ptn w = true ↔ ptn &&& w.2 ≠ 0 :=
  decide_eq_true_iff

/-- **The first task that is satisfied is released, and the pattern is cleared.** -/
theorem walk_cases (ptn : FLGPTN) : ∀ l : List (σ × FLGPTN),
    (l.find? (satisfied ptn) = none ∧ (∀ w ∈ l, ptn &&& w.2 = 0) ∧ walk l ptn = ([], ptn, l)) ∨
    ∃ l₁ w l₂, l.find? (satisfied ptn) = some w ∧ l = l₁ ++ w :: l₂ ∧
      walk l ptn = ([w.1], 0, l₁ ++ l₂) := by
  intro l
  induction l with
  | nil => exact Or.inl ⟨rfl, by simp, rfl⟩
  | cons w l ih =>
    by_cases hw : ptn &&& w.2 ≠ 0
    · refine Or.inr ⟨[], w, l, List.find?_cons_of_pos (satisfied_iff.mpr hw), rfl, ?_⟩
      rw [walk, if_pos hw, walk_zero]
      rfl
    · have hneg : ¬ satisfied ptn w = true := fun h => hw (satisfied_iff.mp h)
      rw [List.find?_cons_of_neg hneg, walk, if_neg hw]
      rcases ih with ⟨h₁, h₂, h₃⟩ | ⟨l₁, x, l₂, h₁, rfl, h₃⟩
      · refine Or.inl ⟨h₁, fun x hx => ?_, by rw [h₃]⟩
        rcases List.mem_cons.mp hx with rfl | hx
        · exact not_not.mp hw
        · exact h₂ x hx
      · exact Or.inr ⟨w :: l₁, x, l₂, h₁, rfl, by rw [h₃]; rfl⟩

end Flag

/-! ## Callers -/

/-- What a caller waits for. -/
def Caller.waiptn : Caller τ → FLGPTN
  | .getc => uartFlgRx
  | .putc _ => uartFlgTx

/-- It has found the FIFO empty, or full, and has not come back to it since. -/
def Pc.Stuck (p : Pc) : Prop := p = .checked ∨ p = .waiting

instance (p : Pc) : Decidable p.Stuck := inferInstanceAs (Decidable (_ ∨ _))

/-- The queue of the eventflag against the callers. -/
structure Queued (flag : Flag (Caller τ)) (pc : Caller τ → Pc) : Prop where
  mem : ∀ w ptn, (w, ptn) ∈ flag.waitq ↔ pc w = .waiting ∧ ptn = w.waiptn
  nodup : flag.waitq.Nodup
  /-- Nobody waits for a pattern that is there. -/
  unsatisfied : ∀ w ∈ flag.waitq, flag.flgptn &&& w.2 = 0

namespace Queued

variable {flag : Flag (Caller τ)} {pc : Caller τ → Pc} {w : Caller τ} {p : Pc}

theorem of_waiting (h : Queued flag pc) (hw : pc w = .waiting) : flag.flgptn &&& w.waiptn = 0 :=
  h.unsatisfied _ ((h.mem w w.waiptn).mpr ⟨hw, rfl⟩)

/-- The pattern is cleared. -/
theorem clear (h : Queued flag pc) : Queued { flag with flgptn := 0 } pc :=
  ⟨h.mem, h.nodup, fun _ _ => BitVec.zero_and⟩

variable [DecidableEq τ]

/-- A caller that does not wait goes on. -/
theorem move (h : Queued flag pc) (hw : pc w ≠ .waiting) (hp : p ≠ .waiting) :
    Queued flag (Function.update pc w p) := by
  refine ⟨fun x ptn => ?_, h.nodup, h.unsatisfied⟩
  rw [h.mem]
  by_cases hx : x = w
  · subst hx
    simp [hw, hp]
  · rw [Function.update_of_ne hx]

/-- A caller is put last in the queue. -/
theorem block (h : Queued flag pc) (hw : pc w ≠ .waiting) (hp : flag.flgptn &&& w.waiptn = 0) :
    Queued (flag.block w w.waiptn) (Function.update pc w .waiting) := by
  refine ⟨fun x ptn => ?_, ?_, fun x hx => ?_⟩
  · unfold Flag.block
    rw [List.mem_append, List.mem_singleton, h.mem, Prod.mk.injEq]
    by_cases hx : x = w
    · subst hx
      simp [hw]
    · simp [hx]
  · refine h.nodup.append (List.nodup_singleton _) ?_
    rw [List.disjoint_singleton, h.mem]
    exact fun hm => hw hm.1
  · rcases List.mem_append.mp hx with hx | hx
    · exact h.unsatisfied x hx
    · rw [List.mem_singleton.mp hx]
      exact hp

/-- **The first satisfied caller is released.** -/
theorem release {l₁ l₂ : List (Caller τ × FLGPTN)} {x : Caller τ × FLGPTN} (h : Queued flag pc)
    (hq : flag.waitq = l₁ ++ x :: l₂) :
    Queued ⟨0, l₁ ++ l₂⟩ (fun w => if w ∈ [x.1] then .start else pc w) := by
  have hnd := h.nodup
  rw [hq, List.nodup_middle, List.nodup_cons] at hnd
  refine ⟨fun w ptn => ?_, hnd.2, fun _ _ => BitVec.zero_and⟩
  have hmem := h.mem w ptn
  rw [hq, List.mem_append, List.mem_cons] at hmem
  rw [List.mem_append]
  by_cases hw : w = x.1
  · have hx := (h.mem x.1 x.2).mp (by rw [hq]; simp)
    constructor
    · intro hm
      -- it stands in the queue once
      have hptn := (hmem.mp (hm.elim Or.inl fun hm => Or.inr (Or.inr hm))).2
      refine absurd (List.mem_append.mpr hm) ?_
      rw [show (w, ptn) = x from Prod.ext hw (by rw [hptn, hw, hx.2])]
      exact hnd.1
    · rw [if_pos (List.mem_singleton.mpr hw)]
      exact fun hm => by cases hm.1
  · rw [if_neg fun hm => hw (List.mem_singleton.mp hm), ← hmem]
    have hne : (w, ptn) ≠ x := fun he => hw (congrArg Prod.fst he)
    simp only [hne, false_or]

end Queued

/-! ## Steps -/

/-- `uart_getc` is not at the FIFO, which holds bytes, and no interrupt will tell it. -/
def RxNeeded (pc : Caller τ → Pc) (filled : Prop) : Prop := (pc .getc).Stuck ∧ filled

/-- Some `uart_putc` is not at the FIFO, which is empty, and none is. -/
def TxNeeded (pc : Caller τ → Pc) (emptied : Prop) : Prop :=
  (∃ t, (pc (.putc t)).Stuck) ∧ (∀ t, pc (.putc t) ≠ .start) ∧ emptied

instance (pc : Caller τ → Pc) (filled : Prop) [Decidable filled] : Decidable (RxNeeded pc filled) :=
  inferInstanceAs (Decidable (_ ∧ _))

instance [Fintype τ] (pc : Caller τ → Pc) (emptied : Prop) [Decidable emptied] :
    Decidable (TxNeeded pc emptied) :=
  inferInstanceAs (Decidable (_ ∧ _ ∧ _))

/-- The release of the first satisfied caller by the handler gives no pattern away that another one
needs. -/
def SparesRelease (s : Console τ) (room : Nat) : Option (Caller τ × FLGPTN) → Prop
  | some (.getc, _) => ¬ TxNeeded s.pc (s.uart.txEmptied room)
  | some (.putc _, _) => ¬ RxNeeded s.pc s.uart.rxFilled
  | none => True

/-- The last byte of a `uart_putc` does not go straight out with all the others while another caller
needs the FIFO. -/
def SparesLast [DecidableEq τ] (s : Console τ) (t : τ) (room : Nat) : Prop :=
  (s.chars t).length = 1 → s.uart.tx.count < uartFifoSize → s.uart.tx.count < room →
    s.flag.flgptn &&& uartFlgTx = 0 → ¬ TxNeeded (Function.update s.pc (.putc t) .idle) True

/-- **The step gives no pattern away that another caller needs.** -/
def Spares [DecidableEq τ] (s : Console τ) : ConsoleAct τ → Prop
  | .getc =>
    s.pc .getc = .checked → s.flag.flgptn &&& uartFlgRx ≠ 0 →
      ¬ TxNeeded s.pc (s.uart.tx.count = 0)
  | .putc t room =>
    (s.pc (.putc t) = .checked → s.flag.flgptn &&& uartFlgTx ≠ 0 →
      ¬ RxNeeded s.pc (s.uart.rx.count ≠ 0 ∧ ¬ s.uart.rxCause)) ∧
    (s.pc (.putc t) = .start → SparesLast s t room)
  | .irq room =>
    SparesRelease s room
      (s.flag.waitq.find? (Flag.satisfied (s.flag.flgptn ||| s.uart.raised room)))
  | _ => True

instance [Fintype τ] (s : Console τ) (room : Nat) :
    ∀ w, Decidable (SparesRelease s room w)
  | some (.getc, _) => inferInstanceAs (Decidable (¬ _))
  | some (.putc _, _) => inferInstanceAs (Decidable (¬ _))
  | none => instDecidableTrue

instance [DecidableEq τ] [Fintype τ] (s : Console τ) (t : τ) (room : Nat) :
    Decidable (SparesLast s t room) := inferInstanceAs (Decidable (_ → _ → _ → _ → ¬ _))

instance [DecidableEq τ] [Fintype τ] (s : Console τ) : ∀ a, Decidable (Spares s a)
  | .getc => inferInstanceAs (Decidable (_ → _ → ¬ _))
  | .putc _ _ => inferInstanceAs (Decidable ((_ → _ → ¬ _) ∧ (_ → _)))
  | .irq room => inferInstanceAs (Decidable (SparesRelease s room _))
  | .uartGetc | .uartPutc _ _ | .receive _ | .raise _ => instDecidableTrue

/-- The eventflag, its queue and the callers. -/
structure ConsoleInv (s : Console τ) : Prop where
  queued : Queued s.flag s.pc
  /-- The pattern that a caller needs is there. -/
  rxFlag : RxNeeded s.pc (s.uart.rx.count ≠ 0 ∧ ¬ s.uart.rxCause) →
    s.flag.flgptn &&& uartFlgRx ≠ 0
  txFlag : TxNeeded s.pc (s.uart.tx.count = 0) → s.flag.flgptn &&& uartFlgTx ≠ 0

variable {s s' : Console τ} {a : ConsoleAct τ} {res : Option UInt8}

theorem raised_rx (room : Nat) (u : Uart) :
    u.raised room &&& uartFlgRx ≠ 0 ↔ u.rxCause ∧ u.rxFilled := by
  unfold Uart.raised
  rw [or_and_ne_zero]
  split <;> split <;> simp [*] <;> decide

theorem raised_tx (room : Nat) (u : Uart) :
    u.raised room &&& uartFlgTx ≠ 0 ↔ u.txCause ∧ (u.tx.count < uartFifoSize ∨ room ≠ 0) := by
  unfold Uart.raised
  rw [or_and_ne_zero]
  split <;> split <;> simp [*] <;> decide

/-- The bits that a caller needs are set now, or they were. -/
theorem ConsoleInv.raised {room : Nat} {u : Uart} (h : ConsoleInv s) (hh : Handled room s.uart u) :
    (RxNeeded s.pc (u.rx.count ≠ 0 ∧ ¬ u.rxCause) →
      (s.flag.flgptn ||| s.uart.raised room) &&& uartFlgRx ≠ 0) ∧
    (TxNeeded s.pc (u.tx.count = 0) →
      (s.flag.flgptn ||| s.uart.raised room) &&& uartFlgTx ≠ 0) := by
  rw [or_and_ne_zero, or_and_ne_zero, raised_rx, raised_tx, hh.rxCount, hh.txCount]
  refine ⟨fun hn => ?_, fun hn => ?_⟩
  · obtain ⟨hstuck, hfill, -⟩ := hn
    by_cases hc : s.uart.rxCause
    · exact Or.inr ⟨hc, hfill⟩
    · exact Or.inl (h.rxFlag ⟨hstuck, hfill.resolve_right fun hx => hc hx.1, hc⟩)
  · rcases hn.2.2 with h0 | ⟨hc, hle⟩
    · exact Or.inl (h.txFlag ⟨hn.1, hn.2.1, h0⟩)
    · refine Or.inr ⟨hc, ?_⟩
      unfold uartFifoSize
      omega

section

variable [DecidableEq τ]

theorem rxNeeded_putc (pc : Caller τ → Pc) (t : τ) (p : Pc) (filled : Prop) :
    RxNeeded (Function.update pc (.putc t) p) filled ↔ RxNeeded pc filled := by
  unfold RxNeeded
  rw [Function.update_of_ne (by simp)]

theorem txNeeded_getc (pc : Caller τ → Pc) (p : Pc) (emptied : Prop) :
    TxNeeded (Function.update pc .getc p) emptied ↔ TxNeeded pc emptied := by
  unfold TxNeeded
  have hsame : ∀ t, Function.update pc .getc p (.putc t) = pc (.putc t) :=
    fun t => Function.update_of_ne (by simp) _ _
  simp only [hsame]

theorem not_rxNeeded_getc (pc : Caller τ → Pc) {p : Pc} (hp : ¬ p.Stuck) (filled : Prop) :
    ¬ RxNeeded (Function.update pc .getc p) filled := by
  intro hn
  have hs := hn.1
  rw [Function.update_self] at hs
  exact hp hs

/-- A `uart_putc` at the FIFO. -/
theorem not_txNeeded_putc (pc : Caller τ → Pc) (t : τ) (emptied : Prop) :
    ¬ TxNeeded (Function.update pc (.putc t) .start) emptied :=
  fun hn => hn.2.1 t (Function.update_self ..)

theorem TxNeeded.of_checked {pc : Caller τ → Pc} {emptied : Prop} {t : τ} {p : Pc}
    (ht : pc (.putc t) = .checked) (h : TxNeeded (Function.update pc (.putc t) p) emptied) :
    TxNeeded pc emptied := by
  refine ⟨⟨t, Or.inl ht⟩, fun u hu => ?_, h.2.2⟩
  by_cases he : u = t
  · subst he
    rw [ht] at hu
    cases hu
  · refine h.2.1 u ?_
    rw [Function.update_of_ne (by simpa using he)]
    exact hu

/-- **A wait for the eventflag.** -/
theorem ConsoleInv.twaiFlg (h : ConsoleInv s) {w : Caller τ} (hw : s.pc w = .checked)
    (hgetc : w = .getc → s.flag.flgptn &&& uartFlgRx ≠ 0 → ¬ TxNeeded s.pc (s.uart.tx.count = 0))
    (hputc : ∀ t, w = .putc t → s.flag.flgptn &&& uartFlgTx ≠ 0 →
      ¬ RxNeeded s.pc (s.uart.rx.count ≠ 0 ∧ ¬ s.uart.rxCause)) :
    ConsoleInv (s.twaiFlg w w.waiptn) := by
  have hne : s.pc w ≠ .waiting := by
    rw [hw]
    decide
  unfold Console.twaiFlg Flag.wai
  by_cases hp : s.flag.flgptn &&& w.waiptn ≠ 0
  -- the pattern is cleared as a whole, so the other kind of caller must not need its bit
  · rw [if_pos hp]
    dsimp only
    refine ⟨?_, ?_, ?_⟩
    · exact h.queued.clear.move hne (by decide)
    all_goals
      intro hn
      refine absurd hn ?_
      unfold Console.setPc
      dsimp only
      cases w with
      | getc => first
        | exact not_rxNeeded_getc _ (by decide) _
        | rw [txNeeded_getc]; exact hgetc rfl hp
      | putc t => first
        | exact not_txNeeded_putc _ t _
        | rw [rxNeeded_putc]; exact hputc t rfl hp
  · rw [if_neg hp]
    dsimp only
    have hp := not_not.mp hp
    refine ⟨h.queued.block hne hp, ?_, ?_⟩
    all_goals
      intro hn
      unfold Console.setPc at hn
      dsimp only at hn
      cases w with
      | getc => first
        | exact h.txFlag ((txNeeded_getc ..).mp hn)
        | exact absurd hp (h.rxFlag ⟨Or.inl hw, hn.2⟩)
      | putc t => first
        | exact h.rxFlag ((rxNeeded_putc ..).mp hn)
        | exact absurd hp (h.txFlag (hn.of_checked hw))

theorem ConsoleInv.getc_step (h : ConsoleInv s) (ha : Spares s .getc)
    (hs : s.step .getc = some (s', res)) : ConsoleInv s' := by
  simp only [Console.step] at hs
  split at hs
  · next hpc =>
    have hne : s.pc .getc ≠ .waiting := by rw [hpc]; decide
    split at hs
    · next b rx hpop =>
      cases hs
      refine ⟨h.queued.move hne (by decide), fun hn => absurd hn ?_, fun hn => ?_⟩
      · exact not_rxNeeded_getc _ (by decide) _
      · exact h.txFlag ((txNeeded_getc ..).mp hn)
    · next hpop =>
      cases hs
      have h0 := Fifo.pop_eq_none.mp hpop
      refine ⟨h.queued.move hne (by decide), fun hn => absurd h0 hn.2.1, fun hn => ?_⟩
      exact h.txFlag ((txNeeded_getc ..).mp hn)
  · next hpc =>
    cases hs
    exact h.twaiFlg hpc (fun _ => ha hpc) (fun t ht => by cases ht)
  · cases hs

theorem ConsoleInv.putc_step {t : τ} {room : Nat} (hu : UartInv s.uart)
    (h : ConsoleInv s) (ha : Spares s (.putc t room))
    (hs : s.step (.putc t room) = some (s', res)) : ConsoleInv s' := by
  simp only [Console.step] at hs
  split at hs
  · next c cs hpc hchars =>
    have hne : s.pc (.putc t) ≠ .waiting := by rw [hpc]; decide
    split at hs
    · next tx hpush =>
      cases hs
      obtain ⟨hg, -, hcount⟩ := hu.tx.push hpush
      have hk := uartTxKick_kicked room { s.uart with tx } hg
      have hkc : (uartTxKick room { s.uart with tx }).tx.count = s.uart.tx.count + 1 - room := by
        rw [hk.count, ← hcount]
      have hlt : s.uart.tx.count < uartFifoSize := by
        by_contra hge
        rw [txPush, Fifo.push_eq_none.mpr (by omega)] at hpush
        cases hpush
      refine ⟨h.queued.move hne (by split <;> decide), ?_, ?_⟩
      · intro hn
        have hrx : (uartTxKick room { s.uart with tx }).rx = s.uart.rx := hk.rx
        obtain ⟨hstuck, hfill, hquiet⟩ := (rxNeeded_putc ..).mp hn
        refine h.rxFlag ⟨hstuck, ?_, fun hc => hquiet (hk.rxCause.mpr hc)⟩
        rw [← hrx]
        exact hfill
      · intro hn
        -- after its last byte the caller is gone, which `SparesLast` is about
        by_cases hcs : cs = []
        · subst hcs
          have hempty : (uartTxKick room { s.uart with tx }).tx.count = 0 := hn.2.2
          intro hp
          refine ha.2 hpc (by rw [hchars]; rfl) hlt (by omega) hp ⟨hn.1, hn.2.1, trivial⟩
        · rw [if_neg hcs] at hn
          exact absurd hn (not_txNeeded_putc _ t _)
    · next hpush =>
      cases hs
      have hfull := Fifo.push_eq_none.mp hpush
      refine ⟨h.queued.move hne (by decide), fun hn => ?_, fun hn => ?_⟩
      · exact h.rxFlag ((rxNeeded_putc ..).mp hn)
      · have h0 : s.uart.tx.count = 0 := hn.2.2
        rw [h0] at hfull
        exact absurd hfull (by decide)
  · next hpc =>
    cases hs
    refine h.twaiFlg hpc (fun ht => by cases ht) fun u hu => ?_
    obtain rfl := Caller.putc.inj hu
    exact ha.1 hpc
  · cases hs

/-! ### The handler -/

theorem wake_nil (s : Console τ) : s.wake [] = s := by
  unfold Console.wake
  simp

/-- **The handler sets bits of the eventflag.** -/
theorem ConsoleInv.irq_step {room : Nat} (hu : UartInv s.uart)
    (h : ConsoleInv s) (ha : Spares s (.irq room))
    (hs : s.step (.irq room) = some (s', res)) : ConsoleInv s' := by
  obtain ⟨hset, hh⟩ := uartIrq_handled hu room
  simp only [Console.step, Option.some.injEq, Prod.mk.injEq] at hs
  obtain ⟨rfl, -⟩ := hs
  rw [hset]
  generalize (uartIrq room s.uart).2 = u at hh
  obtain ⟨hrx, htx⟩ := h.raised hh
  replace ha : SparesRelease s room
    (s.flag.waitq.find? (Flag.satisfied (s.flag.flgptn ||| s.uart.raised room))) := ha
  rcases Flag.walk_cases (s.flag.flgptn ||| s.uart.raised room) s.flag.waitq with
    ⟨-, hun, hwalk⟩ | ⟨l₁, w, l₂, hfind, hq, hwalk⟩
  · -- nobody is released
    have hinv : ConsoleInv { s with
        uart := u, flag := ⟨s.flag.flgptn ||| s.uart.raised room, s.flag.waitq⟩ } :=
      ⟨⟨h.queued.mem, h.queued.nodup, hun⟩, hrx, htx⟩
    split
    · have hiset : Console.isetFlg (s.uart.raised room) { s with uart := u } = { s with
          uart := u, flag := ⟨s.flag.flgptn ||| s.uart.raised room, s.flag.waitq⟩ } := by
        unfold Console.isetFlg Flag.set
        dsimp only
        rw [hwalk, wake_nil]
      rw [hiset]
      exact hinv
    · next h0 =>
      rw [not_not.mp h0, show s.flag.flgptn ||| 0 = s.flag.flgptn from BitVec.or_zero] at hinv
      exact hinv
  · -- the first satisfied caller is released, and the pattern is cleared
    have hraised : s.uart.raised room ≠ 0 := by
      intro h0
      have hsat := Flag.satisfied_iff.mp (List.find?_some hfind)
      rw [h0, show s.flag.flgptn ||| 0 = s.flag.flgptn from BitVec.or_zero] at hsat
      exact hsat (h.queued.unsatisfied w (List.mem_of_find?_eq_some hfind))
    rw [if_pos hraised]
    have hiset : Console.isetFlg (s.uart.raised room) { s with uart := u } =
        { s with
          uart := u, flag := ⟨0, l₁ ++ l₂⟩
          pc := fun x => if x ∈ [w.1] then .start else s.pc x } := by
      unfold Console.isetFlg Flag.set
      dsimp only
      rw [hwalk]
      rfl
    rw [hiset]
    rw [hfind] at ha
    obtain ⟨x, ptn⟩ := w
    refine ⟨h.queued.release hq, ?_, ?_⟩
    · intro hn
      cases x with
      | getc =>
        have hs : ((if (.getc : Caller τ) ∈ [.getc] then .start else s.pc .getc) : Pc).Stuck := hn.1
        rw [if_pos (List.mem_singleton_self _)] at hs
        exact absurd hs (by decide)
      | putc t =>
        have hs : ((if (.getc : Caller τ) ∈ [.putc t] then .start else s.pc .getc) : Pc).Stuck :=
          hn.1
        rw [if_neg (by simp)] at hs
        exact absurd ⟨hs, hh.rxCount.mp hn.2.1⟩ ha
    · intro hn
      cases x with
      | getc =>
        have hsame : ∀ t, (if (.putc t : Caller τ) ∈ [.getc] then .start else s.pc (.putc t)) =
            s.pc (.putc t) := fun t => if_neg (by simp)
        obtain ⟨⟨t, ht⟩, hnone, h0⟩ := hn
        refine absurd ⟨⟨t, ?_⟩, fun u => ?_, hh.txCount.mp h0⟩ ha
        · rw [← hsame t]
          exact ht
        · rw [← hsame u]
          exact hnone u
      | putc t =>
        refine absurd ?_ (hn.2.1 t)
        exact if_pos (List.mem_singleton_self _)

/-- **Every step that spares the others keeps the state of the console.** -/
theorem ConsoleInv.step (hu : UartInv s.uart) (h : ConsoleInv s) (ha : Spares s a)
    (hs : s.step a = some (s', res)) :
    ConsoleInv s' := by
  cases a with
  | uartGetc =>
    simp only [Console.step] at hs
    split at hs
    · next hpc =>
      cases hs
      refine ⟨h.queued.move (by rw [hpc]; decide) (by decide),
        fun hn => absurd hn ?_, fun hn => h.txFlag ((txNeeded_getc ..).mp hn)⟩
      exact not_rxNeeded_getc _ (by decide) _
    · cases hs
  | uartPutc t c =>
    simp only [Console.step] at hs
    split at hs
    · next hpc =>
      cases hs
      refine ⟨h.queued.move (by rw [hpc]; decide) (by decide),
        fun hn => h.rxFlag ((rxNeeded_putc ..).mp hn), fun hn => absurd hn ?_⟩
      exact not_txNeeded_putc _ t _
    · cases hs
  | getc => exact h.getc_step ha hs
  | putc t room => exact .putc_step hu h ha hs
  | receive b =>
    cases hs
    exact ⟨h.queued, h.rxFlag, h.txFlag⟩
  | raise bits =>
    cases hs
    exact ⟨h.queued, fun hn => h.rxFlag ⟨hn.1, hn.2.1, fun hc => hn.2.2 hc.raise⟩, h.txFlag⟩
  | irq room => exact .irq_step hu h ha hs

/-! ## Runs -/

/-- The bytes that a step takes over from the UART. -/
def takesAt (s : Console τ) : ConsoleAct τ → List UInt8
  | .irq _ => s.uart.takes
  | _ => []

theorem twaiFlg_uart (w : Caller τ) (waiptn : FLGPTN) (s : Console τ) :
    (s.twaiFlg w waiptn).uart = s.uart := by
  unfold Console.twaiFlg
  split <;> rfl

/-- **What a step does to the soft FIFOs**, whoever waits. -/
theorem UartInv.step (hu : UartInv s.uart) (hs : s.step a = some (s', res)) :
    UartInv s'.uart ∧ s.uart.rx.toList ++ takesAt s a = res.toList ++ s'.uart.rx.toList := by
  -- steps that take nothing out of the receive FIFO
  have hsame : ∀ {u : Uart}, u.rx = s.uart.rx → s.uart.rx.toList ++ [] = [] ++ u.rx.toList :=
    fun hrx => by rw [hrx, List.append_nil, List.nil_append]
  cases a with
  | uartGetc =>
    simp only [Console.step] at hs
    split at hs
    · cases hs
      exact ⟨hu, hsame rfl⟩
    · cases hs
  | uartPutc t c =>
    simp only [Console.step] at hs
    split at hs
    · cases hs
      exact ⟨hu, hsame rfl⟩
    · cases hs
  | getc =>
    simp only [Console.step] at hs
    split at hs
    · split at hs
      · next b rx hpop =>
        cases hs
        obtain ⟨hg, hl, -⟩ := hu.rx.pop hpop
        refine ⟨⟨hg, hu.tx, hu.mask⟩, ?_⟩
        show s.uart.rx.toList ++ [] = [b] ++ rx.toList
        rw [hl, List.append_nil]
        rfl
      · cases hs
        exact ⟨hu, hsame rfl⟩
    · cases hs
      rw [twaiFlg_uart]
      exact ⟨hu, hsame rfl⟩
    · cases hs
  | putc t room =>
    simp only [Console.step] at hs
    split at hs
    · split at hs
      · next tx hpush =>
        cases hs
        have hk := uartTxKick_kicked room { s.uart with tx } (hu.tx.push hpush).1
        have hrx : (uartTxKick room { s.uart with tx }).rx = s.uart.rx := hk.rx
        have hgood : (uartTxKick room { s.uart with tx }).rx.Good := by
          rw [hrx]
          exact hu.rx
        exact ⟨⟨hgood, hk.good, hk.mask⟩, hsame hrx⟩
      · cases hs
        exact ⟨hu, hsame rfl⟩
    · cases hs
      rw [twaiFlg_uart]
      exact ⟨hu, hsame rfl⟩
    · cases hs
  | receive b =>
    cases hs
    exact ⟨⟨hu.rx, hu.tx, hu.mask⟩, hsame rfl⟩
  | raise bits =>
    cases hs
    exact ⟨⟨hu.rx, hu.tx, hu.mask⟩, hsame rfl⟩
  | irq room =>
    obtain ⟨-, hh⟩ := uartIrq_handled hu room
    simp only [Console.step, Option.some.injEq, Prod.mk.injEq] at hs
    obtain ⟨rfl, rfl⟩ := hs
    have huart : (if (uartIrq room s.uart).1 ≠ 0 then
        Console.isetFlg (uartIrq room s.uart).1 { s with uart := (uartIrq room s.uart).2 }
        else { s with uart := (uartIrq room s.uart).2 }).uart = (uartIrq room s.uart).2 := by
      split <;> rfl
    rw [huart]
    exact ⟨hh.inv, hh.toList.symm⟩

abbrev CTrace (τ : Type) := List (Event (Console τ) (ConsoleAct τ × Option UInt8))

/-- The runs of the callers, the UART and the handler, with all steps meeting `C`. -/
abbrev CRun (C : Console τ → ConsoleAct τ → Prop) : CTrace τ → Console τ → Prop :=
  Run Console.Start fun s l s' => C s l.1 ∧ s.step l.1 = some (s', l.2)

variable {tr : CTrace τ} {C : Console τ → ConsoleAct τ → Prop}

/-- The received bytes that `rx_push` has taken, the first one first. -/
def taken : CTrace τ → List UInt8
  | [] => []
  | e :: tr => taken tr ++ takesAt e.pre e.label.1

/-- The bytes that `uart_getc` has returned, the first one first. -/
def got : CTrace τ → List UInt8
  | [] => []
  | e :: tr => got tr ++ e.label.2.toList

theorem Fifo.good_empty {f : Fifo} (h : f.head = 0 ∧ f.tail = 0 ∧ f.count = 0) :
    f.Good ∧ f.toList = [] := by
  obtain ⟨h₁, h₂, h₃⟩ := h
  refine ⟨⟨?_, ?_, ?_⟩, ?_⟩
  · rw [h₁, h₂, h₃]
    rfl
  · rw [h₂]
    decide
  · rw [h₃]
    decide
  · rw [← List.length_eq_zero_iff, Fifo.length_toList, h₃]

theorem CRun.uart (h : CRun C tr s) : UartInv s.uart ∧ taken tr = got tr ++ s.uart.rx.toList := by
  induction h with
  | start hs =>
    obtain ⟨hrx, hnil⟩ := Fifo.good_empty hs.rx
    refine ⟨⟨hrx, (Fifo.good_empty hs.tx).1, ?_⟩, ?_⟩
    · rw [hs.imsc, hs.tx.2.2]
      decide
    · rw [hnil]
      rfl
  | step _ hs ih =>
    obtain ⟨hu, hl⟩ := ih
    obtain ⟨hu', hl'⟩ := hu.step hs.2
    refine ⟨hu', ?_⟩
    rw [taken, got, hl, List.append_assoc, hl', List.append_assoc]

theorem CRun.inv (h : CRun Spares tr s) : ConsoleInv s := by
  induction h with
  | start hs =>
    refine ⟨⟨fun w ptn => ?_, ?_, fun w hw => ?_⟩, fun hn => ?_, fun hn => ?_⟩
    · rw [hs.waitq, hs.pc w]
      simp
    · rw [hs.waitq]
      exact List.nodup_nil
    · rw [hs.waitq] at hw
      cases hw
    · exact absurd hs.rx.2.2 hn.2.1
    · obtain ⟨t, ht⟩ := hn.1
      rw [hs.pc] at ht
      exact absurd ht (by decide)
  | step hrun hs ih => exact ih.step (CRun.uart hrun).1 hs.1 hs.2

/-! ## The property -/

/-- No interrupt is pending, and no caller is between two steps. -/
structure AtRest (s : Console τ) : Prop where
  quiet : s.uart.mis = 0
  callers : ∀ w, s.pc w = .idle ∨ s.pc w = .waiting

/-- Nobody is blocked who could go on, and whom no interrupt will release. -/
def NobodyLeft (s : Console τ) : Prop :=
  AtRest s → ¬ (s.pc .getc = .waiting ∧ 0 < s.uart.rx.count) ∧
    ∀ t, ¬ (s.pc (.putc t) = .waiting ∧ s.uart.tx.count < uartFifoSize ∧
      s.uart.imsc &&& uartIntTx = 0)

/-- **In a run whose steps give no pattern away that another caller needs nobody is left blocked and
the bytes come in the order in which they were received.** -/
theorem console_wakes (h : CRun Spares tr s) :
    NobodyLeft s ∧ taken tr = got tr ++ s.uart.rx.toList := by
  obtain ⟨hu, horder⟩ := CRun.uart h
  have hi := CRun.inv h
  refine ⟨fun hrest => ⟨?_, fun t => ?_⟩, horder⟩
  · rintro ⟨hw, hpos⟩
    have hquiet : ¬ s.uart.rxCause := by
      unfold Uart.rxCause
      rw [hrest.quiet]
      decide
    exact hi.rxFlag ⟨Or.inr hw, by omega, hquiet⟩ (hi.queued.of_waiting hw)
  · rintro ⟨hw, -, hmask⟩
    refine hi.txFlag ⟨⟨t, Or.inr hw⟩, fun u hs => ?_, hu.mask.mp hmask⟩ (hi.queued.of_waiting hw)
    rcases hrest.callers (.putc u) with hc | hc <;> rw [hs] at hc <;> cases hc

/-- After `uart_init`, with zeros in the FIFOs. -/
def consoleZero : Console Unit where
  uart :=
    { rx := ⟨fun _ => 0, 0, 0, 0⟩, tx := ⟨fun _ => 0, 0, 0, 0⟩, ris := 0
      imsc := uartIntRx ||| uartIntRt, received := [], written := [] }
  flag := ⟨uartFlgTx, []⟩
  pc := fun _ => .idle
  chars := fun _ => []

theorem consoleZero_start : Console.Start consoleZero :=
  ⟨fun _ => rfl, rfl, rfl, ⟨rfl, rfl, rfl⟩, ⟨rfl, rfl, rfl⟩, rfl⟩

/-- A byte releases the caller of `uart_getc`. -/
theorem console_wakes_getc : ∃ (tr : CTrace Unit) (s : Console Unit), got tr = [98] ∧
    NobodyLeft s ∧ taken tr = got tr ++ s.uart.rx.toList := by
  obtain ⟨tr, s, h, hgot⟩ := exists_perform consoleZero_start
    [.uartGetc, .getc, .getc, .receive 98, .raise uartIntRx, .irq 0, .getc]
    (f := Console.step) (C := Spares) (fun tr _ => got tr = [98]) (by decide +kernel)
  exact ⟨tr, s, hgot, console_wakes h⟩

/-- A task has filled the transmit FIFO and waits to put one more byte. -/
def fillTx : List (ConsoleAct Unit) :=
  (List.replicate uartFifoSize [.uartPutc () 97, .putc () 0]).flatten ++
    [.uartPutc () 97, .putc () 0, .putc () 0, .putc () 0, .putc () 0]

/-- **A receive and a transmit interrupt come together**, and the eventflag is cleared when it has
released one of two callers: the other one stays blocked, with a byte there for it, or with the
transmit FIFO empty. -/
theorem callers_left_blocked :
    (∃ tr s, CRun (fun (_ : Console Unit) _ => True) tr s ∧ ¬ NobodyLeft s ∧
      s.pc .getc = .waiting ∧ s.uart.rx.count = 1) ∧
    ∃ tr s, CRun (fun (_ : Console Unit) _ => True) tr s ∧ ¬ NobodyLeft s ∧
      s.pc (.putc ()) = .waiting ∧ s.uart.tx.count = 0 := by
  constructor
  · obtain ⟨tr, s, h, hq, hp, hw, hc⟩ := exists_perform consoleZero_start
      (fillTx ++ [.uartGetc, .getc, .getc, .receive 98, .raise (uartIntRx ||| uartIntTx), .irq 1,
        .putc () 0])
      (f := Console.step) (C := fun _ _ => True)
      (fun _ s => s.uart.mis = 0 ∧ s.pc (.putc ()) = .idle ∧ s.pc .getc = .waiting ∧
        s.uart.rx.count = 1) (by decide +kernel)
    refine ⟨tr, s, h, fun hn => ?_, hw, hc⟩
    have hrest : AtRest s := ⟨hq, fun w => by cases w with
      | getc => exact Or.inr hw
      | putc t => exact Or.inl hp⟩
    exact (hn hrest).1 ⟨hw, by omega⟩
  · obtain ⟨tr, s, h, hq, hp, hw, hc, hm⟩ := exists_perform consoleZero_start
      ([.uartGetc, .getc, .getc] ++ fillTx ++ [.receive 98, .raise (uartIntRx ||| uartIntTx),
        .irq 128, .getc])
      (f := Console.step) (C := fun _ _ => True)
      (fun _ s => s.uart.mis = 0 ∧ s.pc .getc = .idle ∧ s.pc (.putc ()) = .waiting ∧
        s.uart.tx.count = 0 ∧ s.uart.imsc &&& uartIntTx = 0) (by decide +kernel)
    refine ⟨tr, s, h, fun hn => ?_, hw, hc⟩
    have hrest : AtRest s := ⟨hq, fun w => by cases w with
      | getc => exact Or.inl hp
      | putc t => exact Or.inr hw⟩
    exact (hn hrest).2 () ⟨hw, by rw [hc]; decide, hm⟩

end

end Ittrium.Drv
