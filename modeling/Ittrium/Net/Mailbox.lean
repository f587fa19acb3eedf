import Ittrium.Infra.Window
import Ittrium.Properties.Runs
import Ittrium.Net.Steps

/-!
# The mailbox ring

The ring is changed in one critical section and `sem_empty` is signalled or waited for in another
step, so the two agree only when the tasks between those steps are counted.

* `Ring`, `contents` — what holds of the ring, and the messages in it
* `MboxInv` — what a run keeps: the ring, and the tokens for its messages
* `mbox_fifo` — **messages leave the mailbox in the order they came, and the semaphore never
  disagrees with it**
-/

namespace Ittrium.Net

open Infra

variable {τ : Type} {cfg : Config} {net net' : Port τ} {m : SysMbox}

/-! ## The ring -/

/-- What holds of the indices. -/
structure Ring (m : SysMbox) : Prop where
  tail : 0 ≤ m.tail ∧ m.tail < m.size
  used : 0 ≤ m.used ∧ m.used ≤ m.size
  head : m.head = (m.tail + m.used) % m.size

/-- The messages in the ring, the oldest first. -/
def contents (m : SysMbox) : List VP := window m.q m.size m.tail m.used.toNat

/-- The wrap of an index that has been counted up. -/
theorem wrap_eq {i size : Int} (h : 0 ≤ i ∧ i < size) :
    (if i + 1 ≥ size then 0 else i + 1) = (i + 1) % size := by
  split
  · have : i + 1 = size := by omega
    rw [this, Int.emod_self]
  · rw [Int.emod_eq_of_lt (by omega) (by omega)]

theorem mboxEnqueueUnlocked_eq (msg : VP) (m : SysMbox) :
    mboxEnqueueUnlocked msg m =
      { m with
        q := Function.update m.q m.head msg
        head := if m.head + 1 ≥ m.size then 0 else m.head + 1
        used := m.used + 1 } := by
  unfold mboxEnqueueUnlocked
  dsimp only
  split <;> rfl

theorem mboxDequeueUnlocked_eq (m : SysMbox) :
    mboxDequeueUnlocked m =
      (m.q m.tail,
        { m with
          q := Function.update m.q m.tail 0
          tail := if m.tail + 1 ≥ m.size then 0 else m.tail + 1
          used := m.used - 1 }) := by
  unfold mboxDequeueUnlocked
  dsimp only
  split <;> rfl

theorem Ring.enqueue (h : Ring m) (hlt : m.used < m.size) (msg : VP) :
    Ring (mboxEnqueueUnlocked msg m) := by
  have hu := h.used
  have hhead : 0 ≤ m.head ∧ m.head < m.size := by
    rw [h.head]
    exact ⟨Int.emod_nonneg _ (by omega), Int.emod_lt_of_pos _ (by omega)⟩
  rw [mboxEnqueueUnlocked_eq]
  refine ⟨h.tail, ⟨?_, ?_⟩, ?_⟩
  · show 0 ≤ m.used + 1
    omega
  · show m.used + 1 ≤ m.size
    omega
  · show (if m.head + 1 ≥ m.size then 0 else m.head + 1) = (m.tail + (m.used + 1)) % m.size
    rw [wrap_eq hhead, h.head, Int.emod_add_emod, Int.add_assoc]

/-- **A message is added after all others.** -/
theorem Ring.contents_enqueue (h : Ring m) (hlt : m.used < m.size) (msg : VP) :
    contents (mboxEnqueueUnlocked msg m) = contents m ++ [msg] := by
  have hu := h.used
  obtain ⟨n, hn⟩ : ∃ n : Nat, m.used = n := ⟨m.used.toNat, by omega⟩
  rw [mboxEnqueueUnlocked_eq]
  show window (Function.update m.q m.head msg) m.size m.tail (m.used + 1).toNat = _
  rw [contents, h.head, hn, Int.toNat_natCast, show ((n : Int) + 1).toNat = n + 1 by omega]
  exact window_push msg (by omega)

theorem Ring.dequeue (h : Ring m) (hne : m.used ≠ 0) : Ring (mboxDequeueUnlocked m).2 := by
  have hu := h.used
  have ht := h.tail
  rw [mboxDequeueUnlocked_eq]
  refine ⟨?_, ⟨?_, ?_⟩, ?_⟩
  · show 0 ≤ (if m.tail + 1 ≥ m.size then 0 else m.tail + 1) ∧ _ < m.size
    rw [wrap_eq ht]
    exact ⟨Int.emod_nonneg _ (by omega), Int.emod_lt_of_pos _ (by omega)⟩
  · show 0 ≤ m.used - 1
    omega
  · show m.used - 1 ≤ m.size
    omega
  · show m.head = ((if m.tail + 1 ≥ m.size then 0 else m.tail + 1) + (m.used - 1)) % m.size
    rw [wrap_eq ht, Int.emod_add_emod, h.head]
    congr 1
    omega

/-- **The oldest message is the one that leaves.** -/
theorem Ring.contents_dequeue (h : Ring m) (hne : m.used ≠ 0) :
    contents m = (mboxDequeueUnlocked m).1 :: contents (mboxDequeueUnlocked m).2 := by
  have hu := h.used
  obtain ⟨n, hn⟩ : ∃ n : Nat, m.used = n + 1 := ⟨(m.used - 1).toNat, by omega⟩
  rw [mboxDequeueUnlocked_eq]
  show contents m = m.q m.tail :: window (Function.update m.q m.tail 0) m.size
    (if m.tail + 1 ≥ m.size then 0 else m.tail + 1) (m.used - 1).toNat
  rw [contents, wrap_eq h.tail, hn, show ((n : Int) + 1).toNat = n + 1 by omega,
    show ((n : Int) + 1 - 1).toNat = n by omega]
  exact window_pop 0 h.tail (by omega)

theorem Ring.new {size : Int} (h : sysMboxNew cfg size = some m) :
    Ring m ∧ contents m = [] ∧ 0 < m.size ∧ m.size ≤ cfg.tmaxMaxsem ∧ m.used = 0 := by
  unfold sysMboxNew at h
  split at h
  · cases h
  · next hsize =>
    obtain rfl := Option.some.inj h
    refine ⟨⟨⟨le_rfl, ?_⟩, ⟨le_rfl, ?_⟩, ?_⟩, rfl, ?_, ?_, rfl⟩
    · show 0 < size
      omega
    · show 0 ≤ size
      omega
    · show 0 = (0 + 0) % size
      simp
    · show 0 < size
      omega
    · show size ≤ cfg.tmaxMaxsem
      omega

/-! ## The messages of a run -/

/-- The message a step has put into the ring. -/
def enqueuedBy (e : Event (Port τ) (Act τ × Option Ret)) : Option VP :=
  match e.label.1 with
  | .run t =>
    match e.pre.pc t with
    | .enqueue msg _ => if e.pre.mbox.used < e.pre.mbox.size then some msg else none
    | _ => none
  | _ => none

/-- The message a step has taken from the ring. -/
def dequeuedBy (e : Event (Port τ) (Act τ × Option Ret)) : Option VP :=
  match e.label.1 with
  | .run t =>
    match e.pre.pc t with
    | .dequeue _ => if e.pre.mbox.used ≠ 0 then some (mboxDequeueUnlocked e.pre.mbox).1 else none
    | _ => none
  | _ => none

/-- The messages put into the ring so far, the first one first. -/
def enqueued (tr : NetTrace τ) : List VP := (tr.filterMap enqueuedBy).reverse

/-- The messages taken from it. -/
def dequeued (tr : NetTrace τ) : List VP := (tr.filterMap dequeuedBy).reverse

theorem enqueued_cons (e : Event (Port τ) (Act τ × Option Ret)) (tr : NetTrace τ) :
    enqueued (e :: tr) = enqueued tr ++ (enqueuedBy e).toList := by
  unfold enqueued
  cases h : enqueuedBy e with
  | none => rw [List.filterMap_cons_none h]; simp
  | some msg => rw [List.filterMap_cons_some h]; simp

theorem dequeued_cons (e : Event (Port τ) (Act τ × Option Ret)) (tr : NetTrace τ) :
    dequeued (e :: tr) = dequeued tr ++ (dequeuedBy e).toList := by
  unfold dequeued
  cases h : dequeuedBy e with
  | none => rw [List.filterMap_cons_none h]; simp
  | some msg => rw [List.filterMap_cons_some h]; simp

/-- The messages of a step that neither fills nor empties a cell. -/
theorem Turns.messages {a : Act τ} {t : τ} {p : Pc} (h : Turns net (net.pc t) p)
    (ha : ∀ u, a = .run u → u = t) (r : Option Ret) (net' : Port τ) :
    enqueuedBy ⟨net, (a, r), net'⟩ = none ∧ dequeuedBy ⟨net, (a, r), net'⟩ = none := by
  unfold enqueuedBy dequeuedBy
  cases a with
  | run u =>
    obtain rfl := ha u rfl
    dsimp only
    cases hpc : net.pc u <;> rw [hpc] at h <;> try exact ⟨rfl, rfl⟩
    · cases h with
      | full msg p hfull hp => exact ⟨if_neg (not_lt.mpr hfull), rfl⟩
    · cases h with
      | foundEmpty w h0 => exact ⟨rfl, if_neg (not_not.mpr h0)⟩
  | _ => exact ⟨rfl, rfl⟩

theorem Ends.messages {r : Ret} {t : τ} (h : Ends net (net.pc t) r) (r : Option Ret)
    (net' : Port τ) :
    enqueuedBy ⟨net, (.run t, r), net'⟩ = none ∧ dequeuedBy ⟨net, (.run t, r), net'⟩ = none := by
  unfold enqueuedBy dequeuedBy
  dsimp only
  cases hpc : net.pc t <;> rw [hpc] at h <;> try exact ⟨rfl, rfl⟩
  · cases h with
    | full msg hfull => exact ⟨if_neg (not_lt.mpr hfull), rfl⟩
  · cases h with
    | empty h0 => exact ⟨rfl, if_neg (not_not.mpr h0)⟩

/-- A step of a task that is not in a critical section of the port. -/
theorem messages_of_pc {t : τ} (h₁ : ∀ msg p, net.pc t ≠ .enqueue msg p)
    (h₂ : ∀ f, net.pc t ≠ .dequeue f) (r : Option Ret) (net' : Port τ) :
    enqueuedBy ⟨net, (.run t, r), net'⟩ = none ∧ dequeuedBy ⟨net, (.run t, r), net'⟩ = none := by
  unfold enqueuedBy dequeuedBy
  dsimp only
  cases hpc : net.pc t with
  | enqueue msg p => exact absurd hpc (h₁ msg p)
  | dequeue f => exact absurd hpc (h₂ f)
  | _ => exact ⟨rfl, rfl⟩

theorem Pc.Takes.ne {p p' : Pc} {n : SemName} (h : p.Takes n p') :
    (∀ msg q, p ≠ .enqueue msg q) ∧ ∀ f, p ≠ .dequeue f := by
  cases h <;> exact ⟨nofun, nofun⟩

theorem Pc.Blocks.ne {p p' : Pc} {n : SemName} (h : p.Blocks n p') :
    (∀ msg q, p ≠ .enqueue msg q) ∧ ∀ f, p ≠ .dequeue f := by
  cases h <;> exact ⟨nofun, nofun⟩

/-- A step that leaves the ring as it is. -/
theorem Ring.unchanged {a : Act τ} {r : Option Ret} (h : Ring net.mbox)
    (hm : net'.mbox = net.mbox)
    (hmsg : enqueuedBy ⟨net, (a, r), net'⟩ = none ∧ dequeuedBy ⟨net, (a, r), net'⟩ = none) :
    Ring net'.mbox ∧ net'.mbox.size = net.mbox.size ∧
      contents net.mbox ++ (enqueuedBy ⟨net, (a, r), net'⟩).toList =
        (dequeuedBy ⟨net, (a, r), net'⟩).toList ++ contents net'.mbox := by
  rw [hmsg.1, hmsg.2, hm]
  exact ⟨h, rfl, by simp⟩

/-- **A step adds a message at the end, or takes the first one, or leaves the ring as it is.** -/
theorem Move.ring [DecidableEq τ] {a : Act τ} {r : Option Ret} (h : Ring net.mbox)
    (hm : Move cfg net a r net') :
    Ring net'.mbox ∧ net'.mbox.size = net.mbox.size ∧
      contents net.mbox ++ (enqueuedBy ⟨net, (a, r), net'⟩).toList =
        (dequeuedBy ⟨net, (a, r), net'⟩).toList ++ contents net'.mbox := by
  cases hm with
  | turn ha ht => exact h.unchanged rfl (ht.messages ha _ _)
  | ends ht => exact h.unchanged rfl (ht.messages _ _)
  | posted ht =>
    refine h.unchanged (signal_mbox _ net) (messages_of_pc ?_ ?_ _ _) <;> rw [ht] <;> exact nofun
  | take ht _ => exact h.unchanged rfl (messages_of_pc ht.ne.1 ht.ne.2 _ _)
  | block ht _ => exact h.unchanged rfl (messages_of_pc ht.ne.1 ht.ne.2 _ _)
  | notified ht =>
    refine h.unchanged (signal_mbox _ net) (messages_of_pc ?_ ?_ _ _) <;> rw [ht] <;> exact nofun
  | signalled _ => exact h.unchanged (signal_mbox _ net) ⟨rfl, rfl⟩
  | tick => exact h.unchanged rfl ⟨rfl, rfl⟩
  | @enqueue t msg p ht hlt =>
    refine ⟨h.enqueue hlt msg, ?_, ?_⟩
    · show (mboxEnqueueUnlocked msg net.mbox).size = _
      rw [mboxEnqueueUnlocked_eq]
    · show _ = _ ++ contents (mboxEnqueueUnlocked msg net.mbox)
      rw [h.contents_enqueue hlt msg]
      simp [enqueuedBy, dequeuedBy, ht, hlt]
  | @dequeue t f ht hne =>
    refine ⟨h.dequeue hne, ?_, ?_⟩
    · show (mboxDequeueUnlocked net.mbox).2.size = _
      rw [mboxDequeueUnlocked_eq]
    · show _ = _ ++ contents (mboxDequeueUnlocked net.mbox).2
      rw [h.contents_dequeue hne]
      simp [enqueuedBy, dequeuedBy, ht, hne]

/-! ## Tasks between two steps -/

/-- A poster that has put its message into the ring and not signalled `sem_empty`. -/
def Pc.signalling : Pc → Nat
  | .signalEmpty => 1
  | _ => 0

/-- A fetcher that has a resource of `sem_empty` and not taken its message. -/
def Pc.acquired : Pc → Nat
  | .dequeue _ => 1
  | _ => 0

theorem Pc.weights_of_waitsFor {p : Pc} {n : SemName} (h : p.waitsFor = some n) :
    p.signalling = 0 ∧ p.acquired = 0 := by
  cases p <;> first | exact ⟨rfl, rfl⟩ | cases h

/-- A task served is between its two steps if it is a fetcher. -/
theorem Pc.served_weights {p : Pc} {n : SemName} (h : p.waitsFor = some n) :
    p.served.signalling = 0 ∧ p.served.acquired = if n = .semEmpty then 1 else 0 := by
  cases p with
  | blockedFull msg =>
    cases h
    exact ⟨rfl, rfl⟩
  | blocked w left slice count =>
    cases h
    obtain ⟨who⟩ := w
    cases who <;> exact ⟨rfl, rfl⟩
  | _ => cases h

theorem Pc.Takes.weights {p p' : Pc} {n : SemName} (h : p.Takes n p') :
    p.signalling = 0 ∧ p.acquired = 0 ∧ p'.signalling = 0 ∧
      p'.acquired = if n = .semEmpty then 1 else 0 := by
  cases h with
  | wait w left =>
    obtain ⟨who⟩ := w
    cases who <;> exact ⟨rfl, rfl, rfl, rfl⟩
  | _ => exact ⟨rfl, rfl, rfl, rfl⟩

theorem Pc.Blocks.weights {p p' : Pc} {n : SemName} (h : p.Blocks n p') :
    p.signalling = 0 ∧ p.acquired = 0 ∧ p'.signalling = 0 ∧ p'.acquired = 0 := by
  cases h <;> exact ⟨rfl, rfl, rfl, rfl⟩

theorem Turns.weights {p p' : Pc} (h : Turns net p p') (hne : ∀ f, p = .dequeue f → net.mbox.used ≠ 0) :
    p.signalling = p'.signalling ∧ p.acquired = p'.acquired := by
  cases h with
  | foundEmpty w h0 => exact absurd h0 (hne _ rfl)
  | _ => exact ⟨rfl, rfl⟩

theorem Ends.weights {p : Pc} {r : Ret} (h : Ends net p r)
    (hne : ∀ f, p = .dequeue f → net.mbox.used ≠ 0) : p.signalling = 0 ∧ p.acquired = 0 := by
  cases h with
  | empty h0 => exact absurd h0 (hne _ rfl)
  | _ => exact ⟨rfl, rfl⟩

theorem Pc.tick_weights (p : Pc) :
    p.tick.signalling = p.signalling ∧ p.tick.acquired = p.acquired := by
  unfold Pc.tick
  split
  · split
    · dsimp only
      split <;> exact ⟨rfl, rfl⟩
    · exact ⟨rfl, rfl⟩
  · exact ⟨rfl, rfl⟩

section

variable [Fintype τ]

/-- The messages that are in the ring, going by the semaphore and the tasks between two steps. -/
def promised (net : Port τ) : Int :=
  (net.sem .semEmpty).semcnt + total Pc.signalling net.pc + total Pc.acquired net.pc

theorem promised_tick (net : Port τ) : promised (net.tick cfg) = promised net := by
  unfold promised
  have h₁ : total Pc.signalling (net.tick cfg).pc = total Pc.signalling net.pc :=
    total_congr fun t => (net.pc t).tick_weights.1
  have h₂ : total Pc.acquired (net.tick cfg).pc = total Pc.acquired net.pc :=
    total_congr fun t => (net.pc t).tick_weights.2
  rw [h₁, h₂]
  rfl

theorem promised_mbox (m : SysMbox) (net : Port τ) :
    promised { net with mbox := m } = promised net := rfl

theorem promised_setSem (n : SemName) (s : Sem τ) (net : Port τ) :
    promised (net.setSem n s) =
      promised net + if n = .semEmpty then s.semcnt - (net.sem .semEmpty).semcnt else 0 := by
  unfold promised
  show (Function.update net.sem n s .semEmpty).semcnt + _ + _ = _
  by_cases hn : n = .semEmpty
  · subst hn
    rw [Function.update_self, if_pos rfl, setSem_pc]
    omega
  · rw [Function.update_of_ne (Ne.symm hn), if_neg hn, setSem_pc]
    omega

/-! ## The invariant -/

/-- What a run keeps. -/
structure MboxInv (cfg : Config) (tr : NetTrace τ) (net : Port τ) : Prop where
  waiting : Waiting net
  ring : Ring net.mbox
  size : 0 < net.mbox.size ∧ net.mbox.size ≤ cfg.tmaxMaxsem
  tokens : net.mbox.used = promised net
  fifo : enqueued tr = dequeued tr ++ contents net.mbox

variable {tr : NetTrace τ}

theorem MboxInv.start (h : Fresh cfg net) : MboxInv cfg [] net := by
  obtain ⟨size, hnew⟩ := h.mbox
  obtain ⟨hring, hcontents, hpos, hmax, hused⟩ := Ring.new hnew
  refine ⟨h.waiting, hring, ⟨hpos, hmax⟩, ?_, by rw [hcontents]; rfl⟩
  have h₁ : total Pc.signalling net.pc = 0 := total_eq_zero.2 fun t => by rw [h.idle]; rfl
  have h₂ : total Pc.acquired net.pc = 0 := total_eq_zero.2 fun t => by rw [h.idle]; rfl
  rw [hused, promised, h.empty, h₁, h₂]
  rfl

/-- There is room for the token of a poster that has put its message into the ring. -/
theorem MboxInv.room (h : MboxInv cfg tr net) {t : τ} (ht : net.pc t = .signalEmpty) :
    (net.sem .semEmpty).semcnt < cfg.tmaxMaxsem := by
  have hle := le_total Pc.signalling net.pc t
  rw [ht] at hle
  have htokens := h.tokens
  have hused := h.ring.used
  have hsize := h.size
  unfold promised at htokens
  have : Pc.signalling .signalEmpty = 1 := rfl
  omega

/-- There is a message for a fetcher that has a token. -/
theorem MboxInv.message (h : MboxInv cfg tr net) {t : τ} {f : Fetch} (ht : net.pc t = .dequeue f) :
    net.mbox.used ≠ 0 := by
  have hle := le_total Pc.acquired net.pc t
  rw [ht] at hle
  have htokens := h.tokens
  have hnonneg := (h.waiting.ok .semEmpty).nonneg
  unfold promised at htokens
  have : (Pc.dequeue f).acquired = 1 := rfl
  omega

/-! ## Steps -/

variable [DecidableEq τ]

theorem promised_goto (t : τ) (p : Pc) (net : Port τ) :
    promised (net.goto t p) =
      promised net + (p.signalling + p.acquired : Nat) -
        ((net.pc t).signalling + (net.pc t).acquired : Nat) := by
  have h₁ := total_update Pc.signalling net.pc t p
  have h₂ := total_update Pc.acquired net.pc t p
  unfold promised
  show (net.sem .semEmpty).semcnt + (total _ (Function.update net.pc t p) : Int) +
    total _ (Function.update net.pc t p) = _
  omega

/-- **A signal promises a message if it is one of `sem_empty`.** -/
theorem promised_signal (h : Waiting net) (n : SemName)
    (hmax : n = .semEmpty → (net.sem n).semcnt < cfg.tmaxMaxsem) :
    promised (net.signal cfg n) = promised net + if n = .semEmpty then 1 else 0 := by
  rcases signal_cases cfg n net with ⟨t, waitq, hq, hs⟩ | ⟨hq, hlt, hs⟩ | ⟨hq, hge, hs⟩ <;> rw [hs]
  · have hwaits : (net.pc t).waitsFor = some n := by
      rw [← h.mem, hq]
      exact List.mem_cons_self
    obtain ⟨h₁, h₂⟩ := Pc.weights_of_waitsFor hwaits
    obtain ⟨h₃, h₄⟩ := Pc.served_weights hwaits
    rw [promised_goto, promised_setSem, setSem_pc, h₁, h₂, h₃, h₄]
    by_cases hn : n = .semEmpty
    · subst hn
      simp
    · simp [hn]
  · rw [promised_setSem]
    by_cases hn : n = .semEmpty
    · subst hn
      simp
    · simp [hn]
  · rw [promised_setSem]
    have hn : n ≠ .semEmpty := by
      intro hn
      have := hmax hn
      omega
    simp [hn]

/-- The token count after a step that leaves the ring alone. -/
theorem MboxInv.tokens_of_goto (h : MboxInv cfg tr net) {t : τ} {p : Pc}
    (h₁ : (net.pc t).signalling = p.signalling) (h₂ : (net.pc t).acquired = p.acquired) :
    net.mbox.used = promised (net.goto t p) := by
  rw [promised_goto, h₁, h₂, h.tokens]
  omega

/-- **Every step keeps the tokens for the messages in the ring.** -/
theorem MboxInv.move_tokens {a : Act τ} {r : Option Ret} (h : MboxInv cfg tr net)
    (hm : Move cfg net a r net') : net'.mbox.used = promised net' := by
  have htokens := h.tokens
  cases hm with
  | turn _ ht =>
    obtain ⟨h₁, h₂⟩ := ht.weights fun f hf => h.message hf
    exact h.tokens_of_goto h₁ h₂
  | ends ht =>
    obtain ⟨h₁, h₂⟩ := ht.weights fun f hf => h.message hf
    exact h.tokens_of_goto h₁ h₂
  | @enqueue t msg p ht hlt =>
    show (mboxEnqueueUnlocked msg net.mbox).used = promised (Port.goto t _ { net with mbox := _ })
    rw [mboxEnqueueUnlocked_eq, promised_goto, promised_mbox]
    show net.mbox.used + 1 = _ + _ - ((net.pc t).signalling + (net.pc t).acquired : Nat)
    rw [ht, htokens]
    simp [Pc.signalling, Pc.acquired]
  | @posted t ht =>
    -- the signal serves a task that waits, which is not the one that sends it
    have hpc : (net.signal cfg .semEmpty).pc t = .signalEmpty := by
      rw [signal_pc h.waiting (by rw [ht]; rfl), ht]
    rw [goto_mbox, signal_mbox, promised_goto, hpc,
      promised_signal h.waiting .semEmpty fun _ => h.room ht, htokens]
    simp [Pc.signalling, Pc.acquired]
  | @take t n p ht hcnt =>
    obtain ⟨h₁, h₂, h₃, h₄⟩ := ht.weights
    rw [goto_mbox, setSem_mbox, promised_goto, promised_setSem, setSem_pc, h₁, h₂, h₃, h₄, htokens]
    by_cases hn : n = .semEmpty
    · subst hn
      simp
    · simp [hn]
  | @block t n p ht hcnt =>
    obtain ⟨h₁, h₂, h₃, h₄⟩ := ht.weights
    rw [goto_mbox, setSem_mbox, promised_goto, promised_setSem, setSem_pc, h₁, h₂, h₃, h₄, htokens]
    by_cases hn : n = .semEmpty
    · subst hn
      simp [Sem.block]
    · simp [hn]
  | @dequeue t f ht hne =>
    show (mboxDequeueUnlocked net.mbox).2.used = promised (Port.goto t _ { net with mbox := _ })
    rw [mboxDequeueUnlocked_eq, promised_goto, promised_mbox]
    show net.mbox.used - 1 = _ + _ - ((net.pc t).signalling + (net.pc t).acquired : Nat)
    rw [ht, htokens]
    split <;> simp [Pc.signalling, Pc.acquired]
  | @notified t f msg ht =>
    have hpc : (net.signal cfg .semFull).pc t = .signalFull f msg := by
      rw [signal_pc h.waiting (by rw [ht]; rfl), ht]
    rw [goto_mbox, signal_mbox, promised_goto, hpc, promised_signal h.waiting .semFull nofun, htokens]
    simp [Pc.signalling, Pc.acquired]
  | signalled _ =>
    rw [signal_mbox, promised_signal h.waiting .sem nofun, htokens]
    simp
  | tick =>
    rw [promised_tick]
    exact htokens

theorem MboxInv.step {l : Act τ × Option Ret} (h : MboxInv cfg tr net)
    (hm : Move cfg net l.1 l.2 net') : MboxInv cfg (⟨net, l, net'⟩ :: tr) net' := by
  obtain ⟨hring, hsize, hmsgs⟩ := hm.ring h.ring
  refine ⟨hm.waiting h.waiting, hring, by rw [hsize]; exact h.size, h.move_tokens hm, ?_⟩
  calc enqueued (⟨net, l, net'⟩ :: tr)
      = dequeued tr ++ (contents net.mbox ++ (enqueuedBy ⟨net, l, net'⟩).toList) := by
        rw [enqueued_cons, h.fifo, List.append_assoc]
    _ = dequeued (⟨net, l, net'⟩ :: tr) ++ contents net'.mbox := by
        rw [hmsgs, dequeued_cons, List.append_assoc]

theorem NetRunOf.mboxInv {C : Port τ → Act τ → Prop} (h : NetRunOf cfg C tr net) :
    MboxInv cfg tr net := by
  induction h with
  | start h => exact .start h
  | step _ hs ih => exact ih.step (step_move hs.2)

/-! ## The claim -/

/-- **In every state reached the ring is well formed, its messages are the tokens of `sem_empty`
and the tasks between their two steps, no signal of `sem_empty` fails, no fetcher finds the mailbox
empty, and the messages put in are those taken out, in the same order, and those still there.** -/
theorem mbox_fifo (h : NetRun cfg tr net) :
    (0 ≤ net.mbox.used ∧ net.mbox.used ≤ net.mbox.size ∧
      (net.mbox.head - net.mbox.tail) % net.mbox.size = net.mbox.used % net.mbox.size) ∧
    net.mbox.used = (net.sem .semEmpty).semcnt + total Pc.signalling net.pc +
      total Pc.acquired net.pc ∧
    (∀ t, net.pc t = .signalEmpty → ((net.sem .semEmpty).sig cfg.tmaxMaxsem).1 = .ok) ∧
    (∀ t f, net.pc t = .dequeue f → net.mbox.used ≠ 0) ∧
    enqueued tr = dequeued tr ++ contents net.mbox := by
  have hinv := NetRunOf.mboxInv h
  refine ⟨⟨hinv.ring.used.1, hinv.ring.used.2, ?_⟩, hinv.tokens, fun t ht => ?_,
    fun t f ht => hinv.message ht, hinv.fifo⟩
  · rw [hinv.ring.head, Int.emod_sub_emod]
    congr 1
    omega
  · have hroom := hinv.room ht
    unfold Sem.sig
    split
    · rfl
    · rw [if_neg (not_le.mpr hroom)]

/-- Two messages are posted and one is fetched. -/
theorem mbox_fifo_two : ∃ (tr : NetTrace (Fin 2)) (net : Port (Fin 2)),
    NetRun smallConfig tr net ∧ dequeued tr = [7] ∧ [7, 9] = dequeued tr ++ contents net.mbox := by
  have hnet : Fresh smallConfig { newPort (Fin 2) 2 with systemTicks := ⟨0, 0⟩ } :=
    newPort_fresh _ (by decide) _
  obtain ⟨tr, net, hrun, henq, hdeq⟩ := exists_netRun smallConfig (fun _ _ => True)
    [.post 0 7, .run 0, .run 0, .post 0 9, .run 0, .run 0, .fetch 1 0, .run 1, .run 1] hnet
    (fun tr _ => enqueued tr = [7, 9] ∧ dequeued tr = [7]) (by decide +kernel)
  exact ⟨tr, net, hrun, hdeq, henq ▸ (mbox_fifo hrun).2.2.2.2⟩

end

end Ittrium.Net
