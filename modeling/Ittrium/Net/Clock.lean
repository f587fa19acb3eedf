import Ittrium.Net.Mailbox

/-!
# `sys_now` and the waits that use it

`sys_now` is the low word of the system time, which starts again at `TIC_DENO`; lwIP subtracts two
values of it as if it went up to 2^32.

* `sysNow_diff` — the difference of two values, in terms of the ticks and turns in between
* `Pc.Ok`, `ClockInv` — what the variables of a wait have to do with the ticks
* `sys_now_elapsed` — **which differences are the ticks that have passed**
* `timeout_took_nothing` — **which results can be told from `SYS_ARCH_TIMEOUT`**
-/

namespace Ittrium.Net

open Infra

variable {τ : Type} {cfg : Config} {net net' : Port τ} {deno : UW} {ticks : SYSTIM} {now : Nat}

/-! ## Differences -/

/-- The ticks that the turns of the low word take away from a difference. -/
def lost (deno low : UW) (n : Nat) : Nat := SYSTIM.period deno * SYSTIM.turns deno low n

/-- **Two values of `sys_now` that are `n` ticks apart.** -/
theorem sysNow_diff (deno : UW) (t : SYSTIM) (n : Nat) :
    ((((SYSTIM.advance deno)^[n] t).stLow - t.stLow).toNat + lost deno t.stLow n) % 2 ^ 32 =
      n % 2 ^ 32 := by
  have h := SYSTIM.iterate_advance_stLow deno t n
  have hlow := t.stLow.isLt
  change _ % 2 ^ 32 = _ at h
  rw [BitVec.toNat_sub]
  unfold lost
  omega

/-- **The difference is the number of ticks if and only if the turns take away a multiple of
2^32.** -/
theorem sysNow_diff_eq_iff (deno : UW) (t : SYSTIM) (n : Nat) :
    ((SYSTIM.advance deno)^[n] t).stLow - t.stLow = BitVec.ofNat 32 n ↔
      lost deno t.stLow n % 2 ^ 32 = 0 := by
  have h := sysNow_diff deno t n
  have hlt := (((SYSTIM.advance deno)^[n] t).stLow - t.stLow).isLt
  rw [← BitVec.toNat_inj, BitVec.toNat_ofNat]
  omega

/-- The difference is the value that stands for a timeout. -/
def Collides (deno low : UW) (n : Nat) : Prop := (n + 1) % 2 ^ 32 = lost deno low n % 2 ^ 32

instance (deno low : UW) (n : Nat) : Decidable (Collides deno low n) :=
  inferInstanceAs (Decidable (_ = _))

theorem sysNow_diff_eq_timeout (deno : UW) (t : SYSTIM) (n : Nat) :
    ((SYSTIM.advance deno)^[n] t).stLow - t.stLow = sysArchTimeout ↔ Collides deno t.stLow n := by
  have h := sysNow_diff deno t n
  have hlt := (((SYSTIM.advance deno)^[n] t).stLow - t.stLow).isLt
  have hmax : sysArchTimeout.toNat = 2 ^ 32 - 1 := rfl
  unfold Collides
  rw [← BitVec.toNat_inj, hmax]
  omega

/-- Inside a period, and for less than 2^32 ticks: the interval is a number of whole periods less
one tick, and did not begin with one. -/
theorem collides_iff {low : UW} {n : Nat} (hlow : low.toNat < SYSTIM.period deno)
    (hn : n + 1 < 2 ^ 32) :
    Collides deno low n ↔ 1 ≤ low.toNat ∧ (n + 1) % SYSTIM.period deno = 0 := by
  have hp := SYSTIM.period_pos deno
  have hlost : lost deno low n = SYSTIM.period deno * ((low.toNat + n) / SYSTIM.period deno) := by
    unfold lost SYSTIM.turns
    rw [if_pos hlow]
  have hle := Nat.mul_div_le (low.toNat + n) (SYSTIM.period deno)
  have hlt := low.isLt
  unfold Collides
  rw [hlost]
  constructor
  · intro h
    have heq : n + 1 = SYSTIM.period deno * ((low.toNat + n) / SYSTIM.period deno) := by omega
    exact ⟨by omega, by rw [heq]; exact Nat.mul_mod_right _ _⟩
  · rintro ⟨hpos, hmod⟩
    obtain ⟨q, hq⟩ := Nat.dvd_of_mod_eq_zero hmod
    have hsum : low.toNat + n = SYSTIM.period deno * q + (low.toNat - 1) := by omega
    rw [hsum, Nat.mul_add_div hp, Nat.div_eq_of_lt (by omega : low.toNat - 1 < _), hq]
    rfl

/-! ## The variables of a wait -/

/-- `start` is what `sys_now` was at the beginning of the call. -/
structure Wait.Started (deno : UW) (ticks : SYSTIM) (now : Nat) (w : Wait) : Prop where
  call : w.callTick = w.startTick ∧ w.timeout = w.callTimeout
  clock : ∃ n t₀, now = w.startTick + n ∧ t₀.stLow = w.start ∧
    ticks = (SYSTIM.advance deno)^[n] t₀

/-- How far a round of `sem_wait_ms` is: the timeout is what has passed, what is left of the slice,
and what is left after it. -/
def Wait.Waits (now : Nat) (w : Wait) (left slice : UW) : Option Nat → Prop
  | none => w.timeout = 0
  | some count => w.timeout ≠ 0 ∧ 1 ≤ count ∧ count ≤ slice.toNat ∧ slice.toNat ≤ left.toNat ∧
      w.timeout.toNat + slice.toNat ≤ left.toNat + count + (now - w.callTick)

/-- What holds of a task's variables. The two places behind an empty mailbox are not reached. -/
def Pc.Ok (deno : UW) (ticks : SYSTIM) (now : Nat) : Pc → Prop
  | .semWaitMs w left => w.Started deno ticks now ∧ w.tokens = 0 ∧
      (w.timeout ≠ 0 → left ≠ 0 ∧ w.timeout.toNat ≤ left.toNat + (now - w.callTick))
  | .blocked w left slice count =>
      w.Started deno ticks now ∧ w.tokens = 0 ∧ w.Waits now left slice count
  | .timedOut w => w.Started deno ticks now ∧ w.tokens = 0 ∧ w.timeout ≠ 0 ∧
      w.timeout.toNat ≤ now - w.callTick
  | .semTaken w | .dequeue (.timed w) | .signalFull (.timed w) _ | .fetched (.timed w) _ =>
      w.Started deno ticks now ∧ w.tokens = 1
  | .foundEmpty _ | .restart _ => False
  | _ => True

theorem Wait.Started.tick {w : Wait} (h : w.Started deno ticks now) :
    w.Started deno (ticks.advance deno) (now + 1) := by
  obtain ⟨n, t₀, hnow, hstart, hticks⟩ := h.clock
  refine ⟨h.call, n + 1, t₀, by omega, hstart, ?_⟩
  rw [Function.iterate_succ_apply', hticks]

/-- The ticks since the start of a call. -/
theorem Wait.Started.elapsed {w : Wait} (h : w.Started deno ticks now) :
    ∃ t₀ : SYSTIM, t₀.stLow = w.start ∧
      ticks = (SYSTIM.advance deno)^[now - w.startTick] t₀ := by
  obtain ⟨n, t₀, hnow, hstart, hticks⟩ := h.clock
  have hn : now - w.startTick = n := by omega
  exact ⟨t₀, hstart, by rw [hn]; exact hticks⟩

theorem Wait.Started.le {w : Wait} (h : w.Started deno ticks now) : w.callTick ≤ now := by
  obtain ⟨n, -, hnow, -, -⟩ := h.clock
  have := h.call.1
  omega

/-- A tick keeps the variables in order, and lets those whose time has come go on. -/
theorem Pc.Ok.tick {p : Pc} (h : p.Ok deno ticks now) :
    p.tick.Ok deno (ticks.advance deno) (now + 1) := by
  cases p with
  | semWaitMs w left =>
    obtain ⟨hs, htok, hleft⟩ := h
    refine ⟨hs.tick, htok, fun h0 => ?_⟩
    have := hleft h0
    exact ⟨this.1, by omega⟩
  | blocked w left slice count =>
    obtain ⟨hs, htok, hw⟩ := h
    have hle := hs.le
    cases count with
    | none => exact ⟨hs.tick, htok, hw⟩
    | some count =>
      obtain ⟨h0, h1, hcount, hslice, htime⟩ := hw
      by_cases hlast : count ≤ 1
      · -- the slice is over
        have hsub : (left - slice).toNat = left.toNat - slice.toNat :=
          BitVec.toNat_sub_of_le (BitVec.le_def.mpr hslice)
        by_cases hzero : left - slice = 0
        · simp only [Pc.tick, if_pos hlast, if_pos hzero]
          rw [hzero] at hsub
          have hsub : 0 = left.toNat - slice.toNat := hsub
          exact ⟨hs.tick, htok, h0, by omega⟩
        · simp only [Pc.tick, if_pos hlast, if_neg hzero]
          exact ⟨hs.tick, htok, fun _ => ⟨hzero, by omega⟩⟩
      · simp only [Pc.tick, if_neg hlast]
        exact ⟨hs.tick, htok, h0, by omega, by omega, hslice, by omega⟩
  | timedOut w =>
    obtain ⟨hs, htok, h0, htime⟩ := h
    exact ⟨hs.tick, htok, h0, by omega⟩
  | semTaken w => exact ⟨h.1.tick, h.2⟩
  | dequeue f =>
    cases f with
    | timed w => exact ⟨h.1.tick, h.2⟩
    | tryfetch => trivial
  | signalFull f msg =>
    cases f with
    | timed w => exact ⟨h.1.tick, h.2⟩
    | tryfetch => trivial
  | fetched f msg =>
    cases f with
    | timed w => exact ⟨h.1.tick, h.2⟩
    | tryfetch => trivial
  | foundEmpty w => exact h
  | restart w => exact h
  | _ => trivial

theorem Wait.obtained_ok {w : Wait} (h : w.Started deno ticks now) (htok : w.tokens = 0) :
    w.obtained.Ok deno ticks now := by
  have hs : ({ w with tokens := w.tokens + 1 } : Wait).Started deno ticks now := ⟨h.call, h.clock⟩
  have ht : ({ w with tokens := w.tokens + 1 } : Wait).tokens = 1 := by
    show w.tokens + 1 = 1
    omega
  unfold Wait.obtained
  dsimp only
  split <;> exact ⟨hs, ht⟩

theorem Pc.Ok.served {p : Pc} (h : p.Ok deno ticks now) : p.served.Ok deno ticks now := by
  cases p with
  | blockedFull msg => trivial
  | blocked w left slice count => exact Wait.obtained_ok h.1 h.2.1
  | _ => exact h

theorem Pc.Takes.ok {p p' : Pc} {n : SemName} (ht : p.Takes n p') (h : p.Ok deno ticks now) :
    p'.Ok deno ticks now := by
  cases ht with
  | full msg => trivial
  | wait w left => exact Wait.obtained_ok h.1 h.2.1
  | poll => trivial

theorem sliceOf_le {left : UW} (h : left ≠ 0) :
    1 ≤ (sliceOf left).toNat ∧ (sliceOf left).toNat ≤ left.toNat := by
  have hpos : left.toNat ≠ 0 := fun h0 => h (BitVec.eq_of_toNat_eq h0)
  have hmax : lwipTmoSliceMs.toNat = 10000 := rfl
  unfold sliceOf
  split
  · next hgt =>
    have := BitVec.lt_def.mp hgt
    omega
  · omega

theorem Pc.Blocks.ok {p p' : Pc} {n : SemName} (ht : p.Blocks n p') (h : p.Ok deno ticks now) :
    p'.Ok deno ticks now := by
  cases ht with
  | full msg => trivial
  | forever w left h0 => exact ⟨h.1, h.2.1, h0⟩
  | slice w left h0 =>
    obtain ⟨hs, htok, hleft⟩ := h
    obtain ⟨hne, htime⟩ := hleft h0
    obtain ⟨hone, hle⟩ := sliceOf_le hne
    exact ⟨hs, htok, h0, hone, le_rfl, hle, by omega⟩

/-! ## Runs -/

/-- The variables of every task are in order. -/
def ClockInv (deno : UW) (net : Port τ) : Prop :=
  ∀ t, (net.pc t).Ok deno net.systemTicks net.now

theorem ClockInv.mbox (h : ClockInv deno net) (m : SysMbox) :
    ClockInv deno { net with mbox := m } := h

theorem ClockInv.setSem (h : ClockInv deno net) (n : SemName) (s : Sem τ) :
    ClockInv deno (net.setSem n s) := h

section

variable [DecidableEq τ]

theorem ClockInv.goto (h : ClockInv deno net) {t : τ} {p : Pc}
    (hp : p.Ok deno net.systemTicks net.now) : ClockInv deno (net.goto t p) := by
  intro u
  show (Function.update net.pc t p u).Ok deno net.systemTicks net.now
  by_cases hu : u = t
  · subst hu
    rw [Function.update_self]
    exact hp
  · rw [Function.update_of_ne hu]
    exact h u

theorem ClockInv.signal (h : ClockInv deno net) (n : SemName) :
    ClockInv deno (net.signal cfg n) := by
  rcases signal_cases cfg n net with ⟨t, waitq, -, hs⟩ | ⟨-, -, hs⟩ | ⟨-, -, hs⟩ <;> rw [hs]
  · exact (h.setSem _ _).goto (h t).served
  · exact h
  · exact h

theorem signal_clock (n : SemName) (net : Port τ) :
    (net.signal cfg n).systemTicks = net.systemTicks ∧ (net.signal cfg n).now = net.now := by
  rcases signal_cases cfg n net with ⟨t, waitq, -, hs⟩ | ⟨-, -, hs⟩ | ⟨-, -, hs⟩ <;> rw [hs] <;>
    exact ⟨rfl, rfl⟩

/-- What a step that ends a call does. -/
theorem ends_of_run {t : τ} {r : Ret} (h : net.run cfg t = some (net', some r)) :
    r = .posted true ∨ Ends net (net.pc t) r := by
  cases run_move h with
  | ends ht => exact .inr ht
  | posted _ => exact .inl rfl

end

section

variable [Fintype τ] {tr : NetTrace τ}

theorem ClockInv.turn (h : ClockInv deno net) (hinv : MboxInv cfg tr net) {t : τ} {p : Pc}
    (ht : Turns net (net.pc t) p) : p.Ok deno net.systemTicks net.now := by
  have hpc := h t
  cases hq : net.pc t <;> rw [hq] at ht hpc <;> cases ht
  case idle.wait who timeout =>
    refine ⟨⟨⟨rfl, rfl⟩, 0, net.systemTicks, rfl, rfl, rfl⟩, rfl, fun h0 => ⟨h0, ?_⟩⟩
    exact Nat.le_add_right _ _
  case dequeue.foundEmpty w h0 => exact hinv.message hq h0
  case foundEmpty.less w h0 => exact hpc.elim
  case foundEmpty.again w h0 => exact hpc.elim
  case restart.restart w => exact hpc.elim
  all_goals trivial

variable [DecidableEq τ]

/-- **Every step keeps the variables in order.** -/
theorem ClockInv.step {a : Act τ} {r : Option Ret} (h : ClockInv cfg.ticDeno net)
    (hinv : MboxInv cfg tr net) (hm : Move cfg net a r net') : ClockInv cfg.ticDeno net' := by
  cases hm with
  | turn _ ht => exact h.goto (h.turn hinv ht)
  | ends _ => exact h.goto trivial
  | enqueue _ _ => exact (h.mbox _).goto trivial
  | posted _ => exact (h.signal _).goto trivial
  | take ht _ => exact (h.setSem _ _).goto (ht.ok (h _))
  | block ht _ => exact (h.setSem _ _).goto (ht.ok (h _))
  | @dequeue t f ht _ =>
    have hpc := h t
    rw [ht] at hpc
    refine (h.mbox _).goto ?_
    cases f with
    | timed w => split <;> exact hpc
    | tryfetch => split <;> trivial
  | @notified t f msg ht =>
    have hpc := h t
    rw [ht] at hpc
    refine (h.signal _).goto ?_
    rw [(signal_clock _ net).1, (signal_clock _ net).2]
    cases f with
    | timed w => exact hpc
    | tryfetch => trivial
  | signalled _ => exact h.signal _
  | tick => exact fun t => (h t).tick

theorem NetRunOf.clockInv {C : Port τ → Act τ → Prop} (h : NetRunOf cfg C tr net) :
    ClockInv cfg.ticDeno net := by
  induction h with
  | start h =>
    intro t
    rw [h.idle]
    trivial
  | step hr hs ih => exact ih.step (NetRunOf.mboxInv hr) (step_move hs.2)

/-! ## The claims -/

/-- The ticks since a call has read its `start`. -/
def Port.since (net : Port τ) (w : Wait) : Nat := net.now - w.startTick

/-- **The difference of two values of `sys_now`, and the result of `sys_arch_sem_wait`, are the
ticks that have passed if and only if the turns of the low word in between take away a multiple of
2^32. A fetch does not give up before its timeout has passed.** -/
theorem sys_now_elapsed (h : NetRun cfg tr net) :
    (∀ n, ((SYSTIM.advance cfg.ticDeno)^[n] net.systemTicks).stLow - net.sysNow =
        BitVec.ofNat 32 n ↔ lost cfg.ticDeno net.sysNow n % 2 ^ 32 = 0) ∧
    (∀ t net' w value, net.run cfg t = some (net', some (.waited w value true)) →
      (value = BitVec.ofNat 32 (net.since w) ↔
        lost cfg.ticDeno w.start (net.since w) % 2 ^ 32 = 0)) ∧
    (∀ t net' w value, net.run cfg t = some (net', some (.fetched w value none)) →
      w.callTimeout ≠ 0 ∧ w.callTimeout.toNat ≤ net.now - w.callTick) := by
  have hinv := NetRunOf.clockInv h
  refine ⟨fun n => sysNow_diff_eq_iff _ _ n, fun t net' w value hr => ?_,
    fun t net' w value hr => ?_⟩
  · have ht := hinv t
    obtain hends := (ends_of_run hr).resolve_left nofun
    cases hpc : net.pc t <;> rw [hpc] at hends ht <;> cases hends
    obtain ⟨t₀, hstart, hticks⟩ := ht.1.elapsed
    unfold Port.sysNow
    rw [hticks, ← hstart]
    exact sysNow_diff_eq_iff _ t₀ _
  · have ht := hinv t
    obtain hends := (ends_of_run hr).resolve_left nofun
    cases hpc : net.pc t <;> rw [hpc] at hends ht <;> cases hends
    · obtain ⟨hs, -, h0, htime⟩ := ht
      rw [← hs.call.2]
      exact ⟨h0, htime⟩
    · exact ht.elim

/-- **A result `SYS_ARCH_TIMEOUT` means that nothing was taken if and only if the call did not take
something while as many ticks passed as make the difference that value.** -/
theorem timeout_took_nothing (h : NetRun cfg tr net) :
    (∀ t net' w value msg, net.run cfg t = some (net', some (.fetched w value msg)) →
      ((value = sysArchTimeout → msg = none ∧ w.tokens = 0) ↔
        (msg ≠ none → ¬ Collides cfg.ticDeno w.start (net.since w)))) ∧
    (∀ t net' w value got, net.run cfg t = some (net', some (.waited w value got)) →
      ((value = sysArchTimeout → got = false ∧ w.tokens = 0) ↔
        (got = true → ¬ Collides cfg.ticDeno w.start (net.since w)))) := by
  have hinv := NetRunOf.clockInv h
  have hdiff : ∀ w : Wait, w.Started cfg.ticDeno net.systemTicks net.now →
      (net.sysNow - w.start = sysArchTimeout ↔ Collides cfg.ticDeno w.start (net.since w)) := by
    intro w hs
    obtain ⟨t₀, hstart, hticks⟩ := hs.elapsed
    unfold Port.sysNow
    rw [hticks, ← hstart]
    exact sysNow_diff_eq_timeout _ t₀ _
  refine ⟨fun t net' w value msg hr => ?_, fun t net' w value got hr => ?_⟩
  · have ht := hinv t
    obtain hends := (ends_of_run hr).resolve_left nofun
    cases hpc : net.pc t <;> rw [hpc] at hends ht <;> cases hends
    · -- the wait has timed out
      simp [ht.2.1]
    · exact ht.elim
    · rw [hdiff w ht.1]
      simp
  · have ht := hinv t
    obtain hends := (ends_of_run hr).resolve_left nofun
    cases hpc : net.pc t <;> rw [hpc] at hends ht <;> cases hends
    · simp [ht.2.1]
    · rw [hdiff w ht.1]
      simp

/-- A wait of one tick, within a period. -/
theorem sys_now_elapsed_one : ∃ (tr : NetTrace (Fin 2)) (net net' : Port (Fin 2)) (w : Wait)
    (value : UW), NetRun smallConfig tr net ∧
      net.run smallConfig 0 = some (net', some (.waited w value true)) ∧ net.since w = 1 ∧
      value = 1 := by
  have hnet : Fresh smallConfig { newPort (Fin 2) 2 with systemTicks := ⟨0, 0⟩ } :=
    newPort_fresh _ (by decide) _
  obtain ⟨tr, net, hrun, hpc, hnow⟩ := exists_netRun smallConfig (fun _ _ => True)
    [.semWait 0 0, .run 0, .tick, .semSignal 1] hnet
    (fun _ net => net.pc 0 = .semTaken ⟨.semWait, 0, 0, 0, 0, 0, 1⟩ ∧ net.now = 1)
    (by decide +kernel)
  let w : Wait := ⟨.semWait, 0, 0, 0, 0, 0, 1⟩
  have hr : net.run smallConfig 0 =
      some (net.goto 0 .idle, some (.waited w (net.sysNow - 0) true)) := by
    unfold Port.run
    rw [hpc]
  have hsince : net.since w = 1 := hnow
  refine ⟨tr, net, _, w, _, hrun, hr, hsince, ?_⟩
  rw [((sys_now_elapsed hrun).2.1 _ _ _ _ hr).2 (by rw [hsince]; decide), hsince]
  rfl

/-- The clock is at 999 when the task begins to wait, and at 0 one tick later. -/
theorem sys_now_turns : ∃ (tr : NetTrace (Fin 2)) (net net' : Port (Fin 2)) (w : Wait)
    (value : UW), NetRun smallConfig tr net ∧
      net.run smallConfig 0 = some (net', some (.waited w value true)) ∧ net.since w = 1 ∧
      value = 0xfffffc19 := by
  have hnet : Fresh smallConfig { newPort (Fin 2) 2 with systemTicks := ⟨999, 0⟩ } :=
    newPort_fresh _ (by decide) _
  obtain ⟨tr, net, hrun, hpc, hticks, hnow⟩ := exists_netRun smallConfig (fun _ _ => True)
    [.semWait 0 0, .run 0, .tick, .semSignal 1] hnet
    (fun _ net => net.pc 0 = .semTaken ⟨.semWait, 999, 0, 0, 0, 0, 1⟩ ∧ net.sysNow = 0 ∧
      net.now = 1) (by decide +kernel)
  refine ⟨tr, net, net.goto 0 .idle, ⟨.semWait, 999, 0, 0, 0, 0, 1⟩, _, hrun, ?_, hnow, rfl⟩
  unfold Port.run
  rw [hpc, hticks]
  rfl

/-- A fetch with a timeout of one tick, and no message. -/
theorem timeout_took_nothing_one : ∃ (tr : NetTrace (Fin 2)) (net net' : Port (Fin 2)) (w : Wait),
    NetRun smallConfig tr net ∧
      net.run smallConfig 0 = some (net', some (.fetched w sysArchTimeout none)) ∧
      w.tokens = 0 := by
  have hnet : Fresh smallConfig { newPort (Fin 2) 2 with systemTicks := ⟨0, 0⟩ } :=
    newPort_fresh _ (by decide) _
  obtain ⟨tr, net, hrun, hpc⟩ := exists_netRun smallConfig (fun _ _ => True)
    [.fetch 0 1, .run 0, .tick] hnet
    (fun _ net => net.pc 0 = .timedOut ⟨.fetch, 0, 1, 0, 0, 1, 0⟩) (by decide +kernel)
  let w : Wait := ⟨.fetch, 0, 1, 0, 0, 1, 0⟩
  have hr : net.run smallConfig 0 =
      some (net.goto 0 .idle, some (.fetched w sysArchTimeout none)) := by
    unfold Port.run
    rw [hpc]
  have hnothing := ((timeout_took_nothing hrun).1 _ _ _ _ _ hr).2 fun h => absurd rfl h
  exact ⟨tr, net, _, w, hrun, hr, (hnothing rfl).2⟩

/-- Task 0 waits for a message, and the clock is at 1. -/
def fetching : NetTrace (Fin 2) × Port (Fin 2) :=
  (runActs smallConfig (fun _ _ => True) [.fetch 0 0, .run 0] []
    { newPort (Fin 2) 2 with systemTicks := ⟨1, 0⟩ }).get (by decide +kernel)

theorem fetching_run : NetRun smallConfig fetching.1 fetching.2 := by
  have hnet : Fresh smallConfig { newPort (Fin 2) 2 with systemTicks := ⟨1, 0⟩ } :=
    newPort_fresh _ (by decide) _
  have hget : runActs smallConfig (fun _ _ => True) [.fetch 0 0, .run 0] []
      { newPort (Fin 2) 2 with systemTicks := ⟨1, 0⟩ } = some fetching := (Option.some_get _).symm
  exact runActs_run (.start hnet) hget

/-- 999 ticks later it is back at zero. -/
theorem advance_999 : (SYSTIM.advance 1000)^[999] ⟨1, 0⟩ = ⟨0, 1⟩ := by
  have h : (⟨1, 0⟩ : SYSTIM).stLow.toNat < SYSTIM.period 1000 := by decide
  have hlow := (SYSTIM.iterate_advance_stLow_of_lt h 999).trans (by decide : _ = 0)
  have hvalue := (SYSTIM.iterate_advance_value h (by decide) 999).trans (by decide : _ = 1000)
  generalize (SYSTIM.advance 1000)^[999] ⟨1, 0⟩ = ticks at hlow hvalue
  obtain ⟨low, high⟩ := ticks
  have hhigh : high.toNat = 1 := by
    have hsum : high.toNat * 1000 + low.toNat = 1000 := hvalue
    have hzero : low.toNat = 0 := hlow
    omega
  exact congrArg₂ SYSTIM.mk (BitVec.eq_of_toNat_eq hlow) (BitVec.eq_of_toNat_eq hhigh)

/-- The same 999 ticks later: the task has taken the message, and returns what stands for a
timeout. -/
theorem fetch_reports_timeout : ∃ (tr : NetTrace (Fin 2)) (net net' : Port (Fin 2)) (w : Wait),
    NetRun smallConfig tr net ∧ w.tokens = 1 ∧
      net.run smallConfig 0 = some (net', some (.fetched w sysArchTimeout (some 7))) := by
  obtain ⟨tr₁, h₁⟩ := exists_run_aged fetching_run (by decide +kernel) 999
  have haged : aged smallConfig 999 fetching.2 =
      { fetching.2 with systemTicks := ⟨0, 1⟩, now := 999 } :=
    congrArg (fun ticks => { fetching.2 with systemTicks := ticks, now := 999 }) advance_999
  rw [haged] at h₁
  obtain ⟨tr₂, net, h₂, hpc, hnow⟩ := exists_netRun smallConfig (fun _ _ => True)
    [.trypost 1 7, .run 1, .run 1, .run 0] (Eq.refl { fetching.2 with systemTicks := ⟨0, 1⟩, now := 999 })
    (fun _ net => net.pc 0 = .fetched (.timed ⟨.fetch, 1, 0, 0, 0, 0, 1⟩) 7 ∧ net.sysNow = 0)
    (by decide +kernel)
  have hrun : NetRun smallConfig (tr₂ ++ tr₁) net :=
    h₁.append (h₂.mono (fun _ h => h.symm) fun _ _ _ h => h)
  refine ⟨tr₂ ++ tr₁, net, net.goto 0 .idle, ⟨.fetch, 1, 0, 0, 0, 0, 1⟩, hrun, rfl, ?_⟩
  unfold Port.run
  rw [hpc, hnow]
  rfl

end

end Ittrium.Net
