import Ittrium.Infra.Outcome
import Mathlib.Data.List.Range
import Mathlib.Tactic.Basic

/-!
# Checked programs

A program with checks halts with a fault at the first check that fails. Without its checks it is a
function that gives a result or gives up.

* `Halt` — why a program ends early
* `Mirrors E ok x o R Q` — `x` passes all its checks exactly when `ok` holds, and then comes to what
  `o` says, up to `R`, or gives up in a state with `Q`; otherwise it halts with a fault in `E`
* `Mirrors.foldlM` — **for a loop: when the body passes in every state the loop reaches**
-/

namespace Ittrium.Infra

universe u

variable {ε ρ : Type u} {α β γ δ : Type u}

/-- A check has failed, or the program gives up in a state. -/
inductive Halt (ε ρ : Type u) where
  | fault (e : ε)
  | reject (r : ρ)

/-- A program that gives up does so in a state with `Q`. -/
def Halt.OnReject (Q : ρ → Prop) : Halt ε ρ → Prop
  | .fault _ => True
  | .reject r => Q r

/-- What a program without checks says about one that has passed them. It gives up in a state with
`Q`. -/
def Follows (x : Except (Halt ε ρ) α) (R : α → β → Prop) (Q : ρ → Prop) : Option β → Prop
  | some b => ∃ a, x = .ok a ∧ R a b
  | none => ∃ r, x = .error (.reject r) ∧ Q r

/-- The program passes its checks if `ok`, and is then as `o` says. Otherwise one fails. -/
structure Mirrors (E : ε → Prop) (ok : Prop) (x : Except (Halt ε ρ) α) (o : Option β)
    (R : α → β → Prop) (Q : ρ → Prop) : Prop where
  passes : ok → Follows x R Q o
  fails : ¬ ok → ∃ e, E e ∧ x = .error (.fault e)

namespace Mirrors

variable {E : ε → Prop} {ok ok' : Prop} {x y : Except (Halt ε ρ) α} {o o' : Option β} {R : α → β → Prop}
  {S : γ → δ → Prop} {Q : ρ → Prop} {a : α} {b : β} {e : ε} {r : ρ}

theorem pure (h : R a b) : Mirrors E True (.ok a : Except (Halt ε ρ) α) (some b) R Q :=
  ⟨fun _ => ⟨a, rfl, h⟩, fun hn => (hn trivial).elim⟩

theorem reject (h : Q r) :
    Mirrors E True (.error (.reject r) : Except (Halt ε ρ) α) (none : Option β) R Q :=
  ⟨fun _ => ⟨r, rfl, h⟩, fun hn => (hn trivial).elim⟩

/-- A check. -/
theorem check {c : Prop} [Decidable c] (he : E e) (h : c → R a b) :
    Mirrors E c (if c then .ok a else .error (.fault e) : Except (Halt ε ρ) α) (some b) R Q := by
  constructor
  · intro hc
    rw [if_pos hc]
    exact ⟨a, rfl, h hc⟩
  · intro hc
    rw [if_neg hc]
    exact ⟨e, he, rfl⟩

/-- Two checks. -/
theorem check₂ {c d : Prop} [Decidable c] [Decidable d] {e' : ε} (he : E e) (he' : E e')
    (h : c → d → R a b) :
    Mirrors E (c ∧ d) (if ¬ c then .error (.fault e) else if d then .ok a else .error (.fault e') :
      Except (Halt ε ρ) α) (some b) R Q := by
  by_cases hc : c
  · rw [if_neg (not_not.mpr hc)]
    constructor
    · intro hcd
      rw [if_pos hcd.2]
      exact ⟨a, rfl, h hc hcd.2⟩
    · intro hcd
      rw [if_neg fun hd => hcd ⟨hc, hd⟩]
      exact ⟨e', he', rfl⟩
  · rw [if_pos hc]
    exact ⟨fun hcd => (hc hcd.1).elim, fun _ => ⟨e, he, rfl⟩⟩

theorem congr (h : Mirrors E ok x o R Q) (hok : ok' ↔ ok) : Mirrors E ok' x o R Q :=
  ⟨fun h' => h.passes (hok.mp h'), fun h' => h.fails fun hk => h' (hok.mpr hk)⟩

theorem mono {R' : α → β → Prop} {Q' : ρ → Prop} (h : Mirrors E ok x o R Q)
    (hR : ∀ a b, R a b → R' a b) (hQ : ∀ r, Q r → Q' r) : Mirrors E ok x o R' Q' := by
  refine ⟨fun hk => ?_, h.fails⟩
  have hx := h.passes hk
  cases o with
  | none =>
    obtain ⟨r, hr, hq⟩ := hx
    exact ⟨r, hr, hQ r hq⟩
  | some b =>
    obtain ⟨a, ha, hab⟩ := hx
    exact ⟨a, ha, hR a b hab⟩

theorem bind {f : α → Except (Halt ε ρ) γ} {g : β → Option δ} {ok' : β → Prop}
    (h : Mirrors E ok x o R Q) (hf : ∀ a b, R a b → Mirrors E (ok' b) (f a) (g b) S Q) :
    Mirrors E (ok ∧ ∀ b, o = some b → ok' b) (x >>= f) (o >>= g) S Q := by
  by_cases hk : ok
  · have hx := h.passes hk
    cases o with
    | none =>
      obtain ⟨r, rfl, hq⟩ := hx
      refine ⟨fun _ => ⟨r, rfl, hq⟩, fun hn => (hn ⟨hk, ?_⟩).elim⟩
      intro b hb
      cases hb
    | some b =>
      obtain ⟨a, rfl, hab⟩ := hx
      refine (hf a b hab).congr ⟨fun h' => h'.2 b rfl, fun h' => ⟨hk, ?_⟩⟩
      rintro b' ⟨⟩
      exact h'
  · obtain ⟨e, he, rfl⟩ := h.fails hk
    exact ⟨fun hn => (hk hn.1).elim, fun _ => ⟨e, he, rfl⟩⟩

/-- What is known of a program that mirrors one without checks. -/
theorem yields (h : Mirrors E ok x o R Q) :
    Yields x (fun a => ∃ b, o = some b ∧ R a b) (Halt.OnReject Q) := by
  by_cases hk : ok
  · have hx := h.passes hk
    cases o with
    | none =>
      obtain ⟨r, rfl, hq⟩ := hx
      exact .fail hq
    | some b =>
      obtain ⟨a, rfl, hab⟩ := hx
      exact .ok ⟨b, rfl, hab⟩
  · obtain ⟨e, -, rfl⟩ := h.fails hk
    exact .fail trivial

theorem pureOf (hok : ok) (h : R a b) :
    Mirrors E ok (.ok a : Except (Halt ε ρ) α) (some b) R Q :=
  (pure h).congr ⟨fun _ => trivial, fun _ => hok⟩

theorem rejectOf (hok : ok) (h : Q r) :
    Mirrors E ok (.error (.reject r) : Except (Halt ε ρ) α) (none : Option β) R Q :=
  (reject h).congr ⟨fun _ => trivial, fun _ => hok⟩

/-- The first program has one result, which the second gets. -/
theorem bindSome {f : α → Except (Halt ε ρ) γ} {o : Option δ} {ok' : Prop}
    (h : Mirrors E ok x (some a) Eq Q) (hf : Mirrors E ok' (f a) o S Q) :
    Mirrors E (ok ∧ ok') (x >>= f) o S Q := by
  by_cases hk : ok
  · obtain ⟨b, rfl, rfl⟩ := h.passes hk
    exact hf.congr ⟨fun h' => h'.2, fun h' => ⟨hk, h'⟩⟩
  · obtain ⟨e, he, rfl⟩ := h.fails hk
    exact ⟨fun hn => (hk hn.1).elim, fun _ => ⟨e, he, rfl⟩⟩

theorem ite {c : Prop} [Decidable c] (h : c → Mirrors E ok x o R Q) (h' : ¬ c → Mirrors E ok' y o' R Q) :
    Mirrors E ((c → ok) ∧ (¬ c → ok')) (if c then x else y) (if c then o else o') R Q := by
  by_cases hc : c
  · rw [if_pos hc, if_pos hc]
    exact (h hc).congr ⟨fun hk => hk.1 hc, fun hk => ⟨fun _ => hk, fun hn => (hn hc).elim⟩⟩
  · rw [if_neg hc, if_neg hc]
    exact (h' hc).congr ⟨fun hk => hk.2 hc, fun hk => ⟨fun hn => (hc hn).elim, fun _ => hk⟩⟩

/-- Both branches have a result. -/
theorem iteSome {c : Prop} [Decidable c] {b' : β} (h : c → Mirrors E ok x (some b) R Q)
    (h' : ¬ c → Mirrors E ok' y (some b') R Q) :
    Mirrors E ((c → ok) ∧ (¬ c → ok')) (if c then x else y) (some (if c then b else b')) R Q := by
  rw [apply_ite some]
  exact ite h h'

/-- **A loop passes if its body does in every state that is reached.** -/
theorem foldlM {step : α → Nat → Except (Halt ε ρ) α} {g : β → Nat → Option β}
    (ok : β → Nat → Prop) (hab : R a b) : ∀ n,
    (∀ i < n, ∀ a b, R a b → Mirrors E (ok b i) (step a i) (g b i) R Q) →
    Mirrors E (∀ k < n, ∀ b', (List.range k).foldlM g b = some b' → ok b' k)
      ((List.range n).foldlM step a) ((List.range n).foldlM g b) R Q := by
  intro n
  induction n with
  | zero => exact fun _ => (pure hab).congr ⟨fun _ => trivial, fun _ k hk => absurd hk (by omega)⟩
  | succ n ih =>
    intro h
    have hstep := (ih fun i hi => h i (by omega)).bind fun a b hr => h n (by omega) a b hr
    rw [List.range_succ, List.foldlM_append, List.foldlM_append]
    have hone : ∀ a, [n].foldlM step a = step a n := fun a => by simp
    have hone' : ∀ b, [n].foldlM g b = g b n := fun b => by simp
    simp only [hone, hone']
    refine hstep.congr ?_
    constructor
    · intro hk
      exact ⟨fun k hkn => hk k (by omega), hk n (by omega)⟩
    · rintro ⟨hlt, hn⟩ k hk
      rcases Nat.lt_or_eq_of_le (Nat.lt_succ_iff.mp hk) with hk | rfl
      · exact hlt k hk
      · exact hn

/-- A loop that never gives up. -/
theorem foldl {step : α → Nat → Except (Halt ε ρ) α} {g : α → Nat → α} (ok : Nat → Prop)
    (a : α) (n : Nat) (h : ∀ i < n, ∀ a, Mirrors E (ok i) (step a i) (some (g a i)) Eq Q) :
    Mirrors E (∀ k < n, ok k) ((List.range n).foldlM step a)
      (some ((List.range n).foldl g a)) Eq Q := by
  have hpure : ∀ n, (List.range n).foldlM (fun a i => some (g a i)) a =
      some ((List.range n).foldl g a) := fun n => List.foldlM_pure
  rw [← hpure]
  refine (foldlM (fun _ i => ok i) rfl n fun i hi a b hab => ?_).congr
    ⟨fun hk k hlt _ _ => hk k hlt, fun hk k hlt => hk k hlt _ (hpure k)⟩
  subst hab
  exact h i hi a

/-- **When no check fails.** -/
theorem noFault_iff (h : Mirrors E ok x o R Q) : (∀ e, x ≠ .error (.fault e)) ↔ ok := by
  constructor
  · intro hx
    by_contra hk
    obtain ⟨e, -, he⟩ := h.fails hk
    exact hx e he
  · intro hk e he
    have hx := h.passes hk
    subst he
    cases o with
    | none =>
      obtain ⟨r, hr, -⟩ := hx
      cases hr
    | some b =>
      obtain ⟨a, ha, -⟩ := hx
      cases ha

/-- A fault comes from a check. -/
theorem fault (h : Mirrors E ok x o R Q) (hx : x = .error (.fault e)) : E e := by
  have hk : ¬ ok := fun hk => h.noFault_iff.mpr hk e hx
  obtain ⟨e', he', heq⟩ := h.fails hk
  cases hx.symm.trans heq
  exact he'

end Mirrors

/-- A loop gives up at the first element its body refuses. -/
theorem isSome_foldlM {g : β → Nat → Option β} {P : Nat → Prop} (h : ∀ b i, (g b i).isSome ↔ P i)
    (b : β) : ∀ n, ((List.range n).foldlM g b).isSome ↔ ∀ i < n, P i := by
  intro n
  induction n with
  | zero => simp
  | succ n ih =>
    rw [List.range_succ, List.foldlM_append, Nat.forall_lt_succ_right, ← ih]
    cases hb : (List.range n).foldlM g b with
    | none => simp
    | some b' => simpa using h b' n

end Ittrium.Infra
