import Mathlib.Data.List.Infix
import Mathlib.Tactic.Basic

/-!
# Prefixes

* `span_stop` — where a `takeWhile` ends, and what is behind it
* `agree s t` — how many characters at the front agree
* `LongestPrefix l p` — `p` is the longest common prefix of the strings `l`
* `LongestPrefix.foldl` — **going through the strings, each cuts off what it does not agree with**
-/

namespace Ittrium.Infra

variable {α : Type} {s t p q : List α} {l : List (List α)}

/-! ## The front of a string -/

/-- The characters with `f` end where one without it stands. -/
theorem span_stop {f : α → Bool} (hs : ∀ c ∈ s, f c = true)
    (ht : ∀ c, t.head? = some c → f c = false) :
    (s ++ t).takeWhile f = s ∧ (s ++ t).dropWhile f = t := by
  have htail : t.takeWhile f = [] ∧ t.dropWhile f = t := by
    cases t with
    | nil => exact ⟨rfl, rfl⟩
    | cons c t =>
      have hc : ¬ f c = true := by simp [ht c rfl]
      exact ⟨List.takeWhile_cons_of_neg hc, List.dropWhile_cons_of_neg hc⟩
  rw [List.takeWhile_append_of_pos hs, List.dropWhile_append_of_pos hs, htail.1, htail.2,
    List.append_nil]
  exact ⟨rfl, rfl⟩

theorem takeWhile_stop {f : α → Bool} (hs : ∀ c ∈ s, f c = true)
    (ht : ∀ c, t.head? = some c → f c = false) : (s ++ t).takeWhile f = s := (span_stop hs ht).1

/-! ## Two strings -/

section

variable [DecidableEq α]

/-- How many characters at the front agree. -/
def agree : List α → List α → Nat
  | c :: s, d :: t => if c = d then agree s t + 1 else 0
  | _, _ => 0

theorem take_agree_right : ∀ s t : List α, s.take (agree s t) <+: t := by
  intro s
  induction s with
  | nil => exact fun t => by simp
  | cons c s ih =>
    intro t
    cases t with
    | nil => simp [agree]
    | cons d t =>
      by_cases hcd : c = d
      · rw [agree, if_pos hcd, List.take_succ_cons, hcd]
        exact List.cons_prefix_cons.mpr ⟨rfl, ih t⟩
      · simp [agree, hcd]

/-- What is a prefix of both is a prefix of what agrees. -/
theorem prefix_take_agree : ∀ {q s t : List α}, q <+: s → q <+: t → q <+: s.take (agree s t)
  | [], _, _, _, _ => List.nil_prefix
  | c :: q, [], _, hs, _ => by simp at hs
  | c :: q, _ :: _, [], _, ht => by simp at ht
  | c :: q, d :: s, e :: t, hs, ht => by
    obtain ⟨hd, hs'⟩ := List.cons_prefix_cons.mp hs
    obtain ⟨he, ht'⟩ := List.cons_prefix_cons.mp ht
    rw [agree, if_pos (hd.symm.trans he), List.take_succ_cons]
    exact List.cons_prefix_cons.mpr ⟨hd, prefix_take_agree hs' ht'⟩

theorem agree_le : ∀ s t : List α, agree s t ≤ s.length
  | [], _ => by simp [agree]
  | _ :: _, [] => by simp [agree]
  | c :: s, d :: t => by
    have := agree_le s t
    rw [agree, List.length_cons]
    split <;> omega

end

/-! ## Several strings -/

/-- `p` is the longest common prefix. -/
structure LongestPrefix (l : List (List α)) (p : List α) : Prop where
  common : ∀ s ∈ l, p <+: s
  longest : ∀ q, (∀ s ∈ l, q <+: s) → q <+: p

theorem LongestPrefix.unique (h : LongestPrefix l p) (h' : LongestPrefix l q) : p = q := by
  have hpq := h'.longest p h.common
  have hqp := h.longest q h'.common
  exact hpq.eq_of_length (Nat.le_antisymm hpq.length_le hqp.length_le)

theorem LongestPrefix.single (s : List α) : LongestPrefix [s] s :=
  ⟨fun t ht => by rw [List.mem_singleton.mp ht], fun q hq => hq s (by simp)⟩

/-- One string more. -/
theorem LongestPrefix.snoc [DecidableEq α] (h : LongestPrefix l p) (t : List α) :
    LongestPrefix (l ++ [t]) (p.take (agree p t)) := by
  constructor
  · intro s hs
    rcases List.mem_append.mp hs with hs | hs
    · exact (List.take_prefix _ p).trans (h.common s hs)
    · rw [List.mem_singleton.mp hs]
      exact take_agree_right p t
  · intro q hq
    have hqp := h.longest q fun s hs => hq s (List.mem_append_left _ hs)
    exact prefix_take_agree hqp (hq t (by simp))

/-- **Going through the strings, each cuts off what it does not agree with.** -/
theorem LongestPrefix.foldl [DecidableEq α] : ∀ (l' : List (List α)) {l : List (List α)}
    {p : List α}, LongestPrefix l p →
    LongestPrefix (l ++ l') (l'.foldl (fun p t => p.take (agree p t)) p) := by
  intro l'
  induction l' with
  | nil =>
    intro l p h
    rwa [List.append_nil]
  | cons t l' ih =>
    intro l p h
    have := ih (h.snoc t)
    rwa [List.append_assoc] at this

end Ittrium.Infra
