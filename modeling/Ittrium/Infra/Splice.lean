import Mathlib.Data.List.Infix
import Mathlib.Tactic.Basic

/-!
# Texts in buffers

A buffer is the list of its elements. Offsets and sizes are `int`, and a copy that would read or
write outside of the buffer has no result.

* `memmove`, `memcpy` — the copies
* `Terminated buf text zero` — the text stands at the front of the buffer, with its end mark
* `splice_spec` — **what lies between two offsets is replaced, if there is room**
-/

namespace Ittrium.Infra

variable {α : Type} {buf b x y z t r text : List α} {zero : α} {dst src n : Int}

/-! ## Copies -/

/-- `memmove(buf + dst, buf + src, n)`. -/
def memmove (dst src n : Int) (buf : List α) : Option (List α) :=
  if 0 ≤ dst ∧ 0 ≤ src ∧ 0 ≤ n ∧ dst + n ≤ buf.length ∧ src + n ≤ buf.length then
    some (buf.take dst.toNat ++ (buf.drop src.toNat).take n.toNat ++ buf.drop (dst + n).toNat)
  else none

/-- `memcpy(buf + dst, s, n)`, of a string from elsewhere with its `n` elements. -/
def memcpy (dst : Int) (s buf : List α) : Option (List α) :=
  if 0 ≤ dst ∧ dst + s.length ≤ buf.length then
    some (buf.take dst.toNat ++ s ++ buf.drop (dst + s.length).toNat)
  else none

/-- What is copied takes the place of what was there. -/
theorem memcpy_append (hdst : dst = x.length) (hlen : y.length = r.length) :
    memcpy dst r (x ++ (y ++ t)) = some (x ++ (r ++ t)) := by
  have hstop : (dst + r.length).toNat = x.length + y.length := by omega
  have hdst' : dst.toNat = x.length := by omega
  unfold memcpy
  rw [if_pos (by simp only [List.length_append]; omega), hstop, hdst', List.take_left,
    ← List.drop_drop, List.drop_left, List.drop_left, List.append_assoc]

/-- A part of the text is moved to where `k` elements are in front of it. -/
theorem memmove_append {k : Nat} (hdst : dst = k) (hsrc : src = x.length) (hn : n = z.length)
    (hfit : k + z.length ≤ (x ++ (z ++ t)).length) :
    memmove dst src n (x ++ (z ++ t)) = some ((x ++ (z ++ t)).take k ++
      (z ++ (x ++ (z ++ t)).drop (k + z.length))) := by
  have hdst' : dst.toNat = k := by omega
  have hsrc' : src.toNat = x.length := by omega
  have hn' : n.toNat = z.length := by omega
  have hstop : (dst + n).toNat = k + z.length := by omega
  have hroom : src + n ≤ (x ++ (z ++ t)).length := by
    simp only [List.length_append]
    omega
  unfold memmove
  rw [if_pos ⟨by omega, by omega, by omega, by omega, hroom⟩, hdst', hsrc', hn', hstop,
    List.drop_left, List.take_left, List.append_assoc]

/-! ## Texts -/

/-- The text stands at the front of the buffer, and its end mark behind it. -/
def Terminated (buf text : List α) (zero : α) : Prop := ∃ t, buf = text ++ zero :: t

theorem Terminated.length_lt (h : Terminated buf text zero) : text.length < buf.length := by
  obtain ⟨t, rfl⟩ := h
  simp

theorem Terminated.length_pos (h : Terminated buf text zero) : 0 < buf.length :=
  Nat.zero_lt_of_lt h.length_lt

theorem Terminated.take (h : Terminated buf text zero) : buf.take text.length = text := by
  obtain ⟨t, rfl⟩ := h
  exact List.take_left

/-- A text is stored at the front. -/
theorem terminated_memcpy (zero : α) (text buf : List α) (hlen : text.length < buf.length) : ∃ b b',
    memcpy 0 text buf = some b ∧ memcpy text.length [zero] b = some b' ∧ Terminated b' text zero ∧
      b'.length = buf.length := by
  obtain ⟨y, t, rfl, hy⟩ : ∃ y t, buf = y ++ t ∧ y.length = text.length :=
    ⟨buf.take text.length, buf.drop text.length, (List.take_append_drop _ _).symm,
      by rw [List.length_take]; omega⟩
  cases t with
  | nil => simp only [List.append_nil] at hlen; omega
  | cons c t =>
    have hcopy : memcpy 0 text (y ++ c :: t) = some (text ++ c :: t) :=
      memcpy_append (x := []) rfl hy
    have hzero : memcpy text.length [zero] (text ++ c :: t) = some (text ++ zero :: t) :=
      memcpy_append (y := [c]) (r := [zero]) rfl rfl
    refine ⟨_, _, hcopy, hzero, ⟨t, rfl⟩, ?_⟩
    simp only [List.length_append, List.length_cons]
    omega

/-- **What lies between two offsets is replaced**: what is behind it is moved, the new text is
copied into the gap, and the end mark is stored. -/
theorem splice_spec (zero : α) (h : x ++ (y ++ z) <+: buf)
    (hfit : x.length + r.length + z.length < buf.length) : ∃ b b' b'',
    memmove (x.length + r.length) (x.length + y.length) z.length buf = some b ∧
      memcpy x.length r b = some b' ∧
      memcpy (x.length + r.length + z.length) [zero] b' = some b'' ∧
      Terminated b'' (x ++ (r ++ z)) zero ∧ b''.length = buf.length := by
  obtain ⟨t, rfl⟩ := h
  have hassoc : (x ++ (y ++ z)) ++ t = (x ++ y) ++ (z ++ t) := by
    simp only [List.append_assoc]
  rw [hassoc] at hfit ⊢
  -- the bytes before the moved part begin with `x`
  obtain ⟨g, hg, hglen⟩ : ∃ g, ((x ++ y) ++ (z ++ t)).take (x.length + r.length) =
      x ++ g ∧ g.length = r.length := by
    refine ⟨(y ++ (z ++ t)).take r.length, ?_, ?_⟩
    · rw [List.append_assoc, List.take_length_add_append]
    · simp only [List.length_take, List.length_append] at hfit ⊢
      omega
  have hmove : memmove (x.length + r.length) (x.length + y.length) z.length
      ((x ++ y) ++ (z ++ t)) = _ :=
    memmove_append (k := x.length + r.length) (by omega) (by simp) rfl (by omega)
  obtain ⟨c, t', ht'⟩ : ∃ c t', ((x ++ y) ++ (z ++ t)).drop
      (x.length + r.length + z.length) = c :: t' := by
    refine List.exists_cons_of_ne_nil fun hnil => ?_
    have := List.drop_eq_nil_iff.mp hnil
    omega
  have hlen := congrArg List.length ht'
  rw [ht', hg, List.append_assoc x g] at hmove
  have hcopy : memcpy x.length r (x ++ (g ++ (z ++ c :: t'))) =
      some (x ++ (r ++ (z ++ c :: t'))) := memcpy_append rfl hglen
  have hzero : memcpy (x.length + r.length + z.length) [zero] (x ++ (r ++ (z ++ c :: t'))) =
      some (x ++ (r ++ z) ++ zero :: t') := by
    have : memcpy (x.length + r.length + z.length) [zero] (x ++ (r ++ z) ++ ([c] ++ t')) = _ :=
      memcpy_append (r := [zero]) (by simp only [List.length_append]; omega) rfl
    simpa only [List.append_assoc, List.cons_append, List.nil_append] using this
  refine ⟨_, _, _, hmove, hcopy, hzero, ⟨t', rfl⟩, ?_⟩
  simp only [List.length_drop, List.length_append, List.length_cons] at hlen hfit ⊢
  omega

end Ittrium.Infra
