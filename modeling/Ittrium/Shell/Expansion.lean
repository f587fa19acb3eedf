import Ittrium.Infra.Prefixes
import Ittrium.Shell.Tokens
import Ittrium.Shell.Variables

/-!
# Expanding variables

The name behind a `$` is read into a buffer of `SHELL_VAR_NAME` bytes. What does not fit into it is
read again as text.

* `fullExpansion` — each variable replaced by its value
* `expandAll` — what the code makes of a text if the output has room
* `Expandable` — no name is too long, unless what is cut off vanishes too
* `expansion_correct` — **the output is the full expansion, as far as it fits, if and only if the
  text is expandable**
-/

namespace Ittrium.Shell

open Ittrium.Infra

variable {vars : Vars} {q : Option Ch} {room : Nat} {c : Ch} {s t n name rest tail w x : Str}
  {f : Ch → Bool}

/-! ## What an expansion should be -/

/-- The name behind a `$`, and what follows it. A brace that is not closed reaches to the end. -/
def refName : Str → Option (Str × Str)
  | [] => none
  | c :: s =>
    if c = lbrace then some (s.takeWhile (· ≠ rbrace), (s.dropWhile (· ≠ rbrace)).tail)
    else if isNameStart c then some ((c :: s).takeWhile isNameChar, (c :: s).dropWhile isNameChar)
    else none

theorem length_dropWhile_le (f : Ch → Bool) (s : Str) : (s.dropWhile f).length ≤ s.length :=
  (List.dropWhile_sublist f).length_le

theorem refName_length (h : refName s = some (name, rest)) : rest.length ≤ s.length := by
  cases s with
  | nil => cases h
  | cons c s =>
    simp only [refName] at h
    by_cases hb : c = lbrace
    · rw [if_pos hb] at h
      obtain ⟨-, rfl⟩ := Prod.mk.inj (Option.some.inj h)
      have := length_dropWhile_le (· ≠ rbrace) s
      rw [List.length_tail, List.length_cons]
      omega
    · rw [if_neg hb] at h
      by_cases hn : isNameStart c = true
      · rw [if_pos hn] at h
        obtain ⟨-, rfl⟩ := Prod.mk.inj (Option.some.inj h)
        exact length_dropWhile_le _ _
      · rw [if_neg hn] at h
        cases h

/-- The value of a variable, nothing if there is none. -/
def valueOf (vars : Vars) (name : Str) : Str := (shellVarGet name vars).getD []

/-- Each variable is replaced by its value. -/
def fullExpansion (vars : Vars) (s : Str) : Str :=
  match s with
  | [] => []
  | c :: s =>
    if c = dollar then
      match _h : refName s with
      | some (name, rest) => valueOf vars name ++ fullExpansion vars rest
      | none => c :: fullExpansion vars s
    else c :: fullExpansion vars s
termination_by s.length
decreasing_by
  all_goals simp only [List.length_cons]
  all_goals first
    | omega
    | exact Nat.lt_succ_of_le (refName_length _h)

/-- A store that calls lead to. -/
def Reachable (vars : Vars) : Prop := ∃ tr, VarRun tr vars

/-- What the output must be, whatever the variables and the size of the buffer. -/
def ExpandsRight (s : Str) : Prop :=
  ∀ vars outsz, Reachable vars → 2 ≤ outsz →
    (expandVars vars s outsz).length ≤ outsz - 1 ∧
      ((fullExpansion vars s).length ≤ outsz - 1 → expandVars vars s outsz = fullExpansion vars s) ∧
      expandVars vars s outsz <+: fullExpansion vars s

/-! ## Names that are too long -/

/-- Whatever the variables, nothing comes of the name in braces: what fits into the buffer for
names is no identifier, and what is cut off is again the beginning of such a name. -/
inductive Silent : Str → Prop where
  | short {n : Str} : n.length < shellVarName → ¬ ValidName n → Silent n
  | long {n n' : Str} : ¬ ValidName (n.take (shellVarName - 1)) →
      n.drop (shellVarName - 1) = dollar :: lbrace :: n' → Silent n' → Silent n

/-- No name is too long but a silent one. -/
inductive Expandable : Str → Prop where
  | nil : Expandable []
  | char {c : Ch} {s : Str} : c ≠ dollar ∨ refName s = none → Expandable s → Expandable (c :: s)
  | name {s name rest : Str} : refName s = some (name, rest) →
      name.length < shellVarName ∨ s.head? = some lbrace ∧ Silent name → Expandable rest →
      Expandable (dollar :: s)

/-! ## The output, if there is room -/

/-- What the code makes of a text. -/
def expandAll (vars : Vars) (s : Str) : Str :=
  match s with
  | [] => []
  | c :: s =>
    if c = dollar then
      match _h : varName s with
      | some (name, rest) => valueOf vars name ++ expandAll vars rest
      | none => c :: expandAll vars s
    else c :: expandAll vars s
termination_by s.length
decreasing_by
  all_goals simp only [List.length_cons]
  all_goals first
    | omega
    | exact Nat.lt_succ_of_le (varName_length _h)

@[simp] theorem expandAll_nil : expandAll vars [] = [] := by rw [expandAll]

theorem expandAll_char (h : c ≠ dollar ∨ varName s = none) :
    expandAll vars (c :: s) = c :: expandAll vars s := by
  rw [expandAll]
  by_cases hc : c = dollar
  · rw [if_pos hc]
    have hv := h.resolve_left (not_not.mpr hc)
    split
    · next hs =>
      rw [hv] at hs
      cases hs
    · rfl
  · rw [if_neg hc]

theorem expandAll_name (h : varName s = some (name, rest)) :
    expandAll vars (dollar :: s) = valueOf vars name ++ expandAll vars rest := by
  rw [expandAll, if_pos rfl]
  split
  · next hs =>
    rw [h] at hs
    cases hs
    rfl
  · next hs =>
    rw [h] at hs
    cases hs

@[simp] theorem fullExpansion_nil : fullExpansion vars [] = [] := by rw [fullExpansion]

theorem fullExpansion_char (h : c ≠ dollar ∨ refName s = none) :
    fullExpansion vars (c :: s) = c :: fullExpansion vars s := by
  rw [fullExpansion]
  by_cases hc : c = dollar
  · rw [if_pos hc]
    have hv := h.resolve_left (not_not.mpr hc)
    split
    · next hs =>
      rw [hv] at hs
      cases hs
    · rfl
  · rw [if_neg hc]

theorem fullExpansion_name (h : refName s = some (name, rest)) :
    fullExpansion vars (dollar :: s) = valueOf vars name ++ fullExpansion vars rest := by
  rw [fullExpansion, if_pos rfl]
  split
  · next hs =>
    rw [h] at hs
    cases hs
    rfl
  · next hs =>
    rw [h] at hs
    cases hs

theorem varName_mem (h : varName s = some (name, rest)) (hs : squote ∉ s) : squote ∉ rest := by
  cases s with
  | nil => cases h
  | cons c s =>
    simp only [varName] at h
    by_cases hb : c = lbrace
    · rw [if_pos hb] at h
      obtain ⟨-, rfl⟩ := Prod.mk.inj (Option.some.inj h)
      intro hm
      split at hm
      · exact hs (List.mem_cons_of_mem _ (List.mem_of_mem_drop (List.mem_of_mem_tail hm)))
      · exact hs (List.mem_cons_of_mem _ (List.mem_of_mem_drop hm))
    · rw [if_neg hb] at h
      by_cases hn : isNameStart c = true
      · rw [if_pos hn] at h
        obtain ⟨-, rfl⟩ := Prod.mk.inj (Option.some.inj h)
        exact fun hm => hs (List.mem_of_mem_drop hm)
      · rw [if_neg hn] at h
        cases h

/-- **The loop gives as much of it as there is room for.** Without single quotes the quote does not
matter. -/
theorem expandLoop_eq : ∀ (k : Nat) (s : Str) (q : Option Ch) (room : Nat), s.length ≤ k →
    squote ∉ s → q ≠ some squote → expandLoop vars q room s = (expandAll vars s).take room := by
  intro k
  induction k with
  | zero =>
    intro s q room hk _ _
    obtain rfl := List.length_eq_zero_iff.mp (Nat.le_zero.mp hk)
    simp [expandLoop]
  | succ k ih =>
    intro s q room hk hs hq
    cases s with
    | nil => simp [expandLoop]
    | cons c s =>
      obtain ⟨hc, hs'⟩ := not_or.mp (mt List.mem_cons.mpr hs)
      rw [List.length_cons] at hk
      by_cases hroom : room = 0
      · rw [expandLoop, if_pos hroom, hroom, List.take_zero]
      · obtain ⟨room, rfl⟩ := Nat.exists_eq_succ_of_ne_zero hroom
        -- a character that is copied, whatever becomes of the quote
        have hcopy : ∀ q', q' ≠ some squote → c ≠ dollar ∨ varName s = none →
            c :: expandLoop vars q' (room + 1 - 1) s =
              (expandAll vars (c :: s)).take (room + 1) := by
          intro q' hq' hd
          rw [expandAll_char hd, List.take_succ_cons, Nat.add_sub_cancel,
            ih s q' room (by omega) hs' hq']
        rw [expandLoop, if_neg hroom, if_neg hq]
        by_cases hopen : q = none ∧ isQuote c = true
        · have hdq : c = dquote := by
            have := hopen.2
            simp only [isQuote, Bool.or_eq_true, decide_eq_true_eq] at this
            exact this.resolve_left (Ne.symm hc)
          rw [if_pos hopen]
          exact hcopy _ (by rw [hdq]; decide) (Or.inl (by rw [hdq]; decide))
        · rw [if_neg hopen]
          by_cases hclose : q = some dquote ∧ c = dquote
          · rw [if_pos hclose]
            exact hcopy _ (by simp) (Or.inl (by rw [hclose.2]; decide))
          · rw [if_neg hclose]
            by_cases hd : c = dollar
            · rw [if_pos hd]
              split
              · next name rest hv =>
                have hlen : rest.length ≤ k := by
                  have := varName_length hv
                  omega
                have hleft : room + 1 - min (room + 1) (valueOf vars name).length =
                    room + 1 - (valueOf vars name).length := by omega
                rw [hd, expandAll_name hv, List.take_append, ← hleft, ← List.length_take,
                  ← ih rest q _ hlen (varName_mem hv hs') hq]
                rfl
              · next hv => exact hcopy q hq (Or.inr hv)
            · rw [if_neg hd]
              exact hcopy q hq (Or.inl hd)

/-! ## Names in both readings -/

/-- What stands behind a name in braces: the closing brace and more, or nothing. -/
def Closing (tail : Str) : Prop := tail = [] ∨ ∃ rest, tail = rbrace :: rest

theorem takeWhile_brace (hn : rbrace ∉ n) (ht : Closing tail) :
    (n ++ tail).takeWhile (· ≠ rbrace) = n ∧ (n ++ tail).dropWhile (· ≠ rbrace) = tail := by
  refine span_stop (ne_of_mem_word hn) fun c hc => ?_
  rcases ht with rfl | ⟨rest, rfl⟩
  · cases hc
  · obtain rfl : rbrace = c := by simpa using hc
    simp

theorem refName_brace (hn : rbrace ∉ n) (ht : Closing tail) :
    refName (lbrace :: (n ++ tail)) = some (n, tail.tail) := by
  obtain ⟨htake, hdrop⟩ := takeWhile_brace hn ht
  rw [refName, if_pos rfl, htake, hdrop]

/-- A name in braces that fits. -/
theorem varName_brace (hn : rbrace ∉ n) (ht : Closing tail) (hlen : n.length < shellVarName) :
    varName (lbrace :: (n ++ tail)) = some (n, tail.tail) := by
  obtain ⟨htake, -⟩ := takeWhile_brace hn ht
  have hfit : n.take (shellVarName - 1) = n := List.take_of_length_le (by omega)
  simp only [varName]
  rw [if_pos trivial, htake, hfit, List.drop_left]
  rcases ht with rfl | ⟨rest, rfl⟩ <;> rfl

/-- A name in braces that is too long is cut. -/
theorem varName_brace_long (hn : rbrace ∉ n) (ht : Closing tail)
    (hlen : shellVarName ≤ n.length) : varName (lbrace :: (n ++ tail)) =
      some (n.take (shellVarName - 1), n.drop (shellVarName - 1) ++ tail) := by
  obtain ⟨htake, -⟩ := takeWhile_brace hn ht
  have hcut : (n.take (shellVarName - 1)).length = shellVarName - 1 := by
    rw [List.length_take]
    omega
  have hdrop : (n ++ tail).drop (shellVarName - 1) = n.drop (shellVarName - 1) ++ tail :=
    List.drop_append_of_le_length (by omega)
  simp only [varName]
  rw [if_pos trivial, htake, hcut, hdrop, if_neg]
  -- what is cut off goes on inside the braces
  have hpos : n.drop (shellVarName - 1) ≠ [] := by
    intro h
    have := congrArg List.length h
    rw [List.length_drop, List.length_nil] at this
    simp only [shellVarName] at this hlen
    omega
  obtain ⟨c, m, hm⟩ := List.exists_cons_of_ne_nil hpos
  rw [hm]
  intro h
  obtain rfl : c = rbrace := by simpa using h
  exact hn (List.mem_of_mem_drop (by rw [hm]; exact List.mem_cons_self))

/-- A name without braces. -/
structure PlainName (w t : Str) : Prop where
  start : w.head?.any isNameStart = true
  chars : ∀ c ∈ w, isNameChar c = true
  stop : ∀ c, t.head? = some c → isNameChar c = false

theorem PlainName.cons (h : PlainName w t) : ∃ c v, w = c :: v ∧ isNameStart c = true ∧
    c ≠ lbrace := by
  cases w with
  | nil => exact absurd h.start (by simp)
  | cons c v =>
    have hc : isNameStart c = true := by simpa using h.start
    refine ⟨c, v, rfl, hc, ?_⟩
    rintro rfl
    exact absurd hc (by decide)

theorem PlainName.refName (h : PlainName w t) : refName (w ++ t) = some (w, t) := by
  obtain ⟨htake, hdrop⟩ := span_stop h.chars h.stop
  obtain ⟨c, v, rfl, hc, hb⟩ := h.cons
  rw [List.cons_append] at htake hdrop ⊢
  rw [Shell.refName, if_neg hb, if_pos hc, htake, hdrop]

theorem PlainName.varName (h : PlainName w t) :
    varName (w ++ t) = some (w.take (shellVarName - 1), w.drop (shellVarName - 1) ++ t) := by
  obtain ⟨htake, -⟩ := span_stop h.chars h.stop
  obtain ⟨c, v, rfl, hc, hb⟩ := h.cons
  rw [List.cons_append] at htake ⊢
  simp only [Shell.varName]
  rw [if_neg hb, if_pos hc, htake, ← List.cons_append]
  congr 2
  by_cases hlen : (c :: v).length ≤ shellVarName - 1
  · rw [List.take_of_length_le hlen, List.drop_of_length_le hlen, List.drop_left, List.nil_append]
  · rw [List.length_take, Nat.min_eq_left (by omega),
      List.drop_append_of_le_length (by omega)]

/-- What can stand behind a `$`. -/
inductive NameAt (s : Str) : Prop where
  | none : refName s = none → varName s = none → NameAt s
  | brace {n tail : Str} : rbrace ∉ n → Closing tail → s = lbrace :: (n ++ tail) → NameAt s
  | plain {w t : Str} : PlainName w t → s = w ++ t → NameAt s

theorem nameAt (s : Str) : NameAt s := by
  cases s with
  | nil => exact .none rfl rfl
  | cons c s =>
    by_cases hb : c = lbrace
    · obtain ⟨n, tail, rfl, hn, ht⟩ := split_while (· ≠ rbrace) s
      refine @NameAt.brace _ n tail (fun h => by simpa using hn rbrace h) ?_ (by rw [hb])
      cases tail with
      | nil => exact Or.inl rfl
      | cons d tail =>
        obtain rfl : d = rbrace := by simpa using ht d rfl
        exact Or.inr ⟨tail, rfl⟩
    · by_cases hc : isNameStart c = true
      · obtain ⟨w, t, hs, hw, ht⟩ := split_while isNameChar (c :: s)
        refine .plain (w := w) (t := t) ⟨?_, hw, ht⟩ hs
        cases w with
        | nil =>
          have := ht c (by rw [← List.nil_append t, ← hs]; rfl)
          simp [isNameChar, hc] at this
        | cons d w =>
          obtain rfl : c = d := by simpa using (List.cons.inj hs).1
          simpa using hc
      · refine .none ?_ ?_
        · rw [refName, if_neg hb, if_neg hc]
        · simp only [varName]
          rw [if_neg hb, if_neg hc]

/-- What can stand behind a `$` inside braces. -/
inductive NameIn (x tail : Str) : Prop where
  | none : refName (x ++ tail) = none → varName (x ++ tail) = none → NameIn x tail
  | brace {n : Str} : x = lbrace :: n → NameIn x tail
  | plain {w y : Str} : PlainName w (y ++ tail) → x = w ++ y → NameIn x tail

theorem nameIn (ht : Closing tail) (x : Str) : NameIn x tail := by
  have hstop : ∀ c, tail.head? = some c → c = rbrace := by
    intro c hc
    rcases ht with rfl | ⟨rest, rfl⟩
    · cases hc
    · simpa using hc.symm
  cases nameAt (x ++ tail) with
  | none hr hv => exact .none hr hv
  | @brace n t _ _ hs =>
    cases x with
    | nil =>
      have := hstop lbrace (by rw [← List.nil_append tail, hs]; rfl)
      exact absurd this (by decide)
    | cons c x =>
      obtain rfl : c = lbrace := (List.cons.inj hs).1
      exact .brace rfl
  | @plain w t hw hs =>
    obtain ⟨y, z, rfl, hy, hz⟩ := split_while isNameChar x
    -- the closing brace is no character of a name
    have hstop' : ∀ c, (z ++ tail).head? = some c → isNameChar c = false := by
      intro c hc
      cases z with
      | nil =>
        rw [hstop c hc]
        decide
      | cons d z => exact hz c hc
    have hyw : y = w := by
      have h₁ := (span_stop hy hstop').1
      have h₂ := (span_stop hw.chars hw.stop).1
      rw [← hs, List.append_assoc, h₁] at h₂
      exact h₂
    subst hyw
    exact .plain ⟨hw.start, hy, hstop'⟩ rfl

/-! ## Stores -/

theorem valueOf_invalid (hr : Reachable vars) (h : ¬ ValidName name) : valueOf vars name = [] := by
  obtain ⟨tr, hrun⟩ := hr
  have hnone : shellVarGet name vars = none := by
    rw [shellVarGet_eq, lookup_eq_none]
    rintro i v hi rfl
    exact h (hrun.tracks.valid i v hi)
  rw [valueOf, hnone]
  rfl

theorem valueOf_long (hr : Reachable vars) (h : shellVarName ≤ name.length) :
    valueOf vars name = [] :=
  valueOf_invalid hr fun hv => absurd hv.fits (by omega)

/-- An identifier can be set. -/
theorem exists_store (h : ValidName name) : ∃ vars, Reachable vars ∧ (valueOf vars name).length = 1 := by
  let c : VarCall := .set (some name) (some [blank])
  have hrun : VarRun [⟨fun _ => none, (c, (varCall (fun _ => none) c).2), _⟩]
      (varCall (fun _ => none) c).1 := .step (.start rfl) rfl
  refine ⟨_, ⟨_, hrun⟩, ?_⟩
  have hset : (varCall (fun _ => none) c).2 = statusOf true := by
    rcases shellVarSet_cases (fun _ => none) [blank] h with
      ⟨i, -, hset⟩ | ⟨-, hfull, -⟩
    · simp only [c, varCall, Option.getD_some, hset]
    · exact absurd rfl (hfull ⟨0, by decide⟩)
  have hlast := hrun.tracks.last name
  rw [lastSet] at hlast
  rw [valueOf, shellVarGet_eq, hlast]
  simp [c, hset, shellVarVal]

theorem reachable_empty : Reachable fun _ => none := ⟨[], .start rfl⟩

/-! ## The output is never too short -/

theorem expandAll_copy : ∀ {m : Str}, (∀ c ∈ m, c ≠ dollar) →
    expandAll vars (m ++ t) = m ++ expandAll vars t
  | [], _ => rfl
  | c :: m, h => by
    rw [List.cons_append, expandAll_char (Or.inl (h c (by simp))),
      expandAll_copy fun d hd => h d (by simp [hd]), List.cons_append]

theorem ne_dollar_of_isNameChar (h : isNameChar c = true) : c ≠ dollar := by
  rintro rfl
  exact absurd h (by decide)

theorem PlainName.copied (h : PlainName w t) (k : Nat) :
    expandAll vars (w.drop k ++ t) = w.drop k ++ expandAll vars t :=
  expandAll_copy fun c hc => ne_dollar_of_isNameChar (h.chars c (List.mem_of_mem_drop hc))

/-- Nothing of the full expansion is missing, nor of that of what follows a cut name. -/
structure Whole (vars : Vars) (s : Str) : Prop where
  full : (fullExpansion vars s).length ≤ (expandAll vars s).length
  cut : ∀ x tail, s = x ++ tail → rbrace ∉ x → Closing tail →
    (fullExpansion vars tail.tail).length ≤ (expandAll vars s).length

theorem Whole.full_cons {k : Nat} {c : Ch} (hr : Reachable vars)
    (ih : ∀ s : Str, s.length ≤ k → Whole vars s) (hk : s.length ≤ k) :
    (fullExpansion vars (c :: s)).length ≤ (expandAll vars (c :: s)).length := by
  have hchar : c ≠ dollar ∨ refName s = none ∧ varName s = none →
      (fullExpansion vars (c :: s)).length ≤ (expandAll vars (c :: s)).length := by
    intro h
    rw [fullExpansion_char (h.imp_right And.left), expandAll_char (h.imp_right And.right)]
    exact Nat.succ_le_succ (ih s hk).full
  by_cases hc : c = dollar
  · subst hc
    cases nameAt s with
    | none hr hv => exact hchar (Or.inr ⟨hr, hv⟩)
    | @brace n tail hn ht hs =>
      subst hs
      simp only [List.length_cons, List.length_append] at hk
      rw [fullExpansion_name (refName_brace hn ht)]
      by_cases hlen : n.length < shellVarName
      · have htail := (ih tail.tail (by rw [List.length_tail]; omega)).full
        rw [expandAll_name (varName_brace hn ht hlen), List.length_append, List.length_append]
        omega
      -- no variable has so long a name, and what is cut off is read again
      · have hcut := (ih (n.drop (shellVarName - 1) ++ tail)
          (by rw [List.length_append, List.length_drop]; omega)).cut _ tail rfl
          (fun h => hn (List.mem_of_mem_drop h)) ht
        rw [expandAll_name (varName_brace_long hn ht (by omega)),
          valueOf_long hr (by omega), List.nil_append, List.length_append]
        omega
    | @plain w t hw hs =>
      subst hs
      obtain ⟨d, v, rfl, -, -⟩ := hw.cons
      simp only [List.length_cons, List.length_append] at hk
      have htail := (ih t (by omega)).full
      rw [fullExpansion_name hw.refName, expandAll_name hw.varName, hw.copied]
      by_cases hlen : (d :: v).length < shellVarName
      · rw [List.take_of_length_le (by omega)]
        simp only [List.length_append]
        omega
      · rw [valueOf_long hr (by omega), List.nil_append]
        simp only [List.length_append]
        omega
  · exact hchar (Or.inl hc)

theorem Whole.cut_cons {k : Nat} {c : Ch} {x : Str}
    (ih : ∀ s : Str, s.length ≤ k → Whole vars s) (hk : (x ++ tail).length ≤ k)
    (hx : rbrace ∉ x) (ht : Closing tail) :
    (fullExpansion vars tail.tail).length ≤ (expandAll vars (c :: (x ++ tail))).length := by
  have hchar : c ≠ dollar ∨ varName (x ++ tail) = none →
      (fullExpansion vars tail.tail).length ≤ (expandAll vars (c :: (x ++ tail))).length := by
    intro h
    have hrest := (ih (x ++ tail) hk).cut x tail rfl hx ht
    rw [expandAll_char h, List.length_cons]
    omega
  rw [List.length_append] at hk
  by_cases hc : c = dollar
  · subst hc
    cases nameIn ht x with
    | none _ hv => exact hchar (Or.inr hv)
    | @brace n hs =>
      subst hs
      obtain ⟨-, hn⟩ := not_or.mp (mt List.mem_cons.mpr hx)
      rw [List.length_cons] at hk
      by_cases hlen : n.length < shellVarName
      · have htail := (ih tail.tail (by rw [List.length_tail]; omega)).full
        rw [List.cons_append, expandAll_name (varName_brace hn ht hlen), List.length_append]
        omega
      · have hcut := (ih (n.drop (shellVarName - 1) ++ tail)
          (by rw [List.length_append, List.length_drop]; omega)).cut _ tail rfl
          (fun h => hn (List.mem_of_mem_drop h)) ht
        rw [List.cons_append, expandAll_name (varName_brace_long hn ht (by omega)),
          List.length_append]
        omega
    | @plain w y hw hs =>
      subst hs
      obtain ⟨d, v, rfl, -, -⟩ := hw.cons
      simp only [List.length_cons, List.length_append] at hk
      have hrest := (ih (y ++ tail) (by rw [List.length_append]; omega)).cut y tail rfl
        (fun h => hx (List.mem_append_right _ h)) ht
      rw [List.append_assoc, expandAll_name hw.varName, hw.copied]
      simp only [List.length_append]
      omega
  · exact hchar (Or.inl hc)

/-- **No text loses anything.** -/
theorem Reachable.whole (hr : Reachable vars) : ∀ (k : Nat) (s : Str), s.length ≤ k → Whole vars s := by
  intro k
  induction k with
  | zero =>
    intro s hk
    obtain rfl := List.length_eq_zero_iff.mp (Nat.le_zero.mp hk)
    refine ⟨by simp, fun x tail hs _ _ => ?_⟩
    obtain ⟨-, rfl⟩ := List.append_eq_nil_iff.mp hs.symm
    simp
  | succ k ih =>
    intro s hk
    constructor
    · cases s with
      | nil => simp
      | cons c s => exact Whole.full_cons hr ih (Nat.le_of_succ_le_succ hk)
    · rintro x tail rfl hx ht
      cases x with
      | nil =>
        rcases ht with rfl | ⟨rest, rfl⟩
        · simp
        · have hrest := (ih rest (Nat.le_of_succ_le_succ hk)).full
          rw [List.nil_append, expandAll_char (Or.inl (by decide)), List.tail_cons, List.length_cons]
          omega
      | cons c x =>
        obtain ⟨-, hx'⟩ := not_or.mp (mt List.mem_cons.mpr hx)
        exact Whole.cut_cons ih (Nat.le_of_succ_le_succ hk) hx' ht

/-! ## Which names do no harm -/

/-- Nothing comes of a silent name. -/
theorem Silent.expandAll (h : Silent n) (hr : Reachable vars) (hn : rbrace ∉ n)
    (ht : Closing tail) :
    expandAll vars (dollar :: lbrace :: (n ++ tail)) = expandAll vars tail.tail := by
  induction h with
  | @short n hlen hv =>
    rw [expandAll_name (varName_brace hn ht hlen), valueOf_invalid hr hv, List.nil_append]
  | @long n n' hv hdrop _ ih =>
    have hlen : shellVarName ≤ n.length := by
      have := congrArg List.length hdrop
      simp only [List.length_drop, List.length_cons] at this
      simp only [shellVarName] at this ⊢
      omega
    have hn' : rbrace ∉ n' := fun h => by
      have hm : rbrace ∈ n.drop (shellVarName - 1) := by rw [hdrop]; simp [h]
      exact hn (List.mem_of_mem_drop hm)
    rw [expandAll_name (varName_brace_long hn ht hlen), valueOf_invalid hr hv, List.nil_append,
      hdrop]
    exact ih hn'

/-- **A name of which nothing comes, whatever the variables, is silent.** -/
theorem silent_of_length (ht : Closing tail) : ∀ (k : Nat) (n : Str), n.length ≤ k → rbrace ∉ n →
    (∀ vars, Reachable vars → (expandAll vars (dollar :: lbrace :: (n ++ tail))).length ≤
      (fullExpansion vars tail.tail).length) → Silent n := by
  intro k
  induction k with
  | zero =>
    intro n hk _ _
    obtain rfl := List.length_eq_zero_iff.mp (Nat.le_zero.mp hk)
    exact .short (by decide) fun hv => absurd hv.start (by simp)
  | succ k ih =>
    intro n hk hn hle
    have hfull : ∀ {vars : Vars} {x : Str}, Reachable vars → rbrace ∉ x →
        (fullExpansion vars tail.tail).length ≤ (expandAll vars (x ++ tail)).length :=
      fun hr hx => (hr.whole _ _ (Nat.le_refl _)).cut _ tail rfl hx ht
    by_cases hlen : n.length < shellVarName
    · refine .short hlen fun hv => ?_
      obtain ⟨vars, hr, hval⟩ := exists_store hv
      have h := hle vars hr
      have htail := (hr.whole _ tail.tail (Nat.le_refl _)).full
      rw [expandAll_name (varName_brace hn ht hlen), List.length_append] at h
      omega
    · have hcut : ∀ vars, Reachable vars → (valueOf vars (n.take (shellVarName - 1))).length +
          (expandAll vars (n.drop (shellVarName - 1) ++ tail)).length ≤
            (fullExpansion vars tail.tail).length := by
        intro vars hr
        have h := hle vars hr
        rwa [expandAll_name (varName_brace_long hn ht (by omega)), List.length_append] at h
      have hvalid : ¬ ValidName (n.take (shellVarName - 1)) := by
        intro hv
        obtain ⟨vars, hr, hval⟩ := exists_store hv
        have h := hcut vars hr
        have := hfull hr (x := n.drop (shellVarName - 1)) fun h => hn (List.mem_of_mem_drop h)
        omega
      have hne : n.drop (shellVarName - 1) ≠ [] := by
        intro h
        have := congrArg List.length h
        rw [List.length_drop, List.length_nil] at this
        simp only [shellVarName] at this hlen
        omega
      obtain ⟨c, m, hm⟩ := List.exists_cons_of_ne_nil hne
      have hxm : rbrace ∉ m := fun h => by
        have hm' : rbrace ∈ n.drop (shellVarName - 1) := by rw [hm]; simp [h]
        exact hn (List.mem_of_mem_drop hm')
      -- a character that is copied would be too much
      have hcopy : ¬ (c ≠ dollar ∨ varName (m ++ tail) = none) := by
        intro h
        have hle := hcut _ reachable_empty
        have := hfull reachable_empty hxm
        rw [hm, List.cons_append, expandAll_char h, List.length_cons] at hle
        omega
      obtain ⟨hc, hv⟩ := not_or.mp hcopy
      obtain rfl : c = dollar := not_not.mp hc
      cases nameIn ht m with
      | none _ h => exact absurd h hv
      | @brace n' hs =>
        subst hs
        refine .long hvalid hm (ih n' ?_ (fun h => hxm (by simp [h])) fun vars hr => ?_)
        · have := congrArg List.length hm
          simp only [List.length_drop, List.length_cons] at this
          omega
        · have h := hcut vars hr
          rw [hm] at h
          have : (expandAll vars (dollar :: lbrace :: (n' ++ tail))).length =
            (expandAll vars (dollar :: lbrace :: n' ++ tail)).length := rfl
          omega
      | @plain w y hw hs =>
        subst hs
        -- the variable could be set
        have hwv : ValidName (w.take (shellVarName - 1)) := by
          obtain ⟨d, v, rfl, hd, -⟩ := hw.cons
          refine ⟨by simp [shellVarName, hd], List.all_eq_true.mpr fun c hc => ?_, ?_⟩
          · exact hw.chars c (List.mem_of_mem_take hc)
          · rw [List.length_take]
            simp only [shellVarName]
            omega
        obtain ⟨vars, hr, hval⟩ := exists_store hwv
        have h := hcut vars hr
        have := hfull hr (x := y) fun h => hxm (List.mem_append_right _ h)
        rw [hm, List.cons_append, List.append_assoc, expandAll_name hw.varName, hw.copied] at h
        simp only [List.length_append] at h
        omega

theorem expandable_iff : ∀ (k : Nat) (s : Str), s.length ≤ k →
    (∀ vars, Reachable vars → expandAll vars s = fullExpansion vars s) → Expandable s := by
  intro k
  induction k with
  | zero =>
    intro s hk _
    obtain rfl := List.length_eq_zero_iff.mp (Nat.le_zero.mp hk)
    exact .nil
  | succ k ih =>
    intro s hk heq
    cases s with
    | nil => exact .nil
    | cons c s =>
      rw [List.length_cons] at hk
      have hchar : c ≠ dollar ∨ refName s = none ∧ varName s = none → Expandable (c :: s) := by
        intro h
        refine .char (h.imp_right And.left) (ih s (by omega) fun vars hr => ?_)
        have := heq vars hr
        rw [fullExpansion_char (h.imp_right And.left), expandAll_char (h.imp_right And.right)] at this
        exact (List.cons.inj this).2
      by_cases hc : c = dollar
      · subst hc
        cases nameAt s with
        | none hr hv => exact hchar (Or.inr ⟨hr, hv⟩)
        | @brace n tail hn ht hs =>
          subst hs
          simp only [List.length_cons, List.length_append] at hk
          have hrest : (∀ vars, Reachable vars →
              expandAll vars tail.tail = fullExpansion vars tail.tail) → Expandable tail.tail :=
            ih tail.tail (by rw [List.length_tail]; omega)
          by_cases hlen : n.length < shellVarName
          · refine .name (refName_brace hn ht) (Or.inl hlen) (hrest fun vars hr => ?_)
            have := heq vars hr
            rw [fullExpansion_name (refName_brace hn ht),
              expandAll_name (varName_brace hn ht hlen)] at this
            exact List.append_cancel_left this
          · have hfull : ∀ vars, Reachable vars →
                fullExpansion vars (dollar :: lbrace :: (n ++ tail)) =
                  fullExpansion vars tail.tail := by
              intro vars hr
              rw [fullExpansion_name (refName_brace hn ht), valueOf_long hr (by omega),
                List.nil_append]
            have hsilent : Silent n := silent_of_length ht n.length n (Nat.le_refl _) hn
              fun vars hr => by rw [heq vars hr, hfull vars hr]
            refine .name (refName_brace hn ht) (Or.inr ⟨rfl, hsilent⟩) (hrest fun vars hr => ?_)
            rw [← hfull vars hr, ← heq vars hr, hsilent.expandAll hr hn ht]
        | @plain w t hw hs =>
          subst hs
          obtain ⟨d, v, rfl, -, -⟩ := hw.cons
          simp only [List.length_cons, List.length_append] at hk
          by_cases hlen : (d :: v).length < shellVarName
          · refine .name hw.refName (Or.inl hlen) (ih t (by omega) fun vars hr => ?_)
            have := heq vars hr
            rw [fullExpansion_name hw.refName, expandAll_name hw.varName,
              List.take_of_length_le (by omega), List.drop_of_length_le (by omega)] at this
            exact List.append_cancel_left this
          · -- what is cut off is copied
            have hval : valueOf (fun _ => none) (d :: v) = [] :=
              valueOf_long reachable_empty (by omega)
            have := congrArg List.length (heq _ reachable_empty)
            rw [fullExpansion_name hw.refName, expandAll_name hw.varName, hw.copied, hval,
              List.nil_append] at this
            have hle := (reachable_empty.whole _ t (Nat.le_refl _)).full
            simp only [List.length_append, List.length_drop] at this
            simp only [shellVarName] at this hlen
            omega
      · exact hchar (Or.inl hc)

theorem Expandable.expandAll (h : Expandable s) (hr : Reachable vars) :
    expandAll vars s = fullExpansion vars s := by
  induction h with
  | nil => simp
  | @char c s hc _ ih =>
    rw [fullExpansion_char hc, expandAll_char, ih]
    rcases hc with hc | hc
    · exact Or.inl hc
    · cases nameAt s with
      | none _ hv => exact Or.inr hv
      | brace hn ht hs =>
        rw [hs, refName_brace hn ht] at hc
        cases hc
      | plain hw hs =>
        rw [hs, hw.refName] at hc
        cases hc
  -- a name too long stands in braces and is silent
  | @name s name rest hname hlen _ ih =>
    rw [fullExpansion_name hname, ← ih]
    cases nameAt s with
    | none hr _ =>
      rw [hr] at hname
      cases hname
    | @brace n tail hn ht hs =>
      subst hs
      rw [refName_brace hn ht] at hname
      cases hname
      by_cases hfit : name.length < shellVarName
      · rw [expandAll_name (varName_brace hn ht hfit)]
      · have hsilent := (hlen.resolve_left hfit).2
        rw [hsilent.expandAll hr hn ht, valueOf_long hr (by omega), List.nil_append]
    | @plain w t hw hs =>
      subst hs
      rw [hw.refName] at hname
      cases hname
      have hfit : name.length < shellVarName := by
        refine hlen.resolve_right fun h => ?_
        obtain ⟨d, v, rfl, -, hd⟩ := hw.cons
        exact hd (by simpa using h.1)
      rw [expandAll_name hw.varName, List.take_of_length_le (by omega),
        List.drop_of_length_le (by omega), List.nil_append]

/-- **The output is the full expansion, as far as it fits, if and only if the text is
expandable.** -/
theorem expansion_correct (hs : squote ∉ s) : ExpandsRight s ↔ Expandable s := by
  have hout : ∀ vars outsz, expandVars vars s outsz = (expandAll vars s).take (outsz - 1) :=
    fun vars outsz => expandLoop_eq _ s none _ (Nat.le_refl _) hs (by simp)
  constructor
  · intro h
    refine expandable_iff _ s (Nat.le_refl _) fun vars hr => ?_
    -- a buffer with room for both
    have hroom := (h vars ((expandAll vars s).length + (fullExpansion vars s).length + 2) hr
      (by omega)).2.1 (by omega)
    rwa [hout, List.take_of_length_le (by omega)] at hroom
  · intro h vars outsz hr _
    rw [hout, h.expandAll hr]
    exact ⟨List.length_take_le _ _, fun hfit => List.take_of_length_le hfit, List.take_prefix _ _⟩

/-- `$A`. -/
theorem expansion_correct_one : ExpandsRight [dollar, 0x41] :=
  (expansion_correct (by decide)).mpr
    (@Expandable.name [0x41] [0x41] [] (by decide) (Or.inl (by decide)) .nil)

/-- A name of 24 characters `A`. Its last one is copied, and the rest of it is another name. -/
theorem expansion_wrong : squote ∉ dollar :: List.replicate 24 (0x41 : Ch) ∧
    ¬ ExpandsRight (dollar :: List.replicate 24 0x41) := by
  refine ⟨by decide, fun h => ?_⟩
  have hfit := (h (fun _ => none) 192 ⟨[], .start rfl⟩ (by decide)).2.1 (by decide +kernel)
  exact absurd hfit (by decide +kernel)

end Ittrium.Shell
