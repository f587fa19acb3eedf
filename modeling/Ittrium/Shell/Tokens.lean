import Ittrium.Shell.Quotes

/-!
# Splitting into words

`tokenize` stores zeros into the buffer that it scans. Where a quote follows the characters of a
word it stores the zero over the quote, which is where it goes on, so the line ends there.

* `tokenizeBuf` — the scanner with its buffer and the offsets in `argv`
* `tokenizeBuf_spec` — its words are those of `tokenize`
* `drops_nothing` — **all text is returned if and only if there is none behind such a quote**
-/

namespace Ittrium.Shell

variable {max p : Nat} {c q : Ch} {s t a b bl w pre post buf : Str} {f : Ch → Bool}

/-! ## The buffer -/

/-- The byte at an offset. -/
def charAt (buf : Str) (p : Nat) : Ch := buf.getD p 0

/-- `while (f(*p)) p++`. -/
def skip (f : Ch → Bool) (buf : Str) (p : Nat) : Nat := p + ((buf.drop p).takeWhile f).length

/-- The string at an offset. -/
def cstr (buf : Str) (p : Nat) : Str := (buf.drop p).takeWhile (· ≠ 0)

/-- A character of a word without quotes. -/
def isPlain (c : Ch) : Bool := !isBlank c && !isQuote c

/-- `tokenize`, with room for `max` more tokens: the buffer, and the offsets of the tokens. -/
def tokenizeBuf : Nat → Str → Nat → Str × List Nat
  | 0, buf, _ => (buf, [])
  | max + 1, buf, p =>
    if charAt buf p = 0 then (buf, [])
    else
      let p := skip isBlank buf p
      if charAt buf p = 0 then (buf, [])
      else if isQuote (charAt buf p) then
        let q := charAt buf p
        let e := skip (fun c => c ≠ 0 && c ≠ q) buf (p + 1)
        let r := if charAt buf e ≠ 0 then tokenizeBuf max (buf.set e 0) (e + 1)
          else tokenizeBuf max buf e
        (r.1, (p + 1) :: r.2)
      else
        let e := skip (fun c => c ≠ 0 && isPlain c) buf p
        let r :=
          -- the zero is written where the scan goes on
          if isQuote (charAt buf e) then tokenizeBuf max (buf.set e 0) e
          else if charAt buf e ≠ 0 then tokenizeBuf max (buf.set e 0) (e + 1)
          else tokenizeBuf max buf e
        (r.1, p :: r.2)

/-! ## Quotes and words of a text -/

/-- The quote behind a character. -/
def quoteStep : Option Ch → Ch → Option Ch
  | some q, c => if c = q then none else some q
  | none, c => if isQuote c then some c else none

def quoteAfter (q : Option Ch) (s : Str) : Option Ch := s.foldl quoteStep q

/-- All quotes are closed. -/
def Balanced (s : Str) : Prop := quoteAfter none s = none

instance (s : Str) : Decidable (Balanced s) := inferInstanceAs (Decidable (_ = _))

/-- Quote delimiters and blanks outside quotes. -/
def isSep : Option Ch → Ch → Bool
  | some q, c => c = q
  | none, c => isQuote c || isBlank c

/-- The text without these. -/
def bare : Option Ch → Str → Str
  | _, [] => []
  | q, c :: s => if isSep q c then bare (quoteStep q c) s else c :: bare (quoteStep q c) s

/-- The number of words. A word goes on behind a plain character. -/
def wordCount : Option Ch → Bool → Str → Nat
  | _, _, [] => 0
  | some q, _, c :: s => wordCount (quoteStep (some q) c) false s
  | none, inWord, c :: s =>
    if isQuote c then wordCount (some c) false s + 1
    else if isBlank c then wordCount none false s
    else wordCount none true s + if inWord then 0 else 1

/-- What begins with the first quote that follows a plain character. -/
def behindWord : Option Ch → Bool → Str → Str
  | _, _, [] => []
  | some q, _, c :: s => behindWord (quoteStep (some q) c) false s
  | none, inWord, c :: s =>
    if isQuote c then if inWord then c :: s else behindWord (some c) false s
    else behindWord none (!isBlank c) s

/-- `w` is a token of `s`: it lies between blanks or quote delimiters. -/
structure IsToken (s a w b : Str) : Prop where
  eq : s = a ++ (w ++ b)
  start : a = [] ∨ ∃ a₀ c, a = a₀ ++ [c] ∧ isSep (quoteAfter none a₀) c = true
  stop : ∀ c, b.head? = some c → isSep (quoteAfter none (a ++ w)) c = true
  /-- Only a token in quotes is empty. -/
  empty : w = [] → ∃ a₀ c, a = a₀ ++ [c] ∧ quoteAfter none a₀ = none ∧ isQuote c = true ∧
    b.head? = some c

/-- What the tokens of the string `s` must be. -/
structure DropsNothing (max : Nat) (s post : Str) : Prop where
  text : ((tokenizeBuf max (s ++ 0 :: post) 0).2.map
    (cstr (tokenizeBuf max (s ++ 0 :: post) 0).1)).flatten = bare none s
  token : ∀ p ∈ (tokenizeBuf max (s ++ 0 :: post) 0).2, ∃ a b, a.length = p ∧
    IsToken s a (cstr (tokenizeBuf max (s ++ 0 :: post) 0).1 p) b
  ended : ∀ p ∈ (tokenizeBuf max (s ++ 0 :: post) 0).2,
    ∃ e ≤ s.length, e = p + (cstr (tokenizeBuf max (s ++ 0 :: post) 0).1 p).length ∧
      (tokenizeBuf max (s ++ 0 :: post) 0).1[e]? = some 0

/-! ## One token -/

/-- What stands at the front of a text. -/
inductive Front (s : Str) : Prop where
  | blanks : (∀ c ∈ s, isBlank c = true) → Front s
  | quoted {bl w t : Str} {q : Ch} : (∀ c ∈ bl, isBlank c = true) → isQuote q = true → q ∉ w →
      s = bl ++ q :: (w ++ q :: t) → Front s
  | unclosed {bl w : Str} {q : Ch} : (∀ c ∈ bl, isBlank c = true) → isQuote q = true → q ∉ w →
      s = bl ++ q :: w → Front s
  | last {bl w : Str} : (∀ c ∈ bl, isBlank c = true) → w ≠ [] → (∀ c ∈ w, isPlain c = true) →
      s = bl ++ w → Front s
  | spaced {bl w t : Str} {c : Ch} : (∀ c ∈ bl, isBlank c = true) → w ≠ [] →
      (∀ c ∈ w, isPlain c = true) → isBlank c = true → s = bl ++ (w ++ c :: t) → Front s
  | adjacent {bl w t : Str} {c : Ch} : (∀ c ∈ bl, isBlank c = true) → w ≠ [] →
      (∀ c ∈ w, isPlain c = true) → isQuote c = true → s = bl ++ (w ++ c :: t) → Front s

/-- A text is what passes and what begins with a character that does not. -/
theorem split_while (f : Ch → Bool) (s : Str) : ∃ m t, s = m ++ t ∧ (∀ c ∈ m, f c = true) ∧
    ∀ c, t.head? = some c → f c = false := by
  refine ⟨s.takeWhile f, s.dropWhile f, (List.takeWhile_append_dropWhile).symm,
    fun c hc => List.mem_takeWhile_imp hc, fun c hc => ?_⟩
  have := List.head?_dropWhile_not f s
  rw [hc] at this
  simpa using this

theorem front (s : Str) : Front s := by
  obtain ⟨bl, t, rfl, hbl, ht⟩ := split_while isBlank s
  cases t with
  | nil => exact .blanks (by simpa using hbl)
  | cons c t =>
    have hc := ht c rfl
    -- behind the blanks there is a quote, or a word
    by_cases hq : isQuote c = true
    · obtain ⟨w, t, rfl, hw, ht⟩ := split_while (· ≠ c) t
      have hmem : c ∉ w := fun h => by simpa using hw c h
      cases t with
      | nil => exact .unclosed hbl hq hmem (by simp)
      | cons d t =>
        obtain rfl : d = c := by simpa using ht d rfl
        exact .quoted hbl hq hmem rfl
    · obtain ⟨w, t', htw, hw, ht'⟩ := split_while isPlain (c :: t)
      have hplain : isPlain c = true := by simp [isPlain, hc, hq]
      have hne : w ≠ [] := by
        rintro rfl
        rw [List.nil_append] at htw
        have := ht' c (by rw [← htw]; rfl)
        rw [hplain] at this
        cases this
      rw [htw]
      cases t' with
      | nil => exact .last hbl hne hw (by simp)
      | cons d t' =>
        have hd : isPlain d = false := ht' d rfl
        by_cases hdb : isBlank d = true
        · exact .spaced hbl hne hw hdb rfl
        · exact .adjacent hbl hne hw (by simpa [isPlain, hdb] using hd) rfl

/-! ## Quotes along a text -/

theorem quoteAfter_append (q : Option Ch) (s t : Str) :
    quoteAfter q (s ++ t) = quoteAfter (quoteAfter q s) t := List.foldl_append

/-- Blanks and plain characters open no quote. -/
theorem quoteAfter_of_no_quote : ∀ {w : Str}, (∀ c ∈ w, isQuote c = false) →
    quoteAfter none w = none
  | [], _ => rfl
  | c :: w, h => by
    have hc : quoteStep none c = none := by simp [quoteStep, h c (by simp)]
    rw [quoteAfter, List.foldl_cons, hc]
    exact quoteAfter_of_no_quote fun d hd => h d (by simp [hd])

theorem quoteAfter_inside : ∀ {w : Str}, q ∉ w → quoteAfter (some q) w = some q
  | [], _ => rfl
  | c :: w, h => by
    obtain ⟨hc, hw⟩ := not_or.mp (mt List.mem_cons.mpr h)
    have hstep : quoteStep (some q) c = some q := if_neg (Ne.symm hc)
    rw [quoteAfter, List.foldl_cons, hstep]
    exact quoteAfter_inside hw

theorem isQuote_of_isBlank (h : isBlank c = true) : isQuote c = false := by
  rcases (by simpa [isBlank] using h : c = blank ∨ c = tab) with rfl | rfl <;> decide

theorem isQuote_of_isPlain (h : isPlain c = true) : isQuote c = false := by
  simp only [isPlain, Bool.and_eq_true, Bool.not_eq_true'] at h
  exact h.2

theorem not_plain_head (hc : isPlain c = false) :
    ∀ d, (c :: t).head? = some d → isPlain d = false := by
  rintro d hd
  obtain rfl : c = d := by simpa using hd
  exact hc

theorem quoteAfter_blanks (h : ∀ c ∈ bl, isBlank c = true) : quoteAfter none bl = none :=
  quoteAfter_of_no_quote fun c hc => isQuote_of_isBlank (h c hc)

theorem quoteAfter_plain (h : ∀ c ∈ w, isPlain c = true) : quoteAfter none w = none :=
  quoteAfter_of_no_quote fun c hc => isQuote_of_isPlain (h c hc)

theorem quoteAfter_open (hbl : ∀ c ∈ bl, isBlank c = true) (hq : isQuote q = true) (hw : q ∉ w) :
    quoteAfter none (bl ++ q :: w) = some q := by
  rw [quoteAfter_append, quoteAfter_blanks hbl, quoteAfter, List.foldl_cons]
  rw [show quoteStep none q = some q from if_pos hq]
  exact quoteAfter_inside hw

theorem quoteAfter_quoted (hbl : ∀ c ∈ bl, isBlank c = true) (hq : isQuote q = true)
    (hw : q ∉ w) : quoteAfter none (bl ++ q :: (w ++ [q])) = none := by
  have ho : quoteAfter none ((bl ++ q :: w) ++ [q]) = none := by
    rw [quoteAfter_append, quoteAfter_open hbl hq hw]
    exact if_pos rfl
  simpa using ho

/-- Behind a blank or a closed quote the tokens are those of the rest. -/
theorem IsToken.append {u u₀ : Str} (h : IsToken t a w b) (hu : quoteAfter none u = none)
    (hend : u = u₀ ++ [c]) (hc : isSep (quoteAfter none u₀) c = true) :
    IsToken (u ++ t) (u ++ a) w b := by
  have hq : ∀ x, quoteAfter none (u ++ x) = quoteAfter none x := fun x => by
    rw [quoteAfter_append, hu]
  refine ⟨by rw [h.eq, List.append_assoc], ?_, fun d hd => ?_, fun hw => ?_⟩
  · rcases h.start with rfl | ⟨a₀, d, rfl, hd⟩
    · exact Or.inr ⟨u₀, c, by rw [List.append_nil, hend], hc⟩
    · exact Or.inr ⟨u ++ a₀, d, by rw [List.append_assoc], by rwa [hq]⟩
  · rw [List.append_assoc, hq]
    exact h.stop d hd
  · obtain ⟨a₀, d, rfl, hn, hd, hb⟩ := h.empty hw
    exact ⟨u ++ a₀, d, by rw [List.append_assoc], by rwa [hq], hd, hb⟩

/-- A quoted token at the front. -/
theorem isToken_quoted (hbl : ∀ c ∈ bl, isBlank c = true) (hq : isQuote q = true) (hw : q ∉ w) :
    IsToken (bl ++ q :: (w ++ q :: t)) (bl ++ [q]) w (q :: t) := by
  refine ⟨by simp, Or.inr ⟨bl, q, rfl, ?_⟩, fun c hc => ?_, fun _ => ⟨bl, q, rfl, ?_, hq, rfl⟩⟩
  · simp [quoteAfter_blanks hbl, isSep, hq]
  · obtain rfl : q = c := by simpa using hc
    have ho := quoteAfter_open hbl hq hw
    rw [List.append_assoc, List.singleton_append, ho]
    simp [isSep]
  · exact quoteAfter_blanks hbl

/-- A token of plain characters at the front. -/
theorem isToken_plain (hbl : ∀ c ∈ bl, isBlank c = true) (hne : w ≠ [])
    (hw : ∀ c ∈ w, isPlain c = true) (ht : ∀ c, t.head? = some c → isPlain c = false) :
    IsToken (bl ++ (w ++ t)) bl w t := by
  refine ⟨rfl, ?_, fun c hc => ?_, fun h => absurd h hne⟩
  · rcases List.eq_nil_or_concat bl with rfl | ⟨bl₀, c, rfl⟩
    · exact Or.inl rfl
    · refine Or.inr ⟨bl₀, c, by simp, ?_⟩
      have hc : isBlank c = true := hbl c (by simp)
      have hbl₀ : quoteAfter none bl₀ = none := quoteAfter_blanks fun d hd => hbl d (by simp [hd])
      simp [hbl₀, isSep, hc]
  · have hnone : quoteAfter none (bl ++ w) = none := by
      rw [quoteAfter_append, quoteAfter_blanks hbl, quoteAfter_plain hw]
    have hc : isPlain c = false := ht c hc
    rw [hnone]
    simp only [isPlain, Bool.and_eq_false_iff, Bool.not_eq_false'] at hc
    rcases hc with hc | hc <;> simp [isSep, hc]

/-! ## Reading and writing the buffer -/

theorem charAt_append (pre : Str) (c : Ch) (s : Str) : charAt (pre ++ c :: s) pre.length = c := by
  simp [charAt]

/-- The loop stops at the first character that does not pass. -/
theorem skip_append (hm : ∀ c ∈ w, f c = true) (hc : f c = false) :
    skip f (pre ++ (w ++ c :: s)) pre.length = pre.length + w.length := by
  unfold skip
  rw [List.drop_left, List.takeWhile_append_of_pos hm, List.takeWhile_cons_of_neg (by simp [hc]),
    List.append_nil]

theorem set_append (pre : Str) (c d : Ch) (s : Str) :
    (pre ++ c :: s).set pre.length d = pre ++ d :: s := by
  simp

theorem cstr_append (hz : (0 : Ch) ∉ w) : cstr (pre ++ (w ++ 0 :: s)) pre.length = w := by
  unfold cstr
  rw [List.drop_left, List.takeWhile_append_of_pos fun c hc => ?_]
  · simp
  · have : c ≠ 0 := fun h => hz (h ▸ hc)
    simpa using this

theorem getElem?_ended (pre w s : Str) :
    (pre ++ (w ++ 0 :: s))[pre.length + w.length]? = some 0 := by
  rw [← List.append_assoc, ← List.length_append, List.getElem?_append_right (Nat.le_refl _)]
  simp

theorem tokenizeBuf_zero (h : charAt buf p = 0) : tokenizeBuf max buf p = (buf, []) := by
  cases max with
  | zero => rfl
  | succ max => rw [tokenizeBuf, if_pos h]

/-- What the scan of `s` behind `pre` has done. -/
structure Scanned (pre s post : Str) (words : List Str) (r : Str × List Nat) : Prop where
  buf : ∃ s', s'.length = s.length ∧ r.1 = pre ++ (s' ++ 0 :: post)
  words : r.2.map (cstr r.1) = words
  token : ∀ p ∈ r.2, ∃ a b, pre.length + a.length = p ∧ s = a ++ (cstr r.1 p ++ b) ∧
    r.1[p + (cstr r.1 p).length]? = some 0 ∧ (Balanced s → IsToken s a (cstr r.1 p) b)

theorem Scanned.nil : Scanned pre s post [] (pre ++ (s ++ 0 :: post), []) :=
  ⟨⟨s, rfl, rfl⟩, rfl, fun p hp => by cases hp⟩

/-- A token is found and the scan goes on behind its zero. -/
theorem Scanned.cons {words : List Str} {r : Str × List Nat}
    (h : Scanned (pre ++ (a ++ (w ++ [0]))) t post words r) (hz : (0 : Ch) ∉ w)
    (htok : IsToken (a ++ (w ++ c :: t)) a w (c :: t))
    (hu : Balanced (a ++ (w ++ c :: t)) → quoteAfter none (a ++ (w ++ [c])) = none)
    (hc : isSep (quoteAfter none (a ++ w)) c = true) :
    Scanned pre (a ++ (w ++ c :: t)) post (w :: words) (r.1, (pre ++ a).length :: r.2) := by
  obtain ⟨⟨t', hlen, hbuf⟩, hwords, htokens⟩ := h
  have hr : r.1 = (pre ++ a) ++ (w ++ 0 :: (t' ++ 0 :: post)) := by rw [hbuf]; simp
  have hw : cstr r.1 (pre ++ a).length = w := by rw [hr]; exact cstr_append hz
  refine ⟨⟨a ++ (w ++ 0 :: t'), by simp [hlen], by rw [hbuf]; simp⟩, ?_, fun p hp => ?_⟩
  · rw [List.map_cons, hw, hwords]
  · rcases List.mem_cons.mp hp with rfl | hp
    · refine ⟨a, c :: t, by simp, by rw [hw], ?_, fun _ => by rw [hw]; exact htok⟩
      rw [hw, hr]
      exact getElem?_ended _ _ _
    · obtain ⟨a', b, hp, ht, hzero, htok⟩ := htokens p hp
      have hsplit : a ++ (w ++ c :: t) = (a ++ (w ++ [c])) ++ t := by simp
      refine ⟨(a ++ (w ++ [c])) ++ a', b, by rw [← hp]; simp; omega, ?_, hzero, fun hb => ?_⟩
      · rw [hsplit, List.append_assoc _ a', ← ht]
      · have hclosed := hu hb
        have hbt : Balanced t := by
          rwa [Balanced, hsplit, quoteAfter_append, hclosed] at hb
        rw [hsplit]
        exact (htok hbt).append hclosed (by simp) hc

/-- The last token found. -/
theorem Scanned.single {x s' : Str} (hlen : s'.length = (a ++ (w ++ b)).length)
    (hbuf : pre ++ (s' ++ 0 :: post) = (pre ++ a) ++ (w ++ 0 :: x)) (hz : (0 : Ch) ∉ w)
    (htok : Balanced (a ++ (w ++ b)) → IsToken (a ++ (w ++ b)) a w b) :
    Scanned pre (a ++ (w ++ b)) post [w] (pre ++ (s' ++ 0 :: post), [(pre ++ a).length]) := by
  have hw : cstr (pre ++ (s' ++ 0 :: post)) (pre ++ a).length = w := by
    rw [hbuf]
    exact cstr_append hz
  refine ⟨⟨s', hlen, rfl⟩, by rw [List.map_singleton, hw], fun p hp => ?_⟩
  obtain rfl := List.mem_singleton.mp hp
  refine ⟨a, b, by simp, by rw [hw], ?_, fun hb => by rw [hw]; exact htok hb⟩
  rw [hw, hbuf]
  exact getElem?_ended _ _ _

/-! ## The words of the list are those of the buffer -/

theorem isBlank_zero : isBlank 0 = false := by decide
theorem skip_blanks (hbl : ∀ c ∈ bl, isBlank c = true) (hc : isBlank c = false) :
    skip isBlank (pre ++ (bl ++ c :: s)) pre.length = (pre ++ bl).length := by
  rw [skip_append hbl hc, List.length_append]

/-- Where a word ends, what stands there, and what the zero makes of the buffer. -/
theorem scan_word {x : Str} (hw : ∀ c ∈ w, f c = true) (hc : f c = false)
    (hbuf : buf = (pre ++ a) ++ (w ++ c :: x)) :
    charAt buf (skip f buf (pre ++ a).length) = c ∧
      buf.set (skip f buf (pre ++ a).length) 0 = (pre ++ (a ++ (w ++ [0]))) ++ x ∧
      skip f buf (pre ++ a).length + 1 = (pre ++ (a ++ (w ++ [0]))).length := by
  subst hbuf
  rw [skip_append hw hc, ← List.length_append, ← List.append_assoc (pre ++ a), charAt_append,
    set_append]
  simp [Nat.add_assoc]

/-- The blanks at the front are skipped. -/
theorem tokenizeBuf_front (hbl : ∀ c ∈ bl, isBlank c = true) (hc : isBlank c = false) (h0 : c ≠ 0) :
    tokenizeBuf (max + 1) (pre ++ (bl ++ c :: s)) pre.length =
      if isQuote c then
        let e := skip (fun d => d ≠ 0 && d ≠ c) (pre ++ (bl ++ c :: s)) ((pre ++ bl).length + 1)
        let r := if charAt (pre ++ (bl ++ c :: s)) e ≠ 0 then
            tokenizeBuf max ((pre ++ (bl ++ c :: s)).set e 0) (e + 1)
          else tokenizeBuf max (pre ++ (bl ++ c :: s)) e
        (r.1, ((pre ++ bl).length + 1) :: r.2)
      else
        let e := skip (fun d => d ≠ 0 && isPlain d) (pre ++ (bl ++ c :: s)) (pre ++ bl).length
        let r :=
          if isQuote (charAt (pre ++ (bl ++ c :: s)) e) then
            tokenizeBuf max ((pre ++ (bl ++ c :: s)).set e 0) e
          else if charAt (pre ++ (bl ++ c :: s)) e ≠ 0 then
            tokenizeBuf max ((pre ++ (bl ++ c :: s)).set e 0) (e + 1)
          else tokenizeBuf max (pre ++ (bl ++ c :: s)) e
        (r.1, (pre ++ bl).length :: r.2) := by
  have hat : charAt (pre ++ (bl ++ c :: s)) (pre ++ bl).length = c := by
    rw [← List.append_assoc]
    exact charAt_append _ _ _
  -- the loop goes on, as the text does not end here
  have hfirst : charAt (pre ++ (bl ++ c :: s)) pre.length ≠ 0 := by
    cases bl with
    | nil => rwa [List.nil_append, charAt_append]
    | cons b bl =>
      rw [List.cons_append, charAt_append]
      rintro rfl
      exact absurd (hbl 0 (by simp)) (by decide)
  rw [tokenizeBuf, if_neg hfirst, skip_blanks hbl hc]
  dsimp only
  rw [hat, if_neg h0]

/-- Inside a quote all passes but its end. -/
theorem passes_quoted (hz : (0 : Ch) ∉ w) (hw : q ∉ w) :
    ∀ c ∈ w, (decide (c ≠ 0) && decide (c ≠ q)) = true := by
  intro c hc
  have h0 : c ≠ 0 := fun h => hz (h ▸ hc)
  have hcq : c ≠ q := fun h => hw (h ▸ hc)
  simp [h0, hcq]

theorem passes_plain (hz : (0 : Ch) ∉ w) (hw : ∀ c ∈ w, isPlain c = true) :
    ∀ c ∈ w, (decide (c ≠ 0) && isPlain c) = true := by
  intro c hc
  have h0 : c ≠ 0 := fun h => hz (h ▸ hc)
  simp [h0, hw c hc]

/-- A quote that is closed: the zero is written over its end. -/
theorem tokenizeBuf_closed {x : Str} (hbl : ∀ c ∈ bl, isBlank c = true) (hq : isQuote q = true)
    (hq0 : q ≠ 0) (hz : (0 : Ch) ∉ w) (hw : q ∉ w)
    (hbuf : buf = (pre ++ (bl ++ [q])) ++ (w ++ q :: x)) :
    tokenizeBuf (max + 1) buf pre.length =
      let r := tokenizeBuf max ((pre ++ ((bl ++ [q]) ++ (w ++ [0]))) ++ x)
        (pre ++ ((bl ++ [q]) ++ (w ++ [0]))).length
      (r.1, (pre ++ (bl ++ [q])).length :: r.2) := by
  obtain ⟨hat, hset, hnext⟩ := scan_word (passes_quoted hz hw) (by simp) hbuf
  have hlen : (pre ++ bl).length + 1 = (pre ++ (bl ++ [q])).length := by simp [Nat.add_assoc]
  have hb : buf = pre ++ (bl ++ q :: (w ++ q :: x)) := by rw [hbuf]; simp
  rw [hb, tokenizeBuf_front hbl (not_isBlank hq) hq0, if_pos hq, ← hb]
  dsimp only
  rw [hlen, hat, if_pos hq0, hset, hnext]

/-- A quote that is not closed. -/
theorem tokenizeBuf_unclosed {x : Str} (hbl : ∀ c ∈ bl, isBlank c = true) (hq : isQuote q = true)
    (hq0 : q ≠ 0) (hz : (0 : Ch) ∉ w) (hw : q ∉ w)
    (hbuf : buf = (pre ++ (bl ++ [q])) ++ (w ++ 0 :: x)) :
    tokenizeBuf (max + 1) buf pre.length = (buf, [(pre ++ (bl ++ [q])).length]) := by
  obtain ⟨hat, -, -⟩ := scan_word (passes_quoted hz hw) (by simp) hbuf
  have hlen : (pre ++ bl).length + 1 = (pre ++ (bl ++ [q])).length := by simp [Nat.add_assoc]
  have hb : buf = pre ++ (bl ++ q :: (w ++ 0 :: x)) := by rw [hbuf]; simp
  rw [hb, tokenizeBuf_front hbl (not_isBlank hq) hq0, if_pos hq, ← hb]
  dsimp only
  rw [hlen, hat, if_neg (by simp), tokenizeBuf_zero hat]

/-- A word of plain characters, and the character behind it. -/
theorem tokenizeBuf_plain {x : Str} (hbl : ∀ c ∈ bl, isBlank c = true) (hne : w ≠ [])
    (hz : (0 : Ch) ∉ w) (hw : ∀ c ∈ w, isPlain c = true) (hc : c = 0 ∨ isPlain c = false)
    (hbuf : buf = (pre ++ bl) ++ (w ++ c :: x)) :
    tokenizeBuf (max + 1) buf pre.length =
      let r :=
        if isQuote c = true then ((pre ++ (bl ++ (w ++ [0]))) ++ x, [])
        else if c ≠ 0 then tokenizeBuf max ((pre ++ (bl ++ (w ++ [0]))) ++ x)
          (pre ++ (bl ++ (w ++ [0]))).length
        else (buf, [])
      (r.1, (pre ++ bl).length :: r.2) := by
  obtain ⟨hat, hset, hnext⟩ := scan_word (passes_plain hz hw)
    (by rcases hc with rfl | hc <;> simp [*]) hbuf
  obtain ⟨d, w, rfl⟩ := List.exists_cons_of_ne_nil hne
  have hd := hw d (by simp)
  simp only [isPlain, Bool.and_eq_true, Bool.not_eq_true'] at hd
  have hb : buf = pre ++ (bl ++ d :: (w ++ c :: x)) := by rw [hbuf]; simp
  have hd0 : d ≠ 0 := fun h => hz (by simp [h])
  rw [hb, tokenizeBuf_front hbl hd.1 hd0, if_neg (by simp [hd.2]), ← hb]
  dsimp only
  rw [hat, hset, hnext]
  by_cases hq : isQuote c = true
  · -- the scan goes on at the zero it has written
    have hzero : charAt ((pre ++ (bl ++ ((d :: w) ++ [0]))) ++ x)
        (skip (fun d => decide (d ≠ 0) && isPlain d) buf (pre ++ bl).length) = 0 := by
      have hpos : skip (fun d => decide (d ≠ 0) && isPlain d) buf (pre ++ bl).length =
          (pre ++ (bl ++ (d :: w))).length := by
        have := hnext
        simp only [List.length_append, List.length_cons, List.length_nil] at this ⊢
        omega
      have hsplit : (pre ++ (bl ++ ((d :: w) ++ [0]))) ++ x = (pre ++ (bl ++ (d :: w))) ++ 0 :: x := by
        simp
      rw [hpos, hsplit, charAt_append]
    rw [if_pos hq, if_pos hq, tokenizeBuf_zero hzero]
  · rw [if_neg hq, if_neg hq]
    by_cases h0 : c = 0
    · subst h0
      rw [if_neg (by simp), if_neg (by simp), tokenizeBuf_zero hat]
    · rw [if_pos h0, if_pos h0]

theorem tokenize_blanks (h : ∀ c ∈ s, isBlank c = true) : tokenize max s = [] := by
  cases max with
  | zero => rfl
  | succ max =>
    have hd : s.dropWhile isBlank = [] := List.dropWhile_eq_nil_iff.mpr h
    rw [tokenize, hd]

theorem tokenize_front (hbl : ∀ c ∈ bl, isBlank c = true) (hc : isBlank c = false) :
    tokenize (max + 1) (bl ++ c :: s) =
      if isQuote c then s.takeWhile (· ≠ c) :: tokenize max (s.dropWhile (· ≠ c)).tail
      else (c :: s).takeWhile isPlain ::
        if ((c :: s).dropWhile isPlain).head?.any isQuote then []
        else tokenize max ((c :: s).dropWhile isPlain).tail := by
  have hd : (bl ++ c :: s).dropWhile isBlank = c :: s := by
    rw [List.dropWhile_append_of_pos hbl, List.dropWhile_cons_of_neg (by simp [hc])]
  rw [tokenize, hd]
  rfl

theorem tokenize_closed (hbl : ∀ c ∈ bl, isBlank c = true) (hq : isQuote q = true) (hw : q ∉ w) :
    tokenize (max + 1) (bl ++ q :: (w ++ q :: t)) = w :: tokenize max t := by
  rw [tokenize_front hbl (not_isBlank hq), if_pos hq, takeWhile_quote hw, dropWhile_quote hw,
    List.tail_cons]

theorem tokenize_unclosed (hbl : ∀ c ∈ bl, isBlank c = true) (hq : isQuote q = true)
    (hw : q ∉ w) : tokenize (max + 1) (bl ++ q :: w) = [w] := by
  rw [tokenize_front hbl (not_isBlank hq), if_pos hq,
    List.takeWhile_eq_self_iff.mpr (ne_of_mem_word hw),
    List.dropWhile_eq_nil_iff.mpr (ne_of_mem_word hw), List.tail_nil, tokenize_blanks (by simp)]

/-- A word of plain characters, and what it does not go on with. -/
theorem tokenize_plain (hbl : ∀ c ∈ bl, isBlank c = true) (hne : w ≠ [])
    (hw : ∀ c ∈ w, isPlain c = true) (ht : ∀ c, t.head? = some c → isPlain c = false) :
    tokenize (max + 1) (bl ++ (w ++ t)) =
      w :: if t.head?.any isQuote then [] else tokenize max t.tail := by
  obtain ⟨c, w, rfl⟩ := List.exists_cons_of_ne_nil hne
  have hc := hw c (by simp)
  simp only [isPlain, Bool.and_eq_true, Bool.not_eq_true'] at hc
  have htake : t.takeWhile isPlain = [] ∧ t.dropWhile isPlain = t := by
    cases t with
    | nil => exact ⟨rfl, rfl⟩
    | cons d t =>
      have hd : ¬ isPlain d = true := by simp [ht d rfl]
      exact ⟨List.takeWhile_cons_of_neg hd, List.dropWhile_cons_of_neg hd⟩
  have hsplit : c :: (w ++ t) = (c :: w) ++ t := rfl
  rw [List.cons_append, tokenize_front hbl hc.1, if_neg (by simp [hc.2]), hsplit,
    List.takeWhile_append_of_pos hw, List.dropWhile_append_of_pos hw, htake.1, htake.2,
    List.append_nil]

/-- **The words in the buffer are those of `tokenize`.** -/
theorem tokenizeBuf_spec (post : Str) : ∀ (max : Nat) (pre s : Str), (0 : Ch) ∉ s →
    Scanned pre s post (tokenize max s) (tokenizeBuf max (pre ++ (s ++ 0 :: post)) pre.length)
  | 0, pre, s, _ => Scanned.nil
  | max + 1, pre, s, hz => by
    cases front s with
    | blanks h =>
      have hstop : tokenizeBuf (max + 1) (pre ++ (s ++ 0 :: post)) pre.length =
          (pre ++ (s ++ 0 :: post), []) := by
        by_cases hfirst : charAt (pre ++ (s ++ 0 :: post)) pre.length = 0
        · exact tokenizeBuf_zero hfirst
        · have hat : charAt (pre ++ (s ++ 0 :: post)) (pre ++ s).length = 0 := by
            rw [← List.append_assoc]
            exact charAt_append _ _ _
          rw [tokenizeBuf, if_neg hfirst, skip_blanks h isBlank_zero]
          dsimp only
          rw [if_pos hat]
      rw [hstop, tokenize_blanks h]
      exact Scanned.nil
    | @quoted bl w t q hbl hq hw hs =>
      subst hs
      have hzw : (0 : Ch) ∉ w := fun h => hz (by simp [h])
      have hzq : q ≠ 0 := fun h => hz (by simp [h])
      have ih := tokenizeBuf_spec post max (pre ++ ((bl ++ [q]) ++ (w ++ [0]))) t
        fun h => hz (by simp [h])
      have hs : bl ++ q :: (w ++ q :: t) = (bl ++ [q]) ++ (w ++ q :: t) := by simp
      rw [tokenizeBuf_closed hbl hq hzq hzw hw (x := t ++ 0 :: post) (by simp),
        tokenize_closed hbl hq hw, hs]
      have hopen := quoteAfter_open hbl hq hw
      have hclosed := quoteAfter_quoted hbl hq hw
      refine ih.cons hzw ?_ (fun _ => ?_) ?_
      · rw [← hs]
        exact isToken_quoted hbl hq hw
      · have hs' : (bl ++ [q]) ++ (w ++ [q]) = bl ++ q :: (w ++ [q]) := by simp
        rw [hs', hclosed]
      · rw [List.append_assoc, List.singleton_append, hopen]
        simp [isSep]
    | @unclosed bl w q hbl hq hw hs =>
      subst hs
      have hzw : (0 : Ch) ∉ w := fun h => hz (by simp [h])
      have hzq : q ≠ 0 := fun h => hz (by simp [h])
      have hs : bl ++ q :: w = (bl ++ [q]) ++ (w ++ []) := by simp
      rw [tokenizeBuf_unclosed hbl hq hzq hzw hw (x := post) (by simp),
        tokenize_unclosed hbl hq hw, hs]
      refine Scanned.single rfl (x := post) (by simp) hzw fun hb => ?_
      -- the quote is still open at the end
      rw [← hs, Balanced, quoteAfter_open hbl hq hw] at hb
      cases hb
    | @last bl w hbl hne hw hs =>
      subst hs
      have hzw : (0 : Ch) ∉ w := fun h => hz (by simp [h])
      have hnil : ∀ c, ([] : Str).head? = some c → isPlain c = false := fun c hc => by cases hc
      have hs : bl ++ w = bl ++ (w ++ []) := by simp
      have hword : tokenize (max + 1) (bl ++ (w ++ [])) = [w] := by
        rw [tokenize_plain hbl hne hw hnil, if_neg (by simp), List.tail_nil,
          tokenize_blanks (by simp)]
      rw [tokenizeBuf_plain hbl hne hzw hw (Or.inl rfl) (x := post) (by simp), hs, hword]
      dsimp only
      rw [if_neg (by decide), if_neg (by simp)]
      exact Scanned.single rfl (x := post) (by simp) hzw fun _ => isToken_plain hbl hne hw hnil
    | @spaced bl w t c hbl hne hw hc hs =>
      subst hs
      have hzw : (0 : Ch) ∉ w := fun h => hz (by simp [h])
      have hzc : c ≠ 0 := fun h => hz (by simp [h])
      have hcq := isQuote_of_isBlank hc
      have hcp := not_plain_head (t := t) (c := c) (by simp [isPlain, hc])
      have ih := tokenizeBuf_spec post max (pre ++ (bl ++ (w ++ [0]))) t fun h => hz (by simp [h])
      have hnone : ∀ d ∈ bl ++ w, isQuote d = false := fun d hd => by
        rcases List.mem_append.mp hd with hd | hd
        · exact isQuote_of_isBlank (hbl d hd)
        · exact isQuote_of_isPlain (hw d hd)
      rw [tokenizeBuf_plain hbl hne hzw hw (Or.inr (hcp c rfl)) (x := t ++ 0 :: post) (by simp),
        tokenize_plain hbl hne hw hcp]
      dsimp only
      rw [if_neg (by simp [hcq]), if_pos hzc, if_neg (by simp [hcq]), List.tail_cons]
      refine ih.cons hzw (isToken_plain hbl hne hw hcp) (fun _ => ?_) ?_
      · rw [← List.append_assoc]
        refine quoteAfter_of_no_quote fun d hd => ?_
        rcases List.mem_append.mp hd with hd | hd
        · exact hnone d hd
        · rw [List.mem_singleton.mp hd, hcq]
      · rw [quoteAfter_of_no_quote hnone]
        simp [isSep, hc]
    | @adjacent bl w t c hbl hne hw hc hs =>
      subst hs
      have hzw : (0 : Ch) ∉ w := fun h => hz (by simp [h])
      have hcp := not_plain_head (t := t) (c := c) (by simp [isPlain, hc])
      rw [tokenizeBuf_plain hbl hne hzw hw (Or.inr (hcp c rfl)) (x := t ++ 0 :: post) (by simp),
        tokenize_plain hbl hne hw hcp]
      dsimp only
      rw [if_pos hc, if_pos (by simpa using hc)]
      have hs' : (pre ++ (bl ++ (w ++ [0]))) ++ (t ++ 0 :: post) =
          pre ++ ((bl ++ (w ++ 0 :: t)) ++ 0 :: post) := by simp
      rw [hs']
      exact Scanned.single (by simp) (x := t ++ 0 :: post) (by simp) hzw
        fun _ => isToken_plain hbl hne hw hcp

/-! ## What is lost -/

theorem bare_append (q : Option Ch) : ∀ s t : Str,
    bare q (s ++ t) = bare q s ++ bare (quoteAfter q s) t
  | [], t => by cases t <;> rfl
  | c :: s, t => by
    have ih := fun q' => bare_append q' s t
    rw [List.cons_append, bare, bare]
    split
    · exact ih _
    · rw [ih]
      rfl

theorem bare_blanks : ∀ {bl : Str}, (∀ c ∈ bl, isBlank c = true) → bare none bl = []
  | [], _ => rfl
  | c :: bl, h => by
    have hc := h c (by simp)
    rw [bare, if_pos (by simp [isSep, hc])]
    rw [show quoteStep none c = none by simp [quoteStep, isQuote_of_isBlank hc]]
    exact bare_blanks fun d hd => h d (by simp [hd])

theorem bare_plain : ∀ {w : Str}, (∀ c ∈ w, isPlain c = true) → bare none w = w
  | [], _ => rfl
  | c :: w, h => by
    have hc := h c (by simp)
    simp only [isPlain, Bool.and_eq_true, Bool.not_eq_true'] at hc
    rw [bare, if_neg (by simp [isSep, hc.1, hc.2]),
      show quoteStep none c = none by simp [quoteStep, hc.2],
      bare_plain fun d hd => h d (by simp [hd])]

theorem bare_inside : ∀ {w : Str}, q ∉ w → bare (some q) w = w
  | [], _ => rfl
  | c :: w, h => by
    obtain ⟨hc, hw⟩ := not_or.mp (mt List.mem_cons.mpr h)
    rw [bare, if_neg (by simp [isSep, Ne.symm hc]),
      show quoteStep (some q) c = some q from if_neg (Ne.symm hc), bare_inside hw]

theorem bare_front (hbl : ∀ c ∈ bl, isBlank c = true) : bare none (bl ++ s) = bare none s := by
  rw [bare_append, bare_blanks hbl, quoteAfter_blanks hbl, List.nil_append]

theorem bare_quoted (hbl : ∀ c ∈ bl, isBlank c = true) (hq : isQuote q = true) (hw : q ∉ w) :
    bare none (bl ++ q :: (w ++ q :: t)) = w ++ bare none t := by
  rw [bare_front hbl, bare, if_pos (by simp [isSep, hq]), show quoteStep none q = some q from if_pos hq,
    bare_append, bare_inside hw, quoteAfter_inside hw, bare, if_pos (by simp [isSep]),
    show quoteStep (some q) q = none from if_pos rfl]

theorem bare_word (hbl : ∀ c ∈ bl, isBlank c = true) (hw : ∀ c ∈ w, isPlain c = true) :
    bare none (bl ++ (w ++ t)) = w ++ bare none t := by
  rw [bare_front hbl, bare_append, bare_plain hw, quoteAfter_plain hw]

theorem wordCount_blanks : ∀ {bl : Str}, (∀ c ∈ bl, isBlank c = true) →
    wordCount none false (bl ++ s) = wordCount none false s
  | [], _ => rfl
  | c :: bl, h => by
    have hc := h c (by simp)
    rw [List.cons_append, wordCount, if_neg (by simp [isQuote_of_isBlank hc]), if_pos hc]
    exact wordCount_blanks fun d hd => h d (by simp [hd])

theorem wordCount_inside : ∀ {w : Str} {b : Bool}, q ∉ w →
    wordCount (some q) b (w ++ q :: s) = wordCount none false s
  | [], b, _ => by
    rw [List.nil_append, wordCount, show quoteStep (some q) q = none from if_pos rfl]
  | c :: w, b, h => by
    obtain ⟨hc, hw⟩ := not_or.mp (mt List.mem_cons.mpr h)
    rw [List.cons_append, wordCount, show quoteStep (some q) c = some q from if_neg (Ne.symm hc)]
    exact wordCount_inside hw

theorem wordCount_quoted (hbl : ∀ c ∈ bl, isBlank c = true) (hq : isQuote q = true)
    (hw : q ∉ w) :
    wordCount none false (bl ++ q :: (w ++ q :: t)) = wordCount none false t + 1 := by
  rw [wordCount_blanks hbl, wordCount, if_pos hq, wordCount_inside hw]

/-- A word of plain characters is counted at its first one. -/
theorem wordCount_plain : ∀ {w : Str} {b : Bool}, (∀ c ∈ w, isPlain c = true) → w ≠ [] →
    wordCount none b (w ++ s) = wordCount none true s + if b then 0 else 1
  | [], _, _, h => absurd rfl h
  | c :: w, b, h, _ => by
    have hc := h c (by simp)
    simp only [isPlain, Bool.and_eq_true, Bool.not_eq_true'] at hc
    rw [List.cons_append, wordCount, if_neg (by simp [hc.2]), if_neg (by simp [hc.1])]
    congr 1
    by_cases hw : w = []
    · rw [hw, List.nil_append]
    · rw [wordCount_plain (fun d hd => h d (by simp [hd])) hw, if_pos rfl, Nat.add_zero]

theorem behindWord_blanks : ∀ {bl : Str}, (∀ c ∈ bl, isBlank c = true) →
    behindWord none false (bl ++ s) = behindWord none false s
  | [], _ => rfl
  | c :: bl, h => by
    have hc := h c (by simp)
    rw [List.cons_append, behindWord, if_neg (by simp [isQuote_of_isBlank hc]), hc]
    exact behindWord_blanks fun d hd => h d (by simp [hd])

theorem behindWord_inside : ∀ {w : Str} {b : Bool}, q ∉ w →
    behindWord (some q) b (w ++ q :: s) = behindWord none false s
  | [], b, _ => by
    rw [List.nil_append, behindWord, show quoteStep (some q) q = none from if_pos rfl]
  | c :: w, b, h => by
    obtain ⟨hc, hw⟩ := not_or.mp (mt List.mem_cons.mpr h)
    rw [List.cons_append, behindWord, show quoteStep (some q) c = some q from if_neg (Ne.symm hc)]
    exact behindWord_inside hw

theorem behindWord_quoted (hbl : ∀ c ∈ bl, isBlank c = true) (hq : isQuote q = true)
    (hw : q ∉ w) :
    behindWord none false (bl ++ q :: (w ++ q :: t)) = behindWord none false t := by
  rw [behindWord_blanks hbl, behindWord, if_pos hq, if_neg (by simp), behindWord_inside hw]

theorem behindWord_plain : ∀ {w : Str} {b : Bool}, (∀ c ∈ w, isPlain c = true) → w ≠ [] →
    behindWord none b (w ++ s) = behindWord none true s
  | [], _, _, h => absurd rfl h
  | c :: w, b, h, _ => by
    have hc := h c (by simp)
    simp only [isPlain, Bool.and_eq_true, Bool.not_eq_true'] at hc
    rw [List.cons_append, behindWord, if_neg (by simp [hc.2]), hc.1, Bool.not_false]
    by_cases hw : w = []
    · rw [hw, List.nil_append]
    · exact behindWord_plain (fun d hd => h d (by simp [hd])) hw

/-- **What the tokens lack is the text behind the first quote that follows a plain character.** -/
theorem lost_text : ∀ (max : Nat) (s : Str), Balanced s → wordCount none false s < max →
    (tokenize max s).flatten ++ bare none (behindWord none false s) = bare none s
  | 0, s, _, hm => by omega
  | max + 1, s, hb, hm => by
    cases front s with
    | blanks h =>
      have hlost : behindWord none false s = [] := by
        have := behindWord_blanks (s := []) h
        simpa [behindWord] using this
      rw [tokenize_blanks h, hlost, bare_blanks h]
      rfl
    | @quoted bl w t q hbl hq hw hs =>
      subst hs
      have hbt : Balanced t := by
        have hsplit : bl ++ q :: (w ++ q :: t) = (bl ++ q :: (w ++ [q])) ++ t := by simp
        rwa [Balanced, hsplit, quoteAfter_append, quoteAfter_quoted hbl hq hw] at hb
      rw [wordCount_quoted hbl hq hw] at hm
      rw [tokenize_closed hbl hq hw, behindWord_quoted hbl hq hw, bare_quoted hbl hq hw,
        List.flatten_cons, List.append_assoc, lost_text max t hbt (by omega)]
    -- the text ends outside quotes
    | @unclosed bl w q hbl hq hw hs =>
      rw [hs, Balanced, quoteAfter_open hbl hq hw] at hb
      cases hb
    | @last bl w hbl hne hw hs =>
      subst hs
      have hs : bl ++ w = bl ++ (w ++ []) := by simp
      have hnil : ∀ c, ([] : Str).head? = some c → isPlain c = false := fun c hc => by cases hc
      rw [hs, tokenize_plain hbl hne hw hnil, bare_word hbl hw, behindWord_blanks hbl,
        behindWord_plain hw hne, if_neg (by simp), List.tail_nil, tokenize_blanks (by simp)]
      simp [behindWord, bare]
    | @spaced bl w t c hbl hne hw hc hs =>
      subst hs
      have hcq := isQuote_of_isBlank hc
      have hcp := not_plain_head (t := t) (c := c) (by simp [isPlain, hc])
      have hbare : bare none (c :: t) = bare none t := by
        have hblank : ∀ d ∈ [c], isBlank d = true := by simpa using hc
        exact bare_front hblank
      have hbt : Balanced t := by
        rw [Balanced, quoteAfter_append, quoteAfter_blanks hbl, quoteAfter_append,
          quoteAfter_plain hw] at hb
        rw [quoteAfter, List.foldl_cons, show quoteStep none c = none by simp [quoteStep, hcq]] at hb
        exact hb
      have hcount : wordCount none true (c :: t) = wordCount none false t := by
        rw [wordCount, if_neg (by simp [hcq]), if_pos hc]
      have hbehind : behindWord none true (c :: t) = behindWord none false t := by
        rw [behindWord, if_neg (by simp [hcq]), hc, Bool.not_true]
      rw [wordCount_blanks hbl, wordCount_plain hw hne, hcount, if_neg (by simp)] at hm
      rw [tokenize_plain hbl hne hw hcp, bare_word hbl hw, behindWord_blanks hbl,
        behindWord_plain hw hne, hbehind, hbare, if_neg (by simp [hcq]), List.tail_cons,
        List.flatten_cons, List.append_assoc, lost_text max t hbt (by omega)]
    -- the tokenizer stops at the quote, and all that follows is lost
    | @adjacent bl w t c hbl hne hw hc hs =>
      subst hs
      have hcp := not_plain_head (t := t) (c := c) (by simp [isPlain, hc])
      have hbehind : behindWord none true (c :: t) = c :: t := by
        rw [behindWord, if_pos hc, if_pos rfl]
      rw [tokenize_plain hbl hne hw hcp, bare_word hbl hw, behindWord_blanks hbl,
        behindWord_plain hw hne, hbehind, if_pos (by simpa using hc)]
      simp

/-- **All text is returned if and only if there is none behind a quote that follows a plain
character.** -/
theorem drops_nothing (hz : (0 : Ch) ∉ s) (hb : Balanced s) (hm : wordCount none false s < max) :
    DropsNothing max s post ↔ bare none (behindWord none false s) = [] := by
  have hscan := tokenizeBuf_spec post max [] s hz
  rw [List.nil_append, List.length_nil] at hscan
  have htext : ((tokenizeBuf max (s ++ 0 :: post) 0).2.map
      (cstr (tokenizeBuf max (s ++ 0 :: post) 0).1)).flatten = bare none s ↔
      bare none (behindWord none false s) = [] := by
    rw [hscan.words, ← lost_text max s hb hm]
    simp
  constructor
  · intro h
    exact htext.mp h.text
  · intro h
    refine ⟨htext.mpr h, fun p hp => ?_, fun p hp => ?_⟩
    · obtain ⟨a, b, hpa, -, -, htok⟩ := hscan.token p hp
      exact ⟨a, b, by simpa using hpa, htok hb⟩
    · obtain ⟨a, b, hpa, hs, hzero, -⟩ := hscan.token p hp
      refine ⟨_, ?_, rfl, hzero⟩
      have hlen := congrArg List.length hs
      simp only [List.length_append, List.length_nil] at hlen hpa
      omega

/-- `x 'y'`: a blank stands before the quote. -/
theorem drops_nothing_spaced :
    DropsNothing 16 [0x78, blank, squote, 0x79, squote] [] :=
  (drops_nothing (by decide) (by decide) (by decide)).mpr (by decide)

/-- `x'y' z` is the word `x`. -/
theorem drops_quoted :
    let s : Str := [0x78, squote, 0x79, squote, blank, 0x7a]
    (0 : Ch) ∉ s ∧ Balanced s ∧ wordCount none false s < 16 ∧
      (tokenizeBuf 16 (s ++ [0]) 0).2.map (cstr (tokenizeBuf 16 (s ++ [0]) 0).1) = [[0x78]] ∧
      ¬ DropsNothing 16 s [] := by
  refine ⟨by decide, by decide, by decide, by decide +kernel, fun h => ?_⟩
  exact absurd h.text (by decide +kernel)

end Ittrium.Shell
