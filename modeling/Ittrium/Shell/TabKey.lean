import Ittrium.Shell.Completion

/-!
# What the tab key does to a word

The token at the cursor and the name that replaces it are copied into buffers that may be shorter
than the line, and what is left is used as if it were the whole.

* `Line.Shows` — the text and the cursor of a line
* `shellReplaceToken_spec` — the token is replaced or the line stays
* `shellTokenAt_spec` — the token is what lies around the cursor without blanks
* `word_completed_iff` — **a command is completed if and only if nothing is cut**
-/

namespace Ittrium.Shell

open Infra

variable {N : Names} {l l' : Line} {s pre tok post new : Str} {pos : Int}

/-! ## The line -/

def Line.text (l : Line) : Str := l.buf.take l.len.toNat

/-- The text lies in the buffer, with room for a zero. -/
structure Line.Bounded (l : Line) : Prop where
  nonneg : 0 ≤ l.len
  room : l.len < l.buf.length

/-- The line has this text and this cursor, and ends with a zero. -/
structure Line.Shows (l : Line) (s : Str) (cursor : Nat) : Prop where
  terminated : Terminated l.buf s 0
  len : l.len = s.length
  pos : l.pos = cursor
  inside : cursor ≤ s.length

/-- There is room for a line. -/
def Line.Fits (l : Line) (pre new post : Str) : Prop :=
  pre.length + new.length + post.length < l.buf.length

instance (l : Line) (pre new post : Str) : Decidable (l.Fits pre new post) :=
  inferInstanceAs (Decidable (_ < _))

theorem Line.Bounded.length_text (h : l.Bounded) : (l.text.length : Int) = l.len := by
  have := h.nonneg
  have := h.room
  rw [Line.text, List.length_take]
  omega

theorem Line.Shows.bounded {cursor : Nat} (h : l.Shows s cursor) : l.Bounded := by
  have := h.terminated.length_lt
  have := h.len
  exact ⟨by omega, by omega⟩

theorem Line.Shows.text {cursor : Nat} (h : l.Shows s cursor) : l.text = s := by
  have hlen : l.len.toNat = s.length := by
    have := h.len
    omega
  rw [Line.text, hlen, h.terminated.take]

/-- **The token is replaced, or nothing is done.** -/
theorem shellReplaceToken_spec (h : l.Bounded) (ht : l.text = pre ++ (tok ++ post)) (new : Str) :
    ∃ l', shellReplaceToken l pre.length (pre.length + tok.length) new = some l' ∧
      l'.buf.length = l.buf.length ∧
      if l.Fits pre new post then
        l'.Shows (pre ++ (new ++ post)) (pre.length + new.length)
      else l' = l := by
  have hlen : l.len = pre.length + (tok.length + post.length) := by
    rw [← h.length_text, ht]
    simp only [List.length_append, Int.natCast_add]
  have hnlen : l.len - (((pre.length + tok.length : Nat) : Int) - pre.length) + new.length =
      pre.length + new.length + post.length := by
    omega
  unfold shellReplaceToken
  simp only [hnlen]
  by_cases hfit : l.Fits pre new post
  · have hroom := hfit
    rw [Line.Fits] at hroom
    have hin : pre ++ (tok ++ post) <+: l.buf := ht ▸ List.take_prefix _ _
    -- what follows is moved, the new token is copied in, and the line is terminated
    obtain ⟨b, b', b'', hmove, hcopy, hzero, hterm, hb⟩ := splice_spec 0 hin hroom
    have hrest : l.len - ((pre.length + tok.length : Nat) : Int) = post.length := by omega
    rw [if_neg (by omega), hrest]
    push_cast at hmove ⊢
    rw [hmove, Option.bind_eq_bind, Option.bind_some, hcopy, Option.bind_some, hzero]
    refine ⟨_, rfl, hb, ?_⟩
    rw [if_pos hfit]
    refine ⟨hterm, ?_, ?_, ?_⟩
    · simp only [List.length_append, Int.natCast_add]
      omega
    · simp only [Int.natCast_add]
    · simp only [List.length_append]
      omega
  · have hroom := hfit
    rw [Line.Fits] at hroom
    rw [if_pos (by omega)]
    exact ⟨l, rfl, rfl, by rw [if_neg hfit]⟩

/-! ## The token -/

/-- Where the cursor is taken to be. -/
def cursorIn (s : Str) (pos : Int) : Nat := (min (max pos 0) s.length).toNat

/-- `tok` is the token at the cursor: what lies around it without blanks. -/
structure TokenAt (s : Str) (pos : Int) (pre tok post : Str) : Prop where
  eq : s = pre ++ (tok ++ post)
  word : ∀ c ∈ tok, isBlank c = false
  front : ∀ c, pre.getLast? = some c → isBlank c = true
  back : ∀ c, post.head? = some c → isBlank c = true
  start : pre.length ≤ cursorIn s pos
  stop : cursorIn s pos ≤ pre.length + tok.length

theorem TokenAt.split (h : TokenAt s pos pre tok post) : ∃ a b, tok = a ++ b ∧
    cursorIn s pos = pre.length + a.length := by
  refine ⟨tok.take (cursorIn s pos - pre.length), tok.drop (cursorIn s pos - pre.length),
    (List.take_append_drop _ _).symm, ?_⟩
  have := h.start
  have := h.stop
  rw [List.length_take]
  omega

theorem shellTokenAt_spec (hl : l.Bounded) (h : TokenAt l.text l.pos pre tok post) :
    shellTokenAt l.buf l.len l.pos = (pre.length, pre.length + tok.length) := by
  obtain ⟨a, b, rfl, hcur⟩ := h.split
  have hp : (min (max l.pos 0) l.len).toNat = pre.length + a.length := by
    rw [← hcur, cursorIn, hl.length_text]
  have heq : l.text = (pre ++ a) ++ (b ++ post) := by
    rw [h.eq]
    simp only [List.append_assoc]
  have hlen := hl.length_text
  have hle : pre.length + a.length ≤ l.len.toNat := by
    have := congrArg List.length heq
    simp only [List.length_append] at this
    omega
  have hfront : l.buf.take (pre.length + a.length) = pre ++ a := by
    have : l.buf.take (pre.length + a.length) = l.text.take (pre.length + a.length) := by
      rw [Line.text, List.take_take, Nat.min_eq_left hle]
    rw [this, heq, List.take_left' (by simp)]
  have hback : (l.buf.take l.len.toNat).drop (pre.length + a.length) = b ++ post := by
    have : l.buf.take l.len.toNat = (pre ++ a) ++ (b ++ post) := heq
    rw [this, List.drop_left' (by simp)]
  -- the code goes left and right from the cursor as far as there are no blanks
  have hword : ∀ c ∈ a ++ b, (!isBlank c) = true := fun c hc => by simp [h.word c hc]
  have hleft : (pre ++ a).reverse.takeWhile (fun c => !isBlank c) = a.reverse := by
    rw [List.reverse_append]
    refine takeWhile_stop (fun c hc => hword c (by simp_all)) fun c hc => ?_
    rw [List.head?_reverse] at hc
    simp [h.front c hc]
  have hright : (b ++ post).takeWhile (fun c => !isBlank c) = b :=
    takeWhile_stop (fun c hc => hword c (by simp_all)) fun c hc => by simp [h.back c hc]
  unfold shellTokenAt
  simp only [hp, hfront, hback, hleft, hright, List.length_reverse, List.length_append]
  rw [Nat.add_sub_cancel, Nat.add_assoc]

/-- There is a token at every cursor. -/
theorem exists_tokenAt (s : Str) (pos : Int) : ∃ pre tok post, TokenAt s pos pre tok post := by
  obtain ⟨a, t, hst, hs⟩ : ∃ a t, s = a ++ t ∧ a.length = cursorIn s pos :=
    ⟨s.take (cursorIn s pos), s.drop (cursorIn s pos), (List.take_append_drop _ _).symm,
      by rw [List.length_take, cursorIn]; omega⟩
  have hword : ∀ {u : Str}, ∀ c ∈ u.takeWhile fun c => !isBlank c, isBlank c = false := by
    intro u c hc
    simpa using List.mem_takeWhile_imp hc
  have hstop : ∀ {u : Str} c, (u.dropWhile fun c => !isBlank c).head? = some c →
      isBlank c = true := by
    intro u c hc
    have := List.head?_dropWhile_not (fun c => !isBlank c) u
    rw [hc] at this
    simpa using this
  -- what lies before the cursor, up to the last blank in it
  have hsplit : a = (a.reverse.dropWhile fun c => !isBlank c).reverse ++
      (a.reverse.takeWhile fun c => !isBlank c).reverse := by
    rw [← List.reverse_append, List.takeWhile_append_dropWhile, List.reverse_reverse]
  have hslen := congrArg List.length hsplit
  refine ⟨(a.reverse.dropWhile fun c => !isBlank c).reverse,
    (a.reverse.takeWhile fun c => !isBlank c).reverse ++ t.takeWhile (fun c => !isBlank c),
    t.dropWhile (fun c => !isBlank c), ?_, ?_, ?_, fun c hc => hstop c hc, ?_, ?_⟩
  · rw [List.append_assoc, List.takeWhile_append_dropWhile, ← List.append_assoc, ← hsplit, hst]
  · intro c hc
    rcases List.mem_append.mp hc with hc | hc
    · exact hword c (List.mem_reverse.mp hc)
    · exact hword c hc
  · intro c hc
    rw [List.getLast?_reverse] at hc
    exact hstop c hc
  · simp only [List.length_append] at hslen
    omega
  · simp only [List.length_append] at hslen ⊢
    omega

/-! ## What becomes of the token -/

/-- The call leaves the buffer's size and what is around the token. -/
def Rewrites (l : Line) (pre tok' post : Str) (n : Nat) (r : Option (Line × Nat)) : Prop :=
  ∃ l', r = some (l', n) ∧ l'.buf.length = l.buf.length ∧ l'.Bounded ∧
    l'.text = pre ++ (tok' ++ post)

/-- The new token if there is room, the old one otherwise. -/
def put (l : Line) (pre tok post new : Str) : Str := if l.Fits pre new post then new else tok

theorem put_of_fits (h : l.Fits pre new post) : put l pre tok post new = new := if_pos h

theorem put_of_not_fits (h : ¬ l.Fits pre new post) : put l pre tok post new = tok := if_neg h

theorem rewrites_same (h : l.Bounded) (ht : l.text = pre ++ (tok ++ post)) (n : Nat) :
    Rewrites l pre tok post n (some (l, n)) := ⟨l, rfl, rfl, h, ht⟩

theorem rewrites_replace (h : l.Bounded) (ht : l.text = pre ++ (tok ++ post)) (new : Str)
    (n : Nat) :
    Rewrites l pre (put l pre tok post new) post n
      ((shellReplaceToken l pre.length (pre.length + tok.length) new).map fun l => (l, n)) := by
  obtain ⟨l', hr, hsize, hl'⟩ := shellReplaceToken_spec h ht new
  refine ⟨l', by rw [hr]; rfl, hsize, ?_⟩
  by_cases hfit : l.Fits pre new post
  · rw [if_pos hfit] at hl'
    rw [put_of_fits hfit]
    exact ⟨hl'.bounded, hl'.text⟩
  · rw [if_neg hfit] at hl'
    rw [put_of_not_fits hfit, hl']
    exact ⟨h, ht⟩

/-- What is copied from the token. -/
theorem copied_token (ht : l.text = pre ++ (tok ++ post)) (hz : (0 : Ch) ∉ tok) (k : Nat) :
    copied l.buf pre.length (min (pre.length + tok.length - pre.length) k) = tok.take k := by
  obtain ⟨t, hbuf⟩ : l.text <+: l.buf := List.take_prefix _ _
  have hdrop : l.buf.drop pre.length = tok ++ (post ++ t) := by
    rw [← hbuf, ht]
    simp only [List.append_assoc, List.drop_left]
  have htake : (tok ++ (post ++ t)).take (min tok.length k) = tok.take k := by
    rw [List.take_append_of_le_length (Nat.min_le_left _ _), Nat.min_comm, ← List.take_take,
      List.take_length]
  rw [Nat.add_sub_cancel_left, copied, hdrop, htake, List.takeWhile_eq_self_iff]
  intro c hc
  have hne : c ≠ 0 := fun h0 => hz (h0 ▸ List.mem_of_mem_take hc)
  simp [hne]

/-! ## Commands -/

/-- The names that begin with what is typed. -/
def matching (names : List Str) (typed : Str) : List Str :=
  names.filter fun name => typed.isPrefixOf name

theorem filter_sameFront {names : List Str} {k : Nat} (hk : k = s.length) :
    names.filter (fun name => sameFront k name s) = matching names s := by
  subst hk
  refine List.filter_congr fun name _ => ?_
  rw [sameFront, List.take_length, Bool.eq_iff_iff, decide_eq_true_iff, List.isPrefixOf_iff_prefix,
    List.prefix_iff_eq_take, eq_comm]

/-- The loop over the matches finds what they have in common. -/
theorem take_foldl_agree (first : Str) : ∀ (rest : List Str) (k : Nat), k ≤ first.length →
    rest.foldl (fun n name => agree (first.take n) name) k ≤ first.length ∧
      first.take (rest.foldl (fun n name => agree (first.take n) name) k) =
        rest.foldl (fun p name => p.take (agree p name)) (first.take k) := by
  intro rest
  induction rest with
  | nil => exact fun k hk => ⟨hk, rfl⟩
  | cons name rest ih =>
    intro k hk
    have hle := agree_le (first.take k) name
    rw [List.length_take] at hle
    obtain ⟨hlen, htake⟩ := ih (agree (first.take k) name) (by omega)
    refine ⟨hlen, ?_⟩
    rw [List.foldl_cons, List.foldl_cons, htake, List.take_take,
      Nat.min_eq_left (show agree (first.take k) name ≤ k by omega)]

section

variable (hl : l.Bounded) (ht : l.text = pre ++ (tok ++ post)) (hz : (0 : Ch) ∉ tok)

include hl ht hz

/-- The matches, by what the code does with them. -/
theorem shellCompleteCmdword_cases (cut : Str) (hcut : cut = tok.take (shellLineMax - 1)) :
    (matching N.cmds cut = [] ∧
      Rewrites l pre tok post 0 (shellCompleteCmdword N l pre.length (pre.length + tok.length))) ∨
    (∃ name, matching N.cmds cut = [name] ∧
      Rewrites l pre (put l pre tok post (name.take (shellLineMax - 2) ++ [blank])) post 1
        (shellCompleteCmdword N l pre.length (pre.length + tok.length))) ∨
    (∃ p, 2 ≤ (matching N.cmds cut).length ∧ LongestPrefix (matching N.cmds cut) p ∧
      Rewrites l pre (if cut.length < p.length then put l pre tok post (p.take (shellLineMax - 1))
        else tok) post (matching N.cmds cut).length
        (shellCompleteCmdword N l pre.length (pre.length + tok.length))) := by
  have hplen : min (pre.length + tok.length - pre.length) (shellLineMax - 1) = cut.length := by
    rw [hcut, List.length_take]
    omega
  have hword : copied l.buf pre.length cut.length = cut := by
    rw [← hplen, copied_token ht hz, hcut]
  unfold shellCompleteCmdword
  simp only [hplen, hword, filter_sameFront rfl]
  cases hm : matching N.cmds cut with
  | nil => exact Or.inl ⟨rfl, rewrites_same hl ht 0⟩
  | cons first rest =>
    cases rest with
    | nil => exact Or.inr (Or.inl ⟨first, rfl, rewrites_replace hl ht _ 1⟩)
    | cons second rest =>
      -- the loop keeps a length, the longest common prefix is that much of the first match
      obtain ⟨hlen, htake⟩ := take_foldl_agree first (second :: rest) first.length le_rfl
      rw [List.take_length] at htake
      refine Or.inr (Or.inr ⟨_, by simp, (LongestPrefix.single first).foldl (second :: rest), ?_⟩)
      rw [← htake, List.length_take, Nat.min_eq_left hlen, List.take_take,
        Nat.min_comm (shellLineMax - 1)]
      dsimp only
      split
      · exact rewrites_replace hl ht _ _
      · exact rewrites_same hl ht _

end

/-- What must become of the first word: the token, and the number of matches. -/
structure WordCompleted (N : Names) (l : Line) (pre tok post tok' : Str) (n : Nat) : Prop where
  count : n = (matching N.cmds tok).length
  nothing : matching N.cmds tok = [] → tok' = tok
  one : ∀ name, matching N.cmds tok = [name] → tok' = put l pre tok post (name ++ [blank])
  several : ∀ p, 2 ≤ (matching N.cmds tok).length → LongestPrefix (matching N.cmds tok) p →
    tok' = if tok.length < p.length then put l pre tok post p else tok

/-- No string is cut, or there would be no room for what is left of it. -/
structure WordUncut (N : Names) (l : Line) (pre tok post : Str) : Prop where
  word : ∀ name ∈ N.cmds, tok.take (shellLineMax - 1) <+: name → tok <+: name
  one : ∀ name, matching N.cmds tok = [name] →
    name.length ≤ shellLineMax - 2 ∨ l.buf.length < pre.length + shellLineMax + post.length
  several : ∀ p, 2 ≤ (matching N.cmds tok).length → LongestPrefix (matching N.cmds tok) p →
    p.length < shellLineMax ∨ l.buf.length < pre.length + shellLineMax + post.length ∨
      (tok.length = shellLineMax - 1 ∧ ¬ l.Fits pre p post)

theorem mem_matching {names : List Str} {name : Str} :
    name ∈ matching names s ↔ name ∈ names ∧ s <+: name := by
  rw [matching, List.mem_filter, List.isPrefixOf_iff_prefix]

/-- There are as many matches only if they are the same. -/
theorem matching_take {names : List Str} {k : Nat} :
    (matching names (s.take k)).length = (matching names s).length ↔
      ∀ name ∈ names, s.take k <+: name → s <+: name := by
  have hsub : matching names s =
      (matching names (s.take k)).filter fun name => s.isPrefixOf name := by
    rw [matching, matching, List.filter_filter]
    refine List.filter_congr fun name _ => ?_
    rw [Bool.eq_iff_iff, Bool.and_eq_true, List.isPrefixOf_iff_prefix, List.isPrefixOf_iff_prefix]
    exact ⟨fun h => ⟨h, (List.take_prefix k s).trans h⟩, fun h => h.1⟩
  rw [hsub, eq_comm, List.length_filter_eq_length_iff]
  constructor
  · intro h name hmem hname
    have := h name (mem_matching.mpr ⟨hmem, hname⟩)
    rwa [List.isPrefixOf_iff_prefix] at this
  · intro h name hname
    obtain ⟨hmem, hname⟩ := mem_matching.mp hname
    rw [List.isPrefixOf_iff_prefix]
    exact h name hmem hname

theorem matching_take_eq {names : List Str} {k : Nat}
    (h : ∀ name ∈ names, s.take k <+: name → s <+: name) :
    matching names (s.take k) = matching names s := by
  refine List.filter_congr fun name hmem => ?_
  rw [Bool.eq_iff_iff, List.isPrefixOf_iff_prefix, List.isPrefixOf_iff_prefix]
  exact ⟨h name hmem, fun h => (List.take_prefix k s).trans h⟩

/-- One command and a blank: what is left of it is not the same, so there must not be room. -/
theorem put_one (hb : blank ∉ tok) (name : Str) :
    put l pre tok post (name.take (shellLineMax - 2) ++ [blank]) =
        put l pre tok post (name ++ [blank]) ↔
      name.length ≤ shellLineMax - 2 ∨ l.buf.length < pre.length + shellLineMax + post.length := by
  have hmax : shellLineMax = 192 := rfl
  by_cases hlen : name.length ≤ shellLineMax - 2
  · simp [List.take_of_length_le hlen, hlen]
  · have hcut : (name.take (shellLineMax - 2) ++ [blank]).length = shellLineMax - 1 := by
      simp only [List.length_append, List.length_take, List.length_singleton]
      omega
    have hfull : shellLineMax ≤ (name ++ [blank]).length := by
      simp only [List.length_append, List.length_singleton]
      omega
    -- the name is cut: there must not even be room for what is left of it
    by_cases hfit : l.Fits pre (name.take (shellLineMax - 2) ++ [blank]) post
    · have hroom := hfit
      rw [Line.Fits] at hroom
      rw [put_of_fits hfit]
      refine ⟨fun h => ?_, fun h => by omega⟩
      by_cases hfit' : l.Fits pre (name ++ [blank]) post
      · rw [put_of_fits hfit'] at h
        have := congrArg List.length h
        omega
      · rw [put_of_not_fits hfit'] at h
        exact absurd (h ▸ List.mem_append_right _ (by simp)) hb
    · have hroom := hfit
      rw [Line.Fits] at hroom
      have hfit' : ¬ l.Fits pre (name ++ [blank]) post := by
        rw [Line.Fits]
        omega
      rw [put_of_not_fits hfit, put_of_not_fits hfit']
      exact ⟨fun _ => Or.inr (by omega), fun _ => rfl⟩

/-- What several commands have in common. -/
theorem put_several {p : Str} (hp : tok <+: p) :
    (if (tok.take (shellLineMax - 1)).length < p.length then
        put l pre tok post (p.take (shellLineMax - 1)) else tok) =
      (if tok.length < p.length then put l pre tok post p else tok) ↔
      p.length < shellLineMax ∨ l.buf.length < pre.length + shellLineMax + post.length ∨
        (tok.length = shellLineMax - 1 ∧ ¬ l.Fits pre p post) := by
  have hmax : shellLineMax = 192 := rfl
  have hle := hp.length_le
  by_cases hshort : p.length < shellLineMax
  · rw [List.take_of_length_le (by omega), List.take_of_length_le (by omega)]
    simp [hshort]
  · have hcut : (p.take (shellLineMax - 1)).length = shellLineMax - 1 := by
      rw [List.length_take]
      omega
    rw [if_pos (by rw [List.length_take]; omega)]
    by_cases hfit : l.Fits pre (p.take (shellLineMax - 1)) post
    · have hroom := hfit
      rw [Line.Fits] at hroom
      rw [put_of_fits hfit]
      constructor
      · intro h
        by_cases hlt : tok.length < p.length
        · rw [if_pos hlt] at h
          by_cases hfit' : l.Fits pre p post
          · rw [put_of_fits hfit'] at h
            have := congrArg List.length h
            omega
          · rw [put_of_not_fits hfit'] at h
            exact Or.inr (Or.inr ⟨by rw [← h, hcut], hfit'⟩)
        · rw [if_neg hlt] at h
          have := congrArg List.length h
          omega
      -- a token as long as a word can be gets itself back
      · rintro (h | h | ⟨h, hfit'⟩)
        · exact absurd h hshort
        · omega
        · rw [if_pos (by omega), put_of_not_fits hfit', ← h]
          exact (List.prefix_iff_eq_take.mp hp).symm
    · have hroom := hfit
      rw [Line.Fits] at hroom
      have hfit' : ¬ l.Fits pre p post := by
        rw [Line.Fits]
        omega
      rw [put_of_not_fits hfit, put_of_not_fits hfit', ite_self]
      exact ⟨fun _ => Or.inr (Or.inl (by omega)), fun _ => rfl⟩

theorem Rewrites.unique {tok₁ tok₂ : Str} {n₁ n₂ : Nat} {r : Option (Line × Nat)}
    (h₁ : Rewrites l pre tok₁ post n₁ r) (h₂ : Rewrites l pre tok₂ post n₂ r) :
    tok₁ = tok₂ ∧ n₁ = n₂ := by
  obtain ⟨l₁, rfl, -, -, ht₁⟩ := h₁
  obtain ⟨l₂, hr, -, -, ht₂⟩ := h₂
  cases hr
  exact ⟨List.append_cancel_right (List.append_cancel_left (ht₁.symm.trans ht₂)), rfl⟩

/-- **The first word is completed if and only if nothing is cut.** -/
theorem word_completed_iff (hl : l.Bounded) (ht : l.text = pre ++ (tok ++ post))
    (hz : (0 : Ch) ∉ tok) (hb : blank ∉ tok) :
    (∃ tok' n, Rewrites l pre tok' post n
      (shellCompleteCmdword N l pre.length (pre.length + tok.length)) ∧
      WordCompleted N l pre tok post tok' n) ↔ WordUncut N l pre tok post := by
  have hin : pre.length + tok.length + post.length < l.buf.length := by
    have := hl.length_text
    have := hl.room
    have := congrArg List.length ht
    simp only [List.length_append] at this
    omega
  have hcases := shellCompleteCmdword_cases (N := N) hl ht hz (tok.take (shellLineMax - 1)) rfl
  -- the number of matches is right only if they are the same as for the whole token
  have hcount : ∀ {n}, n = (matching N.cmds (tok.take (shellLineMax - 1))).length →
      (n = (matching N.cmds tok).length ↔ ∀ name ∈ N.cmds,
        tok.take (shellLineMax - 1) <+: name → tok <+: name) := by
    rintro n rfl
    exact matching_take
  constructor
  · rintro ⟨tok', n, hr, h⟩
    rcases hcases with ⟨hm, hr'⟩ | ⟨name, hm, hr'⟩ | ⟨p, hm, hp, hr'⟩
    · obtain ⟨rfl, rfl⟩ := hr.unique hr'
      have hword := (hcount (by rw [hm]; rfl)).mp h.count
      rw [matching_take_eq hword] at hm
      refine ⟨hword, fun name h1 => ?_, fun p h2 => ?_⟩
      · simp [hm] at h1
      · simp [hm] at h2
    · obtain ⟨rfl, rfl⟩ := hr.unique hr'
      have hword := (hcount (by rw [hm]; rfl)).mp h.count
      rw [matching_take_eq hword] at hm
      refine ⟨hword, fun name' h1 => ?_, fun p h2 => ?_⟩
      · obtain rfl : name = name' := by simpa [hm] using h1
        exact (put_one hb name).mp (h.one name hm)
      · simp [hm] at h2
    · obtain ⟨rfl, rfl⟩ := hr.unique hr'
      have hword := (hcount rfl).mp h.count
      rw [matching_take_eq hword] at hm hp
      have hpre : tok <+: p := hp.longest tok fun s hs => (mem_matching.mp hs).2
      refine ⟨hword, fun name h1 => ?_, fun p' h2 hp' => ?_⟩
      · simp [h1] at hm
      · obtain rfl := hp.unique hp'
        exact (put_several hpre).mp (h.several p hm hp)
  · intro h
    have hword := matching_take_eq h.word
    rcases hcases with ⟨hm, hr'⟩ | ⟨name, hm, hr'⟩ | ⟨p, hm, hp, hr'⟩
    · rw [hword] at hm
      refine ⟨_, _, hr', by rw [hm]; rfl, fun _ => rfl, fun name h1 => ?_, fun p h2 => ?_⟩
      · simp [hm] at h1
      · simp [hm] at h2
    · rw [hword] at hm
      refine ⟨_, _, hr', by rw [hm]; rfl, fun h0 => ?_, fun name' h1 => ?_, fun p h2 => ?_⟩
      · simp [hm] at h0
      · obtain rfl : name = name' := by simpa [hm] using h1
        exact (put_one hb name).mpr (h.one name hm)
      · simp [hm] at h2
    · rw [hword] at hm hp hr'
      have hpre : tok <+: p := hp.longest tok fun s hs => (mem_matching.mp hs).2
      refine ⟨_, _, hr', rfl, fun h0 => ?_, fun name h1 => ?_, fun p' h2 hp' => ?_⟩
      · simp [h0] at hm
      · simp [h1] at hm
      · obtain rfl := hp.unique hp'
        exact (put_several hpre).mpr (h.several p hm hp)

end Ittrium.Shell
