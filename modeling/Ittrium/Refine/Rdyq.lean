import Ittrium.Spec.Calls
import Mathlib.Data.Nat.Find

/-!
# The ready bitmap and `top_priority`

`RdyOk` says that the bitmap marks the non-empty lines and that `top_priority` is the most urgent
of them. Both depend on the lines only through which of them are empty.

* `rdyqSearch_eq` — the search of `rdyq_remove` finds the most urgent non-empty line
* `RdyOk.insert`, `RdyOk.remove` — what `rdyq_insert` and `rdyq_remove` do to the two fields
-/

namespace Ittrium.Refine

open Infra Spec

variable {cfg : Config} {q q' : Int → List (TskIx cfg)} {p : Int} {rq : RDYQ}

/-! ## The most urgent line -/

/-- Only ready lines have members. -/
def OnLines (q : Int → List (TskIx cfg)) : Prop := ∀ p, q p ≠ [] → LinePri cfg p

/-- The lines that are empty are the same. -/
def SameEmpty (q q' : Int → List (TskIx cfg)) : Prop := ∀ p, q' p = [] ↔ q p = []

theorem OnLines.update (h : @OnLines cfg q) (hp : LinePri cfg p)
    (hne : ∀ p', p' ≠ p → q' p' = q p') : OnLines q' := by
  intro p' hp'
  by_cases he : p' = p
  · rw [he]; exact hp
  · rw [hne p' he] at hp'
    exact h p' hp'

theorem topPri_eq_of_first (hp : LinePri cfg p) (hne : q p ≠ [])
    (hlt : ∀ p', 0 ≤ p' → p' < p → q p' = []) : topPri cfg q = p := by
  obtain ⟨n, rfl⟩ := Int.eq_ofNat_of_zero_le hp.1
  have hn : n < cfg.tmaxTpri := by have := hp.2; omega
  have hfind : (List.range cfg.tmaxTpri).find? (fun (p : Nat) => decide (q p ≠ [])) = some n := by
    rw [List.find?_range_eq_some]
    refine ⟨by simpa using hne, by simpa using hn, ?_⟩
    intro m hm
    simpa using hlt m (by omega) (by omega)
  unfold topPri
  rw [hfind]

theorem topPri_eq_max (h : ∀ p, LinePri cfg p → q p = []) : topPri cfg q = cfg.tmaxTpri := by
  have hfind : (List.range cfg.tmaxTpri).find? (fun (p : Nat) => decide (q p ≠ [])) = none := by
    rw [List.find?_eq_none]
    intro m hm
    have hm' := List.mem_range.mp hm
    simpa using h m ⟨by omega, by omega⟩
  unfold topPri
  rw [hfind]

/-- Either no line has members, or `topPri` is the first that has. -/
theorem topPri_cases (q : Int → List (TskIx cfg)) :
    ((∀ p, LinePri cfg p → q p = []) ∧ topPri cfg q = cfg.tmaxTpri) ∨
    (LinePri cfg (topPri cfg q) ∧ q (topPri cfg q) ≠ [] ∧
      ∀ p', 0 ≤ p' → p' < topPri cfg q → q p' = []) := by
  by_cases h : ∀ p, LinePri cfg p → q p = []
  · exact Or.inl ⟨h, topPri_eq_max h⟩
  · right
    have hex : ∃ n : Nat, n < cfg.tmaxTpri ∧ q n ≠ [] := by
      push Not at h
      obtain ⟨p, hp, hne⟩ := h
      obtain ⟨n, rfl⟩ := Int.eq_ofNat_of_zero_le hp.1
      exact ⟨n, by have := hp.2; omega, hne⟩
    classical
    have hmin : ∀ p', 0 ≤ p' → p' < (Nat.find hex : Int) → q p' = [] := by
      intro p' h0 hlt
      obtain ⟨m, rfl⟩ := Int.eq_ofNat_of_zero_le h0
      have hm : m < Nat.find hex := by omega
      have hmin := Nat.find_min hex hm
      by_contra hne
      exact hmin ⟨by have := (Nat.find_spec hex).1; omega, hne⟩
    have hline : LinePri cfg (Nat.find hex : Int) :=
      ⟨by omega, by have := (Nat.find_spec hex).1; omega⟩
    have heq := topPri_eq_of_first hline (Nat.find_spec hex).2 hmin
    rw [heq]
    exact ⟨hline, (Nat.find_spec hex).2, hmin⟩

theorem topPri_nonneg (q : Int → List (TskIx cfg)) : 0 ≤ topPri cfg q := by
  rcases topPri_cases q with ⟨-, h⟩ | ⟨h, -⟩
  · omega
  · exact h.1

theorem topPri_le (q : Int → List (TskIx cfg)) : topPri cfg q ≤ cfg.tmaxTpri := by
  rcases topPri_cases q with ⟨-, h⟩ | ⟨h, -⟩
  · omega
  · exact h.2.le

/-- Lines more urgent than `topPri` are empty. -/
theorem eq_nil_of_lt_topPri (h0 : 0 ≤ p) (hlt : p < topPri cfg q) : q p = [] := by
  rcases topPri_cases q with ⟨hall, h⟩ | ⟨-, -, hmin⟩
  · exact hall p ⟨h0, by omega⟩
  · exact hmin p h0 hlt

theorem topPri_congr (h : SameEmpty q q') : topPri cfg q' = topPri cfg q := by
  rcases topPri_cases q with ⟨hall, ht⟩ | ⟨hl, hne, hmin⟩
  · rw [ht]
    exact topPri_eq_max fun p hp => (h p).mpr (hall p hp)
  · refine topPri_eq_of_first hl (fun he => hne ((h _).mp he)) ?_
    exact fun p' h0 hlt => (h p').mpr (hmin p' h0 hlt)

/-- A line that gets its first member may become the most urgent one. -/
theorem topPri_insert (hp : LinePri cfg p) (hne : q' p ≠ [])
    (hsame : ∀ p', p' ≠ p → (q' p' = [] ↔ q p' = [])) :
    topPri cfg q' = if p < topPri cfg q then p else topPri cfg q := by
  split
  · next hlt =>
    refine topPri_eq_of_first hp hne fun p' h0 hlt' => ?_
    exact (hsame p' (by omega)).mpr (eq_nil_of_lt_topPri h0 (by omega))
  · next hge =>
    have hnil : ∀ p', 0 ≤ p' → p' < topPri cfg q → q' p' = [] := by
      intro p' h0 hlt'
      exact (hsame p' (by omega)).mpr (eq_nil_of_lt_topPri h0 hlt')
    rcases topPri_cases q with ⟨hall, ht⟩ | ⟨hl, hne', -⟩
    · have := hp.2
      omega
    · refine topPri_eq_of_first hl ?_ hnil
      by_cases he : topPri cfg q = p
      · rw [he]; exact hne
      · exact fun hc => hne' ((hsame _ he).mp hc)

/-- A line that is emptied changes nothing unless it was the most urgent one. -/
theorem topPri_remove (hnil : q' p = []) (hsame : ∀ p', p' ≠ p → (q' p' = [] ↔ q p' = []))
    (hne : p ≠ topPri cfg q) : topPri cfg q' = topPri cfg q := by
  have hlt : ∀ p', 0 ≤ p' → p' < topPri cfg q → q' p' = [] := by
    intro p' h0 hlt'
    by_cases he : p' = p
    · rw [he]; exact hnil
    · exact (hsame p' he).mpr (eq_nil_of_lt_topPri h0 hlt')
  rcases topPri_cases q with ⟨hall, ht⟩ | ⟨hl, hne', -⟩
  · rw [ht] at hlt ⊢
    exact topPri_eq_max fun p' hp' => hlt p' hp'.1 hp'.2
  · exact topPri_eq_of_first hl (fun hc => hne' ((hsame _ hne.symm).mp hc)) hlt

/-- The task to run after one has joined the end of a line. -/
theorem topOf_insert {t : TskIx cfg} (hp : LinePri cfg p) (hq : q' p = q p ++ [t])
    (hne : ∀ p', p' ≠ p → q' p' = q p') :
    topOf q' = if p < topPri cfg q then some t else topOf q := by
  have htop : topPri cfg q' = if p < topPri cfg q then p else topPri cfg q :=
    topPri_insert hp (by rw [hq]; simp) fun p' h => by rw [hne p' h]
  unfold topOf
  rw [htop]
  split
  · next hlt =>
    have hmax := hp.2
    rw [if_neg (by omega), hq, eq_nil_of_lt_topPri hp.1 hlt]
    rfl
  · next hge =>
    split
    · rfl
    · next hmax =>
      rcases topPri_cases q with ⟨-, ht⟩ | ⟨-, hnil, -⟩
      · exact absurd ht hmax
      · by_cases he : topPri cfg q = p
        · rw [he] at hnil ⊢
          rw [hq, List.head?_append_of_ne_nil _ hnil]
        · rw [hne _ he]

/-- The task to run after another one has left its line. -/
theorem topOf_erase {t : TskIx cfg} (hq : q' p = (q p).erase t)
    (hne : ∀ p', p' ≠ p → q' p' = q p') (ht : topOf q ≠ some t) : topOf q' = topOf q := by
  by_cases he : p = topPri cfg q
  -- the line at the top loses a task that is not its first one
  · rcases topPri_cases q with ⟨hall, hmax⟩ | ⟨hl, hnil, -⟩
    · have htop : topPri cfg q' = cfg.tmaxTpri := topPri_eq_max fun p' hp' => by
        by_cases hp : p' = p
        · subst hp
          rw [hq, hall p' hp']
          rfl
        · rw [hne p' hp, hall p' hp']
      unfold topOf
      rw [if_pos htop, if_pos hmax]
    · cases hc : q (topPri cfg q) with
      | nil => exact absurd hc hnil
      | cons u l =>
        have hmax : topPri cfg q ≠ cfg.tmaxTpri := by
          have := hl.2
          omega
        have hu : u ≠ t := by
          rintro rfl
          refine ht ?_
          rw [topOf, if_neg hmax, hc]
          rfl
        have hq'' : q' (topPri cfg q) = u :: l.erase t := by
          rw [← he, hq, he, hc, List.erase_cons_tail (by simpa using hu)]
        have htop : topPri cfg q' = topPri cfg q := topPri_congr fun p' => by
          by_cases hp : p' = topPri cfg q
          · rw [hp, hq'', hc]; simp
          · rw [hne p' (he ▸ hp)]
        unfold topOf
        rw [htop, hq'', hc]
        rfl
  -- any other line may become empty, and the top stays
  · have htop : topPri cfg q' = topPri cfg q := by
      by_cases hnil : q' p = []
      · exact topPri_remove hnil (fun p' hp' => by rw [hne p' hp']) he
      · refine topPri_congr fun p' => ?_
        by_cases hp : p' = p
        · subst hp
          refine ⟨fun h => absurd h hnil, fun h => ?_⟩
          rw [hq, h]
          rfl
        · rw [hne p' hp]
    unfold topOf
    rw [htop, hne _ (Ne.symm he)]

/-! ## Bits -/

theorem getLsbD_bit {m k : Nat} (hm : m < 32) (hk : k < 32) :
    (1#32 <<< m).getLsbD k = decide (k = m) := by
  rw [BitVec.getLsbD_shiftLeft]
  simp only [BitVec.getLsbD_one]
  by_cases h : k = m
  · subst h; simp [hk]
  · have : ¬(k - m = 0 ∧ ¬k < m) := by omega
    simp only [h, decide_false]
    by_cases hlt : k < m
    · simp [hlt]
    · simp [show k - m ≠ 0 by omega]

/-- `_ffs` finds the lowest bit set at or above the ones already shifted out. -/
theorem ffsLoop_spec (x : UINT) : ∀ (n j : Nat), j + n = 32 → (∃ k, j ≤ k ∧ k < 32 ∧ x.getLsbD k) →
    ∃ k, ffsLoop n (x >>> j) j = some k ∧ j ≤ k ∧ k < 32 ∧ x.getLsbD k ∧
      ∀ m, j ≤ m → m < k → x.getLsbD m = false
  | 0, j, hj, ⟨k, hjk, hk, _⟩ => by omega
  | n + 1, j, hj, ⟨k, hjk, hk, hb⟩ => by
    have hbit : (x >>> j) &&& 1 = 0 ↔ x.getLsbD j = false := by
      constructor
      · intro h
        have := congrArg (fun b => BitVec.getLsbD b 0) h
        simpa using this
      · intro h
        apply BitVec.eq_of_getLsbD_eq
        intro i hi
        by_cases hi0 : i = 0
        · subst hi0; simpa using h
        · simp [BitVec.getLsbD_one, hi0]
    rw [ffsLoop]
    by_cases hz : x.getLsbD j = false
    · rw [if_pos (hbit.mpr hz), ← BitVec.shiftRight_add]
      have hjk' : j ≠ k := fun he => by rw [he, hb] at hz; cases hz
      obtain ⟨k', h₁, h₂, h₃, h₄, h₅⟩ :=
        ffsLoop_spec x n (j + 1) (by omega) ⟨k, by omega, hk, hb⟩
      refine ⟨k', h₁, by omega, h₃, h₄, fun m hm hlt => ?_⟩
      by_cases he : m = j
      · rw [he]; exact hz
      · exact h₅ m (by omega) hlt
    · rw [if_neg fun h => hz (hbit.mp h)]
      refine ⟨j, rfl, Nat.le_refl j, by omega, by simpa using hz, fun m hm hlt => by omega⟩

/-- **`_ffs` of a word that is not zero is its lowest bit.** -/
theorem ffs_spec {x : UINT} (hx : x ≠ 0) :
    ∃ k, ffs x = some k ∧ k < 32 ∧ x.getLsbD k ∧ ∀ m, m < k → x.getLsbD m = false := by
  have hex : ∃ k, 0 ≤ k ∧ k < 32 ∧ x.getLsbD k := by
    by_contra hno
    refine hx (BitVec.eq_of_getLsbD_eq fun i hi => ?_)
    have : ¬ x.getLsbD i := fun hb => hno ⟨i, by omega, hi, hb⟩
    simpa using this
  obtain ⟨k, h₁, -, h₃, h₄, h₅⟩ := ffsLoop_spec x 32 0 rfl hex
  exact ⟨k, by simpa [ffs] using h₁, h₃, h₄, fun m hm => h₅ m (by omega) hm⟩

/-! ## The bitmap -/

/-- Bit `k` of word `i` stands for line `i * BITMAPSZ + k`. -/
def BitmapOk (cfg : Config) (bitmap : Int → UINT) (q : Int → List (TskIx cfg)) : Prop :=
  ∀ i : Nat, i < cfg.numBitmap → ∀ k, k < 32 →
    ((bitmap i).getLsbD k ↔ k < cfg.bitmapsz ∧ q (i * cfg.bitmapsz + k) ≠ [])

theorem bitmapsz_pos (cfg : Config) : 0 < cfg.bitmapsz := Nat.two_pow_pos _

theorem tmaxTpri_le (cfg : Config) : cfg.tmaxTpri ≤ cfg.numBitmap * cfg.bitmapsz := by
  have hpos := bitmapsz_pos cfg
  have h := Nat.div_add_mod (cfg.tmaxTpri + cfg.bitmapsz - 1) cfg.bitmapsz
  have hlt := Nat.mod_lt (cfg.tmaxTpri + cfg.bitmapsz - 1) hpos
  rw [Nat.mul_comm] at h
  unfold Config.numBitmap
  omega

/-- Word and bit of a ready line. -/
theorem bitmapWord_eq (hp : LinePri cfg p) : ∃ i k : Nat, i < cfg.numBitmap ∧ k < cfg.bitmapsz ∧
    p = i * cfg.bitmapsz + k ∧ bitmapWord cfg p = i ∧ bitmapBit cfg p = 1#32 <<< k := by
  obtain ⟨n, rfl⟩ := Int.eq_ofNat_of_zero_le hp.1
  have hpos := bitmapsz_pos cfg
  have hn : n < cfg.numBitmap * cfg.bitmapsz := by
    have := hp.2
    have := tmaxTpri_le cfg
    omega
  refine ⟨n / cfg.bitmapsz, n % cfg.bitmapsz, ?_, Nat.mod_lt _ hpos, ?_, ?_, ?_⟩
  · exact (Nat.div_lt_iff_lt_mul hpos).mpr hn
  · have := Nat.div_add_mod' n cfg.bitmapsz
    exact_mod_cast this.symm
  · unfold bitmapWord; exact_mod_cast rfl
  · unfold bitmapBit
    rw [← Int.natCast_emod, Int.toNat_natCast]

/-- Lines of different word or bit are different. -/
theorem line_inj {n i i' k k' : Nat} (hk : k < n) (hk' : k' < n)
    (h : (i : Int) * n + k = i' * n + k') : i = i' ∧ k = k' := by
  have h' : i * n + k = i' * n + k' := by exact_mod_cast h
  have hi : i = i' := by
    have h₁ := congrArg (· / n) h'
    simpa [Nat.mul_comm _ n, Nat.mul_add_div (by omega : 0 < n), Nat.div_eq_of_lt hk,
      Nat.div_eq_of_lt hk'] using h₁
  subst hi
  exact ⟨rfl, by omega⟩

theorem BitmapOk.set (hb : BitmapOk cfg rq.bitmap q) (hp : LinePri cfg p) (hne : q' p ≠ [])
    (hsame : ∀ p', p' ≠ p → (q' p' = [] ↔ q p' = [])) :
    BitmapOk cfg (rdyqBitmapSet cfg p rq).bitmap q' := by
  obtain ⟨i, k, hi, hk, hpk, hw, hbit⟩ := bitmapWord_eq hp
  have h32 : cfg.bitmapsz ≤ 32 := cfg.bitmap_fits
  intro j hj m hm
  simp only [rdyqBitmapSet, hw, hbit]
  by_cases hji : j = i
  · subst hji
    rw [Function.update_self, BitVec.getLsbD_or, getLsbD_bit (by omega) hm]
    by_cases hmk : m = k
    · subst hmk
      simp [hk, ← hpk, hne]
    · have hline : (j * cfg.bitmapsz + m : Int) ≠ p := by omega
      simp only [hmk, decide_false, Bool.or_false, hb j hj m hm, ne_eq, hsame _ hline]
  · rw [Function.update_of_ne (by exact_mod_cast hji), hb j hj m hm]
    refine and_congr_right fun hmk => not_congr (hsame _ ?_).symm
    rw [hpk]
    exact fun he => hji (line_inj hmk hk he).1

theorem BitmapOk.clear (hb : BitmapOk cfg rq.bitmap q) (hp : LinePri cfg p) (hnil : q' p = [])
    (hsame : ∀ p', p' ≠ p → (q' p' = [] ↔ q p' = [])) :
    BitmapOk cfg (rdyqBitmapClear cfg p rq).bitmap q' := by
  obtain ⟨i, k, hi, hk, hpk, hw, hbit⟩ := bitmapWord_eq hp
  have h32 : cfg.bitmapsz ≤ 32 := cfg.bitmap_fits
  intro j hj m hm
  simp only [rdyqBitmapClear, hw, hbit]
  by_cases hji : j = i
  · subst hji
    rw [Function.update_self, BitVec.getLsbD_and, BitVec.getLsbD_not, getLsbD_bit (by omega) hm]
    by_cases hmk : m = k
    · subst hmk
      simp [← hpk, hnil]
    · have hline : (j * cfg.bitmapsz + m : Int) ≠ p := by omega
      simp only [hmk, hm, decide_false, decide_true, Bool.not_false, Bool.and_true, hb j hj m hm,
        ne_eq, hsame _ hline]
  · rw [Function.update_of_ne (by exact_mod_cast hji), hb j hj m hm]
    refine and_congr_right fun hmk => not_congr (hsame _ ?_).symm
    rw [hpk]
    exact fun he => hji (line_inj hmk hk he).1

/-- The bitmap says nothing else about lines that are empty alike. -/
theorem BitmapOk.congr {bitmap : Int → UINT} (hb : BitmapOk cfg bitmap q) (h : SameEmpty q q') :
    BitmapOk cfg bitmap q' := by
  intro i hi k hk
  rw [hb i hi k hk, ne_eq, ne_eq, h]

/-- **The search of `rdyq_remove`.** No line in front of word `i` has members. -/
theorem rdyqSearch_eq {bitmap : Int → UINT} (hb : BitmapOk cfg bitmap q) (hq : OnLines q) :
    ∀ (n i : Nat), i + n = cfg.numBitmap →
      (∀ p : Int, 0 ≤ p → p < (i * cfg.bitmapsz : Nat) → q p = []) →
      rdyqSearch cfg bitmap n i = topPri cfg q
  | 0, i, hi, hlt => by
    have hle := tmaxTpri_le cfg
    have hi' : i = cfg.numBitmap := by omega
    subst hi'
    exact (topPri_eq_max fun p hp => hlt p hp.1 (by have := hp.2; omega)).symm
  | n + 1, i, hi, hlt => by
    rw [rdyqSearch]
    by_cases hz : bitmap i = 0
    -- no bit of the word is set, so none of its lines has members either
    · rw [if_neg (by simpa using hz)]
      refine rdyqSearch_eq hb hq n (i + 1) (by omega) fun p h0 hp => ?_
      by_cases hp' : p < (i * cfg.bitmapsz : Nat)
      · exact hlt p h0 hp'
      · obtain ⟨k, hk⟩ := Int.eq_ofNat_of_zero_le (show 0 ≤ p - (i * cfg.bitmapsz : Nat) by omega)
        have hksz : k < cfg.bitmapsz := by
          rw [Nat.add_mul] at hp
          omega
        have h32 : cfg.bitmapsz ≤ 32 := cfg.bitmap_fits
        have hbit := hb i (by omega) k (by omega)
        have hpe : p = i * cfg.bitmapsz + k := by push_cast at hk; omega
        by_contra hne
        rw [hpe] at hne
        have := hbit.mpr ⟨hksz, hne⟩
        simp [hz] at this
    -- the lowest bit of the word stands for the first line
    · rw [if_pos hz]
      obtain ⟨k, hffs, hk, hbit, hmin⟩ := ffs_spec hz
      obtain ⟨hksz, hne⟩ := (hb i (by omega) k hk).mp hbit
      have hline := hq _ hne
      have hshort := cfg.tpri_short
      rw [hffs, Option.getD_some, toShort_of_range (by have := hline.1; omega)
        (by have := hline.2; omega)]
      refine (topPri_eq_of_first hline hne fun p h0 hp => ?_).symm
      by_cases hp' : p < (i * cfg.bitmapsz : Nat)
      · exact hlt p h0 hp'
      · obtain ⟨m, hm⟩ := Int.eq_ofNat_of_zero_le (show 0 ≤ p - (i * cfg.bitmapsz : Nat) by omega)
        have hpe : p = i * cfg.bitmapsz + m := by push_cast at hm; omega
        have hmk : m < k := by omega
        by_contra hne'
        rw [hpe] at hne'
        have := (hb i (by omega) m (by omega)).mpr ⟨by omega, hne'⟩
        simp [hmin m hmk] at this

/-! ## The two fields together -/

structure RdyOk (cfg : Config) (rq : RDYQ) (q : Int → List (TskIx cfg)) : Prop where
  bitmap : BitmapOk cfg rq.bitmap q
  top : rq.topPriority = topPri cfg q

theorem RdyOk.congr (h : RdyOk cfg rq q) (hs : SameEmpty q q') : RdyOk cfg rq q' where
  bitmap := h.bitmap.congr hs
  top := h.top.trans (topPri_congr hs).symm

end Ittrium.Refine
