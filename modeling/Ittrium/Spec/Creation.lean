import Ittrium.Spec.Objects

/-!
# Creating an object

* `Call.accepts` — the packet of a creation passes the checks
* `Call.creates` — the object a creation is about: the one named, or the first free reserved one
* `exec_creates` — **such a call succeeds, and the object is as the packet says**
-/

namespace Ittrium.Spec

open Infra

variable {cfg : Config} {a a' : Model cfg} {o : ObjId cfg} {c : Call cfg} {r : Ret cfg}

/-! ## What is created -/

/-- The packet passes the checks of `cre_*` and `acre_*`. -/
def Call.accepts : Call cfg → Prop
  | .creSem _ pk | .acreSem pk =>
    pk.sematr &&& (taTfifo ||| taTpri) = pk.sematr ∧
      pk.maxsem.toNat ≤ cfg.tmaxMaxsem ∧ pk.isemcnt.toNat ≤ cfg.tmaxMaxsem
  | .creFlg _ pk | .acreFlg pk =>
    pk.flgatr = pk.flgatr &&& ((taTfifo ||| taTpri) ||| (taWsgl ||| taWmul) ||| taClr)
  | .creMbx _ pk | .acreMbx pk =>
    pk.mbxatr = pk.mbxatr &&& ((taTfifo ||| taTpri) ||| (taMfifo ||| taMpri))
  | _ => False

/-- `i` is the first of the reserved entries, from `first` on, that is free. -/
def FirstFree {n : Nat} (first : Nat) (free : Fin n → Prop) (i : Fin n) : Prop :=
  first ≤ i ∧ free i ∧ ∀ j : Fin n, first ≤ j → j < i → ¬ free j

/-- The object a creation is about, and the result it has when it succeeds. -/
inductive Call.Creates (core : Core cfg) : Call cfg → ObjId cfg → Ret cfg → Prop where
  | creSem {semid : Int} {pk : TCsem} {i : SemIx cfg} : getSemcb semid = .ok i →
      Creates core (.creSem semid pk) (.sem i) (.er .ok)
  | acreSem {pk : TCsem} {i : SemIx cfg} :
      FirstFree cfg.tmaxSemid (fun i => (core.semcb i).obj.state = .noexs) i →
      Creates core (.acreSem pk) (.sem i) (.newId (i + 1))
  | creFlg {flgid : Int} {pk : TCflg} {i : FlgIx cfg} : getFlgcb flgid = .ok i →
      Creates core (.creFlg flgid pk) (.flg i) (.er .ok)
  | acreFlg {pk : TCflg} {i : FlgIx cfg} :
      FirstFree cfg.tmaxFlgid (fun i => (core.flgcb i).obj.state = .noexs) i →
      Creates core (.acreFlg pk) (.flg i) (.newId (i + 1))
  | creMbx {mbxid : Int} {pk : TCmbx} {i : MbxIx cfg} : getMbxcb mbxid = .ok i →
      Creates core (.creMbx mbxid pk) (.mbx i) (.er .ok)
  | acreMbx {pk : TCmbx} {i : MbxIx cfg} :
      FirstFree cfg.tmaxMbxid (fun i => (core.mbxcb i).obj.state = .noexs) i →
      Creates core (.acreMbx pk) (.mbx i) (.newId (i + 1))

/-- The object is as the packet says, and a mailbox holds no message. -/
def Call.asNew : Call cfg → ObjId cfg → Core cfg → Prop
  | .creSem _ pk, .sem i, core | .acreSem pk, .sem i, core =>
    core.semcb i = ⟨⟨pk.sematr, .rdy⟩, pk.isemcnt.toNat, pk.maxsem.toNat⟩
  | .creFlg _ pk, .flg i, core | .acreFlg pk, .flg i, core =>
    core.flgcb i = ⟨⟨pk.flgatr, .rdy⟩, pk.iflgptn⟩
  | .creMbx _ pk, .mbx i, core | .acreMbx pk, .mbx i, core =>
    (core.mbxcb i).obj = ⟨pk.mbxatr, .rdy⟩ ∧ headmsg i core = .null
  | _, _, _ => False

/-! ## The call by an ID -/

/-- The semaphore `i` exists from now on, as the packet says. -/
def Model.withSem (i : SemIx cfg) (pk : TCsem) (a : Model cfg) : Model cfg :=
  { a with
    freeSem := a.freeSem.erase i
    core := a.core.setSemcb i fun _ =>
      { obj := { objatr := pk.sematr, state := .rdy }
        semcnt := pk.isemcnt.toInt
        maxsem := pk.maxsem.toInt } }

def Model.withFlg (i : FlgIx cfg) (pk : TCflg) (a : Model cfg) : Model cfg :=
  a.setCore (Core.setFlgcb i fun _ =>
    { obj := { objatr := pk.flgatr, state := .rdy }, flgptn := pk.iflgptn })

def Model.withMbx (i : MbxIx cfg) (pk : TCmbx) (a : Model cfg) : Model cfg :=
  (a.setCore (Core.setMbxcb i fun cb =>
    { cb with obj := { objatr := pk.mbxatr, state := .rdy } })).setCore
      (setNextmsg (.mqHead i) .null)

theorem creSem_ok {semid : Int} {pk : TCsem} {i : SemIx cfg} (hi : getSemcb semid = .ok i)
    (hs : (a.core.semcb i).obj.state = .noexs) (hpk : Call.accepts (Call.acreSem pk : Call cfg)) :
    Spec._creSem semid pk a = .ok (a.withSem i pk, .er .ok) := by
  obtain ⟨h₁, h₂, h₃⟩ := hpk
  unfold Spec._creSem
  rw [if_neg (by rw [h₁]; simp), if_neg (by omega), hi]
  exact if_neg (by simpa using hs)

theorem creFlg_ok {flgid : Int} {pk : TCflg} {i : FlgIx cfg} (hi : getFlgcb flgid = .ok i)
    (hs : (a.core.flgcb i).obj.state = .noexs) (hpk : Call.accepts (Call.acreFlg pk : Call cfg)) :
    Spec._creFlg flgid pk a = .ok (a.withFlg i pk, .er .ok) := by
  unfold Spec._creFlg
  refine (if_neg (not_not.mpr hpk)).trans ?_
  rw [hi]
  exact if_neg (by simpa using hs)

theorem creMbx_ok {mbxid : Int} {pk : TCmbx} {i : MbxIx cfg} (hi : getMbxcb mbxid = .ok i)
    (hs : (a.core.mbxcb i).obj.state = .noexs) (hpk : Call.accepts (Call.acreMbx pk : Call cfg)) :
    Spec._creMbx mbxid pk a = .ok (a.withMbx i pk, .er .ok) := by
  unfold Spec._creMbx
  refine (if_neg (not_not.mpr hpk)).trans ?_
  rw [hi]
  exact if_neg (by simpa using hs)

/-! ## The search for a free ID -/

/-- A search over the IDs of reserved entries comes to the first free one. -/
theorem search_firstFree {β : Type} {n first : Nat} {f : Nat → Int → β} {g : Fin n → β}
    {free : Fin n → Prop} {i : Fin n} (hi : FirstFree first free i)
    (hfree : ∀ m (j : Fin n), free j → f (m + 1) ((j : Int) + 1) = g j)
    (hnext : ∀ m (j : Fin n), ¬ free j → f (m + 1) ((j : Int) + 1) = f m ((j : Int) + 1 + 1)) :
    f (n - first) (first + 1) = g i := by
  obtain ⟨hfirst, hlast, hbefore⟩ := hi
  -- `k` entries have been looked at
  have hsearch : ∀ d k : Nat, k + d = i → first ≤ k → f (n - k) ((k : Int) + 1) = g i := by
    intro d
    induction d with
    | zero =>
      intro k hk _
      have hin := i.isLt
      rw [show n - k = (n - k - 1) + 1 by omega, show (k : Int) = (i : Int) by omega]
      exact hfree _ _ hlast
    | succ d ih =>
      intro k hk hfk
      have hin := i.isLt
      have hnot : ¬ free ⟨k, by omega⟩ := hbefore _ hfk (by rw [Fin.lt_def]; dsimp only; omega)
      have hk' := hnext (n - k - 1) ⟨k, by omega⟩ hnot
      rw [show n - k = (n - k - 1) + 1 by omega]
      refine hk'.trans ?_
      rw [show n - k - 1 = n - (k + 1) by omega]
      exact_mod_cast ih (k + 1) (by omega) (by omega)
  exact hsearch (i - first) first (by omega) le_rfl

/-- `acre_sem` is `_cre_sem` with the first free ID. -/
theorem acreSem_eq {pk : TCsem} {i : SemIx cfg}
    (hi : FirstFree cfg.tmaxSemid (fun i => (a.core.semcb i).obj.state = .noexs) i) :
    Spec.acreSem pk a = (do
      let (a, r) ← Spec._creSem ((i : Int) + 1) pk a
      .ok (a, if r = .er .ok then .newId ((i : Int) + 1) else r)) := by
  have h := search_firstFree (f := acreSemLoop pk a) (g := fun i => (do
      let (a, r) ← Spec._creSem ((i : Int) + 1) pk a
      .ok (a, if r = .er .ok then .newId ((i : Int) + 1) else r))) hi ?_ ?_
  · rw [← h, Config.tnumSemid, Nat.add_sub_cancel_left]
    rfl
  all_goals
    intro m j hj
    rw [acreSemLoop]
    show (entryOf _ _ >>= _) = _
    rw [entryOf_id]
  · exact if_pos hj
  · exact if_neg hj

theorem acreFlg_eq {pk : TCflg} {i : FlgIx cfg}
    (hi : FirstFree cfg.tmaxFlgid (fun i => (a.core.flgcb i).obj.state = .noexs) i) :
    Spec.acreFlg pk a = (do
      let (a, r) ← Spec._creFlg ((i : Int) + 1) pk a
      .ok (a, if r = .er .ok then .newId ((i : Int) + 1) else r)) := by
  have h := search_firstFree (f := acreFlgLoop pk a) (g := fun i => (do
      let (a, r) ← Spec._creFlg ((i : Int) + 1) pk a
      .ok (a, if r = .er .ok then .newId ((i : Int) + 1) else r))) hi ?_ ?_
  · rw [← h, Config.tnumFlgid, Nat.add_sub_cancel_left]
    rfl
  all_goals
    intro m j hj
    rw [acreFlgLoop]
    show (entryOf _ _ >>= _) = _
    rw [entryOf_id]
  · exact if_pos hj
  · exact if_neg hj

theorem acreMbx_eq {pk : TCmbx} {i : MbxIx cfg}
    (hi : FirstFree cfg.tmaxMbxid (fun i => (a.core.mbxcb i).obj.state = .noexs) i) :
    Spec.acreMbx pk a = (do
      let (a, r) ← Spec._creMbx ((i : Int) + 1) pk a
      .ok (a, if r = .er .ok then .newId ((i : Int) + 1) else r)) := by
  have h := search_firstFree (f := acreMbxLoop pk a) (g := fun i => (do
      let (a, r) ← Spec._creMbx ((i : Int) + 1) pk a
      .ok (a, if r = .er .ok then .newId ((i : Int) + 1) else r))) hi ?_ ?_
  · rw [← h, Config.tnumMbxid, Nat.add_sub_cancel_left]
    rfl
  all_goals
    intro m j hj
    rw [acreMbxLoop]
    show (entryOf _ _ >>= _) = _
    rw [entryOf_id]
  · exact if_pos hj
  · exact if_neg hj

/-! ## The calls -/

theorem withSem_semcb {pk : TCsem} {i : SemIx cfg} (hpk : Call.accepts (Call.acreSem pk : Call cfg)) :
    (a.withSem i pk).core.semcb i = ⟨⟨pk.sematr, .rdy⟩, pk.isemcnt.toNat, pk.maxsem.toNat⟩ := by
  obtain ⟨-, h₂, h₃⟩ := hpk
  have hint := cfg.maxsem_int
  have hcb : (a.withSem i pk).core.semcb i = ⟨⟨pk.sematr, .rdy⟩, pk.isemcnt.toInt, pk.maxsem.toInt⟩ :=
    Function.update_self ..
  -- the checked counts are the same read as signed values
  rw [hcb, BitVec.toInt_eq_toNat_of_lt (by omega), BitVec.toInt_eq_toNat_of_lt (by omega)]

theorem withFlg_flgcb {pk : TCflg} {i : FlgIx cfg} :
    (a.withFlg i pk).core.flgcb i = ⟨⟨pk.flgatr, .rdy⟩, pk.iflgptn⟩ :=
  Function.update_self ..

theorem withMbx_mbxcb {pk : TCmbx} {i : MbxIx cfg} :
    ((a.withMbx i pk).core.mbxcb i).obj = ⟨pk.mbxatr, .rdy⟩ ∧
      headmsg i (a.withMbx i pk).core = .null := by
  have hcb : (a.withMbx i pk).core.mbxcb i =
      { a.core.mbxcb i with obj := { objatr := pk.mbxatr, state := .rdy } } :=
    Function.update_self ..
  exact ⟨by rw [hcb], Function.update_self ..⟩

/-- **A creation with an accepted packet succeeds, the object is as the packet says, and nobody
joins a line.** -/
theorem exec_creates (hc : Call.Creates a.core c o r) (hpk : Call.accepts c)
    (hs : (a.core.objcb o).state = .noexs) :
    ∃ a', exec c a = .ok (a', r) ∧ Call.asNew c o a'.core ∧ a'.queue = a.queue := by
  cases hc with
  | @creSem semid pk i hi =>
    refine ⟨a.withSem i pk, ?_, withSem_semcb hpk, rfl⟩
    show Spec.creSem semid pk a = _
    rw [Spec.creSem, badSemid_of_ok hi, creSem_ok hi hs hpk]
    rfl
  | @acreSem pk i hi =>
    refine ⟨a.withSem i pk, ?_, withSem_semcb hpk, rfl⟩
    show Spec.acreSem pk a = _
    rw [acreSem_eq hi, creSem_ok (entryOf_id i) hs hpk]
    rfl
  | @creFlg flgid pk i hi =>
    refine ⟨a.withFlg i pk, ?_, withFlg_flgcb, rfl⟩
    show Spec.creFlg flgid pk a = _
    rw [Spec.creFlg, badFlgid_of_ok hi, creFlg_ok hi hs hpk]
    rfl
  | @acreFlg pk i hi =>
    refine ⟨a.withFlg i pk, ?_, withFlg_flgcb, rfl⟩
    show Spec.acreFlg pk a = _
    rw [acreFlg_eq hi, creFlg_ok (entryOf_id i) hs hpk]
    rfl
  | @creMbx mbxid pk i hi =>
    refine ⟨a.withMbx i pk, ?_, withMbx_mbxcb, rfl⟩
    show Spec.creMbx mbxid pk a = _
    rw [Spec.creMbx, badMbxid_of_ok hi, creMbx_ok hi hs hpk]
    rfl
  | @acreMbx pk i hi =>
    refine ⟨a.withMbx i pk, ?_, withMbx_mbxcb, rfl⟩
    show Spec.acreMbx pk a = _
    rw [acreMbx_eq hi, creMbx_ok (entryOf_id i) hs hpk]
    rfl

end Ittrium.Spec
