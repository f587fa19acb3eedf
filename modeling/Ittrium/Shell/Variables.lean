import Ittrium.Infra.Run
import Ittrium.Infra.Slots
import Ittrium.Shell.Parse

/-!
# The variables

* `VarCall` — the calls, with pointers that may be null
* `lastSet` — what was last set for a name and not unset since
* `variables_are_a_map` — **whatever was called, the table is the finite map of what was last set**
-/

namespace Ittrium.Shell

open Ittrium.Infra

variable {vars : Vars} {name n : Str} {val : Str} {i : Fin shellVarMax}

/-- The identifiers that fit into `name`. -/
structure ValidName (name : Str) : Prop where
  start : name.head?.any isNameStart = true
  chars : name.all isNameChar = true
  fits : name.length < shellVarName

/-! ## One call on the table -/

theorem shellVarGet_eq : shellVarGet name vars = lookup name vars := rfl

theorem find_some (h : ((List.finRange shellVarMax).find? fun i =>
    (vars i).any fun v => v.1 = name) = some i) : ∃ val, vars i = some (name, val) := by
  have hany := List.find?_some h
  obtain ⟨⟨n, val⟩, hi, hn⟩ := (Option.any_eq_true _ _).mp hany
  obtain rfl := of_decide_eq_true hn
  exact ⟨val, hi⟩

theorem find_none (h : ((List.finRange shellVarMax).find? fun i =>
    (vars i).any fun v => v.1 = name) = none) : lookup name vars = none := by
  rw [lookup_eq_none]
  intro i v hi hn
  have := List.find?_eq_none.mp h i (List.mem_finRange i)
  simp [hi, hn] at this

theorem shellVarSet_invalid (h : ¬ ValidName name) : shellVarSet name val vars = (vars, false) := by
  unfold shellVarSet
  rw [if_pos]
  by_contra hc
  refine h ⟨?_, ?_, ?_⟩ <;> simp_all

/-- What is set takes the place of the name, or a free place if it has none. -/
theorem shellVarSet_cases (vars : Vars) (val : Str) (h : ValidName name) :
    (∃ i, ((∃ old, vars i = some (name, old)) ∨ lookup name vars = none ∧ vars i = none) ∧
      shellVarSet name val vars =
        (Function.update vars i (some (name, val.take (shellVarVal - 1))), true)) ∨
    (lookup name vars = none ∧ (∀ i, vars i ≠ none) ∧
      shellVarSet name val vars = (vars, false)) := by
  have hc : ¬ ((!(name.head?.any isNameStart) || !(name.all isNameChar) ||
      decide (name.length ≥ shellVarName)) = true) := by
    have := h.fits
    simp [h.start, h.chars]
    omega
  unfold shellVarSet
  rw [if_neg hc]
  dsimp only
  cases hfind : (List.finRange shellVarMax).find? fun i => (vars i).any fun v => v.1 = name with
  | some i => exact Or.inl ⟨i, Or.inl (find_some hfind), rfl⟩
  | none =>
    cases hfree : (List.finRange shellVarMax).find? fun i => (vars i).isNone with
    | some i =>
      exact Or.inl ⟨i, Or.inr ⟨find_none hfind, by simpa using List.find?_some hfree⟩, rfl⟩
    | none =>
      refine Or.inr ⟨find_none hfind, fun i hi => ?_, rfl⟩
      have := List.find?_eq_none.mp hfree i (List.mem_finRange i)
      simp [hi] at this

theorem shellVarUnset_cases (name : Str) (vars : Vars) :
    (∃ i val, vars i = some (name, val) ∧
      shellVarUnset name vars = (Function.update vars i none, true)) ∨
    (lookup name vars = none ∧ shellVarUnset name vars = (vars, false)) := by
  unfold shellVarUnset
  cases hfind : (List.finRange shellVarMax).find? fun i => (vars i).any fun v => v.1 = name with
  | some i =>
    obtain ⟨val, hi⟩ := find_some hfind
    exact Or.inl ⟨i, val, hi, rfl⟩
  | none => exact Or.inr ⟨find_none hfind, rfl⟩

/-! ## Calls -/

/-- The calls. A pointer may be null. -/
inductive VarCall where
  | set (name val : Option Str)
  | unset (name : Option Str)
  | get (name : Option Str)
  deriving DecidableEq

/-- What a call returns. -/
inductive VarReply where
  | status (r : Int)
  | value (v : Option Str)
  deriving DecidableEq

/-- The name a call is about. -/
def VarCall.about : VarCall → Option Str
  | .set name _ => name
  | .unset name => name
  | .get name => name

/-- `0` or `-1`. -/
def statusOf (ok : Bool) : VarReply := .status (if ok then 0 else -1)

/-- `shell_var_set`, `shell_var_unset` and `shell_var_get`. -/
def varCall (vars : Vars) : VarCall → Vars × VarReply
  | .set none _ => (vars, statusOf false)
  | .set (some name) val =>
    let r := shellVarSet name (val.getD []) vars
    (r.1, statusOf r.2)
  | .unset none => (vars, statusOf false)
  | .unset (some name) =>
    let r := shellVarUnset name vars
    (r.1, statusOf r.2)
  | .get name => (vars, .value (name.bind fun name => shellVarGet name vars))

/-- A call and what it returned. -/
abbrev VarEvent := Event Vars (VarCall × VarReply)

/-- The runs from the empty table. -/
abbrev VarRun (tr : List VarEvent) (vars : Vars) : Prop :=
  Run (· = fun _ => none) (fun v l v' => varCall v l.1 = (v', l.2)) tr vars

/-- What was last set for the name, unless it was unset since. -/
def lastSet (n : Str) : List VarEvent → Option Str
  | [] => none
  | e :: tr =>
    match e.label with
    | (.set name val, r) =>
      if name = some n ∧ r = statusOf true then some ((val.getD []).take (shellVarVal - 1))
      else lastSet n tr
    | (.unset name, _) => if name = some n then none else lastSet n tr
    | (.get _, _) => lastSet n tr

/-- The table is the map of what was last set. -/
structure Tracks (tr : List VarEvent) (vars : Vars) : Prop where
  valid : ∀ i v, vars i = some v → ValidName v.1
  distinct : Distinct vars
  last : ∀ n, lookup n vars = lastSet n tr

/-! ## What a call does -/

@[simp] theorem statusOf_inj {a b : Bool} : statusOf a = statusOf b ↔ a = b := by
  cases a <;> cases b <;> simp [statusOf]

/-- **A name is set if it is valid and has a place or there is a free one.** -/
theorem set_spec (name val : Str) (hd : Distinct vars) :
    (ValidName name ∧ (lookup name vars ≠ none ∨ ∃ i, vars i = none) ∧
      ∃ i, Avoids name i vars ∧ (∀ v, vars i = some v → v.1 = name) ∧
        shellVarSet name val vars =
          (Function.update vars i (some (name, val.take (shellVarVal - 1))), true)) ∨
    ((¬ ValidName name ∨ lookup name vars = none ∧ ∀ i, vars i ≠ none) ∧
      shellVarSet name val vars = (vars, false)) := by
  by_cases hn : ValidName name
  · rcases shellVarSet_cases vars val hn with ⟨i, hi, hset⟩ | ⟨hl, hfull, hset⟩
    · refine Or.inl ⟨hn, ?_, i, ?_, ?_, hset⟩
      · rcases hi with ⟨old, hi⟩ | ⟨-, hi⟩
        · exact Or.inl fun h => lookup_eq_none.mp h i _ hi rfl
        · exact Or.inr ⟨i, hi⟩
      · rcases hi with ⟨old, hi⟩ | ⟨hl, -⟩
        · exact hd.avoids hi
        · exact avoids_of_lookup hl
      · rintro v hvi
        rcases hi with ⟨old, hi⟩ | ⟨-, hi⟩
        · rw [hi] at hvi
          cases hvi
          rfl
        · rw [hi] at hvi
          cases hvi
    · exact Or.inr ⟨Or.inr ⟨hl, hfull⟩, hset⟩
  · exact Or.inr ⟨Or.inl hn, shellVarSet_invalid hn⟩

theorem lookup_of_other (c : VarCall) (hn : c.about ≠ some n) (hd : Distinct vars) :
    lookup n (varCall vars c).1 = lookup n vars := by
  have hne : ∀ {k : Str}, some k ≠ some n → k ≠ n := fun h hk => h (congrArg some hk)
  cases c with
  | set name val =>
    cases name with
    | none => rfl
    | some name =>
      rcases set_spec name (val.getD []) hd with
        ⟨-, -, i, -, hi, hset⟩ | ⟨-, hset⟩
      · rw [varCall, hset]
        -- the entry that changes had another name, and has
        refine lookup_update_of_ne (fun v hv => ?_) fun v hv => ?_
        · rw [hi v hv]
          exact hne hn
        · cases hv
          exact hne hn
      · rw [varCall, hset]
  | unset name =>
    cases name with
    | none => rfl
    | some name =>
      rcases shellVarUnset_cases name vars with ⟨i, val, hi, hset⟩ | ⟨-, hset⟩
      · rw [varCall, hset]
        refine lookup_update_of_ne (fun v hv => ?_) fun v hv => ?_
        · rw [hi] at hv
          cases hv
          exact hne hn
        · cases hv
      · rw [varCall, hset]
  | get name => rfl

/-- **A call that fails changes nothing.** -/
theorem varCall_failed (c : VarCall) (h : (varCall vars c).2 = statusOf false) :
    (varCall vars c).1 = vars := by
  cases c with
  | set name val =>
    cases name with
    | none => rfl
    | some name =>
      by_cases hn : ValidName name
      · rcases shellVarSet_cases vars (val.getD []) hn with
          ⟨i, -, hset⟩ | ⟨-, -, hset⟩
        · rw [varCall, hset] at h
          simp at h
        · rw [varCall, hset]
      · rw [varCall, shellVarSet_invalid hn]
  | unset name =>
    cases name with
    | none => rfl
    | some name =>
      rcases shellVarUnset_cases name vars with ⟨i, val, -, hset⟩ | ⟨-, hset⟩
      · rw [varCall, hset] at h
        simp at h
      · rw [varCall, hset]
  | get name => rfl

/-! ## Runs -/

variable {tr : List VarEvent}

/-- A call on another name is not looked at. -/
theorem lastSet_of_other {c : VarCall} {r : VarReply} {vars' : Vars} (hn : c.about ≠ some n) :
    lastSet n (⟨vars, (c, r), vars'⟩ :: tr) = lastSet n tr := by
  cases c with
  | set name val => exact if_neg fun h => hn h.1
  | unset name => exact if_neg hn
  | get name => rfl

/-- What a call makes of the table. -/
theorem varCall_table (c : VarCall) (hd : Distinct vars)
    (hv : ∀ i v, vars i = some v → ValidName v.1) :
    Distinct (varCall vars c).1 ∧ ∀ i v, (varCall vars c).1 i = some v → ValidName v.1 := by
  have hupd : ∀ {vars' : Vars} {i e}, vars' = Function.update vars i e →
      (∀ v, e = some v → ValidName v.1) → ∀ j v, vars' j = some v → ValidName v.1 := by
    rintro _ i e rfl he j v hj
    by_cases hji : j = i
    · rw [hji, Function.update_self] at hj
      exact he v hj
    · rw [Function.update_of_ne hji] at hj
      exact hv j v hj
  cases c with
  | set name val =>
    cases name with
    | none => exact ⟨hd, hv⟩
    | some name =>
      rcases set_spec name (val.getD []) hd with
        ⟨hn, -, i, ha, -, hset⟩ | ⟨-, hset⟩
      · rw [varCall, hset]
        refine ⟨hd.put ha, hupd rfl fun v hv => ?_⟩
        cases hv
        exact hn
      · rw [varCall, hset]
        exact ⟨hd, hv⟩
  | unset name =>
    cases name with
    | none => exact ⟨hd, hv⟩
    | some name =>
      rcases shellVarUnset_cases name vars with ⟨i, val, hi, hset⟩ | ⟨-, hset⟩
      · rw [varCall, hset]
        refine ⟨hd.erase, hupd rfl fun v hv => ?_⟩
        cases hv
      · rw [varCall, hset]
        exact ⟨hd, hv⟩
  | get name => exact ⟨hd, hv⟩

/-- What is last set is what the table has of the name the call is about. -/
theorem lookup_about (c : VarCall) (hn : c.about = some n) (hd : Distinct vars)
    (hl : lookup n vars = lastSet n tr) :
    lookup n (varCall vars c).1 =
      lastSet n (⟨vars, (c, (varCall vars c).2), (varCall vars c).1⟩ :: tr) := by
  cases c with
  | set name val =>
    obtain rfl : name = some n := hn
    rcases set_spec n (val.getD []) hd with ⟨-, -, i, ha, -, hset⟩ | ⟨-, hset⟩
    · simp only [varCall, hset, lastSet]
      rw [if_pos (by simp), hd.lookup_put ha]
    · simp only [varCall, hset, lastSet]
      rw [if_neg (by simp), hl]
  | unset name =>
    obtain rfl : name = some n := hn
    rcases shellVarUnset_cases n vars with ⟨i, val, hi, hset⟩ | ⟨hnone, hset⟩
    · simp only [varCall, hset, lastSet]
      rw [if_pos trivial, hd.lookup_erase hi]
    · simp only [varCall, hset, lastSet]
      rw [if_pos trivial, hnone]
  | get name => exact hl

theorem VarRun.tracks (h : VarRun tr vars) : Tracks tr vars := by
  induction h with
  | start h =>
    subst h
    refine ⟨fun i v hv => ?_, distinct_empty, fun n => ?_⟩
    · cases hv
    · exact lookup_eq_none.mpr fun i v hv => by cases hv
  | @step tr vars vars' l _ hs ih =>
    obtain ⟨c, r⟩ := l
    have hs : varCall vars c = (vars', r) := hs
    obtain ⟨hd, hv⟩ := varCall_table c ih.distinct ih.valid
    have hlast : ∀ n, lookup n (varCall vars c).1 =
        lastSet n (⟨vars, (c, (varCall vars c).2), (varCall vars c).1⟩ :: tr) := by
      intro n
      by_cases hn : c.about = some n
      · exact lookup_about c hn ih.distinct (ih.last n)
      · rw [lookup_of_other c hn ih.distinct, lastSet_of_other hn, ih.last n]
    rw [hs] at hd hv hlast
    exact ⟨hv, hd, hlast⟩

/-- The names that are set. -/
def setNames (tr : List VarEvent) : Set Str := {n | lastSet n tr ≠ none}

/-- What the table is after the calls `tr`. -/
structure IsFiniteMap (tr : List VarEvent) (vars : Vars) : Prop where
  /-- The names in use are identifiers of `1..SHELL_VAR_NAME - 1` characters. -/
  valid : ∀ i v, vars i = some v → ValidName v.1
  distinct : ∀ i j v w, vars i = some v → vars j = some w → v.1 = w.1 → i = j
  get : ∀ n, (varCall vars (.get (some n))).2 = .value (lastSet n tr)
  /-- A call to set fails for an invalid name, or for a new one when all places are taken. -/
  set_fails : ∀ name val, (varCall vars (.set name val)).2 = statusOf false ↔
    ∀ n, name = some n → ¬ ValidName n ∨ n ∉ setNames tr ∧ (setNames tr).ncard = shellVarMax
  unset_fails : ∀ name, (varCall vars (.unset name)).2 = statusOf false ↔
    ∀ n, name = some n → n ∉ setNames tr
  failed : ∀ c, (varCall vars c).2 = statusOf false → (varCall vars c).1 = vars
  others : ∀ c n, c.about ≠ some n →
    (varCall (varCall vars c).1 (.get (some n))).2 = (varCall vars (.get (some n))).2

/-- **Whatever was called, the table is the finite map of what was last set.** -/
theorem variables_are_a_map (h : VarRun tr vars) : IsFiniteMap tr vars := by
  have hh := h.tracks
  -- what the statement says of the past, said of the table
  have hmem : ∀ n, n ∉ setNames tr ↔ lookup n vars = none := by
    intro n
    rw [hh.last n]
    exact not_not
  have hfull : (setNames tr).ncard = shellVarMax ↔ ∀ i, vars i ≠ none := by
    rw [← hh.distinct.ncard_keys]
    simp only [setNames, hh.last]
  refine ⟨hh.valid, hh.distinct, fun n => ?_, fun name val => ?_, fun name => ?_,
    fun c => varCall_failed c, fun c n hn => ?_⟩
  · exact congrArg VarReply.value (hh.last n)
  · cases name with
    | none => simp [varCall]
    | some n =>
      rcases set_spec n (val.getD []) hh.distinct with
        ⟨hv, hroom, i, -, -, hset⟩ | ⟨hwhy, hset⟩
      · simp only [varCall, hset, statusOf_inj, Option.some.injEq, forall_eq', hmem, hfull,
          Bool.true_eq_false, false_iff]
        rintro (hc | ⟨hl, hall⟩)
        · exact hc hv
        · rcases hroom with hc | ⟨i, hi⟩
          · exact hc hl
          · exact hall i hi
      · simp only [varCall, hset, Option.some.injEq, forall_eq', hmem, hfull, true_iff]
        exact hwhy
  · cases name with
    | none => simp [varCall]
    | some n =>
      rcases shellVarUnset_cases n vars with ⟨i, val, hi, hset⟩ | ⟨hnone, hset⟩
      · simp only [varCall, hset, statusOf_inj, Option.some.injEq, forall_eq', hmem,
          Bool.true_eq_false, false_iff]
        exact fun hnone => lookup_eq_none.mp hnone i _ hi rfl
      · simp only [varCall, hset, Option.some.injEq, forall_eq', hmem, true_iff]
        exact hnone
  · exact congrArg VarReply.value (lookup_of_other c hn hh.distinct)

/-- `A` is set and unset, which leaves its place free before that of `B`. `B` is set again, and a
name that begins with a digit is refused. -/
def sampleCalls : List VarCall :=
  [.set (some [0x41]) (some [0x61]), .set (some [0x42]) (some [0x62]), .unset (some [0x41]),
    .set (some [0x42]) (some [0x63]), .set (some [0x31]) (some [0x64])]

theorem variables_are_a_map_one : ∃ (tr : List VarEvent) (vars : Vars), VarRun tr vars ∧
    tr.map (·.label.2) = [statusOf false, statusOf true, statusOf true, statusOf true, statusOf true] ∧
    ((List.finRange shellVarMax).take 2).map vars = [none, some ([0x42], [0x63])] ∧
    lastSet [0x41] tr = none ∧ lastSet [0x42] tr = some [0x63] ∧ IsFiniteMap tr vars := by
  obtain ⟨tr, vars, h, hr, hplaces, hA, hB⟩ := exists_perform
    (f := fun vars c => some (varCall vars c)) (C := fun _ _ => True)
    (Eq.refl fun _ => none) sampleCalls
    (fun tr vars => tr.map (·.label.2) =
        [statusOf false, statusOf true, statusOf true, statusOf true, statusOf true] ∧
      ((List.finRange shellVarMax).take 2).map vars = [none, some ([0x42], [0x63])] ∧
        lastSet [0x41] tr = none ∧ lastSet [0x42] tr = some [0x63]) (by decide +kernel)
  have hrun : VarRun tr vars :=
    h.mono (fun _ hs => hs.symm) fun _ _ _ hs => Option.some.inj hs.2
  exact ⟨tr, vars, hrun, hr, hplaces, hA, hB, variables_are_a_map hrun⟩

end Ittrium.Shell
