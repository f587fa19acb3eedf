import Ittrium.Vfs.RamSteps
import Ittrium.Infra.Table

/-!
# The names of the files

`alloc_ent` stores at most 47 bytes of a name, and `find_ent` compares all of it. A name that does
not fit is never found again, and every open with `VFS_O_CREAT` makes it anew.

* `Names` — the new entries hold their names, and the lists have room for them
* `NamesRight` — what opens, stats and lists rely on
* `names_of_files` — **they may while the names fit**
-/

namespace Ittrium.Vfs

open Infra

variable {W : Nat} {m m' : RamMem} {rel name : Str} {flags : Flags} {e : Answer} {i j : EntIx}
  {f : Addr} {tr : List RamEvent} {ev : RamEvent}

/-! ## What is promised -/

instance (m : RamMem) : Decidable m.Full :=
  inferInstanceAs (Decidable (∀ i, (m.ents i).used = true))

/-- A name of a file that is made fits in the field, and the buffer of a list has room for all
names. -/
def Names (m : RamMem) : RamAct → Prop
  | .open_ rel flags _ =>
    flags.has vfsOCreat = true → findEnt m rel = none → ¬ m.Full → (strip rel).length < ramfsNameMax
  | .listdir _ nlen _ => ∀ i, (m.ents i).used = true → (m.ents i).name.length < nlen
  | _ => True

instance (m : RamMem) (a : RamAct) : Decidable (Names m a) :=
  RamAct.casesOn (motive := fun a => Decidable (Names m a)) a
    (fun rel flags _ => inferInstanceAs (Decidable
      (flags.has vfsOCreat = true → findEnt m rel = none → ¬ m.Full →
        (strip rel).length < ramfsNameMax)))
    (fun _ _ => inferInstanceAs (Decidable True))
    (fun _ _ _ _ => inferInstanceAs (Decidable True))
    (fun _ _ _ => inferInstanceAs (Decidable True))
    (fun _ => inferInstanceAs (Decidable True))
    (fun _ => inferInstanceAs (Decidable True))
    (fun _ nlen _ => inferInstanceAs (Decidable
      (∀ i, (m.ents i).used = true → (m.ents i).name.length < nlen)))

/-- The event is an open of the name that has succeeded, and the file is the entry `i`. -/
def Opened (ev : RamEvent) (name : Str) (i : EntIx) : Prop :=
  ∃ rel flags e a file, ev.label = (.open_ rel flags e, .opened (.ok a)) ∧ strip rel = name ∧
    ev.post.files a = some file ∧ file.ent = i

/-- The lists of a caller who begins at `0` and goes on from the index he gets: the names so far,
and the next index. Other calls come in between. -/
inductive Listed : List RamEvent → List Str → Int → Prop where
  | start (tr : List RamEvent) : Listed tr [] 0
  | other {tr : List RamEvent} {names : List Str} {idx : Int} (ev : RamEvent) :
      Listed tr names idx → Listed (ev :: tr) names idx
  | next {tr : List RamEvent} {names : List Str} {idx : Int} {m m' : RamMem} {rel : Str}
      {nlen : Nat} {entry : Listing} : Listed tr names idx →
      Listed (⟨m, (.listdir rel nlen idx, .listed (.name entry)), m'⟩ :: tr) (names ++ [entry.name])
        entry.idx

/-- What the calls rely on, in a state reached with the past `tr`. -/
structure NamesRight (tr : List RamEvent) (m : RamMem) : Prop where
  found : ∀ ev ∈ tr, ∀ name i, Opened ev name i → ∀ rel, strip rel = name →
    rfStat rel m = .ok ⟨.reg, (m.ents i).size⟩ ∧ ∀ flags b, ∃ m' file,
      rfOpen rel flags (some b) m = (.ok b.addr, m') ∧ m'.files b.addr = some file ∧ file.ent = i
  same : ∀ ev ∈ tr, ∀ ev' ∈ tr, ∀ name name' i i', Opened ev name i → Opened ev' name' i' →
    (i = i' ↔ name = name')
  tooLong : ∀ rel flags e, ramfsNameMax ≤ (strip rel).length → Names m (.open_ rel flags e) →
    rfOpen rel flags e m = (.error (-1), m)
  listed : ∀ names idx, Listed tr names idx → ∀ rel nlen, rfListdir rel nlen idx m = some .done →
    names.Nodup ∧ ∀ name, name ∈ names ↔ ∃ i, m.Named i name

/-! ## The table -/

/-- The table of the files. The entries in use come first, and no two have one name. -/
structure RamMem.Indexed (m : RamMem) : Prop where
  filled : Filled fun i => (m.ents i).used
  distinct : ∀ i j name, m.Named i name → m.Named j name → i = j
  relative : ∀ i, (m.ents i).used = true → strip (m.ents i).name = (m.ents i).name
  nonempty : ∀ i, (m.ents i).used = true → (m.ents i).name ≠ []

/-- The entry is in use as before, and has its name. -/
def SameEnt (m m' : RamMem) (i : EntIx) : Prop :=
  (m'.ents i).used = (m.ents i).used ∧ (m'.ents i).name = (m.ents i).name

/-- What a call does to the names: nothing, or it makes a file. -/
def Renames (m m' : RamMem) (a : RamAct) : Prop :=
  (∀ i, SameEnt m m' i) ∨
    ∃ rel flags e i, a = .open_ rel flags e ∧ strip rel ≠ [] ∧ findEnt m rel = none ∧
      flags.has vfsOCreat = true ∧ (m.ents i).used = false ∧ (∀ j < i, (m.ents j).used = true) ∧
        m'.Named i ((strip rel).take (ramfsNameMax - 1)) ∧ ∀ j, j ≠ i → SameEnt m m' j

theorem SameEnt.named (h : SameEnt m m' i) : m'.Named i name ↔ m.Named i name := by
  unfold RamMem.Named
  rw [h.1, h.2]

theorem sameEnt_of_ents (h : m'.ents i = m.ents i) : SameEnt m m' i := by
  unfold SameEnt
  rw [h]
  exact ⟨rfl, rfl⟩

theorem sameEnt_truncEnt : SameEnt m (truncEnt i flags m) j := by
  by_cases hj : j = i
  · subst hj
    unfold SameEnt
    rw [truncEnt_ents_self]
    split <;> exact ⟨rfl, rfl⟩
  · exact sameEnt_of_ents (truncEnt_of_ne hj)

theorem renames_open {r : RamRes} (h : ramAct W m (.open_ rel flags e) = some (m', r)) :
    Renames m m' (.open_ rel flags e) := by
  cases h
  rcases rfOpen_cases rel flags e m with ⟨-, he⟩ | ⟨i, m₁, hne, hent, he⟩
  · exact Or.inl fun i => sameEnt_of_ents (by rw [he])
  · have hents : (rfOpen rel flags e m).2.ents = (truncEnt i flags m₁).ents := by
      rcases he with ⟨-, he⟩ | ⟨b, -, he⟩ <;> rw [he]
      rfl
    have htrunc : ∀ j, SameEnt m₁ (rfOpen rel flags e m).2 j := by
      intro j
      unfold SameEnt
      rw [hents]
      exact sameEnt_truncEnt
    rcases entFor_cases hent with ⟨-, hm⟩ | ⟨hnone, hcreat, hfree, hbefore, hm⟩ <;> subst hm
    · exact Or.inl htrunc
    · refine Or.inr ⟨rel, flags, e, i, rfl, hne, ?_, hcreat, hfree, hbefore, ?_, fun j hj => ?_⟩
      · rw [← findEnt_strip]
        exact hnone
      · refine (htrunc i).named.mpr ?_
        simp [RamMem.Named, RamfsEntry.new]
      · have := htrunc j
        unfold SameEnt at this ⊢
        rwa [RamMem.setEnt_of_ne hj] at this

theorem renames_step {a : RamAct} {r : RamRes} (h : ramAct W m a = some (m', r)) :
    Renames m m' a := by
  have hsame : m'.ents = m.ents → Renames m m' a :=
    fun hents => Or.inl fun i => sameEnt_of_ents (by rw [hents])
  cases a with
  | open_ rel flags e => exact renames_open h
  | read f len =>
    obtain ⟨x, hx, he⟩ := Option.map_eq_some_iff.mp h
    cases he
    obtain ⟨file, -, -, hm | ⟨file', -, hm⟩⟩ := rfRead_cases hx
    · exact hsame (by rw [hm])
    · exact hsame (by rw [hm, RamMem.setFile_ents])
  | write f buf len e =>
    obtain ⟨⟨n, m''⟩, hw, he⟩ := Option.map_eq_some_iff.mp h
    cases he
    obtain ⟨file, hf, -⟩ := Option.bind_eq_some_iff.mp hw
    rcases rfWrite_cases hf with ⟨-, he⟩ | ⟨hst, hmax, ent', hr, ⟨hcap, hpos, he⟩ | ⟨-, he⟩⟩
    · cases he.symm.trans hw
      exact hsame rfl
    · cases he.symm.trans hw
      -- a write changes the buffer and the size, not the name
      obtain ⟨hname, hused, -⟩ := reserve_some hr
      refine Or.inl fun i => ?_
      by_cases hi : i = file.ent
      · subst hi
        unfold SameEnt
        rw [RamMem.setFile_ents, RamMem.setEnt_self]
        exact ⟨hused, hname⟩
      · exact sameEnt_of_ents (by rw [RamMem.setFile_ents, RamMem.setEnt_of_ne hi])
    · cases he.symm.trans hw
  | lseek f off whence =>
    obtain ⟨x, hx, he⟩ := Option.map_eq_some_iff.mp h
    cases he
    obtain ⟨file, -, hm | ⟨-, file', -, hm⟩⟩ := rfLseek_cases hx
    · exact hsame (by rw [hm])
    · exact hsame (by rw [hm, RamMem.setFile_ents])
  | close f =>
    obtain ⟨x, hx, he⟩ := Option.map_eq_some_iff.mp h
    cases he
    obtain ⟨file, -, rfl⟩ := Option.map_eq_some_iff.mp hx
    exact hsame rfl
  | stat rel =>
    cases h
    exact hsame rfl
  | listdir rel nlen idx =>
    obtain ⟨x, hx, he⟩ := Option.map_eq_some_iff.mp h
    cases he
    exact hsame rfl

/-- A file keeps its entry and its name. -/
theorem Renames.named {a : RamAct} (h : Renames m m' a) (hn : m.Named i name) :
    m'.Named i name := by
  rcases h with hsame | ⟨rel, flags, e, k, -, -, -, -, hfree, -, -, hsame⟩
  · exact (hsame i).named.mpr hn
  · have hik : i ≠ k := by
      rintro rfl
      rw [hn.1] at hfree
      cases hfree
    exact (hsame i hik).named.mpr hn

theorem RamMem.Indexed.renames {a : RamAct} (h : m.Indexed) (hnames : Names m a)
    (hr : Renames m m' a) : m'.Indexed := by
  rcases hr with hsame | ⟨rel, flags, e, k, rfl, hne, hnone, hcreat, hfree, hbefore, hk, hsame⟩
  · have hused : (fun i => (m'.ents i).used) = fun i => (m.ents i).used :=
      funext fun i => (hsame i).1
    constructor
    · rw [hused]
      exact h.filled
    · intro i j name hi hj
      exact h.distinct i j name ((hsame i).named.mp hi) ((hsame j).named.mp hj)
    · intro i hi
      rw [(hsame i).2]
      exact h.relative i ((hsame i).1 ▸ hi)
    · intro i hi
      rw [(hsame i).2]
      exact h.nonempty i ((hsame i).1 ▸ hi)
  · -- the name fits, so it is stored as it is
    have hfits : (strip rel).length < ramfsNameMax := hnames hcreat hnone fun hfull => by
      rw [hfull k] at hfree
      cases hfree
    rw [List.take_of_length_le (by omega)] at hk
    have hnew : ∀ j, j ≠ k → ¬ m'.Named j (strip rel) := fun j hj hn =>
      findEnt_none hnone hne ((hsame j hj).named.mp hn)
    constructor
    · exact h.filled.take hbefore hk.1 fun j hj => (hsame j hj).1
    · intro i j name hi hj
      by_cases hik : i = k
      · subst hik
        by_contra hji
        rw [← hi.2, hk.2] at hj
        exact hnew j (Ne.symm hji) hj
      · by_cases hjk : j = k
        · subst hjk
          rw [← hj.2, hk.2] at hi
          exact absurd hi (hnew i hik)
        · exact h.distinct i j name ((hsame i hik).named.mp hi) ((hsame j hjk).named.mp hj)
    · intro i hi
      by_cases hik : i = k
      · rw [hik, hk.2, strip_strip]
      · rw [(hsame i hik).2]
        exact h.relative i ((hsame i hik).1 ▸ hi)
    · intro i hi
      by_cases hik : i = k
      · rw [hik, hk.2]
        exact hne
      · rw [(hsame i hik).2]
        exact h.nonempty i ((hsame i hik).1 ▸ hi)

theorem RamMem.Indexed.empty : RamMem.empty.Indexed := by
  constructor
  · intro i j _ hi
    cases hi
  · intro i j name hi
    cases hi.1
  · intro i hi
    cases hi
  · intro i hi
    cases hi

/-! ## Opens -/

theorem findEnt_named (h : m.Indexed) (hn : m.Named i (strip rel)) : findEnt m rel = some i := by
  have hne : strip rel ≠ [] := by
    rw [← hn.2]
    exact h.nonempty i hn.1
  cases hf : findEnt m rel with
  | none => exact absurd hn (findEnt_none hf hne)
  | some j => rw [h.distinct i j _ hn (findEnt_some hf).2]

/-- A file that is there is opened, if there is memory. -/
theorem rfOpen_found (h : findEnt m rel = some i) (flags : Flags) (b : Block) : ∃ m' file,
    rfOpen rel flags (some b) m = (.ok b.addr, m') ∧
      m'.files b.addr = some file ∧ file.ent = i := by
  have hfor : entFor (strip rel) flags m = some (i, m) := by
    unfold entFor
    rw [findEnt_strip, h]
  rcases rfOpen_cases rel flags (some b) m with
    ⟨hno | hno, -⟩ | ⟨k, m₁, -, hent, ⟨he, -⟩ | ⟨b', he, ho⟩⟩
  · exact absurd hno (findEnt_some h).1
  · rw [hfor] at hno
    cases hno
  · cases he
  · cases he
    cases hfor.symm.trans hent
    exact ⟨_, _, ho, RamMem.setFile_self _ _ _, rfl⟩

/-- What has been opened has the name it was opened with. -/
theorem opened_named {a : RamAct} {r : RamRes} (hnames : Names m a)
    (ha : ramAct W m a = some (m', r)) (ho : Opened ⟨m, (a, r), m'⟩ name i) : m'.Named i name := by
  obtain ⟨rel, flags, e, adr, file, hl, rfl, hfile, rfl⟩ := ho
  cases hl
  obtain ⟨hm, hres⟩ := Prod.mk.inj (Option.some.inj ha)
  subst hm
  rcases rfOpen_cases rel flags e m with ⟨-, he⟩ | ⟨k, m₁, hne, hent, ⟨-, he⟩ | ⟨b, -, he⟩⟩
  · rw [he] at hres
    cases hres
  · rw [he] at hres
    cases hres
  · rw [he] at hres hfile
    cases hres
    rw [RamMem.setFile_self] at hfile
    cases hfile
    rw [he]
    refine (SameEnt.named (i := k) (m := m₁) ?_).mpr ?_
    · exact sameEnt_truncEnt
    · rcases entFor_cases hent with ⟨hfound, rfl⟩ | ⟨hnone, hcreat, hfree, -, rfl⟩
      · simpa using (findEnt_some hfound).2
      · have hfits : (strip rel).length < ramfsNameMax := by
          refine hnames hcreat (by rwa [← findEnt_strip]) fun hfull => ?_
          rw [hfull k] at hfree
          cases hfree
        rw [RamMem.Named, RamMem.setEnt_self]
        exact ⟨rfl, List.take_of_length_le (by omega)⟩

/-! ## Lists -/

/-- The lists up to `idx` have given the names of the first entries. -/
def RamMem.Lists (m : RamMem) (names : List Str) (idx : Int) : Prop :=
  idx = names.length ∧ ∀ k name, names[k]? = some name → ∃ i : EntIx, i.val = k ∧ m.Named i name

theorem usedEnts_getElem? (h : m.Indexed) {k : Nat} :
    (usedEnts m)[k]? = some i ↔ i.val = k ∧ (m.ents i).used = true :=
  h.filled.getElem?_filter

/-- One more list gives the name of the next entry. -/
theorem RamMem.Lists.next {names : List Str} {idx : Int} {nlen : Nat} {entry : Listing}
    (h : m.Lists names idx) (hm : m.Indexed)
    (hroom : ∀ i, (m.ents i).used = true → (m.ents i).name.length < nlen)
    (hl : rfListdir rel nlen idx m = some (.name entry)) :
    m.Lists (names ++ [entry.name]) entry.idx := by
  obtain ⟨hidx, hnames⟩ := h
  subst hidx
  unfold rfListdir at hl
  split at hl
  · cases hl
  · split at hl
    · cases hl
    · split at hl
      · cases hl
      · next i hi =>
        obtain ⟨s, hs, he⟩ := Option.map_eq_some_iff.mp hl
        cases he
        obtain ⟨hik, hused⟩ := (usedEnts_getElem? hm).mp hi
        have hlt := hroom i hused
        -- the name fits into the buffer, so it is not cut off
        have hname : s = (m.ents i).name := by
          unfold storeName at hs
          rw [if_neg (by omega), List.take_of_length_le (by omega)] at hs
          exact (Option.some.inj hs).symm
        refine ⟨by simp, fun k name hk => ?_⟩
        rw [List.getElem?_append] at hk
        split at hk
        · exact hnames k name hk
        · next hle =>
          obtain ⟨hzero, rfl⟩ := List.getElem?_eq_some_iff.mp hk
          have hk0 : k = names.length := by
            simp only [List.length_singleton] at hzero
            omega
          refine ⟨i, by simpa [hk0] using hik, hused, ?_⟩
          simp [hname]

/-- At the end all files have been listed, and each of them once. -/
theorem RamMem.Lists.done {names : List Str} {idx : Int} {nlen : Nat} (h : m.Lists names idx)
    (hm : m.Indexed) (hl : rfListdir rel nlen idx m = some .done) :
    names.Nodup ∧ ∀ name, name ∈ names ↔ ∃ i, m.Named i name := by
  obtain ⟨hidx, hnames⟩ := h
  subst hidx
  have hend : (usedEnts m)[names.length]? = none := by
    unfold rfListdir at hl
    split at hl
    · cases hl
    · split at hl
      · cases hl
      · split at hl
        · next hi => exact hi
        · obtain ⟨s, -, he⟩ := Option.map_eq_some_iff.mp hl
          cases he
  constructor
  · refine List.pairwise_iff_getElem.mpr fun k k' hk hk' hlt heq => ?_
    obtain ⟨i, hi, hn⟩ := hnames k _ (List.getElem?_eq_getElem hk)
    obtain ⟨i', hi', hn'⟩ := hnames k' _ (List.getElem?_eq_getElem hk')
    have hsame : i = i' := hm.distinct i i' _ hn (heq ▸ hn')
    rw [hsame] at hi
    omega
  · intro name
    constructor
    · intro hmem
      obtain ⟨k, hk⟩ := List.mem_iff_getElem?.mp hmem
      obtain ⟨i, -, hn⟩ := hnames k name hk
      exact ⟨i, hn⟩
    · rintro ⟨i, hn⟩
      -- an entry behind the end would be in use, and so would be the one at the end
      have hlt : i.val < names.length := by
        by_contra hle
        have hused : (m.ents ⟨names.length, by omega⟩).used = true := by
          rcases Nat.lt_or_eq_of_le (Nat.le_of_not_lt hle) with hlt | heq
          · exact hm.filled i ⟨names.length, by omega⟩ hlt hn.1
          · simpa [heq] using hn.1
        rw [(usedEnts_getElem? hm).mpr ⟨rfl, hused⟩] at hend
        cases hend
      obtain ⟨j, hj, hnj⟩ := hnames i.val _ (List.getElem?_eq_getElem hlt)
      obtain rfl : j = i := Fin.ext hj
      rw [← hn.2, hnj.2]
      exact List.getElem_mem hlt

/-! ## Runs -/

/-- What has been opened and listed in the past is still there. -/
structure RamMem.Remembers (m : RamMem) (tr : List RamEvent) : Prop where
  indexed : m.Indexed
  opened : ∀ ev ∈ tr, ∀ name i, Opened ev name i → m.Named i name
  lists : ∀ names idx, Listed tr names idx → m.Lists names idx

theorem RamMem.Lists.named {names : List Str} {idx : Int} (h : m.Lists names idx)
    (hkeep : ∀ i name, m.Named i name → m'.Named i name) : m'.Lists names idx := by
  refine ⟨h.1, fun k name hk => ?_⟩
  obtain ⟨i, hi, hn⟩ := h.2 k name hk
  exact ⟨i, hi, hkeep i name hn⟩

theorem RamMem.Remembers.step {a : RamAct} {r : RamRes} (h : m.Remembers tr) (hnames : Names m a)
    (ha : ramAct W m a = some (m', r)) : m'.Remembers (⟨m, (a, r), m'⟩ :: tr) := by
  have hr := renames_step ha
  constructor
  · exact h.indexed.renames hnames hr
  · intro ev hev name i ho
    rcases List.mem_cons.mp hev with rfl | hev
    · exact opened_named hnames ha ho
    · exact hr.named (h.opened ev hev name i ho)
  · intro names idx hl
    cases hl with
    | start => exact ⟨rfl, by simp⟩
    | other _ hl => exact (h.lists names idx hl).named fun i name => hr.named
    | next hl =>
      obtain ⟨x, hx, he⟩ := Option.map_eq_some_iff.mp ha
      cases he
      exact (h.lists _ _ hl).next h.indexed hnames hx

theorem RamMem.Remembers.right (h : m.Remembers tr) : NamesRight tr m where
  found := by
    intro ev hev name i ho rel hrel
    subst hrel
    have hf := findEnt_named h.indexed (h.opened ev hev _ i ho)
    refine ⟨?_, fun flags b => rfOpen_found hf flags b⟩
    unfold rfStat
    dsimp only
    rw [if_neg (findEnt_some hf).1, findEnt_strip, hf]
  same := by
    intro ev hev ev' hev' name name' i i' ho ho'
    have hn := h.opened ev hev name i ho
    have hn' := h.opened ev' hev' name' i' ho'
    constructor
    · rintro rfl
      rw [← hn.2, hn'.2]
    · rintro rfl
      exact h.indexed.distinct i i' _ hn hn'
  tooLong := by
    intro rel flags e hlong hnames
    have hnone : findEnt m rel = none := by
      cases hf : findEnt m rel with
      | none => rfl
      | some j =>
        have := (m.ents j).name_lt
        rw [(findEnt_some hf).2.2] at this
        omega
    rcases rfOpen_cases rel flags e m with ⟨-, he⟩ | ⟨k, m₁, -, hent, -⟩
    · exact he
    · rw [← findEnt_strip] at hnone
      rcases entFor_cases hent with ⟨hfound, -⟩ | ⟨-, hcreat, hfree, -⟩
      · cases hnone.symm.trans hfound
      · -- the condition does not allow a new file of that name
        have := hnames hcreat (by rwa [← findEnt_strip]) fun hfull => by
          rw [hfull k] at hfree
          cases hfree
        omega
  listed := fun names idx hl rel nlen hd => (h.lists names idx hl).done h.indexed hd

theorem RamMem.Remembers.start : RamMem.empty.Remembers [] := by
  refine ⟨.empty, by simp, fun names idx hl => ?_⟩
  cases hl
  exact ⟨rfl, by simp⟩

/-- **While the names fit, a file is found by the name it was made with, and by no other one, and
the lists of a caller give every file once.** -/
theorem names_of_files (h : RamRun W Names tr m) : NamesRight tr m := by
  suffices hr : m.Remembers tr from hr.right
  induction h with
  | start hs => exact hs ▸ .start
  | step _ hs ih => exact ih.step hs.1.2 hs.2

/-- The file `b` is made between two lists. -/
theorem names_of_files_two : ∃ tr m, RamRun 64 Names tr m ∧ NamesRight tr m ∧
    (usedEnts m).length = 2 ∧ rfListdir [] 48 2 m = some .done := by
  have hstart : RamStart .empty := rfl
  obtain ⟨tr, m, hrun, hlen, hdone⟩ := exists_perform
    (f := ramAct 64) (C := fun m a => m.Admits 64 a ∧ Names m a) hstart
    [.open_ pathA vfsOCreat (filledWith 1 0), .listdir [] 48 0,
      .open_ pathB vfsOCreat (filledWith 2 0), .listdir [] 48 1, .stat pathB]
    (fun _ m => (usedEnts m).length = 2 ∧ rfListdir [] 48 2 m = some .done) (by decide +kernel)
  exact ⟨tr, m, hrun, names_of_files hrun, hlen, hdone⟩

/-- A name that does not fit in the field. -/
def longName : Str := List.replicate 48 0x61

/-- The file is made and cannot be found. -/
theorem names_of_files_long : ∃ tr m, RamRun 64 (fun _ _ => True) tr m ∧ ¬ NamesRight tr m := by
  let m := (rfOpen longName vfsOCreat (filledWith 1 0) .empty).2
  have hok : (rfOpen longName vfsOCreat (filledWith 1 0) .empty).1 = .ok 1 := rfl
  have hrun : RamRun 64 (fun _ _ => True)
      [⟨.empty, (.open_ longName vfsOCreat (filledWith 1 0), .opened (.ok 1)), m⟩] m := by
    refine .step (.start rfl) ⟨⟨by decide +kernel, trivial⟩, ?_⟩
    rw [← hok]
    rfl
  refine ⟨_, m, hrun, fun hright => ?_⟩
  have hstat : (rfStat longName m).toOption = none := by decide +kernel
  have hfile : (m.files 1).isSome = true := by decide +kernel
  obtain ⟨file, hfile⟩ := Option.isSome_iff_exists.mp hfile
  rw [(hright.found _ (List.mem_singleton_self _) longName file.ent
    ⟨longName, vfsOCreat, filledWith 1 0, 1, file, rfl, by decide, hfile, rfl⟩ longName
    (by decide)).1] at hstat
  cases hstat

end Ittrium.Vfs
