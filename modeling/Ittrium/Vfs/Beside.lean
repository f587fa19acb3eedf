import Ittrium.Vfs.Readers

/-!
# File systems side by side

Each file system has memory and files of its own. In one VFS they stand side by side: what is called
for one of them leaves the others alone.

* `Place` — where a file system stands among others
* `FileOps.at` — its operations there
* `Readable.at` — **a file system is readable wherever it stands**
* `Reader.beside` — two of them
-/

namespace Ittrium.Vfs

open Infra

/-! ## Places -/

/-- Where the pointers and the memory of one file system are among those of all. -/
structure Place (Fs₁ File₁ ε₁ σ₁ Fs File ε σ : Type) where
  fs : Fs → Option Fs₁
  file : File₁ → File
  unfile : File → Option File₁
  unfile_eq : ∀ g f, unfile g = some f ↔ g = file f
  env : ε → ε₁
  mem : σ → σ₁
  put : σ₁ → σ → σ

variable {Fs₁ File₁ ε₁ σ₁ ω₁ ν₁ Fs File ε σ ω ν : Type}
  {place : Place Fs₁ File₁ ε₁ σ₁ Fs File ε σ}

/-- The operations of the file system, called with the pointers of all. They are not called with
those of another one. -/
def FileOps.at (place : Place Fs₁ File₁ ε₁ σ₁ Fs File ε σ) (ops : FileOps Fs₁ File₁ ε₁ σ₁) :
    FileOps Fs File ε σ where
  «open» := ops.open.map fun op fs rel flags e s =>
    (place.fs fs).elim (.error (-1), s) fun fs =>
      let r := op fs rel flags (place.env e) (place.mem s)
      (r.1.map place.file, place.put r.2 s)
  read := ops.read.map fun op f len s => (place.unfile f).bind fun f =>
    (op f len (place.mem s)).map fun r => (r.1, place.put r.2 s)
  write := ops.write.map fun op f buf len e s => (place.unfile f).bind fun f =>
    (op f buf len (place.env e) (place.mem s)).map fun r => (r.1, place.put r.2 s)
  close := ops.close.map fun op f s => (place.unfile f).bind fun f =>
    (op f (place.mem s)).map fun r => (r.1, place.put r.2 s)
  stat := ops.stat.map fun op fs rel s =>
    (place.fs fs).elim (.error (-1)) fun fs => op fs rel (place.mem s)
  lseek := ops.lseek.map fun op f off whence s => (place.unfile f).bind fun f =>
    (op f off whence (place.mem s)).map fun r => (r.1, place.put r.2 s)
  listdir := ops.listdir.map fun op fs rel nlen idx s =>
    (place.fs fs).bind fun fs => op fs rel nlen idx (place.mem s)

/-- What is to come, with another `rest` for the files of the place. -/
def Place.patch (place : Place Fs₁ File₁ ε₁ σ₁ Fs File ε σ) (rest₁ : File₁ → Option Str)
    (rest : File → Option Str) (g : File) : Option Str :=
  (place.unfile g).elim (rest g) rest₁

/-- The reader sees at the place what `r₁` sees. -/
structure Reader.Contains (r : Reader Fs File ε σ ω ν) (place : Place Fs₁ File₁ ε₁ σ₁ Fs File ε σ)
    (r₁ : Reader Fs₁ File₁ ε₁ σ₁ ω₁ ν₁) : Prop where
  ok : ∀ s, r.ok s → r₁.ok (place.mem s)
  fresh : ∀ e s, r.fresh e s → r₁.fresh (place.env e) (place.mem s)
  rest : ∀ s f, r.rest s (place.file f) = r₁.rest (place.mem s) f
  becomes : ∀ s s₁ rest₁, r.ok s → r₁.Becomes (place.mem s) s₁ rest₁ →
    r.Becomes s (place.put s₁ s) (place.patch rest₁ (r.rest s))
  text : ∀ s e fs fs₁ rel, place.fs fs = some fs₁ → r.text (r.view s) fs rel (r.see e) =
    r₁.text (r₁.view (place.mem s)) fs₁ rel (r₁.see (place.env e))
  stat : ∀ s fs fs₁ rel, place.fs fs = some fs₁ →
    r.stat (r.view s) fs rel = r₁.stat (r₁.view (place.mem s)) fs₁ rel
  names : ∀ s fs fs₁ rel, place.fs fs = some fs₁ →
    r.names (r.view s) fs rel = r₁.names (r₁.view (place.mem s)) fs₁ rel

variable {r : Reader Fs File ε σ ω ν} {r₁ : Reader Fs₁ File₁ ε₁ σ₁ ω₁ ν₁} {bound : Nat}
  {ops : FileOps Fs₁ File₁ ε₁ σ₁}

theorem Place.unfile_file (f : File₁) : place.unfile (place.file f) = some f :=
  (place.unfile_eq _ f).mpr rfl

variable [DecidableEq File₁] [DecidableEq File]

/-- What changes for one file of the place changes for it alone. -/
theorem Reader.Contains.patch_update (hr : r.Contains place r₁) (s : σ) (f : File₁)
    (x : Option Str) :
    place.patch (Function.update (r₁.rest (place.mem s)) f x) (r.rest s) =
      Function.update (r.rest s) (place.file f) x := by
  funext g
  unfold Place.patch
  cases hg : place.unfile g with
  | none =>
    have hne : g ≠ place.file f := by
      rintro rfl
      rw [Place.unfile_file] at hg
      cases hg
    rw [Option.elim_none, Function.update_of_ne hne]
  | some f' =>
    obtain rfl := (place.unfile_eq g f').mp hg
    rw [Option.elim_some]
    by_cases hf : f' = f
    · subst hf
      rw [Function.update_self, Function.update_self]
    · have hne : place.file f' ≠ place.file f := by
        intro he
        rw [he, Place.unfile_file] at hg
        exact hf (Option.some.inj hg).symm
      rw [Function.update_of_ne hf, Function.update_of_ne hne, hr.rest]

omit [DecidableEq File₁] [DecidableEq File] in
/-- What is to come stays as it is if it does for the file system. -/
theorem Reader.Contains.patch_same (hr : r.Contains place r₁) (s : σ) :
    place.patch (r₁.rest (place.mem s)) (r.rest s) = r.rest s := by
  funext g
  unfold Place.patch
  cases hg : place.unfile g with
  | none => rfl
  | some f =>
    obtain rfl := (place.unfile_eq g f).mp hg
    rw [Option.elim_some, hr.rest]

theorem Served.at (hr : r.Contains place r₁) {f : File₁} (h : Served r₁ ops f) :
    Served r (ops.at place) (place.file f) where
  reads := by
    obtain ⟨op, hop, hread⟩ := h.reads
    refine ⟨_, by unfold FileOps.at; rw [hop]; rfl, fun s t len hok ht => ?_⟩
    rw [hr.rest] at ht
    obtain ⟨s₁, hres, hb⟩ := hread (place.mem s) t len (hr.ok s hok) ht
    have hb := hr.becomes s s₁ _ hok hb
    rw [hr.patch_update] at hb
    refine ⟨_, ?_, hb⟩
    dsimp only
    rw [Place.unfile_file, Option.bind_some, hres, Option.map_some]
  closes := by
    obtain ⟨op, hop, hclose⟩ := h.closes
    refine ⟨_, by unfold FileOps.at; rw [hop]; rfl, fun s t hok ht => ?_⟩
    rw [hr.rest] at ht
    obtain ⟨rc, s₁, hres, hb⟩ := hclose (place.mem s) t (hr.ok s hok) ht
    have hb := hr.becomes s s₁ _ hok hb
    rw [hr.patch_update] at hb
    refine ⟨rc, _, ?_, hb⟩
    dsimp only
    rw [Place.unfile_file, Option.bind_some, hres, Option.map_some]

/-- **A file system is readable wherever it stands.** -/
theorem Readable.at (hr : r.Contains place r₁) {fs : Fs} {fs₁ : Fs₁} (hfs : place.fs fs = some fs₁)
    (h : Readable r₁ bound ops fs₁) : Readable r bound (ops.at place) fs where
  opens := by
    obtain ⟨op, hop, hopen⟩ := h.opens
    refine ⟨_, by unfold FileOps.at; rw [hop]; rfl, fun rel e s hok hfresh => ?_⟩
    obtain ⟨hfail, hsome⟩ := hopen rel (place.env e) (place.mem s) (hr.ok s hok)
      (hr.fresh e s hfresh)
    rw [hr.text s e fs fs₁ rel hfs]
    dsimp only
    rw [hfs, Option.elim_some]
    constructor
    · intro hnone
      obtain ⟨rc, s₁, hres, hneg, hb⟩ := hfail hnone
      have hb := hr.becomes s s₁ _ hok hb
      rw [hr.patch_same] at hb
      exact ⟨rc, _, by rw [hres]; rfl, hneg, hb⟩
    · intro t ht
      obtain ⟨hlen, f, s₁, hres, hnew, hserved, hb⟩ := hsome t ht
      have hb := hr.becomes s s₁ _ hok hb
      rw [hr.patch_update] at hb
      exact ⟨hlen, place.file f, _, by rw [hres]; rfl, by rw [hr.rest, hnew], hserved.at hr, hb⟩
  stats := by
    obtain ⟨op, hop, hstat⟩ := h.stats
    refine ⟨_, by unfold FileOps.at; rw [hop]; rfl, fun rel s => ?_⟩
    dsimp only
    rw [hfs, Option.elim_some, hr.stat s fs fs₁ rel hfs]
    exact hstat rel (place.mem s)
  lists := by
    obtain ⟨op, hop, hlist⟩ := h.lists
    refine ⟨_, by unfold FileOps.at; rw [hop]; rfl, fun rel s => ?_⟩
    dsimp only
    rw [hfs, hr.names s fs fs₁ rel hfs]
    exact hlist rel (place.mem s)

/-! ## Two file systems -/

variable {Fs₂ File₂ ε₂ σ₂ ω₂ ν₂ : Type}

/-- The place of the first of two file systems. -/
def leftPlace : Place Fs₁ File₁ ε₁ σ₁ (Fs₁ ⊕ Fs₂) (File₁ ⊕ File₂) (ε₁ × ε₂) (σ₁ × σ₂) where
  fs := Sum.getLeft?
  file := Sum.inl
  unfile := Sum.getLeft?
  unfile_eq g f := by cases g <;> simp
  env e := e.1
  mem s := s.1
  put s₁ s := (s₁, s.2)

/-- The place of the second. -/
def rightPlace : Place Fs₂ File₂ ε₂ σ₂ (Fs₁ ⊕ Fs₂) (File₁ ⊕ File₂) (ε₁ × ε₂) (σ₁ × σ₂) where
  fs := Sum.getRight?
  file := Sum.inr
  unfile := Sum.getRight?
  unfile_eq g f := by cases g <;> simp
  env e := e.2
  mem s := s.2
  put s₂ s := (s.1, s₂)

/-- What the two show. -/
def Reader.beside (r₁ : Reader Fs₁ File₁ ε₁ σ₁ ω₁ ν₁) (r₂ : Reader Fs₂ File₂ ε₂ σ₂ ω₂ ν₂) :
    Reader (Fs₁ ⊕ Fs₂) (File₁ ⊕ File₂) (ε₁ × ε₂) (σ₁ × σ₂) (ω₁ × ω₂) (ν₁ × ν₂) where
  ok s := r₁.ok s.1 ∧ r₂.ok s.2
  fresh e s := r₁.fresh e.1 s.1 ∧ r₂.fresh e.2 s.2
  see e := (r₁.see e.1, r₂.see e.2)
  view s := (r₁.view s.1, r₂.view s.2)
  rest s := Sum.elim (r₁.rest s.1) (r₂.rest s.2)
  text n fs rel o := fs.elim (fun fs => r₁.text n.1 fs rel o.1) fun fs => r₂.text n.2 fs rel o.2
  stat n fs rel := fs.elim (fun fs => r₁.stat n.1 fs rel) fun fs => r₂.stat n.2 fs rel
  names n fs rel := fs.elim (fun fs => r₁.names n.1 fs rel) fun fs => r₂.names n.2 fs rel

variable {r₂ : Reader Fs₂ File₂ ε₂ σ₂ ω₂ ν₂}

omit [DecidableEq File₁] in
theorem beside_left : (r₁.beside r₂).Contains leftPlace r₁ where
  ok s h := h.1
  fresh e s h := h.1
  rest s f := rfl
  becomes s s₁ rest₁ hok hb := by
    refine ⟨⟨hb.ok, hok.2⟩, congrArg (fun n => (n, r₂.view s.2)) hb.view, ?_⟩
    funext g
    cases g with
    | inl f => exact congrFun hb.rest f
    | inr f => rfl
  text s e fs fs₁ rel hfs := by
    obtain rfl := Sum.getLeft?_eq_some_iff.mp hfs
    rfl
  stat s fs fs₁ rel hfs := by
    obtain rfl := Sum.getLeft?_eq_some_iff.mp hfs
    rfl
  names s fs fs₁ rel hfs := by
    obtain rfl := Sum.getLeft?_eq_some_iff.mp hfs
    rfl

omit [DecidableEq File₁] in
theorem beside_right : (r₁.beside r₂).Contains rightPlace r₂ where
  ok s h := h.2
  fresh e s h := h.2
  rest s f := rfl
  becomes s s₂ rest₂ hok hb := by
    refine ⟨⟨hok.1, hb.ok⟩, congrArg (fun n => (r₁.view s.1, n)) hb.view, ?_⟩
    funext g
    cases g with
    | inl f => rfl
    | inr f => exact congrFun hb.rest f
  text s e fs fs₂ rel hfs := by
    obtain rfl := Sum.getRight?_eq_some_iff.mp hfs
    rfl
  stat s fs fs₂ rel hfs := by
    obtain rfl := Sum.getRight?_eq_some_iff.mp hfs
    rfl
  names s fs fs₂ rel hfs := by
    obtain rfl := Sum.getRight?_eq_some_iff.mp hfs
    rfl

end Ittrium.Vfs
