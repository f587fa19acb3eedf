import Ittrium.Vfs.RamSteps
import Ittrium.Vfs.Routing

/-!
# Descriptors under preemption

Tasks run `vfs_open` in three steps, and the calls of other tasks come in between. The descriptor is
free when it is picked; it is taken only after the file system has opened the file.

* `FileLaws` — a file system opens files that are not open already
* `Exclusive` — every open file has its own descriptor
* `descriptors_exclusive` — **they have just if no open takes a descriptor that is in use by then**
-/

namespace Ittrium.Vfs

open Infra

variable {Fs File ε σ τ : Type}

/-! ## File systems -/

/-- What a file system does to the files that are open. `live` says which are, and `Answers` what
may come from outside. -/
structure FileLaws (live : σ → File → Prop) (Answers : ε → σ → Prop)
    (ops : FileOps Fs File ε σ) : Prop where
  opens : ∀ op ∈ ops.open, ∀ fs rel flags e s f s', Answers e s →
    op fs rel flags e s = (.ok f, s') → ¬ live s f ∧ ∀ g, live s' g ↔ g = f ∨ live s g
  fails : ∀ op ∈ ops.open, ∀ fs rel flags e s rc s', Answers e s →
    op fs rel flags e s = (.error rc, s') → ∀ g, live s' g ↔ live s g
  reads : ∀ op ∈ ops.read, ∀ f len s r s', op f len s = some (r, s') → ∀ g, live s' g ↔ live s g
  writes : ∀ op ∈ ops.write, ∀ f buf len e s r s', op f buf len e s = some (r, s') →
    ∀ g, live s' g ↔ live s g
  seeks : ∀ op ∈ ops.lseek, ∀ f off whence s r s', op f off whence s = some (r, s') →
    ∀ g, live s' g ↔ live s g
  closes : ∀ op ∈ ops.close, ∀ f s r s', op f s = some (r, s') →
    ∀ g, g ≠ f → (live s' g ↔ live s g)

/-! ## Tasks -/

/-- A task inside `vfs_open`. The file is there once the file system has opened it. -/
structure Pending (Fs File ε σ : Type) where
  picked : Picked Fs File ε σ
  flags : Flags
  file : Option File

/-- The table, the tasks inside `vfs_open`, and the opens that have succeeded and whose descriptor
has not been closed. -/
structure Shared (Fs File ε σ τ : Type) where
  vfs : VfsState Fs File ε σ
  pending : τ → Option (Pending Fs File ε σ)
  held : List (FdIx × File)

/-- What a task does. -/
inductive FdAct (ε τ : Type) where
  | pick (t : τ) (path : Str) (flags : Flags)
  | openFs (t : τ) (e : ε)
  | commit (t : τ)
  | read (t : τ) (fd : Int) (len : Nat)
  | write (t : τ) (fd : Int) (buf : Nat → UInt8) (len : Nat) (e : ε)
  | lseek (t : τ) (fd off whence : Int)
  | close (t : τ) (fd : Int)

variable [DecidableEq τ]

def Shared.setPending (t : τ) (p : Option (Pending Fs File ε σ)) (s : Shared Fs File ε σ τ) :
    Shared Fs File ε σ τ :=
  { s with pending := Function.update s.pending t p }

omit [DecidableEq τ] in
/-- The file that the task `t` has opened and has no descriptor for yet. -/
def Shared.opened (s : Shared Fs File ε σ τ) (t : τ) : Option File := (s.pending t).bind (·.file)

/-- A call that is not an open, by a task that is not inside one. -/
def Shared.call {ρ : Type} (t : τ) (f : VfsState Fs File ε σ → Option (ρ × VfsState Fs File ε σ))
    (s : Shared Fs File ε σ τ) : Option (Shared Fs File ε σ τ × Option Int) :=
  if (s.pending t).isSome then none else (f s.vfs).map fun r => ({ s with vfs := r.2 }, none)

/-- The first step of `vfs_open`. With each step goes what `vfs_open` returns if it ends there. -/
def Shared.pick (t : τ) (path : Str) (flags : Flags) (s : Shared Fs File ε σ τ) :
    Option (Shared Fs File ε σ τ × Option Int) :=
  if (s.pending t).isSome then none
  else
    match pickFd path s.vfs with
    | none => some (s, some (-1))
    | some p => some (s.setPending t (some ⟨p, flags, none⟩), none)

/-- The file system's `open`. -/
def Shared.openFs (t : τ) (e : ε) (s : Shared Fs File ε σ τ) :
    Option (Shared Fs File ε σ τ × Option Int) :=
  match s.pending t with
  | some ⟨p, flags, none⟩ =>
    match openAt p flags e s.vfs.mem with
    | (.error rc, mem) => some ({ s.setPending t none with vfs := { s.vfs with mem } }, some rc)
    | (.ok f, mem) =>
      some ({ s.setPending t (some ⟨p, flags, some f⟩) with vfs := { s.vfs with mem } }, none)
  | _ => none

/-- The descriptor is taken and returned. -/
def Shared.commit (t : τ) (s : Shared Fs File ε σ τ) :
    Option (Shared Fs File ε σ τ × Option Int) :=
  match s.pending t with
  | some ⟨p, _, some f⟩ =>
    some ({ s.setPending t none with vfs := commitFd p f s.vfs, held := (p.fd, f) :: s.held },
      some (p.fd.val : Int))
  | _ => none

/-- `vfs_close`. -/
def Shared.close (t : τ) (fd : Int) (s : Shared Fs File ε σ τ) :
    Option (Shared Fs File ε σ τ × Option Int) :=
  (s.call t (vfsClose fd)).map fun r =>
    ({ r.1 with held := s.held.filter fun h => (h.1.val : Int) ≠ fd }, r.2)

/-- One step. -/
def Shared.act (s : Shared Fs File ε σ τ) : FdAct ε τ → Option (Shared Fs File ε σ τ × Option Int)
  | .pick t path flags => s.pick t path flags
  | .openFs t e => s.openFs t e
  | .commit t => s.commit t
  | .read t fd len => s.call t (vfsRead fd len)
  | .write t fd buf len e => s.call t (vfsWrite fd buf len e)
  | .lseek t fd off whence => s.call t (vfsLseek fd off whence)
  | .close t fd => s.close t fd

/-- `malloc` answers an open as it does. -/
def Shared.Answered (Answers : ε → σ → Prop) (s : Shared Fs File ε σ τ) : FdAct ε τ → Prop
  | .openFs _ e => Answers e s.vfs.mem
  | _ => True

@[simp] theorem Shared.setPending_self (t : τ) (p : Option (Pending Fs File ε σ))
    (s : Shared Fs File ε σ τ) : (s.setPending t p).pending t = p := by
  unfold Shared.setPending
  exact Function.update_self ..

theorem Shared.setPending_of_ne {t t' : τ} (h : t' ≠ t) (p : Option (Pending Fs File ε σ))
    (s : Shared Fs File ε σ τ) : (s.setPending t p).pending t' = s.pending t' := by
  unfold Shared.setPending
  exact Function.update_of_ne h ..

/-! ## What descriptors are for -/

/-- Every open that has succeeded has a descriptor of its own, which refers to its file, and no
descriptor refers to a file that has been closed. -/
structure Exclusive (live : σ → File → Prop) (s : Shared Fs File ε σ τ) : Prop where
  distinct : (s.held.map Prod.fst).Nodup
  refers : ∀ h ∈ s.held, ∃ d, s.vfs.fds h.1 = some d ∧ d.file = h.2
  once : ∀ i j d d', s.vfs.fds i = some d → s.vfs.fds j = some d' → d.file = d'.file → i = j
  open_ : ∀ i d, s.vfs.fds i = some d → live s.vfs.mem d.file

/-- A step changes a descriptor only by taking it for an open that then returns it, or by closing
it. -/
def Keeps (e : Event (Shared Fs File ε σ τ) (FdAct ε τ × Option Int)) : Prop :=
  ∀ i, e.post.vfs.fds i ≠ e.pre.vfs.fds i →
    (∃ t, e.label = (FdAct.commit t, some (i.val : Int))) ∨ ∃ t, e.label.1 = .close t i.val

/-- An open takes its descriptor only if it is still free. -/
def StillFree (s : Shared Fs File ε σ τ) (a : FdAct ε τ) : Prop :=
  ∀ t p flags f, a = .commit t → s.pending t = some ⟨p, flags, some f⟩ → s.vfs.fds p.fd = none


/-! ## What the calls leave as it is -/

/-- The same table and the same open files. -/
structure SameFiles (live : σ → File → Prop) (v v' : VfsState Fs File ε σ) : Prop where
  mounts : v'.mounts = v.mounts
  fds : v'.fds = v.fds
  files : ∀ g, live v'.mem g ↔ live v.mem g

section

variable {live : σ → File → Prop} {Answers : ε → σ → Prop} {v v' : VfsState Fs File ε σ}

omit [DecidableEq τ] in
theorem SameFiles.refl (v : VfsState Fs File ε σ) : SameFiles live v v := ⟨rfl, rfl, fun _ => Iff.rfl⟩

omit [DecidableEq τ] in
theorem usedFd_some {fd : Int} {i : FdIx} {d : Fd Fs File ε σ} (h : usedFd fd v = some (i, d)) :
    v.fds i = some d ∧ (i.val : Int) = fd := by
  unfold usedFd at h
  split at h
  · next hfd =>
    obtain ⟨d', hd, he⟩ := Option.map_eq_some_iff.mp h
    obtain ⟨rfl, rfl⟩ := Prod.mk.inj he
    exact ⟨hd, Int.toNat_of_nonneg hfd.1⟩
  · cases h

omit [DecidableEq τ] in
theorem usedFd_of_fds {i : FdIx} {d : Fd Fs File ε σ} (h : v.fds i = some d) :
    usedFd i.val v = some (i, d) := by
  unfold usedFd
  rw [dif_pos ⟨Int.natCast_nonneg _, Int.ofNat_lt.mpr i.isLt⟩]
  simp only [Int.toNat_natCast, Fin.eta, h, Option.map_some]

omit [DecidableEq τ] in
/-- A call on a descriptor reaches the operation of its file system, with its file. -/
theorem fdOp_some {α : Type} {sel : FileOps Fs File ε σ → Option α} {fd : Int} {op : α} {f : File}
    (h : ((usedFd fd v).bind fun d => (sel d.2.ops).map fun op => (op, d.2.file)) = some (op, f)) :
    ∃ i d, v.fds i = some d ∧ sel d.ops = some op ∧ d.file = f := by
  obtain ⟨⟨i, d⟩, hd, hop⟩ := Option.bind_eq_some_iff.mp h
  obtain ⟨op', hop', he⟩ := Option.map_eq_some_iff.mp hop
  obtain ⟨rfl, rfl⟩ := Prod.mk.inj he
  exact ⟨i, d, (usedFd_some hd).1, hop', rfl⟩

variable (hlaws : ∀ i d, v.fds i = some d → FileLaws live Answers d.ops)
include hlaws

omit [DecidableEq τ] in
theorem vfsRead_same {fd : Int} {len : Nat} {r : Int × List UInt8}
    (h : vfsRead fd len v = some (r, v')) : SameFiles live v v' := by
  unfold vfsRead at h
  split at h
  · cases h
    exact .refl v
  · next op f hop =>
    obtain ⟨i, d, hd, hop', rfl⟩ := fdOp_some hop
    obtain ⟨⟨r', mem⟩, hr, he⟩ := Option.map_eq_some_iff.mp h
    cases he
    exact ⟨rfl, rfl, (hlaws i d hd).reads _ hop' _ _ _ _ _ hr⟩

omit [DecidableEq τ] in
theorem vfsWrite_same {fd : Int} {buf : Nat → UInt8} {len : Nat} {e : ε} {r : Int}
    (h : vfsWrite fd buf len e v = some (r, v')) : SameFiles live v v' := by
  unfold vfsWrite at h
  split at h
  · cases h
    exact .refl v
  · next op f hop =>
    obtain ⟨i, d, hd, hop', rfl⟩ := fdOp_some hop
    obtain ⟨⟨r', mem⟩, hr, he⟩ := Option.map_eq_some_iff.mp h
    cases he
    exact ⟨rfl, rfl, (hlaws i d hd).writes _ hop' _ _ _ _ _ _ _ hr⟩

omit [DecidableEq τ] in
theorem vfsLseek_same {fd off whence : Int} {r : Int}
    (h : vfsLseek fd off whence v = some (r, v')) : SameFiles live v v' := by
  unfold vfsLseek at h
  split at h
  · cases h
    exact .refl v
  · next op f hop =>
    obtain ⟨i, d, hd, hop', rfl⟩ := fdOp_some hop
    obtain ⟨⟨r', mem⟩, hr, he⟩ := Option.map_eq_some_iff.mp h
    cases he
    exact ⟨rfl, rfl, (hlaws i d hd).seeks _ hop' _ _ _ _ _ _ hr⟩

omit [DecidableEq τ] in
/-- `vfs_close` fails, or frees one descriptor and closes its file. -/
theorem vfsClose_cases {fd r : Int} (h : vfsClose fd v = some (r, v')) :
    usedFd fd v = none ∧ v' = v ∨
      ∃ i d mem, usedFd fd v = some (i, d) ∧
        v' = { v with fds := Function.update v.fds i none, mem } ∧
        ∀ g, g ≠ d.file → (live mem g ↔ live v.mem g) := by
  unfold vfsClose at h
  split at h
  · next hnone =>
    cases h
    exact Or.inl ⟨hnone, rfl⟩
  · next i d hd =>
    obtain ⟨⟨r', mem⟩, hr, he⟩ := Option.map_eq_some_iff.mp h
    cases he
    refine Or.inr ⟨i, d, mem, hd, rfl, ?_⟩
    unfold closeAt at hr
    split at hr
    · next op hop => exact (hlaws i d (usedFd_some hd).1).closes _ hop _ _ _ _ hr
    · cases hr
      exact fun _ _ => Iff.rfl

end

/-! ## The invariant -/

/-- `Exclusive`, and what makes it stay so: descriptors in use belong to an open, and a file that is
waiting for its descriptor is open and nobody else's. -/
structure FdInv (live : σ → File → Prop) (Answers : ε → σ → Prop) (s : Shared Fs File ε σ τ) : Prop
    extends Exclusive live s where
  held_of : ∀ i d, s.vfs.fds i = some d → (i, d.file) ∈ s.held
  waiting : ∀ t f, s.opened t = some f →
    live s.vfs.mem f ∧ ∀ i d, s.vfs.fds i = some d → d.file ≠ f
  apart : ∀ t t' f, s.opened t = some f → s.opened t' = some f → t = t'
  mounted : ∀ i m, s.vfs.mounts i = some m → FileLaws live Answers m.ops
  fdLaws : ∀ i d, s.vfs.fds i = some d → FileLaws live Answers d.ops
  pickLaws : ∀ t p, s.pending t = some p → FileLaws live Answers p.picked.mount.ops

section

variable {live : σ → File → Prop} {Answers : ε → σ → Prop} {s s' : Shared Fs File ε σ τ}

omit [DecidableEq τ] in
theorem FdInv.frame {v' : VfsState Fs File ε σ} (h : FdInv live Answers s)
    (hv : SameFiles live s.vfs v') : FdInv live Answers { s with vfs := v' } where
  distinct := h.distinct
  refers := by rw [hv.fds]; exact h.refers
  once := by rw [hv.fds]; exact h.once
  open_ := by rw [hv.fds]; exact fun i d hd => (hv.files _).mpr (h.open_ i d hd)
  held_of := by rw [hv.fds]; exact h.held_of
  waiting := by
    rw [hv.fds]
    exact fun t f hf => ⟨(hv.files f).mpr (h.waiting t f hf).1, (h.waiting t f hf).2⟩
  apart := h.apart
  mounted := by rw [hv.mounts]; exact h.mounted
  fdLaws := by rw [hv.fds]; exact h.fdLaws
  pickLaws := h.pickLaws

/-- A task gives up its open, or begins one. -/
theorem FdInv.setPending {t : τ} {p : Option (Pending Fs File ε σ)} (h : FdInv live Answers s)
    (hfile : p.bind (·.file) = none)
    (hlaws : ∀ q, p = some q → FileLaws live Answers q.picked.mount.ops) :
    FdInv live Answers (s.setPending t p) := by
  have hopened : ∀ t' f, (s.setPending t p).opened t' = some f → s.opened t' = some f := by
    intro t' f hf
    unfold Shared.opened at hf ⊢
    by_cases ht : t' = t
    · rw [ht, Shared.setPending_self, hfile] at hf
      cases hf
    · rwa [Shared.setPending_of_ne ht] at hf
  refine { h with
    waiting := fun t' f hf => h.waiting t' f (hopened t' f hf)
    apart := fun t₁ t₂ f h₁ h₂ => h.apart t₁ t₂ f (hopened t₁ f h₁) (hopened t₂ f h₂)
    pickLaws := fun t' q hq => ?_ }
  by_cases ht : t' = t
  · rw [ht, Shared.setPending_self] at hq
    exact hlaws q hq
  · rw [Shared.setPending_of_ne ht] at hq
    exact h.pickLaws t' q hq

/-- The file system has opened a file that was not open. -/
theorem FdInv.openedFile {t : τ} {p : Picked Fs File ε σ} {flags : Flags} {f : File} {mem : σ}
    (h : FdInv live Answers s) (hp : FileLaws live Answers p.mount.ops)
    (hnew : ¬ live s.vfs.mem f) (hlive : ∀ g, live mem g ↔ g = f ∨ live s.vfs.mem g) :
    FdInv live Answers { s.setPending t (some ⟨p, flags, some f⟩) with
      vfs := { s.vfs with mem } } := by
  -- what waits for a descriptor waited before, or is the new file
  have hopened : ∀ t' g, (s.setPending t (some ⟨p, flags, some f⟩)).opened t' = some g →
      t' = t ∧ g = f ∨ t' ≠ t ∧ g ≠ f ∧ s.opened t' = some g := by
    intro t' g hg
    unfold Shared.opened at hg ⊢
    by_cases ht : t' = t
    · rw [ht, Shared.setPending_self] at hg
      exact Or.inl ⟨ht, (Option.some.inj hg).symm⟩
    · rw [Shared.setPending_of_ne ht] at hg
      exact Or.inr ⟨ht, fun he => hnew (he ▸ (h.waiting t' g hg).1), hg⟩
  refine { h with
    open_ := fun i d hd => (hlive _).mpr (Or.inr (h.open_ i d hd))
    waiting := fun t' g hg => ?_
    apart := fun t₁ t₂ g h₁ h₂ => ?_
    pickLaws := fun t' q hq => ?_ }
  · rcases hopened t' g hg with ⟨-, rfl⟩ | ⟨-, -, ho⟩
    · exact ⟨(hlive g).mpr (Or.inl rfl), fun i d hd he => hnew (he ▸ h.open_ i d hd)⟩
    · exact ⟨(hlive g).mpr (Or.inr (h.waiting t' g ho).1), (h.waiting t' g ho).2⟩
  · rcases hopened t₁ g h₁ with ⟨rfl, rfl⟩ | ⟨-, hne, ho₁⟩
    · rcases hopened t₂ g h₂ with ⟨rfl, -⟩ | ⟨-, hne, -⟩
      · rfl
      · exact absurd rfl hne
    · rcases hopened t₂ g h₂ with ⟨-, rfl⟩ | ⟨-, -, ho₂⟩
      · exact absurd rfl hne
      · exact h.apart t₁ t₂ g ho₁ ho₂
  · by_cases ht : t' = t
    · rw [ht] at hq
      cases (Shared.setPending_self t _ s).symm.trans hq
      exact hp
    · exact h.pickLaws t' q ((Shared.setPending_of_ne ht _ s).symm.trans hq)

/-- A free descriptor is taken for the file that waits for it. -/
theorem FdInv.commit {t : τ} {p : Picked Fs File ε σ} {flags : Flags} {f : File}
    (h : FdInv live Answers s) (hp : s.pending t = some ⟨p, flags, some f⟩)
    (hfree : s.vfs.fds p.fd = none) :
    FdInv live Answers { s.setPending t none with
      vfs := commitFd p f s.vfs, held := (p.fd, f) :: s.held } := by
  have hwait : s.opened t = some f := by rw [Shared.opened, hp]; rfl
  obtain ⟨hlive, hnot⟩ := h.waiting t f hwait
  -- the entries of the table are the old ones and the new one
  have hfds : ∀ i d, (commitFd p f s.vfs).fds i = some d →
      i = p.fd ∧ d = ⟨p.mount.ops, f⟩ ∨ i ≠ p.fd ∧ s.vfs.fds i = some d := by
    intro i d hd
    by_cases hi : i = p.fd
    · subst hi
      have : some (⟨p.mount.ops, f⟩ : Fd Fs File ε σ) = some d :=
        (Function.update_self p.fd _ s.vfs.fds).symm.trans hd
      exact Or.inl ⟨rfl, (Option.some.inj this).symm⟩
    · exact Or.inr ⟨hi, (Function.update_of_ne hi _ _).symm.trans hd⟩
  have hopened : ∀ t' g, (s.setPending t none).opened t' = some g →
      t' ≠ t ∧ s.opened t' = some g := by
    intro t' g hg
    unfold Shared.opened at hg ⊢
    by_cases ht : t' = t
    · rw [ht, Shared.setPending_self] at hg
      cases hg
    · exact ⟨ht, by rwa [Shared.setPending_of_ne ht] at hg⟩
  refine ⟨⟨?_, ?_, ?_, ?_⟩, ?_, ?_, ?_, h.mounted, ?_, ?_⟩
  · rw [List.map_cons, List.nodup_cons]
    refine ⟨fun hmem => ?_, h.distinct⟩
    obtain ⟨x, hx, hfd⟩ := List.mem_map.mp hmem
    obtain ⟨d, hd, -⟩ := h.refers x hx
    rw [hfd, hfree] at hd
    cases hd
  · intro x hx
    rcases List.mem_cons.mp hx with rfl | hx
    · exact ⟨_, Function.update_self _ _ _, rfl⟩
    · obtain ⟨d, hd, he⟩ := h.refers x hx
      refine ⟨d, ?_, he⟩
      have hne : x.1 ≠ p.fd := fun hxe => by
        rw [hxe, hfree] at hd
        cases hd
      exact (Function.update_of_ne hne _ _).trans hd
  · intro i j d d' hd hd' he
    rcases hfds i d hd with ⟨rfl, rfl⟩ | ⟨-, hi⟩
    · rcases hfds j d' hd' with ⟨rfl, -⟩ | ⟨-, hj⟩
      · rfl
      · exact absurd he.symm (hnot j d' hj)
    · rcases hfds j d' hd' with ⟨-, rfl⟩ | ⟨-, hj⟩
      · exact absurd he (hnot i d hi)
      · exact h.once i j d d' hi hj he
  · intro i d hd
    rcases hfds i d hd with ⟨-, rfl⟩ | ⟨-, hi⟩
    · exact hlive
    · exact h.open_ i d hi
  · intro i d hd
    rcases hfds i d hd with ⟨rfl, rfl⟩ | ⟨-, hi⟩
    · exact List.mem_cons_self
    · exact List.mem_cons_of_mem _ (h.held_of i d hi)
  · intro t' g hg
    obtain ⟨ht, ho⟩ := hopened t' g hg
    refine ⟨(h.waiting t' g ho).1, fun i d hd => ?_⟩
    rcases hfds i d hd with ⟨-, rfl⟩ | ⟨-, hi⟩
    · rintro rfl
      exact ht (h.apart t' t _ ho hwait)
    · exact (h.waiting t' g ho).2 i d hi
  · intro t₁ t₂ g h₁ h₂
    exact h.apart t₁ t₂ g (hopened t₁ g h₁).2 (hopened t₂ g h₂).2
  · intro i d hd
    rcases hfds i d hd with ⟨-, rfl⟩ | ⟨-, hi⟩
    · exact h.pickLaws t _ hp
    · exact h.fdLaws i d hi
  · intro t' q hq
    by_cases ht : t' = t
    · rw [ht] at hq
      cases (Shared.setPending_self t none s).symm.trans hq
    · exact h.pickLaws t' q ((Shared.setPending_of_ne ht _ s).symm.trans hq)

omit [DecidableEq τ] in
/-- A descriptor is freed, and its file closed. -/
theorem FdInv.close {i : FdIx} {d : Fd Fs File ε σ} {mem : σ} (h : FdInv live Answers s)
    (hd : s.vfs.fds i = some d) (hmem : ∀ g, g ≠ d.file → (live mem g ↔ live s.vfs.mem g)) :
    FdInv live Answers { s with
      vfs := { s.vfs with fds := Function.update s.vfs.fds i none, mem }
      held := s.held.filter fun x => (x.1.val : Int) ≠ i.val } := by
  have hfds : ∀ j d', Function.update s.vfs.fds i none j = some d' →
      j ≠ i ∧ s.vfs.fds j = some d' := by
    intro j d' hj
    by_cases hji : j = i
    · rw [hji, Function.update_self] at hj
      cases hj
    · exact ⟨hji, by rwa [Function.update_of_ne hji] at hj⟩
  -- no other descriptor refers to the file that is closed
  have hother : ∀ j d', j ≠ i → s.vfs.fds j = some d' → d'.file ≠ d.file := fun j d' hji hj he =>
    hji (h.once j i d' d hj hd he)
  have hval : ∀ x : FdIx × File, (x.1.val : Int) ≠ i.val ↔ x.1 ≠ i := fun x =>
    not_congr (by rw [Int.natCast_inj, Fin.val_inj])
  refine ⟨⟨?_, ?_, ?_, ?_⟩, ?_, ?_, h.apart, h.mounted, ?_, h.pickLaws⟩
  · exact h.distinct.sublist (List.filter_sublist.map _)
  · intro x hx
    obtain ⟨hx, hne⟩ := List.mem_filter.mp hx
    obtain ⟨d', hd', he⟩ := h.refers x hx
    have hne : x.1 ≠ i := (hval x).mp (by simpa using hne)
    exact ⟨d', (Function.update_of_ne hne _ _).trans hd', he⟩
  · intro j k d₁ d₂ h₁ h₂ he
    exact h.once j k d₁ d₂ (hfds j d₁ h₁).2 (hfds k d₂ h₂).2 he
  · intro j d' hj
    obtain ⟨hji, hj⟩ := hfds j d' hj
    exact (hmem _ (hother j d' hji hj)).mpr (h.open_ j d' hj)
  · intro j d' hj
    obtain ⟨hji, hj⟩ := hfds j d' hj
    refine List.mem_filter.mpr ⟨h.held_of j d' hj, ?_⟩
    exact decide_eq_true ((hval (j, d'.file)).mpr hji)
  · intro t g hg
    obtain ⟨hlive, hnot⟩ := h.waiting t g hg
    exact ⟨(hmem g fun he => hnot i d hd he.symm).mpr hlive, fun j d' hj => hnot j d' (hfds j d' hj).2⟩
  · exact fun j d' hj => h.fdLaws j d' (hfds j d' hj).2

end

/-! ## Steps -/

section

variable {live : σ → File → Prop} {Answers : ε → σ → Prop} {s s' : Shared Fs File ε σ τ}

omit [DecidableEq τ] in
theorem Shared.call_some {ρ : Type} {t : τ}
    {f : VfsState Fs File ε σ → Option (ρ × VfsState Fs File ε σ)} {r : Option Int}
    (h : s.call t f = some (s', r)) :
    r = none ∧ ∃ x v', f s.vfs = some (x, v') ∧ s' = { s with vfs := v' } := by
  unfold Shared.call at h
  split at h
  · cases h
  · obtain ⟨⟨x, v'⟩, hf, he⟩ := Option.map_eq_some_iff.mp h
    cases he
    exact ⟨rfl, x, v', hf, rfl⟩

omit [DecidableEq τ] in
/-- A call that changes neither the table nor the open files. -/
theorem FdInv.call {ρ : Type} {t : τ}
    {f : VfsState Fs File ε σ → Option (ρ × VfsState Fs File ε σ)} {r : Option Int}
    (h : FdInv live Answers s) (hact : s.call t f = some (s', r))
    (hf : ∀ x v', f s.vfs = some (x, v') → SameFiles live s.vfs v') :
    FdInv live Answers s' ∧ s'.vfs.fds = s.vfs.fds := by
  obtain ⟨-, x, v', hv, rfl⟩ := Shared.call_some hact
  exact ⟨h.frame (hf x v' hv), (hf x v' hv).fds⟩

/-- What picking a descriptor does. -/
theorem FdInv.pick {t : τ} {path : Str} {flags : Flags} {r : Option Int}
    (h : FdInv live Answers s) (hact : s.pick t path flags = some (s', r)) :
    FdInv live Answers s' ∧ s'.vfs.fds = s.vfs.fds := by
  unfold Shared.pick at hact
  split at hact
  · cases hact
  · split at hact
    · cases hact
      exact ⟨h, rfl⟩
    · next p hp =>
      cases hact
      refine ⟨h.setPending rfl fun q hq => ?_, rfl⟩
      cases hq
      obtain ⟨i, hi⟩ := pickFd_mounted hp
      exact h.mounted i _ hi

/-- What the file system's `open` does. -/
theorem FdInv.openFs {t : τ} {e : ε} {r : Option Int} (h : FdInv live Answers s)
    (hans : Answers e s.vfs.mem) (hact : s.openFs t e = some (s', r)) :
    FdInv live Answers s' ∧ s'.vfs.fds = s.vfs.fds := by
  unfold Shared.openFs at hact
  split at hact
  · next p flags hp =>
    have hlaws := h.pickLaws t _ hp
    unfold openAt at hact
    cases hop : p.mount.ops.open with
    | none =>
      rw [hop] at hact
      cases hact
      exact ⟨(h.setPending rfl fun q hq => by cases hq).frame (.refl _), rfl⟩
    | some op =>
      rw [hop] at hact
      dsimp only at hact
      cases hres : op p.mount.fs p.rel flags e s.vfs.mem with
      | mk res mem =>
        rw [hres] at hact
        cases res with
        | error rc =>
          cases hact
          have hlive := hlaws.fails op hop _ _ _ _ _ _ _ hans hres
          exact ⟨(h.setPending rfl fun q hq => by cases hq).frame ⟨rfl, rfl, hlive⟩, rfl⟩
        | ok f =>
          cases hact
          obtain ⟨hnew, hlive⟩ := hlaws.opens op hop _ _ _ _ _ _ _ hans hres
          exact ⟨h.openedFile hlaws hnew hlive, rfl⟩
  · cases hact

/-- What taking the descriptor does. -/
theorem Shared.commit_some {t : τ} {r : Option Int} (hact : s.commit t = some (s', r)) :
    ∃ p flags f, s.pending t = some ⟨p, flags, some f⟩ ∧ r = some (p.fd.val : Int) ∧
      s' = { s.setPending t none with vfs := commitFd p f s.vfs, held := (p.fd, f) :: s.held } := by
  unfold Shared.commit at hact
  split at hact
  · next p flags f hp =>
    cases hact
    exact ⟨p, flags, f, hp, rfl, rfl⟩
  · cases hact

omit [DecidableEq τ] in
/-- What closing does. -/
theorem FdInv.closes {t : τ} {fd : Int} {r : Option Int} (h : FdInv live Answers s)
    (hact : s.close t fd = some (s', r)) :
    FdInv live Answers s' ∧ ∀ i : FdIx, (i.val : Int) ≠ fd → s'.vfs.fds i = s.vfs.fds i := by
  unfold Shared.close at hact
  obtain ⟨⟨s₁, r₁⟩, hcall, he⟩ := Option.map_eq_some_iff.mp hact
  obtain ⟨-, x, v', hv, rfl⟩ := Shared.call_some hcall
  cases he
  rcases vfsClose_cases h.fdLaws hv with ⟨hnone, rfl⟩ | ⟨i, d, mem, hd, rfl, hmem⟩
  · -- the descriptor was not in use, so nobody held it
    have hheld : (s.held.filter fun h => decide ((h.1.val : Int) ≠ fd)) = s.held := by
      refine List.filter_eq_self.mpr fun x hx => decide_eq_true ?_
      rintro rfl
      obtain ⟨d, hd, -⟩ := h.refers x hx
      rw [usedFd_of_fds hd] at hnone
      cases hnone
    dsimp only
    rw [hheld]
    exact ⟨h, fun _ _ => rfl⟩
  · obtain ⟨hfd, rfl⟩ := usedFd_some hd
    refine ⟨h.close hfd hmem, fun j hj => Function.update_of_ne (fun he => hj ?_) _ _⟩
    rw [he]

/-- One step keeps the invariant, and the descriptors of others. -/
theorem FdInv.act {a : FdAct ε τ} {r : Option Int} (h : FdInv live Answers s)
    (hans : s.Answered Answers a) (hfree : StillFree s a) (hact : s.act a = some (s', r)) :
    FdInv live Answers s' ∧ Keeps ⟨s, (a, r), s'⟩ := by
  have hkeeps : s'.vfs.fds = s.vfs.fds → Keeps ⟨s, (a, r), s'⟩ := fun he i hi =>
    absurd (congrFun he i) hi
  cases a with
  | pick t path flags =>
    have hc := h.pick hact
    exact ⟨hc.1, hkeeps hc.2⟩
  | openFs t e =>
    have hc := h.openFs hans hact
    exact ⟨hc.1, hkeeps hc.2⟩
  | commit t =>
    obtain ⟨p, flags, f, hp, rfl, rfl⟩ := Shared.commit_some hact
    refine ⟨h.commit hp (hfree t p flags f rfl hp), fun i hi => Or.inl ⟨t, ?_⟩⟩
    by_cases he : i = p.fd
    · rw [he]
    · exact absurd (Function.update_of_ne he _ _) hi
  | read t fd len =>
    have hc := h.call hact fun x v' hv => vfsRead_same h.fdLaws hv
    exact ⟨hc.1, hkeeps hc.2⟩
  | write t fd buf len e =>
    have hc := h.call hact fun x v' hv => vfsWrite_same h.fdLaws hv
    exact ⟨hc.1, hkeeps hc.2⟩
  | lseek t fd off whence =>
    have hc := h.call hact fun x v' hv => vfsLseek_same h.fdLaws hv
    exact ⟨hc.1, hkeeps hc.2⟩
  | close t fd =>
    have hc := h.closes hact
    refine ⟨hc.1, fun i hi => Or.inr ⟨t, ?_⟩⟩
    by_cases he : (i.val : Int) = fd
    · rw [he]
    · exact absurd (hc.2 i he) hi

/-- A descriptor taken while it is in use has two opens. -/
theorem FdInv.not_exclusive {a : FdAct ε τ} {r : Option Int} (h : FdInv live Answers s)
    (hused : ¬ StillFree s a) (hact : s.act a = some (s', r)) : ¬ Exclusive live s' := by
  intro hex
  refine hused fun t p flags f ha hp => ?_
  subst ha
  obtain ⟨p', flags', f', hp', rfl, rfl⟩ := Shared.commit_some hact
  cases hp.symm.trans hp'
  cases hfd : s.vfs.fds p.fd with
  | none => rfl
  | some d =>
    have hnd := hex.distinct
    rw [List.map_cons, List.nodup_cons] at hnd
    exact absurd (List.mem_map.mpr ⟨_, h.held_of p.fd d hfd, rfl⟩) hnd.1

end

theorem Shared.openFs_error {t : τ} {e : ε} {p : Picked Fs File ε σ} {flags : Flags} {rc : Int}
    {mem : σ} {s : Shared Fs File ε σ τ} (hp : s.pending t = some ⟨p, flags, none⟩)
    (h : openAt p flags e s.vfs.mem = (.error rc, mem)) :
    s.openFs t e = some ({ s.setPending t none with vfs := { s.vfs with mem } }, some rc) := by
  unfold Shared.openFs
  rw [hp]
  dsimp only
  rw [h]

theorem Shared.openFs_ok {t : τ} {e : ε} {p : Picked Fs File ε σ} {flags : Flags} {f : File}
    {mem : σ} {s : Shared Fs File ε σ τ} (hp : s.pending t = some ⟨p, flags, none⟩)
    (h : openAt p flags e s.vfs.mem = (.ok f, mem)) :
    s.openFs t e = some ({ s.setPending t (some ⟨p, flags, some f⟩) with
      vfs := { s.vfs with mem } }, none) := by
  unfold Shared.openFs
  rw [hp]
  dsimp only
  rw [h]

theorem Shared.commit_eq {t : τ} {p : Picked Fs File ε σ} {flags : Flags} {f : File}
    {s : Shared Fs File ε σ τ} (hp : s.pending t = some ⟨p, flags, some f⟩) :
    s.commit t = some ({ s.setPending t none with
      vfs := commitFd p f s.vfs, held := (p.fd, f) :: s.held }, some (p.fd.val : Int)) := by
  unfold Shared.commit
  rw [hp]

/-- A `vfs_open` that nobody interrupts is made of these steps. -/
theorem Shared.open_alone {t : τ} {path : Str} {flags : Flags} {e : ε} {rc : Int}
    {v : VfsState Fs File ε σ} {s : Shared Fs File ε σ τ} (hidle : s.pending t = none)
    (h : vfsOpen path flags e s.vfs = (rc, v)) :
    ∃ s', s'.vfs = v ∧ (s.pick t path flags = some (s', some rc) ∨
      ∃ s₁, s.pick t path flags = some (s₁, none) ∧ (s₁.openFs t e = some (s', some rc) ∨
        ∃ s₂, s₁.openFs t e = some (s₂, none) ∧ s₂.commit t = some (s', some rc))) := by
  unfold Shared.pick
  rw [if_neg (by simp [hidle])]
  unfold vfsOpen at h
  cases hp : pickFd path s.vfs with
  | none =>
    rw [hp] at h
    cases h
    exact ⟨s, rfl, Or.inl rfl⟩
  | some p =>
    rw [hp] at h
    dsimp only at h ⊢
    -- the three steps find the task as the step before has left it
    have hself := s.setPending_self t (some ⟨p, flags, none⟩)
    cases hres : openAt p flags e s.vfs.mem with
    | mk res mem =>
      rw [hres] at h
      cases res with
      | error rc' =>
        cases h
        have hopen := Shared.openFs_error hself hres
        exact ⟨_, rfl, Or.inr ⟨_, rfl, Or.inl hopen⟩⟩
      | ok f =>
        cases h
        have hopen := Shared.openFs_ok hself hres
        have hcommit := Shared.commit_eq (Shared.setPending_self t (some ⟨p, flags, some f⟩)
          { s.setPending t (some ⟨p, flags, none⟩) with vfs := { s.vfs with mem } })
        refine ⟨_, ?_, Or.inr ⟨_, rfl, Or.inr ⟨_, hopen, hcommit⟩⟩⟩
        rfl

/-! ## Runs -/

/-- Nobody is inside an open. -/
def FdStart (v : VfsState Fs File ε σ) (s : Shared Fs File ε σ τ) : Prop :=
  s = ⟨v, fun _ => none, []⟩

/-- The runs in which `malloc` answers as it does. -/
abbrev FdRun (Answers : ε → σ → Prop) (v : VfsState Fs File ε σ) :
    List (Event (Shared Fs File ε σ τ) (FdAct ε τ × Option Int)) → Shared Fs File ε σ τ → Prop :=
  Run (FdStart v) fun s l s' => s.Answered Answers l.1 ∧ s.act l.1 = some (s', l.2)

section

variable {live : σ → File → Prop} {Answers : ε → σ → Prop} {v : VfsState Fs File ε σ}

omit [DecidableEq τ] in
theorem FdInv.start (hfds : ∀ i, v.fds i = none)
    (hlaws : ∀ i m, v.mounts i = some m → FileLaws live Answers m.ops) :
    FdInv live Answers (⟨v, fun _ => none, []⟩ : Shared Fs File ε σ τ) := by
  have hnone : ∀ i d, v.fds i = some d → False := fun i d hd => by
    rw [hfds i] at hd
    cases hd
  exact
    { distinct := List.nodup_nil
      refers := fun _ hx => absurd hx List.not_mem_nil
      once := fun i _ d _ hd => (hnone i d hd).elim
      open_ := fun i d hd => (hnone i d hd).elim
      held_of := fun i d hd => (hnone i d hd).elim
      waiting := fun _ _ hf => by cases hf
      apart := fun _ _ _ hf => by cases hf
      mounted := hlaws
      fdLaws := fun i d hd => (hnone i d hd).elim
      pickLaws := fun _ _ hp => by cases hp }

/-- **Descriptors are exclusive in a run just if every open that takes its descriptor finds it still
free.** -/
theorem descriptors_exclusive (hfds : ∀ i, v.fds i = none)
    (hlaws : ∀ i m, v.mounts i = some m → FileLaws live Answers m.ops)
    {tr : List (Event (Shared Fs File ε σ τ) (FdAct ε τ × Option Int))}
    {s : Shared Fs File ε σ τ} (h : FdRun Answers v tr s) :
    (∀ e ∈ tr, Exclusive live e.post ∧ Keeps e) ↔ ∀ e ∈ tr, StillFree e.pre e.label.1 := by
  -- while all descriptors were free when taken, the invariant holds
  suffices hI : ((∀ e ∈ tr, StillFree e.pre e.label.1) → FdInv live Answers s) ∧
      ((∀ e ∈ tr, Exclusive live e.post ∧ Keeps e) ↔ ∀ e ∈ tr, StillFree e.pre e.label.1) from hI.2
  induction h with
  | start hs =>
    subst hs
    refine ⟨fun _ => .start hfds hlaws, ?_⟩
    simp
  | @step tr s s' l hrun hs ih =>
    obtain ⟨hinv, hiff⟩ := ih
    simp only [List.forall_mem_cons]
    refine ⟨fun hall => ((hinv hall.2).act hs.1 hall.1 hs.2).1, ?_⟩
    rw [hiff]
    constructor
    · rintro ⟨⟨hex, -⟩, hall⟩
      refine ⟨?_, hall⟩
      by_contra hused
      exact (hinv hall).not_exclusive hused hs.2 hex
    · rintro ⟨hfree, hall⟩
      have hact := (hinv hall).act hs.1 hfree hs.2
      exact ⟨⟨hact.1.toExclusive, hact.2⟩, hall⟩

end

/-! ## The RAM file system -/

/-- The file is open. -/
def RamMem.Live (m : RamMem) (f : Addr) : Prop := m.files f ≠ none

theorem RamMem.live_of_files {m : RamMem} {f : Addr} {file : RamfsFile}
    (h : m.files f = some file) : m.Live f := by
  rw [RamMem.Live, h]
  simp

theorem RamMem.live_setFile {m : RamMem} {f g : Addr} {file : Option RamfsFile} (h : g ≠ f) :
    (m.setFile f file).Live g ↔ m.Live g := by
  unfold RamMem.Live
  rw [RamMem.setFile_of_ne h]

/-- The position of an open file changes. -/
theorem RamMem.live_setFile_of_live {m m' : RamMem} {f : Addr} {file : RamfsFile}
    (hf : m'.files = m.files) (h : m.Live f) (g : Addr) :
    (m'.setFile f (some file)).Live g ↔ m.Live g := by
  by_cases hg : g = f
  · subst hg
    refine ⟨fun _ => h, fun _ => ?_⟩
    rw [RamMem.Live, RamMem.setFile_self]
    simp
  · rw [live_setFile hg]
    unfold RamMem.Live
    rw [hf]

/-- **The RAM file system is one.** -/
theorem ramfs_laws (W : Nat) : FileLaws RamMem.Live RamMem.Answers (ramfsOps W) where
  opens := by
    rintro op hop fs rel flags e m f m' hans hres
    cases hop
    rcases rfOpen_files rel flags e m with ⟨m₁, he, -⟩ | ⟨m₁, b, file, rfl, hfiles, he⟩
    · cases he.symm.trans hres
    · cases he.symm.trans hres
      refine ⟨fun hlive => hlive hans, fun g => ?_⟩
      by_cases hg : g = b.addr
      · refine ⟨fun _ => Or.inl hg, fun _ => ?_⟩
        rw [hg, RamMem.Live, RamMem.setFile_self]
        simp
      · rw [RamMem.live_setFile hg, RamMem.Live, hfiles]
        exact ⟨Or.inr, fun h => h.resolve_left hg⟩
  fails := by
    rintro op hop fs rel flags e m rc m' - hres g
    cases hop
    rcases rfOpen_files rel flags e m with ⟨m₁, he, hfiles⟩ | ⟨m₁, b, file, -, -, he⟩
    · cases he.symm.trans hres
      rw [RamMem.Live, hfiles, RamMem.Live]
    · cases he.symm.trans hres
  reads := by
    rintro op hop f len m r m' hres g
    cases hop
    obtain ⟨file, hf, -, hm⟩ := rfRead_cases hres
    rcases hm with rfl | ⟨file', -, rfl⟩
    · exact Iff.rfl
    · exact RamMem.live_setFile_of_live rfl (RamMem.live_of_files hf) g
  writes := by
    rintro op hop f buf len e m r m' hres g
    cases hop
    obtain ⟨file, hf, -⟩ := Option.bind_eq_some_iff.mp hres
    rcases rfWrite_cases hf with ⟨-, he⟩ | ⟨-, h, ent', -, ⟨hcap, hpos, he⟩ | ⟨-, he⟩⟩
    · cases he.symm.trans hres
      exact Iff.rfl
    · cases he.symm.trans hres
      exact RamMem.live_setFile_of_live rfl (RamMem.live_of_files hf) g
    · cases he.symm.trans hres
  seeks := by
    rintro op hop f off whence m r m' hres g
    cases hop
    obtain ⟨file, hf, he⟩ := rfLseek_cases hres
    rcases he with he | ⟨-, file', -, he⟩
    · cases he
      exact Iff.rfl
    · cases he
      exact RamMem.live_setFile_of_live rfl (RamMem.live_of_files hf) g
  closes := by
    rintro op hop f m r m' hres g hg
    cases hop
    obtain ⟨file, hf, he⟩ := Option.map_eq_some_iff.mp hres
    cases he
    exact RamMem.live_setFile hg

/-! ## Two opens at once -/

instance (s : Shared Unit Addr Answer RamMem Bool) (a : FdAct Answer Bool) :
    Decidable (s.Answered RamMem.Answers a) := by
  cases a
  case openFs t e => exact inferInstanceAs (Decidable (RamMem.Answers e s.vfs.mem))
  all_goals exact inferInstanceAs (Decidable True)

def ramStart : Shared Unit Addr Answer RamMem Bool := ⟨ramRoot, fun _ => none, []⟩

/-- Two tasks open a file each. Both have picked a descriptor before one of them takes it. -/
def opensAtOnce : List (FdAct Answer Bool) :=
  [.pick false pathA vfsOCreat, .pick true pathB vfsOCreat, .openFs false (filledWith 1 0),
    .openFs true (filledWith 2 0), .commit false, .commit true]

theorem ramRoot_laws : ∀ i m, ramRoot.mounts i = some m →
    FileLaws RamMem.Live RamMem.Answers m.ops := fun _ _ hm => ramRoot_ops hm ▸ ramfs_laws 64

/-- One task opens both files. -/
theorem descriptors_exclusive_two : ∃ tr s,
    FdRun (τ := Bool) RamMem.Answers ramRoot tr s ∧
      ((∀ e ∈ tr, Exclusive RamMem.Live e.post ∧ Keeps e) ↔ ∀ e ∈ tr, StillFree e.pre e.label.1) ∧
      s.held.map (·.1.val) = [1, 0] := by
  have hstart : FdStart ramRoot ramStart := rfl
  obtain ⟨tr, s, hrun, hheld⟩ := exists_perform
    (f := Shared.act) (C := Shared.Answered RamMem.Answers) hstart
    [.pick false pathA vfsOCreat, .openFs false (filledWith 1 0), .commit false,
      .pick false pathB vfsOCreat, .openFs false (filledWith 2 0), .commit false]
    (fun _ s => s.held.map (·.1.val) = [1, 0]) (by decide +kernel)
  exact ⟨tr, s, hrun, descriptors_exclusive (fun _ => rfl) ramRoot_laws hrun, hheld⟩

/-- Both opens return the descriptor `0`. -/
theorem descriptors_shared : ∃ tr s,
    FdRun (τ := Bool) RamMem.Answers ramRoot tr s ∧
      ¬ ∀ e ∈ tr, Exclusive RamMem.Live e.post ∧ Keeps e := by
  have hstart : FdStart ramRoot ramStart := rfl
  obtain ⟨tr, s, hrun, hne, hheld⟩ := exists_perform
    (f := Shared.act) (C := Shared.Answered RamMem.Answers) hstart
    opensAtOnce (fun tr s => tr.length ≠ 0 ∧ s.held.map (·.1.val) = [0, 0]) (by decide +kernel)
  refine ⟨tr, s, hrun, fun hall => ?_⟩
  cases hrun with
  | start => exact hne rfl
  | step hrun hs =>
    have hnd := (hall _ List.mem_cons_self).1.distinct
    have hval := hnd.map Fin.val_injective
    rw [List.map_map] at hval
    exact absurd (hheld ▸ hval) (by decide)

end Ittrium.Vfs
