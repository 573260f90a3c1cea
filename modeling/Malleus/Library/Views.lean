import Malleus.Library.Runs
import Malleus.Library.Storage

/-! What a command can tell of a state.

`Relates R A m n` says that from two states that `R` relates, `m` and `n` come to the same
end, but for values that `A` relates, and leave states that `R` relates; `Respects R m` is
the case of one command and equal values. Where `R` is to look the same in some part,
nothing that the rest of the state holds shows in what a command that respects it says or
does there. A `View S R` is such a relation of disks: the files in `S` and the directories
are the same, and changes that are made to both keep it, whatever file they are made to. -/
namespace Effect

variable {σ τ ε ε' α β γ δ : Type} {R : σ → σ → Prop} {A : α → β → Prop}

/-- The same end, but for values that `A` relates. -/
inductive Outcome.Match (A : α → β → Prop) : Outcome ε α → Outcome ε β → Prop
  | ok {a : α} {b : β} (h : A a b) : Match A (.ok a) (.ok b)
  | error (e : ε) : Match A (.error e) (.error e)
  | killed : Match A .killed .killed

theorem Outcome.match_eq {o o' : Outcome ε α} : Outcome.Match Eq o o' ↔ o = o' := by
  constructor
  · intro h
    cases h with
    | ok h => rw [h]
    | error e => rfl
    | killed => rfl
  · rintro rfl
    cases o with
    | ok a => exact .ok rfl
    | error e => exact .error e
    | killed => exact .killed

/-- From related states two commands come to results that match, and to related states. -/
def Relates (R : σ → σ → Prop) (A : α → β → Prop) (m : Cmd σ ε α) (n : Cmd σ ε β) : Prop :=
  ∀ s t, R s t → Outcome.Match A (m s).1 (n t).1 ∧ R (m s).2 (n t).2

/-- The command makes no difference between related states. -/
def Respects (R : σ → σ → Prop) (m : Cmd σ ε α) : Prop := Relates R Eq m m

theorem respects_iff {m : Cmd σ ε α} :
    Respects R m ↔ ∀ s t, R s t → (m s).1 = (m t).1 ∧ R (m s).2 (m t).2 :=
  forall₃_congr fun _ _ _ => and_congr_left fun _ => Outcome.match_eq

/-! ### Two commands -/

section Relates
variable {m : Cmd σ ε α} {n : Cmd σ ε β}

theorem Relates.split (h : Relates R A m n) {s t : σ} (hst : R s t) :
    ∃ o o' s' t', m s = (o, s') ∧ n t = (o', t') ∧ Outcome.Match A o o' ∧ R s' t' :=
  ⟨(m s).1, (n t).1, (m s).2, (n t).2, rfl, rfl, h s t hst⟩

theorem Relates.mono {B : α → β → Prop} (h : Relates R A m n) (hAB : ∀ a b, A a b → B a b) :
    Relates R B m n := by
  intro s t hst
  obtain ⟨hmatch, hstate⟩ := h s t hst
  refine ⟨?_, hstate⟩
  generalize (m s).1 = o, (n t).1 = o' at hmatch
  cases hmatch with
  | ok h => exact .ok (hAB _ _ h)
  | error e => exact .error e
  | killed => exact .killed

theorem relates_pure {a : α} {b : β} (h : A a b) : Relates R A (pure a : Cmd σ ε α) (pure b) :=
  fun _ _ hst => ⟨.ok h, hst⟩

theorem relates_fail (e : ε) : Relates R A (Cmd.fail e : Cmd σ ε α) (Cmd.fail e) :=
  fun _ _ hst => ⟨.error e, hst⟩

theorem relates_gets {f : σ → α} {g : σ → β} (h : ∀ s t, R s t → A (f s) (g t)) :
    Relates R A (Cmd.gets f : Cmd σ ε α) (Cmd.gets g) := fun s t hst => ⟨.ok (h s t hst), hst⟩

theorem relates_bind {B : γ → δ → Prop} {f : α → Cmd σ ε γ} {g : β → Cmd σ ε δ} (hm : Relates R A m n)
    (hf : ∀ a b, A a b → Relates R B (f a) (g b)) : Relates R B (m >>= f) (n >>= g) := by
  intro s t hst
  obtain ⟨o, o', s', t', hs, ht, hmatch, hstate⟩ := hm.split hst
  rw [Cmd.bind_apply, Cmd.bind_apply, hs, ht]
  cases hmatch with
  | ok h => exact hf _ _ h s' t' hstate
  | error e => exact ⟨.error e, hstate⟩
  | killed => exact ⟨.killed, hstate⟩

theorem relates_mapError (h : Relates R A m n) (f : ε → ε') : Relates R A (m.mapError f) (n.mapError f) := by
  intro s t hst
  obtain ⟨o, o', s', t', hs, ht, hmatch, hstate⟩ := h.split hst
  unfold Cmd.mapError
  rw [hs, ht]
  cases hmatch with
  | ok h => exact ⟨.ok h, hstate⟩
  | error e => exact ⟨.error (f e), hstate⟩
  | killed => exact ⟨.killed, hstate⟩

theorem relates_zoom {R' : τ → τ → Prop} {get : σ → τ} {set : τ → σ → σ} {m : Cmd τ ε α}
    {n : Cmd τ ε β} (hget : ∀ s t, R s t → R' (get s) (get t))
    (hset : ∀ s t a b, R s t → R' a b → R (set a s) (set b t)) (h : Relates R' A m n) :
    Relates R A (Cmd.zoom get set m) (Cmd.zoom get set n) := by
  intro s t hst
  obtain ⟨hmatch, hstate⟩ := h (get s) (get t) (hget s t hst)
  exact ⟨hmatch, hset s t _ _ hst hstate⟩

/-- The same fault stops both at the same point. -/
theorem relates_stage {part part' : Nat → σ → σ} {whole whole' : σ → σ} (fault : Fault) (e : ε)
    (hpart : ∀ n s t, R s t → R (part n s) (part' n t)) (hwhole : ∀ s t, R s t → R (whole s) (whole' t)) :
    Relates R Eq (stage fault e part whole : Cmd σ ε Unit) (stage fault e part' whole') := by
  intro s t h
  cases fault with
  | none => exact ⟨.ok rfl, hwhole s t h⟩
  | fails done =>
    cases done with
    | none => exact ⟨.error e, h⟩
    | some n => exact ⟨.error e, hpart n s t h⟩
  | kills done =>
    cases done with
    | none => exact ⟨.killed, h⟩
    | some n => exact ⟨.killed, hpart n s t h⟩

/-- What equal values are made of does not show after them. -/
theorem relates_bind_eq {B : γ → δ → Prop} {n : Cmd σ ε α} {f : α → Cmd σ ε γ} {g : α → Cmd σ ε δ}
    (hm : Relates R Eq m n) (hf : ∀ a, Relates R B (f a) (g a)) : Relates R B (m >>= f) (n >>= g) :=
  relates_bind hm fun a b h => by
    subst h
    exact hf a

end Relates

/-! ### One command -/

theorem respects_pure (a : α) : Respects R (pure a : Cmd σ ε α) := relates_pure rfl

theorem respects_fail (e : ε) : Respects R (Cmd.fail e : Cmd σ ε α) := relates_fail e

theorem respects_die : Respects R (Cmd.die : Cmd σ ε α) := fun _ _ h => ⟨.killed, h⟩

theorem respects_modify {f : σ → σ} (hf : ∀ s t, R s t → R (f s) (f t)) :
    Respects R (Cmd.modify f : Cmd σ ε Unit) := fun s t h => ⟨.ok rfl, hf s t h⟩

theorem respects_gets {f : σ → α} (hf : ∀ s t, R s t → f s = f t) :
    Respects R (Cmd.gets f : Cmd σ ε α) := relates_gets hf

theorem respects_bind {m : Cmd σ ε α} {f : α → Cmd σ ε β} (hm : Respects R m)
    (hf : ∀ a, Respects R (f a)) : Respects R (m >>= f) := relates_bind_eq hm hf

/-- What is got may differ, so long as what is made of it does not. -/
theorem respects_gets_bind {f : σ → α} {k : α → Cmd σ ε β}
    (h : ∀ s t, R s t → (k (f s) s).1 = (k (f t) t).1 ∧ R (k (f s) s).2 (k (f t) t).2) :
    Respects R (Cmd.gets f >>= k) := respects_iff.mpr h

theorem respects_ite {c : Prop} [Decidable c] {m n : Cmd σ ε α} (hm : Respects R m) (hn : Respects R n) :
    Respects R (if c then m else n) := by
  split
  · exact hm
  · exact hn

theorem respects_mapError {m : Cmd σ ε α} (h : Respects R m) (f : ε → ε') : Respects R (m.mapError f) :=
  relates_mapError h f

theorem respects_attempt {m : Cmd σ ε α} (h : Respects R m) :
    Respects R (m.attempt : Cmd σ ε' (Option α)) := by
  intro s t hst
  obtain ⟨o, o', s', t', hs, ht, hmatch, hstate⟩ := h.split hst
  unfold Cmd.attempt
  rw [hs, ht]
  cases hmatch with
  | ok h => exact ⟨.ok (congrArg some h), hstate⟩
  | error e => exact ⟨.ok rfl, hstate⟩
  | killed => exact ⟨.killed, hstate⟩

theorem respects_stage {part : Nat → σ → σ} {whole : σ → σ} (fault : Fault) (e : ε)
    (hpart : ∀ n s t, R s t → R (part n s) (part n t)) (hwhole : ∀ s t, R s t → R (whole s) (whole t)) :
    Respects R (stage fault e part whole : Cmd σ ε Unit) := relates_stage fault e hpart hwhole

end Effect

namespace Storage
open Effect Strings

variable {F D : Type} [DecidableEq F] {S S' : F → Prop}

theorem put_congr {d d' : Disk F D} {f g : F} (h : g ≠ f → d.file g = d'.file g) (b : Bytes) :
    (d.put f b).file g = (d'.put f b).file g := by
  by_cases hgf : g = f
  · subst hgf
    rw [Disk.put_self, Disk.put_self]
  · rw [Disk.put_of_ne d hgf, Disk.put_of_ne d' hgf]
    exact h hgf

theorem erase_congr {d d' : Disk F D} {f g : F} (h : g ≠ f → d.file g = d'.file g) :
    (d.erase f).file g = (d'.erase f).file g := by
  by_cases hgf : g = f
  · subst hgf
    rw [Disk.erase_self, Disk.erase_self]
  · rw [Disk.erase_of_ne d hgf, Disk.erase_of_ne d' hgf]
    exact h hgf

variable [DecidableEq D]

/-- The files in `S` and the directories look the same, and go on to after equal changes. -/
structure View (S : F → Prop) (R : Disk F D → Disk F D → Prop) : Prop where
  file {d d' : Disk F D} (h : R d d') (f : F) (hf : S f) : d.file f = d'.file f
  dir {d d' : Disk F D} (h : R d d') : d.dir = d'.dir
  put {d d' : Disk F D} (h : R d d') (f : F) (b : Bytes) : R (d.put f b) (d'.put f b)
  erase {d d' : Disk F D} (h : R d d') (f : F) : R (d.erase f) (d'.erase f)
  eraseTree {d d' : Disk F D} (h : R d d') (files : F → Bool) (dirs : D → Bool) :
    R (d.eraseTree files dirs) (d'.eraseTree files dirs)
  mkdirs {d d' : Disk F D} (h : R d d') (ds : List D) : R (d.mkdirs ds) (d'.mkdirs ds)

theorem View.mono {R : Disk F D → Disk F D → Prop} (hR : View S R) (h : ∀ f, S' f → S f) : View S' R :=
  {hR with file := fun hd f hf => hR.file hd f (h f hf)}

/-- The same directories, and the same of these files. -/
structure Agree (S : F → Prop) (d d' : Disk F D) : Prop where
  file : ∀ f, S f → d.file f = d'.file f
  dir : d.dir = d'.dir

theorem agree_view : View S (Agree S : Disk F D → Disk F D → Prop) where
  file h f hf := h.file f hf
  dir h := h.dir
  put h f b := ⟨fun g hg => put_congr (fun _ => h.file g hg) b, h.dir⟩
  erase h f := ⟨fun g hg => erase_congr fun _ => h.file g hg, h.dir⟩
  eraseTree {d d'} h files dirs := by
    refine ⟨fun g hg => ?_, ?_⟩
    · show (if files g then none else d.file g) = if files g then none else d'.file g
      rw [h.file g hg]
    · show (fun x => d.dir x && !dirs x) = fun x => d'.dir x && !dirs x
      rw [h.dir]
  mkdirs {d d'} h ds := by
    refine ⟨h.file, ?_⟩
    show (fun x => d.dir x || decide (x ∈ ds)) = fun x => d'.dir x || decide (x ∈ ds)
    rw [h.dir]

section Operations
variable {R : Disk F D → Disk F D → Prop} {fault : Fault} {f : F}

/-- The same contents are written, or others that do not show. -/
theorem relates_write [Tree F D] {b b' : Bytes} (hR : View S R)
    (hpart : ∀ n d d', R d d' → R (d.put f (b.take n)) (d'.put f (b'.take n)))
    (hwhole : ∀ d d', R d d' → R (d.put f b) (d'.put f b')) :
    Relates R Eq (write fault f b : Cmd (Disk F D) IoError Unit) (write fault f b') := by
  refine relates_bind_eq (relates_gets fun d d' h => congrFun (hR.dir h) _) fun there => ?_
  split
  · exact relates_stage fault _ hpart hwhole
  · exact relates_fail _

variable (hR : View S R)
include hR

theorem respects_present (hf : S f) : Respects R (present f : Cmd (Disk F D) IoError Bool) :=
  respects_gets fun _ _ h => congrArg Option.isSome (hR.file h f hf)

theorem respects_readFile (hf : S f) : Respects R (readFile fault f : Cmd (Disk F D) IoError Bytes) := by
  refine respects_bind (respects_stage fault _ (fun _ _ _ h => h) fun _ _ h => h) fun _ => ?_
  refine respects_bind (respects_gets fun _ _ h => hR.file h f hf) fun contents => ?_
  cases contents with
  | some b => exact respects_pure b
  | none => exact respects_fail _

theorem respects_readToString (hf : S f) :
    Respects R (readToString fault f : Cmd (Disk F D) IoError Text) := by
  refine respects_bind (respects_readFile hR hf) fun b => ?_
  cases decode b with
  | some t => exact respects_pure t
  | none => exact respects_fail _

theorem respects_openWrite (hf : S f) : Respects R (openWrite fault f : Cmd (Disk F D) IoError Unit) :=
  respects_bind (respects_readFile hR hf) fun _ => respects_pure _

theorem respects_createDirAll [Tree F D] (x : D) :
    Respects R (createDirAll fault x : Cmd (Disk F D) IoError Unit) :=
  respects_stage fault _ (fun _ _ _ h => hR.mkdirs h _) fun _ _ h => hR.mkdirs h _

theorem respects_removeDirAll (files : F → Bool) (dirs : D → Bool) (order : List F) :
    Respects R (removeDirAll fault files dirs order : Cmd (Disk F D) IoError Unit) :=
  respects_stage fault _ (fun _ _ _ h => hR.eraseTree h _ _) fun _ _ h => hR.eraseTree h _ _

theorem respects_removeFile (hf : S f) :
    Respects R (removeFile fault f : Cmd (Disk F D) IoError Unit) := by
  refine respects_bind (respects_present hR hf) fun there => respects_ite ?_ (respects_fail _)
  exact respects_stage fault _ (fun _ _ _ h => hR.erase h f) fun _ _ h => hR.erase h f

theorem respects_setLen (hf : S f) (n : Nat) :
    Respects R (setLen fault f n : Cmd (Disk F D) IoError Unit) := by
  refine respects_bind (respects_readFile hR hf) fun b => respects_ite ?_ ?_
  · exact respects_stage fault _ (fun _ _ _ h => hR.put h f _) fun _ _ h => hR.put h f _
  · exact respects_bind (respects_stage fault _ (fun _ _ _ h => h) fun _ _ h => h) fun _ =>
      respects_fail _

variable [Tree F D]

/-- The file that is written need not be one of those that look the same. -/
theorem respects_write (f : F) (b : Bytes) :
    Respects R (write fault f b : Cmd (Disk F D) IoError Unit) :=
  relates_write hR (fun _ _ _ h => hR.put h f _) fun _ _ h => hR.put h f b

theorem respects_createFile (f : F) :
    Respects R (createFile fault f : Cmd (Disk F D) IoError Unit) := respects_write hR f []

theorem respects_copy {src : F} (hsrc : S src) (dst : F) :
    Respects R (copy fault src dst : Cmd (Disk F D) IoError Unit) :=
  respects_bind (respects_readFile hR hsrc) fun b => respects_write hR dst b

end Operations

end Storage
