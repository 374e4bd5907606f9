import UhidBattery.Lib.Program
import Mathlib.Data.List.Basic
import Mathlib.Data.List.Forall2
import Mathlib.Data.List.Nodup

/-!
# One object after the other

`tryForEach` runs a method on every object of a list, up to the first that
fails; `onOne` runs a program over a list on a single object.

* `tryForEach_eq_ok_iff`, `tryForEach_eq_err`: what ran, and on which objects.
* `guarantees_tryForEach`: a relation that the method guarantees of its own
  object, and does not break for objects with another key, is guaranteed of
  every object of a list without repeated keys.
-/

namespace Program

variable {σ ω κ ε ε' α : Type}

/-- `iter_mut().enumerate().try_for_each(f)`, from position `i` on. -/
def tryForEach (f : Nat → Program (ω × σ) ε Unit) :
    Nat → List ω → σ → Outcome ε Unit × List ω × σ
  | _, [], s => (.ok (), [], s)
  | i, x :: xs, s =>
    match f i (x, s) with
    | (.ok (), (x', s')) =>
      ((tryForEach f (i + 1) xs s').1, x' :: (tryForEach f (i + 1) xs s').2.1,
        (tryForEach f (i + 1) xs s').2.2)
    | (o, (x', s')) => (o, x' :: xs, s')

/-- A program over a list, run on a list of one. -/
def onOne (m : Program (List ω × σ) ε α) : Program (ω × σ) ε α := fun s =>
  ((m ([s.1], s.2)).1, ((m ([s.1], s.2)).2.1.headD s.1, (m ([s.1], s.2)).2.2))

/-! ## What ran -/

/-- `f` succeeded on every object in turn. -/
inductive EachOk (f : Program (ω × σ) ε Unit) : List ω → σ → List ω → σ → Prop where
  | nil (s : σ) : EachOk f [] s [] s
  | cons {x x' : ω} {xs xs' : List ω} {s s₁ s' : σ} (h : f (x, s) = (.ok (), (x', s₁)))
      (hs : EachOk f xs s₁ xs' s') : EachOk f (x :: xs) s (x' :: xs') s'

section TryForEach

variable {f : Program (ω × σ) ε Unit} {g : Nat → ε → ε'} {xs xs' : List ω} {s s' : σ} {i : Nat}

theorem EachOk.length_eq (h : EachOk f xs s xs' s') : xs'.length = xs.length := by
  induction h with
  | nil => rfl
  | cons _ _ ih => rw [List.length_cons, List.length_cons, ih]

/-- One object of a list in its turn. -/
theorem EachOk.split {before after : List ω} {x : ω} (h : EachOk f (before ++ x :: after) s xs' s') :
    ∃ s₁ s₂ before' x' after', EachOk f before s before' s₁ ∧ f (x, s₁) = (.ok (), (x', s₂)) ∧
      EachOk f after s₂ after' s' ∧ xs' = before' ++ x' :: after' := by
  induction before generalizing s xs' with
  | nil =>
    cases h with
    | cons hx hrest => exact ⟨_, _, [], _, _, .nil s, hx, hrest, rfl⟩
  | cons y before ih =>
    cases h with
    | cons hy hrest =>
      obtain ⟨s₁, s₂, before', x', after', hbefore, hx, hafter, rfl⟩ := ih hrest
      exact ⟨s₁, s₂, _, x', after', .cons hy hbefore, hx, hafter, rfl⟩

theorem tryForEach_eq_ok_iff :
    tryForEach (fun i => mapErr (g i) f) i xs s = (.ok (), xs', s') ↔ EachOk f xs s xs' s' := by
  induction xs generalizing i s xs' with
  | nil =>
    simp only [tryForEach, Prod.mk.injEq, true_and]
    constructor
    · rintro ⟨rfl, rfl⟩
      exact .nil s
    · intro h
      cases h
      exact ⟨rfl, rfl⟩
  | cons x xs ih =>
    rw [tryForEach, mapErr_apply]
    rcases hf : f (x, s) with ⟨o, x₁, s₁⟩
    constructor
    · intro h
      cases o with
      | ok u =>
        simp only [Outcome.mapErr, Prod.mk.injEq] at h
        obtain ⟨ho, rfl, hs⟩ := h
        exact .cons hf (ih.mp (Prod.ext ho (Prod.ext rfl hs)))
      | err e => cases h
      | panic => cases h
      | pending => cases h
    · intro h
      cases h with
      | @cons _ x' _ xs' _ s₁' _ hx hs =>
        rw [hx] at hf
        simp only [Prod.mk.injEq] at hf
        obtain ⟨rfl, rfl, rfl⟩ := hf
        simp only [Outcome.mapErr, ih.mpr hs]

/-- The first failure: the objects before it succeeded, those after it were
not reached. -/
theorem tryForEach_eq_err {e : ε'}
    (h : tryForEach (fun i => mapErr (g i) f) i xs s = (.err e, xs', s')) :
    ∃ before before' x x' after s₁ e₀, xs = before ++ x :: after ∧
      xs' = before' ++ x' :: after ∧ EachOk f before s before' s₁ ∧
      f (x, s₁) = (.err e₀, (x', s')) ∧ e = g (i + before.length) e₀ := by
  induction xs generalizing i s xs' with
  | nil => cases h
  | cons x xs ih =>
    rw [tryForEach, mapErr_apply] at h
    rcases hf : f (x, s) with ⟨o, x₁, s₁⟩
    rw [hf] at h
    cases o with
    | ok u =>
      simp only [Outcome.mapErr, Prod.mk.injEq] at h
      obtain ⟨ho, rfl, hs⟩ := h
      obtain ⟨before, before', y, y', after, s₂, e₀, rfl, hxs, hok, hy, rfl⟩ :=
        ih (Prod.ext ho (Prod.ext rfl hs))
      refine ⟨x :: before, x₁ :: before', y, y', after, s₂, e₀, rfl, ?_, .cons hf hok, hy, ?_⟩
      · exact congrArg (x₁ :: ·) hxs
      · rw [List.length_cons, Nat.add_right_comm, Nat.add_assoc]
    | err e₁ =>
      simp only [Outcome.mapErr, Prod.mk.injEq, Outcome.err.injEq] at h
      obtain ⟨rfl, rfl, rfl⟩ := h
      exact ⟨[], [], x, x₁, xs, s, e₁, rfl, rfl, .nil s, hf, rfl⟩
    | panic => cases h
    | pending => cases h

/-- Successes up to an object that fails. -/
theorem tryForEach_of_failed {before before' : List ω} {x x' : ω} {s₁ : σ} {e : ε}
    (after : List ω) (h : EachOk f before s before' s₁) (hx : f (x, s₁) = (.err e, (x', s'))) :
    tryForEach (fun i => mapErr (g i) f) i (before ++ x :: after) s =
      (.err (g (i + before.length) e), before' ++ x' :: after, s') := by
  induction h generalizing i with
  | nil s =>
    rw [List.nil_append, tryForEach, mapErr_apply, hx]
    rfl
  | @cons y y' ys ys' s s₁ s₂ hy _ ih =>
    rw [List.cons_append, tryForEach, mapErr_apply, hy]
    simp only [Outcome.mapErr]
    rw [ih hx, List.length_cons, Nat.add_right_comm, ← Nat.add_assoc]
    rfl

end TryForEach

/-! ## Guarantees for every object -/

section Each

variable (key : ω → κ) (R : ω × σ → ω × σ → Prop)

/-- Object by object, `R` holds of the object and the system; keys are kept. -/
def Each (s s' : List ω × σ) : Prop :=
  (s.1.map key).Nodup →
    List.Forall₂ (fun x x' => key x' = key x ∧ R (x, s.2) (x', s'.2)) s.1 s'.1

variable {key R}

theorem Each.keys {s s' : List ω × σ} (h : Each key R s s') (hn : (s.1.map key).Nodup) :
    s'.1.map key = s.1.map key := by
  have h' := h hn
  generalize s.1 = xs at h'
  generalize s'.1 = ys at h'
  induction h' with
  | nil => rfl
  | cons hx _ ih => rw [List.map_cons, List.map_cons, hx.1, ih]

instance [IsPreorder (ω × σ) R] : IsPreorder (List ω × σ) (Each key R) where
  refl s := by
    intro _
    rw [List.forall₂_same]
    exact fun x _ => ⟨rfl, refl_of R _⟩
  trans s₁ s₂ s₃ h h' := by
    intro hn
    have hn' : (s₂.1.map key).Nodup := by rw [h.keys hn]; exact hn
    have h₁ := h hn
    have h₂ := h' hn'
    generalize s₁.1 = xs at h₁
    generalize s₂.1 = ys at h₁ h₂
    generalize s₃.1 = zs at h₂
    induction h₁ generalizing zs with
    | nil =>
      cases h₂
      exact .nil
    | cons hx _ ih =>
      cases h₂ with
      | cons hy hrest =>
        exact .cons ⟨hy.1.trans hx.1, trans_of R hx.2 hy.2⟩ (ih _ hrest)

theorem guarantees_each_borrow {f : List ω → Program σ ε α} [IsPreorder (ω × σ) R]
    (h : ∀ xs s y, R (y, s) (y, (f xs s).2)) : Guarantees (Each key R) (borrow f) := by
  intro s _
  rw [borrow, List.forall₂_same]
  exact fun x _ => ⟨rfl, h s.1 s.2 x⟩

/-- What a run over other objects leaves alone. -/
theorem tryForEach_frame [IsPreorder (ω × σ) R] {f : Nat → Program (ω × σ) ε Unit}
    (hother : ∀ i x s y, key y ≠ key x → R (y, s) (y, (f i (x, s)).2.2)) {y : ω} {i : Nat}
    {xs : List ω} {s : σ} (hy : ∀ x ∈ xs, key y ≠ key x) :
    R (y, s) (y, (tryForEach f i xs s).2.2) := by
  induction xs generalizing i s with
  | nil => exact refl_of R _
  | cons x xs ih =>
    obtain ⟨hx, hrest⟩ := List.forall_mem_cons.mp hy
    have hstep := hother i x s y hx
    rw [tryForEach]
    rcases hf : f i (x, s) with ⟨o, x', s'⟩
    rw [hf] at hstep
    cases o with
    | ok u => exact trans_of R hstep (ih hrest)
    | err e => exact hstep
    | panic => exact hstep
    | pending => exact hstep

theorem guarantees_tryForEach [IsPreorder (ω × σ) R] {f : Nat → Program (ω × σ) ε Unit}
    (hself : ∀ i, Guarantees (fun s s' => key s'.1 = key s.1 ∧ R s s') (f i))
    (hother : ∀ i x s y, key y ≠ key x → R (y, s) (y, (f i (x, s)).2.2)) (i : Nat) :
    Guarantees (Each key R)
      (fun s => tryForEach f i s.1 s.2 : Program (List ω × σ) ε Unit) := by
  rintro ⟨xs, s⟩
  induction xs generalizing i s with
  | nil => exact fun _ => .nil
  | cons x xs ih =>
    intro hn
    obtain ⟨hx, hrest⟩ := List.nodup_cons.mp hn
    have hne : ∀ y ∈ xs, key y ≠ key x := fun y hy heq => hx (heq ▸ List.mem_map_of_mem hy)
    have hown := hself i (x, s)
    have hframe (y : ω) (hy : y ∈ xs) := hother i x s y (hne y hy)
    simp only
    rw [tryForEach]
    rcases hf : f i (x, s) with ⟨o, x', s'⟩
    simp only [hf] at hown hframe
    cases o with
    | ok u =>
      have hi := ih (i + 1) s' hrest
      refine .cons ⟨hown.1, trans_of R hown.2 ?_⟩ ?_
      · exact tryForEach_frame hother fun y hy => by
          rw [hown.1]
          exact (hne y hy).symm
      · refine (List.forall₂_iff_get.mpr ⟨hi.length_eq, fun k hk hk' => ?_⟩)
        have hget := hi.get hk hk'
        exact ⟨hget.1, trans_of R (hframe _ (List.get_mem xs ⟨k, hk⟩)) hget.2⟩
    | err e => exact .cons hown (List.forall₂_same.mpr fun y hy => ⟨rfl, hframe y hy⟩)
    | panic => exact .cons hown (List.forall₂_same.mpr fun y hy => ⟨rfl, hframe y hy⟩)
    | pending => exact .cons hown (List.forall₂_same.mpr fun y hy => ⟨rfl, hframe y hy⟩)

/-- A complete run over other objects. -/
theorem EachOk.frame [IsPreorder (ω × σ) R] {f : Program (ω × σ) ε Unit} {xs xs' : List ω}
    {s s' : σ} (hother : ∀ x s y, key y ≠ key x → R (y, s) (y, (f (x, s)).2.2))
    (h : EachOk f xs s xs' s') {y : ω} (hy : ∀ x ∈ xs, key y ≠ key x) : R (y, s) (y, s') := by
  induction h with
  | nil => exact refl_of R _
  | @cons x x' xs xs' s s₁ s' hx _ ih =>
    have hstep := hother x s y (hy x List.mem_cons_self)
    rw [hx] at hstep
    exact trans_of R hstep (ih fun z hz => hy z (List.mem_cons_of_mem _ hz))

/-- **A complete run**, where `R` is known of the runs that succeed. -/
theorem EachOk.each [IsPreorder (ω × σ) R] {f : Program (ω × σ) ε Unit} {xs xs' : List ω}
    {s s' : σ}
    (hself : ∀ {x s x' s'}, f (x, s) = (.ok (), (x', s')) → key x' = key x ∧ R (x, s) (x', s'))
    (hother : ∀ x s y, key y ≠ key x → R (y, s) (y, (f (x, s)).2.2)) (h : EachOk f xs s xs' s') :
    Each key R (xs, s) (xs', s') := by
  induction h with
  | nil s => exact fun _ => .nil
  | @cons x x' xs xs' s s₁ s' hx hrest ih =>
    intro hn
    obtain ⟨hnot, hn⟩ := List.nodup_cons.mp hn
    have hne : ∀ y ∈ xs, key y ≠ key x := fun y hy heq => hnot (heq ▸ List.mem_map_of_mem hy)
    have hown := hself hx
    have hframe (y : ω) (hy : y ∈ xs) := hother x s y (hne y hy)
    rw [hx] at hframe
    have hi := ih hn
    refine .cons ⟨hown.1, trans_of R hown.2 (hrest.frame hother fun y hy => ?_)⟩ ?_
    · rw [hown.1]
      exact (hne y hy).symm
    · refine List.forall₂_iff_get.mpr ⟨hi.length_eq, fun k hk hk' => ?_⟩
      have hget := hi.get hk hk'
      exact ⟨hget.1, trans_of R (hframe _ (List.get_mem xs ⟨k, hk⟩)) hget.2⟩

theorem guarantees_onOne {m : Program (List ω × σ) ε α} (hm : Guarantees (Each key R) m) :
    Guarantees R (onOne m) := by
  intro s
  have h := hm ([s.1], s.2) (List.nodup_singleton _)
  rw [onOne]
  rcases hres : m ([s.1], s.2) with ⟨o, xs, s'⟩
  rw [hres] at h
  cases h with
  | cons hx hrest => exact hx.2

end Each

end Program
