import UhidBattery.Lib.Each

/-!
# What a program that succeeds has done

`Ensures R m` says that where `m` succeeds, the state it leaves is `R`-later than
the one it found.  Nothing is asked of the runs that fail.

* `ensures_bind`, `ensures_loop`, `ensures_tryForEach`: the rules, one for each way
  of putting programs together.
* `Guarantees.ensures`: what holds whatever the outcome holds of success.
-/

namespace Program

variable {σ ω κ ε ε' α β : Type}

/-- Where the program succeeds, the state left is `R`-later than the one found. -/
def Ensures (R : σ → σ → Prop) (m : Program σ ε α) : Prop :=
  ∀ s a s', m s = (.ok a, s') → R s s'

theorem Guarantees.ensures {R : σ → σ → Prop} {m : Program σ ε α} (hm : Guarantees R m) :
    Ensures R m := by
  intro s a s' h
  have hs := hm s
  rwa [h] at hs

section Rules

variable {R : σ → σ → Prop}

theorem ensures_mapErr {g : ε → ε'} {m : Program σ ε α} (hm : Ensures R m) :
    Ensures R (mapErr g m) := by
  intro s a s' h
  rw [mapErr_apply] at h
  rcases hs : m s with ⟨o, s₁⟩
  rw [hs] at h
  cases o with
  | ok b =>
    cases h
    exact hm s _ _ hs
  | err e => cases h
  | panic => cases h
  | pending => cases h

variable [IsPreorder σ R]

theorem ensures_pure (a : α) : Ensures R (pure a : Program σ ε α) :=
  (guarantees_pure a).ensures

theorem ensures_ofOutcome (o : Outcome ε α) : Ensures R (ofOutcome o : Program σ ε α) :=
  (guarantees_ofOutcome o).ensures

theorem ensures_bind {m : Program σ ε α} {f : α → Program σ ε β} (hm : Ensures R m)
    (hf : ∀ a, Ensures R (f a)) : Ensures R (m >>= f) := by
  intro s b s' h
  obtain ⟨a, s₁, h₁, h₂⟩ := bind_eq_ok_iff.mp h
  exact trans_of R (hm s a s₁ h₁) (hf a s₁ b s' h₂)

theorem ensures_loop {body : Program σ ε (Option α)} (hb : Ensures R body) (rounds : Nat) :
    Ensures R (loop body rounds) := by
  induction rounds with
  | zero => exact fun s a s' h => by cases h
  | succ n ih =>
    apply ensures_bind hb
    intro r
    cases r with
    | some a => exact ensures_pure a
    | none => exact ih

end Rules

/-! ## One object after the other -/

section Each

variable {key : ω → κ} {R : ω × σ → ω × σ → Prop} [IsPreorder (ω × σ) R]

/-- **One object after the other**, all with success. -/
theorem ensures_tryForEach {f : Program (ω × σ) ε Unit} {g : Nat → ε → ε'}
    (hself : Ensures (fun s s' => key s'.1 = key s.1 ∧ R s s') f)
    (hother : ∀ x s y, key y ≠ key x → R (y, s) (y, (f (x, s)).2.2)) (i : Nat) :
    Ensures (Each key R) (fun s => tryForEach (fun i => mapErr (g i) f) i s.1 s.2 :
      Program (List ω × σ) ε' Unit) := by
  rintro ⟨xs, s⟩ _ ⟨xs', s'⟩ h
  exact (tryForEach_eq_ok_iff.mp h).each (fun hx => hself _ _ _ hx) hother

omit [IsPreorder (ω × σ) R] in
theorem ensures_onOne {m : Program (List ω × σ) ε α} (hm : Ensures (Each key R) m) :
    Ensures R (onOne m) := by
  intro s a s' h
  rcases hres : m ([s.1], s.2) with ⟨o, xs, s₁⟩
  rw [onOne, hres] at h
  obtain ⟨rfl, rfl⟩ := Prod.mk.inj h
  have heach := hm _ _ _ hres (List.nodup_singleton _)
  cases heach with
  | cons hx hrest => exact hx.2

end Each

end Program
