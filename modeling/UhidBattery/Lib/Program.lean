import Mathlib.Logic.Relation
import Mathlib.Tactic.Common

/-!
# Programs that call out to a system

A `Program σ ε α` runs on a state `σ` and always leaves one, whether it returns
a value, returns an error, panics, or has not ended within the rounds allowed
to its loops (`pending`).  `loop` is the only source of repetition.

* `Guarantees R m`: whatever the outcome, `m` takes a state to an `R`-later one;
  a preorder guaranteed by every part is guaranteed by the whole.
* `loop_turns`: a loop went through turns that all asked for another one, and
  then through the one it was left in.
* `Simulates R m m'`: from related states the two end alike, in related states.
* `Settles m m'`: where `m` ends, `m'` ends the same way; allowing more rounds
  settles every program built from the combinators.
-/

namespace Program

/-- How a call ended; `pending` is a call that has not. -/
inductive Outcome (ε α : Type) where
  | ok (a : α)
  | err (e : ε)
  | panic
  | pending
  deriving DecidableEq, Repr

namespace Outcome

variable {ε ε' α β : Type}

def bind : Outcome ε α → (α → Outcome ε β) → Outcome ε β
  | ok a, f => f a
  | err e, _ => err e
  | panic, _ => panic
  | pending, _ => pending

instance : Monad (Outcome ε) where
  pure := ok
  bind := bind

def mapErr (f : ε → ε') : Outcome ε α → Outcome ε' α
  | ok a => ok a
  | err e => err (f e)
  | panic => panic
  | pending => pending

theorem mapErr_eq_ok_iff {f : ε → ε'} {o : Outcome ε α} {a : α} : o.mapErr f = .ok a ↔ o = .ok a := by
  cases o <;> simp [mapErr]

/-- A failure, as it passes from a call to its caller. -/
inductive SameFailure : Outcome ε α → Outcome ε β → Prop where
  | err (e : ε) : SameFailure (.err e) (.err e)
  | panic : SameFailure .panic .panic
  | pending : SameFailure .pending .pending

theorem SameFailure.ne_ok {o : Outcome ε α} {o' : Outcome ε β} (h : SameFailure o o') :
    (∀ a, o ≠ .ok a) ∧ ∀ b, o' ≠ .ok b := by
  cases h <;> simp

/-- The call came back to its caller. -/
def Returned : Outcome ε α → Prop
  | ok _ | err _ => True
  | panic | pending => False

@[simp] theorem pure_eq (a : α) : (pure a : Outcome ε α) = ok a := rfl
@[simp] theorem ok_bind (a : α) (f : α → Outcome ε β) : (ok a >>= f) = f a := rfl
@[simp] theorem err_bind (e : ε) (f : α → Outcome ε β) : (err e >>= f) = err e := rfl
@[simp] theorem panic_bind (f : α → Outcome ε β) : (panic >>= f) = panic := rfl
@[simp] theorem pending_bind (f : α → Outcome ε β) : (pending >>= f) = pending := rfl

theorem Returned.ne_pending {o : Outcome ε α} (h : o.Returned) : o ≠ pending := by
  rintro rfl
  exact h

theorem Returned.ne_panic {o : Outcome ε α} (h : o.Returned) : o ≠ panic := by
  rintro rfl
  exact h

end Outcome

end Program

open Program (Outcome)

/-- A program over states `σ`: the outcome, and the state it left. -/
def Program (σ ε α : Type) : Type := σ → Outcome ε α × σ

namespace Program

variable {σ ε ε' α β : Type}

/-! ## Combinators -/

/-- Sequencing: anything but a value ends the program where it stands. -/
def andThen (m : Program σ ε α) (f : α → Program σ ε β) : Program σ ε β := fun s =>
  match m s with
  | (.ok a, s') => f a s'
  | (.err e, s') => (.err e, s')
  | (.panic, s') => (.panic, s')
  | (.pending, s') => (.pending, s')

instance : Monad (Program σ ε) where
  pure a := fun s => (.ok a, s)
  bind := andThen

def fail (e : ε) : Program σ ε α := fun s => (.err e, s)

def ofOutcome (o : Outcome ε α) : Program σ ε α := fun s => (o, s)

def mapErr (f : ε → ε') (m : Program σ ε α) : Program σ ε' α :=
  fun s => ((m s).1.mapErr f, (m s).2)

/-- The result as a value, for a caller that looks at the error itself. -/
def attempt (m : Program σ ε α) : Program σ ε' (Except ε α) := fun s =>
  match m s with
  | (.ok a, s') => (.ok (.ok a), s')
  | (.err e, s') => (.ok (.error e), s')
  | (.panic, s') => (.panic, s')
  | (.pending, s') => (.pending, s')

/-- Runs `body` until it gives a value, `rounds` times at most. -/
def loop (body : Program σ ε (Option α)) : Nat → Program σ ε α
  | 0 => fun s => (.pending, s)
  | rounds + 1 => body >>= fun
    | some a => pure a
    | none => loop body rounds

/-- One turn of a loop after which it goes round again. -/
def Turn (body : Program σ ε (Option α)) (s s' : σ) : Prop := body s = (.ok none, s')

@[simp] theorem pure_apply (a : α) (s : σ) : (pure a : Program σ ε α) s = (.ok a, s) := rfl
@[simp] theorem fail_apply (e : ε) (s : σ) : (fail e : Program σ ε α) s = (.err e, s) := rfl
@[simp] theorem ofOutcome_apply (o : Outcome ε α) (s : σ) : ofOutcome o s = (o, s) := rfl

theorem bind_apply (m : Program σ ε α) (f : α → Program σ ε β) (s : σ) :
    (m >>= f) s = match m s with
      | (.ok a, s') => f a s'
      | (.err e, s') => (.err e, s')
      | (.panic, s') => (.panic, s')
      | (.pending, s') => (.pending, s') := rfl

theorem bind_pure_apply (m : Program σ ε α) (b : β) (s : σ) :
    (m >>= fun _ => pure b) s = ((m s).1 >>= fun _ => .ok b, (m s).2) := by
  rw [bind_apply]
  rcases m s with ⟨o, s₁⟩
  cases o <;> rfl

theorem attempt_apply (m : Program σ ε α) (s : σ) :
    (attempt m : Program σ ε' _) s = match m s with
      | (.ok a, s') => (.ok (.ok a), s')
      | (.err e, s') => (.ok (.error e), s')
      | (.panic, s') => (.panic, s')
      | (.pending, s') => (.pending, s') := rfl

theorem bind_ok {m : Program σ ε α} {f : α → Program σ ε β} {s s' : σ} {a : α}
    (h : m s = (.ok a, s')) : (m >>= f) s = f a s' := by
  rw [bind_apply, h]

theorem bind_err {m : Program σ ε α} {f : α → Program σ ε β} {s s' : σ} {e : ε}
    (h : m s = (.err e, s')) : (m >>= f) s = (.err e, s') := by
  rw [bind_apply, h]

theorem bind_panic {m : Program σ ε α} {f : α → Program σ ε β} {s s' : σ}
    (h : m s = (.panic, s')) : (m >>= f) s = (.panic, s') := by
  rw [bind_apply, h]

theorem bind_pending {m : Program σ ε α} {f : α → Program σ ε β} {s s' : σ}
    (h : m s = (.pending, s')) : (m >>= f) s = (.pending, s') := by
  rw [bind_apply, h]

theorem bind_fail_apply (m : Program σ ε α) (e : α → ε) (s : σ) :
    (m >>= fun a => fail (e a) : Program σ ε β) s = ((m s).1 >>= fun a => .err (e a), (m s).2) := by
  rw [bind_apply]
  rcases m s with ⟨o, s₁⟩
  cases o <;> rfl

theorem mapErr_apply (f : ε → ε') (m : Program σ ε α) (s : σ) :
    mapErr f m s = ((m s).1.mapErr f, (m s).2) := rfl

theorem bind_eq_ok_iff {m : Program σ ε α} {f : α → Program σ ε β} {s s' : σ} {b : β} :
    (m >>= f) s = (.ok b, s') ↔ ∃ a s₁, m s = (.ok a, s₁) ∧ f a s₁ = (.ok b, s') := by
  rw [bind_apply]
  rcases m s with ⟨o, s₁⟩
  cases o <;> simp

theorem bind_eq_err_iff {m : Program σ ε α} {f : α → Program σ ε β} {s s' : σ} {e : ε} :
    (m >>= f) s = (.err e, s') ↔
      m s = (.err e, s') ∨ ∃ a s₁, m s = (.ok a, s₁) ∧ f a s₁ = (.err e, s') := by
  rw [bind_apply]
  rcases m s with ⟨o, s₁⟩
  cases o <;> simp

/-- A program in two parts gets to its second part, or fails as the first did. -/
theorem bind_cases (m : Program σ ε α) (f : α → Program σ ε β) (s : σ) :
    (∃ a s₁, m s = (.ok a, s₁) ∧ (m >>= f) s = f a s₁) ∨
    ∃ o o' s₁, m s = (o, s₁) ∧ Outcome.SameFailure o o' ∧ (m >>= f) s = (o', s₁) := by
  rw [bind_apply]
  rcases m s with ⟨o, s₁⟩
  cases o with
  | ok a => exact Or.inl ⟨a, s₁, rfl, rfl⟩
  | err e => exact Or.inr ⟨_, _, s₁, rfl, .err e, rfl⟩
  | panic => exact Or.inr ⟨_, _, s₁, rfl, .panic, rfl⟩
  | pending => exact Or.inr ⟨_, _, s₁, rfl, .pending, rfl⟩

/-! ## Guarantees -/

/-- Whatever the outcome, the state left is `R`-later than the one found. -/
def Guarantees (R : σ → σ → Prop) (m : Program σ ε α) : Prop := ∀ s, R s (m s).2

section Guarantees

variable {R : σ → σ → Prop}

theorem guarantees_mapErr {g : ε → ε'} {m : Program σ ε α} (hm : Guarantees R m) :
    Guarantees R (mapErr g m) :=
  fun s => hm s

variable [IsPreorder σ R]

theorem guarantees_pure (a : α) : Guarantees R (pure a : Program σ ε α) :=
  fun s => refl_of R s

theorem guarantees_ofOutcome (o : Outcome ε α) : Guarantees R (ofOutcome o : Program σ ε α) :=
  fun s => refl_of R s

theorem guarantees_bind {m : Program σ ε α} {f : α → Program σ ε β}
    (hm : Guarantees R m) (hf : ∀ a, Guarantees R (f a)) : Guarantees R (m >>= f) := by
  intro s
  have h := hm s
  rw [bind_apply]
  rcases hs : m s with ⟨o, s₁⟩
  rw [hs] at h
  cases o with
  | ok a => exact trans_of R h (hf a s₁)
  | err e => exact h
  | panic => exact h
  | pending => exact h

/-- What comes after a part of a program is later than what the part left. -/
theorem guarantees_after {m : Program σ ε α} {f : α → Program σ ε β}
    (hf : ∀ a, Guarantees R (f a)) (s : σ) : R (m s).2 ((m >>= f) s).2 := by
  rw [bind_apply]
  rcases m s with ⟨o, s₁⟩
  cases o with
  | ok a => exact hf a s₁
  | err e => exact refl_of R s₁
  | panic => exact refl_of R s₁
  | pending => exact refl_of R s₁

theorem guarantees_loop {body : Program σ ε (Option α)} (hb : Guarantees R body) (rounds : Nat) :
    Guarantees R (loop body rounds) := by
  induction rounds with
  | zero => exact fun s => refl_of R s
  | succ n ih =>
    apply guarantees_bind hb
    intro r
    cases r with
    | some a => exact guarantees_pure a
    | none => exact ih

end Guarantees

/-! ## What a loop did -/

open Relation (ReflTransGen)

theorem loop_succ_apply (body : Program σ ε (Option α)) (n : Nat) (s : σ) :
    loop body (n + 1) s = match body s with
      | (.ok (some a), s') => (.ok a, s')
      | (.ok none, s') => loop body n s'
      | (.err e, s') => (.err e, s')
      | (.panic, s') => (.panic, s')
      | (.pending, s') => (.pending, s') := by
  rw [loop, bind_apply]
  rcases body s with ⟨o, s₁⟩
  rcases o with (_ | a) | e | _ | _ <;> rfl

/-- A loop fails as its body does. -/
theorem loop_of_failure {γ : Type} {body : Program σ ε (Option α)} {s s' : σ} {o : Outcome ε γ}
    {o₁ : Outcome ε (Option α)} (hb : body s = (o₁, s')) (hf : Outcome.SameFailure o o₁) :
    ∃ o₂, Outcome.SameFailure o o₂ ∧ ∀ n, loop body (n + 1) s = (o₂, s') := by
  cases hf with
  | err e => exact ⟨_, .err e, fun n => by rw [loop_succ_apply, hb]⟩
  | panic => exact ⟨_, .panic, fun n => by rw [loop_succ_apply, hb]⟩
  | pending => exact ⟨_, .pending, fun n => by rw [loop_succ_apply, hb]⟩

/-- How a loop stood when it was left: turns that went round again, then the
last thing its body did. -/
theorem loop_turns (body : Program σ ε (Option α)) (rounds : Nat) (s : σ) :
    ∃ s₁, ReflTransGen (Turn body) s s₁ ∧
      match loop body rounds s with
      | (.ok a, s') => body s₁ = (.ok (some a), s')
      | (.err e, s') => body s₁ = (.err e, s')
      | (.panic, s') => body s₁ = (.panic, s')
      | (.pending, s') => s' = s₁ ∨ body s₁ = (.pending, s') := by
  induction rounds generalizing s with
  | zero => exact ⟨s, .refl, Or.inl rfl⟩
  | succ n ih =>
    rw [loop_succ_apply]
    rcases hb : body s with ⟨o, s'⟩
    rcases o with (_ | a) | e | _ | _
    · obtain ⟨s₁, ht, hs⟩ := ih s'
      exact ⟨s₁, .head hb ht, hs⟩
    · exact ⟨s, .refl, hb⟩
    · exact ⟨s, .refl, hb⟩
    · exact ⟨s, .refl, hb⟩
    · exact ⟨s, .refl, Or.inr hb⟩

theorem loop_eq_ok {body : Program σ ε (Option α)} {rounds : Nat} {s s' : σ} {a : α}
    (h : loop body rounds s = (.ok a, s')) :
    ∃ s₁, ReflTransGen (Turn body) s s₁ ∧ body s₁ = (.ok (some a), s') := by
  obtain ⟨s₁, ht, hs⟩ := loop_turns body rounds s
  rw [h] at hs
  exact ⟨s₁, ht, hs⟩

theorem loop_eq_err {body : Program σ ε (Option α)} {rounds : Nat} {s s' : σ} {e : ε}
    (h : loop body rounds s = (.err e, s')) :
    ∃ s₁, ReflTransGen (Turn body) s s₁ ∧ body s₁ = (.err e, s') := by
  obtain ⟨s₁, ht, hs⟩ := loop_turns body rounds s
  rw [h] at hs
  exact ⟨s₁, ht, hs⟩

/-- A loop whose turns lead to a failure fails there, rounds permitting. -/
theorem loop_of_turns {body : Program σ ε (Option α)} {s s₁ s' : σ} {e : ε} (rounds : Nat)
    (ht : ReflTransGen (Turn body) s s₁) (h : body s₁ = (.err e, s')) :
    (loop body rounds s).1 = .pending ∨ loop body rounds s = (.err e, s') := by
  induction ht using ReflTransGen.head_induction_on generalizing rounds with
  | refl =>
    cases rounds with
    | zero => exact Or.inl rfl
    | succ n => exact Or.inr (by rw [loop_succ_apply, h])
  | head hturn _ ih =>
    cases rounds with
    | zero => exact Or.inl rfl
    | succ n =>
      rw [loop_succ_apply, show body _ = (.ok none, _) from hturn]
      exact ih n

/-- Two bodies that agree wherever the loop may come make the same loop. -/
theorem loop_congr {body body' : Program σ ε (Option α)} {P : σ → Prop}
    (hbody : ∀ s, P s → body s = body' s) (hkeep : ∀ s s', P s → Turn body' s s' → P s')
    (rounds : Nat) {s : σ} (hs : P s) : loop body rounds s = loop body' rounds s := by
  induction rounds generalizing s with
  | zero => rfl
  | succ n ih =>
    rw [loop_succ_apply, loop_succ_apply, hbody s hs]
    rcases hb : body' s with ⟨o, s'⟩
    rcases o with (_ | a) | e | _ | _
    · exact ih (hkeep s s' hs hb)
    · rfl
    · rfl
    · rfl
    · rfl

/-! ## Methods

A method runs on the object and the system together.  `borrow` is `&self`: it
reads the object and cannot change it; `update` writes the object alone. -/

variable {ω : Type}

def borrow (f : ω → Program σ ε α) : Program (ω × σ) ε α := fun s =>
  ((f s.1 s.2).1, (s.1, (f s.1 s.2).2))

def update (g : ω → ω) : Program (ω × σ) ε Unit := fun s => (.ok (), (g s.1, s.2))

@[simp] theorem update_apply (g : ω → ω) (s : ω × σ) :
    (update g : Program (ω × σ) ε Unit) s = (.ok (), (g s.1, s.2)) := rfl

theorem guarantees_borrow {R : ω × σ → ω × σ → Prop} {f : ω → Program σ ε α}
    (hf : ∀ x s, R (x, s) (x, (f x s).2)) : Guarantees R (borrow f) :=
  fun s => hf s.1 s.2

/-! ## Simulation

Two programs over different systems, side by side. -/

section Simulation

variable {σ' : Type} {R : σ → σ' → Prop}

/-- From related states the two end alike, in related states. -/
def Simulates (R : σ → σ' → Prop) (m : Program σ ε α) (m' : Program σ' ε α) : Prop :=
  ∀ s s', R s s' → (m s).1 = (m' s').1 ∧ R (m s).2 (m' s').2

theorem simulates_pure (a : α) :
    Simulates R (pure a : Program σ ε α) (pure a : Program σ' ε α) :=
  fun _ _ h => ⟨rfl, h⟩

theorem simulates_fail (e : ε) :
    Simulates R (fail e : Program σ ε α) (fail e : Program σ' ε α) :=
  fun _ _ h => ⟨rfl, h⟩

theorem simulates_ofOutcome (o : Outcome ε α) :
    Simulates R (ofOutcome o : Program σ ε α) (ofOutcome o : Program σ' ε α) :=
  fun _ _ h => ⟨rfl, h⟩

theorem simulates_bind {m : Program σ ε α} {m' : Program σ' ε α} {f : α → Program σ ε β}
    {f' : α → Program σ' ε β} (hm : Simulates R m m') (hf : ∀ a, Simulates R (f a) (f' a)) :
    Simulates R (m >>= f) (m' >>= f') := by
  intro s s' h
  obtain ⟨ho, hr⟩ := hm s s' h
  rw [bind_apply, bind_apply]
  rcases hs : m s with ⟨o, s₁⟩
  rcases hs' : m' s' with ⟨o', s₁'⟩
  rw [hs, hs'] at ho hr
  obtain rfl : o = o' := ho
  cases o with
  | ok a => exact hf a s₁ s₁' hr
  | err e => exact ⟨rfl, hr⟩
  | panic => exact ⟨rfl, hr⟩
  | pending => exact ⟨rfl, hr⟩

theorem simulates_loop {body : Program σ ε (Option α)} {body' : Program σ' ε (Option α)}
    (hb : Simulates R body body') (rounds : Nat) :
    Simulates R (loop body rounds) (loop body' rounds) := by
  induction rounds with
  | zero => exact fun _ _ h => ⟨rfl, h⟩
  | succ n ih =>
    apply simulates_bind hb
    intro r
    cases r with
    | some a => exact simulates_pure a
    | none => exact ih

/-- The same object beside related systems. -/
def Beside (P : ω → Prop) (R : σ → σ' → Prop) (s : ω × σ) (s' : ω × σ') : Prop :=
  s.1 = s'.1 ∧ P s.1 ∧ R s.2 s'.2

theorem simulates_borrow {P : ω → Prop} {f : ω → Program σ ε α} {f' : ω → Program σ' ε α}
    (hf : ∀ x, P x → Simulates R (f x) (f' x)) :
    Simulates (Beside P R) (borrow f) (borrow f') := by
  rintro ⟨x, s⟩ ⟨x', s'⟩ ⟨rfl, hx, hs⟩
  obtain ⟨ho, hr⟩ := hf x hx s s' hs
  exact ⟨ho, rfl, hx, hr⟩

theorem simulates_update {P : ω → Prop} {g : ω → ω} (hg : ∀ x, P x → P (g x)) :
    Simulates (Beside P R) (update g : Program (ω × σ) ε Unit)
      (update g : Program (ω × σ') ε Unit) := by
  rintro ⟨x, s⟩ ⟨x', s'⟩ ⟨rfl, hx, hs⟩
  exact ⟨rfl, rfl, hg x hx, hs⟩

end Simulation

/-! ## Allowing more rounds -/

/-- Where `m` ends, `m'` ends the same way. -/
def Settles (m m' : Program σ ε α) : Prop := ∀ s, (m s).1 ≠ .pending → m' s = m s

theorem Settles.refl (m : Program σ ε α) : Settles m m := fun _ _ => rfl

theorem settles_bind {m m' : Program σ ε α} {f f' : α → Program σ ε β}
    (hm : Settles m m') (hf : ∀ a, Settles (f a) (f' a)) : Settles (m >>= f) (m' >>= f') := by
  intro s h
  have hs := hm s
  rw [bind_apply] at h ⊢
  rw [bind_apply]
  rcases hms : m s with ⟨o, s₁⟩
  rw [hms] at h hs
  cases o with
  | ok a =>
    rw [hs (by simp)]
    exact hf a s₁ h
  | err e => rw [hs (by simp)]
  | panic => rw [hs (by simp)]
  | pending => exact absurd rfl h

theorem settles_loop {body body' : Program σ ε (Option α)} (hb : Settles body body')
    {n n' : Nat} (hn : n ≤ n') : Settles (loop body n) (loop body' n') := by
  induction n generalizing n' with
  | zero => exact fun s h => absurd rfl h
  | succ n ih =>
    obtain ⟨k, rfl⟩ : ∃ k, n' = k + 1 := ⟨n' - 1, by omega⟩
    apply settles_bind hb
    intro r
    cases r with
    | some a => exact Settles.refl _
    | none => exact ih (by omega)

/-- A sequence whose parts end, given rounds enough for both, ends. -/
theorem bind_ends {m : Nat → Program σ ε α} {f : Nat → α → Program σ ε β}
    (hm : ∀ {n n'}, n ≤ n' → Settles (m n) (m n'))
    (hf : ∀ {n n'} a, n ≤ n' → Settles (f n a) (f n' a)) {s : σ} {r : Nat}
    (h : (m r s).1 ≠ .pending)
    (hnext : ∀ a s', m r s = (.ok a, s') → ∃ r', (f r' a s').1 ≠ .pending) :
    ∃ n, ((m n >>= f n) s).1 ≠ .pending := by
  rcases hs : m r s with ⟨o, s'⟩
  rw [hs] at h
  have hlarger {n : Nat} (hn : r ≤ n) : m n s = (o, s') := by
    rw [hm hn s (by rw [hs]; exact h), hs]
  cases o with
  | ok a =>
    obtain ⟨r', hr'⟩ := hnext a s' hs
    refine ⟨max r r', ?_⟩
    rw [bind_ok (hlarger (by omega)), hf a (show r' ≤ max r r' by omega) s' hr']
    exact hr'
  | err e => exact ⟨r, by rw [bind_err hs]; simp⟩
  | panic => exact ⟨r, by rw [bind_panic hs]; simp⟩
  | pending => exact absurd rfl h

/-- **Termination.**  A loop that ends from wherever its first turn leads ends,
given rounds enough for both. -/
theorem loop_ends_of_turn {body : Nat → Program σ ε (Option α)}
    (hmono : ∀ {n n'}, n ≤ n' → Settles (body n) (body n')) {s : σ} {r : Nat}
    (h : (body r s).1 ≠ .pending)
    (hnext : ∀ s', body r s = (.ok none, s') → ∃ r', (loop (body r') r' s').1 ≠ .pending) :
    ∃ n, (loop (body n) n s).1 ≠ .pending := by
  rcases hb : body r s with ⟨o, s'⟩
  rw [hb] at h
  have hlarger {n : Nat} (hn : r ≤ n) : body n s = (o, s') := by
    rw [hmono hn s (by rw [hb]; exact h), hb]
  rcases o with (_ | a) | e | _ | _
  · obtain ⟨r', hr'⟩ := hnext s' hb
    refine ⟨max r r' + 1, ?_⟩
    have hbody : Settles (body r') (body (max r r' + 1)) := hmono (by omega)
    have hloop := settles_loop hbody (show r' ≤ max r r' by omega) s' hr'
    rw [loop_succ_apply, hlarger (by omega)]
    simp only
    rw [hloop]
    exact hr'
  · refine ⟨r + 1, ?_⟩
    rw [loop_succ_apply, hlarger (by omega)]
    simp
  · refine ⟨r + 1, ?_⟩
    rw [loop_succ_apply, hlarger (by omega)]
    simp
  · refine ⟨r + 1, ?_⟩
    rw [loop_succ_apply, hlarger (by omega)]
    simp
  · exact absurd rfl h

theorem settles_borrow {f f' : ω → Program σ ε α} (hf : ∀ x, Settles (f x) (f' x)) :
    Settles (borrow f) (borrow f') := by
  intro s h
  unfold borrow at h ⊢
  rw [hf s.1 s.2 h]

end Program
