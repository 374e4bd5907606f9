import UhidBattery.Lib.Each

/-!
# Programs that stop at the first failure

The states of a program keep a journal of what it did.  Some entries are
failures, with an error each; after some the program may panic.

* `Reports`: what the outcome says of the journal, and the journal of the outcome.
* `stops_bind`, `stops_loop`, `stops_tryForEach`: programs put together of ones
  that stop at the first failure, with its error, do so themselves.
* `Reports.failsAtOnce`: the same said entry by entry.
-/

namespace Program

variable {σ ω ε ε' ι α β X : Type}

/-- What is written down between two states. -/
structure Journal (σ X : Type) where
  Keeps : σ → List X → σ → Prop
  nil : ∀ s, Keeps s [] s
  append : ∀ {s t u l l'}, Keeps s l t → Keeps t l' u → Keeps s (l ++ l') u

/-- The journal of the second part of a state. -/
def Journal.onSnd (J : Journal σ X) : Journal (ω × σ) X where
  Keeps s l t := J.Keeps s.2 l t.2
  nil s := J.nil s.2
  append h h' := J.append h h'

/-- The entries that are failures, and those after which a program may panic. -/
structure Failures (X ι : Type) where
  fatal? : X → Option ι
  late : X → Prop

/-- Nothing fails before the end, and the outcome is that of the last entry. -/
inductive Reports (F : Failures X ι) (source : ε → ι) : Outcome ε α → List X → Prop where
  | ok {a : α} {l : List X} (h : ∀ x ∈ l, F.fatal? x = none) : Reports F source (.ok a) l
  | pending {l : List X} (h : ∀ x ∈ l, F.fatal? x = none) : Reports F source .pending l
  | panic {l : List X} {x : X} (h : ∀ y ∈ l ++ [x], F.fatal? y = none) (hx : F.late x) :
      Reports F source .panic (l ++ [x])
  | err {e : ε} {l : List X} {x : X} (h : ∀ y ∈ l, F.fatal? y = none)
      (hx : F.fatal? x = some (source e)) : Reports F source (.err e) (l ++ [x])

/-- From `s` the program stops at its first failure. -/
def Stops (J : Journal σ X) (F : Failures X ι) (source : ε → ι) (m : Program σ ε α) (s : σ) :
    Prop :=
  ∃ l, J.Keeps s l (m s).2 ∧ Reports F source (m s).1 l

/-- Errors are the errors of failures, no failure is passed over, and nothing is
done after either. -/
structure FailsAtOnce (F : Failures X ι) (source : ε → ι) (o : Outcome ε α) (l : List X) :
    Prop where
  reported : ∀ e, o = .err e → ∃ earlier x, l = earlier ++ [x] ∧ F.fatal? x = some (source e)
  heeded : ∀ earlier x later i, l = earlier ++ x :: later → F.fatal? x = some i →
    later = [] ∧ ∃ e, o = .err e ∧ source e = i
  panics : o = .panic → ∃ earlier x, l = earlier ++ [x] ∧ F.late x

section Rules

variable {J : Journal σ X} {F : Failures X ι} {source : ε → ι} {source' : ε' → ι}
  {m : Program σ ε α} {s : σ}

theorem Reports.prepend {o : Outcome ε α} {l l' : List X} (h : Reports F source o l')
    (hl : ∀ x ∈ l, F.fatal? x = none) : Reports F source o (l ++ l') := by
  have hboth {l' : List X} (h : ∀ x ∈ l', F.fatal? x = none) :
      ∀ x ∈ l ++ l', F.fatal? x = none :=
    List.forall_mem_append.mpr ⟨hl, h⟩
  cases h with
  | ok h => exact .ok (hboth h)
  | pending h => exact .pending (hboth h)
  | panic h hx =>
    rw [← List.append_assoc]
    exact .panic (by rw [List.append_assoc]; exact hboth h) hx
  | err h hx =>
    rw [← List.append_assoc]
    exact .err (hboth h) hx

theorem Reports.panic_one {x : X} (hx : F.late x) (h : F.fatal? x = none) :
    Reports F source (.panic : Outcome ε α) [x] :=
  .panic (l := []) (by simpa using h) hx

theorem Reports.err_one {x : X} {e : ε} (hx : F.fatal? x = some (source e)) :
    Reports F source (.err e : Outcome ε α) [x] :=
  .err (l := []) (by simp) hx

theorem Reports.of_ok {a : α} {l : List X} (h : Reports F source (.ok a : Outcome ε α) l) :
    ∀ x ∈ l, F.fatal? x = none := by
  cases h with
  | ok h => exact h

theorem Reports.of_err {e : ε} {l : List X} (h : Reports F source (.err e : Outcome ε α) l) :
    ∃ earlier x, l = earlier ++ [x] ∧ (∀ y ∈ earlier, F.fatal? y = none) ∧
      F.fatal? x = some (source e) := by
  cases h with
  | err h hx => exact ⟨_, _, rfl, h, hx⟩

/-- A step that succeeds, and what follows it. -/
theorem Stops.prepend {l : List X} {t : σ} {o : Outcome ε α} {u : σ} (hl : J.Keeps s l t)
    (hsafe : ∀ x ∈ l, F.fatal? x = none)
    (h : ∃ l', J.Keeps t l' u ∧ Reports F source o l') :
    ∃ l', J.Keeps s l' u ∧ Reports F source o l' := by
  obtain ⟨l', hl', hr⟩ := h
  exact ⟨l ++ l', J.append hl hl', hr.prepend hsafe⟩

theorem stops_pure (a : α) : Stops J F source (pure a : Program σ ε α) s :=
  ⟨[], J.nil s, .ok (by simp)⟩

/-- **Sequences.** -/
theorem stops_bind {f : α → Program σ ε β} (hm : Stops J F source m s)
    (hf : ∀ a s', m s = (.ok a, s') → Stops J F source (f a) s') :
    Stops J F source (m >>= f) s := by
  obtain ⟨l, hl, hr⟩ := hm
  rw [Stops, bind_apply]
  rcases hm : m s with ⟨o, s'⟩
  rw [hm] at hl hr
  cases hr with
  | @ok a _ h => exact Stops.prepend hl h (hf a s' hm)
  | pending h => exact ⟨_, hl, .pending h⟩
  | panic h hx => exact ⟨_, hl, .panic h hx⟩
  | err h hx => exact ⟨_, hl, .err h hx⟩

/-- **Loops.** -/
theorem stops_loop {body : Program σ ε (Option α)} (hb : ∀ s, Stops J F source body s) (n : Nat)
    (s : σ) : Stops J F source (loop body n) s := by
  induction n generalizing s with
  | zero => exact ⟨[], J.nil s, .pending (by simp)⟩
  | succ n ih =>
    refine stops_bind (hb s) fun a s' _ => ?_
    cases a with
    | some a => exact stops_pure a
    | none => exact ih s'

theorem stops_mapErr {g : ε → ε'} (hg : ∀ e, source' (g e) = source e)
    (hm : Stops J F source m s) : Stops J F source' (mapErr g m) s := by
  obtain ⟨l, hl, hr⟩ := hm
  refine ⟨l, hl, ?_⟩
  rw [mapErr_apply]
  generalize (m s).1 = o at hr
  cases hr with
  | ok h => exact .ok h
  | pending h => exact .pending h
  | panic h hx => exact .panic h hx
  | @err e _ _ h hx => exact .err h (by rw [hx, hg])

theorem stops_update {f : ω → ω} {s : ω × σ} :
    Stops J.onSnd F source (update f : Program (ω × σ) ε Unit) s :=
  ⟨[], J.nil s.2, .ok (by simp)⟩

theorem stops_borrow {f : ω → Program σ ε α} {s : ω × σ} (hf : Stops J F source (f s.1) s.2) :
    Stops J.onSnd F source (borrow f) s :=
  hf

theorem stops_onOne {m : Program (List ω × σ) ε α} {s : ω × σ}
    (hm : Stops J.onSnd F source m ([s.1], s.2)) : Stops J.onSnd F source (onOne m) s :=
  hm

/-- **One object after the other.** -/
theorem stops_tryForEach {f : Nat → Program (ω × σ) ε Unit}
    (hf : ∀ i s, Stops J.onSnd F source (f i) s) (i : Nat) (xs : List ω) (s : σ) :
    Stops J.onSnd F source (fun s => tryForEach f i s.1 s.2) (xs, s) := by
  induction xs generalizing i s with
  | nil => exact ⟨[], J.nil s, .ok (by simp)⟩
  | cons x xs ih =>
    obtain ⟨l, hl, hr⟩ := hf i (x, s)
    simp only [Stops, tryForEach]
    rcases hres : f i (x, s) with ⟨o, x', s'⟩
    rw [hres] at hl hr
    have hl : J.Keeps s l s' := hl
    cases hr with
    | ok h => exact Stops.prepend (J := J) hl h (ih (i + 1) s')
    | pending h => exact ⟨_, hl, .pending h⟩
    | panic h hx => exact ⟨_, hl, .panic h hx⟩
    | err h hx => exact ⟨_, hl, .err h hx⟩

/-- **Entry by entry.** -/
theorem Reports.failsAtOnce {o : Outcome ε α} {l : List X} (h : Reports F source o l) :
    FailsAtOnce F source o l := by
  have hsafe {l : List X} (h : ∀ x ∈ l, F.fatal? x = none) {earlier later : List X} {x : X} {i : ι}
      (hl : l = earlier ++ x :: later) (hx : F.fatal? x = some i) : False := by
    rw [h x (by rw [hl]; simp)] at hx
    cases hx
  cases h with
  | ok h => exact ⟨nofun, fun _ _ _ _ hl hx => (hsafe h hl hx).elim, nofun⟩
  | pending h => exact ⟨nofun, fun _ _ _ _ hl hx => (hsafe h hl hx).elim, nofun⟩
  | panic h hlate =>
    exact ⟨nofun, fun _ _ _ _ hl hx => (hsafe h hl hx).elim, fun _ => ⟨_, _, rfl, hlate⟩⟩
  | @err e l x h hfatal =>
    refine ⟨fun e' he => ?_, fun earlier y later i hl hy => ?_, nofun⟩
    · cases he
      exact ⟨l, x, rfl, hfatal⟩
    · rcases List.eq_nil_or_concat later with rfl | ⟨later, z, rfl⟩
      · obtain ⟨rfl, hxy⟩ := List.append_inj' hl rfl
        cases hxy
        rw [hfatal] at hy
        exact ⟨rfl, e, rfl, Option.some.inj hy⟩
      · rw [List.concat_eq_append, ← List.cons_append, ← List.append_assoc] at hl
        obtain ⟨hinit, -⟩ := List.append_inj' hl rfl
        exact (hsafe h hinit hy).elim

end Rules

end Program
