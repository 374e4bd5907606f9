import UhidBattery.Lib.Each

/-!
# Programs that come to an end

A family of programs, by the rounds their loops are allowed: `Halts I m` says
that from the states of `I` enough rounds end it, and that more change nothing.

* `halts_bind`, `halts_loop`, `halts_tryForEach`: the rules, one for each way of
  putting programs together; a loop needs a measure that every turn lowers.
* `Halts.eventually`: the one outcome that all large numbers of rounds give.
-/

namespace Program

variable {σ ω ε ε' α β : Type}

/-- From the states of `I` the program ends, given rounds enough. -/
structure Halts (I : σ → Prop) (m : Nat → Program σ ε α) : Prop where
  settles : ∀ {n n'}, n ≤ n' → Settles (m n) (m n')
  ends : ∀ s, I s → ∃ n, (m n s).1 ≠ .pending

variable {I J : σ → Prop} {m : Nat → Program σ ε α}

theorem Halts.imp (h : Halts I m) (hi : ∀ s, J s → I s) : Halts J m where
  settles := h.settles
  ends s hs := h.ends s (hi s hs)

/-- **The outcome.**  From some number of rounds on, nothing changes. -/
theorem Halts.eventually (h : Halts I m) {s : σ} (hs : I s) :
    ∃ n, (m n s).1 ≠ .pending ∧ ∀ n', n ≤ n' → m n' s = m n s := by
  obtain ⟨n, hn⟩ := h.ends s hs
  exact ⟨n, hn, fun n' hle => h.settles hle s hn⟩

/-- Any two numbers of rounds that end it end it alike. -/
theorem Halts.unique (h : Halts I m) {s : σ} (n n' : Nat) (hn : (m n s).1 ≠ .pending)
    (hn' : (m n' s).1 ≠ .pending) : m n s = m n' s := by
  rcases Nat.le_total n n' with hle | hle
  · exact (h.settles hle s hn).symm
  · exact h.settles hle s hn'

theorem halts_const {m : Program σ ε α} (h : ∀ s, I s → (m s).1 ≠ .pending) :
    Halts I fun _ => m where
  settles _ := Settles.refl m
  ends s hs := ⟨0, h s hs⟩

/-! ## Sequences and loops -/

theorem halts_bind {J : α → σ → Prop} {f : Nat → α → Program σ ε β} (hm : Halts I m)
    (hf : ∀ a, Halts (J a) fun n => f n a)
    (hnext : ∀ n s a s', I s → m n s = (.ok a, s') → J a s') :
    Halts I fun n => m n >>= f n where
  settles h := settles_bind (hm.settles h) fun a => (hf a).settles h
  ends s hs := by
    obtain ⟨n, hn⟩ := hm.ends s hs
    exact bind_ends hm.settles (fun a h => (hf a).settles h) hn
      fun a s' heq => (hf a).ends s' (hnext n s a s' hs heq)

/-- A second part that ends from wherever it starts. -/
theorem halts_then {f : Nat → α → Program σ ε β} (hm : Halts I m)
    (hf : ∀ a, Halts (fun _ => True) fun n => f n a) : Halts I fun n => m n >>= f n :=
  halts_bind hm hf fun _ _ _ _ _ _ => trivial

/-- **Loops.**  Every turn ends, and one that goes round again lowers a measure. -/
theorem halts_loop {body : Nat → Program σ ε (Option α)} {μ : Type} {r : μ → μ → Prop}
    (hr : WellFounded r) (measure : σ → μ) (hb : Halts I body)
    (hnext : ∀ n s s', I s → body n s = (.ok none, s') → I s' ∧ r (measure s') (measure s)) :
    Halts I fun n => loop (body n) n where
  settles h := settles_loop (hb.settles h) h
  ends s hs := by
    obtain ⟨k, hk⟩ : ∃ k, measure s = k := ⟨_, rfl⟩
    induction k using hr.induction generalizing s with
    | _ k ih =>
      obtain ⟨n, hn⟩ := hb.ends s hs
      apply loop_ends_of_turn hb.settles hn
      intro s' hs'
      obtain ⟨hi, hlt⟩ := hnext n s s' hs hs'
      exact ih _ (hk ▸ hlt) s' hi rfl

/-! ## Errors, parts of the state -/

theorem mapErr_pending_iff {g : ε → ε'} {m : Program σ ε α} {s : σ} :
    (mapErr g m s).1 = .pending ↔ (m s).1 = .pending := by
  rw [mapErr_apply]
  cases (m s).1 <;> simp [Outcome.mapErr]

theorem halts_mapErr {g : ε → ε'} (hm : Halts I m) : Halts I fun n => mapErr g (m n) where
  settles h s hs := by
    rw [mapErr_apply, mapErr_apply, hm.settles h s (mt mapErr_pending_iff.mpr hs)]
  ends s hs := by
    obtain ⟨n, hn⟩ := hm.ends s hs
    exact ⟨n, mt mapErr_pending_iff.mp hn⟩

theorem attempt_pending_iff {m : Program σ ε α} {s : σ} :
    ((attempt m : Program σ ε' _) s).1 = .pending ↔ (m s).1 = .pending := by
  rw [attempt]
  rcases m s with ⟨o, s'⟩
  cases o <;> simp

theorem halts_attempt (hm : Halts I m) :
    Halts I fun n => (attempt (m n) : Program σ ε' (Except ε α)) where
  settles h s hs := by
    rw [attempt, attempt, hm.settles h s (mt attempt_pending_iff.mpr hs)]
  ends s hs := by
    obtain ⟨n, hn⟩ := hm.ends s hs
    exact ⟨n, mt attempt_pending_iff.mp hn⟩

theorem halts_onOne {K : ω × σ → Prop} {m : Nat → Program (List ω × σ) ε α}
    (hm : Halts (fun s => ∃ x, s.1 = [x] ∧ K (x, s.2)) m) : Halts K fun n => onOne (m n) where
  settles h s hs := by
    have heq := hm.settles h ([s.1], s.2) hs
    rw [onOne, onOne, heq]
  ends s hs := hm.ends ([s.1], s.2) ⟨s.1, rfl, hs⟩

/-! ## One object after the other -/

section TryForEach

variable {f : Nat → Nat → Program (ω × σ) ε Unit}

theorem settles_tryForEach {f f' : Nat → Program (ω × σ) ε Unit}
    (hf : ∀ i, Settles (f i) (f' i)) (i : Nat) (xs : List ω) (s : σ)
    (h : (tryForEach f i xs s).1 ≠ .pending) : tryForEach f' i xs s = tryForEach f i xs s := by
  induction xs generalizing i s with
  | nil => rfl
  | cons x xs ih =>
    have hx := hf i (x, s)
    rw [tryForEach] at h ⊢
    rw [tryForEach]
    rcases hres : f i (x, s) with ⟨o, x', s'⟩
    rw [hres] at h hx
    cases o with
    | ok u => simp only [hx (by simp), ih (i + 1) s' h]
    | err e => rw [hx (by simp)]
    | panic => rw [hx (by simp)]
    | pending => exact absurd rfl h

/-- Where each object's turn ends, whatever the system is like, so does the run. -/
theorem halts_tryForEach {K : ω → Prop} (hf : ∀ i, Halts (fun s => K s.1) fun n => f n i)
    (i : Nat) :
    Halts (fun s => ∀ x ∈ s.1, K x)
      fun n => (fun s => tryForEach (f n) i s.1 s.2 : Program (List ω × σ) ε Unit) where
  settles h s hs := settles_tryForEach (fun i => (hf i).settles h) i s.1 s.2 hs
  ends := by
    rintro ⟨xs, s⟩ hxs
    induction xs generalizing i s with
    | nil => exact ⟨0, by simp [tryForEach]⟩
    | cons x xs ih =>
      obtain ⟨hx, hrest⟩ := List.forall_mem_cons.mp hxs
      obtain ⟨n, hn, hlarger⟩ := (hf i).eventually (s := (x, s)) hx
      rcases hres : f n i (x, s) with ⟨o, x', s'⟩
      rw [hres] at hn hlarger
      cases o with
      | ok u =>
        obtain ⟨n', hn'⟩ := ih (i + 1) s' hrest
        refine ⟨max n n', ?_⟩
        have hsettled := settles_tryForEach
          (fun i => (hf i).settles (show n' ≤ max n n' by omega)) (i + 1) xs s' hn'
        simp only [tryForEach, hlarger _ (show n ≤ max n n' by omega), hsettled]
        exact hn'
      | err e => exact ⟨n, by simp only; rw [tryForEach, hres]; simp⟩
      | panic => exact ⟨n, by simp only; rw [tryForEach, hres]; simp⟩
      | pending => exact absurd rfl hn

end TryForEach

end Program
