import Mathlib.Tactic.Common

/-!
# Runs of labelled steps

A run from `s` is the list of its steps, each with its label and the state it
led to.  `Along R s run` says `R` of every step.

* `Along.invariant`: what one step preserves holds of every state of a run.
* `Along.forall_iff`: where a step keeps a property exactly when it is a good
  one, the property holds all along a run exactly when every step is good.
* `trail_filter`: steps that change nothing may be dropped from a script.
-/

namespace Runs

variable {σ ℓ : Type}

/-- `R` relates the two ends of every step of the run from `s`. -/
def Along (R : σ → ℓ → σ → Prop) : σ → List (ℓ × σ) → Prop
  | _, [] => True
  | s, (l, s') :: run => R s l s' ∧ Along R s' run

variable {R R' : σ → ℓ → σ → Prop} {P : σ → Prop}

@[simp] theorem along_nil (s : σ) : Along R s [] := trivial

@[simp] theorem along_cons (s s' : σ) (l : ℓ) (run : List (ℓ × σ)) :
    Along R s ((l, s') :: run) ↔ R s l s' ∧ Along R s' run := Iff.rfl

theorem Along.imp {s : σ} {run : List (ℓ × σ)} (h : ∀ s l s', R s l s' → R' s l s')
    (hr : Along R s run) : Along R' s run := by
  induction run generalizing s with
  | nil => trivial
  | cons x run ih => exact ⟨h _ _ _ hr.1, ih hr.2⟩

theorem Along.and {s : σ} {run : List (ℓ × σ)} (h : Along R s run) (h' : Along R' s run) :
    Along (fun s l s' => R s l s' ∧ R' s l s') s run := by
  induction run generalizing s with
  | nil => trivial
  | cons x run ih => exact ⟨⟨h.1, h'.1⟩, ih h.2 h'.2⟩

/-- What holds of every state reached holds of the end of every step. -/
theorem along_of_forall {s : σ} {run : List (ℓ × σ)} (h : ∀ x ∈ run, P x.2) :
    Along (fun _ _ s' => P s') s run := by
  induction run generalizing s with
  | nil => trivial
  | cons x run ih =>
    obtain ⟨hx, hrest⟩ := List.forall_mem_cons.mp h
    exact ⟨hx, ih hrest⟩

/-- Along a run an invariant holds before every step. -/
theorem Along.with_invariant {s : σ} {run : List (ℓ × σ)} (hr : Along R s run) (hs : P s)
    (hstep : ∀ s l s', R s l s' → P s → P s') : Along (fun s l s' => P s ∧ R s l s') s run := by
  induction run generalizing s with
  | nil => trivial
  | cons x run ih => exact ⟨⟨hs, hr.1⟩, ih hr.2 (hstep _ _ _ hr.1 hs)⟩

/-- **Invariants.**  What a step preserves holds of every state reached. -/
theorem Along.invariant {s : σ} {run : List (ℓ × σ)} (hr : Along R s run) (hs : P s)
    (hstep : ∀ s l s', R s l s' → P s → P s') : ∀ x ∈ run, P x.2 := by
  induction run generalizing s with
  | nil => simp
  | cons x run ih =>
    have hx : P x.2 := hstep _ _ _ hr.1 hs
    intro y hy
    rcases List.mem_cons.mp hy with rfl | hy
    · exact hx
    · exact ih hr.2 hx y hy

/-- **Exact conditions.**  `I` is an invariant; within it a step from a `P`
state leads to a `P` state exactly when it is good.  Then `P` holds of every
state reached exactly when every step is good. -/
theorem Along.forall_iff {I : σ → Prop} {Good : σ → ℓ → σ → Prop} {s : σ} {run : List (ℓ × σ)}
    (hr : Along R s run) (hI : I s) (hP : P s)
    (hinv : ∀ s l s', R s l s' → I s → I s')
    (hgood : ∀ s l s', R s l s' → I s → P s → (P s' ↔ Good s l s')) :
    (∀ x ∈ run, P x.2) ↔ Along Good s run := by
  induction run generalizing s with
  | nil => simp
  | cons x run ih =>
    obtain ⟨l, s'⟩ := x
    have hx := hgood _ _ _ hr.1 hI hP
    simp only [List.mem_cons, forall_eq_or_imp, along_cons]
    constructor
    · rintro ⟨h, hrest⟩
      exact ⟨hx.mp h, (ih hr.2 (hinv _ _ _ hr.1 hI) h).mp hrest⟩
    · rintro ⟨h, hrest⟩
      have hP' := hx.mpr h
      exact ⟨hP', (ih hr.2 (hinv _ _ _ hr.1 hI) hP').mpr hrest⟩

/-! ## Scripts with extra steps -/

section Scripts

variable {ι ω : Type} (step : σ → ι → ω × σ)

/-- Every item of a script with its mark, its outcome and the state it led to. -/
def trail : σ → List (Bool × ι) → List (Bool × ι × ω × σ)
  | _, [] => []
  | s, (mark, item) :: script =>
    (mark, item, (step s item).1, (step s item).2) :: trail (step s item).2 script

/-- Every marked item of the script is a `P` item of the state it is done in. -/
def Marked (P : σ → ι → Prop) : σ → List (Bool × ι) → Prop
  | _, [] => True
  | s, (mark, item) :: script =>
    (mark = true → P s item) ∧ Marked P (step s item).2 script

variable {step} {P : σ → ι → Prop}

/-- **Dropping extra steps.**  Where the marked items change nothing, the trail without
them is the trail of the script without them. -/
theorem trail_filter (hP : ∀ s item, P s item → (step s item).2 = s) (s : σ)
    (script : List (Bool × ι)) (h : Marked step P s script) :
    (trail step s script).filter (fun x => !x.1) =
      trail step s (script.filter fun x => !x.1) := by
  induction script generalizing s with
  | nil => rfl
  | cons x script ih =>
    obtain ⟨mark, item⟩ := x
    obtain ⟨hmark, hscript⟩ := h
    have hrest := ih _ hscript
    cases mark with
    | true =>
      rw [hP s item (hmark rfl)] at hrest
      rw [trail, List.filter_cons_of_neg (by simp), List.filter_cons_of_neg (by simp),
        hP s item (hmark rfl), hrest]
    | false =>
      rw [trail, List.filter_cons_of_pos (by simp), List.filter_cons_of_pos (by simp), trail,
        hrest]

end Scripts

end Runs
