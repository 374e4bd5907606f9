import Mathlib.Order.Lattice
import Mathlib.Order.MinMax

/-!
# One alarm for many deadlines

A slot that keeps the earliest of the deadlines asked for stands for all of
them: it covers a deadline if it goes off no later.

* `covers_soonestOf_iff`: what the slot covers once it was asked for more.
* `covers_min?_iff`: what the minimum of a list covers.
-/

namespace Deadlines

variable {α : Type} [LinearOrder α]

/-- The slot with one more deadline asked for. -/
def soonest (slot : Option α) (due : α) : Option α :=
  some (slot.elim due fun current => min current due)

def soonestOf (slot : Option α) (dues : List α) : Option α := dues.foldl soonest slot

/-- The slot goes off no later than `due`. -/
def Covers (slot : Option α) (due : α) : Prop := ∃ d ≤ due, slot = some d

variable {slot : Option α} {dues : List α} {d due due' : α}

@[simp] theorem not_covers_none : ¬ Covers none due := by
  rintro ⟨d, -, h⟩
  cases h

@[simp] theorem covers_some_iff : Covers (some d) due ↔ d ≤ due := by
  constructor
  · rintro ⟨d', hle, h⟩
    cases h
    exact hle
  · intro hle
    exact ⟨d, hle, rfl⟩

theorem Covers.mono (h : Covers slot due) (hle : due ≤ due') : Covers slot due' := by
  obtain ⟨d, hd, hslot⟩ := h
  exact ⟨d, hd.trans hle, hslot⟩

theorem Covers.ne_none (h : Covers slot due) : slot ≠ none := by
  rintro rfl
  exact not_covers_none h

theorem covers_self (slot : Option α) (h : slot = some d) : Covers slot d := ⟨d, le_refl d, h⟩

theorem covers_soonest_iff : Covers (soonest slot d) due ↔ Covers slot due ∨ d ≤ due := by
  cases slot with
  | none => simp [soonest]
  | some current => simp [soonest]

theorem soonest_ne_none (slot : Option α) (due : α) : soonest slot due ≠ none :=
  Option.some_ne_none _

theorem soonestOf_cons (slot : Option α) (due : α) (dues : List α) :
    soonestOf slot (due :: dues) = soonestOf (soonest slot due) dues := rfl

/-- **What a slot covers** once it was asked for more: what it covered, and what
comes no earlier than one of the new deadlines. -/
theorem covers_soonestOf_iff :
    Covers (soonestOf slot dues) due ↔ Covers slot due ∨ ∃ d ∈ dues, d ≤ due := by
  induction dues generalizing slot with
  | nil => simp [soonestOf]
  | cons d dues ih =>
    rw [soonestOf_cons, ih, covers_soonest_iff]
    simp [or_assoc]

/-- Asking never empties a slot. -/
theorem soonestOf_eq_none_iff : soonestOf slot dues = none ↔ slot = none ∧ dues = [] := by
  induction dues generalizing slot with
  | nil => simp [soonestOf]
  | cons d dues ih =>
    rw [soonestOf_cons, ih]
    simp [soonest_ne_none]

/-- **The minimum of a list** covers what comes no earlier than one of its members. -/
theorem covers_min?_iff : Covers dues.min? due ↔ ∃ d ∈ dues, d ≤ due := by
  cases h : dues.min? with
  | none => simp [List.min?_eq_none_iff.mp h]
  | some m =>
    obtain ⟨hmem, hleast⟩ := List.min?_eq_some_iff.mp h
    rw [covers_some_iff]
    exact ⟨fun hle => ⟨m, hmem, hle⟩, fun ⟨d, hd, hle⟩ => (hleast d hd).trans hle⟩

end Deadlines
