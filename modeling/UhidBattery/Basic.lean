import Mathlib.Algebra.Group.Nat.Defs
import Mathlib.Tactic.Common

/-!
# Times and errors

Instants and durations are nanoseconds on the monotonic clock.  An `IoError` is
an `std::io::Error`: one that came from the system, or one made here from a kind
and a message.
-/

namespace UhidBattery

abbrev Instant := Nat
abbrev Duration := Nat

/-- The seconds of an `Instant` are an `i64`. -/
def instantEnd : Nat := 2 ^ 63 * 1000000000

/-- `Instant::checked_add`. -/
def checkedAdd (t : Instant) (d : Duration) : Option Instant :=
  if t + d < instantEnd then some (t + d) else none

theorem checkedAdd_eq_some_iff {t t' : Instant} {d : Duration} :
    checkedAdd t d = some t' ↔ t + d < instantEnd ∧ t' = t + d := by
  unfold checkedAdd
  split
  · rename_i h
    simp [h, eq_comm]
  · rename_i h
    simp [h]

theorem checkedAdd_eq_none_iff {t : Instant} {d : Duration} :
    checkedAdd t d = none ↔ instantEnd ≤ t + d := by
  unfold checkedAdd
  split
  · rename_i h
    simp [h]
  · rename_i h
    simpa using h

def fromMillis (ms : Nat) : Duration := ms * 1000000
def fromSecs (s : Nat) : Duration := s * 1000000000

/-- The error numbers the crate tells apart. -/
inductive Errno where
  | again
  | intr
  | other (code : Nat)
  deriving DecidableEq, Repr

inductive ErrorKind where
  | invalidInput
  | writeZero
  | other
  deriving DecidableEq, Repr

inductive IoError where
  | os (errno : Errno)
  | custom (kind : ErrorKind) (message : String)
  deriving DecidableEq, Repr

/-- `err.kind() == io::ErrorKind::Interrupted`. -/
def IoError.isInterrupted : IoError → Bool
  | .os .intr => true
  | _ => false

/-- `invalid` of `event.rs` and of `identity.rs`. -/
def invalid (message : String) : IoError := .custom .invalidInput message

end UhidBattery
