import Mathlib.Data.List.Nodup
import Mathlib.Data.List.Perm.Basic
import Mathlib.Tactic.Common

/-!
# Owned resources

A table of resources by key, and the keys that one party owns.

* `Owns table keys`: no key is owned twice, and every owned one is in the table.
* `Moved`: what one step may do with a table, given the keys it may take over:
  nothing is leaked, nothing is seized and nothing foreign is touched.
-/

namespace Ownership

variable {κ ρ : Type}

/-- No key is owned twice, and every owned one is in the table. -/
structure Owns (table : κ → Option ρ) (keys : List κ) : Prop where
  once : keys.Nodup
  live : ∀ k ∈ keys, (table k).isSome

variable {table table' : κ → Option ρ} {keys keys' more : List κ} {k : κ}

theorem Owns.perm (h : Owns table keys) (hp : keys'.Perm keys) : Owns table keys' where
  once := hp.nodup_iff.mpr h.once
  live k hk := h.live k (hp.mem_iff.mp hk)

/-- What is owned stays owned while it stays in the table. -/
theorem Owns.of_live (h : Owns table keys) (hl : ∀ k ∈ keys, (table' k).isSome) :
    Owns table' keys :=
  ⟨h.once, hl⟩

variable (more) in
/-- Keys that nobody owns are taken over. -/
theorem Owns.gain (h : Owns table keys) (hm : Owns table more) (hd : ∀ k ∈ more, k ∉ keys) :
    Owns table (more ++ keys) where
  once := List.nodup_append'.mpr ⟨hm.once, h.once, fun k hk hk' => hd k hk hk'⟩
  live k hk := (List.mem_append.mp hk).elim (hm.live k) (h.live k)

variable [DecidableEq κ]

/-- A new resource is owned at once. -/
theorem Owns.acquire (h : Owns table keys) (hk : table k = none) (r : ρ) :
    Owns (Function.update table k (some r)) (k :: keys) := by
  have hnot : k ∉ keys := by
    intro hmem
    have hlive := h.live k hmem
    rw [hk] at hlive
    cases hlive
  refine ⟨List.nodup_cons.mpr ⟨hnot, h.once⟩, ?_⟩
  intro k' hk'
  rcases List.mem_cons.mp hk' with rfl | hk'
  · rw [Function.update_self]
    rfl
  · have hne : k' ≠ k := fun heq => hnot (heq ▸ hk')
    rw [Function.update_of_ne hne]
    exact h.live k' hk'

/-- A resource is given up with its place in the table. -/
theorem Owns.release (h : Owns table keys) (hp : keys.Perm (k :: keys')) :
    Owns (Function.update table k none) keys' := by
  obtain ⟨hnot, honce⟩ := List.nodup_cons.mp (hp.nodup_iff.mp h.once)
  refine ⟨honce, ?_⟩
  intro k' hk'
  have hne : k' ≠ k := fun heq => hnot (heq ▸ hk')
  rw [Function.update_of_ne hne]
  exact h.live k' (hp.mem_iff.mpr (List.mem_cons_of_mem k hk'))

/-! ## Steps -/

omit [DecidableEq κ]

/-- What a step did with a table: `free` are the keys that may be taken over. -/
structure Moved (free : κ → Prop) (table : κ → Option ρ) (keys : List κ)
    (table' : κ → Option ρ) (keys' : List κ) : Prop where
  /-- What is no longer owned is no longer there. -/
  released : ∀ k ∈ keys, k ∉ keys' → table' k = none
  /-- What is owned now was owned, is new, or was there to be taken over. -/
  gained : ∀ k ∈ keys', k ∉ keys → table k = none ∨ free k
  /-- What was neither owned nor to be taken over is as it was. -/
  foreign : ∀ k, k ∉ keys → ¬ free k → k ∉ keys' → table' k = table k

variable {free : κ → Prop}

/-- A step on owned keys alone, each of which is still owned or gone. -/
theorem Moved.within (hsub : ∀ k ∈ keys', k ∈ keys)
    (hgone : ∀ k ∈ keys, k ∉ keys' → table' k = none)
    (hsame : ∀ k, k ∉ keys → table' k = table k) : Moved free table keys table' keys' where
  released := hgone
  gained k hk hn := absurd (hsub k hk) hn
  foreign k hn _ _ := hsame k hn

/-- A step that owns the same keys and leaves the rest of the table alone. -/
theorem Moved.same (hmem : ∀ k, k ∈ keys' ↔ k ∈ keys) (hsame : ∀ k, k ∉ keys → table' k = table k) :
    Moved free table keys table' keys' :=
  .within (fun k hk => (hmem k).mp hk) (fun k hk hn => absurd ((hmem k).mpr hk) hn) hsame

variable (more) in
/-- A step that takes over keys that are new or free, and gives up none. -/
theorem Moved.gain (hmem : ∀ k, k ∈ keys' ↔ k ∈ more ∨ k ∈ keys)
    (hmore : ∀ k ∈ more, table k = none ∨ free k)
    (hsame : ∀ k, k ∉ more → k ∉ keys → ¬ free k → table' k = table k) :
    Moved free table keys table' keys' where
  released k hk hn := absurd ((hmem k).mpr (Or.inr hk)) hn
  gained k hk hn := hmore k (((hmem k).mp hk).resolve_right hn)
  foreign k hn hfree hn' := hsame k (fun hk => hn' ((hmem k).mpr (Or.inl hk))) hn hfree

end Ownership
