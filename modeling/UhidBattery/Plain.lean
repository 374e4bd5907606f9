import UhidBattery.ServeAll
import UhidBattery.Owner

/-!
# Serving is servicing

`serve_until`, `serve_all` and `wait_for_power_supply` do nothing to a battery
but service it, some number of times; in between the system goes on without it.

* `Step.plain`: a step of the whole interface is an update, or such services.
* `refines_plain`: a state that the whole interface leads to is one that
  `update` and `service` lead to.
-/

namespace UhidBattery

open Program (Outcome Guarantees)
open Relation (ReflTransGen)
open Runs (Along)

/-! ## Plain steps -/

/-- A `service`, or calls that do not concern the battery. -/
inductive Serviced (E : Env) : Battery × World → Battery × World → Prop where
  | service (rounds : Nat) (s : Battery × World) : Serviced E s (Battery.service E rounds s).2
  | elsewhere {b : Battery} {w w' : World} (h : Untouched E b.handle.fd w w') :
      Serviced E (b, w) (b, w')

/-- The same, or an `update`. -/
inductive Plain (E : Env) : Battery × World → Battery × World → Prop where
  | update (rounds : Nat) (reading : Reading) (s : Battery × World) :
      Plain E s (Battery.update E rounds reading s).2
  | serviced {s s' : Battery × World} (h : Serviced E s s') : Plain E s s'

/-! ## The whole interface -/

theorem serviced_kept (E : Env) (rounds : Nat) :
    Kept E rounds (ReflTransGen (Serviced E)) where
  own s := by
    refine ⟨?_, .single (.service rounds s)⟩
    obtain ⟨slot, hb⟩ := ((service_faithful E rounds s).2).1
    rw [hb, withRepush_handle]
  other x w y hne := .single (.elsewhere (service_untouched E rounds x w hne))
  idle y w call hg hi := .single (.elsewhere (.next hg hi))

/-- **One step** of the whole interface. -/
theorem Step.plain {E : Env} {s s' : InUse} {op : Op} (h : Step E s op s') :
    ((∃ reading, op = .update reading) ∧ Plain E (s.battery, s.world) (s'.battery, s'.world)) ∨
      ((∀ reading, op ≠ .update reading) ∧
        ReflTransGen (Serviced E) (s.battery, s.world) (s'.battery, s'.world)) := by
  by_cases hop : ∃ reading, op = .update reading
  · refine Or.inl ⟨hop, ?_⟩
    obtain ⟨reading, rfl⟩ := hop
    cases h with
    | @update rounds reading o b w hs h =>
      have hplain : Plain E (s.battery, s.world) _ := .update rounds reading (s.battery, s.world)
      rw [h] at hplain
      exact hplain
  · have hne : ∀ reading, op ≠ .update reading := fun reading heq => hop ⟨reading, heq⟩
    refine Or.inr ⟨hne, h.kept (serviced_kept E) ?_ hne⟩
    exact fun b w calls w' hran hr hw => .single (.elsewhere ⟨calls, hran, hr, hw⟩)

/-- **Refinement.**  Every state that a run of the whole interface leads to is
reached by `update` and `service` alone. -/
theorem refines_plain {E : Env} {s : InUse} {run : List (Op × InUse)}
    (hrun : Along (Step E) s run) :
    ∀ x ∈ run, ReflTransGen (Plain E) (s.battery, s.world) (x.2.battery, x.2.world) := by
  refine hrun.invariant (P := fun x => ReflTransGen (Plain E) (s.battery, s.world)
    (x.battery, x.world)) .refl ?_
  intro x op x' hstep hx
  rcases hstep.plain with ⟨-, hplain⟩ | ⟨-, hserviced⟩
  · exact hx.tail hplain
  · exact hx.trans (ReflTransGen.mono (fun _ _ h => .serviced h) _ _ hserviced)

/-- A mouse told of 60 %, served alone and then beside another, until a deadline
that has passed. -/
theorem refines_plain_mice : ∃ s₁ s₂ s', Along (Step (.calm .little 5))
      ⟨⟨50, false⟩, mouse 3, .started, True⟩
      [(.update ⟨60, false⟩, s₁), (.serveUntil 4 none, s₂),
        (.serveAll [mouse 4] [] (some 4) none, s')] ∧
    s'.battery.reading = ⟨60, false⟩ ∧
    ReflTransGen (Plain (.calm .little 5)) (mouse 3, .started) (s'.battery, s'.world) := by
  have hcomes : (Battery.update (.calm .little 5) 3 ⟨60, false⟩ (mouse 3, .started)).1 = .ok () ∧
      (Battery.serveUntil (.calm .little 5) 3 4 none
        (Battery.update (.calm .little 5) 3 ⟨60, false⟩ (mouse 3, .started)).2).1 =
        .ok .deadline ∧
      (Battery.serveUntil (.calm .little 5) 3 4 none
        (Battery.update (.calm .little 5) 3 ⟨60, false⟩ (mouse 3, .started)).2).2.1.handle.fd =
        3 ∧
      (serveAll (.calm .little 5) 3 (some 4) none
        ([mouse 4, (Battery.serveUntil (.calm .little 5) 3 4 none
          (Battery.update (.calm .little 5) 3 ⟨60, false⟩ (mouse 3, .started)).2).2.1],
          (Battery.serveUntil (.calm .little 5) 3 4 none
          (Battery.update (.calm .little 5) 3 ⟨60, false⟩ (mouse 3, .started)).2).2.2)).2.1.map
            (fun x => x.reading) = [⟨50, false⟩, ⟨60, false⟩] := by
    decide +kernel
  rcases hu : Battery.update (.calm .little 5) 3 ⟨60, false⟩ (mouse 3, .started) with ⟨o, b₁, w₁⟩
  rw [hu] at hcomes
  rcases hs : Battery.serveUntil (.calm .little 5) 3 4 none (b₁, w₁) with ⟨o₁, b₂, w₂⟩
  rw [hs] at hcomes
  rcases ha : serveAll (.calm .little 5) 3 (some 4) none ([mouse 4, b₂], w₂) with ⟨o₂, bs, w₃⟩
  rw [ha] at hcomes
  dsimp only at hcomes
  obtain ⟨rfl, rfl, hfd, hbs⟩ := hcomes
  obtain ⟨other, l, rfl, -, hl⟩ := List.map_eq_cons_iff.mp hbs
  obtain ⟨b₃, rest, rfl, hreading, hrest⟩ := List.map_eq_cons_iff.mp hl
  obtain rfl := List.map_eq_nil_iff.mp hrest
  have hown : ([mouse 4, b₂].map fun x => x.handle.fd).Nodup := by
    simp only [List.map_cons, List.map_nil, hfd]
    decide
  have hrun : Along (Step (.calm .little 5)) ⟨⟨50, false⟩, mouse 3, .started, True⟩
      [(.update ⟨60, false⟩, ⟨⟨60, false⟩, b₁, w₁, _⟩),
        (.serveUntil 4 none, ⟨⟨60, false⟩, b₂, w₂, _⟩),
        (.serveAll [mouse 4] [] (some 4) none, ⟨⟨60, false⟩, b₃, w₃, _⟩)] :=
    ⟨.update trivial hu, .serveUntil trivial hs, .serveAll trivial hown ha rfl, trivial⟩
  exact ⟨_, _, _, hrun, hreading,
    refines_plain hrun (.serveAll [mouse 4] [] (some 4) none, _) (by simp)⟩

end UhidBattery
