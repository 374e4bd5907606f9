import UhidBattery.Lifecycle
import UhidBattery.Serve
import UhidBattery.Lib.Runs

/-!
# A battery in its owner's hands

Runs of the calls an owner may make on a battery, alone or in a slice with
others, in any order and with any outcome; the rest of the program goes on in
between, on other descriptors.

* `Faithful`: what every call but `update` keeps, `serve_all` over a whole slice
  included (`faithful_kept`).
* `Step.cases`: a step is an update, or faithful.
-/

namespace UhidBattery

open Program (Outcome Guarantees Each)

/-! ## Stretches between two states -/

/-- The calls made between two states of the system. -/
def World.since (w w' : World) : List Entry := w'.history.drop w.history.length

theorem World.since_of_append {w w' : World} {s t : List Entry} (h : w.history = s)
    (h' : w'.history = s ++ t) : w.since w' = t := by
  rw [World.since, h', h, List.drop_left]

theorem Ran.since {E : Env} {w w' : World} {calls : List Entry} (h : Ran E w calls w') :
    w.since w' = calls := World.since_of_append rfl h.history

theorem Ran.since_append {E E' : Env} {w w₁ w' : World} {s t : List Entry} (h : Ran E w s w₁)
    (h' : Ran E' w₁ t w') : w.since w' = s ++ t := by
  rw [World.since, h'.history, h.history, List.append_assoc, List.drop_left]

section Calls

variable {E : Env} {rounds : Nat} {b b' : Battery} {w w' : World} {o : Outcome IoError Unit}

/-- What a `service` did, told by the calls it made. -/
theorem service_since (h : Battery.service E rounds (b, w) = (o, (b', w'))) :
    Ran E w (w.since w') w' ∧ Served E.order b o (w.since w') b' := by
  obtain ⟨calls, hran, hs⟩ := service_spec E rounds b w
  rw [h] at hran hs
  rw [hran.since]
  exact ⟨hran, hs⟩

theorem update_since {reading : Reading}
    (h : Battery.update E rounds reading (b, w) = (o, (b', w'))) :
    Ran E w (w.since w') w' ∧ Updated E.order b reading o (w.since w') b' := by
  obtain ⟨calls, hran, hu⟩ := update_spec E rounds reading b w
  rw [h] at hran hu
  rw [hran.since]
  exact ⟨hran, hu⟩

theorem create_since {handle : Handle} {identity : Identity} {kind : Kind} {reading : Reading}
    {o : Outcome CreateError Battery}
    (h : Battery.create E rounds handle identity kind reading w = (o, w')) :
    Ran E w (w.since w') w' ∧ Created E.order handle identity kind reading o (w.since w') := by
  obtain ⟨calls, hran, hc⟩ := create_spec E rounds handle identity kind reading w
  rw [h] at hran hc
  rw [hran.since]
  exact ⟨hran, hc⟩

theorem destroy_since {ε : Type} {o : Outcome ε Handle}
    (h : (b.destroy E rounds : Program World ε Handle) w = (o, w')) :
    Ran E w (w.since w') w' ∧ Destroyed E.order b.handle o (w.since w') := by
  obtain ⟨calls, hran, hd⟩ := destroy_spec ε E rounds b w
  rw [h] at hran hd
  rw [hran.since]
  exact ⟨hran, hd⟩

end Calls

/-! ## Steps -/

inductive Op where
  | update (reading : Reading)
  | service
  | serveUntil (deadline : Instant) (wake : Option Fd)
  | serveAll (before after : List Battery) (deadline : Option Instant) (wake : Option Fd)
  | waitForPowerSupply (timeout : Duration)
  | elsewhere

/-- A battery in use: the reading its owner asked for last, and whether the
owner's last call came back. -/
structure InUse where
  asked : Reading
  battery : Battery
  world : World
  returned : Prop

/-- One call of the owner's, whatever its outcome.  A slice holds no descriptor
twice, and nobody else uses the battery's. -/
inductive Step (E : Env) (s : InUse) : Op → InUse → Prop where
  | update {rounds : Nat} {reading : Reading} {o : Outcome IoError Unit} {b : Battery} {w : World}
      (hs : s.returned)
      (h : Battery.update E rounds reading (s.battery, s.world) = (o, (b, w))) :
      Step E s (.update reading) ⟨reading, b, w, o.Returned⟩
  | service {rounds : Nat} {o : Outcome IoError Unit} {b : Battery} {w : World} (hs : s.returned)
      (h : Battery.service E rounds (s.battery, s.world) = (o, (b, w))) :
      Step E s .service ⟨s.asked, b, w, o.Returned⟩
  | serveUntil {rounds : Nat} {deadline : Instant} {wake : Option Fd}
      {o : Outcome IoError Wakeup} {b : Battery} {w : World} (hs : s.returned)
      (h : Battery.serveUntil E rounds deadline wake (s.battery, s.world) = (o, (b, w))) :
      Step E s (.serveUntil deadline wake) ⟨s.asked, b, w, o.Returned⟩
  | serveAll {rounds : Nat} {before after batteries : List Battery} {deadline : Option Instant}
      {wake : Option Fd} {o : Outcome ServeError Wakeup} {b : Battery} {w : World}
      (hs : s.returned)
      (hown : ((before ++ s.battery :: after).map fun x => x.handle.fd).Nodup)
      (h : UhidBattery.serveAll E rounds deadline wake (before ++ s.battery :: after, s.world) =
        (o, (batteries, w)))
      (hb : batteries[before.length]? = some b) :
      Step E s (.serveAll before after deadline wake) ⟨s.asked, b, w, o.Returned⟩
  | waitForPowerSupply {rounds : Nat} {timeout : Duration} {o : Outcome IoError (Option Path)}
      {b : Battery} {w : World} (hs : s.returned)
      (h : Battery.waitForPowerSupply E rounds timeout (s.battery, s.world) = (o, (b, w))) :
      Step E s (.waitForPowerSupply timeout) ⟨s.asked, b, w, o.Returned⟩
  | elsewhere {calls : List Entry} {w : World} (hs : s.returned) (h : Ran E s.world calls w)
      (hr : reads s.battery.handle.fd calls = []) (hw : writes s.battery.handle.fd calls = []) :
      Step E s .elsewhere ⟨s.asked, s.battery, w, True⟩

/-! ## What a step does -/

/-- The battery is what it was but for its slot, and was only heard saying what
it may say. -/
def Faithful (E : Env) (s s' : Battery × World) : Prop :=
  (∃ slot, s'.1 = s.1.withRepush slot) ∧
    ∃ calls, Ran E s.2 calls s'.2 ∧ s.1.OnlySays E.order calls

instance (E : Env) : IsPreorder (Battery × World) (Faithful E) where
  refl s := ⟨⟨s.1.repushAt, withRepush_self s.1⟩, [], .nil s.2, onlySays_nil E.order s.1⟩
  trans s₁ s₂ s₃ := by
    rintro ⟨⟨slot, h⟩, calls, hran, hsaid⟩ ⟨⟨slot', h'⟩, calls', hran', hsaid'⟩
    rw [h] at h' hsaid'
    exact ⟨⟨slot', h'⟩, _, hran.append hran', onlySays_append hsaid hsaid'⟩

theorem service_faithful (E : Env) (rounds : Nat) :
    Guarantees (fun s s' => s'.1.handle.fd = s.1.handle.fd ∧ Faithful E s s')
      (Battery.service E rounds) := by
  rintro ⟨b, w⟩
  obtain ⟨calls, hran, h⟩ := service_spec E rounds b w
  obtain ⟨slot, hb⟩ := h.same
  exact ⟨by rw [hb, withRepush_handle], ⟨slot, hb⟩, calls, hran, h.onlySays⟩

theorem writes_of_idle {x : Entry} (hx : x.call.Idle) (fd : Fd) : writes fd [x] = [] := by
  have hr : x.write? fd = none := by
    rw [Entry.write?]
    cases hc : x.call with
    | write fd' event answer => rw [hc] at hx; exact hx.elim
    | now => rfl
    | read fd' result => rfl
    | poll fds timeout answer => rfl
    | readDir listing => rfl
  rw [writes, List.filterMap_cons, hr]
  rfl

/-- Faithfulness is kept for every battery of a slice. -/
theorem faithful_kept (E : Env) (rounds : Nat) : Kept E rounds (Faithful E) where
  own := service_faithful E rounds
  other x w y hne := by
    obtain ⟨calls, hran, h⟩ := service_spec E rounds x w
    exact ⟨⟨_, withRepush_self y⟩, calls, hran, onlySays_of_writes (h.onlyOn.others hne).2⟩
  idle y w call hg hidle :=
    ⟨⟨_, withRepush_self y⟩, _, .single hg, onlySays_of_writes (writes_of_idle hidle _)⟩

/-! ## What is kept by the steps that are no updates -/

/-- One battery of a slice, and what serving the slice keeps. -/
theorem serveAll_kept {E : Env} {rounds : Nat} {R : Battery × World → Battery × World → Prop}
    [IsPreorder (Battery × World) R] (hk : Kept E rounds R) {deadline : Option Instant}
    {wake : Option Fd} {before after batteries : List Battery} {b b' : Battery} {w w' : World}
    {o : Outcome ServeError Wakeup}
    (hown : ((before ++ b :: after).map fun x => x.handle.fd).Nodup)
    (h : serveAll E rounds deadline wake (before ++ b :: after, w) = (o, (batteries, w')))
    (hb : batteries[before.length]? = some b') : R (b, w) (b', w') := by
  have hall := serveAll_each hk.serving deadline wake (before ++ b :: after, w) hown
  rw [h] at hall
  obtain ⟨hlt, hget⟩ := List.getElem?_eq_some_iff.mp hb
  have hlen : before.length < (before ++ b :: after).length := by simp
  have hi := (hall.get hlen hlt).2
  simp only [List.get_eq_getElem, List.getElem_append_right (Nat.le_refl _), Nat.sub_self,
    List.getElem_cons_zero, hget] at hi
  exact hi

/-- **What servicing keeps, every step but an update keeps**, if the calls of
others keep it too. -/
theorem Step.kept {E : Env} {s s' : InUse} {op : Op}
    {R : Battery × World → Battery × World → Prop} [IsPreorder (Battery × World) R]
    (hk : ∀ rounds, Kept E rounds R)
    (helse : ∀ b w calls w', Ran E w calls w' → reads b.handle.fd calls = [] →
      writes b.handle.fd calls = [] → R (b, w) (b, w'))
    (h : Step E s op s') (hop : ∀ reading, op ≠ .update reading) :
    R (s.battery, s.world) (s'.battery, s'.world) := by
  have keeps {α : Type} {m : Program (Battery × World) IoError α} {o : Outcome IoError α}
      {b : Battery} {w : World} (hm : Guarantees R m) (h : m (s.battery, s.world) = (o, (b, w))) :
      R (s.battery, s.world) (b, w) := by
    have hs := hm (s.battery, s.world)
    rw [h] at hs
    exact hs
  cases h with
  | update hs h => exact absurd rfl (hop _)
  | @service rounds o b w hs h =>
    have hm : Guarantees R (Battery.service E rounds) := fun s => ((hk rounds).own s).2
    exact keeps hm h
  | @serveUntil rounds deadline wake o b w hs h =>
    exact keeps (serveUntil_keeps (hk rounds).serving _ _) h
  | @serveAll rounds before after batteries deadline wake o b w hs hown h hb =>
    exact serveAll_kept (hk rounds) hown h hb
  | @waitForPowerSupply rounds timeout o b w hs h =>
    exact keeps (waitForPowerSupply_keeps (hk rounds) _) h
  | elsewhere hs h hr hw => exact helse _ _ _ _ h hr hw

/-- Only an update asks for a reading. -/
theorem Step.asked {E : Env} {s s' : InUse} {op : Op} (h : Step E s op s')
    (hop : ∀ reading, op ≠ .update reading) : s'.asked = s.asked := by
  cases h with
  | update hs h => exact absurd rfl (hop _)
  | _ => rfl

/-- **A step** is an update, or leaves the reading alone and is faithful to it. -/
theorem Step.cases {E : Env} {s s' : InUse} {op : Op} (h : Step E s op s') :
    (∃ reading o b w calls, op = .update reading ∧ Ran E s.world calls w ∧
      Updated E.order s.battery reading o calls b ∧ s' = ⟨reading, b, w, o.Returned⟩) ∨
    ((∀ reading, op ≠ .update reading) ∧ s'.asked = s.asked ∧
      Faithful E (s.battery, s.world) (s'.battery, s'.world)) := by
  by_cases hop : ∃ reading, op = .update reading
  · obtain ⟨reading, rfl⟩ := hop
    cases h with
    | @update rounds reading o b w hs h =>
      obtain ⟨hran, hu⟩ := update_since h
      exact Or.inl ⟨reading, o, b, w, _, rfl, hran, hu, rfl⟩
  · have hop : ∀ reading, op ≠ .update reading := fun reading heq => hop ⟨reading, heq⟩
    refine Or.inr ⟨hop, h.asked hop, h.kept (faithful_kept E) ?_ hop⟩
    intro b w calls w' hran _ hw
    exact ⟨⟨_, withRepush_self b⟩, _, hran, onlySays_of_writes hw⟩

end UhidBattery
