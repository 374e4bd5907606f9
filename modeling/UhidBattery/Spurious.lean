import UhidBattery.Due
import UhidBattery.Resumed

/-!
# A caller's own loop

A caller that runs its own `poll()` services the battery when its descriptor is
readable and when `next_deadline` has come.  A script says what the caller does
and how the system behaves during each call; the extra calls are marked.

* `Stage.play_of_quiet`: a `service` that finds nothing queued and nothing due
  changes nothing.
* `spurious_service`: after a `service` nothing is due, and extra calls at quiet
  moments may be dropped from any script.
* `Stage.play_service`, `Stage.play_update`: an item of a script is a call on the
  running system.
-/

namespace UhidBattery

open Record (ByteOrder)
open Program (Outcome)
open Deadlines (Covers)
open Runs (trail Marked)

/-! ## Scripts -/

/-- Events that arrive, or a call and the system it runs on. -/
inductive Act where
  | arrive (events : List Buffer)
  | update (E : Env) (rounds : Nat) (reading : Reading)
  | service (E : Env) (rounds : Nat)

/-- A battery between two calls, with the events queued for it and the events it
has written. -/
structure Stage where
  battery : Battery
  queue : List Buffer
  written : List (Instant × Buffer)

def Stage.after (self : Stage) (left : Outcome IoError Unit × Battery × World) :
    Outcome IoError Unit × Stage :=
  (left.1, ⟨left.2.1, left.2.2.queue self.battery.handle.fd,
    self.written ++ accepted self.battery.handle.fd left.2.2.history⟩)

def Stage.play (self : Stage) : Act → Outcome IoError Unit × Stage
  | .arrive events => (.ok (), { self with queue := self.queue ++ events })
  | .update E rounds reading =>
    self.after (Battery.update E rounds reading (self.battery, .queueing self.queue))
  | .service E rounds =>
    self.after (Battery.service E rounds (self.battery, .queueing self.queue))

/-- A call made on `w`, entered after the ones before it. -/
def Stage.entered (self : Stage) (w : World) (left : Outcome IoError Unit × Battery × World) :
    Outcome IoError Unit × Stage :=
  (left.1, ⟨left.2.1, left.2.2.queue self.battery.handle.fd,
    self.written ++ accepted self.battery.handle.fd (w.since left.2.2)⟩)

theorem Stage.after_eq (self : Stage) {w : World}
    {left left' : Outcome IoError Unit × Battery × World}
    (h : SameCall self.battery.handle.fd w left left') :
    self.after left' = self.entered w left := by
  rw [Stage.after, Stage.entered, h.outcome, h.battery, h.queue, h.calls]

/-- **An item is a call on the running system**, whatever happened before. -/
theorem Stage.play_service (self : Stage) (E : Env) (rounds : Nat) (w : World)
    (hq : w.queue self.battery.handle.fd = self.queue) :
    self.play (.service (E.resumed w.history) rounds) =
      self.entered w (Battery.service E rounds (self.battery, w)) := by
  rw [Stage.play, ← hq]
  exact self.after_eq (service_resumed E rounds self.battery w)

theorem Stage.play_update (self : Stage) (E : Env) (rounds : Nat) (reading : Reading) (w : World)
    (hq : w.queue self.battery.handle.fd = self.queue) :
    self.play (.update (E.resumed w.history) rounds reading) =
      self.entered w (Battery.update E rounds reading (self.battery, w)) := by
  rw [Stage.play, ← hq]
  exact self.after_eq (update_resumed E rounds reading self.battery w)

/-- A `service` at a moment when the queue is empty and the clock is before
`next_deadline`, if there is one. -/
def Quiet (s : Stage) : Act → Prop
  | .service E rounds =>
    let calls := (Battery.service E rounds (s.battery, .queueing s.queue)).2.2.history
    s.queue = [] ∧ arrived s.battery.handle.fd calls = [] ∧
      ∀ d, s.battery.nextDeadline = some d → ∀ t ∈ clocks calls, t < d
  | _ => False

/-! ## Nothing to do -/

section Quiet

variable {order : ByteOrder} {b b' : Battery} {o : Outcome IoError Unit} {calls : List Entry}

theorem delivered_ne_nil {fd : Fd} {x : Entry} {buf : Buffer}
    (hx : x.call = .read fd (.delivered buf)) (s t : List Entry) :
    delivered fd (s ++ x :: t) ≠ [] := by
  rw [← List.singleton_append, delivered_append, delivered_append, delivered_of_read hx]
  simp [ReadResult.event?]

/-- Where no event was read, none was answered. -/
theorem Handled.of_undelivered (h : Handled order b calls b')
    (hd : delivered b.handle.fd calls = []) : calls = [] ∧ b' = b := by
  cases h with
  | nil => exact ⟨rfl, rfl⟩
  | snoc h hx ha =>
    rw [h.handle] at hx
    exact absurd hd (delivered_ne_nil hx _ _)

/-- A push that is not due. -/
theorem Pushed.of_early (h : Pushed order b o calls b')
    (ht : ∀ d, b.repushAt = some d → ∀ t ∈ clocks calls, t < d) :
    b' = b ∧ writes b.handle.fd calls = [] := by
  cases h with
  | idle hs => exact ⟨rfl, rfl⟩
  | early hs hx hlt => exact ⟨rfl, writes_of_now hx _⟩
  | @due due x buf o calls hs hx hle hb hw =>
    have hmem : x.time ∈ clocks (x :: calls) := by
      rw [← List.singleton_append, clocks_append, clocks_of_now hx]
      exact List.mem_cons_self
    exact absurd hle (Nat.not_le_of_lt (ht due hs x.time hmem))

/-- **A `service` with nothing to do** leaves the battery as it is and writes nothing. -/
theorem Served.quiet (h : Served order b o calls b') (hd : delivered b.handle.fd calls = [])
    (ht : ∀ d, b.repushAt = some d → ∀ t ∈ clocks calls, t < d) :
    b' = b ∧ writes b.handle.fd calls = [] := by
  cases h with
  | pending h =>
    obtain ⟨rfl, rfl⟩ := h.of_undelivered hd
    exact ⟨rfl, rfl⟩
  | readFailed h hx hr =>
    rw [delivered_append, List.append_eq_nil_iff] at hd
    obtain ⟨rfl, rfl⟩ := h.of_undelivered hd.1
    exact ⟨rfl, writes_of_read hx _⟩
  | unanswered h hx ha hno =>
    rw [h.handle] at hx
    exact absurd hd (delivered_ne_nil hx _ _)
  | @emptied calls calls' b₁ b₂ x result o h hx hr hp =>
    rw [delivered_append, List.append_eq_nil_iff] at hd
    obtain ⟨rfl, rfl⟩ := h.of_undelivered hd.1
    rw [List.nil_append, ← List.singleton_append, clocks_append, clocks_of_read hx,
      List.nil_append] at ht
    obtain ⟨rfl, hw⟩ := hp.of_early ht
    rw [List.nil_append, ← List.singleton_append, writes_append, writes_of_read hx, hw]
    exact ⟨rfl, rfl⟩

end Quiet

theorem Stage.play_of_quiet (s : Stage) (act : Act) (h : Quiet s act) : (s.play act).2 = s := by
  cases act with
  | arrive events => exact h.elim
  | update E rounds reading => exact h.elim
  | service E rounds =>
    obtain ⟨hqueue, harrived, hclock⟩ := h
    obtain ⟨calls, hran, hs⟩ := service_spec E rounds s.battery (.queueing s.queue)
    have hhistory := hran.history
    rw [show (World.queueing s.queue).history = [] from rfl, List.nil_append] at hhistory
    rw [hhistory] at harrived hclock
    have hempty : (World.queueing s.queue).queue s.battery.handle.fd = [] := hqueue
    have hq := hran.queue s.battery.handle.fd
    rw [harrived, hempty, List.append_nil, eq_comm, List.append_eq_nil_iff] at hq
    obtain ⟨hbattery, hwrites⟩ := hs.quiet hq.1 hclock
    rw [Stage.play, Stage.after, hbattery, hhistory, hq.2, accepted_of_writes hwrites,
      List.append_nil, ← hqueue]

/-! ## Nothing lost -/

/-- After a `service` that succeeds, nothing is due that it compared with the clock. -/
theorem Served.not_due {order : ByteOrder} {b b' : Battery} {calls : List Entry}
    (h : Served order b (.ok ()) calls b') :
    b'.nextDeadline = none ∨ ∃ d t, b'.nextDeadline = some d ∧
      checkTimes order b.handle.fd calls = [t] ∧ t < d := by
  have hchecked := h.checked
  cases h.compared (Or.inl rfl) with
  | pushed hs hc hcalls hq hi => exact Or.inl rfl
  | kept hi hkept =>
    cases hd : settled b.repushAt (startTimes order b.handle.fd calls) with
    | none => exact Or.inl rfl
    | some d =>
      rw [hd] at hkept hchecked
      obtain ⟨t, ht⟩ := hchecked (Option.some_ne_none d)
      have hlate := hkept t (by rw [ht]; exact List.mem_singleton_self t)
      rw [Deadlines.covers_some_iff] at hlate
      exact Or.inr ⟨d, t, rfl, ht, Nat.lt_of_not_le hlate⟩

/-- **Spurious wake-ups are harmless.**  A `service` that succeeds leaves nothing due
that it compared with the clock, and extra calls at quiet moments change neither
what is written nor any later state. -/
theorem spurious_service :
    (∀ (E : Env) (rounds : Nat) (b b' : Battery) (w w' : World),
      Battery.service E rounds (b, w) = (.ok (), (b', w')) →
        b'.nextDeadline = none ∨ ∃ d t, b'.nextDeadline = some d ∧
          checkTimes E.order b.handle.fd (w.since w') = [t] ∧ t < d) ∧
    ∀ (s : Stage) (script : List (Bool × Act)), Marked Stage.play Quiet s script →
      (trail Stage.play s script).filter (fun x => !x.1) =
        trail Stage.play s (script.filter fun x => !x.1) := by
  constructor
  · intro E rounds b b' w w' h
    exact (service_since h).2.not_due
  · exact Runs.trail_filter Stage.play_of_quiet

/-! ## Extra calls before a push is due -/

/-- A moment at which nothing arrives and the clock stands before the slot. -/
theorem quiet_of_still {s : Stage} {E : Env} (rounds : Nat) (hqueue : s.queue = [])
    (harrivals : ∀ h, E.arrivals h s.battery.handle.fd = [])
    (hclock : ∀ h d, s.battery.nextDeadline = some d → E.time h < d) :
    Quiet s (.service E rounds) := by
  obtain ⟨calls, hran, -⟩ := service_spec E rounds s.battery (.queueing s.queue)
  have hhistory := hran.history
  rw [show (World.queueing s.queue).history = [] from rfl, List.nil_append] at hhistory
  refine ⟨hqueue, ?_, ?_⟩
  · rw [hhistory]
    exact hran.arrived_eq_nil harrivals
  · rw [hhistory]
    intro d hd t ht
    obtain ⟨history, rfl⟩ := hran.mem_clocks ht
    exact hclock history d hd

/-- An extra `service` before the settle push of a mouse is due, then the one at which
it is. -/
theorem spurious_service_still :
    ∃ script : List (Bool × Act), script.length = 2 ∧
      (trail Stage.play ⟨(mouse 3).withRepush (some startSettleDelay), [], []⟩ script).filter
          (fun x => !x.1) =
        trail Stage.play ⟨(mouse 3).withRepush (some startSettleDelay), [], []⟩
          (script.filter fun x => !x.1) := by
  refine ⟨[(true, .service (.calm .little 0) 1),
    (false, .service (.calm .little startSettleDelay) 1)], rfl, spurious_service.2 _ _ ⟨?_, ?_⟩⟩
  · intro _
    refine quiet_of_still 1 rfl (fun _ => rfl) ?_
    intro h d hd
    have hpos : 0 < startSettleDelay := by decide
    rw [← Option.some.inj hd]
    exact hpos
  · exact ⟨by simp, trivial⟩

end UhidBattery
