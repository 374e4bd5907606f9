import UhidBattery.Lifecycle
import UhidBattery.Owner

/-!
# A call on a system with a past

What a call does depends on the calls made before it only through the system's
answers.  So it may be made on a fresh system that behaves as the old one does
from there on, with the same events queued.

* `service_resumed`, `update_resumed`: the two calls end alike, leave the same
  battery and the same queue, and make the same calls.
-/

namespace UhidBattery

open Program (Outcome Simulates Beside loop borrow ofOutcome)

/-- The system from a point of its history on. -/
def Env.resumed (self : Env) (past : List Entry) : Env where
  order := self.order
  time history := self.time (past ++ history)
  arrivals history := self.arrivals (past ++ history)
  read history := self.read (past ++ history)
  write history := self.write (past ++ history)
  poll history := self.poll (past ++ history)
  listing history := self.listing (past ++ history)

/-- The second state is the first without its past, as far as `fd` can tell. -/
structure Rebased (fd : Fd) (past : List Entry) (w w' : World) : Prop where
  queue : w.queue fd = w'.queue fd
  history : w.history = past ++ w'.history

section Rebased

variable {fd : Fd} {past : List Entry} {w w' : World} {E : Env} {ε : Type}

theorem Rebased.entry (h : Rebased fd past w w') (call : Call) :
    w.entry E call = w'.entry (E.resumed past) call := by
  rw [World.entry, World.entry, h.history]
  rfl

theorem Rebased.next (h : Rebased fd past w w') (call : Call) :
    Rebased fd past (w.next E call) (w'.next (E.resumed past) call) := by
  constructor
  · change (w.queue fd ++ E.arrivals w.history fd).drop _ = (w'.queue fd ++ _).drop _
    rw [h.queue, h.entry, h.history]
    rfl
  · change w.history ++ [w.entry E call] = past ++ (w'.history ++ [_])
    rw [h.entry, h.history, List.append_assoc]

theorem Rebased.readResult (h : Rebased fd past w w') :
    w.readResult E fd = w'.readResult (E.resumed past) fd := by
  rw [World.readResult, World.readResult, h.queue, h.history]
  rfl

theorem sysNow_resumed :
    Simulates (Rebased fd past) (sysNow E : Program World ε Instant) (sysNow (E.resumed past)) := by
  intro w w' h
  refine ⟨?_, h.next .now⟩
  change Outcome.ok (E.time w.history) = .ok (E.time (past ++ w'.history))
  rw [h.history]

theorem read_resumed :
    Simulates (Rebased fd past) ((Handle.mk fd).read E) ((Handle.mk fd).read (E.resumed past)) := by
  intro w w' h
  rw [read_eq, read_eq]
  change _ = (w'.readResult (E.resumed past) fd).outcome E.order ∧ _
  rw [← h.readResult]
  exact ⟨rfl, h.next _⟩

theorem sysWrite_resumed (event : Buffer) :
    Simulates (Rebased fd past) (sysWrite E fd event : Program World ε WriteAnswer)
      (sysWrite (E.resumed past) fd event) := by
  intro w w' h
  have hanswer : E.write w.history fd event = (E.resumed past).write w'.history fd event := by
    rw [h.history]
    rfl
  rw [sysWrite, sysWrite, ← hanswer]
  exact ⟨rfl, h.next _⟩

theorem write_resumed (rounds : Nat) (event : Buffer) :
    Simulates (Rebased fd past) ((Handle.mk fd).write E rounds event)
      ((Handle.mk fd).write (E.resumed past) rounds event) := by
  apply Program.simulates_bind
  · apply Program.simulates_loop
    apply Program.simulates_bind (sysWrite_resumed event)
    intro answer
    rcases answer with written | e
    · exact Program.simulates_pure _
    · cases e with
      | intr => exact Program.simulates_pure _
      | again => exact Program.simulates_fail _
      | other code => exact Program.simulates_fail _
  · intro written
    split
    · exact Program.simulates_pure _
    · exact Program.simulates_fail _

/-! ## The operations of a battery -/

/-- The same battery, on descriptor `fd`, beside the two systems. -/
abbrev Alike (fd : Fd) (past : List Entry) : Battery × World → Battery × World → Prop :=
  Beside (fun b : Battery => b.handle = ⟨fd⟩) (Rebased fd past)

theorem scheduleRepush_resumed (delay : Duration) :
    Simulates (Alike fd past) (Battery.scheduleRepush E delay)
      (Battery.scheduleRepush (E.resumed past) delay) := by
  apply Program.simulates_bind
  · exact Program.simulates_borrow fun _ _ => sysNow_resumed
  · intro now
    cases checkedAdd now delay with
    | some due => exact Program.simulates_update fun _ hb => hb
    | none => exact Program.simulates_ofOutcome _

/-- A message that is made up and then written. -/
theorem say_resumed (rounds : Nat) (message : Battery → Outcome IoError Buffer) :
    Simulates (Alike fd past)
      (borrow fun self => ofOutcome (message self) >>= self.handle.write E rounds)
      (borrow fun self => ofOutcome (message self) >>=
        self.handle.write (E.resumed past) rounds) := by
  apply Program.simulates_borrow
  intro b hb
  apply Program.simulates_bind (Program.simulates_ofOutcome _)
  intro event
  rw [hb]
  exact write_resumed rounds event

theorem push_resumed (rounds : Nat) :
    Simulates (Alike fd past) (borrow fun self => self.push E rounds)
      (borrow fun self => self.push (E.resumed past) rounds) :=
  say_resumed rounds fun self => input2 E.order self.report

theorem answer_resumed (rounds : Nat) (event : Event) :
    Simulates (Alike fd past) (Battery.answer E rounds event)
      (Battery.answer (E.resumed past) rounds event) := by
  cases event with
  | start => exact scheduleRepush_resumed startSettleDelay
  | ignored => exact Program.simulates_pure ()
  | getReport id rnum rtype => exact say_resumed rounds _
  | setReport id => exact say_resumed rounds fun _ => setReportReply E.order id

theorem serviceOnce_resumed (rounds : Nat) :
    Simulates (Alike fd past) (Battery.serviceOnce E rounds)
      (Battery.serviceOnce (E.resumed past) rounds) := by
  apply Program.simulates_bind
  · apply Program.simulates_borrow
    intro b hb
    rw [hb]
    exact read_resumed
  · intro event
    cases event with
    | none => exact Program.simulates_pure _
    | some event =>
      exact Program.simulates_bind (answer_resumed rounds event)
        fun _ => Program.simulates_pure _

theorem pushIfDue_resumed (rounds : Nat) :
    Simulates (Alike fd past) (pushIfDue E rounds) (pushIfDue (E.resumed past) rounds) := by
  apply Program.simulates_bind
  · apply Program.simulates_borrow
    intro b hb
    rw [Battery.isDue, Battery.isDue]
    cases b.repushAt with
    | none => exact Program.simulates_pure _
    | some due =>
      exact Program.simulates_bind sysNow_resumed fun _ => Program.simulates_pure _
  · intro due
    split
    · exact Program.simulates_bind (Program.simulates_update fun _ hb => hb)
        fun _ => push_resumed rounds
    · exact Program.simulates_pure _

theorem service_simulated (rounds : Nat) :
    Simulates (Alike fd past) (Battery.service E rounds)
      (Battery.service (E.resumed past) rounds) :=
  Program.simulates_bind (Program.simulates_loop (serviceOnce_resumed rounds) rounds)
    fun _ => pushIfDue_resumed rounds

theorem update_simulated (rounds : Nat) (reading : Reading) :
    Simulates (Alike fd past) (Battery.update E rounds reading)
      (Battery.update (E.resumed past) rounds reading) := by
  have hrest : Simulates (Alike fd past) (storeAndPush E rounds reading)
      (storeAndPush (E.resumed past) rounds reading) :=
    Program.simulates_bind (Program.simulates_update fun _ hb => hb) fun _ => push_resumed rounds
  rintro ⟨b, w⟩ ⟨b', w'⟩ ⟨rfl, hb, hw⟩
  rw [update_eq, update_eq]
  split
  · exact Program.simulates_bind (scheduleRepush_resumed chargeFlipRepushDelay) (fun _ => hrest)
      _ _ ⟨rfl, hb, hw⟩
  · exact hrest _ _ ⟨rfl, hb, hw⟩

end Rebased

/-! ## On a fresh system -/

/-- Two calls that end alike, leave the same battery and the same queue, and make the
same calls. -/
structure SameCall (fd : Fd) (w : World) (left left' : Outcome IoError Unit × Battery × World) :
    Prop where
  outcome : left.1 = left'.1
  battery : left.2.1 = left'.2.1
  queue : left.2.2.queue fd = left'.2.2.queue fd
  calls : w.since left.2.2 = left'.2.2.history

theorem sameCall_of_simulates {b : Battery} {w : World}
    {m m' : Program (Battery × World) IoError Unit}
    (hm : Simulates (Alike b.handle.fd w.history) m m') :
    SameCall b.handle.fd w (m (b, w)) (m' (b, .queueing (w.queue b.handle.fd))) := by
  obtain ⟨ho, hb, -, hw⟩ := hm (b, w) (b, .queueing (w.queue b.handle.fd))
    ⟨rfl, rfl, rfl, (List.append_nil _).symm⟩
  exact ⟨ho, hb, hw.queue, World.since_of_append rfl hw.history⟩

/-- **A `service` on a system with a past.** -/
theorem service_resumed (E : Env) (rounds : Nat) (b : Battery) (w : World) :
    SameCall b.handle.fd w (Battery.service E rounds (b, w))
      (Battery.service (E.resumed w.history) rounds (b, .queueing (w.queue b.handle.fd))) :=
  sameCall_of_simulates (service_simulated rounds)

/-- **An `update` on a system with a past.** -/
theorem update_resumed (E : Env) (rounds : Nat) (reading : Reading) (b : Battery) (w : World) :
    SameCall b.handle.fd w (Battery.update E rounds reading (b, w))
      (Battery.update (E.resumed w.history) rounds reading
        (b, .queueing (w.queue b.handle.fd))) :=
  sameCall_of_simulates (update_simulated rounds reading)

end UhidBattery
