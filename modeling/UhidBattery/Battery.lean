import UhidBattery.Handle
import UhidBattery.Identity
import Mathlib.Data.UInt

/-!
# A virtual battery

A `Battery` owns its handle, the reading it publishes and the one slot for a
push that is still to be made.  Methods that change it run on the battery and
the world together.

* `push_eq`: a push is the write of one `INPUT2` with the battery's report.
* `scheduleRepush_eq`: the slot keeps the earliest of the times asked for.
-/

namespace UhidBattery

open Record (ByteOrder)
open Program (Outcome loop attempt fail ofOutcome mapErr borrow)

/-! ## Readings -/

def startSettleDelay : Duration := fromMillis 250
def chargeFlipRepushDelay : Duration := fromSecs 31

def maxPercent : UInt8 := 100

structure Reading where
  percent : UInt8
  charging : Bool
  deriving DecidableEq, Repr

/-- What the kernel is told: the level held to the descriptor's maximum. -/
def Reading.clamped (self : Reading) : Reading := ⟨min self.percent maxPercent, self.charging⟩

theorem Reading.clamped_percent_le (self : Reading) : self.clamped.percent ≤ maxPercent := by
  change (if self.percent ≤ maxPercent then self.percent else maxPercent) ≤ maxPercent
  split
  · assumption
  · exact UInt8.le_refl _

/-! ## Batteries -/

inductive CreateErrorKind where
  | invalidIdentity
  | io
  deriving DecidableEq, Repr

structure CreateError where
  handle : Handle
  kind : CreateErrorKind
  source : IoError
  deriving DecidableEq, Repr

structure Battery where
  handle : Handle
  kind : Kind
  uniq : String
  reading : Reading
  repushAt : Option Instant
  percent_le : reading.percent ≤ maxPercent

/-- The report of a reading: its ID, the level, the charging bit. -/
def reportOf (kind : Kind) (reading : Reading) : List UInt8 :=
  [kind.reportId, reading.percent, if reading.charging then 1 else 0]

def Battery.report (self : Battery) : List UInt8 := reportOf self.kind self.reading

/-- `self.repush_at = slot`. -/
def Battery.withRepush (self : Battery) (slot : Option Instant) : Battery :=
  { self with repushAt := slot }

/-- `self.reading = reading.clamped()`. -/
def Battery.withReading (self : Battery) (reading : Reading) : Battery :=
  { self with reading := reading.clamped, percent_le := reading.clamped_percent_le }

/-- The battery `create` makes. -/
def Battery.new (handle : Handle) (kind : Kind) (uniq : String) (reading : Reading) : Battery :=
  ⟨handle, kind, uniq, reading.clamped, none, reading.clamped_percent_le⟩

section Fields

variable (b : Battery) (slot : Option Instant) (reading : Reading)

@[simp] theorem withRepush_handle : (b.withRepush slot).handle = b.handle := rfl
@[simp] theorem withRepush_kind : (b.withRepush slot).kind = b.kind := rfl
@[simp] theorem withRepush_reading : (b.withRepush slot).reading = b.reading := rfl
@[simp] theorem withRepush_report : (b.withRepush slot).report = b.report := rfl
@[simp] theorem withRepush_repushAt : (b.withRepush slot).repushAt = slot := rfl
@[simp] theorem withReading_handle : (b.withReading reading).handle = b.handle := rfl
@[simp] theorem withReading_kind : (b.withReading reading).kind = b.kind := rfl
@[simp] theorem withReading_reading : (b.withReading reading).reading = reading.clamped := rfl
@[simp] theorem withReading_repushAt : (b.withReading reading).repushAt = b.repushAt := rfl

end Fields

def Battery.nextDeadline (self : Battery) : Option Instant := self.repushAt

/-- The slot with one more time asked for. -/
def earliest (slot : Option Instant) (due : Instant) : Option Instant :=
  some (slot.elim due fun current => min current due)

section Methods

variable {ε : Type} (E : Env) (rounds : Nat)

def Battery.push (self : Battery) : Program World IoError Unit := do
  let event ← ofOutcome (input2 E.order self.report)
  self.handle.write E rounds event

/-- `Instant::now() + delay`, which panics past the end of time. -/
def Battery.scheduleRepush (delay : Duration) : Program (Battery × World) IoError Unit := do
  let now ← borrow fun _ => sysNow E
  match checkedAdd now delay with
  | some due => Program.update fun self => self.withRepush (earliest self.repushAt due)
  | none => ofOutcome .panic

def Battery.update (reading : Reading) : Program (Battery × World) IoError Unit := do
  let before ← borrow fun self => pure self.reading
  if reading.clamped.charging ≠ before.charging ∧ reading.clamped.percent = before.percent then
    scheduleRepush E chargeFlipRepushDelay
  Program.update fun self => self.withReading reading
  borrow fun self => self.push E rounds

/-- What `service` does about one event. -/
def Battery.answer (event : Event) : Program (Battery × World) IoError Unit :=
  match event with
  | .start => scheduleRepush E startSettleDelay
  | .getReport id rnum rtype => borrow fun self => do
    let ours := rnum = self.kind.reportId ∧ rtype = rtypeInput
    let reply ← ofOutcome (getReportReply E.order id (if ours then some self.report else none))
    self.handle.write E rounds reply
  | .setReport id => borrow fun self => do
    let reply ← ofOutcome (setReportReply E.order id)
    self.handle.write E rounds reply
  | .ignored => pure ()

def Battery.serviceOnce : Program (Battery × World) IoError (Option Unit) := do
  match ← borrow fun self => self.handle.read E with
  | some event => do
    answer E rounds event
    pure none
  | none => pure (some ())

/-- `self.repush_at.is_some_and(|due| Instant::now() >= due)`. -/
def Battery.isDue (self : Battery) : Program World IoError Bool :=
  match self.repushAt with
  | some due => do
    let now ← sysNow E
    pure (decide (due ≤ now))
  | none => pure false

def Battery.service : Program (Battery × World) IoError Unit := do
  loop (serviceOnce E rounds) rounds
  if ← borrow fun self => self.isDue E then
    Program.update fun self => self.withRepush none
    borrow fun self => self.push E rounds

/-- A failure to destroy is not reported. -/
def Battery.destroy (self : Battery) : Program World ε Handle := do
  let _ ← attempt (do
    let event ← ofOutcome (UhidBattery.destroy E.order)
    self.handle.write E rounds event)
  self.handle.drain E rounds
  pure self.handle

def Battery.create (handle : Handle) (identity : Identity) (kind : Kind) (reading : Reading) :
    Program World CreateError Battery := do
  mapErr (fun source => ⟨handle, .invalidIdentity, source⟩) (ofOutcome identity.validate)
  mapErr (fun source => ⟨handle, .io, source⟩) do
    let event ← ofOutcome (create2 E.order identity.name identity.phys identity.uniq
      identity.vendor.toUInt32 identity.product.toUInt32 kind.descriptor)
    handle.write E rounds event
  let battery := Battery.new handle kind identity.uniq reading
  match ← attempt (battery.push E rounds) with
  | .ok () => pure battery
  | .error source => do
    let handle ← battery.destroy E rounds
    fail ⟨handle, .io, source⟩

end Methods

/-- A mouse at 50 %. -/
def mouse (fd : Fd) : Battery := .new ⟨fd⟩ .mouse "mouse-1" ⟨50, false⟩

/-! ## Equations -/

theorem length_report (battery : Battery) : battery.report.length = 3 := rfl

section Equations

variable (E : Env)

theorem sentOf_of_encodes {order : ByteOrder} {buf : Buffer} {m : Fake.Sent}
    (h : Encodes order buf m) : sentOf order buf = m := by
  have hd := h.decoded
  rw [decodeSent_eq, Outcome.ok.injEq] at hd
  exact hd

/-- **A push** is the write of one `INPUT2`; encoding it never fails. -/
theorem push_eq (self : Battery) :
    ∃ buf, sentOf E.order buf = .input2 self.report ∧
      ∀ rounds, self.push E rounds = self.handle.write E rounds buf := by
  obtain ⟨buf, hb, he⟩ := input2_encodes E.order self.report (by rw [length_report]; decide)
  refine ⟨buf, sentOf_of_encodes he, ?_⟩
  intro rounds
  funext w
  rw [Battery.push, hb]
  rfl

/-- **The slot** keeps the earliest time asked for. -/
theorem scheduleRepush_eq (delay : Duration) (b : Battery) (w : World) :
    Battery.scheduleRepush E delay (b, w) =
      if E.time w.history + delay < instantEnd then
        (.ok (), (b.withRepush (earliest b.repushAt (E.time w.history + delay)), w.next E .now))
      else (.panic, (b, w.next E .now)) := by
  have hnow : (borrow fun _ => sysNow E : Program (Battery × World) IoError Instant) (b, w) =
      (.ok (E.time w.history), (b, w.next E .now)) := rfl
  unfold Battery.scheduleRepush
  rw [Program.bind_ok hnow, checkedAdd]
  split_ifs <;> rfl

end Equations

end UhidBattery
