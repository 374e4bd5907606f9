import UhidBattery.Service
import UhidBattery.Lib.Each

/-!
# Serving several batteries

The loop behind `serve_all` and `serve_until`: service every battery, wait on
the devices, decide.

* `wait_eq`: what a wait makes of the answer of its `poll()`.
* `serve_each`: a relation kept by servicing a battery and by the calls of the
  loop itself is kept for every battery by the whole loop.
-/

namespace UhidBattery

open Record (ByteOrder)
open Program (Outcome Guarantees Each loop attempt fail ofOutcome mapErr borrow tryForEach onOne)

/-! ## Polling -/

def pollIn : PollFlags := 0x001
def pollErr : PollFlags := 0x008
def pollHup : PollFlags := 0x010
def pollNval : PollFlags := 0x020

def contains (flags other : PollFlags) : Bool := flags &&& other == other
def intersects (flags other : PollFlags) : Bool := flags &&& other != 0

/-- `i64::MAX`, the most seconds a `Timespec` holds. -/
def maxSec : Nat := 2 ^ 63 - 1

def timespecOf (timeout : Duration) : Timespec :=
  ⟨min (timeout / fromSecs 1) maxSec, timeout % fromSecs 1⟩

inductive Ready where
  | device
  | wake
  | interrupted
  deriving DecidableEq, Repr

inductive Wakeup where
  | wake
  | deadline
  | interrupted
  deriving DecidableEq, Repr

structure ServeError where
  index : Option Nat
  source : IoError
  deriving DecidableEq, Repr

section Operations

variable (E : Env) (rounds : Nat)

/-- The number of ready descriptors, and what `poll()` says of each. -/
def pollUntil (fds : List PollFd) (timeout : Option Duration) :
    Program World IoError (Nat × (Nat → PollFlags)) := do
  match ← sysPoll E fds (timeout.map timespecOf) with
  | .ready count revents => pure (count, revents)
  | .fails e => fail (.os e)

/-- What a wake descriptor's flags mean. -/
def readyOf (revents : PollFlags) : Outcome IoError Ready :=
  if contains revents pollIn then .ok .wake
  else if intersects revents (pollHup ||| pollErr ||| pollNval) then
    .err (.custom .other "the wake descriptor is hung up, in error or not open")
  else .ok .device

def wait (fds : List PollFd) (withWake : Bool) (timeout : Option Duration) :
    Program World IoError Ready := do
  match ← attempt (pollUntil E fds timeout) with
  | .ok (_, revents) =>
    match if withWake then fds.getLast? else none with
    | none => pure .device
    | some _ => ofOutcome (readyOf (revents (fds.length - 1)))
  | .error err => if err.isInterrupted then pure .interrupted else fail err

/-! ## The loop -/

/-- Services every battery in turn, naming the first that fails. -/
def serviceAll : Program (List Battery × World) ServeError Unit := fun s =>
  tryForEach (fun index => mapErr (fun source => ⟨some index, source⟩)
    (Battery.service E rounds)) 0 s.1 s.2

/-- The longest the loop may wait. -/
def longestWait (batteries : List Battery) (deadline : Option Instant) (now : Instant) :
    Option Duration :=
  ((batteries.filterMap Battery.nextDeadline ++ deadline.toList).min?).map (· - now)

/-- `deadline.is_some_and(|deadline| Instant::now() >= deadline)`. -/
def reached (deadline : Option Instant) : Program World ServeError Bool :=
  match deadline with
  | some deadline => do
    let now ← sysNow E
    pure (decide (deadline ≤ now))
  | none => pure false

section Loop

variable (deadline : Option Instant)
  (waitOnce : List Battery → Option Duration → Program World IoError Ready)

/-- The first half of a turn: service, then wait. -/
def serviceAndWait : Program (List Battery × World) ServeError Ready := do
  serviceAll E rounds
  let now ← borrow fun _ => sysNow E
  borrow fun batteries => mapErr (fun source => ⟨none, source⟩)
    (waitOnce batteries (longestWait batteries deadline now))

/-- The second half of a turn: what to return, if anything. -/
def decideAfter (ready : Ready) : Program (List Battery × World) ServeError (Option Wakeup) :=
  match ready with
  | .wake => do
    serviceAll E rounds
    pure (some .wake)
  | .interrupted => do
    serviceAll E rounds
    pure (some .interrupted)
  | .device => do
    if ← borrow fun _ => reached E deadline then
      serviceAll E rounds
      pure (some .deadline)
    else pure none

def serveOnce : Program (List Battery × World) ServeError (Option Wakeup) := do
  let ready ← serviceAndWait E rounds deadline waitOnce
  decideAfter E rounds deadline ready

def serve : Program (List Battery × World) ServeError Wakeup :=
  loop (serveOnce E rounds deadline waitOnce) rounds

end Loop

/-- The descriptors `serve_all` polls: the batteries', then the wake descriptor. -/
def pollFds (batteries : List Battery) (wake : Option Fd) : List PollFd :=
  batteries.map (fun battery => ⟨battery.handle.fd, pollIn⟩) ++
    (wake.map fun fd => ⟨fd, pollIn⟩).toList

def serveAll (deadline : Option Instant) (wake : Option Fd) :
    Program (List Battery × World) ServeError Wakeup :=
  serve E rounds deadline fun batteries timeout =>
    wait E (pollFds batteries wake) wake.isSome timeout

def Battery.serveUntil (deadline : Instant) (wake : Option Fd) :
    Program (Battery × World) IoError Wakeup :=
  onOne (mapErr ServeError.source (serve E rounds (some deadline) fun batteries timeout =>
    match batteries with
    | [] => ofOutcome .panic
    | battery :: _ => do
      let device := battery.handle.fd
      let fds : List PollFd := [⟨device, pollIn⟩, ⟨wake.getD device, pollIn⟩]
      let watched := if wake.isSome then 2 else 1
      wait E (fds.take watched) wake.isSome timeout))

/-! ## Waiting for the power supply -/

def registrationPoll : Duration := fromMillis 20

def powerSupplyClass : Path := Utf8.utf8 "/sys/class/power_supply"

def Battery.powerSupply (self : Battery) : Program World IoError (Option Path) := do
  let listing ← sysReadDir E
  pure (findPowerSupplyIn powerSupplyClass listing self.uniq)

/-- One look at sysfs, and a stretch of serving after it. -/
def Battery.lookOnce (deadline : Option Instant) :
    Program (Battery × World) IoError (Option (Option Path)) := do
  service E rounds
  match ← borrow fun self => self.powerSupply E with
  | some path => pure (some (some path))
  | none => do
    let now ← borrow fun _ => sysNow E
    if deadline.any fun deadline => decide (deadline ≤ now) then pure (some none)
    else
      match checkedAdd now registrationPoll with
      | none => ofOutcome .panic
      | some next => do
        let _ ← serveUntil E rounds (deadline.elim next fun deadline => min deadline next) none
        pure none

def Battery.waitForPowerSupply (timeout : Duration) :
    Program (Battery × World) IoError (Option Path) := do
  let now ← borrow fun _ => sysNow E
  loop (lookOnce E rounds (checkedAdd now timeout)) rounds

end Operations

/-! ## One wait -/

/-- What a wait makes of the answer of its `poll()`. -/
def PollAnswer.outcome (answer : PollAnswer) (fds : List PollFd) (withWake : Bool) :
    Outcome IoError Ready :=
  match answer with
  | ready _ revents =>
    if withWake ∧ fds ≠ [] then readyOf (revents (fds.length - 1)) else .ok .device
  | fails .intr => .ok .interrupted
  | fails e => .err (.os e)

theorem pollUntil_eq (E : Env) (fds : List PollFd) (timeout : Option Duration) (w : World) :
    pollUntil E fds timeout w =
      ((match E.poll w.history fds (timeout.map timespecOf) with
        | .ready count revents => .ok (count, revents)
        | .fails e => .err (.os e)),
        w.next E (.poll fds (timeout.map timespecOf)
          (E.poll w.history fds (timeout.map timespecOf)))) := by
  unfold pollUntil
  rw [Program.bind_ok (show sysPoll E fds _ w = _ from rfl)]
  cases E.poll w.history fds (timeout.map timespecOf) <;> rfl

/-- **A wait is one `poll()`.** -/
theorem wait_eq (E : Env) (fds : List PollFd) (withWake : Bool) (timeout : Option Duration)
    (w : World) :
    wait E fds withWake timeout w =
      ((E.poll w.history fds (timeout.map timespecOf)).outcome fds withWake,
        w.next E (.poll fds (timeout.map timespecOf)
          (E.poll w.history fds (timeout.map timespecOf)))) := by
  have hatt : (attempt (pollUntil E fds timeout) : Program World IoError _) w = _ :=
    Program.attempt_apply _ _
  rw [pollUntil_eq] at hatt
  unfold wait
  cases hans : E.poll w.history fds (timeout.map timespecOf) with
  | ready count revents =>
    rw [hans] at hatt
    rw [Program.bind_ok hatt]
    cases withWake with
    | false => rfl
    | true =>
      cases hl : fds.getLast? with
      | none =>
        rw [List.getLast?_eq_none_iff] at hl
        subst hl
        rfl
      | some last =>
        have hne : fds ≠ [] := by
          rintro rfl
          cases hl
        simp only [if_true, PollAnswer.outcome, true_and, hne, ne_eq, not_false_iff]
        rfl
  | fails e =>
    rw [hans] at hatt
    rw [Program.bind_ok hatt]
    cases e <;> rfl

/-! ## The loop, battery by battery -/

section Guarantees

variable {E : Env} {rounds : Nat} {R : Battery × World → Battery × World → Prop}
  [IsPreorder (Battery × World) R]

/-- The calls of the loop itself: no reads and no writes. -/
def Call.Idle : Call → Prop
  | .read _ _ | .write _ _ _ => False
  | _ => True

/-- What a relation has to satisfy to hold for every battery that is served. -/
structure Kept (E : Env) (rounds : Nat) (R : Battery × World → Battery × World → Prop) : Prop where
  own : Guarantees (fun s s' => s'.1.handle.fd = s.1.handle.fd ∧ R s s') (Battery.service E rounds)
  other : ∀ x w y, y.handle.fd ≠ x.handle.fd → R (y, w) (y, (Battery.service E rounds (x, w)).2.2)
  idle : ∀ y w call, Genuine E w call → call.Idle → R (y, w) (y, w.next E call)

/-- What the loop behind `serve_all` needs of it. -/
structure KeptServing (E : Env) (rounds : Nat) (R : Battery × World → Battery × World → Prop) :
    Prop where
  own : Guarantees (fun s s' => s'.1.handle.fd = s.1.handle.fd ∧ R s s') (Battery.service E rounds)
  other : ∀ x w y, y.handle.fd ≠ x.handle.fd → R (y, w) (y, (Battery.service E rounds (x, w)).2.2)
  now : ∀ y w, R (y, w) (y, w.next E .now)
  poll : ∀ y w fds timeout, R (y, w) (y, w.next E (.poll fds timeout (E.poll w.history fds timeout)))

omit [IsPreorder (Battery × World) R] in
theorem Kept.serving (hk : Kept E rounds R) : KeptServing E rounds R where
  own := hk.own
  other := hk.other
  now y w := hk.idle y w .now trivial trivial
  poll y w _ _ := hk.idle y w _ rfl trivial

/-- The descriptor is the battery's key: no two batteries own the same. -/
abbrev EachBattery (R : Battery × World → Battery × World → Prop) :
    List Battery × World → List Battery × World → Prop :=
  Each (fun b => b.handle.fd) R

theorem serviceAll_each (hk : KeptServing E rounds R) :
    Guarantees (EachBattery R) (serviceAll E rounds) := by
  unfold serviceAll
  refine Program.guarantees_tryForEach (fun index => ?_) ?_ 0
  · exact Program.guarantees_mapErr hk.own
  · intro index x w y hne
    exact hk.other x w y hne

theorem serve_each (hk : KeptServing E rounds R) (deadline : Option Instant)
    {waitOnce : List Battery → Option Duration → Program World IoError Ready}
    (hwait : ∀ batteries timeout w y, R (y, w) (y, (waitOnce batteries timeout w).2)) :
    Guarantees (EachBattery R) (serve E rounds deadline waitOnce) := by
  have hall := serviceAll_each hk
  refine Program.guarantees_loop (Program.guarantees_bind ?_ fun ready => ?_) rounds
  · refine Program.guarantees_bind hall fun _ => Program.guarantees_bind ?_ fun now => ?_
    · exact Program.guarantees_each_borrow fun _ w y => hk.now y w
    · exact Program.guarantees_each_borrow fun batteries w y => hwait batteries _ w y
  · cases ready with
    | wake => exact Program.guarantees_bind hall fun _ => Program.guarantees_pure _
    | interrupted => exact Program.guarantees_bind hall fun _ => Program.guarantees_pure _
    | device =>
      refine Program.guarantees_bind ?_ fun past => ?_
      · apply Program.guarantees_each_borrow
        intro _ w y
        cases deadline with
        | none => exact refl_of R _
        | some deadline => exact hk.now y w
      · split
        · exact Program.guarantees_bind hall fun _ => Program.guarantees_pure _
        · exact Program.guarantees_pure _

omit [IsPreorder (Battery × World) R] in
theorem wait_kept (hk : KeptServing E rounds R) (fds : List PollFd) (withWake : Bool)
    (timeout : Option Duration) (w : World) (y : Battery) :
    R (y, w) (y, (wait E fds withWake timeout w).2) := by
  rw [wait_eq]
  exact hk.poll y w _ _

/-- **What a whole `serve_all` keeps**, for every battery of the slice. -/
theorem serveAll_each (hk : KeptServing E rounds R) (deadline : Option Instant) (wake : Option Fd) :
    Guarantees (EachBattery R) (serveAll E rounds deadline wake) :=
  serve_each hk deadline fun _ _ w y => wait_kept hk _ _ _ w y

/-- **What a whole `serve_until` keeps.** -/
theorem serveUntil_keeps (hk : KeptServing E rounds R) (deadline : Instant) (wake : Option Fd) :
    Guarantees R (Battery.serveUntil E rounds deadline wake) := by
  refine Program.guarantees_onOne (Program.guarantees_mapErr (serve_each hk _ ?_))
  intro batteries timeout w y
  cases batteries with
  | nil => exact refl_of R _
  | cons battery rest => exact wait_kept hk _ _ _ w y

theorem lookOnce_keeps (hk : Kept E rounds R) (deadline : Option Instant) :
    Guarantees R (Battery.lookOnce E rounds deadline) := by
  have hservice : Guarantees R (Battery.service E rounds) := fun s => (hk.own s).2
  have hlook : Guarantees R (borrow fun self => self.powerSupply E) :=
    Program.guarantees_borrow fun b w => hk.idle b w _ rfl trivial
  have hnow : Guarantees R
      (borrow fun _ => sysNow E : Program (Battery × World) IoError Instant) :=
    Program.guarantees_borrow fun b w => hk.idle b w .now trivial trivial
  refine Program.guarantees_bind hservice fun _ => Program.guarantees_bind hlook fun found => ?_
  cases found with
  | some path => exact Program.guarantees_pure _
  | none =>
    apply Program.guarantees_bind hnow
    intro now
    split
    · exact Program.guarantees_pure _
    · split
      · exact Program.guarantees_ofOutcome _
      · exact Program.guarantees_bind (serveUntil_keeps hk.serving _ _)
          fun _ => Program.guarantees_pure _

/-- **What a whole `wait_for_power_supply` keeps.** -/
theorem waitForPowerSupply_keeps (hk : Kept E rounds R) (timeout : Duration) :
    Guarantees R (Battery.waitForPowerSupply E rounds timeout) := by
  refine Program.guarantees_bind ?_ fun now => ?_
  · exact Program.guarantees_borrow fun b w => hk.idle b w .now trivial trivial
  · exact Program.guarantees_loop (lookOnce_keeps hk _) rounds

end Guarantees

/-! ## The loop as a whole -/

section Whole

variable {E : Env} {rounds : Nat} {T : List Battery × World → List Battery × World → Prop}
  [IsPreorder (List Battery × World) T]

/-- What servicing the slice and the calls of the loop itself guarantee, the
loop does. -/
theorem serve_guarantees (hall : Guarantees T (serviceAll E rounds))
    (hidle : ∀ bs w call, Genuine E w call → call.Idle → T (bs, w) (bs, w.next E call))
    (deadline : Option Instant)
    {waitOnce : List Battery → Option Duration → Program World IoError Ready}
    (hwait : ∀ bs timeout w, T (bs, w) (bs, (waitOnce bs timeout w).2)) :
    Guarantees T (serve E rounds deadline waitOnce) := by
  have hnow (bs : List Battery) (w : World) : T (bs, w) (bs, w.next E .now) :=
    hidle bs w .now trivial trivial
  refine Program.guarantees_loop (Program.guarantees_bind ?_ fun ready => ?_) rounds
  · refine Program.guarantees_bind hall fun _ => Program.guarantees_bind ?_ fun now => ?_
    · exact Program.guarantees_borrow hnow
    · exact Program.guarantees_borrow fun bs w => hwait bs _ w
  · cases ready with
    | wake => exact Program.guarantees_bind hall fun _ => Program.guarantees_pure _
    | interrupted => exact Program.guarantees_bind hall fun _ => Program.guarantees_pure _
    | device =>
      refine Program.guarantees_bind (Program.guarantees_borrow ?_) fun past => ?_
      · intro bs w
        cases deadline with
        | none => exact refl_of T _
        | some deadline => exact hnow bs w
      · split
        · exact Program.guarantees_bind hall fun _ => Program.guarantees_pure _
        · exact Program.guarantees_pure _

theorem serveAll_guarantees (hall : Guarantees T (serviceAll E rounds))
    (hidle : ∀ bs w call, Genuine E w call → call.Idle → T (bs, w) (bs, w.next E call))
    (deadline : Option Instant) (wake : Option Fd) :
    Guarantees T (serveAll E rounds deadline wake) := by
  refine serve_guarantees hall hidle deadline fun bs timeout w => ?_
  rw [wait_eq]
  exact hidle bs w _ rfl trivial

/-- What `serve_until` guarantees of a slice of its one battery. -/
theorem serveUntil_guarantees (hall : Guarantees T (serviceAll E rounds))
    (hidle : ∀ bs w call, Genuine E w call → call.Idle → T (bs, w) (bs, w.next E call))
    (deadline : Instant) (wake : Option Fd) (b : Battery) (w : World) :
    ∃ bs, T ([b], w) (bs, (Battery.serveUntil E rounds deadline wake (b, w)).2.2) ∧
      (Battery.serveUntil E rounds deadline wake (b, w)).2.1 = bs.headD b := by
  refine ⟨_, Program.guarantees_mapErr (g := ServeError.source)
    (serve_guarantees hall hidle (some deadline) ?_) ([b], w), rfl⟩
  intro bs timeout w
  cases bs with
  | nil => exact refl_of T _
  | cons battery rest =>
    simp only [wait_eq]
    exact hidle _ w _ rfl trivial

end Whole

/-- What the parts of `wait_for_power_supply` guarantee, it does. -/
theorem waitForPowerSupply_guarantees {E : Env} {rounds : Nat}
    {R : Battery × World → Battery × World → Prop} [IsPreorder (Battery × World) R]
    (hservice : Guarantees R (Battery.service E rounds))
    (hidle : ∀ b w call, Genuine E w call → call.Idle → R (b, w) (b, w.next E call))
    (hserve : ∀ deadline wake, Guarantees R (Battery.serveUntil E rounds deadline wake))
    (timeout : Duration) : Guarantees R (Battery.waitForPowerSupply E rounds timeout) := by
  have hnow : Guarantees R
      (borrow fun _ => sysNow E : Program (Battery × World) IoError Instant) :=
    Program.guarantees_borrow fun b w => hidle b w .now trivial trivial
  have hlook : Guarantees R (borrow fun self => self.powerSupply E) :=
    Program.guarantees_borrow fun b w => hidle b w _ rfl trivial
  refine Program.guarantees_bind hnow fun now => Program.guarantees_loop ?_ rounds
  refine Program.guarantees_bind hservice fun _ => Program.guarantees_bind hlook fun found => ?_
  cases found with
  | some path => exact Program.guarantees_pure _
  | none =>
    apply Program.guarantees_bind hnow
    intro now
    split
    · exact Program.guarantees_pure _
    · split
      · exact Program.guarantees_ofOutcome _
      · exact Program.guarantees_bind (hserve _ _) fun _ => Program.guarantees_pure _

end UhidBattery
