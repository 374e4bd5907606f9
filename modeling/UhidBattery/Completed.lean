import UhidBattery.Serve
import UhidBattery.Lib.Success

/-!
# Calls that succeed

A relation that a `service` that succeeds leaves behind, and that what the crate
does for other batteries and between the services does not break, is what every
call that returns `Ok` leaves behind.

* `serveAll_ensures`, `serveUntil_ensures`, `waitForPowerSupply_ensures`: the calls
  that serve.
* `Completes.ensures`: all of them at once, for the battery in question.
-/

namespace UhidBattery

open Program (Ensures loop borrow mapErr)

/-- What a relation has to satisfy to hold of every battery that is served with success. -/
structure KeptOk (E : Env) (rounds : Nat) (R : Battery × World → Battery × World → Prop) :
    Prop where
  own : Ensures (fun s s' => s'.1.handle.fd = s.1.handle.fd ∧ R s s') (Battery.service E rounds)
  other : ∀ x w y, y.handle.fd ≠ x.handle.fd → R (y, w) (y, (Battery.service E rounds (x, w)).2.2)
  idle : ∀ y w call, Genuine E w call → call.Idle → R (y, w) (y, w.next E call)

section Ensures

variable {E : Env} {rounds : Nat} {R : Battery × World → Battery × World → Prop}
  [IsPreorder (Battery × World) R]

theorem serviceAll_ensures (hk : KeptOk E rounds R) :
    Ensures (EachBattery R) (serviceAll E rounds) :=
  Program.ensures_tryForEach hk.own hk.other 0

theorem serve_ensures (hk : KeptOk E rounds R) (deadline : Option Instant)
    {waitOnce : List Battery → Option Duration → Program World IoError Ready}
    (hwait : ∀ batteries timeout w y, R (y, w) (y, (waitOnce batteries timeout w).2)) :
    Ensures (EachBattery R) (serve E rounds deadline waitOnce) := by
  have hall := serviceAll_ensures hk
  have hlast (wakeup : Wakeup) : Ensures (EachBattery R) (serviceAll E rounds >>= fun _ =>
      pure (some wakeup) : Program (List Battery × World) ServeError (Option Wakeup)) :=
    Program.ensures_bind hall fun _ => Program.ensures_pure _
  have hnow (w : World) (y : Battery) : R (y, w) (y, w.next E .now) :=
    hk.idle y w .now trivial trivial
  refine Program.ensures_loop (Program.ensures_bind ?_ fun ready => ?_) rounds
  · refine Program.ensures_bind hall fun _ => Program.ensures_bind ?_ fun now => ?_
    · exact (Program.guarantees_each_borrow fun _ w y => hnow w y).ensures
    · refine Program.Guarantees.ensures ?_
      exact Program.guarantees_each_borrow fun batteries w y => hwait batteries _ w y
  · cases ready with
    | wake => exact hlast .wake
    | interrupted => exact hlast .interrupted
    | device =>
      refine Program.ensures_bind (Program.guarantees_each_borrow ?_).ensures fun past => ?_
      · intro _ w y
        cases deadline with
        | none => exact refl_of R _
        | some deadline => exact hnow w y
      · split
        · exact hlast .deadline
        · exact Program.ensures_pure _

omit [IsPreorder (Battery × World) R] in
theorem wait_ensures (hk : KeptOk E rounds R) (fds : List PollFd) (withWake : Bool)
    (timeout : Option Duration) (w : World) (y : Battery) :
    R (y, w) (y, (wait E fds withWake timeout w).2) := by
  rw [wait_eq]
  exact hk.idle y w _ rfl trivial

/-- **A `serve_all` that succeeds**, for every battery of the slice. -/
theorem serveAll_ensures (hk : KeptOk E rounds R) (deadline : Option Instant) (wake : Option Fd) :
    Ensures (EachBattery R) (serveAll E rounds deadline wake) :=
  serve_ensures hk deadline fun _ _ w y => wait_ensures hk _ _ _ w y

/-- **A `serve_until` that succeeds.** -/
theorem serveUntil_ensures (hk : KeptOk E rounds R) (deadline : Instant) (wake : Option Fd) :
    Ensures R (Battery.serveUntil E rounds deadline wake) := by
  refine Program.ensures_onOne (Program.ensures_mapErr (serve_ensures hk _ ?_))
  intro batteries timeout w y
  cases batteries with
  | nil => exact refl_of R _
  | cons battery rest => exact wait_ensures hk _ _ _ w y

omit [IsPreorder (Battery × World) R] in
theorem service_ensures (hk : KeptOk E rounds R) : Ensures R (Battery.service E rounds) :=
  fun s a s' h => (hk.own s a s' h).2

theorem lookOnce_ensures (hk : KeptOk E rounds R) (deadline : Option Instant) :
    Ensures R (Battery.lookOnce E rounds deadline) := by
  refine Program.ensures_bind (service_ensures hk) fun _ =>
    Program.ensures_bind ?_ fun found => ?_
  · refine Program.Guarantees.ensures ?_
    exact Program.guarantees_borrow fun b w => hk.idle b w _ rfl trivial
  · cases found with
    | some path => exact Program.ensures_pure _
    | none =>
      refine Program.ensures_bind ?_ fun now => ?_
      · refine Program.Guarantees.ensures ?_
        exact Program.guarantees_borrow fun b w => hk.idle b w .now trivial trivial
      · split
        · exact Program.ensures_pure _
        · split
          · exact Program.ensures_ofOutcome _
          · exact Program.ensures_bind (serveUntil_ensures hk _ _)
              fun _ => Program.ensures_pure _

/-- **A `wait_for_power_supply` that succeeds.** -/
theorem waitForPowerSupply_ensures (hk : KeptOk E rounds R) (timeout : Duration) :
    Ensures R (Battery.waitForPowerSupply E rounds timeout) := by
  refine Program.ensures_bind ?_ fun now => ?_
  · refine Program.Guarantees.ensures ?_
    exact Program.guarantees_borrow fun b w => hk.idle b w .now trivial trivial
  · exact Program.ensures_loop (lookOnce_ensures hk _) rounds

end Ensures

/-! ## All of them -/

/-- A call that services the battery, alone or in a slice, and returns `Ok`. -/
inductive Completes (E : Env) (b : Battery) (w : World) (b' : Battery) (w' : World) : Prop where
  | service {rounds : Nat} (h : Battery.service E rounds (b, w) = (.ok (), (b', w'))) :
      Completes E b w b' w'
  | serveUntil {rounds : Nat} {deadline : Instant} {wake : Option Fd} {wakeup : Wakeup}
      (h : Battery.serveUntil E rounds deadline wake (b, w) = (.ok wakeup, (b', w'))) :
      Completes E b w b' w'
  | waitForPowerSupply {rounds : Nat} {timeout : Duration} {found : Option Path}
      (h : Battery.waitForPowerSupply E rounds timeout (b, w) = (.ok found, (b', w'))) :
      Completes E b w b' w'
  | serveAll {rounds : Nat} {deadline : Option Instant} {wake : Option Fd} {wakeup : Wakeup}
      {bs bs' : List Battery} {i : Nat} (hown : (bs.map fun b => b.handle.fd).Nodup)
      (h : UhidBattery.serveAll E rounds deadline wake (bs, w) = (.ok wakeup, (bs', w')))
      (hb : bs[i]? = some b) (hb' : bs'[i]? = some b') : Completes E b w b' w'

/-- **What a call that succeeds leaves behind.** -/
theorem Completes.ensures {E : Env} {R : Battery × World → Battery × World → Prop}
    [IsPreorder (Battery × World) R] {b b' : Battery} {w w' : World}
    (h : Completes E b w b' w') (hk : ∀ rounds, KeptOk E rounds R) : R (b, w) (b', w') := by
  cases h with
  | service h => exact service_ensures (hk _) _ _ _ h
  | serveUntil h => exact serveUntil_ensures (hk _) _ _ _ _ _ h
  | waitForPowerSupply h => exact waitForPowerSupply_ensures (hk _) _ _ _ _ h
  | serveAll hown h hb hb' =>
    have hall := serveAll_ensures (hk _) _ _ _ _ _ h hown
    obtain ⟨hi, rfl⟩ := List.getElem?_eq_some_iff.mp hb
    obtain ⟨hi', rfl⟩ := List.getElem?_eq_some_iff.mp hb'
    exact (hall.get hi hi').2

end UhidBattery
