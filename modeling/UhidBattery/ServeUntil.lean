import UhidBattery.Turns

/-!
# `serve_until` is `serve_all` for one device

The two wait in their own ways: a pair whose second slot may be left out, and a
list with one slot for each battery and one for the wake descriptor.

* `waitOne_eq`: on one battery both wait alike.
* `serveUntil_eq_serveAll`: so the whole calls agree, poll by poll.
-/

namespace UhidBattery

open Program (Outcome Turn loop borrow mapErr onOne ofOutcome)

section Waits

variable (E : Env)

/-- How `serve_until` waits. -/
def waitOne (wake : Option Fd) (batteries : List Battery) (timeout : Option Duration) :
    Program World IoError Ready :=
  match batteries with
  | [] => ofOutcome .panic
  | battery :: _ => do
    let device := battery.handle.fd
    let fds : List PollFd := [⟨device, pollIn⟩, ⟨wake.getD device, pollIn⟩]
    let watched := if wake.isSome then 2 else 1
    wait E (fds.take watched) wake.isSome timeout

/-- On one battery both wait alike. -/
theorem waitOne_eq (wake : Option Fd) (b : Battery) :
    waitOne E wake [b] = waitAll E wake [b] := by
  cases wake <;> rfl

variable (rounds : Nat) (deadline : Option Instant)

/-- A turn depends on the wait only for the batteries it comes to wait with. -/
theorem serveOnce_congr {waitOnce waitOnce' : List Battery → Option Duration →
    Program World IoError Ready} {s : List Battery × World}
    (h : ∀ p, Pass E rounds s p → waitOnce p.1 = waitOnce' p.1) :
    serveOnce E rounds deadline waitOnce s = serveOnce E rounds deadline waitOnce' s := by
  have hwait : serviceAndWait E rounds deadline waitOnce s =
      serviceAndWait E rounds deadline waitOnce' s := by
    rcases hall : serviceAll E rounds s with ⟨o, p⟩
    cases o with
    | ok u => rw [serviceAndWait_eq hall, serviceAndWait_eq hall, h p (serviceAll_eq_ok_iff.mp hall)]
    | err e => exact (Program.bind_err hall).trans (Program.bind_err hall).symm
    | panic => exact (Program.bind_panic hall).trans (Program.bind_panic hall).symm
    | pending => exact (Program.bind_pending hall).trans (Program.bind_pending hall).symm
  unfold serveOnce
  rw [Program.bind_apply, Program.bind_apply, hwait]

/-- A pass over one battery leaves one. -/
theorem Pass.one {b : Battery} {w : World} {p : List Battery × World}
    (h : Pass E rounds ([b], w) p) : ∃ b', p.1 = [b'] :=
  List.length_eq_one_iff.mp h.length_eq

theorem serveUntil_loop (wake : Option Fd) (b : Battery) (w : World) :
    serve E rounds deadline (waitOne E wake) ([b], w) = serveAll E rounds deadline wake ([b], w) := by
  unfold serveAll serve
  apply Program.loop_congr (P := fun s => ∃ b, s.1 = [b])
  · rintro ⟨batteries, w⟩ ⟨b, rfl⟩
    apply serveOnce_congr
    intro p hp
    obtain ⟨b', hb⟩ := hp.one
    rw [hb]
    exact waitOne_eq E wake b'
  · rintro ⟨batteries, w⟩ s' ⟨b, rfl⟩ hturn
    obtain ⟨p, hp, -, -, rfl⟩ := turn_iff.mp hturn
    exact hp.one
  · exact ⟨b, rfl⟩

end Waits

/-- **`serve_until` is `serve_all`** on the slice that holds the battery alone: the
same calls with the same outcomes, the same result with the error's index
dropped, and the same battery. -/
theorem serveUntil_eq_serveAll (E : Env) (rounds : Nat) (deadline : Instant) (wake : Option Fd)
    (b : Battery) (w : World) :
    ∃ o b' w', serveAll E rounds (some deadline) wake ([b], w) = (o, ([b'], w')) ∧
      Battery.serveUntil E rounds deadline wake (b, w) = (o.mapErr ServeError.source, (b', w')) := by
  have hone : serve E rounds (some deadline) (waitOne E wake) ([b], w) =
      serveAll E rounds (some deadline) wake ([b], w) :=
    serveUntil_loop E rounds (some deadline) wake b w
  have heach := serveAll_each (faithful_kept E rounds).serving (some deadline) wake ([b], w)
    (List.nodup_singleton _)
  rcases hall : serveAll E rounds (some deadline) wake ([b], w) with ⟨o, batteries, w'⟩
  rw [hall] at hone heach
  obtain ⟨b', rfl⟩ := List.length_eq_one_iff.mp heach.length_eq.symm
  refine ⟨o, b', w', rfl, ?_⟩
  change onOne (mapErr ServeError.source (serve E rounds (some deadline) (waitOne E wake))) (b, w) = _
  rw [onOne, Program.mapErr_apply, hone]
  rfl

end UhidBattery
