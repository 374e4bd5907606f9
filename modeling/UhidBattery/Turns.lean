import UhidBattery.Answers
import UhidBattery.Owner

/-!
# The turns of `serve_all`

A turn services every battery, polls, and decides.  What a poll said is read off
its answer; a turn that goes on is a `QuietTurn`.

* `serveOnce_cases`: one turn, by what its poll said.
* `turn_iff`: the turns that go round again.
-/

namespace UhidBattery

open Record (ByteOrder)
open Program (Outcome EachOk Turn loop borrow)
open Relation (ReflTransGen)

/-! ## What a poll said -/

/-- The flags of the wake descriptor, which comes after the `n` batteries. -/
def PollAnswer.wakeFlags (answer : PollAnswer) (wake : Option Fd) (n : Nat) : Option PollFlags :=
  match answer with
  | ready _ revents => if wake.isSome then some (revents n) else none
  | fails _ => none

/-- `IN` is set on the wake descriptor, whatever else is. -/
def WakeReadable (wake : Option Fd) (n : Nat) (answer : PollAnswer) : Prop :=
  ∃ flags, answer.wakeFlags wake n = some flags ∧ contains flags pollIn = true

/-- `HUP`, `ERR` or `NVAL` is set on the wake descriptor, and `IN` is not. -/
def WakeBroken (wake : Option Fd) (n : Nat) (answer : PollAnswer) : Prop :=
  ∃ flags, answer.wakeFlags wake n = some flags ∧ contains flags pollIn = false ∧
    intersects flags (pollHup ||| pollErr ||| pollNval) = true

/-- The poll succeeded, and said nothing of the wake descriptor. -/
def Calm (wake : Option Fd) (n : Nat) (answer : PollAnswer) : Prop :=
  (∃ count revents, answer = .ready count revents) ∧ ¬ WakeReadable wake n answer ∧
    ¬ WakeBroken wake n answer

def wakeError : IoError := .custom .other "the wake descriptor is hung up, in error or not open"

theorem length_pollFds (batteries : List Battery) (wake : Option Fd) :
    (pollFds batteries wake).length = batteries.length + wake.toList.length := by
  cases wake <;> simp [pollFds]

section Verdict

variable (wake : Option Fd) (batteries : List Battery)

/-- What a wait makes of an answer that is no failure. -/
theorem outcome_ready (count : Nat) (revents : Nat → PollFlags) :
    (PollAnswer.ready count revents).outcome (pollFds batteries wake) wake.isSome =
      match (PollAnswer.ready count revents).wakeFlags wake batteries.length with
      | some flags => readyOf flags
      | none => .ok .device := by
  cases wake with
  | none => rfl
  | some fd =>
    have hne : pollFds batteries (some fd) ≠ [] := by simp [pollFds]
    have hlen : (pollFds batteries (some fd)).length - 1 = batteries.length := by
      rw [length_pollFds]
      rfl
    rw [PollAnswer.outcome, if_pos ⟨rfl, hne⟩, hlen]
    rfl

theorem calm_of_no_flags {n count : Nat} {revents : Nat → PollFlags}
    (hf : (PollAnswer.ready count revents).wakeFlags wake n = none) :
    Calm wake n (.ready count revents) := by
  refine ⟨⟨count, revents, rfl⟩, ?_, ?_⟩
  · rintro ⟨flags, h, -⟩
    rw [hf] at h
    cases h
  · rintro ⟨flags, h, -⟩
    rw [hf] at h
    cases h

theorem calm_of_flags {n count : Nat} {revents : Nat → PollFlags} {flags : PollFlags}
    (hf : (PollAnswer.ready count revents).wakeFlags wake n = some flags)
    (hin : ¬ contains flags pollIn = true)
    (hbad : ¬ intersects flags (pollHup ||| pollErr ||| pollNval) = true) :
    Calm wake n (.ready count revents) := by
  refine ⟨⟨count, revents, rfl⟩, ?_, ?_⟩
  · rintro ⟨flags', h, hin'⟩
    rw [hf, Option.some.injEq] at h
    exact hin (h ▸ hin')
  · rintro ⟨flags', h, -, hbad'⟩
    rw [hf, Option.some.injEq] at h
    exact hbad (h ▸ hbad')

/-- **The five things a poll may say.** -/
theorem PollAnswer.outcome_cases (answer : PollAnswer) :
    (answer.outcome (pollFds batteries wake) wake.isSome = .ok .wake ∧
      WakeReadable wake batteries.length answer) ∨
    (answer.outcome (pollFds batteries wake) wake.isSome = .ok .interrupted ∧
      answer = .fails .intr) ∨
    (answer.outcome (pollFds batteries wake) wake.isSome = .ok .device ∧
      Calm wake batteries.length answer) ∨
    (answer.outcome (pollFds batteries wake) wake.isSome = .err wakeError ∧
      WakeBroken wake batteries.length answer) ∨
    ∃ e, e ≠ .intr ∧ answer.outcome (pollFds batteries wake) wake.isSome = .err (.os e) ∧
      answer = .fails e := by
  cases answer with
  | fails e =>
    by_cases he : e = .intr
    · subst he
      exact Or.inr (Or.inl ⟨rfl, rfl⟩)
    · refine Or.inr (Or.inr (Or.inr (Or.inr ⟨e, he, ?_, rfl⟩)))
      cases e with
      | intr => exact absurd rfl he
      | again => rfl
      | other code => rfl
  | ready count revents =>
    rw [outcome_ready]
    cases hf : (PollAnswer.ready count revents).wakeFlags wake batteries.length with
    | none =>
      exact Or.inr (Or.inr (Or.inl ⟨rfl, calm_of_no_flags wake hf⟩))
    | some flags =>
      simp only [readyOf]
      by_cases hin : contains flags pollIn = true
      · rw [if_pos hin]
        exact Or.inl ⟨rfl, flags, hf, hin⟩
      · rw [if_neg hin]
        by_cases hbad : intersects flags (pollHup ||| pollErr ||| pollNval) = true
        · rw [if_pos hbad]
          exact Or.inr (Or.inr (Or.inr (Or.inl
            ⟨rfl, flags, hf, Bool.eq_false_of_not_eq_true hin, hbad⟩)))
        · rw [if_neg hbad]
          exact Or.inr (Or.inr (Or.inl ⟨rfl, calm_of_flags wake hf hin hbad⟩))

end Verdict

/-- Only a poll that is answered has flags. -/
theorem ready_of_wakeFlags {wake : Option Fd} {n : Nat} {answer : PollAnswer} {flags : PollFlags}
    (h : answer.wakeFlags wake n = some flags) : ∃ count revents, answer = .ready count revents := by
  cases answer with
  | ready count revents => exact ⟨count, revents, rfl⟩
  | fails e => cases h

theorem WakeReadable.ready {wake : Option Fd} {n : Nat} {answer : PollAnswer}
    (h : WakeReadable wake n answer) : ∃ count revents, answer = .ready count revents := by
  obtain ⟨flags, hf, -⟩ := h
  exact ready_of_wakeFlags hf

theorem WakeBroken.ready {wake : Option Fd} {n : Nat} {answer : PollAnswer}
    (h : WakeBroken wake n answer) : ∃ count revents, answer = .ready count revents := by
  obtain ⟨flags, hf, -⟩ := h
  exact ready_of_wakeFlags hf

theorem WakeReadable.outcome {wake : Option Fd} {batteries : List Battery} {answer : PollAnswer}
    (h : WakeReadable wake batteries.length answer) :
    answer.outcome (pollFds batteries wake) wake.isSome = .ok .wake := by
  obtain ⟨count, revents, rfl⟩ := h.ready
  obtain ⟨flags, hf, hin⟩ := h
  rw [outcome_ready, hf]
  exact if_pos hin

theorem WakeBroken.outcome {wake : Option Fd} {batteries : List Battery} {answer : PollAnswer}
    (h : WakeBroken wake batteries.length answer) :
    answer.outcome (pollFds batteries wake) wake.isSome = .err wakeError := by
  obtain ⟨count, revents, rfl⟩ := h.ready
  obtain ⟨flags, hf, hin, hbad⟩ := h
  rw [outcome_ready, hf]
  simp only [readyOf, hin, hbad, Bool.false_eq_true, if_false, if_true, wakeError]

theorem Calm.outcome {wake : Option Fd} {batteries : List Battery} {answer : PollAnswer}
    (h : Calm wake batteries.length answer) :
    answer.outcome (pollFds batteries wake) wake.isSome = .ok .device := by
  obtain ⟨⟨count, revents, rfl⟩, hr, hb⟩ := h
  rcases PollAnswer.outcome_cases wake batteries (.ready count revents) with
    ⟨-, h⟩ | ⟨-, h⟩ | ⟨h, -⟩ | ⟨-, h⟩ | ⟨e, -, -, h⟩
  · exact absurd h hr
  · cases h
  · exact h
  · exact absurd h hb
  · cases h

/-! ## One turn -/

section Turns

variable (E : Env) (rounds : Nat) (deadline : Option Instant) (wake : Option Fd)

/-- A complete pass: every battery serviced once, in order, with success. -/
def Pass (s s' : List Battery × World) : Prop :=
  EachOk (Battery.service E rounds) s.1 s.2 s'.1 s'.2

/-- The longest the poll after a pass may wait. -/
def pollTimeout (p : List Battery × World) : Option Timespec :=
  (longestWait p.1 deadline (E.time p.2.history)).map timespecOf

/-- The answer of the poll after a pass. -/
def pollAnswer (p : List Battery × World) : PollAnswer :=
  E.poll (p.2.next E .now).history (pollFds p.1 wake) (pollTimeout E deadline p)

/-- The system when the poll after a pass has returned. -/
def polled (p : List Battery × World) : World :=
  (p.2.next E .now).next E
    (.poll (pollFds p.1 wake) (pollTimeout E deadline p) (pollAnswer E deadline wake p))

/-- The clock read after the poll has reached the deadline. -/
def Expired (p : List Battery × World) : Prop :=
  ∃ d, deadline = some d ∧ d ≤ E.time (polled E deadline wake p).history

/-- The look at the clock that a deadline calls for. -/
def looked (w : World) : World := if deadline.isSome then w.next E .now else w

/-- Why the call ends after the poll, and where its last pass starts. -/
inductive Ends (p : List Battery × World) : Wakeup → World → Prop where
  | wake (h : WakeReadable wake p.1.length (pollAnswer E deadline wake p)) :
      Ends p .wake (polled E deadline wake p)
  | interrupted (h : pollAnswer E deadline wake p = .fails .intr) :
      Ends p .interrupted (polled E deadline wake p)
  | deadline (hc : Calm wake p.1.length (pollAnswer E deadline wake p))
      (h : Expired E deadline wake p) : Ends p .deadline ((polled E deadline wake p).next E .now)

/-- A turn after which the loop goes round again: a pass, a poll with nothing to
say of the wake descriptor, a deadline that is not reached. -/
def QuietTurn (s s' : List Battery × World) : Prop :=
  ∃ p, Pass E rounds s p ∧ Calm wake p.1.length (pollAnswer E deadline wake p) ∧
    ¬ Expired E deadline wake p ∧ s' = (p.1, looked E deadline (polled E deadline wake p))

/-- How `serve_all` waits. -/
abbrev waitAll (batteries : List Battery) (timeout : Option Duration) : Program World IoError Ready :=
  wait E (pollFds batteries wake) wake.isSome timeout

/-- One turn of `serve_all`. -/
abbrev serveAllOnce : Program (List Battery × World) ServeError (Option Wakeup) :=
  serveOnce E rounds deadline (waitAll E wake)

section Equations

variable {E rounds deadline wake} {s s' p : List Battery × World}

theorem pass_ran {xs xs' : List Battery} {w w' : World}
    (h : EachOk (Battery.service E rounds) xs w xs' w') : ∃ calls, Ran E w calls w' := by
  induction h with
  | nil => exact ⟨[], .nil _⟩
  | @cons x x' xs xs' s s₁ s' hx _ ih =>
    obtain ⟨calls, hran, -⟩ := service_spec E rounds x s
    obtain ⟨calls', hran'⟩ := ih
    rw [hx] at hran
    exact ⟨_, hran.append hran'⟩

theorem serviceAll_eq_ok_iff : serviceAll E rounds s = (.ok (), s') ↔ Pass E rounds s s' :=
  Program.tryForEach_eq_ok_iff

theorem wait_of_pass (p : List Battery × World) :
    waitAll E wake p.1 (longestWait p.1 deadline (E.time p.2.history)) (p.2.next E .now) =
      ((pollAnswer E deadline wake p).outcome (pollFds p.1 wake) wake.isSome,
        polled E deadline wake p) :=
  wait_eq E (pollFds p.1 wake) wake.isSome _ (p.2.next E .now)

/-- After a complete pass the clock is looked at, and the wait is entered. -/
theorem serviceAndWait_eq {waitOnce : List Battery → Option Duration → Program World IoError Ready}
    (h : serviceAll E rounds s = (.ok (), p)) :
    serviceAndWait E rounds deadline waitOnce s =
      let left := waitOnce p.1 (longestWait p.1 deadline (E.time p.2.history)) (p.2.next E .now)
      (left.1.mapErr fun source => ⟨none, source⟩, (p.1, left.2)) := by
  have hnow : (borrow fun _ => sysNow E : Program (List Battery × World) ServeError Instant) p =
      (.ok (E.time p.2.history), (p.1, p.2.next E .now)) := rfl
  unfold serviceAndWait
  rw [Program.bind_ok h, Program.bind_ok hnow]
  rfl

theorem serviceAndWait_of_pass (h : Pass E rounds s p) :
    serviceAndWait E rounds deadline (waitAll E wake) s =
      (((pollAnswer E deadline wake p).outcome (pollFds p.1 wake) wake.isSome).mapErr
          fun source => ⟨none, source⟩, (p.1, polled E deadline wake p)) := by
  rw [serviceAndWait_eq (serviceAll_eq_ok_iff.mpr h), wait_of_pass]

/-- The clock has reached the deadline. -/
def PastDeadline (E : Env) (deadline : Option Instant) (w : World) : Prop :=
  ∃ d, deadline = some d ∧ d ≤ E.time w.history

/-- The devices or the timeout ended the wait, at or after the deadline. -/
theorem decideAfter_of_past {bs : List Battery} {w : World} (h : PastDeadline E deadline w) :
    decideAfter E rounds deadline .device (bs, w) =
      (serviceAll E rounds >>= fun _ => pure (some .deadline)) (bs, w.next E .now) := by
  obtain ⟨d, rfl, hd⟩ := h
  have hreached : (borrow fun _ => reached E (some d) :
      Program (List Battery × World) ServeError Bool) (bs, w) = (.ok true, (bs, w.next E .now)) := by
    have htime := decide_eq_true hd
    rw [← htime]
    rfl
  exact Program.bind_ok hreached

/-- The devices or the timeout ended the wait, before the deadline. -/
theorem decideAfter_of_not_past {bs : List Battery} {w : World}
    (h : ¬ PastDeadline E deadline w) :
    decideAfter E rounds deadline .device (bs, w) = (.ok none, (bs, looked E deadline w)) := by
  cases deadline with
  | none => rfl
  | some d =>
    have hd : ¬ d ≤ E.time w.history := fun hd => h ⟨d, rfl, hd⟩
    have hreached : (borrow fun _ => reached E (some d) :
        Program (List Battery × World) ServeError Bool) (bs, w) =
          (.ok false, (bs, w.next E .now)) := by
      have htime := decide_eq_false hd
      rw [← htime]
      rfl
    exact Program.bind_ok hreached

/-- One turn after a complete pass, by what its poll said. -/
theorem serveOnce_of_pass (h : Pass E rounds s p) :
    serveAllOnce E rounds deadline wake s =
      match (pollAnswer E deadline wake p).outcome (pollFds p.1 wake) wake.isSome with
      | .ok ready => decideAfter E rounds deadline ready (p.1, polled E deadline wake p)
      | .err e => (.err ⟨none, e⟩, (p.1, polled E deadline wake p))
      | .panic => (.panic, (p.1, polled E deadline wake p))
      | .pending => (.pending, (p.1, polled E deadline wake p)) := by
  have hwait : serviceAndWait E rounds deadline (waitAll E wake) s = _ := serviceAndWait_of_pass h
  unfold serveAllOnce serveOnce
  cases ho : (pollAnswer E deadline wake p).outcome (pollFds p.1 wake) wake.isSome with
  | ok ready =>
    rw [ho] at hwait
    exact Program.bind_ok hwait
  | err e =>
    rw [ho] at hwait
    exact Program.bind_err hwait
  | panic =>
    rw [ho] at hwait
    exact Program.bind_panic hwait
  | pending =>
    rw [ho] at hwait
    exact Program.bind_pending hwait

theorem serveOnce_of_failed {e : ServeError} (h : serviceAll E rounds s = (.err e, s')) :
    serveAllOnce E rounds deadline wake s = (.err e, s') :=
  Program.bind_err (Program.bind_err h)

/-- The last pass of a call that ends. -/
theorem serveOnce_of_ends {wakeup : Wakeup} {w : World} (h : Pass E rounds s p)
    (he : Ends E deadline wake p wakeup w) :
    serveAllOnce E rounds deadline wake s =
      (serviceAll E rounds >>= fun _ => pure (some wakeup)) (p.1, w) := by
  rw [serveOnce_of_pass h]
  cases he with
  | wake h =>
    rw [h.outcome]
    rfl
  | interrupted h =>
    rw [h]
    rfl
  | deadline hc h =>
    rw [hc.outcome]
    exact decideAfter_of_past h

theorem serveOnce_of_calm (h : Pass E rounds s p)
    (hc : Calm wake p.1.length (pollAnswer E deadline wake p)) (he : ¬ Expired E deadline wake p) :
    serveAllOnce E rounds deadline wake s =
      (.ok none, (p.1, looked E deadline (polled E deadline wake p))) := by
  rw [serveOnce_of_pass h, hc.outcome]
  exact decideAfter_of_not_past he

theorem serveOnce_of_broken (h : Pass E rounds s p)
    (hb : WakeBroken wake p.1.length (pollAnswer E deadline wake p)) :
    serveAllOnce E rounds deadline wake s =
      (.err ⟨none, wakeError⟩, (p.1, polled E deadline wake p)) := by
  rw [serveOnce_of_pass h, hb.outcome]

theorem serveOnce_of_refused {e : Errno} (h : Pass E rounds s p) (he : e ≠ .intr)
    (ha : pollAnswer E deadline wake p = .fails e) :
    serveAllOnce E rounds deadline wake s =
      (.err ⟨none, .os e⟩, (p.1, polled E deadline wake p)) := by
  rw [serveOnce_of_pass h, ha]
  cases e with
  | intr => exact absurd rfl he
  | again => rfl
  | other code => rfl

/-- **What may follow a pass**, and what the turn comes to. -/
theorem serveOnce_cases (h : Pass E rounds s p) :
    (∃ wakeup w, Ends E deadline wake p wakeup w ∧ serveAllOnce E rounds deadline wake s =
      (serviceAll E rounds >>= fun _ => pure (some wakeup)) (p.1, w)) ∨
    (Calm wake p.1.length (pollAnswer E deadline wake p) ∧ ¬ Expired E deadline wake p ∧
      serveAllOnce E rounds deadline wake s =
        (.ok none, (p.1, looked E deadline (polled E deadline wake p)))) ∨
    ∃ e, ((WakeBroken wake p.1.length (pollAnswer E deadline wake p) ∧ e = ⟨none, wakeError⟩) ∨
        ∃ errno, errno ≠ .intr ∧ pollAnswer E deadline wake p = .fails errno ∧
          e = ⟨none, .os errno⟩) ∧
      serveAllOnce E rounds deadline wake s = (.err e, (p.1, polled E deadline wake p)) := by
  rcases PollAnswer.outcome_cases wake p.1 (pollAnswer E deadline wake p) with
    ⟨-, hr⟩ | ⟨-, hi⟩ | ⟨-, hc⟩ | ⟨-, hb⟩ | ⟨e, he, -, ha⟩
  · exact Or.inl ⟨_, _, .wake hr, serveOnce_of_ends h (.wake hr)⟩
  · exact Or.inl ⟨_, _, .interrupted hi, serveOnce_of_ends h (.interrupted hi)⟩
  · by_cases hx : Expired E deadline wake p
    · exact Or.inl ⟨_, _, .deadline hc hx, serveOnce_of_ends h (.deadline hc hx)⟩
    · exact Or.inr (Or.inl ⟨hc, hx, serveOnce_of_calm h hc hx⟩)
  · exact Or.inr (Or.inr ⟨_, Or.inl ⟨hb, rfl⟩, serveOnce_of_broken h hb⟩)
  · exact Or.inr (Or.inr ⟨_, Or.inr ⟨e, he, ha, rfl⟩, serveOnce_of_refused h he ha⟩)

/-! ## What a turn that was made says -/

theorem pass_of_ok {r : Option Wakeup} (h : serveAllOnce E rounds deadline wake s = (.ok r, s')) :
    ∃ p, Pass E rounds s p := by
  obtain ⟨ready, s₁, hwait, -⟩ := Program.bind_eq_ok_iff.mp h
  obtain ⟨u, p, hall, -⟩ := Program.bind_eq_ok_iff.mp hwait
  exact ⟨p, serviceAll_eq_ok_iff.mp hall⟩

theorem pass_of_err {e : ServeError} (h : serveAllOnce E rounds deadline wake s = (.err e, s')) :
    serviceAll E rounds s = (.err e, s') ∨ ∃ p, Pass E rounds s p := by
  rcases Program.bind_eq_err_iff.mp h with hwait | ⟨ready, s₁, hwait, -⟩
  · rcases Program.bind_eq_err_iff.mp hwait with hall | ⟨u, p, hall, -⟩
    · exact Or.inl hall
    · exact Or.inr ⟨p, serviceAll_eq_ok_iff.mp hall⟩
  · obtain ⟨u, p, hall, -⟩ := Program.bind_eq_ok_iff.mp hwait
    exact Or.inr ⟨p, serviceAll_eq_ok_iff.mp hall⟩

/-- **A turn goes round again** exactly when it is quiet. -/
theorem turn_iff : Turn (serveAllOnce E rounds deadline wake) s s' ↔
    QuietTurn E rounds deadline wake s s' := by
  constructor
  · intro h
    obtain ⟨p, hp⟩ := pass_of_ok h
    rcases serveOnce_cases hp with ⟨wakeup, w, -, heq⟩ | ⟨hc, hx, heq⟩ | ⟨e, -, heq⟩
    · obtain ⟨u, s₁, -, hsome⟩ := Program.bind_eq_ok_iff.mp (heq.symm.trans h)
      cases hsome
    · exact ⟨p, hp, hc, hx, (Prod.mk.inj (heq.symm.trans h)).2.symm⟩
    · cases heq.symm.trans h
  · rintro ⟨p, hp, hc, hx, rfl⟩
    exact serveOnce_of_calm hp hc hx

/-- A turn that ends the call ends it for a reason, after one more pass. -/
theorem serveOnce_eq_some {wakeup : Wakeup}
    (h : serveAllOnce E rounds deadline wake s = (.ok (some wakeup), s')) :
    ∃ p w, Pass E rounds s p ∧ Ends E deadline wake p wakeup w ∧ Pass E rounds (p.1, w) s' := by
  obtain ⟨p, hp⟩ := pass_of_ok h
  rcases serveOnce_cases hp with ⟨wakeup', w, he, heq⟩ | ⟨-, -, heq⟩ | ⟨e, -, heq⟩
  · obtain ⟨u, s₁, hall, hsome⟩ := Program.bind_eq_ok_iff.mp (heq.symm.trans h)
    cases hsome
    exact ⟨p, w, hp, he, serviceAll_eq_ok_iff.mp hall⟩
  · cases heq.symm.trans h
  · cases heq.symm.trans h

/-- A turn that fails: a pass failed, the wait was refused, or the wake
descriptor is broken. -/
theorem serveOnce_eq_err {e : ServeError}
    (h : serveAllOnce E rounds deadline wake s = (.err e, s')) :
    serviceAll E rounds s = (.err e, s') ∨ ∃ p, Pass E rounds s p ∧
      ((∃ wakeup w, Ends E deadline wake p wakeup w ∧
          serviceAll E rounds (p.1, w) = (.err e, s')) ∨
        (s' = (p.1, polled E deadline wake p) ∧
          ((WakeBroken wake p.1.length (pollAnswer E deadline wake p) ∧ e = ⟨none, wakeError⟩) ∨
            ∃ errno, errno ≠ .intr ∧ pollAnswer E deadline wake p = .fails errno ∧
              e = ⟨none, .os errno⟩))) := by
  rcases pass_of_err h with hall | ⟨p, hp⟩
  · exact Or.inl hall
  · refine Or.inr ⟨p, hp, ?_⟩
    rcases serveOnce_cases hp with ⟨wakeup, w, he, heq⟩ | ⟨-, -, heq⟩ | ⟨e', hwait, heq⟩
    · rcases Program.bind_eq_err_iff.mp (heq.symm.trans h) with hall | ⟨u, s₁, -, hpure⟩
      · exact Or.inl ⟨wakeup, w, he, hall⟩
      · cases hpure
    · cases heq.symm.trans h
    · cases heq.symm.trans h
      exact Or.inr ⟨rfl, hwait⟩

end Equations

end Turns

end UhidBattery
