import UhidBattery.Due
import UhidBattery.ServeUntil

/-!
# How long a turn waits

The loop behind `serve_all` and `serve_until` waits until the earliest of the
pushes that are pending and of the caller's deadline, whatever it waits on.

* `longestWait_fair`: that wait ends in time for all of them, and is not cut
  short by any other.
* `pass_pushes`: before the wait, every push that was due has been made.
* `serve_punctual`: so it is at every turn, and `Deadline` is returned when the
  deadline has been reached and not before.
* `pollTimeout_fair`: nothing of this is lost in the `timespec` of `poll()`.
-/

namespace UhidBattery

open Program (Outcome EachOk Turn loop borrow mapErr)
open Relation (ReflTransGen)
open Deadlines (Covers)

/-! ## The timeout -/

/-- The loop has something to do at `d`: a push that is pending, or the deadline. -/
def Awaits (batteries : List Battery) (deadline : Option Instant) (d : Instant) : Prop :=
  (∃ b ∈ batteries, b.nextDeadline = some d) ∨ deadline = some d

/-- A wait entered at clock reading `n`, by its timeout: it does not oversleep, it is
unbounded only if nothing is awaited, and it is empty only if something is due. -/
structure FairWait (batteries : List Battery) (deadline : Option Instant) (n : Instant)
    (timeout : Option Duration) : Prop where
  ends : ∀ d, Awaits batteries deadline d → ∃ tau, timeout = some tau ∧ n + tau ≤ max n d
  unbounded : timeout = none → ∀ d, ¬ Awaits batteries deadline d
  zero : timeout = some 0 → ∃ d ≤ n, Awaits batteries deadline d

section Timeout

variable {batteries : List Battery} {deadline : Option Instant} {n : Instant}

theorem awaits_iff_mem {d : Instant} : Awaits batteries deadline d ↔
    d ∈ batteries.filterMap Battery.nextDeadline ++ deadline.toList := by
  rw [List.mem_append, List.mem_filterMap, Option.mem_toList]
  rfl

theorem add_sub_le_max {n m d : Nat} (h : m ≤ d) : n + (m - n) ≤ max n d := by
  omega

/-- **The wait is fair.** -/
theorem longestWait_fair (batteries : List Battery) (deadline : Option Instant) (n : Instant) :
    FairWait batteries deadline n (longestWait batteries deadline n) := by
  have hcovers {d : Instant} (hd : Awaits batteries deadline d) :
      Covers (batteries.filterMap Battery.nextDeadline ++ deadline.toList).min? d :=
    Deadlines.covers_min?_iff.mpr ⟨d, awaits_iff_mem.mp hd, Nat.le_refl d⟩
  constructor
  case ends =>
    intro d hd
    obtain ⟨m, hle, hm⟩ := hcovers hd
    exact ⟨m - n, by rw [longestWait, hm]; rfl, add_sub_le_max hle⟩
  case unbounded =>
    intro hnone d hd
    obtain ⟨m, hle, hm⟩ := hcovers hd
    rw [longestWait, hm] at hnone
    cases hnone
  case zero =>
    intro hzero
    obtain ⟨m, hm, hsub⟩ := Option.map_eq_some_iff.mp hzero
    exact ⟨m, Nat.sub_eq_zero_iff_le.mp hsub, awaits_iff_mem.mpr (List.min?_mem hm)⟩

/-- How long a timeout lets `poll()` block. -/
def Timespec.nanos (self : Timespec) : Duration := self.tvSec * fromSecs 1 + self.tvNsec

/-- Whole seconds, held to a bound, and the rest. -/
theorem saturated_split (t : Nat) {second most : Nat} (hmost : 0 < most) :
    min (t / second) most * second + t % second ≤ t ∧
      (min (t / second) most * second + t % second = 0 → t = 0) := by
  have hsplit := Nat.div_add_mod' t second
  rcases Nat.le_total (t / second) most with h | h
  · rw [Nat.min_eq_left h]
    omega
  · rw [Nat.min_eq_right h]
    have hle : most * second ≤ t / second * second := Nat.mul_le_mul_right _ h
    refine ⟨by omega, fun hzero => ?_⟩
    obtain ⟨hsec, hrest⟩ := Nat.add_eq_zero_iff.mp hzero
    have hsecond : second = 0 := by
      rcases Nat.mul_eq_zero.mp hsec with h | h
      · omega
      · exact h
    rw [hsecond, Nat.mod_zero] at hrest
    exact hrest

/-- A timeout is never lengthened on its way to `poll()`, and stays empty or not. -/
theorem nanos_timespecOf (timeout : Duration) :
    (timespecOf timeout).nanos ≤ timeout ∧ ((timespecOf timeout).nanos = 0 → timeout = 0) :=
  saturated_split timeout (by decide)

/-- The timeout `poll()` is given is fair as well. -/
theorem FairWait.timespec {timeout : Option Duration} (h : FairWait batteries deadline n timeout) :
    FairWait batteries deadline n ((timeout.map timespecOf).map Timespec.nanos) := by
  constructor
  case ends =>
    intro d hd
    obtain ⟨tau, rfl, hle⟩ := h.ends d hd
    exact ⟨_, rfl, (Nat.add_le_add_left (nanos_timespecOf tau).1 n).trans hle⟩
  case unbounded =>
    intro hnone
    exact h.unbounded (by simpa using hnone)
  case zero =>
    intro hzero
    obtain ⟨spec, hspec, hnanos⟩ := Option.map_eq_some_iff.mp hzero
    obtain ⟨tau, rfl, rfl⟩ := Option.map_eq_some_iff.mp hspec
    exact h.zero (by rw [(nanos_timespecOf tau).2 hnanos])

end Timeout

/-! ## Before the wait -/

/-- The pass from `s` to `p` has serviced every battery in its turn, and made every
push that was due when its battery was serviced. -/
def PushesMade (E : Env) (rounds : Nat) (s p : List Battery × World) : Prop :=
  ∀ before b after, s.1 = before ++ b :: after → ∃ w b' w',
    Battery.service E rounds (b, w) = (.ok (), (b', w')) ∧
    (∃ calls, Ran E s.2 calls w) ∧ (∃ calls, Ran E w' calls p.2) ∧
    p.1[before.length]? = some b' ∧
    ∀ d, b.nextDeadline = some d ∨ d ∈ startDues E.order b.handle.fd (w.since w') →
      PushesInTime E.order b (.ok ()) (w.since w') d

section Pass

variable {E : Env} {rounds : Nat} {s p : List Battery × World}

theorem service_pushes {b b' : Battery} {w w' : World}
    (h : Battery.service E rounds (b, w) = (.ok (), (b', w'))) {d : Instant}
    (hd : b.nextDeadline = some d ∨ d ∈ startDues E.order b.handle.fd (w.since w')) :
    PushesInTime E.order b (.ok ()) (w.since w') d := by
  obtain ⟨-, hs⟩ := service_since h
  exact hs.pushesInTime (Or.inl rfl) (covers_of_pending (hd.imp_left (Deadlines.covers_self _)))

/-- **Every push that was due has been made** once a pass is complete. -/
theorem pass_pushes (h : Pass E rounds s p) : PushesMade E rounds s p := by
  intro before b after hs
  rw [Pass, hs] at h
  obtain ⟨w, w', before', b', after', hbefore, hb, hafter, hp⟩ := h.split
  refine ⟨w, b', w', hb, pass_ran hbefore, pass_ran hafter, ?_, fun d hd => service_pushes hb hd⟩
  rw [hp, ← hbefore.length_eq, List.getElem?_append_right (Nat.le_refl _), Nat.sub_self]
  rfl

end Pass

/-! ## Every turn -/

section Serve

variable (E : Env) (rounds : Nat) (deadline : Option Instant)
  (waitOnce : List Battery → Option Duration → Program World IoError Ready)

/-- A turn that began in `s` and whose pass led to `p`: its wait was entered with the
timeout `tau`, and came to `left`. -/
structure Punctual (s p : List Battery × World) (tau : Option Duration)
    (left : Outcome IoError Ready × World) : Prop where
  waited : left = waitOnce p.1 tau (p.2.next E .now)
  entered : serviceAndWait E rounds deadline waitOnce s =
    (left.1.mapErr fun source => ⟨none, source⟩, (p.1, left.2))
  fair : FairWait p.1 deadline (E.time p.2.history) tau
  pushed : PushesMade E rounds s p
  not_early : (serveOnce E rounds deadline waitOnce s).1 = .ok (some .deadline) →
    left.1 = .ok .device ∧ PastDeadline E deadline left.2
  last : left.1 = .ok .device → PastDeadline E deadline left.2 →
    (serveOnce E rounds deadline waitOnce s).1 ≠ .ok none

variable {E rounds deadline waitOnce} {s p s' : List Battery × World}

/-- A pass that ends the call ends it as was decided. -/
theorem finish_eq {wakeup : Wakeup} {r : Option Wakeup}
    (h : ((serviceAll E rounds >>= fun _ => pure (some wakeup) :
      Program (List Battery × World) ServeError (Option Wakeup)) s).1 = .ok r) :
    r = some wakeup := by
  obtain ⟨u, s₁, -, hpure⟩ := Program.bind_eq_ok_iff.mp (Prod.ext h rfl)
  cases hpure
  rfl

/-- `Deadline` is decided on only once it has passed. -/
theorem decideAfter_deadline {ready : Ready}
    (h : (decideAfter E rounds deadline ready s).1 = .ok (some .deadline)) :
    ready = .device ∧ PastDeadline E deadline s.2 := by
  cases ready with
  | wake => cases finish_eq h
  | interrupted => cases finish_eq h
  | device =>
    refine ⟨rfl, ?_⟩
    by_contra hnot
    rw [decideAfter_of_not_past hnot] at h
    cases h

/-- Once the deadline has passed there is no further turn. -/
theorem decideAfter_ne_none (h : PastDeadline E deadline s.2) :
    (decideAfter E rounds deadline .device s).1 ≠ .ok none := by
  intro hnone
  rw [decideAfter_of_past h] at hnone
  cases finish_eq hnone

/-- **Every turn is punctual.** -/
theorem punctual_of_pass (h : serviceAll E rounds s = (.ok (), p)) :
    Punctual E rounds deadline waitOnce s p (longestWait p.1 deadline (E.time p.2.history))
      (waitOnce p.1 (longestWait p.1 deadline (E.time p.2.history)) (p.2.next E .now)) := by
  generalize hleft : waitOnce p.1 (longestWait p.1 deadline (E.time p.2.history))
    (p.2.next E .now) = left
  have hwait : serviceAndWait E rounds deadline waitOnce s =
      (left.1.mapErr fun source => ⟨none, source⟩, (p.1, left.2)) := by
    rw [serviceAndWait_eq h, hleft]
  constructor
  case waited => exact hleft.symm
  case entered => exact hwait
  case fair => exact longestWait_fair p.1 deadline _
  case pushed => exact pass_pushes (serviceAll_eq_ok_iff.mp h)
  case not_early =>
    intro hdeadline
    obtain ⟨ready, s₁, hready, hdecide⟩ := Program.bind_eq_ok_iff.mp (Prod.ext hdeadline rfl)
    obtain ⟨rfl, hpast⟩ := decideAfter_deadline (congrArg Prod.fst hdecide)
    rw [hwait] at hready
    obtain ⟨ho, rfl⟩ := Prod.mk.inj hready
    exact ⟨Program.Outcome.mapErr_eq_ok_iff.mp ho, hpast⟩
  case last =>
    intro hdevice hpast
    rw [hdevice] at hwait
    rw [serveOnce, Program.bind_ok hwait]
    exact decideAfter_ne_none hpast

end Serve

/-- **The loop neither oversleeps nor spins.**  Every turn that gets as far as its wait
is punctual, whatever it waits on, and `Deadline` is returned only when the clock
read after the wait had reached it. -/
theorem serve_punctual (E : Env) (rounds : Nat) (deadline : Option Instant)
    (waitOnce : List Battery → Option Duration → Program World IoError Ready)
    (bs : List Battery) (w : World) :
    (∀ s p, ReflTransGen (Turn (serveOnce E rounds deadline waitOnce)) (bs, w) s →
      serviceAll E rounds s = (.ok (), p) →
        ∃ tau left, Punctual E rounds deadline waitOnce s p tau left) ∧
    ∀ s', serve E rounds deadline waitOnce (bs, w) = (.ok .deadline, s') →
      ∃ s p tau left, ReflTransGen (Turn (serveOnce E rounds deadline waitOnce)) (bs, w) s ∧
        serviceAll E rounds s = (.ok (), p) ∧ Punctual E rounds deadline waitOnce s p tau left ∧
        left.1 = .ok .device ∧ PastDeadline E deadline left.2 := by
  refine ⟨fun s p _ h => ⟨_, _, punctual_of_pass h⟩, ?_⟩
  intro s' h
  obtain ⟨s, hturns, hlast⟩ := Program.loop_eq_ok h
  obtain ⟨ready, s₁, hwait, -⟩ := Program.bind_eq_ok_iff.mp hlast
  obtain ⟨u, p, hall, -⟩ := Program.bind_eq_ok_iff.mp hwait
  have hp : Punctual E rounds deadline waitOnce s p _ _ := punctual_of_pass hall
  exact ⟨s, p, _, _, hturns, hall, hp, hp.not_early (congrArg Prod.fst hlast)⟩

/-- A system at rest where a call takes a nanosecond, and a wait ten more. -/
def Env.waiting : Env where
  __ := Env.calm .little 0
  time history := history.length + 10 * history.countP fun x =>
    match x.call with
    | .poll _ _ _ => true
    | _ => false

/-- Two mice with a push pending for 10 and for 30. -/
def waitingMice : List Battery :=
  [(mouse 3).withRepush (some 10), (mouse 4).withRepush (some 30)]

/-- The first pass: nothing is due yet, at 4. -/
theorem waitingMice_pass : ∃ p, serviceAll .waiting 3 (waitingMice, .started) = (.ok (), p) ∧
    (∀ d, Awaits p.1 (some 25) d ↔ d = 10 ∨ d = 30 ∨ d = 25) ∧
    Env.waiting.time p.2.history = 4 := by
  have hpass : (serviceAll .waiting 3 (waitingMice, .started)).1 = .ok () ∧
      (serviceAll .waiting 3 (waitingMice, .started)).2.1.map Battery.nextDeadline =
        [some 10, some 30] ∧
      Env.waiting.time (serviceAll .waiting 3 (waitingMice, .started)).2.2.history = 4 := by
    decide +kernel
  rcases hfirst : serviceAll .waiting 3 (waitingMice, .started) with ⟨o, p⟩
  rw [hfirst] at hpass
  obtain ⟨rfl, hslots, htime⟩ := hpass
  refine ⟨p, rfl, fun d => ?_, htime⟩
  have hmem : (∃ b ∈ p.1, b.nextDeadline = some d) ↔ some d ∈ p.1.map Battery.nextDeadline :=
    List.mem_map.symm
  rw [Awaits, hmem, hslots]
  simp [or_assoc, eq_comm]

/-- All turns: a wait for each of 10 and 25, and a push after each. -/
theorem waitingMice_serve : ∃ s',
    serve .waiting 3 (some 25) (waitAll .waiting none) (waitingMice, .started) =
      (.ok .deadline, s') ∧
    inputs .little 3 s'.2.history = [(19, (mouse 3).report)] ∧
    inputs .little 4 s'.2.history = [(38, (mouse 4).report)] := by
  have hserve : (serve .waiting 3 (some 25) (waitAll .waiting none) (waitingMice, .started)).1 =
        .ok .deadline ∧
      inputs .little 3 (serve .waiting 3 (some 25) (waitAll .waiting none)
        (waitingMice, .started)).2.2.history = [(19, (mouse 3).report)] ∧
      inputs .little 4 (serve .waiting 3 (some 25) (waitAll .waiting none)
        (waitingMice, .started)).2.2.history = [(38, (mouse 4).report)] := by decide +kernel
  rcases hcall : serve .waiting 3 (some 25) (waitAll .waiting none) (waitingMice, .started)
    with ⟨o, s'⟩
  rw [hcall] at hserve
  obtain ⟨rfl, hthree, hfour⟩ := hserve
  exact ⟨s', rfl, hthree, hfour⟩

/-- The mice served until 25: the first wait is for the push due at 10, the second for the
deadline. -/
theorem serve_punctual_mice : ∃ p tau left s',
    Punctual .waiting 3 (some 25) (waitAll .waiting none) (waitingMice, .started) p (some tau)
      left ∧ 0 < tau ∧ tau ≤ 6 ∧
    serve .waiting 3 (some 25) (waitAll .waiting none) (waitingMice, .started) =
      (.ok .deadline, s') ∧
    (∃ s p tau left, Punctual .waiting 3 (some 25) (waitAll .waiting none) s p tau left ∧
      left.1 = .ok .device ∧ PastDeadline .waiting (some 25) left.2) ∧
    inputs .little 3 s'.2.history = [(19, (mouse 3).report)] ∧
    inputs .little 4 s'.2.history = [(38, (mouse 4).report)] := by
  obtain ⟨hturns, hlast⟩ := serve_punctual .waiting 3 (some 25) (waitAll .waiting none)
    waitingMice .started
  obtain ⟨p, hfirst, hawaits, htime⟩ := waitingMice_pass
  obtain ⟨s', hcall, hthree, hfour⟩ := waitingMice_serve
  obtain ⟨tau, left, hp⟩ := hturns _ _ .refl hfirst
  obtain ⟨s, p', tau', left', -, -, hp', hdevice, hpast⟩ := hlast s' hcall
  obtain ⟨t, rfl, hends⟩ := hp.fair.ends 10 ((hawaits 10).mpr (Or.inl rfl))
  have hsome : 0 < t := by
    refine Nat.pos_of_ne_zero ?_
    rintro rfl
    obtain ⟨d, hd, hdue⟩ := hp.fair.zero rfl
    rw [htime] at hd
    rcases (hawaits d).mp hdue with rfl | rfl | rfl <;> exact absurd hd (by decide)
  have hsix : t ≤ 6 := by
    rw [htime] at hends
    have hends : 4 + t ≤ 4 + 6 := hends
    exact Nat.le_of_add_le_add_left hends
  exact ⟨p, t, left, s', hp, hsome, hsix, hcall, ⟨s, p', tau', left', hp', hdevice, hpast⟩,
    hthree, hfour⟩

/-- The timeout that `serve_all` hands to `poll()` is fair as well. -/
theorem pollTimeout_fair (E : Env) (deadline : Option Instant) (p : List Battery × World) :
    FairWait p.1 deadline (E.time p.2.history)
      ((pollTimeout E deadline p).map Timespec.nanos) :=
  (longestWait_fair p.1 deadline _).timespec

end UhidBattery
