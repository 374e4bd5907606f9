import UhidBattery.Answers
import UhidBattery.ServeAll
import UhidBattery.ServeUntil
import UhidBattery.PowerSupply
import UhidBattery.Lib.Halting

/-!
# Every call comes back

A system lets a call end when its writes are not interrupted for ever, events
stop arriving, and whatever the call waits for comes: time passes, a wake
descriptor becomes readable, or a signal arrives.

* `service_halts`, `drain_halts`: the loops over a queue of events.
* `serveAll_halts`, `looking_halts`: the loops over waits.
* `calls_return`, `serving_returns`, `waiting_returns`: the calls of the crate.
-/

namespace UhidBattery

open Program (Outcome Halts Settles EachOk Turn loop attempt borrow mapErr onOne ofOutcome)

/-! ## Systems that let calls end -/

/-- Writes are not interrupted for ever, and events stop arriving. -/
structure Lively (E : Env) (fd : Fd) : Prop where
  patient : Patient E fd
  quiet : ∃ n, ∀ history, n ≤ history.length → E.arrivals history fd = []

/-- Every instant there is comes to pass. -/
def TimePasses (E : Env) : Prop :=
  ∀ t < instantEnd, ∃ n, ∀ history, n ≤ history.length → t ≤ E.time history

/-- Something ends the waits: the deadline, the wake descriptor, or signals. -/
inductive Recalled (E : Env) (deadline : Option Instant) (wake : Option Fd) : Prop where
  | deadline {d : Instant} {n : Nat} (hd : deadline = some d)
      (h : ∀ history, n ≤ history.length → d ≤ E.time history) : Recalled E deadline wake
  | wake {fd : Fd} {n : Nat} (hw : wake = some fd)
      (h : ∀ history fds timeout, n ≤ history.length → ∃ count revents,
        E.poll history fds timeout = .ready count revents ∧
          contains (revents (fds.length - 1)) pollIn = true) : Recalled E deadline wake
  | signal {n : Nat} (h : ∀ history fds timeout, n ≤ history.length →
      E.poll history fds timeout = .fails .intr) : Recalled E deadline wake

/-- Something ends a wait for the power supply: the deadline, or its registration. -/
inductive Awaitable (E : Env) (deadline : Option Instant) (uniq : String) : Prop where
  | deadline {d : Instant} {n : Nat} (hd : deadline = some d)
      (h : ∀ history, n ≤ history.length → d ≤ E.time history) : Awaitable E deadline uniq
  | registered {n : Nat} (h : ∀ history, n ≤ history.length →
      findPowerSupplyIn powerSupplyClass (E.listing history) uniq ≠ none) :
      Awaitable E deadline uniq

/-- From some number of rounds on a call comes back, always the same way. -/
def Returns {σ ε α : Type} (m : Nat → Program σ ε α) (s : σ) : Prop :=
  ∃ n, (m n s).1 ≠ .pending ∧ ∀ n', n ≤ n' → m n' s = m n s

/-! ## Writes -/

section Writes

variable {E : Env} {fd : Fd} {I : World → Prop}

theorem write_halts (hp : Patient E fd) (event : Buffer) :
    Halts I fun n => (Handle.mk fd).write E n event where
  settles h := write_settles ⟨fd⟩ event h
  ends w _ := write_ends hp event w

theorem push_settles (b : Battery) {n n' : Nat} (h : n ≤ n') :
    Settles (b.push E n) (b.push E n') :=
  Program.settles_bind (Settles.refl _) fun event => write_settles b.handle event h

theorem push_halts {b : Battery} (hp : Patient E b.handle.fd) : Halts I fun n => b.push E n where
  settles h := push_settles b h
  ends w _ := by
    obtain ⟨buf, -, hpush⟩ := push_eq E b
    obtain ⟨n, hn⟩ := write_ends hp buf w
    exact ⟨n, by rw [hpush]; exact hn⟩

theorem storeAndPush_halts (reading : Reading) :
    Halts (fun s => Patient E s.1.handle.fd) fun n => storeAndPush E n reading where
  settles h := Program.settles_bind (Settles.refl _) fun _ =>
    Program.settles_borrow fun b => push_settles b h
  ends := by
    rintro ⟨b, w⟩ hp
    obtain ⟨buf, -, hstore⟩ := storeAndPush_eq E reading b
    obtain ⟨n, hn⟩ := write_ends hp buf w
    exact ⟨n, by rw [hstore]; exact hn⟩

theorem scheduleRepush_ne_pending (delay : Duration) (s : Battery × World) :
    (Battery.scheduleRepush E delay s).1 ≠ .pending := by
  obtain ⟨b, w⟩ := s
  rw [scheduleRepush_eq]
  by_cases hlt : E.time w.history + delay < instantEnd
  · rw [if_pos hlt]
    exact nofun
  · rw [if_neg hlt]
    exact nofun

theorem scheduleRepush_handle {delay : Duration} {s s' : Battery × World} {u : Unit}
    (h : Battery.scheduleRepush E delay s = (.ok u, s')) : s'.1.handle = s.1.handle := by
  obtain ⟨b, w⟩ := s
  rw [scheduleRepush_eq] at h
  by_cases hlt : E.time w.history + delay < instantEnd
  · rw [if_pos hlt] at h
    rw [← (Prod.mk.inj h).2]
    rfl
  · rw [if_neg hlt] at h
    cases (Prod.mk.inj h).1

/-- A flip: the push after the window is scheduled first. -/
theorem scheduleAndPush_halts (delay : Duration) (reading : Reading) :
    Halts (fun s => Patient E s.1.handle.fd) fun n =>
      Battery.scheduleRepush E delay >>= fun _ => storeAndPush E n reading := by
  refine Program.halts_bind (Program.halts_const fun s _ => scheduleRepush_ne_pending delay s)
    (fun _ => storeAndPush_halts reading) fun n s u s' hp heq => ?_
  rw [scheduleRepush_handle heq]
  exact hp

theorem update_settles (reading : Reading) {n n' : Nat} (h : n ≤ n') :
    Settles (Battery.update E n reading) (Battery.update E n' reading) := by
  rintro ⟨b, w⟩ hs
  simp only [update_eq] at hs ⊢
  by_cases hf : b.flips reading
  · simp only [if_pos hf] at hs ⊢
    exact (scheduleAndPush_halts chargeFlipRepushDelay reading).settles h (b, w) hs
  · simp only [if_neg hf] at hs ⊢
    exact (storeAndPush_halts reading).settles h (b, w) hs

theorem update_ends (reading : Reading) {b : Battery} (hp : Patient E b.handle.fd) (w : World) :
    ∃ n, (Battery.update E n reading (b, w)).1 ≠ .pending := by
  simp only [update_eq]
  by_cases hf : b.flips reading
  · simp only [if_pos hf]
    exact (scheduleAndPush_halts chargeFlipRepushDelay reading).ends (b, w) hp
  · simp only [if_neg hf]
    exact (storeAndPush_halts reading).ends (b, w) hp

theorem update_halts (reading : Reading) :
    Halts (fun s => Patient E s.1.handle.fd) fun n => Battery.update E n reading :=
  ⟨fun h => update_settles reading h, fun s hp => update_ends reading hp s.2⟩

end Writes

/-! ## Queues of events -/

/-- What a loop over the queue has before it: calls until nothing arrives any
more, and then the events that are left. -/
def backlog (fd : Fd) (n : Nat) (w : World) : Nat × Nat :=
  (n - w.history.length, if n ≤ w.history.length then (w.queue fd).length else 0)

section Queues

variable {E : Env} {fd : Fd} {n : Nat} {w w' : World}

theorem Ran.length {calls : List Entry} (h : Ran E w calls w') :
    w'.history.length = w.history.length + calls.length := by
  rw [h.history, List.length_append]

theorem Ran.arrived_quiet {calls : List Entry} (h : Ran E w calls w')
    (hq : ∀ history, n ≤ history.length → E.arrivals history fd = [])
    (hn : n ≤ w.history.length) : arrived fd calls = [] := by
  induction h with
  | nil => rfl
  | @cons w w' call calls hg h ih =>
    have hnext : n ≤ (w.next E call).history.length := by
      rw [World.length_next]
      omega
    rw [← List.singleton_append, arrived_append, ih hnext, List.append_nil, World.arrived_entry]
    exact hq _ hn

/-- An event that is read shortens the backlog. -/
theorem backlog_lt {x : Entry} {buf : Buffer} {calls : List Entry}
    (hq : ∀ history, n ≤ history.length → E.arrivals history fd = [])
    (hran : Ran E w (x :: calls) w') (hx : x.call = .read fd (.delivered buf))
    (hd : delivered fd calls = []) :
    Prod.Lex (· < ·) (· < ·) (backlog fd n w') (backlog fd n w) := by
  have hlen := hran.length
  rw [List.length_cons] at hlen
  by_cases hn : n ≤ w.history.length
  · have hqueue := hran.queue fd
    rw [hran.arrived_quiet hq hn, List.append_nil, ← List.singleton_append, delivered_append,
      delivered_of_read hx, hd, List.append_nil] at hqueue
    have hsame : n - w'.history.length = n - w.history.length := by omega
    rw [backlog, backlog, hsame, if_pos hn, if_pos (by omega), hqueue]
    exact .right _ (by simp [ReadResult.event?])
  · exact .left _ _ (by omega)

theorem lex_wf : WellFounded (Prod.Lex (· < ·) (· < ·) : Nat × Nat → Nat × Nat → Prop) :=
  WellFounded.prod_lex Nat.lt_wfRel.wf Nat.lt_wfRel.wf

/-- **The loop of `service`.** -/
theorem serviceLoop_halts (hl : Lively E fd) :
    Halts (fun s : Battery × World => s.1.handle.fd = fd)
      fun n => loop (Battery.serviceOnce E n) n := by
  obtain ⟨n₀, hquiet⟩ := hl.quiet
  have hbody : Halts (fun s : Battery × World => s.1.handle.fd = fd)
      fun n => Battery.serviceOnce E n := by
    refine ⟨fun h => serviceOnce_settles h, ?_⟩
    rintro ⟨b, w⟩ rfl
    exact serviceOnce_ends hl.patient w
  refine Program.halts_loop lex_wf (fun s => backlog fd n₀ s.2) hbody ?_
  rintro n ⟨b, w⟩ ⟨b', w'⟩ rfl heq
  obtain ⟨calls, hran, ht⟩ := serviceOnce_spec E n b w
  rw [heq] at hran ht
  obtain ⟨x, buf, rest, rfl, hx, ha⟩ := ht.again
  obtain ⟨slot, rfl⟩ := ha.same
  exact ⟨rfl, backlog_lt hquiet hran hx (ha.delivered_eq_nil _)⟩

theorem service_halts :
    Halts (fun s => Lively E s.1.handle.fd) fun n => Battery.service E n := by
  refine ⟨fun h => service_settles h, ?_⟩
  rintro ⟨b, w⟩ hl
  have hpush : ∀ u : Unit, Halts (fun s : Battery × World => s.1.handle.fd = b.handle.fd)
      fun n => pushIfDue E n := by
    refine fun _ => ⟨fun h => pushIfDue_settles h, ?_⟩
    rintro ⟨b', w'⟩ hfd
    exact pushIfDue_ends (by rw [hfd]; exact hl.patient) w'
  refine (Program.halts_bind (serviceLoop_halts hl) hpush ?_).ends (b, w) rfl
  rintro n ⟨b₁, w₁⟩ u ⟨b₂, w₂⟩ hfd heq
  obtain ⟨calls, x, result, -, hh, -, -⟩ := serviceLoop_of_ok E heq
  obtain ⟨slot, rfl⟩ := hh.same
  exact hfd

/-- A turn of `drain` is one read. -/
theorem drainOnce_eq {ε : Type} (self : Handle) (w : World) :
    (self.drainOnce E : Program World ε (Option Unit)) w =
      (.ok (if (w.readResult E self.fd).event?.isSome then none else some ()),
        w.next E (.read self.fd (w.readResult E self.fd))) := by
  unfold Handle.drainOnce
  rw [Program.bind_apply, Program.attempt_apply, read_eq]
  rcases w.readResult E self.fd with buf | _ | e
  · rfl
  · rfl
  · cases e <;> rfl

/-- **The loop of `drain`.** -/
theorem drain_halts {ε : Type} {I : World → Prop} (hl : Lively E fd) :
    Halts I fun n => ((Handle.mk fd).drain E n : Program World ε Unit) := by
  obtain ⟨n₀, hquiet⟩ := hl.quiet
  have hbody : Halts (fun _ : World => True)
      fun _ => ((Handle.mk fd).drainOnce E : Program World ε (Option Unit)) :=
    Program.halts_const fun w _ => by rw [drainOnce_eq]; exact nofun
  refine (Program.halts_loop lex_wf (backlog fd n₀) hbody ?_).imp fun _ _ => trivial
  intro n w w' _ heq
  rw [drainOnce_eq, Prod.mk.injEq, Outcome.ok.injEq] at heq
  obtain ⟨hsome, rfl⟩ := heq
  refine ⟨trivial, ?_⟩
  rcases hr : w.readResult E fd with buf | _ | e
  · have hg : Genuine E w (.read fd (.delivered buf)) := hr.symm
    exact backlog_lt hquiet (.single hg) (World.entry_call E w _) rfl
  · simp [hr, ReadResult.event?] at hsome
  · simp [hr, ReadResult.event?] at hsome

end Queues

/-! ## The life of a device -/

section Life

variable {E : Env} {handle : Handle} {I : World → Prop}

theorem destroy_halts {ε : Type} {b : Battery} (hl : Lively E b.handle.fd) :
    Halts I fun n => (b.destroy E n : Program World ε Handle) := by
  obtain ⟨buf, -, hdestroy⟩ := destroy_eq ε E b
  have heq (n : Nat) := funext (hdestroy n)
  simp only [heq]
  refine Program.halts_then (Program.halts_attempt (write_halts hl.patient buf)) fun _ => ?_
  refine Program.halts_then (drain_halts hl) fun _ => ?_
  exact Program.halts_const fun w _ => by simp

/-- The first push, and its undoing when it fails. -/
theorem pushOrUndo_halts {b : Battery} (hl : Lively E b.handle.fd) :
    Halts I fun n => pushOrUndo E n b := by
  refine Program.halts_then (Program.halts_attempt (push_halts hl.patient)) fun r => ?_
  cases r with
  | ok u => exact Program.halts_const fun w _ => by simp
  | error source =>
    refine Program.halts_then (destroy_halts hl) fun _ => ?_
    exact Program.halts_const fun w _ => by simp

theorem create_halts (hl : Lively E handle.fd) (identity : Identity) (kind : Kind)
    (reading : Reading) : Halts I fun n => Battery.create E n handle identity kind reading := by
  rcases identity.validate_cases with ⟨hv, -⟩ | ⟨e, hv, -⟩
  · obtain ⟨buf, -, hcreate⟩ := create_of_valid E handle identity kind reading hv
    have heq (n : Nat) := funext (hcreate n)
    simp only [heq]
    refine Program.halts_then (Program.halts_mapErr (write_halts hl.patient buf)) fun _ => ?_
    exact pushOrUndo_halts hl
  · have heq (n : Nat) := funext fun w =>
      create_of_invalid E n handle identity kind reading w hv
    simp only [heq]
    exact Program.halts_const fun w _ => by simp

end Life

/-! ## Serving -/

section Serving

variable {E : Env} {deadline : Option Instant} {wake : Option Fd}

/-- Every battery of the slice is on a descriptor that lets calls end. -/
def AllLively (E : Env) (s : List Battery × World) : Prop := ∀ b ∈ s.1, Lively E b.handle.fd

theorem AllLively.of_same {s s' : List Battery × World} (h : AllLively E s) (hs : Same s.1 s'.1) :
    AllLively E s' := by
  have hfds := hs.fds
  intro b hb
  have hmem : b.handle.fd ∈ s.1.map fun b => b.handle.fd := by
    rw [← hfds]
    exact List.mem_map_of_mem hb
  obtain ⟨b₀, hb₀, heq⟩ := List.mem_map.mp hmem
  rw [← heq]
  exact h b₀ hb₀

theorem serviceAll_halts : Halts (AllLively E) fun n => serviceAll E n :=
  Program.halts_tryForEach (fun _ => Program.halts_mapErr service_halts) 0

theorem AllLively.serviceAll {n : Nat} {s s' : List Battery × World} {u : Unit}
    (h : AllLively E s) (heq : UhidBattery.serviceAll E n s = (.ok u, s')) : AllLively E s' :=
  h.of_same (EachOk.same (serviceAll_eq_ok_iff.mp heq))

theorem PollAnswer.outcome_ne_pending (answer : PollAnswer) (fds : List PollFd) (withWake : Bool) :
    answer.outcome fds withWake ≠ .pending := by
  unfold PollAnswer.outcome readyOf
  split
  · split_ifs <;> exact nofun
  · exact nofun
  · exact nofun

theorem serviceAndWait_halts :
    Halts (AllLively E) fun n => serviceAndWait E n deadline (waitAll E wake) := by
  refine Program.halts_bind (J := fun _ => AllLively E) serviceAll_halts (fun _ => ?_)
    fun n s u s' hs heq => hs.serviceAll heq
  refine Program.halts_const fun s _ => ?_
  have hnow : (borrow fun _ => sysNow E : Program (List Battery × World) ServeError Instant) s =
      (.ok (E.time s.2.history), (s.1, s.2.next E .now)) := rfl
  rw [Program.bind_ok hnow]
  refine mt Program.mapErr_pending_iff.mp ?_
  rw [waitAll, wait_eq]
  exact PollAnswer.outcome_ne_pending _ _ _

theorem AllLively.serviceAndWait {n : Nat} {s s' : List Battery × World} {ready : Ready}
    (h : AllLively E s)
    (heq : UhidBattery.serviceAndWait E n deadline (waitAll E wake) s = (.ok ready, s')) :
    AllLively E s' := by
  obtain ⟨u, p, hall, hwait⟩ := Program.bind_eq_ok_iff.mp heq
  obtain ⟨now, q, hnow, hwait⟩ := Program.bind_eq_ok_iff.mp hwait
  have hsame : s'.1 = p.1 := by
    rw [← (Prod.mk.inj hwait).2, ← (Prod.mk.inj hnow).2]
  exact (h.serviceAll hall).of_same (by rw [hsame]; exact .refl _)

theorem decideAfter_halts (ready : Ready) :
    Halts (AllLively E) fun n => decideAfter E n deadline ready := by
  have hlast (wakeup : Wakeup) : Halts (AllLively E) fun n =>
      (serviceAll E n >>= fun _ => pure (some wakeup) :
        Program (List Battery × World) ServeError (Option Wakeup)) :=
    Program.halts_then serviceAll_halts fun _ => Program.halts_const fun s _ => by simp
  cases ready with
  | wake => exact hlast .wake
  | interrupted => exact hlast .interrupted
  | device =>
    refine Program.halts_bind (J := fun _ => AllLively E) ?_ (fun past => ?_) ?_
    · refine Program.halts_const fun s _ => ?_
      cases deadline <;> exact nofun
    · cases past with
      | true => exact hlast .deadline
      | false => exact Program.halts_const fun s _ => by simp
    · intro n s past s' hs heq
      have hsame : s'.1 = s.1 := by rw [← (Prod.mk.inj heq).2]
      exact hs.of_same (by rw [hsame]; exact .refl _)

theorem serveOnce_halts :
    Halts (AllLively E) fun n => serveAllOnce E n deadline wake :=
  Program.halts_bind serviceAndWait_halts (fun ready => decideAfter_halts ready)
    fun _ _ _ _ hs heq => hs.serviceAndWait heq

/-- Once the call is recalled no turn goes round again. -/
theorem Recalled.no_quietTurn (h : Recalled E deadline wake) :
    ∃ n, ∀ rounds s s', n ≤ s.2.history.length → ¬ QuietTurn E rounds deadline wake s s' := by
  have hlater {rounds : Nat} {s p : List Battery × World} (hp : Pass E rounds s p) :
      s.2.history.length ≤ p.2.history.length := by
    obtain ⟨calls, hran⟩ := pass_ran hp
    rw [hran.length]
    exact Nat.le_add_right _ _
  cases h with
  | @deadline d n hd h =>
    refine ⟨n, fun rounds s s' hn hquiet => ?_⟩
    obtain ⟨p, hp, -, hx, -⟩ := hquiet
    have hle := hlater hp
    refine hx ⟨d, hd, h _ ?_⟩
    rw [polled, World.length_next, World.length_next]
    omega
  | @wake fd n hw h =>
    refine ⟨n, fun rounds s s' hn hquiet => ?_⟩
    obtain ⟨p, hp, hc, -, -⟩ := hquiet
    have hle := hlater hp
    obtain ⟨count, revents, hready, hin⟩ := h (p.2.next E .now).history (pollFds p.1 wake)
      (pollTimeout E deadline p) (by rw [World.length_next]; omega)
    have hlast : (pollFds p.1 wake).length - 1 = p.1.length := by
      rw [length_pollFds, hw]
      rfl
    have hanswer : pollAnswer E deadline wake p = .ready count revents := hready
    refine hc.2.1 ⟨revents p.1.length, ?_, by rw [← hlast]; exact hin⟩
    rw [hanswer, hw]
    rfl
  | @signal n h =>
    refine ⟨n, fun rounds s s' hn hquiet => ?_⟩
    obtain ⟨p, hp, ⟨⟨count, revents, hready⟩, -⟩, -, -⟩ := hquiet
    have hle := hlater hp
    have hsignal : pollAnswer E deadline wake p = .fails .intr :=
      h _ _ _ (by rw [World.length_next]; omega)
    rw [hsignal] at hready
    cases hready

/-- **The loop of `serve_all`.** -/
theorem serveAll_halts (h : Recalled E deadline wake) :
    Halts (AllLively E) fun n => serveAll E n deadline wake := by
  obtain ⟨n₀, hn₀⟩ := h.no_quietTurn
  refine Program.halts_loop Nat.lt_wfRel.wf (fun s => n₀ - s.2.history.length) serveOnce_halts ?_
  intro n s s' hs hturn
  have hquiet : QuietTurn E n deadline wake s s' := turn_iff.mp hturn
  have hlt : s.2.history.length < n₀ := by
    by_contra hle
    exact hn₀ n s s' (Nat.le_of_not_lt hle) hquiet
  obtain ⟨p, hp, -, -, rfl⟩ := hquiet
  obtain ⟨calls, hran⟩ := pass_ran hp
  have hlen := hran.length
  refine ⟨hs.of_same (EachOk.same hp), ?_⟩
  have hlonger :
      s.2.history.length < (looked E deadline (polled E deadline wake p)).history.length := by
    rw [looked, polled]
    split <;> simp only [World.length_next] <;> omega
  exact Nat.sub_lt_sub_left hlt hlonger

theorem serve_settles {waitOnce : List Battery → Option Duration → Program World IoError Ready}
    {n n' : Nat} (h : n ≤ n') :
    Settles (serve E n deadline waitOnce) (serve E n' deadline waitOnce) := by
  refine Program.settles_loop (Program.settles_bind (Program.settles_bind
    (serviceAll_halts.settles h) fun _ => Settles.refl _) fun ready => ?_) h
  exact (decideAfter_halts ready).settles h

theorem serveUntil_halts {d : Instant} (h : Recalled E (some d) wake) :
    Halts (fun s => Lively E s.1.handle.fd) fun n => Battery.serveUntil E n d wake := by
  have hone : Halts (fun s : List Battery × World => ∃ x, s.1 = [x] ∧ Lively E x.handle.fd)
      fun n => serve E n (some d) (waitOne E wake) := by
    refine ⟨fun h => serve_settles h, ?_⟩
    rintro ⟨bs, w⟩ ⟨b, rfl, hl⟩
    obtain ⟨n, hn⟩ := (serveAll_halts h).ends ([b], w) (by simpa [AllLively] using hl)
    exact ⟨n, by rw [serveUntil_loop]; exact hn⟩
  exact Program.halts_onOne (Program.halts_mapErr hone)

end Serving

/-! ## Waiting for the power supply -/

section Waiting

variable {E : Env} {rounds : Nat} {deadline : Option Instant} {uniq : String}
  {s s' : Battery × World}

/-- The stretch of serving after a look. -/
theorem stretch_halts (ht : TimePasses E) {next : Instant} (hnext : next < instantEnd) :
    Halts (fun s => Lively E s.1.handle.fd) fun n =>
      (Battery.serveUntil E n (deadline.elim next fun d => min d next) none >>= fun _ =>
        pure none : Program (Battery × World) IoError (Option (Option Path))) := by
  have hlt : (deadline.elim next fun d => min d next) < instantEnd := by
    cases deadline with
    | none => exact hnext
    | some d => exact Nat.lt_of_le_of_lt (Nat.min_le_right d next) hnext
  obtain ⟨n, hn⟩ := ht _ hlt
  exact Program.halts_then (serveUntil_halts (.deadline rfl hn))
    fun _ => Program.halts_const fun s _ => by simp

theorem lookOnce_halts (ht : TimePasses E) :
    Halts (fun s => Lively E s.1.handle.fd) fun n => Battery.lookOnce E n deadline := by
  unfold Battery.lookOnce
  refine Program.halts_bind (J := fun _ s => Lively E s.1.handle.fd) service_halts (fun _ => ?_) ?_
  · refine Program.halts_bind (J := fun _ s => Lively E s.1.handle.fd)
      (Program.halts_const fun s _ => nofun) (fun found => ?_) ?_
    · cases found with
      | some path => exact Program.halts_const fun s _ => nofun
      | none =>
        refine Program.halts_bind (J := fun _ s => Lively E s.1.handle.fd)
          (Program.halts_const fun s _ => nofun) (fun now => ?_) ?_
        · cases hp : deadline.any fun d => decide (d ≤ now) with
          | true => exact Program.halts_const fun s _ => nofun
          | false =>
            cases hadd : checkedAdd now registrationPoll with
            | none => exact Program.halts_const fun s _ => nofun
            | some next =>
              obtain ⟨hlt, rfl⟩ := checkedAdd_eq_some_iff.mp hadd
              exact stretch_halts ht hlt
        · intro n s now s' hl heq
          rw [← (Prod.mk.inj heq).2]
          exact hl
    · intro n s found s' hl heq
      rw [← (Prod.mk.inj heq).2]
      exact hl
  · intro n s u s' hl heq
    have hfd := (service_faithful E n s).1
    rw [heq] at hfd
    rw [hfd]
    exact hl

/-- A turn that goes round again is a round. -/
theorem round_of_lookOnce (h : Battery.lookOnce E rounds deadline s = (.ok none, s')) :
    Round E rounds deadline s s' := by
  obtain ⟨u, s₁, hs, -⟩ := Program.bind_eq_ok_iff.mp h
  cases hl : lookedUp E s₁ with
  | some path =>
    rw [lookOnce_of_found hs hl] at h
    cases (Prod.mk.inj h).1
  | none =>
    have hm : Missed E rounds s s₁ := ⟨hs, hl⟩
    by_cases hp : PastDeadline E deadline (afterLook E s₁.2)
    · rw [lookOnce_of_past hm hp] at h
      cases (Prod.mk.inj h).1
    · cases ho : checkedAdd (clockAfter E s₁.2) registrationPoll with
      | none =>
        rw [lookOnce_of_overflow hm hp ho] at h
        cases (Prod.mk.inj h).1
      | some next =>
        rw [lookOnce_of_stretch hm hp ho] at h
        obtain ⟨wakeup, s₂, hserved, hpure⟩ := Program.bind_eq_ok_iff.mp h
        rw [← (Prod.mk.inj hpure).2]
        exact .intro hm hp (stretchEnd_min ho) hserved

/-- A round leaves the battery alone, but for its slot. -/
theorem Round.same (h : Round E rounds deadline s s') : ∃ slot, s'.1 = s.1.withRepush slot := by
  obtain @⟨s₁, d, wakeup, hm, -, -, hs⟩ := h
  have hserviced := (service_faithful E rounds s).2
  rw [hm.serviced] at hserviced
  have hserved := serveUntil_keeps (faithful_kept E rounds).serving d none (s₁.1, afterClock E s₁.2)
  rw [hs] at hserved
  obtain ⟨slot, h₁⟩ := hserviced.1
  obtain ⟨slot', h₂⟩ := hserved.1
  exact ⟨slot', by rw [h₂, h₁]; rfl⟩

/-- Once something ends the wait, no round is followed by another. -/
theorem Awaitable.no_round (h : Awaitable E deadline uniq) : ∃ n, ∀ rounds s s',
    s.1.uniq = uniq → n ≤ s.2.history.length → ¬ Round E rounds deadline s s' := by
  have hlater {rounds : Nat} {s s₁ : Battery × World} (hm : Missed E rounds s s₁) :
      s.2.history.length ≤ s₁.2.history.length := by
    obtain ⟨-, -, calls, hran, -⟩ := service_blind E rounds s.1 s.2
    rw [hm.serviced] at hran
    rw [hran.length]
    exact Nat.le_add_right _ _
  cases h with
  | @deadline d n hd h =>
    refine ⟨n, fun rounds s s' _ hn hround => ?_⟩
    obtain @⟨s₁, -, -, hm, he, -, -⟩ := hround
    have hle := hlater hm
    refine he ⟨d, hd, h _ ?_⟩
    rw [afterLook, World.length_next]
    omega
  | @registered n h =>
    refine ⟨n, fun rounds s s' hu hn hround => ?_⟩
    obtain @⟨s₁, -, -, hm, -, -, -⟩ := hround
    have hkept := (service_blind E rounds s.1 s.2).2.1
    rw [hm.serviced] at hkept
    refine h s₁.2.history (Nat.le_trans hn (hlater hm)) ?_
    rw [← hu, ← hkept]
    exact hm.nothing

/-- **The loop of `wait_for_power_supply`.** -/
theorem looking_halts (ht : TimePasses E) (hw : Awaitable E deadline uniq) :
    Halts (fun s => Lively E s.1.handle.fd ∧ s.1.uniq = uniq)
      fun n => loop (Battery.lookOnce E n deadline) n := by
  obtain ⟨n₀, hn₀⟩ := hw.no_round
  refine Program.halts_loop Nat.lt_wfRel.wf (fun s => n₀ - s.2.history.length)
    ((lookOnce_halts ht).imp fun s hs => hs.1) ?_
  rintro n s s' ⟨hl, hu⟩ hturn
  have hround := round_of_lookOnce hturn
  obtain ⟨slot, hsame⟩ := hround.same
  obtain ⟨calls, hran, -, hlooks⟩ := hround.ran
  have hlt : s.2.history.length < n₀ := by
    by_contra hle
    exact hn₀ n s s' hu (Nat.le_of_not_lt hle) hround
  have hlonger : s.2.history.length < s'.2.history.length := by
    rw [hran.length]
    cases calls with
    | nil => simp at hlooks
    | cons x calls => simp
  exact ⟨by rw [hsame]; exact ⟨hl, hu⟩, Nat.sub_lt_sub_left hlt hlonger⟩

theorem waitForPowerSupply_halts (ht : TimePasses E) (timeout : Duration) :
    Halts (fun s => Lively E s.1.handle.fd ∧
        Awaitable E (checkedAdd (E.time s.2.history) timeout) s.1.uniq)
      fun n => Battery.waitForPowerSupply E n timeout := by
  refine Program.halts_bind
    (J := fun now s => Lively E s.1.handle.fd ∧ Awaitable E (checkedAdd now timeout) s.1.uniq)
    (Program.halts_const fun s _ => nofun) (fun now => ⟨fun h => ?_, ?_⟩) ?_
  · exact Program.settles_loop ((lookOnce_halts ht).settles h) h
  · rintro s ⟨hl, hw⟩
    exact (looking_halts ht hw).ends s ⟨hl, rfl⟩
  · rintro n s now s' h heq
    obtain ⟨hnow, rfl⟩ := Prod.mk.inj heq
    cases hnow
    exact h

end Waiting

/-! ## The calls of the crate -/

section Calls

variable {E : Env}

/-- **Calls that do not wait come back**, whatever they find and whatever fails. -/
theorem calls_return {b : Battery} {w : World} (hl : Lively E b.handle.fd) :
    (∀ identity kind reading,
      Returns (fun n => Battery.create E n b.handle identity kind reading) w) ∧
    (∀ reading, Returns (fun n => Battery.update E n reading) (b, w)) ∧
    Returns (fun n => Battery.service E n) (b, w) ∧
    Returns (fun n => (b.destroy E n : Program World IoError Handle)) w :=
  ⟨fun identity kind reading =>
      (create_halts (I := fun _ => True) hl identity kind reading).eventually trivial,
    fun reading => (update_halts reading).eventually hl.patient,
    service_halts.eventually hl,
    (destroy_halts (I := fun _ => True) hl).eventually trivial⟩

theorem lively_ticking (fd : Fd) : Lively .ticking fd where
  patient _ _ := ⟨0, nofun⟩
  quiet := ⟨0, fun _ _ => rfl⟩

theorem le_ticking_time {history : List Entry} {t : Instant} (h : t ≤ history.length) :
    t ≤ Env.ticking.time history := by
  have hlater : history.length ≤ 100 * history.length * 1000000 := by omega
  exact Nat.le_trans h hlater

/-- A system at rest that takes every third call, if it is a write, and interrupts the
other writes. -/
def Env.stuttering : Env where
  __ := Env.calm .little 0
  write history _ _ := if history.length % 3 = 2 then .took eventSize else .fails .intr

theorem World.length_retried (E : Env) (fd : Fd) (event : Buffer) (w : World) (k : Nat) :
    (w.retried E fd event k).history.length = w.history.length + k := by
  induction k generalizing w with
  | zero => rfl
  | succ k ih =>
    rw [World.retried, ih, World.length_next]
    omega

theorem lively_stuttering (fd : Fd) : Lively .stuttering fd where
  patient w event := by
    have hthird : (w.history.length + (2 - w.history.length % 3)) % 3 = 2 := by omega
    refine ⟨2 - w.history.length % 3, ?_⟩
    have htook : Env.stuttering.write (w.retried .stuttering fd event
        (2 - w.history.length % 3)).history fd event = .took eventSize :=
      if_pos (by rw [World.length_retried, hthird])
    rw [htook]
    exact nofun
  quiet := ⟨0, fun _ _ => rfl⟩

/-- The calls of a mouse with a request of either kind in its queue, and what one of them
comes to. -/
theorem calls_return_mouse : ∃ w,
    w = .queueing [Fake.built (Fake.getReport .little 7 2 rtypeInput),
      Fake.built (Fake.setReport .little 8 2 rtypeInput)] ∧
    Returns (fun n => Battery.create .stuttering n ⟨3⟩ (.new "Mouse" "mouse-1") .mouse
      ⟨50, false⟩) w ∧
    Returns (fun n => Battery.update .stuttering n ⟨50, true⟩) (mouse 3, w) ∧
    Returns (fun n => Battery.service .stuttering n) (mouse 3, w) ∧
    Returns (fun n => ((mouse 3).destroy .stuttering n : Program World IoError Handle)) w ∧
    (Battery.service .stuttering 3 (mouse 3, w)).1 = .ok () ∧
    (writes 3 (Battery.service .stuttering 3 (mouse 3, w)).2.2.history).map (fun x => x.2.2) =
      [.fails .intr, .took eventSize, .fails .intr, .took eventSize] := by
  refine ⟨_, rfl, ?_⟩
  obtain ⟨hcreate, hupdate, hservice, hdestroy⟩ :=
    calls_return (b := mouse 3) (lively_stuttering (mouse 3).handle.fd)
  exact ⟨hcreate _ _ _, hupdate _, hservice, hdestroy, by decide +kernel⟩

/-- **Serving comes back** at its deadline, woken, or interrupted. -/
theorem serving_returns {deadline : Option Instant} {wake : Option Fd} {batteries : List Battery}
    {w : World} (hl : ∀ b ∈ batteries, Lively E b.handle.fd) (h : Recalled E deadline wake) :
    Returns (fun n => serveAll E n deadline wake) (batteries, w) ∧
    ∀ b ∈ batteries, ∀ d, deadline = some d →
      Returns (fun n => Battery.serveUntil E n d wake) (b, w) := by
  refine ⟨(serveAll_halts h).eventually hl, fun b hb d hd => ?_⟩
  rw [hd] at h
  exact (serveUntil_halts h).eventually (hl b hb)

theorem serving_returns_mice :
    Returns (fun n => serveAll .ticking n (some 100) none)
      ([mouse 3, mouse 4], World.started) :=
  (serving_returns (fun b _ => lively_ticking b.handle.fd)
    (.deadline (n := 100) rfl fun _ h => le_ticking_time h)).1

/-- **Waiting for the power supply comes back** at its deadline, or soon after the
registration. -/
theorem waiting_returns {b : Battery} {w : World} {timeout : Duration}
    (hl : Lively E b.handle.fd) (ht : TimePasses E)
    (h : Awaitable E (checkedAdd (E.time w.history) timeout) b.uniq) :
    Returns (fun n => Battery.waitForPowerSupply E n timeout) (b, w) :=
  (waitForPowerSupply_halts ht timeout).eventually ⟨hl, h⟩

theorem ticking_passes : TimePasses .ticking := fun t _ => ⟨t, fun _ h => le_ticking_time h⟩

/-- A system at rest where time passes, which lists the supply of a mouse from the fourth
call on. -/
def Env.plugged : Env where
  __ := Env.ticking
  listing history := .ok (if history.length < 3 then [] else
    [.ok (supplyName (Utf8.utf8 "mouse-1"))])

theorem plugged_registered {history : List Entry} (h : 3 ≤ history.length) :
    findPowerSupplyIn powerSupplyClass (Env.plugged.listing history) "mouse-1" ≠ none := by
  have hplain : ∀ b ∈ Utf8.utf8 "mouse-1", plain b = true :=
    List.all_eq_true.mp (show (Utf8.utf8 "mouse-1").all plain = true by decide)
  have hlisting : Env.plugged.listing history = .ok [.ok (supplyName (Utf8.utf8 "mouse-1"))] :=
    congrArg Except.ok (if_neg (Nat.not_lt_of_le h))
  have hfound : findPowerSupplyIn powerSupplyClass (Env.plugged.listing history) "mouse-1" =
      some (join powerSupplyClass (supplyName (Utf8.utf8 "mouse-1"))) := by
    rw [hlisting]
    exact findPowerSupplyIn_eq_some_iff.mpr
      ⟨_, List.find?_cons_of_pos ((isSupplyOf_iff hplain _).mpr .bare), rfl⟩
  rw [hfound]
  exact Option.some_ne_none _

/-- Once with a deadline, and once without, until the supply is registered. -/
theorem waiting_returns_mouse :
    Returns (fun n => Battery.waitForPowerSupply .ticking n 100) (mouse 3, .started) ∧
    Returns (fun n => Battery.waitForPowerSupply .plugged n instantEnd) (mouse 3, .started) := by
  constructor
  · exact waiting_returns (lively_ticking (mouse 3).handle.fd) ticking_passes
      (.deadline (d := 100) (n := 100) (checkedAdd_eq_some_iff.mpr ⟨by decide, rfl⟩)
        fun _ h => le_ticking_time h)
  · exact waiting_returns ⟨fun _ _ => ⟨0, nofun⟩, 0, fun _ _ => rfl⟩ ticking_passes
      (.registered (n := 3) fun _ h => plugged_registered h)

end Calls

end UhidBattery
