import UhidBattery.ServeUntil
import UhidBattery.PowerSupply
import UhidBattery.Lib.FailStop

/-!
# Errors

A call of the crate fails exactly when a call it makes to the system fails for
good: with that error, and without calling the system again.  It panics only
where the clock is too near the end of time.

* `Entry.fatal?`: which calls to the system fail for good.
* `stops_write`, `stops_service`, `stops_wait`: the parts.
* `calls_fail_at_once`, `serveAll_fails_at_once`: the calls of the crate.
-/

namespace UhidBattery

open Record (ByteOrder)
open Program (Outcome Journal Failures Stops Reports FailsAtOnce borrow mapErr ofOutcome)

/-! ## Failures -/

/-- The error of a call that failed for good: not for want of events, and not
interrupted.  With a wake descriptor, one that is broken counts too. -/
def Entry.fatal? (withWake : Bool) (x : Entry) : Option IoError :=
  match x.call with
  | .read _ (.failed e) => if e = .again ∨ e = .intr then none else some (.os e)
  | .write _ _ (.fails e) => if e = .intr then none else some (.os e)
  | .write _ _ (.took written) =>
    if written = eventSize then none
    else some (.custom .writeZero s!"short write to uhid: {written} of {eventSize} bytes")
  | .poll _ _ (.fails e) => if e = .intr then none else some (.os e)
  | .poll fds _ (.ready _ revents) =>
    if withWake ∧ contains (revents (fds.length - 1)) pollIn = false ∧
        intersects (revents (fds.length - 1)) (pollHup ||| pollErr ||| pollNval) then
      some (.custom .other "the wake descriptor is hung up, in error or not open")
    else none
  | _ => none

/-- The failures of calls to the system, and clock readings near the end of time. -/
def failures (withWake : Bool) : Failures Entry IoError where
  fatal? := Entry.fatal? withWake
  late x := x.call = .now ∧ instantEnd ≤ x.time + chargeFlipRepushDelay

def journal (E : Env) : Journal World Entry where
  Keeps w calls w' := Ran E w calls w'
  nil := .nil
  append h h' := h.append h'

/-! ## The handle -/

section Parts

variable {E : Env} {rounds : Nat} {withWake : Bool}

theorem stops_now (w : World) :
    Stops (journal E) (failures withWake) id (sysNow E : Program World IoError Instant) w :=
  ⟨_, .single trivial, .ok (by simp [failures, Entry.fatal?])⟩

theorem Interrupted.fatal? {fd : Fd} {event : Buffer} {calls : List Entry}
    (h : Interrupted fd event calls) : ∀ x ∈ calls, x.fatal? withWake = none := by
  intro x hx
  rw [Entry.fatal?, h x hx]
  rfl

variable (withWake) in
/-- **A write**, by its calls. -/
theorem Written.reports {fd : Fd} {event : Buffer} {o : Outcome IoError Unit} {calls : List Entry}
    (h : Written fd event o calls) : Reports (failures withWake) id o calls := by
  cases h with
  | waiting _ hr => exact .pending hr.fatal?
  | answered retries x answer hr hx ha =>
    cases answer with
    | fails e =>
      have he : e ≠ .intr := fun h => ha (by rw [h])
      exact .err hr.fatal? (by simp [failures, Entry.fatal?, hx, he])
    | took written =>
      rw [WriteAnswer.outcome]
      by_cases hn : written = eventSize
      · rw [if_pos hn]
        refine .ok (List.forall_mem_append.mpr ⟨hr.fatal?, ?_⟩)
        simp [failures, Entry.fatal?, hx, hn]
      · rw [if_neg hn]
        have hfatal : x.fatal? withWake = some (.custom .writeZero
            s!"short write to uhid: {written} of {eventSize} bytes") := by
          rw [Entry.fatal?, hx]
          exact if_neg hn
        exact .err hr.fatal? hfatal

theorem stops_write (handle : Handle) (event : Buffer) (w : World) :
    Stops (journal E) (failures withWake) id (handle.write E rounds event) w := by
  obtain ⟨calls, hran, hw⟩ := write_spec E handle event rounds w
  exact ⟨calls, hran, hw.reports withWake⟩

/-- **A read.** -/
theorem stops_read (handle : Handle) (w : World) :
    Stops (journal E) (failures withWake) id (handle.read E) w := by
  have hg : Genuine E w (.read handle.fd (w.readResult E handle.fd)) := rfl
  have hran := Ran.single hg
  rw [Stops, read_eq]
  rcases hr : w.readResult E handle.fd with buf | _ | e
  · rw [hr] at hran
    exact ⟨_, hran, .ok (by simp [failures, Entry.fatal?])⟩
  · rw [hr] at hran
    exact ⟨_, hran, .ok (by simp [failures, Entry.fatal?])⟩
  · rw [hr] at hran
    by_cases he : e = .again ∨ e = .intr
    · refine ⟨_, hran, ?_⟩
      have ho : (ReadResult.failed e).outcome E.order = .ok none := by
        rcases he with rfl | rfl <;> rfl
      rw [ho]
      exact .ok (by simp [failures, Entry.fatal?, he])
    · refine ⟨_, hran, ?_⟩
      have ho : (ReadResult.failed e).outcome E.order = .err (.os e) := by
        cases e <;> simp_all [ReadResult.outcome]
      rw [ho]
      exact .err_one (by simp [failures, Entry.fatal?, he])

/-! ## The battery -/

theorem stops_push (b : Battery) (w : World) :
    Stops (journal E) (failures withWake) id (b.push E rounds) w := by
  obtain ⟨buf, -, hpush⟩ := push_eq E b
  rw [hpush]
  exact stops_write b.handle buf w

/-- A clock reading, and what follows: near the end of time that may be a panic. -/
theorem stops_after_now {α : Type} {f : Instant → Program (Battery × World) IoError α}
    (s : Battery × World)
    (h : Stops (journal E).onSnd (failures withWake) id (f (E.time s.2.history))
        (s.1, s.2.next E .now) ∨
      f (E.time s.2.history) = ofOutcome .panic ∧
        instantEnd ≤ E.time s.2.history + chargeFlipRepushDelay) :
    Stops (journal E).onSnd (failures withWake) id ((borrow fun _ => sysNow E) >>= f) s := by
  have hran : Ran E s.2 [s.2.entry E .now] (s.2.next E .now) := .single trivial
  have hnow : (borrow fun _ => sysNow E : Program (Battery × World) IoError Instant) s =
      (.ok (E.time s.2.history), (s.1, s.2.next E .now)) := rfl
  rw [Stops, Program.bind_ok hnow]
  rcases h with h | ⟨hf, hlate⟩
  · have hsafe : ∀ x ∈ [s.2.entry E .now], (failures withWake).fatal? x = none := by
      simp [failures, Entry.fatal?]
    exact Stops.prepend (J := journal E) hran hsafe h
  · rw [hf]
    exact ⟨_, hran, .panic_one ⟨rfl, hlate⟩ (by simp [failures, Entry.fatal?])⟩

theorem stops_scheduleRepush {delay : Duration} (hd : delay ≤ chargeFlipRepushDelay)
    (s : Battery × World) :
    Stops (journal E).onSnd (failures withWake) id (Battery.scheduleRepush E delay) s := by
  refine stops_after_now s ?_
  cases hadd : checkedAdd (E.time s.2.history) delay with
  | some due => exact Or.inl Program.stops_update
  | none =>
    have hover := checkedAdd_eq_none_iff.mp hadd
    exact Or.inr ⟨rfl, Nat.le_trans hover (Nat.add_le_add_left hd _)⟩

theorem stops_update (reading : Reading) (s : Battery × World) :
    Stops (journal E).onSnd (failures withWake) id (Battery.update E rounds reading) s := by
  obtain ⟨b, w⟩ := s
  have hstore (s : Battery × World) :
      Stops (journal E).onSnd (failures withWake) id (storeAndPush E rounds reading) s :=
    Program.stops_bind Program.stops_update fun _ s' _ =>
      Program.stops_borrow (stops_push s'.1 s'.2)
  rw [Stops, update_eq]
  by_cases hf : b.flips reading
  · rw [if_pos hf]
    exact Program.stops_bind (stops_scheduleRepush (Nat.le_refl _) (b, w)) fun _ s' _ => hstore s'
  · rw [if_neg hf]
    exact hstore (b, w)

theorem stops_answer (event : Event) (s : Battery × World) :
    Stops (journal E).onSnd (failures withWake) id (Battery.answer E rounds event) s := by
  obtain ⟨b, w⟩ := s
  cases hreply : b.replyTo event with
  | some m =>
    obtain ⟨buf, -, hanswer⟩ := answer_reply E b hreply
    rw [Stops, hanswer]
    exact stops_write b.handle buf w
  | none =>
    cases event with
    | start =>
      have hd : startSettleDelay ≤ chargeFlipRepushDelay := by decide
      exact stops_scheduleRepush hd (b, w)
    | ignored => exact Program.stops_pure ()
    | getReport id rnum rtype => cases hreply
    | setReport id => cases hreply

theorem stops_service (s : Battery × World) :
    Stops (journal E).onSnd (failures withWake) id (Battery.service E rounds) s := by
  refine Program.stops_bind (Program.stops_loop (fun s => ?_) rounds s) fun _ s' _ => ?_
  · refine Program.stops_bind (Program.stops_borrow (stops_read s.1.handle s.2))
      fun event s' _ => ?_
    cases event with
    | some event =>
      exact Program.stops_bind (stops_answer event s') fun _ _ _ => Program.stops_pure _
    | none => exact Program.stops_pure _
  · have hdue : Stops (journal E).onSnd (failures withWake) id
        (borrow fun self => self.isDue E : Program (Battery × World) IoError Bool) s' := by
      refine Program.stops_borrow ?_
      rw [Battery.isDue]
      cases s'.1.repushAt with
      | some due => exact Program.stops_bind (stops_now s'.2) fun _ _ _ => Program.stops_pure _
      | none => exact Program.stops_pure _
    refine Program.stops_bind hdue fun due s' _ => ?_
    cases due with
    | true =>
      exact Program.stops_bind Program.stops_update fun _ s' _ =>
        Program.stops_borrow (stops_push s'.1 s'.2)
    | false => exact Program.stops_pure _

/-! ## Serving -/

theorem stops_wait {fds : List PollFd} (timeout : Option Duration) (w : World)
    (hfds : withWake → fds ≠ []) :
    Stops (journal E) (failures withWake) id (wait E fds withWake timeout) w := by
  have hran {answer : PollAnswer} (h : E.poll w.history fds (timeout.map timespecOf) = answer) :
      Ran E w [w.entry E (.poll fds (timeout.map timespecOf) answer)]
        (w.next E (.poll fds (timeout.map timespecOf) answer)) := .single h.symm
  rw [Stops, wait_eq]
  rcases ha : E.poll w.history fds (timeout.map timespecOf) with ⟨count, revents⟩ | e
  · refine ⟨_, hran ha, ?_⟩
    rw [PollAnswer.outcome, readyOf]
    cases withWake with
    | false => exact .ok (by simp [failures, Entry.fatal?])
    | true =>
      rw [if_pos ⟨rfl, hfds rfl⟩]
      split_ifs with hin hbroken
      · exact .ok (by simp [failures, Entry.fatal?, hin])
      · exact .err_one (by simp [failures, Entry.fatal?, hin, hbroken])
      · exact .ok (by simp [failures, Entry.fatal?, hbroken])
  · refine ⟨_, hran ha, ?_⟩
    by_cases he : e = .intr
    · rw [he]
      exact .ok (by simp [failures, Entry.fatal?])
    · have ho : (PollAnswer.fails e).outcome fds withWake = .err (.os e) := by
        cases e <;> simp_all [PollAnswer.outcome]
      rw [ho]
      exact .err_one (by simp [failures, Entry.fatal?, he])

theorem stops_serviceAll (s : List Battery × World) :
    Stops (journal E).onSnd (failures withWake) ServeError.source (serviceAll E rounds) s := by
  have hone (i : Nat) (s : Battery × World) :
      Stops (journal E).onSnd (failures withWake) ServeError.source
        (mapErr (fun source => ⟨some i, source⟩) (Battery.service E rounds)) s :=
    Program.stops_mapErr (fun _ => rfl) (stops_service s)
  exact Program.stops_tryForEach hone 0 s.1 s.2

theorem stops_reached (deadline : Option Instant) (w : World) :
    Stops (journal E) (failures withWake) ServeError.source (reached E deadline) w := by
  cases deadline with
  | some d =>
    have hnow : Stops (journal E) (failures withWake) ServeError.source
        (sysNow E : Program World ServeError Instant) w :=
      ⟨_, .single trivial, .ok (by simp [failures, Entry.fatal?])⟩
    exact Program.stops_bind hnow fun _ _ _ => Program.stops_pure _
  | none => exact Program.stops_pure _

/-- **Serving a slice.** -/
theorem stops_serveAll (deadline : Option Instant) (wake : Option Fd)
    (s : List Battery × World) :
    Stops (journal E).onSnd (failures wake.isSome) ServeError.source
      (serveAll E rounds deadline wake) s := by
  have hlast (wakeup : Wakeup) (s : List Battery × World) :
      Stops (journal E).onSnd (failures wake.isSome) ServeError.source
        (serviceAll E rounds >>= fun _ => pure (some wakeup)) s :=
    Program.stops_bind (stops_serviceAll s) fun _ _ _ => Program.stops_pure _
  refine Program.stops_loop (fun s => Program.stops_bind ?_ fun ready s' _ => ?_) rounds s
  · refine Program.stops_bind (stops_serviceAll s) fun _ s' _ => ?_
    refine Program.stops_bind ⟨_, .single trivial, .ok (by simp [failures, Entry.fatal?])⟩
      fun now s' _ => ?_
    refine Program.stops_borrow (Program.stops_mapErr (fun _ => rfl) (stops_wait _ s'.2 ?_))
    cases wake <;> simp [pollFds]
  · cases ready with
    | wake => exact hlast .wake s'
    | interrupted => exact hlast .interrupted s'
    | device =>
      refine Program.stops_bind (Program.stops_borrow (stops_reached deadline s'.2))
        fun past s' _ => ?_
      cases past with
      | true => exact hlast .deadline s'
      | false => exact Program.stops_pure _

theorem stops_serveUntil (deadline : Instant) (wake : Option Fd) (s : Battery × World) :
    Stops (journal E).onSnd (failures wake.isSome) id
      (Battery.serveUntil E rounds deadline wake) s := by
  obtain ⟨b, w⟩ := s
  refine Program.stops_onOne (Program.stops_mapErr (fun _ => rfl) ?_)
  have hserve : Stops (journal E).onSnd (failures wake.isSome) ServeError.source
      (serveAll E rounds (some deadline) wake) ([b], w) := stops_serveAll (some deadline) wake _
  rw [Stops, ← serveUntil_loop] at hserve
  exact hserve

theorem stops_lookOnce (deadline : Option Instant) (s : Battery × World) :
    Stops (journal E).onSnd (failures false) id (Battery.lookOnce E rounds deadline) s := by
  have hlook (s : Battery × World) : Stops (journal E).onSnd (failures false) id
      (borrow fun self => self.powerSupply E : Program (Battery × World) IoError _) s :=
    ⟨_, .single rfl, .ok (by simp [failures, Entry.fatal?])⟩
  refine Program.stops_bind (stops_service s) fun _ s' _ => ?_
  refine Program.stops_bind (hlook s') fun found s' _ => ?_
  cases found with
  | some path => exact Program.stops_pure _
  | none =>
    refine stops_after_now s' ?_
    cases deadline.any fun d => decide (d ≤ E.time s'.2.history) with
    | true => exact Or.inl (Program.stops_pure _)
    | false =>
      cases hadd : checkedAdd (E.time s'.2.history) registrationPoll with
      | some next =>
        exact Or.inl (Program.stops_bind (stops_serveUntil _ none _)
          fun _ _ _ => Program.stops_pure _)
      | none =>
        have hpoll : registrationPoll ≤ chargeFlipRepushDelay := by decide
        exact Or.inr ⟨rfl, Nat.le_trans (checkedAdd_eq_none_iff.mp hadd)
          (Nat.add_le_add_left hpoll _)⟩

theorem stops_waitForPowerSupply (timeout : Duration) (s : Battery × World) :
    Stops (journal E).onSnd (failures false) id
      (Battery.waitForPowerSupply E rounds timeout) s :=
  stops_after_now s (Or.inl (Program.stops_loop (stops_lookOnce _) rounds _))

end Parts

/-! ## The calls of the crate -/

section Calls

variable {E : Env} {rounds : Nat} {withWake : Bool}

/-- What a program that stops at its first failure shows of itself. -/
theorem failsAtOnce_of_stops {ω ε α : Type} {source : ε → IoError} {m : Program (ω × World) ε α}
    {s : ω × World} (h : Stops (journal E).onSnd (failures withWake) source m s) :
    FailsAtOnce (failures withWake) source (m s).1 (s.2.since (m s).2.2) := by
  obtain ⟨calls, hran, hr⟩ := h
  have hran : Ran E s.2 calls (m s).2.2 := hran
  rw [hran.since]
  exact hr.failsAtOnce

/-- **No failure of the system is passed over, made up, or followed by another
call**: by `update`, `service`, `serve_until` and `wait_for_power_supply`. -/
theorem calls_fail_at_once (E : Env) (rounds : Nat) (s : Battery × World) :
    (∀ reading, FailsAtOnce (failures false) id (Battery.update E rounds reading s).1
      (s.2.since (Battery.update E rounds reading s).2.2)) ∧
    FailsAtOnce (failures false) id (Battery.service E rounds s).1
      (s.2.since (Battery.service E rounds s).2.2) ∧
    (∀ deadline wake, FailsAtOnce (failures wake.isSome) id
      (Battery.serveUntil E rounds deadline wake s).1
      (s.2.since (Battery.serveUntil E rounds deadline wake s).2.2)) ∧
    ∀ timeout, FailsAtOnce (failures false) id
      (Battery.waitForPowerSupply E rounds timeout s).1
      (s.2.since (Battery.waitForPowerSupply E rounds timeout s).2.2) :=
  ⟨fun reading => failsAtOnce_of_stops (stops_update reading s),
    failsAtOnce_of_stops (stops_service s),
    fun deadline wake => failsAtOnce_of_stops (stops_serveUntil deadline wake s),
    fun timeout => failsAtOnce_of_stops (stops_waitForPowerSupply timeout s)⟩

/-- The same of `serve_all`, for any slice. -/
theorem serveAll_fails_at_once (E : Env) (rounds : Nat) (deadline : Option Instant)
    (wake : Option Fd) (s : List Battery × World) :
    FailsAtOnce (failures wake.isSome) ServeError.source (serveAll E rounds deadline wake s).1
      (s.2.since (serveAll E rounds deadline wake s).2.2) :=
  failsAtOnce_of_stops (stops_serveAll deadline wake s)

/-- The write that failed, by its message, and what came before and after it: the
`CREATE2`, which leaves nothing to undo, or the first `INPUT2`, after a `CREATE2`
that was taken, which is undone. -/
inductive FailedWrite (order : ByteOrder) (handle : Handle) (identity : Identity) (kind : Kind)
    (reading : Reading) (earlier : List Entry) (m : Fake.Sent) (undo : List Entry) : Prop where
  | create2 (hm : m = identity.message kind) (hs : sent order handle.fd earlier = [])
      (hu : undo = []) : FailedWrite order handle identity kind reading earlier m undo
  | input2 (hm : m = .input2 (reportOf kind reading.clamped))
      (hs : sent order handle.fd earlier = [identity.message kind])
      (hu : Destroyed order handle (.ok handle : Outcome CreateError Handle) undo) :
      FailedWrite order handle identity kind reading earlier m undo

/-- What the calls of `create` show of its outcome. -/
structure CreateFails (order : ByteOrder) (handle : Handle) (identity : Identity) (kind : Kind)
    (reading : Reading) (o : Outcome CreateError Battery) (calls : List Entry) : Prop where
  clean : ∀ b, o = .ok b → ∀ x ∈ calls, x.fatal? false = none
  blamed : ∀ e, o = .err e → e.handle = handle ∧
    (e.kind = .invalidIdentity ∧ identity.validate = .err e.source ∧ calls = [] ∨
      e.kind = .io ∧ identity.validate = .ok () ∧ ∃ earlier x buf answer undo,
        calls = earlier ++ x :: undo ∧ (∀ y ∈ earlier, y.fatal? false = none) ∧
        x.call = .write handle.fd buf answer ∧ x.fatal? false = some e.source ∧
        FailedWrite order handle identity kind reading earlier (sentOf order buf) undo)
  calm : o ≠ .panic

theorem Destroyed.outcome {ε : Type} {order : ByteOrder} {handle : Handle} {o : Outcome ε Handle}
    {calls : List Entry} (h : Destroyed order handle o calls) : o = .ok handle ∨ o = .pending := by
  cases h with
  | writing hb hw => exact Or.inr rfl
  | drained hb hw ho hd =>
    cases hd with
    | stopped => exact Or.inl rfl
    | draining => exact Or.inr rfl

/-- A write that failed: interrupted, and then refused. -/
theorem Written.refused {fd : Fd} {event : Buffer} {e : IoError} {calls : List Entry}
    (h : Written fd event (.err e) calls) (order : ByteOrder) :
    ∃ retries x answer, calls = retries ++ [x] ∧ (∀ y ∈ retries, y.fatal? false = none) ∧
      x.call = .write fd event answer ∧ x.fatal? false = some e ∧ sent order fd retries = [] := by
  obtain ⟨retries, x, rfl, hr, hx⟩ := (h.reports false).of_err
  obtain ⟨answer, hcall⟩ := h.calls_write x (by simp)
  have hsent : sent order fd (retries ++ [x]) = [] := by
    rcases h.sent_cases order with ⟨ho, -⟩ | ⟨-, hs⟩
    · cases ho
    · exact hs
  rw [sent_append, List.append_eq_nil_iff] at hsent
  exact ⟨retries, x, answer, rfl, hr, hcall, hx, hsent.1⟩

section Create

variable {order : ByteOrder} {handle : Handle} {identity : Identity} {kind : Kind}
  {reading : Reading} {o : Outcome CreateError Battery} {calls : List Entry}

/-- A failure to push is the error, and all that follows is the undoing. -/
theorem FirstPush.fails {earlier : List Entry}
    (h : FirstPush order (Battery.new handle kind identity.uniq reading) o calls)
    (hv : identity.validate = .ok ()) (hsafe : ∀ y ∈ earlier, y.fatal? false = none)
    (hs : sent order handle.fd earlier = [identity.message kind]) :
    CreateFails order handle identity kind reading o (earlier ++ calls) := by
  cases h with
  | pushed hb hw =>
    have hpush := (hw.reports false).of_ok
    exact ⟨fun _ _ => List.forall_mem_append.mpr ⟨hsafe, hpush⟩, nofun, nofun⟩
  | pushing hb hw => exact ⟨nofun, nofun, nofun⟩
  | @undone buf e o calls undo hb hw hd =>
    obtain ⟨retries, x, answer, rfl, hr, hcall, hx, hsilent⟩ := hw.refused order
    rcases hd.outcome with rfl | rfl
    · refine ⟨nofun, fun e' he => ?_, nofun⟩
      cases he
      have hsent : sent order handle.fd (earlier ++ retries) = [identity.message kind] := by
        rw [sent_append, hs]
        exact congrArg (_ :: ·) hsilent
      refine ⟨rfl, Or.inr ⟨rfl, hv, earlier ++ retries, x, buf, answer, undo, by simp, ?_, hcall,
        hx, .input2 hb hsent hd⟩⟩
      exact List.forall_mem_append.mpr ⟨hsafe, hr⟩
    · exact ⟨nofun, nofun, nofun⟩

theorem Created.fails (h : Created order handle identity kind reading o calls) :
    CreateFails order handle identity kind reading o calls := by
  cases h with
  | invalid hv =>
    refine ⟨nofun, fun e he => ?_, nofun⟩
    cases he
    exact ⟨rfl, Or.inl ⟨rfl, hv, rfl⟩⟩
  | @refused buf e calls hv hb hw =>
    obtain ⟨retries, x, answer, rfl, hr, hcall, hx, hsilent⟩ := hw.refused order
    refine ⟨nofun, fun e he => ?_, nofun⟩
    cases he
    exact ⟨rfl, Or.inr ⟨rfl, hv, retries, x, buf, answer, [], rfl, hr, hcall, hx,
      .create2 hb hsilent rfl⟩⟩
  | creating hv hb hw => exact ⟨nofun, nofun, nofun⟩
  | @created buf o calls calls' hv hb hw hp =>
    have hsent : sent order handle.fd calls = [identity.message kind] := by
      rcases hw.sent_cases order with ⟨-, hs⟩ | ⟨ho, -⟩
      · rw [hs, hb]
      · exact absurd rfl ho
    exact hp.fails hv (hw.reports false).of_ok hsent

end Create

/-- **A failed `create`** gives the handle back with the error of the one write that
failed, of the `CREATE2` or of the first `INPUT2`, and does nothing after it but undo
what it did. -/
theorem create_fails_at_once (E : Env) (rounds : Nat) (handle : Handle) (identity : Identity)
    (kind : Kind) (reading : Reading) (w : World) :
    CreateFails E.order handle identity kind reading
      (Battery.create E rounds handle identity kind reading w).1
      (w.since (Battery.create E rounds handle identity kind reading w).2) :=
  (create_since rfl).2.fails

end Calls

end UhidBattery
