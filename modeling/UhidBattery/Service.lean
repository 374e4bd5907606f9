import UhidBattery.Battery
import UhidBattery.Lib.Deadlines

/-!
# What the operations of a battery do

Each operation, whatever the system answers, makes a stretch of calls of a
certain shape and leaves the battery in a certain state.  The shapes are
relations between the battery before, the outcome, the calls and the battery
after; they name no environment.

* `update_spec`, `service_spec`: the operations keep to their shapes.
* `Handled.sent`, `Handled.slot`: the replies and the slot after a prefix of
  the queue, as functions of what was read.
-/

namespace UhidBattery

open Record (ByteOrder)
open Program (Outcome loop attempt fail ofOutcome borrow Turn)
open Relation (ReflTransGen)

/-! ## One event -/

/-- The reply a request asks for. -/
def Battery.replyTo (self : Battery) : Event → Option Fake.Sent
  | .start | .ignored => none
  | .getReport id rnum rtype =>
    some (if rnum = self.kind.reportId ∧ rtype = rtypeInput then
      .getReportReply id 0 self.report else .getReportReply id eio [])
  | .setReport id => some (.setReportReply id eio)

/-- What `answer` does about an event. -/
inductive Answered (order : ByteOrder) (b : Battery) :
    Event → Outcome IoError Unit → List Entry → Battery → Prop where
  | scheduled (x : Entry) (hx : x.call = .now) :
      Answered order b .start (.ok ()) [x]
        (b.withRepush (earliest b.repushAt (x.time + startSettleDelay)))
  | overflow (x : Entry) (hx : x.call = .now) (ht : instantEnd ≤ x.time + startSettleDelay) :
      Answered order b .start .panic [x] b
  | replied {event : Event} {m : Fake.Sent} {buf : Buffer} {o : Outcome IoError Unit}
      {calls : List Entry} (hm : b.replyTo event = some m) (hb : sentOf order buf = m)
      (hw : Written b.handle.fd buf o calls) : Answered order b event o calls b
  | ignored : Answered order b .ignored (.ok ()) [] b

section Answer

variable (E : Env) (b : Battery)

/-- Answering a request is the write of its reply; encoding that never fails. -/
theorem answer_reply {event : Event} {m : Fake.Sent} (hm : b.replyTo event = some m) :
    ∃ buf, sentOf E.order buf = m ∧ ∀ rounds w, Battery.answer E rounds event (b, w) =
      ((b.handle.write E rounds buf w).1, (b, (b.handle.write E rounds buf w).2)) := by
  cases event with
  | start => cases hm
  | ignored => cases hm
  | setReport id =>
    obtain ⟨buf, hb, he⟩ := setReportReply_encodes E.order id
    refine ⟨buf, ?_, ?_⟩
    · rw [sentOf_of_encodes he]
      exact Option.some.inj hm
    · intro rounds w
      rw [Battery.answer, hb]
      rfl
  | getReport id rnum rtype =>
    by_cases hours : rnum = b.kind.reportId ∧ rtype = rtypeInput
    · obtain ⟨buf, hb, he⟩ := getReportReply_some_encodes E.order id b.report
        (by rw [length_report]; decide)
      refine ⟨buf, ?_, ?_⟩
      · rw [Battery.replyTo, if_pos hours] at hm
        rw [sentOf_of_encodes he]
        exact Option.some.inj hm
      · intro rounds w
        simp only [Battery.answer, borrow, hours, and_self, if_true, hb]
        rfl
    · obtain ⟨buf, hb, he⟩ := getReportReply_none_encodes E.order id
      refine ⟨buf, ?_, ?_⟩
      · rw [Battery.replyTo, if_neg hours] at hm
        rw [sentOf_of_encodes he]
        exact Option.some.inj hm
      · intro rounds w
        simp only [Battery.answer, borrow, if_neg hours, hb]
        rfl

theorem answer_spec (rounds : Nat) (w : World) (event : Event) :
    ∃ calls, Ran E w calls (Battery.answer E rounds event (b, w)).2.2 ∧
      Answered E.order b event (Battery.answer E rounds event (b, w)).1 calls
        (Battery.answer E rounds event (b, w)).2.1 := by
  cases hm : b.replyTo event with
  | some m =>
    obtain ⟨buf, hb, ha⟩ := answer_reply E b hm
    obtain ⟨calls, hran, hw⟩ := write_spec E b.handle buf rounds w
    rw [ha]
    exact ⟨calls, hran, .replied hm hb hw⟩
  | none =>
    cases event with
    | start =>
      refine ⟨[w.entry E .now], ?_⟩
      rw [Battery.answer, scheduleRepush_eq]
      split
      · exact ⟨.single trivial, .scheduled _ rfl⟩
      · rename_i hlt
        exact ⟨.single trivial, .overflow _ rfl (Nat.le_of_not_lt hlt)⟩
    | ignored => exact ⟨[], .nil w, .ignored⟩
    | getReport id rnum rtype => cases hm
    | setReport id => cases hm

end Answer

/-! ## The queue -/

/-- A prefix of the queue, read and answered. -/
inductive Handled (order : ByteOrder) (b : Battery) : List Entry → Battery → Prop where
  | nil : Handled order b [] b
  | snoc {calls calls' : List Entry} {b₁ b₂ : Battery} {x : Entry} {buf : Buffer}
      (h : Handled order b calls b₁) (hx : x.call = .read b₁.handle.fd (.delivered buf))
      (ha : Answered order b₁ (eventOf order buf) (.ok ()) calls' b₂) :
      Handled order b (calls ++ x :: calls') b₂

/-- The push that may be due when the queue is empty. -/
inductive Pushed (order : ByteOrder) (b : Battery) :
    Outcome IoError Unit → List Entry → Battery → Prop where
  | idle (hs : b.repushAt = none) : Pushed order b (.ok ()) [] b
  | early {due : Instant} {x : Entry} (hs : b.repushAt = some due) (hx : x.call = .now)
      (ht : x.time < due) : Pushed order b (.ok ()) [x] b
  | due {due : Instant} {x : Entry} {buf : Buffer} {o : Outcome IoError Unit}
      {calls : List Entry} (hs : b.repushAt = some due) (hx : x.call = .now) (ht : due ≤ x.time)
      (hb : sentOf order buf = .input2 b.report) (hw : Written b.handle.fd buf o calls) :
      Pushed order b o (x :: calls) (b.withRepush none)

/-- What `service` does, by its outcome. -/
inductive Served (order : ByteOrder) (b : Battery) :
    Outcome IoError Unit → List Entry → Battery → Prop where
  | pending {calls : List Entry} {b₁ : Battery} (h : Handled order b calls b₁) :
      Served order b .pending calls b₁
  | readFailed {calls : List Entry} {b₁ : Battery} {x : Entry} {result : ReadResult}
      {e : IoError} (h : Handled order b calls b₁) (hx : x.call = .read b₁.handle.fd result)
      (hr : result.outcome order = .err e) : Served order b (.err e) (calls ++ [x]) b₁
  | unanswered {calls calls' : List Entry} {b₁ b₂ : Battery} {x : Entry} {buf : Buffer}
      {o : Outcome IoError Unit} (h : Handled order b calls b₁)
      (hx : x.call = .read b₁.handle.fd (.delivered buf))
      (ha : Answered order b₁ (eventOf order buf) o calls' b₂) (ho : o ≠ .ok ()) :
      Served order b o (calls ++ x :: calls') b₂
  | emptied {calls calls' : List Entry} {b₁ b₂ : Battery} {x : Entry} {result : ReadResult}
      {o : Outcome IoError Unit} (h : Handled order b calls b₁)
      (hx : x.call = .read b₁.handle.fd result) (hr : result.outcome order = .ok none)
      (hp : Pushed order b₁ o calls' b₂) : Served order b o (calls ++ x :: calls') b₂

/-- What one turn of the loop does, by its outcome. -/
inductive Turned (order : ByteOrder) (b : Battery) :
    Outcome IoError (Option Unit) → List Entry → Battery → Prop where
  | empty {x : Entry} {result : ReadResult} (hx : x.call = .read b.handle.fd result)
      (hr : result.outcome order = .ok none) : Turned order b (.ok (some ())) [x] b
  | readFailed {x : Entry} {result : ReadResult} {e : IoError}
      (hx : x.call = .read b.handle.fd result) (hr : result.outcome order = .err e) :
      Turned order b (.err e) [x] b
  | answered {x : Entry} {buf : Buffer} {o : Outcome IoError Unit} {calls : List Entry}
      {b' : Battery} (hx : x.call = .read b.handle.fd (.delivered buf))
      (ha : Answered order b (eventOf order buf) o calls b') :
      Turned order b (o >>= fun _ => .ok none) (x :: calls) b'

/-- A turn that goes round again read an event and answered it. -/
theorem Turned.again {order : ByteOrder} {b b' : Battery} {calls : List Entry}
    (h : Turned order b (.ok none) calls b') :
    ∃ x buf rest, calls = x :: rest ∧ x.call = .read b.handle.fd (.delivered buf) ∧
      Answered order b (eventOf order buf) (.ok ()) rest b' := by
  generalize ho : (Outcome.ok none : Outcome IoError (Option Unit)) = o at h
  cases h with
  | empty hx hr => cases ho
  | readFailed hx hr => cases ho
  | @answered x buf o' calls b' hx ha =>
    cases o' with
    | ok u => exact ⟨x, buf, calls, rfl, hx, ha⟩
    | err e => cases ho
    | panic => cases ho
    | pending => cases ho

/-- A turn that ends the loop found the queue empty. -/
theorem Turned.last {order : ByteOrder} {b b' : Battery} {calls : List Entry} {u : Unit}
    (h : Turned order b (.ok (some u)) calls b') :
    ∃ x result, calls = [x] ∧ b' = b ∧ x.call = .read b.handle.fd result ∧
      result.outcome order = .ok none := by
  generalize ho : (Outcome.ok (some u) : Outcome IoError (Option Unit)) = o at h
  cases h with
  | @empty x result hx hr => exact ⟨x, result, rfl, rfl, hx, hr⟩
  | readFailed hx hr => cases ho
  | @answered x buf o' calls b' hx ha => cases o' <;> cases ho

/-- A turn that stops short ends `service` there. -/
theorem Turned.stopped {order : ByteOrder} {b b₁ b₂ : Battery} {calls calls' : List Entry}
    {o : Outcome IoError Unit} (h : Turned order b₁ (o >>= fun _ => .ok none) calls' b₂)
    (hh : Handled order b calls b₁) (ho : o ≠ .ok ()) :
    Served order b o (calls ++ calls') b₂ := by
  generalize hq : (o >>= fun _ => (.ok none : Outcome IoError (Option Unit))) = q at h
  cases h with
  | empty hx hr => cases o <;> cases hq
  | readFailed hx hr => cases o <;> cases hq; exact .readFailed hh hx hr
  | @answered x buf o' calls b' hx ha =>
    have hoo : o = o' := by
      cases o with
      | ok u => exact absurd rfl ho
      | err e => cases o' <;> cases hq; rfl
      | panic => cases o' <;> cases hq; rfl
      | pending => cases o' <;> cases hq; rfl
    rw [← hoo] at ha
    exact .unanswered hh hx ha ho

section Service

variable (E : Env) (rounds : Nat) (b : Battery) (w : World)

theorem handleRead_eq :
    (borrow fun self => self.handle.read E : Program (Battery × World) IoError _) (b, w) =
      ((w.readResult E b.handle.fd).outcome E.order,
        (b, w.next E (.read b.handle.fd (w.readResult E b.handle.fd)))) := by
  rw [borrow, read_eq]

theorem serviceOnce_of_delivered {buf : Buffer}
    (hr : w.readResult E b.handle.fd = .delivered buf) :
    Battery.serviceOnce E rounds (b, w) =
      ((Battery.answer E rounds (eventOf E.order buf)
          (b, w.next E (.read b.handle.fd (.delivered buf)))).1 >>= fun _ => .ok none,
        (Battery.answer E rounds (eventOf E.order buf)
          (b, w.next E (.read b.handle.fd (.delivered buf)))).2) := by
  have hread := handleRead_eq E b w
  rw [hr] at hread
  exact (Program.bind_ok hread).trans (Program.bind_pure_apply _ _ _)

theorem serviceOnce_of_none (ho : (w.readResult E b.handle.fd).outcome E.order = .ok none) :
    Battery.serviceOnce E rounds (b, w) =
      (.ok (some ()), (b, w.next E (.read b.handle.fd (w.readResult E b.handle.fd)))) := by
  have hread := handleRead_eq E b w
  rw [ho] at hread
  exact Program.bind_ok hread

theorem serviceOnce_of_err {e : IoError}
    (ho : (w.readResult E b.handle.fd).outcome E.order = .err e) :
    Battery.serviceOnce E rounds (b, w) =
      (.err e, (b, w.next E (.read b.handle.fd (w.readResult E b.handle.fd)))) := by
  have hread := handleRead_eq E b w
  rw [ho] at hread
  exact Program.bind_err hread

theorem serviceOnce_spec :
    ∃ calls, Ran E w calls (Battery.serviceOnce E rounds (b, w)).2.2 ∧
      Turned E.order b (Battery.serviceOnce E rounds (b, w)).1 calls
        (Battery.serviceOnce E rounds (b, w)).2.1 := by
  have hg : Genuine E w (.read b.handle.fd (w.readResult E b.handle.fd)) := rfl
  rcases ho : (w.readResult E b.handle.fd).outcome E.order with (_ | event) | e | _ | _
  · rw [serviceOnce_of_none E rounds b w ho]
    exact ⟨_, .single hg, .empty rfl ho⟩
  · obtain ⟨buf, hr, rfl⟩ := ReadResult.outcome_eq_some_iff.mp ho
    rw [serviceOnce_of_delivered E rounds b w hr]
    rw [hr] at hg
    obtain ⟨calls, hran, ha⟩ := answer_spec E b rounds
      (w.next E (.read b.handle.fd (.delivered buf))) (eventOf E.order buf)
    exact ⟨_, .cons hg hran, .answered rfl ha⟩
  · rw [serviceOnce_of_err E rounds b w ho]
    exact ⟨_, .single hg, .readFailed rfl ho⟩
  · exact absurd ho (ReadResult.outcome_returned _ _).ne_panic
  · exact absurd ho (ReadResult.outcome_returned _ _).ne_pending

theorem serviceOnce_turns {s : Battery × World}
    (h : ReflTransGen (Turn (Battery.serviceOnce E rounds)) (b, w) s) :
    ∃ calls, Ran E w calls s.2 ∧ Handled E.order b calls s.1 := by
  induction h with
  | refl => exact ⟨[], .nil w, .nil⟩
  | @tail s₁ s₂ _ hturn ih =>
    obtain ⟨calls, hran, hh⟩ := ih
    obtain ⟨calls', hran', ht⟩ := serviceOnce_spec E rounds s₁.1 s₁.2
    rw [show Battery.serviceOnce E rounds (s₁.1, s₁.2) = (.ok none, s₂) from hturn] at hran' ht
    obtain ⟨x, buf, rest, rfl, hx, ha⟩ := ht.again
    exact ⟨_, hran.append hran', hh.snoc hx ha⟩

/-- The push at the end of `service`. -/
def pushIfDue : Program (Battery × World) IoError Unit := do
  if ← borrow fun self => self.isDue E then
    Program.update fun self => self.withRepush none
    borrow fun self => self.push E rounds

theorem service_def :
    Battery.service E rounds = loop (Battery.serviceOnce E rounds) rounds >>= fun _ =>
      pushIfDue E rounds := rfl

theorem isDue_of_some {due : Instant} (hs : b.repushAt = some due) :
    (borrow fun self => self.isDue E : Program (Battery × World) IoError Bool) (b, w) =
      (.ok (decide (due ≤ E.time w.history)), (b, w.next E .now)) := by
  rw [borrow, Battery.isDue, hs]
  rfl

theorem pushIfDue_of_none (hs : b.repushAt = none) :
    pushIfDue E rounds (b, w) = (.ok (), (b, w)) := by
  have hdue : (borrow fun self => self.isDue E : Program (Battery × World) IoError Bool) (b, w) =
      (.ok false, (b, w)) := by
    rw [borrow, Battery.isDue, hs]
    rfl
  exact Program.bind_ok hdue

theorem pushIfDue_of_early {due : Instant} (hs : b.repushAt = some due)
    (ht : ¬ due ≤ E.time w.history) :
    pushIfDue E rounds (b, w) = (.ok (), (b, w.next E .now)) := by
  have hdue := isDue_of_some E b w hs
  rw [decide_eq_false ht] at hdue
  exact Program.bind_ok hdue

theorem pushIfDue_of_due {due : Instant} (hs : b.repushAt = some due)
    (ht : due ≤ E.time w.history) :
    ∃ buf, sentOf E.order buf = .input2 b.report ∧ ∀ rounds,
      pushIfDue E rounds (b, w) = ((b.handle.write E rounds buf (w.next E .now)).1,
        (b.withRepush none, (b.handle.write E rounds buf (w.next E .now)).2)) := by
  obtain ⟨buf, hb, hpush⟩ := push_eq E (b.withRepush none)
  refine ⟨buf, hb, ?_⟩
  intro rounds
  have hdue := isDue_of_some E b w hs
  rw [decide_eq_true ht] at hdue
  have htail : ((Program.update fun self => self.withRepush none :
      Program (Battery × World) IoError Unit) >>= fun _ => borrow fun self => self.push E rounds)
        (b, w.next E .now) = ((b.handle.write E rounds buf (w.next E .now)).1,
          (b.withRepush none, (b.handle.write E rounds buf (w.next E .now)).2)) := by
    rw [Program.bind_ok (Program.update_apply _ _), borrow, hpush]
    rfl
  exact (Program.bind_ok hdue).trans htail

theorem pushIfDue_spec :
    ∃ calls, Ran E w calls (pushIfDue E rounds (b, w)).2.2 ∧
      Pushed E.order b (pushIfDue E rounds (b, w)).1 calls (pushIfDue E rounds (b, w)).2.1 := by
  have hg : Genuine E w .now := trivial
  cases hs : b.repushAt with
  | none =>
    rw [pushIfDue_of_none E rounds b w hs]
    exact ⟨[], .nil w, .idle hs⟩
  | some due =>
    by_cases ht : due ≤ E.time w.history
    · obtain ⟨buf, hb, hpush⟩ := pushIfDue_of_due E b w hs ht
      obtain ⟨calls, hran, hw⟩ := write_spec E b.handle buf rounds (w.next E .now)
      rw [hpush]
      exact ⟨_, .cons hg hran, .due hs rfl ht hb hw⟩
    · rw [pushIfDue_of_early E rounds b w hs ht]
      exact ⟨_, .single hg, .early hs rfl (Nat.lt_of_not_le ht)⟩

/-- The loop that found the queue empty: a prefix handled, then a read of nothing. -/
theorem serviceLoop_of_ok {n m : Nat} {b b' : Battery} {w w' : World} {u : Unit}
    (h : loop (Battery.serviceOnce E n) m (b, w) = (.ok u, (b', w'))) :
    ∃ calls x result, Ran E w (calls ++ [x]) w' ∧ Handled E.order b calls b' ∧
      x.call = .read b'.handle.fd result ∧ result.outcome E.order = .ok none := by
  obtain ⟨⟨b₁, w₁⟩, hturns, hlast⟩ := Program.loop_eq_ok h
  obtain ⟨calls, hran, hh⟩ := serviceOnce_turns E n b w hturns
  obtain ⟨calls', hran', ht⟩ := serviceOnce_spec E n b₁ w₁
  rw [hlast] at hran' ht
  obtain ⟨x, result, rfl, rfl, hx, hr⟩ := ht.last
  exact ⟨calls, x, result, hran.append hran', hh, hx, hr⟩

/-- An empty queue. -/
theorem serviceLoop_of_empty (n : Nat) (hnone : w.readResult E b.handle.fd = .failed .again) :
    loop (Battery.serviceOnce E rounds) (n + 1) (b, w) =
      (.ok (), (b, w.next E (.read b.handle.fd (.failed .again)))) := by
  have hlast := serviceOnce_of_none E rounds b w (by rw [hnone]; rfl)
  rw [hnone] at hlast
  rw [Program.loop_succ_apply, hlast]

/-- A `START` at the head of the queue. -/
theorem serviceLoop_of_start_cons (n : Nat) {event : Buffer} (he : eventOf E.order event = .start)
    (hread : w.readResult E b.handle.fd = .delivered event)
    (hlt : E.time (w.next E (.read b.handle.fd (.delivered event))).history + startSettleDelay <
      instantEnd) :
    loop (Battery.serviceOnce E rounds) (n + 1) (b, w) = loop (Battery.serviceOnce E rounds) n
      (b.withRepush (earliest b.repushAt (E.time
          (w.next E (.read b.handle.fd (.delivered event))).history + startSettleDelay)),
        (w.next E (.read b.handle.fd (.delivered event))).next E .now) := by
  have hsched := scheduleRepush_eq E startSettleDelay b
    (w.next E (.read b.handle.fd (.delivered event)))
  rw [if_pos hlt] at hsched
  have hturn := serviceOnce_of_delivered E rounds b w hread
  rw [he, Battery.answer, hsched] at hturn
  rw [Program.loop_succ_apply, hturn]
  rfl

/-- A queue that holds one `START`. -/
theorem serviceLoop_of_start (n : Nat) {event : Buffer} (he : eventOf E.order event = .start)
    (hq : w.queue b.handle.fd = [event]) (hquiet : ∀ h, E.arrivals h b.handle.fd = [])
    (hserve : ∀ h, w.history.length ≤ h.length → E.read h b.handle.fd = .serve)
    (hlt : E.time (w.next E (.read b.handle.fd (.delivered event))).history + startSettleDelay <
      instantEnd) :
    loop (Battery.serviceOnce E rounds) (n + 2) (b, w) = (.ok (),
      (b.withRepush (earliest b.repushAt (E.time
          (w.next E (.read b.handle.fd (.delivered event))).history + startSettleDelay)),
        ((w.next E (.read b.handle.fd (.delivered event))).next E .now).next E
          (.read b.handle.fd (.failed .again)))) := by
  have hread := readResult_of_cons E (hserve _ (Nat.le_refl _)) hq
  have hempty : ((w.next E (.read b.handle.fd (.delivered event))).next E .now).queue
      b.handle.fd = [] := by
    rw [World.queue_next (hquiet _), World.queue_next (hquiet _), hq,
      delivered_entry_read (World.entry_call E w _), if_pos rfl]
    rfl
  have hnone := readResult_of_nil E (hserve _ (by simp only [World.length_next]; omega)) hempty
    (hquiet _)
  rw [serviceLoop_of_start_cons E rounds b w (n + 1) he hread hlt]
  exact serviceLoop_of_empty E rounds (b.withRepush _) _ n hnone

/-- **What `service` does**, whatever the system answers. -/
theorem service_spec :
    ∃ calls, Ran E w calls (Battery.service E rounds (b, w)).2.2 ∧
      Served E.order b (Battery.service E rounds (b, w)).1 calls
        (Battery.service E rounds (b, w)).2.1 := by
  obtain ⟨⟨b₁, w₁⟩, hturns, hlast⟩ :=
    Program.loop_turns (Battery.serviceOnce E rounds) rounds (b, w)
  obtain ⟨calls, hran, hh⟩ := serviceOnce_turns E rounds b w hturns
  obtain ⟨calls', hran', ht⟩ := serviceOnce_spec E rounds b₁ w₁
  rw [service_def, Program.bind_apply]
  rcases hl : loop (Battery.serviceOnce E rounds) rounds (b, w) with ⟨o, b', w'⟩
  rw [hl] at hlast
  cases o with
  | ok u =>
    obtain ⟨calls, x, result, hran, hh, hx, hr⟩ := serviceLoop_of_ok E hl
    obtain ⟨calls', hran', hp⟩ := pushIfDue_spec E rounds b' w'
    refine ⟨_, hran.append hran', ?_⟩
    rw [List.append_assoc, List.singleton_append]
    exact .emptied hh hx hr hp
  | err e =>
    rw [show Battery.serviceOnce E rounds (b₁, w₁) = (.err e, (b', w')) from hlast] at hran' ht
    have hstop : Turned E.order b₁ ((Outcome.err e : Outcome IoError Unit) >>= fun _ => .ok none)
      calls' b' := ht
    exact ⟨_, hran.append hran', hstop.stopped hh (by simp)⟩
  | panic =>
    rw [show Battery.serviceOnce E rounds (b₁, w₁) = (.panic, (b', w')) from hlast] at hran' ht
    have hstop : Turned E.order b₁ ((Outcome.panic : Outcome IoError Unit) >>= fun _ => .ok none)
      calls' b' := ht
    exact ⟨_, hran.append hran', hstop.stopped hh (by simp)⟩
  | pending =>
    rcases hlast with hs | hlast
    · obtain ⟨rfl, rfl⟩ := Prod.mk.inj hs
      exact ⟨calls, hran, .pending hh⟩
    · rw [show Battery.serviceOnce E rounds (b₁, w₁) = (.pending, (b', w')) from hlast]
        at hran' ht
      have hstop : Turned E.order b₁
        ((Outcome.pending : Outcome IoError Unit) >>= fun _ => .ok none) calls' b' := ht
      exact ⟨_, hran.append hran', hstop.stopped hh (by simp)⟩

end Service

/-! ## What the shapes say -/

section Facts

variable {order : ByteOrder} {b b' : Battery} {o : Outcome IoError Unit} {calls : List Entry}

theorem withRepush_withRepush (b : Battery) (slot slot' : Option Instant) :
    (b.withRepush slot).withRepush slot' = b.withRepush slot' := rfl

theorem withRepush_self (b : Battery) : b.withRepush b.repushAt = b := rfl

@[simp] theorem replyTo_withRepush (b : Battery) (slot : Option Instant) :
    (b.withRepush slot).replyTo = b.replyTo := rfl

theorem Answered.same {event : Event} (h : Answered order b event o calls b') :
    ∃ slot, b' = b.withRepush slot := by
  cases h with
  | scheduled x hx => exact ⟨_, rfl⟩
  | overflow x hx ht => exact ⟨_, (withRepush_self b).symm⟩
  | replied hm hb hw => exact ⟨_, (withRepush_self b).symm⟩
  | ignored => exact ⟨_, (withRepush_self b).symm⟩

theorem Answered.onlyOn {event : Event} (h : Answered order b event o calls b') :
    OnlyOn b.handle.fd calls := by
  cases h with
  | scheduled x hx => exact OnlyOn.now _ hx
  | overflow x hx ht => exact OnlyOn.now _ hx
  | replied hm hb hw => exact hw.onlyOn
  | ignored => exact OnlyOn.nil _

theorem Written.clocks_eq_nil {fd : Fd} {event : Buffer} (h : Written fd event o calls) :
    clocks calls = [] := by
  apply List.filterMap_eq_nil_iff.mpr
  intro x hx
  obtain ⟨answer, hc⟩ := h.calls_write x hx
  rw [Entry.now?, hc]

/-- The slot once the `START`s seen at these clock readings have had their say. -/
def settled (slot : Option Instant) (times : List Instant) : Option Instant :=
  times.foldl (fun slot t => earliest slot (t + startSettleDelay)) slot

theorem settled_eq (slot : Option Instant) (times : List Instant) :
    settled slot times = Deadlines.soonestOf slot (times.map fun t => t + startSettleDelay) := by
  rw [settled, Deadlines.soonestOf, List.foldl_map]
  rfl

/-- Settling never empties a slot. -/
theorem settled_eq_none_iff {slot : Option Instant} {times : List Instant} :
    settled slot times = none ↔ slot = none ∧ times = [] := by
  rw [settled_eq, Deadlines.soonestOf_eq_none_iff, List.map_eq_nil_iff]

theorem Answered.delivered_eq_nil {event : Event} (h : Answered order b event o calls b')
    (fd : Fd) : delivered fd calls = [] := by
  cases h with
  | scheduled x hx => exact delivered_of_now hx fd
  | overflow x hx ht => exact delivered_of_now hx fd
  | replied hm hb hw => exact hw.delivered_eq_nil fd
  | ignored => rfl

/-- An event answered whole: its reply was taken once, and a `START` moved the slot. -/
theorem Answered.whole {event : Event} (h : Answered order b event (.ok ()) calls b') :
    sent order b.handle.fd calls = (b.replyTo event).toList ∧
      b'.repushAt = settled b.repushAt (clocks calls) ∧
      (clocks calls).length = if event = .start then 1 else 0 := by
  generalize ho : (Outcome.ok () : Outcome IoError Unit) = o' at h
  cases h with
  | scheduled x hx =>
    rw [sent_of_now hx, clocks_of_now hx]
    exact ⟨rfl, rfl, rfl⟩
  | overflow x hx ht => cases ho
  | @replied event m buf o' calls hm hb hw =>
    rw [hw.clocks_eq_nil, hm]
    have hne : event ≠ .start := by
      rintro rfl
      cases hm
    rcases hw.sent_cases order with ⟨-, hs⟩ | ⟨hno, -⟩
    · exact ⟨by rw [hs, hb]; rfl, rfl, by rw [if_neg hne]; rfl⟩
    · exact absurd ho.symm hno
  | ignored => exact ⟨rfl, rfl, rfl⟩

theorem Handled.same (h : Handled order b calls b') : ∃ slot, b' = b.withRepush slot := by
  induction h with
  | nil => exact ⟨_, (withRepush_self b).symm⟩
  | snoc h hx ha ih =>
    obtain ⟨slot, rfl⟩ := ih
    obtain ⟨slot', rfl⟩ := ha.same
    exact ⟨slot', withRepush_withRepush b slot slot'⟩

theorem Handled.onlyOn (h : Handled order b calls b') : OnlyOn b.handle.fd calls := by
  induction h with
  | nil => exact OnlyOn.nil _
  | @snoc calls calls' b₁ b₂ x buf h hx ha ih =>
    obtain ⟨slot, rfl⟩ := h.same
    refine ih.append ?_
    rw [← List.singleton_append]
    exact (OnlyOn.read hx).append ha.onlyOn

/-- **The replies to a prefix of the queue**: one for each request, in order. -/
theorem Handled.sent (h : Handled order b calls b') :
    sent order b.handle.fd calls =
      (delivered b.handle.fd calls).filterMap fun buf => b.replyTo (eventOf order buf) := by
  induction h with
  | nil => rfl
  | @snoc calls calls' b₁ b₂ x buf h hx ha ih =>
    obtain ⟨slot, rfl⟩ := h.same
    have hw := ha.whole.1
    rw [withRepush_handle] at hx hw
    rw [← List.singleton_append, sent_append, sent_append, delivered_append, delivered_append,
      List.filterMap_append, ih, sent_of_read hx, hw, delivered_of_read hx,
      ha.delivered_eq_nil, replyTo_withRepush]
    simp [ReadResult.event?, List.filterMap_cons]
    cases b.replyTo (eventOf order buf) <;> rfl

/-- **The slot after a prefix of the queue.** -/
theorem Handled.slot (h : Handled order b calls b') :
    b'.repushAt = settled b.repushAt (clocks calls) ∧
      (clocks calls).length = ((delivered b.handle.fd calls).filter fun buf =>
        eventOf order buf = .start).length := by
  induction h with
  | nil => exact ⟨rfl, rfl⟩
  | @snoc calls calls' b₁ b₂ x buf h hx ha ih =>
    obtain ⟨slot, rfl⟩ := h.same
    obtain ⟨-, hslot, hcount⟩ := ha.whole
    rw [withRepush_handle] at hx
    rw [← List.singleton_append, clocks_append, clocks_append, clocks_of_read hx,
      List.nil_append]
    constructor
    · rw [hslot, ih.1, settled, settled, settled, List.foldl_append]
    · rw [delivered_append, delivered_append, delivered_of_read hx, ha.delivered_eq_nil,
        List.filter_append, List.length_append, List.length_append, ih.2, hcount]
      simp [ReadResult.event?, List.filter_cons]
      split <;> rfl

theorem Pushed.same (h : Pushed order b o calls b') : ∃ slot, b' = b.withRepush slot := by
  cases h with
  | idle hs => exact ⟨_, (withRepush_self b).symm⟩
  | early hs hx ht => exact ⟨_, (withRepush_self b).symm⟩
  | due hs hx ht hb hw => exact ⟨none, rfl⟩

theorem Pushed.onlyOn (h : Pushed order b o calls b') : OnlyOn b.handle.fd calls := by
  cases h with
  | idle hs => exact OnlyOn.nil _
  | early hs hx ht => exact OnlyOn.now _ hx
  | due hs hx ht hb hw =>
    rw [← List.singleton_append]
    exact (OnlyOn.now _ hx).append hw.onlyOn

theorem Pushed.delivered_eq_nil (h : Pushed order b o calls b') (fd : Fd) :
    delivered fd calls = [] := by
  cases h with
  | idle hs => rfl
  | early hs hx ht => exact delivered_of_now hx fd
  | due hs hx ht hb hw =>
    rw [← List.singleton_append, delivered_append, delivered_of_now hx, hw.delivered_eq_nil]
    rfl

theorem Served.same (h : Served order b o calls b') : ∃ slot, b' = b.withRepush slot := by
  cases h with
  | pending h => exact h.same
  | readFailed h hx hr => exact h.same
  | unanswered h hx ha ho =>
    obtain ⟨slot, rfl⟩ := h.same
    obtain ⟨slot', rfl⟩ := ha.same
    exact ⟨slot', withRepush_withRepush b slot slot'⟩
  | emptied h hx hr hp =>
    obtain ⟨slot, rfl⟩ := h.same
    obtain ⟨slot', rfl⟩ := hp.same
    exact ⟨slot', withRepush_withRepush b slot slot'⟩

/-- `service` uses nothing but its own descriptor and the clock. -/
theorem Served.onlyOn (h : Served order b o calls b') : OnlyOn b.handle.fd calls := by
  cases h with
  | pending h => exact h.onlyOn
  | readFailed h hx hr =>
    obtain ⟨slot, rfl⟩ := h.same
    exact h.onlyOn.append (OnlyOn.read hx)
  | unanswered h hx ha ho =>
    obtain ⟨slot, rfl⟩ := h.same
    rw [← List.singleton_append]
    exact h.onlyOn.append ((OnlyOn.read hx).append ha.onlyOn)
  | emptied h hx hr hp =>
    obtain ⟨slot, rfl⟩ := h.same
    rw [← List.singleton_append]
    exact h.onlyOn.append ((OnlyOn.read hx).append hp.onlyOn)

end Facts

/-! ## What a battery may write -/

/-- The messages of a battery whose reading does not change: its report, in an
`INPUT2` or in answer to a request, and refusals. -/
def Battery.MaySay (self : Battery) (m : Fake.Sent) : Prop :=
  m = .input2 self.report ∨ ∃ event, self.replyTo event = some m

/-- Every write of the stretch, taken or not, is one the battery may make. -/
def Battery.OnlySays (order : ByteOrder) (self : Battery) (calls : List Entry) : Prop :=
  ∀ x ∈ writes self.handle.fd calls, self.MaySay (sentOf order x.2.1)

section Says

variable {order : ByteOrder} {b b' : Battery} {o : Outcome IoError Unit} {s t calls : List Entry}

theorem onlySays_nil (order : ByteOrder) (b : Battery) : b.OnlySays order [] := by
  simp [Battery.OnlySays]

theorem onlySays_append (hs : b.OnlySays order s) (ht : b.OnlySays order t) :
    b.OnlySays order (s ++ t) := by
  intro x hx
  rw [writes_append] at hx
  rcases List.mem_append.mp hx with hx | hx
  · exact hs x hx
  · exact ht x hx

theorem onlySays_of_writes (h : writes b.handle.fd calls = []) : b.OnlySays order calls := by
  rw [Battery.OnlySays, h]
  simp

/-- All writes of a write are of its event. -/
theorem Written.event_eq {fd : Fd} {event : Buffer} (h : Written fd event o calls) :
    ∀ x ∈ writes fd calls, x.2.1 = event := by
  intro y hy
  obtain ⟨x, hx, hxy⟩ := List.mem_filterMap.mp hy
  obtain ⟨answer, hc⟩ := h.calls_write x hx
  rw [Entry.write?, hc] at hxy
  simp only [if_true, Option.some.injEq] at hxy
  rw [← hxy]

theorem Written.onlySays {event : Buffer} (h : Written b.handle.fd event o calls)
    (hm : b.MaySay (sentOf order event)) : b.OnlySays order calls := by
  intro x hx
  rw [h.event_eq x hx]
  exact hm

theorem Answered.onlySays {event : Event} (h : Answered order b event o calls b') :
    b.OnlySays order calls := by
  cases h with
  | scheduled x hx => exact onlySays_of_writes (writes_of_now hx _)
  | overflow x hx ht => exact onlySays_of_writes (writes_of_now hx _)
  | replied hm hb hw => exact hw.onlySays (Or.inr ⟨event, by rw [hb]; exact hm⟩)
  | ignored => exact onlySays_nil order b

theorem Pushed.onlySays (h : Pushed order b o calls b') : b.OnlySays order calls := by
  cases h with
  | idle hs => exact onlySays_nil order b
  | early hs hx ht => exact onlySays_of_writes (writes_of_now hx _)
  | due hs hx ht hb hw =>
    rw [← List.singleton_append]
    exact onlySays_append (onlySays_of_writes (writes_of_now hx _)) (hw.onlySays (Or.inl hb))

theorem Handled.onlySays (h : Handled order b calls b') : b.OnlySays order calls := by
  induction h with
  | nil => exact onlySays_nil order b
  | snoc h hx ha ih =>
    obtain ⟨slot, rfl⟩ := h.same
    rw [← List.singleton_append]
    exact onlySays_append ih
      (onlySays_append (onlySays_of_writes (writes_of_read hx _)) ha.onlySays)

/-- **`service` writes nothing else.** -/
theorem Served.onlySays (h : Served order b o calls b') : b.OnlySays order calls := by
  cases h with
  | pending h => exact h.onlySays
  | readFailed h hx hr =>
    exact onlySays_append h.onlySays (onlySays_of_writes (writes_of_read hx _))
  | unanswered h hx ha ho =>
    obtain ⟨slot, rfl⟩ := h.same
    rw [← List.singleton_append]
    exact onlySays_append h.onlySays
      (onlySays_append (onlySays_of_writes (writes_of_read hx _)) ha.onlySays)
  | emptied h hx hr hp =>
    obtain ⟨slot, rfl⟩ := h.same
    rw [← List.singleton_append]
    exact onlySays_append h.onlySays
      (onlySays_append (onlySays_of_writes (writes_of_read hx _)) hp.onlySays)

end Says

end UhidBattery
