import UhidBattery.Service

/-!
# Every request is answered exactly once

`service` over a queue of any length, with writes that may be interrupted any
number of times.

* `service_ends`: with a queue that stops growing, `service` comes to an end.
* `service_of_ok`, `service_of_err`, `service_of_panic`: how it ends, and what it has
  written by then.
* `service_answers`: all of it, whatever the queue.
-/

namespace UhidBattery

open Record (ByteOrder)
open Program (Outcome loop Settles)

/-! ## Coming to an end -/

/-- The system after `k` interrupted writes of `event`. -/
def World.retried (E : Env) (fd : Fd) (event : Buffer) (w : World) : Nat → World
  | 0 => w
  | k + 1 => (w.next E (.write fd event (.fails .intr))).retried E fd event k

/-- No write is interrupted for ever. -/
def Patient (E : Env) (fd : Fd) : Prop :=
  ∀ (w : World) (event : Buffer),
    ∃ k, E.write (w.retried E fd event k).history fd event ≠ .fails .intr

section Ends

variable {E : Env} {fd : Fd}

theorem write_returns (self : Handle) {event : Buffer} {k : Nat} {w : World}
    (h : E.write (w.retried E self.fd event k).history self.fd event ≠ .fails .intr) :
    ∃ rounds, (self.write E rounds event w).1.Returned := by
  induction k generalizing w with
  | zero =>
    have h₀ : E.write w.history self.fd event ≠ .fails .intr := h
    refine ⟨1, ?_⟩
    rw [write_succ, if_neg h₀]
    exact WriteAnswer.outcome_returned _
  | succ k ih =>
    by_cases ha : E.write w.history self.fd event = .fails .intr
    · obtain ⟨rounds, hr⟩ := ih h
      refine ⟨rounds + 1, ?_⟩
      rw [write_succ, if_pos ha]
      exact hr
    · refine ⟨1, ?_⟩
      rw [write_succ, if_neg ha]
      exact WriteAnswer.outcome_returned _

theorem write_settles (self : Handle) (event : Buffer) {n n' : Nat} (h : n ≤ n') :
    Settles (self.write E n event) (self.write E n' event) :=
  Program.settles_bind (Program.settles_loop (Settles.refl _) h) fun _ => Settles.refl _

theorem answer_settles (event : Event) {n n' : Nat} (h : n ≤ n') :
    Settles (Battery.answer E n event) (Battery.answer E n' event) := by
  cases event with
  | start => exact Settles.refl _
  | ignored => exact Settles.refl _
  | getReport id rnum rtype =>
    exact Program.settles_borrow fun (self : Battery) =>
      Program.settles_bind (Settles.refl _) fun reply => write_settles self.handle reply h
  | setReport id =>
    exact Program.settles_borrow fun (self : Battery) =>
      Program.settles_bind (Settles.refl _) fun reply => write_settles self.handle reply h

theorem serviceOnce_settles {n n' : Nat} (h : n ≤ n') :
    Settles (Battery.serviceOnce E n) (Battery.serviceOnce E n') := by
  apply Program.settles_bind (Settles.refl _)
  intro event
  cases event with
  | some event => exact Program.settles_bind (answer_settles event h) fun _ => Settles.refl _
  | none => exact Settles.refl _

theorem pushIfDue_settles {n n' : Nat} (h : n ≤ n') :
    Settles (pushIfDue E n) (pushIfDue E n') := by
  apply Program.settles_bind (Settles.refl _)
  intro due
  split
  · exact Program.settles_bind (Settles.refl _) fun _ =>
      Program.settles_borrow fun (self : Battery) =>
        Program.settles_bind (Settles.refl _) fun event => write_settles self.handle event h
  · exact Settles.refl _

theorem service_settles {n n' : Nat} (h : n ≤ n') :
    Settles (Battery.service E n) (Battery.service E n') := by
  rw [service_def, service_def]
  exact Program.settles_bind (Program.settles_loop (serviceOnce_settles h) h)
    fun _ => pushIfDue_settles h

theorem write_ends (hp : Patient E fd) (event : Buffer) (w : World) :
    ∃ n, ((Handle.mk fd).write E n event w).1 ≠ .pending := by
  obtain ⟨k, hk⟩ := hp w event
  obtain ⟨n, hn⟩ := write_returns ⟨fd⟩ hk
  exact ⟨n, hn.ne_pending⟩

theorem answer_ends {b : Battery} (hp : Patient E b.handle.fd) (event : Event) (w : World) :
    ∃ n, (Battery.answer E n event (b, w)).1 ≠ .pending := by
  cases hm : b.replyTo event with
  | some m =>
    obtain ⟨buf, -, ha⟩ := answer_reply E b hm
    obtain ⟨n, hn⟩ := write_ends hp buf w
    exact ⟨n, by rw [ha]; exact hn⟩
  | none =>
    cases event with
    | start =>
      refine ⟨0, ?_⟩
      rw [Battery.answer, scheduleRepush_eq]
      split <;> simp
    | ignored => exact ⟨0, by simp [Battery.answer]⟩
    | getReport id rnum rtype => cases hm
    | setReport id => cases hm

theorem pushIfDue_ends {b : Battery} (hp : Patient E b.handle.fd) (w : World) :
    ∃ n, (pushIfDue E n (b, w)).1 ≠ .pending := by
  cases hs : b.repushAt with
  | none => exact ⟨0, by rw [pushIfDue_of_none E 0 b w hs]; simp⟩
  | some due =>
    by_cases ht : due ≤ E.time w.history
    · obtain ⟨buf, -, hpush⟩ := pushIfDue_of_due E b w hs ht
      obtain ⟨n, hn⟩ := write_ends hp buf (w.next E .now)
      exact ⟨n, by rw [hpush]; exact hn⟩
    · exact ⟨0, by rw [pushIfDue_of_early E 0 b w hs ht]; simp⟩

theorem serviceOnce_ends {b : Battery} (hp : Patient E b.handle.fd) (w : World) :
    ∃ n, (Battery.serviceOnce E n (b, w)).1 ≠ .pending := by
  rcases ho : (w.readResult E b.handle.fd).outcome E.order with (_ | event) | e | _ | _
  · exact ⟨0, by rw [serviceOnce_of_none E 0 b w ho]; simp⟩
  · obtain ⟨buf, hr, rfl⟩ := ReadResult.outcome_eq_some_iff.mp ho
    obtain ⟨n, hn⟩ := answer_ends hp (eventOf E.order buf)
      (w.next E (.read b.handle.fd (.delivered buf)))
    refine ⟨n, ?_⟩
    rw [serviceOnce_of_delivered E n b w hr]
    rcases hans : (Battery.answer E n (eventOf E.order buf)
      (b, w.next E (.read b.handle.fd (.delivered buf)))).1 with u | e | _ | _
    · simp
    · simp
    · simp
    · exact absurd hans hn
  · exact ⟨0, by rw [serviceOnce_of_err E 0 b w ho]; simp⟩
  · exact absurd ho (ReadResult.outcome_returned _ _).ne_panic
  · exact absurd ho (ReadResult.outcome_returned _ _).ne_pending

/-- A turn that goes round again takes one event off a queue that does not grow. -/
theorem turn_shortens {b b' : Battery} {w w' : World} {n : Nat}
    (hquiet : ∀ h, E.arrivals h b.handle.fd = [])
    (h : Battery.serviceOnce E n (b, w) = (.ok none, (b', w'))) :
    b'.handle = b.handle ∧
      (w.queue b.handle.fd).length = (w'.queue b.handle.fd).length + 1 := by
  obtain ⟨calls, hran, ht⟩ := serviceOnce_spec E n b w
  rw [h] at hran ht
  obtain ⟨x, buf, rest, rfl, hx, ha⟩ := ht.again
  obtain ⟨slot, rfl⟩ := ha.same
  have hq := hran.queue b.handle.fd
  rw [hran.arrived_eq_nil hquiet, List.append_nil, ← List.singleton_append, delivered_append,
    delivered_of_read hx, ha.delivered_eq_nil, List.append_nil] at hq
  refine ⟨rfl, ?_⟩
  rw [hq, List.length_append]
  exact Nat.add_comm 1 _

/-- The loop over a queue that does not grow. -/
theorem loop_ends (hquiet : ∀ h, E.arrivals h fd = []) (hp : Patient E fd) {k : Nat}
    {b : Battery} {w : World} (hfd : b.handle.fd = fd) (hk : (w.queue fd).length = k) :
    ∃ n, (loop (Battery.serviceOnce E n) n (b, w)).1 ≠ .pending := by
  subst hfd
  induction k generalizing b w with
  | zero =>
    obtain ⟨n, hn⟩ := serviceOnce_ends hp w
    apply Program.loop_ends_of_turn serviceOnce_settles hn
    intro s' hs'
    have hlen := (turn_shortens hquiet hs').2
    omega
  | succ k ih =>
    obtain ⟨n, hn⟩ := serviceOnce_ends hp w
    apply Program.loop_ends_of_turn serviceOnce_settles hn
    intro s' hs'
    obtain ⟨hh, hlen⟩ := turn_shortens hquiet hs'
    rw [← hh] at hquiet hp
    exact ih hquiet hp (by rw [hh]; omega)

/-- **`service` comes to an end** when its queue stops growing and no write is
interrupted for ever. -/
theorem service_ends {b : Battery} (hquiet : ∀ h, E.arrivals h b.handle.fd = [])
    (hp : Patient E b.handle.fd) (w : World) :
    ∃ rounds, (Battery.service E rounds (b, w)).1 ≠ .pending := by
  obtain ⟨n, hn⟩ := loop_ends (b := b) (w := w) hquiet hp rfl rfl
  refine Program.bind_ends (fun h => Program.settles_loop (serviceOnce_settles h) h)
    (fun _ h => pushIfDue_settles h) hn fun _ s' hs' => ?_
  obtain ⟨calls, x, result, -, hh, -, -⟩ := serviceLoop_of_ok E hs'
  obtain ⟨slot, hb⟩ := hh.same
  exact pushIfDue_ends (by rw [hb]; exact hp) s'.2

end Ends

/-! ## Writes that are taken -/

/-- Every write was taken, if not at the first try. -/
def AllTaken (fd : Fd) (calls : List Entry) : Prop :=
  ∀ x ∈ writes fd calls, x.2.2 = .took eventSize ∨ x.2.2 = .fails .intr

section Taken

variable {fd : Fd} {o : Outcome IoError Unit} {s t calls : List Entry}

theorem allTaken_append : AllTaken fd (s ++ t) ↔ AllTaken fd s ∧ AllTaken fd t := by
  rw [AllTaken, writes_append, List.forall_mem_append]
  rfl

/-- A system that takes every write. -/
theorem Ran.allTaken {E : Env} {w w' : World} (hran : Ran E w calls w')
    (htake : ∀ h event, E.write h fd event = .took eventSize) : AllTaken fd calls := by
  intro x hx
  obtain ⟨history, hanswer⟩ := hran.mem_writes hx
  rw [hanswer]
  exact Or.inl (htake _ _)

/-- A write that came back, if it was taken, came back well. -/
theorem Written.ok_of_taken {event : Buffer} (h : Written fd event o calls) (ho : o.Returned)
    (ht : AllTaken fd calls) : o = .ok () := by
  cases h with
  | waiting retries hr => exact ho.elim
  | answered retries x answer hr hx ha =>
    have hlast := (allTaken_append.mp ht).2 (x.time, event, answer)
      (by rw [writes_of_write hx]; exact List.mem_cons_self)
    rcases hlast with htook | hintr
    · exact (WriteAnswer.outcome_eq_ok_iff answer).mpr htook
    · exact absurd hintr ha

theorem Answered.ok_of_taken {order : ByteOrder} {b b' : Battery} {event : Event}
    (h : Answered order b event o calls b') (ho : o.Returned)
    (ht : AllTaken b.handle.fd calls) : o = .ok () := by
  cases h with
  | scheduled x hx => rfl
  | overflow x hx ht => exact ho.elim
  | replied hm hb hw => exact hw.ok_of_taken ho ht
  | ignored => rfl

end Taken

/-! ## How it ends -/

/-- Every event read so far was answered: one reply for each request, in order,
and one look at the clock for each `START`. -/
structure UpToDate (order : ByteOrder) (b : Battery) (calls : List Entry) : Prop where
  replies : sent order b.handle.fd calls =
    (delivered b.handle.fd calls).filterMap fun buf => b.replyTo (eventOf order buf)
  starts : (clocks calls).length =
    ((delivered b.handle.fd calls).filter fun buf => eventOf order buf = .start).length

theorem Handled.upToDate {order : ByteOrder} {b b' : Battery} {calls : List Entry}
    (h : Handled order b calls b') : UpToDate order b calls :=
  ⟨h.sent, h.slot.2⟩

theorem UpToDate.append_read {order : ByteOrder} {b : Battery} {calls : List Entry} {x : Entry}
    {result : ReadResult} (h : UpToDate order b calls) (hx : x.call = .read b.handle.fd result)
    (hr : result.event? = none) : UpToDate order b (calls ++ [x]) := by
  have hd : delivered b.handle.fd [x] = [] := by
    rw [delivered_of_read hx, hr]
    rfl
  constructor
  · rw [sent_append, delivered_append, sent_of_read hx, hd, List.append_nil, List.append_nil,
      h.replies]
  · rw [clocks_append, delivered_append, clocks_of_read hx, hd, List.append_nil,
      List.append_nil, h.starts]

theorem ReadResult.event?_of_outcome {order : ByteOrder} {result : ReadResult}
    (h : result.outcome order = .ok none) : result.event? = none := by
  rcases result with buf | _ | e
  · cases h
  · rfl
  · rfl

/-- No read is interrupted, and none reports the end. -/
def Uninterrupted (E : Env) (fd : Fd) : Prop :=
  ∀ h, E.read h fd = .serve ∨ ∃ code, E.read h fd = .fails (.other code)

/-- A read that gave nothing although nothing interrupted it found the queue empty. -/
theorem queue_eq_nil_of_read {E : Env} {w w' : World} {calls : List Entry} {x : Entry} {fd : Fd}
    {result : ReadResult} (hu : Uninterrupted E fd) (hran : Ran E w (calls ++ [x]) w')
    (hx : x.call = .read fd result) (hr : result.outcome E.order = .ok none) :
    w'.queue fd = [] := by
  obtain ⟨w₁, -, hlast, hres⟩ := hran.last_read hx
  have hq := hlast.queue fd
  have harr : arrived fd [x] = E.arrivals w₁.history fd := by
    rw [(ran_cons_iff.mp hlast).1, World.arrived_entry]
  rw [delivered_of_read hx, ReadResult.event?_of_outcome hr, harr] at hq
  rcases hu w₁.history with hserve | ⟨code, hfails⟩
  · rcases readResult_of_serve E hserve with ⟨buf, rest, -, hdel⟩ | ⟨hnil, -⟩
    · rw [hres, hdel] at hr
      cases hr
    · rw [hnil] at hq
      exact hq.symm
  · rw [hres, World.readResult, hfails] at hr
    cases hr

theorem outcome_ne_err_of_serve {E : Env} {w : World} {fd : Fd} {e : IoError}
    (hserve : ∀ h, E.read h fd = .serve) : (w.readResult E fd).outcome E.order ≠ .err e := by
  rcases readResult_of_serve E (hserve w.history) with ⟨buf, rest, -, hdel⟩ | ⟨-, hagain⟩
  · rw [hdel]
    simp [ReadResult.outcome]
  · rw [hagain]
    simp [ReadResult.outcome]

/-- The answer that failed was the write of a reply. -/
theorem Answered.refused {order : ByteOrder} {b b' : Battery} {event : Event} {e : IoError}
    {calls : List Entry} (h : Answered order b event (.err e) calls b') :
    ∃ buf, b.replyTo event = some (sentOf order buf) ∧
      Written b.handle.fd buf (.err e) calls := by
  cases h with
  | replied hm hb hw => exact ⟨_, by rw [hb]; exact hm, hw⟩

/-- What the push at the end of `service` shows, when it succeeds. -/
theorem Pushed.shows {order : ByteOrder} {b b' : Battery} {calls : List Entry}
    (h : Pushed order b (.ok ()) calls b') :
    match b.repushAt with
    | none => calls = []
    | some d => ∃ t, clocks calls = [t] ∧
        sent order b.handle.fd calls = if d ≤ t then [.input2 b.report] else [] := by
  generalize ho : (Outcome.ok () : Outcome IoError Unit) = o at h
  cases h with
  | idle hs =>
    rw [hs]
  | @early d x hs hx ht =>
    rw [hs]
    exact ⟨x.time, clocks_of_now hx, by rw [sent_of_now hx, if_neg (Nat.not_le_of_lt ht)]⟩
  | @due d x buf o calls hs hx ht hb hw =>
    rw [hs]
    refine ⟨x.time, ?_, ?_⟩
    · rw [← List.singleton_append, clocks_append, clocks_of_now hx, hw.clocks_eq_nil]
      rfl
    · rw [← List.singleton_append, sent_append, sent_of_now hx, if_pos ht, List.nil_append]
      rcases hw.sent_cases order with ⟨-, hs⟩ | ⟨hno, -⟩
      · rw [hs, hb]
      · exact absurd ho.symm hno

/-- How things stand once the read that found the queue empty is done. -/
theorem Handled.found_empty {E : Env} {b : Battery} {slot : Option Instant} {w w' : World}
    {calls calls' : List Entry} {x : Entry} {result : ReadResult}
    (hh : Handled E.order b calls (b.withRepush slot)) (hu : Uninterrupted E b.handle.fd)
    (hx : x.call = .read b.handle.fd result) (hr : result.outcome E.order = .ok none)
    (hran : Ran E w (calls ++ x :: calls') w') :
    ∃ w₁, Ran E w (calls ++ [x]) w₁ ∧ Ran E w₁ calls' w' ∧ w₁.queue b.handle.fd = [] ∧
      UpToDate E.order b (calls ++ [x]) ∧ settled b.repushAt (clocks (calls ++ [x])) = slot := by
  rw [← List.singleton_append, ← List.append_assoc] at hran
  obtain ⟨w₁, hqueue, hpush⟩ := ran_append_iff.mp hran
  refine ⟨w₁, hqueue, hpush, queue_eq_nil_of_read hu hqueue hx hr,
    hh.upToDate.append_read hx (ReadResult.event?_of_outcome hr), ?_⟩
  rw [clocks_append, clocks_of_read hx, List.append_nil]
  exact hh.slot.1.symm

/-- What a `service` that succeeds has done, when nothing interrupts its reads. -/
theorem service_of_ok {E : Env} {rounds : Nat} {b b' : Battery} {w w' : World}
    (hu : Uninterrupted E b.handle.fd)
    (h : Battery.service E rounds (b, w) = (.ok (), (b', w'))) :
    ∃ queue push w₁, Ran E w queue w₁ ∧ Ran E w₁ push w' ∧
      delivered b.handle.fd queue = w.queue b.handle.fd ++ arrived b.handle.fd queue ∧
      w'.queue b.handle.fd = arrived b.handle.fd push ∧
      UpToDate E.order b queue ∧
      match settled b.repushAt (clocks queue) with
      | none => push = []
      | some due => ∃ t, clocks push = [t] ∧
          sent E.order b.handle.fd push = if due ≤ t then [.input2 b.report] else [] := by
  obtain ⟨calls, hran, hs⟩ := service_spec E rounds b w
  rw [h] at hran hs
  generalize ho : (Outcome.ok () : Outcome IoError Unit) = o at hs
  cases hs with
  | pending hh => cases ho
  | readFailed hh hx hr => cases ho
  | unanswered hh hx ha hne => exact absurd ho.symm hne
  | @emptied calls calls' b₁ b₂ x result o hh hx hr hp =>
    subst ho
    obtain ⟨slot, rfl⟩ := hh.same
    obtain ⟨w₁, hqueue, hpush, hempty, hdone, hslot⟩ := hh.found_empty hu hx hr hran
    refine ⟨_, _, w₁, hqueue, hpush, ?_, ?_, hdone, ?_⟩
    · have hq := hqueue.queue b.handle.fd
      rw [hempty, List.append_nil] at hq
      exact hq.symm
    · rw [hpush.queue_of_unread (hp.delivered_eq_nil _), hempty, List.nil_append]
    · rw [hslot]
      exact hp.shows

/-- What a `service` that fails has done, when its reads serve the queue: the write
that failed was of the reply to the request read last, or of a push that was due. -/
theorem service_of_err {E : Env} {rounds : Nat} {b b' : Battery} {w w' : World} {e : IoError}
    (hserve : ∀ h, E.read h b.handle.fd = .serve)
    (h : Battery.service E rounds (b, w) = (.err e, (b', w'))) :
    ∃ queue x event calls w₁, Ran E w queue w₁ ∧ Ran E w₁ (x :: calls) w' ∧
      UpToDate E.order b queue ∧ Written b.handle.fd event (.err e) calls ∧
      ((∃ buf, x.call = .read b.handle.fd (.delivered buf) ∧
          b.replyTo (eventOf E.order buf) = some (sentOf E.order event)) ∨
        (w₁.queue b.handle.fd = [] ∧ x.call = .now ∧ sentOf E.order event = .input2 b.report ∧
          ∃ due ≤ x.time, settled b.repushAt (clocks queue) = some due)) := by
  obtain ⟨calls, hran, hs⟩ := service_spec E rounds b w
  rw [h] at hran hs
  generalize ho : (Outcome.err e : Outcome IoError Unit) = o at hs
  cases hs with
  | pending hh => cases ho
  | @readFailed calls b₁ x result e' hh hx hr =>
    obtain ⟨slot, rfl⟩ := hh.same
    obtain ⟨w₁, -, -, hres⟩ := hran.last_read hx
    rw [hres] at hr
    exact absurd hr (outcome_ne_err_of_serve hserve)
  | @unanswered calls calls' b₁ b₂ x buf o hh hx ha hne =>
    subst ho
    obtain ⟨slot, rfl⟩ := hh.same
    obtain ⟨w₁, hqueue, hrest⟩ := ran_append_iff.mp hran
    obtain ⟨reply, hm, hw⟩ := ha.refused
    exact ⟨_, x, _, _, w₁, hqueue, hrest, hh.upToDate, hw, Or.inl ⟨buf, hx, hm⟩⟩
  | @emptied calls calls' b₁ b₂ x result o hh hx hr hp =>
    subst ho
    obtain ⟨slot, rfl⟩ := hh.same
    obtain ⟨w₁, hqueue, hpush, hempty, hdone, hslot⟩ :=
      hh.found_empty (fun h => Or.inl (hserve h)) hx hr hran
    cases hp with
    | due hs hx' ht hb hw =>
      exact ⟨_, _, _, _, w₁, hqueue, hpush, hdone, hw,
        Or.inr ⟨hempty, hx', hb, _, ht, hslot.trans hs⟩⟩

theorem Pushed.ne_panic {order : ByteOrder} {b b' : Battery} {o : Outcome IoError Unit}
    {calls : List Entry} (h : Pushed order b o calls b') : o ≠ .panic := by
  cases h with
  | idle hs => simp
  | early hs hx ht => simp
  | due hs hx ht hb hw => exact hw.ne_panic

/-- The answer that panicked was to a `START`, near the end of time. -/
theorem Answered.panicked {order : ByteOrder} {b b' : Battery} {event : Event}
    {calls : List Entry} (h : Answered order b event .panic calls b') :
    event = .start ∧ ∃ y, calls = [y] ∧ y.call = .now ∧ instantEnd ≤ y.time + startSettleDelay := by
  generalize ho : (Outcome.panic : Outcome IoError Unit) = o at h
  cases h with
  | scheduled y hy => cases ho
  | overflow y hy ht => exact ⟨rfl, y, rfl, hy, ht⟩
  | replied hm hb hw => exact absurd ho.symm hw.ne_panic
  | ignored => cases ho

/-- What a `service` that panics has done: it ends with a `START` for which it looked at
the clock, within its delay of the end of time. -/
theorem service_of_panic {E : Env} {rounds : Nat} {b b' : Battery} {w w' : World}
    (h : Battery.service E rounds (b, w) = (.panic, (b', w'))) :
    ∃ queue x buf y, Ran E w (queue ++ [x, y]) w' ∧ UpToDate E.order b queue ∧
      x.call = .read b.handle.fd (.delivered buf) ∧ eventOf E.order buf = .start ∧
      y.call = .now ∧ instantEnd ≤ y.time + startSettleDelay := by
  obtain ⟨calls, hran, hs⟩ := service_spec E rounds b w
  rw [h] at hran hs
  generalize ho : (Outcome.panic : Outcome IoError Unit) = o at hs
  cases hs with
  | pending hh => cases ho
  | readFailed hh hx hr => cases ho
  | @unanswered calls calls' b₁ b₂ x buf o hh hx ha hne =>
    subst ho
    obtain ⟨slot, rfl⟩ := hh.same
    obtain ⟨hstart, y, rfl, hy, hlate⟩ := ha.panicked
    exact ⟨_, x, buf, y, hran, hh.upToDate, hx, hstart, hy, hlate⟩
  | emptied hh hx hr hp => exact absurd ho.symm hp.ne_panic

/-- **Every request is answered exactly once**, in order, with the right answer. -/
theorem service_answers (E : Env) (b : Battery) (w : World)
    (hserve : ∀ h, E.read h b.handle.fd = .serve) :
    ((∀ h, E.arrivals h b.handle.fd = []) → Patient E b.handle.fd →
      ∃ rounds, (Battery.service E rounds (b, w)).1 ≠ .pending) ∧
    (∀ rounds b' w', Battery.service E rounds (b, w) = (.ok (), (b', w')) →
      ∃ queue push w₁, Ran E w queue w₁ ∧ Ran E w₁ push w' ∧
        delivered b.handle.fd queue = w.queue b.handle.fd ++ arrived b.handle.fd queue ∧
        w'.queue b.handle.fd = arrived b.handle.fd push ∧
        UpToDate E.order b queue ∧
        match settled b.repushAt (clocks queue) with
        | none => push = []
        | some due => ∃ t, clocks push = [t] ∧
            sent E.order b.handle.fd push = if due ≤ t then [.input2 b.report] else []) ∧
    (∀ rounds b' w' e, Battery.service E rounds (b, w) = (.err e, (b', w')) →
      ∃ queue x event calls w₁, Ran E w queue w₁ ∧ Ran E w₁ (x :: calls) w' ∧
        w.queue b.handle.fd ++ arrived b.handle.fd (queue ++ x :: calls) =
          delivered b.handle.fd (queue ++ x :: calls) ++ w'.queue b.handle.fd ∧
        UpToDate E.order b queue ∧
        Written b.handle.fd event (.err e) calls ∧
        ((∃ buf, x.call = .read b.handle.fd (.delivered buf) ∧
            b.replyTo (eventOf E.order buf) = some (sentOf E.order event)) ∨
          (w₁.queue b.handle.fd = [] ∧ x.call = .now ∧
            sentOf E.order event = .input2 b.report ∧
            ∃ due ≤ x.time, settled b.repushAt (clocks queue) = some due))) ∧
    ∀ rounds b' w', Battery.service E rounds (b, w) = (.panic, (b', w')) →
      ∃ queue x buf y, Ran E w (queue ++ [x, y]) w' ∧ UpToDate E.order b queue ∧
        x.call = .read b.handle.fd (.delivered buf) ∧ eventOf E.order buf = .start ∧
        y.call = .now ∧ instantEnd ≤ y.time + startSettleDelay := by
  have hu : Uninterrupted E b.handle.fd := fun h => Or.inl (hserve h)
  refine ⟨fun hquiet hp => service_ends hquiet hp w, fun rounds b' w' h => service_of_ok hu h,
    ?_, fun rounds b' w' h => service_of_panic h⟩
  intro rounds b' w' e h
  obtain ⟨queue, x, event, calls, w₁, hqueue, hrest, hanswered, hw, hwhy⟩ :=
    service_of_err hserve h
  exact ⟨queue, x, event, calls, w₁, hqueue, hrest, (hqueue.append hrest).queue _, hanswered, hw,
    hwhy⟩

/-- A mouse with a push that was due at 4. -/
def dueMouse : Battery := (Battery.new ⟨3⟩ .mouse "mouse-1" ⟨50, false⟩).withRepush (some 4)

theorem Ran.clocks_calm {order : ByteOrder} {now : Instant} {w w' : World} {calls : List Entry}
    (h : Ran (.calm order now) w calls w') : ∀ t ∈ clocks calls, t = now := by
  intro t ht
  obtain ⟨history, rfl⟩ := h.mem_clocks ht
  rfl

/-- The mouse at clock reading 5, with three requests and a `START` in its queue. -/
theorem service_answers_requests :
    ∃ ours start other set rounds b' w',
      eventOf .little ours = .getReport 7 dueMouse.kind.reportId rtypeInput ∧
      eventOf .little start = .start ∧ eventOf .little other = .getReport 8 99 rtypeInput ∧
      eventOf .little set = .setReport 9 ∧
      Battery.service (.calm .little 5) rounds
        (dueMouse, ⟨fun _ => [ours, start, other, set], []⟩) = (.ok (), (b', w')) ∧
      w'.queue 3 = [] ∧
      sent .little 3 w'.history = [.getReportReply 7 0 dueMouse.report, .getReportReply 8 eio [],
        .setReportReply 9 eio, .input2 dueMouse.report] := by
  obtain ⟨ours, -, hours⟩ := getReport_decodes .little 7 dueMouse.kind.reportId rtypeInput
  obtain ⟨start, -, hstart⟩ := start_decodes .little
  obtain ⟨other, -, hother⟩ := getReport_decodes .little 8 99 rtypeInput
  obtain ⟨set, -, hset⟩ := setReport_decodes .little 9 0 0
  rw [decode_eq, Outcome.ok.injEq] at hours hstart hother hset
  generalize hw : (⟨fun _ => [ours, start, other, set], []⟩ : World) = w
  have hq : w.queue 3 = [ours, start, other, set] := by rw [← hw]
  have hhistory : w.history = [] := by rw [← hw]
  have hfd : dueMouse.handle.fd = 3 := rfl
  have horder : (Env.calm .little 5).order = .little := rfl
  obtain ⟨hends, hok, herr, hpanic⟩ := service_answers (.calm .little 5) dueMouse w fun _ => rfl
  obtain ⟨rounds, hback⟩ := hends (fun _ => rfl) fun _ _ => ⟨0, by simp [Env.calm]⟩
  rcases hres : Battery.service (.calm .little 5) rounds (dueMouse, w) with ⟨o, b', w'⟩
  cases o with
  | pending => exact absurd (congrArg Prod.fst hres) hback
  | err e =>
    -- every write is taken
    obtain ⟨queue, x, event, calls, w₁, -, hrest, -, -, hwritten, -⟩ := herr rounds b' w' e hres
    have htaken : AllTaken 3 ([x] ++ calls) := hrest.allTaken fun _ _ => rfl
    cases hwritten.ok_of_taken trivial (allTaken_append.mp htaken).2
  | panic =>
    -- the clock stands at 5
    obtain ⟨queue, x, buf, y, hran, -, -, -, -, hlate⟩ := hpanic rounds b' w' hres
    obtain ⟨w₀, call, -, rfl⟩ := hran.mem (List.mem_append_right _ (List.mem_cons_of_mem _
      List.mem_cons_self))
    have hearly : ¬ instantEnd ≤ 5 + startSettleDelay := by decide
    exact absurd hlate hearly
  | ok u =>
    obtain ⟨queue, push, w₁, hran, hran', hread, hempty, hanswered, hpush⟩ := hok rounds b' w' hres
    obtain ⟨hreplies, hlooks⟩ := hanswered
    rw [hfd] at hread hempty
    rw [hfd, horder] at hreplies hlooks
    rw [hran.arrived_eq_nil fun _ => rfl, List.append_nil, hq] at hread
    rw [hread] at hreplies hlooks
    have hclocks : clocks queue = [5] := by
      have hone : (clocks queue).length = 1 := by simpa [hours, hstart, hother, hset] using hlooks
      obtain ⟨t, ht⟩ := List.length_eq_one_iff.mp hone
      rw [ht, hran.clocks_calm t (by rw [ht]; exact List.mem_cons_self)]
    rw [hclocks, show settled dueMouse.repushAt [5] = some 4 by decide] at hpush
    obtain ⟨t, ht, hsent⟩ := hpush
    rw [hran'.clocks_calm t (by rw [ht]; exact List.mem_cons_self), if_pos (by decide), hfd,
      horder] at hsent
    refine ⟨ours, start, other, set, rounds, b', w', hours, hstart, hother, hset, by rw [hw, hres],
      by rw [hempty, hran'.arrived_eq_nil fun _ => rfl], ?_⟩
    rw [(hran.append hran').history, hhistory, List.nil_append, sent_append, hreplies, hsent]
    have hforeign : ¬ (99 : UInt8) = dueMouse.kind.reportId := by decide
    simp [Battery.replyTo, hours, hstart, hother, hset, hforeign]

end UhidBattery
