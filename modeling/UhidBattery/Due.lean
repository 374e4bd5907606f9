import UhidBattery.Looks
import UhidBattery.Published

/-!
# The push that is due

The one slot of a battery, before and after a `service`, as a function of the
`START`s that were processed and of the clock.

* `covers_settled_iff`: the slot goes off no later than it would have, and no
  later than the settle time of any `START`.
* `Served.compared`: a `service` whose writes are taken compares the slot with
  the clock and, if it is due, ends with a push.
-/

namespace UhidBattery

open Record (ByteOrder)
open Program (Outcome)
open Deadlines (Covers)

/-! ## The slot -/

/-- At `t` a push is due: the one in the slot, or that of one of the `START`s. -/
def DueAt (slot : Option Instant) (starts : List Instant) (t : Instant) : Prop :=
  Covers slot t ∨ ∃ u ∈ starts, u + startSettleDelay ≤ t

/-- The look `t`, which came when the queue was empty, found a push due. -/
def FindsDue (order : ByteOrder) (b : Battery) (calls : List Entry) (t : Instant) : Prop :=
  t ∈ checkTimes order b.handle.fd calls ∧
    DueAt b.nextDeadline (startsRead order b.handle.fd calls) t

/-- **The slot after some `START`s**: it goes off no later than `due` if it did
before, or if one of them asked for a time that early. -/
theorem covers_settled_iff {slot : Option Instant} {times : List Instant} {due : Instant} :
    Covers (settled slot times) due ↔ DueAt slot times due := by
  rw [settled_eq, Deadlines.covers_soonestOf_iff, DueAt]
  simp

/-- A push that was pending, or that a `START` has asked for, is in the slot. -/
theorem covers_of_pending {order : ByteOrder} {fd : Fd} {calls : List Entry}
    {slot : Option Instant} {d : Instant}
    (h : Covers slot d ∨ d ∈ startDues order fd calls) :
    Covers (settled slot (startTimes order fd calls)) d := by
  rw [covers_settled_iff]
  refine h.imp_right fun hd => ?_
  obtain ⟨t, ht, rfl⟩ := List.mem_map.mp hd
  exact ⟨t, ht, Nat.le_refl _⟩

/-! ## Pushes -/

/-- Nothing that was taken is an `INPUT2`. -/
def NoInput2 (order : ByteOrder) (fd : Fd) (calls : List Entry) : Prop :=
  ∀ x ∈ accepted fd calls, (sentOf order x.2).input2? = none

/-- The `INPUT2`s the system took, and when. -/
def inputs (order : ByteOrder) (fd : Fd) (calls : List Entry) : List (Instant × List UInt8) :=
  (accepted fd calls).filterMap fun x => (sentOf order x.2).input2?.map fun report => (x.1, report)

section Pushes

variable {order : ByteOrder} {fd : Fd} {b b' : Battery} {s t calls : List Entry}

theorem noInput2_of_writes (h : writes fd calls = []) : NoInput2 order fd calls := by
  rw [NoInput2, accepted_of_writes h]
  simp

theorem replyTo_input2? {event : Event} {m : Fake.Sent} (h : b.replyTo event = some m) :
    m.input2? = none := by
  cases event with
  | start => cases h
  | ignored => cases h
  | setReport id =>
    rw [← Option.some.inj h]
    rfl
  | getReport id rnum rtype =>
    rw [← Option.some.inj h]
    split <;> rfl

/-- Replies are no `INPUT2`. -/
theorem Handled.noInput2 (h : Handled order b calls b') : NoInput2 order b.handle.fd calls := by
  intro x hx
  have hmem : sentOf order x.2 ∈ UhidBattery.sent order b.handle.fd calls :=
    List.mem_map.mpr ⟨x, hx, rfl⟩
  rw [h.sent] at hmem
  obtain ⟨buf, -, hreply⟩ := List.mem_filterMap.mp hmem
  exact replyTo_input2? hreply

theorem inputs_append : inputs order fd (s ++ t) = inputs order fd s ++ inputs order fd t := by
  rw [inputs, accepted_append, List.filterMap_append]
  rfl

theorem inputs_of_noInput2 (h : NoInput2 order fd calls) : inputs order fd calls = [] := by
  apply List.filterMap_eq_nil_iff.mpr
  intro x hx
  rw [h x hx]
  rfl

theorem inputs_of_writes (h : writes fd calls = []) : inputs order fd calls = [] :=
  inputs_of_noInput2 (noInput2_of_writes h)

theorem Handled.inputs (h : Handled order b calls b') : inputs order b.handle.fd calls = [] :=
  inputs_of_noInput2 h.noInput2

/-- One `INPUT2`, taken: the last call of its write. -/
theorem Written.pushes {buf : Buffer} {report : List UInt8}
    (h : Written fd buf (.ok ()) calls) (hb : sentOf order buf = .input2 report) :
    ∃ retries x, calls = retries ++ [x] ∧ UhidBattery.inputs order fd retries = [] ∧
      UhidBattery.inputs order fd [x] = [(x.time, report)] := by
  generalize ho : (Outcome.ok () : Outcome IoError Unit) = o at h
  cases h with
  | waiting retries hr => cases ho
  | answered retries x answer hr hx ha =>
    have htook := (WriteAnswer.outcome_eq_ok_iff answer).mp ho.symm
    rw [htook] at hx
    refine ⟨retries, x, rfl, ?_, ?_⟩
    · rw [UhidBattery.inputs, hr.accepted_eq_nil]
      rfl
    · rw [UhidBattery.inputs, accepted_of_took hx, List.filterMap_cons, hb]
      rfl

end Pushes

/-! ## The comparison -/

/-- The call succeeded, or failed with every write taken. -/
def Undisturbed (fd : Fd) (o : Outcome IoError Unit) (calls : List Entry) : Prop :=
  o = .ok () ∨ o.Returned ∧ AllTaken fd calls

/-- What a `service` came to.  Either nothing was due and the slot stays, or the
slot had come due and the call ended with a push. -/
inductive Compared (order : ByteOrder) (b : Battery) (calls : List Entry) : Battery → Prop where
  | kept (hi : inputs order b.handle.fd calls = [])
      (ht : ∀ t ∈ checkTimes order b.handle.fd calls,
        ¬ Covers (settled b.repushAt (startTimes order b.handle.fd calls)) t) :
      Compared order b calls
        (b.withRepush (settled b.repushAt (startTimes order b.handle.fd calls)))
  | pushed {queue : List Entry} {x : Entry} {t : Instant}
      (hs : Covers (settled b.repushAt (startTimes order b.handle.fd calls)) t)
      (ht : checkTimes order b.handle.fd calls = [t]) (hcalls : calls = queue ++ [x])
      (hq : inputs order b.handle.fd queue = [])
      (hi : inputs order b.handle.fd [x] = [(x.time, b.report)]) :
      Compared order b calls (b.withRepush none)

section Compared

variable {order : ByteOrder} {fd : Fd} {b b' : Battery} {o : Outcome IoError Unit}
  {s t calls : List Entry} {x : Entry}

theorem Undisturbed.of_append (h : Undisturbed fd o (s ++ t)) : Undisturbed fd o t := by
  rcases h with ho | ⟨ho, ht⟩
  · exact Or.inl ho
  · exact Or.inr ⟨ho, (allTaken_append.mp ht).2⟩

theorem Written.ok_of_undisturbed {event : Buffer} (h : Written fd event o calls)
    (hu : Undisturbed fd o calls) : o = .ok () := by
  rcases hu with ho | ⟨ho, ht⟩
  · exact ho
  · exact h.ok_of_taken ho ht

theorem Answered.ok_of_undisturbed {event : Event} (h : Answered order b event o calls b')
    (hu : Undisturbed b.handle.fd o calls) : o = .ok () := by
  rcases hu with ho | ⟨ho, ht⟩
  · exact ho
  · exact h.ok_of_taken ho ht

/-- Up to a read that gave no event: the slot is as the `START`s left it. -/
theorem Handled.unread (h : Handled order b calls b') {result : ReadResult}
    (hx : x.call = .read b'.handle.fd result) :
    b' = b.withRepush (settled b.repushAt (startTimes order b.handle.fd calls)) ∧
      UhidBattery.inputs order b.handle.fd (calls ++ [x]) = [] := by
  rw [h.handle] at hx
  constructor
  · obtain ⟨slot, rfl⟩ := h.same
    rw [h.looks.1]
    exact congrArg b.withRepush h.slot.1
  · rw [inputs_append, h.inputs, inputs_of_writes (writes_of_read hx _)]
    rfl

/-- A call that stops after a read, without another look at the clock. -/
theorem Handled.cut_short (h : Handled order b s b') {result : ReadResult}
    (hx : x.call = .read b'.handle.fd result) (ht : ∀ y ∈ t, y.now? = none) :
    b' = b.withRepush (settled b.repushAt (startTimes order b.handle.fd (s ++ x :: t))) ∧
      checkTimes order b.handle.fd (s ++ x :: t) = [] := by
  have hcut {p : Entry → Bool} : looksAfter p (s ++ x :: t) = looksAfter p s := by
    rw [looksAfter_append (now?_of_read hx), looksAfter_of_silent ht, List.append_nil]
  rw [startTimes, checkTimes, hcut, hcut]
  exact ⟨(h.unread hx).1, h.looks.2⟩

/-- A read that failed. -/
theorem Handled.compared_of_err (h : Handled order b calls b') {result : ReadResult}
    (hx : x.call = .read b'.handle.fd result) : Compared order b (calls ++ [x]) b' := by
  obtain ⟨hslot, hcheck⟩ := h.cut_short hx (t := []) (by simp)
  rw [hslot]
  exact .kept (h.unread hx).2 (by simp [hcheck])

/-- Once the queue is empty there are no more `START`s, and the clock is looked at
for the slot. -/
theorem Handled.looks_of_emptied (h : Handled order b s b') {result : ReadResult} {b'' : Battery}
    (hx : x.call = .read b'.handle.fd result) (hr : result.outcome order = .ok none)
    (hp : Pushed order b' o t b'') :
    startTimes order b.handle.fd (s ++ x :: t) = startTimes order b.handle.fd s ∧
      checkTimes order b.handle.fd (s ++ x :: t) = clocks t := by
  have hcut {p : Entry → Bool} := looksAfter_append (p := p) (s := s) (t := t) (now?_of_read hx)
  have hlooks := hp.looks (readsStart_of_event hx (ReadResult.event?_of_outcome hr))
    (readsNothing_of_none hx hr)
  rw [h.handle] at hlooks
  constructor
  · rw [startTimes, hcut, ← startTimes, ← startTimes, hlooks.1, List.append_nil]
  · rw [checkTimes, hcut, ← checkTimes, ← checkTimes, h.looks.2, hlooks.2, List.nil_append]

/-- The queue is empty. -/
theorem Handled.compared (h : Handled order b s b') {result : ReadResult} {b'' : Battery}
    (hx : x.call = .read b'.handle.fd result) (hr : result.outcome order = .ok none)
    (hp : Pushed order b' o t b'') (hu : Undisturbed b.handle.fd o (s ++ x :: t)) :
    Compared order b (s ++ x :: t) b'' := by
  obtain ⟨hslot, hi⟩ := h.unread hx
  obtain ⟨hstart, hcheck⟩ := h.looks_of_emptied hx hr hp
  rw [hslot] at hp
  rw [← hstart] at hp
  cases hp with
  | idle hs =>
    exact .kept hi (by simp [hcheck])
  | @early due y hs hy ht =>
    refine .kept ?_ ?_
    · rw [← List.singleton_append, ← List.append_assoc, inputs_append, hi,
        inputs_of_writes (writes_of_now hy _)]
      rfl
    · rw [hcheck, clocks_of_now hy, List.forall_mem_singleton]
      rw [withRepush_repushAt] at hs
      rw [hs, Deadlines.covers_some_iff]
      exact Nat.not_le_of_lt ht
  | @due due y buf o ws hs hy ht hb hw =>
    have hcalls : s ++ x :: y :: ws = (s ++ [x] ++ [y]) ++ ws := by simp
    have hok := hw.ok_of_undisturbed (hcalls ▸ hu).of_append
    subst hok
    obtain ⟨retries, z, rfl, hretries, hz⟩ := hw.pushes hb
    rw [withRepush_repushAt] at hs
    rw [withRepush_handle, withRepush_report] at hz
    rw [withRepush_handle] at hretries
    have hlast : s ++ x :: y :: (retries ++ [z]) = (s ++ [x] ++ [y] ++ retries) ++ [z] := by simp
    have htime : checkTimes order b.handle.fd (s ++ x :: y :: (retries ++ [z])) = [y.time] := by
      rw [hcheck, ← List.singleton_append, clocks_append, clocks_of_now hy, hw.clocks_eq_nil]
      rfl
    refine .pushed ?_ htime hlast ?_ hz
    · rw [hs, Deadlines.covers_some_iff]
      exact ht
    · rw [inputs_append, inputs_append, hi, hretries, inputs_of_writes (writes_of_now hy _)]
      rfl

/-- **What a `service` came to**, when it succeeded or all its writes were taken. -/
theorem Served.compared (h : Served order b o calls b')
    (hu : Undisturbed b.handle.fd o calls) : Compared order b calls b' := by
  cases h with
  | pending h =>
    rcases hu with ho | ⟨ho, -⟩
    · cases ho
    · exact ho.elim
  | readFailed h hx hr => exact h.compared_of_err hx
  | @unanswered calls calls' b₁ b₂ x buf o h hx ha hno =>
    obtain ⟨slot, rfl⟩ := h.same
    have hcalls : calls ++ x :: calls' = (calls ++ [x]) ++ calls' := by simp
    exact absurd (ha.ok_of_undisturbed (hcalls ▸ hu).of_append) hno
  | emptied h hx hr hp => exact h.compared hx hr hp hu

/-- **What a `service` publishes**, on a clock that does not go back: nothing, or the
battery's report, no earlier than the look that found a push due. -/
theorem Served.published (h : Served order b o calls b') (hu : Undisturbed b.handle.fd o calls)
    (hclock : Chronological calls) :
    (inputs order b.handle.fd calls = [] ∧
      b' = b.withRepush (settled b.repushAt (startsRead order b.handle.fd calls))) ∨
    ∃ look time, FindsDue order b calls look ∧ look ≤ time ∧
      inputs order b.handle.fd calls = [(time, b.report)] ∧ b' = b.withRepush none := by
  have hread := h.looked.startsRead
  cases h.compared hu with
  | kept hi ht => exact Or.inl ⟨hi, by rw [hread]⟩
  | @pushed queue x t hs hcheck hcalls hq hi =>
    have hmem : t ∈ checkTimes order b.handle.fd calls := by
      rw [hcheck]
      exact List.mem_singleton_self t
    rw [← hread] at hs
    refine Or.inr ⟨t, x.time, ⟨hmem, covers_settled_iff.mp hs⟩, ?_, ?_, rfl⟩
    · have hclocks := looksAfter_subset _ _ hmem
      rw [hcalls] at hclock hclocks
      exact hclock.clocks_le hclocks
    · rw [hcalls, inputs_append, hq, hi]
      rfl

/-- A `service` that succeeds with a push pending has compared it with the clock. -/
theorem Served.checked (h : Served order b (.ok ()) calls b')
    (hs : settled b.repushAt (startTimes order b.handle.fd calls) ≠ none) :
    ∃ t, checkTimes order b.handle.fd calls = [t] := by
  generalize ho : (Outcome.ok () : Outcome IoError Unit) = o at h
  cases h with
  | pending h => cases ho
  | readFailed h hx hr => cases ho
  | unanswered h hx ha hno => exact absurd ho.symm hno
  | @emptied calls calls' b₁ b₂ x result o h hx hr hp =>
    subst ho
    obtain ⟨hstart, hcheck⟩ := h.looks_of_emptied hx hr hp
    have hslot := congrArg Battery.repushAt (h.unread hx).1
    have hshows := hp.shows
    rw [hstart] at hs
    rw [hslot, withRepush_repushAt] at hshows
    cases hsome : settled b.repushAt (startTimes order b.handle.fd calls) with
    | none => exact absurd hsome hs
    | some due =>
      rw [hsome] at hshows
      obtain ⟨t, ht, -⟩ := hshows
      exact ⟨t, hcheck.trans ht⟩

/-- A call that finds the time `d` reached ends with the push of the battery's reading;
if it succeeds, it has looked at the clock. -/
def PushesInTime (order : ByteOrder) (b : Battery) (o : Outcome IoError Unit)
    (calls : List Entry) (d : Instant) : Prop :=
  (o = .ok () → ∃ t, checkTimes order b.handle.fd calls = [t]) ∧
    ∀ t ∈ checkTimes order b.handle.fd calls, d ≤ t → ∃ queue x, calls = queue ++ [x] ∧
      inputs order b.handle.fd queue = [] ∧
      inputs order b.handle.fd [x] = [(x.time, b.report)]

/-- **A push that is pending** is made by the first `service` that finds its time
reached. -/
theorem Served.pushesInTime (h : Served order b o calls b')
    (hu : Undisturbed b.handle.fd o calls) {d : Instant}
    (hd : Covers (settled b.repushAt (startTimes order b.handle.fd calls)) d) :
    PushesInTime order b o calls d := by
  constructor
  · rintro rfl
    exact h.checked hd.ne_none
  · intro t ht hle
    cases h.compared hu with
    | kept hi hkept => exact absurd (hd.mono hle) (hkept t ht)
    | pushed hs hc hcalls hq hi => exact ⟨_, _, hcalls, hq, hi⟩

end Compared

end UhidBattery
