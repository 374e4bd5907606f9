import UhidBattery.Due

/-!
# A service that fails

`service` empties the slot before it pushes.  A push that is then refused is
forgotten; whatever fails earlier leaves the slot alone.

* `stillOwed_of_covers`: a slot that goes off in time is enough for the next
  `service` that succeeds.
* `failed_service_owes_iff`: a `service` that fails still owes its push exactly
  when the failure struck before the queue was found empty.
* `refused_push_forgotten`: a push that is refused.
-/

namespace UhidBattery

open Record (ByteOrder)
open Program (Outcome)
open Deadlines (Covers)

/-- The push that `b` had pending for `due` is still owed by `b'`: its slot goes off
no later, and the next `service` that succeeds makes the push if it finds that
time reached. -/
def StillOwed (b : Battery) (due : Instant) (b' : Battery) : Prop :=
  ∃ d ≤ due, b'.nextDeadline = some d ∧
    ∀ (E : Env) (rounds : Nat) (w : World) (b'' : Battery) (w'' : World),
      Battery.service E rounds (b', w) = (.ok (), (b'', w'')) →
        PushesInTime E.order b (.ok ()) (w.since w'') d

section Failed

variable {order : ByteOrder} {b b' : Battery} {o : Outcome IoError Unit} {calls : List Entry}

/-- A slot that goes off in time is enough. -/
theorem stillOwed_of_covers {slot : Option Instant} {due : Instant} (h : Covers slot due) :
    StillOwed b due (b.withRepush slot) := by
  obtain ⟨d, hd, rfl⟩ := h
  refine ⟨d, hd, rfl, ?_⟩
  intro E rounds w b'' w'' hservice
  obtain ⟨-, hs⟩ := service_since hservice
  exact hs.pushesInTime (Or.inl rfl) (covers_settled_iff.mpr (Or.inl ⟨d, Nat.le_refl d, rfl⟩))

theorem Answered.reads_eq_nil {event : Event} (h : Answered order b event o calls b') (fd : Fd) :
    reads fd calls = [] := by
  cases h with
  | scheduled x hx => simp [reads, Entry.read?, hx]
  | overflow x hx ht => simp [reads, Entry.read?, hx]
  | replied hm hb hw => exact hw.reads_eq_nil fd
  | ignored => rfl

/-- An answer that failed changed nothing. -/
theorem Answered.stopped {event : Event} {e : IoError}
    (h : Answered order b event (.err e) calls b') :
    b' = b ∧ ∃ buf, Written b.handle.fd buf (.err e) calls := by
  obtain ⟨buf, -, hw⟩ := h.refused
  refine ⟨?_, buf, hw⟩
  cases h with
  | replied hm hb hw => rfl

theorem reads_of_read {x : Entry} {fd : Fd} {result : ReadResult}
    (hx : x.call = .read fd result) : reads fd [x] = [result] := by
  simp [reads, Entry.read?, hx]

/-- While the queue is read, no read comes back without an event. -/
theorem Handled.never_empty (h : Handled order b calls b') :
    ∀ result ∈ reads b.handle.fd calls, result.outcome order ≠ .ok none := by
  induction h with
  | nil => simp
  | @snoc calls calls' b₁ b₂ x buf h hx ha ih =>
    rw [h.handle] at hx
    rw [← List.singleton_append, reads_append, reads_append, reads_of_read hx, ha.reads_eq_nil]
    intro result hresult
    rcases List.mem_append.mp hresult with hresult | hresult
    · exact ih result hresult
    · rw [List.append_nil, List.mem_singleton] at hresult
      rw [hresult]
      simp [ReadResult.outcome]

/-- A call that failed before the queue was found empty leaves the slot as the
`START`s made it; one that failed afterwards leaves it empty. -/
theorem Served.failed {e : IoError} (h : Served order b (.err e) calls b') :
    (b' = b.withRepush (settled b.repushAt (startTimes order b.handle.fd calls)) ∧
        ∀ result ∈ reads b.handle.fd calls, result.outcome order ≠ .ok none) ∨
      (b'.repushAt = none ∧ ∃ result ∈ reads b.handle.fd calls, result.outcome order = .ok none) := by
  generalize ho : (Outcome.err e : Outcome IoError Unit) = o at h
  cases h with
  | pending h => cases ho
  | @readFailed calls b' x result e' h hx hr =>
    refine Or.inl ⟨(h.cut_short hx (t := []) (by simp)).1, ?_⟩
    rw [h.handle] at hx
    rw [reads_append, List.forall_mem_append, reads_of_read hx, List.forall_mem_singleton, hr]
    exact ⟨h.never_empty, by simp⟩
  | @unanswered calls calls' b₁ b₂ x buf o h hx ha hno =>
    subst ho
    obtain ⟨rfl, reply, hw⟩ := ha.stopped
    refine Or.inl ⟨(h.cut_short hx hw.now?_eq_none).1, ?_⟩
    rw [h.handle] at hx
    rw [← List.singleton_append, reads_append, reads_append, reads_of_read hx, hw.reads_eq_nil,
      List.append_nil, List.forall_mem_append, List.forall_mem_singleton]
    exact ⟨h.never_empty, by simp [ReadResult.outcome]⟩
  | @emptied calls calls' b₁ b₂ x result o h hx hr hp =>
    subst ho
    rw [h.handle] at hx
    refine Or.inr ⟨?_, result, ?_, hr⟩
    · cases hp with
      | due hs hx ht hb hw => rfl
    · rw [← List.singleton_append, reads_append, reads_append, reads_of_read hx]
      simp

end Failed

/-- **A failed service still owes its push** exactly when the failure struck before
a read found the queue empty. -/
theorem failed_service_owes_iff (E : Env) (rounds : Nat) (b b' : Battery) (w w' : World)
    (e : IoError) (due : Instant) (hdue : b.nextDeadline = some due)
    (h : Battery.service E rounds (b, w) = (.err e, (b', w'))) :
    StillOwed b due b' ↔
      ∀ result ∈ reads b.handle.fd (w.since w'), result.outcome E.order ≠ .ok none := by
  obtain ⟨-, hs⟩ := service_since h
  rcases hs.failed with ⟨rfl, hnever⟩ | ⟨hslot, result, hresult, hempty⟩
  · refine iff_of_true (stillOwed_of_covers ?_) hnever
    exact covers_settled_iff.mpr (Or.inl ⟨due, Nat.le_refl due, hdue⟩)
  · refine iff_of_false ?_ fun hnever => hnever result hresult hempty
    rintro ⟨d, -, hsome, -⟩
    rw [Battery.nextDeadline, hslot] at hsome
    cases hsome

/-! ## A push that is refused -/

/-- A system that refuses every write. -/
def Env.refusing : Env where
  __ := Env.calm .little (fromMillis 300)
  write _ _ _ := .fails (.other 5)

/-- A mouse whose settle push is due. -/
def settlingMouse : Battery := (mouse 3).withRepush (some startSettleDelay)

theorem refusing_service : ∃ w', Battery.service .refusing 1 (settlingMouse, .started) =
    (.err (.os (.other 5)), (mouse 3, w')) := by
  have hloop := serviceLoop_of_empty .refusing 1 settlingMouse .started 0
    (readResult_of_nil .refusing rfl rfl rfl)
  have hdue : startSettleDelay ≤ fromMillis 300 := by decide
  obtain ⟨buf, -, hpush⟩ := pushIfDue_of_due .refusing settlingMouse
    (World.started.next .refusing (.read 3 (.failed .again))) rfl hdue
  refine ⟨((World.started.next .refusing (.read 3 (.failed .again))).next .refusing .now).next
    .refusing (.write 3 buf (.fails (.other 5))), ?_⟩
  rw [service_def, Program.bind_ok hloop]
  refine (hpush 1).trans ?_
  rw [write_of_fails .refusing settlingMouse.handle buf 0 (e := .other 5) (by simp) rfl]
  rfl

/-- A push that is refused is forgotten: the slot is empty. -/
theorem refused_push_forgotten : ∃ w', Battery.service .refusing 1 (settlingMouse, .started) =
      (.err (.os (.other 5)), (mouse 3, w')) ∧
    settlingMouse.nextDeadline = some startSettleDelay ∧ (mouse 3).nextDeadline = none ∧
    ¬ StillOwed settlingMouse startSettleDelay (mouse 3) := by
  obtain ⟨w', h⟩ := refusing_service
  refine ⟨w', h, rfl, rfl, ?_⟩
  rintro ⟨d, -, hsome, -⟩
  cases hsome

/-- With the push that is refused. -/
theorem failed_service_owes_iff_refused : ∃ w', StillOwed settlingMouse startSettleDelay (mouse 3) ↔
    ∀ result ∈ reads 3 (World.started.since w'), result.outcome .little ≠ .ok none := by
  obtain ⟨w', h⟩ := refusing_service
  exact ⟨w', failed_service_owes_iff .refusing 1 settlingMouse (mouse 3) .started w'
    (.os (.other 5)) startSettleDelay rfl h⟩

end UhidBattery
