import UhidBattery.Completed
import UhidBattery.ServeAll
import UhidBattery.Ledger

/-!
# Nothing that was asked is left unanswered

The calls that return `Ok`, and the requests the kernel made meanwhile.

* `Served.replied`: a `service` that succeeds has replied to every request it read.
* `completes_replied`: so has every call that returns `Ok`, whatever the reads,
  writes and waits met on the way.
* `serveAll_reads`: `serve_all` has then read all that was queued by the end of
  its last wait.
-/

namespace UhidBattery

open Record (ByteOrder)
open Program (Outcome EachOk Ensures)
open Relation (ReflTransGen)

/-! ## Replies -/

/-- All that was sent besides the battery's report replies to what was read: one
reply for each request, with the right content, in order. -/
def Replied (order : ByteOrder) (b : Battery) (calls : List Entry) : Prop :=
  (sent order b.handle.fd calls).filter (fun m => m ≠ .input2 b.report) =
    (delivered b.handle.fd calls).filterMap fun buf => b.replyTo (eventOf order buf)

section Replied

variable {order : ByteOrder} {b b' : Battery} {s t calls : List Entry}

theorem Replied.append (hs : Replied order b s) (ht : Replied order b t) :
    Replied order b (s ++ t) := by
  rw [Replied, sent_append, delivered_append, List.filter_append, List.filterMap_append, hs, ht]

/-- Nothing was read, and nothing but the report was sent. -/
theorem replied_of_unread (hd : delivered b.handle.fd calls = [])
    (hs : ∀ m ∈ sent order b.handle.fd calls, m = .input2 b.report) : Replied order b calls := by
  rw [Replied, hd, List.filterMap_nil, List.filter_eq_nil_iff]
  intro m hm
  simp [hs m hm]

theorem replied_of_untouched (h : reads b.handle.fd calls = [] ∧ writes b.handle.fd calls = []) :
    Replied order b calls := by
  refine replied_of_unread ?_ ?_
  · rw [delivered, h.1]
    rfl
  · rw [sent_of_writes h.2]
    simp

theorem replyTo_ne_input2 {event : Event} {m : Fake.Sent} (h : b.replyTo event = some m)
    (report : List UInt8) : m ≠ .input2 report := by
  rintro rfl
  cases event with
  | start => cases h
  | ignored => cases h
  | setReport id => cases h
  | getReport id rnum rtype =>
    rw [Battery.replyTo, Option.some.injEq] at h
    split at h
    · cases h
    · cases h

theorem Handled.replied (h : Handled order b calls b') : Replied order b calls := by
  rw [Replied, h.sent, List.filter_eq_self]
  intro m hm
  obtain ⟨buf, -, hreply⟩ := List.mem_filterMap.mp hm
  exact decide_eq_true (replyTo_ne_input2 hreply b.report)

theorem Pushed.replied (h : Pushed order b (.ok ()) calls b') : Replied order b calls := by
  refine replied_of_unread (h.delivered_eq_nil _) ?_
  have hshows := h.shows
  cases hs : b.repushAt with
  | none =>
    rw [hs] at hshows
    rw [hshows]
    simp [sent, accepted, writes]
  | some due =>
    rw [hs] at hshows
    obtain ⟨t, -, hsent⟩ := hshows
    rw [hsent]
    split
    · simp
    · simp

/-- The battery but for its slot: the same replies. -/
theorem replied_withRepush {slot : Option Instant} :
    Replied order (b.withRepush slot) calls ↔ Replied order b calls := Iff.rfl

/-- **A `service` that succeeds** has replied to all it read. -/
theorem Served.replied (h : Served order b (.ok ()) calls b') : Replied order b calls := by
  generalize ho : (Outcome.ok () : Outcome IoError Unit) = o at h
  cases h with
  | pending h => cases ho
  | readFailed h hx hr => cases ho
  | unanswered h hx ha hno => exact absurd ho.symm hno
  | @emptied calls calls' b₁ b₂ x result o h hx hr hp =>
    subst ho
    obtain ⟨slot, rfl⟩ := h.same
    rw [withRepush_handle] at hx
    have hnothing : Replied order b [x] := by
      refine replied_of_unread ?_ ?_
      · rw [delivered_of_read hx, ReadResult.event?_of_outcome hr]
        rfl
      · rw [sent_of_read hx]
        simp
    rw [← List.singleton_append]
    exact h.replied.append (hnothing.append (replied_withRepush.mp hp.replied))

end Replied

/-! ## Any call that returns Ok -/

/-- The battery but for its slot, and calls that leave nothing unanswered. -/
def Attends (E : Env) (s s' : Battery × World) : Prop :=
  (∃ slot, s'.1 = s.1.withRepush slot) ∧
    ∃ calls, Ran E s.2 calls s'.2 ∧ Replied E.order s.1 calls

instance (E : Env) : IsPreorder (Battery × World) (Attends E) where
  refl s := ⟨⟨s.1.repushAt, withRepush_self s.1⟩, [], .nil s.2, replied_of_untouched ⟨rfl, rfl⟩⟩
  trans s₁ s₂ s₃ := by
    rintro ⟨⟨slot, h⟩, calls, hran, hp⟩ ⟨⟨slot', h'⟩, calls', hran', hp'⟩
    rw [h] at h' hp'
    exact ⟨⟨slot', h'⟩, _, hran.append hran', hp.append (replied_withRepush.mp hp')⟩

theorem attends_of_untouched {E : Env} {b : Battery} {w w' : World}
    (h : Untouched E b.handle.fd w w') : Attends E (b, w) (b, w') := by
  obtain ⟨calls, hran, hnone⟩ := h
  exact ⟨⟨b.repushAt, withRepush_self b⟩, calls, hran, replied_of_untouched hnone⟩

theorem attends_kept (E : Env) (rounds : Nat) : KeptOk E rounds (Attends E) where
  own := by
    rintro ⟨b, w⟩ ⟨⟩ ⟨b', w'⟩ h
    obtain ⟨hran, hs⟩ := service_since h
    obtain ⟨slot, hsame⟩ := hs.same
    exact ⟨by rw [hsame]; rfl, ⟨slot, hsame⟩, _, hran, hs.replied⟩
  other x w _ hne := attends_of_untouched (service_untouched E rounds x w hne)
  idle _ _ _ hg hidle := attends_of_untouched (.next hg hidle)

theorem Attends.since {E : Env} {b b' : Battery} {w w' : World} (h : Attends E (b, w) (b', w')) :
    Replied E.order b (w.since w') := by
  obtain ⟨-, calls, hran, hp⟩ := h
  have hran : Ran E w calls w' := hran
  rw [hran.since]
  exact hp

/-- **No request goes unanswered.**  Whatever a call that services the battery met, if
it returns `Ok` it has replied to all it read, in order, and sent nothing else
but the battery's report. -/
theorem completes_replied {E : Env} {b b' : Battery} {w w' : World}
    (h : Completes E b w b' w') : Replied E.order b (w.since w') :=
  (h.ensures (attends_kept E)).since

/-- A system on which three requests wait, and a `START` among them. -/
def World.asking : World := .queueing
  [Fake.built (Fake.getReport .little 7 2 rtypeInput), Fake.built (Fake.start .little),
    Fake.built (Fake.setReport .little 8 2 rtypeInput),
    Fake.built (Fake.getReport .little 9 5 rtypeInput)]

/-- A mouse that replies to the three requests and pushes for the `START`. -/
theorem completes_replied_mouse : ∃ b' w',
    Battery.service .strolling 5 (mouse 3, .asking) = (.ok (), (b', w')) ∧
    Replied .little (mouse 3) (World.asking.since w') ∧
    sent .little 3 (World.asking.since w') = [.getReportReply 7 0 (mouse 3).report,
      .setReportReply 8 eio, .getReportReply 9 eio [], .input2 (mouse 3).report] := by
  have hcomes : (Battery.service .strolling 5 (mouse 3, .asking)).1 = .ok () ∧
      sent .little 3 (World.asking.since (Battery.service .strolling 5 (mouse 3, .asking)).2.2) =
        [.getReportReply 7 0 (mouse 3).report, .setReportReply 8 eio, .getReportReply 9 eio [],
          .input2 (mouse 3).report] := by decide +kernel
  rcases hservice : Battery.service .strolling 5 (mouse 3, .asking) with ⟨o, b', w'⟩
  rw [hservice] at hcomes
  obtain ⟨rfl, hsent⟩ := hcomes
  exact ⟨b', w', rfl, completes_replied (.service hservice), hsent⟩

/-! ## What has been read -/

/-- No waits. -/
def NoPolls (calls : List Entry) : Prop :=
  ∀ x ∈ calls, ∀ fds timeout answer, x.call ≠ .poll fds timeout answer

section Reads

variable {E : Env} {rounds : Nat} {deadline : Option Instant} {wake : Option Fd}

theorem OnlyOn.noPolls {fd : Fd} {calls : List Entry} (h : OnlyOn fd calls) : NoPolls calls := by
  intro x hx fds timeout answer
  rcases h x hx with ⟨result, hc⟩ | ⟨event, answer', hc⟩ | hc
  · rw [hc]
    exact nofun
  · rw [hc]
    exact nofun
  · rw [hc]
    exact nofun

theorem NoPolls.append {s t : List Entry} (hs : NoPolls s) (ht : NoPolls t) :
    NoPolls (s ++ t) := by
  intro x hx
  rcases List.mem_append.mp hx with hx | hx
  · exact hs x hx
  · exact ht x hx

theorem pass_noPolls {xs xs' : List Battery} {w w' : World}
    (h : EachOk (Battery.service E rounds) xs w xs' w') :
    ∃ calls, Ran E w calls w' ∧ NoPolls calls := by
  induction h with
  | nil => exact ⟨[], .nil _, by simp [NoPolls]⟩
  | @cons x x' xs xs' w w₁ w' hx _ ih =>
    obtain ⟨hran, hs⟩ := service_since hx
    obtain ⟨calls, hran', hno⟩ := ih
    exact ⟨_, hran.append hran', hs.onlyOn.noPolls.append hno⟩

theorem Ends.noPolls {p : List Battery × World} {wakeup : Wakeup} {w : World}
    (h : Ends E deadline wake p wakeup w) :
    ∃ calls, Ran E (polled E deadline wake p) calls w ∧ NoPolls calls := by
  cases h with
  | wake h => exact ⟨[], .nil _, by simp [NoPolls]⟩
  | interrupted h => exact ⟨[], .nil _, by simp [NoPolls]⟩
  | deadline hc hx => exact ⟨_, .single trivial, (OnlyOn.now 0 rfl).noPolls⟩

theorem turns_ran {s s' : List Battery × World}
    (h : ReflTransGen (QuietTurn E rounds deadline wake) s s') : ∃ calls, Ran E s.2 calls s'.2 := by
  induction h with
  | refl => exact ⟨[], .nil _⟩
  | tail _ hturn ih =>
    obtain ⟨calls, hran⟩ := ih
    obtain ⟨p, hp, -, -, rfl⟩ := hturn
    obtain ⟨calls₁, hran₁⟩ := pass_ran hp
    obtain ⟨calls₂, hran₂, -⟩ := (polled_untouched E deadline wake 0 p).trans
      (looked_untouched E deadline 0 (polled E deadline wake p))
    exact ⟨_, (hran.append hran₁).append hran₂⟩

/-- What was queued when a stretch began that reads it. -/
theorem CaughtUp.reads {b : Battery} {w u w' : World} {waited later : List Entry}
    (h : CaughtUp E b u w') (hran : Ran E w waited u) (hlater : Ran E u later w') :
    w.queue b.handle.fd ++ arrived b.handle.fd waited <+:
      delivered b.handle.fd (waited ++ later) := by
  have hread := h.read
  rw [hlater.since] at hread
  rw [hran.queue, delivered_append]
  exact (List.prefix_append_right_inj _).mpr hread

/-- **All that was queued** by the end of the last wait has been read. -/
theorem serveAll_reads {bs bs' : List Battery} {w w' : World} {result : Wakeup}
    (hown : (bs.map fun b => b.handle.fd).Nodup)
    (h : serveAll E rounds deadline wake (bs, w) = (.ok result, (bs', w'))) :
    ∃ waited later, w.since w' = waited ++ later ∧ NoPolls later ∧
      ∀ b ∈ bs, Uninterrupted E b.handle.fd →
        w.queue b.handle.fd ++ arrived b.handle.fd waited <+:
          delivered b.handle.fd (w.since w') := by
  obtain ⟨s, hturns, hlast⟩ := Program.loop_eq_ok h
  have hquiet : ReflTransGen (QuietTurn E rounds deadline wake) (bs, w) s :=
    ReflTransGen.mono (fun _ _ => turn_iff.mp) _ _ hturns
  obtain ⟨p, w₁, hp, he, hpass⟩ := serveOnce_eq_some hlast
  obtain ⟨turns, hran⟩ := turns_ran hquiet
  obtain ⟨calls, hran'⟩ := pass_ran hp
  obtain ⟨poll, hpoll, -⟩ := polled_untouched E deadline wake 0 p
  obtain ⟨look, hlook, hno⟩ := he.noPolls
  obtain ⟨rest, hrest, hno'⟩ := pass_noPolls hpass
  have hwaited := (hran.append hran').append hpoll
  have hlater := hlook.append hrest
  have hsince : w.since w' = _ := (hwaited.append hlater).since
  refine ⟨_, _, hsince, hno.append hno', fun b hb hu => ?_⟩
  have hsame : Same bs p.1 := (turns_same hquiet).trans (EachOk.same hp)
  obtain ⟨slot, hmem⟩ := hsame.mem hb
  have hown' : (p.1.map fun b => b.handle.fd).Nodup := by
    rw [hsame.fds]
    exact hown
  have hslot := pass_caughtUp hpass hown' hmem hu
  have hlast : CaughtUp E b w₁ w' := ⟨hslot.read, hslot.answered⟩
  have hcaught := hlast.frame (he.untouched E deadline wake b.handle.fd p) (pass_ran hpass)
    (.refl E _ _)
  rw [hsince]
  exact hcaught.reads hwaited hlater

end Reads

end UhidBattery
