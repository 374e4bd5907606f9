import UhidBattery.Spurious
import UhidBattery.ServeAll
import UhidBattery.Ledger
import UhidBattery.Completed

/-!
# Pushes that fall due while serving

`serve_all` returns `Deadline` only when nothing is left that was due by then: a
push that was pending and fell due has been made.

* `completes_honours`: a call that succeeds loses no `START`: its push is made, or
  pending.
* `pass_notDue`: after a pass nothing is due that was due when it began.
* `serving_pushes_due`: so it is for every battery of a slice that is served.
-/

namespace UhidBattery

open Record (ByteOrder)
open Program (Outcome EachOk)
open Deadlines (Covers)

/-- The clock never goes back. -/
def Steady (E : Env) : Prop := ∀ history calls, E.time history ≤ E.time (history ++ calls)

section Clock

variable {E : Env} {w w' : World} {calls : List Entry}

theorem Ran.time_le (h : Ran E w calls w') (hsteady : Steady E) :
    E.time w.history ≤ E.time w'.history := by
  rw [h.history]
  exact hsteady _ _

theorem Ran.clocks_le (h : Ran E w calls w') (hsteady : Steady E) :
    ∀ t ∈ clocks calls, E.time w.history ≤ t := by
  induction h with
  | nil w => simp
  | @cons w w' call calls hg h ih =>
    intro t ht
    rw [← List.singleton_append, clocks_append, List.mem_append] at ht
    rcases ht with ht | ht
    · obtain ⟨x, hx, hnow⟩ := List.mem_filterMap.mp ht
      rw [List.mem_singleton.mp hx] at hnow
      cases call with
      | now => exact Nat.le_of_eq (Option.some.inj hnow)
      | _ => cases hnow
    · have hnext := (Ran.single hg).time_le hsteady
      exact Nat.le_trans hnext (ih t ht)

end Clock

/-! ## STARTs -/

/-- What is left of the `START`s and of the slot after some calls: what no push has
followed is still in the slot. -/
structure Honoured (order : ByteOrder) (b : Battery) (calls : List Entry)
    (slot : Option Instant) : Prop where
  current : ∀ x ∈ inputs order b.handle.fd calls, x.2 = b.report
  pending : inputs order b.handle.fd calls = [] → ∀ d, Covers b.repushAt d → Covers slot d
  starts : ∀ before after, calls = before ++ after → inputs order b.handle.fd after = [] →
    ∀ d ∈ startDues order b.handle.fd after, Covers slot d
  looked : Looked order b.handle.fd calls

section Honoured

variable {order : ByteOrder} {b b' : Battery} {fd : Fd} {s t calls : List Entry}
  {slot slot' : Option Instant}

theorem startDues_of_undelivered (h : delivered fd calls = []) : startDues order fd calls = [] := by
  rw [startDues, startTimes, looksAfter_of_none (readsStart_of_undelivered h)]
  rfl

/-- Up to another `START`, the `START`s of two stretches are those of each. -/
theorem startDues_append (h : ∀ x ∈ s.getLast?, x.readsStart order fd = false) :
    startDues order fd (s ++ t) = startDues order fd s ++ startDues order fd t := by
  rw [startDues, startTimes, looksAfter_append_of_closed h, List.map_append]
  rfl

theorem Honoured.append (hs : Honoured order b s slot)
    (ht : Honoured order (b.withRepush slot) t slot') : Honoured order b (s ++ t) slot' := by
  constructor
  · intro x hx
    rw [inputs_append] at hx
    rcases List.mem_append.mp hx with hx | hx
    · exact hs.current x hx
    · exact ht.current x hx
  · intro hi d hd
    rw [inputs_append, List.append_eq_nil_iff] at hi
    exact ht.pending hi.2 d (hs.pending hi.1 d hd)
  · intro before after heq hi d hd
    rcases List.append_eq_append_iff.mp heq with ⟨c, rfl, rfl⟩ | ⟨c, rfl, rfl⟩
    · exact ht.starts c after rfl hi d hd
    · rw [inputs_append, List.append_eq_nil_iff] at hi
      have hclosed : ∀ x ∈ c.getLast?, x.readsStart order b.handle.fd = false := by
        intro x hx
        refine hs.looked.closed x ?_
        rw [List.getLast?_append, Option.mem_def.mp hx]
        rfl
      rw [startDues_append hclosed] at hd
      rcases List.mem_append.mp hd with hd | hd
      · exact ht.pending hi.2 d (hs.starts before c rfl hi.1 d hd)
      · exact ht.starts [] t rfl hi.2 d hd
  · exact hs.looked.append ht.looked

theorem honoured_of_untouched (b : Battery)
    (h : reads b.handle.fd calls = [] ∧ writes b.handle.fd calls = []) :
    Honoured order b calls b.repushAt := by
  have hd : delivered b.handle.fd calls = [] := by
    rw [delivered, h.1]
    rfl
  have hi : inputs order b.handle.fd calls = [] := inputs_of_writes h.2
  refine ⟨by simp [hi], fun _ _ hcov => hcov, ?_, looked_of_undelivered hd⟩
  rintro before after rfl - d hdue
  rw [delivered_append, List.append_eq_nil_iff] at hd
  rw [startDues_of_undelivered hd.2] at hdue
  cases hdue

/-- **A `service` that succeeds** loses no `START`. -/
theorem Served.honoured (h : Served order b (.ok ()) calls b') :
    Honoured order b calls b'.repushAt := by
  have hlooked := h.looked
  cases h.compared (Or.inl rfl) with
  | kept hi ht =>
    refine ⟨by simp [hi], fun _ d hd => covers_of_pending (Or.inl hd), ?_, hlooked⟩
    rintro before after rfl - d hd
    refine covers_of_pending (Or.inr ?_)
    exact List.map_subset _ (looksAfter_suffix _ before after) hd
  | @pushed queue x t hs ht hcalls hq hi =>
    have hinputs : inputs order b.handle.fd calls = [(x.time, b.report)] := by
      rw [hcalls, inputs_append, hq, hi]
      rfl
    refine ⟨by simp [hinputs], by simp [hinputs], ?_, hlooked⟩
    intro before after heq hnone d hd
    -- The push is the last call, so that a stretch without it is empty.
    rcases List.eq_nil_or_concat after with rfl | ⟨l, y, rfl⟩
    · cases hd
    · rw [hcalls, List.concat_eq_append, ← List.append_assoc] at heq
      obtain ⟨-, rfl⟩ := List.append_singleton_inj.mp heq
      rw [List.concat_eq_append, inputs_append, hi] at hnone
      exact absurd hnone (by simp)

end Honoured

/-- The battery but for its slot, and calls that lose no `START`. -/
def Honours (E : Env) (s s' : Battery × World) : Prop :=
  (∃ slot, s'.1 = s.1.withRepush slot) ∧
    ∃ calls, Ran E s.2 calls s'.2 ∧ Honoured E.order s.1 calls s'.1.repushAt

theorem honours_of_untouched {E : Env} {b : Battery} {w w' : World}
    (h : Untouched E b.handle.fd w w') : Honours E (b, w) (b, w') := by
  obtain ⟨calls, hran, hnone⟩ := h
  exact ⟨⟨b.repushAt, withRepush_self b⟩, calls, hran, honoured_of_untouched b hnone⟩

instance (E : Env) : IsPreorder (Battery × World) (Honours E) where
  refl s := honours_of_untouched (.refl E _ s.2)
  trans s₁ s₂ s₃ := by
    rintro ⟨⟨slot, h⟩, calls, hran, hp⟩ ⟨⟨slot', h'⟩, calls', hran', hp'⟩
    rw [h] at h' hp' hp
    exact ⟨⟨slot', h'⟩, _, hran.append hran', hp.append hp'⟩

theorem honours_kept (E : Env) (rounds : Nat) : KeptOk E rounds (Honours E) where
  own := by
    rintro ⟨b, w⟩ ⟨⟩ ⟨b', w'⟩ h
    obtain ⟨hran, hs⟩ := service_since h
    obtain ⟨slot, hsame⟩ := hs.same
    exact ⟨by rw [hsame]; rfl, ⟨slot, hsame⟩, _, hran, hs.honoured⟩
  other x w _ hne := honours_of_untouched (service_untouched E rounds x w hne)
  idle _ _ _ hg hidle := honours_of_untouched (.next hg hidle)

theorem Honours.since {E : Env} {b b' : Battery} {w w' : World} (h : Honours E (b, w) (b', w')) :
    Honoured E.order b (w.since w') b'.repushAt := by
  obtain ⟨-, calls, hran, hp⟩ := h
  have hran : Ran E w calls w' := hran
  rw [hran.since]
  exact hp

/-- A push that was asked for in a stretch has been made there, or is still pending. -/
theorem Honoured.pushed {order : ByteOrder} {b : Battery} {calls after : List Entry}
    {slot : Option Instant} {due : Instant} (h : Honoured order b calls slot)
    (hsub : inputs order b.handle.fd after ⊆ inputs order b.handle.fd calls)
    (hnone : inputs order b.handle.fd after = [] → Covers slot due) :
    (∃ t, (t, b.report) ∈ inputs order b.handle.fd after) ∨ ∃ d ≤ due, slot = some d := by
  cases hi : inputs order b.handle.fd after with
  | nil => exact Or.inr (hnone hi)
  | cons x rest =>
    have hmem : x ∈ inputs order b.handle.fd after := by
      rw [hi]
      exact List.mem_cons_self
    refine Or.inl ⟨x.1, ?_⟩
    rw [← h.current x (hsub hmem)]
    exact List.mem_cons_self

theorem Honoured.start_pushed {order : ByteOrder} {b : Battery} {before after : List Entry}
    {slot : Option Instant} {due : Instant} (h : Honoured order b (before ++ after) slot)
    (hdue : due ∈ startDues order b.handle.fd after) :
    (∃ t, (t, b.report) ∈ inputs order b.handle.fd after) ∨ ∃ d ≤ due, slot = some d := by
  refine h.pushed ?_ fun hi => h.starts before after rfl hi due hdue
  rw [inputs_append]
  exact List.subset_append_right _ _

/-- A `START` that was read: its look comes next, its push later. -/
theorem Honoured.read_pushed {order : ByteOrder} {b : Battery} {before after : List Entry}
    {slot : Option Instant} {x : Entry} (h : Honoured order b (before ++ x :: after) slot)
    (hstart : x.readsStart order b.handle.fd = true) :
    ∃ y rest, after = y :: rest ∧ y.call = .now ∧
      ((∃ t, (t, b.report) ∈ inputs order b.handle.fd rest) ∨
        ∃ d ≤ y.time + startSettleDelay, slot = some d) := by
  obtain ⟨y, rest, rfl, hy⟩ := h.looked before x after rfl hstart
  have hnow : y.now? = some y.time := by rw [Entry.now?, hy]
  have hdue : y.time + startSettleDelay ∈ startDues order b.handle.fd (x :: y :: rest) := by
    rw [startDues, startTimes, looksAfter, if_pos hstart, hnow]
    exact List.mem_cons_self
  obtain ⟨buf, hx, -⟩ := call_of_readsStart hstart
  have hread : inputs order b.handle.fd ([x, y] ++ rest) = inputs order b.handle.fd rest := by
    rw [inputs_append, ← List.singleton_append, inputs_append,
      inputs_of_writes (writes_of_read hx _), inputs_of_writes (writes_of_now hy _)]
    rfl
  refine ⟨y, rest, rfl, hy, ?_⟩
  rw [← hread]
  exact h.start_pushed hdue

/-- **No `START` is forgotten.**  Whatever a call that services the battery met, if it
returns `Ok`, each `START` that it read gets its look at the clock and, after that,
a push of the battery's report, or has one pending that is no later than it asked
for. -/
theorem completes_honours {E : Env} {b b' : Battery} {w w' : World}
    (h : Completes E b w b' w') : ∀ before x after, w.since w' = before ++ x :: after →
    x.readsStart E.order b.handle.fd = true → ∃ y rest, after = y :: rest ∧ y.call = .now ∧
      ((∃ t, (t, b.report) ∈ inputs E.order b.handle.fd rest) ∨
        ∃ d ≤ y.time + startSettleDelay, b'.nextDeadline = some d) := by
  intro before x after heq hstart
  have hh := (h.ensures (honours_kept E)).since
  rw [heq] at hh
  exact hh.read_pushed hstart

/-- A mouse that finds two `START`s and pushes once, after both. -/
theorem completes_honours_mouse : ∃ event buf w, eventOf .little event = .start ∧
    (World.queueing [event, event]).since w = strollingCalls event buf ∧
    startsRead .little 3 (strollingCalls event buf) = [fromMillis 70, fromMillis 210] ∧
    (∃ t, (t, (mouse 3).report) ∈ inputs .little 3 ((strollingCalls event buf).drop 2)) ∧
    ∃ t, (t, (mouse 3).report) ∈ inputs .little 3 ((strollingCalls event buf).drop 4) := by
  obtain ⟨event, -, he⟩ := start_decodes .little
  rw [decode_eq, Outcome.ok.injEq] at he
  obtain ⟨buf, w, -, hservice, hhistory⟩ := strolling_service he
  have hsince : (World.queueing [event, event]).since w = strollingCalls event buf := hhistory
  have hall := completes_honours (.service hservice)
  rw [hsince] at hall
  have hread {t : Instant} {arrivals : Fd → List Buffer} :
      Entry.readsStart .little 3 ⟨t, arrivals, .read 3 (.delivered event)⟩ = true :=
    readsStart_of_start rfl he
  refine ⟨event, buf, w, he, hsince, startsRead_strollingCalls he, ?_, ?_⟩
  · obtain ⟨y, rest, hrest, -, hpushed⟩ := hall [] _ _ rfl hread
    obtain ⟨-, rfl⟩ := List.cons.inj hrest
    exact hpushed.resolve_right fun ⟨_, _, hslot⟩ => nomatch hslot
  · obtain ⟨y, rest, hrest, -, hpushed⟩ := hall (_ :: [_]) _ _ rfl hread
    obtain ⟨-, rfl⟩ := List.cons.inj hrest
    exact hpushed.resolve_right fun ⟨_, _, hslot⟩ => nomatch hslot

/-! ## What is due -/

section Pass

variable {E : Env} {rounds : Nat} {b b' : Battery} {w w' : World}

/-- A `service` that succeeds leaves nothing that was due when it began. -/
theorem service_notDue (hsteady : Steady E)
    (h : Battery.service E rounds (b, w) = (.ok (), (b', w'))) {d : Instant}
    (hd : b'.nextDeadline = some d) : E.time w.history < d := by
  obtain ⟨hran, hs⟩ := service_since h
  rcases hs.not_due with hnone | ⟨d', t, hsome, hcheck, hlt⟩
  · rw [hnone] at hd
    cases hd
  · rw [hsome, Option.some.injEq] at hd
    have hmem : t ∈ clocks (w.since w') := by
      refine looksAfter_subset (Entry.readsNothing E.order b.handle.fd) _ ?_
      change t ∈ checkTimes E.order b.handle.fd (w.since w')
      rw [hcheck]
      exact List.mem_singleton_self t
    rw [← hd]
    exact Nat.lt_of_le_of_lt (hran.clocks_le hsteady t hmem) hlt

/-- **A pass** leaves nothing that was due when it began. -/
theorem pass_notDue (hsteady : Steady E) {xs xs' : List Battery} {T : Instant}
    (h : EachOk (Battery.service E rounds) xs w xs' w') (hT : T ≤ E.time w.history) :
    ∀ b ∈ xs', ∀ d, b.nextDeadline = some d → T < d := by
  induction h with
  | nil => simp
  | @cons x x' xs xs' w w₁ w' hx hrest ih =>
    obtain ⟨hran, -⟩ := service_since hx
    intro b hb d hd
    rcases List.mem_cons.mp hb with rfl | hb
    · exact Nat.lt_of_le_of_lt hT (service_notDue hsteady hx hd)
    · exact ih (Nat.le_trans hT (hran.time_le hsteady)) b hb d hd

end Pass

/-! ## A whole call -/

section Serve

variable {E : Env} {rounds : Nat} {deadline : Option Instant} {wake : Option Fd}
  {s s' p : List Battery × World}

/-- `Deadline` is returned after a pass that began when it had been reached. -/
theorem Ends.past (hsteady : Steady E) {d : Instant} {w : World}
    (h : Ends E (some d) wake p .deadline w) : d ≤ E.time w.history := by
  cases h with
  | deadline hc hexpired =>
    obtain ⟨d', hd, hle⟩ := hexpired
    cases hd
    exact Nat.le_trans hle (hsteady _ _)

/-- What was pending has been pushed, or is still pending and no later. -/
def NoneLost (order : ByteOrder) (calls : List Entry) (b b' : Battery) : Prop :=
  ∀ due, b.nextDeadline = some due →
    (∃ t, (t, b.report) ∈ inputs order b.handle.fd calls) ∨ ∃ d ≤ due, b'.nextDeadline = some d

theorem serveAll_noneLost {result : Wakeup} {bs bs' : List Battery} {w w' : World}
    (hown : (bs.map fun b => b.handle.fd).Nodup)
    (h : serveAll E rounds deadline wake (bs, w) = (.ok result, (bs', w'))) :
    List.Forall₂ (NoneLost E.order (w.since w')) bs bs' := by
  have hall := serveAll_ensures (honours_kept E rounds) deadline wake _ _ _ h hown
  refine List.Forall₂.imp (fun b b' hb due hdue => ?_) hall
  have hh := hb.2.since
  exact hh.pushed (List.Subset.refl _) fun hi => hh.pending hi due (Deadlines.covers_self _ hdue)

theorem completes_of_serveAll {result : Wakeup} {b : Battery} {bs bs' : List Battery} {w w' : World}
    (hown : (bs.map fun b => b.handle.fd).Nodup)
    (h : serveAll E rounds deadline wake (bs, w) = (.ok result, (bs', w'))) (hb : b ∈ bs) :
    ∃ b' ∈ bs', Completes E b w b' w' := by
  have hlen := (serveAll_noneLost hown h).length_eq
  obtain ⟨i, hi, rfl⟩ := List.mem_iff_getElem.mp hb
  have hi' : i < bs'.length := by
    rw [← hlen]
    exact hi
  exact ⟨bs'[i], List.getElem_mem hi', .serveAll hown h (List.getElem?_eq_getElem hi)
    (List.getElem?_eq_getElem hi')⟩

theorem serveAll_notDue (hsteady : Steady E) {last : Instant} {bs bs' : List Battery}
    {w w' : World}
    (h : serveAll E rounds (some last) wake (bs, w) = (.ok .deadline, (bs', w'))) :
    ∀ b' ∈ bs', ∀ d, b'.nextDeadline = some d → last < d := by
  obtain ⟨s, -, hlast⟩ := Program.loop_eq_ok h
  obtain ⟨p, w₁, -, he, hpass⟩ := serveOnce_eq_some hlast
  exact pass_notDue hsteady hpass (he.past hsteady)

/-- Where nothing is left that was due, what was due has been pushed. -/
theorem pushed_of_notDue {order : ByteOrder} {calls : List Entry} {bs bs' : List Battery}
    {last : Instant} (hkept : List.Forall₂ (NoneLost order calls) bs bs')
    (hnone : ∀ b' ∈ bs', ∀ d, b'.nextDeadline = some d → last < d) :
    ∀ b ∈ bs, ∀ due ≤ last, b.nextDeadline = some due →
      ∃ t, (t, b.report) ∈ inputs order b.handle.fd calls := by
  intro b hb due hle hdue
  obtain ⟨i, hi, rfl⟩ := List.mem_iff_getElem.mp hb
  have hi' : i < bs'.length := by
    rw [← hkept.length_eq]
    exact hi
  rcases hkept.get hi hi' due hdue with hpushed | ⟨d, hd, hsome⟩
  · exact hpushed
  · have hlt := hnone _ (List.getElem_mem hi') d hsome
    exact absurd (Nat.le_trans hd hle) (Nat.not_le_of_lt hlt)

end Serve

/-- **Serving makes the pushes that fall due.**  However `serve_all` returns without
an error, what was pending has been pushed or is still pending, no later; and
when it returns `Deadline`, nothing is left that was due by the deadline, so
what was pending for then has been pushed. -/
theorem serving_pushes_due {E : Env} {rounds : Nat} {deadline : Option Instant} {wake : Option Fd}
    {bs bs' : List Battery} {w w' : World} {result : Wakeup} (hsteady : Steady E)
    (hown : (bs.map fun b => b.handle.fd).Nodup)
    (h : serveAll E rounds deadline wake (bs, w) = (.ok result, (bs', w'))) :
    List.Forall₂ (NoneLost E.order (w.since w')) bs bs' ∧
    ∀ last, deadline = some last → result = .deadline →
      (∀ b' ∈ bs', ∀ d, b'.nextDeadline = some d → last < d) ∧
      ∀ b ∈ bs, ∀ due ≤ last, b.nextDeadline = some due →
        ∃ t, (t, b.report) ∈ inputs E.order b.handle.fd (w.since w') := by
  have hkept := serveAll_noneLost hown h
  refine ⟨hkept, ?_⟩
  rintro last rfl rfl
  have hnone := serveAll_notDue hsteady h
  exact ⟨hnone, pushed_of_notDue hkept hnone⟩

/-- A mouse with a push due at 4, served until 4 at clock reading 5. -/
theorem serving_pushes_due_mouse : ∃ bs' w' t,
    serveAll (.calm .little 5) 1 (some 4) none ([(mouse 3).withRepush (some 4)], .started) =
      (.ok .deadline, (bs', w')) ∧
    (t, (mouse 3).report) ∈ inputs .little 3 (World.started.since w') := by
  obtain ⟨bs', w', h⟩ : ∃ bs' w', serveAll (.calm .little 5) 1 (some 4) none
      ([(mouse 3).withRepush (some 4)], .started) = (.ok .deadline, (bs', w')) := ⟨_, _, rfl⟩
  have hsteady : Steady (.calm .little 5) := fun _ _ => Nat.le_refl 5
  obtain ⟨-, hdeadline⟩ := serving_pushes_due hsteady (by simp) h
  obtain ⟨t, ht⟩ := (hdeadline 4 rfl rfl).2 _ List.mem_cons_self 4 (Nat.le_refl 4) rfl
  exact ⟨bs', w', t, h, ht⟩

end UhidBattery
