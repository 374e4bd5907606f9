import UhidBattery.Turns

/-!
# How `serve_all` ends

* `serveAll_ok`: it returns after one more complete pass, and for the right
  reason.
* `serveAll_err`: it names the battery that failed and has left the others
  alone, or it names none and no battery has failed.
-/

namespace UhidBattery

open Record (ByteOrder)
open Program (Outcome EachOk Turn loop)
open Relation (ReflTransGen)

/-! ## What does not concern a battery -/

/-- Nothing was read from the descriptor or written to it; events may have arrived. -/
def Untouched (E : Env) (fd : Fd) (w w' : World) : Prop :=
  ∃ calls, Ran E w calls w' ∧ reads fd calls = [] ∧ writes fd calls = []

section Untouched

variable {E : Env} {fd : Fd} {w w₁ w' : World}

theorem Untouched.refl (E : Env) (fd : Fd) (w : World) : Untouched E fd w w := ⟨[], .nil w, rfl, rfl⟩

theorem Untouched.trans (h : Untouched E fd w w₁) (h' : Untouched E fd w₁ w') :
    Untouched E fd w w' := by
  obtain ⟨calls, hran, hr, hw⟩ := h
  obtain ⟨calls', hran', hr', hw'⟩ := h'
  exact ⟨_, hran.append hran', by rw [reads_append, hr, hr']; rfl,
    by rw [writes_append, hw, hw']; rfl⟩

/-- All that can have happened to the queue is that it grew. -/
theorem Untouched.queue (h : Untouched E fd w w') :
    w'.queue fd = w.queue fd ++ arrived fd (w.since w') := by
  obtain ⟨calls, hran, hr, -⟩ := h
  rw [hran.since]
  exact hran.queue_of_unread (by rw [delivered, hr]; rfl)

theorem Untouched.next {call : Call} (hg : Genuine E w call) (hi : call.Idle) :
    Untouched E fd w (w.next E call) := by
  refine ⟨_, .single hg, ?_, writes_of_idle hi fd⟩
  have hr : (w.entry E call).read? fd = none := by
    rw [Entry.read?, World.entry_call]
    cases call with
    | read fd' result => exact hi.elim
    | now => rfl
    | write fd' event answer => rfl
    | poll fds timeout answer => rfl
    | readDir listing => rfl
  rw [reads, List.filterMap_cons, hr]
  rfl

theorem service_untouched (E : Env) (rounds : Nat) (b : Battery) (w : World)
    (hne : fd ≠ b.handle.fd) : Untouched E fd w (Battery.service E rounds (b, w)).2.2 := by
  obtain ⟨calls, hran, h⟩ := service_spec E rounds b w
  exact ⟨calls, hran, h.onlyOn.others hne⟩

/-- A pass over other batteries. -/
theorem pass_untouched {rounds : Nat} {xs xs' : List Battery}
    (h : EachOk (Battery.service E rounds) xs w xs' w') (hne : ∀ x ∈ xs, fd ≠ x.handle.fd) :
    Untouched E fd w w' := by
  induction h with
  | nil => exact .refl E fd _
  | @cons x x' xs xs' s s₁ s' hx _ ih =>
    have hfirst := service_untouched E rounds x s (hne x List.mem_cons_self)
    rw [hx] at hfirst
    exact hfirst.trans (ih fun y hy => hne y (List.mem_cons_of_mem _ hy))

end Untouched

section Polled

variable (E : Env) (rounds : Nat) (deadline : Option Instant) (wake : Option Fd) (fd : Fd)
  (p : List Battery × World)

theorem polled_untouched : Untouched E fd p.2 (polled E deadline wake p) := by
  have hnow : Untouched E fd p.2 (p.2.next E .now) := .next trivial trivial
  exact hnow.trans (.next rfl trivial)

theorem looked_untouched (w : World) : Untouched E fd w (looked E deadline w) := by
  unfold looked
  split
  · exact .next trivial trivial
  · exact .refl E fd w

theorem Ends.untouched {wakeup : Wakeup} {w : World} (h : Ends E deadline wake p wakeup w) :
    Untouched E fd (polled E deadline wake p) w := by
  cases h with
  | wake h => exact .refl E fd _
  | interrupted h => exact .refl E fd _
  | deadline hc h => exact .next trivial trivial

end Polled

/-! ## The batteries of the slice -/

/-- The same batteries, up to their slots. -/
def Same : List Battery → List Battery → Prop :=
  List.Forall₂ fun b b' => ∃ slot, b' = b.withRepush slot

theorem Same.refl (bs : List Battery) : Same bs bs :=
  List.forall₂_same.mpr fun b _ => ⟨b.repushAt, withRepush_self b⟩

theorem Same.trans {bs₁ bs₂ bs₃ : List Battery} (h : Same bs₁ bs₂) (h' : Same bs₂ bs₃) :
    Same bs₁ bs₃ := by
  induction h generalizing bs₃ with
  | nil => exact h'
  | cons hx _ ih =>
    cases h' with
    | cons hy hrest =>
      obtain ⟨slot, rfl⟩ := hx
      obtain ⟨slot', rfl⟩ := hy
      exact .cons ⟨slot', withRepush_withRepush _ slot slot'⟩ (ih hrest)

theorem Same.fds {bs bs' : List Battery} (h : Same bs bs') :
    bs'.map (fun b => b.handle.fd) = bs.map fun b => b.handle.fd := by
  induction h with
  | nil => rfl
  | cons hx _ ih =>
    obtain ⟨slot, rfl⟩ := hx
    rw [List.map_cons, List.map_cons, ih, withRepush_handle]

theorem Same.mem {bs bs' : List Battery} (h : Same bs bs') {b : Battery} (hb : b ∈ bs) :
    ∃ slot, b.withRepush slot ∈ bs' := by
  induction h with
  | nil => cases hb
  | cons hx _ ih =>
    rcases List.mem_cons.mp hb with rfl | hb
    · obtain ⟨slot, rfl⟩ := hx
      exact ⟨slot, List.mem_cons_self⟩
    · obtain ⟨slot, hslot⟩ := ih hb
      exact ⟨slot, List.mem_cons_of_mem _ hslot⟩

section Same

variable {E : Env} {rounds : Nat} {deadline : Option Instant} {wake : Option Fd}
  {s s' : List Battery × World}

theorem EachOk.same {xs xs' : List Battery} {w w' : World}
    (h : EachOk (Battery.service E rounds) xs w xs' w') : Same xs xs' := by
  induction h with
  | nil => exact .nil
  | @cons x x' xs xs' s s₁ s' hx _ ih =>
    obtain ⟨calls, -, hserved⟩ := service_spec E rounds x s
    have hsame := hserved.same
    rw [hx] at hsame
    exact .cons hsame ih

theorem turns_same (h : ReflTransGen (QuietTurn E rounds deadline wake) s s') : Same s.1 s'.1 := by
  induction h with
  | refl => exact .refl _
  | tail _ hturn ih =>
    obtain ⟨p, hp, -, -, rfl⟩ := hturn
    exact ih.trans (EachOk.same hp)

end Same

/-! ## What a pass answers -/

/-- From `w` to `w'` everything that was queued has been read, every request that
was read has been answered, once and in order, and besides that at most one
`INPUT2` was sent. -/
structure CaughtUp (E : Env) (b : Battery) (w w' : World) : Prop where
  read : w.queue b.handle.fd <+: delivered b.handle.fd (w.since w')
  answered : ∃ push, sent E.order b.handle.fd (w.since w') =
      ((delivered b.handle.fd (w.since w')).filterMap fun buf =>
        b.replyTo (eventOf E.order buf)) ++ push ∧
    (push = [] ∨ push = [.input2 b.report])

section CaughtUp

variable {E : Env} {rounds : Nat} {b : Battery} {w w₁ w₂ w' : World}

theorem service_caughtUp {b' : Battery} (hu : Uninterrupted E b.handle.fd)
    (h : Battery.service E rounds (b, w) = (.ok (), (b', w'))) : CaughtUp E b w w' := by
  obtain ⟨queue, push, w₁, hqueue, hpush, hd, hq, hup, hs⟩ := service_of_ok hu h
  have hempty : w₁.queue b.handle.fd = [] := by
    have hq₁ := hqueue.queue b.handle.fd
    rw [hd] at hq₁
    exact List.append_right_eq_self.mp hq₁.symm
  have hnone : delivered b.handle.fd push = [] := by
    have hq₂ := hpush.queue b.handle.fd
    rw [hempty, hq, List.nil_append] at hq₂
    exact List.append_left_eq_self.mp hq₂.symm
  have hread : delivered b.handle.fd (queue ++ push) = delivered b.handle.fd queue := by
    rw [delivered_append, hnone, List.append_nil]
  constructor
  · rw [(hqueue.append hpush).since, hread, hd]
    exact List.prefix_append _ _
  · refine ⟨sent E.order b.handle.fd push, ?_, ?_⟩
    · rw [(hqueue.append hpush).since, hread, sent_append, hup.replies]
    · split at hs
      · exact Or.inl (by rw [hs]; rfl)
      · obtain ⟨t, -, hs⟩ := hs
        rw [hs]
        split
        · exact Or.inr rfl
        · exact Or.inl rfl

/-- What does not concern the battery may come before and after. -/
theorem CaughtUp.frame (h₁ : Untouched E b.handle.fd w w₁) (h : CaughtUp E b w₁ w₂)
    (hran : ∃ calls, Ran E w₁ calls w₂) (h₂ : Untouched E b.handle.fd w₂ w') :
    CaughtUp E b w w' := by
  have hqueue := h₁.queue
  obtain ⟨c₁, hr₁, hreads₁, hwrites₁⟩ := h₁
  obtain ⟨c₂, hr₂, hreads₂, hwrites₂⟩ := h₂
  obtain ⟨calls, hran⟩ := hran
  obtain ⟨hread, push, hanswered, hpush⟩ := h
  rw [hran.since] at hread hanswered
  have hd : delivered b.handle.fd (c₁ ++ (calls ++ c₂)) = delivered b.handle.fd calls := by
    simp [delivered, hreads₁, hreads₂]
  have hs : sent E.order b.handle.fd (c₁ ++ (calls ++ c₂)) = sent E.order b.handle.fd calls := by
    simp [sent, accepted, hwrites₁, hwrites₂]
  have hsince := (hr₁.append (hran.append hr₂)).since
  constructor
  · rw [hsince, hd]
    refine List.IsPrefix.trans ?_ hread
    rw [hqueue]
    exact List.prefix_append _ _
  · exact ⟨push, by rw [hsince, hs, hd]; exact hanswered, hpush⟩

/-- **A pass answers every battery's requests.** -/
theorem pass_caughtUp {xs xs' : List Battery}
    (h : EachOk (Battery.service E rounds) xs w xs' w')
    (hown : (xs.map fun x => x.handle.fd).Nodup) (hb : b ∈ xs)
    (hu : Uninterrupted E b.handle.fd) : CaughtUp E b w w' := by
  induction h with
  | nil => cases hb
  | @cons x x' xs xs' s s₁ s' hx hrest ih =>
    obtain ⟨hnot, hown⟩ := List.nodup_cons.mp hown
    have hne (y : Battery) (hy : y ∈ xs) : x.handle.fd ≠ y.handle.fd := fun heq =>
      hnot (List.mem_map.mpr ⟨y, hy, heq.symm⟩)
    obtain ⟨calls, hran, -⟩ := service_spec E rounds x s
    rw [hx] at hran
    rcases List.mem_cons.mp hb with rfl | hb
    · exact (service_caughtUp hu hx).frame (.refl E _ _) ⟨calls, hran⟩ (pass_untouched hrest hne)
    · have hfirst := service_untouched E rounds x s (hne b hb).symm
      rw [hx] at hfirst
      exact (ih hown hb).frame hfirst (pass_ran hrest) (.refl E _ _)

end CaughtUp

/-! ## Success -/

section Ends

variable {E : Env} {deadline : Option Instant} {wake : Option Fd} {p : List Battery × World}
  {result : Wakeup} {w : World}

theorem Ends.wake_iff (he : Ends E deadline wake p result w) :
    result = .wake ↔ WakeReadable wake p.1.length (pollAnswer E deadline wake p) := by
  cases he with
  | wake h => exact iff_of_true rfl h
  | interrupted h =>
    apply iff_of_false (by simp)
    intro hr
    obtain ⟨count, revents, ha⟩ := hr.ready
    rw [h] at ha
    cases ha
  | deadline hc h => exact iff_of_false (by simp) hc.2.1

theorem Ends.interrupted_iff (he : Ends E deadline wake p result w) :
    result = .interrupted ↔ pollAnswer E deadline wake p = .fails .intr := by
  cases he with
  | wake h =>
    obtain ⟨count, revents, ha⟩ := h.ready
    exact iff_of_false (by simp) (by rw [ha]; simp)
  | interrupted h => exact iff_of_true rfl h
  | deadline hc h =>
    obtain ⟨count, revents, ha⟩ := hc.1
    exact iff_of_false (by simp) (by rw [ha]; simp)

theorem Ends.deadline_iff (he : Ends E deadline wake p result w) :
    result = .deadline ↔ Calm wake p.1.length (pollAnswer E deadline wake p) ∧
      Expired E deadline wake p := by
  cases he with
  | wake h => exact iff_of_false (by simp) fun hc => hc.1.2.1 h
  | interrupted h =>
    apply iff_of_false (by simp)
    intro hc
    obtain ⟨⟨count, revents, ha⟩, -⟩ := hc.1
    rw [h] at ha
    cases ha
  | deadline hc h => exact iff_of_true rfl ⟨hc, h⟩

theorem Ends.world (he : Ends E deadline wake p result w) :
    w = polled E deadline wake p ∨ w = (polled E deadline wake p).next E .now := by
  cases he with
  | wake h => exact Or.inl rfl
  | interrupted h => exact Or.inl rfl
  | deadline hc h => exact Or.inr rfl

end Ends

/-- **`serve_all` returns only after a full pass, and for the right reason.** -/
theorem serveAll_ok (E : Env) (rounds : Nat) (deadline : Option Instant) (wake : Option Fd)
    (bs bs' : List Battery) (w w' : World) (result : Wakeup)
    (hown : (bs.map fun b => b.handle.fd).Nodup)
    (h : serveAll E rounds deadline wake (bs, w) = (.ok result, (bs', w'))) :
    ∃ s p w₁, ReflTransGen (QuietTurn E rounds deadline wake) (bs, w) s ∧ Pass E rounds s p ∧
      (result = .wake ↔ WakeReadable wake bs.length (pollAnswer E deadline wake p)) ∧
      (result = .interrupted ↔ pollAnswer E deadline wake p = .fails .intr) ∧
      (result = .deadline ↔ Calm wake bs.length (pollAnswer E deadline wake p) ∧
        Expired E deadline wake p) ∧
      (w₁ = polled E deadline wake p ∨ w₁ = (polled E deadline wake p).next E .now) ∧
      Pass E rounds (p.1, w₁) (bs', w') ∧
      ∀ b ∈ bs, Uninterrupted E b.handle.fd → CaughtUp E b (polled E deadline wake p) w' := by
  obtain ⟨s, hturns, hlast⟩ := Program.loop_eq_ok h
  have hquiet : ReflTransGen (QuietTurn E rounds deadline wake) (bs, w) s :=
    ReflTransGen.mono (fun _ _ => turn_iff.mp) _ _ hturns
  obtain ⟨p, w₁, hp, he, hpass⟩ := serveOnce_eq_some hlast
  have hsame : Same bs p.1 := (turns_same hquiet).trans (EachOk.same hp)
  have hlen : p.1.length = bs.length := hsame.length_eq.symm
  rw [← hlen]
  refine ⟨s, p, w₁, hquiet, hp, he.wake_iff, he.interrupted_iff, he.deadline_iff, he.world, hpass,
    fun b hb hu => ?_⟩
  obtain ⟨slot, hmem⟩ := hsame.mem hb
  have hown' : (p.1.map fun b => b.handle.fd).Nodup := by
    rw [hsame.fds]
    exact hown
  have hslot := pass_caughtUp hpass hown' hmem hu
  have hcaught : CaughtUp E b w₁ w' := ⟨hslot.read, hslot.answered⟩
  exact hcaught.frame (he.untouched E deadline wake b.handle.fd p) (pass_ran hpass) (.refl E _ _)

/-- A system at rest where every call takes a nanosecond, but for a `GET_REPORT` that
arrives on descriptor 4 during the second wait. -/
def Env.asking : Env where
  __ := Env.calm .little 0
  time history := history.length
  arrivals history fd :=
    if history.length = 8 ∧ fd = 4 then [Fake.built (Fake.getReport .little 7 2 rtypeInput)] else []

/-- Two mice served until their deadline. -/
theorem serveAll_ok_mice : ∃ bs' w' p,
    serveAll .asking 3 (some 6) none ([mouse 3, mouse 4], .started) = (.ok .deadline, (bs', w')) ∧
    Expired .asking (some 6) none p ∧
    CaughtUp .asking (mouse 3) (polled .asking (some 6) none p) w' ∧
    CaughtUp .asking (mouse 4) (polled .asking (some 6) none p) w' ∧
    (reads 3 w'.history).length = 3 ∧ w'.queue 4 = [] ∧
    sent .little 4 w'.history = [.getReportReply 7 0 (mouse 4).report] := by
  have hcomes : (serveAll .asking 3 (some 6) none ([mouse 3, mouse 4], .started)).1 =
        .ok .deadline ∧
      (reads 3 (serveAll .asking 3 (some 6) none
        ([mouse 3, mouse 4], .started)).2.2.history).length = 3 ∧
      (serveAll .asking 3 (some 6) none ([mouse 3, mouse 4], .started)).2.2.queue 4 = [] ∧
      sent .little 4 (serveAll .asking 3 (some 6) none
        ([mouse 3, mouse 4], .started)).2.2.history =
        [.getReportReply 7 0 (mouse 4).report] := by
    decide +kernel
  rcases hres : serveAll .asking 3 (some 6) none ([mouse 3, mouse 4], .started) with ⟨o, bs', w'⟩
  rw [hres] at hcomes
  obtain ⟨rfl, hreads, hqueue, hsent⟩ := hcomes
  obtain ⟨s, p, w₁, -, -, -, -, hd, -, -, hcaught⟩ := serveAll_ok .asking 3 (some 6) none
    [mouse 3, mouse 4] bs' .started w' .deadline (by decide) hres
  refine ⟨bs', w', p, rfl, (hd.mp rfl).2, ?_, ?_, hreads, hqueue, hsent⟩
  · exact hcaught _ List.mem_cons_self fun _ => Or.inl rfl
  · exact hcaught _ (List.mem_cons_of_mem _ List.mem_cons_self) fun _ => Or.inl rfl

/-! ## Failure -/

section Failure

variable (E : Env) (rounds : Nat) (deadline : Option Instant) (wake : Option Fd)

/-- How far a call that began in `s₀` has come: the state its last complete pass
left, or `s₀` if there was none, and where the pass after it starts. -/
inductive Passed (s₀ : List Battery × World) : List Battery × World → World → Prop where
  | start : Passed s₀ s₀ s₀.2
  | again {s p : List Battery × World} (ht : ReflTransGen (QuietTurn E rounds deadline wake) s₀ s)
      (hp : Pass E rounds s p) (hc : Calm wake p.1.length (pollAnswer E deadline wake p))
      (hx : ¬ Expired E deadline wake p) :
      Passed s₀ p (looked E deadline (polled E deadline wake p))
  | ended {s p : List Battery × World} {wakeup : Wakeup} {w : World}
      (ht : ReflTransGen (QuietTurn E rounds deadline wake) s₀ s) (hp : Pass E rounds s p)
      (he : Ends E deadline wake p wakeup w) : Passed s₀ p w

/-- The last thing attempted was servicing battery `i`, which failed: those
before it were serviced in this pass, those after it are as the last complete
pass left them. -/
def FailedAt (s₀ s' : List Battery × World) (i : Nat) (source : IoError) : Prop :=
  ∃ last w₁ before before' x x' after w₂, Passed E rounds deadline wake s₀ last w₁ ∧
    last.1 = before ++ x :: after ∧ s'.1 = before' ++ x' :: after ∧ before.length = i ∧
    Pass E rounds (before, w₁) (before', w₂) ∧
    Battery.service E rounds (x, w₂) = (.err source, (x', s'.2)) ∧
    ∀ y ∈ after, Untouched E y.handle.fd last.2 s'.2

/-- The last thing attempted was a poll, after a complete pass: it failed, or
found the wake descriptor broken. -/
def WaitFailed (s₀ s' : List Battery × World) : Prop :=
  ∃ s p, ReflTransGen (QuietTurn E rounds deadline wake) s₀ s ∧ Pass E rounds s p ∧
    (WakeBroken wake p.1.length (pollAnswer E deadline wake p) ∨
      ∃ e, e ≠ .intr ∧ pollAnswer E deadline wake p = .fails e) ∧
    s' = (p.1, polled E deadline wake p) ∧ ∀ b ∈ s'.1, Untouched E b.handle.fd p.2 s'.2

end Failure

section Failure

variable {E : Env} {rounds : Nat} {deadline : Option Instant} {wake : Option Fd}
  {s₀ s s' last : List Battery × World} {w : World} {e : ServeError}

theorem Passed.same (h : Passed E rounds deadline wake s₀ last w) : Same s₀.1 last.1 := by
  cases h with
  | start => exact .refl _
  | again ht hp hc hx => exact (turns_same ht).trans (EachOk.same hp)
  | ended ht hp he => exact (turns_same ht).trans (EachOk.same hp)

theorem Passed.untouched (h : Passed E rounds deadline wake s₀ last w) (fd : Fd) :
    Untouched E fd last.2 w := by
  cases h with
  | start => exact .refl E fd _
  | again ht hp hc hx =>
    exact (polled_untouched E deadline wake fd last).trans (looked_untouched E deadline fd _)
  | ended ht hp he =>
    exact (polled_untouched E deadline wake fd last).trans (he.untouched E deadline wake fd last)

/-- The state a turn starts from. -/
theorem passed_of_turns (h : ReflTransGen (QuietTurn E rounds deadline wake) s₀ s) :
    ∃ last, last.1 = s.1 ∧ Passed E rounds deadline wake s₀ last s.2 := by
  rcases h.cases_tail with rfl | ⟨s₁, ht, p, hp, hc, hx, rfl⟩
  · exact ⟨s, rfl, .start⟩
  · exact ⟨p, rfl, .again ht hp hc hx⟩

/-- A pass that fails, after the last complete one. -/
theorem failedAt_of_err (h : Passed E rounds deadline wake s₀ last w)
    (hown : (s₀.1.map fun b => b.handle.fd).Nodup)
    (he : serviceAll E rounds (last.1, w) = (.err e, s')) :
    ∃ i, e.index = some i ∧ FailedAt E rounds deadline wake s₀ s' i e.source := by
  obtain ⟨before, before', x, x', after, w₂, source, hlast, hs', hok, hx, rfl⟩ :=
    Program.tryForEach_eq_err he
  refine ⟨before.length, by simp, last, w, before, before', x, x', after, w₂, h, hlast, hs', rfl,
    hok, hx, fun y hy => ?_⟩
  rw [← h.same.fds, hlast, List.map_append, List.map_cons] at hown
  obtain ⟨-, hxs, hdisjoint⟩ := List.nodup_append.mp hown
  have hmem : y.handle.fd ∈ after.map fun b => b.handle.fd := List.mem_map_of_mem hy
  have hbefore (z : Battery) (hz : z ∈ before) : y.handle.fd ≠ z.handle.fd := fun heq =>
    hdisjoint _ (List.mem_map_of_mem hz) _ (List.mem_cons_of_mem _ hmem) heq.symm
  have hne : y.handle.fd ≠ x.handle.fd := fun heq => (List.nodup_cons.mp hxs).1 (heq ▸ hmem)
  have hlater := service_untouched E rounds x w₂ hne
  rw [hx] at hlater
  exact ((h.untouched _).trans (pass_untouched hok hbefore)).trans hlater

/-- What a failed call came to. -/
theorem serveAll_err_cases (hown : (s₀.1.map fun b => b.handle.fd).Nodup)
    (h : serveAll E rounds deadline wake s₀ = (.err e, s')) :
    (∃ i, e.index = some i ∧ FailedAt E rounds deadline wake s₀ s' i e.source) ∨
      (e.index = none ∧ WaitFailed E rounds deadline wake s₀ s') := by
  obtain ⟨s, hturns, hlast⟩ := Program.loop_eq_err h
  have hquiet : ReflTransGen (QuietTurn E rounds deadline wake) s₀ s :=
    ReflTransGen.mono (fun _ _ => turn_iff.mp) _ _ hturns
  rcases serveOnce_eq_err hlast with hall | ⟨p, hp, ⟨wakeup, w, he, hall⟩ | ⟨rfl, hwait⟩⟩
  · obtain ⟨last, hs, hpassed⟩ := passed_of_turns hquiet
    rw [← Prod.mk.eta (p := s), ← hs] at hall
    exact Or.inl (failedAt_of_err hpassed hown hall)
  · exact Or.inl (failedAt_of_err (.ended hquiet hp he) hown hall)
  · have hleft (b : Battery) : Untouched E b.handle.fd p.2 (polled E deadline wake p) :=
      polled_untouched E deadline wake _ p
    rcases hwait with ⟨hb, rfl⟩ | ⟨errno, he, ha, rfl⟩
    · exact Or.inr ⟨rfl, s, p, hquiet, hp, Or.inl hb, rfl, fun b _ => hleft b⟩
    · exact Or.inr ⟨rfl, s, p, hquiet, hp, Or.inr ⟨errno, he, ha⟩, rfl, fun b _ => hleft b⟩

/-- Quiet turns, then one that fails. -/
theorem serveAll_of_turns (ht : ReflTransGen (QuietTurn E rounds deadline wake) s₀ s)
    (h : serveAllOnce E rounds deadline wake s = (.err e, s')) :
    (serveAll E rounds deadline wake s₀).1 = .pending ∨
      serveAll E rounds deadline wake s₀ = (.err e, s') :=
  Program.loop_of_turns rounds (ReflTransGen.mono (fun _ _ => turn_iff.mpr) _ _ ht) h

theorem serveAll_of_failedAt {i : Nat} {source : IoError}
    (h : FailedAt E rounds deadline wake s₀ s' i source) :
    (serveAll E rounds deadline wake s₀).1 = .pending ∨
      serveAll E rounds deadline wake s₀ = (.err ⟨some i, source⟩, s') := by
  obtain ⟨last, w₁, before, before', x, x', after, w₂, hpassed, hlast, hs', rfl, hok, hx, -⟩ := h
  have hall : serviceAll E rounds (last.1, w₁) = (.err ⟨some before.length, source⟩, s') := by
    have hfailed := Program.tryForEach_of_failed (g := fun index source =>
      (⟨some index, source⟩ : ServeError)) (i := 0) after hok hx
    rw [Nat.zero_add] at hfailed
    rw [serviceAll, hlast]
    exact hfailed.trans (by rw [← hs'])
  cases hpassed with
  | start => exact serveAll_of_turns .refl (serveOnce_of_failed hall)
  | again ht hp hc hxp =>
    exact serveAll_of_turns (ht.tail ⟨last, hp, hc, hxp, rfl⟩) (serveOnce_of_failed hall)
  | ended ht hp he =>
    refine serveAll_of_turns ht ?_
    rw [serveOnce_of_ends hp he]
    exact Program.bind_err hall

theorem serveAll_of_waitFailed (h : WaitFailed E rounds deadline wake s₀ s') :
    (serveAll E rounds deadline wake s₀).1 = .pending ∨
      ∃ source, serveAll E rounds deadline wake s₀ = (.err ⟨none, source⟩, s') := by
  obtain ⟨s, p, ht, hp, hwait, rfl, -⟩ := h
  rcases hwait with hb | ⟨errno, he, ha⟩
  · exact (serveAll_of_turns ht (serveOnce_of_broken hp hb)).imp_right fun h => ⟨_, h⟩
  · exact (serveAll_of_turns ht (serveOnce_of_refused hp he ha)).imp_right fun h => ⟨_, h⟩

theorem failedAt_iff (hown : (s₀.1.map fun b => b.handle.fd).Nodup)
    (h : serveAll E rounds deadline wake s₀ = (.err e, s')) (i : Nat) (source : IoError) :
    e = ⟨some i, source⟩ ↔ FailedAt E rounds deadline wake s₀ s' i source := by
  constructor
  · rintro rfl
    rcases serveAll_err_cases hown h with ⟨j, hj, hf⟩ | ⟨hnone, -⟩
    · cases hj
      exact hf
    · cases hnone
  · intro hf
    rcases serveAll_of_failedAt hf with hp | hs
    · rw [h] at hp
      cases hp
    · rw [h] at hs
      exact Outcome.err.inj (Prod.mk.inj hs).1

theorem waitFailed_iff (hown : (s₀.1.map fun b => b.handle.fd).Nodup)
    (h : serveAll E rounds deadline wake s₀ = (.err e, s')) :
    e.index = none ↔ WaitFailed E rounds deadline wake s₀ s' := by
  constructor
  · intro hnone
    rcases serveAll_err_cases hown h with ⟨j, hj, -⟩ | ⟨-, hw⟩
    · rw [hnone] at hj
      cases hj
    · exact hw
  · intro hw
    rcases serveAll_of_waitFailed hw with hp | ⟨source, hs⟩
    · rw [h] at hp
      cases hp
    · rw [h] at hs
      rw [Outcome.err.inj (Prod.mk.inj hs).1]

end Failure

/-- **A failing battery never harms the others.**  The index of an error names
the battery whose service failed; without one, the wait failed.  A broken wake
descriptor ends the call on the spot. -/
theorem serveAll_err (E : Env) (rounds : Nat) (deadline : Option Instant) (wake : Option Fd)
    (bs : List Battery) (w : World) (hown : (bs.map fun b => b.handle.fd).Nodup) :
    (∀ e s', serveAll E rounds deadline wake (bs, w) = (.err e, s') →
      (∀ i source, e = ⟨some i, source⟩ ↔
        FailedAt E rounds deadline wake (bs, w) s' i source) ∧
      (e.index = none ↔ WaitFailed E rounds deadline wake (bs, w) s')) ∧
    ∀ s p, ReflTransGen (QuietTurn E rounds deadline wake) (bs, w) s → Pass E rounds s p →
      WakeBroken wake p.1.length (pollAnswer E deadline wake p) →
      ∀ o s', serveAll E rounds deadline wake (bs, w) = (o, s') → o ≠ .pending →
        o = .err ⟨none, wakeError⟩ ∧ s' = (p.1, polled E deadline wake p) := by
  constructor
  · intro e s' h
    exact ⟨failedAt_iff hown h, waitFailed_iff hown h⟩
  · intro s p ht hp hb o s' h ho
    rcases serveAll_of_turns ht (serveOnce_of_broken hp hb) with hpending | hs
    · rw [h] at hpending
      exact absurd hpending ho
    · rw [h] at hs
      exact Prod.mk.inj hs

/-- A system at rest whose reads of descriptor 4 fail once a wait is over, when a
`GET_REPORT` has arrived on both others. -/
def Env.unplugging : Env where
  __ := Env.calm .little 0
  arrivals history fd :=
    if history.length = 4 ∧ fd ≠ 4 then [Fake.built (Fake.getReport .little 7 2 rtypeInput)] else []
  read history fd := if 4 < history.length ∧ fd = 4 then .fails (.other 5) else .serve

/-- Three mice, of which the second fails after a complete pass. -/
theorem serveAll_err_mice : ∃ s',
    serveAll .unplugging 3 none none ([mouse 3, mouse 4, mouse 5], .started) =
      (.err ⟨some 1, .os (.other 5)⟩, s') ∧
    FailedAt .unplugging 3 none none ([mouse 3, mouse 4, mouse 5], .started) s' 1
      (.os (.other 5)) ∧
    (reads 3 s'.2.history).length = 3 ∧
    sent .little 3 s'.2.history = [.getReportReply 7 0 (mouse 3).report] ∧
    reads 4 s'.2.history = [.failed .again, .failed (.other 5)] ∧
    reads 5 s'.2.history = [.failed .again] ∧ writes 5 s'.2.history = [] ∧
    (s'.2.queue 5).length = 1 := by
  have herr : (serveAll .unplugging 3 none none ([mouse 3, mouse 4, mouse 5], .started)).1 =
      .err ⟨some 1, .os (.other 5)⟩ := by decide +kernel
  have hfailed := (serveAll_err .unplugging 3 none none [mouse 3, mouse 4, mouse 5] .started
    (by decide)).1 _ _ (Prod.ext herr rfl)
  exact ⟨_, Prod.ext herr rfl, (hfailed.1 1 _).mp rfl, by decide +kernel⟩

end UhidBattery
