import UhidBattery.Level

/-!
# The reading last published

`update` stores its reading before it pushes it.  When the push fails, `reading`
tells the owner what the kernel was never given.

* `reading_published_iff`: `reading` is the reading last published in every state
  of a run, exactly when no update that fails asks for another one.
* `failed_update_hides`: a run where it is not.
-/

namespace UhidBattery

open Record (ByteOrder)
open Program (Outcome)
open Runs (Along)

/-! ## The last report the kernel took -/

/-- The report of the last `INPUT2` that was taken. -/
def lastInput2 (order : ByteOrder) (fd : Fd) (calls : List Entry) : Option (List UInt8) :=
  ((sent order fd calls).filterMap Fake.Sent.input2?).getLast?

theorem lastInput2_append (order : ByteOrder) (fd : Fd) (s t : List Entry) :
    lastInput2 order fd (s ++ t) = (lastInput2 order fd t).or (lastInput2 order fd s) := by
  rw [lastInput2, sent_append, List.filterMap_append, List.getLast?_append]
  rfl

theorem lastInput2_of_sent {order : ByteOrder} {fd : Fd} {calls : List Entry}
    {data : List UInt8} (h : sent order fd calls = [.input2 data]) :
    lastInput2 order fd calls = some data := by
  rw [lastInput2, h]
  rfl

theorem lastInput2_of_silence {order : ByteOrder} {fd : Fd} {calls : List Entry}
    (h : sent order fd calls = []) : lastInput2 order fd calls = none := by
  rw [lastInput2, h]
  rfl

theorem mem_sent {order : ByteOrder} {fd : Fd} {calls : List Entry} {m : Fake.Sent}
    (h : m ∈ sent order fd calls) : ∃ x ∈ writes fd calls, sentOf order x.2.1 = m := by
  obtain ⟨y, hy, rfl⟩ := List.mem_map.mp h
  obtain ⟨x, hx, rfl⟩ := List.mem_map.mp hy
  exact ⟨x, (List.mem_filter.mp hx).1, rfl⟩

/-- A battery that only says what it may say publishes its own report, if any. -/
theorem Battery.OnlySays.lastInput2 {order : ByteOrder} {b : Battery} {calls : List Entry}
    (h : b.OnlySays order calls) :
    lastInput2 order b.handle.fd calls = none ∨
      lastInput2 order b.handle.fd calls = some b.report := by
  cases hl : UhidBattery.lastInput2 order b.handle.fd calls with
  | none => exact Or.inl rfl
  | some data =>
    obtain ⟨m, hm, hdata⟩ := List.mem_filterMap.mp (List.mem_of_getLast? hl)
    obtain ⟨x, hx, rfl⟩ := mem_sent hm
    have hlevel : (sentOf order x.2.1).level? = some data := by
      cases hs : sentOf order x.2.1 with
      | input2 report =>
        rw [hs] at hdata
        exact hdata
      | _ =>
        rw [hs] at hdata
        cases hdata
    exact Or.inr (by rw [(h x hx).level hlevel])

/-- Two readings with the same report are the same. -/
theorem reportOf_injective (kind : Kind) : Function.Injective (reportOf kind) := by
  rintro ⟨p, c⟩ ⟨p', c'⟩ h
  simp only [reportOf, List.cons.injEq, true_and, and_true] at h
  obtain ⟨rfl, h⟩ := h
  cases c <;> cases c' <;> simp at h ⊢

/-! ## Steps -/

/-- `reading` is the reading the kernel was given last. -/
def ReadingPublished (E : Env) (s : InUse) : Prop :=
  s.returned → lastInput2 E.order s.battery.handle.fd s.world.history =
    some (reportOf s.battery.kind s.battery.reading)

/-- An update that comes back although its `INPUT2` was not taken had asked for
the reading the battery has. -/
def Harmless (E : Env) (s : InUse) : Op → InUse → Prop
  | .update reading, s' => s'.returned →
      sent E.order s.battery.handle.fd (s.world.since s'.world) = [] →
        reading.clamped = s.battery.reading
  | _, _ => True

/-- A message is taken whole when its write succeeds, and not at all when it fails. -/
theorem Written.message_cases {order : ByteOrder} {fd : Fd} {buf : Buffer} {m : Fake.Sent}
    {o : Outcome IoError Unit} {calls : List Entry} (h : Written fd buf o calls)
    (hb : sentOf order buf = m) :
    (o = .ok () ∧ sent order fd calls = [m]) ∨ (o ≠ .ok () ∧ sent order fd calls = []) := by
  rw [← hb]
  exact h.sent_cases order

/-- An update's `INPUT2` is taken when it succeeds, and not when it fails. -/
theorem Updated.sent_cases {order : ByteOrder} {b b' : Battery} {reading : Reading}
    {o : Outcome IoError Unit} {calls : List Entry} (h : Updated order b reading o calls b') :
    (o = .ok () ∧ sent order b.handle.fd calls = [.input2 (reportOf b.kind reading.clamped)]) ∨
      (o ≠ .ok () ∧ sent order b.handle.fd calls = []) := by
  cases h with
  | plain hf hb hw => exact hw.message_cases hb
  | flipped hf hx hb hw =>
    rw [← List.singleton_append, sent_append, sent_of_now hx, List.nil_append]
    exact hw.message_cases hb
  | overflow hf hx => exact Or.inr ⟨by simp, sent_of_now hx _ _⟩

section Step

variable {E : Env} {s s' : InUse} {op : Op}

theorem Updated.readingPublished_iff {b b' : Battery} {reading : Reading}
    {o : Outcome IoError Unit} {calls : List Entry} {w w' : World}
    (h : Updated E.order b reading o calls b') (hran : Ran E w calls w') (ho : o.Returned)
    (hp : lastInput2 E.order b.handle.fd w.history = some (reportOf b.kind b.reading)) :
    lastInput2 E.order b'.handle.fd w'.history = some (reportOf b'.kind b'.reading) ↔
      (sent E.order b.handle.fd calls = [] → reading.clamped = b.reading) := by
  obtain ⟨hh, hk⟩ := h.same
  rw [hh, hk, h.stored ho, hran.history, lastInput2_append]
  rcases h.sent_cases with ⟨-, hs⟩ | ⟨-, hs⟩
  · rw [lastInput2_of_sent hs, hs]
    simp
  · rw [lastInput2_of_silence hs, hs, Option.none_or, hp, Option.some.injEq,
      (reportOf_injective b.kind).eq_iff]
    exact ⟨fun h _ => h.symm, fun h => (h rfl).symm⟩

theorem Faithful.readingPublished {b b' : Battery} {w w' : World}
    (h : Faithful E (b, w) (b', w'))
    (hp : lastInput2 E.order b.handle.fd w.history = some (reportOf b.kind b.reading)) :
    lastInput2 E.order b'.handle.fd w'.history = some (reportOf b'.kind b'.reading) := by
  obtain ⟨⟨slot, hb⟩, calls, hran, hsaid⟩ := h
  have hb' : b' = b.withRepush slot := hb
  rw [hb', hran.history, lastInput2_append]
  rcases hsaid.lastInput2 with hl | hl
  · have hnone : lastInput2 E.order b.handle.fd calls = none := hl
    rw [withRepush_handle, hnone, Option.none_or]
    exact hp
  · have hsome : lastInput2 E.order b.handle.fd calls = some b.report := hl
    rw [withRepush_handle, hsome, Option.some_or]
    rfl

/-- **One step** leaves the reading published exactly when it is harmless. -/
theorem Step.readingPublished_iff (h : Step E s op s') (hp : ReadingPublished E s) :
    ReadingPublished E s' ↔ Harmless E s op s' := by
  have hbefore := hp h.returned
  rcases h.cases with ⟨reading, o, b, w, calls, rfl, hran, hu, rfl⟩ | ⟨hne, -, hf⟩
  · rw [ReadingPublished, Harmless, hran.since]
    exact forall_congr' fun ho => hu.readingPublished_iff hran ho hbefore
  · have hharmless : Harmless E s op s' := by
      cases op with
      | update reading => exact absurd rfl (hne reading)
      | _ => trivial
    exact iff_of_true (fun _ => hf.readingPublished hbefore) hharmless

end Step

/-! ## Whole runs -/

theorem Created.readingPublished {E : Env} {handle : Handle} {identity : Identity} {kind : Kind}
    {reading : Reading} {b : Battery} {w w' : World} {calls : List Entry}
    (h : Created E.order handle identity kind reading (.ok b) calls) (hran : Ran E w calls w') :
    ReadingPublished E ⟨reading, b, w', True⟩ := by
  obtain ⟨rfl, -, buf, calls₁, calls₂, rfl, -, -, hb, hw⟩ := h.new
  intro _
  have hsent : sent E.order handle.fd calls₂ = [.input2 (reportOf kind reading.clamped)] := by
    rcases hw.sent_cases E.order with ⟨-, hs⟩ | ⟨hno, -⟩
    · rw [hs, hb]
      rfl
    · exact absurd rfl hno
  have hhandle : (Battery.new handle kind identity.uniq reading).handle.fd = handle.fd := rfl
  rw [hran.history, hhandle, lastInput2_append, lastInput2_append, lastInput2_of_sent hsent]
  rfl

/-- **`reading` is the reading last published** as long as every update that fails
asks for the reading the battery has. -/
theorem reading_published_iff (E : Env) (rounds : Nat) (handle : Handle) (identity : Identity)
    (kind : Kind) (reading : Reading) (w w' : World) (b : Battery) (run : List (Op × InUse))
    (h : Battery.create E rounds handle identity kind reading w = (.ok b, w'))
    (hrun : Along (Step E) ⟨reading, b, w', True⟩ run) :
    (∀ x ∈ run, ReadingPublished E x.2) ↔ Along (Harmless E) ⟨reading, b, w', True⟩ run := by
  obtain ⟨hran, hc⟩ := create_since h
  have hfirst : ReadingPublished E ⟨reading, b, w', True⟩ := hc.readingPublished hran
  exact hrun.forall_iff trivial hfirst (fun _ _ _ _ _ => trivial)
    fun s op s' hstep _ hp => hstep.readingPublished_iff hp

/-! ## A failed update -/

/-- A system that takes the first two writes and fails all others. -/
def Env.failing : Env where
  __ := Env.calm .little 0
  write history _ _ := if history.length < 2 then .took eventSize else .fails (.other 5)

theorem failing_run :
    ∃ w s, Battery.create .failing 1 ⟨3⟩ (.new "Mouse" "mouse-1") .mouse ⟨50, false⟩ .started =
        (.ok (mouse 3), w) ∧
      Along (Step .failing) ⟨⟨50, false⟩, mouse 3, w, True⟩ [(.update ⟨60, false⟩, s)] ∧
      s.returned ∧ s.battery = (mouse 3).withReading ⟨60, false⟩ ∧
      lastInput2 .little 3 s.world.history = some (reportOf .mouse ⟨50, false⟩) := by
  obtain ⟨w, hcreate, hlen⟩ := create_of_took Env.failing 0 ⟨3⟩ (.new "Mouse" "mouse-1") .mouse
    ⟨50, false⟩ .started (by decide) fun history event h => if_pos (Nat.lt_succ_of_le h)
  have hlong : ¬ w.history.length < 2 := by
    rw [hlen]
    decide
  obtain ⟨w', hupdate⟩ := update_of_fails Env.failing 0 ⟨60, false⟩ (mouse 3) w (by decide)
    (by simp) fun event => if_neg hlong
  obtain ⟨hran, hc⟩ := create_since hcreate
  have hbefore : lastInput2 .little 3 w.history = some (reportOf .mouse ⟨50, false⟩) :=
    hc.readingPublished hran trivial
  obtain ⟨hran', hu⟩ := update_since hupdate
  have hsilent : sent .little 3 (w.since w') = [] := by
    rcases hu.sent_cases with ⟨ho, -⟩ | ⟨-, hs⟩
    · cases ho
    · exact hs
  refine ⟨w, _, hcreate, ⟨.update trivial hupdate, trivial⟩, trivial, rfl, ?_⟩
  rw [hran'.history, lastInput2_append, lastInput2_of_silence hsilent, hbefore]
  rfl

/-- An update that fails: `reading` is the one it asked for, and the kernel was
never given it. -/
theorem failed_update_hides :
    ∃ w s, Battery.create .failing 1 ⟨3⟩ (.new "Mouse" "mouse-1") .mouse ⟨50, false⟩ .started =
        (.ok (mouse 3), w) ∧
      Along (Step .failing) ⟨⟨50, false⟩, mouse 3, w, True⟩ [(.update ⟨60, false⟩, s)] ∧
      s.battery.reading = ⟨60, false⟩ ∧
      lastInput2 .little 3 s.world.history = some (reportOf .mouse ⟨50, false⟩) ∧
      ¬ ReadingPublished .failing s := by
  obtain ⟨w, s, hcreate, hrun, hret, hbattery, hlast⟩ := failing_run
  refine ⟨w, s, hcreate, hrun, by rw [hbattery]; rfl, hlast, ?_⟩
  intro hp
  have hpub := hp hret
  rw [hbattery] at hpub
  have heq : reportOf .mouse ⟨50, false⟩ = reportOf .mouse ⟨60, false⟩ :=
    Option.some.inj (hlast.symm.trans hpub)
  exact absurd heq (by decide)

/-- The run with the failed update. -/
theorem reading_published_iff_failing :
    ∃ w s, Along (Step .failing) ⟨⟨50, false⟩, mouse 3, w, True⟩ [(.update ⟨60, false⟩, s)] ∧
      ((∀ x ∈ [(Op.update ⟨60, false⟩, s)], ReadingPublished .failing x.2) ↔
        Along (Harmless .failing) ⟨⟨50, false⟩, mouse 3, w, True⟩ [(.update ⟨60, false⟩, s)]) := by
  obtain ⟨w, s, hcreate, hrun, -⟩ := failing_run
  exact ⟨w, s, hrun, reading_published_iff .failing 1 ⟨3⟩ (.new "Mouse" "mouse-1") .mouse
    ⟨50, false⟩ .started w (mouse 3) _ hcreate hrun⟩

end UhidBattery
