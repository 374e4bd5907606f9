import UhidBattery.Owner

/-!
# What level the kernel is told

Three paths publish the level: an update, a push that was due, and the answer to
a request.

* `Created.publishes`, `Step.publishes`: each call publishes one reading only.
* `nothing_stale`: whatever is written publishes the reading asked for last.
-/

namespace UhidBattery

open Record (ByteOrder)
open Program (Outcome)
open Runs (Along)

/-! ## Messages that publish a level -/

def Fake.Sent.input2? : Fake.Sent → Option (List UInt8)
  | .input2 data => some data
  | _ => none

/-- The report of an `INPUT2`, or of an answer without an error. -/
def Fake.Sent.level? : Fake.Sent → Option (List UInt8)
  | .input2 data => some data
  | .getReportReply _ err data => if err = 0 then some data else none
  | _ => none

/-- The three bytes of a reading, and their ranges. -/
structure Carries (kind : Kind) (reading : Reading) (data : List UInt8) : Prop where
  bytes : data = [kind.reportId, min reading.percent 100, if reading.charging then 1 else 0]
  level_le : ∀ level ∈ data[1]?, level ≤ 100
  charging_le : ∀ charging ∈ data[2]?, charging ≤ 1

/-- Whatever is written that publishes a level, taken or not, publishes this reading. -/
def Publishes (order : ByteOrder) (fd : Fd) (kind : Kind) (reading : Reading)
    (calls : List Entry) : Prop :=
  ∀ x ∈ writes fd calls, ∀ data, (sentOf order x.2.1).level? = some data →
    Carries kind reading data

theorem reportOf_clamped_carries (kind : Kind) (reading : Reading) :
    Carries kind reading (reportOf kind reading.clamped) where
  bytes := rfl
  level_le level h := by
    rw [← Option.some.inj h]
    exact reading.clamped_percent_le
  charging_le charging h := by
    rw [← Option.some.inj h]
    change (if reading.charging then 1 else 0 : UInt8) ≤ 1
    split <;> decide

/-- What a battery may say publishes its own report. -/
theorem Battery.MaySay.level {b : Battery} {m : Fake.Sent} (h : b.MaySay m) {data : List UInt8}
    (hd : m.level? = some data) : data = b.report := by
  rcases h with rfl | ⟨event, h⟩
  · exact (Option.some.inj hd).symm
  · cases event with
    | start => cases h
    | ignored => cases h
    | setReport id =>
      rw [← Option.some.inj h] at hd
      cases hd
    | getReport id rnum rtype =>
      rw [← Option.some.inj h] at hd
      split at hd
      · exact (Option.some.inj hd).symm
      · cases hd

theorem Battery.OnlySays.publishes {order : ByteOrder} {b : Battery} {calls : List Entry}
    {reading : Reading} (h : b.OnlySays order calls) (hb : b.reading = reading.clamped) :
    Publishes order b.handle.fd b.kind reading calls := by
  intro x hx data hd
  rw [(h x hx).level hd, Battery.report, hb]
  exact reportOf_clamped_carries b.kind reading

theorem publishes_append {order : ByteOrder} {fd : Fd} {kind : Kind} {reading : Reading}
    {s t : List Entry} (hs : Publishes order fd kind reading s)
    (ht : Publishes order fd kind reading t) : Publishes order fd kind reading (s ++ t) := by
  intro x hx
  rw [writes_append] at hx
  rcases List.mem_append.mp hx with hx | hx
  · exact hs x hx
  · exact ht x hx

theorem publishes_of_writes {order : ByteOrder} {fd : Fd} {kind : Kind} {reading : Reading}
    {calls : List Entry} (h : writes fd calls = []) : Publishes order fd kind reading calls := by
  rw [Publishes, h]
  simp

theorem Written.publishes {order : ByteOrder} {fd : Fd} {event : Buffer}
    {o : Outcome IoError Unit} {calls : List Entry} (h : Written fd event o calls) {kind : Kind}
    {reading : Reading}
    (hm : ∀ data, (sentOf order event).level? = some data → Carries kind reading data) :
    Publishes order fd kind reading calls := by
  intro x hx
  rw [h.event_eq x hx]
  exact hm

/-- A message without a level publishes nothing. -/
theorem Written.publishes_silent {order : ByteOrder} {fd : Fd} {event : Buffer}
    {o : Outcome IoError Unit} {calls : List Entry} (h : Written fd event o calls)
    (hm : (sentOf order event).level? = none) (kind : Kind) (reading : Reading) :
    Publishes order fd kind reading calls := by
  apply h.publishes
  intro data hd
  rw [hm] at hd
  cases hd

/-- An `INPUT2` of a reading. -/
theorem Written.publishes_input2 {order : ByteOrder} {fd : Fd} {event : Buffer}
    {o : Outcome IoError Unit} {calls : List Entry} (h : Written fd event o calls) {kind : Kind}
    {reading : Reading} (hb : sentOf order event = .input2 (reportOf kind reading.clamped)) :
    Publishes order fd kind reading calls := by
  apply h.publishes
  intro data hd
  rw [hb] at hd
  rw [← Option.some.inj hd]
  exact reportOf_clamped_carries kind reading

theorem Destroyed.publishes {ε : Type} {order : ByteOrder} {handle : Handle}
    {o : Outcome ε Handle} {calls : List Entry} (h : Destroyed order handle o calls)
    (kind : Kind) (reading : Reading) : Publishes order handle.fd kind reading calls := by
  cases h with
  | writing hb hw => exact hw.publishes_silent (by rw [hb]; rfl) _ _
  | drained hb hw ho hd =>
    exact publishes_append (hw.publishes_silent (by rw [hb]; rfl) _ _)
      (publishes_of_writes (hd.writes_eq_nil _))

theorem FirstPush.publishes {order : ByteOrder} {b : Battery} {o : Outcome CreateError Battery}
    {calls : List Entry} {reading : Reading} (h : FirstPush order b o calls)
    (hr : b.reading = reading.clamped) :
    Publishes order b.handle.fd b.kind reading calls := by
  have hreport : b.report = reportOf b.kind reading.clamped := by rw [Battery.report, hr]
  cases h with
  | pushed hb hw => exact hw.publishes_input2 (by rw [hb, hreport])
  | pushing hb hw => exact hw.publishes_input2 (by rw [hb, hreport])
  | undone hb hw hd =>
    exact publishes_append (hw.publishes_input2 (by rw [hb, hreport])) (hd.publishes _ _)

/-- **What `create` publishes**, whatever becomes of it. -/
theorem Created.publishes {order : ByteOrder} {handle : Handle} {identity : Identity} {kind : Kind}
    {reading : Reading} {o : Outcome CreateError Battery} {calls : List Entry}
    (h : Created order handle identity kind reading o calls) :
    Publishes order handle.fd kind reading calls := by
  cases h with
  | invalid hv => exact publishes_of_writes rfl
  | refused hv hb hw => exact hw.publishes_silent (by rw [hb]; rfl) _ _
  | creating hv hb hw => exact hw.publishes_silent (by rw [hb]; rfl) _ _
  | created hv hb hw hp =>
    have hfirst : Publishes order handle.fd kind reading _ := hp.publishes rfl
    exact publishes_append (hw.publishes_silent (by rw [hb]; rfl) _ _) hfirst

/-! ## Steps -/

section Updated

variable {order : ByteOrder} {b b' : Battery} {reading : Reading} {o : Outcome IoError Unit}
  {calls : List Entry}

theorem Updated.publishes (h : Updated order b reading o calls b') :
    Publishes order b.handle.fd b.kind reading calls := by
  cases h with
  | plain hf hb hw => exact hw.publishes_input2 hb
  | flipped hf hx hb hw =>
    rw [← List.singleton_append]
    exact publishes_append (publishes_of_writes (writes_of_now hx _)) (hw.publishes_input2 hb)
  | overflow hf hx => exact publishes_of_writes (writes_of_now hx _)

theorem Updated.same (h : Updated order b reading o calls b') :
    b'.handle = b.handle ∧ b'.kind = b.kind := by
  cases h <;> exact ⟨rfl, rfl⟩

/-- An update that comes back has stored its reading, even when it failed. -/
theorem Updated.stored (h : Updated order b reading o calls b') (ho : o.Returned) :
    b'.reading = reading.clamped := by
  cases h with
  | plain hf hb hw => rfl
  | flipped hf hx hb hw => rfl
  | overflow hf hx => exact ho.elim

end Updated

/-- What holds of a battery between two calls. -/
structure Honest (handle : Handle) (kind : Kind) (s : InUse) : Prop where
  handle_eq : s.battery.handle = handle
  kind_eq : s.battery.kind = kind
  reading_eq : s.returned → s.battery.reading = s.asked.clamped

section Step

variable {E : Env} {handle : Handle} {kind : Kind} {s s' : InUse} {op : Op}

theorem Step.returned (h : Step E s op s') : s.returned := by
  cases h <;> assumption

theorem Step.honest (h : Step E s op s') (hs : Honest handle kind s) : Honest handle kind s' := by
  have hreading := hs.reading_eq h.returned
  rcases h.cases with ⟨reading, o, b, w, calls, -, -, hu, rfl⟩ | ⟨-, hasked, ⟨slot, hb⟩, -⟩
  · obtain ⟨hh, hk⟩ := hu.same
    exact ⟨hh.trans hs.handle_eq, hk.trans hs.kind_eq, hu.stored⟩
  · have hb' : s'.battery = s.battery.withRepush slot := hb
    refine ⟨?_, ?_, fun _ => ?_⟩
    · rw [hb']; exact hs.handle_eq
    · rw [hb']; exact hs.kind_eq
    · rw [hb', hasked]; exact hreading

/-- **One step** publishes nothing but the reading asked for last. -/
theorem Step.publishes (h : Step E s op s') (hs : Honest handle kind s) :
    Publishes E.order handle.fd kind s'.asked (s.world.since s'.world) := by
  have hreading := hs.reading_eq h.returned
  rw [← hs.handle_eq, ← hs.kind_eq]
  rcases h.cases with ⟨reading, o, b, w, calls, -, hran, hu, rfl⟩ | ⟨-, hasked, -, calls, hran, hsaid⟩
  · rw [hran.since]
    exact hu.publishes
  · rw [hran.since, hasked]
    exact hsaid.publishes hreading

end Step

/-! ## Nothing stale or out of range is ever sent -/

/-- Encoding the report of a battery never fails. -/
theorem Battery.report_encodes (order : ByteOrder) (b : Battery) :
    (∃ buf, input2 order b.report = .ok buf) ∧
      ∀ id, ∃ buf, getReportReply order id (some b.report) = .ok buf := by
  have hlen : b.report.length ≤ dataMax := by rw [length_report]; decide
  obtain ⟨buf, hb, -⟩ := input2_encodes order b.report hlen
  refine ⟨⟨buf, hb⟩, ?_⟩
  intro id
  obtain ⟨buf', hb', -⟩ := getReportReply_some_encodes order id b.report hlen
  exact ⟨buf', hb'⟩

/-- **Nothing stale or out of range is ever sent.** -/
theorem nothing_stale (E : Env) (rounds : Nat) (handle : Handle) (identity : Identity)
    (kind : Kind) (reading : Reading) (w : World) :
    Publishes E.order handle.fd kind reading
      (w.since (Battery.create E rounds handle identity kind reading w).2) ∧
    (∀ b w', Battery.create E rounds handle identity kind reading w = (.ok b, w') →
      ∀ run, Along (Step E) ⟨reading, b, w', True⟩ run →
        Along (fun s _ s' => Publishes E.order handle.fd kind s'.asked (s.world.since s'.world))
          ⟨reading, b, w', True⟩ run) ∧
    ∀ b : Battery, (∃ buf, input2 E.order b.report = .ok buf) ∧
      ∀ id, ∃ buf, getReportReply E.order id (some b.report) = .ok buf := by
  obtain ⟨calls, hran, hc⟩ := create_spec E rounds handle identity kind reading w
  refine ⟨?_, ?_, Battery.report_encodes E.order⟩
  · rw [hran.since]
    exact hc.publishes
  · intro b w' h run hrun
    rw [h] at hc
    have hfirst : Honest handle kind ⟨reading, b, w', True⟩ := by
      rw [hc.new.1]
      exact ⟨rfl, rfl, fun _ => rfl⟩
    have hall := hrun.with_invariant hfirst fun s op s' hstep hs => hstep.honest hs
    exact hall.imp fun s op s' hstep => hstep.2.publishes hstep.1

end UhidBattery
