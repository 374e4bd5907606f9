import UhidBattery.Stale
import UhidBattery.Due

/-!
# What the kernel announces

Older kernels announce a report when its level is new or the last announcement
is more than 30 s old, and otherwise only store it.  The battery's one slot for a
push is to make up for a charging flip that was only stored.

* `Watches.heard`: what one call comes to for the kernel.
* `announced_while_timely`: a quiet battery's reading is announced, as long as no
  push of an unannounced reading comes due inside the window.
* `flip_unannounced`: a flip whose push a `START` brings forward.
-/

namespace UhidBattery

open Record (ByteOrder)
open Program (Outcome loop)
open Runs (Along)

/-! ## The kernel's side -/

def announceWindow : Duration := fromSecs 30

/-- What the kernel keeps of a battery: the reading last stored, the reading last
announced, and when that was. -/
structure Supply where
  stored : Reading
  announced : Reading
  last : Instant

/-- A reading arrives. -/
def Supply.input (self : Supply) (t : Instant) (reading : Reading) : Supply :=
  if reading.percent ≠ self.stored.percent ∨ self.last + announceWindow < t then
    ⟨reading, reading, t⟩
  else { self with stored := reading }

/-- The reading in a report. -/
def carried : List UInt8 → Option Reading
  | [_, level, charging] => some ⟨level, charging &&& 1 ≠ 0⟩
  | _ => none

/-- A message arrives. -/
def Supply.hears (order : ByteOrder) (self : Supply) (x : Instant × Buffer) : Supply :=
  match (sentOf order x.2).input2?.bind carried with
  | some reading => self.input x.1 reading
  | none => self

def Supply.after (order : ByteOrder) (self : Supply) (messages : List (Instant × Buffer)) :
    Supply :=
  messages.foldl (Supply.hears order) self

section Supply

variable {order : ByteOrder}

theorem carried_reportOf (kind : Kind) (reading : Reading) :
    carried (reportOf kind reading) = some reading := by
  obtain ⟨percent, charging⟩ := reading
  cases charging <;> simp [carried, reportOf]

/-- Only the `INPUT2`s that were taken count. -/
theorem after_accepted (self : Supply) {fd : Fd} {calls : List Entry} :
    self.after order (accepted fd calls) = (inputs order fd calls).foldl
      (fun supply x => (carried x.2).elim supply (supply.input x.1)) self := by
  rw [inputs, List.foldl_filterMap, Supply.after]
  congr 1
  funext supply x
  rw [Supply.hears]
  cases (sentOf order x.2).input2? with
  | none => rfl
  | some report =>
    rw [Option.bind_some, Option.map_some]
    change _ = (carried report).elim supply (supply.input x.1)
    cases carried report <;> rfl

theorem after_of_silence (self : Supply) {fd : Fd} {calls : List Entry}
    (h : inputs order fd calls = []) : self.after order (accepted fd calls) = self := by
  rw [after_accepted, h]
  rfl

theorem after_of_report (self : Supply) {fd : Fd} {calls : List Entry} {time : Instant}
    {kind : Kind} {reading : Reading}
    (h : inputs order fd calls = [(time, reportOf kind reading)]) :
    self.after order (accepted fd calls) = self.input time reading := by
  rw [after_accepted, h, List.foldl_cons, List.foldl_nil, carried_reportOf, Option.elim_some]

@[simp] theorem input_stored (self : Supply) (time : Instant) (reading : Reading) :
    (self.input time reading).stored = reading := by
  rw [Supply.input]
  split <;> rfl

/-- A new level is announced. -/
theorem input_of_percent (self : Supply) (time : Instant) {reading : Reading}
    (h : reading.percent ≠ self.stored.percent) :
    (self.input time reading).announced = reading := by
  rw [Supply.input, if_pos (Or.inl h)]

/-- At an old level, inside the window, a reading is only stored. -/
theorem input_of_recent (self : Supply) {time : Instant} {reading : Reading}
    (h : reading.percent = self.stored.percent) (ht : ¬ self.last + announceWindow < time) :
    self.input time reading = ⟨reading, self.announced, self.last⟩ := by
  rw [Supply.input, if_neg (by simp [h, ht])]

/-- At an old level, what is announced afterwards. -/
theorem input_announced_iff (self : Supply) (time : Instant) {reading : Reading}
    (h : reading.percent = self.stored.percent) :
    (self.input time reading).announced = reading ↔
      self.announced = reading ∨ self.last + announceWindow < time := by
  by_cases ht : self.last + announceWindow < time
  · rw [Supply.input, if_pos (Or.inr ht)]
    exact iff_of_true rfl (Or.inr ht)
  · rw [input_of_recent self h ht]
    exact (or_iff_left ht).symm

end Supply

/-! ## Steps -/

/-- A battery and what the kernel keeps of it. -/
structure Watched where
  battery : Battery
  world : World
  supply : Supply

/-- The battery after a call, with the kernel having heard what was written. -/
def Watched.on (self : Watched) (order : ByteOrder) (b : Battery) (w : World) : Watched :=
  ⟨b, w, self.supply.after order (accepted self.battery.handle.fd (self.world.since w))⟩

/-- A call that comes back, with every write taken. -/
inductive Watches (E : Env) (s : Watched) : Op → Watched → Prop where
  | update {rounds : Nat} {reading : Reading} {o : Outcome IoError Unit} {b : Battery} {w : World}
      (h : Battery.update E rounds reading (s.battery, s.world) = (o, (b, w))) (ho : o.Returned)
      (ht : AllTaken s.battery.handle.fd (s.world.since w)) :
      Watches E s (.update reading) (s.on E.order b w)
  | service {rounds : Nat} {o : Outcome IoError Unit} {b : Battery} {w : World}
      (h : Battery.service E rounds (s.battery, s.world) = (o, (b, w))) (ho : o.Returned)
      (ht : AllTaken s.battery.handle.fd (s.world.since w)) :
      Watches E s .service (s.on E.order b w)

/-- The kernel has the battery's reading. -/
def Stored (s : Watched) : Prop := s.supply.stored = s.battery.reading

/-- A battery with nothing due was announced as it is. -/
def Announced (s : Watched) : Prop :=
  s.battery.nextDeadline = none → s.supply.announced = s.battery.reading

/-- A push that `service` finds due is of a reading that is announced, or the window
has closed. -/
def Timely (E : Env) (s : Watched) : Op → Watched → Prop
  | .service, s' => ∀ t, FindsDue E.order s.battery (s.world.since s'.world) t →
      s.supply.announced = s.battery.reading ∨ s.supply.last + announceWindow < t
  | _, _ => True

section Step

variable {E : Env} {s s' : Watched} {op : Op}

/-- How an update that was taken went. -/
theorem Updated.published {order : ByteOrder} {b b' : Battery} {reading : Reading}
    {o : Outcome IoError Unit} {calls : List Entry} (h : Updated order b reading o calls b')
    (ho : o.Returned) (ht : AllTaken b.handle.fd calls) :
    (∃ time, inputs order b.handle.fd calls = [(time, reportOf b.kind reading.clamped)]) ∧
    b'.reading = reading.clamped ∧
      (b'.repushAt = none → ¬ b.flips reading ∧ b.repushAt = none) := by
  have one {buf : Buffer} {o : Outcome IoError Unit} {calls : List Entry}
      (hb : sentOf order buf = .input2 (b.withReading reading).report)
      (hw : Written b.handle.fd buf o calls) (ho : o.Returned)
      (ht : AllTaken b.handle.fd calls) :
      ∃ time, inputs order b.handle.fd calls = [(time, reportOf b.kind reading.clamped)] := by
    obtain rfl := hw.ok_of_taken ho ht
    obtain ⟨retries, x, rfl, hretries, hx⟩ := hw.pushes hb
    refine ⟨x.time, ?_⟩
    rw [inputs_append, hretries, hx]
    rfl
  cases h with
  | plain hf hb hw => exact ⟨one hb hw ho ht, rfl, fun hnone => ⟨hf, hnone⟩⟩
  | @flipped x buf o calls hf hx hb hw =>
    obtain ⟨time, hi⟩ := one hb hw ho ((allTaken_append (s := [x])).mp ht).2
    refine ⟨⟨time, ?_⟩, rfl, fun hnone => (by cases hnone)⟩
    rw [← List.singleton_append, inputs_append, inputs_of_writes (writes_of_now hx _), hi]
    rfl
  | overflow hf hx => exact ho.elim

theorem clamped_of_not_flips {b : Battery} {reading : Reading} (hf : ¬ b.flips reading)
    (hp : reading.clamped.percent = b.reading.percent) : reading.clamped = b.reading := by
  have hc : reading.clamped.charging = b.reading.charging := by
    by_contra hne
    exact hf ⟨hne, hp⟩
  change (⟨reading.clamped.percent, reading.clamped.charging⟩ : Reading) = ⟨_, _⟩
  rw [hp, hc]

/-- What a call comes to for the kernel: it hears the reading of an update,
nothing from a service, or the battery's reading once more, when a push is due. -/
inductive Heard (E : Env) (s : Watched) : Op → Watched → Prop where
  | updated {reading : Reading} {time : Instant} {s' : Watched}
      (hsupply : s'.supply = s.supply.input time reading.clamped)
      (hreading : s'.battery.reading = reading.clamped)
      (hslot : s'.battery.repushAt = none → ¬ s.battery.flips reading ∧ s.battery.repushAt = none) :
      Heard E s (.update reading) s'
  | silent {s' : Watched} (hsupply : s'.supply = s.supply)
      (hreading : s'.battery.reading = s.battery.reading)
      (hslot : s'.battery.repushAt = none → s.battery.repushAt = none) : Heard E s .service s'
  | pushed {look time : Instant} {s' : Watched}
      (hlook : FindsDue E.order s.battery (s.world.since s'.world) look) (hle : look ≤ time)
      (hsupply : s'.supply = s.supply.input time s.battery.reading)
      (hbattery : s'.battery = s.battery.withRepush none) : Heard E s .service s'

/-- **What one call comes to.** -/
theorem Watches.heard (h : Watches E s op s') (hclock : Chronological (s.world.since s'.world)) :
    Heard E s op s' := by
  cases h with
  | @update rounds reading o b w h ho ht =>
    obtain ⟨-, hu⟩ := update_since h
    obtain ⟨⟨time, hi⟩, hreading, hslot⟩ := hu.published ho ht
    exact .updated (after_of_report _ hi) hreading hslot
  | @service rounds o b w h ho ht =>
    obtain ⟨-, hserved⟩ := service_since h
    rcases hserved.published (Or.inr ⟨ho, ht⟩) hclock with
      ⟨hi, rfl⟩ | ⟨look, time, hlook, hle, hi, rfl⟩
    · exact .silent (after_of_silence _ hi) rfl fun hnone => (settled_eq_none_iff.mp hnone).1
    · exact .pushed hlook hle (after_of_report _ hi) rfl

theorem Heard.stored (h : Heard E s op s') (hs : Stored s) : Stored s' := by
  cases h with
  | updated hsupply hreading hslot => rw [Stored, hsupply, input_stored, hreading]
  | silent hsupply hreading hslot => rw [Stored, hsupply, hreading, hs]
  | pushed hlook hle hsupply hbattery =>
    rw [Stored, hsupply, hbattery, input_stored, withRepush_reading]

/-- **One step** that is timely leaves a quiet battery announced. -/
theorem Heard.announced (h : Heard E s op s') (hs : Stored s) (ha : Announced s)
    (ht : Timely E s op s') : Announced s' := by
  intro hnone
  cases h with
  | @updated reading time s' hsupply hreading hslot =>
    obtain ⟨hf, hquiet⟩ := hslot hnone
    rw [hsupply, hreading]
    by_cases hp : reading.clamped.percent = s.battery.reading.percent
    · -- an old level and no flip: the reading is the one that was announced
      have hsame := clamped_of_not_flips hf hp
      have hlevel : reading.clamped.percent = s.supply.stored.percent := by rw [hs, hp]
      rw [input_announced_iff _ _ hlevel, hsame]
      exact Or.inl (ha hquiet)
    · apply input_of_percent
      rw [hs]
      exact hp
  | silent hsupply hreading hslot =>
    rw [hsupply, hreading]
    exact ha (hslot hnone)
  | @pushed look time s' hlook hle hsupply hbattery =>
    have hlevel : s.battery.reading.percent = s.supply.stored.percent := by rw [hs]
    rw [hsupply, hbattery, withRepush_reading, input_announced_iff _ _ hlevel]
    exact (ht look hlook).imp_right fun hlate => Nat.lt_of_lt_of_le hlate hle

/-- **A quiet battery is announced as it is**, in every run in which each push that
`service` finds due, at its look at the clock, is of a reading that is announced,
or comes due once the window has closed. -/
theorem announced_while_timely (E : Env) (s : Watched) (run : List (Op × Watched))
    (hstored : s.supply.stored = s.battery.reading)
    (hannounced : s.supply.announced = s.battery.reading) (hrun : Along (Watches E) s run)
    (hclock : ∀ x ∈ run, Chronological x.2.world.history) (htimely : Along (Timely E) s run) :
    ∀ x ∈ run, Announced x.2 := by
  have hclocks := Runs.along_of_forall (s := s) (P := fun s => Chronological s.world.history) hclock
  have hsteps := (hrun.and hclocks).and htimely
  have hall := hsteps.invariant (P := fun s => Stored s ∧ Announced s)
    ⟨hstored, fun _ => hannounced⟩ fun _ _ _ ⟨⟨h, hc⟩, ht⟩ ⟨hs, ha⟩ =>
      have hheard := h.heard hc.since
      ⟨hheard.stored hs, hheard.announced hs ha ht⟩
  exact fun x hx => (hall x hx).2

end Step

/-! ## On a system at rest -/

/-- Nothing arrives, reads serve the queue, writes are taken whole. -/
structure AtRest (E : Env) : Prop where
  order : E.order = .little
  quiet : ∀ history fd, E.arrivals history fd = []
  serves : ∀ history fd, E.read history fd = .serve
  takes : ∀ history fd event, E.write history fd event = .took eventSize

section AtRest

variable {E : Env} {b : Battery} {w : World} (supply : Supply)

/-- A call that made `calls`, as the kernel hears it. -/
theorem Watches.of_update {rounds : Nat} {reading : Reading} {b' : Battery} {w' : World}
    {time : Instant} {calls : List Entry} (hrest : AtRest E)
    (h : Battery.update E rounds reading (b, w) = (.ok (), (b', w'))) (hran : Ran E w calls w')
    (hi : inputs E.order b.handle.fd calls = [(time, reportOf b.kind reading.clamped)]) :
    Watches E ⟨b, w, supply⟩ (.update reading)
      ⟨b', w', supply.input time reading.clamped⟩ := by
  have hstep := Watches.update (s := ⟨b, w, supply⟩) h trivial
    ((update_since h).1.allTaken fun history event => hrest.takes history _ event)
  rw [Watched.on, hran.since, after_of_report supply hi] at hstep
  exact hstep

theorem Watches.of_service {rounds : Nat} {b' : Battery} {w' : World} {calls : List Entry}
    (hrest : AtRest E) (h : Battery.service E rounds (b, w) = (.ok (), (b', w')))
    (hran : Ran E w calls w') :
    Watches E ⟨b, w, supply⟩ .service
      ⟨b', w', supply.after E.order (accepted b.handle.fd calls)⟩ := by
  have hstep := Watches.service (s := ⟨b, w, supply⟩) h trivial
    ((service_since h).1.allTaken fun history event => hrest.takes history _ event)
  rw [Watched.on, hran.since] at hstep
  exact hstep

/-- The `INPUT2` of a write that was taken. -/
theorem inputs_of_took {order : ByteOrder} {fd : Fd} {x : Entry} {buf : Buffer}
    {report : List UInt8} (hx : x.call = .write fd buf (.took eventSize))
    (hb : sentOf order buf = .input2 report) : inputs order fd [x] = [(x.time, report)] := by
  rw [inputs, accepted_of_took hx, List.filterMap_cons, hb]
  rfl

/-- A flip. -/
theorem AtRest.flips (hrest : AtRest E) (reading : Reading) (hf : b.flips reading)
    (hlt : E.time w.history + chargeFlipRepushDelay < instantEnd) :
    ∃ buf, sentOf E.order buf = .input2 (b.withReading reading).report ∧
      Watches E ⟨b, w, supply⟩ (.update reading) ⟨(b.withRepush (earliest b.repushAt
          (E.time w.history + chargeFlipRepushDelay))).withReading reading,
        (w.next E .now).next E (.write b.handle.fd buf (.took eventSize)),
        supply.input (E.time (w.next E .now).history) reading.clamped⟩ := by
  obtain ⟨buf, hb, hupdate⟩ := update_of_flips E 0 reading b w hf hlt
    fun event => hrest.takes _ _ event
  have hlook : Ran E w [w.entry E .now] (w.next E .now) := .single trivial
  have hwrite : Ran E (w.next E .now)
      [(w.next E .now).entry E (.write b.handle.fd buf (.took eventSize))]
      ((w.next E .now).next E (.write b.handle.fd buf (.took eventSize))) :=
    .single (hrest.takes _ _ _).symm
  refine ⟨buf, hb, Watches.of_update supply hrest hupdate (hlook.append hwrite) ?_⟩
  rw [inputs_append, inputs_of_writes (writes_of_now rfl _), inputs_of_took rfl hb]
  rfl

/-- A `START` that brings the slot to `due`. -/
theorem AtRest.starts (hrest : AtRest E) (event : Buffer) (due : Instant)
    (he : eventOf E.order event = .start) (hq : w.queue b.handle.fd = [event])
    (hlt : E.time (w.next E (.read b.handle.fd (.delivered event))).history +
      startSettleDelay < instantEnd)
    (hslot : earliest b.repushAt (E.time (w.next E
      (.read b.handle.fd (.delivered event))).history + startSettleDelay) = some due)
    (hearly : ¬ due ≤ E.time (((w.next E (.read b.handle.fd (.delivered event))).next E .now).next E
      (.read b.handle.fd (.failed .again))).history) :
    Watches E ⟨b, w, supply⟩ .service ⟨b.withRepush (some due),
      (((w.next E (.read b.handle.fd (.delivered event))).next E .now).next E
        (.read b.handle.fd (.failed .again))).next E .now, supply⟩ := by
  have hread := readResult_of_cons E (hrest.serves _ _) hq
  have hempty : ((w.next E (.read b.handle.fd (.delivered event))).next E .now).queue
      b.handle.fd = [] := by
    rw [World.queue_next (hrest.quiet _ _), World.queue_next (hrest.quiet _ _), hq,
      delivered_entry_read (World.entry_call E w _), if_pos rfl]
    rfl
  have hnone := readResult_of_nil E (hrest.serves _ _) hempty (hrest.quiet _ _)
  have hloop := serviceLoop_of_start E 2 b w 0 he hq (fun history => hrest.quiet history _)
    (fun history _ => hrest.serves history _) hlt
  rw [hslot] at hloop
  generalize hw₁ : ((w.next E (.read b.handle.fd (.delivered event))).next E .now).next E
    (.read b.handle.fd (.failed .again)) = w₁ at hloop hearly
  have hservice : Battery.service E 2 (b, w) =
      (.ok (), (b.withRepush (some due), w₁.next E .now)) := by
    rw [service_def, Program.bind_ok hloop]
    exact pushIfDue_of_early E 2 (b.withRepush (some due)) w₁ rfl hearly
  have hlook : Ran E w₁ [w₁.entry E .now] (w₁.next E .now) := .single trivial
  have hnow : Genuine E (w.next E (.read b.handle.fd (.delivered event))) .now := trivial
  have hqueue : Ran E w [w.entry E (.read b.handle.fd (.delivered event)),
      (w.next E (.read b.handle.fd (.delivered event))).entry E .now,
      ((w.next E (.read b.handle.fd (.delivered event))).next E .now).entry E
        (.read b.handle.fd (.failed .again))] w₁ := by
    rw [← hw₁]
    exact .cons hread.symm (.cons hnow (.single hnone.symm))
  have hstep := Watches.of_service supply hrest hservice (hqueue.append hlook)
  rw [after_of_silence supply (inputs_of_writes rfl)] at hstep
  exact hstep

/-- A push that is due. -/
theorem AtRest.pushes (hrest : AtRest E) (due : Instant) (hslot : b.repushAt = some due)
    (hq : w.queue b.handle.fd = []) {w₁ : World}
    (h₁ : w.next E (.read b.handle.fd (.failed .again)) = w₁) (hdue : due ≤ E.time w₁.history) :
    ∃ buf, sentOf E.order buf = .input2 b.report ∧ Watches E ⟨b, w, supply⟩ .service
      ⟨b.withRepush none, (w₁.next E .now).next E (.write b.handle.fd buf (.took eventSize)),
        supply.input (E.time (w₁.next E .now).history) b.reading⟩ := by
  have hnone := readResult_of_nil E (hrest.serves _ _) hq (hrest.quiet _ _)
  have hloop := serviceLoop_of_empty E 1 b w 0 hnone
  rw [h₁] at hloop
  obtain ⟨buf, hb, hpush⟩ := pushIfDue_of_due E b w₁ hslot hdue
  have hservice : Battery.service E 1 (b, w) = (.ok (), (b.withRepush none,
      (w₁.next E .now).next E (.write b.handle.fd buf (.took eventSize)))) := by
    rw [service_def, Program.bind_ok hloop, hpush,
      write_of_took E b.handle buf 0 (hrest.takes _ _ _)]
  have hread : Ran E w [w.entry E (.read b.handle.fd (.failed .again))] w₁ := by
    rw [← h₁]
    exact .single hnone.symm
  have hlook : Ran E w₁ [w₁.entry E .now] (w₁.next E .now) := .single trivial
  have hwrite : Ran E (w₁.next E .now)
      [(w₁.next E .now).entry E (.write b.handle.fd buf (.took eventSize))]
      ((w₁.next E .now).next E (.write b.handle.fd buf (.took eventSize))) :=
    .single (hrest.takes _ _ _).symm
  have hstep := Watches.of_service supply hrest hservice ((hread.append hlook).append hwrite)
  have hi : inputs E.order b.handle.fd ([w.entry E (.read b.handle.fd (.failed .again))] ++
      [w₁.entry E .now] ++ [(w₁.next E .now).entry E (.write b.handle.fd buf (.took eventSize))]) =
      [(E.time (w₁.next E .now).history, b.report)] := by
    rw [inputs_append, inputs_of_writes rfl, inputs_of_took rfl hb]
    rfl
  rw [after_of_report supply hi] at hstep
  exact ⟨buf, hb, hstep⟩

end AtRest

/-! ## A flip and a START -/

/-- A system at rest where a call is made every 100 ms. -/
def Env.ticking : Env where
  __ := Env.calm .little 0
  time history := fromMillis (100 * history.length)

/-- A mouse that was just announced at 50 %, not charging. -/
def Watched.discharging (world : World) : Watched :=
  ⟨mouse 3, world, ⟨⟨50, false⟩, ⟨50, false⟩, 0⟩⟩

/-- The mouse once it charges, with a push due in 31 s. -/
def chargingMouse : Battery :=
  ((mouse 3).withRepush (some chargeFlipRepushDelay)).withReading ⟨50, true⟩

/-- The calls of an update that flips the charging bit. -/
def tickingFlip (flip : Buffer) : List Entry :=
  [⟨fromMillis (100 * 0), fun _ => [], .now⟩,
    ⟨fromMillis (100 * 1), fun _ => [], .write 3 flip (.took eventSize)⟩]

/-- The calls of a service that reads a `START`. -/
def tickingStart (start : Buffer) : List Entry :=
  [⟨fromMillis (100 * 2), fun _ => [], .read 3 (.delivered start)⟩,
    ⟨fromMillis (100 * 3), fun _ => [], .now⟩,
    ⟨fromMillis (100 * 4), fun _ => [], .read 3 (.failed .again)⟩,
    ⟨fromMillis (100 * 5), fun _ => [], .now⟩]

/-- The calls of a service that finds a push due. -/
def tickingPush (push : Buffer) : List Entry :=
  [⟨fromMillis (100 * 6), fun _ => [], .read 3 (.failed .again)⟩,
    ⟨fromMillis (100 * 7), fun _ => [], .now⟩,
    ⟨fromMillis (100 * 8), fun _ => [], .write 3 push (.took eventSize)⟩]

theorem ticking_time {w : World} {n : Nat} (h : w.history.length = n) :
    Env.ticking.time w.history = fromMillis (100 * n) := by
  rw [← h]
  rfl

theorem ticking_next {w : World} {n : Nat} (h : w.history.length = n) (call : Call) :
    (w.next .ticking call).history =
      w.history ++ [⟨fromMillis (100 * n), fun _ => [], call⟩] := by
  rw [World.next, World.entry, ticking_time h]
  rfl

theorem atRest_ticking : AtRest .ticking := ⟨rfl, fun _ _ => rfl, fun _ _ => rfl, fun _ _ _ => rfl⟩

/-- The flip is only stored. -/
theorem ticking_flips (start : Buffer) : ∃ flip w,
    sentOf .little flip = .input2 chargingMouse.report ∧
    Watches .ticking (.discharging (.holding start)) (.update ⟨50, true⟩)
      ⟨chargingMouse, w, ⟨⟨50, true⟩, ⟨50, false⟩, 0⟩⟩ ∧
    w.history = tickingFlip flip ∧ w.queue 3 = [start] := by
  have hslot : earliest (mouse 3).repushAt (fromMillis (100 * 0) + chargeFlipRepushDelay) =
      some chargeFlipRepushDelay := by decide
  have hearly : ¬ 0 + announceWindow < fromMillis (100 * 1) := by decide
  have hstored : (Supply.mk ⟨50, false⟩ ⟨50, false⟩ 0).input (fromMillis (100 * 1))
      (Reading.mk 50 true).clamped = ⟨⟨50, true⟩, ⟨50, false⟩, 0⟩ := input_of_recent _ rfl hearly
  obtain ⟨flip, hsent, hflip⟩ := atRest_ticking.flips (b := mouse 3) (w := .holding start)
    ⟨⟨50, false⟩, ⟨50, false⟩, 0⟩ ⟨50, true⟩ (by decide)
    (by rw [ticking_time (n := 0) rfl]; decide)
  rw [ticking_time (n := 0) rfl, hslot, ticking_time (n := 1) rfl, hstored] at hflip
  refine ⟨flip, _, hsent, hflip, ?_, rfl⟩
  rw [ticking_next (n := 1) rfl, ticking_next (n := 0) rfl]
  rfl

/-- The `START` brings the push of the flip forward. -/
theorem ticking_starts {start flip : Buffer} {w : World} (he : eventOf .little start = .start)
    (hw : w.history = tickingFlip flip) (hq : w.queue 3 = [start]) :
    ∃ w', Watches .ticking ⟨chargingMouse, w, ⟨⟨50, true⟩, ⟨50, false⟩, 0⟩⟩ .service
        ⟨chargingMouse.withRepush (some (fromMillis 550)), w',
          ⟨⟨50, true⟩, ⟨50, false⟩, 0⟩⟩ ∧
      w'.history = tickingFlip flip ++ tickingStart start ∧ w'.queue 3 = [] := by
  have hlen : w.history.length = 2 := by rw [hw]; rfl
  have hslot : earliest chargingMouse.repushAt (fromMillis (100 * 3) + startSettleDelay) =
      some (fromMillis 550) := by decide
  refine ⟨_, atRest_ticking.starts (b := chargingMouse) _ start (fromMillis 550) he hq
    (by rw [ticking_time (n := 3) (by simp [hlen])]; decide)
    (by rw [ticking_time (n := 3) (by simp [hlen])]; exact hslot)
    (by rw [ticking_time (n := 5) (by simp [hlen])]; decide), ?_, ?_⟩
  · rw [ticking_next (n := 5) (by simp [hlen]), ticking_next (n := 4) (by simp [hlen]),
      ticking_next (n := 3) (by simp [hlen]), ticking_next hlen, hw]
    simp only [List.append_assoc, List.singleton_append]
    rfl
  · have hquiet (w : World) (call : Call) : (w.next .ticking call).queue 3 =
        (w.queue 3).drop (delivered 3 [w.entry .ticking call]).length := World.queue_next rfl call
    rw [hquiet, hquiet, hquiet, hquiet, hq]
    rfl

/-- The push is only stored as well. -/
theorem ticking_pushes {start flip : Buffer} {w : World}
    (hw : w.history = tickingFlip flip ++ tickingStart start) (hq : w.queue 3 = []) :
    ∃ push w', sentOf .little push = .input2 chargingMouse.report ∧
      Watches .ticking ⟨chargingMouse.withRepush (some (fromMillis 550)), w,
          ⟨⟨50, true⟩, ⟨50, false⟩, 0⟩⟩ .service
        ⟨chargingMouse.withRepush none, w', ⟨⟨50, true⟩, ⟨50, false⟩, 0⟩⟩ ∧
      w'.history = tickingFlip flip ++ tickingStart start ++ tickingPush push := by
  have hlen : w.history.length = 6 := by rw [hw]; rfl
  have hearly : ¬ 0 + announceWindow < fromMillis (100 * 8) := by decide
  have hstored : (Supply.mk ⟨50, true⟩ ⟨50, false⟩ 0).input (fromMillis (100 * 8))
      (chargingMouse.withRepush (some (fromMillis 550))).reading =
      ⟨⟨50, true⟩, ⟨50, false⟩, 0⟩ := input_of_recent _ rfl hearly
  obtain ⟨push, hsent, hpush⟩ := atRest_ticking.pushes
    (b := chargingMouse.withRepush (some (fromMillis 550))) (w := w)
    ⟨⟨50, true⟩, ⟨50, false⟩, 0⟩ (fromMillis 550) rfl hq rfl
    (by rw [ticking_time (n := 7) (by simp [hlen])]; decide)
  rw [ticking_time (n := 8) (by simp [hlen]), hstored] at hpush
  refine ⟨push, _, hsent, hpush, ?_⟩
  rw [ticking_next (n := 8) (by simp [hlen]), ticking_next (n := 7) (by simp [hlen]),
    ticking_next hlen, hw]
  simp only [List.append_assoc, List.singleton_append]
  rfl

/-- The flip is only stored, the `START` brings its push forward, and the push is only
stored as well. -/
theorem ticking_run : ∃ start flip push s₁ s₂ s₃, eventOf .little start = .start ∧
    sentOf .little flip = .input2 chargingMouse.report ∧
    sentOf .little push = .input2 chargingMouse.report ∧
    Along (Watches .ticking) (.discharging (.holding start))
      [(.update ⟨50, true⟩, s₁), (.service, s₂), (.service, s₃)] ∧
    s₁.world.history = tickingFlip flip ∧
    s₂.world.history = tickingFlip flip ++ tickingStart start ∧
    s₃.world.history = tickingFlip flip ++ tickingStart start ++ tickingPush push ∧
    s₁.battery = chargingMouse ∧
    s₂.battery = chargingMouse.withRepush (some (fromMillis 550)) ∧
    s₃.battery = chargingMouse.withRepush none ∧ s₃.supply.announced = ⟨50, false⟩ := by
  obtain ⟨start, -, he⟩ := start_decodes .little
  rw [decode_eq, Outcome.ok.injEq] at he
  obtain ⟨flip, w₁, hsent, hflip, hcalls₁, hq₁⟩ := ticking_flips start
  obtain ⟨w₂, hstart, hcalls₂, hq₂⟩ := ticking_starts he hcalls₁ hq₁
  obtain ⟨push, w₃, hsent', hpush, hcalls₃⟩ := ticking_pushes hcalls₂ hq₂
  exact ⟨start, flip, push, _, _, _, he, hsent, hsent', ⟨hflip, hstart, hpush, trivial⟩, hcalls₁,
    hcalls₂, hcalls₃, rfl, rfl, rfl, rfl⟩

/-- A flip whose push a `START` brings forward: it arrives inside the window, the
slot is empty, and the flip was never announced. -/
theorem flip_unannounced :
    ∃ start s₁ s₂ s₃, eventOf .little start = .start ∧
      Along (Watches .ticking) (.discharging (.holding start))
        [(.update ⟨50, true⟩, s₁), (.service, s₂), (.service, s₃)] ∧
      Chronological s₃.world.history ∧ s₃.battery.nextDeadline = none ∧
      s₃.battery.reading = ⟨50, true⟩ ∧ s₃.supply.announced = ⟨50, false⟩ ∧ ¬ Announced s₃ := by
  obtain ⟨start, flip, push, s₁, s₂, s₃, he, -, -, hrun, -, -, hcalls, -, -, hbattery,
    hannounced⟩ := ticking_run
  have hclock : Chronological s₃.world.history := by
    rw [hcalls]
    simp [Chronological, tickingFlip, tickingStart, tickingPush, fromMillis]
  have hslot : s₃.battery.nextDeadline = none := by rw [hbattery]; rfl
  have hreading : s₃.battery.reading = ⟨50, true⟩ := by rw [hbattery]; rfl
  refine ⟨start, s₁, s₂, s₃, he, hrun, hclock, hslot, hreading, hannounced, ?_⟩
  intro h
  have hsame := h hslot
  rw [hannounced, hreading] at hsame
  cases hsame

/-- A system at rest where a call is made every 20 s. -/
def Env.pacing : Env where
  __ := Env.calm .little 0
  time history := fromSecs (20 * history.length)

/-- The calls of an update that flips the charging bit and of a service that finds the
push due. -/
def pacingCalls (flip push : Buffer) : List Entry :=
  [⟨fromSecs 0, fun _ => [], .now⟩, ⟨fromSecs 20, fun _ => [], .write 3 flip (.took eventSize)⟩,
    ⟨fromSecs 40, fun _ => [], .read 3 (.failed .again)⟩, ⟨fromSecs 60, fun _ => [], .now⟩,
    ⟨fromSecs 80, fun _ => [], .write 3 push (.took eventSize)⟩]

theorem pacing_time {w : World} {n : Nat} (h : w.history.length = n) :
    Env.pacing.time w.history = fromSecs (20 * n) := by
  rw [← h]
  rfl

/-- The flip is only stored, and pushed once the window has closed. -/
theorem pacing_run : ∃ flip push s₁ s₂,
    Along (Watches .pacing) (.discharging .started) [(.update ⟨50, true⟩, s₁), (.service, s₂)] ∧
    s₁.world.history = (pacingCalls flip push).take 2 ∧
    s₂.world.history = pacingCalls flip push ∧ s₁.battery = chargingMouse ∧
    s₁.supply = ⟨⟨50, true⟩, ⟨50, false⟩, 0⟩ ∧ s₂.battery = chargingMouse.withRepush none := by
  have hrest : AtRest .pacing := ⟨rfl, fun _ _ => rfl, fun _ _ => rfl, fun _ _ _ => rfl⟩
  obtain ⟨flip, -, hflip⟩ := hrest.flips (b := mouse 3) (w := .started)
    ⟨⟨50, false⟩, ⟨50, false⟩, 0⟩ ⟨50, true⟩ (by decide)
    (by rw [pacing_time (n := 0) rfl]; decide)
  have hslot : earliest (mouse 3).repushAt (fromSecs (20 * 0) + chargeFlipRepushDelay) =
      some chargeFlipRepushDelay := by decide
  have hearly : ¬ 0 + announceWindow < fromSecs (20 * 1) := by decide
  have hstored : (Supply.mk ⟨50, false⟩ ⟨50, false⟩ 0).input (fromSecs (20 * 1))
      (Reading.mk 50 true).clamped = ⟨⟨50, true⟩, ⟨50, false⟩, 0⟩ := input_of_recent _ rfl hearly
  rw [pacing_time (n := 0) rfl, hslot, pacing_time (n := 1) rfl, hstored] at hflip
  generalize hw₁ : (World.started.next .pacing .now).next .pacing
    (.write (mouse 3).handle.fd flip (.took eventSize)) = w₁ at hflip
  have hlen₁ : w₁.history.length = 2 := by rw [← hw₁]; rfl
  obtain ⟨push, -, hpush⟩ := hrest.pushes (b := chargingMouse) (w := w₁)
    ⟨⟨50, true⟩, ⟨50, false⟩, 0⟩ chargeFlipRepushDelay rfl (by rw [← hw₁]; rfl) rfl
    (by rw [pacing_time (n := 3) (by simp [hlen₁])]; decide)
  refine ⟨flip, push, _, _, ⟨hflip, hpush, trivial⟩, ?_, ?_, rfl, rfl, rfl⟩
  · rw [← hw₁]
    rfl
  · rw [← hw₁]
    rfl

/-- The run with the flip that is pushed once the window has closed. -/
theorem announced_while_timely_flip : ∃ s₁ s₂,
    Along (Watches .pacing) (.discharging .started) [(.update ⟨50, true⟩, s₁), (.service, s₂)] ∧
    s₁.battery.reading = ⟨50, true⟩ ∧ s₁.supply.announced = ⟨50, false⟩ ∧
    s₂.battery.nextDeadline = none ∧ s₂.supply.announced = ⟨50, true⟩ := by
  obtain ⟨flip, push, s₁, s₂, hrun, hcalls₁, hcalls₂, hbattery₁, hsupply, hbattery₂⟩ := pacing_run
  have hclock₂ : Chronological s₂.world.history := by
    rw [hcalls₂]
    simp [Chronological, pacingCalls, fromSecs]
  have hclock₁ : Chronological s₁.world.history := by
    rw [hcalls₁]
    simp [Chronological, pacingCalls, fromSecs]
  have htimely : Along (Timely .pacing) (.discharging .started)
      [(.update ⟨50, true⟩, s₁), (.service, s₂)] := by
    refine ⟨trivial, ?_, trivial⟩
    intro t hdue
    have hlook : t ∈ [fromSecs 60] := by
      have hmem := hdue.1
      rw [World.since, hcalls₁, hcalls₂, hbattery₁] at hmem
      exact hmem
    rw [hsupply, List.mem_singleton.mp hlook]
    exact Or.inr (by decide)
  have hall := announced_while_timely .pacing (.discharging .started) _ rfl rfl hrun
    (by simp [hclock₁, hclock₂]) htimely
  have hlast := hall (.service, s₂) (by simp) (by rw [hbattery₂]; rfl)
  refine ⟨s₁, s₂, hrun, by rw [hbattery₁]; rfl, by rw [hsupply], by rw [hbattery₂]; rfl, ?_⟩
  rw [hlast, hbattery₂]
  rfl

end UhidBattery
