import UhidBattery.Returns
import UhidBattery.Errors
import UhidBattery.Honoured
import UhidBattery.Attended

/-!
# What serving comes to on a system without faults

Where no call to the system fails for good, nothing is left to go wrong but the
end of time: a call that comes back has succeeded.

* `Faultless.ok`: the outcome of a call that stops at its first failure.
* `serving_delivers`: a slice served until a deadline has made every push due by
  then.
* `serving_completes`: and has read and answered all it was asked.
* `waiting_finds`: a wait without a deadline finds the power supply.
-/

namespace UhidBattery

open Program (Outcome Stops Reports loop borrow)

/-- No call fails for good. -/
def Faultless (E : Env) (withWake : Bool) : Prop :=
  ∀ w call, Genuine E w call → (w.entry E call).fatal? withWake = none

/-- A clock reading near the end of time. -/
abbrev Late (x : Entry) : Prop := x.call = .now ∧ instantEnd ≤ x.time + chargeFlipRepushDelay

section Faultless

variable {E : Env} {withWake : Bool} {ω ε α : Type} {source : ε → IoError}
  {m : Program (ω × World) ε α} {s : ω × World}

/-- **A call that comes back has succeeded**, unless it was stopped by the end of time. -/
theorem Faultless.outcome (h : Faultless E withWake)
    (hm : Stops (journal E).onSnd (failures withWake) source m s) (hback : (m s).1 ≠ .pending) :
    (∃ a, (m s).1 = .ok a) ∨ (m s).1 = .panic ∧ ∃ x ∈ s.2.since (m s).2.2, Late x := by
  obtain ⟨calls, hran, hr⟩ := hm
  have hran : Ran E s.2 calls (m s).2.2 := hran
  rw [hran.since]
  generalize (m s).1 = o at hr hback
  cases hr with
  | @ok a => exact Or.inl ⟨a, rfl⟩
  | pending => exact absurd rfl hback
  | panic _ hlate => exact Or.inr ⟨rfl, _, List.mem_append_right _ List.mem_cons_self, hlate⟩
  | err _ hfatal =>
    obtain ⟨w₀, call, hg, rfl⟩ := hran.mem (List.mem_append_right _ List.mem_cons_self)
    have hnone : (failures withWake).fatal? (w₀.entry E call) = none := h w₀ call hg
    rw [hnone] at hfatal
    cases hfatal

/-- The same where the clock stays far from the end of time. -/
theorem Faultless.ok (h : Faultless E withWake)
    (hclock : ∀ history, E.time history + chargeFlipRepushDelay < instantEnd)
    (hm : Stops (journal E).onSnd (failures withWake) source m s) (hback : (m s).1 ≠ .pending) :
    ∃ a s', m s = (.ok a, s') := by
  rcases h.outcome hm hback with ⟨a, ha⟩ | ⟨-, x, hx, hlate⟩
  · exact ⟨a, (m s).2, Prod.ext ha rfl⟩
  · obtain ⟨calls, hran, -⟩ := hm
    have hran : Ran E s.2 calls (m s).2.2 := hran
    rw [hran.since] at hx
    obtain ⟨w₀, call, -, rfl⟩ := hran.mem hx
    exact absurd hlate.2 (Nat.not_le_of_lt (hclock w₀.history))

end Faultless

/-! ## Serving -/

section Serving

variable {E : Env} {last : Instant} {bs : List Battery} {w : World}

/-- Without a wake descriptor and signals, only the deadline ends a call. -/
theorem deadline_of_ok {rounds : Nat} {result : Wakeup} {s s' : List Battery × World}
    (hsignal : ∀ history fds timeout, E.poll history fds timeout ≠ .fails .intr)
    (h : serveAll E rounds (some last) none s = (.ok result, s')) : result = .deadline := by
  obtain ⟨s₁, -, hlast⟩ := Program.loop_eq_ok h
  obtain ⟨p, w₁, -, he, -⟩ := serveOnce_eq_some hlast
  cases he with
  | wake hw =>
    obtain ⟨flags, hflags, -⟩ := hw
    obtain ⟨count, revents, hready⟩ := ready_of_wakeFlags hflags
    rw [hready] at hflags
    cases hflags
  | interrupted hi => exact absurd hi (hsignal _ _ _)
  | deadline hc hx => rfl

/-- Where nothing fails for good, only the deadline is left to come back for. -/
theorem returns_deadline (hfaultless : Faultless E false)
    (hclock : ∀ history, E.time history + chargeFlipRepushDelay < instantEnd)
    (hlively : ∀ b ∈ bs, Lively E b.handle.fd)
    (hpass : ∃ n, ∀ history, n ≤ history.length → last ≤ E.time history)
    (hsignal : ∀ history fds timeout, E.poll history fds timeout ≠ .fails .intr) (w : World) :
    ∃ rounds bs' w', serveAll E rounds (some last) none (bs, w) = (.ok .deadline, (bs', w')) := by
  obtain ⟨n, hn⟩ := hpass
  have hrecalled : Recalled E (some last) none := .deadline rfl hn
  obtain ⟨rounds, hback⟩ := (serveAll_halts hrecalled).ends (bs, w) hlively
  obtain ⟨result, ⟨bs', w'⟩, hok⟩ :=
    hfaultless.ok hclock (stops_serveAll (some last) none (bs, w)) hback
  obtain rfl := deadline_of_ok hsignal hok
  exact ⟨rounds, bs', w', hok⟩

/-- **Served until a deadline.**  Where nothing fails for good, the deadline comes to
pass, events stop arriving and no signal interferes, `serve_all` returns
`Deadline`, every push that was pending for by then has been made, and nothing is
left that is due. -/
theorem serving_delivers (hfaultless : Faultless E false) (hsteady : Steady E)
    (hclock : ∀ history, E.time history + chargeFlipRepushDelay < instantEnd)
    (hlively : ∀ b ∈ bs, Lively E b.handle.fd) (hown : (bs.map fun b => b.handle.fd).Nodup)
    (hpass : ∃ n, ∀ history, n ≤ history.length → last ≤ E.time history)
    (hsignal : ∀ history fds timeout, E.poll history fds timeout ≠ .fails .intr) :
    ∃ rounds bs' w', serveAll E rounds (some last) none (bs, w) = (.ok .deadline, (bs', w')) ∧
      (∀ b' ∈ bs', ∀ d, b'.nextDeadline = some d → last < d) ∧
      ∀ b ∈ bs, ∀ due ≤ last, b.nextDeadline = some due →
        ∃ t, (t, b.report) ∈ inputs E.order b.handle.fd (w.since w') := by
  obtain ⟨rounds, bs', w', hok⟩ := returns_deadline hfaultless hclock hlively hpass hsignal w
  have hnone := serveAll_notDue hsteady hok
  exact ⟨rounds, bs', w', hok, hnone, pushed_of_notDue (serveAll_noneLost hown hok) hnone⟩

/-- A system on which a slice is served until a deadline: nothing fails for good, no
read pretends that the queue is empty, events stop arriving, no signal interferes,
and the clock goes on to the deadline, far from the end of time. -/
structure Serviceable (E : Env) (bs : List Battery) (last : Instant) : Prop where
  faultless : Faultless E false
  honest : ∀ b ∈ bs, ∀ history, E.read history b.handle.fd = .serve
  lively : ∀ b ∈ bs, Lively E b.handle.fd
  unsignalled : ∀ history fds timeout, E.poll history fds timeout ≠ .fails .intr
  steady : Steady E
  early : ∀ history, E.time history + chargeFlipRepushDelay < instantEnd
  passes : ∃ n, ∀ history, n ≤ history.length → last ≤ E.time history

/-- A `START` that asked for a push by the deadline got it. -/
theorem start_pushed_of_notDue {b b' : Battery} {w' : World} {before after : List Entry} {x : Entry}
    (hc : Completes E b w b' w') (hsince : w.since w' = before ++ x :: after)
    (hnone : ∀ d, b'.nextDeadline = some d → last < d)
    (hstart : x.readsStart E.order b.handle.fd = true) :
    ∃ y rest, after = y :: rest ∧ y.call = .now ∧ (y.time + startSettleDelay ≤ last →
      ∃ t, (t, b.report) ∈ inputs E.order b.handle.fd rest) := by
  have hh := (hc.ensures (honours_kept E)).since
  rw [hsince] at hh
  obtain ⟨y, rest, hafter, hy, hpushed⟩ := hh.read_pushed hstart
  refine ⟨y, rest, hafter, hy, fun hle => hpushed.resolve_right ?_⟩
  rintro ⟨d, hd, hsome⟩
  exact absurd (Nat.le_trans hd hle) (Nat.not_le_of_lt (hnone d hsome))

/-- **The daemon's loop does its work.**  On such a system `serve_all` returns
`Deadline`; all that was queued by the end of its last wait has been read, every
request that was read has been replied to, in order, and every `START` that was read
got its look at the clock and, if it settles by the deadline, a push of the level. -/
theorem serving_completes (h : Serviceable E bs last)
    (hown : (bs.map fun b => b.handle.fd).Nodup) :
    ∃ rounds bs' w' waited later,
      serveAll E rounds (some last) none (bs, w) = (.ok .deadline, (bs', w')) ∧
      w.since w' = waited ++ later ∧ NoPolls later ∧
      ∀ b ∈ bs,
        w.queue b.handle.fd ++ arrived b.handle.fd waited <+:
          delivered b.handle.fd (w.since w') ∧
        Replied E.order b (w.since w') ∧
        ∀ before x after, w.since w' = before ++ x :: after →
          x.readsStart E.order b.handle.fd = true →
          ∃ y rest, after = y :: rest ∧ y.call = .now ∧ (y.time + startSettleDelay ≤ last →
            ∃ t, (t, b.report) ∈ inputs E.order b.handle.fd rest) := by
  obtain ⟨rounds, bs', w', hok⟩ :=
    returns_deadline h.faultless h.early h.lively h.passes h.unsignalled w
  obtain ⟨waited, later, hsince, hno, hread⟩ := serveAll_reads hown hok
  have hnone := serveAll_notDue h.steady hok
  refine ⟨rounds, bs', w', waited, later, hok, hsince, hno, fun b hb => ?_⟩
  obtain ⟨b', hb', hc⟩ := completes_of_serveAll hown hok hb
  refine ⟨hread b hb fun history => Or.inl (h.honest b hb history),
    (hc.ensures (attends_kept E)).since, fun before x after heq => ?_⟩
  exact start_pushed_of_notDue hc heq (hnone b' hb')

/-- A system at rest, but for its clock and what it lists. -/
theorem faultless_of_rest {E : Env} (hr : ∀ history fd, E.read history fd = .serve)
    (hw : ∀ history fd event, E.write history fd event = .took eventSize)
    (hp : ∀ history fds timeout, E.poll history fds timeout = .ready 0 fun _ => 0) :
    Faultless E false := by
  intro w call hg
  cases call with
  | read fd result =>
    have hresult : result = (E.read w.history fd).result (w.queue fd ++ E.arrivals w.history fd) :=
      hg
    rw [hresult, hr]
    cases w.queue fd ++ E.arrivals w.history fd <;> rfl
  | write fd event answer =>
    have hanswer : answer = E.write w.history fd event := hg
    rw [hanswer, hw]
    rfl
  | poll fds timeout answer =>
    have hanswer : answer = E.poll w.history fds timeout := hg
    rw [hanswer, hp]
    rfl
  | now => rfl
  | readDir listing => rfl

/-- A mouse with a push due at 4, served until 5 at clock reading 5. -/
theorem serving_delivers_mouse : ∃ rounds bs' w' t,
    serveAll (.calm .little 5) rounds (some 5) none ([(mouse 3).withRepush (some 4)], .started) =
      (.ok .deadline, (bs', w')) ∧
    (t, (mouse 3).report) ∈ inputs .little 3 (World.started.since w') := by
  have hlively : ∀ b ∈ [(mouse 3).withRepush (some 4)], Lively (.calm .little 5) b.handle.fd :=
    fun b _ => ⟨fun _ _ => ⟨0, nofun⟩, 0, fun _ _ => rfl⟩
  have hclock : 5 + chargeFlipRepushDelay < instantEnd := by decide
  obtain ⟨rounds, bs', w', h, -, hpushed⟩ := serving_delivers (w := .started)
    (faultless_of_rest (fun _ _ => rfl) (fun _ _ _ => rfl) fun _ _ _ => rfl)
    (fun _ _ => Nat.le_refl 5) (fun _ => hclock) hlively
    (List.nodup_singleton _) ⟨0, fun _ _ => Nat.le_refl 5⟩ nofun
  obtain ⟨t, ht⟩ := hpushed _ List.mem_cons_self 4 (by decide) rfl
  exact ⟨rounds, bs', w', t, h, ht⟩

/-- A system at rest where a call is made every 100 ms, until the clock stops at 10 s. -/
def Env.stopping : Env where
  __ := Env.calm .little 0
  time history := min (fromMillis (100 * history.length)) (fromSecs 10)

theorem stopping_passes {history : List Entry} (h : 10 ≤ history.length) :
    fromSecs 1 ≤ Env.stopping.time history := by
  refine Nat.le_min.mpr ⟨?_, by decide⟩
  unfold fromSecs fromMillis
  omega

theorem stopping_serviceable (fd : Fd) : Serviceable .stopping [mouse fd] (fromSecs 1) where
  faultless := faultless_of_rest (fun _ _ => rfl) (fun _ _ _ => rfl) fun _ _ _ => rfl
  honest _ _ _ := rfl
  lively _ _ := ⟨fun _ _ => ⟨0, nofun⟩, 0, fun _ _ => rfl⟩
  unsignalled := nofun
  steady history calls := by
    have hlen : history.length ≤ (history ++ calls).length := by simp
    have htime : fromMillis (100 * history.length) ≤ fromMillis (100 * (history ++ calls).length) :=
      Nat.mul_le_mul_right _ (Nat.mul_le_mul_left _ hlen)
    exact Nat.le_min.mpr ⟨Nat.le_trans (Nat.min_le_left _ _) htime, Nat.min_le_right _ _⟩
  early history := by
    have hcap : fromSecs 10 + chargeFlipRepushDelay < instantEnd := by decide
    exact Nat.lt_of_le_of_lt (Nat.add_le_add_right (Nat.min_le_right _ _) _) hcap
  passes := ⟨10, fun _ h => stopping_passes h⟩

/-- A system on which a `START` waits. -/
def World.starting : World := .queueing [Fake.built (Fake.start .little)]

theorem starting_served :
    (serveAll .stopping 3 (some (fromSecs 1)) none ([mouse 3], .starting)).1 = .ok .deadline ∧
    startsRead .little 3 (serveAll .stopping 3 (some (fromSecs 1)) none
      ([mouse 3], .starting)).2.2.history = [fromMillis 100] ∧
    (serveAll .stopping 3 (some (fromSecs 1)) none
      ([mouse 3], .starting)).2.2.history.head?.map (Entry.readsStart .little 3) = some true := by
  decide +kernel

/-- A mouse with a `START` in its queue, served until one second. -/
theorem serving_completes_mouse : ∃ rounds bs' w' t,
    serveAll .stopping rounds (some (fromSecs 1)) none ([mouse 3], .starting) =
      (.ok .deadline, (bs', w')) ∧
    startsRead .little 3 w'.history = [fromMillis 100] ∧
    (t, (mouse 3).report) ∈ inputs .little 3 w'.history := by
  obtain ⟨hok₃, hserved⟩ := starting_served
  obtain ⟨rounds, bs', w', waited, later, hok, -, -, hall⟩ := serving_completes
    (w := .starting) (stopping_serviceable 3) (List.nodup_singleton _)
  have hsame := (serveAll_halts (.deadline rfl fun _ h => stopping_passes h)).unique
    (s := ([mouse 3], .starting)) rounds 3 (by rw [hok]; exact nofun) (by rw [hok₃]; exact nofun)
  rw [← hsame, hok] at hserved
  obtain ⟨hstarts, hhead⟩ := hserved
  obtain ⟨-, -, hpushed⟩ := hall _ List.mem_cons_self
  cases hcalls : w'.history with
  | nil =>
    rw [hcalls] at hhead
    cases hhead
  | cons x calls =>
    rw [hcalls] at hhead hstarts
    have hstart : x.readsStart .little 3 = true := Option.some.inj hhead
    obtain ⟨y, rest, rfl, hy, hpush⟩ := hpushed [] x calls hcalls hstart
    have htime : y.time = fromMillis 100 := by
      rw [startsRead_of_start hstart hy] at hstarts
      exact (List.cons.inj hstarts).1
    obtain ⟨t, ht⟩ := hpush (by rw [htime]; decide)
    refine ⟨rounds, bs', w', t, hok, by rw [hcalls, hstarts], ?_⟩
    rw [hcalls]
    change _ ∈ inputs .little 3 ([x, y] ++ rest)
    rw [inputs_append]
    exact List.mem_append_right _ ht

end Serving

/-! ## Waiting for the power supply -/

section Waiting

variable {E : Env} {timeout : Duration} {s : Battery × World}

/-- The clock is read once, and then the loop begins. -/
theorem waitForPowerSupply_eq (E : Env) (rounds : Nat) (timeout : Duration)
    (s : Battery × World) :
    Battery.waitForPowerSupply E rounds timeout s =
      loop (Battery.lookOnce E rounds (checkedAdd (E.time s.2.history) timeout)) rounds
        (s.1, s.2.next E .now) := by
  have hnow : (borrow fun _ => sysNow E : Program (Battery × World) IoError Instant) s =
      (.ok (E.time s.2.history), (s.1, s.2.next E .now)) := rfl
  exact Program.bind_ok hnow

/-- **A wait without a deadline.**  Where nothing fails for good, time passes, events
stop arriving and the supply is registered for good at some point,
`wait_for_power_supply` returns a path that a look at sysfs found, unless the end
of time comes first. -/
theorem waiting_finds (hfaultless : Faultless E false) (hlively : Lively E s.1.handle.fd)
    (hpass : TimePasses E) (hnone : checkedAdd (E.time s.2.history) timeout = none)
    (hregistered : ∃ n, ∀ history, n ≤ history.length →
      findPowerSupplyIn powerSupplyClass (E.listing history) s.1.uniq ≠ none) :
    ∃ rounds o s', Battery.waitForPowerSupply E rounds timeout s = (o, s') ∧
      ((∃ path, o = .ok (some path) ∧ some path ∈ looks s.1.uniq (s.2.since s'.2)) ∨
        o = .panic ∧ ∃ x ∈ s.2.since s'.2, Late x) := by
  obtain ⟨n, hn⟩ := hregistered
  obtain ⟨rounds, hback⟩ :=
    (waitForPowerSupply_halts hpass timeout).ends s ⟨hlively, .registered hn⟩
  refine ⟨rounds, (Battery.waitForPowerSupply E rounds timeout s).1,
    (Battery.waitForPowerSupply E rounds timeout s).2, rfl, ?_⟩
  rcases hfaultless.outcome (stops_waitForPowerSupply timeout s) hback with ⟨result, hok⟩ | hlate
  · refine Or.inl ?_
    have hwaited := lookOnce_waited E rounds none rounds (s.1, s.2.next E .now)
    have hloop := waitForPowerSupply_eq E rounds timeout s
    rw [hnone] at hloop
    rw [← hloop, hok] at hwaited
    obtain ⟨calls, hran, hshows, -⟩ := hwaited.spec
    have hnow : Ran E s.2 [s.2.entry E .now] (s.2.next E .now) := .single trivial
    cases result with
    | none =>
      obtain ⟨-, -, -, d, -, -, -, hd, -⟩ := hshows.gaveUp rfl
      cases hd
    | some path =>
      refine ⟨path, hok, ?_⟩
      rw [hnow.since_append hran, looks_append]
      exact List.mem_append_right _ ((hshows.found path).mp rfl)
  · exact Or.inr hlate

/-- A mouse whose supply is registered after the first look. -/
theorem waiting_finds_mouse : ∃ rounds path s',
    Battery.waitForPowerSupply .plugged rounds instantEnd (mouse 3, .started) =
      (.ok (some path), s') ∧
    some path ∈ looks "mouse-1" (World.started.since s'.2) ∧
    path = join powerSupplyClass (supplyName (Utf8.utf8 "mouse-1")) := by
  have hlively : Lively .plugged 3 := ⟨fun _ _ => ⟨0, nofun⟩, 0, fun _ _ => rfl⟩
  have hfaultless : Faultless .plugged false :=
    faultless_of_rest (fun _ _ => rfl) (fun _ _ _ => rfl) fun _ _ _ => rfl
  obtain ⟨rounds, o, s', hwait, hends⟩ := waiting_finds (s := (mouse 3, .started)) hfaultless
    hlively ticking_passes (checkedAdd_eq_none_iff.mpr (Nat.le_add_left _ _))
    ⟨3, fun _ h => plugged_registered h⟩
  have hcomes : (Battery.waitForPowerSupply .plugged 3 instantEnd (mouse 3, .started)).1 =
      .ok (some (join powerSupplyClass (supplyName (Utf8.utf8 "mouse-1")))) := by decide +kernel
  generalize join powerSupplyClass (supplyName (Utf8.utf8 "mouse-1")) = found at hcomes ⊢
  have hback : (Battery.waitForPowerSupply .plugged rounds instantEnd (mouse 3, .started)).1 ≠
      .pending := by
    rw [hwait]
    rcases hends with ⟨path, rfl, -⟩ | ⟨rfl, -⟩ <;> exact nofun
  have hpasses : TimePasses .plugged := ticking_passes
  have hsame := (waitForPowerSupply_halts hpasses instantEnd).unique rounds 3 hback
    (by rw [hcomes]; exact nofun)
  have ho : o = .ok (some found) := by rw [← hcomes, ← hsame, hwait]
  rcases hends with ⟨path, hpath, hlook⟩ | ⟨hpanic, -⟩
  · rw [hpath] at hwait ho
    exact ⟨rounds, path, s', hwait, hlook, Option.some.inj (Outcome.ok.inj ho)⟩
  · rw [hpanic] at ho
    cases ho

end Waiting

end UhidBattery
