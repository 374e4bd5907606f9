import UhidBattery.Announce
import UhidBattery.Resumed

/-!
# What the slot promises

One slot stands for every push that is owed: the settle pushes of the `START`s
and the re-pushes of the charging flips.  A ledger keeps them apart.

* `never_postponed`: whatever is scheduled afterwards, the slot goes off in time
  for every push that is owed, and the push is made by the first `service` that
  finds its time reached.
* `settled_while_unhurried`: every `START` gets a push of its own, as long as no
  push comes due while a `START` is still settling.
* `hurried_start`: two `START`s and one push.
-/

namespace UhidBattery

open Record (ByteOrder)
open Program (Outcome)
open Deadlines (Covers)
open Runs (Along)

/-! ## Keeping the books -/

/-- A battery and the books kept on it: how its last call ended, the `START`s that
were read, the `INPUT2`s that were written, and the times of the pushes owed
since `service` last pushed on its own. -/
structure Ledger where
  battery : Battery
  world : World
  last : Outcome IoError Unit
  starts : List Instant
  inputs : List (Instant × List UInt8)
  owed : List Instant

def Ledger.opened (b : Battery) (w : World) : Ledger := ⟨b, w, .ok (), [], [], []⟩

/-- The time at which the re-push of an update is due, if it is called for. -/
def flipDues (E : Env) (b : Battery) (w : World) (reading : Reading) : List Instant :=
  if b.flips reading then [E.time w.history + chargeFlipRepushDelay] else []

def Ledger.updated (self : Ledger) (E : Env) (reading : Reading)
    (o : Outcome IoError Unit) (b : Battery) (w : World) : Ledger where
  battery := b
  world := w
  last := o
  starts := self.starts
  inputs := self.inputs ++ UhidBattery.inputs E.order self.battery.handle.fd (self.world.since w)
  owed := self.owed ++ flipDues E self.battery self.world reading

/-- A push of `service`'s own settles all that is owed. -/
def Ledger.serviced (self : Ledger) (order : ByteOrder) (o : Outcome IoError Unit) (b : Battery)
    (w : World) : Ledger where
  battery := b
  world := w
  last := o
  starts := self.starts ++ startsRead order self.battery.handle.fd (self.world.since w)
  inputs := self.inputs ++ UhidBattery.inputs order self.battery.handle.fd (self.world.since w)
  owed := if UhidBattery.inputs order self.battery.handle.fd (self.world.since w) = [] then
      self.owed ++ settleDues order self.battery.handle.fd (self.world.since w)
    else []

/-- A call that comes back, with every write taken. -/
inductive Booked (E : Env) (s : Ledger) : Op → Ledger → Prop where
  | update {rounds : Nat} {reading : Reading} {o : Outcome IoError Unit} {b : Battery} {w : World}
      (h : Battery.update E rounds reading (s.battery, s.world) = (o, (b, w))) (ho : o.Returned)
      (ht : AllTaken s.battery.handle.fd (s.world.since w)) :
      Booked E s (.update reading) (s.updated E reading o b w)
  | service {rounds : Nat} {o : Outcome IoError Unit} {b : Battery} {w : World}
      (h : Battery.service E rounds (s.battery, s.world) = (o, (b, w))) (ho : o.Returned)
      (ht : AllTaken s.battery.handle.fd (s.world.since w)) :
      Booked E s .service (s.serviced E.order o b w)

/-! ## What is owed -/

/-- The slot goes off in time for every push that is owed. -/
def Covered (s : Ledger) : Prop := ∀ d ∈ s.owed, Covers s.battery.nextDeadline d

/-- Every push that is owed is made by the first `service` that finds its time reached. -/
def Prompt (E : Env) (s : Ledger) : Op → Ledger → Prop
  | .service, s' =>
    ∀ d ∈ s.owed ++ settleDues E.order s.battery.handle.fd (s.world.since s'.world),
      PushesInTime E.order s.battery s'.last (s.world.since s'.world) d
  | _, _ => True

section Owed

variable {E : Env} {s s' : Ledger} {op : Op} {order : ByteOrder} {b b' : Battery} {w w' : World}
  {calls : List Entry} {owed : List Instant}

theorem inputs_ne_nil {fd : Fd} (queue : List Entry) {x : Entry} {report : List UInt8}
    (hi : inputs order fd [x] = [(x.time, report)]) : inputs order fd (queue ++ [x]) ≠ [] := by
  rw [inputs_append, hi]
  simp

/-- An update adds its own push to what is owed, and postpones none. -/
theorem Updated.covers {reading : Reading} {o : Outcome IoError Unit}
    (h : Updated order b reading o calls b') (hran : Ran E w calls w') (ho : o.Returned)
    (hs : ∀ d ∈ owed, Covers b.repushAt d) :
    ∀ d ∈ owed ++ flipDues E b w reading, Covers b'.repushAt d := by
  cases h with
  | plain hf hb hw =>
    rw [flipDues, if_neg hf, List.append_nil]
    exact hs
  | @flipped x buf o calls hf hx hb hw =>
    have htime : x.time = E.time w.history := by
      rw [(ran_cons_iff.mp hran).1]
      rfl
    intro d hd
    have hsoonest : Covers (Deadlines.soonest b.repushAt (x.time + chargeFlipRepushDelay)) d := by
      rw [Deadlines.covers_soonest_iff, htime]
      rw [flipDues, if_pos hf] at hd
      rcases List.mem_append.mp hd with hd | hd
      · exact Or.inl (hs d hd)
      · exact Or.inr (List.mem_singleton.mp hd).ge
    exact hsoonest
  | overflow hf hx => exact ho.elim

/-- A push that was owed, or whose `START` has been read, is in the slot. -/
theorem Served.covers_owed {o : Outcome IoError Unit} (h : Served order b o calls b')
    (hs : ∀ d ∈ owed, Covers b.repushAt d) :
    ∀ d ∈ owed ++ settleDues order b.handle.fd calls,
      Covers (settled b.repushAt (startTimes order b.handle.fd calls)) d := by
  rw [h.looked.settleDues]
  exact fun d hd => covers_of_pending ((List.mem_append.mp hd).imp_left (hs d))

/-- **One call** postpones no push. -/
theorem Booked.covered (h : Booked E s op s') (hs : Covered s) : Covered s' := by
  cases h with
  | @update rounds reading o b w h ho ht =>
    obtain ⟨hran, hu⟩ := update_since h
    exact hu.covers hran ho hs
  | @service rounds o b w h ho ht =>
    obtain ⟨-, hserved⟩ := service_since h
    rw [Covered, Ledger.serviced]
    cases hserved.compared (Or.inr ⟨ho, ht⟩) with
    | kept hi hkept =>
      rw [if_pos hi]
      exact hserved.covers_owed hs
    | @pushed queue x t hcov hcheck hcalls hq hi =>
      rw [if_neg (by rw [hcalls]; exact inputs_ne_nil queue hi)]
      simp

/-- **One call** makes every push whose time it finds reached. -/
theorem Booked.prompt (h : Booked E s op s') (hs : Covered s) : Prompt E s op s' := by
  cases h with
  | update h ho ht => trivial
  | @service rounds o b w h ho ht =>
    obtain ⟨-, hserved⟩ := service_since h
    exact fun d hd => hserved.pushesInTime (Or.inr ⟨ho, ht⟩) (hserved.covers_owed hs d hd)

end Owed

/-- **A push is never postponed**: until `service` pushes on its own, the slot goes
off no later than any push that is owed, for a `START` that was read or for a flip,
and the first `service` that finds such a time reached makes the push. -/
theorem never_postponed (E : Env) (b : Battery) (w : World) (run : List (Op × Ledger))
    (hrun : Along (Booked E) (.opened b w) run) :
    (∀ x ∈ run, ∀ d ∈ x.2.owed, ∃ e ≤ d, x.2.battery.nextDeadline = some e) ∧
      Along (Prompt E) (.opened b w) run := by
  have hfirst : Covered (.opened b w) := by simp [Covered, Ledger.opened]
  refine ⟨hrun.invariant hfirst fun _ _ _ h hs => h.covered hs, ?_⟩
  exact (hrun.with_invariant hfirst fun _ _ _ h hs => h.covered hs).imp
    fun _ _ _ h => h.2.prompt h.1

/-- The same call, entered in the books. -/
theorem Watches.booked_update {E : Env} {s s' : Watched} {reading : Reading}
    (h : Watches E s (.update reading) s') {l : Ledger} (hb : l.battery = s.battery)
    (hw : l.world = s.world) :
    ∃ o, Booked E l (.update reading) (l.updated E reading o s'.battery s'.world) := by
  cases h with
  | update h ho ht =>
    rw [← hb, ← hw] at h ht
    exact ⟨_, .update h ho ht⟩

theorem Watches.booked_service {E : Env} {s s' : Watched} (h : Watches E s .service s')
    {l : Ledger} (hb : l.battery = s.battery) (hw : l.world = s.world) :
    ∃ o, Booked E l .service (l.serviced E.order o s'.battery s'.world) := by
  cases h with
  | service h ho ht =>
    rw [← hb, ← hw] at h ht
    exact ⟨_, .service h ho ht⟩

theorem startsRead_tickingStart {start : Buffer} (he : eventOf .little start = .start) :
    startsRead .little 3 (tickingStart start) = [fromMillis (100 * 3)] := by
  rw [tickingStart, startsRead_of_start (readsStart_of_start rfl he) rfl]
  rfl

/-- The books of the run with the flip whose push a `START` brings forward. -/
theorem ticking_booked : ∃ start flip push l₁ l₂ l₃, eventOf .little start = .start ∧
    Along (Booked .ticking) (.opened (mouse 3) (.holding start))
      [(.update ⟨50, true⟩, l₁), (.service, l₂), (.service, l₃)] ∧
    l₁.world.history = tickingFlip flip ∧
    l₂.world.history = tickingFlip flip ++ tickingStart start ∧
    l₃.world.history = tickingFlip flip ++ tickingStart start ++ tickingPush push ∧
    l₁.battery = chargingMouse ∧ l₂.battery = chargingMouse.withRepush (some (fromMillis 550)) ∧
    l₃.battery = chargingMouse.withRepush none ∧
    l₁.owed = [chargeFlipRepushDelay] ∧ l₂.owed = [chargeFlipRepushDelay, fromMillis 550] ∧
    l₃.owed = [] ∧ l₁.starts = [] ∧ l₂.starts = [fromMillis (100 * 3)] ∧
    l₃.starts = [fromMillis (100 * 3)] := by
  obtain ⟨start, flip, push, s₁, s₂, s₃, he, -, hpush, ⟨h₁, h₂, h₃, -⟩, hcalls₁, hcalls₂, hcalls₃,
    hb₁, hb₂, hb₃, -⟩ := ticking_run
  obtain ⟨o₁, hl₁⟩ := h₁.booked_update (l := .opened (mouse 3) (.holding start)) rfl rfl
  obtain ⟨o₂, hl₂⟩ := h₂.booked_service (l := Ledger.updated _ _ _ o₁ _ _) rfl rfl
  obtain ⟨o₃, hl₃⟩ := h₃.booked_service (l := Ledger.serviced _ _ o₂ _ _) rfl rfl
  have hsince₂ : s₁.world.since s₂.world = tickingStart start :=
    World.since_of_append hcalls₁ hcalls₂
  have hsince₃ : s₂.world.since s₃.world = tickingPush push :=
    World.since_of_append hcalls₂ hcalls₃
  have hfd₁ : s₁.battery.handle.fd = 3 := by rw [hb₁]; rfl
  have hfd₂ : s₂.battery.handle.fd = 3 := by rw [hb₂]; rfl
  have hstarts₂ := startsRead_tickingStart he
  have howed₁ : flipDues .ticking (mouse 3) (.holding start) ⟨50, true⟩ =
      [chargeFlipRepushDelay] := by
    have hdue : fromMillis (100 * 0) + chargeFlipRepushDelay = chargeFlipRepushDelay := by decide
    rw [flipDues, if_pos (by decide), ticking_time (n := 0) rfl, hdue]
  have hsettled : fromMillis (100 * 3) + startSettleDelay = fromMillis 550 := by decide
  refine ⟨start, flip, push, _, _, _, he, ⟨hl₁, hl₂, hl₃, trivial⟩, hcalls₁, hcalls₂, hcalls₃,
    hb₁, hb₂, hb₃, howed₁, ?_, ?_, rfl, ?_, ?_⟩
  · change (if inputs .little s₁.battery.handle.fd (s₁.world.since s₂.world) = [] then
      flipDues .ticking (mouse 3) (.holding start) ⟨50, true⟩ ++
        settleDues .little s₁.battery.handle.fd (s₁.world.since s₂.world) else []) = _
    rw [hfd₁, hsince₂, if_pos (inputs_of_writes rfl), settleDues, hstarts₂, howed₁, List.map_cons,
      hsettled]
    rfl
  · have hsome : inputs .little s₂.battery.handle.fd (s₂.world.since s₃.world) ≠ [] := by
      rw [hfd₂, hsince₃]
      exact inputs_ne_nil [_, _] (inputs_of_took rfl hpush)
    exact if_neg hsome
  · change [] ++ startsRead .little s₁.battery.handle.fd (s₁.world.since s₂.world) = _
    rw [hfd₁, hsince₂, hstarts₂, List.nil_append]
  · change [] ++ startsRead .little s₁.battery.handle.fd (s₁.world.since s₂.world) ++
      startsRead .little s₂.battery.handle.fd (s₂.world.since s₃.world) = _
    rw [hfd₁, hfd₂, hsince₂, hsince₃, hstarts₂, List.nil_append]
    rfl

/-- The run with the flip whose push a `START` brings forward: both are owed, and the
push comes at the first look after the time of either. -/
theorem never_postponed_flip : ∃ start l₁ l₂ l₃,
    Along (Booked .ticking) (.opened (mouse 3) (.holding start))
      [(.update ⟨50, true⟩, l₁), (.service, l₂), (.service, l₃)] ∧
    l₁.owed = [chargeFlipRepushDelay] ∧ l₂.owed = [chargeFlipRepushDelay, fromMillis 550] ∧
    l₃.owed = [] ∧ (∃ e ≤ chargeFlipRepushDelay, l₁.battery.nextDeadline = some e) ∧
    (∃ e ≤ fromMillis 550, l₂.battery.nextDeadline = some e) ∧
    ∃ t, (t, chargingMouse.report) ∈ inputs .little 3 (l₂.world.since l₃.world) := by
  obtain ⟨start, flip, push, l₁, l₂, l₃, -, hrun, -, hcalls₂, hcalls₃, -, hb₂, -, howed₁, howed₂,
    howed₃, -⟩ := ticking_booked
  obtain ⟨hcovered, -, -, hprompt, -⟩ := never_postponed .ticking (mouse 3) (.holding start) _ hrun
  have hsince : l₂.world.since l₃.world = tickingPush push :=
    World.since_of_append hcalls₂ hcalls₃
  have hfd : l₂.battery.handle.fd = 3 := by rw [hb₂]; rfl
  refine ⟨start, l₁, l₂, l₃, hrun, howed₁, howed₂, howed₃,
    hcovered (.update ⟨50, true⟩, l₁) (by simp) _ (by simp [howed₁]),
    hcovered (.service, l₂) (by simp) _ (by simp [howed₂]), ?_⟩
  obtain ⟨-, hpushes⟩ := hprompt (fromMillis 550) (List.mem_append_left _ (by simp [howed₂]))
  have hlook : fromMillis (100 * 7) ∈
      checkTimes .little l₂.battery.handle.fd (l₂.world.since l₃.world) := by
    rw [hfd, hsince]
    exact List.mem_cons_self
  obtain ⟨queue, x, hsplit, -, hi⟩ := hpushes _ hlook (by decide)
  refine ⟨x.time, ?_⟩
  rw [hsplit, inputs_append, ← hfd]
  refine List.mem_append_right _ ?_
  rw [show inputs .little l₂.battery.handle.fd [x] = _ from hi, hb₂]
  exact List.mem_cons_self

/-! ## Settle pushes -/

/-- With nothing due, every `START` was followed by a push that gave it time to settle. -/
def SettlePushed (s : Ledger) : Prop :=
  s.battery.nextDeadline = none →
    ∀ u ∈ s.starts, ∃ x ∈ s.inputs, u + startSettleDelay ≤ x.1

/-- A push that `service` finds due finds every `START` settled, of those read so far
that no `INPUT2` has served. -/
def Unhurried (E : Env) (s : Ledger) : Op → Ledger → Prop
  | .service, s' => ∀ t, FindsDue E.order s.battery (s.world.since s'.world) t →
      ∀ u ∈ s.starts ++ startsRead E.order s.battery.handle.fd (s.world.since s'.world),
        (∀ x ∈ s.inputs, x.1 < u + startSettleDelay) → u + startSettleDelay ≤ t
  | _, _ => True

section Settle

variable {E : Env} {s s' : Ledger} {op : Op}

/-- What was served stays served. -/
theorem SettlePushed.mono (hs : SettlePushed s)
    (hslot : s'.battery.nextDeadline = none → s.battery.nextDeadline = none ∧ s'.starts = s.starts)
    (hinputs : s.inputs ⊆ s'.inputs) : SettlePushed s' := by
  intro hnone u hu
  obtain ⟨hbefore, hstarts⟩ := hslot hnone
  rw [hstarts] at hu
  obtain ⟨x, hx, hle⟩ := hs hbefore u hu
  exact ⟨x, hinputs hx, hle⟩

/-- One more `INPUT2` serves what is settled by then. -/
theorem served_of_settled {starts : List Instant} {inputs : List (Instant × List UInt8)}
    {x : Instant × List UInt8}
    (h : ∀ u ∈ starts, (∀ y ∈ inputs, y.1 < u + startSettleDelay) → u + startSettleDelay ≤ x.1) :
    ∀ u ∈ starts, ∃ y ∈ inputs ++ [x], u + startSettleDelay ≤ y.1 := by
  intro u hu
  by_cases hex : ∃ y ∈ inputs, u + startSettleDelay ≤ y.1
  · obtain ⟨y, hy, hle⟩ := hex
    exact ⟨y, List.mem_append_left _ hy, hle⟩
  · refine ⟨x, List.mem_append_right _ (List.mem_singleton_self x), h u hu ?_⟩
    intro y hy
    exact Nat.lt_of_not_le fun hle => hex ⟨y, hy, hle⟩

/-- **One call** that does not hurry leaves every `START` with its push. -/
theorem Booked.settlePushed (h : Booked E s op s') (hclock : Chronological (s.world.since s'.world))
    (hs : SettlePushed s) (hu : Unhurried E s op s') : SettlePushed s' := by
  cases h with
  | @update rounds reading o b w h ho ht =>
    obtain ⟨-, hupdated⟩ := update_since h
    obtain ⟨-, -, hslot⟩ := hupdated.published ho ht
    exact hs.mono (fun hnone => ⟨(hslot hnone).2, rfl⟩) (List.subset_append_left _ _)
  | @service rounds o b w h ho ht =>
    obtain ⟨-, hserved⟩ := service_since h
    rcases hserved.published (Or.inr ⟨ho, ht⟩) hclock with
      ⟨-, rfl⟩ | ⟨look, time, hlook, hle, hi, rfl⟩
    · refine hs.mono (fun hnone => ?_) (List.subset_append_left _ _)
      obtain ⟨hslot, hstarts⟩ := settled_eq_none_iff.mp hnone
      refine ⟨hslot, ?_⟩
      rw [Ledger.serviced, hstarts, List.append_nil]
    · intro _
      rw [Ledger.serviced, hi]
      exact served_of_settled fun u hstart hnone => (hu look hlook u hstart hnone).trans hle

end Settle

/-- **Every `START` gets its settle push**, in every run in which each push that `service`
finds due, at its look at the clock, finds the `START`s settled that no `INPUT2` has
served. -/
theorem settled_while_unhurried (E : Env) (b : Battery) (w : World) (run : List (Op × Ledger))
    (hrun : Along (Booked E) (.opened b w) run)
    (hclock : ∀ x ∈ run, Chronological x.2.world.history)
    (hunhurried : Along (Unhurried E) (.opened b w) run) : ∀ x ∈ run, SettlePushed x.2 := by
  have hfirst : SettlePushed (.opened b w) := by simp [SettlePushed, Ledger.opened]
  have hclocks := Runs.along_of_forall (s := Ledger.opened b w)
    (P := fun s => Chronological s.world.history) hclock
  have hsteps := (hrun.and hclocks).and hunhurried
  exact hsteps.invariant hfirst fun _ _ _ ⟨⟨h, hc⟩, hu⟩ hs => h.settlePushed hc.since hs hu

/-- The service that reads the `START` finds nothing due. -/
theorem unhurried_tickingStart {start : Buffer} {l l' : Ledger}
    (he : eventOf .little start = .start) (hb : l.battery = chargingMouse)
    (hsince : l.world.since l'.world = tickingStart start) :
    Unhurried .ticking l .service l' := by
  rintro t ⟨hlook, hdue⟩
  have hfd : l.battery.handle.fd = 3 := by rw [hb]; rfl
  have horder : Env.ticking.order = .little := rfl
  rw [hfd, hsince] at hlook
  rw [hfd, hsince, horder, startsRead_tickingStart he, hb] at hdue
  have hlook : t ∈ [fromMillis (100 * 5)] := hlook
  rw [List.mem_singleton.mp hlook] at hdue
  rcases hdue with hcov | ⟨u, hu, hle⟩
  · have hlate : chargeFlipRepushDelay ≤ fromMillis (100 * 5) := Deadlines.covers_some_iff.mp hcov
    exact absurd hlate (by decide)
  · rw [List.mem_singleton.mp hu] at hle
    exact absurd hle (by decide)

/-- The service that pushes looks at the clock once the `START` has settled. -/
theorem unhurried_tickingPush {push : Buffer} {l l' : Ledger} (hfd : l.battery.handle.fd = 3)
    (hsince : l.world.since l'.world = tickingPush push)
    (hstarts : l.starts = [fromMillis (100 * 3)]) : Unhurried .ticking l .service l' := by
  rintro t ⟨hlook, -⟩ u hu -
  rw [hfd, hsince] at hlook
  rw [hfd, hsince, hstarts] at hu
  have hlook : t ∈ [fromMillis (100 * 7)] := hlook
  have hu : u ∈ [fromMillis (100 * 3)] := hu
  rw [List.mem_singleton.mp hlook, List.mem_singleton.mp hu]
  decide

/-- A push that comes once the `START` has settled. -/
theorem settled_while_unhurried_start : ∃ start l₁ l₂ l₃,
    Along (Booked .ticking) (.opened (mouse 3) (.holding start))
      [(.update ⟨50, true⟩, l₁), (.service, l₂), (.service, l₃)] ∧
    l₃.battery.nextDeadline = none ∧ l₃.starts = [fromMillis (100 * 3)] ∧
    ∃ x ∈ l₃.inputs, fromMillis (100 * 3) + startSettleDelay ≤ x.1 := by
  obtain ⟨start, flip, push, l₁, l₂, l₃, he, hrun, hcalls₁, hcalls₂, hcalls₃, hb₁, hb₂, hb₃, -, -,
    -, -, hstarts₂, hstarts₃⟩ := ticking_booked
  have hclock₃ : Chronological l₃.world.history := by
    rw [hcalls₃]
    simp [Chronological, tickingFlip, tickingStart, tickingPush, fromMillis]
  have hclock₂ : Chronological l₂.world.history := by
    rw [hcalls₃, ← hcalls₂] at hclock₃
    exact hclock₃.sublist (List.sublist_append_left _ _)
  have hclock₁ : Chronological l₁.world.history := by
    rw [hcalls₂, ← hcalls₁] at hclock₂
    exact hclock₂.sublist (List.sublist_append_left _ _)
  have hunhurried : Along (Unhurried .ticking) (.opened (mouse 3) (.holding start))
      [(.update ⟨50, true⟩, l₁), (.service, l₂), (.service, l₃)] :=
    ⟨trivial, unhurried_tickingStart he hb₁ (World.since_of_append hcalls₁ hcalls₂),
      unhurried_tickingPush (by rw [hb₂]; rfl) (World.since_of_append hcalls₂ hcalls₃) hstarts₂,
      trivial⟩
  have hall := settled_while_unhurried .ticking (mouse 3) (.holding start) _ hrun
    (by simp [hclock₁, hclock₂, hclock₃]) hunhurried
  have hslot : l₃.battery.nextDeadline = none := by rw [hb₃]; rfl
  refine ⟨start, l₁, l₂, l₃, hrun, hslot, hstarts₃, ?_⟩
  exact hall (.service, l₃) (by simp) hslot _ (by simp [hstarts₃])

/-! ## Two STARTs and one push -/

/-- A system at rest where a call is made every 70 ms. -/
def Env.strolling : Env where
  __ := Env.calm .little 0
  time history := fromMillis (70 * history.length)

/-- The calls of a service that finds two `START`s queued. -/
def strollingCalls (event buf : Buffer) : List Entry :=
  [⟨fromMillis 0, fun _ => [], .read 3 (.delivered event)⟩, ⟨fromMillis 70, fun _ => [], .now⟩,
    ⟨fromMillis 140, fun _ => [], .read 3 (.delivered event)⟩,
    ⟨fromMillis 210, fun _ => [], .now⟩, ⟨fromMillis 280, fun _ => [], .read 3 (.failed .again)⟩,
    ⟨fromMillis 350, fun _ => [], .now⟩,
    ⟨fromMillis 420, fun _ => [], .write 3 buf (.took eventSize)⟩]

theorem startsRead_strollingCalls {event buf : Buffer} (he : eventOf .little event = .start) :
    startsRead .little 3 (strollingCalls event buf) = [fromMillis 70, fromMillis 210] := by
  have hread {t : Instant} {arrivals : Fd → List Buffer} :
      Entry.readsStart .little 3 ⟨t, arrivals, .read 3 (.delivered event)⟩ = true :=
    readsStart_of_start rfl he
  rw [strollingCalls, startsRead_of_start hread rfl, startsRead, startsRead_of_start hread rfl]
  rfl

theorem strolling_time {w : World} {n : Nat} (h : w.history.length = n) :
    Env.strolling.time w.history = fromMillis (70 * n) := by
  rw [← h]
  rfl

/-- The second `START` comes 140 ms after the first. -/
theorem strolling_service {event : Buffer} (he : eventOf .little event = .start) :
    ∃ buf w, sentOf .little buf = .input2 (mouse 3).report ∧
      Battery.service .strolling 3 (mouse 3, .queueing [event, event]) = (.ok (), (mouse 3, w)) ∧
      w.history = strollingCalls event buf := by
  have hone : earliest (mouse 3).repushAt (fromMillis (70 * 1) + startSettleDelay) =
      some (fromMillis 320) := by decide
  have htwo : earliest (some (fromMillis 320)) (fromMillis (70 * 3) + startSettleDelay) =
      some (fromMillis 320) := by decide
  have hqueue : (World.queueing [event, event]).queue 3 = event :: [event] := rfl
  have hfirst := serviceLoop_of_start_cons .strolling 3 (mouse 3) (.queueing [event, event]) 2 he
    (readResult_of_cons .strolling rfl hqueue)
    (by rw [strolling_time (n := 1) rfl]; decide)
  rw [strolling_time (n := 1) rfl, hone] at hfirst
  generalize hw₂ : ((World.queueing [event, event]).next .strolling
    (.read (mouse 3).handle.fd (.delivered event))).next .strolling .now = w₂ at hfirst
  have hlen₂ : w₂.history.length = 2 := by rw [← hw₂]; rfl
  generalize hsettling : (mouse 3).withRepush (some (fromMillis 320)) = b at hfirst
  have hslot : b.repushAt = some (fromMillis 320) := by rw [← hsettling]; rfl
  have hfd : b.handle = ⟨3⟩ := by rw [← hsettling]; rfl
  have hsecond := serviceLoop_of_start .strolling 3 b w₂ 0 he (by rw [hfd, ← hw₂]; rfl)
    (fun _ => rfl) (fun _ _ => rfl) (by rw [strolling_time (n := 3) (by simp [hlen₂])]; decide)
  rw [strolling_time (n := 3) (by simp [hlen₂]), hslot, htwo, ← hslot, withRepush_self,
    hfd] at hsecond
  generalize hw₅ : ((w₂.next .strolling (.read 3 (.delivered event))).next .strolling .now).next
    .strolling (.read 3 (.failed .again)) = w₅ at hsecond
  have hlen₅ : w₅.history.length = 5 := by simp [← hw₅, hlen₂]
  obtain ⟨buf, hb, hpush⟩ := pushIfDue_of_due .strolling b w₅ hslot
    (by rw [strolling_time hlen₅]; decide)
  refine ⟨buf, (w₅.next .strolling .now).next .strolling (.write 3 buf (.took eventSize)), ?_, ?_,
    ?_⟩
  · rw [← hsettling] at hb
    exact hb
  · rw [service_def, Program.bind_ok (hfirst.trans hsecond), hpush,
      write_of_took .strolling b.handle buf 2 rfl, hfd, ← hsettling]
    rfl
  · rw [← hw₅, ← hw₂]
    rfl

theorem strolling_run :
    ∃ event s, eventOf .little event = .start ∧
      Along (Booked .strolling) (.opened (mouse 3) (.queueing [event, event])) [(.service, s)] ∧
      Chronological s.world.history ∧ s.battery.nextDeadline = none ∧
      s.starts = [fromMillis 70, fromMillis 210] ∧
      s.inputs = [(fromMillis 420, (mouse 3).report)] := by
  obtain ⟨event, -, he⟩ := start_decodes .little
  rw [decode_eq, Outcome.ok.injEq] at he
  obtain ⟨buf, w, hb, hservice, hhistory⟩ := strolling_service he
  have hsince : (World.queueing [event, event]).since w = strollingCalls event buf := hhistory
  have htaken : AllTaken (mouse 3).handle.fd ((World.queueing [event, event]).since w) :=
    (service_since hservice).1.allTaken fun _ _ => rfl
  have hstep : Booked .strolling (.opened (mouse 3) (.queueing [event, event])) .service _ :=
    .service hservice trivial htaken
  have hclock : Chronological w.history := by
    rw [hhistory]
    simp [Chronological, strollingCalls, fromMillis]
  refine ⟨event, _, he, ⟨hstep, trivial⟩, hclock, rfl, ?_, ?_⟩
  · change [] ++ startsRead .little 3 ((World.queueing [event, event]).since w) = _
    rw [hsince, List.nil_append, startsRead_strollingCalls he]
  · change [] ++ inputs .little 3 ((World.queueing [event, event]).since w) = _
    have hacc : accepted 3 (strollingCalls event buf) = [(fromMillis 420, buf)] := rfl
    rw [hsince, List.nil_append, inputs, hacc, List.filterMap_cons, hb]
    rfl

/-- Two `START`s 140 ms apart share the first one's push, which is too early for the
second. -/
theorem hurried_start :
    ∃ event s, eventOf .little event = .start ∧
      Along (Booked .strolling) (.opened (mouse 3) (.queueing [event, event])) [(.service, s)] ∧
      Chronological s.world.history ∧ s.battery.nextDeadline = none ∧
      s.starts = [fromMillis 70, fromMillis 210] ∧
      s.inputs = [(fromMillis 420, (mouse 3).report)] ∧ ¬ SettlePushed s := by
  obtain ⟨event, s, he, hrun, hclock, hslot, hstarts, hinputs⟩ := strolling_run
  refine ⟨event, s, he, hrun, hclock, hslot, hstarts, hinputs, ?_⟩
  intro h
  obtain ⟨x, hx, hle⟩ := h hslot (fromMillis 210) (by simp [hstarts])
  rw [hinputs, List.mem_singleton] at hx
  rw [hx] at hle
  exact absurd hle (by decide)

end UhidBattery
