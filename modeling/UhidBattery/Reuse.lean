import UhidBattery.Life

/-!
# A free handle can be reused

Runs of one handle through any number of devices: it is free, or owned by a
battery, or inside a `create` or a `destroy` that has not come back.

* `Owns.safe`: what one step keeps of the state of the device.
* `free_handle_reusable`: a free handle never has a live device, and `create`
  leaves none behind when it fails.
-/

namespace UhidBattery

open Record (ByteOrder)
open Program (Outcome)
open Runs (Along)

/-! ## Ownership -/

inductive Owned where
  | free (handle : Handle) (w : World)
  | device (s : InUse)
  | inside (w : World)

def Owned.world : Owned → World
  | free _ w => w
  | device s => s.world
  | inside w => w

inductive LifeOp where
  | create (identity : Identity) (kind : Kind) (reading : Reading)
  | call (op : Op)
  | destroy
  | elsewhere

/-- What ownership allows: a battery is created on a free handle, and only
`destroy` or a failed `create` gives the handle back. -/
inductive Owns (E : Env) : Owned → LifeOp → Owned → Prop where
  | created {rounds : Nat} {handle : Handle} {identity : Identity} {kind : Kind}
      {reading : Reading} {b : Battery} {w w' : World}
      (h : Battery.create E rounds handle identity kind reading w = (.ok b, w')) :
      Owns E (.free handle w) (.create identity kind reading) (.device ⟨reading, b, w', True⟩)
  | refused {rounds : Nat} {handle : Handle} {identity : Identity} {kind : Kind}
      {reading : Reading} {e : CreateError} {w w' : World}
      (h : Battery.create E rounds handle identity kind reading w = (.err e, w')) :
      Owns E (.free handle w) (.create identity kind reading) (.free e.handle w')
  | creating {rounds : Nat} {handle : Handle} {identity : Identity} {kind : Kind}
      {reading : Reading} {o : Outcome CreateError Battery} {w w' : World}
      (h : Battery.create E rounds handle identity kind reading w = (o, w'))
      (ho : ¬ o.Returned) :
      Owns E (.free handle w) (.create identity kind reading) (.inside w')
  | call {s s' : InUse} {op : Op} (h : Step E s op s') : Owns E (.device s) (.call op) (.device s')
  | destroyed {rounds : Nat} {s : InUse} {handle : Handle} {w : World} (hs : s.returned)
      (h : (s.battery.destroy E rounds : Program World IoError Handle) s.world =
        (.ok handle, w)) : Owns E (.device s) .destroy (.free handle w)
  | destroying {rounds : Nat} {s : InUse} {o : Outcome IoError Handle} {w : World}
      (hs : s.returned)
      (h : (s.battery.destroy E rounds : Program World IoError Handle) s.world = (o, w))
      (ho : ¬ o.Returned) : Owns E (.device s) .destroy (.inside w)
  | elsewhere {handle : Handle} {w w' : World} {calls : List Entry} (h : Ran E w calls w')
      (hr : reads handle.fd calls = []) (hw : writes handle.fd calls = []) :
      Owns E (.free handle w) .elsewhere (.free handle w')

/-- The kernel takes a `DESTROY` whenever a device is alive, unless a signal comes first. -/
def TakesDestroy (E : Env) (fd : Fd) : Prop :=
  ∀ h buf, sentOf E.order buf = .destroy → alive E.order (writes fd h) = true →
    E.write h fd buf = .took eventSize ∨ E.write h fd buf = .fails .intr

/-- The device is dead on a free handle, and running under a battery. -/
def Safe (order : ByteOrder) (fd : Fd) : Owned → Prop
  | .free handle w => handle.fd = fd ∧ lifeAfter order .dead (writes fd w.history) = some .dead
  | .device s => s.battery.handle.fd = fd ∧
      lifeAfter order .dead (writes fd s.world.history) = some .running
  | .inside w => ∃ life, lifeAfter order .dead (writes fd w.history) = some life

/-! ## What a step keeps -/

section Steps

variable {E : Env} {fd : Fd} {w w' : World} {calls : List Entry} {l : Life}

theorem Ran.life (hran : Ran E w calls w')
    (h : lifeAfter E.order .dead (writes fd w.history) = some l) :
    lifeAfter E.order .dead (writes fd w'.history) = lifeAfter E.order l (writes fd calls) := by
  rw [hran.history, writes_append, lifeAfter_append, h]
  rfl

/-- A `DESTROY` for a live device does not fail. -/
theorem Written.destroy_ok {buf : Buffer} {o : Outcome IoError Unit} (hk : TakesDestroy E fd)
    (hran : Ran E w calls w') (hw : Written fd buf o calls)
    (hb : sentOf E.order buf = .destroy)
    (h : lifeAfter E.order .dead (writes fd w.history) = some .running) :
    o = .ok () ∨ o = .pending := by
  cases hw with
  | waiting retries hr => exact Or.inr rfl
  | answered retries x answer hr hx ha =>
    obtain ⟨w₁, hretries, hlast⟩ := ran_append_iff.mp hran
    obtain ⟨-, hg, -⟩ := ran_cons_iff.mp hlast
    rw [hx] at hg
    have hanswer : answer = E.write w₁.history fd buf := hg
    have hstay : Life.running.next (sentOf E.order buf) false = some .running := by
      rw [hb]
      rfl
    have hlife := hretries.life h
    rw [hr.life hstay] at hlife
    rcases hk w₁.history buf hb (alive_eq hlife) with htook | hintr
    · rw [hanswer, htook]
      exact Or.inl ((WriteAnswer.outcome_eq_ok_iff _).mpr rfl)
    · exact absurd (hanswer.trans hintr) ha

/-- A drain whose reads serve the queue leaves it empty. -/
theorem queue_eq_nil_of_drain {x : Entry} {result : ReadResult}
    (hserve : ∀ h, E.read h fd = .serve) (hran : Ran E w (calls ++ [x]) w')
    (hx : x.call = .read fd result) (hr : result.event? = none) : w'.queue fd = [] := by
  refine queue_eq_nil_of_read (fun h => Or.inl (hserve h)) hran hx ?_
  obtain ⟨w₁, -, -, hres⟩ := hran.last_read hx
  rcases readResult_of_serve E (hserve w₁.history) with ⟨buf, rest, -, hdel⟩ | ⟨-, hagain⟩
  · rw [hres, hdel] at hr
    cases hr
  · rw [hres, hagain]
    rfl

/-- A `DESTROY` ends a running device, if it is taken. -/
theorem Written.destroy_life {order : ByteOrder} {buf : Buffer} {o : Outcome IoError Unit}
    (hw : Written fd buf o calls) (hb : sentOf order buf = .destroy) :
    (o = .ok () → lifeAfter order .running (writes fd calls) = some .dead) ∧
      (o ≠ .ok () → lifeAfter order .running (writes fd calls) = some .running) := by
  apply hw.life_of <;> (rw [hb]; rfl)

/-- A `CREATE2` starts a device, if it is taken. -/
theorem Written.create2_life {order : ByteOrder} {buf : Buffer} {o : Outcome IoError Unit}
    {identity : Identity} {kind : Kind} (hw : Written fd buf o calls)
    (hb : sentOf order buf = identity.message kind) :
    (o = .ok () → lifeAfter order .dead (writes fd calls) = some .fresh) ∧
      (o ≠ .ok () → lifeAfter order .dead (writes fd calls) = some .dead) := by
  apply hw.life_of <;> (rw [hb]; rfl)

/-- A `destroy` ends the device, and returns with the queue empty when its reads
serve it. -/
theorem Destroyed.life {ε : Type} {handle : Handle} {o : Outcome ε Handle}
    (hk : TakesDestroy E handle.fd) (hran : Ran E w calls w')
    (hd : Destroyed E.order handle o calls)
    (h : lifeAfter E.order .dead (writes handle.fd w.history) = some .running) :
    (o.Returned → o = .ok handle ∧
        lifeAfter E.order .dead (writes handle.fd w'.history) = some .dead ∧
        .destroy ∈ sent E.order handle.fd calls ∧
        ((∀ h, E.read h handle.fd = .serve) → w'.queue handle.fd = [])) ∧
      ∃ life, lifeAfter E.order .dead (writes handle.fd w'.history) = some life := by
  rw [hran.life h]
  cases hd with
  | writing hb hw => exact ⟨fun ho => ho.elim, _, (hw.destroy_life hb).2 (by simp)⟩
  | @drained buf o o' calls calls' hb hw ho hdrain =>
    obtain ⟨w₁, hwrite, hrest⟩ := ran_append_iff.mp hran
    have hok : o = .ok () := (hw.destroy_ok hk hwrite hb h).resolve_right ho.ne_pending
    rw [writes_append, hdrain.writes_eq_nil, List.append_nil]
    have hdead : lifeAfter E.order .running (writes handle.fd calls) = some .dead :=
      (hw.destroy_life hb).1 hok
    refine ⟨fun hreturned => ?_, _, hdead⟩
    cases hdrain with
    | draining calls' hc => exact hreturned.elim
    | stopped calls' x result hc hx hr =>
      refine ⟨rfl, hdead, ?_, fun hserve => ?_⟩
      · rcases hw.sent_cases E.order with ⟨-, hs⟩ | ⟨hno, -⟩
        · rw [sent_append, hs, hb]
          exact List.mem_cons_self
        · exact absurd hok hno
      · exact queue_eq_nil_of_drain hserve hrest hx hr

/-- What the first push comes to, on a fresh device. -/
theorem FirstPush.life {b : Battery} {o : Outcome CreateError Battery}
    (hk : TakesDestroy E b.handle.fd) (hran : Ran E w calls w')
    (hp : FirstPush E.order b o calls)
    (h : lifeAfter E.order .dead (writes b.handle.fd w.history) = some .fresh) :
    (o = .ok b → lifeAfter E.order .dead (writes b.handle.fd w'.history) = some .running) ∧
    (∀ e, o = .err e → e.handle = b.handle ∧
      lifeAfter E.order .dead (writes b.handle.fd w'.history) = some .dead ∧
      .destroy ∈ sent E.order b.handle.fd calls ∧
      ((∀ h, E.read h b.handle.fd = .serve) → w'.queue b.handle.fd = [])) ∧
    ∃ life, lifeAfter E.order .dead (writes b.handle.fd w'.history) = some life := by
  cases hp with
  | pushed hb hw =>
    have hrunning := (hw.life_first hb).1 (by simp)
    rw [hran.life h]
    exact ⟨fun _ => hrunning, fun e he => (by cases he), _, hrunning⟩
  | pushing hb hw =>
    rw [hran.life h]
    exact ⟨fun ho => (by cases ho), fun e he => (by cases he), (hw.life_first hb).2⟩
  | @undone buf e o calls calls' hb hw hd =>
    obtain ⟨w₁, hpush, hundo⟩ := ran_append_iff.mp hran
    have hrunning := (hw.life_first hb).1 (by simp)
    rw [← hpush.life h] at hrunning
    obtain ⟨hreturned, hsome⟩ := hd.life hk hundo hrunning
    refine ⟨fun ho => ?_, fun e' he => ?_, hsome⟩
    · cases o <;> cases ho
    · cases o with
      | ok handle =>
        obtain ⟨hhandle, hdead, hdestroy, hempty⟩ := hreturned trivial
        cases hhandle
        cases he
        refine ⟨rfl, hdead, ?_, hempty⟩
        rw [sent_append]
        exact List.mem_append_right _ hdestroy
      | err e => exact absurd (hreturned trivial).1 (by simp)
      | panic => cases he
      | pending => cases he

/-- What `create` comes to, on a handle without a device. -/
theorem Created.life {handle : Handle} {identity : Identity} {kind : Kind} {reading : Reading}
    {o : Outcome CreateError Battery} (hk : TakesDestroy E handle.fd) (hran : Ran E w calls w')
    (hc : Created E.order handle identity kind reading o calls)
    (h : lifeAfter E.order .dead (writes handle.fd w.history) = some .dead) :
    (∀ b, o = .ok b → b.handle = handle ∧
      lifeAfter E.order .dead (writes handle.fd w'.history) = some .running) ∧
    (∀ e, o = .err e → e.handle = handle ∧
      lifeAfter E.order .dead (writes handle.fd w'.history) = some .dead ∧
      ((∃ m ∈ sent E.order handle.fd calls, m.isCreate2 = true) →
        .destroy ∈ sent E.order handle.fd calls ∧
        ((∀ h, E.read h handle.fd = .serve) → w'.queue handle.fd = []))) ∧
    ∃ life, lifeAfter E.order .dead (writes handle.fd w'.history) = some life := by
  have hnew (b : Battery) (ho : o = .ok b) : b = .new handle kind identity.uniq reading := by
    rw [ho] at hc
    exact hc.new.1
  cases hc with
  | invalid hv =>
    rw [hran.life h]
    refine ⟨fun b ho => (by cases ho), fun e he => ?_, _, rfl⟩
    cases he
    exact ⟨rfl, rfl, fun ⟨m, hm, _⟩ => by cases hm⟩
  | refused hv hb hw =>
    have hdead := (hw.create2_life hb).2 (by simp)
    rw [hran.life h]
    refine ⟨fun b ho => (by cases ho), fun e he => ?_, _, hdead⟩
    cases he
    refine ⟨rfl, hdead, fun ⟨m, hm, _⟩ => ?_⟩
    rcases hw.sent_cases E.order with ⟨ho, -⟩ | ⟨-, hs⟩
    · cases ho
    · rw [hs] at hm
      cases hm
  | creating hv hb hw =>
    rw [hran.life h]
    exact ⟨fun b ho => (by cases ho), fun e he => (by cases he), _, (hw.create2_life hb).2 (by simp)⟩
  | @created buf o calls calls' hv hb hw hp =>
    obtain ⟨w₁, hmade, hpush⟩ := ran_append_iff.mp hran
    have hfresh : lifeAfter E.order .dead (writes handle.fd w₁.history) = some .fresh := by
      rw [hmade.life h]
      exact (hw.create2_life hb).1 rfl
    obtain ⟨hok, herr, hsome⟩ := hp.life hk hpush hfresh
    refine ⟨fun b ho => ?_, fun e he => ?_, hsome⟩
    · obtain rfl := hnew b ho
      exact ⟨rfl, hok ho⟩
    · obtain ⟨hhandle, hdead, hdestroy, hempty⟩ := herr e he
      refine ⟨hhandle, hdead, fun _ => ⟨?_, hempty⟩⟩
      rw [sent_append]
      exact List.mem_append_right _ hdestroy

theorem Updated.running {order : ByteOrder} {b b' : Battery} {reading : Reading}
    {o : Outcome IoError Unit} (h : Updated order b reading o calls b') :
    lifeAfter order .running (writes b.handle.fd calls) = some .running := by
  cases h with
  | plain hf hb hw => exact hw.speaks (by rw [hb]; exact speaks_input2 _)
  | flipped hf hx hb hw =>
    rw [← List.singleton_append, writes_append, writes_of_now hx]
    exact hw.speaks (by rw [hb]; exact speaks_input2 _)
  | overflow hf hx =>
    rw [writes_of_now hx]
    rfl

/-- A battery's device keeps running, whatever its owner calls. -/
theorem Step.running {s s' : InUse} {op : Op} (h : Step E s op s')
    (hlife : lifeAfter E.order .dead (writes s.battery.handle.fd s.world.history) =
      some .running) :
    s'.battery.handle = s.battery.handle ∧
      lifeAfter E.order .dead (writes s.battery.handle.fd s'.world.history) = some .running := by
  rcases h.cases with ⟨reading, o, b, w, calls, -, hran, hu, rfl⟩ | ⟨-, -, ⟨slot, hb⟩, calls, hran,
    hsaid⟩
  · rw [hran.life hlife]
    exact ⟨hu.same.1, hu.running⟩
  · have hb' : s'.battery = s.battery.withRepush slot := hb
    rw [hran.life hlife, hb']
    exact ⟨rfl, life_of_speaks fun x hx => (hsaid x hx).speaks⟩

/-- **One step** of an owner's keeps the device dead while the handle is free. -/
theorem Owns.safe {s s' : Owned} {op : LifeOp} (hk : TakesDestroy E fd) (h : Owns E s op s')
    (hs : Safe E.order fd s) : Safe E.order fd s' := by
  cases h with
  | @created rounds handle identity kind reading b w w' h =>
    obtain ⟨rfl, hdead⟩ := hs
    obtain ⟨hran, hc⟩ := create_since h
    obtain ⟨hhandle, hrunning⟩ := (hc.life hk hran hdead).1 b rfl
    exact ⟨by rw [hhandle], hrunning⟩
  | @refused rounds handle identity kind reading e w w' h =>
    obtain ⟨rfl, hdead⟩ := hs
    obtain ⟨hran, hc⟩ := create_since h
    obtain ⟨hhandle, hdead', -⟩ := (hc.life hk hran hdead).2.1 e rfl
    exact ⟨by rw [hhandle], hdead'⟩
  | @creating rounds handle identity kind reading o w w' h ho =>
    obtain ⟨rfl, hdead⟩ := hs
    obtain ⟨hran, hc⟩ := create_since h
    exact (hc.life hk hran hdead).2.2
  | call h =>
    obtain ⟨rfl, hrunning⟩ := hs
    obtain ⟨hhandle, hrunning'⟩ := h.running hrunning
    exact ⟨by rw [hhandle], hrunning'⟩
  | @destroyed rounds s handle w hret h =>
    obtain ⟨rfl, hrunning⟩ := hs
    obtain ⟨hran, hd⟩ := destroy_since h
    obtain ⟨hhandle, hdead, -⟩ := (hd.life hk hran hrunning).1 trivial
    cases hhandle
    exact ⟨rfl, hdead⟩
  | @destroying rounds s o w hret h ho =>
    obtain ⟨rfl, hrunning⟩ := hs
    obtain ⟨hran, hd⟩ := destroy_since h
    exact (hd.life hk hran hrunning).2
  | elsewhere h hr hw =>
    obtain ⟨rfl, hdead⟩ := hs
    refine ⟨rfl, ?_⟩
    rw [h.life hdead, hw]
    rfl

end Steps

/-! ## Reusing a handle -/

/-- A `create` that failed although its `CREATE2` was taken has written `DESTROY`,
and has emptied the queue when its reads serve it. -/
def Undoes (E : Env) (fd : Fd) : Owned → LifeOp → Owned → Prop
  | .free _ w, .create _ _ _, .free _ w' =>
    (∃ m ∈ sent E.order fd (w.since w'), m.isCreate2 = true) →
      .destroy ∈ sent E.order fd (w.since w') ∧
      ((∀ h, E.read h fd = .serve) → w'.queue fd = [])
  | _, _, _ => True

theorem Owns.undoes {E : Env} {fd : Fd} {s s' : Owned} {op : LifeOp} (hk : TakesDestroy E fd)
    (h : Owns E s op s') (hs : Safe E.order fd s) : Undoes E fd s op s' := by
  cases h with
  | @refused rounds handle identity kind reading e w w' h =>
    obtain ⟨rfl, hdead⟩ := hs
    obtain ⟨hran, hc⟩ := create_since h
    exact ((hc.life hk hran hdead).2.1 e rfl).2.2
  | created h => trivial
  | creating h ho => trivial
  | call h => trivial
  | destroyed hs h => trivial
  | destroying hs h ho => trivial
  | elsewhere h hr hw => trivial

theorem Safe.orderly {order : ByteOrder} {fd : Fd} {s : Owned} (h : Safe order fd s) :
    Orderly order (writes fd s.world.history) := by
  cases s with
  | free handle w => exact orderly_of_life h.2
  | device s => exact orderly_of_life h.2
  | inside w =>
    obtain ⟨life, hlife⟩ := h
    exact orderly_of_life hlife

/-- `create` looks at the identity first, and makes no call for an invalid one. -/
theorem create_invalid_iff (E : Env) (rounds : Nat) (handle : Handle) (identity : Identity)
    (kind : Kind) (reading : Reading) (w : World) :
    ((∃ e, (Battery.create E rounds handle identity kind reading w).1 = .err e ∧
        e.kind = .invalidIdentity) ↔ ∃ source, identity.validate = .err source) ∧
      ∀ source, identity.validate = .err source →
        (Battery.create E rounds handle identity kind reading w).2 = w := by
  refine ⟨⟨?_, ?_⟩, ?_⟩
  · rintro ⟨e, h, hkind⟩
    obtain ⟨calls, -, hc⟩ := create_spec E rounds handle identity kind reading w
    rw [h] at hc
    exact hc.err_kind.mp hkind
  · rintro ⟨source, hv⟩
    rw [create_of_invalid E rounds handle identity kind reading w hv]
    exact ⟨_, rfl, rfl⟩
  · intro source hv
    rw [create_of_invalid E rounds handle identity kind reading w hv]

/-- **A free handle never has a live device, so it can always be reused.** -/
theorem free_handle_reusable (E : Env) (handle : Handle) (w : World)
    (hk : TakesDestroy E handle.fd)
    (hstart : lifeAfter E.order .dead (writes handle.fd w.history) = some .dead) :
    (∀ run, Along (Owns E) (.free handle w) run →
      (∀ x ∈ run, Orderly E.order (writes handle.fd x.2.world.history)) ∧
      (∀ x ∈ run, ∀ handle' w', x.2 = .free handle' w' →
        handle' = handle ∧ alive E.order (writes handle.fd w'.history) = false) ∧
      Along (Undoes E handle.fd) (.free handle w) run) ∧
    ∀ rounds handle identity kind reading w,
      ((∃ e, (Battery.create E rounds handle identity kind reading w).1 = .err e ∧
          e.kind = .invalidIdentity) ↔ ∃ source, identity.validate = .err source) ∧
        ∀ source, identity.validate = .err source →
          (Battery.create E rounds handle identity kind reading w).2 = w := by
  refine ⟨fun run hrun => ?_, create_invalid_iff E⟩
  have hfirst : Safe E.order handle.fd (.free handle w) := ⟨rfl, hstart⟩
  have hstep (s : Owned) (op : LifeOp) (s' : Owned) (h : Owns E s op s')
      (hs : Safe E.order handle.fd s) : Safe E.order handle.fd s' := h.safe hk hs
  have hsafe := hrun.invariant hfirst hstep
  refine ⟨fun x hx => (hsafe x hx).orderly, fun x hx handle' w' hfree => ?_, ?_⟩
  · have hdead := hsafe x hx
    rw [hfree] at hdead
    exact ⟨Handle.ext hdead.1, alive_eq hdead.2⟩
  · exact (hrun.with_invariant hfirst hstep).imp fun s op s' h => h.2.undoes hk h.1

/-- On a system at rest a battery whose queue is empty can be destroyed. -/
theorem destroy_calm (b : Battery) (w : World) (hq : w.queue b.handle.fd = []) :
    ∃ w', (b.destroy (.calm .little 0) 1 : Program World IoError Handle) w =
      (.ok b.handle, w') := by
  obtain ⟨buf, hdestroy⟩ := destroy_of_took IoError (.calm .little 0) 0 b w fun _ => rfl
  generalize hw₁ : w.next (.calm .little 0) (.write b.handle.fd buf (.took eventSize)) = w₁
    at hdestroy
  have hempty : w₁.queue b.handle.fd = [] := by
    rw [← hw₁, World.queue_next rfl, hq]
    rfl
  have hread : w₁.readResult (.calm .little 0) b.handle.fd = .failed .again :=
    readResult_of_nil _ rfl hempty rfl
  rw [hdestroy, drain_handle_apply, drain_succ, hread]
  exact ⟨_, rfl⟩

theorem Ran.queue_nil {E : Env} {w w' : World} {calls : List Entry} {fd : Fd}
    (h : Ran E w calls w') (ha : ∀ history, E.arrivals history fd = []) (hq : w.queue fd = []) :
    w'.queue fd = [] := by
  have hqueue := h.queue fd
  rw [hq, h.arrived_eq_nil ha, List.append_nil] at hqueue
  exact (List.append_eq_nil_iff.mp hqueue.symm).2

/-- A device's life on a system at rest, on a handle with an empty queue. -/
theorem life_calm (handle : Handle) (identity : Identity) (kind : Kind) (reading : Reading)
    {w : World} (hq : w.queue handle.fd = []) (hv : identity.validate = .ok ()) :
    ∃ s w', Owns (.calm .little 0) (.free handle w) (.create identity kind reading) (.device s) ∧
      Owns (.calm .little 0) (.device s) .destroy (.free handle w') ∧ w'.queue handle.fd = [] := by
  obtain ⟨w₁, hcreate, -⟩ := create_of_took (.calm .little 0) 0 handle identity kind reading w hv
    fun _ _ _ => rfl
  have hq₁ := (create_since hcreate).1.queue_nil (fun _ => rfl) hq
  obtain ⟨w₂, hdestroy⟩ := destroy_calm (.new handle kind identity.uniq reading) w₁ hq₁
  have hq₂ := (destroy_since hdestroy).1.queue_nil (fun _ => rfl) hq₁
  exact ⟨_, w₂, .created hcreate, .destroyed trivial hdestroy, hq₂⟩

/-- A mouse and then a headset on one handle, on a system at rest. -/
theorem free_handle_reusable_mouse :
    ∃ s₁ w₁ s₂ w₂, Along (Owns (.calm .little 0)) (.free ⟨3⟩ .started)
        [(.create (.new "Mouse" "mouse-1") .mouse ⟨50, false⟩, .device s₁),
          (.destroy, .free ⟨3⟩ w₁),
          (.create (.new "Headset" "headset-1") .headset ⟨80, true⟩, .device s₂),
          (.destroy, .free ⟨3⟩ w₂)] ∧
      alive .little (writes 3 w₁.history) = false ∧
      Orderly .little (writes 3 s₂.world.history) ∧
      alive .little (writes 3 w₂.history) = false := by
  obtain ⟨s₁, w₁, hcreate₁, hdestroy₁, hq₁⟩ := life_calm ⟨3⟩ (.new "Mouse" "mouse-1") .mouse
    ⟨50, false⟩ (w := .started) rfl (by decide)
  obtain ⟨s₂, w₂, hcreate₂, hdestroy₂, -⟩ := life_calm ⟨3⟩ (.new "Headset" "headset-1") .headset
    ⟨80, true⟩ hq₁ (by decide)
  have hrun : Along (Owns (.calm .little 0)) (.free ⟨3⟩ .started)
      [(.create (.new "Mouse" "mouse-1") .mouse ⟨50, false⟩, .device s₁), (.destroy, .free ⟨3⟩ w₁),
        (.create (.new "Headset" "headset-1") .headset ⟨80, true⟩, .device s₂),
        (.destroy, .free ⟨3⟩ w₂)] := ⟨hcreate₁, hdestroy₁, hcreate₂, hdestroy₂, trivial⟩
  obtain ⟨horderly, hfree, -⟩ := (free_handle_reusable (.calm .little 0) ⟨3⟩ .started
    (fun _ _ _ _ => Or.inl rfl) rfl).1 _ hrun
  refine ⟨s₁, w₁, s₂, w₂, hrun, ?_, ?_, ?_⟩
  · exact (hfree (.destroy, .free ⟨3⟩ w₁) (by simp) _ _ rfl).2
  · exact horderly (.create (.new "Headset" "headset-1") .headset ⟨80, true⟩, .device s₂) (by simp)
  · exact (hfree (.destroy, .free ⟨3⟩ w₂) (by simp) _ _ rfl).2

end UhidBattery
