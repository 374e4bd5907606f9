import UhidBattery.Service

/-!
# What create, update and destroy do

The shapes of the calls of the other operations, as `Served` is that of
`service`.

* `update_spec`: a push of the new reading, after a look at the clock when the
  charging bit flips at an unchanged level.
* `destroy_spec`: a `DESTROY`, taken or not, then a drain.
* `create_spec`: every way in and out of `create`.
-/

namespace UhidBattery

open Record (ByteOrder)
open Program (Outcome attempt fail ofOutcome mapErr borrow)

/-! ## Update -/

/-- The charging bit changes and the level does not. -/
def Battery.flips (self : Battery) (reading : Reading) : Prop :=
  reading.clamped.charging ≠ self.reading.charging ∧
    reading.clamped.percent = self.reading.percent

instance (b : Battery) (reading : Reading) : Decidable (b.flips reading) :=
  inferInstanceAs (Decidable (_ ∧ _))

/-- What `update` does, by its outcome. -/
inductive Updated (order : ByteOrder) (b : Battery) (reading : Reading) :
    Outcome IoError Unit → List Entry → Battery → Prop where
  | plain {buf : Buffer} {o : Outcome IoError Unit} {calls : List Entry}
      (hf : ¬ b.flips reading) (hb : sentOf order buf = .input2 (b.withReading reading).report)
      (hw : Written b.handle.fd buf o calls) :
      Updated order b reading o calls (b.withReading reading)
  | flipped {x : Entry} {buf : Buffer} {o : Outcome IoError Unit} {calls : List Entry}
      (hf : b.flips reading) (hx : x.call = .now)
      (hb : sentOf order buf = .input2 (b.withReading reading).report)
      (hw : Written b.handle.fd buf o calls) :
      Updated order b reading o (x :: calls)
        ((b.withRepush (earliest b.repushAt (x.time + chargeFlipRepushDelay))).withReading reading)
  | overflow {x : Entry} (hf : b.flips reading) (hx : x.call = .now) :
      Updated order b reading .panic [x] b

section Update

variable (E : Env) (rounds : Nat)

/-- The end of `update`. -/
def storeAndPush (reading : Reading) : Program (Battery × World) IoError Unit := do
  Program.update fun self => self.withReading reading
  borrow fun self => self.push E rounds

theorem update_eq (reading : Reading) (b : Battery) (w : World) :
    Battery.update E rounds reading (b, w) =
      if b.flips reading then
        (Battery.scheduleRepush E chargeFlipRepushDelay >>= fun _ =>
          storeAndPush E rounds reading) (b, w)
      else storeAndPush E rounds reading (b, w) := by
  have hbefore : (borrow fun self => pure self.reading : Program (Battery × World) IoError _)
      (b, w) = (.ok b.reading, (b, w)) := rfl
  have hiff : b.flips reading ↔ (reading.clamped.charging ≠ b.reading.charging ∧
      reading.clamped.percent = b.reading.percent) := Iff.rfl
  unfold Battery.update storeAndPush
  rw [Program.bind_ok hbefore]
  by_cases hf : b.flips reading
  · rw [if_pos hf]
    simp only [if_pos (hiff.mp hf)]
  · rw [if_neg hf]
    simp only [if_neg (mt hiff.mpr hf)]

theorem storeAndPush_eq (E : Env) (reading : Reading) (b : Battery) :
    ∃ buf, sentOf E.order buf = .input2 (b.withReading reading).report ∧ ∀ rounds w,
      storeAndPush E rounds reading (b, w) = ((b.handle.write E rounds buf w).1,
        (b.withReading reading, (b.handle.write E rounds buf w).2)) := by
  obtain ⟨buf, hb, hpush⟩ := push_eq E (b.withReading reading)
  refine ⟨buf, hb, ?_⟩
  intro rounds w
  unfold storeAndPush
  rw [Program.bind_ok (Program.update_apply _ _), borrow, hpush]
  rfl

theorem update_of_fails (reading : Reading) (b : Battery) (w : World) {e : Errno}
    (hf : ¬ b.flips reading) (he : e ≠ .intr)
    (h : ∀ event, E.write w.history b.handle.fd event = .fails e) :
    ∃ w', Battery.update E (rounds + 1) reading (b, w) =
      (.err (.os e), (b.withReading reading, w')) := by
  obtain ⟨buf, -, hstore⟩ := storeAndPush_eq E reading b
  rw [update_eq, if_neg hf, hstore, write_of_fails E b.handle buf rounds he (h buf)]
  exact ⟨_, rfl⟩

/-- A flip whose push is taken. -/
theorem update_of_flips (reading : Reading) (b : Battery) (w : World) (hf : b.flips reading)
    (hlt : E.time w.history + chargeFlipRepushDelay < instantEnd)
    (h : ∀ event, E.write (w.next E .now).history b.handle.fd event = .took eventSize) :
    ∃ buf, sentOf E.order buf = .input2 (b.withReading reading).report ∧
      Battery.update E (rounds + 1) reading (b, w) = (.ok (),
        ((b.withRepush (earliest b.repushAt (E.time w.history + chargeFlipRepushDelay))).withReading
            reading,
          (w.next E .now).next E (.write b.handle.fd buf (.took eventSize)))) := by
  have hsched := scheduleRepush_eq E chargeFlipRepushDelay b w
  rw [if_pos hlt] at hsched
  obtain ⟨buf, hb, hstore⟩ := storeAndPush_eq E reading
    (b.withRepush (earliest b.repushAt (E.time w.history + chargeFlipRepushDelay)))
  have hwrite := write_of_took E b.handle buf rounds (h buf)
  refine ⟨buf, hb, ?_⟩
  rw [update_eq, if_pos hf, Program.bind_ok hsched, hstore, withRepush_handle, hwrite]

theorem storeAndPush_spec (reading : Reading) (b : Battery) (w : World) :
    ∃ calls buf, Ran E w calls (storeAndPush E rounds reading (b, w)).2.2 ∧
      sentOf E.order buf = .input2 (b.withReading reading).report ∧
      Written b.handle.fd buf (storeAndPush E rounds reading (b, w)).1 calls ∧
      (storeAndPush E rounds reading (b, w)).2.1 = b.withReading reading := by
  obtain ⟨buf, hb, heq⟩ := storeAndPush_eq E reading b
  obtain ⟨calls, hran, hw⟩ := write_spec E b.handle buf rounds w
  rw [heq]
  exact ⟨calls, buf, hran, hb, hw, rfl⟩

/-- **What `update` does**, whatever the system answers. -/
theorem update_spec (reading : Reading) (b : Battery) (w : World) :
    ∃ calls, Ran E w calls (Battery.update E rounds reading (b, w)).2.2 ∧
      Updated E.order b reading (Battery.update E rounds reading (b, w)).1 calls
        (Battery.update E rounds reading (b, w)).2.1 := by
  rw [update_eq]
  by_cases hf : b.flips reading
  · have hg : Genuine E w .now := trivial
    have hsched := scheduleRepush_eq E chargeFlipRepushDelay b w
    rw [← World.entry_time E w .now] at hsched
    rw [if_pos hf]
    by_cases hlt : (w.entry E .now).time + chargeFlipRepushDelay < instantEnd
    · rw [if_pos hlt] at hsched
      rw [Program.bind_ok hsched]
      obtain ⟨calls, buf, hran, hb, hw, hb'⟩ := storeAndPush_spec E rounds reading
        (b.withRepush (earliest b.repushAt ((w.entry E .now).time + chargeFlipRepushDelay)))
        (w.next E .now)
      refine ⟨w.entry E .now :: calls, .cons hg hran, ?_⟩
      rw [hb']
      exact .flipped hf rfl hb hw
    · rw [if_neg hlt] at hsched
      rw [Program.bind_panic hsched]
      exact ⟨_, .single hg, .overflow hf rfl⟩
  · rw [if_neg hf]
    obtain ⟨calls, buf, hran, hb, hw, hb'⟩ := storeAndPush_spec E rounds reading b w
    refine ⟨calls, hran, ?_⟩
    rw [hb']
    exact .plain hf hb hw

end Update

/-! ## Destroy -/

/-- What `destroy` does, by its outcome. -/
inductive Destroyed (order : ByteOrder) (handle : Handle) {ε : Type} :
    Outcome ε Handle → List Entry → Prop where
  | writing {buf : Buffer} {calls : List Entry} (hb : sentOf order buf = .destroy)
      (hw : Written handle.fd buf .pending calls) : Destroyed order handle .pending calls
  | drained {buf : Buffer} {o : Outcome IoError Unit} {o' : Outcome ε Unit}
      {calls calls' : List Entry} (hb : sentOf order buf = .destroy)
      (hw : Written handle.fd buf o calls) (ho : o.Returned) (hd : Drained handle.fd o' calls') :
      Destroyed order handle (o' >>= fun _ => .ok handle) (calls ++ calls')

theorem destroy_eq (ε : Type) (E : Env) (b : Battery) :
    ∃ buf, sentOf E.order buf = .destroy ∧ ∀ rounds w,
      (b.destroy E rounds : Program World ε Handle) w =
        (attempt (b.handle.write E rounds buf) >>= fun _ =>
          b.handle.drain E rounds >>= fun _ => pure b.handle) w := by
  obtain ⟨buf, hbuf, he⟩ := destroy_encodes E.order
  refine ⟨buf, sentOf_of_encodes he, ?_⟩
  intro rounds w
  unfold Battery.destroy
  rw [hbuf]
  rfl

/-- The end of `destroy`. -/
theorem drain_handle_apply {ε : Type} (E : Env) (rounds : Nat) (handle : Handle) (w : World) :
    (handle.drain E rounds >>= fun _ => pure handle : Program World ε Handle) w =
      (((handle.drain E rounds : Program World ε Unit) w).1 >>= fun _ => .ok handle,
        ((handle.drain E rounds : Program World ε Unit) w).2) :=
  Program.bind_pure_apply _ _ _

/-- A `DESTROY` that is taken, then the drain. -/
theorem destroy_of_took (ε : Type) (E : Env) (rounds : Nat) (b : Battery) (w : World)
    (h : ∀ event, E.write w.history b.handle.fd event = .took eventSize) :
    ∃ buf, (b.destroy E (rounds + 1) : Program World ε Handle) w =
      (b.handle.drain E (rounds + 1) >>= fun _ => pure b.handle : Program World ε Handle)
        (w.next E (.write b.handle.fd buf (.took eventSize))) := by
  obtain ⟨buf, -, hdestroy⟩ := destroy_eq ε E b
  have hatt : (attempt (b.handle.write E (rounds + 1) buf) : Program World ε _) w = _ :=
    Program.attempt_apply _ _
  rw [write_of_took E b.handle buf rounds (h buf)] at hatt
  refine ⟨buf, ?_⟩
  rw [hdestroy, Program.bind_ok hatt]

/-- **What `destroy` does**, whatever the system answers. -/
theorem destroy_spec (ε : Type) (E : Env) (rounds : Nat) (b : Battery) (w : World) :
    ∃ calls, Ran E w calls ((b.destroy E rounds : Program World ε Handle) w).2 ∧
      Destroyed E.order b.handle ((b.destroy E rounds : Program World ε Handle) w).1 calls := by
  obtain ⟨buf, hb, hdestroy⟩ := destroy_eq ε E b
  obtain ⟨calls, hran, hw⟩ := write_spec E b.handle buf rounds w
  have hatt : (attempt (b.handle.write E rounds buf) : Program World ε _) w = _ :=
    Program.attempt_apply _ _
  rw [hdestroy]
  rcases hres : b.handle.write E rounds buf w with ⟨o, w'⟩
  rw [hres] at hran hw hatt
  cases o with
  | ok u =>
    obtain ⟨calls', hran', hd⟩ := drain_spec E b.handle rounds w'
    rw [Program.bind_ok hatt, drain_handle_apply]
    exact ⟨_, hran.append hran', .drained hb hw trivial hd⟩
  | err e =>
    obtain ⟨calls', hran', hd⟩ := drain_spec E b.handle rounds w'
    rw [Program.bind_ok hatt, drain_handle_apply]
    exact ⟨_, hran.append hran', .drained hb hw trivial hd⟩
  | panic => exact absurd rfl hw.ne_panic
  | pending =>
    rw [Program.bind_pending hatt]
    exact ⟨calls, hran, .writing hb hw⟩

/-! ## Create -/

/-- The `CREATE2` of an identity. -/
def Identity.message (self : Identity) (kind : Kind) : Fake.Sent :=
  .create2 self.name self.phys self.uniq busVirtual self.vendor.toUInt32 self.product.toUInt32
    kind.descriptor

/-- The first push of a device that was just created, and its undoing when it fails. -/
inductive FirstPush (order : ByteOrder) (b : Battery) :
    Outcome CreateError Battery → List Entry → Prop where
  | pushed {buf : Buffer} {calls : List Entry} (hb : sentOf order buf = .input2 b.report)
      (hw : Written b.handle.fd buf (.ok ()) calls) : FirstPush order b (.ok b) calls
  | pushing {buf : Buffer} {calls : List Entry} (hb : sentOf order buf = .input2 b.report)
      (hw : Written b.handle.fd buf .pending calls) : FirstPush order b .pending calls
  | undone {buf : Buffer} {e : IoError} {o : Outcome CreateError Handle}
      {calls calls' : List Entry} (hb : sentOf order buf = .input2 b.report)
      (hw : Written b.handle.fd buf (.err e) calls) (hd : Destroyed order b.handle o calls') :
      FirstPush order b (o >>= fun handle => .err ⟨handle, .io, e⟩) (calls ++ calls')

/-- What `create` does, by its outcome. -/
inductive Created (order : ByteOrder) (handle : Handle) (identity : Identity) (kind : Kind)
    (reading : Reading) : Outcome CreateError Battery → List Entry → Prop where
  | invalid {e : IoError} (hv : identity.validate = .err e) :
      Created order handle identity kind reading (.err ⟨handle, .invalidIdentity, e⟩) []
  | refused {buf : Buffer} {e : IoError} {calls : List Entry} (hv : identity.validate = .ok ())
      (hb : sentOf order buf = identity.message kind) (hw : Written handle.fd buf (.err e) calls) :
      Created order handle identity kind reading (.err ⟨handle, .io, e⟩) calls
  | creating {buf : Buffer} {calls : List Entry} (hv : identity.validate = .ok ())
      (hb : sentOf order buf = identity.message kind) (hw : Written handle.fd buf .pending calls) :
      Created order handle identity kind reading .pending calls
  | created {buf : Buffer} {o : Outcome CreateError Battery} {calls calls' : List Entry}
      (hv : identity.validate = .ok ()) (hb : sentOf order buf = identity.message kind)
      (hw : Written handle.fd buf (.ok ()) calls)
      (hp : FirstPush order (Battery.new handle kind identity.uniq reading) o calls') :
      Created order handle identity kind reading o (calls ++ calls')

/-- The battery `create` returns, after a `CREATE2` and an `INPUT2` that were taken. -/
theorem Created.new {order : ByteOrder} {handle : Handle} {identity : Identity} {kind : Kind}
    {reading : Reading} {b : Battery} {calls : List Entry}
    (h : Created order handle identity kind reading (.ok b) calls) :
    b = Battery.new handle kind identity.uniq reading ∧
      ∃ buf buf' calls₁ calls₂, calls = calls₁ ++ calls₂ ∧
        sentOf order buf = identity.message kind ∧ Written handle.fd buf (.ok ()) calls₁ ∧
        sentOf order buf' = .input2 b.report ∧ Written handle.fd buf' (.ok ()) calls₂ := by
  generalize ho : (Outcome.ok b : Outcome CreateError Battery) = o at h
  cases h with
  | invalid hv => cases ho
  | refused hv hb hw => cases ho
  | creating hv hb hw => cases ho
  | @created buf o calls calls' hv hb hw hp =>
    cases hp with
    | @pushed buf' calls' hb' hw' =>
      cases ho
      exact ⟨rfl, buf, buf', calls, calls', rfl, hb, hw, hb', hw'⟩
    | pushing hb' hw' => cases ho
    | @undone buf' e o calls calls' hb' hw' hd => cases o <;> cases ho

/-- A `create` that succeeds reads nothing. -/
theorem Created.delivered_eq_nil {order : ByteOrder} {handle : Handle} {identity : Identity}
    {kind : Kind} {reading : Reading} {b : Battery} {calls : List Entry}
    (h : Created order handle identity kind reading (.ok b) calls) (fd : Fd) :
    delivered fd calls = [] := by
  obtain ⟨-, buf, buf', calls₁, calls₂, rfl, -, hw₁, -, hw₂⟩ := h.new
  rw [delivered_append, hw₁.delivered_eq_nil, hw₂.delivered_eq_nil]
  rfl

theorem Destroyed.ne_err {ε : Type} {order : ByteOrder} {handle : Handle} {o : Outcome ε Handle}
    {calls : List Entry} (h : Destroyed order handle o calls) (e : ε) : o ≠ .err e := by
  cases h with
  | writing hb hw => simp
  | drained hb hw ho hd => cases hd <;> simp

/-- The kind of a failed `create`'s error tells whether the identity was valid. -/
theorem Created.err_kind {order : ByteOrder} {handle : Handle} {identity : Identity} {kind : Kind}
    {reading : Reading} {e : CreateError} {calls : List Entry}
    (h : Created order handle identity kind reading (.err e) calls) :
    e.kind = .invalidIdentity ↔ ∃ source, identity.validate = .err source := by
  generalize ho : (Outcome.err e : Outcome CreateError Battery) = o at h
  cases h with
  | @invalid source hv =>
    cases ho
    exact iff_of_true rfl ⟨source, hv⟩
  | refused hv hb hw =>
    cases ho
    exact iff_of_false (by simp) (by simp [hv])
  | creating hv hb hw => cases ho
  | created hv hb hw hp =>
    refine iff_of_false ?_ (by simp [hv])
    cases hp with
    | pushed hb' hw' => cases ho
    | pushing hb' hw' => cases ho
    | @undone buf source o calls calls' hb' hw' hd =>
      cases o with
      | ok handle' =>
        cases ho
        simp
      | err e' => exact absurd rfl (hd.ne_err e')
      | panic => cases ho
      | pending => cases ho

section Create

variable (E : Env) (rounds : Nat) (handle : Handle) (identity : Identity) (kind : Kind)
  (reading : Reading) (w : World)

/-- A valid identity's `CREATE2` reads back as given. -/
theorem create2_valid (order : ByteOrder) (hv : identity.validate = .ok ()) :
    ∃ buf, create2 order identity.name identity.phys identity.uniq identity.vendor.toUInt32
        identity.product.toUInt32 kind.descriptor = .ok buf ∧
      sentOf order buf = identity.message kind := by
  have h := identity.validate_eq_ok_iff.mp hv
  have hlen : kind.descriptor.length ≤ rdDataMax := kind.length_descriptor_le.trans (by decide)
  obtain ⟨buf, hb, he⟩ := create2_encodes order identity.vendor.toUInt32
    identity.product.toUInt32 h.name_fits h.name_nul h.phys_fits h.phys_nul h.uniq_fits h.uniq_nul
    hlen
  exact ⟨buf, hb, sentOf_of_encodes he⟩

/-- The end of `create`: the first push, and a way back when it fails. -/
def pushOrUndo (battery : Battery) : Program World CreateError Battery := do
  match ← attempt (battery.push E rounds) with
  | .ok () => pure battery
  | .error source => do
    let handle ← battery.destroy E rounds
    fail ⟨handle, .io, source⟩

theorem pushOrUndo_spec (b : Battery) (w : World) :
    ∃ calls, Ran E w calls (pushOrUndo E rounds b w).2 ∧
      FirstPush E.order b (pushOrUndo E rounds b w).1 calls := by
  obtain ⟨buf, hb, hpush⟩ := push_eq E b
  obtain ⟨calls, hran, hw⟩ := write_spec E b.handle buf rounds w
  have hatt : (attempt (b.handle.write E rounds buf) : Program World CreateError _) w = _ :=
    Program.attempt_apply _ _
  unfold pushOrUndo
  rw [hpush]
  rcases hres : b.handle.write E rounds buf w with ⟨o, w₁⟩
  rw [hres] at hran hw hatt
  cases o with
  | ok u =>
    rw [Program.bind_ok hatt]
    exact ⟨calls, hran, .pushed hb hw⟩
  | err e =>
    obtain ⟨calls', hran', hd⟩ := destroy_spec CreateError E rounds b w₁
    have hundo : (b.destroy E rounds >>= fun handle => fail ⟨handle, .io, e⟩ :
        Program World CreateError Battery) w₁ = _ :=
      Program.bind_fail_apply (b.destroy E rounds) (CreateError.mk · .io e) w₁
    rw [Program.bind_ok hatt]
    simp only
    rw [hundo]
    exact ⟨_, hran.append hran', .undone hb hw hd⟩
  | panic => exact absurd rfl hw.ne_panic
  | pending =>
    rw [Program.bind_pending hatt]
    exact ⟨calls, hran, .pushing hb hw⟩

theorem create_of_valid (hv : identity.validate = .ok ()) :
    ∃ buf, sentOf E.order buf = identity.message kind ∧ ∀ rounds w,
      Battery.create E rounds handle identity kind reading w =
        (mapErr (fun source => (⟨handle, .io, source⟩ : CreateError))
            (handle.write E rounds buf) >>= fun _ =>
          pushOrUndo E rounds (Battery.new handle kind identity.uniq reading)) w := by
  obtain ⟨buf, hbuf, hb⟩ := create2_valid identity kind E.order hv
  refine ⟨buf, hb, ?_⟩
  intro rounds w
  have hvalid : mapErr (fun source => (⟨handle, .invalidIdentity, source⟩ : CreateError))
      (ofOutcome identity.validate) w = (.ok (), w) := by
    rw [Program.mapErr_apply, Program.ofOutcome_apply, hv]
    rfl
  unfold Battery.create
  rw [Program.bind_ok hvalid, hbuf]
  rfl

theorem create_of_invalid {e : IoError} (hv : identity.validate = .err e) :
    Battery.create E rounds handle identity kind reading w =
      (.err ⟨handle, .invalidIdentity, e⟩, w) := by
  have hinvalid : mapErr (fun source => (⟨handle, .invalidIdentity, source⟩ : CreateError))
      (ofOutcome identity.validate) w = (.err ⟨handle, .invalidIdentity, e⟩, w) := by
    rw [Program.mapErr_apply, Program.ofOutcome_apply, hv]
    rfl
  unfold Battery.create
  rw [Program.bind_err hinvalid]

/-- **What `create` does**, whatever the system answers. -/
theorem create_spec :
    ∃ calls, Ran E w calls (Battery.create E rounds handle identity kind reading w).2 ∧
      Created E.order handle identity kind reading
        (Battery.create E rounds handle identity kind reading w).1 calls := by
  rcases identity.validate_cases with ⟨hv, -⟩ | ⟨e, hv, -⟩
  · obtain ⟨buf, hb, hcreate⟩ := create_of_valid E handle identity kind reading hv
    obtain ⟨calls, hran, hw⟩ := write_spec E handle buf rounds w
    have hmade := Program.mapErr_apply (fun source => (⟨handle, .io, source⟩ : CreateError))
      (handle.write E rounds buf) w
    rw [hcreate]
    rcases hres : handle.write E rounds buf w with ⟨o, w₁⟩
    rw [hres] at hmade hran hw
    cases o with
    | ok u =>
      rw [Program.bind_ok hmade]
      obtain ⟨calls', hran', hp⟩ :=
        pushOrUndo_spec E rounds (Battery.new handle kind identity.uniq reading) w₁
      exact ⟨_, hran.append hran', .created hv hb hw hp⟩
    | err e =>
      rw [Program.bind_err hmade]
      exact ⟨calls, hran, .refused hv hb hw⟩
    | panic => exact absurd rfl hw.ne_panic
    | pending =>
      rw [Program.bind_pending hmade]
      exact ⟨calls, hran, .creating hv hb hw⟩
  · rw [create_of_invalid E rounds handle identity kind reading w hv]
    exact ⟨[], .nil w, .invalid hv⟩

/-- A valid identity on a system that takes the next two writes. -/
theorem create_writes_of_took (hv : identity.validate = .ok ())
    (h : ∀ history event, history.length ≤ w.history.length + 1 →
      E.write history handle.fd event = .took eventSize) :
    ∃ buf buf', sentOf E.order buf = identity.message kind ∧
      sentOf E.order buf' = .input2 (Battery.new handle kind identity.uniq reading).report ∧
      Battery.create E (rounds + 1) handle identity kind reading w =
        (.ok (Battery.new handle kind identity.uniq reading),
          (w.next E (.write handle.fd buf (.took eventSize))).next E
            (.write handle.fd buf' (.took eventSize))) := by
  obtain ⟨buf, hb, hcreate⟩ := create_of_valid E handle identity kind reading hv
  obtain ⟨buf', hb', hpush⟩ := push_eq E (Battery.new handle kind identity.uniq reading)
  have hwrite := write_of_took E handle buf rounds (h w.history buf (by omega))
  have hfirst := write_of_took E handle buf' rounds
    (h (w.next E (.write handle.fd buf (.took eventSize))).history buf' (by rw [World.length_next]))
  have hmade := Program.mapErr_apply (fun source => (⟨handle, .io, source⟩ : CreateError))
    (handle.write E (rounds + 1) buf) w
  rw [hwrite] at hmade
  have hatt : (attempt (handle.write E (rounds + 1) buf') : Program World CreateError _)
      (w.next E (.write handle.fd buf (.took eventSize))) = _ := Program.attempt_apply _ _
  rw [hfirst] at hatt
  refine ⟨buf, buf', hb, hb', ?_⟩
  rw [hcreate, Program.bind_ok hmade]
  unfold pushOrUndo
  rw [hpush]
  exact Program.bind_ok hatt

theorem create_of_took (hv : identity.validate = .ok ())
    (h : ∀ history event, history.length ≤ w.history.length + 1 →
      E.write history handle.fd event = .took eventSize) :
    ∃ w', Battery.create E (rounds + 1) handle identity kind reading w =
        (.ok (Battery.new handle kind identity.uniq reading), w') ∧
      w'.history.length = w.history.length + 2 := by
  obtain ⟨buf, buf', -, -, hcreate⟩ := create_writes_of_took E rounds handle identity kind reading w
    hv h
  exact ⟨_, hcreate, by rw [World.length_next, World.length_next]⟩

end Create

/-! ## One descriptor, one handle -/

section Same

variable {ε : Type} {order : ByteOrder} {handle : Handle} {identity : Identity} {kind : Kind}
  {reading : Reading} {calls : List Entry}

theorem Updated.onlyOn {b b' : Battery} {reading : Reading} {o : Outcome IoError Unit}
    (h : Updated order b reading o calls b') : OnlyOn b.handle.fd calls := by
  cases h with
  | plain hf hb hw => exact hw.onlyOn
  | flipped hf hx hb hw => exact (OnlyOn.now _ hx).append hw.onlyOn
  | overflow hf hx => exact OnlyOn.now _ hx

theorem Drained.onlyOn {fd : Fd} {o : Outcome ε Unit} (h : Drained fd o calls) :
    OnlyOn fd calls := by
  have hreads {l : List Entry} (hc : ∀ y ∈ l, ∃ buf, y.call = .read fd (.delivered buf)) :
      OnlyOn fd l := by
    intro y hy
    obtain ⟨buf, hread⟩ := hc y hy
    exact OnlyOn.read hread y (List.mem_singleton_self y)
  cases h with
  | stopped calls x result hc hx hr => exact (hreads hc).append (.read hx)
  | draining calls hc => exact hreads hc

theorem Destroyed.onlyOn {o : Outcome ε Handle} (h : Destroyed order handle o calls) :
    OnlyOn handle.fd calls := by
  cases h with
  | writing hb hw => exact hw.onlyOn
  | drained hb hw ho hd => exact hw.onlyOn.append hd.onlyOn

theorem FirstPush.onlyOn {b : Battery} {o : Outcome CreateError Battery}
    (h : FirstPush order b o calls) : OnlyOn b.handle.fd calls := by
  cases h with
  | pushed hb hw => exact hw.onlyOn
  | pushing hb hw => exact hw.onlyOn
  | undone hb hw hd => exact hw.onlyOn.append hd.onlyOn

theorem Created.onlyOn {o : Outcome CreateError Battery}
    (h : Created order handle identity kind reading o calls) : OnlyOn handle.fd calls := by
  cases h with
  | invalid hv => exact .nil handle.fd
  | refused hv hb hw => exact hw.onlyOn
  | creating hv hb hw => exact hw.onlyOn
  | created hv hb hw hp => exact hw.onlyOn.append hp.onlyOn

theorem Destroyed.ok_handle {handle' : Handle}
    (h : Destroyed order handle (.ok handle' : Outcome ε Handle) calls) : handle' = handle := by
  generalize ho : (Outcome.ok handle' : Outcome ε Handle) = o at h
  cases h with
  | writing hb hw => cases ho
  | @drained _ _ o' _ _ _ _ _ _ =>
    cases o' <;> cases ho
    rfl

/-- A failed `create` gives back the handle it was given. -/
theorem Created.err_handle {e : CreateError}
    (h : Created order handle identity kind reading (.err e) calls) : e.handle = handle := by
  generalize ho : (Outcome.err e : Outcome CreateError Battery) = o at h
  cases h with
  | invalid hv => cases ho; rfl
  | refused hv hb hw => cases ho; rfl
  | creating hv hb hw => cases ho
  | created hv hb hw hp =>
    cases hp with
    | pushed hb' hw' => cases ho
    | pushing hb' hw' => cases ho
    | @undone buf source o calls calls' hb' hw' hd =>
      cases o with
      | ok handle' =>
        cases ho
        exact hd.ok_handle
      | err e' => exact absurd rfl (hd.ne_err e')
      | panic => cases ho
      | pending => cases ho

end Same

end UhidBattery
