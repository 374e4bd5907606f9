import UhidBattery.Reuse
import UhidBattery.Published
import UhidBattery.ReportLen
import UhidBattery.Lib.HidFields

/-!
# What the reports mean

The kernel reads a report by the descriptor of the `CREATE2` it took last.

* `reportOf_means`: what the descriptor of a kind makes of a battery's report.
* `Owns.tells`: what one step tells the kernel, through that descriptor.
* `reports_mean`: over any number of devices, of any kinds, every level that is
  told means the reading asked for.
-/

namespace UhidBattery

open Record (ByteOrder leValue)
open Program (Outcome)
open HidItems (Usage InputField encodeAll fieldsOf fieldFor usageValue readItems inputBits Tiles)
open Runs (Along)

/-! ## The size of a report -/

/-- **The size of a report is the room that its fields take**: `input_report_len`
gives one exactly for the bytes that are whole items, and whose fields for the
report are not empty. -/
theorem inputReportLen_fields (descriptor : List UInt8) (wanted : UInt8) (n : Nat) :
    inputReportLen descriptor wanted = .ok n ↔
      (∃ items, encodeAll items = descriptor) ∧
        ∃ bits, Tiles 0 (fieldsOf descriptor wanted) bits ∧ 0 < bits ∧ bits < 2 ^ 64 ∧
          n = 1 + (bits + 7) / 8 := by
  rw [inputReportLen_eq_ok_iff]
  constructor
  · rintro ⟨items, ⟨rfl, hpos, hlt, rfl⟩, -⟩
    refine ⟨⟨items, rfl⟩, _, ?_, hpos, hlt, rfl⟩
    rw [HidItems.fieldsOf_encodeAll]
    exact HidItems.inputFields_tiles wanted.toNat items
  · rintro ⟨⟨items, rfl⟩, bits, htiles, hpos, hlt, rfl⟩
    rw [HidItems.fieldsOf_encodeAll] at htiles
    obtain rfl := htiles.unique (HidItems.inputFields_tiles wanted.toNat items)
    exact ⟨items, ⟨rfl, hpos, hlt, rfl⟩, fun items' h => HidItems.encodeAll_injective h.1⟩

/-! ## Readings by a descriptor -/

/-- `Battery Strength`, of the Generic Device Controls page. -/
def usageStrength : Usage := ⟨0x06, 0x20⟩

/-- `Charging`, of the Battery System page. -/
def usageCharging : Usage := ⟨0x85, 0x44⟩

/-- Fields of a report, whose first byte is its ID. -/
def reportFields (descriptor data : List UInt8) : List InputField :=
  (data.head?.map (fieldsOf descriptor)).getD []

/-- What a report means: the level and the charging bit, within their bounds, in
whole bytes, the level first; nothing else is ever set. -/
structure Means (descriptor : List UInt8) (reading : Reading) (data : List UInt8) : Prop where
  strength : usageValue descriptor usageStrength data = some ↑(min reading.percent 100).toNat
  charging : usageValue descriptor usageCharging data = some (if reading.charging then 1 else 0)
  bounded : ∀ field ∈ reportFields descriptor data,
    field.minimum ≤ field.value (leValue data.tail) ∧
      field.value (leValue data.tail) ≤ field.maximum
  unset : ∀ field ∈ reportFields descriptor data,
    field.usage ≠ some usageStrength → field.usage ≠ some usageCharging →
      field.value (leValue data.tail) = 0
  first : data[1]? = some (min reading.percent 100)
  whole : Tiles 0 (reportFields descriptor data) (8 * data.tail.length)

def strengthField : InputField := ⟨some usageStrength, false, 0, 100, 0, 8⟩
def chargingField : InputField := ⟨some usageCharging, false, 0, 1, 8, 1⟩

/-- What fills the byte of the charging bit: padding, and a vendor-defined bit where
the input node has nothing else to live by. -/
def Kind.filling : Kind → List InputField
  | mouse => [⟨none, true, 0, 1, 9, 7⟩]
  | generic | headset => [⟨some ⟨0xff21, 2⟩, false, 0, 1, 9, 1⟩, ⟨none, true, 0, 1, 10, 6⟩]

/-- The fields of the battery's report. -/
def Kind.fields (kind : Kind) : List InputField := strengthField :: chargingField :: kind.filling

/-- The values of these fields. -/
def Kind.values (kind : Kind) (level bit : Nat) : List Nat :=
  level :: bit :: List.replicate kind.filling.length 0

/-! ## The report of a battery -/

section Fields

variable (kind : Kind)

theorem fieldsOf_descriptor : fieldsOf kind.descriptor kind.reportId = kind.fields := by
  cases kind <;> decide +kernel

theorem fieldFor_strength :
    fieldFor kind.descriptor kind.reportId usageStrength = some strengthField := by
  rw [fieldFor, fieldsOf_descriptor]
  rfl

theorem fieldFor_charging :
    fieldFor kind.descriptor kind.reportId usageCharging = some chargingField := by
  rw [fieldFor, fieldsOf_descriptor]
  rfl

theorem usageValue_strength (data : List UInt8) :
    usageValue kind.descriptor usageStrength (kind.reportId :: data) =
      some (strengthField.value (leValue data)) :=
  congrArg (Option.map (InputField.value · (leValue data))) (fieldFor_strength kind)

theorem usageValue_charging (data : List UInt8) :
    usageValue kind.descriptor usageCharging (kind.reportId :: data) =
      some (chargingField.value (leValue data)) :=
  congrArg (Option.map (InputField.value · (leValue data))) (fieldFor_charging kind)

theorem Kind.fields_tile : Tiles 0 kind.fields 16 := by
  have h := HidItems.inputFields_tiles kind.reportId.toNat
    (readItems kind.descriptor.length kind.descriptor)
  have hbits : inputBits kind.reportId.toNat
      (readItems kind.descriptor.length kind.descriptor) = 16 := by
    cases kind <;> decide +kernel
  rw [hbits] at h
  rw [← fieldsOf_descriptor]
  exact h

/-- The fields are unsigned. -/
theorem Kind.minimum_eq : ∀ field ∈ kind.fields, field.minimum = 0 := by
  cases kind <;> decide

theorem Kind.filling_maximum : ∀ field ∈ kind.filling, field.maximum = 1 := by
  cases kind <;> decide

theorem Kind.filling_usage : ∀ field ∈ kind.filling,
    field.usage ≠ some usageStrength ∧ field.usage ≠ some usageCharging := by
  cases kind <;> decide

theorem Kind.values_fit {level bit : Nat} (hl : level < 256) (hb : bit < 2) :
    List.Forall₂ (fun (field : InputField) v => v < 2 ^ field.size) kind.fields
      (kind.values level bit) := by
  refine .cons hl (.cons hb ?_)
  cases kind <;> simp [Kind.filling, List.replicate]

/-- Two bytes are the fields packed. -/
theorem Kind.pack_values (level bit : UInt8) :
    HidItems.pack kind.fields (kind.values level.toNat bit.toNat) = leValue [level, bit] := by
  have hnone : HidItems.pack kind.filling (List.replicate kind.filling.length 0) = 0 := by
    cases kind <;> rfl
  simp only [Kind.fields, Kind.values, HidItems.pack, hnone]
  rfl

/-- **What the fields of two bytes hold.** -/
theorem Kind.raw_eq (level bit : UInt8) (hb : bit.toNat < 2) :
    kind.fields.map (InputField.raw · (leValue [level, bit])) =
      kind.values level.toNat bit.toNat := by
  have h := kind.fields_tile.raw_pack (kind.values_fit level.toNat_lt hb) (Nat.two_pow_pos 0)
  rw [kind.pack_values, Nat.pow_zero, Nat.one_mul, Nat.zero_add] at h
  exact h

theorem Kind.value_eq {kind : Kind} {field : InputField} (h : field ∈ kind.fields) (n : Nat) :
    field.value n = field.raw n := by
  rw [InputField.value, kind.minimum_eq field h]
  rfl

/-- What each of the fields means. -/
theorem Kind.meanings (level : UInt8) {bit : UInt8} (hb : bit.toNat < 2) :
    strengthField.value (leValue [level, bit]) = level.toNat ∧
      chargingField.value (leValue [level, bit]) = bit.toNat ∧
      ∀ field ∈ kind.filling, field.value (leValue [level, bit]) = 0 := by
  have hraw := kind.raw_eq level bit hb
  obtain ⟨hstrength, hrest⟩ := List.cons.inj hraw
  obtain ⟨hcharging, hfilling⟩ := List.cons.inj hrest
  have hmem : ∀ field ∈ kind.filling, field ∈ kind.fields :=
    fun field h => List.mem_cons_of_mem _ (List.mem_cons_of_mem _ h)
  refine ⟨?_, ?_, fun field hfield => ?_⟩
  · have hmem₁ : strengthField ∈ kind.fields := List.mem_cons_self
    exact (Kind.value_eq hmem₁ _).trans (congrArg Nat.cast hstrength)
  · have hmem₂ : chargingField ∈ kind.fields := List.mem_cons_of_mem _ List.mem_cons_self
    exact (Kind.value_eq hmem₂ _).trans (congrArg Nat.cast hcharging)
  · have hzero : field.raw (leValue [level, bit]) ∈ List.replicate kind.filling.length 0 := by
      rw [← hfilling]
      exact List.mem_map_of_mem hfield
    rw [Kind.value_eq (hmem field hfield), List.eq_of_mem_replicate hzero]
    rfl

end Fields

/-- **The report of a reading means that reading**, by the descriptor of any kind. -/
theorem reportOf_means (kind : Kind) (reading : Reading) :
    Means kind.descriptor reading (reportOf kind reading.clamped) := by
  have hle : (min reading.percent 100).toNat ≤ 100 := reading.clamped_percent_le
  have hbit : (if reading.charging then 1 else 0 : UInt8).toNat =
      if reading.charging then 1 else 0 := by
    cases reading.charging <;> rfl
  have hlt : (if reading.charging then 1 else 0 : UInt8).toNat < 2 := by
    rw [hbit]
    split <;> omega
  obtain ⟨hstrength, hcharging, hfilling⟩ := kind.meanings (min reading.percent 100) hlt
  have hfields : reportFields kind.descriptor (reportOf kind reading.clamped) = kind.fields :=
    fieldsOf_descriptor kind
  have htail : (reportOf kind reading.clamped).tail =
      [min reading.percent 100, if reading.charging then 1 else 0] := rfl
  rw [hbit] at hcharging
  constructor
  case first => rfl
  case whole =>
    rw [hfields, htail]
    exact kind.fields_tile
  case strength => exact (usageValue_strength kind _).trans (congrArg some hstrength)
  case charging =>
    refine (usageValue_charging kind _).trans (congrArg some (hcharging.trans ?_))
    cases reading.charging <;> rfl
  case bounded =>
    rw [hfields, htail]
    intro field hfield
    rw [kind.minimum_eq field hfield]
    rcases List.mem_cons.mp hfield with rfl | hfield
    · rw [hstrength]
      exact ⟨Int.natCast_nonneg _, Int.ofNat_le.mpr hle⟩
    · rcases List.mem_cons.mp hfield with rfl | hfield
      · rw [hcharging]
        cases reading.charging <;> decide
      · rw [hfilling field hfield, kind.filling_maximum field hfield]
        decide
  case unset =>
    rw [hfields, htail]
    intro field hfield hs hc
    rcases List.mem_cons.mp hfield with rfl | hfield
    · exact absurd rfl hs
    · rcases List.mem_cons.mp hfield with rfl | hfield
      · exact absurd rfl hc
      · exact hfilling field hfield

theorem leValue_pair_inj {a b a' b' : UInt8} (h : leValue [a, b] = leValue [a', b']) :
    a = a' ∧ b = b' := by
  have ha := a.toNat_lt
  have ha' := a'.toNat_lt
  have h' : a.toNat + 256 * b.toNat = a'.toNat + 256 * b'.toNat := h
  rw [← UInt8.toNat_inj, ← UInt8.toNat_inj]
  omega

/-- **No other report means a reading**: among the reports with the battery's ID. -/
theorem means_iff (kind : Kind) (reading : Reading) (data : List UInt8) :
    Means kind.descriptor reading (kind.reportId :: data) ↔
      kind.reportId :: data = reportOf kind reading.clamped := by
  refine ⟨fun h => ?_, fun h => h ▸ reportOf_means kind reading⟩
  have hr : Means kind.descriptor reading
      (kind.reportId :: (reportOf kind reading.clamped).tail) := reportOf_means kind reading
  have hfields (data : List UInt8) :
      reportFields kind.descriptor (kind.reportId :: data) = kind.fields :=
    fieldsOf_descriptor kind
  have hlen : 8 * data.length = 16 := by
    have hwhole := h.whole
    rw [hfields] at hwhole
    exact hwhole.unique kind.fields_tile
  obtain ⟨a, b, rfl⟩ : ∃ a b, data = [a, b] := by
    match data, hlen with
    | [a, b], _ => exact ⟨a, b, rfl⟩
  have hstrength := h.strength.trans hr.strength.symm
  have hcharging := h.charging.trans hr.charging.symm
  rw [usageValue_strength, usageValue_strength, Option.some.injEq] at hstrength
  rw [usageValue_charging, usageValue_charging, Option.some.injEq] at hcharging
  have hraw : ∀ field ∈ kind.fields, field.raw (leValue [a, b]) =
      field.raw (leValue (reportOf kind reading.clamped).tail) := by
    intro field hfield
    have hvalue : field.value (leValue [a, b]) =
        field.value (leValue (reportOf kind reading.clamped).tail) := by
      rcases List.mem_cons.mp hfield with rfl | hmem
      · exact hstrength
      · rcases List.mem_cons.mp hmem with rfl | hmem
        · exact hcharging
        · obtain ⟨hs, hc⟩ := kind.filling_usage field hmem
          rw [← hfields] at hfield
          exact (h.unset field hfield hs hc).trans (hr.unset field hfield hs hc).symm
    rw [Kind.value_eq hfield, Kind.value_eq hfield] at hvalue
    exact Int.ofNat_inj.mp hvalue
  have hle := kind.fields_tile.eq_of_raw (HidItems.leValue_lt_two_pow [a, b])
    (HidItems.leValue_lt_two_pow (reportOf kind reading.clamped).tail) hraw
  obtain ⟨rfl, rfl⟩ := leValue_pair_inj hle
  rfl

/-! ## What the kernel is told -/

def Fake.Sent.descriptor? : Fake.Sent → Option (List UInt8)
  | .create2 _ _ _ _ _ _ descriptor => some descriptor
  | _ => none

/-- The descriptor in force after some messages. -/
def descriptorAfter (known : Option (List UInt8)) (messages : List Fake.Sent) :
    Option (List UInt8) :=
  messages.foldl (fun known m => m.descriptor?.or known) known

/-- Every level among the messages means the reading asked for, by the descriptor
in force when it is told. -/
def Meant (asked : Option Reading) : Option (List UInt8) → List Fake.Sent → Prop
  | _, [] => True
  | known, m :: messages =>
    (∀ data, m.level? = some data →
      ∃ descriptor ∈ known, ∃ reading ∈ asked, Means descriptor reading data) ∧
    Meant asked (m.descriptor?.or known) messages

theorem descriptorAfter_append (known : Option (List UInt8)) (s t : List Fake.Sent) :
    descriptorAfter known (s ++ t) = descriptorAfter (descriptorAfter known s) t :=
  List.foldl_append

theorem meant_append {asked : Option Reading} {known : Option (List UInt8)}
    {s t : List Fake.Sent} (hs : Meant asked known s)
    (ht : Meant asked (descriptorAfter known s) t) : Meant asked known (s ++ t) := by
  induction s generalizing known with
  | nil => exact ht
  | cons m s ih => exact ⟨hs.1, ih hs.2 ht⟩

/-- Messages that neither introduce a device nor tell anything but one report. -/
theorem meant_of_level {asked : Option Reading} {known : Option (List UInt8)} {kind : Kind}
    {reading : Reading} {messages : List Fake.Sent} (hknown : known = some kind.descriptor)
    (hasked : asked = some reading) (hquiet : ∀ m ∈ messages, m.descriptor? = none)
    (hlevel : ∀ m ∈ messages, ∀ data, m.level? = some data →
      data = reportOf kind reading.clamped) :
    Meant asked known messages ∧ descriptorAfter known messages = known := by
  induction messages with
  | nil => exact ⟨trivial, rfl⟩
  | cons m messages ih =>
    obtain ⟨hmeant, hafter⟩ := ih (fun m hm => hquiet m (List.mem_cons_of_mem _ hm))
      fun m hm => hlevel m (List.mem_cons_of_mem _ hm)
    have hsame : m.descriptor?.or known = known := by
      rw [hquiet m List.mem_cons_self, Option.none_or]
    refine ⟨⟨fun data hdata => ?_, ?_⟩, ?_⟩
    · rw [hlevel m List.mem_cons_self data hdata]
      exact ⟨_, hknown, _, hasked, reportOf_means kind reading⟩
    · rw [hsame]
      exact hmeant
    · rw [descriptorAfter, List.foldl_cons, hsame]
      exact hafter

theorem meant_of_silent {asked : Option Reading} {known : Option (List UInt8)}
    {messages : List Fake.Sent} (h : ∀ m ∈ messages, m.level? = none) :
    Meant asked known messages := by
  induction messages generalizing known with
  | nil => trivial
  | cons m messages ih =>
    refine ⟨fun data hdata => ?_, ih fun m hm => h m (List.mem_cons_of_mem _ hm)⟩
    rw [h m List.mem_cons_self] at hdata
    cases hdata

/-! ## Calls -/

section Calls

variable {order : ByteOrder} {fd : Fd} {known : Option (List UInt8)} {asked : Option Reading}
  {calls : List Entry}

/-- A message that is taken whole, or not at all. -/
theorem Written.meant {event : Buffer} {o : Outcome IoError Unit} {m : Fake.Sent}
    (h : Written fd event o calls) (hb : sentOf order event = m) (hm : Meant asked known [m]) :
    Meant asked known (sent order fd calls) := by
  rcases h.message_cases hb with ⟨-, hs⟩ | ⟨-, hs⟩
  · rw [hs]
    exact hm
  · rw [hs]
    trivial

theorem Destroyed.meant {ε : Type} {handle : Handle} {o : Outcome ε Handle}
    (h : Destroyed order handle o calls) : Meant asked known (sent order handle.fd calls) := by
  have hdestroy : Meant asked known [.destroy] := meant_of_silent (by simp [Fake.Sent.level?])
  cases h with
  | writing hb hw => exact hw.meant hb hdestroy
  | drained hb hw ho hd =>
    rw [sent_append, sent_of_writes (hd.writes_eq_nil _), List.append_nil]
    exact hw.meant hb hdestroy

theorem meant_report {known : Option (List UInt8)} (kind : Kind) (reading : Reading)
    (hknown : known = some kind.descriptor) :
    Meant (some reading) known [.input2 (reportOf kind reading.clamped)] :=
  (meant_of_level hknown rfl (by simp [Fake.Sent.descriptor?])
    (by simp [Fake.Sent.level?])).1

theorem FirstPush.meant {b : Battery} {o : Outcome CreateError Battery} {reading : Reading}
    (h : FirstPush order b o calls) (hr : b.report = reportOf b.kind reading.clamped)
    (hknown : known = some b.kind.descriptor) :
    Meant (some reading) known (sent order b.handle.fd calls) := by
  have hreport := meant_report b.kind reading hknown
  rw [← hr] at hreport
  cases h with
  | pushed hb hw => exact hw.meant hb hreport
  | pushing hb hw => exact hw.meant hb hreport
  | undone hb hw hd =>
    rw [sent_append]
    exact meant_append (hw.meant hb hreport) hd.meant

/-- **What `create` tells**, whatever becomes of it. -/
theorem Created.meant {handle : Handle} {identity : Identity} {kind : Kind} {reading : Reading}
    {o : Outcome CreateError Battery} (h : Created order handle identity kind reading o calls) :
    Meant (some reading) known (sent order handle.fd calls) := by
  have hcreate : Meant (some reading) known [identity.message kind] :=
    meant_of_silent (by simp [Identity.message, Fake.Sent.level?])
  cases h with
  | invalid hv => trivial
  | refused hv hb hw => exact hw.meant hb hcreate
  | creating hv hb hw => exact hw.meant hb hcreate
  | created hv hb hw hp =>
    have hsent : sent order handle.fd _ = [identity.message kind] :=
      (hw.message_cases hb).elim And.right fun h => absurd rfl h.1
    rw [sent_append, hsent]
    exact meant_append hcreate (hp.meant rfl rfl)

/-- A `create` that succeeds leaves the descriptor of its kind in force. -/
theorem Created.descriptorAfter {handle : Handle} {identity : Identity} {kind : Kind}
    {reading : Reading} {b : Battery}
    (h : Created order handle identity kind reading (.ok b) calls) :
    descriptorAfter known (sent order handle.fd calls) = some b.kind.descriptor := by
  obtain ⟨rfl, buf, buf', calls₁, calls₂, rfl, hb, hw, hb', hw'⟩ := h.new
  have hsent : sent order handle.fd calls₁ = [identity.message kind] :=
    (hw.message_cases hb).elim And.right fun h => absurd rfl h.1
  have hsent' : sent order handle.fd calls₂ = [.input2 _] :=
    (hw'.message_cases hb').elim And.right fun h => absurd rfl h.1
  rw [sent_append, hsent, hsent']
  rfl

theorem Battery.MaySay.descriptor? {b : Battery} {m : Fake.Sent} (h : b.MaySay m) :
    m.descriptor? = none := by
  rcases h with rfl | ⟨event, h⟩
  · rfl
  · cases event with
    | start => cases h
    | ignored => cases h
    | setReport id =>
      rw [← Option.some.inj h]
      rfl
    | getReport id rnum rtype =>
      rw [← Option.some.inj h]
      split <;> rfl

/-- A battery that only says what it may say. -/
theorem Battery.OnlySays.meant {b : Battery} {reading : Reading} (h : b.OnlySays order calls)
    (hr : b.reading = reading.clamped) (hknown : known = some b.kind.descriptor) :
    Meant (some reading) known (sent order b.handle.fd calls) ∧
      UhidBattery.descriptorAfter known (sent order b.handle.fd calls) = known := by
  refine meant_of_level hknown rfl (fun m hm => ?_) fun m hm data hdata => ?_
  · obtain ⟨x, hx, rfl⟩ := mem_sent hm
    exact (h x hx).descriptor?
  · obtain ⟨x, hx, rfl⟩ := mem_sent hm
    rw [(h x hx).level hdata, Battery.report, hr]

theorem Updated.meant {b b' : Battery} {reading : Reading} {o : Outcome IoError Unit}
    (h : Updated order b reading o calls b') (hknown : known = some b.kind.descriptor) :
    Meant (some reading) known (sent order b.handle.fd calls) ∧
      UhidBattery.descriptorAfter known (sent order b.handle.fd calls) = known := by
  rcases h.sent_cases with ⟨-, hs⟩ | ⟨-, hs⟩
  · rw [hs]
    exact ⟨meant_report b.kind reading hknown, rfl⟩
  · rw [hs]
    exact ⟨trivial, rfl⟩

end Calls

/-! ## The life of a handle -/

/-- The descriptor in force on a file descriptor. -/
def inForce (order : ByteOrder) (fd : Fd) (w : World) : Option (List UInt8) :=
  descriptorAfter none (sent order fd w.history)

/-- The reading asked for, in a step to a state. -/
def LifeOp.asked : LifeOp → Owned → Option Reading
  | .create _ _ reading, _ => some reading
  | .call _, .device s => some s.asked
  | _, _ => none

/-- What a step told the kernel means what was asked for. -/
def Tells (E : Env) (fd : Fd) (s : Owned) (op : LifeOp) (s' : Owned) : Prop :=
  Meant (op.asked s') (inForce E.order fd s.world) (sent E.order fd (s.world.since s'.world))

/-- The kernel knows the descriptor of a battery, which has the reading asked for. -/
def Told (E : Env) (fd : Fd) : Owned → Prop
  | .free handle _ => handle.fd = fd
  | .device s => s.battery.handle.fd = fd ∧
      inForce E.order fd s.world = some s.battery.kind.descriptor ∧
      (s.returned → s.battery.reading = s.asked.clamped)
  | .inside _ => True

section Life

variable {E : Env} {fd : Fd}

theorem Ran.inForce {w w' : World} {calls : List Entry} (h : Ran E w calls w') :
    inForce E.order fd w' = descriptorAfter (UhidBattery.inForce E.order fd w)
      (sent E.order fd calls) := by
  rw [UhidBattery.inForce, h.history, sent_append, descriptorAfter_append]
  rfl

theorem Step.tells {s s' : InUse} {op : Op} (h : Step E s op s') (hs : Told E fd (.device s)) :
    Told E fd (.device s') ∧ Tells E fd (.device s) (.call op) (.device s') := by
  obtain ⟨rfl, hknown, hreading⟩ := hs
  rcases h.cases with
    ⟨reading, o, b, w, calls, rfl, hran, hu, rfl⟩ | ⟨-, hasked, ⟨slot, hb⟩, calls, hran, hsaid⟩
  · obtain ⟨hmeant, hafter⟩ := hu.meant hknown
    obtain ⟨hh, hk⟩ := hu.same
    refine ⟨⟨by rw [hh], ?_, hu.stored⟩, ?_⟩
    · rw [hk, ← hknown, ← hafter]
      exact hran.inForce
    · rw [Tells, Owned.world, Owned.world, hran.since]
      exact hmeant
  · have hread := hreading h.returned
    obtain ⟨hmeant, hafter⟩ := hsaid.meant hread hknown
    have hb' : s'.battery = s.battery.withRepush slot := hb
    refine ⟨⟨by rw [hb', withRepush_handle], ?_, fun _ => ?_⟩, ?_⟩
    · rw [hb', withRepush_kind, ← hknown, ← hafter]
      exact hran.inForce
    · rw [hb', withRepush_reading, hasked]
      exact hread
    · rw [Tells, Owned.world, Owned.world, hran.since, LifeOp.asked, hasked]
      exact hmeant

/-- **What one step tells the kernel.** -/
theorem Owns.tells {s s' : Owned} {op : LifeOp} (h : Owns E s op s') (hs : Told E fd s) :
    Told E fd s' ∧ Tells E fd s op s' := by
  cases h with
  | @created rounds handle identity kind reading b w w' h =>
    obtain ⟨hran, hc⟩ := create_since h
    obtain rfl := hs
    refine ⟨⟨?_, ?_, fun _ => ?_⟩, hc.meant⟩
    · rw [hc.new.1]
      rfl
    · exact hran.inForce.trans hc.descriptorAfter
    · rw [hc.new.1]
      rfl
  | refused h =>
    obtain ⟨hran, hc⟩ := create_since h
    obtain rfl := hs
    exact ⟨congrArg Handle.fd hc.err_handle, hc.meant⟩
  | creating h ho =>
    obtain ⟨hran, hc⟩ := create_since h
    obtain rfl := hs
    exact ⟨trivial, hc.meant⟩
  | call h => exact h.tells hs
  | destroyed hret h =>
    obtain ⟨hran, hd⟩ := destroy_since h
    obtain ⟨rfl, -⟩ := hs
    exact ⟨congrArg Handle.fd hd.ok_handle, hd.meant⟩
  | destroying hret h ho =>
    obtain ⟨hran, hd⟩ := destroy_since h
    obtain ⟨rfl, -⟩ := hs
    exact ⟨trivial, hd.meant⟩
  | @elsewhere handle w w' calls h hr hw =>
    obtain rfl := hs
    refine ⟨rfl, ?_⟩
    rw [Tells, Owned.world, Owned.world, h.since, sent_of_writes hw]
    trivial

/-- **Every level the kernel is told means the reading asked for**, read by the
descriptor it was given last: over every life of a handle, through any number of
devices of any kinds, and failures. -/
theorem reports_mean (E : Env) (handle : Handle) (w : World) (run : List (LifeOp × Owned))
    (hrun : Along (Owns E) (.free handle w) run) :
    Along (Tells E handle.fd) (.free handle w) run := by
  have hall := hrun.with_invariant (P := Told E handle.fd) rfl fun _ _ _ h hs => (h.tells hs).1
  exact hall.imp fun s op s' h => (h.2.tells h.1).2

/-- A mouse created on a system at rest. -/
theorem reports_mean_mouse :
    ∃ s, Along (Tells (.calm .little 0) 3) (.free ⟨3⟩ ⟨fun _ => [], []⟩)
      [(.create (.new "Mouse" "mouse-1") .mouse ⟨150, true⟩, s)] := by
  obtain ⟨w, hcreate, -⟩ := create_of_took (.calm .little 0) 0 ⟨3⟩ (.new "Mouse" "mouse-1") .mouse
    ⟨150, true⟩ ⟨fun _ => [], []⟩ (by decide) fun _ _ _ => rfl
  have hrun : Along (Owns (.calm .little 0)) (.free ⟨3⟩ ⟨fun _ => [], []⟩)
      [(.create (.new "Mouse" "mouse-1") .mouse ⟨150, true⟩, _)] := ⟨.created hcreate, trivial⟩
  exact ⟨_, reports_mean (.calm .little 0) ⟨3⟩ ⟨fun _ => [], []⟩ _ hrun⟩

end Life

end UhidBattery
