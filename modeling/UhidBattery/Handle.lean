import UhidBattery.System
import UhidBattery.Lib.Program

/-!
# An open `/dev/uhid`

`write` tries again for as long as a signal interrupts it; `read` takes an
interruption for an empty queue; `drain` reads until it gets nothing.  Every
loop of the model is given a number of `rounds`, after which the call is left
`pending`.

* `write_spec`: the calls a write makes, and how its outcome follows from them.
* `read_eq`: a read is one call.
* `drain_spec`: a drain reads up to the first read that gives no event.
-/

namespace UhidBattery

open Program (Outcome loop attempt fail ofOutcome)
open Record (ByteOrder)

@[ext]
structure Handle where
  fd : Fd
  deriving DecidableEq, Repr

/-! ## The operations -/

section Operations

variable {ε : Type} (E : Env) (rounds : Nat)

/-- One `write()`: nothing when it has to be made again. -/
def Handle.writeOnce (self : Handle) (event : Buffer) : Program World IoError (Option Nat) := do
  match ← sysWrite E self.fd event with
  | .fails .intr => pure none
  | .fails e => fail (.os e)
  | .took written => pure (some written)

def Handle.write (self : Handle) (event : Buffer) : Program World IoError Unit := do
  let written ← loop (self.writeOnce E event) rounds
  if written = eventSize then pure ()
  else fail (.custom .writeZero s!"short write to uhid: {written} of {eventSize} bytes")

/-- The next pending event, `none` when the queue is empty. -/
def Handle.read (self : Handle) : Program World IoError (Option Event) := do
  match ← sysRead E self.fd with
  | .eof | .failed .again | .failed .intr => pure none
  | .failed e => fail (.os e)
  | .delivered buf => do
    let event ← ofOutcome (decode E.order buf)
    pure (some event)

def Handle.drainOnce (self : Handle) : Program World ε (Option Unit) := do
  match ← attempt (self.read E) with
  | .ok (some _) => pure none
  | _ => pure (some ())

/-- `while let Ok(Some(_)) = self.read() {}`. -/
def Handle.drain (self : Handle) : Program World ε Unit := loop (self.drainOnce E) rounds

end Operations

/-! ## Writing -/

/-- Writes of `event` that were interrupted before a byte was taken. -/
def Interrupted (fd : Fd) (event : Buffer) (calls : List Entry) : Prop :=
  ∀ x ∈ calls, x.call = .write fd event (.fails .intr)

/-- What `write` makes of an answer that is no interruption. -/
def WriteAnswer.outcome : WriteAnswer → Outcome IoError Unit
  | took written =>
    if written = eventSize then .ok ()
    else .err (.custom .writeZero s!"short write to uhid: {written} of {eventSize} bytes")
  | fails e => .err (.os e)

/-- The calls of a write, by its outcome. -/
inductive Written (fd : Fd) (event : Buffer) : Outcome IoError Unit → List Entry → Prop where
  | answered (retries : List Entry) (x : Entry) (answer : WriteAnswer)
      (hr : Interrupted fd event retries) (hx : x.call = .write fd event answer)
      (ha : answer ≠ .fails .intr) : Written fd event answer.outcome (retries ++ [x])
  | waiting (retries : List Entry) (hr : Interrupted fd event retries) :
      Written fd event .pending retries

theorem Written.cons {fd : Fd} {event : Buffer} {o : Outcome IoError Unit} {calls : List Entry}
    {x : Entry} (hx : x.call = .write fd event (.fails .intr)) (h : Written fd event o calls) :
    Written fd event o (x :: calls) := by
  have hcons {retries : List Entry} (hr : Interrupted fd event retries) :
      Interrupted fd event (x :: retries) := List.forall_mem_cons.mpr ⟨hx, hr⟩
  cases h with
  | answered retries y answer hr hy ha => exact .answered _ y answer (hcons hr) hy ha
  | waiting retries hr => exact .waiting _ (hcons hr)

section Write

variable (E : Env) (self : Handle) (event : Buffer)

/-- One write, and the rest of the loop if it was interrupted. -/
theorem write_succ (rounds : Nat) (w : World) :
    self.write E (rounds + 1) event w =
      if E.write w.history self.fd event = .fails .intr then
        self.write E rounds event (w.next E (.write self.fd event (.fails .intr)))
      else ((E.write w.history self.fd event).outcome,
        w.next E (.write self.fd event (E.write w.history self.fd event))) := by
  have hone : self.writeOnce E event w = (match E.write w.history self.fd event with
      | .fails .intr => .ok none
      | .fails e => .err (.os e)
      | .took written => .ok (some written),
      w.next E (.write self.fd event (E.write w.history self.fd event))) := by
    unfold Handle.writeOnce
    rw [Program.bind_ok (show sysWrite E self.fd event w = _ from rfl)]
    rcases E.write w.history self.fd event with n | e
    · rfl
    · cases e <;> rfl
  unfold Handle.write
  rw [Program.bind_apply, Program.loop_succ_apply, hone]
  rcases E.write w.history self.fd event with n | e
  · rw [if_neg (by simp), WriteAnswer.outcome]
    simp only
    split <;> rfl
  · cases e with
    | intr => rw [if_pos rfl, Program.bind_apply]
    | again => rw [if_neg (by simp), WriteAnswer.outcome]
    | other code => rw [if_neg (by simp), WriteAnswer.outcome]

theorem write_of_took (rounds : Nat) {w : World}
    (h : E.write w.history self.fd event = .took eventSize) :
    self.write E (rounds + 1) event w =
      (.ok (), w.next E (.write self.fd event (.took eventSize))) := by
  rw [write_succ, h, if_neg (by simp), WriteAnswer.outcome, if_pos rfl]

theorem write_of_fails (rounds : Nat) {w : World} {e : Errno} (he : e ≠ .intr)
    (h : E.write w.history self.fd event = .fails e) :
    self.write E (rounds + 1) event w =
      (.err (.os e), w.next E (.write self.fd event (.fails e))) := by
  rw [write_succ, h, if_neg (by simpa using he), WriteAnswer.outcome]

/-- **What a write does**, whatever the system answers. -/
theorem write_spec (rounds : Nat) (w : World) :
    ∃ calls, Ran E w calls (self.write E rounds event w).2 ∧
      Written self.fd event (self.write E rounds event w).1 calls := by
  induction rounds generalizing w with
  | zero => exact ⟨[], Ran.nil w, Written.waiting [] (by simp [Interrupted])⟩
  | succ n ih =>
    rw [write_succ]
    split
    · rename_i ha
      obtain ⟨calls, hran, hw⟩ := ih (w.next E (.write self.fd event (.fails .intr)))
      have hg : Genuine E w (.write self.fd event (.fails .intr)) := ha.symm
      exact ⟨_, .cons hg hran, hw.cons (World.entry_call E w _)⟩
    · rename_i ha
      exact ⟨_, .single rfl,
        Written.answered [] _ _ (by simp [Interrupted]) (World.entry_call E w _) ha⟩

end Write

section Written

variable {fd : Fd} {event : Buffer} {o : Outcome IoError Unit} {calls : List Entry}

theorem WriteAnswer.outcome_eq_ok_iff (answer : WriteAnswer) :
    answer.outcome = .ok () ↔ answer = .took eventSize := by
  cases answer with
  | took n =>
    rw [WriteAnswer.outcome, WriteAnswer.took.injEq]
    split
    · rename_i h
      exact ⟨fun _ => h, fun _ => rfl⟩
    · rename_i h
      exact ⟨fun h' => (by cases h'), fun h' => absurd h' h⟩
  | fails e => simp [WriteAnswer.outcome]

theorem WriteAnswer.outcome_returned (answer : WriteAnswer) : answer.outcome.Returned := by
  cases answer with
  | took n =>
    rw [WriteAnswer.outcome]
    split <;> trivial
  | fails e => trivial

/-- Everything a write calls is a write of its event. -/
theorem Written.calls_write (h : Written fd event o calls) :
    ∀ x ∈ calls, ∃ answer, x.call = .write fd event answer := by
  intro y hy
  cases h with
  | answered retries x answer hr hx ha =>
    rcases List.mem_append.mp hy with hy | hy
    · exact ⟨_, hr y hy⟩
    · exact ⟨answer, by rw [List.mem_singleton.mp hy]; exact hx⟩
  | waiting retries hr => exact ⟨_, hr y hy⟩

theorem Interrupted.accepted_eq_nil {retries : List Entry} (hr : Interrupted fd event retries) :
    accepted fd retries = [] := by
  induction retries with
  | nil => rfl
  | cons x rest ih =>
    obtain ⟨hx, hrest⟩ := List.forall_mem_cons.mp hr
    rw [← List.singleton_append, accepted_append, ih hrest, List.append_nil]
    simp [accepted, writes, Entry.write?, hx]

theorem accepted_of_took {x : Entry} (hx : x.call = .write fd event (.took eventSize)) :
    accepted fd [x] = [(x.time, event)] := by
  rw [accepted, writes_of_write hx]
  rfl

/-- The event is taken once when the write succeeds, and not at all otherwise. -/
theorem Written.accepted_cases (h : Written fd event o calls) :
    (o = .ok () ∧ ∃ t, accepted fd calls = [(t, event)]) ∨ (o ≠ .ok () ∧ accepted fd calls = []) := by
  cases h with
  | answered retries x answer hr hx ha =>
    rw [accepted_append, hr.accepted_eq_nil, List.nil_append, ne_eq, WriteAnswer.outcome_eq_ok_iff]
    by_cases htook : answer = .took eventSize
    · rw [htook] at hx
      exact Or.inl ⟨htook, x.time, accepted_of_took hx⟩
    · exact Or.inr ⟨htook, by simp [accepted, writes, Entry.write?, hx, htook, -eventSize]⟩
  | waiting retries hr => exact Or.inr ⟨by simp, hr.accepted_eq_nil⟩

theorem Written.sent_cases (order : ByteOrder) (h : Written fd event o calls) :
    (o = .ok () ∧ sent order fd calls = [sentOf order event]) ∨
      (o ≠ .ok () ∧ sent order fd calls = []) := by
  rcases h.accepted_cases with ⟨ho, t, ht⟩ | ⟨ho, ht⟩
  · exact Or.inl ⟨ho, by rw [sent, ht]; rfl⟩
  · exact Or.inr ⟨ho, by rw [sent, ht]; rfl⟩

theorem Written.ne_panic (h : Written fd event o calls) : o ≠ .panic := by
  cases h with
  | answered retries x answer hr hx ha =>
    intro hp
    have hret := answer.outcome_returned
    rw [hp] at hret
    exact hret
  | waiting retries hr => simp

end Written

/-! ## Calls on one descriptor -/

/-- A read, a write, or a look at the clock. -/
def Entry.On (fd : Fd) (x : Entry) : Prop :=
  (∃ result, x.call = .read fd result) ∨ (∃ event answer, x.call = .write fd event answer) ∨
    x.call = .now

/-- Nothing but the descriptor and the clock was used. -/
def OnlyOn (fd : Fd) (calls : List Entry) : Prop := ∀ x ∈ calls, x.On fd

theorem OnlyOn.nil (fd : Fd) : OnlyOn fd [] := by simp [OnlyOn]

theorem OnlyOn.append {fd : Fd} {s t : List Entry} (hs : OnlyOn fd s) (ht : OnlyOn fd t) :
    OnlyOn fd (s ++ t) := by
  intro x hx
  rcases List.mem_append.mp hx with hx | hx
  · exact hs x hx
  · exact ht x hx

theorem OnlyOn.read {fd : Fd} {x : Entry} {result : ReadResult} (hx : x.call = .read fd result) :
    OnlyOn fd [x] := by
  intro y hy
  rw [List.mem_singleton.mp hy]
  exact Or.inl ⟨result, hx⟩

theorem OnlyOn.now (fd : Fd) {x : Entry} (hx : x.call = .now) : OnlyOn fd [x] := by
  intro y hy
  rw [List.mem_singleton.mp hy]
  exact Or.inr (Or.inr hx)

theorem Written.onlyOn {fd : Fd} {event : Buffer} {o : Outcome IoError Unit} {calls : List Entry}
    (h : Written fd event o calls) : OnlyOn fd calls := by
  intro x hx
  obtain ⟨answer, hc⟩ := h.calls_write x hx
  exact Or.inr (Or.inl ⟨event, answer, hc⟩)

/-- The other descriptors see nothing of it. -/
theorem OnlyOn.others {fd fd' : Fd} {calls : List Entry} (h : OnlyOn fd calls) (hne : fd' ≠ fd) :
    reads fd' calls = [] ∧ writes fd' calls = [] := by
  constructor
  · apply List.filterMap_eq_nil_iff.mpr
    intro x hx
    rcases h x hx with ⟨result, hc⟩ | ⟨event, answer, hc⟩ | hc <;>
      simp [Entry.read?, hc, hne.symm]
  · apply List.filterMap_eq_nil_iff.mpr
    intro x hx
    rcases h x hx with ⟨result, hc⟩ | ⟨event, answer, hc⟩ | hc <;>
      simp [Entry.write?, hc, hne.symm]

theorem Written.reads_eq_nil {fd : Fd} {event : Buffer} {o : Outcome IoError Unit}
    {calls : List Entry} (h : Written fd event o calls) (fd' : Fd) : reads fd' calls = [] := by
  apply List.filterMap_eq_nil_iff.mpr
  intro x hx
  obtain ⟨answer, hc⟩ := h.calls_write x hx
  simp [Entry.read?, hc]

theorem Written.delivered_eq_nil {fd : Fd} {event : Buffer} {o : Outcome IoError Unit}
    {calls : List Entry} (h : Written fd event o calls) (fd' : Fd) : delivered fd' calls = [] := by
  rw [delivered, h.reads_eq_nil]
  rfl

/-! ## Reading -/

/-- What `read` makes of the result of its call. -/
def ReadResult.outcome (order : ByteOrder) : ReadResult → Outcome IoError (Option Event)
  | delivered buf => .ok (some (eventOf order buf))
  | eof | failed .again | failed .intr => .ok none
  | failed e => .err (.os e)

section Read

variable (E : Env) (self : Handle)

/-- **A read is one call**, and never panics. -/
theorem read_eq (w : World) :
    self.read E w = ((w.readResult E self.fd).outcome E.order,
      w.next E (.read self.fd (w.readResult E self.fd))) := by
  unfold Handle.read
  rw [Program.bind_ok (show sysRead E self.fd w = _ from rfl)]
  rcases w.readResult E self.fd with buf | _ | e
  · change (ofOutcome (decode E.order buf) >>= fun event => pure (some event) :
      Program World IoError (Option Event)) _ = _
    rw [decode_eq]
    rfl
  · rfl
  · cases e <;> rfl

theorem ReadResult.outcome_eq_some_iff {order : ByteOrder} {result : ReadResult} {event : Event} :
    result.outcome order = .ok (some event) ↔
      ∃ buf, result = .delivered buf ∧ eventOf order buf = event := by
  rcases result with buf | _ | e
  · simp [ReadResult.outcome]
  · simp [ReadResult.outcome]
  · cases e <;> simp [ReadResult.outcome]

theorem ReadResult.outcome_returned (order : ByteOrder) (result : ReadResult) :
    (result.outcome order).Returned := by
  rcases result with buf | _ | e
  · trivial
  · trivial
  · cases e <;> trivial

/-- With reads that serve the queue, reading nothing means there is nothing. -/
theorem readResult_of_serve {w : World} {fd : Fd} (h : E.read w.history fd = .serve) :
    (∃ buf rest, w.queue fd ++ E.arrivals w.history fd = buf :: rest ∧
      w.readResult E fd = .delivered buf) ∨
    (w.queue fd ++ E.arrivals w.history fd = [] ∧ w.readResult E fd = .failed .again) := by
  rw [World.readResult, h]
  cases hq : w.queue fd ++ E.arrivals w.history fd with
  | nil => exact Or.inr ⟨rfl, rfl⟩
  | cons buf rest => exact Or.inl ⟨buf, rest, rfl, rfl⟩

theorem readResult_of_cons {w : World} {fd : Fd} {buf : Buffer} {rest : List Buffer}
    (h : E.read w.history fd = .serve) (hq : w.queue fd = buf :: rest) :
    w.readResult E fd = .delivered buf := by
  rw [World.readResult, h, hq]
  rfl

theorem readResult_of_nil {w : World} {fd : Fd} (h : E.read w.history fd = .serve)
    (hq : w.queue fd = []) (hquiet : E.arrivals w.history fd = []) :
    w.readResult E fd = .failed .again := by
  rw [World.readResult, h, hq, hquiet]
  rfl

end Read

/-! ## Draining -/

/-- The calls of a drain: reads that gave events, then one that gave none. -/
inductive Drained (fd : Fd) {ε : Type} : Outcome ε Unit → List Entry → Prop where
  | stopped (calls : List Entry) (x : Entry) (result : ReadResult)
      (hc : ∀ y ∈ calls, ∃ buf, y.call = .read fd (.delivered buf))
      (hx : x.call = .read fd result) (hr : result.event? = none) :
      Drained fd (.ok ()) (calls ++ [x])
  | draining (calls : List Entry) (hc : ∀ y ∈ calls, ∃ buf, y.call = .read fd (.delivered buf)) :
      Drained fd .pending calls

theorem Drained.cons {fd : Fd} {ε : Type} {o : Outcome ε Unit} {calls : List Entry} {x : Entry}
    {buf : Buffer} (hx : x.call = .read fd (.delivered buf)) (h : Drained fd o calls) :
    Drained fd o (x :: calls) := by
  have hcons {l : List Entry} (hc : ∀ y ∈ l, ∃ buf, y.call = .read fd (.delivered buf)) :
      ∀ y ∈ x :: l, ∃ buf, y.call = .read fd (.delivered buf) :=
    List.forall_mem_cons.mpr ⟨⟨buf, hx⟩, hc⟩
  cases h with
  | stopped calls y result hc hy hr => exact .stopped _ y result (hcons hc) hy hr
  | draining calls hc => exact .draining _ (hcons hc)

/-- One read, and the rest of the loop if it gave an event. -/
theorem drain_succ {ε : Type} (E : Env) (self : Handle) (rounds : Nat) (w : World) :
    (self.drain E (rounds + 1) : Program World ε Unit) w =
      if (w.readResult E self.fd).event?.isSome then
        self.drain E rounds (w.next E (.read self.fd (w.readResult E self.fd)))
      else (.ok (), w.next E (.read self.fd (w.readResult E self.fd))) := by
  have hone : (self.drainOnce E : Program World ε (Option Unit)) w =
      (.ok (if (w.readResult E self.fd).event?.isSome then none else some ()),
        w.next E (.read self.fd (w.readResult E self.fd))) := by
    unfold Handle.drainOnce
    rw [Program.bind_apply, Program.attempt_apply, read_eq]
    rcases w.readResult E self.fd with buf | _ | e
    · rfl
    · rfl
    · cases e <;> rfl
  unfold Handle.drain
  rw [Program.loop_succ_apply, hone]
  split_ifs <;> rfl

/-- **What a drain does**, whatever the reads give. -/
theorem drain_spec {ε : Type} (E : Env) (self : Handle) (rounds : Nat) (w : World) :
    ∃ calls, Ran E w calls ((self.drain E rounds : Program World ε Unit) w).2 ∧
      Drained self.fd ((self.drain E rounds : Program World ε Unit) w).1 calls := by
  induction rounds generalizing w with
  | zero => exact ⟨[], Ran.nil w, Drained.draining [] (by simp)⟩
  | succ n ih =>
    rw [drain_succ]
    split
    · rename_i hsome
      obtain ⟨calls, hran, hd⟩ := ih (w.next E (.read self.fd (w.readResult E self.fd)))
      rcases hr : w.readResult E self.fd with buf | _ | e
      · rw [hr] at hran hd
        have hg : Genuine E w (.read self.fd (.delivered buf)) := hr.symm
        exact ⟨_, .cons hg hran, hd.cons (World.entry_call E w _)⟩
      · rw [hr] at hsome
        cases hsome
      · rw [hr] at hsome
        cases hsome
    · rename_i hnone
      exact ⟨_, .single rfl, Drained.stopped [] _ _ (by simp) (World.entry_call E w _)
        (Option.not_isSome_iff_eq_none.mp hnone)⟩

theorem Drained.writes_eq_nil {ε : Type} {fd : Fd} {o : Outcome ε Unit} {calls : List Entry}
    (h : Drained fd o calls) (fd' : Fd) : writes fd' calls = [] := by
  cases h with
  | stopped calls x result hc hx hr =>
    rw [writes_append, writes_of_read hx, List.append_nil]
    apply List.filterMap_eq_nil_iff.mpr
    intro y hy
    obtain ⟨buf, hy⟩ := hc y hy
    rw [Entry.write?, hy]
  | draining calls hc =>
    apply List.filterMap_eq_nil_iff.mpr
    intro y hy
    obtain ⟨buf, hy⟩ := hc y hy
    rw [Entry.write?, hy]

end UhidBattery
