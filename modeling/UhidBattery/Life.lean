import UhidBattery.Answers
import UhidBattery.Level

/-!
# The life of a handle

A device on a handle is dead, fresh (created, and not spoken for yet) or running.
The writes to a handle go from one to the other; an order of writes that no
device could follow has no state at the end.

* `orderly_of_life`: what it means for the writes to have a state at the end.
* `Written.life`: a write that is not taken leaves the device as it was.
-/

namespace UhidBattery

open Record (ByteOrder)
open Program (Outcome)
open Runs (Along)

/-! ## Devices -/

inductive Life where
  | dead
  | fresh
  | running
  deriving DecidableEq, Repr

abbrev WriteEntry := Instant × Buffer × WriteAnswer

def WriteEntry.taken (x : WriteEntry) : Bool := decide (x.2.2 = .took eventSize)

/-- One write, taken or not: `none` when the device is not one to write it to. -/
def Life.next : Life → Fake.Sent → Bool → Option Life
  | .dead, .create2 _ _ _ _ _ _ _, taken => some (if taken then .fresh else .dead)
  | .fresh, .input2 _, _ => some .running
  | .running, .input2 _, _ => some .running
  | .running, .getReportReply _ _ _, _ => some .running
  | .running, .setReportReply _ _, _ => some .running
  | .running, .destroy, taken => some (if taken then .dead else .running)
  | _, _, _ => none

/-- The device after a list of writes. -/
def lifeAfter (order : ByteOrder) (life : Life) (ws : List WriteEntry) : Option Life :=
  ws.foldlM (fun life x => life.next (sentOf order x.2.1) (WriteEntry.taken x)) life

def Fake.Sent.isCreate2 : Fake.Sent → Bool
  | .create2 _ _ _ _ _ _ _ => true
  | _ => false

/-- The kernel's side of one write: `CREATE2` makes a device, `DESTROY` removes it. -/
def aliveNext (alive : Bool) (m : Fake.Sent) (taken : Bool) : Bool :=
  match m, taken with
  | .create2 _ _ _ _ _ _ _, true => true
  | .destroy, true => false
  | _, _ => alive

/-- Whether a device is alive after these writes. -/
def alive (order : ByteOrder) (ws : List WriteEntry) : Bool :=
  ws.foldl (fun alive x => aliveNext alive (sentOf order x.2.1) (WriteEntry.taken x)) false

def Life.isAlive : Life → Bool
  | .dead => false
  | _ => true

section Life

variable {order : ByteOrder} {life : Life} {s t ws : List WriteEntry} {x : WriteEntry}

theorem lifeAfter_append : lifeAfter order life (s ++ t) =
    lifeAfter order life s >>= fun life => lifeAfter order life t :=
  List.foldlM_append

@[simp] theorem lifeAfter_nil : lifeAfter order life [] = some life := rfl

theorem lifeAfter_singleton :
    lifeAfter order life [x] = life.next (sentOf order x.2.1) (WriteEntry.taken x) := by
  simp [lifeAfter]

theorem Life.isAlive_next {life' : Life} {m : Fake.Sent} {taken : Bool}
    (h : life.next m taken = some life') : life'.isAlive = aliveNext life.isAlive m taken := by
  cases life <;> cases m <;> cases taken <;> cases h <;> rfl

/-- The kernel and the writes agree on whether there is a device. -/
theorem alive_eq (h : lifeAfter order .dead ws = some life) : alive order ws = life.isAlive := by
  induction ws using List.reverseRecOn generalizing life with
  | nil =>
    rw [lifeAfter_nil, Option.some.injEq] at h
    rw [← h]
    rfl
  | append_singleton ws x ih =>
    rw [lifeAfter_append] at h
    obtain ⟨before, hbefore, hx⟩ := Option.bind_eq_some_iff.mp h
    rw [lifeAfter_singleton] at hx
    rw [Life.isAlive_next hx, ← ih hbefore, alive, alive, List.foldl_append]
    rfl

end Life

/-- The writes to a handle in order: a `CREATE2` only while no device is alive,
anything else only while one is, and after a `CREATE2` that was taken an
`INPUT2`. -/
structure Orderly (order : ByteOrder) (ws : List WriteEntry) : Prop where
  create : ∀ s x t, ws = s ++ x :: t → (sentOf order x.2.1).isCreate2 = true → alive order s = false
  other : ∀ s x t, ws = s ++ x :: t → (sentOf order x.2.1).isCreate2 = false → alive order s = true
  first : ∀ s c x t, ws = s ++ c :: x :: t → (sentOf order c.2.1).isCreate2 = true →
    WriteEntry.taken c = true → ∃ report, sentOf order x.2.1 = .input2 report

section Orderly

variable {order : ByteOrder} {life : Life} {s t ws : List WriteEntry} {x : WriteEntry}

/-- The state before a write, and that it allows the write. -/
theorem life_before (h : lifeAfter order .dead (s ++ x :: t) = some life) :
    ∃ before after, lifeAfter order .dead s = some before ∧
      before.next (sentOf order x.2.1) (WriteEntry.taken x) = some after ∧
      lifeAfter order after t = some life := by
  rw [lifeAfter_append] at h
  obtain ⟨before, hbefore, hx⟩ := Option.bind_eq_some_iff.mp h
  rw [← List.singleton_append, lifeAfter_append] at hx
  obtain ⟨after, hafter, ht⟩ := Option.bind_eq_some_iff.mp hx
  rw [lifeAfter_singleton] at hafter
  exact ⟨before, after, hbefore, hafter, ht⟩

theorem Life.isAlive_of_next {before after : Life} {m : Fake.Sent} {taken : Bool}
    (h : before.next m taken = some after) : before.isAlive = !m.isCreate2 := by
  cases before <;> cases m <;> cases h <;> rfl

/-- What follows a `CREATE2` that was taken. -/
theorem Life.input2_of_next {before after later : Life} {c m : Fake.Sent} {taken : Bool}
    (hc : before.next c true = some after) (hcreate : c.isCreate2 = true)
    (hm : after.next m taken = some later) : ∃ report, m = .input2 report := by
  cases before <;> cases c <;> cases hcreate <;> cases hc
  cases m <;> cases hm
  exact ⟨_, rfl⟩

/-- **Writes with a state at the end are in order.** -/
theorem orderly_of_life (h : lifeAfter order .dead ws = some life) : Orderly order ws where
  create s x t hs hc := by
    rw [hs] at h
    obtain ⟨before, after, hbefore, hnext, -⟩ := life_before h
    rw [alive_eq hbefore, Life.isAlive_of_next hnext, hc]
    rfl
  other s x t hs hc := by
    rw [hs] at h
    obtain ⟨before, after, hbefore, hnext, -⟩ := life_before h
    rw [alive_eq hbefore, Life.isAlive_of_next hnext, hc]
    rfl
  first s c x t hs hc ht := by
    rw [hs] at h
    obtain ⟨before, after, -, hnext, hrest⟩ := life_before h
    rw [← List.singleton_append, lifeAfter_append] at hrest
    obtain ⟨later, hlater, -⟩ := Option.bind_eq_some_iff.mp hrest
    rw [lifeAfter_singleton] at hlater
    rw [ht] at hnext
    exact Life.input2_of_next hnext hc hlater

end Orderly

/-! ## The writes of the operations -/

/-- A message that a running device goes on running after. -/
def Speaks (m : Fake.Sent) : Prop := ∀ taken, Life.running.next m taken = some .running

theorem speaks_input2 (report : List UInt8) : Speaks (.input2 report) := fun _ => rfl

theorem Battery.MaySay.speaks {b : Battery} {m : Fake.Sent} (h : b.MaySay m) : Speaks m := by
  rcases h with rfl | ⟨event, h⟩
  · exact speaks_input2 _
  · cases event with
    | start => cases h
    | ignored => cases h
    | setReport id =>
      rw [← Option.some.inj h]
      exact fun _ => rfl
    | getReport id rnum rtype =>
      rw [← Option.some.inj h]
      split <;> exact fun _ => rfl

section Writes

variable {order : ByteOrder} {fd : Fd} {event : Buffer} {o : Outcome IoError Unit}
  {calls : List Entry} {l : Life}

theorem life_of_speaks {ws : List WriteEntry} (h : ∀ x ∈ ws, Speaks (sentOf order x.2.1)) :
    lifeAfter order .running ws = some .running := by
  induction ws with
  | nil => rfl
  | cons x ws ih =>
    obtain ⟨hx, hrest⟩ := List.forall_mem_cons.mp h
    rw [← List.singleton_append, lifeAfter_append, lifeAfter_singleton, hx]
    exact ih hrest

theorem Written.speaks (h : Written fd event o calls) (hm : Speaks (sentOf order event)) :
    lifeAfter order .running (writes fd calls) = some .running := by
  apply life_of_speaks
  intro x hx
  rw [h.event_eq x hx]
  exact hm

theorem Interrupted.life {retries : List Entry} (h : Interrupted fd event retries)
    (hstay : l.next (sentOf order event) false = some l) :
    lifeAfter order l (writes fd retries) = some l := by
  induction retries with
  | nil => rfl
  | cons x rest ih =>
    obtain ⟨hx, hrest⟩ := List.forall_mem_cons.mp h
    rw [← List.singleton_append, writes_append, lifeAfter_append, writes_of_write hx,
      lifeAfter_singleton]
    change (l.next (sentOf order event) false >>= _) = _
    rw [hstay]
    exact ih hrest

/-- A write that changes nothing unless it is taken. -/
theorem Written.life (h : Written fd event o calls)
    (hstay : l.next (sentOf order event) false = some l) :
    (o = .ok () ∧ lifeAfter order l (writes fd calls) =
        l.next (sentOf order event) true) ∨
      (o ≠ .ok () ∧ lifeAfter order l (writes fd calls) = some l) := by
  cases h with
  | waiting retries hr => exact Or.inr ⟨by simp, hr.life hstay⟩
  | answered retries x answer hr hx ha =>
    rw [writes_append, lifeAfter_append, hr.life hstay, writes_of_write hx, ne_eq,
      WriteAnswer.outcome_eq_ok_iff]
    change (_ ∧ lifeAfter order l [_] = _) ∨ (_ ∧ lifeAfter order l [_] = _)
    rw [lifeAfter_singleton]
    by_cases htook : answer = .took eventSize
    · refine Or.inl ⟨htook, ?_⟩
      rw [WriteEntry.taken, decide_eq_true htook]
    · refine Or.inr ⟨htook, ?_⟩
      rw [WriteEntry.taken, decide_eq_false htook, hstay]

/-- The write of a message that takes the device from `l` to `l'`, if it is taken. -/
theorem Written.life_of {l' : Life} (h : Written fd event o calls)
    (hstay : l.next (sentOf order event) false = some l)
    (hgo : l.next (sentOf order event) true = some l') :
    (o = .ok () → lifeAfter order l (writes fd calls) = some l') ∧
      (o ≠ .ok () → lifeAfter order l (writes fd calls) = some l) := by
  rcases h.life hstay with ⟨rfl, hlife⟩ | ⟨hno, hlife⟩
  · exact ⟨fun _ => hlife.trans hgo, fun hno => absurd rfl hno⟩
  · exact ⟨fun ho => absurd ho hno, fun _ => hlife⟩

/-- The first report of a device. -/
theorem Written.life_first {report : List UInt8} (h : Written fd event o calls)
    (hm : sentOf order event = .input2 report) :
    (o ≠ .pending → lifeAfter order .fresh (writes fd calls) = some .running) ∧
      ∃ l, lifeAfter order .fresh (writes fd calls) = some l := by
  have hall := h.event_eq
  cases hw : writes fd calls with
  | nil =>
    refine ⟨fun ho => ?_, _, rfl⟩
    cases h with
    | waiting retries hr => exact absurd rfl ho
    | answered retries x answer hr hx ha =>
      rw [writes_append, writes_of_write hx] at hw
      simp at hw
  | cons x ws =>
    rw [hw] at hall
    obtain ⟨hx, hrest⟩ := List.forall_mem_cons.mp hall
    have hfirst : Life.fresh.next (sentOf order x.2.1) (WriteEntry.taken x) = some .running := by
      rw [hx, hm]
      rfl
    have hrunning : lifeAfter order .running ws = some .running := by
      apply life_of_speaks
      intro y hy
      rw [hrest y hy, hm]
      exact speaks_input2 report
    have hlife : lifeAfter order .fresh (x :: ws) = some .running := by
      rw [← List.singleton_append, lifeAfter_append, lifeAfter_singleton, hfirst]
      exact hrunning
    exact ⟨fun _ => hlife, _, hlife⟩

end Writes

end UhidBattery
