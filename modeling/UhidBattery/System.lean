import UhidBattery.Codec
import UhidBattery.Sysfs

/-!
# The system the batteries run on

Descriptors with a queue of events each, a clock, `poll()` and a sysfs listing.
What the system answers is an `Env`: it may depend on every call made so far.
The `World` keeps the queues and the history of the calls, with the time of each
and the events that arrived before it.

* `Ran E w calls w'`: from `w` the system went through `calls` to `w'`; no event
  is lost or doubled on the way (`Ran.queue`).
* `sent`, `delivered`, `arrived`, `clocks`: what a history shows.
-/

namespace UhidBattery

open Program (Outcome)
open Record (ByteOrder)

/-! ## Calls and their answers -/

abbrev Fd := Nat

/-- What the system does about a read: hand over the head of the queue (`EAGAIN`
when there is none), report the end, or fail. -/
inductive ReadAnswer where
  | serve
  | eof
  | fails (e : Errno)
  deriving DecidableEq, Repr

inductive ReadResult where
  | delivered (event : Buffer)
  | eof
  | failed (e : Errno)
  deriving DecidableEq

inductive WriteAnswer where
  | took (bytes : Nat)
  | fails (e : Errno)
  deriving DecidableEq, Repr

/-- The bits of a `pollfd`. -/
abbrev PollFlags := UInt16

structure PollFd where
  fd : Fd
  events : PollFlags
  deriving DecidableEq, Repr

structure Timespec where
  tvSec : Nat
  tvNsec : Nat
  deriving DecidableEq, Repr

inductive PollAnswer where
  | ready (count : Nat) (revents : Nat → PollFlags)
  | fails (e : Errno)

inductive Call where
  | now
  | read (fd : Fd) (result : ReadResult)
  | write (fd : Fd) (event : Buffer) (answer : WriteAnswer)
  | poll (fds : List PollFd) (timeout : Option Timespec) (answer : PollAnswer)
  | readDir (listing : ReadDir)

/-- A call that was made: when, and which events had arrived since the one before. -/
structure Entry where
  time : Instant
  arrivals : Fd → List Buffer
  call : Call

/-- The system's side, given the calls made so far. -/
structure Env where
  order : ByteOrder
  time : List Entry → Instant
  arrivals : List Entry → Fd → List Buffer
  read : List Entry → Fd → ReadAnswer
  write : List Entry → Fd → Buffer → WriteAnswer
  poll : List Entry → List PollFd → Option Timespec → PollAnswer
  listing : List Entry → ReadDir

structure World where
  queue : Fd → List Buffer
  history : List Entry

/-- A system at rest: nothing arrives, reads serve the queue, writes are taken whole. -/
def Env.calm (order : ByteOrder) (now : Instant) : Env where
  order := order
  time _ := now
  arrivals _ _ := []
  read _ _ := .serve
  write _ _ _ := .took eventSize
  poll _ _ _ := .ready 0 fun _ => 0
  listing _ := .ok []

def World.started : World := ⟨fun _ => [], []⟩

/-- A system on which nothing has happened yet. -/
def World.queueing (events : List Buffer) : World := ⟨fun _ => events, []⟩

/-! ## What a history shows -/

def ReadResult.event? : ReadResult → Option Buffer
  | delivered event => some event
  | _ => none

def Entry.read? (fd : Fd) (x : Entry) : Option ReadResult :=
  match x.call with
  | .read fd' result => if fd' = fd then some result else none
  | _ => none

def Entry.write? (fd : Fd) (x : Entry) : Option (Instant × Buffer × WriteAnswer) :=
  match x.call with
  | .write fd' event answer => if fd' = fd then some (x.time, event, answer) else none
  | _ => none

def Entry.now? (x : Entry) : Option Instant :=
  match x.call with
  | .now => some x.time
  | _ => none

/-- The reads of a descriptor, with what they gave. -/
def reads (fd : Fd) (calls : List Entry) : List ReadResult := calls.filterMap (Entry.read? fd)

/-- The events read from a descriptor. -/
def delivered (fd : Fd) (calls : List Entry) : List Buffer :=
  (reads fd calls).filterMap ReadResult.event?

/-- The events that arrived on a descriptor. -/
def arrived (fd : Fd) (calls : List Entry) : List Buffer := calls.flatMap fun x => x.arrivals fd

/-- The writes to a descriptor, taken or not. -/
def writes (fd : Fd) (calls : List Entry) : List (Instant × Buffer × WriteAnswer) :=
  calls.filterMap (Entry.write? fd)

/-- The writes the system took whole, and when. -/
def accepted (fd : Fd) (calls : List Entry) : List (Instant × Buffer) :=
  ((writes fd calls).filter fun x => x.2.2 = .took eventSize).map fun x => (x.1, x.2.1)

/-- What the kernel was sent on a descriptor, as it reads it. -/
def sent (order : ByteOrder) (fd : Fd) (calls : List Entry) : List Fake.Sent :=
  (accepted fd calls).map fun x => sentOf order x.2

/-- The clock readings. -/
def clocks (calls : List Entry) : List Instant := calls.filterMap Entry.now?

section Observations

variable (order : ByteOrder) (fd : Fd) (s t : List Entry)

@[simp] theorem reads_nil : reads fd [] = [] := rfl
@[simp] theorem delivered_nil : delivered fd [] = [] := rfl
@[simp] theorem arrived_nil : arrived fd [] = [] := rfl
@[simp] theorem writes_nil : writes fd [] = [] := rfl
@[simp] theorem accepted_nil : accepted fd [] = [] := rfl
@[simp] theorem sent_nil : sent order fd [] = [] := rfl
@[simp] theorem clocks_nil : clocks [] = [] := rfl

@[simp] theorem reads_append : reads fd (s ++ t) = reads fd s ++ reads fd t :=
  List.filterMap_append

@[simp] theorem delivered_append : delivered fd (s ++ t) = delivered fd s ++ delivered fd t := by
  simp [delivered]

@[simp] theorem arrived_append : arrived fd (s ++ t) = arrived fd s ++ arrived fd t :=
  List.flatMap_append

@[simp] theorem writes_append : writes fd (s ++ t) = writes fd s ++ writes fd t :=
  List.filterMap_append

@[simp] theorem accepted_append : accepted fd (s ++ t) = accepted fd s ++ accepted fd t := by
  simp [accepted]

@[simp] theorem sent_append : sent order fd (s ++ t) = sent order fd s ++ sent order fd t := by
  simp [sent]

@[simp] theorem clocks_append : clocks (s ++ t) = clocks s ++ clocks t :=
  List.filterMap_append

end Observations

/-! ## What one call shows -/

section OneCall

variable {x : Entry} {fd : Fd} {result : ReadResult}

theorem writes_of_read (hx : x.call = .read fd result) (fd' : Fd) : writes fd' [x] = [] := by
  have hr : x.write? fd' = none := by rw [Entry.write?, hx]
  rw [writes, List.filterMap_cons, hr]
  rfl

theorem writes_of_now (hx : x.call = .now) (fd : Fd) : writes fd [x] = [] := by
  have hr : x.write? fd = none := by rw [Entry.write?, hx]
  rw [writes, List.filterMap_cons, hr]
  rfl

theorem writes_of_write {event : Buffer} {answer : WriteAnswer}
    (hx : x.call = .write fd event answer) : writes fd [x] = [(x.time, event, answer)] := by
  simp [writes, Entry.write?, hx]

theorem accepted_of_writes {calls : List Entry} (h : writes fd calls = []) :
    accepted fd calls = [] := by
  rw [accepted, h]
  rfl

theorem sent_of_writes {calls : List Entry} (h : writes fd calls = []) (order : ByteOrder) :
    sent order fd calls = [] := by
  rw [sent, accepted_of_writes h]
  rfl

theorem sent_of_read (hx : x.call = .read fd result) (order : ByteOrder) (fd' : Fd) :
    sent order fd' [x] = [] :=
  sent_of_writes (writes_of_read hx fd') order

theorem sent_of_now (hx : x.call = .now) (order : ByteOrder) (fd : Fd) : sent order fd [x] = [] :=
  sent_of_writes (writes_of_now hx fd) order

theorem clocks_of_read (hx : x.call = .read fd result) : clocks [x] = [] := by
  have hr : x.now? = none := by rw [Entry.now?, hx]
  rw [clocks, List.filterMap_cons, hr]
  rfl

theorem clocks_of_now (hx : x.call = .now) : clocks [x] = [x.time] := by
  have hr : x.now? = some x.time := by rw [Entry.now?, hx]
  rw [clocks, List.filterMap_cons, hr]
  rfl

theorem delivered_of_now (hx : x.call = .now) (fd : Fd) : delivered fd [x] = [] := by
  have hr : x.read? fd = none := by rw [Entry.read?, hx]
  rw [delivered, reads, List.filterMap_cons, hr]
  rfl

theorem delivered_entry_read (hx : x.call = .read fd result) (fd' : Fd) :
    delivered fd' [x] = if fd = fd' then result.event?.toList else [] := by
  have hr : x.read? fd' = if fd = fd' then some result else none := by rw [Entry.read?, hx]
  rw [delivered, reads, List.filterMap_cons, hr]
  by_cases hfd : fd = fd'
  · rw [if_pos hfd, if_pos hfd]
    cases hres : result.event? <;> simp [hres]
  · rw [if_neg hfd, if_neg hfd]
    rfl

theorem delivered_of_read (hx : x.call = .read fd result) :
    delivered fd [x] = result.event?.toList := by
  rw [delivered_entry_read hx, if_pos rfl]

end OneCall

/-! ## Making a call -/

/-- How a call made now goes into the history. -/
def World.entry (E : Env) (w : World) (call : Call) : Entry :=
  ⟨E.time w.history, E.arrivals w.history, call⟩

/-- The call takes its event off the queue, the arrivals before it included. -/
def World.next (E : Env) (w : World) (call : Call) : World where
  queue fd := (w.queue fd ++ E.arrivals w.history fd).drop (delivered fd [w.entry E call]).length
  history := w.history ++ [w.entry E call]

/-- What a read finds on a queue. -/
def ReadAnswer.result (answer : ReadAnswer) (queue : List Buffer) : ReadResult :=
  match answer, queue with
  | .serve, event :: _ => .delivered event
  | .serve, [] => .failed .again
  | .eof, _ => .eof
  | .fails e, _ => .failed e

section Syscalls

variable {ε : Type} (E : Env)

/-- `Instant::now`. -/
def sysNow : Program World ε Instant := fun w => (.ok (E.time w.history), w.next E .now)

def World.readResult (w : World) (fd : Fd) : ReadResult :=
  (E.read w.history fd).result (w.queue fd ++ E.arrivals w.history fd)

def sysRead (fd : Fd) : Program World ε ReadResult := fun w =>
  (.ok (w.readResult E fd), w.next E (.read fd (w.readResult E fd)))

def sysWrite (fd : Fd) (event : Buffer) : Program World ε WriteAnswer := fun w =>
  (.ok (E.write w.history fd event), w.next E (.write fd event (E.write w.history fd event)))

def sysPoll (fds : List PollFd) (timeout : Option Timespec) : Program World ε PollAnswer :=
  fun w => (.ok (E.poll w.history fds timeout),
    w.next E (.poll fds timeout (E.poll w.history fds timeout)))

def sysReadDir : Program World ε ReadDir := fun w =>
  (.ok (E.listing w.history), w.next E (.readDir (E.listing w.history)))

end Syscalls

/-! ## Stretches of history -/

@[simp] theorem World.entry_call (E : Env) (w : World) (call : Call) :
    (w.entry E call).call = call := rfl

@[simp] theorem World.entry_time (E : Env) (w : World) (call : Call) :
    (w.entry E call).time = E.time w.history := rfl

@[simp] theorem World.length_next (E : Env) (w : World) (call : Call) :
    (w.next E call).history.length = w.history.length + 1 := by
  rw [World.next, List.length_append, List.length_singleton]

/-- The queue after a call, where nothing arrives. -/
theorem World.queue_next {E : Env} {w : World} {fd : Fd} (h : E.arrivals w.history fd = [])
    (call : Call) :
    (w.next E call).queue fd = (w.queue fd).drop (delivered fd [w.entry E call]).length := by
  change (w.queue fd ++ E.arrivals w.history fd).drop _ = _
  rw [h, List.append_nil]

theorem World.arrived_entry (E : Env) (w : World) (call : Call) (fd : Fd) :
    arrived fd [w.entry E call] = E.arrivals w.history fd := by
  simp [arrived, World.entry]

/-- The call holds what the system answers in `w`. -/
def Genuine (E : Env) (w : World) : Call → Prop
  | .now => True
  | .read fd result => result = w.readResult E fd
  | .write fd event answer => answer = E.write w.history fd event
  | .poll fds timeout answer => answer = E.poll w.history fds timeout
  | .readDir listing => listing = E.listing w.history

/-- From `w` the system went through `calls` to `w'`. -/
inductive Ran (E : Env) : World → List Entry → World → Prop where
  | nil (w : World) : Ran E w [] w
  | cons {w w' : World} {call : Call} {calls : List Entry} (hg : Genuine E w call)
      (h : Ran E (w.next E call) calls w') : Ran E w (w.entry E call :: calls) w'

section Ran

variable {E : Env} {w w₁ w' : World} {s t calls : List Entry}

theorem Ran.single {call : Call} (hg : Genuine E w call) :
    Ran E w [w.entry E call] (w.next E call) := .cons hg (.nil _)

theorem Ran.append (h : Ran E w s w₁) (h' : Ran E w₁ t w') : Ran E w (s ++ t) w' := by
  induction h with
  | nil => exact h'
  | cons hg _ ih => exact .cons hg (ih h')

theorem ran_append_iff : Ran E w (s ++ t) w' ↔ ∃ w₁, Ran E w s w₁ ∧ Ran E w₁ t w' := by
  constructor
  · intro h
    induction s generalizing w with
    | nil => exact ⟨w, .nil w, h⟩
    | cons x s ih =>
      cases h with
      | cons hg h =>
        obtain ⟨w₁, hs, ht⟩ := ih h
        exact ⟨w₁, .cons hg hs, ht⟩
  · rintro ⟨w₁, hs, ht⟩
    exact hs.append ht

theorem ran_cons_iff {x : Entry} : Ran E w (x :: calls) w' ↔
    x = w.entry E x.call ∧ Genuine E w x.call ∧ Ran E (w.next E x.call) calls w' := by
  constructor
  · rintro (_ | ⟨hg, h⟩)
    exact ⟨rfl, hg, h⟩
  · rintro ⟨hx, hg, h⟩
    rw [hx]
    exact .cons hg h

/-- Every call of a stretch was made somewhere on the way. -/
theorem Ran.mem (h : Ran E w calls w') {x : Entry} (hx : x ∈ calls) :
    ∃ w₀ call, Genuine E w₀ call ∧ x = w₀.entry E call := by
  induction h with
  | nil => cases hx
  | cons hg _ ih =>
    rcases List.mem_cons.mp hx with rfl | hx
    · exact ⟨_, _, hg, rfl⟩
    · exact ih hx

/-- A run that ends with a read, and what the read gave. -/
theorem Ran.last_read {x : Entry} {fd : Fd} {result : ReadResult} (h : Ran E w (calls ++ [x]) w')
    (hx : x.call = .read fd result) :
    ∃ w₁, Ran E w calls w₁ ∧ Ran E w₁ [x] w' ∧ result = w₁.readResult E fd := by
  obtain ⟨w₁, hbefore, hlast⟩ := ran_append_iff.mp h
  obtain ⟨-, hg, -⟩ := ran_cons_iff.mp hlast
  rw [hx] at hg
  exact ⟨w₁, hbefore, hlast, hg⟩

theorem Ran.history (h : Ran E w calls w') : w'.history = w.history ++ calls := by
  induction h with
  | nil => exact (List.append_nil _).symm
  | cons hg _ ih => rw [ih, World.next, List.append_assoc, List.singleton_append]

theorem ReadAnswer.result_prefix (answer : ReadAnswer) (queue : List Buffer) :
    (answer.result queue).event?.toList <+: queue := by
  cases answer with
  | serve =>
    cases queue with
    | nil => exact List.nil_prefix
    | cons event rest => exact List.prefix_append [event] rest
  | eof => exact List.nil_prefix
  | fails e => exact List.nil_prefix

/-- What a call takes off a queue is the head of it. -/
theorem Genuine.delivered_prefix {call : Call} (hg : Genuine E w call) (fd : Fd) :
    delivered fd [w.entry E call] <+: w.queue fd ++ E.arrivals w.history fd := by
  cases call with
  | read fd' result =>
    rw [delivered_entry_read (World.entry_call E w _), show result = _ from hg]
    split
    · rename_i hfd
      subst hfd
      exact ReadAnswer.result_prefix _ _
    · exact List.nil_prefix
  | now => exact List.nil_prefix
  | write fd' event answer => exact List.nil_prefix
  | poll fds timeout answer => exact List.nil_prefix
  | readDir listing => exact List.nil_prefix

/-- **No event is lost or doubled**: those queued and arrived are those read,
then those still queued. -/
theorem Ran.queue (h : Ran E w calls w') (fd : Fd) :
    w.queue fd ++ arrived fd calls = delivered fd calls ++ w'.queue fd := by
  induction h with
  | nil => rw [arrived_nil, delivered_nil, List.append_nil, List.nil_append]
  | @cons w w' call calls hg _ ih =>
    have hstep : w.queue fd ++ E.arrivals w.history fd =
        delivered fd [w.entry E call] ++ (w.next E call).queue fd :=
      (List.prefix_iff_eq_append.mp (hg.delivered_prefix fd)).symm
    rw [← List.singleton_append, arrived_append, delivered_append, w.arrived_entry,
      ← List.append_assoc, hstep, List.append_assoc, ih, List.append_assoc]

/-- Where nothing ever arrives, nothing arrives during a stretch. -/
theorem Ran.arrived_eq_nil (h : Ran E w calls w') {fd : Fd}
    (hquiet : ∀ h, E.arrivals h fd = []) : arrived fd calls = [] := by
  induction h with
  | nil => rfl
  | @cons w w' call calls hg _ ih =>
    rw [← List.singleton_append, arrived_append, w.arrived_entry, hquiet, ih, List.append_nil]

/-- A stretch that reads nothing from a descriptor only adds to its queue. -/
theorem Ran.queue_of_unread (h : Ran E w calls w') {fd : Fd} (hd : delivered fd calls = []) :
    w'.queue fd = w.queue fd ++ arrived fd calls := by
  rw [h.queue fd, hd, List.nil_append]

/-- The write of an entry, and what it was answered. -/
theorem Genuine.write {call : Call} (hg : Genuine E w call) {fd : Fd}
    {x : Instant × Buffer × WriteAnswer} (hx : (w.entry E call).write? fd = some x) :
    x.2.2 = E.write w.history fd x.2.1 := by
  cases call with
  | write fd' event answer =>
    rw [Entry.write?, World.entry_call] at hx
    simp only at hx
    split at hx
    · rename_i hfd
      cases hx
      rw [← hfd]
      exact hg
    · cases hx
  | now => cases hx
  | read fd' result => cases hx
  | poll fds timeout answer => cases hx
  | readDir listing => cases hx

/-- Every write of a stretch got the system's answer. -/
theorem Ran.mem_writes (h : Ran E w calls w') {fd : Fd} {x : Instant × Buffer × WriteAnswer}
    (hx : x ∈ writes fd calls) : ∃ history, x.2.2 = E.write history fd x.2.1 := by
  obtain ⟨y, hy, hwrite⟩ := List.mem_filterMap.mp hx
  obtain ⟨w₀, call, hg, rfl⟩ := h.mem hy
  exact ⟨w₀.history, hg.write hwrite⟩

/-- The clock readings of a stretch are the system's. -/
theorem Ran.mem_clocks (h : Ran E w calls w') {t : Instant} (ht : t ∈ clocks calls) :
    ∃ history, t = E.time history := by
  obtain ⟨x, hx, hnow⟩ := List.mem_filterMap.mp ht
  obtain ⟨w₀, call, -, rfl⟩ := h.mem hx
  cases call with
  | now => exact ⟨w₀.history, (Option.some.inj hnow).symm⟩
  | _ => cases hnow

end Ran

end UhidBattery
