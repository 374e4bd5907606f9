import UhidBattery.Answers
import UhidBattery.Owner

/-!
# Looks at the clock

When the `START`s of a stretch were read and processed, and when the slot was
compared with the clock.

* `Handled.looks`: every look at the clock while the queue is read is for a
  `START`.
* `Served.looked`: every `START` that is read gets its look, as the next call.
* `Looked.startsRead`: so the `START`s read are the `START`s looked at.
-/

namespace UhidBattery

open Record (ByteOrder)
open Program (Outcome)

/-- The looks at the clock that directly follow a call of a kind. -/
def looksAfter (p : Entry → Bool) : List Entry → List Instant
  | [] => []
  | [_] => []
  | x :: y :: rest => (if p x then y.now?.toList else []) ++ looksAfter p (y :: rest)

/-- A read that handed over a `START`. -/
def Entry.readsStart (order : ByteOrder) (fd : Fd) (x : Entry) : Bool :=
  ((x.read? fd).bind ReadResult.event?).any fun buf => eventOf order buf = .start

/-- A read that gave nothing and did not fail. -/
def Entry.readsNothing (order : ByteOrder) (fd : Fd) (x : Entry) : Bool :=
  (x.read? fd).any fun result => match result.outcome order with
    | .ok none => true
    | _ => false

/-- When the `START`s were processed. -/
def startTimes (order : ByteOrder) (fd : Fd) (calls : List Entry) : List Instant :=
  looksAfter (Entry.readsStart order fd) calls

/-- The times the `START`s of a stretch schedule their pushes for. -/
def startDues (order : ByteOrder) (fd : Fd) (calls : List Entry) : List Instant :=
  (startTimes order fd calls).map fun t => t + startSettleDelay

/-- What the slot was compared with, once the queue was empty. -/
def checkTimes (order : ByteOrder) (fd : Fd) (calls : List Entry) : List Instant :=
  looksAfter (Entry.readsNothing order fd) calls

/-- Every `START` that was read, by the time at which it was processed: the look at the
clock that follows it or, if none does, the time of the read. -/
def startsRead (order : ByteOrder) (fd : Fd) : List Entry → List Instant
  | [] => []
  | x :: rest =>
    (if x.readsStart order fd then [(rest.head?.bind Entry.now?).getD x.time] else []) ++
      startsRead order fd rest

/-- The times at which the settle pushes of the `START`s read are due. -/
def settleDues (order : ByteOrder) (fd : Fd) (calls : List Entry) : List Instant :=
  (startsRead order fd calls).map fun t => t + startSettleDelay

/-- Every `START` that was read is followed by a look at the clock. -/
def Looked (order : ByteOrder) (fd : Fd) (calls : List Entry) : Prop :=
  ∀ before x after, calls = before ++ x :: after → x.readsStart order fd = true →
    ∃ y rest, after = y :: rest ∧ y.call = .now

/-- The clock did not go back from call to call. -/
def Chronological (calls : List Entry) : Prop := calls.Pairwise fun x y => x.time ≤ y.time

section Looks

variable {p : Entry → Bool} {s t calls : List Entry} {x y : Entry}

/-- A stretch may be cut before anything but a look at the clock. -/
theorem looksAfter_append (hx : x.now? = none) :
    looksAfter p (s ++ x :: t) = looksAfter p s ++ looksAfter p (x :: t) := by
  induction s with
  | nil => rfl
  | cons y s ih =>
    cases s with
    | nil =>
      change (if p y then x.now?.toList else []) ++ _ = [] ++ _
      rw [hx]
      simp
    | cons z s =>
      rw [List.cons_append, List.cons_append, looksAfter, ← List.cons_append, ih, looksAfter,
        List.append_assoc]

theorem looksAfter_of_not (hx : p x = false) : looksAfter p (x :: t) = looksAfter p t := by
  cases t with
  | nil => rfl
  | cons y t =>
    rw [looksAfter, hx]
    rfl

/-- Without a look at the clock after the first call there is nothing. -/
theorem looksAfter_of_silent (h : ∀ y ∈ calls, y.now? = none) : looksAfter p (x :: calls) = [] := by
  induction calls generalizing x with
  | nil => rfl
  | cons y calls ih =>
    obtain ⟨hy, hcalls⟩ := List.forall_mem_cons.mp h
    rw [looksAfter, hy, ih hcalls]
    simp

/-- One look at the clock, right after the first call. -/
theorem looksAfter_of_now (hy : y.call = .now) (h : ∀ z ∈ calls, z.now? = none) :
    looksAfter p (x :: y :: calls) = if p x then [y.time] else [] := by
  have hnow : y.now? = some y.time := by rw [Entry.now?, hy]
  rw [looksAfter, hnow, looksAfter_of_silent h, List.append_nil]
  rfl

/-- A stretch may be cut after anything but a call of the kind. -/
theorem looksAfter_append_of_closed (h : ∀ x ∈ s.getLast?, p x = false) :
    looksAfter p (s ++ t) = looksAfter p s ++ looksAfter p t := by
  induction s with
  | nil => rfl
  | cons x s ih =>
    cases s with
    | nil => exact looksAfter_of_not (h x rfl)
    | cons y s =>
      have hrest := ih (by simpa using h)
      rw [List.cons_append] at hrest
      rw [List.cons_append, List.cons_append, looksAfter, hrest, looksAfter, List.append_assoc]

theorem looksAfter_suffix (p : Entry → Bool) (s t : List Entry) :
    looksAfter p t ⊆ looksAfter p (s ++ t) := by
  induction s with
  | nil => exact List.Subset.refl _
  | cons x s ih =>
    refine List.Subset.trans ih ?_
    rw [List.cons_append]
    cases s ++ t with
    | nil => exact List.Subset.refl _
    | cons y l => exact List.subset_append_right _ _

theorem looksAfter_of_none (h : ∀ x ∈ s, p x = false) : looksAfter p s = [] := by
  induction s with
  | nil => rfl
  | cons x s ih =>
    obtain ⟨hx, hrest⟩ := List.forall_mem_cons.mp h
    rw [looksAfter_of_not hx, ih hrest]

/-- The looks of a kind are looks at the clock. -/
theorem looksAfter_subset (p : Entry → Bool) (calls : List Entry) :
    looksAfter p calls ⊆ clocks calls := by
  induction calls with
  | nil => exact List.Subset.refl _
  | cons x calls ih =>
    have hrest : clocks calls ⊆ clocks (x :: calls) := by
      rw [← List.singleton_append, clocks_append]
      exact List.subset_append_right _ _
    cases calls with
    | nil => exact List.nil_subset _
    | cons y calls =>
      rw [looksAfter, List.append_subset]
      refine ⟨List.Subset.trans ?_ hrest, List.Subset.trans ih hrest⟩
      rw [← List.singleton_append, clocks_append, clocks, List.filterMap_cons]
      split
      · cases y.now? <;> simp
      · exact List.nil_subset _

/-- What the clock showed is no later than the last call. -/
theorem Chronological.clocks_le (h : Chronological (calls ++ [x])) {t : Instant}
    (ht : t ∈ clocks (calls ++ [x])) : t ≤ x.time := by
  obtain ⟨y, hy, hnow⟩ := List.mem_filterMap.mp ht
  have hle : y.time ≤ x.time := by
    rcases List.mem_append.mp hy with hy | hy
    · exact (List.pairwise_append.mp h).2.2 y hy x (List.mem_singleton_self x)
    · rw [List.mem_singleton.mp hy]
  cases hc : y.call with
  | now =>
    rw [Entry.now?, hc] at hnow
    rw [← Option.some.inj hnow]
    exact hle
  | _ =>
    rw [Entry.now?, hc] at hnow
    cases hnow

/-- What was so of a history is so of the calls made since. -/
theorem Chronological.since {w w' : World} (h : Chronological w'.history) :
    Chronological (w.since w') :=
  List.Pairwise.sublist (List.drop_sublist _ _) h

end Looks

/-! ## Reading the queue -/

section Queue

variable {order : ByteOrder} {fd : Fd} {b b' : Battery} {o : Outcome IoError Unit}
  {s t calls : List Entry} {x : Entry}

theorem now?_of_read {result : ReadResult} (hx : x.call = .read fd result) : x.now? = none := by
  rw [Entry.now?, hx]

theorem readsStart_of_read {result : ReadResult} (hx : x.call = .read fd result) :
    x.readsStart order fd = result.event?.any fun buf => eventOf order buf = .start := by
  rw [Entry.readsStart, Entry.read?, hx]
  simp

theorem readsStart_of_start {buf : Buffer} (hx : x.call = .read fd (.delivered buf))
    (he : eventOf order buf = .start) : x.readsStart order fd = true := by
  rw [readsStart_of_read hx]
  exact decide_eq_true he

theorem call_of_readsStart (h : x.readsStart order fd = true) :
    ∃ buf, x.call = .read fd (.delivered buf) ∧ eventOf order buf = .start := by
  rw [Entry.readsStart, Option.any_eq_true] at h
  obtain ⟨buf, hbuf, he⟩ := h
  obtain ⟨result, hread, hevent⟩ := Option.bind_eq_some_iff.mp hbuf
  have hx : x.call = .read fd result := by
    rw [Entry.read?] at hread
    split at hread
    · rename_i fd' result' hcall
      split at hread
      · rw [hcall, Option.some.inj hread, ‹fd' = fd›]
      · cases hread
    · cases hread
  cases result with
  | delivered event =>
    rw [Option.some.inj hevent] at hx
    exact ⟨buf, hx, of_decide_eq_true he⟩
  | _ => cases hevent

theorem readsStart_of_event {result : ReadResult} (hx : x.call = .read fd result)
    (hr : result.event? = none) : x.readsStart order fd = false := by
  rw [readsStart_of_read hx, hr]
  rfl

theorem readsNothing_of_delivered {buf : Buffer} (hx : x.call = .read fd (.delivered buf)) :
    x.readsNothing order fd = false := by
  rw [Entry.readsNothing, Entry.read?, hx]
  simp [ReadResult.outcome]

theorem readsNothing_of_none {result : ReadResult} (hx : x.call = .read fd result)
    (hr : result.outcome order = .ok none) : x.readsNothing order fd = true := by
  rw [Entry.readsNothing, Entry.read?, hx]
  simp [hr]

/-- Where nothing was read there was no `START`. -/
theorem readsStart_of_undelivered (h : delivered fd calls = []) :
    ∀ x ∈ calls, x.readsStart order fd = false := by
  intro x hx
  rw [delivered, reads, List.filterMap_filterMap] at h
  rw [Entry.readsStart, List.filterMap_eq_nil_iff.mp h x hx]
  rfl

theorem Written.now?_eq_none {event : Buffer} (h : Written fd event o calls) :
    ∀ y ∈ calls, y.now? = none := by
  intro y hy
  obtain ⟨answer, hc⟩ := h.calls_write y hy
  rw [Entry.now?, hc]

theorem Handled.handle (h : Handled order b calls b') : b'.handle = b.handle := by
  obtain ⟨slot, rfl⟩ := h.same
  rfl

/-- After an event, the clock is looked at for a `START` only. -/
theorem Answered.looks {buf : Buffer} (hx : x.call = .read b.handle.fd (.delivered buf))
    (h : Answered order b (eventOf order buf) (.ok ()) calls b') :
    startTimes order b.handle.fd (x :: calls) = clocks calls ∧
      checkTimes order b.handle.fd (x :: calls) = [] := by
  have hno : x.readsNothing order b.handle.fd = false := readsNothing_of_delivered hx
  generalize hev : eventOf order buf = event at h
  generalize ho : (Outcome.ok () : Outcome IoError Unit) = o at h
  cases h with
  | scheduled y hy =>
    have hstart := readsStart_of_start hx hev
    rw [startTimes, checkTimes, looksAfter_of_now hy (by simp), looksAfter_of_now hy (by simp),
      hstart, hno, clocks_of_now hy]
    exact ⟨rfl, rfl⟩
  | overflow y hy ht => cases ho
  | replied hm hb hw =>
    rw [startTimes, checkTimes, looksAfter_of_silent hw.now?_eq_none,
      looksAfter_of_silent hw.now?_eq_none, hw.clocks_eq_nil]
    exact ⟨rfl, rfl⟩
  | ignored => exact ⟨rfl, rfl⟩

/-- **Every look at the clock** while the queue is read is for a `START`. -/
theorem Handled.looks (h : Handled order b calls b') :
    startTimes order b.handle.fd calls = clocks calls ∧
      checkTimes order b.handle.fd calls = [] := by
  induction h with
  | nil => exact ⟨rfl, rfl⟩
  | @snoc calls calls' b₁ b₂ x buf h hx ha ih =>
    obtain ⟨hstart, hcheck⟩ := ha.looks hx
    obtain ⟨slot, rfl⟩ := h.same
    rw [withRepush_handle] at hstart hcheck
    obtain ⟨ihstart, ihcheck⟩ := ih
    have hcut {p : Entry → Bool} := looksAfter_append (p := p) (s := calls) (t := calls')
      (now?_of_read hx)
    constructor
    · rw [startTimes, hcut, ← startTimes, ← startTimes, ihstart, hstart, ← List.singleton_append,
        clocks_append, clocks_append, clocks_of_read hx, List.nil_append]
    · rw [checkTimes, hcut, ← checkTimes, ← checkTimes, ihcheck, hcheck, List.nil_append]

/-- The looks at the clock when the queue was found empty. -/
theorem Pushed.looks (h : Pushed order b o t b')
    (hstart : x.readsStart order b.handle.fd = false)
    (hcheck : x.readsNothing order b.handle.fd = true) :
    startTimes order b.handle.fd (x :: t) = [] ∧
      checkTimes order b.handle.fd (x :: t) = clocks t := by
  rw [startTimes, looksAfter_of_not hstart, checkTimes]
  cases h with
  | idle hs => exact ⟨rfl, rfl⟩
  | early hs hx ht =>
    rw [looksAfter_of_now hx (by simp), if_pos hcheck, clocks_of_now hx]
    exact ⟨rfl, rfl⟩
  | due hs hx ht hb hw =>
    have hclocks := (clocks_append [_] _).trans
      (congrArg₂ (· ++ ·) (clocks_of_now hx) hw.clocks_eq_nil)
    rw [looksAfter_of_silent hw.now?_eq_none, looksAfter_of_now hx hw.now?_eq_none, if_pos hcheck]
    exact ⟨rfl, hclocks.symm⟩

/-- A `START` and its look. -/
theorem startsRead_of_start {y : Entry} (hx : x.readsStart order fd = true) (hy : y.call = .now) :
    startsRead order fd (x :: y :: t) = y.time :: startsRead order fd (y :: t) := by
  have hnow : y.now? = some y.time := by rw [Entry.now?, hy]
  rw [startsRead, hx, List.head?_cons, Option.bind_some, hnow]
  rfl

end Queue

/-! ## Every START gets its look -/

section Looked

variable {order : ByteOrder} {fd : Fd} {b b' : Battery} {o : Outcome IoError Unit}
  {s t calls : List Entry} {x : Entry}

theorem looked_of_undelivered (h : delivered fd calls = []) : Looked order fd calls := by
  rintro before x after rfl hstart
  rw [readsStart_of_undelivered h x (by simp)] at hstart
  cases hstart

theorem Looked.append (hs : Looked order fd s) (ht : Looked order fd t) :
    Looked order fd (s ++ t) := by
  intro before x after heq hstart
  rcases List.append_eq_append_iff.mp heq with ⟨c, -, hc⟩ | ⟨c, hc, hrest⟩
  · exact ht c x after hc hstart
  · rcases List.cons_eq_append_iff.mp hrest with ⟨-, hx⟩ | ⟨c', rfl, rfl⟩
    · exact ht [] x after hx hstart
    · obtain ⟨y, rest, rfl, hy⟩ := hs before x c' hc hstart
      exact ⟨y, rest ++ t, rfl, hy⟩

theorem Looked.tail (h : Looked order fd (x :: calls)) : Looked order fd calls :=
  fun before y after heq => h (x :: before) y after (by rw [heq, List.cons_append])

/-- A stretch does not end with a `START` that waits for its look. -/
theorem Looked.closed (h : Looked order fd calls) :
    ∀ x ∈ calls.getLast?, x.readsStart order fd = false := by
  intro x hx
  obtain ⟨before, rfl⟩ := List.getLast?_eq_some_iff.mp hx
  by_contra hstart
  obtain ⟨y, rest, hnil, -⟩ := h before x [] rfl (by simpa using hstart)
  cases hnil

/-- **The `START`s read** are those looked at, when each gets its look. -/
theorem Looked.startsRead (h : Looked order fd calls) :
    startsRead order fd calls = startTimes order fd calls := by
  induction calls with
  | nil => rfl
  | cons x calls ih =>
    rw [UhidBattery.startsRead, ih h.tail]
    cases hx : x.readsStart order fd with
    | false => exact (looksAfter_of_not hx).symm
    | true =>
      obtain ⟨y, rest, rfl, hy⟩ := h [] x calls rfl hx
      have hnow : y.now? = some y.time := by rw [Entry.now?, hy]
      rw [startTimes, startTimes, looksAfter, hx, List.head?_cons, Option.bind_some, hnow]
      rfl

theorem Looked.settleDues (h : Looked order fd calls) :
    settleDues order fd calls = startDues order fd calls := by
  rw [UhidBattery.settleDues, h.startsRead]
  rfl

theorem Answered.looked {buf : Buffer} (hx : x.call = .read b.handle.fd (.delivered buf))
    (h : Answered order b (eventOf order buf) o calls b') :
    Looked order b.handle.fd (x :: calls) := by
  have hrest : Looked order b.handle.fd calls := looked_of_undelivered (h.delivered_eq_nil _)
  intro before y after heq hstart
  rcases List.cons_eq_append_iff.mp heq with ⟨-, hy⟩ | ⟨before', -, hcalls⟩
  · obtain ⟨rfl, rfl⟩ := List.cons.inj hy
    rw [readsStart_of_read hx] at hstart
    have hev : eventOf order buf = .start := by simpa [ReadResult.event?] using hstart
    rw [hev] at h
    cases h with
    | scheduled z hz => exact ⟨z, [], rfl, hz⟩
    | overflow z hz ht => exact ⟨z, [], rfl, hz⟩
    | replied hm hb hw => cases hm
  · exact hrest before' y after hcalls hstart

theorem Handled.looked (h : Handled order b calls b') : Looked order b.handle.fd calls := by
  induction h with
  | nil => exact looked_of_undelivered rfl
  | @snoc calls calls' b₁ b₂ x buf h hx ha ih =>
    have hone := ha.looked hx
    rw [h.handle] at hone
    exact ih.append hone

/-- **Every `START` that a `service` reads gets its look**, however the call ends. -/
theorem Served.looked (h : Served order b o calls b') : Looked order b.handle.fd calls := by
  cases h with
  | pending h => exact h.looked
  | @readFailed calls b₁ x result e h hx hr =>
    rw [h.handle] at hx
    refine h.looked.append (looked_of_undelivered ?_)
    rw [delivered_of_read hx]
    cases result with
    | delivered buf => cases hr
    | eof => rfl
    | failed e => rfl
  | @unanswered calls calls' b₁ b₂ x buf o h hx ha hno =>
    have hone := ha.looked hx
    rw [h.handle] at hone
    exact h.looked.append hone
  | @emptied calls calls' b₁ b₂ x result o h hx hr hp =>
    rw [h.handle] at hx
    refine h.looked.append (looked_of_undelivered ?_)
    rw [← List.singleton_append, delivered_append, delivered_of_read hx,
      ReadResult.event?_of_outcome hr, hp.delivered_eq_nil]
    rfl

end Looked

end UhidBattery
