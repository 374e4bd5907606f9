import UhidBattery.Reuse

/-!
# Requests and replies over the life of a handle

The kernel waits for the reply to the request it sent, by its ID.

* `Served.paced`: what one `service` answers of what it reads.
* `replies_in_order`: over any number of devices, each reply that the kernel
  takes answers a request that was read before, none is answered twice, and the
  replies come in the order of the requests.
-/

namespace UhidBattery

open Record (ByteOrder)
open Program (Outcome)
open Runs (Along)

/-! ## Requests -/

inductive RequestKind where
  | get
  | set
  deriving DecidableEq, Repr

/-- What a request and its reply share. -/
structure Request where
  kind : RequestKind
  id : UInt32
  deriving DecidableEq, Repr

def Event.request? : Event → Option Request
  | .getReport id _ _ => some ⟨.get, id⟩
  | .setReport id => some ⟨.set, id⟩
  | .start | .ignored => none

/-- The request that a message replies to. -/
def Fake.Sent.request? : Fake.Sent → Option Request
  | .getReportReply id _ _ => some ⟨.get, id⟩
  | .setReportReply id _ => some ⟨.set, id⟩
  | _ => none

/-- The requests read from a descriptor. -/
def requested (order : ByteOrder) (fd : Fd) (calls : List Entry) : List Request :=
  (delivered fd calls).filterMap fun buf => (eventOf order buf).request?

/-- The requests that were replied to, by what the kernel took. -/
def answeredTo (order : ByteOrder) (fd : Fd) (calls : List Entry) : List Request :=
  (sent order fd calls).filterMap Fake.Sent.request?

/-- Some of the requests that were read are replied to, in order, each once. -/
def Paced (order : ByteOrder) (fd : Fd) (calls : List Entry) : Prop :=
  (answeredTo order fd calls).Sublist (requested order fd calls)

section Paced

variable {order : ByteOrder} {fd : Fd} {s t calls : List Entry}

theorem requested_append : requested order fd (s ++ t) =
    requested order fd s ++ requested order fd t := by
  rw [requested, delivered_append, List.filterMap_append]
  rfl

theorem answeredTo_append :
    answeredTo order fd (s ++ t) = answeredTo order fd s ++ answeredTo order fd t := by
  rw [answeredTo, sent_append, List.filterMap_append]
  rfl

theorem Paced.append (hs : Paced order fd s) (ht : Paced order fd t) : Paced order fd (s ++ t) := by
  rw [Paced, answeredTo_append, requested_append]
  exact List.Sublist.append hs ht

/-- Calls without a reply. -/
theorem paced_of_silent (h : ∀ m ∈ sent order fd calls, m.request? = none) :
    Paced order fd calls := by
  rw [Paced, answeredTo, List.filterMap_eq_nil_iff.mpr h]
  exact List.nil_sublist _

theorem paced_of_writes (h : writes fd calls = []) : Paced order fd calls :=
  paced_of_silent (by rw [sent_of_writes h]; simp)

theorem Written.paced {event : Buffer} {o : Outcome IoError Unit} (h : Written fd event o calls)
    (hm : (sentOf order event).request? = none) : Paced order fd calls := by
  apply paced_of_silent
  rcases h.sent_cases order with ⟨-, hs⟩ | ⟨-, hs⟩
  · rw [hs]
    simpa using hm
  · rw [hs]
    simp

end Paced

/-! ## One `service` -/

section Service

variable {order : ByteOrder} {b b' : Battery} {calls : List Entry} {o : Outcome IoError Unit}

/-- A reply is to the request it is made for. -/
theorem replyTo_request (b : Battery) (event : Event) :
    (b.replyTo event).bind Fake.Sent.request? = event.request? := by
  cases event with
  | start => rfl
  | ignored => rfl
  | setReport id => rfl
  | getReport id rnum rtype =>
    rw [Battery.replyTo]
    split <;> rfl

/-- **Every request of a prefix of the queue** is replied to. -/
theorem Handled.answeredTo_eq (h : Handled order b calls b') :
    answeredTo order b.handle.fd calls = requested order b.handle.fd calls := by
  rw [answeredTo, h.sent, List.filterMap_filterMap, requested]
  exact congrArg (fun f => List.filterMap f _) (funext fun buf => replyTo_request b _)

theorem Handled.paced (h : Handled order b calls b') : Paced order b.handle.fd calls := by
  rw [Paced, h.answeredTo_eq]

theorem Pushed.paced (h : Pushed order b o calls b') : Paced order b.handle.fd calls := by
  cases h with
  | idle hs => exact paced_of_writes rfl
  | early hs hx ht => exact paced_of_writes (writes_of_now hx _)
  | due hs hx ht hb hw =>
    rw [← List.singleton_append]
    exact (paced_of_writes (writes_of_now hx _)).append (hw.paced (by rw [hb]; rfl))

/-- An event that is read and then answered, or not. -/
theorem Answered.paced {x : Entry} {buf : Buffer}
    (hx : x.call = .read b.handle.fd (.delivered buf))
    (h : Answered order b (eventOf order buf) o calls b') :
    Paced order b.handle.fd (x :: calls) := by
  have hread : delivered b.handle.fd [x] = [buf] := delivered_of_read hx
  have hasked : requested order b.handle.fd (x :: calls) = (eventOf order buf).request?.toList := by
    rw [← List.singleton_append, requested_append, requested, requested, hread,
      h.delivered_eq_nil]
    cases hreq : (eventOf order buf).request? <;> simp [hreq]
  have hsilent : sent order b.handle.fd [x] = [] := sent_of_read hx order _
  rw [Paced, hasked, ← List.singleton_append, answeredTo_append, answeredTo, hsilent,
    List.filterMap_nil, List.nil_append]
  generalize eventOf order buf = event at h
  cases h with
  | scheduled y hy => rw [answeredTo, sent_of_now hy]; exact List.nil_sublist _
  | overflow y hy ht => rw [answeredTo, sent_of_now hy]; exact List.nil_sublist _
  | ignored => exact List.nil_sublist _
  | @replied _ m _ _ _ hm hb hw =>
    rw [← replyTo_request b, hm, Option.bind_some, answeredTo]
    rcases hw.sent_cases order with ⟨-, hs⟩ | ⟨-, hs⟩
    · rw [hs, hb]
      cases hreq : m.request? <;> simp [hreq]
    · rw [hs]
      exact List.nil_sublist _

/-- **What one `service` answers**, whatever its outcome. -/
theorem Served.paced (h : Served order b o calls b') : Paced order b.handle.fd calls := by
  cases h with
  | pending h => exact h.paced
  | @readFailed calls b₁ x result e h hx hr =>
    obtain ⟨slot, rfl⟩ := h.same
    exact h.paced.append (paced_of_writes (writes_of_read hx _))
  | @unanswered calls calls' b₁ b₂ x buf o h hx ha ho =>
    obtain ⟨slot, rfl⟩ := h.same
    have hpaced := Answered.paced (b := b.withRepush slot) hx ha
    rw [withRepush_handle] at hpaced
    exact h.paced.append hpaced
  | @emptied calls calls' b₁ b₂ x result o h hx hr hp =>
    obtain ⟨slot, rfl⟩ := h.same
    rw [← List.singleton_append]
    exact h.paced.append ((paced_of_writes (writes_of_read hx _)).append hp.paced)

end Service

/-! ## Any call -/

/-- The battery but for its slot, and calls that keep pace. -/
def KeepsPace (E : Env) (s s' : Battery × World) : Prop :=
  (∃ slot, s'.1 = s.1.withRepush slot) ∧
    ∃ calls, Ran E s.2 calls s'.2 ∧ Paced E.order s.1.handle.fd calls

instance (E : Env) : IsPreorder (Battery × World) (KeepsPace E) where
  refl s := ⟨⟨s.1.repushAt, withRepush_self s.1⟩, [], .nil s.2, paced_of_writes rfl⟩
  trans s₁ s₂ s₃ := by
    rintro ⟨⟨slot, h⟩, calls, hran, hp⟩ ⟨⟨slot', h'⟩, calls', hran', hp'⟩
    rw [h] at h' hp'
    exact ⟨⟨slot', h'⟩, _, hran.append hran', hp.append hp'⟩

theorem keepsPace_kept (E : Env) (rounds : Nat) : Kept E rounds (KeepsPace E) where
  own := by
    rintro ⟨b, w⟩
    obtain ⟨calls, hran, h⟩ := service_spec E rounds b w
    obtain ⟨slot, hb⟩ := h.same
    exact ⟨by rw [hb, withRepush_handle], ⟨slot, hb⟩, calls, hran, h.paced⟩
  other x w y hne := by
    obtain ⟨calls, hran, h⟩ := service_spec E rounds x w
    exact ⟨⟨_, withRepush_self y⟩, calls, hran, paced_of_writes (h.onlyOn.others hne).2⟩
  idle y w call hg hidle :=
    ⟨⟨_, withRepush_self y⟩, _, .single hg, paced_of_writes (writes_of_idle hidle _)⟩

section Calls

variable {order : ByteOrder} {handle : Handle} {calls : List Entry}

theorem Updated.paced {b b' : Battery} {reading : Reading} {o : Outcome IoError Unit}
    (h : Updated order b reading o calls b') : Paced order b.handle.fd calls := by
  cases h with
  | plain hf hb hw => exact hw.paced (by rw [hb]; rfl)
  | flipped hf hx hb hw =>
    rw [← List.singleton_append]
    exact (paced_of_writes (writes_of_now hx _)).append (hw.paced (by rw [hb]; rfl))
  | overflow hf hx => exact paced_of_writes (writes_of_now hx _)

theorem Destroyed.paced {ε : Type} {o : Outcome ε Handle} (h : Destroyed order handle o calls) :
    Paced order handle.fd calls := by
  cases h with
  | writing hb hw => exact hw.paced (by rw [hb]; rfl)
  | drained hb hw ho hd =>
    exact (hw.paced (by rw [hb]; rfl)).append (paced_of_writes (hd.writes_eq_nil _))

theorem Created.paced {identity : Identity} {kind : Kind} {reading : Reading}
    {o : Outcome CreateError Battery} (h : Created order handle identity kind reading o calls) :
    Paced order handle.fd calls := by
  cases h with
  | invalid hv => exact paced_of_writes rfl
  | refused hv hb hw => exact hw.paced (by rw [hb]; rfl)
  | creating hv hb hw => exact hw.paced (by rw [hb]; rfl)
  | created hv hb hw hp =>
    refine (hw.paced (by rw [hb]; rfl)).append ?_
    cases hp with
    | pushed hb' hw' => exact hw'.paced (by rw [hb']; rfl)
    | pushing hb' hw' => exact hw'.paced (by rw [hb']; rfl)
    | undone hb' hw' hd => exact (hw'.paced (by rw [hb']; rfl)).append hd.paced

theorem Step.keepsPace {E : Env} {s s' : InUse} {op : Op} (h : Step E s op s') :
    s'.battery.handle = s.battery.handle ∧
      ∃ calls, Ran E s.world calls s'.world ∧ Paced E.order s.battery.handle.fd calls := by
  by_cases hop : ∃ reading, op = .update reading
  · obtain ⟨reading, rfl⟩ := hop
    cases h with
    | update hs h =>
      obtain ⟨hran, hu⟩ := update_since h
      exact ⟨hu.same.1, _, hran, hu.paced⟩
  · have hne : ∀ reading, op ≠ .update reading := fun reading heq => hop ⟨reading, heq⟩
    obtain ⟨⟨slot, hb⟩, calls⟩ := h.kept (keepsPace_kept E)
      (fun b w calls w' hran hr hw => ⟨⟨_, withRepush_self b⟩, calls, hran, paced_of_writes hw⟩) hne
    have hb' : s'.battery = s.battery.withRepush slot := hb
    exact ⟨by rw [hb', withRepush_handle], calls⟩

end Calls

/-! ## The life of a handle -/

/-- The descriptor in question is the one the owner has. -/
def Owned.OnFd (fd : Fd) : Owned → Prop
  | .free handle _ => handle.fd = fd
  | .device s => s.battery.handle.fd = fd
  | .inside _ => True

theorem Owns.paced {E : Env} {fd : Fd} {s s' : Owned} {op : LifeOp} (h : Owns E s op s')
    (hs : s.OnFd fd) :
    s'.OnFd fd ∧ ∃ calls, Ran E s.world calls s'.world ∧ Paced E.order fd calls := by
  cases h with
  | created h =>
    obtain ⟨hran, hc⟩ := create_since h
    have hhandle := congrArg Battery.handle hc.new.1
    obtain rfl := hs
    exact ⟨congrArg Handle.fd hhandle, _, hran, hc.paced⟩
  | refused h =>
    obtain ⟨hran, hc⟩ := create_since h
    obtain rfl := hs
    exact ⟨congrArg Handle.fd hc.err_handle, _, hran, hc.paced⟩
  | creating h ho =>
    obtain ⟨hran, hc⟩ := create_since h
    obtain rfl := hs
    exact ⟨trivial, _, hran, hc.paced⟩
  | call h =>
    obtain ⟨hhandle, calls, hran, hp⟩ := h.keepsPace
    obtain rfl := hs
    exact ⟨congrArg Handle.fd hhandle, calls, hran, hp⟩
  | destroyed hret h =>
    obtain ⟨hran, hd⟩ := destroy_since h
    obtain rfl := hs
    exact ⟨congrArg Handle.fd hd.ok_handle, _, hran, hd.paced⟩
  | destroying hret h ho =>
    obtain ⟨hran, hd⟩ := destroy_since h
    obtain rfl := hs
    exact ⟨trivial, _, hran, hd.paced⟩
  | elsewhere h hr hw =>
    obtain rfl := hs
    exact ⟨rfl, _, h, paced_of_writes hw⟩

/-- **Replies in order, each to a request that was read, none twice**: over every
run of a handle, through any number of devices and failures. -/
theorem replies_in_order (E : Env) (handle : Handle) (w : World) (run : List (LifeOp × Owned))
    (hrun : Along (Owns E) (.free handle w) run) :
    ∀ x ∈ run, (answeredTo E.order handle.fd (w.since x.2.world)).Sublist
      (requested E.order handle.fd (w.since x.2.world)) := by
  have hall := hrun.invariant (P := fun x : Owned => x.OnFd handle.fd ∧
      ∃ calls, Ran E w calls x.world ∧ Paced E.order handle.fd calls)
    ⟨rfl, [], .nil w, paced_of_writes rfl⟩ ?_
  · intro x hx
    obtain ⟨-, calls, hran, hp⟩ := hall x hx
    rw [hran.since]
    exact hp
  · rintro s op s' h ⟨hfd, calls, hran, hp⟩
    obtain ⟨hfd', calls', hran', hp'⟩ := h.paced hfd
    exact ⟨hfd', _, hran.append hran', hp.append hp'⟩

/-- A system at rest that refuses the eighth call if it is a write. -/
def Env.refusingEighth : Env where
  __ := Env.calm .little 0
  write history _ _ := if history.length = 7 then .fails (.other 5) else .took eventSize

def fourRequests : World := .queueing
  [Fake.built (Fake.getReport .little 7 2 rtypeInput), Fake.built (Fake.setReport .little 8 2 0),
    Fake.built (Fake.getReport .little 9 2 rtypeInput), Fake.built (Fake.setReport .little 10 2 0)]

theorem fourRequests_served {w : World}
    (hw : w = (Battery.create .refusingEighth 1 ⟨3⟩ (.new "Mouse" "mouse-1") .mouse ⟨50, false⟩
      fourRequests).2) :
    (Battery.service .refusingEighth 3 (mouse 3, w)).1 = .err (.os (.other 5)) ∧
    requested .little 3 (fourRequests.since (Battery.service .refusingEighth 3
      (Battery.service .refusingEighth 3 (mouse 3, w)).2).2.2) =
      [⟨.get, 7⟩, ⟨.set, 8⟩, ⟨.get, 9⟩, ⟨.set, 10⟩] ∧
    answeredTo .little 3 (fourRequests.since (Battery.service .refusingEighth 3
      (Battery.service .refusingEighth 3 (mouse 3, w)).2).2.2) =
      [⟨.get, 7⟩, ⟨.set, 8⟩, ⟨.set, 10⟩] := by
  rw [hw]
  decide +kernel

/-- A mouse with four requests before it: the reply to the third is refused, which
ends the first of two services. -/
theorem replies_in_order_mouse : ∃ s₁ s₂ s₃,
    Along (Owns .refusingEighth) (.free ⟨3⟩ fourRequests)
      [(.create (.new "Mouse" "mouse-1") .mouse ⟨50, false⟩, s₁), (.call .service, s₂),
        (.call .service, s₃)] ∧
    requested .little 3 (fourRequests.since s₃.world) =
      [⟨.get, 7⟩, ⟨.set, 8⟩, ⟨.get, 9⟩, ⟨.set, 10⟩] ∧
    answeredTo .little 3 (fourRequests.since s₃.world) =
      [⟨.get, 7⟩, ⟨.set, 8⟩, ⟨.set, 10⟩] ∧
    (answeredTo .little 3 (fourRequests.since s₃.world)).Sublist
      (requested .little 3 (fourRequests.since s₃.world)) := by
  have htakes : ∀ history event, history.length ≤ 1 →
      Env.refusingEighth.write history 3 event = .took eventSize :=
    fun history event h => if_neg (by omega)
  obtain ⟨w, hcreate, -⟩ := create_of_took .refusingEighth 0 ⟨3⟩ (.new "Mouse" "mouse-1") .mouse
    ⟨50, false⟩ fourRequests (by decide) htakes
  obtain ⟨ho, hrequested, hanswered⟩ := fourRequests_served (w := w) (by rw [hcreate])
  rcases h₁ : Battery.service .refusingEighth 3 (mouse 3, w) with ⟨o₁, b₁, w₁⟩
  rw [h₁] at ho hrequested hanswered
  rcases h₂ : Battery.service .refusingEighth 3 (b₁, w₁) with ⟨o₂, b₂, w₂⟩
  rw [h₂] at hrequested hanswered
  have hreturned : o₁.Returned := by
    rw [show o₁ = _ from ho]
    trivial
  have hrun : Along (Owns .refusingEighth) (.free ⟨3⟩ fourRequests)
      [(.create (.new "Mouse" "mouse-1") .mouse ⟨50, false⟩, _), (.call .service, _),
        (.call .service, _)] :=
    ⟨.created hcreate, .call (.service trivial h₁), .call (.service hreturned h₂), trivial⟩
  exact ⟨_, _, _, hrun, hrequested, hanswered,
    replies_in_order .refusingEighth ⟨3⟩ fourRequests _ hrun (.call .service, _) (by simp)⟩

end UhidBattery
