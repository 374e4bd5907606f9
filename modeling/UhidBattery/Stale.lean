import UhidBattery.Answers
import UhidBattery.Published

/-!
# Events of a dead device

`destroy` drains the queue, and a read takes an interruption for an empty queue.
The events read from a descriptor are numbered from the moment `destroy` is
called: the first ones are those that were queued then.

* `no_stale_event_iff`: a later battery never reads one of them, exactly when no
  read of the drain is interrupted that would have taken one.
* `stale_start`: a later battery that is handed a `START` of its predecessor's.
-/

namespace UhidBattery

open Program (Outcome Guarantees loop)
open Runs (Along)

/-! ## Numbered events -/

/-- No event read from `w₂` to `w₃` was queued at `w`: its number is past those. -/
def NoneStale (fd : Fd) (w w₂ w₃ : World) : Prop :=
  ∀ i < (delivered fd (w₂.since w₃)).length,
    (w.queue fd).length ≤ (delivered fd (w.since w₂)).length + i

/-! ## The drain -/

theorem reads_of_deliveries {fd : Fd} {calls : List Entry}
    (h : ∀ y ∈ calls, ∃ buf, y.call = .read fd (.delivered buf)) :
    reads fd calls = (delivered fd calls).map .delivered := by
  induction calls with
  | nil => rfl
  | cons y rest ih =>
    obtain ⟨⟨buf, hy⟩, hrest⟩ := List.forall_mem_cons.mp h
    have hone : reads fd [y] = [.delivered buf] := by
      simp [reads, Entry.read?, hy]
    rw [← List.singleton_append, reads_append, delivered_append, ih hrest, hone,
      delivered_of_read hy]
    rfl

/-- How a `destroy` that returned went: reads that gave events, then one that did not. -/
theorem destroy_of_ok {ε : Type} {E : Env} {rounds : Nat} {b : Battery} {w w₁ : World}
    {handle : Handle} (h : (b.destroy E rounds : Program World ε Handle) w = (.ok handle, w₁)) :
    handle = b.handle ∧ ∃ before last result, Ran E w (before ++ [last]) w₁ ∧
      reads b.handle.fd before = (delivered b.handle.fd before).map .delivered ∧
      last.call = .read b.handle.fd result ∧ result.event? = none := by
  obtain ⟨hran, hd⟩ := destroy_since h
  generalize hcalls : w.since w₁ = calls at hran hd
  generalize ho : (Outcome.ok handle : Outcome ε Handle) = o at hd
  cases hd with
  | writing hb hw => cases ho
  | @drained buf o o' calls calls' hb hw hret hdrain =>
    cases hdrain with
    | draining calls' hc => cases ho
    | stopped calls' x result hc hx hr =>
      cases ho
      refine ⟨rfl, calls ++ calls', x, result, by rw [List.append_assoc]; exact hran, ?_, hx, hr⟩
      rw [reads_append, delivered_append, hw.reads_eq_nil, hw.delivered_eq_nil]
      exact reads_of_deliveries hc

section Drain

variable {E : Env} {fd : Fd} {w w₁ : World} {before : List Entry} {last : Entry}
  {result : ReadResult}

theorem delivered_drained (hx : last.call = .read fd result) (hr : result.event? = none) :
    delivered fd (before ++ [last]) = delivered fd before := by
  rw [delivered_append, delivered_of_read hx, hr]
  exact List.append_nil _

/-- The read that ends a drain while something is still queued was interrupted. -/
theorem interrupted_of_queued (hread : ∀ h, E.read h fd = .serve ∨ E.read h fd = .fails .intr)
    (hran : Ran E w (before ++ [last]) w₁) (hx : last.call = .read fd result)
    (hr : result.event? = none) (hlt : (delivered fd before).length < (w.queue fd).length) :
    result = .failed .intr := by
  obtain ⟨w₂, hbefore, -, hres⟩ := hran.last_read hx
  rcases hread w₂.history with hserve | hintr
  · rcases readResult_of_serve E hserve with ⟨buf, rest, -, hdel⟩ | ⟨hnil, -⟩
    · rw [hres, hdel] at hr
      cases hr
    · have hlen := congrArg List.length (hbefore.queue fd)
      rw [(List.append_eq_nil_iff.mp hnil).1, List.append_nil, List.length_append] at hlen
      omega
  · rw [hres, World.readResult, hintr]
    rfl

/-- **The drain takes all that was queued** exactly when it is not interrupted on the way. -/
theorem drained_iff (hread : ∀ h, E.read h fd = .serve ∨ E.read h fd = .fails .intr)
    (hran : Ran E w (before ++ [last]) w₁)
    (hreads : reads fd before = (delivered fd before).map .delivered)
    (hx : last.call = .read fd result) (hr : result.event? = none) :
    (w.queue fd).length ≤ (delivered fd (before ++ [last])).length ↔
      ∀ r ∈ (reads fd (before ++ [last])).take (w.queue fd).length, r ≠ .failed .intr := by
  have hone : reads fd [last] = [result] := by simp [reads, Entry.read?, hx]
  rw [delivered_drained hx hr, reads_append, hreads, hone]
  constructor
  · intro hle r hmem
    rw [List.take_append_of_le_length (by rw [List.length_map]; exact hle)] at hmem
    obtain ⟨buf, -, rfl⟩ := List.mem_map.mp (List.mem_of_mem_take hmem)
    simp
  · intro h
    apply Nat.le_of_not_lt
    intro hlt
    have hintr := interrupted_of_queued hread hran hx hr hlt
    refine h result ?_ hintr
    rw [List.take_append, List.length_map]
    refine List.mem_append_right _ ?_
    obtain ⟨k, hk⟩ : ∃ k, (w.queue fd).length - (delivered fd before).length = k + 1 :=
      ⟨(w.queue fd).length - (delivered fd before).length - 1, by omega⟩
    rw [hk]
    exact List.mem_cons_self

end Drain

/-! ## The next device -/

/-- The system went on. -/
def Later (E : Env) (s s' : Battery × World) : Prop := ∃ calls, Ran E s.2 calls s'.2

instance (E : Env) : IsPreorder (Battery × World) (Later E) where
  refl s := ⟨[], .nil s.2⟩
  trans s₁ s₂ s₃ := by
    rintro ⟨calls, hran⟩ ⟨calls', hran'⟩
    exact ⟨_, hran.append hran'⟩

/-- The first thing `service` does is to read the head of its queue. -/
theorem service_reads {E : Env} {b : Battery} {w : World} {buf : Buffer} (rounds : Nat)
    (h : w.readResult E b.handle.fd = .delivered buf) :
    ∃ calls, Ran E w (w.entry E (.read b.handle.fd (.delivered buf)) :: calls)
      (Battery.service E (rounds + 1) (b, w)).2.2 := by
  have hbody : Guarantees (Later E) (Battery.serviceOnce E (rounds + 1)) := fun s => by
    obtain ⟨calls, hran, -⟩ := serviceOnce_spec E (rounds + 1) s.1 s.2
    exact ⟨calls, hran⟩
  have hpush : Guarantees (Later E) (pushIfDue E (rounds + 1)) := fun s => by
    obtain ⟨calls, hran, -⟩ := pushIfDue_spec E (rounds + 1) s.1 s.2
    exact ⟨calls, hran⟩
  have hfirst : Later E (b, w.next E (.read b.handle.fd (.delivered buf)))
      (Battery.serviceOnce E (rounds + 1) (b, w)).2 := by
    rw [serviceOnce_of_delivered E (rounds + 1) b w h]
    obtain ⟨calls, hran, -⟩ := answer_spec E b (rounds + 1)
      (w.next E (.read b.handle.fd (.delivered buf))) (eventOf E.order buf)
    exact ⟨calls, hran⟩
  have hloop : Later E (Battery.serviceOnce E (rounds + 1) (b, w)).2
      (loop (Battery.serviceOnce E (rounds + 1)) (rounds + 1) (b, w)).2 := by
    refine Program.guarantees_after (fun r => ?_) (b, w)
    cases r with
    | some u => exact Program.guarantees_pure _
    | none => exact Program.guarantees_loop hbody rounds
  have hrest : Later E (loop (Battery.serviceOnce E (rounds + 1)) (rounds + 1) (b, w)).2
      (Battery.service E (rounds + 1) (b, w)).2 := by
    rw [service_def]
    exact Program.guarantees_after (fun _ => hpush) (b, w)
  obtain ⟨calls, hran⟩ := trans_of (Later E) (trans_of (Later E) hfirst hloop) hrest
  exact ⟨calls, .cons h.symm hran⟩

theorem delivered_of_service {E : Env} {b : Battery} {w : World} {buf : Buffer} (rounds : Nat)
    (h : w.readResult E b.handle.fd = .delivered buf) :
    ∃ more, delivered b.handle.fd (w.since (Battery.service E (rounds + 1) (b, w)).2.2) =
      buf :: more := by
  obtain ⟨calls, hran⟩ := service_reads rounds h
  refine ⟨delivered b.handle.fd calls, ?_⟩
  rw [hran.since, ← List.singleton_append, delivered_append,
    delivered_of_read (World.entry_call E w _)]
  rfl

/-- A device created on a handle with an event left in its queue. -/
theorem successor {E : Env} {fd : Fd} {w₁ : World} {event : Buffer} {rest : List Buffer}
    (hq : w₁.queue fd = event :: rest)
    (hwrite : ∀ h buf, h.length ≤ w₁.history.length + 1 → E.write h fd buf = .took eventSize)
    (hserve : ∀ h, h.length = w₁.history.length + 2 → E.read h fd = .serve) :
    ∃ w₂, Battery.create E 1 ⟨fd⟩ (.new "Mouse" "mouse-1") .mouse ⟨50, false⟩ w₁ =
        (.ok (mouse fd), w₂) ∧
      w₂.history.length = w₁.history.length + 2 ∧ delivered fd (w₁.since w₂) = [] ∧
      w₂.queue fd = event :: rest ++ arrived fd (w₁.since w₂) ∧
      w₂.readResult E fd = .delivered event := by
  obtain ⟨w₂, hcreate, hlen⟩ := create_of_took E 0 ⟨fd⟩ (.new "Mouse" "mouse-1") .mouse
    ⟨50, false⟩ w₁ (by decide) hwrite
  obtain ⟨hran, hc⟩ := create_since hcreate
  have hsilent : delivered fd (w₁.since w₂) = [] := hc.delivered_eq_nil fd
  have hqueue : w₂.queue fd = event :: rest ++ arrived fd (w₁.since w₂) := by
    rw [hran.queue_of_unread hsilent, hq]
  refine ⟨w₂, hcreate, hlen, hsilent, hqueue, ?_⟩
  rw [World.readResult, hserve _ hlen, hqueue]
  rfl

/-- An event left in the queue is read by the next device on it. -/
theorem left_event_read {fd : Fd} {w₁ : World} {event : Buffer} {rest : List Buffer}
    (hq : w₁.queue fd = event :: rest) :
    ∃ w₂ calls s, Battery.create (.calm .little 0) 1 ⟨fd⟩ (.new "Mouse" "mouse-1") .mouse
        ⟨50, false⟩ w₁ = (.ok (mouse fd), w₂) ∧
      Ran (.calm .little 0) w₁ calls w₂ ∧ delivered fd calls = [] ∧
      Along (Step (.calm .little 0)) ⟨⟨50, false⟩, mouse fd, w₂, True⟩ [(.service, s)] ∧
      0 < (delivered fd (w₂.since s.world)).length := by
  obtain ⟨w₂, hcreate, -, hsilent, -, hhead⟩ :=
    successor (E := .calm .little 0) hq (fun _ _ _ => rfl) fun _ _ => rfl
  obtain ⟨hran, -⟩ := create_since hcreate
  obtain ⟨more, hdelivered⟩ := delivered_of_service (b := mouse fd) 0 hhead
  rcases hservice : Battery.service (.calm .little 0) (0 + 1) (mouse fd, w₂) with ⟨o, b', w₃⟩
  rw [hservice] at hdelivered
  have hsome : delivered fd (w₂.since w₃) = event :: more := hdelivered
  refine ⟨w₂, _, _, hcreate, hran, hsilent, ⟨.service trivial hservice, trivial⟩, ?_⟩
  rw [hsome]
  exact Nat.succ_pos _

/-! ## No event of a dead device reaches the next one -/

/-- **No event of a dead device reaches the next one**, whatever the system does
later, exactly when none of the drain's reads is interrupted among as many as
there were events queued when `destroy` was called. -/
theorem no_stale_event_iff (ε : Type) (E : Env) (rounds : Nat) (b : Battery) (handle : Handle)
    (w w₁ : World)
    (hread : ∀ h, E.read h b.handle.fd = .serve ∨ E.read h b.handle.fd = .fails .intr)
    (h : (b.destroy E rounds : Program World ε Handle) w = (.ok handle, w₁)) :
    (∀ E' calls w₂, Ran E' w₁ calls w₂ → ∀ rounds' identity kind reading b' w₃,
      Battery.create E' rounds' handle identity kind reading w₂ = (.ok b', w₃) →
        ∀ run, Along (Step E') ⟨reading, b', w₃, True⟩ run →
          ∀ x ∈ run, NoneStale b.handle.fd w w₃ x.2.world) ↔
      ∀ r ∈ (reads b.handle.fd (w.since w₁)).take (w.queue b.handle.fd).length,
        r ≠ .failed .intr := by
  obtain ⟨rfl, before, last, result, hran, hreads, hx, hr⟩ := destroy_of_ok h
  rw [hran.since, ← drained_iff hread hran hreads hx hr]
  constructor
  · intro hnone
    apply Nat.le_of_not_lt
    intro hlt
    have hlen := congrArg List.length (hran.queue b.handle.fd)
    rw [List.length_append, List.length_append] at hlen
    obtain ⟨event, rest, hq⟩ : ∃ event rest, w₁.queue b.handle.fd = event :: rest :=
      List.exists_cons_of_length_pos (by omega)
    obtain ⟨w₂, calls, s, hcreate, hran₂, hsilent, hrun, hsome⟩ := left_event_read hq
    have hfirst := hnone _ [] w₁ (.nil w₁) 1 _ _ _ _ w₂ hcreate _ hrun _ List.mem_cons_self 0 hsome
    rw [hran.since_append hran₂, delivered_append, hsilent, List.append_nil] at hfirst
    omega
  · intro hle E' calls w₂ hran₂ rounds' identity kind reading b' w₃ hcreate run _ x _ i _
    obtain ⟨hran₃, -⟩ := create_since hcreate
    rw [hran.since_append (hran₂.append hran₃), delivered_append, List.length_append]
    omega

/-- A mouse whose queue holds one event. -/
def World.holding (event : Buffer) : World := ⟨fun _ => [event], []⟩

/-- A drain that nothing interrupts. -/
theorem no_stale_event_iff_calm :
    ∃ w₁, ((mouse 3).destroy (.calm .little 0) 2 : Program World IoError Handle)
        (.holding (zeroed eventSize)) = (.ok ⟨3⟩, w₁) ∧
      ∀ E' calls w₂, Ran E' w₁ calls w₂ → ∀ rounds' identity kind reading b' w₃,
        Battery.create E' rounds' ⟨3⟩ identity kind reading w₂ = (.ok b', w₃) →
          ∀ run, Along (Step E') ⟨reading, b', w₃, True⟩ run →
            ∀ x ∈ run, NoneStale 3 (.holding (zeroed eventSize)) w₃ x.2.world := by
  generalize zeroed eventSize = event
  obtain ⟨buf, hdestroy⟩ := destroy_of_took IoError (.calm .little 0) 1 (mouse 3) (.holding event)
    fun _ => rfl
  have hcalm : ((mouse 3).destroy (.calm .little 0) 2 : Program World IoError Handle)
      (.holding event) = (.ok ⟨3⟩, (((World.holding event).next (.calm .little 0)
        (.write 3 buf (.took eventSize))).next (.calm .little 0) (.read 3 (.delivered event))).next
          (.calm .little 0) (.read 3 (.failed .again))) := by
    rw [hdestroy, drain_handle_apply, drain_succ, drain_succ]
    rfl
  refine ⟨_, hcalm, (no_stale_event_iff IoError (.calm .little 0) 2 (mouse 3) ⟨3⟩ (.holding event) _
    (fun _ => Or.inl rfl) hcalm).mpr fun r hr => ?_⟩
  have hreads : r ∈ [ReadResult.delivered event] := hr
  rw [List.mem_singleton.mp hreads]
  simp

/-- A system that interrupts the second call, a read, and nothing else. -/
def Env.interrupting : Env where
  __ := Env.calm .little 0
  read history _ := if history.length = 1 then .fails .intr else .serve

theorem interrupted_destroy (event : Buffer) :
    ∃ w₁, ((mouse 3).destroy .interrupting 1 : Program World IoError Handle) (.holding event) =
        (.ok ⟨3⟩, w₁) ∧ w₁.queue 3 = [event] ∧ w₁.history.length = 2 := by
  obtain ⟨buf, hdestroy⟩ := destroy_of_took IoError .interrupting 0 (mouse 3) (.holding event)
    fun _ => rfl
  refine ⟨((World.holding event).next .interrupting (.write 3 buf (.took eventSize))).next
    .interrupting (.read 3 (.failed .intr)), ?_, rfl, rfl⟩
  rw [hdestroy, drain_handle_apply, drain_succ]
  rfl

/-- A `START` in the queue schedules a push. -/
theorem interrupting_service {event : Buffer} {w : World} (hq : w.queue 3 = [event])
    (hlen : 2 ≤ w.history.length) (he : eventOf .little event = .start) :
    ∃ w', Battery.service .interrupting 2 (mouse 3, w) =
      (.ok (), ((mouse 3).withRepush (some startSettleDelay), w')) := by
  have hserve (history : List Entry) (h : 2 ≤ history.length) :
      Env.interrupting.read history 3 = .serve := if_neg (by omega)
  have htime (history : List Entry) : Env.interrupting.time history = 0 := rfl
  have hdue : (0 : Nat) + startSettleDelay < instantEnd := by decide
  have hloop := serviceLoop_of_start .interrupting 2 (mouse 3) w 0 he hq (fun _ => rfl)
    (fun history h => hserve history (hlen.trans h)) (by rw [htime]; exact hdue)
  rw [htime, Nat.zero_add] at hloop
  have hearly : ¬ startSettleDelay ≤ 0 := by decide
  rw [service_def]
  exact ⟨_, (Program.bind_ok hloop).trans
    (pushIfDue_of_early .interrupting 2 ((mouse 3).withRepush (some startSettleDelay)) _ rfl hearly)⟩

/-- The mouse's `START` is still queued when its handle comes back, and the next
device on it schedules a push for it. -/
theorem stale_start :
    ∃ event w₁ w₂ w₃, eventOf .little event = .start ∧
      ((mouse 3).destroy .interrupting 1 : Program World IoError Handle) (.holding event) =
        (.ok ⟨3⟩, w₁) ∧
      Battery.create .interrupting 1 ⟨3⟩ (.new "Mouse" "mouse-1") .mouse ⟨50, false⟩ w₁ =
        (.ok (mouse 3), w₂) ∧
      Battery.service .interrupting 2 (mouse 3, w₂) =
        (.ok (), ((mouse 3).withRepush (some startSettleDelay), w₃)) ∧
      ¬ NoneStale 3 (.holding event) w₂ w₃ := by
  obtain ⟨event, -, hdecode⟩ := start_decodes .little
  rw [decode_eq, Outcome.ok.injEq] at hdecode
  obtain ⟨w₁, hdestroy, hq, hlen⟩ := interrupted_destroy event
  obtain ⟨w₂, hcreate, hlen₂, hsilent, hq₂, hread⟩ :=
    successor (E := .interrupting) hq (fun _ _ _ => rfl)
      fun h hh => if_neg (by rw [hh, hlen]; decide)
  obtain ⟨-, before, last, result, hran, -, hx, hr⟩ := destroy_of_ok hdestroy
  obtain ⟨hran₂, -⟩ := create_since hcreate
  have harrived₂ : arrived 3 (w₁.since w₂) = [] := hran₂.arrived_eq_nil fun _ => rfl
  rw [harrived₂] at hq₂
  obtain ⟨w₃, hservice⟩ := interrupting_service hq₂ (by omega) hdecode
  obtain ⟨more, hdelivered⟩ := delivered_of_service (b := mouse 3) 1 hread
  rw [hservice] at hdelivered
  refine ⟨event, w₁, w₂, w₃, hdecode, hdestroy, hcreate, hservice, ?_⟩
  intro hnone
  have hsome : delivered 3 (w₂.since w₃) = event :: more := hdelivered
  have hfirst := hnone 0 (by rw [hsome]; exact Nat.succ_pos _)
  have hnothing := congrArg List.length (hran.queue 3)
  have harrived : arrived 3 (before ++ [last]) = [] := hran.arrived_eq_nil fun _ => rfl
  rw [hq, harrived, List.length_append, List.length_append] at hnothing
  rw [hran.since_append hran₂, delivered_append, hsilent, List.append_nil] at hfirst
  simp only [World.holding, List.length_singleton, List.length_nil] at hnothing hfirst
  omega

end UhidBattery
