import UhidBattery.Turns
import UhidBattery.Announce

/-!
# Waiting for the power supply

`wait_for_power_supply` goes in rounds: service, look at sysfs, read the clock,
serve for a stretch.  A round whose look found nothing before the deadline is
followed by another, whatever ended its stretch.

* `lookOnce_cases`: a turn of the loop is a `Round`, or the `LastRound`.
* `serveUntil_blind`: nothing but these looks reads sysfs.
* `waitForPowerSupply_awaited`: what a whole wait comes to, and what its looks
  and clock readings show.
-/

namespace UhidBattery

open Program (Outcome Guarantees Turn loop borrow)
open Program.Outcome (SameFailure)
open Relation (ReflTransGen)

/-! ## Rounds -/

section Rounds

variable (E : Env) (rounds : Nat) (deadline : Option Instant)

/-- What a look made in `s` finds. -/
def lookedUp (s : Battery × World) : Option Path :=
  findPowerSupplyIn powerSupplyClass (E.listing s.2.history) s.1.uniq

/-- The system after a look. -/
def afterLook (w : World) : World := w.next E (.readDir (E.listing w.history))

/-- The clock reading that follows a look. -/
def clockAfter (w : World) : Instant := E.time (afterLook E w).history

/-- The system after a look, and the clock reading that follows it. -/
def afterClock (w : World) : World := (afterLook E w).next E .now

/-- The battery was serviced, and the look after that found nothing. -/
structure Missed (s s₁ : Battery × World) : Prop where
  serviced : Battery.service E rounds s = (.ok (), s₁)
  nothing : lookedUp E s₁ = none

/-- How long the stretch goes on that begins at clock reading `t`. -/
structure StretchEnd (t d : Instant) : Prop where
  fits : t + registrationPoll < instantEnd
  soon : d ≤ t + registrationPoll
  inTime : ∀ overall, deadline = some overall → d ≤ overall
  exact : d = t + registrationPoll ∨ deadline = some d

/-- A round that is followed by another: the deadline had not passed, and the stretch
of serving ended, whatever ended it. -/
inductive Round (s s' : Battery × World) : Prop where
  | intro {s₁ : Battery × World} {d : Instant} {wakeup : Wakeup} (hm : Missed E rounds s s₁)
      (he : ¬ PastDeadline E deadline (afterLook E s₁.2))
      (hd : StretchEnd deadline (clockAfter E s₁.2) d)
      (hs : Battery.serveUntil E rounds d none (s₁.1, afterClock E s₁.2) = (.ok wakeup, s'))

/-- A round that ends the wait. -/
inductive LastRound (s : Battery × World) :
    Outcome IoError (Option Path) → Battery × World → Prop where
  | found {s₁ : Battery × World} {path : Path} (hs : Battery.service E rounds s = (.ok (), s₁))
      (hl : lookedUp E s₁ = some path) : LastRound s (.ok (some path)) (s₁.1, afterLook E s₁.2)
  | gaveUp {s₁ : Battery × World} (hm : Missed E rounds s s₁)
      (hp : PastDeadline E deadline (afterLook E s₁.2)) :
      LastRound s (.ok none) (s₁.1, afterClock E s₁.2)
  | overflow {s₁ : Battery × World} (hm : Missed E rounds s s₁)
      (he : ¬ PastDeadline E deadline (afterLook E s₁.2))
      (ho : instantEnd ≤ clockAfter E s₁.2 + registrationPoll) :
      LastRound s .panic (s₁.1, afterClock E s₁.2)
  | unserviced {o : Outcome IoError Unit} {o' : Outcome IoError (Option Path)}
      {s' : Battery × World} (h : Battery.service E rounds s = (o, s')) (ho : SameFailure o o') :
      LastRound s o' s'
  | unserved {s₁ s' : Battery × World} {d : Instant} {o : Outcome IoError Wakeup}
      {o' : Outcome IoError (Option Path)} (hm : Missed E rounds s s₁)
      (he : ¬ PastDeadline E deadline (afterLook E s₁.2))
      (hd : StretchEnd deadline (clockAfter E s₁.2) d)
      (hs : Battery.serveUntil E rounds d none (s₁.1, afterClock E s₁.2) = (o, s'))
      (ho : SameFailure o o') : LastRound s o' s'

/-- A wait of at most so many rounds, from `s`. -/
inductive Waited : Nat → Battery × World → Outcome IoError (Option Path) → Battery × World → Prop
    where
  | again {n : Nat} {s s₁ s' : Battery × World} {o : Outcome IoError (Option Path)}
      (h : Round E rounds deadline s s₁) (hw : Waited n s₁ o s') : Waited (n + 1) s o s'
  | last {n : Nat} {s s' : Battery × World} {o : Outcome IoError (Option Path)}
      (h : LastRound E rounds deadline s o s') : Waited (n + 1) s o s'
  | unfinished (s : Battery × World) : Waited 0 s .pending s

section Equations

variable {E rounds deadline} {s s₁ s' : Battery × World}

theorem lookOnce_of_found {path : Path} (hs : Battery.service E rounds s = (.ok (), s₁))
    (hl : lookedUp E s₁ = some path) :
    Battery.lookOnce E rounds deadline s =
      (.ok (some (some path)), (s₁.1, afterLook E s₁.2)) := by
  have hlook : (borrow fun self => self.powerSupply E :
      Program (Battery × World) IoError (Option Path)) s₁ =
        (.ok (some path), (s₁.1, afterLook E s₁.2)) := by
    rw [← hl]
    rfl
  unfold Battery.lookOnce
  rw [Program.bind_ok hs, Program.bind_ok hlook]
  rfl

/-- After a look that found nothing, the clock is read. -/
theorem lookOnce_of_missed (hm : Missed E rounds s s₁) :
    Battery.lookOnce E rounds deadline s =
      (if deadline.any fun d => decide (d ≤ clockAfter E s₁.2) then pure (some none)
      else
        match checkedAdd (clockAfter E s₁.2) registrationPoll with
        | none => Program.ofOutcome .panic
        | some next => do
          let _ ← Battery.serveUntil E rounds (deadline.elim next fun d => min d next) none
          pure none : Program (Battery × World) IoError (Option (Option Path)))
        (s₁.1, afterClock E s₁.2) := by
  have hlook : (borrow fun self => self.powerSupply E :
      Program (Battery × World) IoError (Option Path)) s₁ =
        (.ok none, (s₁.1, afterLook E s₁.2)) := by
    rw [← hm.nothing]
    rfl
  have hnow : (borrow fun _ => sysNow E : Program (Battery × World) IoError Instant)
      (s₁.1, afterLook E s₁.2) = (.ok (clockAfter E s₁.2), (s₁.1, afterClock E s₁.2)) := rfl
  unfold Battery.lookOnce
  rw [Program.bind_ok hm.serviced, Program.bind_ok hlook]
  refine Eq.trans (Program.bind_ok hnow) ?_
  cases checkedAdd (clockAfter E s₁.2) registrationPoll <;> rfl

theorem any_le_iff {w : World} :
    (deadline.any fun d => decide (d ≤ E.time w.history)) = true ↔ PastDeadline E deadline w := by
  cases deadline with
  | none => simp [PastDeadline]
  | some d => simp [PastDeadline]

theorem lookOnce_of_past (hm : Missed E rounds s s₁)
    (hp : PastDeadline E deadline (afterLook E s₁.2)) :
    Battery.lookOnce E rounds deadline s = (.ok (some none), (s₁.1, afterClock E s₁.2)) := by
  rw [lookOnce_of_missed hm, clockAfter, if_pos (any_le_iff.mpr hp)]
  rfl

theorem lookOnce_of_overflow (hm : Missed E rounds s s₁)
    (he : ¬ PastDeadline E deadline (afterLook E s₁.2))
    (ho : checkedAdd (clockAfter E s₁.2) registrationPoll = none) :
    Battery.lookOnce E rounds deadline s = (.panic, (s₁.1, afterClock E s₁.2)) := by
  rw [lookOnce_of_missed hm, ho, clockAfter, if_neg (mt any_le_iff.mp he)]
  rfl

theorem lookOnce_of_stretch {next : Instant} (hm : Missed E rounds s s₁)
    (he : ¬ PastDeadline E deadline (afterLook E s₁.2))
    (ho : checkedAdd (clockAfter E s₁.2) registrationPoll = some next) :
    Battery.lookOnce E rounds deadline s =
      (Battery.serveUntil E rounds (deadline.elim next fun d => min d next) none >>= fun _ =>
        pure none) (s₁.1, afterClock E s₁.2) := by
  rw [lookOnce_of_missed hm, ho, clockAfter, if_neg (mt any_le_iff.mp he)]

theorem stretchEnd_min {t next : Instant} (h : checkedAdd t registrationPoll = some next) :
    StretchEnd deadline t (deadline.elim next fun d => min d next) := by
  obtain ⟨hlt, rfl⟩ := checkedAdd_eq_some_iff.mp h
  cases deadline with
  | none =>
    refine ⟨hlt, Nat.le_refl _, fun overall hd => ?_, Or.inl rfl⟩
    cases hd
  | some d =>
    refine ⟨hlt, Nat.min_le_right _ _, fun overall hd => ?_, ?_⟩
    · cases hd
      exact Nat.min_le_left _ _
    · rcases Nat.le_total d (t + registrationPoll) with hle | hle
      · exact Or.inr (congrArg some (Nat.min_eq_left hle).symm)
      · exact Or.inl (Nat.min_eq_right hle)

/-- What follows a look that found nothing in time. -/
theorem missed_cases (hm : Missed E rounds s s₁)
    (he : ¬ PastDeadline E deadline (afterLook E s₁.2)) :
    (∃ s', Battery.lookOnce E rounds deadline s = (.ok none, s') ∧ Round E rounds deadline s s') ∨
    ∃ o s', LastRound E rounds deadline s o s' ∧
      ∀ n, loop (Battery.lookOnce E rounds deadline) (n + 1) s = (o, s') := by
  cases ho : checkedAdd (clockAfter E s₁.2) registrationPoll with
  | none =>
    refine Or.inr ⟨_, _, .overflow hm he (checkedAdd_eq_none_iff.mp ho), fun n => ?_⟩
    rw [Program.loop_succ_apply, lookOnce_of_overflow hm he ho]
  | some next =>
    have hd : StretchEnd deadline (clockAfter E s₁.2) _ := stretchEnd_min ho
    have hturn := lookOnce_of_stretch hm he ho
    rcases Program.bind_cases (Battery.serveUntil E rounds _ none) _ (s₁.1, afterClock E s₁.2) with
      ⟨wakeup, s', hs, heq⟩ | ⟨o, o', s', hs, hf, heq⟩
    · exact Or.inl ⟨s', hturn.trans heq, .intro hm he hd hs⟩
    · obtain ⟨o₂, hf₂, hloop⟩ := Program.loop_of_failure (hturn.trans heq) hf
      exact Or.inr ⟨o₂, s', .unserved hm he hd hs hf₂, hloop⟩

/-- **One turn of the loop**: a round that is followed by another, or the last. -/
theorem lookOnce_cases (E : Env) (rounds : Nat) (deadline : Option Instant)
    (s : Battery × World) :
    (∃ s', Battery.lookOnce E rounds deadline s = (.ok none, s') ∧ Round E rounds deadline s s') ∨
    ∃ o s', LastRound E rounds deadline s o s' ∧
      ∀ n, loop (Battery.lookOnce E rounds deadline) (n + 1) s = (o, s') := by
  rcases Program.bind_cases (Battery.service E rounds) _ s with
    ⟨u, s₁, hs, -⟩ | ⟨o, o', s₁, hs, hf, heq⟩
  · cases hl : lookedUp E s₁ with
    | some path =>
      refine Or.inr ⟨_, _, .found hs hl, fun n => ?_⟩
      rw [Program.loop_succ_apply, lookOnce_of_found hs hl]
    | none =>
      have hm : Missed E rounds s s₁ := ⟨hs, hl⟩
      by_cases hp : PastDeadline E deadline (afterLook E s₁.2)
      · refine Or.inr ⟨_, _, .gaveUp hm hp, fun n => ?_⟩
        rw [Program.loop_succ_apply, lookOnce_of_past hm hp]
      · exact missed_cases hm hp
  · obtain ⟨o₂, hf₂, hloop⟩ := Program.loop_of_failure heq hf
    exact Or.inr ⟨o₂, s₁, .unserviced hs hf₂, hloop⟩

end Equations

/-- **The whole loop.** -/
theorem lookOnce_waited (n : Nat) (s : Battery × World) :
    Waited E rounds deadline n s (loop (Battery.lookOnce E rounds deadline) n s).1
      (loop (Battery.lookOnce E rounds deadline) n s).2 := by
  induction n generalizing s with
  | zero => exact .unfinished s
  | succ n ih =>
    rcases lookOnce_cases E rounds deadline s with ⟨s', hturn, hr⟩ | ⟨o, s', hl, hloop⟩
    · rw [Program.loop_succ_apply, hturn]
      exact .again hr (ih s')
    · rw [hloop n]
      exact .last hl

end Rounds

/-! ## What the looks show -/

/-- What an entry shows of sysfs, to a battery. -/
def Entry.look? (uniq : String) (x : Entry) : Option (Option Path) :=
  match x.call with
  | .readDir listing => some (findPowerSupplyIn powerSupplyClass listing uniq)
  | _ => none

/-- The looks at sysfs, with what they found. -/
def looks (uniq : String) (calls : List Entry) : List (Option Path) :=
  calls.filterMap (Entry.look? uniq)

section Looks

variable {uniq : String} {s t : List Entry} {x : Entry} {fd : Fd}

@[simp] theorem looks_nil : looks uniq [] = [] := rfl

@[simp] theorem looks_append : looks uniq (s ++ t) = looks uniq s ++ looks uniq t :=
  List.filterMap_append

theorem OnlyOn.looks (h : OnlyOn fd s) : looks uniq s = [] := by
  rw [UhidBattery.looks, List.filterMap_eq_nil_iff]
  intro x hx
  rcases h x hx with ⟨result, hc⟩ | ⟨event, answer, hc⟩ | hc <;> rw [Entry.look?, hc]

end Looks

/-- The battery stays the one it is, and nothing looks at sysfs. -/
def Blind (E : Env) (s s' : Battery × World) : Prop :=
  s'.1.uniq = s.1.uniq ∧ ∃ calls, Ran E s.2 calls s'.2 ∧ ∀ uniq, looks uniq calls = []

instance (E : Env) : IsPreorder (Battery × World) (Blind E) where
  refl s := ⟨rfl, [], .nil s.2, fun _ => rfl⟩
  trans s₁ s₂ s₃ := by
    rintro ⟨hu, calls, hran, hl⟩ ⟨hu', calls', hran', hl'⟩
    refine ⟨hu'.trans hu, _, hran.append hran', fun uniq => ?_⟩
    rw [looks_append, hl, hl', List.append_nil]

/-- Servicing a battery looks at nothing but its descriptor and the clock. -/
theorem service_blind (E : Env) (rounds : Nat) (b : Battery) (w : World) :
    (Battery.service E rounds (b, w)).2.1.handle.fd = b.handle.fd ∧
      Blind E (b, w) (Battery.service E rounds (b, w)).2 := by
  obtain ⟨calls, hran, h⟩ := service_spec E rounds b w
  obtain ⟨slot, hb⟩ := h.same
  refine ⟨by rw [hb, withRepush_handle], by rw [hb]; rfl, calls, hran, fun uniq => ?_⟩
  exact h.onlyOn.looks

theorem blind_kept (E : Env) (rounds : Nat) : KeptServing E rounds (Blind E) where
  own s := service_blind E rounds s.1 s.2
  other x w y _ := by
    obtain ⟨-, -, calls, hran, hl⟩ := service_blind E rounds x w
    exact ⟨rfl, calls, hran, hl⟩
  now y w := ⟨rfl, _, .single (show Genuine E w .now from trivial), fun _ => rfl⟩
  poll y w fds timeout :=
    ⟨rfl, _, .single (show Genuine E w (.poll fds timeout _) from rfl), fun _ => rfl⟩

/-- **Nothing but its own looks reads sysfs** while a stretch is served. -/
theorem serveUntil_blind (E : Env) (rounds : Nat) (d : Instant) (wake : Option Fd) :
    Guarantees (Blind E) (Battery.serveUntil E rounds d wake) :=
  serveUntil_keeps (blind_kept E rounds) d wake

/-! ## What a wait comes to -/

/-- What the calls of a wait show of its outcome. -/
structure Shows (uniq : String) (deadline : Option Instant) (o : Outcome IoError (Option Path))
    (calls : List Entry) : Prop where
  found : ∀ path, o = .ok (some path) ↔ some path ∈ looks uniq calls
  first : ∀ path, o = .ok (some path) → ∃ earlier look, calls = earlier ++ [look] ∧
    look.look? uniq = some (some path) ∧ ∀ r ∈ looks uniq earlier, r = none
  gaveUp : o = .ok none → ∃ earlier look clock d, calls = earlier ++ [look, clock] ∧
    look.look? uniq = some none ∧ clock.call = .now ∧ deadline = some d ∧ d ≤ clock.time

section Shows

variable {E : Env} {rounds : Nat} {deadline : Option Instant} {uniq : String}
  {o : Outcome IoError (Option Path)} {s s' : Battery × World} {calls earlier : List Entry}

/-- Looks before them that found nothing. -/
theorem Shows.prepend (h : Shows uniq deadline o calls) {k : Nat}
    (he : looks uniq earlier = List.replicate k none) :
    Shows uniq deadline o (earlier ++ calls) where
  found path := by
    rw [looks_append, he, h.found path]
    simp
  first path ho := by
    obtain ⟨before, look, rfl, hl, hb⟩ := h.first path ho
    refine ⟨earlier ++ before, look, by rw [List.append_assoc], hl, fun r hr => ?_⟩
    rw [looks_append, he, List.mem_append] at hr
    rcases hr with hr | hr
    · exact List.eq_of_mem_replicate hr
    · exact hb r hr
  gaveUp ho := by
    obtain ⟨before, look, clock, d, rfl, hl⟩ := h.gaveUp ho
    exact ⟨earlier ++ before, look, clock, d, by rw [List.append_assoc], hl⟩

theorem looks_singleton {look : Entry} {r : Option Path} (h : look.look? uniq = some r) :
    looks uniq [look] = [r] := by
  rw [looks, List.filterMap_cons, h]
  rfl

theorem looks_missed {look clock : Entry} (hl : looks uniq calls = [])
    (hlook : look.look? uniq = some none) (hc : clock.call = .now) :
    looks uniq (calls ++ [look, clock]) = [none] := by
  have hnone : clock.look? uniq = none := by rw [Entry.look?, hc]
  rw [looks_append, hl, List.nil_append, looks, List.filterMap_cons, hlook,
    List.filterMap_cons, hnone]
  rfl

theorem shows_found {look : Entry} {path : Path} (hl : looks uniq calls = [])
    (hlook : look.look? uniq = some (some path)) :
    Shows uniq deadline (.ok (some path)) (calls ++ [look]) where
  found path' := by
    rw [looks_append, hl, looks_singleton hlook]
    simp [eq_comm]
  first path' h := by
    cases h
    refine ⟨calls, look, rfl, hlook, ?_⟩
    rw [hl]
    simp
  gaveUp h := by cases h

theorem shows_gaveUp {look clock : Entry} {d : Instant} (hl : looks uniq calls = [])
    (hlook : look.look? uniq = some none) (hc : clock.call = .now) (hd : deadline = some d)
    (hle : d ≤ clock.time) : Shows uniq deadline (.ok none) (calls ++ [look, clock]) where
  found path := by
    rw [looks_missed hl hlook hc]
    simp
  first path h := by cases h
  gaveUp _ := ⟨calls, look, clock, d, rfl, hlook, hc, hd, hle⟩

/-- A failure after looks that found nothing. -/
theorem shows_failure (hl : ∀ r ∈ looks uniq calls, r = none) (ho : ∀ r, o ≠ .ok r) :
    Shows uniq deadline o calls where
  found path := by
    constructor
    · intro h
      exact absurd h (ho _)
    · intro h
      cases hl _ h
  first path h := absurd h (ho _)
  gaveUp h := absurd h (ho _)

/-- Servicing, and the look after it. -/
theorem serviced_ran (hs : Battery.service E rounds s = (.ok (), s')) : ∃ calls look,
    Ran E s.2 (calls ++ [look]) (afterLook E s'.2) ∧ s'.1.uniq = s.1.uniq ∧
      looks s.1.uniq calls = [] ∧ look.look? s.1.uniq = some (lookedUp E s') := by
  obtain ⟨-, hu, calls, hran, hl⟩ := service_blind E rounds s.1 s.2
  rw [hs] at hu hran
  have hgenuine : Genuine E s'.2 (.readDir (E.listing s'.2.history)) := rfl
  refine ⟨calls, _, hran.append (.single hgenuine), hu, hl _, ?_⟩
  rw [lookedUp, hu]
  rfl

/-- Servicing, a look that found nothing, and the clock. -/
theorem Missed.ran (hm : Missed E rounds s s') : ∃ calls look,
    Ran E s.2 (calls ++ [look, (afterLook E s'.2).entry E .now]) (afterClock E s'.2) ∧
      s'.1.uniq = s.1.uniq ∧ looks s.1.uniq calls = [] ∧ look.look? s.1.uniq = some none := by
  obtain ⟨calls, look, hran, hu, hl, hlook⟩ := serviced_ran hm.serviced
  have hclock := hran.append (.single (show Genuine E (afterLook E s'.2) .now from trivial))
  rw [List.append_assoc] at hclock
  exact ⟨calls, look, hclock, hu, hl, hlook.trans (congrArg some hm.nothing)⟩

/-- What a round that is followed by another shows. -/
theorem Round.ran (h : Round E rounds deadline s s') : ∃ calls, Ran E s.2 calls s'.2 ∧
    s'.1.uniq = s.1.uniq ∧ looks s.1.uniq calls = [none] := by
  obtain @⟨s₁, d, wakeup, hm, -, -, hs⟩ := h
  obtain ⟨calls, look, hran, hu, hl, hlook⟩ := hm.ran
  obtain ⟨hu', calls', hran', hl'⟩ := serveUntil_blind E rounds d none (s₁.1, afterClock E s₁.2)
  rw [hs] at hu' hran'
  refine ⟨_, hran.append hran', hu'.trans hu, ?_⟩
  rw [looks_append, hl', looks_missed hl hlook rfl, List.append_nil]

/-- What the last round shows. -/
theorem LastRound.ran (h : LastRound E rounds deadline s o s') : ∃ calls, Ran E s.2 calls s'.2 ∧
    Shows s.1.uniq deadline o calls := by
  cases h with
  | @found s₁ path hs hl =>
    obtain ⟨calls, look, hran, -, hnone, hlook⟩ := serviced_ran hs
    exact ⟨_, hran, shows_found hnone (hlook.trans (congrArg some hl))⟩
  | gaveUp hm hp =>
    obtain ⟨calls, look, hran, -, hl, hlook⟩ := hm.ran
    obtain ⟨d, hd, hle⟩ := hp
    exact ⟨_, hran, shows_gaveUp hl hlook rfl hd hle⟩
  | overflow hm he ho =>
    obtain ⟨calls, look, hran, -, hl, hlook⟩ := hm.ran
    refine ⟨_, hran, shows_failure ?_ (by simp)⟩
    rw [looks_missed hl hlook rfl]
    simp
  | @unserviced o₁ _ _ hs hf =>
    obtain ⟨-, -, calls, hran, hl⟩ := service_blind E rounds s.1 s.2
    rw [hs] at hran
    refine ⟨calls, hran, shows_failure ?_ hf.ne_ok.2⟩
    rw [hl]
    simp
  | @unserved s₁ s' d o₁ _ hm he hd hs hf =>
    obtain ⟨calls, look, hran, hu, hl, hlook⟩ := hm.ran
    obtain ⟨-, calls', hran', hl'⟩ := serveUntil_blind E rounds d none (s₁.1, afterClock E s₁.2)
    rw [hs] at hran'
    refine ⟨_, hran.append hran', shows_failure ?_ hf.ne_ok.2⟩
    rw [looks_append, hl', looks_missed hl hlook rfl]
    simp

end Shows

/-! ## Where servicing does not fail -/

section NeverFails

variable (E : Env) (rounds : Nat) (deadline : Option Instant)

/-- In every round come to from `s₀` the battery is serviced, and the stretch served. -/
def NeverFails (s₀ : Battery × World) : Prop :=
  ∀ s, ReflTransGen (Round E rounds deadline) s₀ s →
    (∃ s₁, Battery.service E rounds s = (.ok (), s₁)) ∧
    ∀ s₁ d, Missed E rounds s s₁ → StretchEnd deadline (clockAfter E s₁.2) d →
      ∃ wakeup s', Battery.serveUntil E rounds d none (s₁.1, afterClock E s₁.2) = (.ok wakeup, s')

/-- How a wait of at most `n` rounds ends where servicing does not fail: it returns, the
clock read after a look is within 20 ms of the end of time, or `n` looks were not enough. -/
inductive Ended (uniq : String) : Nat → Outcome IoError (Option Path) → List Entry → Prop where
  | returned {n : Nat} {calls : List Entry} (r : Option Path) : Ended uniq n (.ok r) calls
  | overflow {n : Nat} {earlier : List Entry} {look clock : Entry}
      (hl : look.look? uniq = some none) (hc : clock.call = .now)
      (h : instantEnd ≤ clock.time + registrationPoll) :
      Ended uniq n .panic (earlier ++ [look, clock])
  | unfinished {n : Nat} {calls : List Entry} (h : looks uniq calls = List.replicate n none) :
      Ended uniq n .pending calls

variable {E rounds deadline} {n : Nat} {uniq : String} {o : Outcome IoError (Option Path)}
  {s s' : Battery × World} {calls earlier : List Entry}

theorem NeverFails.round (h : NeverFails E rounds deadline s) (hr : Round E rounds deadline s s') :
    NeverFails E rounds deadline s' :=
  fun s₁ hs => h s₁ (.head hr hs)

theorem Ended.prepend (h : Ended uniq n o calls) {k : Nat}
    (he : looks uniq earlier = List.replicate k none) :
    Ended uniq (k + n) o (earlier ++ calls) := by
  cases h with
  | returned r => exact .returned r
  | overflow hl hc h =>
    rw [← List.append_assoc]
    exact .overflow hl hc h
  | unfinished h =>
    apply Ended.unfinished
    rw [looks_append, he, h, List.replicate_append_replicate]

theorem LastRound.ended (h : LastRound E rounds deadline s o s')
    (hn : NeverFails E rounds deadline s) (hran : Ran E s.2 calls s'.2) :
    Ended s.1.uniq (n + 1) o calls := by
  obtain ⟨⟨s₁, hserviced⟩, hserved⟩ := hn s .refl
  cases h with
  | found hs hl => exact .returned _
  | gaveUp hm hp => exact .returned _
  | overflow hm he ho =>
    obtain ⟨calls', look, hran', -, -, hlook⟩ := hm.ran
    rw [← hran.since, hran'.since]
    exact .overflow hlook rfl ho
  | unserviced hs hf =>
    rw [hserviced] at hs
    cases hs
    cases hf
  | unserved hm he hd hs hf =>
    obtain ⟨wakeup, s₂, hok⟩ := hserved _ _ hm hd
    rw [hok] at hs
    cases hs
    cases hf

/-- **A whole wait**, round by round. -/
theorem Waited.spec (h : Waited E rounds deadline n s o s') : ∃ calls, Ran E s.2 calls s'.2 ∧
    Shows s.1.uniq deadline o calls ∧
      (NeverFails E rounds deadline s → Ended s.1.uniq n o calls) := by
  induction h with
  | @again n s s₁ s' o hr hw ih =>
    obtain ⟨calls, hran, hu, hl⟩ := hr.ran
    obtain ⟨calls', hran', hs, he⟩ := ih
    rw [hu] at hs he
    refine ⟨_, hran.append hran', hs.prepend (k := 1) hl, fun hn => ?_⟩
    rw [Nat.add_comm]
    exact (he (hn.round hr)).prepend hl
  | last hl =>
    obtain ⟨calls, hran, hs⟩ := hl.ran
    exact ⟨calls, hran, hs, fun hn => hl.ended hn hran⟩
  | unfinished s =>
    exact ⟨[], .nil _, shows_failure (by simp) (by simp), fun _ => .unfinished rfl⟩

end NeverFails

/-! ## The whole call -/

/-- What `wait_for_power_supply` comes to, called in `s`. -/
structure Awaited (E : Env) (rounds : Nat) (timeout : Duration) (s : Battery × World)
    (o : Outcome IoError (Option Path)) (s' : Battery × World) : Prop where
  waited : Waited E rounds (checkedAdd (E.time s.2.history) timeout) rounds
    (s.1, s.2.next E .now) o s'
  shows : Shows s.1.uniq (checkedAdd (E.time s.2.history) timeout) o (s.2.since s'.2)
  unbounded : instantEnd ≤ E.time s.2.history + timeout → o ≠ .ok none
  ended : NeverFails E rounds (checkedAdd (E.time s.2.history) timeout) (s.1, s.2.next E .now) →
    Ended s.1.uniq rounds o (s.2.since s'.2)

/-- **Waiting gives up only when it may, and serves throughout.** -/
theorem waitForPowerSupply_awaited (E : Env) (rounds : Nat) (timeout : Duration)
    (s : Battery × World) :
    Awaited E rounds timeout s (Battery.waitForPowerSupply E rounds timeout s).1
      (Battery.waitForPowerSupply E rounds timeout s).2 := by
  have hnow : (borrow fun _ => sysNow E : Program (Battery × World) IoError Instant) s =
      (.ok (E.time s.2.history), (s.1, s.2.next E .now)) := rfl
  have hloop : Battery.waitForPowerSupply E rounds timeout s =
      loop (Battery.lookOnce E rounds (checkedAdd (E.time s.2.history) timeout)) rounds
        (s.1, s.2.next E .now) := Program.bind_ok hnow
  rw [hloop]
  have hw := lookOnce_waited E rounds (checkedAdd (E.time s.2.history) timeout) rounds
    (s.1, s.2.next E .now)
  obtain ⟨calls, hran, hs, he⟩ := hw.spec
  have hfirst : Ran E s.2 [s.2.entry E .now] (s.2.next E .now) := .single trivial
  have hsince := hfirst.since_append hran
  have hlook : looks s.1.uniq [s.2.entry E .now] = List.replicate 0 none := rfl
  constructor
  case waited => exact hw
  case shows =>
    rw [hsince]
    exact hs.prepend hlook
  case unbounded =>
    intro hover ho
    obtain ⟨earlier, look, clock, d, -, -, -, hd, -⟩ := hs.gaveUp ho
    rw [checkedAdd_eq_none_iff.mpr hover] at hd
    cases hd
  case ended =>
    intro hn
    have hended := (he hn).prepend hlook
    rw [Nat.zero_add] at hended
    rw [hsince]
    exact hended

/-! ## At the end of time, and on a slow system -/

/-- A stretch fits into what is left of time. -/
theorem Round.fits {E : Env} {rounds : Nat} {deadline : Option Instant} {s s' : Battery × World}
    (h : Round E rounds deadline s s') :
    ∃ history, E.time history + registrationPoll < instantEnd := by
  obtain @⟨s₁, d, wakeup, -, -, hd, -⟩ := h
  exact ⟨_, hd.fits⟩

/-- A system at rest a nanosecond before the end of time. -/
abbrev Env.ending : Env := .calm .little (instantEnd - 1)

theorem ending_full (history : List Entry) :
    ¬ Env.ending.time history + registrationPoll < instantEnd :=
  show ¬ instantEnd - 1 + registrationPoll < instantEnd by decide

theorem ending_neverFails :
    NeverFails .ending 1 none (mouse 3, World.started.next .ending .now) := by
  intro s hs
  rcases hs.cases_head with rfl | ⟨s', hround, -⟩
  · refine ⟨⟨_, rfl⟩, fun s₁ d _ hd => ?_⟩
    exact absurd hd.fits (ending_full _)
  · obtain ⟨history, hfits⟩ := hround.fits
    exact absurd hfits (ending_full _)

/-- A timeout past the end of time ends in a panic there; and where the calls take
100 ms each, the 20 ms after a look begin 100 ms after it. -/
theorem power_supply_late :
    (NeverFails .ending 1 none (mouse 3, World.started.next .ending .now) ∧
      checkedAdd (Env.ending.time []) 1 = none ∧
      (Battery.waitForPowerSupply .ending 1 1 (mouse 3, .started)).1 = .panic) ∧
    (Battery.waitForPowerSupply .ticking 2 (fromMillis 350) (mouse 3, .started)).1 = .ok none ∧
    ∃ s₁ d, Missed .ticking 2 (mouse 3, World.started.next .ticking .now) s₁ ∧
      Battery.lookOnce .ticking 2 (some (fromMillis 350))
          (mouse 3, World.started.next .ticking .now) =
        (Battery.serveUntil .ticking 2 d none >>= fun _ => pure none)
          (s₁.1, afterClock .ticking s₁.2) ∧
      Env.ticking.time s₁.2.history + registrationPoll < d := by
  refine ⟨⟨ending_neverFails, by decide, rfl⟩, rfl, ?_⟩
  obtain ⟨s₁, hm, hlen⟩ : ∃ s₁, Missed .ticking 2 (mouse 3, World.started.next .ticking .now) s₁ ∧
      s₁.2.history.length = 2 := ⟨_, ⟨rfl, rfl⟩, rfl⟩
  have hlook : Env.ticking.time s₁.2.history = fromMillis (100 * 2) := ticking_time hlen
  have hclock : Env.ticking.time (afterLook .ticking s₁.2).history = fromMillis (100 * 3) :=
    ticking_time (by rw [afterLook, World.length_next, hlen])
  have hnext : checkedAdd (clockAfter .ticking s₁.2) registrationPoll = some (fromMillis 320) := by
    rw [clockAfter, hclock]
    decide
  have hearly : ¬ PastDeadline .ticking (some (fromMillis 350)) (afterLook .ticking s₁.2) := by
    rintro ⟨d, hd, hle⟩
    cases hd
    rw [hclock] at hle
    exact absurd hle (by decide)
  have hturn := lookOnce_of_stretch hm hearly hnext
  have hmin : min (fromMillis 350) (fromMillis 320) = fromMillis 320 := by decide
  rw [Option.elim_some, hmin] at hturn
  refine ⟨s₁, fromMillis 320, hm, hturn, ?_⟩
  rw [hlook]
  decide

end UhidBattery
