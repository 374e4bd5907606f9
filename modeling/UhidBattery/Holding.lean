import UhidBattery.Opening
import UhidBattery.Level
import UhidBattery.Lib.Ownership

/-!
# What a program holds

Runs of a program over every call of the crate: descriptors come by `open`, by
`take` or from elsewhere, become handles, then batteries, then handles again,
and are dropped at any point.

* `Acts.sound`: one step keeps what is owned open, owned once, and every handle
  on the uhid device.
* `Acts.moved`, `Acts.confined`: what one step does to the table of descriptors,
  and where it writes.
* `holding_sound`, `holding_writes`, `holding_leaks_nothing`: the same of whole runs.
-/

namespace UhidBattery

open Program (Outcome Guarantees Each loop attempt borrow onOne)
open Ownership (Owns Moved)
open Runs (Along)

/-! ## States and steps -/

/-- The descriptors a program holds, loose, as handles and within batteries. -/
structure Holding where
  process : Process
  world : World
  loose : List Fd
  handles : List Handle
  batteries : List Battery

namespace Holding

/-- The descriptors events are written to. -/
def uhidFds (self : Holding) : List Fd :=
  self.handles.map Handle.fd ++ self.batteries.map fun b => b.handle.fd

def fds (self : Holding) : List Fd := self.loose ++ self.uhidFds

/-- What a `create` of one of the handles leaves, by its outcome. -/
def created (self : Holding) (w : World) (before after : List Handle) :
    Outcome CreateError Battery → Holding
  | .ok b => { self with
      world := w, handles := before ++ after, batteries := b :: self.batteries }
  | .err e => { self with world := w, handles := before ++ e.handle :: after }
  | .panic | .pending => { self with world := w }

/-- What a `destroy` of one of the batteries leaves. -/
def destroyed (self : Holding) (w : World) (before after : List Battery) :
    Outcome Empty Handle → Holding
  | .ok handle => { self with
      world := w, handles := handle :: self.handles, batteries := before ++ after }
  | .err _ | .panic | .pending => { self with world := w }

end Holding

/-- A method that borrows one battery. -/
inductive Used (E : Env) : Battery × World → Battery × World → Prop where
  | update (rounds : Nat) (reading : Reading) (s : Battery × World) :
      Used E s (Battery.update E rounds reading s).2
  | service (rounds : Nat) (s : Battery × World) : Used E s (Battery.service E rounds s).2
  | serveUntil (rounds : Nat) (deadline : Instant) (wake : Option Fd) (s : Battery × World) :
      Used E s (Battery.serveUntil E rounds deadline wake s).2
  | waitForPowerSupply (rounds : Nat) (timeout : Duration) (s : Battery × World) :
      Used E s (Battery.waitForPowerSupply E rounds timeout s).2

inductive Action where
  | openAt (path : Path)
  | take
  | inherited (lead : String)
  | inheritedWithOthers (lead : String)
  | fromFd (fd : Fd)
  | drop (fd : Fd)
  | create (handle : Handle)
  | destroy
  | use
  | serveAll
  | elsewhere
  deriving DecidableEq

/-- `open()` gives a number that is not in use, and a file that nobody has open. -/
def OpenAnswer.Fresh (p : Process) : OpenAnswer → Prop
  | .opened fd file _ => p.table fd = none ∧ ∀ fd', p.openOn file fd' = false
  | .fails _ => True

/-- The rest of the program leaves what is held, and what was passed, alone. -/
structure LeavesAlone (s : Holding) (p : Process) : Prop where
  table : ∀ fd ∈ s.fds, p.table fd = s.process.table fd
  files : ∀ fd ∈ s.fds, ∀ d ∈ s.process.table fd, p.files d.file = s.process.files d.file
  reserved : ∀ fd, s.process.Reserved fd → (p.table fd).isSome
  vars : p.vars = s.process.vars
  pid : p.pid = s.process.pid

/-- One call of the crate, or something else that the program does. -/
inductive Acts (E : Env) (s : Holding) : Action → Holding → Prop where
  | opened {refuses : Fd → Fcntl → Bool} {errno : Fd → Errno} {opens : Path → OpenAnswer}
      {path : Path} {handle : Handle} {p : Process} (hfresh : (opens path).Fresh s.process)
      (h : Handle.openAt refuses errno opens path s.process = (.ok handle, p)) :
      Acts E s (.openAt path) { s with process := p, handles := handle :: s.handles }
  | openFailed {refuses : Fd → Fcntl → Bool} {errno : Fd → Errno} {opens : Path → OpenAnswer}
      {path : Path} {e : IoError} {p : Process} (hfresh : (opens path).Fresh s.process)
      (h : Handle.openAt refuses errno opens path s.process = (.err e, p)) :
      Acts E s (.openAt path) { s with process := p }
  | take {refuses : Fd → Fcntl → Bool} {passed : List (String × Fd)} {p : Process}
      (h : UhidBattery.take refuses s.process = (.ok passed, p)) :
      Acts E s .take { s with process := p, loose := passed.map Prod.snd ++ s.loose }
  | inherited {refuses : Fd → Fcntl → Bool} {lead : String} {handles : List Handle} {p : Process}
      (h : Handle.inherited refuses lead s.process = (.ok handles, p)) :
      Acts E s (.inherited lead) { s with process := p, handles := handles ++ s.handles }
  | inheritedWithOthers {refuses : Fd → Fcntl → Bool} {lead : String} {handles : List Handle}
      {others : List (String × Fd)} {p : Process}
      (h : Handle.inheritedWithOthers refuses lead s.process = (.ok (handles, others), p)) :
      Acts E s (.inheritedWithOthers lead) { s with
        process := p, loose := others.map Prod.snd ++ s.loose, handles := handles ++ s.handles }
  | fromFd {refuses : Fd → Fcntl → Bool} {errno : Fd → Errno} {before after : List Fd} {fd : Fd}
      {handle : Handle} {p : Process} (hs : s.loose = before ++ fd :: after)
      (h : Handle.fromFd refuses errno fd s.process = (.ok handle, p)) :
      Acts E s (.fromFd fd) { s with
        process := p, loose := before ++ after, handles := handle :: s.handles }
  | fromFdFailed {refuses : Fd → Fcntl → Bool} {errno : Fd → Errno} {before after : List Fd}
      {fd : Fd} {e : IoError} {p : Process} (hs : s.loose = before ++ fd :: after)
      (h : Handle.fromFd refuses errno fd s.process = (.err e, p)) :
      Acts E s (.fromFd fd) { s with process := p, loose := before ++ after }
  | dropFd {before after : List Fd} {fd : Fd} (hs : s.loose = before ++ fd :: after) :
      Acts E s (.drop fd) { s with process := s.process.close fd, loose := before ++ after }
  | dropHandle {before after : List Handle} {handle : Handle}
      (hs : s.handles = before ++ handle :: after) :
      Acts E s (.drop handle.fd) { s with
        process := s.process.close handle.fd, handles := before ++ after }
  | dropBattery {before after : List Battery} {b : Battery}
      (hs : s.batteries = before ++ b :: after) :
      Acts E s (.drop b.handle.fd) { s with
        process := s.process.close b.handle.fd, batteries := before ++ after }
  | create {rounds : Nat} {before after : List Handle} {handle : Handle} {identity : Identity}
      {kind : Kind} {reading : Reading} {o : Outcome CreateError Battery} {w : World}
      (hs : s.handles = before ++ handle :: after)
      (h : Battery.create E rounds handle identity kind reading s.world = (o, w)) :
      Acts E s (.create handle) (s.created w before after o)
  | destroy {rounds : Nat} {before after : List Battery} {b : Battery} {o : Outcome Empty Handle}
      {w : World} (hs : s.batteries = before ++ b :: after)
      (h : b.destroy E rounds s.world = (o, w)) :
      Acts E s .destroy (s.destroyed w before after o)
  | use {before after : List Battery} {b b' : Battery} {w : World}
      (hs : s.batteries = before ++ b :: after) (h : Used E (b, s.world) (b', w)) :
      Acts E s .use { s with world := w, batteries := before ++ b' :: after }
  | serveAll {rounds : Nat} {before slice after slice' : List Battery} {deadline : Option Instant}
      {wake : Option Fd} {o : Outcome ServeError Wakeup} {w : World}
      (hs : s.batteries = before ++ slice ++ after)
      (h : UhidBattery.serveAll E rounds deadline wake (slice, s.world) = (o, (slice', w))) :
      Acts E s .serveAll { s with world := w, batteries := before ++ slice' ++ after }
  | elsewhere {p : Process} {w : World} {calls : List Entry} {more : List Fd}
      (hp : LeavesAlone s p) (hran : Ran E s.world calls w)
      (hown : ∀ fd ∈ s.fds, reads fd calls = [] ∧ writes fd calls = [])
      (honce : more.Nodup) (hmore : ∀ fd ∈ more, s.process.table fd = none ∧ (p.table fd).isSome) :
      Acts E s .elsewhere { s with process := p, world := w, loose := more ++ s.loose }

/-! ## Soundness -/

/-- What a process is to satisfy of the descriptors held, loose and as handles:
they are open, held once and not to be taken again; what was passed is still
there; events are only written to the uhid device, and never block. -/
structure Holds (p : Process) (loose uhid : List Fd) : Prop where
  owns : Owns p.table (loose ++ uhid)
  apart : ∀ fd ∈ loose ++ uhid, ¬ p.Reserved fd
  passed : ∀ fd, p.Reserved fd → (p.table fd).isSome
  ready : ∀ fd ∈ uhid, p.Ready fd

def Holding.Sound (s : Holding) : Prop := Holds s.process s.loose s.uhidFds

section Holds

variable {p p' : Process} {loose loose' uhid uhid' : List Fd} {fd : Fd}

theorem reserved_congr (hv : p'.vars = p.vars) (hpid : p'.pid = p.pid) (fd : Fd) :
    p'.Reserved fd ↔ p.Reserved fd := by
  unfold Process.Reserved Process.Addressed Process.count
  rw [hv, hpid]

theorem Holds.perm (h : Holds p loose uhid) (hl : loose'.Perm loose) (hu : uhid'.Perm uhid) :
    Holds p loose' uhid' where
  owns := h.owns.perm (hl.append hu)
  apart fd hfd := h.apart fd ((hl.append hu).mem_iff.mp hfd)
  passed := h.passed
  ready fd hfd := h.ready fd (hu.mem_iff.mp hfd)

/-- What is not open was not passed. -/
theorem Holds.not_reserved (h : Holds p loose uhid) (hnone : p.table fd = none) :
    ¬ p.Reserved fd := by
  intro hres
  have hopen := h.passed fd hres
  rw [hnone] at hopen
  cases hopen

/-- A descriptor is given up and closed. -/
theorem Holds.close (h : Holds p loose uhid) (hp : (loose ++ uhid).Perm (fd :: (loose' ++ uhid')))
    (hu : ∀ fd' ∈ uhid', fd' ∈ uhid) : Holds (p.close fd) loose' uhid' := by
  have hmem : fd ∈ loose ++ uhid := hp.mem_iff.mpr List.mem_cons_self
  have hlive := h.owns.release hp
  refine ⟨hlive, ?_, ?_, ?_⟩
  · exact fun fd' hfd' => h.apart fd' (hp.mem_iff.mpr (List.mem_cons_of_mem fd hfd'))
  · intro fd' hr
    have hne : fd' ≠ fd := by
      rintro rfl
      exact h.apart fd' hmem hr
    rw [close_of_ne hne]
    exact h.passed fd' hr
  · exact fun fd' hfd' => (onward_close p fd).ready (h.ready fd' (hu fd' hfd'))
      (hlive.live fd' (List.mem_append_right _ hfd'))

/-- A loose descriptor becomes a handle's. -/
theorem Holds.adopt (h : Holds p loose uhid) (hp : loose.Perm (fd :: loose'))
    (ha : Adopted p fd p') (hr : p'.Ready fd) : Holds p' loose' (fd :: uhid) := by
  have hperm : (loose' ++ fd :: uhid).Perm (loose ++ uhid) :=
    List.perm_middle.trans (hp.append_right uhid).symm
  have howns := h.owns.perm hperm
  refine ⟨?_, ?_, ?_, ?_⟩
  · rw [ha.table]
    exact howns
  · intro fd' hfd'
    rw [reserved_congr ha.vars ha.later.pid]
    exact h.apart fd' (hperm.mem_iff.mp hfd')
  · intro fd' hres
    rw [ha.table]
    exact h.passed fd' ((reserved_congr ha.vars ha.later.pid fd').mp hres)
  · intro fd' hfd'
    rcases List.mem_cons.mp hfd' with rfl | hfd'
    · exact hr
    · refine ha.later.ready (h.ready fd' hfd') ?_
      rw [ha.table]
      exact h.owns.live fd' (List.mem_append_right _ hfd')

/-- What is opened on the system's side is held at once. -/
theorem Holds.opened (h : Holds p loose uhid) {file : FileId} {openFile : OpenFile}
    (hfresh : OpenAnswer.Fresh p (.opened fd file openFile)) :
    Holds (p.opened fd file openFile) (fd :: loose) uhid := by
  obtain ⟨hclosed, hunused⟩ := hfresh
  have hother {fd' : Fd} (hopen : (p.table fd').isSome) :
      (p.opened fd file openFile).table fd' = p.table fd' := by
    refine Function.update_of_ne ?_ ..
    rintro rfl
    rw [hclosed] at hopen
    cases hopen
  refine ⟨h.owns.acquire hclosed _, ?_, ?_, ?_⟩
  · intro fd' hfd'
    rcases List.mem_cons.mp hfd' with rfl | hfd'
    · exact h.not_reserved hclosed
    · exact h.apart fd' hfd'
  · intro fd' hres
    rw [hother (h.passed fd' hres)]
    exact h.passed fd' hres
  · intro fd' hfd'
    have hopen := h.owns.live fd' (List.mem_append_right _ hfd')
    obtain ⟨huhid, hnonblock⟩ := h.ready fd' hfd'
    have hfiles : ∀ d ∈ p.table fd', (p.opened fd file openFile).files d.file = p.files d.file := by
      intro d hd
      refine Function.update_of_ne ?_ ..
      rintro rfl
      have hno := hunused fd'
      simp [Process.openOn, Option.mem_def.mp hd] at hno
    refine ⟨?_, ?_⟩
    · rw [Process.isUhid, hother hopen]
      obtain ⟨d, hd⟩ := Option.isSome_iff_exists.mp hopen
      rw [Process.isUhid] at huhid
      rw [hd] at huhid ⊢
      simp only [Option.bind_eq_bind, Option.bind_some] at huhid ⊢
      rw [hfiles d hd]
      exact huhid
    · intro d hd
      rw [hother hopen] at hd
      rw [hfiles d hd]
      exact hnonblock d hd

/-- What was passed is taken over. -/
theorem Holds.take (h : Holds p loose uhid) {refuses : Fd → Fcntl → Bool} {k : Nat}
    (ht : Taken refuses p k p') : Holds p' ((p.passed k).map Prod.snd ++ loose) uhid := by
  have hgain := h.owns.gain ((p.passed k).map Prod.snd) ⟨nodup_passed k, ht.opened⟩
    fun fd hfd hmem => h.apart fd hmem (ht.reserved hfd)
  have hnone : ¬ p'.Addressed := not_addressed_of_vars ht.later.pid ht.vars
  refine ⟨?_, fun _ _ hres => hnone hres.1, fun _ hres => absurd hres.1 hnone, ?_⟩
  · rw [List.append_assoc]
    exact hgain.of_live fun fd hfd => by
      rw [ht.live]
      exact hgain.live fd hfd
  · intro fd hfd
    refine ht.later.ready (h.ready fd hfd) ?_
    rw [ht.live]
    exact h.owns.live fd (List.mem_append_right _ hfd)

theorem Holds.closeAll (fds : List Fd) (h : Holds p (fds ++ loose) uhid) :
    Holds (fds.foldl Process.close p) loose uhid := by
  induction fds generalizing p with
  | nil => exact h
  | cons fd fds ih => exact ih (h.close (.refl _) fun _ hfd => hfd)

end Holds

/-- Calls that write to these descriptors only. -/
def Confined (E : Env) (fds : List Fd) (w w' : World) : Prop :=
  ∃ calls, Ran E w calls w' ∧ ∀ fd, fd ∉ fds → writes fd calls = []

/-- The same handles as before, and nothing written to any other. -/
def OnHandles (E : Env) (s s' : List Battery × World) : Prop :=
  s'.1.map Battery.handle = s.1.map Battery.handle ∧
    Confined E (s.1.map fun b => b.handle.fd) s.2 s'.2

def OnHandle (E : Env) (s s' : Battery × World) : Prop :=
  OnHandles E ([s.1], s.2) ([s'.1], s'.2)

section Confined

variable {E : Env} {fds fds' : List Fd} {w w₁ w' : World}

theorem Confined.refl (E : Env) (fds : List Fd) (w : World) : Confined E fds w w :=
  ⟨[], .nil w, fun _ _ => rfl⟩

theorem Confined.trans (h : Confined E fds w w₁) (h' : Confined E fds w₁ w') :
    Confined E fds w w' := by
  obtain ⟨calls, hran, hw⟩ := h
  obtain ⟨calls', hran', hw'⟩ := h'
  refine ⟨_, hran.append hran', fun fd hfd => ?_⟩
  rw [writes_append, hw fd hfd, hw' fd hfd]
  rfl

theorem Confined.mono (h : Confined E fds w w') (hsub : ∀ fd ∈ fds, fd ∈ fds') :
    Confined E fds' w w' := by
  obtain ⟨calls, hran, hw⟩ := h
  exact ⟨calls, hran, fun fd hfd => hw fd (mt (hsub fd) hfd)⟩

theorem Confined.onlyOn {fd : Fd} {calls : List Entry} (hran : Ran E w calls w')
    (h : OnlyOn fd calls) : Confined E [fd] w w' :=
  ⟨calls, hran, fun _ hne => (h.others (by simpa using hne)).2⟩

theorem Confined.idle {call : Call} (hg : Genuine E w call) (hi : call.Idle) :
    Confined E fds w (w.next E call) :=
  ⟨_, .single hg, fun fd _ => writes_of_idle hi fd⟩

end Confined

section OnHandles

variable {E : Env} {rounds : Nat}

theorem OnHandles.fds_eq {s s' : List Battery × World} (h : OnHandles E s s') :
    (s'.1.map fun b => b.handle.fd) = s.1.map fun b => b.handle.fd := by
  have hfd := congrArg (List.map Handle.fd) h.1
  rwa [List.map_map, List.map_map] at hfd

instance (E : Env) : IsPreorder (List Battery × World) (OnHandles E) where
  refl s := ⟨rfl, .refl E _ s.2⟩
  trans s₁ s₂ s₃ h h' := by
    refine ⟨h'.1.trans h.1, h.2.trans ?_⟩
    rw [← h.fds_eq]
    exact h'.2

instance (E : Env) : IsPreorder (Battery × World) (OnHandle E) where
  refl _ := refl_of (OnHandles E) _
  trans _ _ _ h h' := trans_of (OnHandles E) h h'

theorem onHandle_of_calls {b b' : Battery} {w w' : World} {calls : List Entry}
    (hran : Ran E w calls w') (hb : b'.handle = b.handle) (h : OnlyOn b.handle.fd calls) :
    OnHandle E (b, w) (b', w') :=
  ⟨congrArg (fun handle => [handle]) hb, .onlyOn hran h⟩

theorem service_onHandle (E : Env) (rounds : Nat) :
    Guarantees (OnHandle E) (Battery.service E rounds) := by
  rintro ⟨b, w⟩
  obtain ⟨calls, hran, h⟩ := service_spec E rounds b w
  obtain ⟨slot, hb⟩ := h.same
  exact onHandle_of_calls hran (by rw [hb]; rfl) h.onlyOn

theorem serviceAll_onHandles (E : Env) (rounds : Nat) :
    Guarantees (OnHandles E) (serviceAll E rounds) := by
  rintro ⟨bs, w⟩
  unfold serviceAll
  generalize 0 = i
  induction bs generalizing i w with
  | nil => exact refl_of (OnHandles E) _
  | cons b bs ih =>
    have hown := service_onHandle E rounds (b, w)
    rw [Program.tryForEach, Program.mapErr_apply]
    rcases hs : Battery.service E rounds (b, w) with ⟨o, b', w'⟩
    rw [hs] at hown
    obtain ⟨hb, hw⟩ := hown
    have hhead : Confined E ((b :: bs).map fun b => b.handle.fd) w w' :=
      hw.mono fun fd hfd => List.mem_cons.mpr (Or.inl (List.mem_singleton.mp hfd))
    have hhandle : b'.handle = b.handle := List.singleton_inj.mp hb
    have hstop : OnHandles E (b :: bs, w) (b' :: bs, w') :=
      ⟨congrArg (· :: bs.map Battery.handle) hhandle, hhead⟩
    cases o with
    | ok u =>
      obtain ⟨hbs, hrest⟩ := ih w' (i + 1)
      refine ⟨?_, hhead.trans (hrest.mono fun fd hfd => List.mem_cons_of_mem _ hfd)⟩
      exact congrArg₂ List.cons hhandle hbs
    | err e => exact hstop
    | panic => exact hstop
    | pending => exact hstop

theorem onHandles_idle (E : Env) (bs : List Battery) (w : World) (call : Call)
    (hg : Genuine E w call) (hi : call.Idle) : OnHandles E (bs, w) (bs, w.next E call) :=
  ⟨rfl, .idle hg hi⟩

theorem serveUntil_onHandle (E : Env) (rounds : Nat) (deadline : Instant) (wake : Option Fd) :
    Guarantees (OnHandle E) (Battery.serveUntil E rounds deadline wake) := by
  rintro ⟨b, w⟩
  obtain ⟨bs, h, hb⟩ := serveUntil_guarantees (serviceAll_onHandles E rounds)
    (onHandles_idle E) deadline wake b w
  obtain ⟨b', rfl⟩ : ∃ b', bs = [b'] := by
    have hlen := congrArg List.length h.1
    simp only [List.length_map] at hlen
    exact List.length_eq_one_iff.mp hlen
  change OnHandles E _ ([_], _)
  rw [hb]
  exact h

/-- **A borrowed battery** keeps its handle, and only that is written to. -/
theorem Used.onHandle {s s' : Battery × World} (h : Used E s s') : OnHandle E s s' := by
  cases h with
  | update rounds reading =>
    obtain ⟨calls, hran, hu⟩ := update_spec E rounds reading s.1 s.2
    exact onHandle_of_calls hran hu.same.1 hu.onlyOn
  | service rounds => exact service_onHandle E rounds s
  | serveUntil rounds deadline wake => exact serveUntil_onHandle E rounds deadline wake s
  | waitForPowerSupply rounds timeout =>
    exact waitForPowerSupply_guarantees (service_onHandle E rounds)
      (fun b w call hg hi => onHandles_idle E [b] w call hg hi) (serveUntil_onHandle E rounds)
      timeout s

end OnHandles

/-! ## One step -/

section Acts

variable {E : Env} {s s' : Holding} {a : Action}

/-- A step that only changes which handle is in whose hands. -/
theorem Holding.Sound.perm (h : s.Sound) (hp : s'.process = s.process) (hl : s'.loose = s.loose)
    (hu : s'.uhidFds.Perm s.uhidFds) : s'.Sound := by
  unfold Holding.Sound
  rw [hp, hl]
  exact Holds.perm h (.refl _) hu

/-- One key taken out of a list. -/
theorem perm_take_out {α β : Type} (f : α → β) (before after : List α) (x : α)
    (front back : List β) :
    (front ++ ((before ++ x :: after).map f ++ back)).Perm
      (f x :: (front ++ ((before ++ after).map f ++ back))) := by
  rw [List.map_append, List.map_cons, List.map_append, List.append_assoc, List.append_assoc,
    List.cons_append]
  exact (List.Perm.append_left front List.perm_middle).trans List.perm_middle

/-- What `create` and `destroy` leave is held as before. -/
theorem Holding.uhidFds_created {order : Record.ByteOrder} {before after : List Handle}
    {handle : Handle} {identity : Identity} {kind : Kind} {reading : Reading}
    {o : Outcome CreateError Battery} {calls : List Entry} (w : World)
    (hs : s.handles = before ++ handle :: after)
    (h : Created order handle identity kind reading o calls) :
    (s.created w before after o).uhidFds.Perm s.uhidFds := by
  cases o with
  | ok b =>
    have hb : b.handle = handle := by
      rw [h.new.1]
      rfl
    have hperm := perm_take_out Handle.fd before after handle []
      (s.batteries.map fun b => b.handle.fd)
    rw [Holding.uhidFds, Holding.uhidFds, hs]
    refine List.Perm.trans ?_ hperm.symm
    simp only [Holding.created, List.map_cons, hb, List.nil_append]
    exact List.perm_middle
  | err e =>
    rw [Holding.uhidFds, Holding.uhidFds, hs]
    simp only [Holding.created, h.err_handle]
    exact .refl _
  | panic => exact .refl _
  | pending => exact .refl _

theorem Holding.uhidFds_destroyed {order : Record.ByteOrder} {before after : List Battery}
    {b : Battery} {o : Outcome Empty Handle} {calls : List Entry} (w : World)
    (hs : s.batteries = before ++ b :: after) (h : Destroyed order b.handle o calls) :
    (s.destroyed w before after o).uhidFds.Perm s.uhidFds := by
  cases o with
  | ok handle =>
    have hperm := perm_take_out (fun b : Battery => b.handle.fd) before after b
      (s.handles.map Handle.fd) []
    rw [List.append_nil, List.append_nil] at hperm
    rw [Holding.uhidFds, Holding.uhidFds, hs]
    refine List.Perm.trans ?_ hperm.symm
    simp only [Holding.destroyed, List.map_cons, h.ok_handle]
    exact .refl _
  | err e => exact e.elim
  | panic => exact .refl _
  | pending => exact .refl _

theorem Holding.fds_dropFd {before after : List Fd} {fd : Fd} {p : Process}
    (hl : s.loose = before ++ fd :: after) :
    s.fds.Perm (fd :: { s with process := p, loose := before ++ after }.fds) := by
  rw [Holding.fds, hl]
  exact List.perm_middle.append_right _

theorem Holding.fds_dropHandle {before after : List Handle} {handle : Handle} {p : Process}
    (hl : s.handles = before ++ handle :: after) :
    s.fds.Perm (handle.fd :: { s with process := p, handles := before ++ after }.fds) := by
  rw [Holding.fds, Holding.uhidFds, hl]
  exact perm_take_out Handle.fd before after handle s.loose _

theorem Holding.fds_dropBattery {before after : List Battery} {b : Battery} {p : Process}
    (hl : s.batteries = before ++ b :: after) :
    s.fds.Perm (b.handle.fd :: { s with process := p, batteries := before ++ after }.fds) := by
  have hperm := perm_take_out (fun b : Battery => b.handle.fd) before after b
    (s.loose ++ s.handles.map Handle.fd) []
  rw [List.append_nil, List.append_nil, List.append_assoc, List.append_assoc] at hperm
  rw [Holding.fds, Holding.uhidFds, hl]
  exact hperm

theorem Holding.uhidFds_used {before after : List Battery} {b b' : Battery} {w : World}
    (hl : s.batteries = before ++ b :: after) (h : Used E (b, s.world) (b', w)) :
    { s with world := w, batteries := before ++ b' :: after }.uhidFds = s.uhidFds := by
  have hb : b'.handle = b.handle := List.singleton_inj.mp h.onHandle.1
  rw [Holding.uhidFds, Holding.uhidFds, hl, List.map_append, List.map_append, List.map_cons,
    List.map_cons, hb]

theorem Holding.uhidFds_served {rounds : Nat} {before slice after slice' : List Battery}
    {deadline : Option Instant} {wake : Option Fd} {o : Outcome ServeError Wakeup} {w : World}
    (hl : s.batteries = before ++ slice ++ after)
    (h : UhidBattery.serveAll E rounds deadline wake (slice, s.world) = (o, (slice', w))) :
    { s with world := w, batteries := before ++ slice' ++ after }.uhidFds = s.uhidFds := by
  have hslice := serveAll_guarantees (serviceAll_onHandles E rounds) (onHandles_idle E) deadline
    wake (slice, s.world)
  rw [h] at hslice
  rw [Holding.uhidFds, Holding.uhidFds, hl]
  simp only [List.map_append, hslice.fds_eq]

/-- A step that drops a descriptor. -/
theorem Holding.Sound.close (h : s.Sound) {fd : Fd} (hp : s'.process = s.process.close fd)
    (hfds : s.fds.Perm (fd :: s'.fds)) (hu : ∀ fd ∈ s'.uhidFds, fd ∈ s.uhidFds) : s'.Sound := by
  unfold Holding.Sound
  rw [hp]
  exact Holds.close h hfds hu

/-- What the crate did with the table of descriptors. -/
def Holding.MovedTo (s s' : Holding) : Prop :=
  Moved s.process.Reserved s.process.table s.fds s'.process.table s'.fds

theorem Holding.movedTo_perm (hp : s'.process = s.process) (hl : s'.loose = s.loose)
    (hu : s'.uhidFds.Perm s.uhidFds) : s.MovedTo s' := by
  unfold Holding.MovedTo
  rw [hp]
  refine .same (fun fd => ?_) fun _ _ => rfl
  rw [Holding.fds, Holding.fds, hl]
  exact (hu.append_left s.loose).mem_iff

/-- A descriptor that is dropped. -/
theorem Holding.movedTo_close {fd : Fd} (hp : s'.process = s.process.close fd)
    (hfds : s.fds.Perm (fd :: s'.fds)) : s.MovedTo s' := by
  unfold Holding.MovedTo
  rw [hp]
  refine .within (fun fd' hfd' => hfds.mem_iff.mpr (List.mem_cons_of_mem fd hfd')) ?_ ?_
  · intro fd' hmem hn
    rcases List.mem_cons.mp (hfds.mem_iff.mp hmem) with rfl | hmem'
    · exact close_self s.process fd'
    · exact absurd hmem' hn
  · intro fd' hn
    refine close_of_ne ?_
    rintro rfl
    exact hn (hfds.mem_iff.mpr List.mem_cons_self)

/-- **What one call of the crate does** to the table of descriptors. -/
theorem Acts.moved (h : Acts E s a s') (ha : a ≠ .elsewhere) : s.MovedTo s' := by
  cases h with
  | @opened refuses errno opens path handle p hfresh h =>
    obtain ⟨file, openFile, ho, ha, hr⟩ := openAt_of_ok h
    rw [ho] at hfresh
    unfold Holding.MovedTo
    rw [ha.table]
    refine .gain [handle.fd] ?_ ?_ ?_
    · intro fd
      simp only [Holding.fds, Holding.uhidFds, List.map_cons, List.mem_append, List.mem_cons,
        List.not_mem_nil]
      tauto
    · intro fd hfd
      rw [List.mem_singleton.mp hfd]
      exact Or.inl hfresh.1
    · intro fd hn _ _
      exact Function.update_of_ne (fun heq => hn (List.mem_singleton.mpr heq)) ..
  | @openFailed refuses errno opens path e p hfresh h =>
    rcases openAt_of_err h with rfl | ⟨fd, file, openFile, ho, rfl⟩
    · exact .same (fun _ => Iff.rfl) fun _ _ => rfl
    · rw [ho] at hfresh
      refine .same (fun _ => Iff.rfl) fun fd' _ => ?_
      by_cases hfd : fd' = fd
      · subst hfd
        rw [close_self, hfresh.1]
      · rw [close_of_ne hfd]
        exact Function.update_of_ne hfd ..
  | @take refuses passed p h =>
    obtain ⟨k, p', heq, ht⟩ := take_takes refuses (p := s.process)
    rw [heq] at h
    cases h
    refine .gain ((s.process.passed k).map Prod.snd) ?_
      (fun fd hfd => Or.inr (ht.reserved hfd)) fun fd hfd _ _ => ht.kept fd hfd
    intro fd
    rw [Holding.fds, List.append_assoc, List.mem_append]
    rfl
  | @inherited refuses lead handles p h =>
    obtain ⟨k, handles', p', heq, hand⟩ := inherited_handsOver refuses lead s.process
    rw [heq] at h
    cases h
    have hpassed : ∀ fd ∈ handles.map Handle.fd, fd ∈ (s.process.passed k).map Prod.snd := by
      intro fd hfd
      rw [hand.handles_eq, List.map_map] at hfd
      obtain ⟨x, hx, rfl⟩ := List.mem_map.mp hfd
      exact List.mem_map_of_mem (List.mem_of_mem_filter hx)
    refine .gain (handles.map Handle.fd) ?_
      (fun fd hfd => Or.inr (reserved_of_passed hand.bounded (hpassed fd hfd))) ?_
    · intro fd
      simp only [Holding.fds, Holding.uhidFds, List.map_append, List.mem_append]
      tauto
    · intro fd _ _ hfree
      exact hand.untouched fd (mt (reserved_of_passed hand.bounded) hfree)
  | @inheritedWithOthers refuses lead handles others p h =>
    obtain ⟨k, p₁, handles', others', dropped, p₂, heq, ht, hsort⟩ :=
      inheritedWithOthers_sorts refuses (p := s.process) lead
    rw [heq] at h
    cases h
    have hpassed : ∀ fd ∈ handles.map Handle.fd ++ others.map Prod.snd ++ dropped,
        s.process.Reserved fd := fun fd hfd => ht.reserved (hsort.perm.mem_iff.mp hfd)
    refine .gain (handles.map Handle.fd ++ others.map Prod.snd) ?_
      (fun fd hfd => Or.inr (hpassed fd (List.mem_append_left _ hfd))) ?_
    · intro fd
      simp only [Holding.fds, Holding.uhidFds, List.map_append, List.mem_append]
      tauto
    · intro fd _ _ hfree
      rw [hsort.kept fd fun hfd => hfree (hpassed fd (List.mem_append_right _ hfd)),
        ht.kept fd (mt ht.reserved hfree)]
  | @fromFd refuses errno before after fd handle p hl h =>
    obtain ⟨rfl, ha, hr⟩ := fromFd_of_ok h
    unfold Holding.MovedTo
    rw [ha.table]
    refine .same (fun fd' => ?_) fun _ _ => rfl
    simp only [Holding.fds, Holding.uhidFds, hl, List.map_cons, List.mem_append, List.mem_cons]
    tauto
  | @fromFdFailed refuses errno before after fd e p hl h =>
    obtain rfl := fromFd_of_err h
    exact Holding.movedTo_close rfl (Holding.fds_dropFd hl)
  | dropFd hl => exact Holding.movedTo_close rfl (Holding.fds_dropFd hl)
  | dropHandle hl => exact Holding.movedTo_close rfl (Holding.fds_dropHandle hl)
  | dropBattery hl => exact Holding.movedTo_close rfl (Holding.fds_dropBattery hl)
  | @create rounds before after handle identity kind reading o w hl h =>
    obtain ⟨hran, hc⟩ := create_since h
    refine Holding.movedTo_perm ?_ ?_ (Holding.uhidFds_created w hl hc)
    · cases o <;> rfl
    · cases o <;> rfl
  | @destroy rounds before after b o w hl h =>
    obtain ⟨hran, hd⟩ := destroy_since h
    refine Holding.movedTo_perm ?_ ?_ (Holding.uhidFds_destroyed w hl hd)
    · cases o <;> rfl
    · cases o <;> rfl
  | use hl h => exact Holding.movedTo_perm rfl rfl (by rw [Holding.uhidFds_used hl h])
  | serveAll hl h => exact Holding.movedTo_perm rfl rfl (by rw [Holding.uhidFds_served hl h])
  | elsewhere hp hran hown honce hmore => exact absurd rfl ha

/-- The variables stay what they are until they are gone. -/
theorem Acts.vars (h : Acts E s a s') : ¬ s'.process.Addressed ∨
    (s'.process.vars = s.process.vars ∧ s'.process.pid = s.process.pid) := by
  cases h with
  | @opened refuses errno opens path handle p hfresh h =>
    obtain ⟨file, openFile, ho, ha, hr⟩ := openAt_of_ok h
    exact Or.inr ⟨ha.vars, ha.later.pid⟩
  | @openFailed refuses errno opens path e p hfresh h =>
    rcases openAt_of_err h with rfl | ⟨fd, file, openFile, ho, rfl⟩
    · exact Or.inr ⟨rfl, rfl⟩
    · exact Or.inr ⟨rfl, rfl⟩
  | @take refuses passed p h =>
    obtain ⟨k, p', heq, ht⟩ := take_takes refuses (p := s.process)
    rw [heq] at h
    cases h
    exact Or.inl (not_addressed_of_vars ht.later.pid ht.vars)
  | @inherited refuses lead handles p h =>
    obtain ⟨k, handles', p', heq, hand⟩ := inherited_handsOver refuses lead s.process
    rw [heq] at h
    cases h
    exact Or.inl (not_addressed_of_vars hand.pid hand.vars)
  | @inheritedWithOthers refuses lead handles others p h =>
    obtain ⟨k, p₁, handles', others', dropped, p₂, heq, ht, hsort⟩ :=
      inheritedWithOthers_sorts refuses (p := s.process) lead
    rw [heq] at h
    cases h
    exact Or.inl (not_addressed_of_vars (hsort.later.pid.trans ht.later.pid)
      (hsort.vars.trans ht.vars))
  | @fromFd refuses errno before after fd handle p hl h =>
    obtain ⟨rfl, ha, hr⟩ := fromFd_of_ok h
    exact Or.inr ⟨ha.vars, ha.later.pid⟩
  | @fromFdFailed refuses errno before after fd e p hl h =>
    obtain rfl := fromFd_of_err h
    exact Or.inr ⟨rfl, rfl⟩
  | dropFd _ | dropHandle _ | dropBattery _ | use _ _ | serveAll _ _ => exact Or.inr ⟨rfl, rfl⟩
  | @create rounds before after handle identity kind reading o w hl h =>
    cases o <;> exact Or.inr ⟨rfl, rfl⟩
  | @destroy rounds before after b o w hl h =>
    cases o <;> exact Or.inr ⟨rfl, rfl⟩
  | elsewhere hp hran hown honce hmore => exact Or.inr ⟨hp.vars, hp.pid⟩

/-- What was not announced never is. -/
theorem Acts.reserved (h : Acts E s a s') {fd : Fd} (hr : s'.process.Reserved fd) :
    s.process.Reserved fd := by
  rcases h.vars with hnone | ⟨hvars, hpid⟩
  · exact absurd hr.1 hnone
  · exact (reserved_congr hvars hpid fd).mp hr

/-! ## Runs -/

/-- A program that nothing was passed to, with a log open. -/
def Holding.bare : Holding where
  process := ⟨7, ⟨.absent, .absent, .absent⟩,
    Function.update (fun _ => none) 2 (some ⟨5, false⟩), fun _ => ⟨none, false⟩⟩
  world := ⟨fun _ => [], []⟩
  loose := []
  handles := []
  batteries := []

/-- `/dev/uhid` is open. -/
def Holding.opened : Holding :=
  { bare with
    process := (Handle.openAt (fun _ _ => false) (fun _ => .other 9)
      (fun _ => .opened 3 0 ⟨some ⟨.characterDevice, uhidDevice⟩, false⟩) [] bare.process).2
    handles := [⟨3⟩] }

/-- A mouse is created on a system at rest. -/
def Holding.made : Outcome CreateError Battery × World :=
  Battery.create (.calm .little 0) 1 ⟨3⟩ (.new "Mouse" "mouse-1") .mouse ⟨50, false⟩ opened.world

def Holding.serving : Holding :=
  { opened with
    world := made.2, handles := [], batteries := [.new ⟨3⟩ .mouse "mouse-1" ⟨50, false⟩] }

section Leaks

variable {fd : Fd}

/-- The rest of the program leaves the place of the descriptor alone. -/
def Unmeddled (fd : Fd) (s : Holding) (a : Action) (s' : Holding) : Prop :=
  a = .elsewhere → s'.process.table fd = s.process.table fd

theorem Acts.moved_elsewhere (h : Acts E s .elsewhere s')
    (hsame : s'.process.table fd = s.process.table fd) : fd ∈ s'.fds ↔ fd ∈ s.fds := by
  cases h with
  | @elsewhere p w calls more hp hran hown honce hmore =>
    have hno : fd ∉ more := by
      intro hfd
      obtain ⟨hnone, hsome⟩ := hmore fd hfd
      simp only at hsame
      rw [hsame, hnone] at hsome
      cases hsome
    have hfds : Holding.fds { s with process := p, world := w, loose := more ++ s.loose } =
        more ++ s.fds := List.append_assoc ..
    rw [hfds, List.mem_append]
    exact or_iff_right hno

/-- What is open, not held and not passed stays what it is. -/
theorem Acts.foreign (h : Acts E s a s') (hq : Unmeddled fd s a s')
    (hopen : (s.process.table fd).isSome) (hfd : fd ∉ s.fds) (hfree : ¬ s.process.Reserved fd) :
    s'.process.table fd = s.process.table fd ∧ fd ∉ s'.fds ∧ ¬ s'.process.Reserved fd := by
  refine (and_assoc.mp ⟨?_, mt h.reserved hfree⟩)
  by_cases ha : a = .elsewhere
  · have hsame := hq ha
    rw [ha] at h
    rw [h.moved_elsewhere hsame]
    exact ⟨hsame, hfd⟩
  · have hmoved := h.moved ha
    have hin : fd ∉ s'.fds := by
      intro hin
      rcases hmoved.gained fd hin hfd with hnone | hres
      · rw [hnone] at hopen
        cases hopen
      · exact hfree hres
    exact ⟨hmoved.foreign fd hfd hfree hin, hin⟩

end Leaks

end Acts

end UhidBattery
