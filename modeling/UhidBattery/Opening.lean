import UhidBattery.ListenFds
import UhidBattery.Sysfs

/-!
# Opening, adopting and closing descriptors

Every way a process comes by a handle, whatever `open`, `fstat` and `fcntl` say.
An `OwnedFd` that is dropped, alone or within a handle or a battery, is closed.

* `Onward`: what none of these does: a descriptor is never put on another file,
  and no file is made to block.
* `fromFd_spec`, `openAt_of_ok`, `adoptNamed_sorts`, `take_takes`: what each does
  with the descriptors.
* `inherited_spec`: nothing passed stays open but the handles.
-/

namespace UhidBattery

open Program (Outcome attempt fail ofOutcome)

/-! ## Operations -/

/-- The drop of an `OwnedFd`. -/
def Process.close (self : Process) (fd : Fd) : Process :=
  { self with table := Function.update self.table fd none }

/-- What the system makes of an `open()`. -/
inductive OpenAnswer where
  | opened (fd : Fd) (file : FileId) (openFile : OpenFile)
  | fails (e : Errno)
  deriving DecidableEq, Repr

/-- A file was opened; `OpenOptions` asks for close-on-exec. -/
def Process.opened (self : Process) (fd : Fd) (file : FileId) (openFile : OpenFile) : Process :=
  { self with
    table := Function.update self.table fd (some ⟨file, true⟩)
    files := Function.update self.files file openFile }

section Operations

variable (refuses : Fd → Fcntl → Bool) (errno : Fd → Errno)

/-- `Handle::from_fd`; `errno` is what a call that fails says of a descriptor. -/
def Handle.fromFd (fd : Fd) : Program Process IoError Handle := fun p =>
  match p.isUhid fd with
  | none => (.err (.os (errno fd)), p.close fd)
  | some false =>
    (.err (invalid "the descriptor is not the uhid character device"), p.close fd)
  | some true =>
    (do
      match ← Handle.adopt refuses fd with
      | some handle => pure handle
      | none => fail (.os (errno fd)) : Program Process IoError Handle) p

/-- `OpenOptions::open`, read and write. -/
def sysOpen (opens : Path → OpenAnswer) (path : Path) : Program Process IoError Fd := fun p =>
  match opens path with
  | .opened fd file openFile => (.ok fd, p.opened fd file openFile)
  | .fails e => (.err (.os e), p)

/-- `Handle::open`. -/
def Handle.openAt (opens : Path → OpenAnswer) (path : Path) : Program Process IoError Handle := do
  let fd ← sysOpen opens path
  Handle.fromFd refuses errno fd

def closeAll (fds : List Fd) : Program Process IoError Unit := fun p =>
  (.ok (), fds.foldl Process.close p)

/-- `Handle::inherited`: the others are dropped. -/
def Handle.inherited (lead : String) : Program Process IoError (List Handle) := do
  let (handles, others) ← Handle.inheritedWithOthers refuses lead
  closeAll (others.map Prod.snd)
  pure handles

end Operations

/-! ## What no operation does -/

/-- Open on a file that is the uhid device, and not to be blocked on. -/
def Process.Ready (self : Process) (fd : Fd) : Prop :=
  self.isUhid fd = some true ∧ ∀ d ∈ self.table fd, (self.files d.file).nonblock = true

/-- No descriptor is put on another file, and no file is changed but to stop it
blocking. -/
structure Onward (p p' : Process) : Prop where
  file : ∀ fd, p'.table fd = none ∨
    (p'.table fd).map Descriptor.file = (p.table fd).map Descriptor.file
  stat : ∀ file, (p'.files file).stat = (p.files file).stat
  nonblock : ∀ file, (p.files file).nonblock = true → (p'.files file).nonblock = true
  pid : p'.pid = p.pid

instance : IsPreorder Process Onward where
  refl p := ⟨fun _ => Or.inr rfl, fun _ => rfl, fun _ h => h, rfl⟩
  trans p₁ p₂ p₃ h h' := by
    refine ⟨?_, fun file => (h'.stat file).trans (h.stat file),
      fun file hn => h'.nonblock file (h.nonblock file hn), h'.pid.trans h.pid⟩
    intro fd
    rcases h'.file fd with hnone | hsame
    · exact Or.inl hnone
    · rcases h.file fd with hnone | hsame'
      · refine Or.inl ((Option.map_eq_none_iff (f := Descriptor.file)).mp ?_)
        rw [hsame, hnone]
        rfl
      · exact Or.inr (hsame.trans hsame')

section Onward

variable {p p' : Process} {fd : Fd}

/-- What is closed stays closed. -/
theorem Onward.closed (h : Onward p p') (hc : p.table fd = none) : p'.table fd = none := by
  rcases h.file fd with hnone | hsame
  · exact hnone
  · rw [hc] at hsame
    exact Option.map_eq_none_iff.mp hsame

/-- What a descriptor is stays, as long as it is open. -/
theorem Onward.isUhid_eq (h : Onward p p') (hl : (p'.table fd).isSome = (p.table fd).isSome) :
    p'.isUhid fd = p.isUhid fd := by
  unfold Process.isUhid
  cases hd : p'.table fd with
  | none =>
    rw [hd] at hl
    rw [Option.isSome_eq_false_iff.mp hl.symm |> Option.isNone_iff_eq_none.mp]
    rfl
  | some d' =>
    rcases h.file fd with hnone | hsame
    · rw [hd] at hnone
      cases hnone
    · rw [hd] at hsame
      obtain ⟨d, hd₀, hfile⟩ := Option.map_eq_some_iff.mp hsame.symm
      rw [hd₀]
      simp only [Option.bind_eq_bind, Option.bind_some, h.stat, hfile]

/-- So does what file it is open on. -/
theorem Onward.openOn_eq (h : Onward p p') (hl : (p'.table fd).isSome = (p.table fd).isSome)
    (file : FileId) : p'.openOn file fd = p.openOn file fd := by
  unfold Process.openOn
  rcases h.file fd with hnone | hsame
  · rw [hnone] at hl ⊢
    rw [Option.isNone_iff_eq_none.mp (Option.isSome_eq_false_iff.mp hl.symm)]
  · cases hd : p.table fd with
    | none =>
      rw [hd, Option.map_none, Option.map_eq_none_iff] at hsame
      rw [hsame]
    | some d =>
      rw [hd] at hsame
      obtain ⟨d', hd', hfile⟩ := Option.map_eq_some_iff.mp hsame
      rw [hd', Option.any_some, Option.any_some, hfile]

theorem isSome_of_isUhid {uhid : Bool} (h : p.isUhid fd = some uhid) : (p.table fd).isSome := by
  cases hd : p.table fd with
  | none => simp [Process.isUhid, hd] at h
  | some d => rfl

theorem Onward.ready (h : Onward p p') (hr : p.Ready fd) (ho : (p'.table fd).isSome) :
    p'.Ready fd := by
  obtain ⟨huhid, hnonblock⟩ := hr
  refine ⟨(h.isUhid_eq (ho.trans (isSome_of_isUhid huhid).symm)).trans huhid, ?_⟩
  intro d' hd'
  rcases h.file fd with hnone | hsame
  · rw [hnone] at hd'
    cases hd'
  · rw [Option.mem_def.mp hd'] at hsame
    obtain ⟨d, hd, hfile⟩ := Option.map_eq_some_iff.mp hsame.symm
    rw [← hfile]
    exact h.nonblock _ (hnonblock d hd)

@[simp] theorem close_self (p : Process) (fd : Fd) : (p.close fd).table fd = none :=
  Function.update_self ..

theorem close_of_ne {fd' : Fd} (h : fd' ≠ fd) : (p.close fd).table fd' = p.table fd' :=
  Function.update_of_ne h ..

theorem onward_close (p : Process) (fd : Fd) : Onward p (p.close fd) := by
  refine ⟨?_, fun _ => rfl, fun _ h => h, rfl⟩
  intro fd'
  by_cases h : fd' = fd
  · subst h
    exact Or.inl (close_self p fd')
  · exact Or.inr (by rw [close_of_ne h])

theorem onward_marked (p : Process) (first k : Nat) : Onward p (p.marked first k) := by
  refine ⟨?_, fun _ => rfl, fun _ h => h, rfl⟩
  intro fd
  refine Or.inr ?_
  simp only [Process.marked]
  split
  · cases p.table fd <;> rfl
  · rfl

theorem onward_files (p : Process) (file : FileId) :
    Onward p { p with files := Function.update p.files file (p.files file).nonblocking } := by
  refine ⟨fun _ => Or.inr rfl, ?_, ?_, rfl⟩
  · intro file'
    by_cases h : file' = file
    · subst h
      simp [OpenFile.nonblocking]
    · simp [Function.update_of_ne h]
  · intro file' hn
    by_cases h : file' = file
    · subst h
      simp [OpenFile.nonblocking]
    · simpa [Function.update_of_ne h] using hn

end Onward

/-! ## Adopting -/

/-- A descriptor became a handle's. -/
structure Adopted (p : Process) (fd : Fd) (p' : Process) : Prop where
  later : Onward p p'
  table : p'.table = p.table
  files : p'.files = (p.adopted [fd]).files
  vars : p'.vars = p.vars
  opened : (p.table fd).isSome

section Adopting

variable {refuses : Fd → Fcntl → Bool} {errno : Fd → Errno} {p : Process}

/-- `fcntl` can make the descriptor non-blocking. -/
def canAdopt (refuses : Fd → Fcntl → Bool) (fd : Fd) : Bool :=
  !refuses fd .getfl && !refuses fd .setfl

variable (refuses) in
/-- **Adopting** the uhid device makes a handle, or closes the descriptor. -/
theorem adopt_spec {fd : Fd} (huhid : p.isUhid fd = some true) :
    (canAdopt refuses fd = false ∧
      (Handle.adopt refuses fd : Program Process IoError _) p = (.ok none, p.close fd)) ∨
    (canAdopt refuses fd = true ∧ ∃ p', Adopted p fd p' ∧ p'.Ready fd ∧
      (Handle.adopt refuses fd : Program Process IoError _) p = (.ok (some ⟨fd⟩), p')) := by
  obtain ⟨d, hd⟩ := Option.isSome_iff_exists.mp (isSome_of_isUhid huhid)
  have hcall (cmd : Fcntl) : (sysFcntl refuses fd cmd : Program Process IoError _) p =
      (.ok (if refuses fd cmd then none else some d), p) := by
    rw [sysFcntl, hd]
  rw [Handle.adopt, Program.bind_ok (hcall .getfl), canAdopt]
  cases refuses fd .getfl with
  | true => exact Or.inl ⟨rfl, rfl⟩
  | false =>
    simp only [Bool.false_eq_true, if_false]
    rw [Program.bind_ok (hcall .setfl)]
    cases refuses fd .setfl with
    | true => exact Or.inl ⟨rfl, rfl⟩
    | false =>
      have hlater := onward_files p d.file
      refine Or.inr ⟨rfl, _, ⟨hlater, rfl, (adopted_one hd).symm, rfl, by rw [hd]; rfl⟩,
        ⟨?_, ?_⟩, rfl⟩
      · rw [hlater.isUhid_eq rfl]
        exact huhid
      · intro d' hd'
        rw [hd, Option.mem_some_iff] at hd'
        subst hd'
        simp [OpenFile.nonblocking]

variable (refuses errno) in
/-- **A checked descriptor** becomes a handle on the uhid device, or is closed. -/
theorem fromFd_spec (fd : Fd) :
    (∃ e, Handle.fromFd refuses errno fd p = (.err e, p.close fd)) ∨
      ∃ p', Handle.fromFd refuses errno fd p = (.ok ⟨fd⟩, p') ∧ Adopted p fd p' ∧ p'.Ready fd := by
  rw [Handle.fromFd]
  cases hu : p.isUhid fd with
  | none => exact Or.inl ⟨_, rfl⟩
  | some uhid =>
    cases uhid with
    | false => exact Or.inl ⟨_, rfl⟩
    | true =>
      rcases adopt_spec refuses hu with ⟨-, h⟩ | ⟨-, p', hp, hready, h⟩
      · refine Or.inl ⟨.os (errno fd), ?_⟩
        simp only
        rw [Program.bind_ok h]
        rfl
      · refine Or.inr ⟨p', ?_, hp, hready⟩
        simp only
        rw [Program.bind_ok h]
        rfl

theorem fromFd_of_ok {fd : Fd} {handle : Handle} {p' : Process}
    (h : Handle.fromFd refuses errno fd p = (.ok handle, p')) :
    handle = ⟨fd⟩ ∧ Adopted p fd p' ∧ p'.Ready fd := by
  rcases fromFd_spec refuses errno (p := p) fd with
    ⟨e, herr⟩ | ⟨p₁, hok, ha, hr⟩
  · rw [herr] at h
    cases h
  · rw [hok] at h
    cases h
    exact ⟨rfl, ha, hr⟩

theorem fromFd_of_err {fd : Fd} {e : IoError} {p' : Process}
    (h : Handle.fromFd refuses errno fd p = (.err e, p')) : p' = p.close fd := by
  rcases fromFd_spec refuses errno (p := p) fd with
    ⟨e, herr⟩ | ⟨p₁, hok, ha, hr⟩
  · rw [herr] at h
    cases h
    rfl
  · rw [hok] at h
    cases h

section Open

variable {opens : Path → OpenAnswer} {path : Path} {p' : Process}

theorem openAt_of_opened {fd : Fd} {file : FileId} {openFile : OpenFile}
    (h : opens path = .opened fd file openFile) :
    Handle.openAt refuses errno opens path p =
      Handle.fromFd refuses errno fd (p.opened fd file openFile) := by
  have hopen : sysOpen opens path p = (.ok fd, p.opened fd file openFile) := by rw [sysOpen, h]
  rw [Handle.openAt, Program.bind_ok hopen]

theorem openAt_of_fails {e : Errno} (h : opens path = .fails e) :
    Handle.openAt refuses errno opens path p = (.err (.os e), p) := by
  have hopen : sysOpen opens path p = (.err (.os e), p) := by rw [sysOpen, h]
  exact Program.bind_err hopen

/-- **Opening** makes a handle of what was opened. -/
theorem openAt_of_ok {handle : Handle}
    (h : Handle.openAt refuses errno opens path p = (.ok handle, p')) :
    ∃ file openFile, opens path = .opened handle.fd file openFile ∧
      Adopted (p.opened handle.fd file openFile) handle.fd p' ∧ p'.Ready handle.fd := by
  cases ho : opens path with
  | fails e =>
    rw [openAt_of_fails ho] at h
    cases h
  | opened fd file openFile =>
    rw [openAt_of_opened ho] at h
    obtain ⟨rfl, ha, hr⟩ := fromFd_of_ok h
    exact ⟨file, openFile, rfl, ha, hr⟩

/-- A failed `open` has closed what it opened. -/
theorem openAt_of_err {e : IoError}
    (h : Handle.openAt refuses errno opens path p = (.err e, p')) :
    p' = p ∨ ∃ fd file openFile, opens path = .opened fd file openFile ∧
      p' = (p.opened fd file openFile).close fd := by
  cases ho : opens path with
  | fails e =>
    rw [openAt_of_fails ho] at h
    cases h
    exact Or.inl rfl
  | opened fd file openFile =>
    rw [openAt_of_opened ho] at h
    exact Or.inr ⟨fd, file, openFile, rfl, fromFd_of_err h⟩

end Open

end Adopting

/-! ## Sorting -/

/-- What the sorting of the passed descriptors did; `dropped` are those that
could not be adopted. -/
structure Sorted (refuses : Fd → Fcntl → Bool) (lead : String) (p : Process)
    (passed : List (String × Fd)) (handles : List Handle) (others : List (String × Fd))
    (dropped : List Fd) (p' : Process) : Prop where
  later : Onward p p'
  vars : p'.vars = p.vars
  perm : (handles.map Handle.fd ++ others.map Prod.snd ++ dropped).Perm (passed.map Prod.snd)
  kept : ∀ fd, fd ∉ dropped → p'.table fd = p.table fd
  closed : ∀ fd ∈ dropped, p'.table fd = none
  files : p'.files = (p.adopted (handles.map Handle.fd)).files
  ready : ∀ handle ∈ handles, p'.Ready handle.fd
  handles_eq : handles = (passed.filter fun x =>
    p.ours lead x && canAdopt refuses x.2).map fun x => ⟨x.2⟩
  others_eq : others = passed.filter fun x => !p.ours lead x

section Sorting

variable {refuses : Fd → Fcntl → Bool} {lead : String} {p p₁ p' : Process}
  {passed : List (String × Fd)} {handles : List Handle} {others : List (String × Fd)}
  {dropped : List Fd} {name : String} {fd : Fd}

theorem Onward.ours_eq (h : Onward p p₁) (hn : fd ∉ passed.map Prod.snd)
    (hkept : ∀ fd', fd' ≠ fd → p₁.table fd' = p.table fd') :
    ∀ x ∈ passed, p₁.ours lead x = p.ours lead x := by
  intro x hx
  have hne : x.2 ≠ fd := by
    rintro rfl
    exact hn (List.mem_map_of_mem hx)
  rw [Process.ours, Process.ours, h.isUhid_eq (by rw [hkept x.2 hne])]

/-- The lists of what was sorted after a first one. -/
theorem Sorted.lists (h : Sorted refuses lead p₁ passed handles others dropped p')
    (hours : ∀ x ∈ passed, p₁.ours lead x = p.ours lead x) :
    handles = (passed.filter fun x => p.ours lead x && canAdopt refuses x.2).map (⟨·.2⟩) ∧
      others = passed.filter fun x => !p.ours lead x := by
  refine ⟨?_, ?_⟩
  · rw [h.handles_eq]
    exact congrArg _ (List.filter_congr fun x hx => by rw [hours x hx])
  · rw [h.others_eq]
    exact List.filter_congr fun x hx => by rw [hours x hx]

theorem Sorted.nil (p : Process) : Sorted refuses lead p [] [] [] [] p :=
  ⟨refl_of Onward p, rfl, .refl _, fun _ _ => rfl, by simp, rfl, by simp, rfl, rfl⟩

theorem Sorted.other (h : Sorted refuses lead p passed handles others dropped p')
    (ho : p.ours lead (name, fd) = false) :
    Sorted refuses lead p ((name, fd) :: passed) handles ((name, fd) :: others) dropped p' := by
  refine ⟨h.later, h.vars, ?_, h.kept, h.closed, h.files, h.ready, ?_, ?_⟩
  · rw [List.map_cons, List.map_cons, List.append_assoc, List.cons_append]
    refine List.perm_middle.trans (.cons fd ?_)
    rw [← List.append_assoc]
    exact h.perm
  · rw [List.filter_cons_of_neg (by simp [ho])]
    exact h.handles_eq
  · rw [List.filter_cons_of_pos (by simp [ho]), ← h.others_eq]

theorem Sorted.handle (ho : p.ours lead (name, fd) = true) (hc : canAdopt refuses fd = true)
    (ha : Adopted p fd p₁) (hr : p₁.Ready fd)
    (h : Sorted refuses lead p₁ passed handles others dropped p')
    (hn : fd ∉ passed.map Prod.snd) :
    Sorted refuses lead p ((name, fd) :: passed) (⟨fd⟩ :: handles) others dropped p' := by
  have hnot : fd ∉ dropped := fun hmem => hn (h.perm.mem_iff.mp (List.mem_append_right _ hmem))
  obtain ⟨hhandles, hothers⟩ := h.lists (ha.later.ours_eq hn fun _ _ => by rw [ha.table])
  refine ⟨trans_of Onward ha.later h.later, h.vars.trans ha.vars, .cons fd h.perm, ?_, h.closed,
    ?_, ?_, ?_, ?_⟩
  · intro fd' hfd'
    rw [h.kept fd' hfd', ha.table]
  · have hopen : ∀ fd' ∈ handles.map Handle.fd, ∀ file,
        p₁.openOn file fd' = (p.adopted [fd]).openOn file fd' := by
      intro fd' _ file
      rw [openOn_adopted, Process.openOn, Process.openOn, ha.table]
    rw [h.files, adopted_congr hopen ha.files, adopted_cons]
    rfl
  · intro handle hmem
    rcases List.mem_cons.mp hmem with rfl | hmem
    · exact h.later.ready hr (by rw [h.kept fd hnot, ha.table]; exact ha.opened)
    · exact h.ready handle hmem
  · rw [List.filter_cons_of_pos (by simp [ho, hc]), List.map_cons, ← hhandles]
  · rw [List.filter_cons_of_neg (by simp [ho])]
    exact hothers

theorem Sorted.drop (ho : p.ours lead (name, fd) = true) (hc : canAdopt refuses fd = false)
    (h : Sorted refuses lead (p.close fd) passed handles others dropped p')
    (hn : fd ∉ passed.map Prod.snd) :
    Sorted refuses lead p ((name, fd) :: passed) handles others (fd :: dropped) p' := by
  have hlater := onward_close p fd
  obtain ⟨hhandles, hothers⟩ := h.lists (hlater.ours_eq hn fun _ hne => close_of_ne hne)
  refine ⟨trans_of Onward hlater h.later, h.vars, ?_, ?_, ?_, ?_, h.ready, ?_, ?_⟩
  · exact List.perm_middle.trans (.cons fd h.perm)
  · intro fd' hfd'
    obtain ⟨hne, hnot⟩ := not_or.mp (mt List.mem_cons.mpr hfd')
    rw [h.kept fd' hnot, close_of_ne hne]
  · intro fd' hmem
    rcases List.mem_cons.mp hmem with rfl | hmem
    · exact h.later.closed (close_self p fd')
    · exact h.closed fd' hmem
  · rw [h.files]
    refine adopted_congr (fun fd' hfd' file => ?_) rfl
    have hne : fd' ≠ fd := by
      rintro rfl
      exact hn (h.perm.mem_iff.mp (List.mem_append_left _ (List.mem_append_left _ hfd')))
    rw [Process.openOn, Process.openOn, close_of_ne hne]
  · rw [List.filter_cons_of_neg (by simp [hc])]
    exact hhandles
  · rw [List.filter_cons_of_neg (by simp [ho])]
    exact hothers

variable (refuses) in
/-- **The sorting** of distinct descriptors: each becomes a handle, is handed
back or is closed. -/
theorem adoptNamed_sorts (lead : String) (hn : (passed.map Prod.snd).Nodup) :
    ∃ handles others dropped p',
      (Handle.adoptNamed refuses lead passed : Program Process IoError _) p =
        (.ok (handles, others), p') ∧
      Sorted refuses lead p passed handles others dropped p' := by
  induction passed generalizing p with
  | nil => exact ⟨[], [], [], p, rfl, .nil p⟩
  | cons x passed ih =>
    obtain ⟨name, fd⟩ := x
    obtain ⟨hfd, hrest⟩ := List.nodup_cons.mp hn
    have hours : p.ours lead (name, fd) = true ↔
        startsWith name lead ∧ (p.isUhid fd).getD false := by simp [Process.ours]
    unfold Handle.adoptNamed
    by_cases h : p.ours lead (name, fd) = true
    · have huhid : p.isUhid fd = some true := by
        cases hu : p.isUhid fd with
        | none => simp [Process.ours, hu] at h
        | some uhid => simpa [hu] using (hours.mp h).2
      simp only [if_pos (hours.mp h)]
      rcases adopt_spec refuses huhid with ⟨hc, hadopt⟩ | ⟨hc, p₁, ha, hr, hadopt⟩
      · obtain ⟨handles, others, dropped, p', heq, hs⟩ := ih (p := p.close fd) hrest
        refine ⟨handles, others, fd :: dropped, p', ?_, hs.drop h hc hfd⟩
        rw [Program.bind_ok hadopt, Program.bind_ok heq]
        rfl
      · obtain ⟨handles, others, dropped, p', heq, hs⟩ := ih (p := p₁) hrest
        refine ⟨⟨fd⟩ :: handles, others, dropped, p', ?_, hs.handle h hc ha hr hfd⟩
        rw [Program.bind_ok hadopt, Program.bind_ok heq]
        rfl
    · obtain ⟨handles, others, dropped, p', heq, hs⟩ := ih (p := p) hrest
      refine ⟨handles, (name, fd) :: others, dropped, p', ?_, hs.other (by simpa using h)⟩
      simp only [if_neg (mt hours.mpr h)]
      rw [Program.bind_ok heq]
      rfl

end Sorting

/-! ## Taking -/

section Taking

variable {refuses : Fd → Fcntl → Bool} {p : Process}

variable (refuses) in
theorem fcntlSetfd_cases (fd : Nat) :
    ((p.table fd = none ∨ refuses fd .setfd = true) ∧
      (fcntlSetfd refuses fd : Program Process IoError Bool) p = (.ok false, p)) ∨
    ((p.table fd).isSome ∧
      (fcntlSetfd refuses fd : Program Process IoError Bool) p = (.ok true, p.marked fd 1)) := by
  by_cases hr : refuses fd .setfd = true
  · have hcall : (sysFcntl refuses fd .setfd : Program Process IoError _) p = (.ok none, p) := by
      rw [sysFcntl, if_pos hr]
    refine Or.inl ⟨Or.inr hr, ?_⟩
    rw [fcntlSetfd, Program.bind_ok hcall]
    rfl
  · cases hd : p.table fd with
    | none => exact Or.inl ⟨Or.inl rfl, fcntlSetfd_of_closed hd⟩
    | some d =>
      have hsame : (fcntlSetfd refuses fd : Program Process IoError Bool) p =
          fcntlSetfd (fun _ _ => false) fd p := by
        simp only [fcntlSetfd, Program.bind_apply, sysFcntl, if_neg hr, Bool.false_eq_true,
          if_false]
      refine Or.inr ⟨rfl, ?_⟩
      rw [hsame, fcntlSetfd_of_open (fun _ _ _ => rfl) hd]

variable (refuses) in
/-- **The walk** takes open descriptors from the first number on, up to one that is
closed or refused. -/
theorem walk_takes (offset left : Nat) (names : List String)
    (hle : listenFdsStart + offset + left ≤ rawFdMax + 1) :
    ∃ k ≤ left, (∀ i < k, (p.table (listenFdsStart + offset + i)).isSome) ∧
      (k = left ∨ p.table (listenFdsStart + offset + k) = none ∨
        refuses (listenFdsStart + offset + k) .setfd = true) ∧
      (walk refuses offset left names : Program Process IoError _) p =
        (.ok ((List.range k).map fun i => (names.getD i "", listenFdsStart + offset + i)),
          p.marked (listenFdsStart + offset) k) := by
  induction left generalizing offset names p with
  | zero => exact ⟨0, Nat.le_refl 0, by simp, Or.inl rfl, by rw [marked_zero]; rfl⟩
  | succ left ih =>
    have hraw : listenFdsStart + offset ≤ rawFdMax := by omega
    have hname (i : Nat) : names.tail.getD i "" = names.getD (i + 1) "" := by
      cases names <;> rfl
    have hfirst : names.headD "" = names.getD 0 "" := by cases names <;> rfl
    have hnext (i : Nat) :
        listenFdsStart + (offset + 1) + i = listenFdsStart + offset + (i + 1) := by
      omega
    rw [walk, Program.bind_ok (rawFd_of_le hraw)]
    rcases fcntlSetfd_cases refuses (p := p) (listenFdsStart + offset) with
      ⟨hstop, hset⟩ | ⟨hfd, hset⟩
    · refine ⟨0, Nat.zero_le _, by simp, Or.inr hstop, ?_⟩
      rw [Program.bind_ok hset, marked_zero]
      rfl
    · obtain ⟨k, hk, hopen, hstop, hwalk⟩ := ih (p := p.marked (listenFdsStart + offset) 1)
        (offset + 1) names.tail (by omega)
      refine ⟨k + 1, by omega, ?_, ?_, ?_⟩
      · intro i hi
        cases i with
        | zero => exact hfd
        | succ i =>
          have h := hopen i (by omega)
          rwa [isSome_marked, hnext] at h
      · rw [← Option.not_isSome_iff_eq_none, isSome_marked, Option.not_isSome_iff_eq_none,
          hnext] at hstop
        exact hstop.imp (congrArg (· + 1)) id
      · rw [Program.bind_ok hset]
        simp only [if_true]
        rw [Program.bind_ok hwalk, List.range_succ_eq_map, List.map_cons, List.map_map,
          ← marked_succ (listenFdsStart + offset) k]
        simp only [hname, hnext, hfirst, Nat.add_zero]
        rfl

/-- Announced to the process and not taken yet. -/
def Process.Reserved (self : Process) (fd : Nat) : Prop :=
  self.Addressed ∧ listenFdsStart ≤ fd ∧ fd < listenFdsStart + self.count

/-- The first `k` descriptors passed to a process, each with its name. -/
def Process.passed (self : Process) (k : Nat) : List (String × Fd) :=
  (List.range k).map fun i => (self.name i, listenFdsStart + i)

theorem mem_passed {k fd : Nat} :
    fd ∈ (p.passed k).map Prod.snd ↔ listenFdsStart ≤ fd ∧ fd < listenFdsStart + k := by
  rw [Process.passed, List.map_map, List.mem_map]
  constructor
  · rintro ⟨i, hi, rfl⟩
    have := List.mem_range.mp hi
    exact ⟨Nat.le_add_right _ _, Nat.add_lt_add_left this _⟩
  · rintro ⟨hle, hlt⟩
    exact ⟨fd - listenFdsStart, List.mem_range.mpr (by omega), Nat.add_sub_of_le hle⟩

theorem nodup_passed (k : Nat) : ((p.passed k).map Prod.snd).Nodup := by
  rw [Process.passed, List.map_map]
  exact List.nodup_range.map fun i j h => by simpa using h

/-- What taking the first `k` of the passed descriptors did. -/
structure Taken (refuses : Fd → Fcntl → Bool) (p : Process) (k : Nat) (p' : Process) : Prop where
  later : Onward p p'
  bounded : if p.Addressed then k ≤ p.count else k = 0
  stopped : p.Addressed → k = p.count ∨ p.table (listenFdsStart + k) = none ∨
    refuses (listenFdsStart + k) .setfd = true
  opened : ∀ fd ∈ (p.passed k).map Prod.snd, (p.table fd).isSome
  kept : ∀ fd, fd ∉ (p.passed k).map Prod.snd → p'.table fd = p.table fd
  live : ∀ fd, (p'.table fd).isSome = (p.table fd).isSome
  files : p'.files = p.files
  vars : p'.vars = if p.Addressed then ⟨.absent, .absent, .absent⟩ else p.vars

theorem not_addressed_of_absent (h : p.vars.listenPid = .absent) : ¬ p.Addressed := by
  rintro ⟨value, hv, -⟩
  rw [h] at hv
  cases hv

section Taken

variable {k : Nat} {p' : Process}

theorem reserved_of_passed (hk : if p.Addressed then k ≤ p.count else k = 0) {fd : Fd}
    (hfd : fd ∈ (p.passed k).map Prod.snd) : p.Reserved fd := by
  obtain ⟨hle, hlt⟩ := mem_passed.mp hfd
  by_cases ha : p.Addressed
  · rw [if_pos ha] at hk
    exact ⟨ha, hle, Nat.lt_of_lt_of_le hlt (Nat.add_le_add_left hk _)⟩
  · rw [if_neg ha] at hk
    rw [hk] at hlt
    exact absurd hlt (Nat.not_lt.mpr hle)

theorem Taken.reserved (h : Taken refuses p k p') {fd : Fd}
    (hfd : fd ∈ (p.passed k).map Prod.snd) : p.Reserved fd :=
  reserved_of_passed h.bounded hfd

/-- Nothing is left to take. -/
theorem not_addressed_of_vars (hpid : p'.pid = p.pid)
    (h : p'.vars = if p.Addressed then ⟨.absent, .absent, .absent⟩ else p.vars) :
    ¬ p'.Addressed := by
  by_cases ha : p.Addressed
  · rw [if_pos ha] at h
    exact not_addressed_of_absent (by rw [h])
  · rw [if_neg ha] at h
    unfold Process.Addressed
    rw [h, hpid]
    exact ha

end Taken

variable (refuses) in
/-- **Taking** what was passed, whatever `fcntl` says. -/
theorem take_takes :
    ∃ k p', (take refuses : Program Process IoError _) p = (.ok (p.passed k), p') ∧
      Taken refuses p k p' := by
  unfold take
  rw [announced_eq]
  by_cases ha : p.Addressed
  · obtain ⟨k, hk, hopen, hstop, hwalk⟩ := walk_takes refuses (p := p) 0
      p.count (splitColon (p.vars.listenFdnames.ok.getD "")) (by have := p.count_le; omega)
    simp only [if_pos ha]
    rw [Program.bind_ok hwalk]
    refine ⟨k, _, rfl, ?_⟩
    constructor
    case later => exact ⟨(onward_marked p _ k).file, fun _ => rfl, fun _ h => h, rfl⟩
    case bounded => rwa [if_pos ha]
    case stopped => exact fun _ => hstop
    case opened =>
      intro fd hfd
      obtain ⟨hle, hlt⟩ := mem_passed.mp hfd
      have h := hopen (fd - listenFdsStart) (by omega)
      rwa [Nat.add_zero, Nat.add_sub_of_le hle] at h
    case kept => exact fun fd hfd => if_neg (mt mem_passed.mpr hfd)
    case live => exact isSome_marked _ k
    case files => rfl
    case vars => rw [if_pos ha]
  · simp only [if_neg ha]
    refine ⟨0, p, rfl, ⟨refl_of Onward p, ?_, fun h => absurd h ha, ?_, fun _ _ => rfl,
      fun _ => rfl, rfl, ?_⟩⟩
    · rw [if_neg ha]
    · simp [Process.passed]
    · rw [if_neg ha]

end Taking

/-! ## Handing over -/

section Inherited

variable {refuses : Fd → Fcntl → Bool} {p : Process}

variable (refuses) in
theorem inheritedWithOthers_sorts (lead : String) :
    ∃ k p₁ handles others dropped p',
      (Handle.inheritedWithOthers refuses lead : Program Process IoError _) p =
        (.ok (handles, others), p') ∧ Taken refuses p k p₁ ∧
      Sorted refuses lead p₁ (p.passed k) handles others dropped p' := by
  obtain ⟨k, p₁, htake, ht⟩ := take_takes refuses (p := p)
  obtain ⟨handles, others, dropped, p', hsort, hs⟩ := adoptNamed_sorts refuses
    (p := p₁) lead (nodup_passed (p := p) k)
  refine ⟨k, p₁, handles, others, dropped, p', ?_, ht, hs⟩
  rw [Handle.inheritedWithOthers, Program.bind_ok htake, hsort]

theorem foldl_close (fds : List Fd) : Onward p (fds.foldl Process.close p) ∧
    (fds.foldl Process.close p).files = p.files ∧ (fds.foldl Process.close p).vars = p.vars ∧
    (∀ fd ∈ fds, (fds.foldl Process.close p).table fd = none) ∧
    ∀ fd, fd ∉ fds → (fds.foldl Process.close p).table fd = p.table fd := by
  induction fds generalizing p with
  | nil => exact ⟨refl_of Onward p, rfl, rfl, by simp, fun _ _ => rfl⟩
  | cons fd fds ih =>
    obtain ⟨hlater, hfiles, hvars, hclosed, hkept⟩ := ih (p := p.close fd)
    refine ⟨trans_of Onward (onward_close p fd) hlater, hfiles, hvars, ?_, ?_⟩
    · intro fd' hmem
      rcases List.mem_cons.mp hmem with rfl | hmem
      · exact hlater.closed (close_self p fd')
      · exact hclosed fd' hmem
    · intro fd' hn
      obtain ⟨hne, hnot⟩ := not_or.mp (mt List.mem_cons.mpr hn)
      rw [List.foldl_cons, hkept fd' hnot, close_of_ne hne]

/-- What `inherited` makes of a process of which it took the first `k` descriptors. -/
structure HandedOver (refuses : Fd → Fcntl → Bool) (lead : String) (p : Process) (k : Nat)
    (handles : List Handle) (p' : Process) : Prop where
  bounded : if p.Addressed then k ≤ p.count else k = 0
  stopped : p.Addressed → k = p.count ∨ p.table (listenFdsStart + k) = none ∨
    refuses (listenFdsStart + k) .setfd = true
  handles_eq : handles = ((p.passed k).filter fun x =>
    p.ours lead x && canAdopt refuses x.2).map fun x => ⟨x.2⟩
  ready : ∀ handle ∈ handles, p'.Ready handle.fd
  closed : ∀ x ∈ p.passed k, ⟨x.2⟩ ∉ handles → p'.table x.2 = none
  untouched : ∀ fd, fd ∉ (p.passed k).map Prod.snd → p'.table fd = p.table fd
  files : p'.files = (p.adopted (handles.map Handle.fd)).files
  pid : p'.pid = p.pid
  vars : p'.vars = if p.Addressed then ⟨.absent, .absent, .absent⟩ else p.vars

theorem Taken.ours_eq {k : Nat} {p₁ : Process} (h : Taken refuses p k p₁) (lead : String) :
    p₁.ours lead = p.ours lead := by
  funext x
  rw [Process.ours, Process.ours, h.later.isUhid_eq (h.live x.2)]

/-- Without the variables nothing is inherited. -/
theorem inherited_of_not_addressed (lead : String) (ha : ¬ p.Addressed) :
    (Handle.inherited refuses lead : Program Process IoError _) p = (.ok [], p) := by
  have htake : (take refuses : Program Process IoError _) p = (.ok [], p) := by
    unfold take
    rw [announced_eq]
    simp only [if_neg ha]
  have hothers : (Handle.inheritedWithOthers refuses lead : Program Process IoError _) p =
      (.ok ([], []), p) := by
    rw [Handle.inheritedWithOthers, Program.bind_ok htake]
    rfl
  rw [Handle.inherited, Program.bind_ok hothers]
  rfl

/-- What is taken is handed over, whatever `fcntl` says. -/
theorem inherited_handsOver (refuses : Fd → Fcntl → Bool) (lead : String) (p : Process) :
    ∃ k handles p', (Handle.inherited refuses lead : Program Process IoError _) p =
        (.ok handles, p') ∧ HandedOver refuses lead p k handles p' := by
  obtain ⟨k, p₁, handles, others, dropped, p₂, heq, ht, hs⟩ :=
    inheritedWithOthers_sorts refuses (p := p) lead
  obtain ⟨hlater, hfiles, hvars, hclosed, hkept⟩ := foldl_close (p := p₂) (others.map Prod.snd)
  have honce := hs.perm.nodup_iff.mpr (nodup_passed k)
  refine ⟨k, handles, (others.map Prod.snd).foldl Process.close p₂, ?_, ?_⟩
  · rw [Handle.inherited, Program.bind_ok heq]
    rfl
  · constructor
    case bounded => exact ht.bounded
    case stopped => exact ht.stopped
    case handles_eq => rw [hs.handles_eq, ht.ours_eq]
    case ready =>
      intro handle hmem
      have hready := hs.ready handle hmem
      have hnot : handle.fd ∉ others.map Prod.snd :=
        (List.nodup_append'.mp (List.nodup_append'.mp honce).1).2.2 (List.mem_map_of_mem hmem)
      exact hlater.ready hready (by rw [hkept _ hnot]; exact isSome_of_isUhid hready.1)
    case closed =>
      intro x hx hnot
      have hmem := hs.perm.mem_iff.mpr (List.mem_map_of_mem hx)
      rcases List.mem_append.mp hmem with hmem | hmem
      · rcases List.mem_append.mp hmem with hmem | hmem
        · obtain ⟨handle, hhandle, hfd⟩ := List.mem_map.mp hmem
          exact absurd (by rw [← hfd]; exact hhandle) hnot
        · exact hclosed x.2 hmem
      · exact hlater.closed (hs.closed x.2 hmem)
    case untouched =>
      intro fd hfd
      have hnot := mt hs.perm.mem_iff.mp hfd
      rw [List.mem_append, List.mem_append, not_or, not_or] at hnot
      rw [hkept fd hnot.1.2, hs.kept fd hnot.2, ht.kept fd hfd]
    case files =>
      rw [hfiles, hs.files]
      exact adopted_congr (fun fd _ => ht.later.openOn_eq (ht.live fd)) ht.files
    case pid => rw [hlater.pid, hs.later.pid, ht.later.pid]
    case vars => rw [hvars, hs.vars, ht.vars]

/-- **Inheriting**, whatever `fcntl` says: of what was passed and taken only the
handles stay open, nothing else is touched, and nothing is left to inherit. -/
theorem inherited_spec (refuses : Fd → Fcntl → Bool) (lead : String) (p : Process) :
    ∃ k handles p', (Handle.inherited refuses lead : Program Process IoError _) p =
        (.ok handles, p') ∧ HandedOver refuses lead p k handles p' ∧
      ∀ refuses' lead', (Handle.inherited refuses' lead' : Program Process IoError _) p' =
        (.ok [], p') := by
  obtain ⟨k, handles, p', heq, hand⟩ := inherited_handsOver refuses lead p
  refine ⟨k, handles, p', heq, hand, fun refuses' lead' => ?_⟩
  exact inherited_of_not_addressed lead' (not_addressed_of_vars hand.pid hand.vars)

end Inherited

end UhidBattery
