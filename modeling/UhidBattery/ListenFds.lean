import UhidBattery.Handle
import Mathlib.Data.List.Range
import Mathlib.Data.List.Basic
import Mathlib.Data.List.Perm.Basic

/-!
# Descriptors a service manager passed down

`listen_fds::take` and `Handle::inherited_with_others`, on a process with its
three `LISTEN_*` variables, its descriptors and the files they are open on.

* `announced_eq`: how many descriptors are announced, and when the variables are
  addressed to the process.
* `walk_spec`, `adoptNamed_spec`: the walk over the numbers, and the sorting of
  what it took.
* `inheritedWithOthers_spec`: what becomes of every descriptor of the process.
-/

namespace UhidBattery

open Program (Outcome attempt fail ofOutcome)

/-! ## Numbers and names in strings -/

/-- The value of a string of ASCII digits, not empty. -/
def digits? (cs : List Char) : Option Nat :=
  if cs ≠ [] ∧ cs.all Char.isDigit then some (cs.foldl (fun n c => 10 * n + (c.toNat - 48)) 0)
  else none

/-- `str::parse::<u32>`. -/
def parseU32 (s : String) : Option Nat :=
  (match s.toList with
    | '+' :: cs => digits? cs
    | cs => digits? cs).filter fun n => n < 2 ^ 32

/-- `str::parse::<i32>`. -/
def parseI32 (s : String) : Option Int :=
  (match s.toList with
    | '+' :: cs => (digits? cs).map Int.ofNat
    | '-' :: cs => (digits? cs).map fun n => -Int.ofNat n
    | cs => (digits? cs).map Int.ofNat).filter fun n => -2 ^ 31 ≤ n ∧ n < 2 ^ 31

/-- `str::split(':')`. -/
def splitColon (s : String) : List String := (s.toList.splitOn ':').map String.ofList

/-! ## The process -/

/-- An environment variable, as `std::env::var` finds it. -/
inductive Var where
  | absent
  | notUnicode
  | unicode (value : String)
  deriving DecidableEq, Repr

/-- `std::env::var(key).ok()`. -/
def Var.ok : Var → Option String
  | unicode value => some value
  | _ => none

structure ListenVars where
  listenPid : Var
  listenFds : Var
  listenFdnames : Var
  deriving DecidableEq, Repr

inductive FileType where
  | characterDevice
  | other
  deriving DecidableEq, Repr

/-- A device number, by its major and minor. -/
structure Device where
  major : Nat
  minor : Nat
  deriving DecidableEq, Repr

structure Stat where
  fileType : FileType
  rdev : Device
  deriving DecidableEq, Repr

/-- An open file: what `fstat` says of it, if it succeeds, and a status flag that
all descriptors open on it share. -/
structure OpenFile where
  stat : Option Stat
  nonblock : Bool
  deriving DecidableEq, Repr

abbrev FileId := Nat

/-- An open descriptor. -/
structure Descriptor where
  file : FileId
  cloexec : Bool
  deriving DecidableEq, Repr

structure Process where
  pid : Nat
  vars : ListenVars
  table : Fd → Option Descriptor
  files : FileId → OpenFile

def listenFdsStart : Nat := 3

/-- `RawFd::MAX`. -/
def rawFdMax : Nat := 2 ^ 31 - 1

def uhidDevice : Device := ⟨10, 239⟩

/-- The ways `fcntl` is called. -/
inductive Fcntl where
  | setfd
  | getfl
  | setfl
  deriving DecidableEq, Repr

/-- A descriptor as `exec` will close it. -/
def Descriptor.marked (self : Descriptor) : Descriptor := { self with cloexec := true }

def OpenFile.nonblocking (self : OpenFile) : OpenFile := { self with nonblock := true }

section Operations

variable (refuses : Fd → Fcntl → Bool)

/-- `fcntl` works on an open descriptor, unless it refuses. -/
def sysFcntl (fd : Fd) (cmd : Fcntl) : Program Process IoError (Option Descriptor) := fun p =>
  (.ok (if refuses fd cmd then none else p.table fd), p)

/-- `fcntl_setfd(fd, FdFlags::CLOEXEC)`, and whether it succeeded. -/
def fcntlSetfd (fd : Fd) : Program Process IoError Bool := do
  match ← sysFcntl refuses fd .setfd with
  | some descriptor => fun p =>
    (.ok true, { p with table := Function.update p.table fd (some descriptor.marked) })
  | none => pure false

/-- `Handle::adopt`; when it fails, the descriptor it owned is closed. -/
def Handle.adopt (fd : Fd) : Program Process IoError (Option Handle) := do
  match ← sysFcntl refuses fd .getfl with
  | none => fun p => (.ok none, { p with table := Function.update p.table fd none })
  | some _ =>
    match ← sysFcntl refuses fd .setfl with
    | none => fun p => (.ok none, { p with table := Function.update p.table fd none })
    | some descriptor => fun p => (.ok (some ⟨fd⟩), { p with
        files := Function.update p.files descriptor.file (p.files descriptor.file).nonblocking })

/-- Whether `fd` is the uhid character device, if that can be told. -/
def Process.isUhid (self : Process) (fd : Fd) : Option Bool := do
  let descriptor ← self.table fd
  let stat ← (self.files descriptor.file).stat
  pure (decide (stat.fileType = .characterDevice ∧ stat.rdev = uhidDevice))

/-- How many descriptors are announced to the process. -/
def announced (listenPid listenFds : Option String) (pid : Nat) : Option Nat := do
  let addressed ← listenPid.bind parseU32
  if addressed ≠ pid then none
  else
    let count := ((listenFds.bind parseI32).filter fun count : Int =>
      0 < count ∧ count ≤ ((rawFdMax - listenFdsStart : Nat) : Int)).getD 0
    pure count.toNat

/-- `LISTEN_FDS_START + offset`, which may overflow. -/
def rawFd (offset : Nat) : Program Process IoError Fd :=
  if listenFdsStart + offset ≤ rawFdMax then pure (listenFdsStart + offset) else ofOutcome .panic

/-- The loop of `take`: `left` numbers from `offset` on, in step with the names. -/
def walk (offset : Nat) : Nat → List String → Program Process IoError (List (String × Fd))
  | 0, _ => pure []
  | left + 1, names => do
    let fd ← rawFd offset
    if ← fcntlSetfd refuses fd then
      let passed ← walk (offset + 1) left names.tail
      pure ((names.headD "", fd) :: passed)
    else pure []

def unset : Program Process IoError Unit := fun p =>
  (.ok (), { p with vars := ⟨.absent, .absent, .absent⟩ })

/-- `listen_fds::take`. -/
def take : Program Process IoError (List (String × Fd)) := fun p =>
  match announced p.vars.listenPid.ok p.vars.listenFds.ok p.pid with
  | none => (.ok [], p)
  | some count =>
    (do
      let passed ← walk refuses 0 count (splitColon (p.vars.listenFdnames.ok.getD ""))
      unset
      pure passed : Program Process IoError _) p

/-- `str::starts_with`. -/
def startsWith (name lead : String) : Bool := lead.toList.isPrefixOf name.toList

def Handle.adoptNamed (lead : String) :
    List (String × Fd) → Program Process IoError (List Handle × List (String × Fd))
  | [] => pure ([], [])
  | (name, fd) :: passed => fun p =>
    if startsWith name lead ∧ (p.isUhid fd).getD false then
      (do
        let handle ← Handle.adopt refuses fd
        let (handles, others) ← adoptNamed lead passed
        pure (handle.toList ++ handles, others) : Program Process IoError _) p
    else
      (do
        let (handles, others) ← adoptNamed lead passed
        pure (handles, (name, fd) :: others) : Program Process IoError _) p

/-- `Handle::inherited_with_others`. -/
def Handle.inheritedWithOthers (lead : String) :
    Program Process IoError (List Handle × List (String × Fd)) := do
  let passed ← take refuses
  Handle.adoptNamed refuses lead passed

end Operations

/-! ## What is announced -/

/-- `LISTEN_PID` is this process. -/
def Process.Addressed (self : Process) : Prop :=
  ∃ value, self.vars.listenPid = .unicode value ∧ parseU32 value = some self.pid

instance (p : Process) : Decidable p.Addressed :=
  decidable_of_iff (p.vars.listenPid.ok.bind parseU32 = some p.pid) <| by
    unfold Process.Addressed
    cases p.vars.listenPid <;> simp [Var.ok]

/-- How many descriptors `LISTEN_FDS` announces: none if it is missing, no
number, not positive, or too large for the numbers to be descriptors. -/
def Process.count (self : Process) : Nat :=
  match self.vars.listenFds with
  | .unicode value =>
    match parseI32 value with
    | some n => if 0 < n ∧ n ≤ ((rawFdMax - listenFdsStart : Nat) : Int) then n.toNat else 0
    | none => 0
  | _ => 0

/-- The name of the `i`th descriptor, empty past the end of the list. -/
def Process.name (self : Process) (i : Nat) : String :=
  (splitColon (self.vars.listenFdnames.ok.getD "")).getD i ""

theorem Process.count_le (p : Process) : listenFdsStart + p.count ≤ rawFdMax := by
  have hbound : listenFdsStart ≤ rawFdMax := by decide
  unfold Process.count
  split
  · split
    · split
      · rename_i n _ h
        have hle : n.toNat ≤ rawFdMax - listenFdsStart := Int.toNat_le.mpr h.2
        omega
      · exact hbound
    · exact hbound
  · exact hbound

/-- **What is announced** to a process. -/
theorem announced_eq (p : Process) :
    announced p.vars.listenPid.ok p.vars.listenFds.ok p.pid =
      if p.Addressed then some p.count else none := by
  have haddr : p.Addressed ↔ p.vars.listenPid.ok.bind parseU32 = some p.pid := by
    unfold Process.Addressed
    cases p.vars.listenPid <;> simp [Var.ok]
  have hcount : (((p.vars.listenFds.ok.bind parseI32).filter fun count : Int =>
      0 < count ∧ count ≤ ((rawFdMax - listenFdsStart : Nat) : Int)).getD 0).toNat = p.count := by
    unfold Process.count
    cases p.vars.listenFds with
    | absent => rfl
    | notUnicode => rfl
    | unicode value =>
      cases hparse : parseI32 value with
      | none => simp [Var.ok, hparse]
      | some n =>
        simp only [Var.ok, Option.bind_some, hparse, Option.filter, decide_eq_true_eq]
        split <;> rfl
  unfold announced
  cases hp : p.vars.listenPid.ok.bind parseU32 with
  | none => rw [if_neg (by rw [haddr, hp]; simp)]; rfl
  | some addressed =>
    by_cases h : addressed = p.pid
    · rw [if_pos (haddr.mpr (by rw [hp, h])), ← hcount]
      simp [h]
    · rw [if_neg (by rw [haddr, hp]; simpa using h)]
      simp [h]

/-! ## The walk -/

/-- The process once `k` descriptors from `first` on were marked close-on-exec. -/
def Process.marked (self : Process) (first k : Nat) : Process :=
  { self with table := fun (fd : Nat) =>
      if first ≤ fd ∧ fd < first + k then (self.table fd).map Descriptor.marked
      else self.table fd }

section Walk

variable {refuses : Fd → Fcntl → Bool} {p : Process}

/-- `fcntl` on open descriptors succeeds. -/
def Willing (refuses : Fd → Fcntl → Bool) (p : Process) : Prop :=
  ∀ fd cmd, (p.table fd).isSome → refuses fd cmd = false

theorem fcntlSetfd_of_open {fd : Nat} {d : Descriptor} (hw : Willing refuses p)
    (hd : p.table fd = some d) :
    (fcntlSetfd refuses fd : Program Process IoError Bool) p = (.ok true, p.marked fd 1) := by
  have hcall : (sysFcntl refuses fd .setfd : Program Process IoError _) p = (.ok (some d), p) := by
    rw [sysFcntl, hw fd .setfd (by rw [hd]; rfl), hd]
    rfl
  have htable : Function.update p.table fd (some d.marked) = (p.marked fd 1).table := by
    refine funext fun (fd' : Nat) => ?_
    by_cases h : fd' = fd
    · subst h
      simp [Process.marked, hd]
    · have hne : ¬ (fd ≤ fd' ∧ fd' < fd + 1) := by omega
      rw [Function.update_of_ne h]
      exact (if_neg hne).symm
  rw [fcntlSetfd, Program.bind_ok hcall]
  simp only [htable]
  rfl

theorem fcntlSetfd_of_closed {fd : Fd} (hd : p.table fd = none) :
    (fcntlSetfd refuses fd : Program Process IoError Bool) p = (.ok false, p) := by
  have hcall : (sysFcntl refuses fd .setfd : Program Process IoError _) p = (.ok none, p) := by
    rw [sysFcntl, hd, ite_self]
  rw [fcntlSetfd, Program.bind_ok hcall]
  rfl

theorem isSome_marked (first k : Nat) (fd : Fd) :
    ((p.marked first k).table fd).isSome = (p.table fd).isSome := by
  unfold Process.marked
  simp only
  split
  · rw [Option.isSome_map]
  · rfl

theorem Willing.marked (hw : Willing refuses p) (first k : Nat) :
    Willing refuses (p.marked first k) :=
  fun fd cmd h => hw fd cmd (by rwa [isSome_marked] at h)

theorem marked_zero (first : Nat) : p.marked first 0 = p := by
  have hnone (fd : Nat) : ¬ (first ≤ fd ∧ fd < first + 0) := by omega
  simp only [Process.marked, hnone, if_false]

theorem marked_succ (first k : Nat) :
    (p.marked first 1).marked (first + 1) k = p.marked first (k + 1) := by
  have htable : ((p.marked first 1).marked (first + 1) k).table =
      (p.marked first (k + 1)).table := by
    refine funext fun (fd : Nat) => ?_
    simp only [Process.marked]
    split_ifs <;> first | rfl | omega
  exact congrArg (fun table => { p with table := table }) htable

theorem rawFd_of_le {offset : Nat} (h : listenFdsStart + offset ≤ rawFdMax) :
    (rawFd offset : Program Process IoError Fd) p = (.ok (listenFdsStart + offset), p) := by
  rw [rawFd, if_pos h]
  rfl

section Round

variable {offset left : Nat} {names : List String}

/-- The walk ends at a hole. -/
theorem walk_of_closed (h : listenFdsStart + offset ≤ rawFdMax)
    (hd : p.table (listenFdsStart + offset) = none) :
    (walk refuses offset (left + 1) names : Program Process IoError _) p = (.ok [], p) := by
  rw [walk, Program.bind_ok (rawFd_of_le h), Program.bind_ok (fcntlSetfd_of_closed hd)]
  rfl

/-- An open descriptor is taken, with the first of the names left. -/
theorem walk_of_open (h : listenFdsStart + offset ≤ rawFdMax) {d : Descriptor}
    {passed : List (String × Fd)} {p' : Process} (hw : Willing refuses p)
    (hd : p.table (listenFdsStart + offset) = some d)
    (hwalk : (walk refuses (offset + 1) left names.tail : Program Process IoError _)
      (p.marked (listenFdsStart + offset) 1) = (.ok passed, p')) :
    (walk refuses offset (left + 1) names : Program Process IoError _) p =
      (.ok ((names.getD 0 "", listenFdsStart + offset) :: passed), p') := by
  have hfirst : names.headD "" = names.getD 0 "" := by cases names <;> rfl
  rw [walk, Program.bind_ok (rawFd_of_le h), Program.bind_ok (fcntlSetfd_of_open hw hd)]
  simp only [if_true]
  rw [Program.bind_ok hwalk, hfirst]
  rfl

end Round

/-- **The walk** takes the open descriptors up to the first hole, each with its name. -/
theorem walk_spec (hw : Willing refuses p) (offset left : Nat) (names : List String)
    (hle : listenFdsStart + offset + left ≤ rawFdMax + 1) :
    ∃ k ≤ left, (∀ i < k, (p.table (listenFdsStart + offset + i)).isSome) ∧
      (k = left ∨ p.table (listenFdsStart + offset + k) = none) ∧
      (walk refuses offset left names : Program Process IoError _) p =
        (.ok ((List.range k).map fun i => (names.getD i "", listenFdsStart + offset + i)),
          p.marked (listenFdsStart + offset) k) := by
  induction left generalizing offset names p with
  | zero => exact ⟨0, Nat.le_refl 0, by simp, Or.inl rfl, by rw [marked_zero]; rfl⟩
  | succ left ih =>
    have hraw : listenFdsStart + offset ≤ rawFdMax := by omega
    cases hd : p.table (listenFdsStart + offset) with
    | none =>
      refine ⟨0, by omega, by simp, Or.inr hd, ?_⟩
      rw [walk_of_closed hraw hd, marked_zero]
      rfl
    | some d =>
      obtain ⟨k, hk, hopen, hstop, hwalk⟩ := ih (hw.marked (listenFdsStart + offset) 1)
        (offset + 1) names.tail (by omega)
      have hnext (i : Nat) :
          listenFdsStart + (offset + 1) + i = listenFdsStart + offset + (i + 1) := by
        omega
      refine ⟨k + 1, by omega, ?_, ?_, ?_⟩
      · intro i hi
        cases i with
        | zero => rw [Nat.add_zero, hd]; rfl
        | succ i =>
          have h := hopen i (by omega)
          rwa [isSome_marked, hnext] at h
      · rcases hstop with rfl | hstop
        · exact Or.inl rfl
        · refine Or.inr (Option.not_isSome_iff_eq_none.mp ?_)
          rw [← hnext, ← isSome_marked (listenFdsStart + offset) 1, hstop]
          simp
      · have hname (i : Nat) : names.tail.getD i "" = names.getD (i + 1) "" := by
          cases names <;> rfl
        rw [walk_of_open hraw hw hd hwalk, List.range_succ_eq_map, List.map_cons, List.map_map,
          ← marked_succ (listenFdsStart + offset) k]
        simp only [hname, hnext, Nat.add_zero]
        rfl

end Walk

/-! ## The sorting -/

/-- Named with `lead`, and really `/dev/uhid`. -/
def Process.ours (self : Process) (lead : String) (x : String × Fd) : Bool :=
  startsWith x.1 lead && (self.isUhid x.2).getD false

/-- The descriptor is open on the file. -/
def Process.openOn (self : Process) (file : FileId) (fd : Fd) : Bool :=
  (self.table fd).any fun d => d.file = file

/-- The process once the files of these descriptors were made not to block. -/
def Process.adopted (self : Process) (fds : List Fd) : Process :=
  { self with files := fun file =>
      if fds.any (self.openOn file) then (self.files file).nonblocking else self.files file }

section Sorting

variable {refuses : Fd → Fcntl → Bool} {p : Process}

theorem adopted_one {fd : Fd} {d : Descriptor} (hd : p.table fd = some d) :
    (p.adopted [fd]).files = Function.update p.files d.file (p.files d.file).nonblocking := by
  funext file
  by_cases h : file = d.file
  · subst h
    simp [Process.adopted, Process.openOn, hd]
  · simp [Process.adopted, Process.openOn, hd, h, Ne.symm h]

theorem adopt_of_open {fd : Fd} {d : Descriptor} (hw : Willing refuses p)
    (hd : p.table fd = some d) : (Handle.adopt refuses fd : Program Process IoError _) p =
      (.ok (some ⟨fd⟩), p.adopted [fd]) := by
  have hcall (cmd : Fcntl) :
      (sysFcntl refuses fd cmd : Program Process IoError _) p = (.ok (some d), p) := by
    rw [sysFcntl, hw fd cmd (by rw [hd]; rfl), hd]
    rfl
  rw [Handle.adopt, Program.bind_ok (hcall .getfl)]
  simp only
  rw [Program.bind_ok (hcall .setfl)]
  simp only [← adopted_one hd]
  rfl

@[simp] theorem openOn_adopted (fds : List Fd) : (p.adopted fds).openOn = p.openOn := rfl

@[simp] theorem adopted_files (fds : List Fd) (file : FileId) :
    (p.adopted fds).files file =
      if fds.any (p.openOn file) then (p.files file).nonblocking else p.files file := rfl

/-- What the descriptors are open on decides which files are changed. -/
theorem adopted_congr {q : Process} {fds : List Fd}
    (ho : ∀ fd ∈ fds, ∀ file, q.openOn file fd = p.openOn file fd) (hf : q.files = p.files) :
    (q.adopted fds).files = (p.adopted fds).files := by
  funext file
  have hany : fds.any (q.openOn file) = fds.any (p.openOn file) := by
    rw [Bool.eq_iff_iff, List.any_eq_true, List.any_eq_true]
    exact exists_congr fun fd => and_congr_right fun hfd => by rw [ho fd hfd file]
  rw [adopted_files, adopted_files, hany, hf]

theorem adopted_cons (fd : Fd) (fds : List Fd) :
    (p.adopted [fd]).adopted fds = p.adopted (fd :: fds) := by
  have hfiles : ((p.adopted [fd]).adopted fds).files = (p.adopted (fd :: fds)).files := by
    funext file
    simp only [adopted_files, openOn_adopted, List.any_cons, List.any_nil, Bool.or_false]
    by_cases h : p.openOn file fd = true <;> by_cases h' : fds.any (p.openOn file) = true <;>
      simp [h, h', OpenFile.nonblocking]
  exact congrArg (fun files => { p with files := files }) hfiles

/-- A status flag says nothing of what a file is. -/
theorem isUhid_adopted (fds : List Fd) (fd : Fd) : (p.adopted fds).isUhid fd = p.isUhid fd := by
  have hstat (file : FileId) : ((p.adopted fds).files file).stat = (p.files file).stat := by
    simp only [Process.adopted]
    split <;> rfl
  simp only [Process.isUhid, hstat]
  rfl

theorem isUhid_marked (first k : Nat) (fd : Fd) : (p.marked first k).isUhid fd = p.isUhid fd := by
  simp only [Process.isUhid, Process.marked]
  split
  · cases p.table fd <;> rfl
  · rfl

theorem openOn_marked (first k : Nat) (file : FileId) :
    (p.marked first k).openOn file = p.openOn file := by
  funext fd
  simp only [Process.openOn, Process.marked]
  split
  · cases p.table fd <;> rfl
  · rfl

/-- **The sorting** keeps the order and loses nothing. -/
theorem adoptNamed_spec (hw : Willing refuses p) (lead : String) (passed : List (String × Fd))
    (hopen : ∀ x ∈ passed, (p.table x.2).isSome) :
    (Handle.adoptNamed refuses lead passed : Program Process IoError _) p =
      (.ok ((passed.filter (p.ours lead)).map fun x => ⟨x.2⟩,
          passed.filter fun x => !p.ours lead x),
        p.adopted ((passed.filter (p.ours lead)).map Prod.snd)) := by
  induction passed generalizing p with
  | nil => rfl
  | cons x passed ih =>
    obtain ⟨name, fd⟩ := x
    obtain ⟨hfd, hrest⟩ := List.forall_mem_cons.mp hopen
    obtain ⟨d, hd⟩ := Option.isSome_iff_exists.mp hfd
    have hours : p.ours lead (name, fd) = true ↔
        startsWith name lead ∧ (p.isUhid fd).getD false := by simp [Process.ours]
    unfold Handle.adoptNamed
    by_cases h : p.ours lead (name, fd) = true
    · have hsame : (p.adopted [fd]).ours lead = p.ours lead := by
        funext x
        rw [Process.ours, isUhid_adopted]
        rfl
      have hrec := ih (p := p.adopted [fd]) hw hrest
      rw [hsame, adopted_cons] at hrec
      simp only [if_pos (hours.mp h), List.filter_cons_of_pos h]
      rw [Program.bind_ok (adopt_of_open hw hd), Program.bind_ok hrec,
        List.filter_cons_of_neg (by simp [h])]
      rfl
    · have hrec := ih (p := p) hw hrest
      simp only [if_neg (mt hours.mpr h), List.filter_cons_of_neg h]
      rw [Program.bind_ok hrec, List.filter_cons_of_pos (by simp [h])]
      rfl

end Sorting

/-! ## The whole -/

/-- What becomes of a process that takes what was passed to it: `k` descriptors
were open from the first one on. -/
structure Inherited (p : Process) (lead : String) (k : Nat) (handles : List Handle)
    (others : List (String × Fd)) (p' : Process) : Prop where
  bounded : if p.Addressed then k ≤ p.count else k = 0
  opened : ∀ i < k, (p.table (listenFdsStart + i)).isSome
  stopped : p.Addressed → k = p.count ∨ p.table (listenFdsStart + k) = none
  in_range : listenFdsStart + p.count ≤ rawFdMax
  handles_eq : handles = ((List.range k).filter fun i =>
    p.ours lead (p.name i, listenFdsStart + i)).map fun i => ⟨listenFdsStart + i⟩
  others_eq : others = ((List.range k).filter fun i =>
    !p.ours lead (p.name i, listenFdsStart + i)).map fun i => (p.name i, listenFdsStart + i)
  once : (handles.map Handle.fd ++ others.map Prod.snd).Perm
    ((List.range k).map fun i => listenFdsStart + i)
  taken : ∀ i < k, p'.table (listenFdsStart + i) =
    (p.table (listenFdsStart + i)).map Descriptor.marked
  untouched : ∀ fd, (∀ i < k, fd ≠ listenFdsStart + i) → p'.table fd = p.table fd
  files : p'.files = (p.adopted (handles.map Handle.fd)).files
  vars : p'.vars = if p.Addressed then ⟨.absent, .absent, .absent⟩ else p.vars
  pid : p'.pid = p.pid

/-- The process once the first `k` descriptors passed to it were taken. -/
def Process.walked (self : Process) (k : Nat) : Process :=
  { self.marked listenFdsStart k with
    vars := if self.Addressed then ⟨.absent, .absent, .absent⟩ else self.vars }

section Whole

variable {refuses : Fd → Fcntl → Bool} {p : Process}

theorem walked_of_lt {k i : Nat} (hi : i < k) : (p.walked k).table (listenFdsStart + i) =
    (p.table (listenFdsStart + i)).map Descriptor.marked :=
  if_pos ⟨Nat.le_add_right _ _, Nat.add_lt_add_left hi _⟩

theorem walked_of_ne {k fd : Nat} (h : ∀ i < k, fd ≠ listenFdsStart + i) :
    (p.walked k).table fd = p.table fd := by
  refine if_neg ?_
  rintro ⟨hle, hlt⟩
  exact h (fd - listenFdsStart) (by omega) (by omega)

theorem isSome_walked (k : Nat) (fd : Fd) :
    ((p.walked k).table fd).isSome = (p.table fd).isSome :=
  isSome_marked listenFdsStart k fd

theorem ours_walked (k : Nat) (lead : String) : (p.walked k).ours lead = p.ours lead := by
  funext x
  exact congrArg (fun b => startsWith x.1 lead && b.getD false) (isUhid_marked listenFdsStart k x.2)

theorem openOn_walked (k : Nat) (file : FileId) : (p.walked k).openOn file = p.openOn file :=
  openOn_marked listenFdsStart k file

/-- What the walk took, by position. -/
theorem take_spec (hw : Willing refuses p) :
    ∃ k, (if p.Addressed then k ≤ p.count else k = 0) ∧
      (∀ i < k, (p.table (listenFdsStart + i)).isSome) ∧
      (p.Addressed → k = p.count ∨ p.table (listenFdsStart + k) = none) ∧
      (take refuses : Program Process IoError _) p =
        (.ok ((List.range k).map fun i => (p.name i, listenFdsStart + i)), p.walked k) := by
  unfold take Process.walked
  rw [announced_eq]
  by_cases ha : p.Addressed
  · obtain ⟨k, hk, hopen, hstop, hwalk⟩ := walk_spec hw 0 p.count
      (splitColon (p.vars.listenFdnames.ok.getD "")) (by have := p.count_le; omega)
    refine ⟨k, by rwa [if_pos ha], hopen, fun _ => hstop, ?_⟩
    simp only [if_pos ha]
    rw [Program.bind_ok hwalk]
    rfl
  · refine ⟨0, by rw [if_neg ha], by simp, fun h => absurd h ha, ?_⟩
    simp only [if_neg ha, marked_zero]
    rfl

/-- **Passed descriptors are neither lost, doubled, misnamed nor stolen.** -/
theorem inheritedWithOthers_spec (refuses : Fd → Fcntl → Bool) (p : Process) (lead : String)
    (hfcntl : ∀ fd cmd, (p.table fd).isSome → refuses fd cmd = false) :
    ∃ k handles others p', Inherited p lead k handles others p' ∧
      (Handle.inheritedWithOthers refuses lead : Program Process IoError _) p =
        (.ok (handles, others), p') := by
  have hw : Willing refuses p := hfcntl
  obtain ⟨k, hk, hopen, hstop, htake⟩ := take_spec hw
  have hsort := adoptNamed_spec (p := p.walked k) (hw.marked listenFdsStart k) lead
    ((List.range k).map fun i => (p.name i, listenFdsStart + i)) (by
      intro x hx
      obtain ⟨i, hi, rfl⟩ := List.mem_map.mp hx
      exact (isSome_walked k _).trans (hopen i (List.mem_range.mp hi)))
  rw [ours_walked, List.filter_map, List.filter_map, List.map_map, List.map_map] at hsort
  refine ⟨k, _, _, _, ?_, (Program.bind_ok htake).trans hsort⟩
  constructor
  case bounded => exact hk
  case opened => exact hopen
  case stopped => exact hstop
  case in_range => exact p.count_le
  case handles_eq => rfl
  case others_eq => rfl
  case once =>
    have hperm := (List.filter_append_perm (fun i => p.ours lead (p.name i, listenFdsStart + i))
      (List.range k)).map fun i => listenFdsStart + i
    rw [List.map_append] at hperm
    rw [List.map_map, List.map_map]
    exact hperm
  case taken => exact fun i hi => walked_of_lt hi
  case untouched => exact fun fd hfd => walked_of_ne hfd
  case files =>
    funext file
    have hsame : (p.walked k).files file = p.files file := rfl
    simp only [adopted_files, openOn_walked, hsame, List.map_map]
    rfl
  case vars => rfl
  case pid => rfl

/-- A process handed `/dev/uhid` as `uhid` and a socket as `log`. -/
def Process.activated : Process where
  pid := 42
  vars := ⟨.unicode "42", .unicode "2", .unicode "uhid:log"⟩
  table fd := if fd = 3 then some ⟨0, false⟩ else if fd = 4 then some ⟨1, false⟩ else none
  files file := if file = 0 then ⟨some ⟨.characterDevice, uhidDevice⟩, false⟩
    else ⟨some ⟨.other, ⟨0, 0⟩⟩, false⟩

theorem inheritedWithOthers_activated :
    ∃ k handles others p', Inherited .activated "uhid" k handles others p' ∧
      Handle.inheritedWithOthers (fun _ _ => false) "uhid" .activated =
        (.ok (handles, others), p') :=
  inheritedWithOthers_spec (fun _ _ => false) .activated "uhid" fun _ _ _ => rfl

end Whole

end UhidBattery
