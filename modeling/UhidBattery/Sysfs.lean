import UhidBattery.Identity

/-!
# Finding the power supply

`find_power_supply_in` over an arbitrary directory listing, against the names
the kernel gives to power supplies.

* `isSupplyOf_iff`: for a valid unique ID the filter accepts exactly the names the
  kernel could give to that device.
* `SupplyName.unique`: no name could be given to two devices.
* `findPowerSupplyIn_own`: so the entry found is the device's own.
-/

namespace UhidBattery

open Utf8 (utf8 fromUtf8Lossy)

/-! ## The search -/

/-- A file name, which need not be UTF-8. -/
abbrev FileName := List UInt8

abbrev Path := List UInt8

/-- What `read_dir` gives: a failure, or entries each of which may be one. -/
abbrev ReadDir := Except IoError (List (Except IoError FileName))

def ReadDir.names (listing : ReadDir) : List FileName :=
  (listing.toOption.getD []).filterMap Except.toOption

/-- `Path::join`. -/
def join (dir : Path) (name : FileName) : Path :=
  if name.head? = some 47 then name
  else if dir = [] ∨ dir.getLast? = some 47 then dir ++ name
  else dir ++ 47 :: name

/-- `str::strip_prefix`. -/
def stripPrefix (lead s : String) : Option String :=
  (lead.toList.isPrefixOf? s.toList).map String.ofList

/-- What may follow `hid-<uniq>-battery`: nothing, or `-<report id>`. -/
def isReportSuffix (rest : String) : Bool :=
  rest.isEmpty ||
    match stripPrefix "-" rest with
    | some id => !id.isEmpty && (utf8 id).all isAsciiDigit
    | none => false

/-- The filter `find_power_supply_in` puts on file names. -/
def isSupplyOf (uniq : String) (name : FileName) : Bool :=
  match stripPrefix ("hid-" ++ uniq ++ "-battery") (fromUtf8Lossy name) with
  | some rest => isReportSuffix rest
  | none => false

def findPowerSupplyIn (classDir : Path) (listing : ReadDir) (uniq : String) : Option Path := do
  let entries ← listing.toOption
  let entry ← (entries.filterMap Except.toOption).find? (isSupplyOf uniq)
  pure (join classDir entry)

/-! ## The names the kernel gives -/

def supplyName (v : List UInt8) : FileName := utf8 "hid-" ++ v ++ utf8 "-battery"

/-- A name the kernel could give to the supply of the device `v`, under either
naming scheme. -/
inductive SupplyName (v : List UInt8) : FileName → Prop where
  | bare : SupplyName v (supplyName v)
  | numbered (n : List UInt8) (hn : n ≠ []) (hd : ∀ b ∈ n, isAsciiDigit b = true) :
      SupplyName v (supplyName v ++ 45 :: n)

/-- Two lists split at the last of a separator. -/
theorem append_sep_inj {α : Type} {a : α} {x y z w : List α} (hz : a ∉ z) (hw : a ∉ w)
    (h : x ++ a :: z = y ++ a :: w) : x = y ∧ z = w := by
  rcases List.append_eq_append_iff.mp h with ⟨c, rfl, hc⟩ | ⟨c, rfl, hc⟩
  · cases c with
    | nil =>
      rw [List.nil_append, List.cons.injEq] at hc
      exact ⟨by simp, hc.2⟩
    | cons b c =>
      rw [List.cons_append, List.cons.injEq] at hc
      exact absurd (by rw [hc.2]; simp) hz
  · cases c with
    | nil =>
      rw [List.nil_append, List.cons.injEq] at hc
      exact ⟨by simp, hc.2.symm⟩
    | cons b c =>
      rw [List.cons_append, List.cons.injEq] at hc
      exact absurd (by rw [hc.2]; simp) hw

theorem dash_not_mem {n : List UInt8} (hd : ∀ b ∈ n, isAsciiDigit b = true) : 45 ∉ n := by
  intro h
  have h45 := hd 45 h
  revert h45
  decide

theorem isAsciiDigit_lt {b : UInt8} (h : isAsciiDigit b = true) : b < 0x80 := by
  simp only [isAsciiDigit, Bool.and_eq_true, decide_eq_true_eq] at h
  have hle := UInt8.le_iff_toNat_le.mp h.2
  refine UInt8.lt_iff_toNat_lt.mpr ?_
  simp only [UInt8.toNat_ofNat] at hle ⊢
  omega

theorem supplyName_injective {v v' : List UInt8} (h : supplyName v = supplyName v') : v = v' := by
  rw [supplyName, supplyName, List.append_left_inj, List.append_right_inj] at h
  exact h

/-- A bare name ends in `y`, a numbered one in a digit. -/
theorem supplyName_ne_numbered {v v' n : List UInt8} (hn : n ≠ [])
    (hd : ∀ b ∈ n, isAsciiDigit b = true) : supplyName v ≠ supplyName v' ++ 45 :: n := by
  intro h
  have hl : (supplyName v).getLast? = some 121 := by
    have hb : utf8 "-battery" = [45, 98, 97, 116, 116, 101, 114] ++ [121] := by decide
    rw [supplyName, hb, ← List.append_assoc, List.getLast?_concat]
  have hr : (supplyName v' ++ 45 :: n).getLast? = some (n.getLast hn) := by
    rw [List.getLast?_append, List.getLast?_cons, List.getLast?_eq_some_getLast hn]
    rfl
  rw [h, hr, Option.some.injEq] at hl
  have hy := hd _ (List.getLast_mem hn)
  rw [hl] at hy
  revert hy
  decide

/-- **No name could be given to two devices.** -/
theorem SupplyName.unique {v v' : List UInt8} {name : FileName} (h : SupplyName v name)
    (h' : SupplyName v' name) : v = v' := by
  cases h with
  | bare =>
    generalize hname : supplyName v = name at h'
    cases h' with
    | bare => exact supplyName_injective hname
    | numbered n hn hd => exact absurd hname (supplyName_ne_numbered hn hd)
  | numbered m hm hdm =>
    generalize hname : supplyName v ++ 45 :: m = name at h'
    cases h' with
    | bare => exact absurd hname.symm (supplyName_ne_numbered hm hdm)
    | numbered n hn hd =>
      exact supplyName_injective (append_sep_inj (dash_not_mem hdm) (dash_not_mem hd) hname).1

/-! ## What the filter accepts -/

theorem stripPrefix_eq_some_iff {lead s rest : String} :
    stripPrefix lead s = some rest ↔ s = lead ++ rest := by
  have key (p l r : List Char) : p.isPrefixOf? l = some r ↔ l = p ++ r := by
    induction p generalizing l with
    | nil => simp [List.isPrefixOf?]
    | cons a p ih =>
      cases l with
      | nil => simp [List.isPrefixOf?]
      | cons b l =>
        by_cases hab : a = b
        · subst hab
          simp [List.isPrefixOf?, ih]
        · simp [List.isPrefixOf?, hab, Ne.symm hab]
  rw [stripPrefix, Option.map_eq_some_iff]
  constructor
  · rintro ⟨r, hr, rfl⟩
    rw [key] at hr
    rw [← String.ofList_toList (s := s), hr, String.ofList_append, String.ofList_toList]
  · rintro rfl
    exact ⟨rest.toList, (key _ _ _).mpr (by rw [String.toList_append]), String.ofList_toList⟩

/-- A test of what comes after a lead. -/
theorem stripPrefix_test_iff {lead s : String} {p : String → Bool} :
    (match stripPrefix lead s with
      | some rest => p rest
      | none => false) = true ↔ ∃ rest, s = lead ++ rest ∧ p rest = true := by
  have hany : (match stripPrefix lead s with
      | some rest => p rest
      | none => false) = (stripPrefix lead s).any p := by
    cases stripPrefix lead s <;> rfl
  rw [hany, Option.any_eq_true]
  simp only [stripPrefix_eq_some_iff]

theorem isReportSuffix_iff (rest : String) :
    isReportSuffix rest = true ↔ rest = "" ∨
      ∃ id : String, rest = "-" ++ id ∧ id ≠ "" ∧ ∀ b ∈ utf8 id, isAsciiDigit b = true := by
  rw [isReportSuffix, Bool.or_eq_true, String.isEmpty_iff]
  refine or_congr Iff.rfl ?_
  refine stripPrefix_test_iff.trans ?_
  simp only [Bool.and_eq_true, Bool.not_eq_true', ← Bool.not_eq_true, String.isEmpty_iff,
    List.all_eq_true, ne_eq]

/-- Text whose bytes are all taken from a set without `0xEF` holds no U+FFFD. -/
theorem not_mem_of_bytes {p : UInt8 → Bool} (hp : p 0xEF = false) {s : String}
    (h : ∀ b ∈ utf8 s, p b = true) : '\uFFFD' ∉ s.toList := by
  intro hs
  have hb : (0xEF : UInt8) ∈ utf8 s := List.mem_flatMap.mpr ⟨_, hs, by decide⟩
  rw [h _ hb] at hp
  cases hp

theorem utf8_eq_nil_iff (s : String) : utf8 s = [] ↔ s = "" := by
  constructor
  · intro h
    exact Utf8.utf8_injective (by rw [h]; rfl)
  · rintro rfl
    rfl

section Filter

variable {uniq : String}

/-- The text of a name the filter accepts is the name's own bytes. -/
theorem utf8_of_accepted (hu : ∀ b ∈ utf8 uniq, plain b = true) {name : FileName} (tail : String)
    (ht : '\uFFFD' ∉ tail.toList)
    (h : fromUtf8Lossy name = "hid-" ++ uniq ++ "-battery" ++ tail) :
    name = supplyName (utf8 uniq) ++ utf8 tail := by
  have hno : '\uFFFD' ∉ (fromUtf8Lossy name).toList := by
    have hq := not_mem_of_bytes (by decide) hu
    rw [h]
    simp only [String.toList_append, List.mem_append, not_or]
    exact ⟨⟨⟨by decide, hq⟩, by decide⟩, ht⟩
  have hb := Utf8.utf8_fromUtf8Lossy hno
  rw [h] at hb
  rw [← hb, supplyName]
  simp only [Utf8.utf8_append]

/-- What the filter reads off a name. -/
theorem isSupplyOf_text_iff {name : FileName} : isSupplyOf uniq name = true ↔ ∃ rest,
    fromUtf8Lossy name = "hid-" ++ uniq ++ "-battery" ++ rest ∧ isReportSuffix rest = true :=
  stripPrefix_test_iff

/-- **The filter** accepts the names the kernel could give to the device. -/
theorem isSupplyOf_iff (hu : ∀ b ∈ utf8 uniq, plain b = true) (name : FileName) :
    isSupplyOf uniq name = true ↔ SupplyName (utf8 uniq) name := by
  rw [isSupplyOf_text_iff]
  constructor
  · rintro ⟨rest, hname, hrest⟩
    rcases (isReportSuffix_iff rest).mp hrest with rfl | ⟨id, rfl, hne, hd⟩
    · have hn := utf8_of_accepted hu "" (by decide) hname
      rw [hn, show utf8 "" = [] from rfl, List.append_nil]
      exact SupplyName.bare
    · have hid := not_mem_of_bytes (by decide) hd
      have hn := utf8_of_accepted hu ("-" ++ id)
        (by rw [String.toList_append, List.mem_append, not_or]; exact ⟨by decide, hid⟩) hname
      rw [hn, Utf8.utf8_append, show utf8 "-" = [45] by decide, List.singleton_append]
      exact SupplyName.numbered _ (fun h => hne ((utf8_eq_nil_iff id).mp h)) hd
  · intro h
    cases h with
    | bare =>
      refine ⟨"", ?_, rfl⟩
      rw [String.append_empty, ← Utf8.fromUtf8Lossy_utf8 ("hid-" ++ uniq ++ "-battery")]
      simp only [Utf8.utf8_append, supplyName]
    | numbered n hn hd =>
      obtain ⟨id, rfl⟩ := Utf8.exists_utf8_eq fun b hb => isAsciiDigit_lt (hd b hb)
      refine ⟨"-" ++ id, ?_, (isReportSuffix_iff _).mpr (Or.inr ⟨id, rfl, ?_, hd⟩)⟩
      · rw [← Utf8.fromUtf8Lossy_utf8 ("hid-" ++ uniq ++ "-battery" ++ _)]
        simp only [Utf8.utf8_append, supplyName, show utf8 "-" = [45] by decide,
          List.singleton_append]
      · exact fun h0 => hn ((utf8_eq_nil_iff id).mpr h0)

end Filter

/-! ## The supply that is found -/

theorem SupplyName.head? {v : List UInt8} {name : FileName} (h : SupplyName v name) :
    name.head? = some 104 := by
  have hs : (supplyName v).head? = some 104 := by
    rw [supplyName, show utf8 "hid-" = [104, 105, 100, 45] by decide]
    rfl
  cases h with
  | bare => exact hs
  | numbered n hn hd => rw [List.head?_append, hs, Option.some_or]

theorem join_injective {dir : Path} {name name' : FileName} (hn : name.head? ≠ some 47)
    (hn' : name'.head? ≠ some 47) (h : join dir name = join dir name') : name = name' := by
  rw [join, if_neg hn, join, if_neg hn'] at h
  split at h
  · exact List.append_cancel_left h
  · have hc := List.append_cancel_left h
    rw [List.cons.injEq] at hc
    exact hc.2

theorem findPowerSupplyIn_eq_some_iff {classDir : Path} {listing : ReadDir} {uniq : String}
    {path : Path} : findPowerSupplyIn classDir listing uniq = some path ↔
      ∃ name, listing.names.find? (isSupplyOf uniq) = some name ∧ path = join classDir name := by
  rw [findPowerSupplyIn, ReadDir.names]
  cases listing with
  | error e => simp [Except.toOption]
  | ok entries =>
    change ((entries.filterMap Except.toOption).find? (isSupplyOf uniq)).bind
        (fun entry => some (join classDir entry)) = some path ↔ ∃ name,
      (entries.filterMap Except.toOption).find? (isSupplyOf uniq) = some name ∧ _
    rw [Option.bind_eq_some_iff]
    simp only [Option.some.injEq, eq_comm]

/-- **The battery finds its own supply**, and never another device's. -/
theorem findPowerSupplyIn_own (classDir : Path) (listing : ReadDir) (identity : Identity)
    (hv : identity.validate = .ok ()) :
    ((findPowerSupplyIn classDir listing identity.uniq).isSome ↔
      ∃ name ∈ listing.names, SupplyName (utf8 identity.uniq) name) ∧
    ∀ path, findPowerSupplyIn classDir listing identity.uniq = some path →
      (∃ name ∈ listing.names, SupplyName (utf8 identity.uniq) name ∧
        path = join classDir name) ∧
      ∀ v, v ≠ utf8 identity.uniq → ∀ name, SupplyName v name → path ≠ join classDir name := by
  have hplain := (identity.validate_eq_ok_iff.mp hv).uniq_plain
  constructor
  · rw [Option.isSome_iff_exists]
    constructor
    · rintro ⟨path, h⟩
      obtain ⟨name, hf, -⟩ := findPowerSupplyIn_eq_some_iff.mp h
      exact ⟨name, List.mem_of_find?_eq_some hf,
        (isSupplyOf_iff hplain name).mp (List.find?_some hf)⟩
    · rintro ⟨name, hmem, hs⟩
      have hsome : (listing.names.find? (isSupplyOf identity.uniq)).isSome :=
        List.find?_isSome.mpr ⟨name, hmem, (isSupplyOf_iff hplain name).mpr hs⟩
      obtain ⟨first, hf⟩ := Option.isSome_iff_exists.mp hsome
      exact ⟨_, findPowerSupplyIn_eq_some_iff.mpr ⟨first, hf, rfl⟩⟩
  · intro path h
    obtain ⟨name, hf, rfl⟩ := findPowerSupplyIn_eq_some_iff.mp h
    have hs := (isSupplyOf_iff hplain name).mp (List.find?_some hf)
    refine ⟨⟨name, List.mem_of_find?_eq_some hf, hs, rfl⟩, fun v hne other ho hjoin => ?_⟩
    have hname : name = other :=
      join_injective (by rw [hs.head?]; decide) (by rw [ho.head?]; decide) hjoin
    rw [← hname] at ho
    exact hne (ho.unique hs)

/-- A listing with the supply of `u`, behind that of the device `u-battery`. -/
theorem findPowerSupplyIn_own_u :
    (findPowerSupplyIn (utf8 "/sys")
      (.ok [.ok (utf8 "hid-u-battery-battery"), .ok (utf8 "hid-u-battery-1")]) "u").isSome := by
  refine (findPowerSupplyIn_own (utf8 "/sys") _ (Identity.new "Mouse" "u") (by decide)).1.mpr
    ⟨utf8 "hid-u-battery-1", by decide, ?_⟩
  have hn : utf8 "hid-u-battery-1" = supplyName (utf8 "u") ++ 45 :: [49] := by decide
  rw [hn]
  exact SupplyName.numbered [49] (by decide) (by simp [isAsciiDigit])

end UhidBattery
