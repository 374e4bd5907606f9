import UhidBattery.Event

/-!
# How a virtual device introduces itself

`Identity::validate`, and the three kinds of device with their report
descriptors.

* `Kind.descriptor_assembled`: the loops of `concat_bytes` assemble each of the
  descriptors, within their bounds.
-/

namespace UhidBattery

open Program (Outcome)
open Utf8 (utf8)

/-! ## Identities -/

structure Identity where
  name : String
  phys : String
  uniq : String
  vendor : UInt16
  product : UInt16
  deriving DecidableEq, Repr

/-- `Identity::new`: no `phys`, and zero vendor and product IDs. -/
def Identity.new (name uniq : String) : Identity := ⟨name, "", uniq, 0, 0⟩

def isAsciiDigit (b : UInt8) : Bool := 48 ≤ b && b ≤ 57

def isAsciiAlphanumeric (b : UInt8) : Bool :=
  isAsciiDigit b || (65 ≤ b && b ≤ 90) || (97 ≤ b && b ≤ 122)

/-- A byte of `[A-Za-z0-9._-]`. -/
def plain (b : UInt8) : Bool := isAsciiAlphanumeric b || b == 46 || b == 95 || b == 45

/-- A string its NUL-terminated field holds whole. -/
def fits (value : String) (len : Nat) : Bool :=
  (utf8 value).length < len && !value.toList.contains '\x00'

def Identity.validate (self : Identity) : Outcome IoError Unit :=
  if self.name.isEmpty || !fits self.name lenName then
    .err (invalid "the name must be 1 to 127 bytes, without NUL")
  else if !fits self.phys lenPhys then
    .err (invalid "phys must be under 64 bytes, without NUL")
  else if self.uniq.isEmpty || !fits self.uniq lenUniq || !(utf8 self.uniq).all plain then
    .err (invalid "uniq must be 1 to 63 characters from [A-Za-z0-9._-]")
  else .ok ()

theorem fits_iff (value : String) (len : Nat) :
    fits value len = true ↔ (utf8 value).length < len ∧ '\x00' ∉ value.toList := by
  simp [fits]

/-- What a valid identity promises. -/
structure Identity.Valid (identity : Identity) : Prop where
  name_ne : identity.name ≠ ""
  name_fits : (utf8 identity.name).length < lenName
  name_nul : '\x00' ∉ identity.name.toList
  phys_fits : (utf8 identity.phys).length < lenPhys
  phys_nul : '\x00' ∉ identity.phys.toList
  uniq_ne : identity.uniq ≠ ""
  uniq_fits : (utf8 identity.uniq).length < lenUniq
  uniq_nul : '\x00' ∉ identity.uniq.toList
  uniq_plain : ∀ b ∈ utf8 identity.uniq, plain b = true

theorem Identity.validate_cases (self : Identity) :
    (self.validate = .ok () ∧ self.Valid) ∨ ∃ e, self.validate = .err e ∧ ¬ self.Valid := by
  have hname := fits_iff self.name lenName
  have hphys := fits_iff self.phys lenPhys
  have huniq := fits_iff self.uniq lenUniq
  have hplain : (utf8 self.uniq).all plain = true ↔ ∀ b ∈ utf8 self.uniq, plain b = true :=
    List.all_eq_true
  unfold Identity.validate
  split
  · rename_i h
    refine Or.inr ⟨_, rfl, ?_⟩
    intro hv
    rw [hname.mpr ⟨hv.name_fits, hv.name_nul⟩] at h
    have hne := hv.name_ne
    simp_all [String.isEmpty_iff]
  · rename_i h₁
    split
    · rename_i h
      refine Or.inr ⟨_, rfl, ?_⟩
      intro hv
      rw [hphys.mpr ⟨hv.phys_fits, hv.phys_nul⟩] at h
      cases h
    · rename_i h₂
      split
      · rename_i h
        refine Or.inr ⟨_, rfl, ?_⟩
        intro hv
        rw [huniq.mpr ⟨hv.uniq_fits, hv.uniq_nul⟩, hplain.mpr hv.uniq_plain] at h
        have hne := hv.uniq_ne
        simp_all [String.isEmpty_iff]
      · rename_i h₃
        simp only [Bool.or_eq_true, Bool.not_eq_true', not_or, Bool.not_eq_false,
          String.isEmpty_iff, hname, hphys, huniq, hplain] at h₁ h₂ h₃
        obtain ⟨⟨hune, hufits, hunul⟩, hup⟩ := h₃
        exact Or.inl ⟨rfl, h₁.1, h₁.2.1, h₁.2.2, h₂.1, h₂.2, hune, hufits, hunul, hup⟩

theorem Identity.validate_eq_ok_iff (self : Identity) : self.validate = .ok () ↔ self.Valid := by
  rcases self.validate_cases with ⟨h, hv⟩ | ⟨e, h, hv⟩
  · exact ⟨fun _ => hv, fun _ => h⟩
  · rw [h]
    exact ⟨fun h' => (by cases h'), fun hv' => absurd hv' hv⟩

/-! ## Kinds of device -/

inductive Kind where
  | mouse
  | generic
  | headset
  deriving DecidableEq, Repr

/-- The battery fields shared by every descriptor. -/
def batteryFields : List UInt8 :=
  [0x05, 0x06, 0x09, 0x20, 0x15, 0x00, 0x26, 0x64, 0x00, 0x75, 0x08, 0x95, 0x01, 0x81, 0x02,
    0x05, 0x85, 0x09, 0x44, 0x25, 0x01, 0x75, 0x01, 0x81, 0x02]

/-- `concat_bytes`: the parts one after the other. -/
def concatBytes (parts : List (List UInt8)) : List UInt8 := parts.flatten

/-- `MOUSE`: report 1 is a pointer that is never sent, report 2 the battery. -/
def mouseDescriptor : List UInt8 :=
  concatBytes [
    [0x05, 0x01, 0x09, 0x02, 0xa1, 0x01, 0x85, 0x01, 0x09, 0x01, 0xa1, 0x00, 0x05, 0x09,
      0x19, 0x01, 0x29, 0x03, 0x15, 0x00, 0x25, 0x01, 0x75, 0x01, 0x95, 0x03, 0x81, 0x02,
      0x75, 0x05, 0x95, 0x01, 0x81, 0x03, 0x05, 0x01, 0x09, 0x30, 0x09, 0x31, 0x15, 0x81,
      0x25, 0x7f, 0x75, 0x08, 0x95, 0x02, 0x81, 0x06, 0xc0, 0x85, 0x02],
    batteryFields,
    [0x75, 0x07, 0x81, 0x03, 0xc0]]

/-- `GENERIC`: the battery and one vendor-defined bit. -/
def genericDescriptor : List UInt8 :=
  concatBytes [
    [0x05, 0x0c, 0x09, 0x01, 0xa1, 0x01, 0x85, 0x01],
    batteryFields,
    [0x06, 0x21, 0xff, 0x09, 0x02, 0x81, 0x02, 0x75, 0x06, 0x81, 0x03, 0xc0]]

/-- Longest descriptor `concat_bytes` has room for. -/
def maxLen : Nat := 96

def Kind.descriptor : Kind → List UInt8
  | mouse => mouseDescriptor
  | generic | headset => genericDescriptor

/-- ID of the input report carrying the battery. -/
def Kind.reportId : Kind → UInt8
  | mouse => 2
  | generic | headset => 1

theorem Kind.length_descriptor_le (kind : Kind) : kind.descriptor.length ≤ maxLen := by
  cases kind <;> decide

/-! ## Assembling a descriptor -/

/-- An array of `maxLen` bytes, the first `len` of them in use. -/
structure Assembled where
  bytes : List UInt8
  len : Nat
  length_bytes : bytes.length = maxLen
  len_le : len ≤ maxLen

def Assembled.asSlice (self : Assembled) : List UInt8 := self.bytes.take self.len

def Assembled.empty : Assembled :=
  ⟨List.replicate maxLen 0, 0, List.length_replicate, Nat.zero_le _⟩

/-- One more byte; past the end of the array the build fails. -/
def Assembled.push {ε : Type} (self : Assembled) (byte : UInt8) : Outcome ε Assembled :=
  if h : self.len < maxLen then
    .ok ⟨self.bytes.set self.len byte, self.len + 1, by rw [List.length_set, self.length_bytes], h⟩
  else .panic

/-- The inner loop of `concat_bytes`. -/
def Assembled.pushPart {ε : Type} (self : Assembled) : List UInt8 → Outcome ε Assembled
  | [] => .ok self
  | byte :: bytes => self.push byte >>= fun self => self.pushPart bytes

/-- The outer loop of `concat_bytes`. -/
def Assembled.pushParts {ε : Type} (self : Assembled) : List (List UInt8) → Outcome ε Assembled
  | [] => .ok self
  | part :: parts => self.pushPart part >>= fun self => self.pushParts parts

section Assembled

variable (ε : Type) (a : Assembled)

theorem Assembled.length_asSlice : a.asSlice.length = a.len := by
  rw [asSlice, List.length_take, a.length_bytes]
  exact Nat.min_eq_left a.len_le

theorem Assembled.push_cases (byte : UInt8) :
    (∃ a', (a.push byte : Outcome ε Assembled) = .ok a' ∧ a'.asSlice = a.asSlice ++ [byte]) ∨
    (a.push byte : Outcome ε Assembled) = .panic ∧ a.len = maxLen := by
  by_cases h : a.len < maxLen
  · refine Or.inl ⟨_, dif_pos h, ?_⟩
    have hlt : a.len < (a.bytes.set a.len byte).length := by
      rw [List.length_set, a.length_bytes]
      exact h
    rw [asSlice, List.take_succ_eq_append_getElem hlt, List.getElem_set_self, List.take_set,
      List.set_eq_of_length_le]
    · rfl
    · rw [List.length_take]
      exact Nat.min_le_left _ _
  · exact Or.inr ⟨dif_neg h, Nat.le_antisymm a.len_le (Nat.le_of_not_lt h)⟩

/-- A part is taken whole, or there is no room for it. -/
theorem Assembled.pushPart_cases (bytes : List UInt8) :
    (∃ a', (a.pushPart bytes : Outcome ε Assembled) = .ok a' ∧
      a'.asSlice = a.asSlice ++ bytes) ∨
    (a.pushPart bytes : Outcome ε Assembled) = .panic ∧ maxLen < a.len + bytes.length := by
  induction bytes generalizing a with
  | nil => exact Or.inl ⟨a, rfl, (List.append_nil _).symm⟩
  | cons byte bytes ih =>
    rcases a.push_cases ε byte with ⟨a₁, hpush, hslice⟩ | ⟨hpush, hfull⟩
    · have hlen : a₁.len = a.len + 1 := by
        rw [← a₁.length_asSlice, hslice, List.length_append, a.length_asSlice]
        rfl
      rw [pushPart, hpush, Outcome.ok_bind]
      rcases ih a₁ with ⟨a', hrest, hslice'⟩ | ⟨hrest, hlong⟩
      · exact Or.inl ⟨a', hrest, by rw [hslice', hslice, List.append_assoc]; rfl⟩
      · refine Or.inr ⟨hrest, ?_⟩
        rw [List.length_cons]
        omega
    · refine Or.inr ⟨by rw [pushPart, hpush]; rfl, ?_⟩
      rw [List.length_cons]
      omega

/-- **What `concat_bytes` builds**: the parts one after the other, never cut short. -/
theorem Assembled.pushParts_cases (parts : List (List UInt8)) :
    (∃ a', (a.pushParts parts : Outcome ε Assembled) = .ok a' ∧
      a'.asSlice = a.asSlice ++ concatBytes parts) ∨
    (a.pushParts parts : Outcome ε Assembled) = .panic ∧
      maxLen < a.len + (concatBytes parts).length := by
  induction parts generalizing a with
  | nil => exact Or.inl ⟨a, rfl, (List.append_nil _).symm⟩
  | cons part parts ih =>
    have hlong : (concatBytes (part :: parts)).length =
        part.length + (concatBytes parts).length := by simp [concatBytes]
    rcases a.pushPart_cases ε part with ⟨a₁, hpart, hslice⟩ | ⟨hpart, hover⟩
    · have hlen : a₁.len = a.len + part.length := by
        rw [← a₁.length_asSlice, hslice, List.length_append, a.length_asSlice]
      rw [pushParts, hpart, Outcome.ok_bind]
      rcases ih a₁ with ⟨a', hrest, hslice'⟩ | ⟨hrest, hover⟩
      · exact Or.inl ⟨a', hrest, by rw [hslice', hslice, List.append_assoc]; rfl⟩
      · exact Or.inr ⟨hrest, by omega⟩
    · exact Or.inr ⟨by rw [pushParts, hpart]; rfl, by omega⟩

/-- The descriptors of the kinds are what `concat_bytes` builds. -/
theorem Kind.descriptor_assembled (kind : Kind) {parts : List (List UInt8)}
    (h : kind.descriptor = concatBytes parts) :
    ∃ a, (Assembled.empty.pushParts parts : Outcome ε Assembled) = .ok a ∧
      a.asSlice = kind.descriptor := by
  rcases Assembled.empty.pushParts_cases ε parts with ⟨a, heq, hslice⟩ | ⟨-, hover⟩
  · exact ⟨a, heq, by rw [hslice, h]; rfl⟩
  · have hle := kind.length_descriptor_le
    have hzero : Assembled.empty.len = 0 := rfl
    rw [h] at hle
    omega

end Assembled

end UhidBattery
