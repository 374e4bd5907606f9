import UhidBattery.Lib.HidItems
import Mathlib.Data.Nat.ModEq
import Mathlib.Tactic.Ring

/-!
# The fields of a HID input report

Each `Input` item of a descriptor declares fields of the report whose ID is in
force: Report Count of them, Report Size bits each, with the usages declared
since the last main item and the logical bounds in force.  The bytes after the
report ID are one little-endian number, and a field is some of its bits.

* `inputFields_tiles`: the fields of a report follow one another without a gap,
  over as many bits as `inputBits` counts.
* `Tiles.raw_pack`, `Tiles.pack_raw`: packing values into fields and reading them
  back, either way round.
* `Tiles.eq_of_raw`: a report is determined by its fields.
-/

namespace HidItems

open Record (leValue)

/-! ## Usages and bounds -/

def tagUsagePage : Fin 16 := ⟨0, by decide⟩
def tagLogicalMinimum : Fin 16 := ⟨1, by decide⟩
def tagLogicalMaximum : Fin 16 := ⟨2, by decide⟩
def tagUsage : Fin 16 := ⟨0, by decide⟩
def tagUsageMinimum : Fin 16 := ⟨1, by decide⟩
def tagUsageMaximum : Fin 16 := ⟨2, by decide⟩

structure Usage where
  page : Nat
  id : Nat
  deriving DecidableEq, Repr

def Item.IsLocal (tag : Fin 16) (item : Item) : Prop := item.type = .loc ∧ item.tag = tag

instance (tag : Fin 16) : DecidablePred (Item.IsLocal tag) :=
  fun _ => inferInstanceAs (Decidable (_ ∧ _))

/-- The items since the last main item, which ends the reach of local ones. -/
def sinceMain (items : List Item) : List Item :=
  (items.reverse.takeWhile fun item => decide (item.type ≠ .main)).reverse

/-- The usages that items declare, one by one and in ranges; `first` is the
Usage Minimum in force. -/
def declared (first : Nat) : List Item → List Nat
  | [] => []
  | item :: items =>
    if item.IsLocal tagUsage then item.value :: declared first items
    else if item.IsLocal tagUsageMinimum then declared item.value items
    else if item.IsLocal tagUsageMaximum then
      List.range' first (item.value + 1 - first) ++ declared first items
    else declared first items

/-- An integer of so many bits in two's complement. -/
def twos (bits n : Nat) : Int := if 2 * n < 2 ^ bits then n else n - 2 ^ bits

/-- The data as a signed little-endian integer. -/
def Item.signed (item : Item) : Int := twos (8 * item.data.length) item.value

def lastItem (tag : Fin 16) (items : List Item) : Option Item :=
  items.reverse.find? (Item.IsGlobal tag ·)

def logicalMinimum (items : List Item) : Int :=
  ((lastItem tagLogicalMinimum items).map Item.signed).getD 0

/-- The maximum is signed only where the minimum is negative. -/
def logicalMaximum (items : List Item) : Int :=
  if logicalMinimum items < 0 then ((lastItem tagLogicalMaximum items).map Item.signed).getD 0
  else ((lastGlobal tagLogicalMaximum items).getD 0 : Nat)

/-! ## Fields -/

/-- Some bits of a report. -/
structure InputField where
  usage : Option Usage
  constant : Bool
  minimum : Int
  maximum : Int
  offset : Nat
  size : Nat
  deriving DecidableEq, Repr

/-- The usage of the `j`th field of an item: the last one declared is for all
that are left. -/
def usageOf (before : List Item) (j : Nat) : Option Usage :=
  let usages := declared 0 (sinceMain before)
  (usages[j]? <|> usages.getLast?).map fun id => ⟨(lastGlobal tagUsagePage before).getD 0, id⟩

/-- The fields that an item adds to the report `wanted`, after the items before it. -/
def itemFields (wanted : Nat) (before : List Item) (item : Item) : List InputField :=
  if item.IsInput ∧ lastGlobal tagReportId before = some wanted then
    let size := (lastGlobal tagReportSize before).getD 0
    (List.range ((lastGlobal tagReportCount before).getD 0)).map fun j => {
      usage := usageOf before j
      constant := item.value % 2 = 1
      minimum := logicalMinimum before
      maximum := logicalMaximum before
      offset := inputBits wanted before + j * size
      size := size }
  else []

/-- The fields of the input report `wanted`, in the order of the items. -/
def inputFields (wanted : Nat) (items : List Item) : List InputField :=
  (List.range items.length).flatMap fun i =>
    (items[i]?.map (itemFields wanted (items.take i))).getD []

theorem inputFields_append (wanted : Nat) (items : List Item) (item : Item) :
    inputFields wanted (items ++ [item]) =
      inputFields wanted items ++ itemFields wanted items item := by
  have hlast : (items ++ [item])[items.length]? = some item := by simp
  rw [inputFields, List.length_append, List.length_singleton, List.range_succ,
    List.flatMap_append, List.flatMap_singleton, hlast, List.take_left, inputFields]
  refine congrArg (· ++ _) (List.flatMap_congr fun i hi => ?_)
  have hlt := List.mem_range.mp hi
  rw [List.getElem?_append_left hlt, List.take_append_of_le_length (Nat.le_of_lt hlt)]

/-! ## Tiling -/

/-- Fields that follow one another from one bit to another. -/
def Tiles : Nat → List InputField → Nat → Prop
  | start, [], stop => start = stop
  | start, field :: fields, stop => field.offset = start ∧ Tiles (start + field.size) fields stop

theorem Tiles.append {start middle stop : Nat} {fields fields' : List InputField}
    (h : Tiles start fields middle) (h' : Tiles middle fields' stop) :
    Tiles start (fields ++ fields') stop := by
  induction fields generalizing start with
  | nil =>
    obtain rfl : start = middle := h
    exact h'
  | cons field fields ih => exact ⟨h.1, ih h.2⟩

/-- Where fields end is told by them and by where they start. -/
theorem Tiles.unique {start stop stop' : Nat} {fields : List InputField}
    (h : Tiles start fields stop) (h' : Tiles start fields stop') : stop = stop' := by
  induction fields generalizing start with
  | nil => exact h.symm.trans h'
  | cons field fields ih => exact ih h.2 h'.2

/-- Fields of one size in a row. -/
theorem tiles_range (start size count : Nat) (f : Nat → InputField)
    (hoffset : ∀ j, (f j).offset = start + j * size) (hsize : ∀ j, (f j).size = size) :
    Tiles start ((List.range count).map f) (start + size * count) := by
  induction count with
  | zero => exact (Nat.add_zero start).symm
  | succ count ih =>
    rw [List.range_succ, List.map_append]
    refine ih.append ⟨?_, ?_⟩
    · rw [hoffset, Nat.mul_comm]
    · rw [hsize, Nat.mul_succ, Nat.add_assoc]
      rfl

theorem itemFields_tiles (wanted : Nat) (before : List Item) (item : Item) :
    Tiles (inputBits wanted before) (itemFields wanted before item)
      (inputBits wanted (before ++ [item])) := by
  rw [inputBits_append, itemBits, itemFields]
  by_cases h : item.IsInput ∧ lastGlobal tagReportId before = some wanted
  · simp only [if_pos h, fieldBits]
    exact tiles_range _ _ _ _ (fun _ => rfl) (fun _ => rfl)
  · rw [if_neg h, if_neg h]
    exact rfl

/-- **No gap and no overlap**: the fields of a report are all of its bits. -/
theorem inputFields_tiles (wanted : Nat) (items : List Item) :
    Tiles 0 (inputFields wanted items) (inputBits wanted items) := by
  induction items using List.reverseRecOn with
  | nil => exact rfl
  | append_singleton items item ih =>
    rw [inputFields_append]
    exact ih.append (itemFields_tiles wanted items item)

/-! ## Values -/

/-- The bits of a field in a report, as a number. -/
def InputField.raw (field : InputField) (report : Nat) : Nat :=
  report / 2 ^ field.offset % 2 ^ field.size

/-- What the bits stand for. -/
def InputField.value (field : InputField) (report : Nat) : Int :=
  if field.minimum < 0 then twos field.size (field.raw report) else field.raw report

/-- The values of some fields as one number. -/
def pack : List InputField → List Nat → Nat
  | field :: fields, v :: vs => v + 2 ^ field.size * pack fields vs
  | _, _ => 0

theorem leValue_lt_two_pow (bytes : List UInt8) : leValue bytes < 2 ^ (8 * bytes.length) := by
  rw [Nat.pow_mul]
  exact Record.leValue_lt bytes

theorem mod_two_pow_add (n a b : Nat) :
    n % 2 ^ (a + b) = n % 2 ^ a + 2 ^ a * (n / 2 ^ a % 2 ^ b) := by
  rw [Nat.pow_add, Nat.mod_mul]

/-- **Reading what was packed.** -/
theorem Tiles.raw_pack {start stop low : Nat} {fields : List InputField} {vs : List Nat}
    (h : Tiles start fields stop)
    (hfit : List.Forall₂ (fun (field : InputField) v => v < 2 ^ field.size) fields vs)
    (hlow : low < 2 ^ start) :
    fields.map (InputField.raw · (low + 2 ^ start * pack fields vs)) = vs := by
  induction hfit generalizing start low with
  | nil => rfl
  | @cons field v fields vs hv hfit ih =>
    obtain ⟨rfl, hrest⟩ := h
    have hpos : 0 < 2 ^ field.offset := Nat.two_pow_pos _
    have hsum : low + 2 ^ field.offset * (v + 2 ^ field.size * pack fields vs) =
        (low + 2 ^ field.offset * v) + 2 ^ (field.offset + field.size) * pack fields vs := by
      rw [Nat.pow_add]
      ring
    have hlow' : low + 2 ^ field.offset * v < 2 ^ (field.offset + field.size) := by
      have hle : 2 ^ field.offset * (v + 1) ≤ 2 ^ field.offset * 2 ^ field.size :=
        Nat.mul_le_mul_left _ hv
      rw [Nat.pow_add]
      rw [Nat.mul_succ] at hle
      omega
    have hraw : field.raw (low + 2 ^ field.offset * (v + 2 ^ field.size * pack fields vs)) = v := by
      rw [InputField.raw, Nat.add_mul_div_left _ _ hpos, Nat.div_eq_of_lt hlow, Nat.zero_add,
        Nat.add_mul_mod_self_left, Nat.mod_eq_of_lt hv]
    rw [List.map_cons, pack, hraw, hsum, ih hrest hlow']

/-- **Packing what was read.** -/
theorem Tiles.pack_raw {start stop : Nat} {fields : List InputField} (h : Tiles start fields stop)
    (report : Nat) :
    report % 2 ^ start + 2 ^ start * pack fields (fields.map (InputField.raw · report)) =
      report % 2 ^ stop := by
  induction fields generalizing start with
  | nil =>
    obtain rfl : start = stop := h
    exact Nat.add_zero _
  | cons field fields ih =>
    obtain ⟨rfl, hrest⟩ := h
    rw [← ih hrest, mod_two_pow_add, List.map_cons, pack, InputField.raw, Nat.pow_add]
    ring

/-- **A report is determined by its fields.** -/
theorem Tiles.eq_of_raw {stop m n : Nat} {fields : List InputField} (h : Tiles 0 fields stop)
    (hm : m < 2 ^ stop) (hn : n < 2 ^ stop)
    (hraw : ∀ field ∈ fields, field.raw m = field.raw n) : m = n := by
  have hpm := h.pack_raw m
  have hpn := h.pack_raw n
  rw [Nat.mod_eq_of_lt hm] at hpm
  rw [Nat.mod_eq_of_lt hn, ← List.map_congr_left hraw] at hpn
  rw [← hpm, ← hpn, Nat.pow_zero, Nat.mod_one, Nat.mod_one]

/-! ## Reports by a descriptor -/

/-- The items that bytes start with, as many as there are. -/
def readItems : Nat → List UInt8 → List Item
  | 0, _ => []
  | n + 1, bytes =>
    match readItem bytes with
    | some (item, rest) => item :: readItems n rest
    | none => []

theorem readItems_encodeAll (items : List Item) {n : Nat} (h : items.length ≤ n) :
    readItems n (encodeAll items) = items := by
  induction items generalizing n with
  | nil => cases n <;> rfl
  | cons item items ih =>
    cases n with
    | zero => exact absurd h (Nat.not_succ_le_zero _)
    | succ n =>
      rw [readItems, encodeAll_cons, readItem_encode]
      exact congrArg (item :: ·) (ih (Nat.le_of_succ_le_succ h))

/-- The fields a descriptor declares for the report of an ID. -/
def fieldsOf (descriptor : List UInt8) (id : UInt8) : List InputField :=
  inputFields id.toNat (readItems descriptor.length descriptor)

theorem fieldsOf_encodeAll (items : List Item) (id : UInt8) :
    fieldsOf (encodeAll items) id = inputFields id.toNat items := by
  rw [fieldsOf, readItems_encodeAll items (length_le_encodeAll items)]

/-- The field of a report that carries a usage. -/
def fieldFor (descriptor : List UInt8) (id : UInt8) (usage : Usage) : Option InputField :=
  (fieldsOf descriptor id).find? fun field => field.usage = some usage && !field.constant

/-- What a descriptor makes of a report, its ID first. -/
def usageValue (descriptor : List UInt8) (usage : Usage) : List UInt8 → Option Int
  | [] => none
  | id :: data => (fieldFor descriptor id usage).map (InputField.value · (leValue data))

end HidItems
