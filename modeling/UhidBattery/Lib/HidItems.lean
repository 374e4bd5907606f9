import Mathlib.Data.List.Forall2
import UhidBattery.Lib.Record

/-!
# Short items of a HID report descriptor

A descriptor is a list of items.  A short item is one byte, two bits of data
size, two of type and four of tag, then its data, 0, 1, 2 or 4 bytes.  The byte
`0xFE` opens a long item in the format; here it is read as any other, with two
bytes of data.

* `readItem_encode`, `eq_encode_of_readItem`: what is read is what was encoded,
  and nothing else is read.
* `exists_items`: any bytes are some items, then nothing or the start of one.
* `inputBits`: the size of an input report, by the globals before each `Input`
  item; `inputBits_congr`: other data have no part in it.
-/

namespace HidItems

open Record (leValue)

inductive ItemType where
  | main
  | global
  | loc
  | reserved
  deriving DecidableEq, Repr

def ItemType.bits : ItemType → Nat
  | main => 0
  | global => 1
  | loc => 2
  | reserved => 3

def ItemType.ofBits : Nat → ItemType
  | 0 => main
  | 1 => global
  | 2 => loc
  | _ => reserved

/-- A short item; the data are of one of the four sizes. -/
structure Item where
  type : ItemType
  tag : Fin 16
  data : List UInt8
  sized : data.length ≤ 4 ∧ data.length ≠ 3
  deriving DecidableEq, Repr

namespace Item

/-- The two bits of data size. -/
def sizeBits (item : Item) : Nat := if item.data.length = 4 then 3 else item.data.length

def firstByte (item : Item) : UInt8 :=
  UInt8.ofNat (16 * item.tag + 4 * item.type.bits + item.sizeBits)

def encode (item : Item) : List UInt8 := item.firstByte :: item.data

/-- The data as an unsigned little-endian integer. -/
def value (item : Item) : Nat := leValue item.data

end Item

def encodeAll (items : List Item) : List UInt8 := items.flatMap Item.encode

@[simp] theorem encodeAll_nil : encodeAll [] = [] := rfl

@[simp] theorem encodeAll_cons (item : Item) (items : List Item) :
    encodeAll (item :: items) = item.encode ++ encodeAll items := rfl

@[simp] theorem encodeAll_append (items items' : List Item) :
    encodeAll (items ++ items') = encodeAll items ++ encodeAll items' :=
  List.flatMap_append

@[simp] theorem Item.length_encode (item : Item) : item.encode.length = item.data.length + 1 := rfl

theorem length_le_encodeAll (items : List Item) : items.length ≤ (encodeAll items).length := by
  induction items with
  | nil => exact Nat.le_refl 0
  | cons item items ih =>
    rw [encodeAll_cons, List.length_append, Item.length_encode, List.length_cons]
    omega

/-! ## The first byte -/

/-- Bytes of data after a first byte. -/
def dataLen (b : UInt8) : Nat := if b.toNat % 4 = 3 then 4 else b.toNat % 4

theorem dataLen_sized (b : UInt8) : dataLen b ≤ 4 ∧ dataLen b ≠ 3 := by
  rw [dataLen]
  split <;> omega

theorem ItemType.bits_lt (t : ItemType) : t.bits < 4 := by
  cases t <;> decide

@[simp] theorem ItemType.ofBits_bits (t : ItemType) : ofBits t.bits = t := by
  cases t <;> rfl

theorem ItemType.bits_inj {t t' : ItemType} : t.bits = t'.bits ↔ t = t' := by
  cases t <;> cases t' <;> decide

theorem ItemType.bits_ofBits {n : Nat} (h : n < 4) : (ofBits n).bits = n := by
  match n, h with
  | 0, _ | 1, _ | 2, _ | 3, _ => rfl

namespace Item

theorem sizeBits_lt (item : Item) : item.sizeBits < 4 := by
  have h := item.sized
  rw [sizeBits]
  split <;> omega

theorem toNat_firstByte (item : Item) :
    item.firstByte.toNat = 16 * item.tag + 4 * item.type.bits + item.sizeBits := by
  have htag := item.tag.isLt
  have htype := item.type.bits_lt
  have hsize := item.sizeBits_lt
  rw [firstByte, UInt8.toNat_ofNat']
  exact Nat.mod_eq_of_lt (by omega)

theorem firstByte_mod (item : Item) : item.firstByte.toNat % 4 = item.sizeBits := by
  have hsize := item.sizeBits_lt
  rw [toNat_firstByte]
  omega

theorem firstByte_type (item : Item) : item.firstByte.toNat / 4 % 4 = item.type.bits := by
  have htype := item.type.bits_lt
  have hsize := item.sizeBits_lt
  rw [toNat_firstByte]
  omega

theorem firstByte_tag (item : Item) : item.firstByte.toNat / 16 = item.tag := by
  have htype := item.type.bits_lt
  have hsize := item.sizeBits_lt
  rw [toNat_firstByte]
  omega

theorem dataLen_firstByte (item : Item) : dataLen item.firstByte = item.data.length := by
  have h := item.sized
  rw [dataLen, firstByte_mod, sizeBits]
  split <;> split <;> omega

/-- The first byte is made of nothing else. -/
theorem firstByte_eq {item : Item} {b : UInt8} (htype : item.type.bits = b.toNat / 4 % 4)
    (htag : (item.tag : Nat) = b.toNat / 16) (hlen : item.data.length = dataLen b) :
    item.firstByte = b := by
  have hsize : item.sizeBits = b.toNat % 4 := by
    rw [sizeBits, hlen, dataLen]
    split <;> split <;> omega
  rw [← UInt8.toNat_inj, toNat_firstByte, htype, htag, hsize]
  omega

end Item

/-! ## Reading -/

/-- The item the bytes start with, and what comes after it. -/
def readItem : List UInt8 → Option (Item × List UInt8)
  | [] => none
  | b :: rest =>
    if h : dataLen b ≤ rest.length then
      some (⟨.ofBits (b.toNat / 4 % 4), ⟨b.toNat / 16, by have := b.toNat_lt; omega⟩,
        rest.take (dataLen b), by rw [List.length_take_of_le h]; exact dataLen_sized b⟩,
        rest.drop (dataLen b))
    else none

/-- **Forward**: an encoded item is read whole, whatever follows. -/
theorem readItem_encode (item : Item) (rest : List UInt8) :
    readItem (item.encode ++ rest) = some (item, rest) := by
  have hlen := item.dataLen_firstByte
  rw [Item.encode, List.cons_append, readItem, dif_pos (by rw [hlen, List.length_append]; omega)]
  simp only [hlen, item.firstByte_type, item.firstByte_tag, List.take_left, List.drop_left,
    ItemType.ofBits_bits]

/-- **Exactness**: only an encoded item is read. -/
theorem eq_encode_of_readItem {bytes rest : List UInt8} {item : Item}
    (h : readItem bytes = some (item, rest)) : bytes = item.encode ++ rest := by
  cases bytes with
  | nil => cases h
  | cons b tail =>
    rw [readItem] at h
    split at h
    · rename_i hle
      obtain ⟨rfl, rfl⟩ := Prod.mk.inj (Option.some.inj h)
      rw [Item.encode, Item.firstByte_eq (ItemType.bits_ofBits (by omega)) rfl
        (List.length_take_of_le hle), List.cons_append, List.take_append_drop]
    · cases h

/-- **No bytes are two lists of items.** -/
theorem encodeAll_injective : Function.Injective encodeAll := by
  intro items
  induction items with
  | nil =>
    intro items' h
    cases items' with
    | nil => rfl
    | cons item items' => simp [Item.encode] at h
  | cons item items ih =>
    intro items' h
    cases items' with
    | nil => simp [Item.encode] at h
    | cons item' items' =>
      have hread := readItem_encode item (encodeAll items)
      rw [← encodeAll_cons, h, encodeAll_cons, readItem_encode] at hread
      obtain ⟨rfl, hrest⟩ := Prod.mk.inj (Option.some.inj hread)
      rw [ih hrest.symm]

/-- **Any bytes** are some items, then nothing or the start of an item cut short. -/
theorem exists_items (bytes : List UInt8) :
    ∃ items rest, bytes = encodeAll items ++ rest ∧ readItem rest = none := by
  induction hn : bytes.length using Nat.strong_induction_on generalizing bytes with
  | _ n ih =>
    cases hread : readItem bytes with
    | none => exact ⟨[], bytes, rfl, hread⟩
    | some read =>
      obtain ⟨item, tail⟩ := read
      have hbytes := eq_encode_of_readItem hread
      have hlen := congrArg List.length hbytes
      rw [List.length_append, Item.length_encode] at hlen
      obtain ⟨items, rest, htail, hrest⟩ := ih tail.length (by omega) tail rfl
      refine ⟨item :: items, rest, ?_, hrest⟩
      rw [hbytes, htail, encodeAll_cons, List.append_assoc]

/-! ## The size of an input report -/

def tagInput : Fin 16 := 8
def tagReportSize : Fin 16 := 7
def tagReportId : Fin 16 := 8
def tagReportCount : Fin 16 := 9

def Item.IsInput (item : Item) : Prop := item.type = .main ∧ item.tag = tagInput

def Item.IsGlobal (tag : Fin 16) (item : Item) : Prop := item.type = .global ∧ item.tag = tag

instance : DecidablePred Item.IsInput := fun _ => inferInstanceAs (Decidable (_ ∧ _))

instance (tag : Fin 16) : DecidablePred (Item.IsGlobal tag) :=
  fun _ => inferInstanceAs (Decidable (_ ∧ _))

theorem Item.IsGlobal.not_isGlobal {item : Item} {tag tag' : Fin 16} (h : item.IsGlobal tag)
    (hne : tag ≠ tag') : ¬ item.IsGlobal tag' :=
  fun h' => hne (h.2.symm.trans h'.2)

/-- Value of the last global item of the tag, if there is one. -/
def lastGlobal (tag : Fin 16) (items : List Item) : Option Nat :=
  (items.reverse.find? (Item.IsGlobal tag ·)).map Item.value

/-- Report Size times Report Count after the items. -/
def fieldBits (items : List Item) : Nat :=
  (lastGlobal tagReportSize items).getD 0 * (lastGlobal tagReportCount items).getD 0

/-- Bits that an item adds to the report `wanted` after the items before it. -/
def itemBits (wanted : Nat) (before : List Item) (item : Item) : Nat :=
  if item.IsInput ∧ lastGlobal tagReportId before = some wanted then fieldBits before else 0

/-- Bits of the input report `wanted`: over every item, by what came before it. -/
def inputBits (wanted : Nat) (items : List Item) : Nat :=
  ((List.range items.length).map fun i =>
    (items[i]?.map (itemBits wanted (items.take i))).getD 0).sum

@[simp] theorem lastGlobal_nil (tag : Fin 16) : lastGlobal tag [] = none := rfl

theorem lastGlobal_append (tag : Fin 16) (items : List Item) (item : Item) :
    lastGlobal tag (items ++ [item]) =
      if item.IsGlobal tag then some item.value else lastGlobal tag items := by
  rw [lastGlobal, List.reverse_append, List.reverse_singleton, List.singleton_append,
    List.find?_cons]
  by_cases h : item.IsGlobal tag
  · simp [h]
  · simp [h, lastGlobal]

@[simp] theorem inputBits_nil (wanted : Nat) : inputBits wanted [] = 0 := rfl

/-- One item more adds its bits. -/
theorem inputBits_append (wanted : Nat) (items : List Item) (item : Item) :
    inputBits wanted (items ++ [item]) = inputBits wanted items + itemBits wanted items item := by
  have hlast : (items ++ [item])[items.length]? = some item := by simp
  rw [inputBits, List.length_append, List.length_singleton, List.range_succ, List.map_append,
    List.sum_append, List.map_singleton, List.sum_singleton, hlast, List.take_left]
  congr 1
  refine congrArg List.sum (List.map_congr_left fun i hi => ?_)
  have hlt := List.mem_range.mp hi
  rw [List.getElem?_append_left hlt, List.take_append_of_le_length (Nat.le_of_lt hlt)]

theorem inputBits_le_append (wanted : Nat) (items more : List Item) :
    inputBits wanted items ≤ inputBits wanted (items ++ more) := by
  induction more generalizing items with
  | nil => rw [List.append_nil]
  | cons item more ih =>
    have hone := inputBits_append wanted items item
    have hrest := ih (items ++ [item])
    rw [List.append_assoc, List.singleton_append] at hrest
    omega

/-! ## Data that size no report -/

/-- The globals a report is sized by. -/
def Item.Sizing (item : Item) : Prop :=
  item.IsGlobal tagReportSize ∨ item.IsGlobal tagReportId ∨ item.IsGlobal tagReportCount

/-- Items that differ in their data at most, and that only where it sizes nothing. -/
structure Item.Alike (item item' : Item) : Prop where
  type_eq : item.type = item'.type
  tag_eq : item.tag = item'.tag
  value_eq : item.Sizing → item.value = item'.value

theorem Item.Alike.isGlobal_iff {item item' : Item} (h : item.Alike item') (tag : Fin 16) :
    item.IsGlobal tag ↔ item'.IsGlobal tag := by
  rw [Item.IsGlobal, Item.IsGlobal, h.type_eq, h.tag_eq]

theorem Item.Alike.isInput_iff {item item' : Item} (h : item.Alike item') :
    item.IsInput ↔ item'.IsInput := by
  rw [Item.IsInput, Item.IsInput, h.type_eq, h.tag_eq]

theorem lastGlobal_congr {tag : Fin 16}
    (htag : tag = tagReportSize ∨ tag = tagReportId ∨ tag = tagReportCount)
    {items items' : List Item} (h : List.Forall₂ Item.Alike items items') :
    lastGlobal tag items = lastGlobal tag items' := by
  have hrev := List.forall₂_reverse_iff.mpr h
  rw [lastGlobal, lastGlobal]
  generalize items.reverse = recent, items'.reverse = recent' at hrev
  induction hrev with
  | nil => rfl
  | @cons item item' _ _ halike _ ih =>
    have hiff := halike.isGlobal_iff tag
    by_cases hg : item.IsGlobal tag
    · have hsizing : item.Sizing := by
        rcases htag with rfl | rfl | rfl
        · exact Or.inl hg
        · exact Or.inr (Or.inl hg)
        · exact Or.inr (Or.inr hg)
      simp [hg, hiff.mp hg, halike.value_eq hsizing]
    · simpa [hg, mt hiff.mpr hg] using ih

theorem itemBits_congr (wanted : Nat) {before before' : List Item} {item item' : Item}
    (h : List.Forall₂ Item.Alike before before') (ha : item.Alike item') :
    itemBits wanted before item = itemBits wanted before' item' := by
  simp only [itemBits, fieldBits, ha.isInput_iff, lastGlobal_congr (Or.inl rfl) h,
    lastGlobal_congr (Or.inr (Or.inl rfl)) h, lastGlobal_congr (Or.inr (Or.inr rfl)) h]

/-- **Other data have no part** in the size of a report. -/
theorem inputBits_congr (wanted : Nat) {items items' : List Item}
    (h : List.Forall₂ Item.Alike items items') :
    inputBits wanted items = inputBits wanted items' := by
  have hlen := h.length_eq
  rw [inputBits, inputBits, ← hlen]
  refine congrArg List.sum (List.map_congr_left fun i hi => ?_)
  have hlt := List.mem_range.mp hi
  have halike := h.get hlt (hlen ▸ hlt)
  rw [List.getElem?_eq_getElem hlt, List.getElem?_eq_getElem (hlen ▸ hlt)]
  exact itemBits_congr wanted (List.forall₂_take i h) halike

end HidItems
