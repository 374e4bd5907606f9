import UhidBattery.Battery
import UhidBattery.Lib.HidItems

/-!
# The size of a report, by its descriptor

`input_report_len` walks over the items of a descriptor, an item a round.

* `Walk.run_eq`: what the walk gives for any bytes at all.
* `inputReportLen_encodeAll`: the size of a report is that of its `Input` items.
* `inputReportLen_eq_ok_iff`: only whole items have a size.
* `inputReportLen_report`: the descriptors agree with what is reported.
-/

namespace UhidBattery

open Program (Outcome loop)
open Record (leValue)
open HidItems (Item ItemType encodeAll readItem lastGlobal inputBits itemBits fieldBits dataLen)

/-! ## The walk -/

def typeMain : UInt8 := 0
def typeGlobal : UInt8 := 1
def tagInput : UInt8 := 0x8
def tagReportSize : UInt8 := 0x7
def tagReportId : UInt8 := 0x8
def tagReportCount : UInt8 := 0x9

/-- The variables of the walk; `offset` is how far it is (`at`). -/
structure Walk where
  size : Nat
  count : Nat
  id : Option Nat
  bits : Nat
  offset : Nat
  deriving DecidableEq, Repr

def Walk.start : Walk := ⟨0, 0, none, 0, 0⟩

/-- The result of an operation on `usize`, which panics past the end of the type. -/
def usize (n : Nat) : Outcome Empty Nat := if n < 2 ^ 64 then .ok n else .panic

/-- `descriptor[i]`. -/
def byteAt (descriptor : List UInt8) (i : Nat) : Outcome Empty UInt8 :=
  match descriptor[i]? with
  | some b => .ok b
  | none => .panic

/-- `&descriptor[lo..hi]`. -/
def bytesBetween (descriptor : List UInt8) (lo hi : Nat) : Outcome Empty (List UInt8) :=
  if lo ≤ hi ∧ hi ≤ descriptor.length then .ok ((descriptor.drop lo).take (hi - lo)) else .panic

/-- The data folded into a `usize`, last byte first. -/
def dataValue (data : List UInt8) : Nat :=
  data.reverse.foldl (fun acc byte => (acc <<< 8) % 2 ^ 64 ||| byte.toNat) 0

/-- What an item of a type and a tag does to the variables. -/
def Walk.read (self : Walk) (wanted type tag : UInt8) (value : Nat) : Outcome Empty Walk :=
  if type = typeGlobal ∧ tag = tagReportSize then .ok { self with size := value }
  else if type = typeGlobal ∧ tag = tagReportCount then .ok { self with count := value }
  else if type = typeGlobal ∧ tag = tagReportId then .ok { self with id := some value }
  else if type = typeMain ∧ tag = tagInput ∧ self.id = some wanted.toNat then do
    let product ← usize (self.size * self.count)
    let bits ← usize (self.bits + product)
    pure { self with bits := bits }
  else .ok self

/-- One item. -/
def Walk.round (self : Walk) (descriptor : List UInt8) (wanted : UInt8) : Outcome Empty Walk := do
  let b ← byteAt descriptor self.offset
  let len := if b &&& 0b11 = 3 then 4 else (b &&& 0b11).toNat
  let data ← bytesBetween descriptor (self.offset + 1) (self.offset + 1 + len)
  let w ← self.read wanted ((b >>> 2) &&& 0b11) (b >>> 4) (dataValue data)
  pure { w with offset := w.offset + 1 + len }

/-- The body of the loop; at the end of the descriptor it gives the bits. -/
def walkOnce (descriptor : List UInt8) (wanted : UInt8) :
    Program Walk Empty (Option Nat) := fun w =>
  if w.offset < descriptor.length then
    match w.round descriptor wanted with
    | .ok w' => (.ok none, w')
    | .err e => (.err e, w)
    | .panic => (.panic, w)
    | .pending => (.pending, w)
  else (.ok (some w.bits), w)

/-- The loop; every round but the last takes one byte or more. -/
def Walk.run (descriptor : List UInt8) (wanted : UInt8) : Outcome Empty Nat :=
  (loop (walkOnce descriptor wanted) (descriptor.length + 1) Walk.start).1

/-- `usize::div_ceil`. -/
def divCeil (n d : Nat) : Nat := if n % d = 0 then n / d else n / d + 1

def inputReportLen (descriptor : List UInt8) (wanted : UInt8) : Outcome Empty Nat := do
  let bits ← Walk.run descriptor wanted
  if 0 < bits then pure (divCeil bits 8 + 1) else .panic

/-! ## One item -/

/-- The variables after some items. -/
def Walk.after (wanted : UInt8) (items : List Item) : Walk where
  size := (lastGlobal HidItems.tagReportSize items).getD 0
  count := (lastGlobal HidItems.tagReportCount items).getD 0
  id := lastGlobal HidItems.tagReportId items
  bits := inputBits wanted.toNat items
  offset := (encodeAll items).length

theorem dataValue_eq {data : List UInt8} (h : data.length ≤ 8) : dataValue data = leValue data := by
  rw [dataValue, List.foldl_reverse]
  induction data with
  | nil => rfl
  | cons b data ih =>
    have hb := b.toNat_lt
    have hlt : leValue data < 256 ^ data.length := Record.leValue_lt data
    have hle : 256 ^ data.length ≤ 256 ^ 7 := Nat.pow_le_pow_right (by decide) (by
      rw [List.length_cons] at h
      omega)
    rw [List.foldr_cons, ih (by rw [List.length_cons] at h; omega), Nat.mod_eq_of_lt,
      ← Nat.shiftLeft_add_eq_or_of_lt hb, Nat.shiftLeft_eq]
    · change _ = b.toNat + 256 * leValue data
      omega
    · rw [Nat.shiftLeft_eq]
      omega

theorem toNat_and_three (b : UInt8) : (b &&& 0b11).toNat = b.toNat % 4 :=
  Nat.and_two_pow_sub_one_eq_mod b.toNat 2

/-- The length the code takes is that of the format. -/
theorem len_eq (b : UInt8) : (if b &&& 0b11 = 3 then 4 else (b &&& 0b11).toNat) = dataLen b := by
  have hiff : b &&& 0b11 = 3 ↔ b.toNat % 4 = 3 := by
    rw [← UInt8.toNat_inj, toNat_and_three]
    rfl
  simp only [hiff, toNat_and_three, dataLen]

theorem type_eq_iff (item : Item) (t : ItemType) {b : UInt8} (hb : b.toNat = t.bits) :
    (item.firstByte >>> 2) &&& 0b11 = b ↔ item.type = t := by
  have hbits : ((item.firstByte >>> 2) &&& 0b11).toNat = item.type.bits := by
    rw [toNat_and_three, UInt8.toNat_shiftRight, ← item.firstByte_type]
    exact congrArg (· % 4) (Nat.shiftRight_eq_div_pow item.firstByte.toNat 2)
  rw [← UInt8.toNat_inj, hbits, hb, HidItems.ItemType.bits_inj]

theorem tag_eq_iff (item : Item) (tag : Fin 16) {b : UInt8} (hb : b.toNat = tag) :
    item.firstByte >>> 4 = b ↔ item.tag = tag := by
  have htag : (item.firstByte >>> 4).toNat = item.tag := by
    rw [UInt8.toNat_shiftRight, ← item.firstByte_tag]
    exact Nat.shiftRight_eq_div_pow item.firstByte.toNat 4
  rw [← UInt8.toNat_inj, htag, hb, Fin.ext_iff]

theorem isGlobal_iff (item : Item) (tag : Fin 16) {b : UInt8} (hb : b.toNat = tag) :
    (item.firstByte >>> 2) &&& 0b11 = typeGlobal ∧ item.firstByte >>> 4 = b ↔
      item.IsGlobal tag :=
  and_congr (type_eq_iff item .global rfl) (tag_eq_iff item tag hb)

theorem isInput_iff (item : Item) :
    (item.firstByte >>> 2) &&& 0b11 = typeMain ∧ item.firstByte >>> 4 = tagInput ↔
      item.IsInput :=
  and_congr (type_eq_iff item .main rfl) (tag_eq_iff item HidItems.tagInput rfl)

/-- `Walk::read` by the kind of the item. -/
theorem read_firstByte (self : Walk) (wanted : UInt8) (item : Item) (value : Nat) :
    self.read wanted ((item.firstByte >>> 2) &&& 0b11) (item.firstByte >>> 4) value =
      if item.IsGlobal HidItems.tagReportSize then .ok { self with size := value }
      else if item.IsGlobal HidItems.tagReportCount then .ok { self with count := value }
      else if item.IsGlobal HidItems.tagReportId then .ok { self with id := some value }
      else if item.IsInput ∧ self.id = some wanted.toNat then do
        let product ← usize (self.size * self.count)
        let bits ← usize (self.bits + product)
        pure { self with bits := bits }
      else .ok self := by
  simp only [Walk.read, ← isGlobal_iff item HidItems.tagReportSize (b := tagReportSize) rfl,
    ← isGlobal_iff item HidItems.tagReportCount (b := tagReportCount) rfl,
    ← isGlobal_iff item HidItems.tagReportId (b := tagReportId) rfl, ← isInput_iff, and_assoc]

theorem usize_add_mul {α : Type} (bits size count : Nat) (f : Nat → α) :
    (do
      let product ← usize (size * count)
      let bits ← usize (bits + product)
      pure (f bits)) =
      if bits + size * count < 2 ^ 64 then Outcome.ok (f (bits + size * count)) else .panic := by
  by_cases hmul : size * count < 2 ^ 64
  · rw [usize, if_pos hmul, Outcome.ok_bind, usize]
    split <;> rfl
  · rw [usize, if_neg hmul, Outcome.panic_bind, if_neg (by omega)]

section Read

variable (wanted : UInt8) (items : List Item) {item : Item}

/-- An `Input` item adds what the variables say, or overflows. -/
theorem read_after_input (hinput : item.IsInput) (h : inputBits wanted.toNat items < 2 ^ 64) :
    (Walk.after wanted items).read wanted ((item.firstByte >>> 2) &&& 0b11) (item.firstByte >>> 4)
        item.value =
      if inputBits wanted.toNat (items ++ [item]) < 2 ^ 64 then
        .ok { Walk.after wanted (items ++ [item]) with offset := (encodeAll items).length }
      else .panic := by
  have hno (tag : Fin 16) : ¬ item.IsGlobal tag := by
    intro hg
    have htype := hinput.1.symm.trans hg.1
    cases htype
  rw [read_firstByte]
  simp only [hno, if_false, hinput, true_and, Walk.after, HidItems.lastGlobal_append,
    HidItems.inputBits_append, itemBits]
  split
  · exact usize_add_mul ..
  · rw [Nat.add_zero, if_pos h]

/-- Any other item overflows nothing. -/
theorem read_after_other (hinput : ¬ item.IsInput) :
    (Walk.after wanted items).read wanted ((item.firstByte >>> 2) &&& 0b11) (item.firstByte >>> 4)
        item.value =
      .ok { Walk.after wanted (items ++ [item]) with offset := (encodeAll items).length } := by
  have hbits : itemBits wanted.toNat items item = 0 := by
    rw [itemBits, if_neg (fun h => hinput h.1)]
  rw [read_firstByte]
  simp only [hinput, false_and, if_false, Walk.after, HidItems.lastGlobal_append,
    HidItems.inputBits_append, hbits, Nat.add_zero]
  by_cases hsize : item.IsGlobal HidItems.tagReportSize
  · have hcount : ¬ item.IsGlobal HidItems.tagReportCount := hsize.not_isGlobal (by decide)
    have hid : ¬ item.IsGlobal HidItems.tagReportId := hsize.not_isGlobal (by decide)
    simp [hsize, hcount, hid]
  · by_cases hcount : item.IsGlobal HidItems.tagReportCount
    · have hid : ¬ item.IsGlobal HidItems.tagReportId := hcount.not_isGlobal (by decide)
      simp [hsize, hcount, hid]
    · by_cases hid : item.IsGlobal HidItems.tagReportId
      · simp [hsize, hcount, hid]
      · simp [hsize, hcount, hid]

/-- **What an item does** is what one item more makes of the variables. -/
theorem read_after (h : inputBits wanted.toNat items < 2 ^ 64) :
    (Walk.after wanted items).read wanted ((item.firstByte >>> 2) &&& 0b11) (item.firstByte >>> 4)
        item.value =
      if inputBits wanted.toNat (items ++ [item]) < 2 ^ 64 then
        .ok { Walk.after wanted (items ++ [item]) with offset := (encodeAll items).length }
      else .panic := by
  by_cases hinput : item.IsInput
  · exact read_after_input wanted items hinput h
  · have hsame : inputBits wanted.toNat (items ++ [item]) = inputBits wanted.toNat items := by
      rw [HidItems.inputBits_append, itemBits, if_neg (fun h => hinput h.1), Nat.add_zero]
    rw [read_after_other wanted items hinput, hsame, if_pos h]

end Read

/-! ## One round -/

theorem byteAt_of_drop {descriptor rest : List UInt8} {i : Nat} {b : UInt8}
    (h : descriptor.drop i = b :: rest) : byteAt descriptor i = .ok b := by
  have hb : descriptor[i]? = some b := by
    rw [← List.head?_drop, h]
    rfl
  rw [byteAt, hb]

/-- A slice just past a byte. -/
theorem bytesBetween_of_drop {descriptor rest : List UInt8} {i : Nat} {b : UInt8}
    (h : descriptor.drop i = b :: rest) (len : Nat) :
    bytesBetween descriptor (i + 1) (i + 1 + len) =
      if len ≤ rest.length then .ok (rest.take len) else .panic := by
  have hlen := congrArg List.length h
  rw [List.length_drop, List.length_cons] at hlen
  have hrest : descriptor.drop (i + 1) = rest := by
    rw [← List.drop_drop, h, List.drop_one, List.tail_cons]
  by_cases hle : len ≤ rest.length
  · rw [bytesBetween, if_pos ⟨by omega, by omega⟩, hrest, Nat.add_sub_cancel_left, if_pos hle]
  · rw [bytesBetween, if_neg (by omega), if_neg hle]

/-- **A round on an item** leaves the variables as after that item too. -/
theorem round_item {descriptor rest : List UInt8} (wanted : UInt8) (items : List Item) {item : Item}
    (hd : descriptor.drop (encodeAll items).length = item.encode ++ rest)
    (h : inputBits wanted.toNat items < 2 ^ 64) :
    (Walk.after wanted items).round descriptor wanted =
      if inputBits wanted.toNat (items ++ [item]) < 2 ^ 64 then
        .ok (Walk.after wanted (items ++ [item]))
      else .panic := by
  have hsized := item.sized
  have hd' : descriptor.drop (Walk.after wanted items).offset =
      item.firstByte :: (item.data ++ rest) := hd
  rw [Walk.round, byteAt_of_drop hd', Outcome.ok_bind]
  simp only [len_eq, item.dataLen_firstByte]
  rw [bytesBetween_of_drop hd', if_pos (by rw [List.length_append]; omega), Outcome.ok_bind,
    List.take_left, dataValue_eq (by omega), ← Item.value, read_after wanted items h]
  split
  · rw [Outcome.ok_bind, Outcome.pure_eq]
    simp [Walk.after, Nat.add_assoc, Nat.add_comm 1]
  · rfl

/-- A round on an item cut short panics. -/
theorem round_cut {descriptor rest : List UInt8} (wanted : UInt8) (items : List Item)
    (hd : descriptor.drop (encodeAll items).length = rest) (hne : rest ≠ [])
    (hread : readItem rest = none) :
    (Walk.after wanted items).round descriptor wanted = .panic := by
  cases rest with
  | nil => exact absurd rfl hne
  | cons b tail =>
    have hd' : descriptor.drop (Walk.after wanted items).offset = b :: tail := hd
    have hcut : ¬ dataLen b ≤ tail.length := by
      intro hle
      rw [readItem, dif_pos hle] at hread
      cases hread
    rw [Walk.round, byteAt_of_drop hd', Outcome.ok_bind]
    simp only [len_eq]
    rw [bytesBetween_of_drop hd', if_neg hcut, Outcome.panic_bind]

/-! ## The whole walk -/

section Loop

variable {descriptor : List UInt8} {wanted : UInt8} {w w' : Walk}

theorem walkOnce_ok (h : w.offset < descriptor.length)
    (hr : w.round descriptor wanted = .ok w') :
    walkOnce descriptor wanted w = (.ok none, w') := by
  rw [walkOnce, if_pos h, hr]

theorem walkOnce_panic (h : w.offset < descriptor.length)
    (hr : w.round descriptor wanted = .panic) :
    walkOnce descriptor wanted w = (.panic, w) := by
  rw [walkOnce, if_pos h, hr]

theorem walkOnce_end (h : ¬ w.offset < descriptor.length) :
    walkOnce descriptor wanted w = (.ok (some w.bits), w) := by
  rw [walkOnce, if_neg h]

theorem offset_lt {items : List Item} {rest : List UInt8}
    (hd : descriptor.drop (encodeAll items).length = rest) (hne : rest ≠ []) :
    (Walk.after wanted items).offset < descriptor.length := by
  have hpos := List.length_pos_iff.mpr hne
  rw [← hd, List.length_drop] at hpos
  exact Nat.lt_of_sub_pos hpos

/-- The last round: nothing is left, or an item cut short. -/
theorem loop_tail {tail : List UInt8} {items : List Item} (rounds : Nat)
    (hd : descriptor.drop (encodeAll items).length = tail) (htail : readItem tail = none) :
    (loop (walkOnce descriptor wanted) (rounds + 1) (Walk.after wanted items)).1 =
      if tail = [] then .ok (inputBits wanted.toNat items) else .panic := by
  rw [Program.loop_succ_apply]
  by_cases hnil : tail = []
  · have hend : ¬ (Walk.after wanted items).offset < descriptor.length := by
      rw [hnil, List.drop_eq_nil_iff] at hd
      exact Nat.not_lt.mpr hd
    rw [walkOnce_end hend, if_pos hnil]
    rfl
  · rw [walkOnce_panic (offset_lt hd hnil) (round_cut wanted items hd hnil htail), if_neg hnil]

end Loop

/-- The rounds left after some items, by what is left of the descriptor: more
items, then `tail`, with no item in it. -/
theorem loop_after {descriptor tail : List UInt8} (wanted : UInt8) (htail : readItem tail = none)
    (items rest : List Item) {rounds : Nat} (hr : rest.length < rounds)
    (hd : descriptor.drop (encodeAll items).length = encodeAll rest ++ tail)
    (h : inputBits wanted.toNat items < 2 ^ 64) :
    (loop (walkOnce descriptor wanted) rounds (Walk.after wanted items)).1 =
      if inputBits wanted.toNat (items ++ rest) < 2 ^ 64 ∧ tail = [] then
        .ok (inputBits wanted.toNat (items ++ rest))
      else .panic := by
  induction rest generalizing items rounds with
  | nil =>
    obtain ⟨n, rfl⟩ := Nat.exists_eq_add_of_lt hr
    rw [HidItems.encodeAll_nil, List.nil_append] at hd
    rw [List.append_nil, loop_tail _ hd htail]
    simp only [h, true_and]
  | cons item rest ih =>
    obtain ⟨n, rfl⟩ := Nat.exists_eq_add_of_lt hr
    rw [HidItems.encodeAll_cons, List.append_assoc] at hd
    have hlt : (Walk.after wanted items).offset < descriptor.length :=
      offset_lt hd (by simp [Item.encode])
    have hround := round_item wanted items hd h
    have hsplit : items ++ item :: rest = items ++ [item] ++ rest := by simp
    rw [Program.loop_succ_apply, hsplit]
    by_cases hone : inputBits wanted.toNat (items ++ [item]) < 2 ^ 64
    · have hnext : descriptor.drop (encodeAll (items ++ [item])).length =
          encodeAll rest ++ tail := by
        rw [HidItems.encodeAll_append, List.length_append, ← List.drop_drop, hd,
          HidItems.encodeAll_cons, HidItems.encodeAll_nil, List.append_nil, List.drop_left]
      rw [if_pos hone] at hround
      rw [walkOnce_ok hlt hround]
      exact ih (items ++ [item]) (by rw [List.length_cons]; omega) hnext hone
    · have hle := HidItems.inputBits_le_append wanted.toNat (items ++ [item]) rest
      rw [if_neg hone] at hround
      rw [walkOnce_panic hlt hround, if_neg (fun hboth => hone (by omega))]

/-- **What the walk gives for any bytes**: all of them are read as items, one
after the other, and it panics where one is cut short or the sum overflows. -/
theorem Walk.run_eq (items : List Item) {tail : List UInt8} (wanted : UInt8)
    (htail : readItem tail = none) :
    Walk.run (encodeAll items ++ tail) wanted =
      if inputBits wanted.toNat items < 2 ^ 64 ∧ tail = [] then
        .ok (inputBits wanted.toNat items)
      else .panic := by
  have hlen := HidItems.length_le_encodeAll items
  have hzero : inputBits wanted.toNat [] < 2 ^ 64 := Nat.two_pow_pos 64
  exact loop_after wanted htail [] items (by rw [List.length_append]; omega) rfl hzero

/-! ## The size of a report -/

theorem divCeil_eight (n : Nat) : divCeil n 8 = (n + 7) / 8 := by
  rw [divCeil]
  split <;> omega

theorem inputReportLen_eq (items : List Item) {tail : List UInt8} (wanted : UInt8)
    (htail : readItem tail = none) :
    inputReportLen (encodeAll items ++ tail) wanted =
      if 0 < inputBits wanted.toNat items ∧ inputBits wanted.toNat items < 2 ^ 64 ∧ tail = [] then
        .ok (1 + (inputBits wanted.toNat items + 7) / 8)
      else .panic := by
  rw [inputReportLen, Walk.run_eq items wanted htail]
  by_cases hboth : inputBits wanted.toNat items < 2 ^ 64 ∧ tail = []
  · rw [if_pos hboth, Outcome.ok_bind, divCeil_eight, Nat.add_comm 1, Outcome.pure_eq]
    simp only [hboth, and_true]
  · rw [if_neg hboth, Outcome.panic_bind, if_neg (fun h => hboth h.2)]

/-- **The size of a report** is that of its `Input` items, by the globals before
each: the walk reads every item of the descriptor to its end, and the data of
an item that sizes no report are never taken for anything else. -/
theorem inputReportLen_encodeAll (items : List Item) (wanted : UInt8)
    (hsum : inputBits wanted.toNat items < 2 ^ 64) :
    Walk.run (encodeAll items) wanted = .ok (inputBits wanted.toNat items) ∧
      inputReportLen (encodeAll items) wanted =
        (if 0 < inputBits wanted.toNat items then .ok (1 + (inputBits wanted.toNat items + 7) / 8)
        else .panic) ∧
      ∀ items', List.Forall₂ Item.Alike items items' →
        inputReportLen (encodeAll items') wanted = inputReportLen (encodeAll items) wanted := by
  have hnil : readItem [] = none := rfl
  have hlen (items : List Item) := inputReportLen_eq items wanted hnil
  simp only [List.append_nil, and_true] at hlen
  refine ⟨?_, ?_, fun items' halike => ?_⟩
  · have hwalk := Walk.run_eq items wanted hnil
    rwa [List.append_nil, if_pos ⟨hsum, rfl⟩] at hwalk
  · rw [hlen]
    simp only [hsum, and_true]
  · rw [hlen, hlen, HidItems.inputBits_congr wanted.toNat halike]

/-- Report 2, with data that look like a Report ID item and like an `Input` item. -/
def levelItems : List Item :=
  [⟨.global, HidItems.tagReportId, [0x02], by decide⟩,
    ⟨.global, HidItems.tagReportSize, [0x08], by decide⟩,
    ⟨.global, HidItems.tagReportCount, [0x01], by decide⟩,
    ⟨.loc, HidItems.tagReportSize, [0x85], by decide⟩,
    ⟨.main, HidItems.tagInput, [0x81, 0x02], by decide⟩,
    ⟨.global, HidItems.tagReportSize, [0x01], by decide⟩,
    ⟨.main, HidItems.tagInput, [], by decide⟩]

theorem inputReportLen_levelItems :
    Walk.run (encodeAll levelItems) 2 = .ok 9 ∧ inputReportLen (encodeAll levelItems) 2 = .ok 3 ∧
      ∀ items', List.Forall₂ Item.Alike levelItems items' →
        inputReportLen (encodeAll items') 2 = inputReportLen (encodeAll levelItems) 2 :=
  inputReportLen_encodeAll levelItems 2 (by decide)

/-- The walk ends, whatever the bytes. -/
theorem inputReportLen_ne_pending (descriptor : List UInt8) (wanted : UInt8) :
    inputReportLen descriptor wanted ≠ .pending := by
  obtain ⟨items, tail, rfl, htail⟩ := HidItems.exists_items descriptor
  rw [inputReportLen_eq items wanted htail]
  split
  · simp
  · simp

/-- **Only whole items have a size**: bytes that end inside an item have none,
and bytes that have one are the items of no other list. -/
theorem inputReportLen_eq_ok_iff (descriptor : List UInt8) (wanted : UInt8) (n : Nat) :
    inputReportLen descriptor wanted = .ok n ↔
      ∃! items, encodeAll items = descriptor ∧ 0 < inputBits wanted.toNat items ∧
        inputBits wanted.toNat items < 2 ^ 64 ∧ n = 1 + (inputBits wanted.toNat items + 7) / 8 := by
  constructor
  · intro h
    obtain ⟨items, tail, rfl, htail⟩ := HidItems.exists_items descriptor
    rw [inputReportLen_eq items wanted htail] at h
    split at h
    · rename_i hall
      obtain ⟨hpos, hlt, rfl⟩ := hall
      refine ⟨items, ⟨(List.append_nil _).symm, hpos, hlt, (Outcome.ok.inj h).symm⟩, ?_⟩
      rintro items' ⟨hsame, -⟩
      exact HidItems.encodeAll_injective (hsame.trans (List.append_nil _))
    · cases h
  · rintro ⟨items, ⟨rfl, hpos, hlt, rfl⟩, -⟩
    have hlen := inputReportLen_eq items wanted (show readItem [] = none from rfl)
    rwa [List.append_nil, if_pos ⟨hpos, hlt, rfl⟩] at hlen

/-- **The descriptors agree** with what is reported: every report is as long as
the descriptor of its kind says. -/
theorem inputReportLen_report (b : Battery) :
    inputReportLen b.kind.descriptor b.kind.reportId = .ok b.report.length := by
  have hlen (kind : Kind) : inputReportLen kind.descriptor kind.reportId = .ok 3 := by
    cases kind <;> decide +kernel
  exact hlen b.kind

end UhidBattery
