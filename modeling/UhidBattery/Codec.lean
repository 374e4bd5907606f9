import UhidBattery.Event
import Mathlib.Data.List.TakeWhile

/-!
# The two sides of the wire agree

Every message the daemon writes is a list of disjoint parts laid over a zeroed
event (`Lays`), so the kernel's side reads each field back and finds zeros
everywhere else.

* `decode_eq`, `decodeSent_eq`: on any event whatsoever both decoders stay in
  range.
* `Encodes`: an event reads as a message and holds nothing but its fields.
* `create2_encodes`, `input2_encodes`, `getReportReply_some_encodes`,
  `setReportReply_encodes`, `destroy_encodes`: what each encoder writes.
* `codecs_agree`: all of it, for every message and every event.
-/

namespace UhidBattery

open Program (Outcome)
open Record (ByteOrder Piece lay overwrite field encodeUint decodeUint)
open Utf8 (utf8 isCharBoundary fromUtf8Lossy)

/-! ## Accesses in range -/

section Access

variable {n : Nat}

theorem slice_field (buf : Bytes n) (off len : Nat) (h : off + len ≤ n) :
    ∃ b, slice buf off (off + len) = .ok b ∧ b.toList = field buf.toList off len :=
  ⟨_, dif_pos ⟨by omega, h⟩, by rw [List.Vector.toList_mk, Nat.add_sub_cancel_left]⟩

theorem copyFromSlice_eq (buf : Bytes n) (lo hi : Nat) (data : List UInt8)
    (h : lo ≤ hi ∧ hi ≤ n ∧ data.length = hi - lo) :
    ∃ b, copyFromSlice buf lo hi data = .ok b ∧ b.toList = overwrite buf.toList lo data :=
  ⟨_, dif_pos h, rfl⟩

variable (order : ByteOrder)

theorem getUint_eq (w : Nat) (buf : Bytes n) {offset : Nat} (h : offset + w ≤ n) :
    getUint order w buf offset = .ok (decodeUint order (field buf.toList offset w)) := by
  obtain ⟨b, hb, he⟩ := slice_field buf _ _ h
  rw [getUint, hb, Outcome.ok_bind, he, Outcome.pure_eq]

/-- The `u16` at an offset. -/
def u16At (buf : Bytes n) (offset : Nat) : UInt16 :=
  UInt16.ofNat (decodeUint order (field buf.toList offset 2))

/-- The `u32` at an offset. -/
def u32At (buf : Bytes n) (offset : Nat) : UInt32 :=
  UInt32.ofNat (decodeUint order (field buf.toList offset 4))

theorem getU16_eq (buf : Bytes n) {offset : Nat} (h : offset + 2 ≤ n) :
    getU16 order buf offset = .ok (u16At order buf offset) := by
  rw [getU16, getUint_eq order 2 buf h, Outcome.ok_bind, Outcome.pure_eq, u16At]

theorem getU32_eq (buf : Bytes n) {offset : Nat} (h : offset + 4 ≤ n) :
    getU32 order buf offset = .ok (u32At order buf offset) := by
  rw [getU32, getUint_eq order 4 buf h, Outcome.ok_bind, Outcome.pure_eq, u32At]

end Access

/-! ## The decoders on any event -/

section Decoders

variable (order : ByteOrder)

/-- The event a buffer holds. -/
def eventOf (buf : Buffer) : Event :=
  if u32At order buf offType = uhidStart then .start
  else if u32At order buf offType = uhidGetReport then
    .getReport (u32At order buf offRequestId) (buf.toList.getD offRequestRnum 0)
      (buf.toList.getD offRequestRtype 0)
  else if u32At order buf offType = uhidSetReport then .setReport (u32At order buf offRequestId)
  else .ignored

theorem index_getD (buf : Buffer) {i : Nat} (h : i < eventSize) :
    index buf i = .ok (buf.toList.getD i 0) := by
  have hi : i < buf.toList.length := by rw [List.Vector.toList_length]; exact h
  rw [index, List.getD_eq_getElem?_getD, List.getElem?_eq_getElem hi, Option.getD_some]

/-- `decode` indexes in range on every event. -/
theorem decode_eq (buf : Buffer) : decode order buf = .ok (eventOf order buf) := by
  unfold decode eventOf
  rw [getU32_eq order buf (by simp), Outcome.ok_bind]
  split
  · rfl
  · split
    · rw [getU32_eq order buf (by simp), Outcome.ok_bind, index_getD buf (by simp),
        Outcome.ok_bind, index_getD buf (by simp), Outcome.ok_bind, Outcome.pure_eq]
    · split
      · rw [getU32_eq order buf (by simp), Outcome.ok_bind, Outcome.pure_eq]
      · rfl

theorem getData_eq (buf : Buffer) {offSize offData : Nat} (hs : offSize + 2 ≤ eventSize)
    (hd : offData + dataMax ≤ eventSize) :
    Fake.getData order buf offSize offData =
      .ok (field buf.toList offData (min (u16At order buf offSize).toNat dataMax)) := by
  obtain ⟨b, hb, he⟩ := slice_field buf offData (min (u16At order buf offSize).toNat dataMax)
    (by omega)
  rw [Fake.getData, getU16_eq order buf hs, Outcome.ok_bind, hb, Outcome.ok_bind, he,
    Outcome.pure_eq]

/-- The string in a field, as the kernel reads it. -/
def strAt (buf : Buffer) (off len : Nat) : String :=
  fromUtf8Lossy ((field buf.toList off len).takeWhile (· ≠ 0))

/-- The message a buffer holds. -/
def sentOf (buf : Buffer) : Fake.Sent :=
  if u32At order buf offType = uhidCreate2 then
    .create2 (strAt buf offCreateName lenName) (strAt buf offCreatePhys lenPhys)
      (strAt buf offCreateUniq lenUniq) (u16At order buf offCreateBus)
      (u32At order buf offCreateVendor) (u32At order buf offCreateProduct)
      (field buf.toList offCreateRdData (min (u16At order buf offCreateRdSize).toNat dataMax))
  else if u32At order buf offType = uhidInput2 then
    .input2 (field buf.toList offInputData (min (u16At order buf offInputSize).toNat dataMax))
  else if u32At order buf offType = uhidGetReportReply then
    .getReportReply (u32At order buf offRequestId) (u16At order buf offReplyErr)
      (field buf.toList offGetReplyData (min (u16At order buf offGetReplySize).toNat dataMax))
  else if u32At order buf offType = uhidSetReportReply then
    .setReportReply (u32At order buf offRequestId) (u16At order buf offReplyErr)
  else if u32At order buf offType = uhidDestroy then .destroy
  else .other (u32At order buf offType)

theorem getStr_slice (buf : Buffer) (off len : Nat) (h : off + len ≤ eventSize) :
    ∃ b, slice buf off (off + len) = .ok b ∧ Fake.getStr b = strAt buf off len := by
  obtain ⟨b, hb, he⟩ := slice_field buf _ _ h
  exact ⟨b, hb, by rw [Fake.getStr, he, strAt]⟩

/-- `decode_sent` indexes in range on every event. -/
theorem decodeSent_eq (buf : Buffer) : Fake.decodeSent order buf = .ok (sentOf order buf) := by
  unfold Fake.decodeSent sentOf
  rw [getU32_eq order buf (by simp), Outcome.ok_bind]
  split
  · obtain ⟨name, hname, ename⟩ := getStr_slice buf offCreateName lenName (by simp)
    obtain ⟨phys, hphys, ephys⟩ := getStr_slice buf offCreatePhys lenPhys (by simp)
    obtain ⟨uniq, huniq, euniq⟩ := getStr_slice buf offCreateUniq lenUniq (by simp)
    rw [hname, Outcome.ok_bind, hphys, Outcome.ok_bind, huniq, Outcome.ok_bind,
      getU16_eq order buf (by simp), Outcome.ok_bind, getU32_eq order buf (by simp),
      Outcome.ok_bind, getU32_eq order buf (by simp), Outcome.ok_bind,
      getData_eq order buf (by simp) (by simp), Outcome.ok_bind, ename, ephys, euniq,
      Outcome.pure_eq]
  · split
    · rw [getData_eq order buf (by simp) (by simp), Outcome.ok_bind, Outcome.pure_eq]
    · split
      · rw [getData_eq order buf (by simp) (by simp), Outcome.ok_bind,
          getU32_eq order buf (by simp), Outcome.ok_bind, getU16_eq order buf (by simp),
          Outcome.ok_bind, Outcome.pure_eq]
      · split
        · rw [getU32_eq order buf (by simp), Outcome.ok_bind, getU16_eq order buf (by simp),
            Outcome.ok_bind, Outcome.pure_eq]
        · split <;> rfl

end Decoders

/-! ## Laying a message over a zeroed event -/

/-- The event is `parts` laid over zeros. -/
def Lays (buf : Buffer) (parts : List (Piece UInt8)) : Prop :=
  buf.toList = lay (List.replicate eventSize 0) parts

/-- Parts that neither leave the event nor overlap. -/
structure Layout (parts : List (Piece UInt8)) : Prop where
  fits : ∀ p ∈ parts, p.stop ≤ eventSize
  disjoint : parts.Pairwise Piece.Disjoint

theorem Layout.fits_replicate {parts : List (Piece UInt8)} (h : Layout parts) :
    ∀ p ∈ parts, p.stop ≤ (List.replicate eventSize (0 : UInt8)).length := by
  rw [List.length_replicate]
  exact h.fits

section Lays

variable {buf : Buffer} {parts : List (Piece UInt8)}

theorem copyFromSlice_lays (hb : Lays buf parts) (lo : Nat) (data : List UInt8)
    (h : lo + data.length ≤ eventSize) :
    ∃ b, copyFromSlice buf lo (lo + data.length) data = .ok b ∧
      Lays b (parts ++ [⟨lo, data⟩]) := by
  obtain ⟨b, hc, he⟩ := copyFromSlice_eq buf lo (lo + data.length) data
    ⟨by omega, h, by omega⟩
  exact ⟨b, hc, by rw [Lays, he, hb, Record.lay_append]⟩

theorem putUint_lays (order : ByteOrder) (hb : Lays buf parts) (w off : Nat)
    (h : off + w ≤ eventSize) (v : Nat) :
    ∃ b, putUint order w buf off v = .ok b ∧
      Lays b (parts ++ [⟨off, encodeUint order w v⟩]) := by
  have hl : (encodeUint order w v).length = w := Record.length_encodeUint order w v
  obtain ⟨b, hc, hbl⟩ := copyFromSlice_lays hb off (encodeUint order w v)
    (by rw [hl]; exact h)
  rw [hl] at hc
  exact ⟨b, hc, hbl⟩

theorem blank_lays (order : ByteOrder) (kind : UInt32) :
    ∃ b, blank order kind = .ok b ∧ Lays b [⟨offType, encodeUint order 4 kind.toNat⟩] := by
  have hz : Lays (zeroed eventSize) [] := rfl
  exact putUint_lays order hz 4 _ (by simp) kind.toNat

/-- The search for a boundary does not move from one. -/
theorem boundaryBefore_length (value : String) :
    boundaryBefore value (utf8 value).length = (utf8 value).length := by
  cases h : (utf8 value).length with
  | zero => rfl
  | succ k =>
    have hk := Utf8.isCharBoundary_length value
    rw [h] at hk
    rw [boundaryBefore, if_pos hk]

theorem boundaryBefore_le (value : String) (stop : Nat) : boundaryBefore value stop ≤ stop := by
  induction stop with
  | zero => exact Nat.le_refl 0
  | succ k ih =>
    rw [boundaryBefore]
    split
    · exact Nat.le_refl _
    · omega

/-- What `put_str` stores of a string in a field of `len` bytes. -/
def stored (value : String) (len : Nat) : List UInt8 :=
  (utf8 value).take (boundaryBefore value (min (utf8 value).length (len - 1)))

theorem length_stored (value : String) (len : Nat) :
    (stored value len).length = boundaryBefore value (min (utf8 value).length (len - 1)) := by
  have hle := boundaryBefore_le value (min (utf8 value).length (len - 1))
  rw [stored, List.length_take]
  omega

/-- There is room for the NUL. -/
theorem length_stored_lt (value : String) {len : Nat} (h : 0 < len) :
    (stored value len).length < len := by
  have hle := boundaryBefore_le value (min (utf8 value).length (len - 1))
  rw [length_stored]
  omega

/-- A string that leaves room for the NUL is stored whole. -/
theorem stored_whole {value : String} {len : Nat} (h : (utf8 value).length < len) :
    stored value len = utf8 value := by
  have hm : min (utf8 value).length (len - 1) = (utf8 value).length := by omega
  rw [stored, hm, boundaryBefore_length, List.take_length]

/-- `put_str` never leaves a field that has room for the NUL. -/
theorem putStr_stored {n : Nat} (part : Bytes n) (value : String) (hn : 0 < n) :
    ∃ b, putStr part value = .ok b ∧ b.toList = overwrite part.toList 0 (stored value n) := by
  have hlt := length_stored_lt value hn
  have hlen := length_stored value n
  obtain ⟨b, hb, he⟩ := copyFromSlice_eq part 0
    (boundaryBefore value (min (utf8 value).length (n - 1))) (stored value n)
    ⟨Nat.zero_le _, by omega, by omega⟩
  exact ⟨b, by rw [putStr, if_neg (by omega)]; exact hb, he⟩

theorem putStrAt_lays (hb : Lays buf parts) (lo len : Nat) (value : String)
    (h : lo + len ≤ eventSize) (hl : 0 < len) :
    ∃ b, putStrAt buf lo len value = .ok b ∧ Lays b (parts ++ [⟨lo, stored value len⟩]) := by
  have hlen : buf.toList.length = eventSize := buf.toList_length
  have hsub : stored value (lo + len - lo) = stored value len := by
    rw [Nat.add_sub_cancel_left]
  obtain ⟨part, hp, ep⟩ := slice_field buf _ _ h
  obtain ⟨part', hp', ep'⟩ := putStr_stored part value (by omega)
  obtain ⟨b, hc, eb⟩ := copyFromSlice_eq buf lo (lo + len) part'.toList
    ⟨by omega, h, List.Vector.toList_length part'⟩
  have hlt := length_stored_lt value hl
  rw [hsub] at ep'
  refine ⟨b, by rw [putStrAt, hp, Outcome.ok_bind, hp', Outcome.ok_bind, hc], ?_⟩
  rw [Lays, eb, ep', ep, Record.overwrite_field (by omega) (by omega), hb, Record.lay_append]

/-! ## Reading the parts back -/

theorem field_of_lays (hb : Lays buf parts) (hl : Layout parts) {off : Nat} (data : List UInt8)
    (hp : ⟨off, data⟩ ∈ parts) : field buf.toList off data.length = data := by
  rw [hb]
  exact Record.field_lay (p := ⟨off, data⟩) hl.fits_replicate hl.disjoint hp

theorem u32At_of_lays {order : ByteOrder} (hb : Lays buf parts) (hl : Layout parts) {off : Nat}
    {v : UInt32} (hp : ⟨off, encodeUint order 4 v.toNat⟩ ∈ parts) : u32At order buf off = v := by
  have hf := field_of_lays hb hl _ hp
  rw [Record.length_encodeUint] at hf
  have hv : v.toNat < 256 ^ 4 := v.toNat_lt
  rw [u32At, hf, Record.decodeUint_encodeUint order hv, UInt32.ofNat_toNat]

theorem u16At_of_lays {order : ByteOrder} (hb : Lays buf parts) (hl : Layout parts) {off : Nat}
    {v : UInt16} (hp : ⟨off, encodeUint order 2 v.toNat⟩ ∈ parts) : u16At order buf off = v := by
  have hf := field_of_lays hb hl _ hp
  rw [Record.length_encodeUint] at hf
  have hv : v.toNat < 256 ^ 2 := v.toNat_lt
  rw [u16At, hf, Record.decodeUint_encodeUint order hv, UInt16.ofNat_toNat]

/-- A `u16` no part covers reads as zero. -/
theorem u16At_of_outside {order : ByteOrder} (hb : Lays buf parts) (hl : Layout parts) {off : Nat}
    (h : off + 2 ≤ eventSize) (hd : ∀ p ∈ parts, off + 2 ≤ p.off ∨ p.stop ≤ off) :
    u16At order buf off = 0 := by
  rw [u16At, hb, Record.field_lay_of_outside hl.fits_replicate hd,
    Record.field_replicate h, Record.decodeUint_replicate_zero]
  rfl

/-- Data laid with its size before it reads back whole. -/
theorem data_of_lays (order : ByteOrder) (hb : Lays buf parts) (hl : Layout parts)
    (offSize offData : Nat) {data : List UInt8} (hd : data.length ≤ dataMax)
    (hs : ⟨offSize, encodeUint order 2 (UInt16.ofNat data.length).toNat⟩ ∈ parts)
    (hp : ⟨offData, data⟩ ∈ parts) :
    field buf.toList offData (min (u16At order buf offSize).toNat dataMax) = data := by
  have hlt : data.length < 2 ^ 16 := by simp only [dataMax] at hd; omega
  rw [u16At_of_lays hb hl hs, UInt16.toNat_ofNat_of_lt' hlt, Nat.min_eq_left hd,
    field_of_lays hb hl _ hp]

theorem takeWhile_append_zero (data rest : List UInt8) :
    (data ++ 0 :: rest).takeWhile (· ≠ 0) = data.takeWhile (· ≠ 0) := by
  induction data with
  | nil => rfl
  | cons b data ih => rw [List.cons_append, List.takeWhile_cons, List.takeWhile_cons, ih]

/-- A field that its bytes do not fill is read up to the first NUL of them. -/
theorem strAt_of_lays (hb : Lays buf parts) (hl : Layout parts) {off len : Nat}
    {data : List UInt8} (hd : data.length < len) (hn : off + len ≤ eventSize)
    (hp : ⟨off, data⟩ ∈ parts)
    (hpad : ∀ q ∈ parts, off + len ≤ q.off ∨ q.stop ≤ off + data.length) :
    strAt buf off len = fromUtf8Lossy (data.takeWhile (· ≠ 0)) := by
  have hf : field buf.toList off len = data ++ List.replicate (len - data.length) 0 := by
    rw [hb]
    exact Record.field_lay_padded (p := ⟨off, data⟩) hl.fits hl.disjoint hp hd.le hn hpad
  obtain ⟨k, hk⟩ : ∃ k, len - data.length = k + 1 := ⟨len - data.length - 1, by omega⟩
  rw [strAt, hf, hk, List.replicate_succ, takeWhile_append_zero]

/-- A string without NUL that leaves room for one is read whole. -/
theorem fromUtf8Lossy_stored {value : String} {len : Nat} (hv : (utf8 value).length < len)
    (hz : '\x00' ∉ value.toList) :
    fromUtf8Lossy ((stored value len).takeWhile (· ≠ 0)) = value := by
  have ht : ∀ b ∈ utf8 value, decide (b ≠ 0) = true := by
    intro b hb
    have hne : b ≠ 0 := by
      rintro rfl
      exact hz ((Utf8.zero_mem_utf8_iff value).mp hb)
    exact decide_eq_true hne
  have hall : (utf8 value).takeWhile (· ≠ 0) = utf8 value := List.takeWhile_eq_self_iff.mpr ht
  rw [stored_whole hv, hall, Utf8.fromUtf8Lossy_utf8]

end Lays

/-! ## The messages -/

/-- Offset and length of every field of a message. -/
def Fake.Sent.fields : Fake.Sent → List (Nat × Nat)
  | create2 name phys uniq _ _ _ descriptor =>
    [(offType, 4), (offCreateName, (utf8 name).length), (offCreatePhys, (utf8 phys).length),
      (offCreateUniq, (utf8 uniq).length), (offCreateRdSize, 2), (offCreateBus, 2),
      (offCreateVendor, 4), (offCreateProduct, 4), (offCreateRdData, descriptor.length)]
  | input2 report => [(offType, 4), (offInputSize, 2), (offInputData, report.length)]
  | getReportReply _ _ data =>
    [(offType, 4), (offRequestId, 4), (offReplyErr, 2), (offGetReplySize, 2),
      (offGetReplyData, data.length)]
  | setReportReply _ _ => [(offType, 4), (offRequestId, 4), (offReplyErr, 2)]
  | destroy | other _ => [(offType, 4)]

section Messages

variable (order : ByteOrder)

/-- The kernel's side reads the event as `m`, and every byte outside the fields
of `m` is zero. -/
structure Encodes (buf : Buffer) (m : Fake.Sent) : Prop where
  decoded : Fake.decodeSent order buf = .ok m
  zero : ∀ i < eventSize, (∀ f ∈ m.fields, i < f.1 ∨ f.1 + f.2 ≤ i) → buf.toList[i]? = some 0

theorem encodes_of_lays {buf : Buffer} {parts : List (Piece UInt8)} {m : Fake.Sent}
    (hb : Lays buf parts) (hl : Layout parts) (hm : sentOf order buf = m)
    (hf : ∀ p ∈ parts, (p.off, p.data.length) ∈ m.fields) : Encodes order buf m := by
  refine ⟨by rw [decodeSent_eq, hm], ?_⟩
  intro i hi hout
  rw [hb, Record.getElem?_lay_of_outside hl.fits_replicate fun p hp => hout _ (hf p hp),
    List.getElem?_replicate, if_pos hi]

theorem sizeWithin_ok {max : Nat} (message : String) {data : List UInt8} (hm : max ≤ 4096)
    (h : data.length ≤ max) :
    sizeWithin max message data = .ok (UInt16.ofNat data.length) :=
  if_pos ⟨by omega, h⟩

theorem sizeWithin_err {max : Nat} (message : String) {data : List UInt8}
    (h : max < data.length) : sizeWithin max message data = .err (invalid message) :=
  if_neg (by omega)

theorem destroy_encodes : ∃ b, destroy order = .ok b ∧ Encodes order b .destroy := by
  obtain ⟨b, hb, hl⟩ := blank_lays order uhidDestroy
  have hlay : Layout [⟨offType, encodeUint order 4 uhidDestroy.toNat⟩] :=
    ⟨by simp [Piece.stop], by simp⟩
  have ht : u32At order b offType = uhidDestroy := u32At_of_lays hl hlay (by simp)
  exact ⟨b, hb, encodes_of_lays order hl hlay (by rw [sentOf, ht]; rfl)
    (by simp [Fake.Sent.fields])⟩

/-- What `set_report_reply` and a refusing `get_report_reply` share: the type,
the request and `EIO`. -/
theorem refusal_lays (kind id : UInt32) :
    ∃ b, (blank order kind >>= fun event => putU32 order event offRequestId id >>= fun event =>
        putU16 order event offReplyErr eio) = .ok b ∧
      ∃ parts, Lays b parts ∧ Layout parts ∧
        (∀ p ∈ parts,
          (p.off, p.data.length) ∈ [(offType, 4), (offRequestId, 4), (offReplyErr, 2)]) ∧
        u32At order b offType = kind ∧ u32At order b offRequestId = id ∧
        u16At order b offReplyErr = eio ∧ u16At order b offGetReplySize = 0 := by
  obtain ⟨b₁, h₁, l₁⟩ := blank_lays order kind
  obtain ⟨b₂, h₂, l₂⟩ := putUint_lays order l₁ 4 offRequestId (by simp) id.toNat
  obtain ⟨b, h₃, l₃⟩ := putUint_lays order l₂ 2 offReplyErr (by simp) eio.toNat
  have hlay : Layout ([⟨offType, encodeUint order 4 kind.toNat⟩] ++
      [⟨offRequestId, encodeUint order 4 id.toNat⟩] ++
      [⟨offReplyErr, encodeUint order 2 eio.toNat⟩]) :=
    ⟨by simp [Piece.stop], by simp [Piece.Disjoint, Piece.stop]⟩
  refine ⟨b, ?_, _, l₃, hlay, by simp, u32At_of_lays l₃ hlay (by simp),
    u32At_of_lays l₃ hlay (by simp), u16At_of_lays l₃ hlay (by simp),
    u16At_of_outside l₃ hlay (by simp) (by simp [Piece.stop])⟩
  rw [h₁, Outcome.ok_bind, putU32, h₂, Outcome.ok_bind, putU16, h₃]

theorem setReportReply_encodes (id : UInt32) :
    ∃ b, setReportReply order id = .ok b ∧ Encodes order b (.setReportReply id eio) := by
  obtain ⟨b, hb, parts, hl, hlay, hf, ht, hid, he, -⟩ := refusal_lays order uhidSetReportReply id
  refine ⟨b, hb, encodes_of_lays order hl hlay ?_ hf⟩
  rw [sentOf, ht, hid, he]
  rfl

theorem getReportReply_none_encodes (id : UInt32) :
    ∃ b, getReportReply order id none = .ok b ∧ Encodes order b (.getReportReply id eio []) := by
  obtain ⟨b, hb, parts, hl, hlay, hf, ht, hid, he, hs⟩ :=
    refusal_lays order uhidGetReportReply id
  refine ⟨b, hb, encodes_of_lays order hl hlay ?_ fun p hp => ?_⟩
  · rw [sentOf, ht, hid, he, hs]
    rfl
  · have hp' := hf p hp
    simp only [Fake.Sent.fields, List.mem_cons, List.not_mem_nil, or_false] at hp' ⊢
    tauto

theorem getReportReply_some_encodes (id : UInt32) (report : List UInt8)
    (h : report.length ≤ dataMax) :
    ∃ b, getReportReply order id (some report) = .ok b ∧
      Encodes order b (.getReportReply id 0 report) := by
  have hsize := sizeWithin_ok "report exceeds UHID_DATA_MAX" (Nat.le_refl 4096) h
  have hr : report.length ≤ 4096 := h
  obtain ⟨b₁, h₁, l₁⟩ := blank_lays order uhidGetReportReply
  obtain ⟨b₂, h₂, l₂⟩ := putUint_lays order l₁ 4 offRequestId (by simp) id.toNat
  obtain ⟨b₃, h₃, l₃⟩ := putUint_lays order l₂ 2 offGetReplySize (by simp)
    (UInt16.ofNat report.length).toNat
  obtain ⟨b, h₄, l₄⟩ := copyFromSlice_lays l₃ offGetReplyData report
    (by simp; omega)
  have hlay : Layout ([⟨offType, encodeUint order 4 uhidGetReportReply.toNat⟩] ++
      [⟨offRequestId, encodeUint order 4 id.toNat⟩] ++
      [⟨offGetReplySize, encodeUint order 2 (UInt16.ofNat report.length).toNat⟩] ++
      [⟨offGetReplyData, report⟩]) :=
    ⟨by simp [Piece.stop]; omega, by simp [Piece.Disjoint, Piece.stop]⟩
  have ht : u32At order b offType = uhidGetReportReply := u32At_of_lays l₄ hlay (by simp)
  have hid : u32At order b offRequestId = id := u32At_of_lays l₄ hlay (by simp)
  have he : u16At order b offReplyErr = 0 :=
    u16At_of_outside l₄ hlay (by simp) (by simp [Piece.stop])
  have hd := data_of_lays order l₄ hlay offGetReplySize offGetReplyData h
    (by simp) (by simp)
  refine ⟨b, ?_, encodes_of_lays order l₄ hlay ?_ (by simp [Fake.Sent.fields])⟩
  · rw [getReportReply, h₁, Outcome.ok_bind, putU32, h₂, Outcome.ok_bind]
    simp only [payloadLen, hsize, dataMax, Outcome.ok_bind, putU16, h₃]
    exact h₄
  · rw [sentOf, ht, hid, he, hd]
    rfl

theorem input2_encodes (report : List UInt8) (h : report.length ≤ dataMax) :
    ∃ b, input2 order report = .ok b ∧ Encodes order b (.input2 report) := by
  have hsize := sizeWithin_ok "report exceeds UHID_DATA_MAX" (Nat.le_refl 4096) h
  have hr : report.length ≤ 4096 := h
  obtain ⟨b₁, h₁, l₁⟩ := blank_lays order uhidInput2
  obtain ⟨b₂, h₂, l₂⟩ := putUint_lays order l₁ 2 offInputSize (by simp)
    (UInt16.ofNat report.length).toNat
  obtain ⟨b, h₃, l₃⟩ := copyFromSlice_lays l₂ offInputData report
    (by simp; omega)
  have hlay : Layout ([⟨offType, encodeUint order 4 uhidInput2.toNat⟩] ++
      [⟨offInputSize, encodeUint order 2 (UInt16.ofNat report.length).toNat⟩] ++
      [⟨offInputData, report⟩]) :=
    ⟨by simp [Piece.stop]; omega, by simp [Piece.Disjoint, Piece.stop]⟩
  have ht : u32At order b offType = uhidInput2 := u32At_of_lays l₃ hlay (by simp)
  have hd := data_of_lays order l₃ hlay offInputSize offInputData h
    (by simp) (by simp)
  refine ⟨b, ?_, encodes_of_lays order l₃ hlay ?_ (by simp [Fake.Sent.fields])⟩
  · simp only [input2, payloadLen, hsize, dataMax, Outcome.ok_bind, h₁, putU16, h₂]
    exact h₃
  · rw [sentOf, ht, hd]
    rfl

/-- What `create2` lays over a zeroed event. -/
def createParts (name phys uniq : String) (vendor product : UInt32) (descriptor : List UInt8) :
    List (Piece UInt8) :=
  [⟨offType, encodeUint order 4 uhidCreate2.toNat⟩, ⟨offCreateName, stored name lenName⟩,
    ⟨offCreatePhys, stored phys lenPhys⟩, ⟨offCreateUniq, stored uniq lenUniq⟩,
    ⟨offCreateRdSize, encodeUint order 2 (UInt16.ofNat descriptor.length).toNat⟩,
    ⟨offCreateBus, encodeUint order 2 busVirtual.toNat⟩,
    ⟨offCreateVendor, encodeUint order 4 vendor.toNat⟩,
    ⟨offCreateProduct, encodeUint order 4 product.toNat⟩, ⟨offCreateRdData, descriptor⟩]

section Create

variable (name phys uniq : String) (vendor product : UInt32) {descriptor : List UInt8}

theorem create2_lays (h : descriptor.length ≤ rdDataMax) :
    ∃ b, create2 order name phys uniq vendor product descriptor = .ok b ∧
      Lays b (createParts order name phys uniq vendor product descriptor) := by
  have hsize := sizeWithin_ok "report descriptor exceeds HID_MAX_DESCRIPTOR_SIZE"
    (Nat.le_refl 4096) h
  have hr : descriptor.length ≤ 4096 := h
  obtain ⟨b₁, h₁, l₁⟩ := blank_lays order uhidCreate2
  obtain ⟨b₂, h₂, l₂⟩ := putStrAt_lays l₁ offCreateName lenName name (by simp) (by simp)
  obtain ⟨b₃, h₃, l₃⟩ := putStrAt_lays l₂ offCreatePhys lenPhys phys (by simp) (by simp)
  obtain ⟨b₄, h₄, l₄⟩ := putStrAt_lays l₃ offCreateUniq lenUniq uniq (by simp) (by simp)
  obtain ⟨b₅, h₅, l₅⟩ := putUint_lays order l₄ 2 offCreateRdSize (by simp)
    (UInt16.ofNat descriptor.length).toNat
  obtain ⟨b₆, h₆, l₆⟩ := putUint_lays order l₅ 2 offCreateBus (by simp) busVirtual.toNat
  obtain ⟨b₇, h₇, l₇⟩ := putUint_lays order l₆ 4 offCreateVendor (by simp) vendor.toNat
  obtain ⟨b₈, h₈, l₈⟩ := putUint_lays order l₇ 4 offCreateProduct (by simp) product.toNat
  obtain ⟨b, h₉, l₉⟩ := copyFromSlice_lays l₈ offCreateRdData descriptor (by simp; omega)
  refine ⟨b, ?_, l₉⟩
  simp only [create2, hsize, rdDataMax, Outcome.ok_bind, h₁, h₂, h₃, h₄, putU16, h₅, h₆, putU32,
    h₇, h₈]
  exact h₉

theorem createParts_layout (h : descriptor.length ≤ rdDataMax) :
    Layout (createParts order name phys uniq vendor product descriptor) := by
  have hr : descriptor.length ≤ 4096 := h
  have hname : (stored name 128).length < 128 := length_stored_lt name (by decide)
  have hphys : (stored phys 64).length < 64 := length_stored_lt phys (by decide)
  have huniq : (stored uniq 64).length < 64 := length_stored_lt uniq (by decide)
  exact ⟨by simp [createParts, Piece.stop]; omega,
    by simp [createParts, Piece.Disjoint, Piece.stop]; omega⟩

/-- What the kernel reads of a `CREATE2`: each string up to its first NUL, as far
as it was stored. -/
theorem sentOf_create2 (h : descriptor.length ≤ rdDataMax) {b : Buffer}
    (hb : Lays b (createParts order name phys uniq vendor product descriptor)) :
    sentOf order b = .create2 (fromUtf8Lossy ((stored name lenName).takeWhile (· ≠ 0)))
      (fromUtf8Lossy ((stored phys lenPhys).takeWhile (· ≠ 0)))
      (fromUtf8Lossy ((stored uniq lenUniq).takeWhile (· ≠ 0))) busVirtual vendor product
      descriptor := by
  have hl := createParts_layout order name phys uniq vendor product h
  have hname : (stored name 128).length < 128 := length_stored_lt name (by decide)
  have hphys : (stored phys 64).length < 64 := length_stored_lt phys (by decide)
  have huniq : (stored uniq 64).length < 64 := length_stored_lt uniq (by decide)
  have ht : u32At order b offType = uhidCreate2 := u32At_of_lays hb hl (by simp [createParts])
  have ename : strAt b offCreateName lenName = _ := strAt_of_lays hb hl hname (by simp)
    (by simp [createParts]) (by simp [createParts, Piece.stop])
  have ephys : strAt b offCreatePhys lenPhys = _ := strAt_of_lays hb hl hphys (by simp)
    (by simp [createParts]) (by simp [createParts, Piece.stop]; omega)
  have euniq : strAt b offCreateUniq lenUniq = _ := strAt_of_lays hb hl huniq (by simp)
    (by simp [createParts]) (by simp [createParts, Piece.stop]; omega)
  have hbus : u16At order b offCreateBus = busVirtual :=
    u16At_of_lays hb hl (by simp [createParts])
  have hvendor : u32At order b offCreateVendor = vendor :=
    u32At_of_lays hb hl (by simp [createParts])
  have hproduct : u32At order b offCreateProduct = product :=
    u32At_of_lays hb hl (by simp [createParts])
  have hd := data_of_lays order hb hl offCreateRdSize offCreateRdData h (by simp [createParts])
    (by simp [createParts])
  rw [sentOf, ht, ename, ephys, euniq, hbus, hvendor, hproduct, hd]
  rfl

end Create

theorem create2_encodes {name phys uniq : String} (vendor product : UInt32)
    {descriptor : List UInt8} (hn : (utf8 name).length < lenName) (hn0 : '\x00' ∉ name.toList)
    (hp : (utf8 phys).length < lenPhys) (hp0 : '\x00' ∉ phys.toList)
    (hu : (utf8 uniq).length < lenUniq) (hu0 : '\x00' ∉ uniq.toList)
    (h : descriptor.length ≤ rdDataMax) :
    ∃ b, create2 order name phys uniq vendor product descriptor = .ok b ∧
      Encodes order b (.create2 name phys uniq busVirtual vendor product descriptor) := by
  obtain ⟨b, hb, hl⟩ := create2_lays order name phys uniq vendor product h
  have hm := sentOf_create2 order name phys uniq vendor product h hl
  rw [fromUtf8Lossy_stored hn hn0, fromUtf8Lossy_stored hp hp0, fromUtf8Lossy_stored hu hu0] at hm
  refine ⟨b, hb, encodes_of_lays order hl (createParts_layout order name phys uniq vendor product h)
    hm ?_⟩
  rw [createParts, stored_whole hn, stored_whole hp, stored_whole hu]
  simp [Fake.Sent.fields]

/-- Whatever the strings, only an oversized descriptor fails. -/
theorem create2_err_iff (name phys uniq : String) (vendor product : UInt32)
    (descriptor : List UInt8) :
    (∃ e, create2 order name phys uniq vendor product descriptor = .err e) ↔
      rdDataMax < descriptor.length := by
  constructor
  · rintro ⟨e, he⟩
    by_contra hle
    have hfits : descriptor.length ≤ rdDataMax := Nat.le_of_not_lt hle
    obtain ⟨b, hb, -⟩ := create2_lays order name phys uniq vendor product hfits
    rw [hb] at he
    cases he
  · intro h
    exact ⟨_, by rw [create2, sizeWithin_err _ h, Outcome.err_bind]⟩

theorem input2_err_iff (report : List UInt8) :
    (∃ e, input2 order report = .err e) ↔ dataMax < report.length := by
  constructor
  · rintro ⟨e, he⟩
    by_contra hle
    obtain ⟨b, hb, -⟩ := input2_encodes order report (by omega)
    rw [hb] at he
    cases he
  · intro h
    exact ⟨_, by rw [input2, payloadLen, sizeWithin_err _ h, Outcome.err_bind]⟩

theorem getReportReply_err_iff (id : UInt32) (report : List UInt8) :
    (∃ e, getReportReply order id (some report) = .err e) ↔ dataMax < report.length := by
  constructor
  · rintro ⟨e, he⟩
    by_contra hle
    obtain ⟨b, hb, -⟩ := getReportReply_some_encodes order id report (by omega)
    rw [hb] at he
    cases he
  · intro h
    obtain ⟨b₁, h₁, l₁⟩ := blank_lays order uhidGetReportReply
    obtain ⟨b₂, h₂, -⟩ := putUint_lays order l₁ 4 offRequestId (by simp) id.toNat
    refine ⟨invalid "report exceeds UHID_DATA_MAX", ?_⟩
    rw [getReportReply, h₁, Outcome.ok_bind, putU32, h₂, Outcome.ok_bind]
    simp only [payloadLen, sizeWithin_err _ h, Outcome.err_bind]

/-! ## The requests of the fake kernel -/

theorem start_decodes : ∃ b, Fake.start order = .ok b ∧ decode order b = .ok .start := by
  obtain ⟨b, hb, hl⟩ := blank_lays order uhidStart
  have hlay : Layout [⟨offType, encodeUint order 4 uhidStart.toNat⟩] :=
    ⟨by simp [Piece.stop], by simp⟩
  have ht : u32At order b offType = uhidStart := u32At_of_lays hl hlay (by simp)
  exact ⟨b, hb, by rw [decode_eq, eventOf, ht, if_pos rfl]⟩

theorem request_decodes (kind id : UInt32) (rnum rtype : UInt8) :
    ∃ b, Fake.request order kind id rnum rtype = .ok b ∧
      u32At order b offType = kind ∧ u32At order b offRequestId = id ∧
      b.toList.getD offRequestRnum 0 = rnum ∧ b.toList.getD offRequestRtype 0 = rtype := by
  obtain ⟨b₁, h₁, l₁⟩ := blank_lays order kind
  obtain ⟨b₂, h₂, l₂⟩ := putUint_lays order l₁ 4 offRequestId (by simp) id.toNat
  obtain ⟨b₃, h₃, l₃⟩ := copyFromSlice_lays l₂ offRequestRnum [rnum] (by simp)
  obtain ⟨b, h₄, l₄⟩ := copyFromSlice_lays l₃ offRequestRtype [rtype] (by simp)
  have hlay : Layout ([⟨offType, encodeUint order 4 kind.toNat⟩] ++
      [⟨offRequestId, encodeUint order 4 id.toNat⟩] ++ [⟨offRequestRnum, [rnum]⟩] ++
      [⟨offRequestRtype, [rtype]⟩]) :=
    ⟨by simp [Piece.stop], by simp [Piece.Disjoint, Piece.stop]⟩
  have hbyte {off : Nat} {v : UInt8} (h : field b.toList off 1 = [v]) :
      b.toList.getD off 0 = v := by
    have h0 : some v = b.toList[off + 0]? := by
      rw [← List.getElem?_cons_zero (l := []), ← h, Record.getElem?_field, if_pos Nat.one_pos]
    rw [List.getD_eq_getElem?_getD, ← Nat.add_zero off, ← h0, Option.getD_some]
  refine ⟨b, ?_, u32At_of_lays l₄ hlay (by simp), u32At_of_lays l₄ hlay (by simp),
    hbyte (field_of_lays l₄ hlay [rnum] (by simp)),
    hbyte (field_of_lays l₄ hlay [rtype] (by simp))⟩
  rw [Fake.request, h₁, Outcome.ok_bind, putU32, h₂, Outcome.ok_bind]
  change copyFromSlice b₂ offRequestRnum (offRequestRnum + [rnum].length) [rnum] >>= _ = _
  rw [h₃, Outcome.ok_bind]
  exact h₄

theorem getReport_decodes (id : UInt32) (rnum rtype : UInt8) :
    ∃ b, Fake.getReport order id rnum rtype = .ok b ∧
      decode order b = .ok (.getReport id rnum rtype) := by
  obtain ⟨b, hb, ht, hid, hn, hr⟩ := request_decodes order uhidGetReport id rnum rtype
  exact ⟨b, hb, by rw [decode_eq, eventOf, ht, hid, hn, hr]; rfl⟩

theorem setReport_decodes (id : UInt32) (rnum rtype : UInt8) :
    ∃ b, Fake.setReport order id rnum rtype = .ok b ∧ decode order b = .ok (.setReport id) := by
  obtain ⟨b, hb, ht, hid, -, -⟩ := request_decodes order uhidSetReport id rnum rtype
  exact ⟨b, hb, by rw [decode_eq, eventOf, ht, hid]; rfl⟩

/-- An event of the fake kernel. -/
def Fake.built : Outcome IoError Buffer → Buffer
  | .ok event => event
  | _ => List.Vector.replicate eventSize 0

/-! ## The agreement -/

theorem decode_ignored_iff (buf : Buffer) :
    decode order buf = .ok .ignored ↔
      u32At order buf offType ∉ [uhidStart, uhidGetReport, uhidSetReport] := by
  rw [decode_eq, Outcome.ok.injEq, eventOf]
  simp only [List.mem_cons, List.not_mem_nil, or_false, not_or]
  split
  · rename_i h
    exact ⟨fun h' => (by cases h'), fun h' => absurd h h'.1⟩
  · rename_i h₁
    split
    · rename_i h
      exact ⟨fun h' => (by cases h'), fun h' => absurd h h'.2.1⟩
    · rename_i h₂
      split
      · rename_i h
        exact ⟨fun h' => (by cases h'), fun h' => absurd h h'.2.2⟩
      · rename_i h₃
        exact ⟨fun _ => ⟨h₁, h₂, h₃⟩, fun _ => rfl⟩

/-- What the daemon's codecs and the kernel's agree on. -/
structure Agree : Prop where
  creates : ∀ name phys uniq vendor product descriptor,
    (utf8 name).length < lenName → '\x00' ∉ name.toList →
    (utf8 phys).length < lenPhys → '\x00' ∉ phys.toList →
    (utf8 uniq).length < lenUniq → '\x00' ∉ uniq.toList →
    descriptor.length ≤ rdDataMax →
    ∃ b, create2 order name phys uniq vendor product descriptor = .ok b ∧
      Encodes order b (.create2 name phys uniq busVirtual vendor product descriptor)
  pushes : ∀ report, report.length ≤ dataMax →
    ∃ b, input2 order report = .ok b ∧ Encodes order b (.input2 report)
  answers : ∀ id report, report.length ≤ dataMax →
    ∃ b, getReportReply order id (some report) = .ok b ∧
      Encodes order b (.getReportReply id 0 report)
  refusesGet : ∀ id, ∃ b, getReportReply order id none = .ok b ∧
    Encodes order b (.getReportReply id eio [])
  refusesSet : ∀ id, ∃ b, setReportReply order id = .ok b ∧
    Encodes order b (.setReportReply id eio)
  destroys : ∃ b, destroy order = .ok b ∧ Encodes order b .destroy
  create2_fails : ∀ name phys uniq vendor product descriptor,
    (∃ e, create2 order name phys uniq vendor product descriptor = .err e) ↔
      rdDataMax < descriptor.length
  input2_fails : ∀ report, (∃ e, input2 order report = .err e) ↔ dataMax < report.length
  getReportReply_fails : ∀ id report,
    (∃ e, getReportReply order id (some report) = .err e) ↔ dataMax < report.length
  reads_start : ∃ b, Fake.start order = .ok b ∧ decode order b = .ok .start
  reads_get : ∀ id rnum rtype, ∃ b, Fake.getReport order id rnum rtype = .ok b ∧
    decode order b = .ok (.getReport id rnum rtype)
  reads_set : ∀ id rnum rtype, ∃ b, Fake.setReport order id rnum rtype = .ok b ∧
    decode order b = .ok (.setReport id)
  decode_total : ∀ buf, ∃ event, decode order buf = .ok event
  decodeSent_total : ∀ buf, ∃ m, Fake.decodeSent order buf = .ok m
  ignores : ∀ buf, u32At order buf offType ∉ [uhidStart, uhidGetReport, uhidSetReport] →
    decode order buf = .ok .ignored

/-- **The codecs agree** over the whole format, in either byte order. -/
theorem codecs_agree : Agree order where
  creates _ _ _ vendor product _ hn hn0 hp hp0 hu hu0 hd :=
    create2_encodes order vendor product hn hn0 hp hp0 hu hu0 hd
  pushes report h := input2_encodes order report h
  answers id report h := getReportReply_some_encodes order id report h
  refusesGet id := getReportReply_none_encodes order id
  refusesSet id := setReportReply_encodes order id
  destroys := destroy_encodes order
  create2_fails := create2_err_iff order
  input2_fails := input2_err_iff order
  getReportReply_fails := getReportReply_err_iff order
  reads_start := start_decodes order
  reads_get := getReport_decodes order
  reads_set := setReport_decodes order
  decode_total buf := ⟨_, decode_eq order buf⟩
  decodeSent_total buf := ⟨_, decodeSent_eq order buf⟩
  ignores buf h := (decode_ignored_iff order buf).mpr h

/-- A mouse with a three-byte descriptor, its level, and the answer to a request. -/
theorem codecs_agree_mouse :
    (∃ b, create2 .little "Mouse" "" "mouse-1" 1 2 [5, 1, 9] = .ok b ∧
      Encodes .little b (.create2 "Mouse" "" "mouse-1" busVirtual 1 2 [5, 1, 9])) ∧
    (∃ b, input2 .little [2, 50, 0] = .ok b ∧ Encodes .little b (.input2 [2, 50, 0])) ∧
    ∃ b, getReportReply .big 7 (some [2, 50, 1]) = .ok b ∧
      Encodes .big b (.getReportReply 7 0 [2, 50, 1]) :=
  ⟨(codecs_agree .little).creates "Mouse" "" "mouse-1" 1 2 [5, 1, 9] (by decide) (by decide)
      (by decide) (by decide) (by decide) (by decide) (by decide),
    (codecs_agree .little).pushes [2, 50, 0] (by decide),
    (codecs_agree .big).answers 7 [2, 50, 1] (by decide)⟩

end Messages

end UhidBattery
