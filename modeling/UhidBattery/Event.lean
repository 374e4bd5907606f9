import UhidBattery.Basic
import UhidBattery.Lib.Program
import UhidBattery.Lib.Record
import UhidBattery.Lib.Utf8
import Mathlib.Data.Vector.Defs

/-!
# The `/dev/uhid` wire format

A `struct uhid_event` is 4376 bytes: the type, then a union whose fields sit at
the offsets below.  Slicing, indexing and copying panic out of range, as in
Rust; the codecs store integers in the byte order of the machine.  The `Fake`
part is the kernel's side of the wire, as the unit tests stand in for it.
-/

namespace UhidBattery

open Program (Outcome)
open Record (ByteOrder overwrite field encodeUint decodeUint)
open Utf8 (utf8 isCharBoundary fromUtf8Lossy)

/-! ## Layout -/

def busVirtual : UInt16 := 0x06

def uhidDestroy : UInt32 := 1
def uhidStart : UInt32 := 2
def uhidGetReport : UInt32 := 9
def uhidGetReportReply : UInt32 := 10
def uhidCreate2 : UInt32 := 11
def uhidInput2 : UInt32 := 12
def uhidSetReport : UInt32 := 13
def uhidSetReportReply : UInt32 := 14

/-- The `rtype` of a request about an input report. -/
def rtypeInput : UInt8 := 2

/-- The error carried by replies to requests that are not served. -/
def eio : UInt16 := 5

@[simp] def offType : Nat := 0
@[simp] def offCreateName : Nat := 4
@[simp] def lenName : Nat := 128
@[simp] def offCreatePhys : Nat := offCreateName + lenName
@[simp] def lenPhys : Nat := 64
@[simp] def offCreateUniq : Nat := offCreatePhys + lenPhys
@[simp] def lenUniq : Nat := 64
@[simp] def offCreateRdSize : Nat := offCreateUniq + lenUniq
@[simp] def offCreateBus : Nat := offCreateRdSize + 2
@[simp] def offCreateVendor : Nat := offCreateBus + 2
@[simp] def offCreateProduct : Nat := offCreateVendor + 4
@[simp] def offCreateRdData : Nat := offCreateProduct + 4 + 4 + 4
@[simp] def rdDataMax : Nat := 4096
@[simp] def dataMax : Nat := 4096
@[simp] def eventSize : Nat := offCreateRdData + rdDataMax

@[simp] def offInputSize : Nat := 4
@[simp] def offInputData : Nat := 6
@[simp] def offRequestId : Nat := 4
@[simp] def offRequestRnum : Nat := 8
@[simp] def offRequestRtype : Nat := 9
@[simp] def offReplyErr : Nat := 8
@[simp] def offGetReplySize : Nat := 10
@[simp] def offGetReplyData : Nat := 12

/-! ## Byte arrays -/

/-- `n` bytes. -/
abbrev Bytes (n : Nat) := List.Vector UInt8 n

/-- A full-size event. -/
abbrev Buffer := Bytes eventSize

section Bytes

variable {n : Nat}

def zeroed (n : Nat) : Bytes n := ⟨List.replicate n 0, List.length_replicate⟩

/-- `buf[i]`. -/
def index (buf : Bytes n) (i : Nat) : Outcome IoError UInt8 :=
  match buf.toList[i]? with
  | some b => .ok b
  | none => .panic

/-- `&buf[lo..hi]`. -/
def slice (buf : Bytes n) (lo hi : Nat) : Outcome IoError (Bytes (hi - lo)) :=
  if h : lo ≤ hi ∧ hi ≤ n then
    .ok ⟨field buf.toList lo (hi - lo), Record.length_field (by have := buf.toList_length; omega)⟩
  else .panic

/-- `buf[lo..hi].copy_from_slice(data)`. -/
def copyFromSlice (buf : Bytes n) (lo hi : Nat) (data : List UInt8) :
    Outcome IoError (Bytes n) :=
  if h : lo ≤ hi ∧ hi ≤ n ∧ data.length = hi - lo then
    .ok ⟨overwrite buf.toList lo data, by
      have := buf.toList_length
      rw [Record.length_overwrite (by omega), this]⟩
  else .panic

variable (order : ByteOrder)

/-- What `put_u16` and `put_u32` share: `w` bytes of an integer. -/
def putUint (w : Nat) (buf : Bytes n) (offset value : Nat) : Outcome IoError (Bytes n) :=
  copyFromSlice buf offset (offset + w) (encodeUint order w value)

def putU16 (buf : Bytes n) (offset : Nat) (value : UInt16) : Outcome IoError (Bytes n) :=
  putUint order 2 buf offset value.toNat

def putU32 (buf : Bytes n) (offset : Nat) (value : UInt32) : Outcome IoError (Bytes n) :=
  putUint order 4 buf offset value.toNat

/-- What `get_u16` and `get_u32` share. -/
def getUint (w : Nat) (buf : Bytes n) (offset : Nat) : Outcome IoError Nat := do
  let bytes ← slice buf offset (offset + w)
  pure (decodeUint order bytes.toList)

def getU16 (buf : Bytes n) (offset : Nat) : Outcome IoError UInt16 := do
  let v ← getUint order 2 buf offset
  pure (UInt16.ofNat v)

def getU32 (buf : Bytes n) (offset : Nat) : Outcome IoError UInt32 := do
  let v ← getUint order 4 buf offset
  pure (UInt32.ofNat v)

/-- The last character boundary of `value` at or before a byte index. -/
def boundaryBefore (value : String) : Nat → Nat
  | 0 => 0
  | stop + 1 => if isCharBoundary value (stop + 1) then stop + 1 else boundaryBefore value stop

/-- Copies `value` into a NUL-padded field, cut on a character boundary. -/
def putStr (buf : Bytes n) (value : String) : Outcome IoError (Bytes n) :=
  if n = 0 then .panic
  else
    let stop := boundaryBefore value (min (utf8 value).length (n - 1))
    copyFromSlice buf 0 stop ((utf8 value).take stop)

/-- `put_str(&mut buf[lo..lo + len], value)`. -/
def putStrAt (buf : Bytes n) (lo len : Nat) (value : String) : Outcome IoError (Bytes n) := do
  let part ← slice buf lo (lo + len)
  let part ← putStr part value
  copyFromSlice buf lo (lo + len) part.toList

end Bytes

/-! ## What the daemon reads -/

/-- An event received from the kernel. -/
inductive Event where
  | start
  | getReport (id : UInt32) (rnum rtype : UInt8)
  | setReport (id : UInt32)
  | ignored
  deriving DecidableEq, Repr

section Codec

variable (order : ByteOrder)

def decode (buf : Buffer) : Outcome IoError Event := do
  let kind ← getU32 order buf offType
  if kind = uhidStart then pure .start
  else if kind = uhidGetReport then do
    let id ← getU32 order buf offRequestId
    let rnum ← index buf offRequestRnum
    let rtype ← index buf offRequestRtype
    pure (.getReport id rnum rtype)
  else if kind = uhidSetReport then do
    let id ← getU32 order buf offRequestId
    pure (.setReport id)
  else pure .ignored

/-! ## What the daemon writes -/

def blank (kind : UInt32) : Outcome IoError Buffer :=
  putU32 order (zeroed eventSize) offType kind

/-- `u16::try_from(len)`, held to `max`: the length check of `create2` and of
`payload_len`. -/
def sizeWithin (max : Nat) (message : String) (data : List UInt8) : Outcome IoError UInt16 :=
  if data.length < 65536 ∧ data.length ≤ max then .ok (UInt16.ofNat data.length)
  else .err (invalid message)

def payloadLen (data : List UInt8) : Outcome IoError UInt16 :=
  sizeWithin dataMax "report exceeds UHID_DATA_MAX" data

def create2 (name phys uniq : String) (vendor product : UInt32) (descriptor : List UInt8) :
    Outcome IoError Buffer := do
  let size ← sizeWithin rdDataMax "report descriptor exceeds HID_MAX_DESCRIPTOR_SIZE" descriptor
  let event ← blank order uhidCreate2
  let event ← putStrAt event offCreateName lenName name
  let event ← putStrAt event offCreatePhys lenPhys phys
  let event ← putStrAt event offCreateUniq lenUniq uniq
  let event ← putU16 order event offCreateRdSize size
  let event ← putU16 order event offCreateBus busVirtual
  let event ← putU32 order event offCreateVendor vendor
  let event ← putU32 order event offCreateProduct product
  copyFromSlice event offCreateRdData (offCreateRdData + descriptor.length) descriptor

def destroy : Outcome IoError Buffer := blank order uhidDestroy

def input2 (report : List UInt8) : Outcome IoError Buffer := do
  let size ← payloadLen report
  let event ← blank order uhidInput2
  let event ← putU16 order event offInputSize size
  copyFromSlice event offInputData (offInputData + report.length) report

/-- Answers a `GET_REPORT`; with `none` it is refused with `EIO`. -/
def getReportReply (id : UInt32) (report : Option (List UInt8)) : Outcome IoError Buffer := do
  let event ← blank order uhidGetReportReply
  let event ← putU32 order event offRequestId id
  match report with
  | some report => do
    let size ← payloadLen report
    let event ← putU16 order event offGetReplySize size
    copyFromSlice event offGetReplyData (offGetReplyData + report.length) report
  | none => putU16 order event offReplyErr eio

/-- Refuses a `SET_REPORT`. -/
def setReportReply (id : UInt32) : Outcome IoError Buffer := do
  let event ← blank order uhidSetReportReply
  let event ← putU32 order event offRequestId id
  putU16 order event offReplyErr eio

/-! ## The kernel's side -/

namespace Fake

/-- An event the daemon wrote, as `uhid_char_write()` reads it. -/
inductive Sent where
  | create2 (name phys uniq : String) (bus : UInt16) (vendor product : UInt32)
      (descriptor : List UInt8)
  | input2 (report : List UInt8)
  | getReportReply (id : UInt32) (err : UInt16) (data : List UInt8)
  | setReportReply (id : UInt32) (err : UInt16)
  | destroy
  | other (kind : UInt32)
  deriving DecidableEq, Repr

/-- A NUL-terminated field, as the kernel reads it. -/
def getStr {n : Nat} (buf : Bytes n) : String := fromUtf8Lossy (buf.toList.takeWhile (· ≠ 0))

/-- The size at `offSize`, held to `DATA_MAX`, and that many bytes from `offData`. -/
def getData (buf : Buffer) (offSize offData : Nat) : Outcome IoError (List UInt8) := do
  let size ← getU16 order buf offSize
  let data ← slice buf offData (offData + min size.toNat dataMax)
  pure data.toList

def decodeSent (buf : Buffer) : Outcome IoError Sent := do
  let kind ← getU32 order buf offType
  if kind = uhidCreate2 then do
    let name ← slice buf offCreateName (offCreateName + lenName)
    let phys ← slice buf offCreatePhys (offCreatePhys + lenPhys)
    let uniq ← slice buf offCreateUniq (offCreateUniq + lenUniq)
    let bus ← getU16 order buf offCreateBus
    let vendor ← getU32 order buf offCreateVendor
    let product ← getU32 order buf offCreateProduct
    let descriptor ← getData order buf offCreateRdSize offCreateRdData
    pure (.create2 (getStr name) (getStr phys) (getStr uniq) bus vendor product descriptor)
  else if kind = uhidInput2 then do
    let data ← getData order buf offInputSize offInputData
    pure (.input2 data)
  else if kind = uhidGetReportReply then do
    let data ← getData order buf offGetReplySize offGetReplyData
    let id ← getU32 order buf offRequestId
    let err ← getU16 order buf offReplyErr
    pure (.getReportReply id err data)
  else if kind = uhidSetReportReply then do
    let id ← getU32 order buf offRequestId
    let err ← getU16 order buf offReplyErr
    pure (.setReportReply id err)
  else if kind = uhidDestroy then pure .destroy
  else pure (.other kind)

def start : Outcome IoError Buffer := blank order uhidStart

def request (kind : UInt32) (id : UInt32) (rnum rtype : UInt8) : Outcome IoError Buffer := do
  let event ← blank order kind
  let event ← putU32 order event offRequestId id
  let event ← copyFromSlice event offRequestRnum (offRequestRnum + 1) [rnum]
  copyFromSlice event offRequestRtype (offRequestRtype + 1) [rtype]

def getReport (id : UInt32) (rnum rtype : UInt8) : Outcome IoError Buffer :=
  request order uhidGetReport id rnum rtype

def setReport (id : UInt32) (rnum rtype : UInt8) : Outcome IoError Buffer :=
  request order uhidSetReport id rnum rtype

end Fake

end Codec

end UhidBattery
