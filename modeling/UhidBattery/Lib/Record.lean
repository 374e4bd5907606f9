import Mathlib.Data.List.Basic
import Mathlib.Data.UInt
import Mathlib.Tactic.Common

/-!
# Fixed-layout records of bytes

`overwrite l off data` lays `data` over `l` from `off` on; `field l off len` is
the `len` elements from `off` on.  A field reads back what was laid over it
(`field_overwrite_self`) and nothing changes elsewhere
(`getElem?_overwrite_of_not_mem`).  A record is laid out as a list of pieces;
pairwise disjoint ones each read back (`field_lay`) and leave the rest as it was
(`getElem?_lay_of_outside`).

`encodeUint` and `decodeUint` are unsigned integers in either byte order.
-/

namespace Record

variable {α : Type}

/-! ## Fields -/

def overwrite (l : List α) (off : Nat) (data : List α) : List α :=
  l.take off ++ data ++ l.drop (off + data.length)

def field (l : List α) (off len : Nat) : List α := (l.drop off).take len

theorem length_overwrite {l data : List α} {off : Nat} (h : off + data.length ≤ l.length) :
    (overwrite l off data).length = l.length := by
  simp only [overwrite, List.length_append, List.length_take, List.length_drop]
  omega

theorem length_field {l : List α} {off len : Nat} (h : off + len ≤ l.length) :
    (field l off len).length = len := by
  simp only [field, List.length_take, List.length_drop]
  omega

theorem getElem?_field (l : List α) (off len i : Nat) :
    (field l off len)[i]? = if i < len then l[off + i]? else none := by
  rw [field, List.getElem?_take]
  split <;> simp

theorem getElem?_overwrite {l data : List α} {off : Nat} (h : off + data.length ≤ l.length)
    (i : Nat) : (overwrite l off data)[i]? =
      if off ≤ i ∧ i < off + data.length then data[i - off]? else l[i]? := by
  have ht : (l.take off).length = off := by rw [List.length_take]; omega
  rw [overwrite, List.append_assoc, List.getElem?_append, ht]
  by_cases h1 : i < off
  · simp [h1, show ¬ off ≤ i by omega]
  · rw [if_neg h1, List.getElem?_append]
    by_cases h2 : i - off < data.length
    · rw [if_pos h2, if_pos ⟨by omega, by omega⟩]
    · rw [if_neg h2, if_neg (by omega), List.getElem?_drop]
      congr 1
      omega

theorem getElem?_overwrite_of_not_mem {l data : List α} {off i : Nat}
    (h : off + data.length ≤ l.length) (hi : i < off ∨ off + data.length ≤ i) :
    (overwrite l off data)[i]? = l[i]? := by
  rw [getElem?_overwrite h, if_neg (by omega)]

/-- A field reads back what was laid over it. -/
theorem field_overwrite_self {l data : List α} {off : Nat} (h : off + data.length ≤ l.length) :
    field (overwrite l off data) off data.length = data := by
  apply List.ext_getElem?
  intro i
  rw [getElem?_field, getElem?_overwrite h]
  by_cases hi : i < data.length
  · rw [if_pos hi, if_pos ⟨by omega, by omega⟩, Nat.add_sub_cancel_left]
  · rw [if_neg hi, List.getElem?_eq_none (by omega)]

theorem field_replicate {a : α} {n off len : Nat} (h : off + len ≤ n) :
    field (List.replicate n a) off len = List.replicate len a := by
  simp only [field, List.drop_replicate, List.take_replicate]
  congr 1
  omega

/-- Laying data over part of a field, and the field back, is laying the data. -/
theorem overwrite_field {l data : List α} {off len : Nat} (h : off + len ≤ l.length)
    (hd : data.length ≤ len) :
    overwrite l off (overwrite (field l off len) 0 data) = overwrite l off data := by
  have hf := length_field h
  have ho : (overwrite (field l off len) 0 data).length = len := by
    rw [length_overwrite (by omega), hf]
  have hin (j : Nat) : (overwrite (field l off len) 0 data)[j]? =
      if 0 ≤ j ∧ j < 0 + data.length then data[j - 0]? else (field l off len)[j]? :=
    getElem?_overwrite (by omega) j
  have hout (i : Nat) : (overwrite l off data)[i]? =
      if off ≤ i ∧ i < off + data.length then data[i - off]? else l[i]? :=
    getElem?_overwrite (by omega) i
  apply List.ext_getElem?
  intro i
  rw [getElem?_overwrite (by omega), ho, hin, hout, getElem?_field]
  by_cases h1 : off ≤ i ∧ i < off + len
  · rw [if_pos h1]
    by_cases h2 : i < off + data.length
    · rw [if_pos (show 0 ≤ i - off ∧ i - off < 0 + data.length by omega),
        if_pos (show off ≤ i ∧ i < off + data.length by omega), Nat.sub_zero]
    · rw [if_neg (show ¬ (0 ≤ i - off ∧ i - off < 0 + data.length) by omega),
        if_neg (show ¬ (off ≤ i ∧ i < off + data.length) by omega),
        if_pos (show i - off < len by omega), Nat.add_sub_cancel' h1.1]
  · rw [if_neg h1, if_neg (show ¬ (off ≤ i ∧ i < off + data.length) by omega)]

/-! ## Layouts -/

/-- Data and where it goes. -/
structure Piece (α : Type) where
  off : Nat
  data : List α

def Piece.stop (p : Piece α) : Nat := p.off + p.data.length

def Piece.Disjoint (p q : Piece α) : Prop := p.stop ≤ q.off ∨ q.stop ≤ p.off

/-- Lays every part over `l`, in order. -/
def lay (l : List α) (parts : List (Piece α)) : List α :=
  parts.foldl (fun l p => overwrite l p.off p.data) l

@[simp] theorem lay_nil (l : List α) : lay l [] = l := rfl

@[simp] theorem lay_cons (l : List α) (p : Piece α) (parts : List (Piece α)) :
    lay l (p :: parts) = lay (overwrite l p.off p.data) parts := rfl

theorem lay_append (l : List α) (parts : List (Piece α)) (p : Piece α) :
    lay l (parts ++ [p]) = overwrite (lay l parts) p.off p.data := by
  simp [lay]

/-- What no part covers is as it was. -/
theorem getElem?_lay_of_outside {l : List α} {parts : List (Piece α)} {i : Nat}
    (h : ∀ p ∈ parts, p.stop ≤ l.length) (hi : ∀ p ∈ parts, i < p.off ∨ p.stop ≤ i) :
    (lay l parts)[i]? = l[i]? := by
  induction parts generalizing l with
  | nil => rfl
  | cons p parts ih =>
    have hp : p.off + p.data.length ≤ l.length := h p (List.mem_cons_self ..)
    have hl := length_overwrite hp
    rw [lay_cons, ih (fun q hq => by rw [hl]; exact h q (List.mem_cons_of_mem _ hq))
      (fun q hq => hi q (List.mem_cons_of_mem _ hq))]
    exact getElem?_overwrite_of_not_mem hp (hi p (List.mem_cons_self ..))

/-- A field away from every part is as it was. -/
theorem field_lay_of_outside {l : List α} {parts : List (Piece α)} {off len : Nat}
    (h : ∀ p ∈ parts, p.stop ≤ l.length)
    (hd : ∀ p ∈ parts, off + len ≤ p.off ∨ p.stop ≤ off) :
    field (lay l parts) off len = field l off len := by
  apply List.ext_getElem?
  intro i
  rw [getElem?_field, getElem?_field]
  by_cases hi : i < len
  · rw [if_pos hi, if_pos hi, getElem?_lay_of_outside h]
    intro p hp
    have := hd p hp
    omega
  · rw [if_neg hi, if_neg hi]

/-- **Disjoint parts** each read back as they were laid. -/
theorem field_lay {l : List α} {parts : List (Piece α)} {p : Piece α}
    (h : ∀ p ∈ parts, p.stop ≤ l.length) (hd : parts.Pairwise Piece.Disjoint) (hp : p ∈ parts) :
    field (lay l parts) p.off p.data.length = p.data := by
  induction parts generalizing l with
  | nil => simp at hp
  | cons q parts ih =>
    have hq : q.off + q.data.length ≤ l.length := h q (List.mem_cons_self ..)
    have hl := length_overwrite hq
    have hrest : ∀ r ∈ parts, r.stop ≤ (overwrite l q.off q.data).length := by
      intro r hr
      rw [hl]
      exact h r (List.mem_cons_of_mem _ hr)
    obtain ⟨hqd, hpd⟩ := List.pairwise_cons.mp hd
    rw [lay_cons]
    rcases List.mem_cons.mp hp with rfl | hp
    · rw [field_lay_of_outside hrest, field_overwrite_self hq]
      intro r hr
      exact hqd r hr
    · exact ih hrest hpd hp

/-- A field that starts with a part and is otherwise covered by none. -/
theorem field_lay_padded {a : α} {n len : Nat} {parts : List (Piece α)} {p : Piece α}
    (h : ∀ p ∈ parts, p.stop ≤ n) (hd : parts.Pairwise Piece.Disjoint) (hp : p ∈ parts)
    (hlen : p.data.length ≤ len) (hn : p.off + len ≤ n)
    (hpad : ∀ q ∈ parts, p.off + len ≤ q.off ∨ q.stop ≤ p.stop) :
    field (lay (List.replicate n a) parts) p.off len =
      p.data ++ List.replicate (len - p.data.length) a := by
  have h' : ∀ p ∈ parts, p.stop ≤ (List.replicate n a).length := by simpa using h
  have hself := field_lay h' hd hp
  have hrest : field (lay (List.replicate n a) parts) p.stop (len - p.data.length) =
      List.replicate (len - p.data.length) a := by
    rw [field_lay_of_outside h', field_replicate (by unfold Piece.stop; omega)]
    intro q hq
    have := hpad q hq
    unfold Piece.stop at *
    omega
  have hsplit : ∀ L : List α, field L p.off len =
      field L p.off p.data.length ++ field L p.stop (len - p.data.length) := by
    intro L
    unfold field Piece.stop
    rw [← List.drop_drop, ← List.take_add, Nat.add_sub_cancel' hlen]
  rw [hsplit, hself, hrest]

/-! ## Unsigned integers -/

inductive ByteOrder where
  | little
  | big
  deriving DecidableEq, Repr

/-- The `w` low bytes of `v`, least significant first. -/
def leBytes : Nat → Nat → List UInt8
  | 0, _ => []
  | w + 1, v => UInt8.ofNat (v % 256) :: leBytes w (v / 256)

def leValue (bytes : List UInt8) : Nat := bytes.foldr (fun b v => b.toNat + 256 * v) 0

def encodeUint (order : ByteOrder) (w v : Nat) : List UInt8 :=
  match order with
  | .little => leBytes w v
  | .big => (leBytes w v).reverse

def decodeUint (order : ByteOrder) (bytes : List UInt8) : Nat :=
  match order with
  | .little => leValue bytes
  | .big => leValue bytes.reverse

@[simp] theorem length_leBytes (w v : Nat) : (leBytes w v).length = w := by
  induction w generalizing v with
  | zero => rfl
  | succ w ih => simp [leBytes, ih]

@[simp] theorem length_encodeUint (order : ByteOrder) (w v : Nat) :
    (encodeUint order w v).length = w := by
  cases order <;> simp [encodeUint]

theorem leValue_lt (bytes : List UInt8) : leValue bytes < 256 ^ bytes.length := by
  induction bytes with
  | nil => exact Nat.one_pos
  | cons b bytes ih =>
    have hb := b.toNat_lt
    change b.toNat + 256 * leValue bytes < 256 ^ (bytes.length + 1)
    rw [Nat.pow_succ]
    omega

theorem leValue_leBytes {w v : Nat} (h : v < 256 ^ w) : leValue (leBytes w v) = v := by
  induction w generalizing v with
  | zero => simp only [Nat.pow_zero] at h; simp [leBytes, leValue]; omega
  | succ w ih =>
    have hv : v / 256 < 256 ^ w := by
      rw [Nat.pow_succ] at h
      exact Nat.div_lt_of_lt_mul (by rw [Nat.mul_comm]; exact h)
    have hb : (UInt8.ofNat (v % 256)).toNat = v % 256 := by
      rw [UInt8.toNat_ofNat']; omega
    change (UInt8.ofNat (v % 256)).toNat + 256 * leValue (leBytes w (v / 256)) = v
    rw [ih hv, hb]
    omega

/-- **Round trip** of an integer that fits, in either byte order. -/
theorem decodeUint_encodeUint (order : ByteOrder) {w v : Nat} (h : v < 256 ^ w) :
    decodeUint order (encodeUint order w v) = v := by
  cases order <;> simp [decodeUint, encodeUint, leValue_leBytes h]

theorem decodeUint_replicate_zero (order : ByteOrder) (w : Nat) :
    decodeUint order (List.replicate w 0) = 0 := by
  have h : leValue (List.replicate w 0) = 0 := by
    induction w with
    | zero => rfl
    | succ w ih => simpa [leValue, List.replicate_succ] using ih
  cases order <;> simp [decodeUint, h]

end Record
