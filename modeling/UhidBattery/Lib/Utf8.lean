import Mathlib.Data.List.Basic
import Mathlib.Data.UInt
import Mathlib.Tactic.Common

/-!
# UTF-8

`utf8 s` is the bytes of a string, `isCharBoundary s i` whether a character
starts (or the string ends) at byte `i`, `fromUtf8Lossy` the decoder that puts
U+FFFD for what is not UTF-8.

* `fromUtf8Lossy_utf8`: decoding the bytes of a string gives the string.
* `utf8_fromUtf8Lossy`: a result without U+FFFD came from its own bytes.
* `zero_mem_utf8_iff`: only the NUL character has a zero byte.
* `isCharBoundary_iff`: the boundaries are where the strings of whole characters end.
* `longestPrefix_of_boundary`: the last boundary within a room ends the longest
  string of whole characters that fits it; `LongestPrefix.spare_lt`: fewer than
  four bytes are left over.
* `exists_utf8_eq`: ASCII bytes are always the bytes of a string.
-/

namespace Utf8

/-! ## Encoding -/

def utf8 (s : String) : List UInt8 := s.toList.flatMap String.utf8EncodeChar

def isCharBoundary (s : String) (i : Nat) : Bool :=
  i == 0 ||
    match (utf8 s)[i]? with
    | none => i == (utf8 s).length
    | some b => b < 0x80 || 0xC0 ≤ b

@[simp] theorem utf8_ofList (l : List Char) :
    utf8 (String.ofList l) = l.flatMap String.utf8EncodeChar := by
  simp [utf8]

@[simp] theorem utf8_append (s t : String) : utf8 (s ++ t) = utf8 s ++ utf8 t := by
  simp [utf8]

theorem isCharBoundary_length (s : String) : isCharBoundary s (utf8 s).length = true := by
  simp [isCharBoundary]

theorem or_ne_zero (a : UInt8) {b : UInt8} (hb : b ≠ 0) : a ||| b ≠ 0 := by
  intro h
  have hn : a.toNat ||| b.toNat = 0 := by rw [← UInt8.toNat_or, h]; rfl
  have hle : b.toNat ≤ a.toNat ||| b.toNat := Nat.right_le_or
  exact hb (UInt8.toNat_inj.mp (by simp only [UInt8.toNat_zero]; omega))

/-- A character of one byte, and the byte. -/
theorem ascii_of_utf8Size {c : Char} (h : c.utf8Size = 1) :
    c.val.toNat ≤ 127 ∧ c.val.toUInt8.toNat = c.val.toNat := by
  have hc : c.val.toNat ≤ 127 := by
    simpa using UInt32.le_iff_toNat_le.mp (Char.utf8Size_eq_one_iff.mp h)
  refine ⟨hc, ?_⟩
  rw [UInt32.toNat_toUInt8]
  omega

/-- Only NUL is encoded with a zero byte. -/
theorem zero_mem_utf8EncodeChar_iff (c : Char) : 0 ∈ String.utf8EncodeChar c ↔ c = '\x00' := by
  constructor
  · intro h
    rcases c.utf8Size_eq with h1 | h1 | h1 | h1
    · rw [String.utf8EncodeChar_eq_singleton h1, List.mem_singleton] at h
      have h0 : c.val.toNat = 0 := by
        rw [← (ascii_of_utf8Size h1).2, ← h]
        rfl
      exact Char.ext (UInt32.toNat_inj.mp h0)
    · rw [String.utf8EncodeChar_eq_cons_cons h1] at h
      simp only [List.mem_cons, List.not_mem_nil, or_false] at h
      rcases h with h | h <;> exact absurd h.symm (or_ne_zero _ (by decide))
    · rw [String.utf8EncodeChar_eq_cons_cons_cons h1] at h
      simp only [List.mem_cons, List.not_mem_nil, or_false] at h
      rcases h with h | h | h <;> exact absurd h.symm (or_ne_zero _ (by decide))
    · rw [String.utf8EncodeChar_eq_cons_cons_cons_cons h1] at h
      simp only [List.mem_cons, List.not_mem_nil, or_false] at h
      rcases h with h | h | h | h <;> exact absurd h.symm (or_ne_zero _ (by decide))
  · rintro rfl
    decide

theorem zero_mem_utf8_iff (s : String) : 0 ∈ utf8 s ↔ '\x00' ∈ s.toList := by
  simp [utf8, zero_mem_utf8EncodeChar_iff]

/-- ASCII bytes are the bytes of a string. -/
theorem exists_utf8_eq {bytes : List UInt8} (h : ∀ b ∈ bytes, b < 0x80) :
    ∃ s : String, utf8 s = bytes := by
  refine ⟨String.ofList (bytes.map Char.ofUInt8), ?_⟩
  rw [utf8_ofList]
  induction bytes with
  | nil => rfl
  | cons b bytes ih =>
    obtain ⟨hb, hrest⟩ := List.forall_mem_cons.mp h
    have hval : (Char.ofUInt8 b).val = b.toUInt32 := rfl
    have hsize : (Char.ofUInt8 b).utf8Size = 1 := by
      have hlt := UInt8.lt_iff_toNat_lt.mp hb
      refine Char.utf8Size_eq_one_iff.mpr (UInt32.le_iff_toNat_le.mpr ?_)
      simp only [hval, UInt8.toNat_toUInt32, UInt8.toNat_ofNat, UInt32.toNat_ofNat] at hlt ⊢
      omega
    rw [List.map_cons, List.flatMap_cons, ih hrest, String.utf8EncodeChar_eq_singleton hsize, hval]
    simp

/-! ## Cutting between characters -/

/-- The bytes of a character after its first. -/
theorem continuation_range (x : UInt8) : 0x80 ≤ x &&& 63 ||| 128 ∧ x &&& 63 ||| 128 < 0xC0 := by
  have hlt : x.toNat &&& 63 < 2 ^ 6 := Nat.and_lt_two_pow x.toNat (by decide)
  have hsum : 2 ^ 7 * 1 + (x.toNat &&& 63) = 2 ^ 7 * 1 ||| (x.toNat &&& 63) :=
    Nat.two_pow_add_eq_or_of_lt (by omega) 1
  have hval : (x &&& 63 ||| 128).toNat = 128 + (x.toNat &&& 63) := by
    rw [UInt8.toNat_or, UInt8.toNat_and, Nat.or_comm]
    exact hsum.symm
  rw [UInt8.le_iff_toNat_le, UInt8.lt_iff_toNat_lt, hval]
  exact ⟨Nat.le_add_right 128 _, by change _ < 192; omega⟩

/-- No character starts inside another. -/
theorem continuation_of_inside {c : Char} {i : Nat} {b : UInt8} (hi : i ≠ 0)
    (hb : (String.utf8EncodeChar c)[i]? = some b) : 0x80 ≤ b ∧ b < 0xC0 := by
  obtain ⟨i, rfl⟩ := Nat.exists_eq_succ_of_ne_zero hi
  rcases c.utf8Size_eq with h | h | h | h
  · rw [String.utf8EncodeChar_eq_singleton h] at hb
    simp at hb
  · rw [String.utf8EncodeChar_eq_cons_cons h] at hb
    rcases i with _ | i <;> simp at hb
    exact hb ▸ continuation_range _
  · rw [String.utf8EncodeChar_eq_cons_cons_cons h] at hb
    rcases i with _ | _ | i <;> simp at hb
    · exact hb ▸ continuation_range _
    · exact hb ▸ continuation_range _
  · rw [String.utf8EncodeChar_eq_cons_cons_cons_cons h] at hb
    rcases i with _ | _ | _ | i <;> simp at hb
    · exact hb ▸ continuation_range _
    · exact hb ▸ continuation_range _
    · exact hb ▸ continuation_range _

/-- **Cut on a boundary**, the bytes are those of the characters before it. -/
theorem take_of_boundary {chars : List Char} {i : Nat}
    (h : i = 0 ∨ match (chars.flatMap String.utf8EncodeChar)[i]? with
      | none => i = (chars.flatMap String.utf8EncodeChar).length
      | some b => b < 0x80 ∨ 0xC0 ≤ b) :
    ∃ k, (chars.flatMap String.utf8EncodeChar).take i =
      (chars.take k).flatMap String.utf8EncodeChar := by
  induction chars generalizing i with
  | nil => exact ⟨0, by simp⟩
  | cons c chars ih =>
    by_cases hi : i = 0
    · exact ⟨0, by rw [hi]; rfl⟩
    · have hlen : (String.utf8EncodeChar c).length = c.utf8Size := String.length_utf8EncodeChar c
      have hb := h.resolve_left hi
      rw [List.flatMap_cons] at hb
      by_cases hin : i < c.utf8Size
      · have hbyte : (String.utf8EncodeChar c)[i]? = some (String.utf8EncodeChar c)[i] :=
          List.getElem?_eq_getElem (by omega)
        obtain ⟨hlo, hhi⟩ := continuation_of_inside hi hbyte
        rw [List.getElem?_append_left (by omega), hbyte] at hb
        rcases hb with hb | hb
        · exact absurd hlo (UInt8.not_le.mpr hb)
        · exact absurd hhi (UInt8.not_lt.mpr hb)
      · rw [List.getElem?_append_right (by omega), List.length_append, hlen] at hb
        obtain ⟨k, hk⟩ := ih (i := i - c.utf8Size) (by
          refine Or.inr ?_
          split
          · rename_i hnone
            rw [hnone] at hb
            simp only at hb
            omega
          · rename_i b hsome
            rw [hsome] at hb
            exact hb)
        refine ⟨k + 1, ?_⟩
        rw [List.flatMap_cons, List.take_append, List.take_of_length_le (by omega), hlen, hk,
          List.take_succ_cons, List.flatMap_cons]

theorem take_of_isCharBoundary {s : String} {i : Nat} (h : isCharBoundary s i = true) :
    ∃ k, (utf8 s).take i = (s.toList.take k).flatMap String.utf8EncodeChar := by
  apply take_of_boundary
  rw [isCharBoundary, Bool.or_eq_true, beq_iff_eq] at h
  refine h.imp_right fun h => ?_
  rw [utf8] at h
  split at h
  · simpa using h
  · simpa using h

/-- The first byte of a character of several. -/
theorem lead_le (x : UInt8) {y : UInt8} (hy : 0xC0 ≤ y) : 0xC0 ≤ x ||| y := by
  rw [UInt8.le_iff_toNat_le] at hy ⊢
  rw [UInt8.toNat_or]
  exact Nat.le_trans hy Nat.right_le_or

/-- A character does not open with a continuation. -/
theorem first_of_utf8EncodeChar {c : Char} {b : UInt8}
    (hb : (String.utf8EncodeChar c)[0]? = some b) : b < 0x80 ∨ 0xC0 ≤ b := by
  rcases c.utf8Size_eq with h | h | h | h
  · rw [String.utf8EncodeChar_eq_singleton h] at hb
    obtain ⟨hc, hbyte⟩ := ascii_of_utf8Size h
    rw [← Option.some.inj hb, UInt8.lt_iff_toNat_lt, hbyte]
    exact Or.inl (Nat.lt_succ_of_le hc)
  · rw [String.utf8EncodeChar_eq_cons_cons h] at hb
    exact Or.inr (Option.some.inj hb ▸ lead_le _ (by decide))
  · rw [String.utf8EncodeChar_eq_cons_cons_cons h] at hb
    exact Or.inr (Option.some.inj hb ▸ lead_le _ (by decide))
  · rw [String.utf8EncodeChar_eq_cons_cons_cons_cons h] at hb
    exact Or.inr (Option.some.inj hb ▸ lead_le _ (by decide))

theorem le_length_of_isCharBoundary {s : String} {i : Nat} (h : isCharBoundary s i = true) :
    i ≤ (utf8 s).length := by
  rw [isCharBoundary, Bool.or_eq_true, beq_iff_eq] at h
  rcases h with rfl | h
  · exact Nat.zero_le _
  · cases hb : (utf8 s)[i]? with
    | none =>
      rw [hb] at h
      exact Nat.le_of_eq (beq_iff_eq.mp h)
    | some b => exact Nat.le_of_lt (List.getElem?_eq_some_iff.mp hb).1

theorem utf8_of_toList_append {s t : String} {rest : List Char} (h : t.toList ++ rest = s.toList) :
    utf8 s = utf8 t ++ rest.flatMap String.utf8EncodeChar := by
  rw [utf8, ← h, List.flatMap_append, utf8]

/-- **The boundaries** the bytes show are the lengths of the strings of whole
characters that `s` starts with. -/
theorem isCharBoundary_iff {s : String} {i : Nat} :
    isCharBoundary s i = true ↔ ∃ t : String, t.toList <+: s.toList ∧ (utf8 t).length = i := by
  constructor
  · intro h
    obtain ⟨k, hk⟩ := take_of_isCharBoundary h
    have hle := le_length_of_isCharBoundary h
    refine ⟨String.ofList (s.toList.take k), ?_, ?_⟩
    · rw [String.toList_ofList]
      exact List.take_prefix k s.toList
    · rw [utf8_ofList, ← hk, List.length_take]
      omega
  · rintro ⟨t, ⟨rest, hrest⟩, rfl⟩
    have hs := utf8_of_toList_append hrest
    cases rest with
    | nil =>
      rw [List.flatMap_nil, List.append_nil] at hs
      rw [← hs]
      exact isCharBoundary_length s
    | cons c rest =>
      have hlen : (String.utf8EncodeChar c).length = c.utf8Size := String.length_utf8EncodeChar c
      have hpos := c.utf8Size_pos
      have hfirst : (String.utf8EncodeChar c)[0]? = some (String.utf8EncodeChar c)[0] :=
        List.getElem?_eq_getElem (by omega)
      have hbyte : (utf8 s)[(utf8 t).length]? = some (String.utf8EncodeChar c)[0] := by
        rw [hs, List.getElem?_append_right (Nat.le_refl _), Nat.sub_self, List.flatMap_cons,
          List.getElem?_append_left (by omega), hfirst]
      rw [isCharBoundary, hbyte]
      simpa using Or.inr (first_of_utf8EncodeChar hfirst)

/-! ## The longest prefix that fits -/

/-- `kept` is the longest string of whole characters that `value` starts with
and that `room` bytes hold. -/
structure LongestPrefix (value : String) (room : Nat) (kept : String) : Prop where
  starts : kept.toList <+: value.toList
  fits : (utf8 kept).length ≤ room
  longest (t : String) : t.toList <+: value.toList → (utf8 t).length ≤ room →
    t.toList <+: kept.toList

theorem eq_of_prefix_of_length_le {s t : String} (h : t.toList <+: s.toList)
    (hle : (utf8 s).length ≤ (utf8 t).length) : t = s := by
  obtain ⟨rest, hrest⟩ := h
  cases rest with
  | nil => exact String.toList_inj.mp (by rw [← hrest, List.append_nil])
  | cons c rest =>
    have hpos := c.utf8Size_pos
    rw [utf8_of_toList_append hrest, List.flatMap_cons, List.length_append, List.length_append,
      String.length_utf8EncodeChar] at hle
    omega

namespace LongestPrefix

variable {value kept : String} {room : Nat}

/-- The next character did not fit, and has four bytes at most. -/
theorem spare_lt (h : LongestPrefix value room kept) (hv : room < (utf8 value).length) :
    room - (utf8 kept).length < 4 := by
  have hfits := h.fits
  obtain ⟨rest, hrest⟩ := h.starts
  cases rest with
  | nil =>
    rw [List.append_nil] at hrest
    rw [String.toList_inj.mp hrest] at hfits
    omega
  | cons c rest =>
    have hsize := c.utf8Size_le_four
    have hlen : (utf8 (String.ofList (kept.toList ++ [c]))).length =
        (utf8 kept).length + c.utf8Size := by
      rw [utf8_ofList, List.flatMap_append, List.length_append, utf8]
      simp
    have hnot : room < (utf8 (String.ofList (kept.toList ++ [c]))).length := by
      by_contra hle
      have hpre := h.longest (String.ofList (kept.toList ++ [c]))
        ⟨rest, by rw [String.toList_ofList, List.append_assoc, List.singleton_append, hrest]⟩
        (Nat.not_lt.mp hle)
      have hlong := hpre.length_le
      rw [String.toList_ofList, List.length_append, List.length_singleton] at hlong
      omega
    omega

end LongestPrefix

/-- A boundary that no other within the room passes is where the longest prefix ends. -/
theorem longestPrefix_of_boundary {value : String} {room i : Nat}
    (hb : isCharBoundary value i = true) (hi : i ≤ room)
    (hmax : ∀ j ≤ room, isCharBoundary value j = true → j ≤ i) :
    ∃ kept, LongestPrefix value room kept ∧ utf8 kept = (utf8 value).take i := by
  obtain ⟨kept, hkept, hlen⟩ := isCharBoundary_iff.mp hb
  obtain ⟨rest, hrest⟩ := hkept
  have hbytes : utf8 kept = (utf8 value).take i := by
    rw [utf8_of_toList_append hrest, List.take_append_of_le_length (by omega),
      List.take_of_length_le (by omega)]
  refine ⟨kept, ⟨⟨rest, hrest⟩, by omega, fun t ht hfit => ?_⟩, hbytes⟩
  have hle := hmax _ hfit (isCharBoundary_iff.mpr ⟨t, ht, rfl⟩)
  rcases List.prefix_or_prefix_of_prefix ht ⟨rest, hrest⟩ with hpre | hpre
  · exact hpre
  · rw [eq_of_prefix_of_length_le hpre (by omega)]

/-- The bytes up to the first zero are those of the characters up to the first NUL. -/
theorem takeWhile_flatMap (chars : List Char) :
    (chars.flatMap String.utf8EncodeChar).takeWhile (· ≠ 0) =
      (chars.takeWhile (· ≠ '\x00')).flatMap String.utf8EncodeChar := by
  induction chars with
  | nil => rfl
  | cons c chars ih =>
    by_cases hc : c = '\x00'
    · subst hc
      rfl
    · have hne : ∀ b ∈ String.utf8EncodeChar c, decide (b ≠ 0) = true := by
        intro b hb
        refine decide_eq_true ?_
        rintro rfl
        exact hc ((zero_mem_utf8EncodeChar_iff c).mp hb)
      rw [List.flatMap_cons, List.takeWhile_append_of_pos hne, ih,
        List.takeWhile_cons_of_pos (by simpa using hc), List.flatMap_cons]

/-! ## Lossy decoding -/

/-- The character whose encoding `bytes` starts with, if it starts with one. -/
def decodeChar? (bytes : List UInt8) : Option Char := bytes.toByteArray.utf8DecodeChar? 0

/-- Length of the sequence the byte opens, 0 where it opens none. -/
def utf8CharWidth (b : UInt8) : Nat :=
  if b < 0x80 then 1
  else if 0xC2 ≤ b ∧ b ≤ 0xDF then 2
  else if 0xE0 ≤ b ∧ b ≤ 0xEF then 3
  else if 0xF0 ≤ b ∧ b ≤ 0xF4 then 4
  else 0

def isContinuation (x : UInt8) : Bool := 0x80 ≤ x && x ≤ 0xBF

/-- Second bytes that may follow `b` in a sequence of three or four. -/
def isSecond (b x : UInt8) : Bool :=
  if b = 0xE0 then 0xA0 ≤ x && x ≤ 0xBF
  else if b = 0xED then 0x80 ≤ x && x ≤ 0x9F
  else if b = 0xF0 then 0x90 ≤ x && x ≤ 0xBF
  else if b = 0xF4 then 0x80 ≤ x && x ≤ 0x8F
  else isContinuation x

/-- How many bytes one U+FFFD stands for: the longest start of some sequence,
one byte where there is none. -/
def invalidLen : List UInt8 → Nat
  | b :: x :: y :: _ =>
    if 3 ≤ utf8CharWidth b ∧ isSecond b x then
      if utf8CharWidth b = 4 ∧ isContinuation y then 3 else 2
    else 1
  | [b, x] => if 3 ≤ utf8CharWidth b ∧ isSecond b x then 2 else 1
  | _ => 1

theorem invalidLen_pos (bytes : List UInt8) : 0 < invalidLen bytes := by
  unfold invalidLen
  split <;> (repeat' split) <;> omega

/-- `String::from_utf8_lossy`, as characters. -/
def lossyChars : List UInt8 → List Char
  | [] => []
  | b :: rest =>
    match decodeChar? (b :: rest) with
    | some c => c :: lossyChars ((b :: rest).drop c.utf8Size)
    | none => '\uFFFD' :: lossyChars ((b :: rest).drop (invalidLen (b :: rest)))
termination_by bytes => bytes.length
decreasing_by
  · have := c.utf8Size_pos
    simp only [List.length_drop, List.length_cons]
    omega
  · have := invalidLen_pos (b :: rest)
    simp only [List.length_drop, List.length_cons]
    omega

def fromUtf8Lossy (bytes : List UInt8) : String := String.ofList (lossyChars bytes)

theorem decodeChar?_utf8EncodeChar_append (c : Char) (rest : List UInt8) :
    decodeChar? (String.utf8EncodeChar c ++ rest) = some c := by
  rw [decodeChar?, List.toByteArray_append]
  exact ByteArray.utf8DecodeChar?_utf8EncodeChar_append

/-- A decoded character is what the bytes start with. -/
theorem eq_of_decodeChar?_eq_some {bytes : List UInt8} {c : Char}
    (h : decodeChar? bytes = some c) :
    bytes = String.utf8EncodeChar c ++ bytes.drop c.utf8Size := by
  obtain ⟨tail, ht⟩ := ByteArray.exists_of_utf8DecodeChar?_eq_some h
  have hb : bytes = String.utf8EncodeChar c ++ tail.data.toList := by
    have h' := congrArg (fun b => b.data.toList) ht
    simpa using h'
  rw [hb]
  congr 1
  rw [List.drop_append_of_le_length (by simp), List.drop_of_length_le (by simp), List.nil_append]

theorem lossyChars_append (c : Char) (rest : List UInt8) :
    lossyChars (String.utf8EncodeChar c ++ rest) = c :: lossyChars rest := by
  have hd := decodeChar?_utf8EncodeChar_append c rest
  cases hb : String.utf8EncodeChar c ++ rest with
  | nil =>
    have := congrArg List.length hb
    have := c.utf8Size_pos
    simp only [List.length_append, String.length_utf8EncodeChar, List.length_nil] at *
    omega
  | cons b tail =>
    rw [hb] at hd
    rw [lossyChars, hd]
    simp only
    rw [← hb, List.drop_append_of_le_length (by simp), List.drop_of_length_le (by simp),
      List.nil_append]

theorem lossyChars_flatMap (l : List Char) :
    lossyChars (l.flatMap String.utf8EncodeChar) = l := by
  induction l with
  | nil => simp [lossyChars]
  | cons c l ih => rw [List.flatMap_cons, lossyChars_append, ih]

/-- **Round trip** of a string through its bytes. -/
theorem fromUtf8Lossy_utf8 (s : String) : fromUtf8Lossy (utf8 s) = s := by
  rw [fromUtf8Lossy, utf8, lossyChars_flatMap, String.ofList_toList]

theorem flatMap_lossyChars {bytes : List UInt8} (h : '\uFFFD' ∉ lossyChars bytes) :
    (lossyChars bytes).flatMap String.utf8EncodeChar = bytes := by
  induction bytes using lossyChars.induct with
  | case1 => simp [lossyChars]
  | case2 b rest c hc ih =>
    rw [lossyChars, hc] at h ⊢
    simp only [List.mem_cons, not_or] at h
    rw [List.flatMap_cons, ih h.2]
    exact (eq_of_decodeChar?_eq_some hc).symm
  | case3 b rest hn ih =>
    rw [lossyChars, hn] at h
    simp at h

/-- A decoded string without U+FFFD came from its own bytes. -/
theorem utf8_fromUtf8Lossy {bytes : List UInt8} (h : '\uFFFD' ∉ (fromUtf8Lossy bytes).toList) :
    utf8 (fromUtf8Lossy bytes) = bytes := by
  rw [fromUtf8Lossy, String.toList_ofList] at h
  rw [fromUtf8Lossy, utf8_ofList, flatMap_lossyChars h]

theorem utf8_injective {s t : String} (h : utf8 s = utf8 t) : s = t := by
  rw [← fromUtf8Lossy_utf8 s, h, fromUtf8Lossy_utf8]

end Utf8
