import UhidBattery.Codec

/-!
# What `put_str` keeps of a string

The search for a boundary goes down from the last byte that fits, looking at
one byte at a time.

* `stored_longestPrefix`: what it finds is the longest string of whole
  characters that leaves room for the NUL.
* `putStr_keeps_longest_prefix`: the field holds that string, then zeros.
* `create2_reads_longest`: the strings the kernel reads of a `CREATE2`.
-/

namespace UhidBattery

open Program (Outcome)
open Record (ByteOrder overwrite)
open Utf8 (utf8 isCharBoundary fromUtf8Lossy LongestPrefix)

/-! ## The search -/

theorem isCharBoundary_boundaryBefore (value : String) (stop : Nat) :
    isCharBoundary value (boundaryBefore value stop) = true := by
  induction stop with
  | zero => rfl
  | succ stop ih =>
    rw [boundaryBefore]
    split
    · assumption
    · exact ih

/-- The search passes no boundary by. -/
theorem le_boundaryBefore {value : String} {stop i : Nat} (hi : i ≤ stop)
    (hb : isCharBoundary value i = true) : i ≤ boundaryBefore value stop := by
  induction stop with
  | zero => exact hi
  | succ stop ih =>
    rw [boundaryBefore]
    split
    · exact hi
    · rename_i hnot
      have hne : i ≠ stop + 1 := by
        rintro rfl
        exact hnot hb
      exact ih (by omega)

/-- **What is stored** of a string is the longest prefix of whole characters
that leaves room for the NUL. -/
theorem stored_longestPrefix (value : String) (len : Nat) :
    ∃ kept, LongestPrefix value (len - 1) kept ∧ stored value len = utf8 kept := by
  have hle := boundaryBefore_le value (min (utf8 value).length (len - 1))
  have hmax : ∀ j ≤ len - 1, isCharBoundary value j = true →
      j ≤ boundaryBefore value (min (utf8 value).length (len - 1)) := by
    intro j hj hb
    exact le_boundaryBefore (Nat.le_min.mpr ⟨Utf8.le_length_of_isCharBoundary hb, hj⟩) hb
  obtain ⟨kept, hkept, hbytes⟩ := Utf8.longestPrefix_of_boundary
    (isCharBoundary_boundaryBefore value _) (by omega) hmax
  exact ⟨kept, hkept, hbytes.symm⟩

/-! ## The field -/

theorem overwrite_replicate (n : Nat) (data : List UInt8) :
    overwrite (List.replicate n 0) 0 data = data ++ List.replicate (n - data.length) 0 := by
  simp [overwrite]

/-- **The longest prefix is kept.** `put_str` fills a zeroed field of any size
with the longest string of whole characters that leaves room for the NUL and
zeros after it; of a string that does not fit, fewer than four bytes of the
room are given up. -/
theorem putStr_keeps_longest_prefix {n : Nat} (hn : 0 < n) (value : String) :
    ∃ field kept, putStr (zeroed n) value = .ok field ∧ LongestPrefix value (n - 1) kept ∧
      field.toList = utf8 kept ++ List.replicate (n - (utf8 kept).length) 0 ∧
      (utf8 kept).length < n ∧ (utf8 kept).toByteArray.IsValidUTF8 ∧
      (n - 1 < (utf8 value).length → n - 1 - (utf8 kept).length < 4) := by
  obtain ⟨kept, hkept, hbytes⟩ := stored_longestPrefix value n
  obtain ⟨field, hput, hfield⟩ := putStr_stored (zeroed n) value hn
  have hfits := hkept.fits
  refine ⟨field, kept, hput, hkept, ?_, by omega, ?_, hkept.spare_lt⟩
  · rw [hfield, hbytes]
    exact overwrite_replicate n (utf8 kept)
  · exact ⟨kept.toList, rfl⟩

/-- A field smaller than the character at the cut. -/
theorem putStr_keeps_longest_prefix_split :
    ∃ field kept, putStr (zeroed 3) "a€" = .ok field ∧ LongestPrefix "a€" 2 kept ∧
      field.toList = utf8 kept ++ List.replicate (3 - (utf8 kept).length) 0 ∧
      (utf8 kept).length < 3 ∧ (utf8 kept).toByteArray.IsValidUTF8 ∧
      (2 < (utf8 "a€").length → 2 - (utf8 kept).length < 4) :=
  putStr_keeps_longest_prefix (by decide) "a€"

example : (putStr (zeroed 8) "ééééééééé").bind (fun field => .ok field.toList) =
    .ok [0xC3, 0xA9, 0xC3, 0xA9, 0xC3, 0xA9, 0, 0] := by decide

/-! ## In a `CREATE2` -/

/-- The characters before the first NUL. -/
def upToNul (s : String) : String := String.ofList (s.toList.takeWhile (· ≠ '\x00'))

theorem read_longestPrefix (value : String) (len : Nat) :
    ∃ kept, LongestPrefix value (len - 1) kept ∧
      fromUtf8Lossy ((stored value len).takeWhile (· ≠ 0)) = upToNul kept := by
  obtain ⟨kept, hkept, hbytes⟩ := stored_longestPrefix value len
  refine ⟨kept, hkept, ?_⟩
  rw [hbytes, utf8, Utf8.takeWhile_flatMap, ← Utf8.utf8_ofList, Utf8.fromUtf8Lossy_utf8]
  rfl

/-- **Whatever the strings**, the kernel reads of each the longest prefix its
field has room for, up to the first NUL, and all the rest as it was given. -/
theorem create2_reads_longest (order : ByteOrder) (name phys uniq : String)
    (vendor product : UInt32) {descriptor : List UInt8} (h : descriptor.length ≤ rdDataMax) :
    ∃ buf name' phys' uniq',
      create2 order name phys uniq vendor product descriptor = .ok buf ∧
      LongestPrefix name (lenName - 1) name' ∧ LongestPrefix phys (lenPhys - 1) phys' ∧
      LongestPrefix uniq (lenUniq - 1) uniq' ∧
      Fake.decodeSent order buf = .ok (.create2 (upToNul name') (upToNul phys') (upToNul uniq')
        busVirtual vendor product descriptor) := by
  obtain ⟨buf, hbuf, hlays⟩ := create2_lays order name phys uniq vendor product h
  obtain ⟨name', hname, ename⟩ := read_longestPrefix name lenName
  obtain ⟨phys', hphys, ephys⟩ := read_longestPrefix phys lenPhys
  obtain ⟨uniq', huniq, euniq⟩ := read_longestPrefix uniq lenUniq
  refine ⟨buf, name', phys', uniq', hbuf, hname, hphys, huniq, ?_⟩
  rw [decodeSent_eq, sentOf_create2 _ _ _ _ _ _ h hlays, ename, ephys, euniq]

end UhidBattery
