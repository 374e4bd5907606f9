import UhidBattery.Truncated
import UhidBattery.Identity
import Mathlib.Data.List.TakeWhile

/-!
# Identities the kernel takes unaltered

`Identity::validate` has limits of its own; `create2` cuts what does not fit and
the kernel stops at the first NUL.

* `read_stored_iff`: what comes back of a string is the string, exactly when it
  leaves room for the NUL and holds none.
* `validate_iff_unaltered`: the identities that pass are those that come back.
-/

namespace UhidBattery

open Program (Outcome)
open Record (ByteOrder)
open Utf8 (utf8 fromUtf8Lossy)

/-! ## One string -/

/-- **A string comes back as it was given** exactly when it leaves room for the
NUL and holds none. -/
theorem read_stored_iff (value : String) {len : Nat} (h : 0 < len) :
    fromUtf8Lossy ((stored value len).takeWhile (· ≠ 0)) = value ↔
      (utf8 value).length < len ∧ '\x00' ∉ value.toList := by
  constructor
  · intro hread
    obtain ⟨kept, hkept, hchars⟩ := read_longestPrefix value len
    rw [hread, upToNul] at hchars
    have hlist : value.toList = kept.toList.takeWhile (· ≠ '\x00') := by
      have hl := congrArg String.toList hchars
      rwa [String.toList_ofList] at hl
    have hpre := List.takeWhile_prefix (· ≠ '\x00') (l := kept.toList)
    rw [← hlist] at hpre
    have hwhole : kept = value :=
      String.toList_inj.mp (hkept.starts.eq_of_length_le hpre.length_le)
    have hfits := hkept.fits
    rw [hwhole] at hfits hlist
    constructor
    · omega
    · intro hm
      rw [hlist] at hm
      exact absurd (List.mem_takeWhile_imp hm) (by simp)
  · rintro ⟨hlen, hnul⟩
    exact fromUtf8Lossy_stored hlen hnul

/-! ## The characters of `uniq` -/

/-- A character of `[A-Za-z0-9._-]`. -/
def PlainChar (c : Char) : Prop := c.isAlphanum = true ∨ c = '.' ∨ c = '_' ∨ c = '-'

/-- The codes of the plain characters, which are also their bytes. -/
def PlainCode (n : Nat) : Prop :=
  (48 ≤ n ∧ n ≤ 57) ∨ (65 ≤ n ∧ n ≤ 90) ∨ (97 ≤ n ∧ n ≤ 122) ∨ n = 46 ∨ n = 95 ∨ n = 45

theorem plain_iff (b : UInt8) : plain b = true ↔ PlainCode b.toNat := by
  simp only [plain, isAsciiAlphanumeric, isAsciiDigit, PlainCode, Bool.or_eq_true,
    Bool.and_eq_true, decide_eq_true_eq, UInt8.le_iff_toNat_le, beq_iff_eq, ← UInt8.toNat_inj,
    UInt8.reduceToNat]
  omega

theorem isAlphanum_iff (c : Char) : c.isAlphanum = true ↔
    (48 ≤ c.val.toNat ∧ c.val.toNat ≤ 57) ∨ (65 ≤ c.val.toNat ∧ c.val.toNat ≤ 90) ∨
      (97 ≤ c.val.toNat ∧ c.val.toNat ≤ 122) := by
  have h : c.isAlphanum = ((decide (c.val ≥ 65 ∧ c.val ≤ 90) ||
      (decide (c.val ≥ 97) && decide (c.val ≤ 122))) ||
      (decide (c.val ≥ 48) && decide (c.val ≤ 57))) := rfl
  rw [h]
  simp only [Bool.or_eq_true, Bool.and_eq_true, decide_eq_true_eq, UInt32.le_iff_toNat_le,
    ge_iff_le, UInt32.reduceToNat]
  omega

theorem plainChar_iff (c : Char) : PlainChar c ↔ PlainCode c.val.toNat := by
  simp only [PlainChar, PlainCode, isAlphanum_iff, Char.ext_iff, ← UInt32.toNat_inj]
  simp
  omega

/-- The last byte of a longer character is no plain one. -/
theorem not_plain_continuation (x : UInt8) : ¬ plain (x &&& 63 ||| 128) = true := by
  have hle := UInt8.le_iff_toNat_le.mp (Utf8.continuation_range x).1
  rw [plain_iff, PlainCode]
  simp only [UInt8.reduceToNat] at hle
  omega

theorem plain_utf8EncodeChar_iff (c : Char) :
    (∀ b ∈ String.utf8EncodeChar c, plain b = true) ↔ PlainChar c := by
  by_cases h1 : c.utf8Size = 1
  · rw [String.utf8EncodeChar_eq_singleton h1, List.forall_mem_singleton, plain_iff,
      (Utf8.ascii_of_utf8Size h1).2, plainChar_iff]
  · have hlast : c.val.toUInt8 &&& 63 ||| 128 ∈ String.utf8EncodeChar c := by
      rcases c.utf8Size_eq with h | h | h | h
      · exact absurd h h1
      · simp [String.utf8EncodeChar_eq_cons_cons h]
      · simp [String.utf8EncodeChar_eq_cons_cons_cons h]
      · simp [String.utf8EncodeChar_eq_cons_cons_cons_cons h]
    refine iff_of_false (fun hall => not_plain_continuation _ (hall _ hlast)) ?_
    intro hp
    rw [plainChar_iff, PlainCode] at hp
    apply h1
    rw [Char.utf8Size_eq_one_iff, UInt32.le_iff_toNat_le]
    change c.val.toNat ≤ 127
    omega

theorem plain_utf8_iff (value : String) :
    (∀ b ∈ utf8 value, plain b = true) ↔ ∀ c ∈ value.toList, PlainChar c := by
  rw [utf8]
  constructor
  · intro h c hc
    refine (plain_utf8EncodeChar_iff c).mp fun b hb => h b (List.mem_flatMap.mpr ⟨c, hc, hb⟩)
  · intro h b hb
    obtain ⟨c, hc, hb⟩ := List.mem_flatMap.mp hb
    exact (plain_utf8EncodeChar_iff c).mpr (h c hc) b hb

/-! ## Identities -/

/-- What the kernel reads of the `CREATE2` for an identity. -/
theorem create2_identity (order : ByteOrder) (self : Identity) (kind : Kind) :
    ∃ buf, create2 order self.name self.phys self.uniq self.vendor.toUInt32
        self.product.toUInt32 kind.descriptor = .ok buf ∧
      Fake.decodeSent order buf = .ok (.create2
        (fromUtf8Lossy ((stored self.name lenName).takeWhile (· ≠ 0)))
        (fromUtf8Lossy ((stored self.phys lenPhys).takeWhile (· ≠ 0)))
        (fromUtf8Lossy ((stored self.uniq lenUniq).takeWhile (· ≠ 0))) busVirtual
        self.vendor.toUInt32 self.product.toUInt32 kind.descriptor) := by
  have hd : kind.descriptor.length ≤ rdDataMax := kind.length_descriptor_le.trans (by decide)
  obtain ⟨buf, hbuf, hlays⟩ := create2_lays order self.name self.phys self.uniq
    self.vendor.toUInt32 self.product.toUInt32 hd
  exact ⟨buf, hbuf, by rw [decodeSent_eq, sentOf_create2 _ _ _ _ _ _ hd hlays]⟩

/-- **An identity passes** exactly when its name and `uniq` are not empty, `uniq`
is plain, and the kernel reads all three strings back as they were given. -/
theorem validate_iff_unaltered (order : ByteOrder) (self : Identity) (kind : Kind) :
    self.validate = .ok () ↔
      self.name ≠ "" ∧ self.uniq ≠ "" ∧ (∀ c ∈ self.uniq.toList, PlainChar c) ∧
      ∃ buf bus vendor product descriptor,
        create2 order self.name self.phys self.uniq self.vendor.toUInt32 self.product.toUInt32
          kind.descriptor = .ok buf ∧
        Fake.decodeSent order buf =
          .ok (.create2 self.name self.phys self.uniq bus vendor product descriptor) := by
  obtain ⟨buf, hbuf, hread⟩ := create2_identity order self kind
  rw [Identity.validate_eq_ok_iff, ← plain_utf8_iff]
  constructor
  · intro hv
    rw [(read_stored_iff _ (by decide)).mpr ⟨hv.name_fits, hv.name_nul⟩,
      (read_stored_iff _ (by decide)).mpr ⟨hv.phys_fits, hv.phys_nul⟩,
      (read_stored_iff _ (by decide)).mpr ⟨hv.uniq_fits, hv.uniq_nul⟩] at hread
    exact ⟨hv.name_ne, hv.uniq_ne, hv.uniq_plain, buf, _, _, _, _, hbuf, hread⟩
  · rintro ⟨hname, huniq, hplain, buf', bus, vendor, product, descriptor, hbuf', hread'⟩
    rw [hbuf, Outcome.ok.injEq] at hbuf'
    rw [← hbuf', hread, Outcome.ok.injEq, Fake.Sent.create2.injEq] at hread'
    obtain ⟨hn, hp, hu, -⟩ := hread'
    obtain ⟨hnlen, hnnul⟩ := (read_stored_iff _ (by decide)).mp hn
    obtain ⟨hplen, hpnul⟩ := (read_stored_iff _ (by decide)).mp hp
    obtain ⟨hulen, hunul⟩ := (read_stored_iff _ (by decide)).mp hu
    exact ⟨hname, hnlen, hnnul, hplen, hpnul, huniq, hulen, hunul, hplain⟩

end UhidBattery
