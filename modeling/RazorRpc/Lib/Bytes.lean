import Mathlib.Data.List.Basic
import Mathlib.Tactic.Ring

/-!
# Byte strings: fixed-width integers and a reused buffer

What every framed binary protocol is built from:

* `le w n` / `fromLe` — a natural as exactly `w` bytes, least significant
  first, and back. `fromLe_le` is the round trip, exact below `256 ^ w`.
* `toUInt32_le_iff` — a signed number that is compared as an unsigned one.
* `ofStr` / `toStr?` — text as its UTF-8 bytes, and back.
* `HeadedBuf n` — a growable byte vector that is *reused* between messages and
  keeps room for an `n`-byte header at its front. Its allocation (`mem`) may
  hold anything left over from earlier messages; only the first `len` bytes
  count. The body is appended first and the header written over the front
  afterwards, which is where leftovers could leak into a message:
  `bytes_writeHead` says when they do not.
-/

namespace Bytes

/-! ## Little-endian integers -/

/-- The `w` least significant bytes of `n`, least significant first. -/
def le : ℕ → ℕ → List UInt8
  | 0, _ => []
  | w + 1, n => UInt8.ofNat n :: le w (n / 256)

/-- The natural whose little-endian bytes are given. -/
def fromLe : List UInt8 → ℕ
  | [] => 0
  | b :: bs => b.toNat + 256 * fromLe bs

@[simp] theorem length_le (w n : ℕ) : (le w n).length = w := by
  induction w generalizing n with
  | zero => rfl
  | succ w ih => rw [le, List.length_cons, ih]

theorem fromLe_le_mod (w n : ℕ) : fromLe (le w n) = n % 256 ^ w := by
  induction w generalizing n with
  | zero => simp [le, fromLe, Nat.mod_one]
  | succ w ih =>
    have hlow : (UInt8.ofNat n).toNat = n % 256 := by simp
    rw [le, fromLe, ih, hlow, pow_succ', Nat.mod_mul]

/-- A number that fits the width reads back. -/
theorem fromLe_le {w n : ℕ} (h : n < 256 ^ w) : fromLe (le w n) = n := by
  rw [fromLe_le_mod, Nat.mod_eq_of_lt h]

/-- Bytes are the number they make. -/
theorem le_fromLe {w : ℕ} {bs : List UInt8} (h : bs.length = w) : le w (fromLe bs) = bs := by
  induction bs generalizing w with
  | nil =>
    cases h
    rfl
  | cons b bs ih =>
    obtain rfl : bs.length + 1 = w := h
    have hlt := b.toNat_lt
    have hlow : UInt8.ofNat (b.toNat + 256 * fromLe bs) = b := by
      apply UInt8.toNat_inj.mp
      rw [UInt8.toNat_ofNat']
      omega
    have hhigh : (b.toNat + 256 * fromLe bs) / 256 = fromLe bs := by omega
    rw [fromLe, le, hlow, hhigh, ih rfl]

theorem fromLe_lt (bs : List UInt8) : fromLe bs < 256 ^ bs.length := by
  induction bs with
  | nil => exact Nat.one_pos
  | cons b bs ih =>
    have hlt := b.toNat_lt
    rw [fromLe, List.length_cons, pow_succ]
    omega

/-! ## Signed numbers -/

/-- Casting to `u32` keeps a number below `2 ^ 31` exactly if it is not negative. -/
theorem toNat_toUInt32_lt_iff (n : Int32) : n.toUInt32.toNat < 2 ^ 31 ↔ 0 ≤ n := by
  have hlt := n.toBitVec.isLt
  rw [Int32.le_iff_toInt_le, ← Int32.toNat_toBitVec]
  change _ ↔ 0 ≤ n.toBitVec.toInt
  rw [BitVec.toInt_eq_toNat_cond]
  split <;> omega

/-- Compared as `u32`, a negative number is above every bound that is not. -/
theorem toUInt32_le_iff {n m : Int32} (hm : 0 ≤ m) (hle : n ≤ m) :
    n.toUInt32 ≤ m.toUInt32 ↔ 0 ≤ n := by
  rw [UInt32.le_iff_toNat_le]
  constructor
  · intro h
    exact (toNat_toUInt32_lt_iff n).mp (Nat.lt_of_le_of_lt h ((toNat_toUInt32_lt_iff m).mpr hm))
  · intro hn
    rw [Int32.toNat_toUInt32_of_le hn, Int32.toNat_toUInt32_of_le hm]
    exact Int.toNat_le_toNat (Int32.le_iff_toInt_le.mp hle)

/-! ## Reading a field out of a byte string -/

/-- The `n` bytes at offset `off`. -/
def slice (bs : List UInt8) (off n : ℕ) : List UInt8 := (bs.drop off).take n

/-- Dropping past a field leaves nothing of it. -/
@[simp] theorem drop_le {w k : ℕ} (n : ℕ) (h : w ≤ k) : (le w n).drop k = [] :=
  List.drop_eq_nil_of_le (by rw [length_le]; exact h)

/-- Taking past a field's end takes the field. -/
@[simp] theorem take_le {w k : ℕ} (n : ℕ) (h : w ≤ k) : (le w n).take k = le w n :=
  List.take_of_length_le (by rw [length_le]; exact h)

/-! ## Text as bytes -/

/-- The UTF-8 bytes of a string. -/
def ofStr (s : String) : List UInt8 := s.toByteArray.data.toList

/-- The string with the given UTF-8 bytes, if they are valid. -/
def toStr? (bs : List UInt8) : Option String := String.fromUTF8? ⟨bs.toArray⟩

@[simp] theorem toStr?_ofStr (s : String) : toStr? (ofStr s) = some s := by
  have hbytes : (⟨s.toByteArray.data.toList.toArray⟩ : ByteArray) = s.toByteArray := by
    rw [Array.toArray_toList]
  rw [toStr?, ofStr, hbytes, String.fromUTF8?, dif_pos s.isValidUTF8]
  rfl

/-- Only the bytes of a string make the string. -/
theorem ofStr_eq_of_toStr? {bs : List UInt8} {s : String} (h : toStr? bs = some s) : ofStr s = bs := by
  rw [toStr?, String.fromUTF8?] at h
  split at h
  · rw [← Option.some.inj h]
    rfl
  · cases h

/-! ## A reused buffer with room for a header -/

/-- A byte vector with its allocation. The bytes of `mem` from `len` on are
whatever an earlier use left there. `cap` says that the allocation holds a
header of `n` bytes, so that setting the length to `n` is allowed. -/
structure HeadedBuf (n : ℕ) where
  /-- the allocated memory -/
  mem : List UInt8
  /-- how much of it is in use -/
  len : ℕ
  len_le : len ≤ mem.length
  cap : n ≤ mem.length

namespace HeadedBuf

variable {n : ℕ}

/-- The bytes in use. -/
def bytes (b : HeadedBuf n) : List UInt8 := b.mem.take b.len

/-- A fresh buffer of capacity `n + spare`, nothing in use. -/
def withCapacity (n spare : ℕ) : HeadedBuf n where
  mem := List.replicate (n + spare) 0
  len := 0
  len_le := Nat.zero_le _
  cap := by simp

/-- `set_len` to the header's length: the room keeps its old content. -/
def reset (b : HeadedBuf n) : HeadedBuf n := { b with len := n, len_le := b.cap }

/-- Append `bs` after the bytes in use. -/
def writeAll (b : HeadedBuf n) (bs : List UInt8) : HeadedBuf n where
  mem := b.mem.take b.len ++ (bs ++ b.mem.drop (b.len + bs.length))
  len := b.len + bs.length
  len_le := by
    have := b.len_le
    simp only [List.length_append, List.length_take, List.length_drop]
    omega
  cap := by
    have := b.len_le
    have := b.cap
    simp only [List.length_append, List.length_take, List.length_drop]
    omega

/-- Write a header over the front of the buffer. -/
def writeHead (b : HeadedBuf n) (head : List UInt8) (h : head.length = n) : HeadedBuf n where
  mem := head ++ b.mem.drop n
  len := b.len
  len_le := by
    have := b.len_le
    have := b.cap
    simp only [List.length_append, List.length_drop]
    omega
  cap := by
    simp only [List.length_append, List.length_drop]
    omega

@[simp] theorem bytes_writeAll (b : HeadedBuf n) (bs : List UInt8) :
    (b.writeAll bs).bytes = b.bytes ++ bs := by
  have hlen : (b.mem.take b.len).length = b.len := List.length_take_of_le b.len_le
  simp only [bytes, writeAll]
  rw [← List.append_assoc, List.take_left']
  rw [List.length_append, hlen]

theorem length_bytes (b : HeadedBuf n) : b.bytes.length = b.len :=
  List.length_take_of_le b.len_le

/-- The header replaces the room kept for it and nothing else: what was appended
after `reset` is the body, whatever the buffer held before. -/
theorem bytes_writeHead (b c : HeadedBuf n) (head : List UInt8) (h : head.length = n)
    {body : List UInt8} (hbody : c.bytes = b.reset.bytes ++ body) :
    (c.writeHead head h).bytes = head ++ body := by
  have hroom : b.reset.bytes.length = n := length_bytes _
  have hlen : n ≤ c.len := by
    have := congrArg List.length hbody
    rw [length_bytes, List.length_append] at this
    omega
  calc (c.writeHead head h).bytes
      = head ++ (c.mem.drop n).take (c.len - n) := by
        simp only [bytes, writeHead]
        rw [List.take_append, List.take_of_length_le (by omega), h]
    _ = head ++ c.bytes.drop n := by rw [bytes, List.drop_take]
    _ = head ++ body := by rw [hbody, List.drop_left' hroom]

end HeadedBuf

end Bytes
