import Mathlib.Algebra.Order.Ring.Nat
import Mathlib.Data.List.Basic
import Mathlib.Tactic.Common
import Mathlib.Tactic.Ring

/-! Fixed-width little-endian byte strings, the numbers they carry, and
blocks of equal-width items laid out back to back. -/
namespace LittleEndian

def toBytes : ℕ → ℕ → List UInt8
  | 0, _ => []
  | k+1, n => UInt8.ofNat n :: toBytes k (n/256)

def ofBytes : List UInt8 → ℕ
  | [] => 0
  | b :: bs => b.toNat + 256*ofBytes bs

@[simp] theorem toBytes_length (k n : ℕ) : (toBytes k n).length = k := by
  induction k generalizing n with
  | zero => rfl
  | succ k ih => simp only [toBytes, List.length_cons, ih]

/-- Writing keeps a number modulo the width, which is the conversion an
unsigned integer type makes. -/
theorem ofBytes_toBytes (k n : ℕ) : ofBytes (toBytes k n) = n % 256^k := by
  induction k generalizing n with
  | zero => simp only [toBytes, ofBytes, pow_zero, Nat.mod_one]
  | succ k ih =>
    have hb : (UInt8.ofNat n).toNat = n % 256 := by simp
    rw [toBytes, ofBytes, ih, hb, pow_succ, mul_comm (256^k) 256, Nat.mod_mul]

theorem ofBytes_lt (bs : List UInt8) : ofBytes bs < 256^bs.length := by
  induction bs with
  | nil => simp [ofBytes]
  | cons b bs ih =>
    have hb : b.toNat < 256 := b.toNat_lt
    rw [ofBytes, List.length_cons, pow_succ]
    omega

/-- A byte string of the right width is its number written out. -/
theorem toBytes_ofBytes (bs : List UInt8) : toBytes bs.length (ofBytes bs) = bs := by
  induction bs with
  | nil => rfl
  | cons b bs ih =>
    have hb : b.toNat < 256 := b.toNat_lt
    have hlow : UInt8.ofNat (b.toNat + 256*ofBytes bs) = b := by
      apply UInt8.toNat_inj.mp
      rw [UInt8.toNat_ofNat']
      omega
    have hhigh : (b.toNat + 256*ofBytes bs)/256 = ofBytes bs := by omega
    rw [List.length_cons, ofBytes, toBytes, hlow, hhigh, ih]

/-- Cut a byte string into `n` blocks of `k` bytes. -/
def blocks (k : ℕ) : ℕ → List UInt8 → List (List UInt8)
  | 0, _ => []
  | n+1, bs => bs.take k :: blocks k n (bs.drop k)

@[simp] theorem blocks_length (k n : ℕ) (bs : List UInt8) : (blocks k n bs).length = n := by
  induction n generalizing bs with
  | zero => rfl
  | succ n ih => simp only [blocks, List.length_cons, ih]

theorem blocks_take (k n : ℕ) (bs : List UInt8) : blocks k n (bs.take (n*k)) = blocks k n bs := by
  induction n generalizing bs with
  | zero => rfl
  | succ n ih =>
    have hlen : (n + 1)*k = k + n*k := by ring
    rw [blocks, blocks, hlen, List.take_take, Nat.min_eq_left (Nat.le_add_right _ _), List.drop_take,
      Nat.add_sub_cancel_left, ih]

theorem blocks_flatten (k n : ℕ) (bs : List UInt8) (h : bs.length = n*k) : (blocks k n bs).flatten = bs := by
  induction n generalizing bs with
  | zero =>
    rw [Nat.zero_mul] at h
    rw [List.eq_nil_of_length_eq_zero h]
    rfl
  | succ n ih =>
    have hlen : (n + 1)*k = k + n*k := by ring
    have hrest : (bs.drop k).length = n*k := by
      rw [List.length_drop]
      omega
    rw [blocks, List.flatten_cons, ih _ hrest, List.take_append_drop]

theorem length_of_mem_blocks (k n : ℕ) (bs : List UInt8) (h : bs.length = n*k) :
    ∀ b ∈ blocks k n bs, b.length = k := by
  induction n generalizing bs with
  | zero => simp [blocks]
  | succ n ih =>
    have hlen : (n + 1)*k = k + n*k := by ring
    intro b hb
    rcases List.mem_cons.mp hb with rfl | hb
    · rw [List.length_take]
      omega
    · refine ih (bs.drop k) ?_ b hb
      rw [List.length_drop]
      omega

section Layout
variable {α : Type*} (enc : α → List UInt8) (k : ℕ)

theorem flatMap_length (hk : ∀ a, (enc a).length = k) (xs : List α) :
    (xs.flatMap enc).length = xs.length*k := by
  induction xs with
  | nil => simp
  | cons a xs ih =>
    rw [List.flatMap_cons, List.length_append, hk, ih, List.length_cons]
    ring

theorem blocks_flatMap (hk : ∀ a, (enc a).length = k) (xs : List α) :
    blocks k xs.length (xs.flatMap enc) = xs.map enc := by
  induction xs with
  | nil => rfl
  | cons a xs ih =>
    rw [List.flatMap_cons, List.length_cons, blocks, List.map_cons,
      List.take_left' (hk a), List.drop_left' (hk a), ih]

end Layout

end LittleEndian
