import Mathlib.Data.List.Basic
import Mathlib.Data.List.Induction
import Mathlib.Data.Nat.Bitwise
import Mathlib.Tactic.Ring

set_option autoImplicit false

/-! # Fixed-width numbers in byte lists

`beBytes n v` is the `n`-byte big-endian spelling of `v` (modulo `256 ^ n`) and `beNat` reads such
a spelling back. Code that assembles a word by shifting and or-ing bytes is compared with `beNat`
through `shl8_or`: one more byte is one multiplication by 256 and one addition. `leNat` reads the little-endian
spelling, and `foldl_or_shl` is the loop that code reads it with. -/

namespace ArtPi.Bytes

/-- The `n` big-endian bytes of `v` modulo `256 ^ n`. -/
def beBytes : Nat → Nat → List UInt8
  | 0, _ => []
  | n + 1, v => UInt8.ofNat (v / 256 ^ n) :: beBytes n v

/-- The number a big-endian byte list spells. -/
def beNat : List UInt8 → Nat
  | [] => 0
  | b :: bs => b.toNat * 256 ^ bs.length + beNat bs

@[simp] theorem length_beBytes (n v : Nat) : (beBytes n v).length = n := by
  induction n with
  | zero => rfl
  | succ n ih => simp only [beBytes, List.length_cons, ih]

theorem beNat_lt (bs : List UInt8) : beNat bs < 256 ^ bs.length := by
  induction bs with
  | nil => simp [beNat]
  | cons b bs ih =>
    have hb : b.toNat + 1 ≤ 256 := b.toNat_lt
    have hmul : (b.toNat + 1) * 256 ^ bs.length ≤ 256 * 256 ^ bs.length :=
      Nat.mul_le_mul_right _ hb
    simp only [beNat, List.length_cons, pow_succ]
    calc b.toNat * 256 ^ bs.length + beNat bs
        < b.toNat * 256 ^ bs.length + 256 ^ bs.length := by omega
      _ = (b.toNat + 1) * 256 ^ bs.length := by ring
      _ ≤ 256 * 256 ^ bs.length := hmul
      _ = 256 ^ bs.length * 256 := by ring

theorem beNat_beBytes_mod (n v : Nat) : beNat (beBytes n v) = v % 256 ^ n := by
  induction n with
  | zero => simp [beBytes, beNat, Nat.mod_one]
  | succ n ih =>
    simp only [beBytes, beNat, length_beBytes, ih, UInt8.toNat_ofNat']
    have hstep : v % 256 ^ (n + 1) = v % 256 ^ n + 256 ^ n * (v / 256 ^ n % 2 ^ 8) := by
      rw [pow_succ, show (256 : Nat) = 2 ^ 8 from rfl, ← Nat.mod_mul]
    rw [hstep]
    ring

theorem beNat_beBytes {n v : Nat} (h : v < 256 ^ n) : beNat (beBytes n v) = v := by
  rw [beNat_beBytes_mod, Nat.mod_eq_of_lt h]

theorem beBytes_beNat (bs : List UInt8) : beBytes bs.length (beNat bs) = bs := by
  suffices h : ∀ (bs : List UInt8) (k : Nat),
      beBytes bs.length (k * 256 ^ bs.length + beNat bs) = bs by simpa using h bs 0
  intro bs
  induction bs with
  | nil => intro k; rfl
  | cons b bs ih =>
    intro k
    have hpos : 0 < 256 ^ bs.length := Nat.pow_pos (by omega)
    have hsplit : k * 256 ^ (bs.length + 1) + (b.toNat * 256 ^ bs.length + beNat bs)
        = (k * 256 + b.toNat) * 256 ^ bs.length + beNat bs := by
      rw [pow_succ]; ring
    simp only [List.length_cons, beBytes, beNat]
    rw [hsplit, ih (k * 256 + b.toNat)]
    congr 1
    have hdiv : ((k * 256 + b.toNat) * 256 ^ bs.length + beNat bs) / 256 ^ bs.length
        = k * 256 + b.toNat := by
      rw [Nat.add_comm, Nat.add_mul_div_right _ _ hpos, Nat.div_eq_of_lt (beNat_lt bs)]
      omega
    rw [hdiv]
    apply UInt8.toNat_inj.mp
    have := b.toNat_lt
    rw [UInt8.toNat_ofNat']
    omega

/-- Appending one byte on the right shifts the number read so far. -/
theorem beNat_concat (bs : List UInt8) (b : UInt8) :
    beNat (bs ++ [b]) = beNat bs * 256 + b.toNat := by
  induction bs with
  | nil => simp [beNat]
  | cons c bs ih =>
    simp only [List.cons_append, beNat, ih, List.length_append, List.length_singleton, pow_succ]
    ring

/-- Or-ing a byte into a number shifted left by eight is adding it. -/
theorem shl8_or (n : Nat) (b : UInt8) : n <<< 8 ||| b.toNat = n * 256 + b.toNat := by
  rw [← Nat.shiftLeft_add_eq_or_of_lt b.toNat_lt, Nat.shiftLeft_eq]

/-! ## Little-endian -/

/-- The number a little-endian byte list spells. -/
def leNat : List UInt8 → Nat
  | [] => 0
  | b :: bs => b.toNat + 256 * leNat bs

theorem leNat_lt (bs : List UInt8) : leNat bs < 256 ^ bs.length := by
  induction bs with
  | nil => simp [leNat]
  | cons b bs ih =>
    have hb := b.toNat_lt
    simp only [leNat, List.length_cons, pow_succ]
    omega

theorem leNat_concat (bs : List UInt8) (b : UInt8) :
    leNat (bs ++ [b]) = leNat bs + b.toNat * 256 ^ bs.length := by
  induction bs with
  | nil => simp [leNat]
  | cons c bs ih =>
    simp only [List.cons_append, leNat, ih, List.length_cons, pow_succ]
    ring

/-- Or-ing the bytes in one by one, each shifted to its place. -/
theorem foldl_or_shl (bs : List UInt8) :
    (List.range bs.length).foldl (fun v i => v ||| (bs.getD i 0).toNat <<< (8 * i)) 0
      = leNat bs := by
  induction bs using List.reverseRecOn with
  | nil => rfl
  | append_singleton bs b ih =>
    have hcongr : (List.range bs.length).foldl
          (fun v i => v ||| ((bs ++ [b]).getD i 0).toNat <<< (8 * i)) 0
        = (List.range bs.length).foldl (fun v i => v ||| (bs.getD i 0).toNat <<< (8 * i)) 0 := by
      apply List.foldl_ext
      intro v i hi
      rw [List.getD_append bs [b] 0 i (List.mem_range.1 hi)]
    have hlast : (bs ++ [b]).getD bs.length 0 = b := by simp
    have hlt : leNat bs < 2 ^ (8 * bs.length) := by
      rw [pow_mul]
      exact leNat_lt bs
    rw [List.length_append, List.length_singleton, List.range_succ, List.foldl_append, hcongr, ih,
      List.foldl_cons, List.foldl_nil, hlast, leNat_concat, Nat.or_comm,
      ← Nat.shiftLeft_add_eq_or_of_lt hlt, Nat.shiftLeft_eq, pow_mul]
    ring

/-- The bytes of a number, taken off by shifting, spell it modulo the width. -/
theorem leNat_map_shr (n v : Nat) :
    leNat ((List.range n).map (fun i => UInt8.ofNat (v >>> (8 * i) &&& 0xff))) = v % 256 ^ n := by
  induction n with
  | zero => simp [leNat, Nat.mod_one]
  | succ n ih =>
    have hbyte : (UInt8.ofNat (v >>> (8 * n) &&& 0xff)).toNat = v / 256 ^ n % 256 := by
      have hmod : v >>> (8 * n) &&& 0xff = v / 256 ^ n % 256 := by
        rw [Nat.shiftRight_eq_div_pow, pow_mul]
        exact Nat.and_two_pow_sub_one_eq_mod _ 8
      rw [UInt8.toNat_ofNat', hmod, Nat.mod_mod]
    rw [List.range_succ, List.map_append, List.map_cons, List.map_nil, leNat_concat, ih, hbyte,
      List.length_map, List.length_range, pow_succ, Nat.mod_mul]
    ring

theorem leNat_inj {bs cs : List UInt8} (hlen : bs.length = cs.length) (h : leNat bs = leNat cs) :
    bs = cs := by
  induction bs generalizing cs with
  | nil => exact (List.length_eq_zero_iff.1 hlen.symm).symm
  | cons b bs ih =>
    cases cs with
    | nil => exact absurd hlen (by simp)
    | cons c cs =>
      have hb := b.toNat_lt
      have hc := c.toNat_lt
      simp only [leNat] at h
      have hhead : b = c := UInt8.toNat_inj.1 (by omega)
      rw [hhead, ih (by simpa using hlen) (by omega)]

end ArtPi.Bytes
