import Mathlib
import Conformance.Bytes

namespace Conformance.Bytes

@[simp]
theorem length_ofNat (count n : Nat) : (ofNat count n).length = count := by
  induction count generalizing n with
  | zero => rfl
  | succ count ih => simp [ofNat, ih]

theorem toNat_lt (bytes : List UInt8) : toNat bytes < 256 ^ bytes.length := by
  induction bytes with
  | nil => simp [toNat]
  | cons b rest ih =>
    have hb := b.toNat_lt
    have hp : 256 ^ (rest.length + 1) = 256 * 256 ^ rest.length := Nat.pow_succ'
    rw [toNat, List.length_cons, hp]
    omega

theorem toNat_ofNat (count n : Nat) : toNat (ofNat count n) = n % 256 ^ count := by
  induction count generalizing n with
  | zero => simp [ofNat, toNat, Nat.mod_one]
  | succ count ih =>
    have hb : (UInt8.ofNat n).toNat = n % 256 := UInt8.toNat_ofNat
    rw [ofNat, toNat, ih, hb, Nat.pow_succ', Nat.mod_mul]

theorem ofNat_toNat (bytes : List UInt8) : ofNat bytes.length (toNat bytes) = bytes := by
  induction bytes with
  | nil => rfl
  | cons b rest ih =>
    have hb := b.toNat_lt
    have hd : (b.toNat + 256 * toNat rest) / 256 = toNat rest := by omega
    have hm : UInt8.ofNat (b.toNat + 256 * toNat rest) = b := by
      apply UInt8.toNat_inj.mp
      rw [UInt8.toNat_ofNat']
      omega
    simp [ofNat, toNat, hd, hm, ih]

theorem toNat_inj {a b : List UInt8} (hl : a.length = b.length) (h : toNat a = toNat b) :
    a = b := by
  rw [← ofNat_toNat a, ← ofNat_toNat b, hl, h]

theorem ofNat_congr {count m n : Nat} (h : m % 256 ^ count = n % 256 ^ count) :
    ofNat count m = ofNat count n := by
  apply toNat_inj
  · simp
  · rw [toNat_ofNat, toNat_ofNat, h]

theorem toNat_drop (i : Nat) (bytes : List UInt8) :
    toNat (bytes.drop i) = toNat bytes / 256 ^ i := by
  induction i generalizing bytes with
  | zero => simp
  | succ i ih =>
    cases bytes with
    | nil => simp [toNat]
    | cons b rest =>
      have hb := b.toNat_lt
      have hd : (b.toNat + 256 * toNat rest) / 256 = toNat rest := by omega
      rw [List.drop_succ_cons, ih, toNat, Nat.pow_succ', ← Nat.div_div_eq_div_mul, hd]

theorem toNat_take (k : Nat) (bytes : List UInt8) :
    toNat (bytes.take k) = toNat bytes % 256 ^ k := by
  induction k generalizing bytes with
  | zero => simp [toNat, Nat.mod_one]
  | succ k ih =>
    cases bytes with
    | nil => simp [toNat]
    | cons b rest =>
      have hb := b.toNat_lt
      have hd : (b.toNat + 256 * toNat rest) / 256 = toNat rest := by omega
      have hm : (b.toNat + 256 * toNat rest) % 256 = b.toNat := by omega
      rw [List.take_succ_cons, toNat, ih, toNat, Nat.pow_succ', Nat.mod_mul, hd, hm]

theorem take_ofNat {k count : Nat} (h : k ≤ count) (n : Nat) :
    (ofNat count n).take k = ofNat k n := by
  apply toNat_inj
  · simp [h]
  · rw [toNat_take, toNat_ofNat, toNat_ofNat, Nat.mod_mod_of_dvd _ (Nat.pow_dvd_pow 256 h)]

@[simp]
theorem length_fit (count : Nat) (bytes : List UInt8) : (fit count bytes).length = count := by
  simp [fit]

theorem fit_eq_self {count : Nat} {bytes : List UInt8} (h : bytes.length = count) :
    fit count bytes = bytes := by
  rw [fit, ← h, List.take_left]

theorem take_fit {k count : Nat} {bytes : List UInt8} (hb : k ≤ bytes.length) (hc : k ≤ count) :
    (fit count bytes).take k = bytes.take k := by
  rw [fit, List.take_take, Nat.min_eq_left hc, List.take_append_of_le_length hb]

theorem pieces_eq_map (size count : Nat) (bytes : List UInt8) :
    pieces size count bytes =
      (List.range count).map fun i => (bytes.drop (i * size)).take size := by
  induction count generalizing bytes with
  | zero => rfl
  | succ count ih =>
    rw [pieces, ih, List.range_succ_eq_map, List.map_cons, List.map_map]
    simp [Function.comp_def, List.drop_drop, Nat.add_mul, Nat.add_comm]

theorem length_of_mem_pieces {size count : Nat} {bytes piece : List UInt8}
    (hl : size * count ≤ bytes.length) (h : piece ∈ pieces size count bytes) :
    piece.length = size := by
  induction count generalizing bytes with
  | zero => simp [pieces] at h
  | succ count ih =>
    rw [Nat.mul_succ] at hl
    obtain h | h := List.mem_cons.mp h
    · subst h
      rw [List.length_take]
      omega
    · exact ih (by rw [List.length_drop]; omega) h

theorem pieces_add (size m n : Nat) (bytes : List UInt8) :
    pieces size (m + n) bytes = pieces size m bytes ++ pieces size n (bytes.drop (size * m)) := by
  induction m generalizing bytes with
  | zero => simp [pieces]
  | succ m ih =>
    rw [Nat.add_right_comm, pieces, pieces, ih, List.cons_append, List.drop_drop, Nat.mul_succ,
      Nat.add_comm size]

theorem pieces_take (size count : Nat) (bytes : List UInt8) :
    pieces size count (bytes.take (size * count)) = pieces size count bytes := by
  rw [pieces_eq_map, pieces_eq_map]
  apply List.map_congr_left
  intro i hi
  have hm : i * size + size ≤ size * count := by
    have hle : (i + 1) * size ≤ count * size := Nat.mul_le_mul_right _ (List.mem_range.mp hi)
    have hs : (i + 1) * size = i * size + size := by ring
    rw [Nat.mul_comm size count]
    omega
  rw [List.drop_take, List.take_take]
  congr 1
  omega

theorem flatMap_pieces (size n count : Nat) (bytes : List UInt8) :
    (pieces (size * n) count bytes).flatMap (pieces size n) = pieces size (n * count) bytes := by
  induction count generalizing bytes with
  | zero => rfl
  | succ count ih =>
    rw [pieces, List.flatMap_cons, ih, pieces_take, Nat.mul_succ, Nat.add_comm, pieces_add]

end Conformance.Bytes
