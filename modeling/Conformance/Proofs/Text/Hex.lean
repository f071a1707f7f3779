import Mathlib
import Conformance.Json.Text
import Conformance.Text.Hex

namespace Conformance.Text

def ofHexDigits (cs : List Char) : Nat := cs.foldl (fun n c => 16 * n + Json.Text.hexValue c) 0

variable {width n : Nat}

theorem ofHexDigits_concat (cs : List Char) (c : Char) :
    ofHexDigits (cs ++ [c]) = 16 * ofHexDigits cs + Json.Text.hexValue c := by
  simp [ofHexDigits]

theorem ofHexDigits_zeros (k : Nat) (cs : List Char) :
    ofHexDigits (List.replicate k '0' ++ cs) = ofHexDigits cs := by
  induction k with
  | zero => rfl
  | succ k ih => exact ih

theorem hexValue_digitChar : ∀ d < 16, Json.Text.hexValue (Nat.digitChar d) = d := by decide

theorem isHexDigit_digitChar : ∀ d < 16, Json.Text.isHexDigit (Nat.digitChar d) := by decide

theorem toDigits_hex (n : Nat) :
    Nat.toDigits 16 n =
      if n < 16 then [Nat.digitChar n] else Nat.toDigits 16 (n / 16) ++ [Nat.digitChar (n % 16)] :=
  Nat.toDigits_eq_if (by decide)

theorem ofHexDigits_toDigits (n : Nat) : ofHexDigits (Nat.toDigits 16 n) = n := by
  induction n using Nat.strong_induction_on with
  | _ n ih =>
    rw [toDigits_hex]
    split_ifs with h
    · simp [ofHexDigits, hexValue_digitChar n h]
    · rw [ofHexDigits_concat, ih (n / 16) (by omega),
        hexValue_digitChar _ (Nat.mod_lt n (by decide))]
      exact Nat.div_add_mod n 16

theorem isHexDigit_of_mem_toDigits {c : Char} (h : c ∈ Nat.toDigits 16 n) :
    Json.Text.isHexDigit c := by
  induction n using Nat.strong_induction_on with
  | _ n ih =>
    rw [toDigits_hex] at h
    split_ifs at h with hn
    · rw [List.mem_singleton.mp h]
      exact isHexDigit_digitChar n hn
    · obtain h | h := List.mem_append.mp h
      · exact ih (n / 16) (by omega) h
      · rw [List.mem_singleton.mp h]
        exact isHexDigit_digitChar _ (Nat.mod_lt n (by decide))

theorem ofHexDigits_hexDigits (width n : Nat) : ofHexDigits (hexDigits width n) = n := by
  rw [hexDigits, ofHexDigits_zeros, ofHexDigits_toDigits]

theorem isHexDigit_of_mem_hexDigits {c : Char} (h : c ∈ hexDigits width n) :
    Json.Text.isHexDigit c := by
  obtain h | h := List.mem_append.mp h
  · rw [List.eq_of_mem_replicate h]
    rfl
  · exact isHexDigit_of_mem_toDigits h

theorem isAlphanum_of_isHexDigit {c : Char} (h : Json.Text.isHexDigit c) : c.isAlphanum := by
  simp only [Json.Text.isHexDigit, Char.isAlphanum, Char.isAlpha, Char.isUpper, Char.isLower,
    Char.le_def, Bool.or_eq_true, Bool.and_eq_true, decide_eq_true_eq] at h ⊢
  grind

theorem length_hexDigits (hw : 0 < width) (h : n < 16 ^ width) :
    (hexDigits width n).length = width := by
  have hle := (Nat.length_toDigits_le_iff (b := 16) (by decide) hw).mpr h
  rw [hexDigits, List.length_append, List.length_replicate]
  omega

end Conformance.Text
