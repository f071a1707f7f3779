import Mathlib
import Conformance.Decimal.Reading
import Conformance.Proofs.Decimal.Significant
import Conformance.Value.Text

namespace Conformance

namespace Decimal

variable {digits rest : List Char}

theorem span_digits (hd : ∀ c ∈ digits, c.isDigit) (hr : ∀ c ∈ rest.head?, c.isDigit = false) :
    (digits ++ rest).span Char.isDigit = (digits, rest) := by
  have hstop : rest.takeWhile Char.isDigit = [] ∧ rest.dropWhile Char.isDigit = rest := by
    cases rest with
    | nil => exact ⟨rfl, rfl⟩
    | cons c rest => simp [hr c rfl]
  rw [List.span_eq_takeWhile_dropWhile, List.takeWhile_append_of_pos hd,
    List.dropWhile_append_of_pos hd, hstop.1, hstop.2, List.append_nil]

theorem head_not_digit {c : Char} (h : c.isDigit = false) (rest : List Char) :
    ∀ d ∈ (c :: rest).head?, d.isDigit = false := by
  rintro d ⟨⟩
  exact h

theorem readSign_of_digit (h : ∀ c ∈ digits.head?, c.isDigit) :
    readSign digits = (false, digits) := by
  unfold readSign
  split
  · exact absurd (h '-' rfl) (by decide)
  · exact absurd (h '+' rfl) (by decide)
  · rfl

theorem isDigit_of_mem_toDigits {n : Nat} {c : Char} (h : c ∈ Nat.toDigits 10 n) : c.isDigit :=
  Nat.isDigit_of_mem_toDigits (by decide) (by decide) h

theorem head_toDigits (n : Nat) (rest : List Char) :
    ∀ c ∈ (Nat.toDigits 10 n ++ rest).head?, c.isDigit := by
  intro c hc
  rw [List.head?_append_of_ne_nil _ Nat.toDigits_ne_nil] at hc
  exact isDigit_of_mem_toDigits (List.mem_of_mem_head? hc)

theorem readSign_intText (n : Int) (rest : List Char) :
    readSign (Value.intText n ++ rest) = (decide (n < 0), Nat.toDigits 10 n.natAbs ++ rest) := by
  rw [Value.intText]
  split_ifs with h
  · simp [readSign, h]
  · simp [readSign_of_digit (head_toDigits n.natAbs rest), h]

def readInt (cs : List Char) : Int × List Char :=
  let s := readSign cs
  let digits := s.2.span Char.isDigit
  let n : Int := ofDigitChars digits.1
  (if s.1 then -n else n, digits.2)

theorem signed_natAbs (n : Int) :
    (if decide (n < 0) then -(n.natAbs : Int) else n.natAbs) = n := by
  split_ifs with h
  · have hn := of_decide_eq_true h
    omega
  · have hn := of_decide_eq_false (Bool.not_eq_true _ ▸ h)
    omega

theorem readInt_intText (n : Int) (hr : ∀ c ∈ rest.head?, c.isDigit = false) :
    readInt (Value.intText n ++ rest) = (n, rest) := by
  have hspan := span_digits (fun c hc => isDigit_of_mem_toDigits (n := n.natAbs) hc) hr
  simp only [readInt, readSign_intText, hspan, ofDigitChars, Nat.ofDigitChars_ten_toDigits,
    signed_natAbs]

theorem exponentText_eq (e : Int) : exponentText false e = 'e' :: Value.intText e := by
  simp only [exponentText, Value.intText, Bool.false_eq_true, if_false]
  split_ifs <;> rfl

theorem readExponent?_exponentText (e : Int) : readExponent? (exponentText false e) = some e := by
  have hsign := readSign_intText e []
  rw [List.append_nil, List.append_nil] at hsign
  have hdigits : readDigits? (Nat.toDigits 10 e.natAbs) = some e.natAbs := by
    rw [readDigits?, if_pos, ofDigitChars, Nat.ofDigitChars_ten_toDigits]
    exact ⟨Nat.toDigits_ne_nil, List.all_eq_true.mpr fun c hc => isDigit_of_mem_toDigits hc⟩
  rw [exponentText_eq, readExponent?, if_pos (Or.inl rfl), hsign]
  simp only [hdigits]
  exact congrArg some (signed_natAbs e)

/-- The digits are read as they stand, with zeros in front. -/
theorem ofChars?_text (hne : digits ≠ []) (hd : ∀ c ∈ digits, c.isDigit) (e : Int) :
    ofChars? (text .scientific digits e) = some ⟨ofDigitChars digits, e⟩ := by
  set leading := e + digits.length - 1 with hl
  have htext : text .scientific digits e = mantissa digits ++ exponentText false leading := rfl
  have hstop : ∀ c ∈ (exponentText false leading).head?, c.isDigit = false := by
    rw [exponentText_eq]
    exact head_not_digit rfl _
  rw [htext]
  match digits, hne with
  | [c], _ =>
    have hspan : (mantissa [c] ++ exponentText false leading).span Char.isDigit =
        ([c], exponentText false leading) := span_digits hd hstop
    have hnone : readFraction (exponentText false leading) = ([], exponentText false leading) := by
      rw [exponentText_eq]
      rfl
    simp only [ofChars?, hspan, hnone, readExponent?_exponentText]
    simp [hl]
  | c :: d :: more, _ =>
    have hspan : (mantissa (c :: d :: more) ++ exponentText false leading).span Char.isDigit =
        ([c], '.' :: (d :: more ++ exponentText false leading)) := by
      have hfirst : ∀ b ∈ [c], b.isDigit := fun b hb => hd b (by simp_all)
      exact span_digits hfirst (head_not_digit rfl _)
    have hfraction : readFraction ('.' :: (d :: more ++ exponentText false leading)) =
        (d :: more, exponentText false leading) :=
      span_digits (fun b hb => hd b (List.mem_cons_of_mem _ hb)) hstop
    simp only [ofChars?, hspan, hfraction, readExponent?_exponentText]
    simp [hl]
    omega

theorem mem_mantissa {c : Char} (h : c ∈ mantissa digits) : c ∈ digits ∨ c = '.' := by
  match digits with
  | [] | [a] => exact .inl h
  | a :: d :: more =>
    change c ∈ a :: '.' :: d :: more at h
    rw [List.mem_cons, List.mem_cons] at h
    obtain rfl | rfl | h := h
    · exact .inl List.mem_cons_self
    · exact .inr rfl
    · exact .inl (List.mem_cons_of_mem _ h)

theorem mem_intText {c : Char} {n : Int} (h : c ∈ Value.intText n) : c.isDigit ∨ c = '-' := by
  rw [Value.intText] at h
  split_ifs at h
  · obtain rfl | h := List.mem_cons.mp h
    · exact .inr rfl
    · exact .inl (isDigit_of_mem_toDigits h)
  · exact .inl (isDigit_of_mem_toDigits h)

theorem mem_text {c : Char} {e : Int} (hd : ∀ c ∈ digits, c.isDigit)
    (h : c ∈ text .scientific digits e) : c.isDigit ∨ c = '.' ∨ c = 'e' ∨ c = '-' := by
  change c ∈ mantissa digits ++ exponentText false (e + digits.length - 1) at h
  rw [exponentText_eq, List.mem_append, List.mem_cons] at h
  obtain h | rfl | h := h
  · exact (mem_mantissa h).imp (hd c) .inl
  · exact .inr (.inr (.inl rfl))
  · exact (mem_intText h).imp_right fun h => .inr (.inr h)

theorem digitCount_significant_le {num den count : Nat} (hden : 0 < den) (hc : 0 < count) :
    digitCount (significant count num den).digits ≤ count := by
  rw [digitCount_le_iff hc]
  obtain rfl | hn := Nat.eq_zero_or_pos num
  · simp [significant]
  · exact (digits_significant hn hden hc).2

end Decimal

namespace Binary

variable {f : Format} {count : Nat}

/-- As many digits as asked for, those of the nearest decimal. -/
theorem roundedText_eq (hc : 0 < count) (hk : count ≤ exactDigits) (x : Binary f) :
    let d := Decimal.significant count (f.ratio x.code).1 (f.ratio x.code).2
    ∃ digits : List Char, digits.length = count ∧ (∀ c ∈ digits, c.isDigit) ∧
      Decimal.ofDigitChars digits = d.digits ∧
      x.roundedText count =
        (if x.isNegative then ['-'] else []) ++ Decimal.text .scientific digits d.exponent := by
  intro d
  have hlength : (Nat.toDigits 10 d.digits).length ≤ count :=
    Decimal.digitCount_significant_le (f.ratio_pos x.code) hc
  refine ⟨List.replicate (count - (Nat.toDigits 10 d.digits).length) '0' ++
    Nat.toDigits 10 d.digits, ?_, ?_, ?_, ?_⟩
  · rw [List.length_append, List.length_replicate]
    omega
  · intro c h
    obtain h | h := List.mem_append.mp h
    · rw [List.eq_of_mem_replicate h]
      rfl
    · exact Decimal.isDigit_of_mem_toDigits h
  · rw [Decimal.ofDigitChars, Nat.ofDigitChars_append, Nat.ofDigitChars_replicate_zero,
      Nat.mul_zero, Nat.ofDigitChars_ten_toDigits]
  · simp only [roundedText, Nat.min_eq_left hk, Nat.sub_self, List.replicate_zero, List.append_nil,
      Nat.cast_zero, sub_zero]
    split_ifs <;> rfl

theorem read_roundedText (hc : 0 < count) (hk : count ≤ exactDigits) (x : Binary f) :
    let s := Decimal.readSign (x.roundedText count)
    s.1 = x.isNegative ∧ Decimal.ofChars? s.2 =
      some (Decimal.significant count (f.ratio x.code).1 (f.ratio x.code).2) := by
  obtain ⟨digits, hlength, hd, hvalue, htext⟩ := roundedText_eq hc hk x
  have hne : digits ≠ [] := by
    rintro rfl
    rw [List.length_nil] at hlength
    omega
  set e := (Decimal.significant count (f.ratio x.code).1 (f.ratio x.code).2).exponent
  have hread := Decimal.ofChars?_text hne hd e
  rw [hvalue] at hread
  have hhead : ∀ c ∈ (Decimal.text .scientific digits e).head?, c.isDigit := by
    match digits, hne, hd with
    | [a], _, hd | a :: _ :: _, _, hd =>
      rintro c ⟨⟩
      exact hd a List.mem_cons_self
  intro s
  have hs : s = (x.isNegative, Decimal.text .scientific digits e) := by
    change Decimal.readSign (x.roundedText count) = _
    rw [htext]
    split_ifs with hx
    · rw [hx]
      rfl
    · rw [Bool.not_eq_true] at hx
      rw [hx]
      exact Decimal.readSign_of_digit hhead
  rw [hs]
  exact ⟨rfl, hread⟩

theorem roundedText_inj (hc : 0 < count) (hk : count ≤ exactDigits)
    (hf : 2 * f.binade ≤ 10 ^ (count - 1)) {x y : Binary f}
    (h : x.roundedText count = y.roundedText count) : x = y := by
  obtain ⟨hsx, hx⟩ := read_roundedText hc hk x
  obtain ⟨hsy, hy⟩ := read_roundedText hc hk y
  rw [← h] at hsy hy
  refine ext_code (hsx.symm.trans hsy) (f.eq_of_significant_eq hc hf ?_)
  exact Option.some.inj (hx.symm.trans hy)

theorem mem_roundedText (hc : 0 < count) (hk : count ≤ exactDigits) {x : Binary f} {c : Char}
    (h : c ∈ x.roundedText count) : c.isDigit ∨ c = '.' ∨ c = 'e' ∨ c = '-' := by
  obtain ⟨digits, -, hd, -, htext⟩ := roundedText_eq hc hk x
  rw [htext, List.mem_append] at h
  obtain h | h := h
  · split_ifs at h
    · exact .inr (.inr (.inr (List.mem_singleton.mp h)))
    · exact absurd h List.not_mem_nil
  · exact Decimal.mem_text hd h

end Binary

end Conformance
