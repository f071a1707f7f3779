import Mathlib
import Conformance.Comparison.Session
import Conformance.Proofs.Value.PlainText

namespace Conformance

namespace Value

variable {v w : Value} {s : Scalar} {rest : List Char}

def ofInt (ty : ValueType) (n : Int) : Value := ⟨ty, BitVec.ofInt ty.width n⟩

theorem ofInt_toInt (v : Value) : ofInt v.ty v.toInt = v := by
  rw [toInt]
  split_ifs
  · rw [ofInt, BitVec.ofInt_toInt]
  · rw [ofInt, BitVec.ofInt_natCast]
    exact v.ofNat_toNat

/-- The lane at the start of a text, and what follows it. Integers end with their digits; of a
number with a point only the bits in brackets are read. -/
def readLane (s : Scalar) (cs : List Char) : Value × List Char :=
  match s.kind with
  | .unsigned | .signed =>
    let n := Decimal.readInt cs
    (ofInt (.scalar s) n.1, n.2)
  | .float _ =>
    let bits := (cs.dropWhile (· ≠ '[')).drop 3
    (ofNat (.scalar s) (Text.ofHexDigits (bits.take (2 * s.size))), bits.drop (2 * s.size + 1))
  | .pointer =>
    let bits := cs.drop 2
    (ofNat (.scalar s) (Text.ofHexDigits (bits.take (2 * s.size))), bits.drop (2 * s.size))

def readLanes (s : Scalar) : Nat → List Char → List Value × List Char
  | 0, cs => ([], cs)
  | 1, cs =>
    let first := readLane s cs
    ([first.1], first.2)
  | n + 2, cs =>
    let first := readLane s cs
    let more := readLanes s (n + 1) (first.2.drop 2)
    (first.1 :: more.1, more.2)

def readDetail (ty : ValueType) (cs : List Char) : Value × List Char :=
  if ty.isPacked then
    let lanes := readLanes ty.lane ty.laneCount (cs.drop 1)
    (joined ty lanes.1, lanes.2.drop 1)
  else
    let lanes := readLanes ty.lane ty.laneCount cs
    (joined ty lanes.1, lanes.2)

theorem hexDigits_of_scalar (hv : v.ty = .scalar s) :
    (Text.hexDigits (2 * s.size) v.toNat).length = 2 * s.size := by
  have hlt := v.toNat_lt
  rw [hv, ValueType.size_scalar] at hlt
  have hs := ValueType.scalar_size_pos s
  refine Text.length_hexDigits (by omega) ?_
  rwa [pow_mul]

theorem read_hexDigits (hv : v.ty = .scalar s) (rest : List Char) :
    let bits := Text.hexDigits (2 * s.size) v.toNat ++ rest
    ofNat (.scalar s) (Text.ofHexDigits (bits.take (2 * s.size))) = v ∧
      bits.drop (2 * s.size) = rest := by
  have hl := hexDigits_of_scalar hv
  intro bits
  have htake : bits.take (2 * s.size) = Text.hexDigits (2 * s.size) v.toNat :=
    List.take_left' hl
  rw [htake, Text.ofHexDigits_hexDigits, ← hv, v.ofNat_toNat]
  exact ⟨rfl, List.drop_left' hl⟩

theorem width_of_float {f : Format} (hs : s.kind = .float f) : f.width / 4 = 2 * s.size := by
  cases s <;> cases hs <;> rfl

theorem readLane_laneText (hv : v.ty = .scalar s) (hr : ∀ c ∈ rest.head?, c.isDigit = false) :
    readLane s (v.laneText true ++ rest) = (v, rest) := by
  have hwhole : ofInt (.scalar s) v.toInt = v := hv ▸ v.ofInt_toInt
  cases hk : s.kind with
  | unsigned | signed =>
    have ht : v.laneText true = intText v.toInt := by rw [laneText, hv, ValueType.lane_scalar, hk]
    simp only [readLane, hk, ht, Decimal.readInt_intText _ hr, hwhole]
  | pointer =>
    have ht : v.laneText true = Text.hex (2 * v.size) v.toNat := by
      rw [laneText, hv, ValueType.lane_scalar, hk]
    have hsize : v.size = s.size := by rw [size, hv, ValueType.size_scalar]
    obtain ⟨hread, hrest⟩ := read_hexDigits hv rest
    rw [ht, hsize]
    simp only [readLane, hk, Text.hex, List.cons_append, List.drop_succ_cons, List.drop_zero, hread,
      hrest]
  | float f =>
    obtain ⟨hc, hd, -⟩ := f.printDigits_enough
    obtain ⟨hread, hrest⟩ := read_hexDigits hv (']' :: rest)
    set number := (v.toBinary f).countedText f.printDigits
    have ht : v.laneText true ++ rest = (number ++ [' ']) ++
        '[' :: '0' :: 'x' :: (Text.hexDigits (2 * s.size) v.toNat ++ ']' :: rest) := by
      rw [laneText_float true hk hv, Binary.valueText, if_pos rfl, Binary.bitsText,
        toBits_toBinary hk hv, width_of_float hk]
      simp [number, Text.hex]
    have hnumber : ∀ c ∈ number ++ [' '], decide (c ≠ '[') := by
      intro c h
      rw [decide_eq_true_eq]
      rintro rfl
      obtain h | h := List.mem_append.mp h
      · exact absurd (Binary.countedText_chars hc hd _ h) (by decide)
      · exact absurd h (by decide)
    have hskip : (v.laneText true ++ rest).dropWhile (· ≠ '[') =
        '[' :: '0' :: 'x' :: (Text.hexDigits (2 * s.size) v.toNat ++ ']' :: rest) := by
      rw [ht, List.dropWhile_append_of_pos hnumber]
      rfl
    simp only [readLane, hk, hskip, List.drop_succ_cons, List.drop_zero, hread]
    rw [← List.drop_drop, hrest]
    rfl

theorem readLanes_listText {vs : List Value} (hv : ∀ v ∈ vs, v.ty = .scalar s)
    (hr : ∀ c ∈ rest.head?, c.isDigit = false) :
    readLanes s vs.length (listText (vs.map (laneText true)) ++ rest) = (vs, rest) := by
  induction vs with
  | nil => rfl
  | cons v vs ih =>
    have hvs : ∀ w ∈ vs, w.ty = .scalar s := fun w hw => hv w (List.mem_cons_of_mem _ hw)
    have hfirst := hv v List.mem_cons_self
    obtain - | ⟨w, more⟩ := vs
    · simp only [List.length_singleton, List.map_cons, List.map_nil, listText, readLanes,
        readLane_laneText hfirst hr]
    · have hsplit : listText ((v :: w :: more).map (laneText true)) ++ rest =
          v.laneText true ++
            ',' :: ' ' :: (listText ((w :: more).map (laneText true)) ++ rest) := by
        rw [List.map_cons, listText_cons _ (by simp), List.append_assoc]
        rfl
      have hlane := readLane_laneText hfirst (Decimal.head_not_digit (c := ',') rfl
        (' ' :: (listText ((w :: more).map (laneText true)) ++ rest)))
      rw [hsplit]
      simp only [List.length_cons, readLanes, hlane, List.drop_succ_cons, List.drop_zero]
      rw [← List.length_cons (a := w), ih hvs]

theorem readDetail_chars (v : Value) (hr : ∀ c ∈ rest.head?, c.isDigit = false) :
    readDetail v.ty (v.chars true ++ rest) = (v, rest) := by
  have hlanes : ∀ w ∈ v.lanes, w.ty = .scalar v.ty.lane := fun w hw => ty_of_mem_lanes hw
  rw [readDetail, chars_eq]
  split_ifs
  · have hread := readLanes_listText hlanes (Decimal.head_not_digit (c := ')') rfl rest)
    rw [length_lanes] at hread
    simp [hread, joined_lanes]
  · have hread := readLanes_listText hlanes hr
    rw [length_lanes] at hread
    simp only [hread, joined_lanes]

/-- No text in detail goes on as another one. -/
theorem chars_append_inj {a b : List Char} (ht : v.ty = w.ty)
    (ha : ∀ c ∈ a.head?, c.isDigit = false) (hb : ∀ c ∈ b.head?, c.isDigit = false)
    (h : v.chars true ++ a = w.chars true ++ b) : v = w ∧ a = b := by
  have hv := readDetail_chars v ha
  rw [h, ht, readDetail_chars w hb] at hv
  exact ⟨(congrArg Prod.fst hv).symm, (congrArg Prod.snd hv).symm⟩

end Value

namespace Comparison

open Value

variable {s t : Session} {c d : Check}

theorem shortReport?_toList (h : s.last = some c) :
    s.shortReport?.map String.toList =
      some (c.actual.chars true ++ ' ' :: c.verdict.mark.toList) := by
  simp [Session.shortReport?, h, detail, toString]

theorem longReport?_toList (h : s.last = some c) :
    ∃ more, s.longReport?.map String.toList =
      some (c.actual.chars true ++
        (" (expected ".toList ++ (c.expected.chars true ++ ',' :: more))) := by
  simp [Session.longReport?, h, detail, toString]

theorem actual_of_shortReport? (hs : s.last = some c) (ht : t.last = some d)
    (hty : c.actual.ty = d.actual.ty) (h : s.shortReport? = t.shortReport?) :
    c.actual = d.actual := by
  have hchars := shortReport?_toList hs
  rw [h, shortReport?_toList ht] at hchars
  exact (chars_append_inj hty.symm (Decimal.head_not_digit rfl _) (Decimal.head_not_digit rfl _)
    (Option.some.inj hchars)).1.symm

theorem values_of_longReport? (hs : s.last = some c) (ht : t.last = some d)
    (hty : c.actual.ty = d.actual.ty) (h : s.longReport? = t.longReport?) :
    c.actual = d.actual ∧ (c.expected.ty = d.expected.ty → c.expected = d.expected) := by
  obtain ⟨more, hc⟩ := longReport?_toList hs
  obtain ⟨more', hd⟩ := longReport?_toList ht
  rw [h, hd] at hc
  have hblank : ∀ more : List Char, ∀ b ∈ (" (expected ".toList ++ more).head?, b.isDigit = false :=
    fun _ => Decimal.head_not_digit (c := ' ') rfl _
  obtain ⟨hactual, hrest⟩ := chars_append_inj hty.symm (hblank _) (hblank _) (Option.some.inj hc)
  have hexpected := List.append_cancel_left hrest
  refine ⟨hactual.symm, fun he => ?_⟩
  exact (chars_append_inj he.symm (Decimal.head_not_digit rfl _) (Decimal.head_not_digit rfl _)
    hexpected).1.symm

/-- A value is recovered from its text in detail, for every type. Values of one type that differ
differ in their text, and the reports of checks differ that show them. -/
theorem detail_recovered :
    (∀ v : Value, readDetail v.ty v.detail.toList = (v, [])) ∧
      (∀ v w : Value, v.ty = w.ty → v ≠ w → v.detail ≠ w.detail) ∧
      ∀ (s t : Session) (c d : Check), s.last = some c → t.last = some d →
        c.actual.ty = d.actual.ty →
          (c.actual ≠ d.actual →
            s.shortReport? ≠ t.shortReport? ∧ s.longReport? ≠ t.longReport?) ∧
          (c.expected.ty = d.expected.ty → c.expected ≠ d.expected →
            s.longReport? ≠ t.longReport?) := by
  have hread : ∀ v : Value, readDetail v.ty v.detail.toList = (v, []) := by
    intro v
    have hend : ∀ c ∈ ([] : List Char).head?, c.isDigit = false := by simp
    have h := readDetail_chars v hend
    rwa [List.append_nil, ← String.toList_ofList (l := v.chars true)] at h
  refine ⟨hread, ?_, ?_⟩
  · intro v w ht hne h
    have hv := hread v
    rw [h, ht, hread w] at hv
    exact hne (congrArg Prod.fst hv).symm
  · intro s t c d hs ht hty
    refine ⟨fun hne => ⟨fun h => ?_, fun h => ?_⟩, fun he hne h => ?_⟩
    · exact hne (actual_of_shortReport? hs ht hty h)
    · exact hne (values_of_longReport? hs ht hty h).1
    · exact hne ((values_of_longReport? hs ht hty h).2 he)

example : (ofNat (.packed .f16x2) 0x7c018000).detail =
    "(-0.0000e0 [0x8000], +SNAN(0x1) [0x7c01])" := by
  decide +kernel

end Comparison

end Conformance
