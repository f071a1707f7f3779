import Mathlib
import Conformance.Comparison.Options

namespace Conformance.Comparison

namespace Options

/-- The longest runs of characters that do not separate, in their order. -/
inductive Runs : List Char → List (List Char) → Prop
  | nil : Runs [] []
  | separator {c : Char} {rest : List Char} {runs : List (List Char)} (hc : isSeparator c)
      (hr : Runs rest runs) : Runs (c :: rest) runs
  | run {run rest : List Char} {runs : List (List Char)} (hne : run ≠ [])
      (hc : ∀ c ∈ run, isSeparator c = false) (hend : ∀ c ∈ rest.head?, isSeparator c)
      (hr : Runs rest runs) : Runs (run ++ rest) (run :: runs)

theorem exists_runs (text : List Char) : ∃ runs, Runs text runs := by
  induction hn : text.length using Nat.strong_induction_on generalizing text with
  | _ n ih =>
    subst hn
    cases text with
    | nil => exact ⟨[], .nil⟩
    | cons c rest =>
      by_cases hc : isSeparator c
      · obtain ⟨runs, hr⟩ := ih rest.length (by simp) rest rfl
        exact ⟨runs, .separator hc hr⟩
      · have hsplit := List.takeWhile_append_dropWhile (p := fun d => !isSeparator d) (l := rest)
        set run := rest.takeWhile fun d => !isSeparator d
        set after := rest.dropWhile fun d => !isSeparator d with hafter
        have hlength : after.length < (c :: rest).length := by
          rw [← hsplit, List.length_cons, List.length_append]
          omega
        obtain ⟨runs, hr⟩ := ih after.length hlength after rfl
        refine ⟨(c :: run) :: runs, ?_⟩
        rw [← hsplit, ← List.cons_append]
        refine .run (by simp) ?_ ?_ hr
        · intro d hd
          obtain rfl | hd := List.mem_cons.mp hd
          · simpa using hc
          · simpa using List.mem_takeWhile_imp hd
        · intro d hd
          have hstop := List.head?_dropWhile_not (fun d => !isSeparator d) rest
          rw [← hafter, Option.mem_def.mp hd] at hstop
          simpa using hstop

theorem pieces_of_separator {c : Char} (h : isSeparator c) (rest : List Char) :
    pieces (c :: rest) = [] :: pieces rest := by
  rw [pieces, if_pos h]

theorem pieces_append {run rest piece : List Char} {more : List (List Char)}
    (hc : ∀ c ∈ run, isSeparator c = false) (h : pieces rest = piece :: more) :
    pieces (run ++ rest) = (run ++ piece) :: more := by
  induction run with
  | nil => exact h
  | cons c run ih =>
    have hfirst : isSeparator c = false := hc c (by simp)
    rw [List.cons_append, pieces, if_neg (by simp [hfirst]), ih fun d hd => hc d (by simp [hd])]
    rfl

theorem pieces_of_end {rest : List Char} (h : ∀ c ∈ rest.head?, isSeparator c) :
    ∃ more, pieces rest = [] :: more ∧ tokens rest = more.filter (· ≠ []) := by
  cases rest with
  | nil => exact ⟨[], rfl, rfl⟩
  | cons c rest =>
    have hp := pieces_of_separator (h c rfl) rest
    exact ⟨pieces rest, hp, by simp [tokens, hp]⟩

theorem tokens_eq_iff {text : List Char} {runs : List (List Char)} :
    tokens text = runs ↔ Runs text runs := by
  have htokens : ∀ runs, Runs text runs → tokens text = runs := by
    intro runs h
    induction h with
    | nil => rfl
    | separator hc _ ih => simpa [tokens, pieces_of_separator hc] using ih
    | @run run rest runs hne hc hend _ ih =>
      obtain ⟨more, hp, ht⟩ := pieces_of_end hend
      rw [tokens, pieces_append hc hp, List.append_nil,
        List.filter_cons_of_pos (by simpa using hne), ← ht, ih]
  refine ⟨?_, htokens runs⟩
  rintro rfl
  obtain ⟨runs, h⟩ := exists_runs text
  rwa [htokens runs h]

end Options

namespace Setting

/-- What a token sets: a flag, or a name, an equals sign and a number. -/
inductive Sets : List Char → Setting → Prop
  | flush : Sets "flushDenorms".toList .flush
  | legacy : Sets "legacy_default".toList .legacy
  | judge {m : Method} {value : List Char} {x : Double}
    (hv : Binary.ofChars? .double value = some x)
      (hf : x.isFinite) (hn : x.lt (.zero false) = false) :
      Sets ((ValueOption.judge m).name.toList ++ '=' :: value) (.judge m x)
  | minimum {value : List Char} {x : Double} (hv : Binary.ofChars? .double value = some x) :
      Sets ("minf".toList ++ '=' :: value) (.minimum x)
  | maximum {value : List Char} {x : Double} (hv : Binary.ofChars? .double value = some x) :
      Sets ("maxf".toList ++ '=' :: value) (.maximum x)

/-- How a token is wrong: a value that is missing, is no number or is no tolerance, or else an
unknown token. -/
inductive Offends : List Char → OptionError → Prop
  | missing (o : ValueOption) : Offends o.name.toList (.missing o.name)
  | number (o : ValueOption) {value : List Char} (hv : Binary.ofChars? .double value = none) :
      Offends (o.name.toList ++ '=' :: value) (.number o.name (String.ofList value))
  | precision {m : Method} {value : List Char} {x : Double}
      (hv : Binary.ofChars? .double value = some x)
      (hx : x.isFinite = false ∨ x.lt (.zero false)) :
      Offends ((ValueOption.judge m).name.toList ++ '=' :: value) (.precision x)
  | unknown {token : List Char} (hflush : token ≠ "flushDenorms".toList)
      (hlegacy : token ≠ "legacy_default".toList) (hbare : ∀ o : ValueOption, token ≠ o.name.toList)
      (hvalue : ∀ (o : ValueOption) (value : List Char), token ≠ o.name.toList ++ '=' :: value) :
      Offends token (.unknown (String.ofList token))

theorem ofName?_eq_some_iff {cs : List Char} {o : ValueOption} :
    ValueOption.ofName? cs = some o ↔ cs = o.name.toList := by
  constructor
  · intro h
    rw [ValueOption.ofName?] at h
    have hp := List.find?_some h
    exact (of_decide_eq_true hp).symm
  · rintro rfl
    rcases o with m | _ | _
    · cases m <;> rfl
    · rfl
    · rfl

theorem ofName?_eq_none_iff {cs : List Char} :
    ValueOption.ofName? cs = none ↔ ∀ o : ValueOption, cs ≠ o.name.toList := by
  rw [← Option.not_isSome_iff_eq_none, Option.isSome_iff_exists, not_exists]
  exact forall_congr' fun o => not_congr ofName?_eq_some_iff

theorem not_mem_name (o : ValueOption) : '=' ∉ o.name.toList := by
  rcases o with m | _ | _
  · cases m <;> decide
  all_goals decide

theorem span_named (o : ValueOption) (value : List Char) :
    (o.name.toList ++ '=' :: value).takeWhile (fun c => decide (c ≠ '=')) = o.name.toList ∧
      (o.name.toList ++ '=' :: value).dropWhile (fun c => decide (c ≠ '=')) = '=' :: value := by
  have hname : ∀ c ∈ o.name.toList, decide (c ≠ '=') = true := by
    intro c hc
    simpa using fun h : c = '=' => not_mem_name o (h ▸ hc)
  rw [List.takeWhile_append_of_pos hname, List.dropWhile_append_of_pos hname]
  simp

theorem ofToken_named (o : ValueOption) (value : List Char) :
    ofToken (o.name.toList ++ '=' :: value) = ofValue o value := by
  obtain ⟨hname, hvalue⟩ := span_named o value
  rw [ofToken, hvalue, hname]
  simp only [ofName?_eq_some_iff.mpr rfl]

theorem ofValue_reads (o : ValueOption) (value : List Char) :
    match ofValue o value with
    | .ok s => Sets (o.name.toList ++ '=' :: value) s
    | .error e => Offends (o.name.toList ++ '=' :: value) e := by
  rw [ofValue]
  cases hv : Binary.ofChars? .double value with
  | none => exact .number o hv
  | some x =>
    cases o with
    | judge m =>
      by_cases hx : isPrecision x
      · have hboth : x.isFinite ∧ x.lt (.zero false) = false := by simpa [isPrecision] using hx
        simpa only [hx, if_true] using .judge hv hboth.1 hboth.2
      · have hone : x.isFinite = false ∨ x.lt (.zero false) := by
          rw [isPrecision, Bool.and_eq_true, not_and_or] at hx
          simpa using hx
        simpa only [hx, if_false] using .precision hv hone
    | minimum => exact .minimum hv
    | maximum => exact .maximum hv

theorem ofFlag_reads {token : List Char} (hequals : '=' ∉ token) :
    match ofFlag token with
    | .ok s => Sets token s
    | .error e => Offends token e := by
  rw [ofFlag]
  split_ifs with hf hl
  · exact hf ▸ .flush
  · exact hl ▸ .legacy
  · cases ho : ValueOption.ofName? token with
    | some o =>
      obtain rfl := ofName?_eq_some_iff.mp ho
      exact .missing o
    | none =>
      refine .unknown hf hl (ofName?_eq_none_iff.mp ho) ?_
      rintro o value rfl
      exact hequals (by simp)

theorem ofToken_reads (token : List Char) :
    match ofToken token with
    | .ok s => Sets token s
    | .error e => Offends token e := by
  have hsplit := List.takeWhile_append_dropWhile (p := fun c => decide (c ≠ '=')) (l := token)
  have hname : '=' ∉ token.takeWhile fun c => decide (c ≠ '=') := by
    intro hm
    simpa using List.mem_takeWhile_imp hm
  cases hd : token.dropWhile fun c => decide (c ≠ '=') with
  | nil =>
    rw [hd, List.append_nil] at hsplit
    rw [ofToken, hd]
    exact ofFlag_reads (hsplit ▸ hname)
  | cons c value =>
    have hc := List.head?_dropWhile_not (fun c => decide (c ≠ '=')) token
    rw [hd] at hc
    obtain rfl : c = '=' := by simpa using hc
    rw [hd] at hsplit
    cases ho : ValueOption.ofName? (token.takeWhile fun c => decide (c ≠ '=')) with
    | some o =>
      rw [ofName?_eq_some_iff.mp ho] at hsplit
      rw [← hsplit, ofToken_named]
      exact ofValue_reads o value
    | none =>
      rw [ofToken, hd]
      simp only [ho]
      have hmem : '=' ∈ token := hsplit ▸ List.mem_append_right _ List.mem_cons_self
      refine .unknown ?_ ?_ ?_ ?_
      · rintro rfl
        exact absurd hmem (by decide)
      · rintro rfl
        exact absurd hmem (by decide)
      · rintro o rfl
        exact not_mem_name o hmem
      · rintro o value rfl
        rw [(span_named o _).1] at ho
        exact ofName?_eq_none_iff.mp ho o rfl

theorem ofToken_of_sets {token : List Char} {s : Setting} (h : Sets token s) :
    ofToken token = .ok s := by
  cases h with
  | flush => rfl
  | legacy => rfl
  | @judge m value x hv hf hn =>
    have hx : isPrecision x := by simp [isPrecision, hf, hn]
    rw [ofToken_named, ofValue, hv]
    exact if_pos hx
  | @minimum value x hv =>
    change ofToken (ValueOption.minimum.name.toList ++ '=' :: value) = _
    rw [ofToken_named, ofValue, hv]
  | @maximum value x hv =>
    change ofToken (ValueOption.maximum.name.toList ++ '=' :: value) = _
    rw [ofToken_named, ofValue, hv]

theorem ofToken_eq_ok_iff {token : List Char} {s : Setting} :
    ofToken token = .ok s ↔ Sets token s := by
  refine ⟨fun h => ?_, ofToken_of_sets⟩
  have hreads := ofToken_reads token
  rwa [h] at hreads

theorem ofToken_of_offends {token : List Char} {e : OptionError} (h : Offends token e) :
    ofToken token = .error e := by
  cases h with
  | missing o =>
    rcases o with m | _ | _
    · cases m <;> rfl
    all_goals rfl
  | number o hv => rw [ofToken_named, ofValue, hv]
  | @precision m value x hv hx =>
    have hn : ¬isPrecision x := by simpa [isPrecision, imp_iff_not_or] using hx
    rw [ofToken_named, ofValue, hv]
    exact if_neg hn
  | unknown hflush hlegacy hbare hvalue =>
    have hreads := ofToken_reads token
    cases ht : ofToken token with
    | ok s =>
      rw [ht] at hreads
      cases hreads with
      | flush => exact absurd rfl hflush
      | legacy => exact absurd rfl hlegacy
      | judge => exact absurd rfl (hvalue _ _)
      | minimum => exact absurd rfl (hvalue .minimum _)
      | maximum => exact absurd rfl (hvalue .maximum _)
    | error e =>
      rw [ht] at hreads
      cases hreads with
      | missing => exact absurd rfl (hbare _)
      | number => exact absurd rfl (hvalue _ _)
      | precision => exact absurd rfl (hvalue _ _)
      | unknown => rfl

theorem ofToken_eq_error_iff {token : List Char} {e : OptionError} :
    ofToken token = .error e ↔ Offends token e := by
  refine ⟨fun h => ?_, ofToken_of_offends⟩
  have hreads := ofToken_reads token
  rwa [h] at hreads

end Setting

end Conformance.Comparison
