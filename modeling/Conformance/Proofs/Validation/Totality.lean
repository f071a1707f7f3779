import Mathlib
import Conformance.Proofs.Comparison.Atomicity
import Conformance.Proofs.Validation.Reads
import Conformance.Proofs.Value.Buffer

namespace Conformance

namespace Value

variable {ty : ValueType} {bytes : List UInt8}

theorem mapM_read_pieces {count : Nat} (h : ty.size * count ≤ bytes.length) :
    (Bytes.pieces ty.size count bytes).mapM (read ty) =
      .ok ((Bytes.pieces ty.size count bytes).map (ofBytes ty)) := by
  apply mapM_eq_ok
  intro piece hpiece
  have hlength := Bytes.length_of_mem_pieces h hpiece
  exact if_neg (by omega)

theorem mapM_read_split : (Bytes.pieces ty.size (bytes.length / ty.size) bytes).mapM (read ty) =
    .ok (split ty bytes) := mapM_read_pieces (Nat.mul_div_le _ _)

end Value

namespace Validation

open Comparison

variable {ty : ValueType} {expected actual : List UInt8} {options : Options}

theorem buffer_result_cases (ty : ValueType) (expected actual : List UInt8) (options : Options) :
    (buffer ty expected actual options).result =
      if expected.length ≠ actual.length then
        .error (.mismatch (.sizes expected.length actual.length))
      else if expected.length % ty.size ≠ 0 then .error (.mismatch (.ragged expected.length ty))
      else .ok (bufferRun ty expected actual options).2.summary := by
  split_ifs with hl hm
  · rw [buffer, if_pos hl]
    rfl
  · rw [buffer, if_neg hl, if_pos hm]
    rfl
  · exact buffer_result (not_not.mp hl) (not_not.mp hm)

theorem split_eq_nil_iff (hm : expected.length % ty.size = 0) :
    Value.split ty expected = [] ↔ expected = [] := by
  rw [← List.length_eq_zero_iff, Value.length_split, Nat.div_eq_zero_iff_lt ty.size_pos,
    ← List.length_eq_zero_iff]
  constructor
  · intro hlt
    rwa [Nat.mod_eq_of_lt hlt] at hm
  · intro hzero
    rw [hzero]
    exact ty.size_pos

theorem values_split (hl : expected.length = actual.length) :
    values (Value.split ty expected) (Value.split ty actual) options =
      judgePairs
        ((Value.split ty expected).head?.elim (.start options) fun v =>
          (Session.start options).reset v.ty)
        (bufferPairs ty expected actual) := by
  have hcounts : (Value.split ty expected).length = (Value.split ty actual).length := by
    rw [Value.length_split, Value.length_split, hl]
  rw [values, if_neg (not_not_intro hcounts)]
  rfl

/-- Values that are there have the type that the buffers are read with. -/
theorem values_split_eq_buffer (hl : expected.length = actual.length)
    (hm : expected.length % ty.size = 0) (hne : expected ≠ []) :
    values (Value.split ty expected) (Value.split ty actual) options =
      buffer ty expected actual options := by
  rw [values_split hl, buffer_eq_judgePairs hl hm]
  cases hv : Value.split ty expected with
  | nil => exact absurd ((split_eq_nil_iff hm).mp hv) hne
  | cons v rest =>
    have hmem : v ∈ Value.split ty expected := by simp [hv]
    have hty : v.ty = ty := Value.ty_of_mem_split hmem
    rw [List.head?_cons, Option.elim_some, hty]

theorem valueType_bufferRun (ty : ValueType) (expected actual : List UInt8) (options : Options) :
    (bufferRun ty expected actual options).2.valueType = some ty :=
  Session.valueType_run_compares rfl (bufferPairs_typed ty expected actual)

theorem values_split_result (hl : expected.length = actual.length)
    (hm : expected.length % ty.size = 0) :
    (values (Value.split ty expected) (Value.split ty actual) options).result =
      .ok { (bufferRun ty expected actual options).2.summary with
        valueType := if expected = [] then none else some ty } := by
  by_cases hne : expected = []
  · subst hne
    obtain rfl := List.eq_nil_of_length_eq_zero hl.symm
    have hnil : Value.split ty [] = [] := (split_eq_nil_iff hm).mpr rfl
    rw [values_split hl, bufferRun, bufferPairs, hnil]
    rfl
  · rw [values_split_eq_buffer hl hm hne, buffer_result hl hm, if_neg hne,
      ← valueType_bufferRun ty expected actual options]
    rfl

theorem length_bufferPairs (hl : expected.length = actual.length) :
    (bufferPairs ty expected actual).length = expected.length / ty.size := by
  rw [bufferPairs, List.length_zip, Value.length_split, Value.length_split, hl, Nat.min_self]

theorem checks_bufferRun (hl : expected.length = actual.length) :
    (bufferRun ty expected actual options).2.checks = expected.length / ty.size := by
  rw [(bufferRun_tracks ty expected actual options).count, bufferChecks_eq, judgedBy,
    List.length_map, length_bufferPairs hl]

def operations (ty : ValueType) (pairs : List (Value × Value)) : List Operation :=
  .reset ty :: pairs.map fun p => .compare p.1 p.2

/-- A session that is changed in place faults at none of them. -/
theorem inPlace_bufferPairs (ty : ValueType) (options : Options)
    (hl : expected.length = actual.length) (hfits : expected.length < UInt64.size) :
    let run := InPlace.run (.start options) (operations ty (bufferPairs ty expected actual))
    (∀ r ∈ run.1, ∃ o, r = .ok o) ∧ run.2.session = (bufferRun ty expected actual options).2 := by
  intro run
  let s := (InPlace.State.start options).cleared ty
  let compares := (bufferPairs ty expected actual).map fun p => Operation.compare p.1 p.2
  have hrun : run = (.ok .cleared :: (InPlace.run s compares).1, (InPlace.run s compares).2) := by
    rw [show run = InPlace.run _ (.reset ty :: compares) from rfl, InPlace.run,
      InPlace.exec_perform_reset]
  have hcount : compares.length < UInt64.size := by
    rw [List.length_map, length_bufferPairs hl]
    exact (Nat.div_le_self _ _).trans_lt hfits
  have hroom : s.checks.toNat + compares.length < UInt64.size := (Nat.zero_add _).trans_lt hcount
  obtain ⟨hresults, hfinal⟩ := InPlace.run_agrees (InPlace.sound_cleared _ ty) hroom
  rw [(run_bufferPairs ty expected actual s.session rfl).1, List.map_map] at hresults
  rw [hrun]
  refine ⟨?_, hfinal⟩
  dsimp only
  rw [List.forall_mem_cons, hresults, List.forall_mem_map]
  exact ⟨⟨_, rfl⟩, fun c _ => ⟨_, rfl⟩⟩

/-- Whatever stands in two buffers, only their lengths can be refused, and nothing else
fails. The summary is that of the values they hold, but for the type if they hold none: of a
buffer it is known. -/
theorem buffer_total (ty : ValueType) (expected actual : List UInt8) (options : Options) :
    let result := (buffer ty expected actual options).result
    (∀ failure, result = .error failure → ∃ cause, failure = .mismatch cause) ∧
    ((∃ failure, result = .error failure) ↔
      expected.length ≠ actual.length ∨ expected.length % ty.size ≠ 0) ∧
    (expected.length = actual.length → expected.length % ty.size = 0 →
      ∃ es as summary flat,
        Value.readAll ty expected = .ok es ∧ Value.readAll ty actual = .ok as ∧
        (Bytes.pieces ty.size (expected.length / ty.size) expected).mapM (Value.read ty) = .ok es ∧
        (Bytes.pieces ty.size (actual.length / ty.size) actual).mapM (Value.read ty) = .ok as ∧
        result = .ok summary ∧ (values es as options).result = .ok flat ∧
        summary.checks = expected.length / ty.size ∧ summary.valueType = some ty ∧
        flat = { summary with valueType := if expected = [] then none else some ty } ∧
        (expected.length < UInt64.size →
          let run := InPlace.run (.start options) (operations ty (es.zip as))
          (∀ r ∈ run.1, ∃ o, r = .ok o) ∧ run.2.session.summary = summary)) := by
  intro result
  have hresult : result = _ := buffer_result_cases ty expected actual options
  refine ⟨?_, ?_, fun hl hm => ?_⟩
  · intro failure hfailure
    rw [hresult] at hfailure
    split_ifs at hfailure
    · exact ⟨_, (Except.error.inj hfailure).symm⟩
    · exact ⟨_, (Except.error.inj hfailure).symm⟩
  · rw [hresult]
    split_ifs with hl hm <;> simp_all
  · refine ⟨_, _, _, _, Value.readAll_eq hm, Value.readAll_eq (hl ▸ hm), Value.mapM_read_split,
      Value.mapM_read_split, buffer_result hl hm, values_split_result hl hm, checks_bufferRun hl,
      valueType_bufferRun ty expected actual options, rfl, fun hfits => ?_⟩
    obtain ⟨hreturned, hsession⟩ := inPlace_bufferPairs ty options hl hfits
    exact ⟨hreturned, congrArg Session.summary hsession⟩

/-- Two buffers of no bytes hold no values, but their type is known. -/
example : (buffer (.scalar .f32) [] [] {}).result.toOption.map Summary.valueType =
      some (some (.scalar .f32)) ∧
    (values [] [] {}).result.toOption.map Summary.valueType = some none := by decide

end Validation

end Conformance
