import Mathlib
import Conformance.Validation
import Conformance.Proofs.Comparison.Stream
import Conformance.Proofs.Value.Lanes

namespace Conformance

namespace Validation

open Comparison

variable (ty : ValueType) (expected actual : List UInt8) (options : Options)

def bufferPairs : List (Value × Value) := (Value.split ty expected).zip (Value.split ty actual)

def bufferRun : List Outcome × Session :=
  (Session.start options).run
    (.reset ty :: (bufferPairs ty expected actual).map fun p => .compare p.1 p.2)

/-- The checks of that run, in their order. -/
def bufferChecks : List Check := sinceReset (bufferRun ty expected actual options).1

theorem bufferPairs_typed : ∀ p ∈ bufferPairs ty expected actual, p.1.ty = ty ∧ p.2.ty = ty :=
  fun _ hp =>
    ⟨Value.ty_of_mem_split (List.of_mem_zip hp).1, Value.ty_of_mem_split (List.of_mem_zip hp).2⟩

theorem run_bufferPairs (s : Session) (hs : s.valueType = some ty) :
    (s.run ((bufferPairs ty expected actual).map fun p => .compare p.1 p.2)).1 =
        (judgedBy s.rule (bufferPairs ty expected actual)).map .judged ∧
      (s.compareAll (bufferPairs ty expected actual)).result =
        .ok (s.run ((bufferPairs ty expected actual).map fun p => .compare p.1 p.2)).2 :=
  Session.run_compares hs (bufferPairs_typed ty expected actual)

theorem bufferChecks_eq :
    bufferChecks ty expected actual options =
      judgedBy ((Session.start options).reset ty).rule (bufferPairs ty expected actual) :=
  Session.sinceReset_run_start options (.inr rfl) (bufferPairs_typed ty expected actual)

theorem bufferRun_tracks :
    (bufferRun ty expected actual options).2.Tracks (bufferChecks ty expected actual options) :=
  Session.tracks_run_start _ _

variable {ty expected actual options}

theorem judgePairs_result {s t : Session} {pairs : List (Value × Value)}
    (h : (s.compareAll pairs).result = .ok t) : (judgePairs s pairs).result = .ok t.summary := by
  rw [judgePairs, h]
  rfl

/-- Buffers of one length that hold whole values are judged pair by pair. -/
theorem buffer_eq_judgePairs (hl : expected.length = actual.length)
    (hm : expected.length % ty.size = 0) :
    buffer ty expected actual options =
      judgePairs ((Session.start options).reset ty) (bufferPairs ty expected actual) := by
  have hma : actual.length % ty.size = 0 := hl ▸ hm
  simp only [buffer, hl, hma, ne_eq, not_true_eq_false, if_false, Value.readAll_eq hm,
    Value.readAll_eq hma]
  rfl

theorem buffer_result (hl : expected.length = actual.length) (hm : expected.length % ty.size = 0) :
    (buffer ty expected actual options).result =
      .ok (bufferRun ty expected actual options).2.summary := by
  rw [buffer_eq_judgePairs hl hm]
  exact judgePairs_result
    (run_bufferPairs ty expected actual ((Session.start options).reset ty) rfl).2

end Validation

end Conformance
