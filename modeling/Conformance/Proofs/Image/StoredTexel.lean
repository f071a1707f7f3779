import Mathlib
import Conformance.Proofs.Image.Sampling
import Conformance.Proofs.Image.Saturation

namespace Conformance

theorem ImageKind.coordinateCount_le (k : ImageKind) : k.coordinateCount ≤ 3 := by
  cases k <;> decide

theorem ImageKind.layerAxis?_eq_some_iff {k : ImageKind} {n : Nat} :
    k.layerAxis? = some n ↔ k.axes[n]? = some .layer := by
  cases k <;> rcases n with _ | _ | _ | n <;> simp [layerAxis?, axes, List.findIdx?_cons]

theorem Position.ofList_inj {a b : List UInt32} (hl : a.length = b.length) (h3 : a.length ≤ 3)
    (h : ofList a = ofList b) : a = b := by
  have hget : ∀ n < 3, a.getD n 0 = b.getD n 0 := by
    simp only [ofList, Position.mk.injEq] at h
    obtain ⟨h0, h1, h2⟩ := h
    intro n hn
    interval_cases n <;> assumption
  apply List.ext_getElem hl
  intro n ha hb
  have h := hget n (by omega)
  rwa [List.getD_eq_getElem _ _ ha, List.getD_eq_getElem _ _ hb] at h

namespace Raster

variable {mem next : Raster} {p q : Position} {v : Value}

theorem contains_ofList {coords : List UInt32} (h : mem.shape.Contains coords) :
    mem.contains (.ofList coords) := by
  rw [contains, decide_eq_true_eq]
  exact ⟨h.getD_lt 0, h.getD_lt 1, h.getD_lt 2⟩

theorem shows_store (hf : mem.Fits) (h : mem.store p v = .ok next) :
    mem.contains p ∧ mem.texelSize ≤ v.size ∧
      mem.Shows (Function.update (fun q => mem.bytesFrom (mem.start q) mem.texelSize) p
        (mem.lowBytes v)) next := by
  rw [store_eq] at h
  split_ifs at h with hv hp
  obtain rfl := Except.ok.inj h
  exact ⟨hp, Nat.le_of_not_lt hv, (Shows.refl mem).overwrite hf hp⟩

theorem texelBytes_store (hf : mem.Fits) (h : mem.store p v = .ok next) :
    next.texelBytes p = .ok (mem.lowBytes v) := by
  obtain ⟨hp, -, hs⟩ := shows_store hf h
  rw [hs.texelBytes, if_pos hp, Function.update_self]

/-- A store changes no other texel. -/
theorem texelBytes_store_of_ne (hf : mem.Fits) (h : mem.store p v = .ok next) (hq : q ≠ p) :
    next.texelBytes q = mem.texelBytes q := by
  obtain ⟨-, -, hs⟩ := shows_store hf h
  rw [hs.texelBytes, texelBytes_eq, Function.update_of_ne hq]

end Raster

namespace SampledImage

variable {im : SampledImage} {mem next : Raster} {coords : List UInt32} {v : Value}

def moved (im : SampledImage) (mem : Raster) : SampledImage := { im with texels := mem.texelBytes }

theorem encode_of_write {color : Color} (hin : im.shape.Contains coords)
    (h : im.write coords color = .ok v) : Texel.encode im.order im.type color = .ok v := by
  rw [write, position_eq hin] at h
  exact h

/-- What was stored is loaded. -/
theorem load_store (h : im.Reads mem) (hf : mem.Fits) (hin : im.shape.Contains coords)
    (hs : mem.store (.ofList coords) v = .ok next) :
    (moved im next).load coords =
      .ok (Texel.decode im.order im.type (Bytes.ofNat (texelSize im.order im.type) v.toNat)) := by
  have hlow : next.texelBytes (.ofList coords) =
      .ok (Bytes.ofNat (texelSize im.order im.type) v.toNat) := by
    rw [Raster.texelBytes_store hf hs, Raster.lowBytes, h.texelSize]
  have hload : (moved im next).load coords =
      next.texelBytes (.ofList coords) >>= Texel.read im.order im.type := load_eq hin
  rw [hload, hlow]
  exact if_neg (by simp)

theorem load_store_of_ne (hf : mem.Fits) (ht : im.texels = mem.texelBytes)
    (hin : im.shape.Contains coords) (hs : mem.store (.ofList coords) v = .ok next)
    {other : List UInt32} (hother : im.shape.Contains other) (hne : other ≠ coords) :
    (moved im next).load other = im.load other := by
  have hcount : other.length = coords.length := hother.count.trans hin.count.symm
  have h3 : other.length ≤ 3 := hother.count.le.trans (ImageKind.coordinateCount_le _)
  have hp : Position.ofList other ≠ .ofList coords := fun h => hne (Position.ofList_inj hcount h3 h)
  have hload : (moved im next).load other =
      next.texelBytes (.ofList other) >>= Texel.read im.order im.type := load_eq hother
  rw [hload, Raster.texelBytes_store_of_ne hf hs hp, load_eq hother, ht]

/-- A color that is written can be stored, and is loaded as the texel that was stored is read: with
integer channels saturated. All other texels are loaded as before. -/
theorem write_load {kind : ImageKind} {size : ImageSize} {shape : ImageShape}
    {order : ChannelOrder} {type : ChannelType} {sampler : Sampler} {new : Raster}
    (hs : ImageShape.make kind size = .ok shape) (hc : checkImage kind order type sampler = .ok ())
    (hi : Raster.tight shape order type = .ok new ∨
      ∃ rowPitch slicePitch, Raster.withPitch shape order type rowPitch slicePitch = .ok new)
    (contents : Nat → UInt8) {coords : List UInt32} (hin : shape.Contains coords) {color : Color}
    (hk : color.kind = type.kind) :
    let mem : Raster := { new with byte := contents }
    ∃ im v next after loaded,
      make shape order type sampler mem.texelBytes = .ok im ∧
      im.write coords color = .ok v ∧
      mem.store (.ofList coords) v = .ok next ∧
      make shape order type sampler next.texelBytes = .ok after ∧
      after.load coords = .ok loaded ∧ Texel.read order type v.toBytes = .ok loaded ∧
      Texel.Saturates order type color loaded ∧
      ∀ other, shape.Contains other → other ≠ coords →
        ∃ kept, im.load other = .ok kept ∧ after.load other = .ok kept := by
  intro mem
  have hnew : new.IsNew shape order type := Raster.isNew_of_made hi
  have hfits : mem.Fits := hnew.fits.of_layout contents
  have hsize : mem.texelSize = texelSize order type := hnew.texelSize_eq
  have hinside : mem.contains (.ofList coords) := Raster.contains_ofList (hnew.shape_eq ▸ hin)
  have hformat := (of_checkImage hc).1
  have hreads := hnew.reads hs hc contents
  obtain ⟨v, hv, hholds⟩ := hreads.write_returns hin hk
  obtain ⟨next, hnext⟩ := Raster.exists_store hinside hholds
  obtain ⟨-, hroom, -⟩ := Raster.shows_store hfits hnext
  rw [hsize] at hroom
  have hencode : Texel.encode order type color = .ok v := encode_of_write hin hv
  have hload := load_store hreads hfits hin hnext
  refine ⟨_, v, next, _, _, make_eq hs hc _, hv, hnext, make_eq hs hc _, hload, ?_,
    Texel.encode_saturates hformat hencode, ?_⟩
  · have hl : ¬v.toBytes.length < texelSize order type := by
      rw [Value.toBytes, Bytes.length_ofNat]
      omega
    rw [Texel.read, if_neg hl, Texel.decode_toBytes hroom]
  · intro other hother hne
    obtain ⟨kept, hkept, -⟩ := hreads.load_returns hother
    have hsame := load_store_of_ne hfits hreads.texels hin hnext hother hne
    exact ⟨kept, hkept, hsame.trans hkept⟩

theorem write_load_saturated :
    let shape : ImageShape := ⟨.plane, ⟨2, 1, 1, 1⟩⟩
    let new : Raster := ⟨shape, 3, 7, 8, fun _ => 0⟩
    let mem : Raster := { new with byte := fun _ => 255 }
    let color : Color := .signed ⟨300, -200, 5, 7⟩
    ImageShape.make .plane ⟨2, 1, 1, 1⟩ = .ok shape ∧
      checkImage .plane .rgx .signedInt8 {} = .ok () ∧
      Raster.withPitch shape .rgx .signedInt8 7 8 = .ok new ∧ shape.Contains [1, 0] ∧
      color.kind = ChannelType.signedInt8.kind ∧
      ∃ im v next after kept,
        make shape .rgx .signedInt8 {} mem.texelBytes = .ok im ∧
        im.write [1, 0] color = .ok v ∧ mem.store (.ofList [1, 0]) v = .ok next ∧
        make shape .rgx .signedInt8 {} next.texelBytes = .ok after ∧
        after.load [1, 0] = .ok (.signed kept) ∧ kept.r.toInt = 127 ∧ kept.g.toInt = -128 ∧
        kept.b.toInt = 0 ∧ kept.a.toInt = 1 := by
  intro shape new mem color
  have hs : ImageShape.make .plane ⟨2, 1, 1, 1⟩ = .ok shape := rfl
  have hc : checkImage .plane .rgx .signedInt8 {} = .ok () := rfl
  have hi : Raster.withPitch shape .rgx .signedInt8 7 8 = .ok new := rfl
  have hin : shape.Contains [1, 0] := ⟨rfl, by decide⟩
  have hk : color.kind = ChannelType.signedInt8.kind := rfl
  obtain ⟨im, v, next, after, loaded, hmake, hwrite, hstore, hafter, hload, -, hsat, -⟩ :=
    write_load hs hc (.inr ⟨7, 8, hi⟩) (fun _ => 255) hin hk
  obtain ⟨kept, rfl, hkept⟩ := hsat.signed 8 ⟨300, -200, 5, 7⟩ rfl rfl
  exact ⟨hs, hc, hi, hin, hk, im, v, next, after, kept, hmake, hwrite, hstore, hafter, hload,
    hkept .red, hkept .green, hkept .blue, hkept .alpha⟩

end SampledImage

end Conformance
