import Mathlib
import Conformance.Proofs.Image.Layout

namespace Conformance

inductive Access where
  | store (p : Position) (v : Value)
  | fill (v : Value)
  | fetch (p : Position)

inductive Reply where
  | done
  | texel (bytes : List UInt8)
  | fault (cause : ImageFault)

abbrev Texels := Position → List UInt8

namespace Raster

/-- After a fault the image is the one from before. -/
def settle (im : Raster) : Except ImageFault Raster → Reply × Raster
  | .ok next => (.done, next)
  | .error cause => (.fault cause, im)

def perform (im : Raster) : Access → Reply × Raster
  | .store p v => im.settle (im.store p v)
  | .fill v => im.settle (im.fill v)
  | .fetch p =>
    match im.texelBytes p with
    | .ok bytes => (.texel bytes, im)
    | .error cause => (.fault cause, im)

def run (im : Raster) : List Access → List Reply × Raster
  | [] => ([], im)
  | a :: rest =>
    let step := im.perform a
    let later := step.2.run rest
    (step.1 :: later.1, later.2)

def lowBytes (im : Raster) (v : Value) : List UInt8 := Bytes.ofNat im.texelSize v.toNat

/-- An access to a map of texels instead of the image. -/
def performOn (im : Raster) (texels : Texels) : Access → Reply × Texels
  | .store p v =>
    if v.size < im.texelSize then (.fault (.narrow v.ty im.texelSize), texels)
    else if im.contains p then (.done, Function.update texels p (im.lowBytes v))
    else (.fault (.outside p im.shape), texels)
  | .fill v =>
    if v.size < im.texelSize then (.fault (.narrow v.ty im.texelSize), texels)
    else (.done, fun _ => im.lowBytes v)
  | .fetch p => (if im.contains p then .texel (texels p) else .fault (.outside p im.shape), texels)

def runOn (im : Raster) (texels : Texels) : List Access → List Reply × Texels
  | [] => ([], texels)
  | a :: rest =>
    let step := im.performOn texels a
    let later := im.runOn step.2 rest
    (step.1 :: later.1, later.2)

/-- An image of the same layout that holds the given texels and agrees outside of them. -/
structure Shows (im : Raster) (texels : Texels) (now : Raster) : Prop where
  layout : now = { im with byte := now.byte }
  texel : ∀ p, im.contains p → now.bytesFrom (im.start p) im.texelSize = texels p
  rest : ∀ i < im.length, (∀ p, ¬im.Covers p i) → now.byte i = im.byte i

variable {im now : Raster} {texels : Texels} {v : Value} {p : Position}

theorem getElem?_bytesFrom {start count k : Nat} (hk : k < count) :
    (im.bytesFrom start count)[k]? = some (im.byte (start + k)) := by
  simp [bytesFrom, hk]

theorem length_bytesFrom (start count : Nat) : (im.bytesFrom start count).length = count := by
  simp [bytesFrom]

theorem bytesFrom_eq {start count : Nat} {bytes : List UInt8} (hl : bytes.length = count)
    (h : ∀ k < count, bytes[k]? = some (im.byte (start + k))) :
    im.bytesFrom start count = bytes := by
  apply List.ext_getElem?
  intro k
  by_cases hk : k < count
  · rw [getElem?_bytesFrom hk, h k hk]
  · rw [List.getElem?_eq_none (by rw [length_bytesFrom]; omega), List.getElem?_eq_none (by omega)]

theorem bytesFrom_congr {start count : Nat}
    (h : ∀ k < count, now.byte (start + k) = im.byte (start + k)) :
    now.bytesFrom start count = im.bytesFrom start count := by
  apply bytesFrom_eq (length_bytesFrom start count)
  intro k hk
  rw [getElem?_bytesFrom hk, h k hk]

theorem byte_overwrite (start : Nat) (patch : List UInt8) (i : Nat) :
    (im.overwrite start patch.toArray).byte i =
      if i < start then im.byte i else patch[i - start]?.getD (im.byte i) := by
  simp [overwrite]

theorem take_toBytes (h : im.texelSize ≤ v.size) : v.toBytes.take im.texelSize = im.lowBytes v :=
  Bytes.take_ofNat h _

theorem texelOf_eq (im : Raster) (v : Value) :
    im.texelOf v = if v.size < im.texelSize then .error (.narrow v.ty im.texelSize)
      else .ok (im.lowBytes v).toArray := by
  rw [texelOf]
  split_ifs with h
  · rfl
  · rw [take_toBytes (Nat.le_of_not_lt h)]

theorem store_eq (im : Raster) (p : Position) (v : Value) :
    im.store p v = if v.size < im.texelSize then .error (.narrow v.ty im.texelSize)
      else if im.contains p then .ok (im.overwrite (im.start p) (im.lowBytes v).toArray)
      else .error (.outside p im.shape) := by
  rw [store, offset]
  rw [texelOf_eq]
  split_ifs <;> rfl

def filled (im : Raster) (v : Value) : Raster :=
  { im with byte := fun i => ((im.place? i).bind ((im.lowBytes v)[·]?)).getD (im.byte i) }

theorem fill_eq (im : Raster) (v : Value) :
    im.fill v = if v.size < im.texelSize then .error (.narrow v.ty im.texelSize)
      else .ok (im.filled v) := by
  rw [fill]
  rw [texelOf_eq]
  split_ifs with h
  · rfl
  · simp [filled, bind, Except.bind, pure, Except.pure]

theorem texelBytes_eq (im : Raster) (p : Position) :
    im.texelBytes p = if im.contains p then .ok (im.bytesFrom (im.start p) im.texelSize)
      else .error (.outside p im.shape) := by
  rw [texelBytes, offset]
  split_ifs <;> rfl

@[simp]
theorem length_lowBytes (im : Raster) (v : Value) : (im.lowBytes v).length = im.texelSize :=
  Bytes.length_ofNat _ _

theorem byte_overwrite_of_not_covers {i : Nat} (hp : im.contains p) (hi : ¬im.Covers p i) :
    (now.overwrite (im.start p) (im.lowBytes v).toArray).byte i = now.byte i := by
  rw [byte_overwrite]
  split_ifs with h
  · rfl
  · have hle : im.texelSize ≤ i - im.start p := by
      by_contra hlt
      exact hi ⟨hp, by omega, by omega⟩
    rw [List.getElem?_eq_none (by rw [length_lowBytes]; exact hle), Option.getD_none]

theorem perform_of_fault {a : Access} {cause : ImageFault} (h : (im.perform a).1 = .fault cause) :
    (im.perform a).2 = im := by
  cases a with
  | store p v =>
    cases hs : im.store p v <;> simp_all [perform, settle]
  | fill v =>
    cases hs : im.fill v <;> simp_all [perform, settle]
  | fetch p =>
    cases hs : im.texelBytes p <;> simp [perform, hs]

namespace Shows

theorem refl (im : Raster) : im.Shows (fun p => im.bytesFrom (im.start p) im.texelSize) im :=
  ⟨rfl, fun _ _ => rfl, fun _ _ _ => rfl⟩

theorem overwrite (h : im.Shows texels now) (hf : im.Fits) (hp : im.contains p) :
    im.Shows (Function.update texels p (im.lowBytes v))
      (now.overwrite (im.start p) (im.lowBytes v).toArray) where
  layout := by
    rw [h.layout]
    rfl
  texel := by
    intro q hq
    by_cases he : q = p
    · subst he
      rw [Function.update_self]
      apply bytesFrom_eq (length_lowBytes im v)
      intro k hk
      have hkl : k < (im.lowBytes v).length := by rwa [length_lowBytes]
      rw [byte_overwrite, if_neg (by omega), Nat.add_sub_cancel_left, List.getElem?_eq_getElem hkl]
      rfl
    · rw [Function.update_of_ne he, ← h.texel q hq]
      apply bytesFrom_congr
      intro k hk
      apply byte_overwrite_of_not_covers hp
      exact fun hc => he (hf.covers_unique ⟨hq, by omega, by omega⟩ hc)
  rest := by
    intro i hi hout
    rw [byte_overwrite_of_not_covers hp (hout p), h.rest i hi hout]

theorem filled (h : im.Shows texels now) (hf : im.Fits) :
    im.Shows (fun _ => im.lowBytes v) (now.filled v) where
  layout := by
    rw [h.layout]
    rfl
  texel := by
    intro p hp
    apply bytesFrom_eq (length_lowBytes im v)
    intro k hk
    have hkl : k < (im.lowBytes v).length := by rwa [length_lowBytes]
    have hplace : now.place? (im.start p + k) = some k := by
      rw [h.layout]
      exact hf.place?_start hp hk
    have hlow : now.lowBytes v = im.lowBytes v := by
      rw [h.layout]
      rfl
    rw [Raster.filled]
    simp only [hplace, hlow, Option.bind_some, List.getElem?_eq_getElem hkl, Option.getD_some]
  rest := by
    intro i hi hout
    have hplace : now.place? i = none := by
      rw [h.layout, ← Option.not_isSome_iff_eq_none, Option.isSome_iff_exists]
      rintro ⟨k, hk⟩
      obtain ⟨p, hp, -⟩ := hf.covers_of_place? hi hk
      exact hout p hp
    rw [Raster.filled]
    simp only [hplace, Option.bind_none, Option.getD_none, h.rest i hi hout]

theorem texelBytes (h : im.Shows texels now) (p : Position) :
    now.texelBytes p = if im.contains p then .ok (texels p) else .error (.outside p im.shape) := by
  have hs : now.texelBytes p = if im.contains p then .ok (now.bytesFrom (im.start p) im.texelSize)
      else .error (.outside p im.shape) := by
    rw [texelBytes_eq, h.layout]
    rfl
  rw [hs]
  split_ifs with hp
  · rw [h.texel p hp]
  · rfl

/-- An access has the same outcome for the image and for the map. -/
theorem perform (h : im.Shows texels now) (hf : im.Fits) (a : Access) :
    (now.perform a).1 = (im.performOn texels a).1 ∧
      im.Shows (im.performOn texels a).2 (now.perform a).2 := by
  cases a with
  | store p v =>
    have hs : now.store p v = if v.size < im.texelSize then .error (.narrow v.ty im.texelSize)
        else if im.contains p then .ok (now.overwrite (im.start p) (im.lowBytes v).toArray)
        else .error (.outside p im.shape) := by
      rw [store_eq, h.layout]
      rfl
    rw [Raster.perform, performOn, hs]
    split_ifs with hn hp
    · exact ⟨rfl, h⟩
    · exact ⟨rfl, h.overwrite hf hp⟩
    · exact ⟨rfl, h⟩
  | fill v =>
    have hs : now.fill v = if v.size < im.texelSize then .error (.narrow v.ty im.texelSize)
        else .ok (now.filled v) := by
      rw [fill_eq, h.layout]
    rw [Raster.perform, performOn, hs]
    split_ifs with hn
    · exact ⟨rfl, h⟩
    · exact ⟨rfl, h.filled hf⟩
  | fetch p =>
    rw [Raster.perform, performOn, h.texelBytes]
    split_ifs <;> exact ⟨rfl, h⟩

theorem run (h : im.Shows texels now) (hf : im.Fits) (accesses : List Access) :
    (now.run accesses).1 = (im.runOn texels accesses).1 ∧
      im.Shows (im.runOn texels accesses).2 (now.run accesses).2 := by
  induction accesses generalizing texels now with
  | nil => exact ⟨rfl, h⟩
  | cons a rest ih =>
    obtain ⟨hr, hs⟩ := h.perform hf a
    obtain ⟨hrs, hss⟩ := ih hs
    exact ⟨by rw [Raster.run, runOn, hr, hrs], hss⟩

theorem bytes_eq {other : Raster} (h : im.Shows texels now) (ho : im.Shows texels other) :
    now.bytes = other.bytes := by
  have hl : now.length = other.length := by
    rw [h.layout, ho.layout]
    rfl
  have hli : other.length = im.length := by
    rw [ho.layout]
    rfl
  rw [bytes, bytes, hl]
  apply bytesFrom_congr
  intro i hi
  rw [Nat.zero_add]
  by_cases hc : ∃ p, im.Covers p i
  · obtain ⟨p, hp⟩ := hc
    obtain ⟨k, hk, rfl⟩ := Fits.exists_of_covers hp
    have ht := (h.texel p hp.1).trans (ho.texel p hp.1).symm
    have hb := congrArg (·[k]?) ht
    simp only [getElem?_bytesFrom hk, Option.some.injEq] at hb
    exact hb
  · have hout : ∀ p, ¬im.Covers p i := not_exists.mp hc
    rw [h.rest i (hli ▸ hi) hout, ho.rest i (hli ▸ hi) hout]

end Shows

def positions (im : Raster) : List Position :=
  (List.range im.depth).flatMap fun z =>
    (List.range im.height).flatMap fun y =>
      (List.range im.width).map fun x => ⟨.ofNat x, .ofNat y, .ofNat z⟩

def storeEach (im : Raster) (v : Value) : List Position → Reply × Raster
  | [] => (.done, im)
  | p :: rest =>
    match im.store p v with
    | .ok next => next.storeEach v rest
    | .error cause => (.fault cause, im)

theorem contains_of_mem_positions (h : p ∈ im.positions) : im.contains p := by
  simp only [positions, List.mem_flatMap, List.mem_map, List.mem_range] at h
  obtain ⟨z, hz, y, hy, x, hx, rfl⟩ := h
  rw [contains_iff, toNat_ofNat_of_lt hx, toNat_ofNat_of_lt hy, toNat_ofNat_of_lt hz]
  exact ⟨hx, hy, hz⟩

theorem mem_positions_of_contains (h : im.contains p) : p ∈ im.positions := by
  obtain ⟨hx, hy, hz⟩ := (im.contains_iff p).mp h
  simp only [positions, List.mem_flatMap, List.mem_map, List.mem_range]
  refine ⟨p.z.toNat, hz, p.y.toNat, hy, p.x.toNat, hx, ?_⟩
  rw [UInt32.ofNat_toNat, UInt32.ofNat_toNat, UInt32.ofNat_toNat]

namespace Shows

theorem congr {other : Texels} (h : im.Shows texels now)
    (ho : ∀ p, im.contains p → texels p = other p) : im.Shows other now :=
  ⟨h.layout, fun p hp => (h.texel p hp).trans (ho p hp), h.rest⟩

theorem storeEach (h : im.Shows texels now) (hf : im.Fits) (hv : im.texelSize ≤ v.size)
    {places : List Position} (hp : ∀ p ∈ places, im.contains p) :
    (now.storeEach v places).1 = .done ∧
      im.Shows (fun q => if q ∈ places then im.lowBytes v else texels q)
        (now.storeEach v places).2 := by
  induction places generalizing texels now with
  | nil => exact ⟨rfl, h.congr fun _ _ => by simp⟩
  | cons p rest ih =>
    have hpc : im.contains p := hp p (by simp)
    have hs : now.store p v = .ok (now.overwrite (im.start p) (im.lowBytes v).toArray) := by
      have hvn : ¬v.size < im.texelSize := Nat.not_lt.mpr hv
      rw [store_eq, h.layout]
      exact (if_neg hvn).trans (if_pos hpc)
    obtain ⟨hd, hr⟩ := ih (h.overwrite hf hpc) fun q hq => hp q (by simp [hq])
    rw [Raster.storeEach, hs]
    refine ⟨hd, hr.congr fun q _ => ?_⟩
    by_cases hq : q = p
    · simp [hq]
    · simp [hq]

end Shows

theorem storeEach_positions (hf : im.Fits) (hn : im.positions ≠ []) (v : Value) :
    (im.storeEach v im.positions).1 = (im.perform (.fill v)).1 ∧
      (im.storeEach v im.positions).2.bytes = (im.perform (.fill v)).2.bytes := by
  by_cases hv : v.size < im.texelSize
  · obtain ⟨p, rest, hp⟩ := List.exists_cons_of_ne_nil hn
    rw [hp, storeEach, store_eq, if_pos hv, perform, fill_eq, if_pos hv]
    exact ⟨rfl, rfl⟩
  · obtain ⟨hd, hs⟩ := (Shows.refl im).storeEach hf (Nat.le_of_not_lt hv) fun p hp =>
      contains_of_mem_positions hp
    have hall := hs.congr fun q hq => if_pos (mem_positions_of_contains hq)
    rw [perform, fill_eq, if_neg hv]
    exact ⟨hd, hall.bytes_eq ((Shows.refl im).filled hf)⟩

theorem positions_ne_nil (h : ∀ n, 0 < (im.shape.extentAt n).toNat) : im.positions ≠ [] := by
  have h0 : im.contains ⟨0, 0, 0⟩ := (im.contains_iff _).mpr ⟨h 0, h 1, h 2⟩
  exact List.ne_nil_of_mem (mem_positions_of_contains h0)

def blank (im : Raster) : Texels := fun _ => List.replicate im.texelSize 0

theorem IsNew.shows {shape : ImageShape} {order : ChannelOrder} {type : ChannelType}
    (h : im.IsNew shape order type) : im.Shows im.blank im := by
  refine (Shows.refl im).congr fun p _ => bytesFrom_eq (List.length_replicate ..) fun k hk => ?_
  simp [blank, h.byte_eq, hk]

/-- Whatever is done with a new image, it answers like a map from positions to texels. Accesses that
fail change nothing, and bytes outside of all texels stay zero. -/
theorem run_like_map {kind : ImageKind} {size : ImageSize} {shape : ImageShape}
    {order : ChannelOrder} {type : ChannelType} (hs : ImageShape.make kind size = .ok shape)
    (hi : tight shape order type = .ok im ∨
      ∃ rowPitch slicePitch, withPitch shape order type rowPitch slicePitch = .ok im)
    (accesses : List Access) :
    let final := (im.run accesses).2
    im.shape = shape ∧ im.texelSize = Conformance.texelSize order type ∧
    (im.run accesses).1 = (im.runOn im.blank accesses).1 ∧
    (∀ p, final.texelBytes p =
      if im.contains p then .ok ((im.runOn im.blank accesses).2 p) else .error (.outside p shape)) ∧
    (∀ p, im.contains p → im.start p + im.texelSize ≤ final.bytes.length) ∧
    final.bytes.length < UInt64.size / 2 ∧
    (∀ i < final.bytes.length, (∀ p, ¬im.Covers p i) → final.byte i = 0) ∧
    (∀ a cause, (final.perform a).1 = .fault cause → (final.perform a).2.bytes = final.bytes) ∧
    ∀ v, (final.storeEach v final.positions).1 = (final.perform (.fill v)).1 ∧
      (final.storeEach v final.positions).2.bytes = (final.perform (.fill v)).2.bytes := by
  intro final
  have hnew : im.IsNew shape order type := isNew_of_made hi
  obtain ⟨hreplies, hshows⟩ := hnew.shows.run hnew.fits accesses
  have hlayout : final = { im with byte := final.byte } := hshows.layout
  have hlength : final.bytes.length = im.length := by
    rw [bytes, length_bytesFrom, hlayout]
    rfl
  have hfits : final.Fits := by
    rw [hlayout]
    exact hnew.fits.of_layout _
  have hne : final.positions ≠ [] := by
    apply positions_ne_nil
    rw [hlayout]
    exact hnew.shape_eq ▸ ImageShape.extentAt_pos hs
  refine ⟨hnew.shape_eq, hnew.texelSize_eq, hreplies, ?_, ?_, hlength ▸ hnew.fits.memory, ?_, ?_,
    storeEach_positions hfits hne⟩
  · intro p
    rw [hshows.texelBytes, hnew.shape_eq]
  · intro p hp
    rw [hlength]
    exact hnew.fits.texel_end hp
  · intro i hi hout
    rw [hlength] at hi
    rw [hshows.rest i hi hout, hnew.byte_eq]
  · intro a cause h
    rw [perform_of_fault h]

theorem run_like_map_layers :
    let shape : ImageShape := ⟨.lineArray, ⟨2, 1, 1, 2⟩⟩
    let im : Raster := ⟨shape, 2, 5, 11, fun _ => 0⟩
    ImageShape.make .lineArray ⟨2, 1, 1, 2⟩ = .ok shape ∧
      withPitch shape .rg .unormInt8 5 11 = .ok im ∧
      (im.run [.store ⟨1, 1, 0⟩ (.ofNat (.scalar .u32) 0x12345678),
        .store ⟨2, 0, 0⟩ (.ofNat (.scalar .u16) 1), .fetch ⟨1, 1, 0⟩, .fetch ⟨0, 1, 0⟩]).1 =
        [.done, .fault (.outside ⟨2, 0, 0⟩ shape), .texel [0x78, 0x56], .texel [0, 0]] := by
  intro shape im
  have hs : ImageShape.make .lineArray ⟨2, 1, 1, 2⟩ = .ok shape := rfl
  have hi : withPitch shape .rg .unormInt8 5 11 = .ok im := rfl
  obtain ⟨-, -, hreplies, -⟩ := run_like_map hs (.inr ⟨5, 11, hi⟩)
    [.store ⟨1, 1, 0⟩ (.ofNat (.scalar .u32) 0x12345678),
      .store ⟨2, 0, 0⟩ (.ofNat (.scalar .u16) 1), .fetch ⟨1, 1, 0⟩, .fetch ⟨0, 1, 0⟩]
  exact ⟨hs, hi, hreplies.trans rfl⟩

end Raster

end Conformance
