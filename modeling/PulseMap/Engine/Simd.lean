import PulseMap.Engine.Store

/-!
`simd.rs`: the fingerprint comparison with 128-bit registers of sixteen bytes. A register
is its lanes, the last argument of `_mm_set_epi8` being lane 0; a cast to `i8` keeps the bits.
-/

namespace PulseMap

abbrev M128 := Fin 16 → Byte

namespace M128

def setEpi8 (e15 e14 e13 e12 e11 e10 e9 e8 e7 e6 e5 e4 e3 e2 e1 e0 : Byte) : M128 :=
  ![e0, e1, e2, e3, e4, e5, e6, e7, e8, e9, e10, e11, e12, e13, e14, e15]

def set1Epi8 (value : Byte) : M128 := fun _ => value

/-- All bits of a lane are set where the operands agree, none elsewhere. -/
def cmpeqEpi8 (left right : M128) : M128 := fun lane =>
  if left lane = right lane then 0xFF#8 else 0x00#8

/-- The top bits of the lanes, lane 0 lowest. -/
def movemaskEpi8 (self : M128) : BitVec 32 :=
  (BitVec.ofBoolListLE ((List.finRange 16).map fun lane => (self lane).msb)).setWidth 32

end M128

namespace MetaWord

open M128

def matchMaskSimd (metaRaw : Word) (h2 : Byte) : Byte :=
  let h2 := h2 &&& 0x7F#8
  let h0 := ((metaRaw >>> 28) &&& 0x7F#64).setWidth 8
  let h1 := ((metaRaw >>> 35) &&& 0x7F#64).setWidth 8
  let h2_2 := ((metaRaw >>> 42) &&& 0x7F#64).setWidth 8
  let h3 := ((metaRaw >>> 49) &&& 0x7F#64).setWidth 8
  let h2s := setEpi8 0 0 0 0 0 0 0 0 0 0 0 0 h3 h2_2 h1 h0
  let target := set1Epi8 h2
  let cmp := cmpeqEpi8 h2s target
  let h2Match := (movemaskEpi8 cmp &&& 0x0F#32).setWidth 8
  let s0 := ((metaRaw >>> 56) &&& 0x03#64).setWidth 8
  let s1 := ((metaRaw >>> 58) &&& 0x03#64).setWidth 8
  let s2 := ((metaRaw >>> 60) &&& 0x03#64).setWidth 8
  let s3 := ((metaRaw >>> 62) &&& 0x03#64).setWidth 8
  let full (state : Byte) : Byte := (BitVec.ofBool (state == 1#8)).setWidth 8
  let fullMask := full s0 ||| full s1 <<< 1 ||| full s2 <<< 2 ||| full s3 <<< 3
  h2Match &&& fullMask

/-- `match_mask` as it is compiled with and without the `simd` feature. -/
def matchMaskFor (simd : Bool) (self : MetaWord) (h2 : Byte) : Byte :=
  if simd then matchMaskSimd self.word h2 else matchMaskBranchlessRaw self.word h2

theorem cmpeq_msb (left right : M128) (lane : Fin 16) :
    (cmpeqEpi8 left right lane).msb = (left lane == right lane) := by
  unfold cmpeqEpi8
  by_cases same : left lane = right lane
  · rw [if_pos same, same, beq_self_eq_true]
    decide
  · rw [if_neg same, beq_false_of_ne same]
    decide

theorem masks_agree (c0 c1 c2 c3 padding b0 b1 b2 b3 : Bool) :
    let full (state : Bool) : Byte := (BitVec.ofBool state).setWidth 8
    let bit (state print : Bool) : Byte :=
      (BitVec.ofBool state).setWidth 8 &&& (BitVec.ofBool print).setWidth 8
    (((BitVec.ofBoolListLE ([c0, c1, c2, c3] ++ List.replicate 12 padding)).setWidth 32 &&&
          0x0F#32).setWidth 8 &&&
        (full b0 ||| full b1 <<< 1 ||| full b2 <<< 2 ||| full b3 <<< 3) : Byte) =
      bit b0 c0 ||| bit b1 c1 <<< 1 ||| bit b2 c2 <<< 2 ||| bit b3 c3 <<< 3 := by
  revert c0 c1 c2 c3 padding b0 b1 b2 b3
  decide +kernel

theorem match_mask_simd_eq (metaRaw : Word) (h2 : Byte) :
    matchMaskSimd metaRaw h2 = matchMaskBranchlessRaw metaRaw h2 := by
  have lanes : ∀ h0 h1 h2_2 h3 target : Byte,
      movemaskEpi8 (cmpeqEpi8 (setEpi8 0 0 0 0 0 0 0 0 0 0 0 0 h3 h2_2 h1 h0) (set1Epi8 target)) =
        (BitVec.ofBoolListLE ([h0 == target, h1 == target, h2_2 == target, h3 == target] ++
          List.replicate 12 (0 == target))).setWidth 32 := by
    intro h0 h1 h2_2 h3 target
    have tops : (List.finRange 16).map (fun lane =>
        (cmpeqEpi8 (setEpi8 0 0 0 0 0 0 0 0 0 0 0 0 h3 h2_2 h1 h0) (set1Epi8 target) lane).msb) =
        [h0 == target, h1 == target, h2_2 == target, h3 == target] ++
          List.replicate 12 (0 == target) := by
      simp only [cmpeq_msb]
      rfl
    exact congrArg (fun list => (BitVec.ofBoolListLE list).setWidth 32) tops
  simp only [matchMaskSimd, lanes]
  exact masks_agree _ _ _ _ _ _ _ _ _

end MetaWord

/-- The `simd` feature changes neither a mask nor the slots that a candidate loop visits. -/
theorem simd_changes_no_candidate (simd : Bool) :
    (∀ metaRaw h2, MetaWord.matchMaskSimd metaRaw h2 = MetaWord.matchMaskBranchlessRaw metaRaw h2) ∧
      (∀ packed h2, MetaWord.matchMaskFor simd packed h2 = packed.matchMask h2) ∧
      ∀ (bucket : Bucket) hr,
        MetaWord.scan (MetaWord.matchMaskFor simd bucket.metaWord hr.h2) = bucket.candidates hr := by
  have same : ∀ packed h2, MetaWord.matchMaskFor simd packed h2 = packed.matchMask h2 := by
    intro packed h2
    unfold MetaWord.matchMaskFor
    split_ifs
    · exact MetaWord.match_mask_simd_eq packed.word h2
    · rfl
  refine ⟨MetaWord.match_mask_simd_eq, same, ?_⟩
  intro bucket hr
  rw [same]
  rfl

end PulseMap
