import PulseMap.Sync.Rehash

/-!
`sharded.rs`: how a hash is split into a shard, a bucket index and a fingerprint. Every
triple of the three is reached by the same number of hashes, at every table size.
-/

namespace PulseMap

def numShards : Nat := 16

/-- The shard of a hash; `shard_for` of a key. -/
def shardOf (hash : Word) : Nat := (hash >>> 14).toNat &&& (numShards - 1)

def shardFor (wyhash : Bytes → Word) (keyBytes : Bytes) : Nat :=
  shardOf (computeHash wyhash keyBytes).h1

/-- The top bits that `compute_hash` takes for the fingerprint. -/
def printOf (hash : Word) : Nat := (hash >>> 57).toNat

def indexOf (bits : Nat) (hash : Word) : Nat := (bucketHash hash).toNat % 2 ^ bits

/-! ### The split in numbers -/

theorem shard_of_eq (hash : Word) : shardOf hash = hash.toNat / 2 ^ 14 % 16 := by
  rw [shardOf, show numShards - 1 = 2 ^ 4 - 1 from rfl, Nat.and_two_pow_sub_one_eq_mod,
    BitVec.toNat_ushiftRight, Nat.shiftRight_eq_div_pow]

theorem print_of_eq (hash : Word) : printOf hash = hash.toNat / 2 ^ 57 := by
  rw [printOf, BitVec.toNat_ushiftRight, Nat.shiftRight_eq_div_pow]

theorem h2_print (wyhash : Bytes → Word) (keyBytes : Bytes) :
    (computeHash wyhash keyBytes).h2.toNat = printOf (wyhash keyBytes) := by
  have small : (wyhash keyBytes >>> 57).toNat < 2 ^ 7 := by
    have bound := (wyhash keyBytes).isLt
    rw [BitVec.toNat_ushiftRight, Nat.shiftRight_eq_div_pow]
    omega
  rw [computeHash, printOf, BitVec.toNat_setWidth, BitVec.toNat_and,
    show (0x7F#64).toNat = 2 ^ 7 - 1 from rfl, Nat.and_two_pow_sub_one_eq_mod]
  omega

theorem bucket_hash_eq (hash : Word) :
    (bucketHash hash).toNat = hash.toNat % 2 ^ 14 + hash.toNat / 2 ^ 18 * 2 ^ 14 := by
  have low : (hash &&& 0x3FFF#64).toNat = hash.toNat % 2 ^ 14 := by
    rw [BitVec.toNat_and, show (0x3FFF#64).toNat = 2 ^ 14 - 1 from rfl,
      Nat.and_two_pow_sub_one_eq_mod]
  have shifted : (hash >>> 4) &&& ~~~0x3FFF#64 = (hash >>> 18) <<< 14 := by
    rw [show (0x3FFF#64) = (BitVec.allOnes 14).setWidth 64 by decide]
    apply BitVec.eq_of_getLsbD_eq
    intro index bound
    simp only [BitVec.getLsbD_and, BitVec.getLsbD_not, BitVec.getLsbD_setWidth,
      BitVec.getLsbD_allOnes, BitVec.getLsbD_ushiftRight, BitVec.getLsbD_shiftLeft, bound,
      decide_true, Bool.true_and]
    by_cases below : index < 14
    · simp [below]
    · have place : 4 + index = 18 + (index - 14) := by omega
      simp [below, place]
  have high : ((hash >>> 18) <<< 14).toNat = 2 ^ 14 * (hash.toNat / 2 ^ 18) := by
    have bound := hash.isLt
    rw [BitVec.toNat_shiftLeft, BitVec.toNat_ushiftRight, Nat.shiftRight_eq_div_pow,
      Nat.shiftLeft_eq]
    omega
  rw [bucketHash, shifted, BitVec.toNat_or, low, high, Nat.or_comm,
    ← Nat.two_pow_add_eq_or_of_lt (Nat.mod_lt _ (by decide))]
  omega

/-- A shard's map with `2 ^ bits` buckets takes the low bits of the bucket hash. -/
theorem bucket_index_eq {config : SyncConfig} (sharded : config.shardedIndex = true) (bits : Nat)
    (hash : Word) : config.bucketIndex hash (2 ^ bits - 1) = indexOf bits hash := by
  rw [SyncConfig.bucketIndex, if_pos sharded, Nat.and_two_pow_sub_one_eq_mod]
  rfl

/-! ### Hashes put together -/

def assemble (shard number : Nat) : Word :=
  BitVec.ofNat 64 (number % 2 ^ 14 + shard * 2 ^ 14 + number / 2 ^ 14 * 2 ^ 18)

section Assemble

variable {shard number : Nat}

theorem assemble_number (inShards : shard < 16) (small : number < 2 ^ 60) :
    (assemble shard number).toNat =
      number % 2 ^ 14 + shard * 2 ^ 14 + number / 2 ^ 14 * 2 ^ 18 := by
  rw [assemble, BitVec.toNat_ofNat, Nat.mod_eq_of_lt (by omega)]

theorem shard_assemble (inShards : shard < 16) (small : number < 2 ^ 60) :
    shardOf (assemble shard number) = shard := by
  rw [shard_of_eq, assemble_number inShards small]
  omega

theorem bucket_hash_assemble (inShards : shard < 16) (small : number < 2 ^ 60) :
    (bucketHash (assemble shard number)).toNat = number := by
  rw [bucket_hash_eq, assemble_number inShards small]
  omega

end Assemble

theorem bucket_hash_small (hash : Word) : (bucketHash hash).toNat < 2 ^ 60 := by
  have bound := hash.isLt
  rw [bucket_hash_eq]
  omega

theorem print_bucket_hash (hash : Word) : printOf hash = (bucketHash hash).toNat / 2 ^ 53 := by
  rw [print_of_eq, bucket_hash_eq]
  omega

theorem assemble_split (hash : Word) : assemble (shardOf hash) (bucketHash hash).toNat = hash := by
  have bound := hash.isLt
  have inShards : shardOf hash < 16 := by
    rw [shard_of_eq]
    omega
  apply BitVec.eq_of_toNat_eq
  rw [assemble_number inShards (bucket_hash_small hash), shard_of_eq, bucket_hash_eq]
  omega

theorem split_unique {left right : Word} (shard : shardOf left = shardOf right)
    (bucket : bucketHash left = bucketHash right) : left = right := by
  rw [← assemble_split left, ← assemble_split right, shard, bucket]

/-! ### Counting -/

/-- The hashes of a shard, an index and a print. -/
def routed (bits shard index print : Nat) : Set Word :=
  {hash | shardOf hash = shard ∧ indexOf bits hash = index ∧ printOf hash = print}

def bucketNumber (bits index print rest : Nat) : Nat := print * 2 ^ 53 + (rest * 2 ^ bits + index)

section Count

variable {bits shard index print rest : Nat}

theorem bucket_number_small (small : bits ≤ 53) (inTable : index < 2 ^ bits)
    (inRest : rest < 2 ^ (53 - bits)) : rest * 2 ^ bits + index < 2 ^ 53 := by
  have whole : 2 ^ (53 - bits) * 2 ^ bits = 2 ^ 53 := by
    rw [← pow_add, Nat.sub_add_cancel small]
  have most : (rest + 1) * 2 ^ bits ≤ 2 ^ (53 - bits) * 2 ^ bits :=
    Nat.mul_le_mul_right _ inRest
  rw [Nat.succ_mul, whole] at most
  omega

theorem bucket_number_index (small : bits ≤ 53) (inTable : index < 2 ^ bits) :
    bucketNumber bits index print rest % 2 ^ bits = index := by
  have whole : print * 2 ^ 53 = print * 2 ^ (53 - bits) * 2 ^ bits := by
    rw [mul_assoc, ← pow_add, Nat.sub_add_cancel small]
  rw [bucketNumber, whole, ← add_assoc, ← add_mul, Nat.mul_add_mod_self_right,
    Nat.mod_eq_of_lt inTable]

theorem bucket_number_print (small : bits ≤ 53) (inTable : index < 2 ^ bits)
    (inRest : rest < 2 ^ (53 - bits)) : bucketNumber bits index print rest / 2 ^ 53 = print := by
  have below := bucket_number_small small inTable inRest
  rw [bucketNumber]
  omega

theorem routed_eq (small : bits ≤ 53) (inShards : shard < 16) (inTable : index < 2 ^ bits)
    (inPrints : print < 128) :
    routed bits shard index print = (fun rest => assemble shard (bucketNumber bits index print rest)) ''
      (Finset.range (2 ^ (53 - bits)) : Set Nat) := by
  ext hash
  constructor
  · intro ⟨inShard, atIndex, withPrint⟩
    have number := bucket_hash_small hash
    rw [print_bucket_hash] at withPrint
    rw [indexOf] at atIndex
    have whole : 2 ^ (53 - bits) * 2 ^ bits = 2 ^ 53 := by
      rw [← pow_add, Nat.sub_add_cancel small]
    let low := (bucketHash hash).toNat % 2 ^ 53
    have lowIndex : low % 2 ^ bits = index := by
      rw [Nat.mod_mod_of_dvd _ (Nat.pow_dvd_pow 2 small)]
      exact atIndex
    refine ⟨low / 2 ^ bits, ?_, ?_⟩
    · rw [Finset.coe_range, Set.mem_Iio, Nat.div_lt_iff_lt_mul (by positivity), whole]
      exact Nat.mod_lt _ (by positivity)
    · have same : bucketNumber bits index print (low / 2 ^ bits) = (bucketHash hash).toNat := by
        have back := Nat.div_add_mod' low (2 ^ bits)
        rw [lowIndex] at back
        rw [bucketNumber, back, ← withPrint]
        exact Nat.div_add_mod' _ _
      simp only
      rw [same, ← inShard, assemble_split]
  · intro ⟨rest, member, same⟩
    rw [Finset.coe_range, Set.mem_Iio] at member
    have below := bucket_number_small small inTable member
    have number : bucketNumber bits index print rest < 2 ^ 60 := by
      rw [bucketNumber]
      omega
    rw [← same]
    refine ⟨shard_assemble inShards number, ?_, ?_⟩
    · rw [indexOf, bucket_hash_assemble inShards number]
      exact bucket_number_index small inTable
    · rw [print_bucket_hash, bucket_hash_assemble inShards number]
      exact bucket_number_print small inTable member

theorem routed_card (small : bits ≤ 53) (inShards : shard < 16) (inTable : index < 2 ^ bits)
    (inPrints : print < 128) : (routed bits shard index print).ncard = 2 ^ (53 - bits) := by
  rw [routed_eq small inShards inTable inPrints, Set.InjOn.ncard_image, Set.ncard_coe_finset,
    Finset.card_range]
  intro first firstIn second secondIn same
  rw [Finset.coe_range, Set.mem_Iio] at firstIn secondIn
  have firstBelow := bucket_number_small small inTable firstIn
  have secondBelow := bucket_number_small small inTable secondIn
  have firstNumber : bucketNumber bits index print first < 2 ^ 60 := by
    rw [bucketNumber]
    omega
  have secondNumber : bucketNumber bits index print second < 2 ^ 60 := by
    rw [bucketNumber]
    omega
  have numbers := congrArg (fun hash => (bucketHash hash).toNat) same
  simp only at numbers
  rw [bucket_hash_assemble inShards firstNumber, bucket_hash_assemble inShards secondNumber,
    bucketNumber, bucketNumber] at numbers
  exact Nat.eq_of_mul_eq_mul_right (Nat.two_pow_pos bits) (by omega)

end Count

theorem index_reduces (bits : Nat) (hash : Word) :
    indexOf (bits + 1) hash % 2 ^ bits = indexOf bits hash :=
  Nat.mod_mod_of_dvd _ (Nat.pow_dvd_pow 2 (Nat.le_succ bits))

/-- Shard, index and print are balanced together at this table size. -/
structure Balanced (bits : Nat) : Prop where
  inRange : ∀ hash, shardOf hash < numShards ∧ indexOf bits hash < 2 ^ bits ∧ printOf hash < 128
  counts : ∀ shard < numShards, ∀ index < 2 ^ bits, ∀ print < 128,
    (routed bits shard index print).ncard = 2 ^ (53 - bits)
  unique : ∀ left right, shardOf left = shardOf right → bucketHash left = bucketHash right →
    left = right
  reduces : ∀ hash, indexOf (bits + 1) hash % 2 ^ bits = indexOf bits hash
  /-- A doubling splits a bucket into two of the same number of hashes. -/
  splits : bits < 53 → ∀ shard < numShards, ∀ index < 2 ^ bits, ∀ print < 128,
    routed bits shard index print =
        routed (bits + 1) shard index print ∪ routed (bits + 1) shard (index + 2 ^ bits) print ∧
      (routed (bits + 1) shard index print).ncard = 2 ^ (53 - (bits + 1)) ∧
      (routed (bits + 1) shard (index + 2 ^ bits) print).ncard = 2 ^ (53 - (bits + 1))
  /-- No shard and no fingerprint fixes a bit of the index. -/
  free : ∀ shard < numShards, ∀ print < 128, ∀ bit < bits, ∀ value : Bool,
    ∃ hash, shardOf hash = shard ∧ printOf hash = print ∧ (indexOf bits hash).testBit bit = value
  /-- The index of a shard's map and the fingerprint of a key are the ones counted here. -/
  indexed : ∀ config : SyncConfig, config.shardedIndex = true → ∀ hash,
    config.bucketIndex hash (2 ^ bits - 1) = indexOf bits hash
  printed : ∀ wyhash keyBytes, (computeHash wyhash keyBytes).h2.toNat = printOf (wyhash keyBytes)

theorem routing_balanced (bits : Nat) (small : bits ≤ 53) : Balanced bits where
  inRange := by
    intro hash
    have bound := hash.isLt
    refine ⟨?_, Nat.mod_lt _ (Nat.two_pow_pos bits), ?_⟩
    · rw [shard_of_eq, numShards]
      omega
    · rw [print_of_eq]
      omega
  counts := fun shard inShards index inTable print inPrints =>
    routed_card small inShards inTable inPrints
  unique := fun left right => split_unique
  reduces := index_reduces bits
  splits := by
    intro room shard inShards index inTable print inPrints
    have double : 2 ^ (bits + 1) = 2 ^ bits + 2 ^ bits := by
      rw [pow_succ]
      omega
    refine ⟨?_, routed_card room inShards (by omega) inPrints,
      routed_card room inShards (by omega) inPrints⟩
    ext hash
    have reduced := index_reduces bits hash
    have inside : indexOf (bits + 1) hash < 2 ^ (bits + 1) := Nat.mod_lt _ (Nat.two_pow_pos _)
    have halves : indexOf bits hash = index ↔
        indexOf (bits + 1) hash = index ∨ indexOf (bits + 1) hash = index + 2 ^ bits := by
      rw [← reduced]
      by_cases lower : indexOf (bits + 1) hash < 2 ^ bits
      · rw [Nat.mod_eq_of_lt lower]
        omega
      · rw [Nat.mod_eq_sub_mod (by omega), Nat.mod_eq_of_lt (by omega)]
        omega
    simp only [routed, Set.mem_ofPred_eq, Set.mem_union, halves]
    tauto
  free := by
    intro shard inShards print inPrints bit inBits value
    have power : 2 ^ bit < 2 ^ bits := Nat.pow_lt_pow_right (by decide) inBits
    have positive : 0 < 2 ^ bits := Nat.two_pow_pos bits
    let index := if value then 2 ^ bit else 0
    have inTable : index < 2 ^ bits := by
      simp only [index]
      split_ifs <;> omega
    have many : (routed bits shard index print).ncard ≠ 0 := by
      rw [routed_card small inShards inTable inPrints]
      positivity
    obtain ⟨hash, inShard, atIndex, withPrint⟩ := Set.nonempty_of_ncard_ne_zero many
    refine ⟨hash, inShard, withPrint, ?_⟩
    rw [atIndex]
    cases value <;> simp [index]
  indexed := fun config sharded hash => bucket_index_eq sharded bits hash
  printed := h2_print

/-- A table of 32768 buckets, beyond the 14 low bits. -/
theorem routing_balanced_large : Balanced 15 := routing_balanced 15 (by decide)

end PulseMap
