import PulseMap.Raw.Table

/-!
Calls on different buckets commute. The two orders hand out different slab indices, so
their states differ; the tables are equal, and a table decides every later result.
-/

namespace PulseMap

variable {Tag : Type}

namespace Table

variable (home : Bytes → Nat) (h2 : Bytes → Byte)

def run : Table → List (Tag × RawOp) → List (Tag × RawResult) × Table
  | self, [] => ([], self)
  | self, (tag, op) :: rest =>
      let (result, next) := self.apply home h2 op
      let (later, last) := run next rest
      ((tag, result) :: later, last)

end Table

/-- One list of calls is the other with calls on different buckets exchanged. -/
inductive Reordered (home : Bytes → Nat) : List (Tag × RawOp) → List (Tag × RawOp) → Prop
  | refl (calls : List (Tag × RawOp)) : Reordered home calls calls
  | swap {first second : Tag × RawOp} {key name : Bytes} (before after : List (Tag × RawOp))
      (firstKey : first.2.key = some key) (secondKey : second.2.key = some name)
      (different : home key ≠ home name) :
      Reordered home (before ++ first :: second :: after) (before ++ second :: first :: after)
  | trans {first second third : List (Tag × RawOp)} (left : Reordered home first second)
      (right : Reordered home second third) : Reordered home first third

namespace Table

variable {home : Bytes → Nat} {h2 : Bytes → Byte}

theorem run_swap (self : Table) {first second : Tag × RawOp} {key name : Bytes}
    (before after : List (Tag × RawOp)) (firstKey : first.2.key = some key)
    (secondKey : second.2.key = some name) (different : home key ≠ home name) :
    (self.run home h2 (before ++ first :: second :: after)).2 =
        (self.run home h2 (before ++ second :: first :: after)).2 ∧
      (self.run home h2 (before ++ first :: second :: after)).1.Perm
        (self.run home h2 (before ++ second :: first :: after)).1 := by
  induction before generalizing self with
  | nil =>
      obtain ⟨same, secondResult, firstResult⟩ :=
        self.apply_commute h2 firstKey secondKey different
      simp only [List.nil_append, run, same, secondResult, firstResult]
      exact ⟨trivial, List.Perm.swap ..⟩
  | cons call rest induction =>
      obtain ⟨same, permuted⟩ := induction (self.apply home h2 call.2).2
      simp only [List.cons_append, run]
      exact ⟨same, permuted.cons _⟩

/-- A reordered run ends in the same table and gives every call the same result. -/
theorem run_reordered (h2 : Bytes → Byte) {calls others : List (Tag × RawOp)}
    (reordered : Reordered home calls others) (self : Table) :
    (self.run home h2 calls).2 = (self.run home h2 others).2 ∧
      (self.run home h2 calls).1.Perm (self.run home h2 others).1 := by
  induction reordered with
  | refl calls => exact ⟨rfl, List.Perm.refl _⟩
  | swap before after firstKey secondKey different =>
      exact run_swap self before after firstKey secondKey different
  | trans left right leftInduction rightInduction =>
      exact ⟨leftInduction.1.trans rightInduction.1, leftInduction.2.trans rightInduction.2⟩

end Table

namespace Raw

variable {wyhash : Bytes → Word} {map : PulseMapRaw} {content : Nat → Content}

def results (wyhash : Bytes → Word) :
    PulseMapRaw → List (Tag × RawOp) → Option (List (Tag × RawResult) × PulseMapRaw)
  | map, [] => some ([], map)
  | map, (tag, op) :: rest => do
      let (result, next) ← op.apply wyhash map
      let (later, last) ← results wyhash next rest
      some ((tag, result) :: later, last)

/-- The states agree but for slab indices and stamps. -/
structure Agrees (left right : PulseMapRaw) : Prop where
  buckets : left.numBuckets = right.numBuckets
  words : ∀ bucket < left.numBuckets,
    (left.buckets bucket).metaWord = (right.buckets bucket).metaWord
  pairs : ∀ bucket < left.numBuckets, ∀ slot,
    (left.slotEntry bucket slot).map (fun entry => (entry.1, entry.2.value)) =
      (right.slotEntry bucket slot).map fun entry => (entry.1, entry.2.value)
  len : left.len = right.len
  evictions : left.evictionCount = right.evictionCount
  epoch : left.currentEpoch = right.currentEpoch

theorem slot_pair (invariant : Invariant wyhash map content) (bucket : Nat) (slot : Fin 4) :
    (map.slotEntry bucket slot).map (fun entry => (entry.1, entry.2.value)) = content bucket slot := by
  rw [slot_entry_eq invariant, Option.map_map]
  cases content bucket slot <;> rfl

theorem agrees_of_table {other : PulseMapRaw} {rival : Nat → Content}
    (left : Invariant wyhash map content) (right : Invariant wyhash other rival)
    (buckets : map.numBuckets = other.numBuckets) (same : table map content = table other rival) :
    Agrees map other := by
  have views := congrArg Table.views same
  have contents : content = rival := by
    funext bucket
    exact congrArg View.held (congrFun views bucket)
  refine ⟨buckets, ?_, ?_, ?_, congrArg Table.evictions same, congrArg Table.epoch same⟩
  · intro bucket _
    exact congrArg View.word (congrFun views bucket)
  · intro bucket _ slot
    rw [slot_pair left, slot_pair right, contents]
  · change map.count = other.count
    rw [left.counted, right.counted, buckets, contents]

theorem effect_layout {op : RawOp} {result : RawResult} {next : PulseMapRaw}
    {after : Nat → Content} (effect : Effect wyhash map content op result next after) :
    next.numBuckets = map.numBuckets ∧ next.bucketOf wyhash = map.bucketOf wyhash := by
  cases effect <;> exact ⟨rfl, rfl⟩

theorem results_table (calls : List (Tag × RawOp)) (sized : ∀ call ∈ calls, call.2.Sized)
    (unlimited : ∀ call ∈ calls, call.2.Unlimited) (invariant : Invariant wyhash map content)
    (timeless : Timeless map content) :
    ∃ last after, results wyhash map calls =
        some (((table map content).run (map.bucketOf wyhash) (fingerprint wyhash) calls).1, last) ∧
      Invariant wyhash last after ∧ last.numBuckets = map.numBuckets ∧
      table last after =
        ((table map content).run (map.bucketOf wyhash) (fingerprint wyhash) calls).2 := by
  induction calls generalizing map content with
  | nil => exact ⟨map, content, rfl, invariant, rfl, rfl⟩
  | cons call rest induction =>
      obtain ⟨tag, op⟩ := call
      obtain ⟨result, next, after, applied, kept, effect⟩ :=
        apply_effect invariant op (sized (tag, op) (by simp))
      have stepped := effect_table invariant timeless effect
      have still := effect_timeless timeless (unlimited (tag, op) (by simp)) effect
      obtain ⟨sameBuckets, sameHome⟩ := effect_layout effect
      obtain ⟨last, final, ran, holds, sameLast, reached⟩ := induction
        (fun other member => sized other (by simp [member]))
        (fun other member => unlimited other (by simp [member])) kept still
      rw [sameHome] at ran reached
      refine ⟨last, final, ?_, holds, sameLast.trans sameBuckets, ?_⟩
      · simp only [results, applied, Option.bind_eq_bind, Option.bind_some, ran, Table.run, stepped]
      · simp only [Table.run, stepped, reached]

/-- Calls on different buckets commute, alone and anywhere in a run. -/
structure BucketsCommute (wyhash : Bytes → Word) (map : PulseMapRaw) : Prop where
  calls : ∀ (first second : RawOp) (key name : Bytes), first.Sized → second.Sized →
    first.Unlimited → second.Unlimited → first.key = some key → second.key = some name →
    map.bucketOf wyhash key ≠ map.bucketOf wyhash name →
    ∃ firstResult secondResult middle last between final,
      first.apply wyhash map = some (firstResult, middle) ∧
      second.apply wyhash middle = some (secondResult, last) ∧
      second.apply wyhash map = some (secondResult, between) ∧
      first.apply wyhash between = some (firstResult, final) ∧ Agrees last final
  runs : ∀ (Tag : Type) (calls others : List (Tag × RawOp)), (∀ call ∈ calls, call.2.Sized) →
    (∀ call ∈ calls, call.2.Unlimited) → Reordered (map.bucketOf wyhash) calls others →
    ∃ answers last otherAnswers final, results wyhash map calls = some (answers, last) ∧
      results wyhash map others = some (otherAnswers, final) ∧ answers.Perm otherAnswers ∧
      Agrees last final

theorem reordered_perm {home : Bytes → Nat} {calls others : List (Tag × RawOp)}
    (reordered : Reordered home calls others) : calls.Perm others := by
  induction reordered with
  | refl calls => exact List.Perm.refl _
  | swap before after firstKey secondKey different =>
      exact (List.Perm.swap ..).append_left before
  | trans left right leftInduction rightInduction => exact leftInduction.trans rightInduction

theorem runs_commute (invariant : Invariant wyhash map content) (timeless : Timeless map content)
    (calls others : List (Tag × RawOp)) (sized : ∀ call ∈ calls, call.2.Sized)
    (unlimited : ∀ call ∈ calls, call.2.Unlimited)
    (reordered : Reordered (map.bucketOf wyhash) calls others) :
    ∃ answers last otherAnswers final, results wyhash map calls = some (answers, last) ∧
      results wyhash map others = some (otherAnswers, final) ∧ answers.Perm otherAnswers ∧
      Agrees last final := by
  have permuted := reordered_perm reordered
  obtain ⟨same, answers⟩ :=
    Table.run_reordered (fingerprint wyhash) reordered (table map content)
  obtain ⟨last, after, ran, holds, buckets, reached⟩ :=
    results_table calls sized unlimited invariant timeless
  obtain ⟨final, ended, otherRan, otherHolds, otherBuckets, otherReached⟩ :=
    results_table others (fun call member => sized call (permuted.mem_iff.mpr member))
      (fun call member => unlimited call (permuted.mem_iff.mpr member)) invariant timeless
  refine ⟨_, last, _, final, ran, otherRan, answers, ?_⟩
  exact agrees_of_table holds otherHolds (buckets.trans otherBuckets.symm)
    (reached.trans (same.trans otherReached.symm))

theorem pair_table (invariant : Invariant wyhash map content) (timeless : Timeless map content)
    {first second : RawOp} (firstSized : first.Sized) (secondSized : second.Sized)
    (unlimited : first.Unlimited) :
    let start := table map content
    let home := map.bucketOf wyhash
    let h2 := fingerprint wyhash
    ∃ middle last after, first.apply wyhash map = some ((start.apply home h2 first).1, middle) ∧
      second.apply wyhash middle =
        some (((start.apply home h2 first).2.apply home h2 second).1, last) ∧
      Invariant wyhash last after ∧ last.numBuckets = map.numBuckets ∧
      table last after = ((start.apply home h2 first).2.apply home h2 second).2 := by
  intro start home h2
  obtain ⟨_, middle, between, applied, kept, effect⟩ := apply_effect invariant first firstSized
  obtain ⟨_, last, after, applied', kept', effect'⟩ := apply_effect kept second secondSized
  have stepped := effect_table invariant timeless effect
  have stepped' := effect_table kept (effect_timeless timeless unlimited effect) effect'
  obtain ⟨sameBuckets, sameHome⟩ := effect_layout effect
  rw [sameHome] at stepped'
  refine ⟨middle, last, after, ?_, ?_, kept', (effect_layout effect').1.trans sameBuckets, ?_⟩
  · rw [applied, stepped]
  · rw [applied', stepped, stepped']
  · rw [stepped, stepped']

theorem buckets_commute (invariant : Invariant wyhash map content)
    (timeless : Timeless map content) : BucketsCommute wyhash map where
  calls := by
    intro first second key name firstSized secondSized firstUnlimited secondUnlimited firstKey
      secondKey different
    obtain ⟨middle, last, after, one, two, holds, buckets, reached⟩ :=
      pair_table invariant timeless firstSized secondSized firstUnlimited
    obtain ⟨between, final, ended, three, four, otherHolds, otherBuckets, otherReached⟩ :=
      pair_table invariant timeless secondSized firstSized secondUnlimited
    obtain ⟨same, secondResult, firstResult⟩ :=
      (table map content).apply_commute (fingerprint wyhash) firstKey secondKey different
    rw [secondResult] at two
    rw [firstResult] at four
    exact ⟨_, _, middle, last, between, final, one, two, three, four,
      agrees_of_table holds otherHolds (buckets.trans otherBuckets.symm)
        (reached.trans (same.trans otherReached.symm))⟩
  runs := fun _ calls others sized unlimited reordered =>
    runs_commute invariant timeless calls others sized unlimited reordered

theorem raw_buckets_commute (wyhash : Bytes → Word) (numBuckets : Nat)
    (bound : numBuckets ≤ 2 ^ 58) (ops : List RawOp) (sized : ∀ op ∈ ops, op.Sized)
    (unlimited : ∀ op ∈ ops, op.Unlimited) :
    ∃ map, RawOp.run wyhash (PulseMapRaw.new numBuckets) ops = some map ∧
      BucketsCommute wyhash map := by
  obtain ⟨map, content, ran, invariant, timeless⟩ := run_timeless ops sized unlimited
    (new_invariant wyhash numBuckets bound) (new_timeless numBuckets)
  exact ⟨map, ran, buckets_commute invariant timeless⟩

theorem raw_buckets_commute_crowded :
    let wyhash : Bytes → Word := fun key => if key = [7] then 1 else 0
    let ops := crowdedRun ++ [.insert [7] [70]]
    ∃ map, RawOp.run wyhash (PulseMapRaw.new 2) ops = some map ∧ BucketsCommute wyhash map := by
  intro wyhash ops
  have small : ∀ op ∈ ops, ∀ pair ∈ op.insertion, pair.1.length + pair.2.1.length < 2 ^ 32 := by
    decide
  refine raw_buckets_commute wyhash 2 (by norm_num) ops
    (fun op member key value ttl inserts => small op member _ inserts) ?_
  intro op member
  simp only [ops, crowdedRun, List.cons_append, List.nil_append, List.mem_cons, List.not_mem_nil,
    or_false] at member
  rcases member with rfl | rfl | rfl | rfl | rfl | rfl | rfl | rfl | rfl | rfl <;> trivial

end Raw

end PulseMap
