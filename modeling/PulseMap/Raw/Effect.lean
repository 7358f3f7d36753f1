import PulseMap.Raw.Invariant

/-!
What a call of the raw map can do, said once. `Effect` lists every outcome of every
call with the exact next state and the exact change of the content; `apply_effect`
shows that a call from a state with the invariant has one of these outcomes and
keeps the invariant. Every result about whole runs is a case analysis on `Effect`.
-/

namespace PulseMap.Raw

variable {wyhash : Bytes → Word} {map : PulseMapRaw} {content : Nat → Content}

inductive Effect (wyhash : Bytes → Word) (map : PulseMapRaw) (content : Nat → Content) :
    RawOp → RawResult → PulseMapRaw → (Nat → Content) → Prop
  | updated {op : RawOp} {key value old : Bytes} {ttl : Word} {slot : Fin 4} {data : Slot}
      {pool : SlabPool} (call : op.insertion = some (key, value, ttl))
      (held : content (map.bucketOf wyhash key) slot = some (key, old)) :
      Effect wyhash map content op .done (afterUpdate wyhash map.tick slot key ttl data pool)
        (writeAt content (map.bucketOf wyhash key) slot (some (key, value)))
  | placed {op : RawOp} {key value : Bytes} {ttl : Word} {slot : Fin 4} {isEviction : Bool}
      {data : Slot} {pool : SlabPool} (call : op.insertion = some (key, value, ttl))
      (missing : slotOf (content (map.bucketOf wyhash key)) key = none)
      (target : map.tick.chooseTarget (map.bucketOf wyhash key) = some (slot, isEviction))
      (full : isEviction = (content (map.bucketOf wyhash key) slot).isSome) :
      Effect wyhash map content op .done
        (afterPlace wyhash map.tick slot isEviction key ttl data pool)
        (writeAt content (map.bucketOf wyhash key) slot (some (key, value)))
  | hit {key value : Bytes} {slot : Fin 4}
      (held : content (map.bucketOf wyhash key) slot = some (key, value))
      (live : map.isExpired (map.bucketOf wyhash key) slot = false) :
      Effect wyhash map content (.get key) (.value (some value))
        (map.touch (map.bucketOf wyhash key) slot) content
  | peeked {key value : Bytes} {slot : Fin 4}
      (held : content (map.bucketOf wyhash key) slot = some (key, value))
      (live : map.isExpired (map.bucketOf wyhash key) slot = false) :
      Effect wyhash map content (.peek key) (.value (some value)) map content
  | missed {op : RawOp} {key : Bytes} (call : op = .get key ∨ op = .peek key)
      (hidden : ∀ slot value, content (map.bucketOf wyhash key) slot = some (key, value) →
        map.isExpired (map.bucketOf wyhash key) slot = true) :
      Effect wyhash map content op (.value none) map content
  | removed {key value : Bytes} {slot : Fin 4}
      (held : content (map.bucketOf wyhash key) slot = some (key, value)) :
      Effect wyhash map content (.remove key) (.removed true)
        (map.removeSlot (map.bucketOf wyhash key) slot)
        (writeAt content (map.bucketOf wyhash key) slot none)
  | unremoved {key : Bytes} (missing : slotOf (content (map.bucketOf wyhash key)) key = none) :
      Effect wyhash map content (.remove key) (.removed false) map content
  | retuned (ttl : Word) :
      Effect wyhash map content (.setTtl ttl) .done (map.setTtl ttl) content

theorem insert_effect (invariant : Invariant wyhash map content) (op : RawOp) {key value : Bytes}
    {ttl : Word} (call : op.insertion = some (key, value, ttl))
    (small : key.length + value.length < 2 ^ 32) :
    ∃ next after, map.insertInternal wyhash key value ttl = some next ∧
      Invariant wyhash next after ∧ Effect wyhash map content op .done next after := by
  have ticked := tick_invariant invariant
  have located := locate_spec ticked key
  cases found : slotOf (content (map.tick.bucketOf wyhash key)) key with
  | some slot =>
      obtain ⟨old, held⟩ := slot_of_some found
      obtain ⟨data, pool, result, kept⟩ := update_slot_spec ticked held small ttl
      refine ⟨_, _, ?_, kept, Effect.updated call held⟩
      simp [PulseMapRaw.insertInternal, located, found, result]
  | none =>
      obtain ⟨slot, target⟩ := choose_target_spec map.tick (map.tick.bucketOf wyhash key)
      obtain ⟨data, pool, result, kept⟩ := place_slot_spec ticked found slot rfl small ttl
      refine ⟨_, _, ?_, kept, Effect.placed call found target ?_⟩
      · simp [PulseMapRaw.insertInternal, located, found, target, result]
      · have fullIff := meta_full_iff (ticked.metaAgrees (map.tick.bucketOf wyhash key)) slot
        rw [Bool.eq_iff_iff, decide_eq_true_iff]
        exact fullIff

theorem read_hidden (invariant : Invariant wyhash map content) {key : Bytes}
    (nothing : map.lookup wyhash key = some none) (slot : Fin 4) (value : Bytes)
    (held : content (map.bucketOf wyhash key) slot = some (key, value)) :
    map.isExpired (map.bucketOf wyhash key) slot = true := by
  have found := slot_of_eq (invariant.distinct _) held
  have looked := lookup_spec invariant key
  rw [nothing, found] at looked
  by_contra live
  simp [live, held] at looked

theorem read_held (invariant : Invariant wyhash map content) {key value : Bytes} {slot : Fin 4}
    (something : map.lookup wyhash key = some (some (slot, value))) :
    content (map.bucketOf wyhash key) slot = some (key, value) ∧
      map.isExpired (map.bucketOf wyhash key) slot = false := by
  have looked := lookup_spec invariant key
  rw [something] at looked
  cases found : slotOf (content (map.bucketOf wyhash key)) key with
  | none => simp [found] at looked
  | some place =>
      obtain ⟨stored, held⟩ := slot_of_some found
      by_cases expired : map.isExpired (map.bucketOf wyhash key) place = true
      · simp [found, expired] at looked
      · simp only [found, expired, held, Bool.false_eq_true, if_false, Option.map_some,
          Option.some.injEq, Prod.mk.injEq] at looked
        obtain ⟨rfl, rfl⟩ := looked
        exact ⟨held, by simpa using expired⟩

/-- Inversion of one call: it returns, keeps the invariant, and has a listed effect. -/
theorem apply_effect (invariant : Invariant wyhash map content) (op : RawOp) (sized : op.Sized) :
    ∃ result next after, op.apply wyhash map = some (result, next) ∧
      Invariant wyhash next after ∧ Effect wyhash map content op result next after := by
  cases op with
  | insert key value =>
      obtain ⟨next, after, result, kept, effect⟩ := insert_effect invariant
        (.insert key value) rfl (sized _ _ _ rfl)
      exact ⟨_, next, after, by simp [RawOp.apply, PulseMapRaw.insert, result], kept, effect⟩
  | insertTtl key value ttl =>
      obtain ⟨next, after, result, kept, effect⟩ := insert_effect invariant
        (.insertTtl key value ttl) rfl (sized _ _ _ rfl)
      exact ⟨_, next, after, by simp [RawOp.apply, PulseMapRaw.insertTtl, result], kept, effect⟩
  | get key =>
      cases looked : map.lookup wyhash key with
      | none => rw [lookup_spec invariant key] at looked; cases looked
      | some answer =>
          cases answer with
          | none =>
              exact ⟨_, map, content, by simp [RawOp.apply, PulseMapRaw.get, looked], invariant,
                Effect.missed (Or.inl rfl) (read_hidden invariant looked)⟩
          | some found =>
              obtain ⟨slot, value⟩ := found
              obtain ⟨held, live⟩ := read_held invariant looked
              exact ⟨_, _, content, by simp [RawOp.apply, PulseMapRaw.get, looked],
                touch_invariant invariant _ slot, Effect.hit held live⟩
  | peek key =>
      cases looked : map.lookup wyhash key with
      | none => rw [lookup_spec invariant key] at looked; cases looked
      | some answer =>
          cases answer with
          | none =>
              exact ⟨_, map, content, by simp [RawOp.apply, PulseMapRaw.peek, looked], invariant,
                Effect.missed (Or.inr rfl) (read_hidden invariant looked)⟩
          | some found =>
              obtain ⟨slot, value⟩ := found
              obtain ⟨held, live⟩ := read_held invariant looked
              exact ⟨_, map, content, by simp [RawOp.apply, PulseMapRaw.peek, looked], invariant,
                Effect.peeked held live⟩
  | remove key =>
      cases found : slotOf (content (map.bucketOf wyhash key)) key with
      | none =>
          exact ⟨_, map, content,
            by simp [RawOp.apply, PulseMapRaw.remove, locate_spec invariant key, found], invariant,
            Effect.unremoved found⟩
      | some slot =>
          obtain ⟨value, held⟩ := slot_of_some found
          obtain ⟨result, kept⟩ := remove_spec invariant held
          exact ⟨_, _, _, by simp [RawOp.apply, result], kept, Effect.removed held⟩
  | setTtl ttl =>
      exact ⟨_, _, content, rfl, set_ttl_invariant invariant ttl, Effect.retuned ttl⟩

theorem run_invariant (ops : List RawOp) (sized : ∀ op ∈ ops, op.Sized)
    (invariant : Invariant wyhash map content) :
    ∃ last after, RawOp.run wyhash map ops = some last ∧ Invariant wyhash last after := by
  induction ops generalizing map content with
  | nil => exact ⟨map, content, rfl, invariant⟩
  | cons op rest induction =>
      obtain ⟨result, next, after, applied, kept, _⟩ :=
        apply_effect invariant op (sized op (by simp))
      obtain ⟨last, final, ran, holds⟩ :=
        induction (fun other member => sized other (by simp [member])) kept
      exact ⟨last, final, by simp [RawOp.run, applied, ran], holds⟩

end PulseMap.Raw
