import PulseMap.Engine.Codec
import PulseMap.Raw.Effect

/-!
`lib.rs`: the typed map over the raw one. Every call encodes its arguments, runs the raw
call and decodes the answer, so what a typed map stores is always an encoded pair.
-/

namespace PulseMap

structure TypedPulseMap (Key Value : Type) where
  raw : PulseMapRaw

inductive TypedOp (Key Value : Type) where
  | insert (key : Key) (value : Value)
  | insertTtl (key : Key) (value : Value) (ttl : Word)
  | get (key : Key)
  | peek (key : Key)
  | containsKey (key : Key)
  | remove (key : Key)
  | setTtl (ttl : Word)

inductive TypedResult (Value : Type) where
  | done
  | value (found : Option Value)
  | contains (found : Bool)
  | removed (found : Bool)

variable {Key Value : Type} [PulseKey Key] [PulseValue Value] (wyhash : Bytes → Word)

namespace TypedPulseMap

def new (numBuckets : Nat) : TypedPulseMap Key Value := ⟨PulseMapRaw.new numBuckets⟩

variable (self : TypedPulseMap Key Value)

def insert (key : Key) (value : Value) : Option (TypedPulseMap Key Value) := do
  let raw ← self.raw.insert wyhash (keyBytes key) (valueBytes value)
  some ⟨raw⟩

def insertTtl (key : Key) (value : Value) (ttl : Word) : Option (TypedPulseMap Key Value) := do
  let raw ← self.raw.insertTtl wyhash (keyBytes key) (valueBytes value) ttl
  some ⟨raw⟩

def get (key : Key) : Option (Option Value × TypedPulseMap Key Value) := do
  let (found, raw) ← self.raw.get wyhash (keyBytes key)
  some (found.bind PulseValue.codec.fromBytes, ⟨raw⟩)

def peek (key : Key) : Option (Option Value) := do
  let found ← self.raw.peek wyhash (keyBytes key)
  some (found.bind PulseValue.codec.fromBytes)

def containsKey (key : Key) : Option Bool := do
  let found ← self.raw.peek wyhash (keyBytes key)
  some found.isSome

def remove (key : Key) : Option (Bool × TypedPulseMap Key Value) := do
  let (found, raw) ← self.raw.remove wyhash (keyBytes key)
  some (found, ⟨raw⟩)

def setTtl (ttl : Word) : TypedPulseMap Key Value := ⟨self.raw.setTtl ttl⟩

end TypedPulseMap

namespace TypedOp

def apply (map : TypedPulseMap Key Value) :
    TypedOp Key Value → Option (TypedResult Value × TypedPulseMap Key Value)
  | insert key value => (map.insert wyhash key value).map (.done, ·)
  | insertTtl key value ttl => (map.insertTtl wyhash key value ttl).map (.done, ·)
  | get key => (map.get wyhash key).map fun (found, next) => (.value found, next)
  | peek key => (map.peek wyhash key).map fun found => (.value found, map)
  | containsKey key => (map.containsKey wyhash key).map fun found => (.contains found, map)
  | remove key => (map.remove wyhash key).map fun (found, next) => (.removed found, next)
  | setTtl ttl => some (.done, map.setTtl ttl)

def run : TypedPulseMap Key Value → List (TypedOp Key Value) → Option (TypedPulseMap Key Value)
  | map, [] => some map
  | map, op :: rest => do
      let (_, next) ← op.apply wyhash map
      run next rest

def encode : TypedOp Key Value → RawOp
  | insert key value => .insert (keyBytes key) (valueBytes value)
  | insertTtl key value ttl => .insertTtl (keyBytes key) (valueBytes value) ttl
  | get key => .get (keyBytes key)
  | peek key => .peek (keyBytes key)
  | containsKey key => .peek (keyBytes key)
  | remove key => .remove (keyBytes key)
  | setTtl ttl => .setTtl ttl

def decode : TypedOp Key Value → RawResult → TypedResult Value
  | containsKey _, .value found => .contains found.isSome
  | _, .value found => .value (found.bind PulseValue.codec.fromBytes)
  | _, .removed found => .removed found
  | _, .done => .done

theorem apply_encode (map : TypedPulseMap Key Value) (op : TypedOp Key Value) :
    op.apply wyhash map =
      (op.encode.apply wyhash map.raw).map fun (result, raw) => (op.decode result, ⟨raw⟩) := by
  cases op with
  | insert key value =>
      simp only [apply, TypedPulseMap.insert, encode, RawOp.apply]
      cases map.raw.insert wyhash (keyBytes key) (valueBytes value) <;> rfl
  | insertTtl key value ttl =>
      simp only [apply, TypedPulseMap.insertTtl, encode, RawOp.apply]
      cases map.raw.insertTtl wyhash (keyBytes key) (valueBytes value) ttl <;> rfl
  | get key =>
      simp only [apply, TypedPulseMap.get, encode, RawOp.apply]
      cases map.raw.get wyhash (keyBytes key) <;> rfl
  | peek key =>
      simp only [apply, TypedPulseMap.peek, encode, RawOp.apply]
      cases map.raw.peek wyhash (keyBytes key) <;> rfl
  | containsKey key =>
      simp only [apply, TypedPulseMap.containsKey, encode, RawOp.apply]
      cases map.raw.peek wyhash (keyBytes key) <;> rfl
  | remove key =>
      simp only [apply, TypedPulseMap.remove, encode, RawOp.apply]
      cases map.raw.remove wyhash (keyBytes key) <;> rfl
  | setTtl ttl => rfl

end TypedOp

namespace Raw

variable {wyhash} {map : PulseMapRaw} {content : Nat → Content}

def Encoded (Key Value : Type) [PulseKey Key] [PulseValue Value] (content : Nat → Content) : Prop :=
  ∀ bucket slot name text, content bucket slot = some (name, text) →
    ∃ (key : Key) (value : Value), keyBytes key = name ∧ valueBytes value = text

theorem encoded_write {bucket : Nat} {slot : Fin 4} {entry : Option (Bytes × Bytes)}
    (encoded : Encoded Key Value content)
    (written : ∀ name text, entry = some (name, text) →
      ∃ (key : Key) (value : Value), keyBytes key = name ∧ valueBytes value = text) :
    Encoded Key Value (writeAt content bucket slot entry) := by
  intro other place name text held
  rw [write_at_apply] at held
  split_ifs at held with here
  · exact written name text held
  · exact encoded other place name text held

theorem encoded_insertion {op : TypedOp Key Value} {name text : Bytes} {ttl : Word}
    (call : op.encode.insertion = some (name, text, ttl)) :
    ∃ (key : Key) (value : Value), keyBytes key = name ∧ valueBytes value = text := by
  cases op with
  | insert key value =>
      cases call
      exact ⟨key, value, rfl, rfl⟩
  | insertTtl key value span =>
      cases call
      exact ⟨key, value, rfl, rfl⟩
  | get key => cases call
  | peek key => cases call
  | containsKey key => cases call
  | remove key => cases call
  | setTtl ttl => cases call

theorem effect_encoded {op : TypedOp Key Value} {result : RawResult} {next : PulseMapRaw}
    {after : Nat → Content} (encoded : Encoded Key Value content)
    (effect : Effect wyhash map content op.encode result next after) :
    Encoded Key Value after := by
  generalize raw : op.encode = call at effect
  cases effect with
  | updated inserts held =>
      apply encoded_write encoded
      rintro name text same
      cases same
      exact encoded_insertion (raw ▸ inserts)
  | placed inserts missing target full =>
      apply encoded_write encoded
      rintro name text same
      cases same
      exact encoded_insertion (raw ▸ inserts)
  | hit held live => exact encoded
  | peeked held live => exact encoded
  | missed called hidden => exact encoded
  | removed held =>
      apply encoded_write encoded
      rintro name text same
      cases same
  | unremoved missing => exact encoded
  | retuned ttl => exact encoded

theorem run_encoded (ops : List (TypedOp Key Value)) (sized : ∀ op ∈ ops, op.encode.Sized)
    (invariant : Invariant wyhash map content) (encoded : Encoded Key Value content) :
    ∃ last after, TypedOp.run wyhash ⟨map⟩ ops = some ⟨last⟩ ∧ Invariant wyhash last after ∧
      Encoded Key Value after := by
  induction ops generalizing map content with
  | nil => exact ⟨map, content, rfl, invariant, encoded⟩
  | cons op rest induction =>
      obtain ⟨result, next, after, applied, kept, effect⟩ :=
        apply_effect invariant op.encode (sized op (by simp))
      obtain ⟨last, final, ran, holds, still⟩ := induction
        (fun other member => sized other (by simp [member])) kept (effect_encoded encoded effect)
      refine ⟨last, final, ?_, holds, still⟩
      simp [TypedOp.run, TypedOp.apply_encode, applied, ran]

end Raw

end PulseMap
