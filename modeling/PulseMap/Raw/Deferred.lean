import PulseMap.Engine.Packing
import PulseMap.Raw.Table

/-!
Accesses that are applied late. A hit is queued and the queue is applied before the next
insert. Until then slots are emptied but none is filled, so every slot that is still Full
has the priority that accesses at once would have given it, and the priority of a vacant
slot decides nothing.
-/

namespace PulseMap

namespace SlotFields

/-- The same state, and the same fields where a key is stored. -/
def Alike (left right : SlotFields) : Prop :=
  left.state = right.state ∧ (left.slotState = .full → left = right)

variable {left right : SlotFields}

theorem Alike.same_state (alike : left.Alike right) : left.slotState = right.slotState := by
  rw [slotState, slotState, alike.1]

theorem alike_map (change : SlotFields → SlotFields)
    (keeps : ∀ slot, (change slot).state = slot.state) (alike : left.Alike right) :
    (change left).Alike (change right) := by
  constructor
  · rw [keeps, keeps]
    exact alike.1
  · intro full
    rw [slotState, keeps] at full
    rw [alike.2 full]

end SlotFields

namespace MetaWord

def Alike (left right : MetaWord) : Prop := ∀ slot, (left.fields slot).Alike (right.fields slot)

variable {left middle right : MetaWord}

theorem alike_refl (self : MetaWord) : self.Alike self := fun _ => ⟨rfl, fun _ => rfl⟩

theorem Alike.trans (first : left.Alike middle) (second : middle.Alike right) : left.Alike right := by
  intro slot
  refine ⟨(first slot).1.trans (second slot).1, ?_⟩
  intro full
  have still := (first slot).same_state ▸ full
  exact ((first slot).2 full).trans ((second slot).2 still)

theorem alike_update {before after : MetaWord} {slot : Fin 4} {written rewritten : SlotFields}
    (alike : left.Alike right) (first : before.fields = Function.update left.fields slot written)
    (second : after.fields = Function.update right.fields slot rewritten)
    (same : written.Alike rewritten) : before.Alike after := by
  intro other
  rw [first, second]
  by_cases here : other = slot
  · rw [here, Function.update_self, Function.update_self]
    exact same
  · rw [Function.update_of_ne here, Function.update_of_ne here]
    exact alike other

theorem alike_on_access (alike : left.Alike right) (slot : Fin 4) :
    (left.onAccess slot).Alike (right.onAccess slot) := by
  intro other
  rw [fields_on_access, fields_on_access, (alike other).same_state]
  split_ifs with same full
  · exact SlotFields.alike_map SlotFields.accessed (fun _ => rfl) (alike slot)
  · exact SlotFields.alike_map SlotFields.aged (fun _ => rfl) (alike other)
  · exact alike other

theorem vacated_not_full (slot : SlotFields) :
    { slot with state := SlotState.tombstone.toBits.setWidth 2 }.slotState ≠ .full := by
  change SlotState.fromBits ((SlotState.tombstone.toBits.setWidth 2).setWidth 8) ≠ .full
  decide

theorem alike_vacate (alike : left.Alike right) (slot : Fin 4) :
    (left.setState slot .tombstone).Alike (right.setState slot .tombstone) :=
  alike_update alike (fields_set_state left slot .tombstone) (fields_set_state right slot .tombstone)
    ⟨rfl, fun full => absurd full (vacated_not_full _)⟩

/-- An access of a slot that was emptied in the meantime, or of one beside it. -/
theorem vacate_on_access (self : MetaWord) (removed slot : Fin 4) :
    ((self.setState removed .tombstone).onAccess slot).Alike
      ((self.onAccess slot).setState removed .tombstone) := by
  intro other
  rw [fields_on_access, fields_set_state, fields_set_state]
  by_cases here : other = removed
  · subst here
    rw [Function.update_self, Function.update_self, if_neg (vacated_not_full _)]
    by_cases same : other = slot
    · subst same
      rw [if_pos rfl, Function.update_self]
      exact ⟨rfl, fun full => absurd full (vacated_not_full (self.fields other))⟩
    · rw [if_neg same]
      exact ⟨rfl, fun full => absurd full (vacated_not_full _)⟩
  · rw [Function.update_of_ne here, Function.update_of_ne here, fields_on_access]
    by_cases same : other = slot
    · subst same
      rw [if_pos rfl, if_pos rfl, Function.update_of_ne here]
      exact ⟨rfl, fun _ => rfl⟩
    · rw [if_neg same, if_neg same]
      exact ⟨rfl, fun _ => rfl⟩

theorem fields_place (self : MetaWord) (slot : Fin 4) (h2 : Byte) :
    (((self.setState slot .full).setH2 slot h2).onInsert slot).fields =
      Function.update self.fields slot
        ⟨SlotState.full.toBits.setWidth 2, h2.setWidth 7, BitVec.ofNat 7 1⟩ := by
  rw [fields_on_insert, fields_set_h2, fields_set_state]
  simp only [Function.update_idem, Function.update_self]
  rfl

theorem alike_place (alike : left.Alike right) (slot : Fin 4) (h2 : Byte) :
    (((left.setState slot .full).setH2 slot h2).onInsert slot).Alike
      (((right.setState slot .full).setH2 slot h2).onInsert slot) :=
  alike_update alike (fields_place left slot h2) (fields_place right slot h2) ⟨rfl, fun _ => rfl⟩

theorem alike_free_slot (alike : left.Alike right) : left.findFreeSlot = right.findFreeSlot := by
  have states : ∀ slot, (left.fields slot).slotState = (right.fields slot).slotState :=
    fun slot => (alike slot).same_state
  apply Option.ext
  intro slot
  have first := left.find_free_slot_iff slot
  have second := right.find_free_slot_iff slot
  simp only [states] at first
  exact first.trans second.symm

theorem alike_full (alike : left.Alike right) (full : left.findFreeSlot = none) : left = right := by
  apply fields_injective
  funext slot
  have state := find_free_slot_none.mp full slot
  rw [get_state_fields] at state
  exact (alike slot).2 state

end MetaWord

/-! ### Tables -/

namespace Table

def touch (self : Table) (event : Position) : Table :=
  { self with
    views := Function.update self.views event.1
      ⟨(self.views event.1).word.onAccess event.2, (self.views event.1).held⟩ }

def replay (self : Table) (events : List Position) : Table := events.foldl touch self

structure Alike (left right : Table) : Prop where
  words : ∀ bucket, (left.views bucket).word.Alike (right.views bucket).word
  held : ∀ bucket, (left.views bucket).held = (right.views bucket).held
  evictions : left.evictions = right.evictions
  epoch : left.epoch = right.epoch

variable {left middle right : Table}

theorem alike_refl (self : Table) : self.Alike self :=
  ⟨fun _ => MetaWord.alike_refl _, fun _ => rfl, rfl, rfl⟩

theorem Alike.trans (first : left.Alike middle) (second : middle.Alike right) : left.Alike right where
  words := fun bucket => (first.words bucket).trans (second.words bucket)
  held := fun bucket => (first.held bucket).trans (second.held bucket)
  evictions := first.evictions.trans second.evictions
  epoch := first.epoch.trans second.epoch

theorem alike_views (alike : left.Alike right) (bucket : Nat) {written rewritten : View}
    (words : written.word.Alike rewritten.word) (held : written.held = rewritten.held)
    {evictions : Nat} {epoch : Word} :
    Alike ⟨Function.update left.views bucket written, evictions, epoch⟩
      ⟨Function.update right.views bucket rewritten, evictions, epoch⟩ := by
  refine ⟨?_, ?_, rfl, rfl⟩
  · intro other
    by_cases same : other = bucket
    · simpa [same] using words
    · simpa [same] using alike.words other
  · intro other
    by_cases same : other = bucket
    · simpa [same] using held
    · simpa [same] using alike.held other

theorem alike_touch (alike : left.Alike right) (event : Position) :
    (left.touch event).Alike (right.touch event) := by
  simp only [touch, alike.evictions, alike.epoch]
  apply alike_views alike event.1
  · exact MetaWord.alike_on_access (alike.words event.1) event.2
  · exact alike.held event.1

theorem alike_replay (alike : left.Alike right) (events : List Position) :
    (left.replay events).Alike (right.replay events) := by
  induction events generalizing left right with
  | nil => exact alike
  | cons event rest induction => exact induction (alike_touch alike event)

theorem replay_append (self : Table) (events : List Position) (event : Position) :
    self.replay (events ++ [event]) = (self.replay events).touch event := List.foldl_concat ..

theorem replay_held (self : Table) (events : List Position) (bucket : Nat) :
    ((self.replay events).views bucket).held = (self.views bucket).held := by
  induction events generalizing self with
  | nil => rfl
  | cons event rest induction =>
      refine (induction (self.touch event)).trans ?_
      by_cases same : bucket = event.1
      · simp [touch, same]
      · simp [touch, same]

theorem replay_counts (self : Table) (events : List Position) :
    (self.replay events).evictions = self.evictions ∧ (self.replay events).epoch = self.epoch := by
  induction events generalizing self with
  | nil => exact ⟨rfl, rfl⟩
  | cons event rest induction => exact induction (self.touch event)

theorem replay_epoch (self : Table) (epoch : Word) (events : List Position) :
    { self with epoch := epoch }.replay events = { self.replay events with epoch := epoch } := by
  induction events generalizing self with
  | nil => rfl
  | cons event rest induction => exact induction (self.touch event)

def vacate (self : Table) (position : Position) : Table :=
  { self with
    views := Function.update self.views position.1
      ⟨(self.views position.1).word.setState position.2 .tombstone,
        Function.update (self.views position.1).held position.2 none⟩ }

theorem alike_vacate (alike : left.Alike right) (position : Position) :
    (left.vacate position).Alike (right.vacate position) := by
  simp only [vacate, alike.evictions, alike.epoch]
  apply alike_views alike position.1
  · exact MetaWord.alike_vacate (alike.words position.1) position.2
  · simp only [alike.held]

theorem vacate_touch (self : Table) (position event : Position) :
    ((self.vacate position).touch event).Alike ((self.touch event).vacate position) := by
  by_cases same : event.1 = position.1
  · obtain ⟨bucket, slot⟩ := event
    obtain rfl : bucket = position.1 := same
    simp only [touch, vacate, Function.update_self, Function.update_idem]
    apply alike_views (alike_refl self) position.1
    · exact MetaWord.vacate_on_access (self.views position.1).word position.2 slot
    · rfl
  · simp only [touch, vacate, Function.update_of_ne same, Function.update_of_ne (Ne.symm same),
      Function.update_comm same]
    exact alike_refl _

/-- The queue is applied after the removal instead of before it. -/
theorem vacate_replay (self : Table) (position : Position) (events : List Position) :
    ((self.vacate position).replay events).Alike ((self.replay events).vacate position) := by
  induction events generalizing self with
  | nil => exact alike_refl _
  | cons event rest induction =>
      exact (alike_replay (vacate_touch self position event) rest).trans (induction (self.touch event))

/-! ### The calls -/

section Calls

variable {home : Bytes → Nat} {h2 : Bytes → Byte}

def seek (home : Bytes → Nat) (self : Table) (key : Bytes) : Option (Fin 4) :=
  slotOf (self.views (home key)).held key

theorem apply_get (self : Table) (key : Bytes) :
    self.apply home h2 (.get key) = (.value ((self.views (home key)).find key),
      match self.seek home key with
      | some slot => self.touch (home key, slot)
      | none => self) := by
  simp only [apply, RawOp.key, outcome, View.act, View.get, seek]
  cases found : slotOf (self.views (home key)).held key with
  | some slot => simp [absorb, touch]
  | none => simp [View.find, found, absorb]

theorem apply_peek (self : Table) (key : Bytes) :
    self.apply home h2 (.peek key) = (.value ((self.views (home key)).find key), self) := by
  simp only [apply, RawOp.key, outcome, View.act, absorb_same]

theorem apply_remove (self : Table) (key : Bytes) :
    self.apply home h2 (.remove key) = (.removed (self.seek home key).isSome,
      match self.seek home key with
      | some slot => self.vacate (home key, slot)
      | none => self) := by
  simp only [apply, RawOp.key, outcome, View.act, View.remove, seek]
  cases found : slotOf (self.views (home key)).held key with
  | some slot => simp [absorb, vacate]
  | none => simp [absorb]

def put (home : Bytes → Nat) (h2 : Bytes → Byte) (self : Table) (key value : Bytes) : Table :=
  self.absorb (home key) ((self.views (home key)).insert (h2 key) key value)

theorem put_ticked (home : Bytes → Nat) (h2 : Bytes → Byte) (self : Table) (epoch : Word)
    (key value : Bytes) :
    { { self with epoch := epoch }.put home h2 key value with epoch := self.epoch + 1 } =
      self.put home h2 key value := by
  have ticks : ((self.views (home key)).insert (h2 key) key value).ticks = 1 := by
    rw [View.insert]
    cases slotOf (self.views (home key)).held key with
    | some slot => rfl
    | none => cases (self.views (home key)).target <;> rfl
  simp only [put, absorb, ticks]

theorem apply_put (self : Table) {op : RawOp} {key value : Bytes} {ttl : Word}
    (call : op.insertion = some (key, value, ttl)) :
    self.apply home h2 op = (.done, self.put home h2 key value) := by
  obtain ⟨keyed, acted⟩ := Raw.insert_act call (self.views (home key)) (h2 key)
  rw [apply_keyed _ keyed, outcome, acted, put, View.insert]
  cases slotOf (self.views (home key)).held key with
  | some slot => rfl
  | none => cases (self.views (home key)).target <;> rfl

theorem alike_put (alike : left.Alike right) (key value : Bytes) :
    (left.put home h2 key value).Alike (right.put home h2 key value) := by
  have words := alike.words (home key)
  have held := alike.held (home key)
  simp only [put, View.insert, absorb, alike.evictions, alike.epoch, View.target, ← held,
    ← MetaWord.alike_free_slot words]
  have stored : ∀ slot, Function.update (left.views (home key)).held slot (some (key, value)) =
      Function.update (right.views (home key)).held slot (some (key, value)) := by
    intro slot
    rw [held]
  cases slotOf (left.views (home key)).held key with
  | some slot =>
      apply alike_views alike (home key)
      · exact MetaWord.alike_on_access words slot
      · exact stored slot
  | none =>
      cases free : (left.views (home key)).word.findFreeSlot with
      | some slot =>
          apply alike_views alike (home key)
          · exact MetaWord.alike_place words slot (h2 key)
          · exact stored slot
      | none =>
          have equal := MetaWord.alike_full words free
          rw [← equal]
          cases (left.views (home key)).word.findEvictTarget with
          | some slot =>
              apply alike_views alike (home key)
              · simp only [View.place, ← equal]
                exact MetaWord.alike_refl _
              · exact stored slot
          | none => exact alike_views alike (home key) words held

end Calls

end Table

/-! ### The queue -/

/-- A table whose accesses wait in a queue until the next insert. -/
structure LateTable where
  table : Table
  events : List Position

namespace LateTable

def settled (self : LateTable) : Table := self.table.replay self.events

variable (home : Bytes → Nat) (h2 : Bytes → Byte)

def apply (self : LateTable) : RawOp → RawResult × LateTable
  | .insert key value => (.done, ⟨self.settled.put home h2 key value, []⟩)
  | .insertTtl key value _ => (.done, ⟨self.settled.put home h2 key value, []⟩)
  | .get key => (.value ((self.table.views (home key)).find key),
      match self.table.seek home key with
      | some slot => { self with events := self.events ++ [(home key, slot)] }
      | none => self)
  | .peek key => (.value ((self.table.views (home key)).find key), self)
  | .remove key => (.removed (self.table.seek home key).isSome,
      match self.table.seek home key with
      | some slot => { self with table := self.table.vacate (home key, slot) }
      | none => self)
  | .setTtl _ => (.done, self)

variable {home h2} {late : LateTable} {early : Table}

theorem settled_held (alike : late.settled.Alike early) (bucket : Nat) :
    (late.table.views bucket).held = (early.views bucket).held := by
  rw [← alike.held, settled, Table.replay_held]

theorem settled_find (home : Bytes → Nat) (alike : late.settled.Alike early) (key : Bytes) :
    (late.table.views (home key)).find key = (early.views (home key)).find key ∧
      late.table.seek home key = early.seek home key := by
  simp only [View.find, Table.seek, settled_held alike, and_self]

/-- Every call on the late table returns what it returns on the other one, and the two stay
alike. -/
theorem apply_alike (alike : late.settled.Alike early) (op : RawOp) :
    (late.apply home h2 op).1 = (early.apply home h2 op).1 ∧
      (late.apply home h2 op).2.settled.Alike (early.apply home h2 op).2 := by
  cases op with
  | insert key value =>
      rw [Table.apply_put early (show (RawOp.insert key value).insertion = some (key, value, 0#64) from rfl)]
      exact ⟨rfl, Table.alike_put alike key value⟩
  | insertTtl key value ttl =>
      rw [Table.apply_put early
        (show (RawOp.insertTtl key value ttl).insertion = some (key, value, ttl) from rfl)]
      exact ⟨rfl, Table.alike_put alike key value⟩
  | get key =>
      obtain ⟨found, place⟩ := settled_find home alike key
      rw [Table.apply_get, apply, found, place]
      refine ⟨rfl, ?_⟩
      cases early.seek home key with
      | none => exact alike
      | some slot =>
          simp only [settled, Table.replay_append]
          exact Table.alike_touch alike (home key, slot)
  | peek key =>
      obtain ⟨found, _⟩ := settled_find home alike key
      rw [Table.apply_peek, apply, found]
      exact ⟨rfl, alike⟩
  | remove key =>
      obtain ⟨_, place⟩ := settled_find home alike key
      rw [Table.apply_remove, apply, place]
      refine ⟨rfl, ?_⟩
      cases early.seek home key with
      | none => exact alike
      | some slot =>
          exact (Table.vacate_replay late.table (home key, slot) late.events).trans
            (Table.alike_vacate alike (home key, slot))
  | setTtl ttl => exact ⟨rfl, alike⟩

end LateTable

end PulseMap
