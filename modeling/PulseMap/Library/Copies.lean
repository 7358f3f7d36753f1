import PulseMap.Library.Program

/-!
Copies of one machine side by side, and clients that call the copies one after another. A
step of a client is a step inside at most one copy, so a schedule of the clients leaves
every copy in a state that a schedule of this copy alone leads to, and what a client
notes was answered by the copies it asked. What a copy records of a thread tells the calls
that the thread has made of it.
-/

namespace PulseMap

/-- The states of the copies, and what the clients have noted. -/
structure Copies (Shared Index Note : Type) where
  parts : Index → Shared
  notes : List (Nat × Note)

inductive CopiesAction (machine : Machine) (Index Note : Type) where
  | on (index : Index) (action : machine.Action)
  | note (note : Note)

def Machine.copies (machine : Machine) (Index Note : Type) [DecidableEq Index] : Machine where
  Shared := Copies machine.Shared Index Note
  Action := CopiesAction machine Index Note
  Response := fun action => match action with
    | .on _ action => machine.Response action
    | .note _ => Unit
  perform := fun thread action shared => match action with
    | .on index action =>
        (machine.perform thread action (shared.parts index)).map fun (response, after) =>
          (response, { shared with parts := Function.update shared.parts index after })
    | .note note => some ((), { shared with notes := shared.notes ++ [(thread, note)] })

theorem Machine.copies_on {machine : Machine} {Index Note : Type} [DecidableEq Index] {thread : Nat}
    {index : Index} {action : machine.Action} {shared : Copies machine.Shared Index Note}
    {response : machine.Response action} {after : machine.Shared}
    (performed : machine.perform thread action (shared.parts index) = some (response, after)) :
    (machine.copies Index Note).perform thread (.on index action) shared =
      some (response, ⟨Function.update shared.parts index after, shared.notes⟩) := by
  change (machine.perform thread action (shared.parts index)).map _ = _
  rw [performed]
  rfl

theorem Machine.copies_blocked {machine : Machine} {Index Note : Type} [DecidableEq Index]
    {thread : Nat} {index : Index} {action : machine.Action}
    {shared : Copies machine.Shared Index Note}
    (waits : machine.perform thread action (shared.parts index) = none) :
    (machine.copies Index Note).perform thread (.on index action) shared = none := by
  change (machine.perform thread action (shared.parts index)).map _ = _
  rw [waits]
  rfl

/-- An action that only looks, and that never has to wait. -/
structure Query (machine : Machine) where
  action : machine.Action
  answers : ∀ thread shared, ∃ response, machine.perform thread action shared = some (response, shared)

/-- What a client does: calls of single copies and looks at them, and in the end its note. -/
inductive Script (machine : Machine) (Index Call Answer Note : Type) where
  | done (note : Note)
  | call (index : Index) (call : Call) (next : Answer → Script machine Index Call Answer Note)
  | look (index : Index) (query : Query machine)
      (next : machine.Response query.action → Script machine Index Call Answer Note)

namespace Program

variable {machine : Machine} {Index Note Result Next : Type} [DecidableEq Index]

def on (index : Index) : Program machine Result → Program (machine.copies Index Note) Result
  | done result => .done result
  | panic => .panic
  | act action next => .act (CopiesAction.on index action) fun response => (next response).on index

end Program

/-- What a machine records of a single thread, whatever the others do. -/
structure Record (machine : Machine) where
  Own : Type
  own : Nat → machine.Shared → Own
  others : ∀ {thread mover action shared response after},
    machine.perform mover action shared = some (response, after) → thread ≠ mover →
      own thread after = own thread shared

namespace Program

variable {machine : Machine} {record : Record machine} {Result Next : Type}

/-- Whenever the program ends, its result is good for what is recorded of its thread by then. -/
def Ends (record : Record machine) (thread : Nat) (Good : Result → record.Own → Prop) :
    Program machine Result → record.Own → Prop
  | done result, own => Good result own
  | panic, _ => True
  | act action next, own => ∀ shared response after, record.own thread shared = own →
      machine.perform thread action shared = some (response, after) →
        (next response).Ends record thread Good (record.own thread after)

variable {thread : Nat}

theorem ends_bind {early : Next → record.Own → Prop} {late : Result → record.Own → Prop}
    {program : Program machine Next} {next : Next → Program machine Result} {own : record.Own}
    (ends : program.Ends record thread early own)
    (rest : ∀ result own, early result own → (next result).Ends record thread late own) :
    (program >>= next).Ends record thread late own := by
  induction program generalizing own with
  | done result => exact rest result own ends
  | panic => trivial
  | act action following induction =>
      exact fun shared response after same performed =>
        induction response (ends shared response after same performed)

end Program

namespace Script

variable {machine : Machine} {Index Call Answer Note : Type}

def Asks : Script machine Index Call Answer Note → Index → Call → Prop
  | done _, _, _ => False
  | call index request next, other, wanted =>
      (index = other ∧ request = wanted) ∨ ∃ answer, (next answer).Asks other wanted
  | look _ _ next, other, wanted => ∃ response, (next response).Asks other wanted

/-- The client comes to this note by these calls, in this order, with these answers. -/
inductive Takes : Script machine Index Call Answer Note → List (Index × Call × Answer) → Note → Prop
  | done (note : Note) : Takes (.done note) [] note
  | call {index : Index} {request : Call} {next : Answer → Script machine Index Call Answer Note}
      {answer : Answer} {trace : List (Index × Call × Answer)} {note : Note}
      (later : Takes (next answer) trace note) :
      Takes (.call index request next) ((index, request, answer) :: trace) note
  | look {index : Index} {query : Query machine}
      {next : machine.Response query.action → Script machine Index Call Answer Note}
      {response : machine.Response query.action} {trace : List (Index × Call × Answer)} {note : Note}
      (later : Takes (next response) trace note) : Takes (.look index query next) trace note

variable [DecidableEq Index] (work : Call → Program machine Answer)

def compile : Script machine Index Call Answer Note → Program (machine.copies Index Note) Unit
  | done note => .act (CopiesAction.note note) .done
  | call index request next => (work request).on index >>= fun answer => (next answer).compile
  | look index query next => .act (CopiesAction.on index query.action) fun response =>
      (next response).compile

end Script

def Program.serve {machine : Machine} {Call Answer : Type} (work : Call → Program machine Answer)
    (request : Call) : Program machine Unit :=
  work request >>= fun _ => .done ()

/-- How the copies work on a call, and what an answered one leaves in the record. -/
structure Service (machine : Machine) (Call Answer : Type) where
  work : Call → Program machine Answer
  record : Record machine
  Serves : Nat → Call → Answer → record.Own → record.Own → Prop
  ends : ∀ thread request own, (work request).Ends record thread
    (fun answer later => Serves thread request answer own later) own

def Service.alone {machine : Machine} {Call Answer : Type} (service : Service machine Call Answer)
    (start : machine.Shared) (schedule : List (Move Call)) : System machine :=
  System.run (Program.serve service.work) ⟨start, fun _ => .done ()⟩ schedule

inductive ClientStage (machine : Machine) (Index Call Answer Note : Type) where
  | idle
  | between (script : Script machine Index Call Answer Note)
  | inside (index : Index) (request : Call) (rest : Program machine Answer)
      (next : Answer → Script machine Index Call Answer Note)

namespace ClientStage

variable {machine : Machine} {Index Call Answer Note : Type} [DecidableEq Index]

def program (work : Call → Program machine Answer) :
    ClientStage machine Index Call Answer Note → Program (machine.copies Index Note) Unit
  | idle => .done ()
  | between script => script.compile work
  | inside index _ rest next => rest.on index >>= fun answer => (next answer).compile work

/-- What the thread has left to do in one copy. -/
def part : ClientStage machine Index Call Answer Note → Index → Program machine Unit
  | inside index _ rest _, other => if index = other then rest >>= fun _ => .done () else .done ()
  | _, _ => .done ()

end ClientStage

end PulseMap
