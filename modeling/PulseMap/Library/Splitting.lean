import PulseMap.Library.Copies

/-!
A schedule of clients over copies of a machine, split into one schedule for each copy. The
induction follows the steps of the clients: opening a call is a schedule entry of the
copy, every action inside the call is another, and nothing else changes a copy. When a
client returns, the copies have recorded of its thread just the calls that the client has
made since it was called, with the answers that its note comes from.
-/

namespace PulseMap

variable {machine : Machine} {Index Call Answer Note Client : Type} [DecidableEq Index]

namespace Service

variable (service : Service machine Call Answer)

def owns {Index : Type} (thread : Nat) (parts : Index → machine.Shared) : Index → service.record.Own :=
  fun index => service.record.own thread (parts index)

/-- What these calls of a thread add to the records, one after another. -/
def Passes (thread : Nat) : List (Index × Call × Answer) → (Index → service.record.Own) →
    (Index → service.record.Own) → Prop
  | [], before, after => after = before
  | (index, request, answer) :: rest, before, after =>
      ∃ own, service.Serves thread request answer (before index) own ∧
        Passes thread rest (Function.update before index own) after

variable {service} {thread : Nat} {index : Index} {request : Call} {answer : Answer}

theorem passes_append {trace : List (Index × Call × Answer)}
    {before middle : Index → service.record.Own} {own : service.record.Own}
    (passes : service.Passes thread trace before middle)
    (serves : service.Serves thread request answer (middle index) own) :
    service.Passes thread (trace ++ [(index, request, answer)]) before
      (Function.update middle index own) := by
  induction trace generalizing before with
  | nil =>
      obtain rfl : middle = before := passes
      exact ⟨own, serves, rfl⟩
  | cons first rest induction =>
      obtain ⟨early, served, later⟩ := passes
      exact ⟨early, served, induction later⟩

theorem passes_one {before after : Index → service.record.Own}
    (passes : service.Passes thread [(index, request, answer)] before after) :
    service.Serves thread request answer (before index) (after index) ∧
      ∀ other, other ≠ index → after other = before other := by
  obtain ⟨own, serves, rfl⟩ := passes
  refine ⟨?_, fun other away => Function.update_of_ne away ..⟩
  rw [Function.update_self]
  exact serves

/-- The same call of several copies, one after another. -/
theorem passes_all {indices : List Index} {answers : List Answer}
    {base before after : Index → service.record.Own} (same : answers.length = indices.length)
    (distinct : indices.Nodup) (agree : ∀ index ∈ indices, before index = base index)
    (passes : service.Passes thread
      (indices.zipWith (fun index answer => (index, request, answer)) answers) before after) :
    List.Forall₂ (fun index answer => service.Serves thread request answer (base index) (after index))
        indices answers ∧
      ∀ other, other ∉ indices → after other = before other := by
  induction indices generalizing answers before with
  | nil =>
      obtain rfl : answers = [] := List.length_eq_zero_iff.mp same
      obtain rfl : after = before := passes
      exact ⟨.nil, fun _ _ => rfl⟩
  | cons index rest induction =>
      cases answers with
      | nil => cases same
      | cons answer answers =>
          obtain ⟨own, serves, later⟩ := passes
          obtain ⟨fresh, distinct⟩ := List.nodup_cons.mp distinct
          have unmoved : ∀ other ∈ rest, Function.update before index own other = base other := by
            intro other member
            rw [Function.update_of_ne (ne_of_mem_of_not_mem member fresh)]
            exact agree other (List.mem_cons_of_mem _ member)
          obtain ⟨each, others⟩ := induction (Nat.succ.inj same) distinct unmoved later
          refine ⟨.cons ?_ each, ?_⟩
          · rw [others index fresh, Function.update_self, ← agree index List.mem_cons_self]
            exact serves
          · intro other away
            obtain ⟨different, elsewhere⟩ := not_or.mp (mt List.mem_cons.mpr away)
            rw [others other elsewhere, Function.update_of_ne different]

end Service

section Definitions

variable (service : Service machine Call Answer) (start : machine.Shared)
  (script : Client → Script machine Index Call Answer Note)

def clientRun (moves : List (Move Client)) : System (machine.copies Index Note) :=
  System.run (fun client => (script client).compile service.work)
    ⟨(⟨fun _ => start, []⟩ : Copies machine.Shared Index Note), fun _ => .done ()⟩ moves

variable (moves : List (Move Client))

/-- The thread was called as this client when it was free, and is at it since. -/
structure Occupies (thread : Nat) (client : Client) (past during : List (Move Client)) : Prop where
  free : ((clientRun service start script past).programs thread).finished = true
  busy : ∀ middle, middle <+: during →
    ((clientRun service start script (past ++ .call thread client :: middle)).programs thread).finished = false

/-- The thread was called as this client, and has made these calls since. -/
def Began (thread : Nat) (client : Client) (trace : List (Index × Call × Answer))
    (owns : Index → service.record.Own) : Prop :=
  ∃ past during, moves = past ++ .call thread client :: during ∧
    Occupies service start script thread client past during ∧
    service.Passes thread trace
      (service.owns thread (Copies.parts (clientRun service start script past).shared)) owns

/-- What the thread still does belongs to the client that it was called as. -/
def ClientStage.From (thread : Nat) (owns : Index → service.record.Own) :
    ClientStage machine Index Call Answer Note → Prop
  | idle => True
  | between left => ∃ client trace, Began service start script moves thread client trace owns ∧
      (∀ index request, left.Asks index request → (script client).Asks index request) ∧
      ∀ more note, left.Takes more note → (script client).Takes (trace ++ more) note
  | inside index request rest next => ∃ client trace before,
      Began service start script moves thread client trace before ∧
      (∀ other, other ≠ index → owns other = before other) ∧
      rest.Ends service.record thread
        (fun answer later => service.Serves thread request answer (before index) later) (owns index) ∧
      (∀ answer place wanted, (next answer).Asks place wanted → (script client).Asks place wanted) ∧
      ∀ answer more note, (next answer).Takes more note →
        (script client).Takes (trace ++ (index, request, answer) :: more) note

/-- The calls that the client has made lead it to its note. -/
def Returned (thread : Nat) (note : Note) (owns : Index → service.record.Own) : Prop :=
  ∃ client trace, Began service start script moves thread client trace owns ∧
    (script client).Takes trace note

/-- This step of a thread notes nothing, or it is the last one of its client. -/
def Noting (thread : Nat) (system after : System (machine.copies Index Note)) : Prop :=
  Copies.notes after.shared = Copies.notes system.shared ∨
  ∃ note, Copies.notes after.shared = Copies.notes system.shared ++ [(thread, note)] ∧
    (after.programs thread).finished = true ∧
    Returned service start script moves thread note (service.owns thread (Copies.parts system.shared))

/-- At some step of the schedule, after these notes, a client of the thread has returned with this one. -/
def Returns (before : List (Nat × Note)) (thread : Nat) (note : Note) : Prop :=
  ∃ earlier later, moves = earlier ++ .step thread :: later ∧
    Copies.notes (clientRun service start script earlier).shared = before ∧
    ((clientRun service start script (earlier ++ [.step thread])).programs thread).finished = true ∧
    Returned service start script earlier thread note
      (service.owns thread (Copies.parts (clientRun service start script earlier).shared))

/-- Every copy has run its own part of the schedule. -/
structure Splits (system : System (machine.copies Index Note)) (split : Index → List (Move Call))
    (stage : Nat → ClientStage machine Index Call Answer Note) : Prop where
  shared : ∀ index, (service.alone start (split index)).shared = Copies.parts system.shared index
  programs : ∀ thread, system.programs thread = (stage thread).program service.work
  parts : ∀ thread index, (service.alone start (split index)).programs thread = (stage thread).part index
  sent : ∀ index thread request, .call thread request ∈ split index →
    ∃ client, .call thread client ∈ moves ∧ (script client).Asks index request
  origin : ∀ thread, (stage thread).From service start script moves thread
    (service.owns thread (Copies.parts system.shared))

end Definitions

variable {service : Service machine Call Answer} {start : machine.Shared}
  {script : Client → Script machine Index Call Answer Note} {moves : List (Move Client)}
  {system : System (machine.copies Index Note)} {split : Index → List (Move Call)}
  {stage : Nat → ClientStage machine Index Call Answer Note} {thread : Nat} {index : Index} {request : Call}
  {next : Answer → Script machine Index Call Answer Note}

/-! ### A longer schedule -/

theorem Began.scheduled {client : Client} {trace : List (Index × Call × Answer)}
    {owns : Index → service.record.Own}
    (began : Began service start script moves thread client trace owns) :
    .call thread client ∈ moves := by
  obtain ⟨past, during, rfl, _⟩ := began
  simp

theorem began_append {client : Client} {trace : List (Index × Call × Answer)}
    {owns : Index → service.record.Own} {move : Move Client}
    (began : Began service start script moves thread client trace owns)
    (unfinished : ((clientRun service start script (moves ++ [move])).programs thread).finished = false) :
    Began service start script (moves ++ [move]) thread client trace owns := by
  obtain ⟨past, during, rfl, occupies, passes⟩ := began
  refine ⟨past, during ++ [move], by rw [List.append_assoc, List.cons_append], ⟨occupies.free, ?_⟩, passes⟩
  intro middle begins
  rcases List.prefix_concat_iff.mp begins with rfl | earlier
  · rw [← List.cons_append, ← List.append_assoc]
    exact unfinished
  · exact occupies.busy middle earlier

theorem compile_unfinished (script : Script machine Index Call Answer Note) :
    (script.compile service.work).finished = false := by
  induction script with
  | done note => rfl
  | look index query next _ => rfl
  | call index request next induction =>
      rw [Script.compile]
      cases service.work request with
      | done answer => exact induction answer
      | panic => rfl
      | act action rest => rfl

variable (service) in
theorem unfinished_or_idle (standing : ClientStage machine Index Call Answer Note) :
    standing = .idle ∨ (standing.program service.work).finished = false := by
  cases standing with
  | idle => exact Or.inl rfl
  | between left => exact Or.inr (compile_unfinished left)
  | inside index request rest next =>
      refine Or.inr ?_
      rw [ClientStage.program]
      cases rest with
      | done answer => exact compile_unfinished (next answer)
      | panic => rfl
      | act action rest => rfl

theorem from_append {standing : ClientStage machine Index Call Answer Note}
    {owns : Index → service.record.Own} {move : Move Client}
    (origin : standing.From service start script moves thread owns)
    (program : (clientRun service start script (moves ++ [move])).programs thread =
      standing.program service.work) :
    standing.From service start script (moves ++ [move]) thread owns := by
  rcases unfinished_or_idle service standing with rfl | unfinished
  · trivial
  · rw [← program] at unfinished
    cases standing with
    | idle => trivial
    | between left =>
        obtain ⟨client, trace, began, rest⟩ := origin
        exact ⟨client, trace, began_append began unfinished, rest⟩
    | inside index request left next =>
        obtain ⟨client, trace, before, began, rest⟩ := origin
        exact ⟨client, trace, before, began_append began unfinished, rest⟩

theorem splits_append {move : Move Client}
    (splits : Splits service start script moves (clientRun service start script (moves ++ [move])) split
      stage) :
    Splits service start script (moves ++ [move]) (clientRun service start script (moves ++ [move]))
      split stage where
  shared := splits.shared
  programs := splits.programs
  parts := splits.parts
  sent := by
    intro index thread request member
    obtain ⟨client, called, asks⟩ := splits.sent index thread request member
    exact ⟨client, List.mem_append_left _ called, asks⟩
  origin := fun thread => from_append (splits.origin thread) (splits.programs thread)

/-! ### The steps of one client -/

theorem owns_update {parts : Index → machine.Shared} {action : machine.Action}
    {response : machine.Response action} {after : machine.Shared}
    (performed : machine.perform thread action (parts index) = some (response, after)) {other : Nat}
    (different : other ≠ thread) :
    service.owns other (Function.update parts index after) = service.owns other parts := by
  funext place
  unfold Service.owns
  by_cases same : place = index
  · rw [same, Function.update_self]
    exact service.record.others performed different
  · rw [Function.update_of_ne same]

omit [DecidableEq Index] in
theorem alone_append (service : Service machine Call Answer) (start : machine.Shared)
    (schedule moved : List (Move Call)) :
    service.alone start (schedule ++ moved) =
      (service.alone start schedule).run (Program.serve service.work) moved :=
  System.run_append ..

/-- A step of a thread moves at most one copy. -/
theorem splits_update (splits : Splits service start script moves system split stage)
    {final : System (machine.copies Index Note)} {moved : List (Move Call)} {after : machine.Shared}
    {standing : ClientStage machine Index Call Answer Note}
    (copy : (service.alone start (split index)).run (Program.serve service.work) moved =
      ⟨after, Function.update (service.alone start (split index)).programs thread (standing.part index)⟩)
    (parts : Copies.parts final.shared =
      Function.update (Copies.parts system.shared) index after)
    (programs : final.programs =
      Function.update system.programs thread (standing.program service.work))
    (others : ∀ other, other ≠ thread → service.owns other (Copies.parts final.shared) =
      service.owns other (Copies.parts system.shared))
    (elsewhere : ∀ other, other ≠ index → standing.part other = (stage thread).part other)
    (sent : ∀ other wanted, .call other wanted ∈ moved → ∃ client, .call other client ∈ moves ∧
      (script client).Asks index wanted)
    (origin : standing.From service start script moves thread
      (service.owns thread (Copies.parts final.shared))) :
    Splits service start script moves final
      (Function.update split index (split index ++ moved))
      (Function.update stage thread standing) where
  shared := by
    intro place
    rw [parts]
    by_cases inside : place = index
    · subst inside
      rw [Function.update_self, Function.update_self, alone_append, copy]
    · rw [Function.update_of_ne inside, Function.update_of_ne inside]
      exact splits.shared place
  programs := by
    intro other
    rw [programs]
    by_cases same : other = thread
    · rw [same, Function.update_self, Function.update_self]
    · rw [Function.update_of_ne same, Function.update_of_ne same]
      exact splits.programs other
  parts := by
    intro other place
    by_cases inside : place = index
    · subst inside
      rw [Function.update_self, alone_append, copy]
      change Function.update (service.alone start (split place)).programs thread
        (standing.part place) other = _
      by_cases same : other = thread
      · rw [same, Function.update_self, Function.update_self]
      · rw [Function.update_of_ne same, Function.update_of_ne same]
        exact splits.parts other place
    · rw [Function.update_of_ne inside, splits.parts]
      by_cases same : other = thread
      · rw [same, Function.update_self]
        exact (elsewhere place inside).symm
      · rw [Function.update_of_ne same]
  sent := by
    intro place other wanted member
    by_cases inside : place = index
    · subst inside
      rw [Function.update_self] at member
      rcases List.mem_append.mp member with old | new
      · exact splits.sent place other wanted old
      · exact sent other wanted new
    · rw [Function.update_of_ne inside] at member
      exact splits.sent place other wanted member
  origin := by
    intro other
    by_cases same : other = thread
    · rw [same, Function.update_self]
      exact origin
    · rw [Function.update_of_ne same, others other same]
      exact splits.origin other

theorem splits_restage (splits : Splits service start script moves system split stage)
    {moved : List (Move Call)} {standing : ClientStage machine Index Call Answer Note}
    (copy : (service.alone start (split index)).run (Program.serve service.work) moved =
      ⟨(service.alone start (split index)).shared,
        Function.update (service.alone start (split index)).programs thread (standing.part index)⟩)
    (program : standing.program service.work = (stage thread).program service.work)
    (elsewhere : ∀ other, other ≠ index → standing.part other = (stage thread).part other)
    (sent : ∀ other wanted, .call other wanted ∈ moved → ∃ client, .call other client ∈ moves ∧
      (script client).Asks index wanted)
    (origin : standing.From service start script moves thread
      (service.owns thread (Copies.parts system.shared))) :
    Splits service start script moves system
      (Function.update split index (split index ++ moved))
      (Function.update stage thread standing) := by
  refine splits_update splits copy ?_ ?_ (fun _ _ => rfl) elsewhere sent origin
  · rw [splits.shared, Function.update_eq_self]
  · rw [program, ← splits.programs, Function.update_eq_self]

theorem splits_open (splits : Splits service start script moves system split stage)
    (here : stage thread = .between (.call index request next)) :
    Splits service start script moves system
      (Function.update split index (split index ++ [.call thread request]))
      (Function.update stage thread (.inside index request (service.work request) next)) := by
  have own := splits.origin thread
  rw [here] at own
  obtain ⟨client, trace, began, asks, takes⟩ := own
  have free : (service.alone start (split index)).programs thread = .done () := by
    rw [splits.parts, here]
    rfl
  refine splits_restage splits ?_ (by rw [here]; rfl) ?_ ?_
    ⟨client, trace, _, began, fun _ _ => rfl, service.ends .., ?_, ?_⟩
  · rw [ClientStage.part, if_pos rfl]
    exact System.move_call (Program.serve service.work) free
  · intro other away
    rw [here, ClientStage.part, if_neg (Ne.symm away)]
    rfl
  · intro other wanted member
    obtain ⟨rfl, rfl⟩ : other = thread ∧ wanted = request := by simpa using member
    exact ⟨client, began.scheduled, asks index wanted (Or.inl ⟨rfl, rfl⟩)⟩
  · intro answer place wanted later
    exact asks place wanted (Or.inr ⟨answer, later⟩)
  · intro answer more note later
    exact takes _ note (.call later)

theorem splits_close (splits : Splits service start script moves system split stage) {answer : Answer}
    (here : stage thread = .inside index request (.done answer) next) :
    Splits service start script moves system split
      (Function.update stage thread (.between (next answer))) := by
  have own := splits.origin thread
  rw [here] at own
  obtain ⟨client, trace, before, ⟨past, during, schedule, occupies, passes⟩, others, ends, asks, takes⟩ := own
  have nothing : ∀ place, (stage thread).part place = .done () := by
    intro place
    rw [here, ClientStage.part]
    split_ifs <;> rfl
  have idle : Function.update split index (split index ++ []) =
      split := by
    rw [List.append_nil, Function.update_eq_self]
  rw [← idle]
  refine splits_restage splits ?_ (by rw [here]; rfl) ?_ (by simp)
    ⟨client, trace ++ [(index, request, answer)], ⟨past, during, schedule, occupies, ?_⟩, asks answer, ?_⟩
  · have still : (service.alone start (split index)).programs thread = .done () := by
      rw [splits.parts, nothing]
    change service.alone start (split index) = ⟨_, Function.update _ thread (.done ())⟩
    rw [← still, Function.update_eq_self]
  · exact fun place _ => (nothing place).symm
  · have records : service.owns thread (Copies.parts system.shared) =
        Function.update before index (service.owns thread (Copies.parts system.shared) index) := by
      funext place
      by_cases same : place = index
      · rw [same, Function.update_self]
      · rw [Function.update_of_ne same, others place same]
    rw [records]
    exact Service.passes_append passes ends
  · intro more note later
    rw [List.append_assoc]
    exact takes answer more note later

theorem splits_act (splits : Splits service start script moves system split stage)
    {action : machine.Action} {rest : machine.Response action → Program machine Answer}
    (here : stage thread = .inside index request (.act action rest) next)
    {response : machine.Response action} {after : machine.Shared}
    (performed : machine.perform thread action (Copies.parts system.shared index) =
      some (response, after)) :
    Splits service start script moves (system.step thread)
      (Function.update split index (split index ++ [.step thread]))
      (Function.update stage thread (.inside index request (rest response) next)) := by
  have own := splits.origin thread
  rw [here] at own
  obtain ⟨client, trace, before, began, others, ends, asks, takes⟩ := own
  have inside : (service.alone start (split index)).programs thread =
      .act action fun response => rest response >>= fun _ => .done () := by
    rw [splits.parts, here, ClientStage.part, if_pos rfl]
    rfl
  have whole : system.programs thread = .act (CopiesAction.on index action)
      fun response => (rest response).on index >>= fun answer => (next answer).compile service.work := by
    rw [splits.programs, here]
    rfl
  have stepped := System.step_act whole (Machine.copies_on performed)
  have copied := System.step_act inside (by rw [splits.shared]; exact performed)
  rw [stepped]
  refine splits_update splits ?_ rfl rfl (fun other different => owns_update performed different) ?_
    (by simp) ⟨client, trace, before, began, ?_, ?_, asks, takes⟩
  · rw [ClientStage.part, if_pos rfl]
    exact copied
  · intro other away
    rw [here, ClientStage.part, ClientStage.part, if_neg (Ne.symm away), if_neg (Ne.symm away)]
  · intro other away
    rw [← others other away]
    change service.record.own thread (Function.update (Copies.parts system.shared) index after other) = _
    rw [Function.update_of_ne away]
    rfl
  · have good := ends _ response after rfl performed
    have moved : Function.update (Copies.parts system.shared) index after index = after :=
      Function.update_self ..
    change (rest response).Ends service.record thread _
      (service.record.own thread (Function.update (Copies.parts system.shared) index after index))
    rw [moved]
    exact good

theorem splits_look (splits : Splits service start script moves system split stage)
    {query : Query machine} {next : machine.Response query.action → Script machine Index Call Answer Note}
    (here : stage thread = .between (.look index query next))
    {response : machine.Response query.action} {after : machine.Shared}
    (performed : machine.perform thread query.action (Copies.parts system.shared index) =
      some (response, after)) :
    Splits service start script moves (system.step thread) split
      (Function.update stage thread (.between (next response))) := by
  have own := splits.origin thread
  rw [here] at own
  obtain ⟨client, trace, began, asks, takes⟩ := own
  have whole : system.programs thread = .act (CopiesAction.on index query.action)
      fun response => (next response).compile service.work := by
    rw [splits.programs, here]
    rfl
  have same : after = Copies.parts system.shared index := by
    obtain ⟨answer, answered⟩ := query.answers thread (Copies.parts system.shared index)
    rw [answered] at performed
    exact (Prod.mk.inj (Option.some.inj performed)).2.symm
  have unmoved : Function.update (Copies.parts system.shared) index (Copies.parts system.shared index) =
      Copies.parts system.shared := Function.update_eq_self ..
  have both := Machine.copies_on performed
  rw [same, unmoved] at both
  have idle : Function.update split index (split index ++ []) = split := by
    rw [List.append_nil, Function.update_eq_self]
  rw [System.step_act whole both, ← idle]
  have free : (service.alone start (split index)).programs thread = .done () := by
    rw [splits.parts, here]
    rfl
  have copy : (service.alone start (split index)).run (Program.serve service.work) [] =
      ⟨(service.alone start (split index)).shared, Function.update
        (service.alone start (split index)).programs thread
        ((ClientStage.between (next response)).part index)⟩ := by
    change service.alone start (split index) = ⟨_, Function.update _ thread (.done ())⟩
    rw [← free, Function.update_eq_self]
  refine splits_update splits copy ?_ rfl (fun _ _ => rfl) ?_ (by simp)
    ⟨client, trace, began, ?_, ?_⟩
  · rw [splits.shared, Function.update_eq_self]
  · intro other _
    rw [here]
    rfl
  · intro place wanted later
    exact asks place wanted ⟨response, later⟩
  · intro more note later
    exact takes more note (.look later)

theorem splits_note (splits : Splits service start script moves system split stage) {note : Note}
    (here : stage thread = .between (.done note)) :
    Splits service start script moves (system.step thread) split
        (Function.update stage thread .idle) ∧
      Noting service start script moves thread system (system.step thread) := by
  have own := splits.origin thread
  rw [here] at own
  obtain ⟨client, trace, began, _, takes⟩ := own
  have whole : system.programs thread = .act (CopiesAction.note note) .done := by
    rw [splits.programs, here]
    rfl
  have noted : (machine.copies Index Note).perform thread (.note note) system.shared =
      some ((), ⟨Copies.parts system.shared, Copies.notes system.shared ++ [(thread, note)]⟩) := rfl
  rw [System.step_act whole noted]
  have last := takes [] note (.done note)
  rw [List.append_nil] at last
  refine ⟨⟨splits.shared, ?_, ?_, splits.sent, ?_⟩, Or.inr ⟨note, rfl, ?_, client, trace, began, last⟩⟩
  · intro other
    change Function.update system.programs thread (.done ()) other = _
    by_cases same : other = thread
    · rw [same, Function.update_self, Function.update_self]
      rfl
    · rw [Function.update_of_ne same, Function.update_of_ne same]
      exact splits.programs other
  · intro other place
    rw [splits.parts]
    by_cases same : other = thread
    · rw [same, Function.update_self, here]
      rfl
    · rw [Function.update_of_ne same]
  · intro other
    by_cases same : other = thread
    · rw [same, Function.update_self]
      trivial
    · rw [Function.update_of_ne same]
      exact splits.origin other
  · change (Function.update system.programs thread (.done ()) thread).finished = true
    rw [Function.update_self]
    rfl

/-! ### Runs -/

/-- The copies run on by a continuation of each one's own schedule. -/
def Continues (split later : Index → List (Move Call)) : Prop := ∀ index, split index <+: later index

omit [DecidableEq Index] in
theorem continues_refl (split : Index → List (Move Call)) : Continues split split :=
  fun _ => List.prefix_refl _

omit [DecidableEq Index] in
theorem Continues.trans {first second third : Index → List (Move Call)}
    (early : Continues first second) (late : Continues second third) : Continues first third :=
  fun index => (early index).trans (late index)

theorem continues_update (split : Index → List (Move Call)) (index : Index) (moved : List (Move Call)) :
    Continues split (Function.update split index (split index ++ moved)) := by
  intro other
  by_cases same : other = index
  · rw [same, Function.update_self]
    exact List.prefix_append ..
  · rw [Function.update_of_ne same]

theorem splits_inside (splits : Splits service start script moves system split stage)
    {rest : Program machine Answer} (here : stage thread = .inside index request rest next)
    (unfinished : rest.finished = false) :
    ∃ later standing, Splits service start script moves (system.step thread) later standing ∧
      Continues split later ∧ Copies.notes (system.step thread).shared = Copies.notes system.shared := by
  have whole := splits.programs thread
  rw [here] at whole
  cases rest with
  | done answer => cases unfinished
  | panic =>
      have stuck : system.programs thread = .panic := whole
      have still : system.step thread = system := by rw [System.step, stuck]
      rw [still]
      exact ⟨split, stage, splits, continues_refl split, rfl⟩
  | act action rest =>
      have acts : system.programs thread = .act (CopiesAction.on index action)
          fun response => (rest response).on index >>= fun answer =>
            (next answer).compile service.work := whole
      cases performed : machine.perform thread action (Copies.parts system.shared index) with
      | some outcome =>
          refine ⟨_, _, splits_act splits here performed, continues_update split index _, ?_⟩
          rw [System.step_act acts (Machine.copies_on performed)]
      | none =>
          rw [System.step_blocked acts (Machine.copies_blocked performed)]
          exact ⟨split, stage, splits, continues_refl split, rfl⟩

/-- A step of a thread between calls; the calls that it opens may end at once. -/
theorem splits_between (left : Script machine Index Call Answer Note)
    (splits : Splits service start script moves system split stage)
    (here : stage thread = .between left) :
    ∃ later standing, Splits service start script moves (system.step thread) later standing ∧
      Continues split later ∧ Noting service start script moves thread system (system.step thread) := by
  induction left generalizing split stage with
  | done note =>
      obtain ⟨noted, noting⟩ := splits_note splits here
      exact ⟨split, _, noted, continues_refl split, noting⟩
  | look index query next _ =>
      have whole : system.programs thread = .act (CopiesAction.on index query.action)
          fun response => (next response).compile service.work := by
        rw [splits.programs, here]
        rfl
      cases performed : machine.perform thread query.action (Copies.parts system.shared index) with
      | some outcome =>
          refine ⟨split, _, splits_look splits here performed, continues_refl split, Or.inl ?_⟩
          rw [System.step_act whole (Machine.copies_on performed)]
      | none =>
          rw [System.step_blocked whole (Machine.copies_blocked performed)]
          exact ⟨split, stage, splits, continues_refl split, Or.inl rfl⟩
  | call index request next induction =>
      have opened := splits_open splits here
      have standing : Function.update stage thread (.inside index request (service.work request) next)
          thread = .inside index request (service.work request) next := Function.update_self ..
      have grown := continues_update split index [.call thread request]
      by_cases finished : (service.work request).finished
      · cases work : service.work request with
        | done answer =>
            rw [work] at opened standing
            obtain ⟨later, final, moved, more, noting⟩ := induction answer (splits_close opened standing)
              (Function.update_self ..)
            exact ⟨later, final, moved, grown.trans more, noting⟩
        | panic => simp [work, Program.finished] at finished
        | act action rest => simp [work, Program.finished] at finished
      · obtain ⟨later, final, moved, more, silent⟩ :=
          splits_inside opened standing (by simpa using finished)
        exact ⟨later, final, moved, grown.trans more, Or.inl silent⟩

theorem splits_step (splits : Splits service start script moves system split stage) (thread : Nat) :
    ∃ later standing, Splits service start script moves (system.step thread) later standing ∧
      Continues split later ∧ Noting service start script moves thread system (system.step thread) := by
  cases here : stage thread with
  | idle =>
      have idle : system.programs thread = .done () := by
        rw [splits.programs, here]
        rfl
      have still : system.step thread = system := by rw [System.step, idle]
      rw [still]
      exact ⟨split, stage, splits, continues_refl split, Or.inl rfl⟩
  | between left => exact splits_between left splits here
  | inside index request rest next =>
      cases rest with
      | done answer =>
          exact splits_between (next answer) (splits_close splits here) (Function.update_self ..)
      | panic =>
          obtain ⟨later, standing, moved, more, silent⟩ := splits_inside splits here rfl
          exact ⟨later, standing, moved, more, Or.inl silent⟩
      | act action rest =>
          obtain ⟨later, standing, moved, more, silent⟩ := splits_inside splits here rfl
          exact ⟨later, standing, moved, more, Or.inl silent⟩

theorem part_finished {standing : ClientStage machine Index Call Answer Note}
    (finished : (standing.program service.work).finished = true) (place : Index) :
    standing.part place = .done () := by
  rcases unfinished_or_idle service standing with rfl | unfinished
  · rfl
  · rw [unfinished] at finished
    cases finished

theorem Splits.finished (splits : Splits service start script moves system split stage)
    (finished : (system.programs thread).finished = true) (place : Index) :
    ((service.alone start (split place)).programs thread).finished = true := by
  rw [splits.programs] at finished
  rw [splits.parts, part_finished finished]
  rfl

variable (service start script) in
theorem client_run_append (past future : List (Move Client)) :
    clientRun service start script (past ++ future) =
      (clientRun service start script past).run (fun client => (script client).compile service.work)
        future :=
  System.run_append ..

theorem splits_call {move : Move Client} {client : Client}
    (splits : Splits service start script moves (clientRun service start script moves) split stage)
    (calls : move = .call thread client) :
    ∃ standing, Splits service start script (moves ++ [move])
      (clientRun service start script (moves ++ [move])) split standing := by
  subst calls
  have moved : clientRun service start script (moves ++ [.call thread client]) =
      (clientRun service start script moves).move (fun client => (script client).compile service.work)
        (.call thread client) := client_run_append ..
  by_cases finished : ((clientRun service start script moves).programs thread).finished = true
  · have nothing : ∀ place, (stage thread).part place = .done () := by
      rw [splits.programs] at finished
      exact part_finished finished
    have idle : (clientRun service start script moves).programs thread = .done () := by
      cases program : (clientRun service start script moves).programs thread with
      | done result => rfl
      | panic =>
          rw [program] at finished
          cases finished
      | act action rest =>
          rw [program] at finished
          cases finished
    have begun := moved.trans (System.move_call _ idle)
    refine ⟨Function.update stage thread (.between (script client)), ?_, ?_, ?_, ?_, ?_⟩
    · rw [begun]
      exact splits.shared
    · intro other
      rw [begun]
      change Function.update (clientRun service start script moves).programs thread _ other = _
      by_cases same : other = thread
      · rw [same, Function.update_self, Function.update_self]
        rfl
      · rw [Function.update_of_ne same, Function.update_of_ne same]
        exact splits.programs other
    · intro other place
      rw [splits.parts]
      by_cases same : other = thread
      · rw [same, Function.update_self, nothing]
        rfl
      · rw [Function.update_of_ne same]
    · intro place other wanted member
      obtain ⟨asker, called, asks⟩ := splits.sent place other wanted member
      exact ⟨asker, List.mem_append_left _ called, asks⟩
    · intro other
      have kept : Copies.parts (clientRun service start script (moves ++ [.call thread client])).shared =
          Copies.parts (clientRun service start script moves).shared := by rw [begun]
      rw [kept]
      by_cases same : other = thread
      · subst same
        rw [Function.update_self]
        refine ⟨client, [], ⟨moves, [], rfl, ⟨finished, ?_⟩, rfl⟩, fun _ _ asks => asks,
          fun _ _ takes => takes⟩
        intro middle begins
        rw [List.prefix_nil.mp begins, begun]
        change (Function.update (clientRun service start script moves).programs other _ other).finished = _
        rw [Function.update_self]
        exact compile_unfinished (script client)
      · rw [Function.update_of_ne same]
        refine from_append (splits.origin other) ?_
        rw [begun]
        change Function.update (clientRun service start script moves).programs thread _ other = _
        rw [Function.update_of_ne same]
        exact splits.programs other
  · have ignored : clientRun service start script (moves ++ [.call thread client]) =
        clientRun service start script moves := by
      rw [moved, System.move, if_neg finished]
    refine ⟨stage, splits_append ?_⟩
    rw [ignored]
    exact splits

theorem splits_move (splits : Splits service start script moves (clientRun service start script moves)
    split stage) (move : Move Client) :
    ∃ later standing, Splits service start script (moves ++ [move])
        (clientRun service start script (moves ++ [move])) later standing ∧ Continues split later := by
  cases move with
  | call thread client =>
      obtain ⟨standing, moved⟩ := splits_call splits rfl
      exact ⟨split, standing, moved, continues_refl split⟩
  | step thread =>
      obtain ⟨later, standing, moved, more, _⟩ := splits_step splits thread
      have stepped : clientRun service start script (moves ++ [.step thread]) =
          (clientRun service start script moves).step thread := client_run_append ..
      rw [← stepped] at moved
      exact ⟨later, standing, splits_append moved, more⟩

theorem splits_continue
    (splits : Splits service start script moves (clientRun service start script moves) split stage)
    (future : List (Move Client)) :
    ∃ later standing, Splits service start script (moves ++ future)
      (clientRun service start script (moves ++ future)) later standing ∧ Continues split later := by
  induction future generalizing moves split stage with
  | nil =>
      rw [List.append_nil]
      exact ⟨split, stage, splits, continues_refl split⟩
  | cons move rest induction =>
      obtain ⟨later, standing, moved, more⟩ := splits_move splits move
      obtain ⟨last, final, ran, further⟩ := induction moved
      rw [List.append_assoc] at ran
      exact ⟨last, final, ran, more.trans further⟩

variable (service start script) in
theorem splits_new : Splits service start script [] (clientRun service start script []) (fun _ => [])
    (fun _ => .idle) where
  shared := fun _ => rfl
  programs := fun _ => rfl
  parts := fun _ _ => rfl
  sent := fun _ _ _ member => by simp at member
  origin := fun _ => trivial

variable (service start script) in
/-- Every schedule of clients splits into one schedule for each copy. -/
theorem clients_split (moves : List (Move Client)) :
    ∃ split stage, Splits service start script moves (clientRun service start script moves) split
      stage := by
  obtain ⟨split, stage, ran, _⟩ := splits_continue (splits_new service start script) moves
  exact ⟨split, stage, ran⟩

theorem Returns.append {before : List (Nat × Note)} {note : Note}
    (returns : Returns service start script moves before thread note) (more : List (Move Client)) :
    Returns service start script (moves ++ more) before thread note := by
  obtain ⟨earlier, later, rfl, facts⟩ := returns
  exact ⟨earlier, later ++ more, by rw [List.append_assoc, List.cons_append], facts⟩

/-- Every note stands for one return. -/
theorem clients_return {before after : List (Nat × Note)} {note : Note}
    (noted : Copies.notes (clientRun service start script moves).shared =
      before ++ (thread, note) :: after) :
    Returns service start script moves before thread note := by
  induction moves using List.reverseRecOn generalizing after with
  | nil => simp [clientRun, System.run] at noted
  | append_singleton moves move induction =>
      obtain ⟨split, stage, splits⟩ := clients_split service start script moves
      have moved := client_run_append service start script moves [move]
      cases move with
      | call other client =>
          have same : Copies.notes ((clientRun service start script moves).move
              (fun client => (script client).compile service.work) (.call other client)).shared =
              Copies.notes (clientRun service start script moves).shared := by
            rw [System.move]
            split_ifs <;> rfl
          rw [moved] at noted
          exact (induction (same.symm.trans noted)).append _
      | step other =>
          obtain ⟨_, _, _, _, noting⟩ := splits_step splits other
          rw [moved] at noted
          rcases noting with silent | ⟨last, appended, finished, returned⟩
          · exact (induction (silent.symm.trans noted)).append _
          · have grown := appended.symm.trans noted
            rcases List.eq_nil_or_concat after with rfl | ⟨front, final, rfl⟩
            · obtain ⟨same, whole⟩ := List.append_inj' grown rfl
              obtain ⟨rfl, rfl⟩ := Prod.mk.inj (List.cons.inj whole).1
              exact ⟨moves, [], rfl, same, by rw [moved]; exact finished, returned⟩
            · rw [List.concat_eq_append, ← List.cons_append, ← List.append_assoc] at grown
              exact (induction (List.append_inj' grown rfl).1).append _

end PulseMap
