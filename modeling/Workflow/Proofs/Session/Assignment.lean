import Workflow.Proofs.Session.Moves
import Workflow.Proofs.Worker.Turns

/-!
# What a task was handed off for, and what its report is recorded for

A queued task carries its resource and its input; which state its report is recorded for is told by the
execution when the task is run. With records that travel in the context the two always agree. With
records in the table of the site they agree as long as no other task of the execution was taken since
the task was handed off: what was dispatched twice can be run once only for the state it was meant for.
-/

namespace Workflow

/-- What a queued task was handed off for. -/
structure Stamp where
  execution : String
  state : String
  input : Json
  /-- Whether no other task of the execution was taken since. -/
  fresh : Bool
  deriving DecidableEq

/-- The stamp once a task of an execution was taken. -/
def Stamp.passedBy (id : String) (stamp : Stamp) : Stamp :=
  { stamp with fresh := stamp.fresh && stamp.execution != id }

/-- Whether a worker has in hand what a stamp tells: a task of the execution, with the input, and with
the resource of the state. -/
structure Stamp.Fits (stamp : Stamp) (hand : InHand) : Prop where
  execution : hand.stage.executor.executionId = stamp.execution
  resource : ∃ machine state, Stage.definition hand.stage = .ok machine hand.stage ∧
    machine.state? stamp.state = some (.task state) ∧ state.resource = hand.task.resource
  input : hand.task.input = stamp.input

namespace Session

/-- The stamp of the task that a call of an executor has handed off, by what the call answered. -/
def stampsOf (session : Session) (slot : Nat) (input : Json) (answer : Answer) : List Stamp :=
  match session.ids[slot]?, answer with
  | some id, some (.ok (.outcome (.suspended name _))) =>
    [{ execution := id, state := name, input, fresh := true }]
  | _, _ => []

/-- The stamps of the queued tasks after a move, from those before it. -/
def stampsAfter (session : Session) (stamps : List Stamp) (move : Move) : List Stamp :=
  let (answer, after) := session.move move
  match move with
  | .call (.dispatch slot input) => stamps ++ after.stampsOf slot input answer
  | .call _ => stamps
  | .work worker memory =>
    match session.site.queue.pending.head?, after.ids[session.executors.length]? with
    | some task, some id =>
      stamps.tail.map (.passedBy id) ++
        after.stampsOf session.executors.length
          (payloadAfter (worker.perform task.resource task.input memory).1) answer
    | _, _ => stamps

/-- The stamps of the queued tasks after a list of moves. -/
def stampsAll (session : Session) (stamps : List Stamp) : List Move → List Stamp
  | [] => stamps
  | move :: rest => (session.move move).2.stampsAll (session.stampsAfter stamps move) rest

/-- Whether a move only creates, dispatches or works on an execution, or says whether hand-offs are
turned away. What is created gets an identifier of its own. -/
def Dispatches (session : Session) : Move → Prop
  | .call (.create _) => Identifier.spell session.site.issued ∉ session.ids
  | .call (.dispatch _ _) | .call (.reject _) | .work _ _ => True
  | .call _ => False

def IsDispatching (session : Session) : List Move → Prop
  | [] => True
  | move :: rest => session.Dispatches move ∧ (session.move move).2.IsDispatching rest

section Decidability

variable (session : Session)

instance : (move : Move) → Decidable (session.Dispatches move)
  | .call (.create _) =>
    inferInstanceAs (Decidable (Identifier.spell session.site.issued ∉ session.ids))
  | .call (.dispatch _ _) | .call (.reject _) | .work _ _ => .isTrue trivial
  | .call (.runTask _ _ _ _) | .call (.exportContext _) | .call (.hydrate _) | .call (.current _)
  | .call (.definition _) => .isFalse id

instance decidableIsDispatching : (session : Session) → (moves : List Move) →
    Decidable (session.IsDispatching moves)
  | _, [] => .isTrue trivial
  | session, move :: rest =>
    @instDecidableAnd _ _ inferInstance (decidableIsDispatching (session.move move).2 rest)

end Decidability

end Session

/-- Whether a queued task is one of the state that its stamp names, and its execution, which has come to
a record, is there if it must be. -/
structure QueuedTask.IsFor (task : QueuedTask) (stamp : Stamp) (site : Site) (executor : Executor)
    (record : ExecutionRecord) (machine : Machine) (state : TaskState) : Prop where
  context : task.context = executor.exported site.definitions
  execution : executor.executionId = stamp.execution
  kept : executor.IsKept site.central
  stands : Stage.Stands { executor, site } record machine
  atTask : machine.state? stamp.state = some (.task state)
  resource : state.resource = task.resource
  input : task.input = stamp.input
  waiting : site.central = false ∨ stamp.fresh = true →
    record.state.map (·.name) = some stamp.state

namespace QueuedTask.IsFor

variable {task : QueuedTask} {stamp : Stamp} {site other : Site} {executor : Executor}
  {record : ExecutionRecord} {machine : Machine} {state : TaskState}

theorem tabled (h : task.IsFor stamp site executor record machine state)
    (hcentral : site.central = true) :
    executor.execution.held = none ∧ site.table.get? stamp.execution = some record := by
  have hheld : executor.execution.held = none := by
    have hkept := h.kept.kept
    rw [hcentral] at hkept
    exact Option.isNone_iff_eq_none.mp hkept
  refine ⟨hheld, ?_⟩
  have hrecord := h.stands.recorded
  cases htable : site.table.get? executor.executionId with
  | none => cases hrecord.symm.trans (Handle.record_of_untabled hheld htable)
  | some found =>
      have hfound : found = record :=
        Except.ok.inj ((Handle.record_of_tabled hheld htable).symm.trans hrecord)
      rw [← h.execution, htable, hfound]

/-- A stamp stays right at a site where the execution follows the same machine, and is at the state of
the stamp if it must be. -/
theorem moved (h : task.IsFor stamp site executor record machine state)
    (hcentral : other.central = site.central) (hdefinitions : other.definitions = site.definitions)
    (hlibrary : site.library.Extends other.library) {later : ExecutionRecord}
    (hlater : Handle.record { execution := executor.execution, site := other } = .ok later)
    (hsame : later.definitionId = record.definitionId) {fresh : Bool}
    (hwaiting : site.central = false ∨ fresh = true → later.state.map (·.name) = some stamp.state) :
    task.IsFor { stamp with fresh } other executor later machine state := by
  obtain ⟨id, hid, hfind⟩ := h.stands.follows
  have hlocal : other.IsLocal :=
    ⟨hdefinitions ▸ h.stands.isLocal.front, hdefinitions ▸ h.stands.isLocal.announcement⟩
  have hfound : other.library.find? other.definitions.home id = some machine := by
    rw [hdefinitions]
    exact hlibrary _ _ _ hfind
  exact
    { context := hdefinitions ▸ h.context
      execution := h.execution
      kept := hcentral ▸ h.kept
      stands := ⟨hlocal, hlater, id, hsame.trans hid, hfound⟩
      atTask := h.atTask
      resource := h.resource
      input := h.input
      waiting := hcentral ▸ hwaiting }

/-- A stamp stays right while the record, if it is in the table, goes on naming the state, or the stamp
is no longer fresh. -/
theorem later (h : task.IsFor stamp site executor record machine state)
    (hcentral : other.central = site.central) (hdefinitions : other.definitions = site.definitions)
    (hlibrary : site.library.Extends other.library) {fresh : Bool}
    (htable : site.central = true → ∃ later, other.table.get? stamp.execution = some later ∧
      later.definitionId = record.definitionId ∧
      (fresh = true → later.state.map (·.name) = some stamp.state)) :
    ∃ later, task.IsFor { stamp with fresh } other executor later machine state := by
  cases hplace : site.central with
  | false =>
      -- The executor carries the record, and so does the context of the task.
      obtain ⟨held, hheld⟩ : ∃ held, executor.execution.held = some held := by
        have hkept := h.kept.kept
        rw [hplace] at hkept
        exact Option.isSome_iff_exists.mp (Option.isNone_eq_false_iff.mp hkept)
      obtain rfl : held = record :=
        Except.ok.inj ((Handle.record_of_held hheld).symm.trans h.stands.recorded)
      exact ⟨held, h.moved hcentral hdefinitions hlibrary (Handle.record_of_held hheld) rfl
        fun _ => h.waiting (.inl hplace)⟩
  | true =>
      obtain ⟨later, hlater, hdefined, hnamed⟩ := htable hplace
      have hown : other.table.get? executor.executionId = some later := by
        rw [h.execution]
        exact hlater
      refine ⟨later, h.moved hcentral hdefinitions hlibrary
        (Handle.record_of_tabled (h.tabled hplace).1 hown) hdefined ?_⟩
      rintro (hcarried | hstill)
      · cases hplace.symm.trans hcarried
      · exact hnamed hstill

/-- Nothing that leaves the record alone makes a stamp wrong. -/
theorem elsewhere (h : task.IsFor stamp site executor record machine state)
    (hcentral : other.central = site.central) (hdefinitions : other.definitions = site.definitions)
    (hlibrary : site.library.Extends other.library)
    (htable : other.table.get? stamp.execution = site.table.get? stamp.execution) {fresh : Bool}
    (hfresh : fresh = true → stamp.fresh = true) :
    ∃ later, task.IsFor { stamp with fresh } other executor later machine state := by
  refine h.later hcentral hdefinitions hlibrary fun hplace => ?_
  exact ⟨record, htable.trans (h.tabled hplace).2, rfl, fun hstill => h.waiting (.inr (hfresh hstill))⟩

/-- Whoever takes the execution over stands where the stamp says. -/
theorem taken (h : task.IsFor stamp site executor record machine state) (executorId : String)
    (queue : Queue) (issued : Nat) :
    task.IsFor stamp { site with queue, issued } { executor with executorId } record machine state :=
  { h with
    context := h.context
    execution := h.execution
    kept := ⟨h.kept.kept, h.kept.defined⟩
    stands := h.stands.elsewhere rfl (fun _ _ _ hfind => hfind) rfl
    waiting := h.waiting }

/-- Whoever has the task in hand has what the stamp tells, and the state of the stamp if that must be the
one that the execution is at. -/
theorem fits (h : task.IsFor stamp site executor record machine state) {stage : Stage} {name : String}
    {found : TaskState} (hflight : Stage.taskInFlight { executor, site } = .ok (name, found) stage) :
    stamp.Fits { task, stage, name, state := found } ∧
      (site.central = false ∨ stamp.fresh = true →
        name = stamp.state ∧ found.resource = task.resource) := by
  obtain ⟨rfl, hname, hfound⟩ := h.stands.inFlight hflight
  refine ⟨⟨h.execution, ⟨machine, state, Stage.definition_of_stands h.stands, h.atTask, h.resource⟩,
    h.input⟩, ?_⟩
  intro hwaiting
  obtain rfl : name = stamp.state := Option.some.inj (hname.symm.trans (h.waiting hwaiting))
  obtain rfl : found = state := State.task.inj (Option.some.inj (hfound.symm.trans h.atTask))
  exact ⟨rfl, h.resource⟩

end QueuedTask.IsFor

namespace Session

/-- Whether a queued task bears the stamp of an execution of the session. -/
def Bears (session : Session) (task : QueuedTask) (stamp : Stamp) : Prop :=
  stamp.execution ∈ session.ids ∧
    ∃ executor record machine state, task.IsFor stamp session.site executor record machine state

/-- What holds throughout: each queued task bears its stamp. -/
structure Assigned (session : Session) (central : Bool) (stamps : List Stamp) : Prop where
  isOpen : session.IsOpen
  central : session.site.central = central
  bears : List.Forall₂ session.Bears session.site.queue.pending stamps

variable {session after : Session} {task : QueuedTask} {stamp : Stamp} {stamps : List Stamp}
  {slot : Nat} {executor : Executor} {central : Bool}

theorem stampsOf_of_quiet (slot : Nat) (input : Json) {answer : Except ExecutorError Outcome}
    (hanswer : ∀ name resource, answer ≠ .ok (.suspended name resource)) :
    session.stampsOf slot input (some (answer.map .outcome)) = [] := by
  unfold stampsOf
  cases session.ids[slot]? with
  | none => rfl
  | some id =>
      cases answer with
      | error error => rfl
      | ok outcome =>
          cases outcome with
          | suspended name resource => exact absurd rfl (hanswer name resource)
          | finished result => rfl

theorem stampsOf_of_suspended {id : String} (hid : session.ids[slot]? = some id) (input : Json)
    (name resource : String) :
    session.stampsOf slot input (some (.ok (.outcome (.suspended name resource)))) =
      [{ execution := id, state := name, input, fresh := true }] := by
  unfold stampsOf
  rw [hid]

theorem Bears.elsewhere (h : session.Bears task stamp) (hids : session.ids ⊆ after.ids)
    (hcentral : after.site.central = session.site.central)
    (hdefinitions : after.site.definitions = session.site.definitions)
    (hlibrary : session.site.library.Extends after.site.library)
    (htable : after.site.table.get? stamp.execution = session.site.table.get? stamp.execution)
    {fresh : Bool} (hfresh : fresh = true → stamp.fresh = true) :
    after.Bears task { stamp with fresh } := by
  obtain ⟨hid, executor, record, machine, state, hfor⟩ := h
  obtain ⟨later, hlater⟩ := hfor.elsewhere hcentral hdefinitions hlibrary htable hfresh
  exact ⟨hids hid, executor, later, machine, state, hlater⟩

section Calls

/-- Whether an execution whose task bears a fresh stamp is still at the state of the stamp, in a table. -/
def Keeps (session : Session) (stamp : Stamp) (table : Dict ExecutionRecord) : Prop :=
  ∀ (task : QueuedTask) executor record machine state, session.site.central = true →
    stamp.fresh = true → task.IsFor stamp session.site executor record machine state →
    ∃ later, table.get? stamp.execution = some later ∧ later.state.map (·.name) = some stamp.state

/-- A task goes on bearing its stamp through a call, unless the call takes its execution on. -/
theorem Bears.put (h : session.Bears task stamp) (hfront : session.site.definitions.front = none)
    (hslot : session.executors[slot]? = some executor) {later : Stage}
    (hconfined : (session.stage executor).Confined later)
    (hkeeps : stamp.execution = executor.executionId → session.Keeps stamp later.site.table) :
    (session.put slot later).Bears task stamp := by
  have hids := ids_put hslot hconfined.executionId
  have hlibrary : later.site.library = session.site.library := hconfined.library hfront
  obtain ⟨hid, other, record, machine, state, hfor⟩ := h
  have hkept : ∃ found, task.IsFor { stamp with fresh := stamp.fresh } later.site other found machine
      state := by
    refine hfor.later hconfined.central hconfined.definitions ?_ ?_
    · rw [hlibrary]
      exact fun _ _ _ hfind => hfind
    · intro hcentral
      have hrecord := (hfor.tabled hcentral).2
      by_cases hown : stamp.execution = executor.executionId
      · have hdefined := hconfined.tabled
        change (later.site.table.get? executor.executionId).map _ =
          (session.site.table.get? executor.executionId).map _ at hdefined
        rw [← hown, hrecord, Option.map_some] at hdefined
        obtain ⟨found, hfound, hsame⟩ := Option.map_eq_some_iff.mp hdefined
        refine ⟨found, hfound, hsame, ?_⟩
        intro hfresh
        obtain ⟨kept, hkept, hname⟩ := hkeeps hown _ _ _ _ _ hcentral hfresh hfor
        obtain rfl : found = kept := Option.some.inj (hfound.symm.trans hkept)
        exact hname
      · exact ⟨record, (hconfined.others _ hown).trans hrecord, rfl,
          fun hfresh => hfor.waiting (.inr hfresh)⟩
  obtain ⟨found, hfound⟩ := hkept
  exact ⟨hids ▸ hid, other, found, machine, state, hfound⟩

/-- A call leaves a stamp with the task that it hands off. -/
theorem Assigned.call (h : session.Assigned central stamps) (hslot : session.executors[slot]? = some executor)
    {action : Action Stage Outcome} {input : Json}
    (hdelivers : ∀ view, Stage.Delivers action input view)
    (hkeeps : ∀ stamp ∈ stamps, stamp.execution = executor.executionId →
      session.Keeps stamp (session.call slot action .outcome).2.site.table) :
    (session.call slot action .outcome).2.Assigned central
      (stamps ++ (session.call slot action .outcome).2.stampsOf slot input
        (session.call slot action .outcome).1) := by
  obtain ⟨answer, changes, hcall, hleaves⟩ :=
    call_of_delivers h.isOpen.isLocal.announcement hdelivers hslot
  rw [hcall] at hkeeps ⊢
  have hconfined := (session.stage executor).confined_changed changes
  generalize (session.stage executor).changed changes = later at hconfined hkeeps hleaves
  have hids := ids_put hslot hconfined.executionId
  have hopen := h.isOpen.put hslot hconfined
  have hbears : List.Forall₂ (session.put slot later).Bears session.site.queue.pending stamps := by
    have hboth := (List.forall₂_and_left _ _).mpr ⟨fun _ hstamp => hstamp, h.bears.flip⟩
    refine hboth.flip.imp ?_
    rintro task stamp ⟨hstamp, hbears⟩
    have hbefore : session.Bears task stamp := hbears
    exact hbefore.put h.isOpen.isLocal.front hslot hconfined (hkeeps stamp hstamp)
  have hseat : (session.put slot later).ids[slot]? = some executor.executionId := by
    rw [hids, getElem?_ids hslot]
  refine ⟨hopen, hconfined.central.trans h.central, ?_⟩
  change List.Forall₂ _ later.site.queue.pending _
  cases hleaves with
  | nothing hqueue hanswer =>
      rw [hqueue]
      rw [stampsOf_of_quiet _ _ hanswer, List.append_nil]
      exact hbears
  | @task record machine name state hqueue hrecord hstate hmachine htask =>
      rw [hqueue]
      change List.Forall₂ _ (session.site.queue.pending ++ [_])
        (stamps ++ (session.put slot later).stampsOf slot input
          (some (.ok (.outcome (.suspended name state.resource)))))
      rw [stampsOf_of_suspended hseat]
      refine List.rel_append hbears (.cons ⟨?_, later.executor, record, machine, state, ?_⟩ .nil)
      · rw [hids]
        exact List.mem_of_getElem? (getElem?_ids hslot)
      · have hdefinitions : later.site.definitions = session.site.definitions := hconfined.definitions
        have hlater : later.executor ∈ (session.put slot later).executors := by
          refine @List.mem_of_getElem? _ _ slot _ ?_
          change (session.executors.set slot later.executor)[slot]? = _
          rw [List.getElem?_set_self', hslot]
          rfl
        exact
          { context := congrArg later.executor.exported hdefinitions.symm
            execution := hconfined.executionId
            kept := hopen.executors _ hlater
            stands := .of_lookUp hopen.isLocal hrecord hmachine
            atTask := htask
            resource := rfl
            input := rfl
            waiting := fun _ => by rw [hstate, Option.map_some] }

/-- To dispatch an execution once more leaves it at the task that was handed off already. -/
theorem keeps_dispatch (hopen : session.IsOpen) (hslot : session.executors[slot]? = some executor)
    (hown : stamp.execution = executor.executionId) (input : Json) :
    session.Keeps stamp (session.call slot (Stage.dispatch input) .outcome).2.site.table := by
  intro task other record machine state hcentral hfresh hfor
  have hkept := hopen.executors executor (List.mem_of_getElem? hslot)
  rw [hcentral] at hkept
  have hheld : executor.execution.held = none := Option.isNone_iff_eq_none.mp hkept.kept
  have hrecord : session.site.table.get? executor.executionId = some record := by
    rw [← hown]
    exact (hfor.tabled hcentral).2
  have hstands : (session.stage executor).Stands record machine :=
    ⟨hopen.isLocal, Handle.record_of_tabled hheld hrecord, hfor.stands.follows⟩
  obtain ⟨current, hstate, hname⟩ := Option.map_eq_some_iff.mp (hfor.waiting (.inr hfresh))
  have hentrance : record.entrance? machine = some stamp.state := by
    unfold ExecutionRecord.entrance?
    rw [hstate, ← hname]
  have hprogress : machine.enter? stamp.state input =
      some (.pending stamp.state state.resource input) := by
    unfold Machine.enter?
    rw [hfor.atTask]
    rfl
  obtain ⟨later, hdispatch, hreaches⟩ := Stage.dispatch_reaches hstands hentrance hprogress
  rw [call_of_leave hslot hdispatch]
  refine ⟨record.arrived (.pending stamp.state state.resource input), ?_, rfl⟩
  change later.site.table.get? stamp.execution = _
  rw [hreaches.table]
  change (if executor.execution.held.isSome = true then session.site.table
    else session.site.table.insert executor.executionId _).get? stamp.execution = _
  rw [hheld, Option.isSome_none, if_neg Bool.false_ne_true, hown, Dict.get?_insert_self]

theorem Assigned.dispatch (h : session.Assigned central stamps) (slot : Nat) (input : Json) :
    (session.step (.dispatch slot input)).2.Assigned central
      (session.stampsAfter stamps (.call (.dispatch slot input))) := by
  change (session.call slot (Stage.dispatch input) .outcome).2.Assigned central
    (stamps ++ (session.call slot (Stage.dispatch input) .outcome).2.stampsOf slot input
      (session.call slot (Stage.dispatch input) .outcome).1)
  cases hslot : session.executors[slot]? with
  | none =>
      rw [call_of_absent hslot]
      unfold stampsOf
      rw [getElem?_ids_of_absent hslot, List.append_nil]
      exact h
  | some executor =>
      exact h.call hslot (Stage.delivers_dispatch input) fun stamp _ hown =>
        keeps_dispatch h.isOpen hslot hown input

theorem Assigned.create (h : session.Assigned central stamps) (machine : Machine)
    (hnew : Identifier.spell session.site.issued ∉ session.ids) :
    (session.step (.create machine)).2.Assigned central stamps := by
  have hopen := h.isOpen.create machine
  have hsite := session.site.site_created machine
  have hlibrary := session.site.extends_created machine
  have htable := session.site.table_created machine
  unfold step at hopen ⊢
  simp only [Site.create_apply h.isOpen.isLocal] at hopen ⊢
  generalize session.site.created machine = opened at hsite hlibrary htable hopen
  have hcentral : opened.site.central = session.site.central := by rw [hsite]
  refine ⟨hopen, hcentral.trans h.central, ?_⟩
  have hqueue : opened.site.queue = session.site.queue := by rw [hsite]
  change List.Forall₂ _ opened.site.queue.pending stamps
  rw [hqueue]
  refine h.bears.imp ?_
  intro task stamp hbears
  refine @Bears.elsewhere _ _ _ _ hbears ?_ ?_ ?_ hlibrary ?_ stamp.fresh id
  · change session.ids ⊆ (session.given opened.executor opened.site).ids
    rw [ids_given]
    exact List.subset_append_left _ _
  · exact hcentral
  · change opened.site.definitions = _
    rw [hsite]
  · change opened.site.table.get? _ = _
    have hne : stamp.execution ≠ Identifier.spell session.site.issued := fun heq =>
      hnew (heq ▸ hbears.1)
    rw [htable]
    split
    · exact Dict.get?_insert_of_ne hne _
    · rfl

theorem Assigned.reject (h : session.Assigned central stamps) (rejection : Option String) :
    (session.step (.reject rejection)).2.Assigned central stamps := by
  refine ⟨h.isOpen.step (.reject rejection), h.central, ?_⟩
  refine h.bears.imp fun task stamp hbears => ?_
  exact @Bears.elsewhere _ (session.step (.reject rejection)).2 _ _ hbears
    (List.Subset.refl _) rfl rfl (fun _ _ _ hfind => hfind) rfl stamp.fresh id

/-- The oldest task can be taken. Those of the same execution are then no longer fresh. -/
theorem Assigned.taken {more : List Stamp} (h : session.Assigned central (stamp :: more))
    {rest : List QueuedTask} (hpending : session.site.queue.pending = task :: rest) :
    ∃ heir site, Executor.hydrate task.context
        { session.site with queue := { session.site.queue with pending := rest } } = .ok heir site ∧
      site.central = central ∧
      (∃ record machine state, task.IsFor stamp site heir record machine state) ∧
      (session.given heir site).Assigned central (more.map (.passedBy stamp.execution)) := by
  have hbears := h.bears
  rw [hpending] at hbears
  obtain ⟨hfirst, hrest⟩ := List.forall₂_cons.mp hbears
  obtain ⟨-, executor, record, machine, state, hfor⟩ := hfirst
  have hannouncement := h.isOpen.isLocal.announcement
  have hhydrate : Executor.hydrate task.context
      { session.site with queue := { session.site.queue with pending := rest } } =
      .ok { executor with executorId := Identifier.spell session.site.issued }
        { session.site with
          queue := { session.site.queue with pending := rest }
          issued := session.site.issued + 1 } := by
    rw [hfor.context]
    exact Executor.hydrate_exported hannouncement hannouncement hfor.kept.kept hfor.kept.defined
  -- Said of any identifier of the heir, so that the one that is given out is not computed.
  have hgiven : ∀ executorId, (session.given { executor with executorId }
      { session.site with
        queue := { session.site.queue with pending := rest }
        issued := session.site.issued + 1 }).Assigned central (more.map (.passedBy stamp.execution)) := by
    intro executorId
    refine ⟨h.isOpen.given ⟨h.isOpen.isLocal.front, hannouncement⟩ rfl
      ⟨hfor.kept.kept, hfor.kept.defined⟩, h.central, List.forall₂_map_right_iff.mpr (hrest.imp ?_)⟩
    intro later other hother
    change Bears _ later { other with fresh := (other.passedBy stamp.execution).fresh }
    refine hother.elsewhere ?_ ?_ ?_ ?_ ?_ ?_
    · rw [ids_given]
      exact List.subset_append_left _ _
    · rfl
    · rfl
    · exact fun _ _ _ hfind => hfind
    · rfl
    · exact fun hfresh => (Bool.and_eq_true_iff.mp hfresh).1
  exact ⟨_, _, hhydrate, h.central, ⟨record, machine, state, hfor.taken _ _ _⟩, hgiven _⟩

theorem Assigned.workNext (h : session.Assigned central stamps) {ρ ε : Type} (worker : Worker ρ ε) (memory : ρ) :
    (session.workNext worker memory).2.Assigned central
      (session.stampsAfter stamps (.work worker memory)) := by
  change (session.workNext worker memory).2.Assigned central
    (match session.site.queue.pending.head?,
        (session.workNext worker memory).2.ids[session.executors.length]? with
      | some task, some id =>
        stamps.tail.map (.passedBy id) ++
          (session.workNext worker memory).2.stampsOf session.executors.length
            (payloadAfter (worker.perform task.resource task.input memory).1)
            (session.workNext worker memory).1
      | _, _ => stamps)
  cases hpending : session.site.queue.pending with
  | nil =>
      rw [workNext_of_idle hpending]
      exact h
  | cons task rest =>
      have hbears := h.bears
      rw [hpending] at hbears
      cases hbears with
      | @cons _ stamp _ more hfirst hrest =>
          obtain ⟨heir, site, hhydrate, hcentral, ⟨_, _, _, hfor⟩, hgiven⟩ := h.taken hpending
          have hseat := session.getElem?_given heir site
          have hids : ((session.given heir site).call session.executors.length
              (runTask task.resource task.input (worker.perform task.resource task.input memory).1)
              .outcome).2.ids[session.executors.length]? = some stamp.execution := by
            rw [ids_call hgiven.isOpen.isLocal.announcement (delivers_runTask _ _ _),
              getElem?_ids hseat, hfor.execution]
          rw [workNext_of_taken hpending hhydrate, hids]
          refine hgiven.call hseat (delivers_runTask _ _ _) ?_
          -- No stamp of the execution is fresh any more, so the call may take the execution on.
          intro other hother hown _ _ _ _ _ _ hfresh
          obtain ⟨earlier, -, rfl⟩ := List.mem_map.mp hother
          have hne := (Bool.and_eq_true_iff.mp hfresh).2
          exact absurd (hown.trans hfor.execution) (bne_iff_ne.mp hne)

end Calls

section Moves

theorem Assigned.move (h : session.Assigned central stamps) (move : Move) (hdispatches : session.Dispatches move) :
    (session.move move).2.Assigned central (session.stampsAfter stamps move) := by
  cases move with
  | work worker memory => exact h.workNext worker memory
  | call command =>
      cases command with
      | create machine => exact h.create machine hdispatches
      | dispatch slot input => exact h.dispatch slot input
      | reject rejection => exact h.reject rejection
      | runTask | exportContext | hydrate | current | definition => exact hdispatches.elim

/-- As long as executions are only dispatched and worked on, every queued task bears its stamp. -/
theorem Assigned.moveAll (h : session.Assigned central stamps) {moves : List Move}
    (hdispatching : session.IsDispatching moves) :
    (session.moveAll moves).Assigned central (session.stampsAll stamps moves) := by
  induction moves generalizing session stamps with
  | nil => exact h
  | cons move rest ih => exact ih (h.move move hdispatching.1) hdispatching.2

theorem assigned_start (central : Bool) : (start central).Assigned central [] :=
  ⟨isOpen_start central, rfl, .nil⟩

/-- A worker has in hand what the stamp of the oldest task tells. -/
theorem Assigned.inHand (h : session.Assigned central stamps) {hand : InHand}
    (hhand : session.site.inHand? = some hand) :
    ∃ stamp rest, stamps = stamp :: rest ∧ stamp.Fits hand ∧
      (central = false ∨ stamp.fresh = true →
        hand.name = stamp.state ∧ hand.state.resource = hand.task.resource) := by
  obtain ⟨rest, heir, site, hpending, hhydrate, hflight⟩ := Site.of_inHand? hhand
  have hbears := h.bears
  rw [hpending] at hbears
  cases hbears with
  | @cons _ stamp _ more hfirst hrest =>
      obtain ⟨_, _, hsame, hcentral, ⟨record, machine, state, hfor⟩, -⟩ := h.taken hpending
      cases hhydrate.symm.trans hsame
      rw [← hcentral]
      exact ⟨stamp, more, rfl, hfor.fits hflight⟩

/-- A worker is called with what the oldest task was handed off with: the resource of the state that it
was handed off for, and the input that was dispatched for it. Its report is recorded for that very state
if records travel in the context, or if no other task of the execution was taken since. -/
theorem recorded_as_stamped (central : Bool) (moves : List Move)
    (hdispatching : (start central).IsDispatching moves) {ρ ε : Type} (worker : Worker ρ ε) (memory : ρ)
    {call : Call}
    (hcalled : call ∈ (Worker.memoryAfter
      (worker.recording.runNext (((start central).moveAll moves).site, memory, []))).2) :
    ∃ hand stamp rest,
      ((start central).moveAll moves).site.inHand? = some hand ∧ call = hand.call ∧
      worker.recording.runNext (((start central).moveAll moves).site, memory, []) =
        worker.recording.finish hand (memory, []) ∧
      (start central).stampsAll [] moves = stamp :: rest ∧ stamp.Fits hand ∧
      (central = false ∨ stamp.fresh = true →
        hand.name = stamp.state ∧ hand.state.resource = hand.task.resource) := by
  have hassigned := (assigned_start central).moveAll hdispatching
  rw [worker.calls_runNext, List.nil_append, Option.mem_toList] at hcalled
  obtain ⟨hand, hhand, rfl⟩ := Option.map_eq_some_iff.mp hcalled
  obtain ⟨stamp, rest, hstamps, hfits, hrecorded⟩ := hassigned.inHand hhand
  exact ⟨hand, stamp, rest, hhand, rfl, worker.recording.runNext_of_inHand hhand _, hstamps, hfits,
    hrecorded⟩

/-- Two tasks that are done one after the other, each by its own resource. -/
def relay : Machine :=
  { states := .ofList
      [("Paint", .task { resource := "brush", next := none, catchList := none, comment := none }),
        ("Saw", .task { resource := "saw", next := some "Paint", catchList := none, comment := none })]
    startAt := "Saw"
    comment := none
    version := defaultVersion
    timeoutSeconds := none }

/-- A relay is dispatched once more while its task is in flight. -/
def relayTwice : List Move :=
  [.call (.create relay), .call (.dispatch 0 .null), .call (.dispatch 0 .null)]

theorem recorded_as_stamped_relay :
    (start true).IsDispatching relayTwice ∧
      ∃ hand, ((start true).moveAll relayTwice).site.inHand? = some hand ∧
        hand.call = ("saw", .null) ∧ hand.name = "Saw" ∧ hand.state.resource = "saw" := by
  obtain ⟨hdispatching, hcalled, hfirst⟩ : (start true).IsDispatching relayTwice ∧
      (Worker.memoryAfter ((Worker.reporting (.ok .null)).recording.runNext
        (((start true).moveAll relayTwice).site, (), []))).2 = [("saw", .null)] ∧
      ((start true).stampsAll [] relayTwice).head?.map (fun stamp => (stamp.state, stamp.fresh)) =
        some ("Saw", true) := by
    decide +kernel
  obtain ⟨hand, stamp, rest, hhand, hcall, -, hstamps, -, hrecorded⟩ :=
    recorded_as_stamped true relayTwice hdispatching (.reporting (.ok .null)) ()
      (hcalled ▸ List.mem_singleton_self _)
  rw [hstamps] at hfirst
  obtain ⟨hstate, hfresh⟩ := Prod.mk.inj (Option.some.inj hfirst)
  obtain ⟨hname, hresource⟩ := hrecorded (.inr hfresh)
  exact ⟨hdispatching, hand, hhand, hcall.symm, hname.trans hstate,
    hresource.trans (congrArg Prod.fst hcall.symm)⟩

/-- With records in a table, the second task of the two that were dispatched is done by the saw like
the first, but what is recorded then is that the relay was painted. -/
theorem recorded_elsewhere_relay :
    (start true).IsDispatching (relayTwice ++ [.work (.reporting (.ok .null)) ()]) ∧
      ∃ hand stamp rest,
        ((start true).moveAll (relayTwice ++ [.work (.reporting (.ok .null)) ()])).site.inHand? =
          some hand ∧
        (start true).stampsAll [] (relayTwice ++ [.work (.reporting (.ok .null)) ()]) = stamp :: rest ∧
        stamp.Fits hand ∧ hand.call = ("saw", .null) ∧ stamp.state = "Saw" ∧
        hand.name = "Paint" ∧ hand.state.resource = "brush" := by
  let moves := relayTwice ++ [.work (.reporting (.ok .null)) ()]
  obtain ⟨hdispatching, hinHand, hfirst⟩ : (start true).IsDispatching moves ∧
      ((start true).moveAll moves).site.inHand?.map
        (fun hand => (hand.call, hand.name, hand.state.resource)) =
        some (("saw", .null), "Paint", "brush") ∧
      ((start true).stampsAll [] moves).head?.map (·.state) = some "Saw" := by
    decide +kernel
  obtain ⟨hand, hhand, hheld⟩ := Option.map_eq_some_iff.mp hinHand
  obtain ⟨hcall, hsecond⟩ := Prod.mk.inj hheld
  obtain ⟨hname, hresource⟩ := Prod.mk.inj hsecond
  obtain ⟨stamp, rest, hstamps, hfits, -⟩ :=
    ((assigned_start true).moveAll hdispatching).inHand hhand
  rw [hstamps] at hfirst
  exact ⟨hdispatching, hand, stamp, rest, hhand, hstamps, hfits, hcall, Option.some.inj hfirst,
    hname, hresource⟩

end Moves

end Session

end Workflow
