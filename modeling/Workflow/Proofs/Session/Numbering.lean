import Workflow.Proofs.Executor.Numbering
import Workflow.Proofs.Session.Moves

/-!
# Numbering across executors

The number of the last line is kept by the executor and travels in the context. If an execution is only
ever taken over from a most recent context, and only the executor that was given out last for it is
called, its lines are numbered without a gap, whoever wrote them. Executors of workers count like
others, and other executions may be under way meanwhile.
-/

namespace Workflow.Session

/-- The most recent contexts of executions, each after the execution that it carries. -/
abbrev Latest := List (String × Context)

/-- The context that was queued last. -/
def lastQueued? (session : Session) : Option Context :=
  session.site.queue.pending.getLast?.map (·.context)

/-- The most recent contexts, now that the executor with a number has made a call: of its execution
there is the one that the call queued, if it answered that it queued one. -/
def renewed (session : Session) (latest : Latest) (slot : Nat) (answer : Answer) : Latest :=
  match session.ids[slot]? with
  | none => latest
  | some id =>
    let others := latest.filter (·.1 ≠ id)
    match answer with
    | some (.ok (.outcome (.suspended _ _))) =>
      others ++ session.lastQueued?.toList.map fun context => (id, context)
    | _ => others

/-- The most recent contexts after a move. -/
def latestAfter (session : Session) (latest : Latest) (move : Move) : Latest :=
  let (answer, after) := session.move move
  match move with
  | .call (.dispatch slot _) | .call (.runTask slot _ _ _) => after.renewed latest slot answer
  | .call (.exportContext slot) =>
    match session.ids[slot]?, answer with
    | some id, some (.ok (.context context)) => latest ++ [(id, context)]
    | _, _ => latest
  | .call _ => latest
  | .work _ _ => after.renewed latest session.executors.length answer

/-- Whether a move goes on from where its execution is: it calls the executor that was given out last,
or takes over from a most recent context. What is created gets an identifier of its own. -/
def GoesOn (session : Session) (latest : Latest) : Move → Prop
  | .call (.create _) => Identifier.spell session.site.issued ∉ session.ids
  | .call (.dispatch slot _) | .call (.runTask slot _ _ _) | .call (.exportContext slot)
  | .call (.current slot) | .call (.definition slot) => session.IsNewest slot
  | .call (.hydrate source) => ∀ context ∈ session.context? source, ∃ entry ∈ latest, entry.2 = context
  | .call (.reject _) => True
  | .work _ _ => ∀ task ∈ session.site.queue.pending.head?, ∃ entry ∈ latest, entry.2 = task.context

/-- Whether each move of a list goes on from where its execution is at that moment. -/
def IsContinuous (session : Session) (latest : Latest) : List Move → Prop
  | [] => True
  | move :: rest =>
    session.GoesOn latest move ∧
      (session.move move).2.IsContinuous (session.latestAfter latest move) rest

section Decidability

variable (session : Session)

instance (latest : Latest) : (move : Move) → Decidable (session.GoesOn latest move)
  | .call (.create _) =>
    inferInstanceAs (Decidable (Identifier.spell session.site.issued ∉ session.ids))
  | .call (.dispatch slot _) | .call (.runTask slot _ _ _) | .call (.exportContext slot)
  | .call (.current slot) | .call (.definition slot) =>
    inferInstanceAs (Decidable (session.IsNewest slot))
  | .call (.hydrate source) =>
    inferInstanceAs (Decidable
      (∀ context ∈ session.context? source, ∃ entry ∈ latest, entry.2 = context))
  | .call (.reject _) => .isTrue trivial
  | .work _ _ =>
    inferInstanceAs (Decidable
      (∀ task ∈ session.site.queue.pending.head?, ∃ entry ∈ latest, entry.2 = task.context))

instance decidableIsContinuous : (session : Session) → (latest : Latest) → (moves : List Move) →
    Decidable (session.IsContinuous latest moves)
  | _, _, [] => .isTrue trivial
  | session, latest, move :: rest =>
    @instDecidableAnd _ _ inferInstance
      (decidableIsContinuous (session.move move).2 (session.latestAfter latest move) rest)

end Decidability

/-- Whether a context tells an execution and the position in its log. -/
def TellsPosition (session : Session) (id : String) (context : Context) : Prop :=
  ∃ executor : Executor, executor.executionId = id ∧ executor.IsKept session.site.central ∧
    executor.sequence = .ofNat (linesFor id session.site.log).length ∧
    context = executor.exported session.site.definitions

/-- What holds throughout: lines are numbered without a gap, and whoever can go on with an execution
knows how many there are. -/
structure Numbered (session : Session) (latest : Latest) : Prop where
  isOpen : session.IsOpen
  gapless : ∀ id, IsGapless id session.site.log
  unwritten : ∀ id, id ∉ session.ids → linesFor id session.site.log = []
  newest : ∀ slot executor, session.executors[slot]? = some executor → session.IsNewest slot →
    executor.sequence = .ofNat (linesFor executor.executionId session.site.log).length
  latest : ∀ entry ∈ latest, entry.1 ∈ session.ids ∧ session.TellsPosition entry.1 entry.2

variable {session : Session} {latest : Latest} {slot : Nat} {executor : Executor}

section Parts

variable {site : Site}

theorem TellsPosition.elsewhere {id : String} {context : Context} {other : Session}
    (h : session.TellsPosition id context) (hcentral : other.site.central = session.site.central)
    (hdefinitions : other.site.definitions = session.site.definitions)
    (hlog : linesFor id other.site.log = linesFor id session.site.log) :
    other.TellsPosition id context := by
  obtain ⟨executor, hid, hkept, hsequence, hcontext⟩ := h
  exact ⟨executor, hid, hcentral ▸ hkept, hlog ▸ hsequence, hdefinitions ▸ hcontext⟩

theorem Numbered.of_site (h : session.Numbered latest) (hcentral : site.central = session.site.central)
    (hdefinitions : site.definitions = session.site.definitions) (hlog : site.log = session.site.log) :
    Numbered { session with site } latest :=
  { isOpen := h.isOpen.of_site
      ⟨hdefinitions ▸ h.isOpen.isLocal.front, hdefinitions ▸ h.isOpen.isLocal.announcement⟩ hcentral
    gapless := fun id => hlog ▸ h.gapless id
    unwritten := fun id hid => hlog ▸ h.unwritten id hid
    newest := fun slot executor hslot hnewest => hlog ▸ h.newest slot executor hslot hnewest
    latest := fun entry hentry =>
      ⟨(h.latest entry hentry).1,
        (h.latest entry hentry).2.elsewhere hcentral hdefinitions (congrArg _ hlog)⟩ }

theorem Numbered.append (h : session.Numbered latest) {id : String} {context : Context}
    (hid : id ∈ session.ids) (htells : session.TellsPosition id context) :
    session.Numbered (latest ++ [(id, context)]) :=
  { h with
    latest := List.forall_mem_append.mpr ⟨h.latest, List.forall_mem_singleton.mpr ⟨hid, htells⟩⟩ }

/-- Whoever knows the position can be given out. -/
theorem Numbered.given (h : session.Numbered latest) (hcentral : site.central = session.site.central)
    (hdefinitions : site.definitions = session.site.definitions) (hlog : site.log = session.site.log)
    (hkept : executor.IsKept session.site.central)
    (hsequence : executor.sequence =
      .ofNat (linesFor executor.executionId session.site.log).length) :
    (session.given executor site).Numbered latest := by
  have hsite := h.of_site hcentral hdefinitions hlog
  have hids : (session.given executor site).ids = session.ids ++ [executor.executionId] :=
    ids_given executor site
  refine
    { isOpen := h.isOpen.given hsite.isOpen.isLocal hcentral hkept
      gapless := hsite.gapless
      unwritten := ?unwritten
      newest := ?newest
      latest := ?latest }
  case unwritten =>
    intro id hid
    rw [hids, List.mem_append, not_or] at hid
    exact hsite.unwritten id hid.1
  case newest =>
    intro other found hother hnewest
    change (session.executors ++ [executor])[other]? = some found at hother
    change found.sequence = .ofNat (linesFor found.executionId site.log).length
    rw [hlog]
    by_cases hlt : other < session.executors.length
    · rw [List.getElem?_append_left hlt] at hother
      exact h.newest other found hother (hnewest.of_given (getElem?_ids hother)).1
    · rw [List.getElem?_append_right (Nat.not_lt.mp hlt)] at hother
      obtain rfl : executor = found := List.mem_singleton.mp (List.mem_of_getElem? hother) ▸ rfl
      exact hsequence
  case latest =>
    intro entry hentry
    obtain ⟨hid, htells⟩ := hsite.latest entry hentry
    exact ⟨hids ▸ List.mem_append_left _ hid, htells⟩

end Parts

section Calls

/-- After a call the lines are numbered on, and the contexts of the execution from before it are no
longer most recent. -/
theorem Numbered.put (h : session.Numbered latest) (hslot : session.executors[slot]? = some executor)
    (hnewest : session.IsNewest slot) (changes : List Change) :
    (session.put slot ((session.stage executor).changed changes)).Numbered
      (latest.filter (·.1 ≠ executor.executionId)) := by
  have hconfined := (session.stage executor).confined_changed changes
  obtain ⟨lines, hlog, hown, hsequences, hposition⟩ :=
    (session.stage executor).numbersOn_changed changes _ (h.newest slot executor hslot hnewest)
  generalize (session.stage executor).changed changes = after at hconfined hlog hposition
  change after.site.log = session.site.log ++ lines at hlog
  change ∀ line ∈ lines, line.executionId = executor.executionId at hown
  have hids := ids_put hslot hconfined.executionId
  have hself : linesFor executor.executionId after.site.log =
      linesFor executor.executionId session.site.log ++ lines := by
    rw [hlog, linesFor_append, linesFor_own hown]
  have hother : ∀ id, id ≠ executor.executionId →
      linesFor id after.site.log = linesFor id session.site.log := by
    intro id hne
    rw [hlog, linesFor_append, linesFor_other hown hne, List.append_nil]
  refine
    { isOpen := h.isOpen.put hslot hconfined
      gapless := ?gapless
      unwritten := ?unwritten
      newest := ?newest
      latest := ?latest }
  case gapless =>
    intro id
    change IsGapless id after.site.log
    unfold IsGapless
    by_cases hid : id = executor.executionId
    · subst hid
      have hbefore := h.gapless executor.executionId
      unfold IsGapless at hbefore
      rw [hself, List.map_append, hbefore, hsequences, List.length_append]
      conv_rhs => rw [← sequencesAfter_append, Nat.zero_add]
    · rw [hother id hid]
      exact h.gapless id
  case unwritten =>
    intro id hid
    change linesFor id after.site.log = []
    rw [hids] at hid
    have hne : id ≠ executor.executionId := by
      rintro rfl
      exact hid (List.mem_of_getElem? (getElem?_ids hslot))
    rw [hother id hne]
    exact h.unwritten id hid
  case newest =>
    intro other found hfound hothers
    change (session.executors.set slot after.executor)[other]? = some found at hfound
    change found.sequence = .ofNat (linesFor found.executionId after.site.log).length
    have hnewestOther : session.IsNewest other := by
      unfold IsNewest at hothers ⊢
      rwa [hids] at hothers
    by_cases hsame : slot = other
    · subst hsame
      obtain rfl : after.executor = found := by
        rw [List.getElem?_set_self' , hslot] at hfound
        exact Option.some.inj hfound
      have hid : after.executor.executionId = executor.executionId := hconfined.executionId
      rw [hid, hself, List.length_append]
      exact hposition
    · rw [List.getElem?_set_ne hsame] at hfound
      have hne : found.executionId ≠ executor.executionId := by
        intro heq
        have hfoundId : session.ids[other]? = some executor.executionId :=
          heq ▸ getElem?_ids hfound
        exact hsame (hnewest.eq_of_getElem? hnewestOther (getElem?_ids hslot) hfoundId)
      rw [hother _ hne]
      exact h.newest other found hfound hnewestOther
  case latest =>
    intro entry hentry
    obtain ⟨hmem, hne⟩ := List.mem_filter.mp hentry
    obtain ⟨hid, htells⟩ := h.latest entry hmem
    have hne : entry.1 ≠ executor.executionId := of_decide_eq_true hne
    exact ⟨hids ▸ hid, htells.elsewhere hconfined.central hconfined.definitions (hother _ hne)⟩

/-- The executor that was given out last tells the position in the context that it exports. -/
theorem Numbered.tellsPosition (h : session.Numbered latest)
    (hslot : session.executors[slot]? = some executor) (hnewest : session.IsNewest slot) :
    session.TellsPosition executor.executionId (executor.exported session.site.definitions) :=
  ⟨executor, rfl, h.isOpen.executors executor (List.mem_of_getElem? hslot),
    h.newest slot executor hslot hnewest, rfl⟩

/-- A call that can hand a task off leaves the context that it queued, if it did, as the most recent
one. -/
theorem Numbered.call (h : session.Numbered latest) (hnewest : session.IsNewest slot)
    {action : Action Stage Outcome} {input : Json}
    (hdelivers : ∀ view, Stage.Delivers action input view) :
    (session.call slot action .outcome).2.Numbered
      ((session.call slot action .outcome).2.renewed latest slot
        (session.call slot action .outcome).1) := by
  cases hslot : session.executors[slot]? with
  | none =>
      rw [call_of_absent hslot]
      unfold renewed
      rw [getElem?_ids_of_absent hslot]
      exact h
  | some executor =>
      obtain ⟨answer, changes, hcall, hleaves⟩ :=
        call_of_delivers h.isOpen.isLocal.announcement hdelivers hslot
      have hput := h.put hslot hnewest changes
      have hconfined := (session.stage executor).confined_changed changes
      have hids := ids_put hslot hconfined.executionId
      rw [hcall]
      unfold renewed
      generalize (session.stage executor).changed changes = after at hput hconfined hids hleaves
      rw [hids, getElem?_ids hslot]
      cases hleaves with
      | nothing hqueue hanswer =>
          cases answer with
          | error error => exact hput
          | ok outcome =>
              cases outcome with
              | suspended name resource => exact absurd rfl (hanswer name resource)
              | finished result => exact hput
      | @task record machine name task hqueue hrecord hstate hmachine htask =>
          have hlast : (session.put slot after).lastQueued? =
              some (after.executor.exported session.site.definitions) := by
            change after.site.queue.pending.getLast?.map _ = _
            rw [hqueue]
            exact congrArg _ List.getLast?_concat
          have hseat : (session.put slot after).executors[slot]? = some after.executor := by
            change (session.executors.set slot after.executor)[slot]? = _
            rw [List.getElem?_set_self', hslot]
            rfl
          have hfirst : (session.put slot after).IsNewest slot := by
            unfold IsNewest
            rw [hids]
            exact hnewest
          have htells := hput.tellsPosition hseat hfirst
          have hid : after.executor.executionId = executor.executionId := hconfined.executionId
          have hdefinitions : (session.put slot after).site.definitions = session.site.definitions :=
            hconfined.definitions
          rw [hid, hdefinitions] at htells
          simp only [hlast]
          exact hput.append (hids ▸ List.mem_of_getElem? (getElem?_ids hslot)) htells

/-- Whoever takes over from a most recent context is at the position. -/
theorem Numbered.hydrate (h : session.Numbered latest) {entry : String × Context}
    (hentry : entry ∈ latest) (queue : Queue) :
    ∃ heir : Executor, ∃ site : Site,
      Executor.hydrate entry.2 { session.site with queue } = .ok heir site ∧
      (session.given heir site).Numbered latest := by
  obtain ⟨-, executor, hid, hkept, hsequence, hcontext⟩ := h.latest entry hentry
  have hannouncement := h.isOpen.isLocal.announcement
  have hhydrate : Executor.hydrate entry.2 { session.site with queue } =
      .ok { executor with executorId := Identifier.spell session.site.issued }
        { session.site with queue, issued := session.site.issued + 1 } := by
    rw [hcontext]
    exact Executor.hydrate_exported hannouncement hannouncement hkept.kept hkept.defined
  -- Said of any identifier of the heir, so that the one that is given out is not computed.
  have hgiven : ∀ executorId, (session.given { executor with executorId }
      { session.site with queue, issued := session.site.issued + 1 }).Numbered latest := by
    intro executorId
    refine h.given rfl rfl rfl ⟨hkept.kept, hkept.defined⟩ ?_
    change executor.sequence = .ofNat (linesFor executor.executionId session.site.log).length
    rw [hid]
    exact hsequence
  exact ⟨_, _, hhydrate, hgiven _⟩

end Calls

section Moves

theorem Numbered.create (h : session.Numbered latest) (machine : Machine)
    (hfresh : Identifier.spell session.site.issued ∉ session.ids) :
    (session.step (.create machine)).2.Numbered latest := by
  have hsite := session.site.site_created machine
  have hopen := (h.isOpen.create machine)
  have hid := session.site.executionId_created machine
  unfold step at hopen ⊢
  simp only [Site.create_apply h.isOpen.isLocal] at hopen ⊢
  have hkept : (session.site.created machine).executor.IsKept session.site.central := by
    have hcentral : (session.site.created machine).site.central = session.site.central := by
      rw [hsite]
    rw [← hcentral]
    exact hopen.executors _ (List.mem_append_right _ (List.mem_singleton_self _))
  have hgiven : (session.given (session.site.created machine).executor
      (session.site.created machine).site).Numbered latest := by
    apply h.given _ _ _ hkept
    · rw [hid, h.unwritten _ hfresh]
      exact session.site.sequence_created machine
    · rw [hsite]
    · rw [hsite]
    · rw [hsite]
  exact { hgiven with isOpen := hopen }

theorem Numbered.exportContext (h : session.Numbered latest) (hnewest : session.IsNewest slot) :
    (session.step (.exportContext slot)).2.Numbered
      (session.latestAfter latest (.call (.exportContext slot))) := by
  unfold latestAfter
  change (session.exportContext slot).2.Numbered
    (match session.ids[slot]?, (session.exportContext slot).1 with
      | some id, some (.ok (.context context)) => latest ++ [(id, context)]
      | _, _ => latest)
  unfold Session.exportContext
  cases hslot : session.executors[slot]? with
  | none =>
      rw [getElem?_ids_of_absent hslot]
      exact h
  | some executor =>
      simp only
      rw [executor.context_eq_ok h.isOpen.isLocal.announcement, getElem?_ids hslot]
      have hid := List.mem_of_getElem? (getElem?_ids hslot)
      have happend := h.append hid (h.tellsPosition hslot hnewest)
      exact { happend with isOpen := ⟨happend.isOpen.isLocal, happend.isOpen.executors⟩ }

theorem put_site (hslot : session.executors[slot]? = some executor) (site : Site) :
    session.put slot { executor, site } = { session with site } := by
  obtain ⟨hlt, hget⟩ := List.getElem?_eq_some_iff.mp hslot
  have hset : session.executors.set slot executor = session.executors := by
    rw [← hget, List.set_getElem_self]
  change { session with site, executors := session.executors.set slot executor } = _
  rw [hset]

/-- A call that at most looks the machine up tells nothing new about an execution. -/
theorem Numbered.look (h : session.Numbered latest) {α : Type} {action : Action Stage α}
    (hlook : ∀ stage : Stage, stage.site.definitions.announcement = none →
      ∃ answer library, action stage = Action.leave answer { stage with site.library := library })
    (reply : α → Reply) : (session.call slot action reply).2.Numbered latest := by
  cases hslot : session.executors[slot]? with
  | none =>
      rw [call_of_absent hslot]
      exact h
  | some executor =>
      obtain ⟨answer, library, haction⟩ :=
        hlook (session.stage executor) h.isOpen.isLocal.announcement
      have hput : session.put slot { executor, site := { session.site with library } } =
          { session with site := { session.site with library } } := put_site hslot _
      rw [call_of_leave hslot haction]
      change (session.put slot { executor, site := { session.site with library } }).Numbered latest
      rw [hput]
      exact h.of_site rfl rfl rfl

theorem look_current (stage : Stage) (h : stage.site.definitions.announcement = none) :
    ∃ answer library, Stage.current stage =
      Action.leave answer { stage with site.library := library } :=
  ⟨_, stage.site.library, Stage.acts_current stage.view stage h rfl⟩

theorem look_definition (stage : Stage) (_ : stage.site.definitions.announcement = none) :
    ∃ answer library, Stage.definition stage =
      Action.leave answer { stage with site.library := library } :=
  ⟨_, stage.lookUp.2, Stage.definition_apply stage⟩

theorem Numbered.workNext (h : session.Numbered latest) {ρ ε : Type} (worker : Worker ρ ε) (memory : ρ)
    (hgoes : session.GoesOn latest (.work worker memory)) :
    (session.workNext worker memory).2.Numbered (session.latestAfter latest (.work worker memory)) := by
  change (session.workNext worker memory).2.Numbered
    ((session.workNext worker memory).2.renewed latest session.executors.length
      (session.workNext worker memory).1)
  cases hpending : session.site.queue.pending with
  | nil =>
      have habsent : session.executors[session.executors.length]? = none :=
        List.getElem?_eq_none (Nat.le_refl _)
      rw [workNext_of_idle hpending]
      unfold renewed
      rw [getElem?_ids_of_absent habsent]
      exact h
  | cons task rest =>
      have hfront : task ∈ session.site.queue.pending.head? := by
        rw [hpending]
        rfl
      obtain ⟨entry, hentry, hcontext⟩ := hgoes task hfront
      obtain ⟨heir, site, hhydrate, hgiven⟩ :=
        h.hydrate hentry { session.site.queue with pending := rest }
      rw [hcontext] at hhydrate
      rw [workNext_of_taken hpending hhydrate]
      apply hgiven.call _ (delivers_runTask _ _ _)
      intro id _
      have hlength : (session.given heir site).ids.length = session.executors.length + 1 := by
        rw [ids_given, List.length_append]
        exact congrArg (· + 1) (List.length_map _)
      rw [List.drop_eq_nil_of_le (Nat.le_of_eq hlength)]
      exact List.not_mem_nil

theorem Numbered.move (h : session.Numbered latest) (move : Move)
    (hgoes : session.GoesOn latest move) :
    (session.move move).2.Numbered (session.latestAfter latest move) := by
  cases move with
  | work worker memory => exact h.workNext worker memory hgoes
  | call command =>
      cases command with
      | create machine => exact h.create machine hgoes
      | dispatch slot input => exact h.call hgoes (Stage.delivers_dispatch input)
      | runTask slot resource input report =>
          exact h.call hgoes (delivers_runTask resource input report)
      | exportContext slot => exact h.exportContext hgoes
      | hydrate source =>
          change (session.step (.hydrate source)).2.Numbered latest
          rw [step_hydrate]
          cases hsource : session.context? source with
          | none => exact h
          | some context =>
              obtain ⟨entry, hentry, rfl⟩ := hgoes context hsource
              obtain ⟨heir, site, hhydrate, hgiven⟩ := h.hydrate hentry session.site.queue
              simp only [receive, hhydrate]
              exact hgiven
      | current slot => exact h.look look_current _
      | definition slot => exact h.look look_definition _
      | reject rejection => exact h.of_site rfl rfl rfl

/-- As long as every move goes on from where its execution is, lines stay numbered without a gap. -/
theorem Numbered.moveAll (h : session.Numbered latest) {moves : List Move}
    (hcontinuous : session.IsContinuous latest moves) :
    ∃ later, (session.moveAll moves).Numbered later := by
  induction moves generalizing session latest with
  | nil => exact ⟨latest, h⟩
  | cons move rest ih => exact ih (h.move move hcontinuous.1) hcontinuous.2

theorem numbered_start (central : Bool) : (start central).Numbered [] :=
  { isOpen := isOpen_start central
    gapless := fun _ => rfl
    unwritten := fun _ _ => rfl
    newest := fun _ _ hslot => nomatch hslot
    latest := List.forall_mem_nil _ }

/-- If each move goes on from where its execution is, the lines of every execution are numbered from one
on without a gap, in the order in which they were written, and the executor that was given out last for
it exports the number of lines as its position. -/
theorem gapless_moveAll (central : Bool) (moves : List Move)
    (hcontinuous : (start central).IsContinuous [] moves) (id : String)
    (hfew : (linesFor id ((start central).moveAll moves).site.log).length < UInt64.size) :
    (linesFor id ((start central).moveAll moves).site.log).map (·.sequence.toNat) =
        List.range' 1 (linesFor id ((start central).moveAll moves).site.log).length ∧
      ∀ slot executor, ((start central).moveAll moves).executors[slot]? = some executor →
        executor.executionId = id → ((start central).moveAll moves).IsNewest slot →
        ∃ context position, executor.context ((start central).moveAll moves).site = .ok context ∧
          Logger.sequenceIn (context.slice Logger.spaceName) = .ok position ∧
          position.toNat = (linesFor id ((start central).moveAll moves).site.log).length := by
  obtain ⟨latest, hnumbered⟩ := (numbered_start central).moveAll hcontinuous
  generalize (start central).moveAll moves = session at hnumbered hfew
  constructor
  · have hgapless := hnumbered.gapless id
    unfold IsGapless at hgapless
    have hnumbers := congrArg (List.map UInt64.toNat) hgapless
    rw [sequencesAfter_toNat hfew, List.map_map] at hnumbers
    exact hnumbers
  · rintro slot executor hslot rfl hnewest
    refine ⟨_, executor.sequence, executor.context_eq_ok hnumbered.isOpen.isLocal.announcement, ?_, ?_⟩
    · rw [Executor.slice_exported_logger]
      exact Executor.sequenceIn_slice executor.logger
    · rw [hnumbered.newest slot executor hslot hnewest]
      exact UInt64.toNat_ofNat_of_lt' hfew

/-- An errand is turned away once, taken over from the context that it is queued with, and then run by a
worker who is given its task. -/
def errandHandedOn : List Move :=
  [.call (.create .errand), .call (.reject (some "full")), .call (.dispatch 0 .null),
    .call (.reject none), .call (.dispatch 0 .null), .call (.hydrate (.queued 0)),
    .call (.exportContext 1), .work (.reporting (.error "lost")) ()]

theorem gapless_errandHandedOn :
    (start true).IsContinuous [] errandHandedOn ∧
      (linesFor (Identifier.spell 0) ((start true).moveAll errandHandedOn).site.log).length = 5 ∧
      (linesFor (Identifier.spell 0) ((start true).moveAll errandHandedOn).site.log).map
        (·.sequence.toNat) = List.range' 1 5 := by
  obtain ⟨hcontinuous, hlines⟩ : (start true).IsContinuous [] errandHandedOn ∧
      (linesFor (Identifier.spell 0) ((start true).moveAll errandHandedOn).site.log).length = 5 := by
    decide +kernel
  have hfew : (linesFor (Identifier.spell 0)
      ((start true).moveAll errandHandedOn).site.log).length < UInt64.size := by
    rw [hlines]
    decide
  have hgapless := gapless_moveAll true errandHandedOn hcontinuous (Identifier.spell 0) hfew
  rw [hlines] at hgapless
  exact ⟨hcontinuous, hlines, hgapless.1⟩

end Moves

end Workflow.Session
