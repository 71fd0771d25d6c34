import Arrowlet.Proofs.Batch.Failures
import Mathlib.Data.List.Perm.Subperm

/-!
# A batch on several workers

The sources of a batch may be compiled side by side, a bounded number at a time. A task is started
for each source in their order. It gives up if the group is cancelled by then, and otherwise
compiles its source, says so in the log and stores the result in its own slot. The first task that
fails records its error and then cancels the group; a task that fails later waits for that and
leaves no trace. The result is there when all tasks are done: the error that was recorded, or the
slots.

`batch_ignores_schedule` says that the result does not depend on the order of the steps, except for
which error it is if several sources fail. What a task may do is said once (`Batch.TaskStep`). From
that follows what the pool keeps (`Batch.Sound.step`): an error is recorded only if a source gave
it, because nobody gives up before. Each step leaves less work (`Batch.Step.work_lt`), and as long
as there is work some step is possible (`Batch.Sound.exists_step`), so that every run ends. With one
worker no task starts before the one before it is done (`Batch.InOrder.step`), and the run is that
of `Batch.compileAll`, also in what the log says (`Batch.Run.eq_outcome`).
-/

namespace Arrowlet

namespace Batch

/-! ## Tasks -/

/-- Why a task fails. -/
inductive TaskError where
  /-- Its source cannot be compiled. -/
  | source (e : SourceError)
  /-- The group was cancelled before the task began. -/
  | cancelled
  deriving DecidableEq, Repr

/-- How far a task has come. -/
inductive Phase where
  /-- It has not looked yet whether the group is cancelled. -/
  | started
  /-- It compiles its source. -/
  | compiling
  /-- It has compiled its source. -/
  | compiled (c : CompiledSource)
  /-- It is done, and the result is in its slot. -/
  | stored (c : CompiledSource)
  /-- It has failed. -/
  | failed (e : TaskError)
  /-- It has recorded its error, and has to cancel the group. -/
  | recorded
  /-- It is done, and its slot is empty. -/
  | ended
  deriving DecidableEq, Repr

/-- Whether nothing is left to do. -/
def Phase.isDone : Phase → Bool
  | stored _ | ended => true
  | _ => false

/-- The work on one source. -/
structure Task where
  /-- The path of the source. -/
  source : Bytes
  /-- How far it has come. -/
  phase : Phase
  deriving DecidableEq, Repr

/-- Whether there is a result in the slot of a task. -/
def Task.isStored (t : Task) : Bool :=
  match t.phase with
  | .stored _ => true
  | _ => false

/-- What the slot of a task holds: nothing of use before a result is stored there. -/
def Task.slot (t : Task) : CompiledSource :=
  match t.phase with
  | .stored c => c
  | _ => ⟨[], [], []⟩

/-- What the tasks of a batch share. -/
structure Group where
  /-- The error that was recorded. -/
  error : Option TaskError
  /-- Whether tasks that begin now are to give up. -/
  cancelled : Bool
  /-- The sources that the log says were compiled, in its order. -/
  translated : List Bytes
  deriving DecidableEq, Repr

/-- What a task does next. Only the first error is recorded; a task that fails after that goes on
when the group is cancelled. -/
inductive TaskStep (translate : Bytes → Except SourceError CompiledSource) :
    Group → Task → Group → Task → Prop
  | proceed {error : Option TaskError} {translated : List Bytes} {source : Bytes} :
      TaskStep translate ⟨error, false, translated⟩ ⟨source, .started⟩ ⟨error, false, translated⟩
        ⟨source, .compiling⟩
  | giveUp {error : Option TaskError} {translated : List Bytes} {source : Bytes} :
      TaskStep translate ⟨error, true, translated⟩ ⟨source, .started⟩ ⟨error, true, translated⟩
        ⟨source, .failed .cancelled⟩
  | succeed {g : Group} {source : Bytes} {c : CompiledSource} (h : translate source = .ok c) :
      TaskStep translate g ⟨source, .compiling⟩ g ⟨source, .compiled c⟩
  | fail {g : Group} {source : Bytes} {e : SourceError} (h : translate source = .error e) :
      TaskStep translate g ⟨source, .compiling⟩ g ⟨source, .failed (.source e)⟩
  | store {error : Option TaskError} {cancelled : Bool} {translated : List Bytes} {source : Bytes}
      {c : CompiledSource} :
      TaskStep translate ⟨error, cancelled, translated⟩ ⟨source, .compiled c⟩
        ⟨error, cancelled, translated ++ [source]⟩ ⟨source, .stored c⟩
  | record {cancelled : Bool} {translated : List Bytes} {source : Bytes} {e : TaskError} :
      TaskStep translate ⟨none, cancelled, translated⟩ ⟨source, .failed e⟩
        ⟨some e, cancelled, translated⟩ ⟨source, .recorded⟩
  | cancel {error : Option TaskError} {cancelled : Bool} {translated : List Bytes}
      {source : Bytes} :
      TaskStep translate ⟨error, cancelled, translated⟩ ⟨source, .recorded⟩
        ⟨error, true, translated⟩ ⟨source, .ended⟩
  | drop {first e : TaskError} {translated : List Bytes} {source : Bytes} :
      TaskStep translate ⟨some first, true, translated⟩ ⟨source, .failed e⟩
        ⟨some first, true, translated⟩ ⟨source, .ended⟩

/-! ## Pools -/

/-- The sources that wait, and the tasks of the others in the order in which they were started. -/
structure Pool where
  /-- The sources whose tasks are not started yet. -/
  waiting : List Bytes
  /-- The tasks that were started. -/
  tasks : List Task
  /-- What the tasks share. -/
  group : Group
  deriving DecidableEq, Repr

/-- Before anything is started. -/
def Pool.initial (sources : List Bytes) : Pool := ⟨sources, [], ⟨none, false, []⟩⟩

/-- The result when all tasks are done: the error that was recorded, or what is in the slots. -/
def Pool.result? (p : Pool) : Option (Except TaskError (List CompiledSource)) :=
  if p.waiting = [] ∧ ∀ t ∈ p.tasks, t.phase.isDone then
    match p.group.error with
    | some e => some (.error e)
    | none => some (.ok (p.tasks.map Task.slot))
  else none

/-- The next source is started if a worker is free, or one of the tasks goes on. -/
inductive Step (translate : Bytes → Except SourceError CompiledSource) (jobs : Nat) :
    Pool → Pool → Prop
  | start {source : Bytes} {waiting : List Bytes} {tasks : List Task} {g : Group}
      (h : tasks.countP (fun t => !t.phase.isDone) < jobs) :
      Step translate jobs ⟨source :: waiting, tasks, g⟩
        ⟨waiting, tasks ++ [⟨source, .started⟩], g⟩
  | move {waiting : List Bytes} {tasks : List Task} {g g' : Group} {t t' : Task} {i : Nat}
      (ht : tasks[i]? = some t) (h : TaskStep translate g t g' t') :
      Step translate jobs ⟨waiting, tasks, g⟩ ⟨waiting, tasks.set i t', g'⟩

/-- A number of steps, one after the other. -/
inductive Run (translate : Bytes → Except SourceError CompiledSource) (jobs : Nat) :
    Nat → Pool → Pool → Prop
  | refl {p : Pool} : Run translate jobs 0 p p
  | step {n : Nat} {p q r : Pool} (h : Step translate jobs p q) (hr : Run translate jobs n q r) :
      Run translate jobs (n + 1) p r

section
variable {translate : Bytes → Except SourceError CompiledSource} {jobs n : Nat}
  {sources : List Bytes} {g g' : Group} {t t' : Task} {p q : Pool}

/-- What a step does to a pool: the next source gets a task, or one task is replaced. -/
theorem Step.cases_on (h : Step translate jobs p q) :
    (∃ source waiting, p.waiting = source :: waiting ∧
      p.tasks.countP (fun t => !t.phase.isDone) < jobs ∧
      q = ⟨waiting, p.tasks ++ [⟨source, .started⟩], p.group⟩) ∨
    ∃ before t after t' g', p.tasks = before ++ t :: after ∧ TaskStep translate p.group t g' t' ∧
      q = ⟨p.waiting, before ++ t' :: after, g'⟩ := by
  cases h with
  | start hfree => exact .inl ⟨_, _, rfl, hfree, rfl⟩
  | @move waiting tasks g g' t t' i ht h =>
    obtain ⟨hi, rfl⟩ := List.getElem?_eq_some_iff.mp ht
    obtain ⟨before, after, htasks, -, hset⟩ : ∃ before after, tasks = before ++ tasks[i] :: after ∧
        before.length = i ∧ tasks.set i t' = before ++ t' :: after := List.exists_of_set hi
    exact .inr ⟨before, _, after, t', g', htasks, h, by rw [hset]⟩

/-- A property that every step keeps is kept by a run. -/
theorem Run.keeps {P : Pool → Prop} (hstep : ∀ {p q}, P p → Step translate jobs p q → P q)
    (h : Run translate jobs n p q) (hp : P p) : P q := by
  induction h with
  | refl => exact hp
  | step h _ ih => exact ih (hstep hp h)

/-! ## What a task keeps -/

/-- What is known of a task by its phase. -/
def Task.Sound (translate : Bytes → Except SourceError CompiledSource) (g : Group) (t : Task) :
    Prop :=
  match t.phase with
  | .started | .compiling => True
  | .compiled c | .stored c => translate t.source = .ok c
  | .failed (.source e) => translate t.source = .error e
  | .failed .cancelled => g.cancelled
  | .recorded | .ended => g.error.isSome

/-- The first group gets on to the second one: an error stays recorded and a group cancelled. -/
structure Group.Le (g g' : Group) : Prop where
  error : ∀ e, g.error = some e → g'.error = some e
  cancelled : g.cancelled → g'.cancelled

theorem Group.Le.isSome (h : g.Le g') (he : g.error.isSome) : g'.error.isSome := by
  obtain ⟨e, he⟩ := Option.isSome_iff_exists.mp he
  rw [h.error e he]
  rfl

theorem Task.Sound.mono (h : t.Sound translate g) (hle : g.Le g') : t.Sound translate g' := by
  unfold Task.Sound at h ⊢
  split at h <;> first | exact h | exact hle.cancelled h | exact hle.isSome h

theorem TaskStep.source_eq (h : TaskStep translate g t g' t') : t'.source = t.source := by
  cases h <;> rfl

theorem TaskStep.le (h : TaskStep translate g t g' t') : g.Le g' := by
  cases h with
  | record => exact ⟨fun e he => (by cases he), id⟩
  | cancel => exact ⟨fun e he => he, fun _ => rfl⟩
  | _ => exact ⟨fun e he => he, id⟩

theorem TaskStep.sound (h : TaskStep translate g t g' t') (ht : t.Sound translate g) :
    t'.Sound translate g' := by
  cases h with
  | proceed => trivial
  | giveUp => rfl
  | succeed h | fail h => exact h
  | store => exact ht
  | record => rfl
  | cancel => exact ht
  | drop => rfl

/-- An error that a task records is that of its source: a task gives up only if the group is
cancelled, and then an error is recorded already. -/
theorem TaskStep.error_eq {e : TaskError} (h : TaskStep translate g t g' t')
    (ht : t.Sound translate g) (hg : g.cancelled → g.error.isSome) (he : g'.error = some e) :
    g.error = some e ∨
      g.error = none ∧ ∃ e', translate t.source = .error e' ∧ e = .source e' := by
  cases h with
  | record =>
    cases he
    cases e with
    | source e' => exact .inr ⟨rfl, e', ht, rfl⟩
    | cancelled => cases hg ht
  | _ => exact .inl he

/-- A group is cancelled only after an error was recorded. -/
theorem TaskStep.isSome_of_cancelled (h : TaskStep translate g t g' t')
    (ht : t.Sound translate g) (hg : g.cancelled → g.error.isSome) :
    g'.cancelled → g'.error.isSome := by
  cases h with
  | record => exact fun _ => rfl
  | cancel => exact fun _ => ht
  | _ => exact hg

/-- Where an error is recorded, the group is cancelled, or the task that did it still has to. -/
theorem TaskStep.cancelled_or (h : TaskStep translate g t g' t') (he : g'.error.isSome) :
    g'.cancelled ∨ t'.phase = .recorded ∨
      g.error.isSome ∧ t.phase ≠ .recorded ∧ g'.cancelled = g.cancelled := by
  cases h with
  | record => exact .inr (.inl rfl)
  | giveUp | cancel | drop => exact .inl rfl
  | _ => exact .inr (.inr ⟨he, by simp, rfl⟩)

/-- The sources of the tasks that have stored their results. -/
def storedSources (tasks : List Task) : List Bytes :=
  (tasks.filter Task.isStored).map Task.source

theorem storedSources_append (before after : List Task) :
    storedSources (before ++ after) = storedSources before ++ storedSources after := by
  rw [storedSources, List.filter_append, List.map_append]
  rfl

theorem storedSources_append_cons (before : List Task) (t : Task) (after : List Task) :
    storedSources (before ++ t :: after) =
      storedSources before ++ (storedSources [t] ++ storedSources after) := by
  rw [List.append_cons, storedSources_append, storedSources_append, List.append_assoc]

/-- A task says in the log that its source was compiled when it stores the result. -/
theorem TaskStep.translated_eq (h : TaskStep translate g t g' t') :
    storedSources [t] = [] ∧ g'.translated = g.translated ++ storedSources [t'] := by
  cases h with
  | store => exact ⟨rfl, rfl⟩
  | _ => exact ⟨rfl, (List.append_nil _).symm⟩

/-! ## What a pool keeps -/

/-- What holds of the pool in every run. -/
structure Sound (translate : Bytes → Except SourceError CompiledSource) (sources : List Bytes)
    (p : Pool) : Prop where
  /-- Sources are started in their order. -/
  order : p.tasks.map Task.source ++ p.waiting = sources
  tasks : ∀ t ∈ p.tasks, t.Sound translate p.group
  /-- A source gave the error that is recorded. -/
  error : ∀ e, p.group.error = some e →
    ∃ source ∈ sources, ∃ e', translate source = .error e' ∧ e = .source e'
  /-- The group is not cancelled without an error. -/
  cancelled : p.group.cancelled → p.group.error.isSome
  /-- The group will be cancelled after an error. -/
  recorded : p.group.error.isSome → p.group.cancelled ∨ ∃ t ∈ p.tasks, t.phase = .recorded
  /-- The log names the sources whose results are stored, in some order. -/
  translated : p.group.translated.Perm (storedSources p.tasks)

theorem Sound.initial (translate : Bytes → Except SourceError CompiledSource)
    (sources : List Bytes) : Sound translate sources (.initial sources) where
  order := rfl
  tasks t ht := by cases ht
  error e he := by cases he
  cancelled h := by cases h
  recorded h := by cases h
  translated := .nil

theorem Sound.step (h : Sound translate sources p) (hstep : Step translate jobs p q) :
    Sound translate sources q := by
  obtain ⟨horder, htasks, herror, hcancelled, hrecorded, htranslated⟩ := h
  obtain ⟨waiting, tasks, g⟩ := p
  rcases hstep.cases_on with ⟨source, waiting', hw, -, rfl⟩ |
    ⟨before, t, after, t', g', hsplit, htask, rfl⟩
  · -- The new task is sound, and nothing else changes.
    obtain rfl : waiting = source :: waiting' := hw
    refine ⟨by simpa using horder, fun u hu => ?_, herror, hcancelled, fun he => ?_, ?_⟩
    · rcases List.mem_append.mp hu with hu | hu
      · exact htasks u hu
      · cases List.mem_singleton.mp hu
        trivial
    · exact (hrecorded he).imp_right fun ⟨u, hu, hphase⟩ => ⟨u, by simp [hu], hphase⟩
    · rw [storedSources_append]
      exact (List.append_nil (storedSources tasks)).symm ▸ htranslated
  · obtain rfl : tasks = before ++ t :: after := hsplit
    have ht := htasks t (by simp)
    refine ⟨?_, fun u hu => ?_, fun e he => ?_, htask.isSome_of_cancelled ht hcancelled,
      fun he => ?_, ?_⟩
    · simpa [htask.source_eq] using horder
    · rcases List.mem_append.mp hu with hu | hu
      · exact (htasks u (by simp [hu])).mono htask.le
      · rcases List.mem_cons.mp hu with rfl | hu
        · exact htask.sound ht
        · exact (htasks u (by simp [hu])).mono htask.le
    · rcases htask.error_eq ht hcancelled he with he | ⟨-, e', he', rfl⟩
      · exact herror e he
      · exact ⟨t.source, by simp [← horder], e', he', rfl⟩
    · rcases htask.cancelled_or he with hc | hphase | ⟨he, hphase, hsame⟩
      · exact .inl hc
      · exact .inr ⟨t', by simp, hphase⟩
      · rw [hsame]
        refine (hrecorded he).imp_right fun ⟨u, hu, hu'⟩ => ⟨u, ?_, hu'⟩
        have hne : u ≠ t := by
          rintro rfl
          exact hphase hu'
        simp only [List.mem_append, List.mem_cons] at hu ⊢
        exact hu.imp_right fun hu => .inr (hu.resolve_left hne)
    · obtain ⟨hnone, hlog⟩ := htask.translated_eq
      rw [storedSources_append_cons, hnone, List.nil_append] at htranslated
      rw [hlog, storedSources_append_cons]
      refine (htranslated.append_right _).trans ?_
      rw [List.append_assoc]
      exact List.perm_append_comm.append_left _

/-! ## Every run ends -/

/-- How many steps a task may still take. -/
def Phase.stepsLeft : Phase → Nat
  | started => 4
  | compiling => 3
  | failed _ => 2
  | compiled _ | recorded => 1
  | stored _ | ended => 0

/-- How many steps tasks may still take together. -/
def stepsLeft : List Task → Nat
  | [] => 0
  | t :: tasks => t.phase.stepsLeft + stepsLeft tasks

theorem stepsLeft_append (before after : List Task) :
    stepsLeft (before ++ after) = stepsLeft before + stepsLeft after := by
  induction before with
  | nil => simp [stepsLeft]
  | cons t before ih =>
    rw [List.cons_append, stepsLeft, stepsLeft, ih]
    omega

/-- How many steps a pool may still take. -/
def Pool.work (p : Pool) : Nat := 5 * p.waiting.length + stepsLeft p.tasks

theorem TaskStep.stepsLeft_lt (h : TaskStep translate g t g' t') :
    t'.phase.stepsLeft < t.phase.stepsLeft := by
  cases h <;> simp [Phase.stepsLeft]

theorem Step.work_lt (h : Step translate jobs p q) : q.work < p.work := by
  rcases h.cases_on with ⟨source, waiting, hw, -, rfl⟩ |
    ⟨before, t, after, t', g', hsplit, htask, rfl⟩
  · simp only [Pool.work, hw, List.length_cons, stepsLeft_append, stepsLeft, Phase.stepsLeft]
    omega
  · have := htask.stepsLeft_lt
    simp only [Pool.work, hsplit, stepsLeft_append, stepsLeft]
    omega

/-- The steps of a run are taken off the work. -/
theorem Run.add_work_le (h : Run translate jobs n p q) : n + q.work ≤ p.work := by
  induction h with
  | refl => omega
  | step h _ ih =>
    have := h.work_lt
    omega

/-- A task that is not done can go on, unless it waits for the group to be cancelled. -/
theorem Task.exists_step (translate : Bytes → Except SourceError CompiledSource) (g : Group)
    {t : Task} (h : t.phase.isDone = false) :
    (∃ g' t', TaskStep translate g t g' t') ∨ g.error.isSome ∧ g.cancelled = false := by
  obtain ⟨error, cancelled⟩ := g
  obtain ⟨source, phase⟩ := t
  cases phase with
  | started =>
    cases cancelled with
    | false => exact .inl ⟨_, _, .proceed⟩
    | true => exact .inl ⟨_, _, .giveUp⟩
  | compiling =>
    cases htranslate : translate source with
    | ok c => exact .inl ⟨_, _, .succeed htranslate⟩
    | error e => exact .inl ⟨_, _, .fail htranslate⟩
  | compiled c => exact .inl ⟨_, _, .store⟩
  | failed e =>
    cases error with
    | none => exact .inl ⟨_, _, .record⟩
    | some first =>
      cases cancelled with
      | false => exact .inr ⟨rfl, rfl⟩
      | true => exact .inl ⟨_, _, .drop⟩
  | recorded => exact .inl ⟨_, _, .cancel⟩
  | stored | ended => cases h

theorem Pool.exists_step_of_mem (ht : t ∈ p.tasks) (h : TaskStep translate p.group t g' t') :
    ∃ q, Step translate jobs p q := by
  obtain ⟨i, hi⟩ := List.mem_iff_getElem?.mp ht
  exact ⟨_, .move hi h⟩

/-- As long as there is no result, some step is possible. -/
theorem Sound.exists_step (h : Sound translate sources p) (hjobs : 1 ≤ jobs)
    (hresult : p.result? = none) : ∃ q, Step translate jobs p q := by
  by_cases hdone : ∀ t ∈ p.tasks, t.phase.isDone
  · -- All workers are free, so a source must be waiting.
    obtain ⟨waiting, tasks, g⟩ := p
    cases waiting with
    | nil =>
      rw [Pool.result?, if_pos ⟨rfl, hdone⟩] at hresult
      split at hresult <;> cases hresult
    | cons source waiting =>
      have hfree : tasks.countP (fun t => !t.phase.isDone) = 0 := by
        rw [List.countP_eq_zero]
        intro t ht
        simp [hdone t ht]
      exact ⟨_, .start (by omega)⟩
  · simp only [not_forall, Bool.not_eq_true] at hdone
    obtain ⟨t, ht, hrunning⟩ := hdone
    rcases t.exists_step translate p.group hrunning with ⟨g', t', hstep⟩ | ⟨he, hc⟩
    · exact Pool.exists_step_of_mem ht hstep
    · -- The task that recorded the error goes on to cancel the group.
      rcases h.recorded he with hcancelled | ⟨u, hu, hphase⟩
      · rw [hc] at hcancelled
        cases hcancelled
      · obtain ⟨source, phase⟩ := u
        obtain rfl : phase = .recorded := hphase
        exact Pool.exists_step_of_mem hu .cancel

/-- A run can go on until there is a result. -/
theorem Sound.exists_run (h : Sound translate sources p) (hjobs : 1 ≤ jobs) :
    ∃ n q r, Run translate jobs n p q ∧ q.result? = some r := by
  induction hwork : p.work using Nat.strong_induction_on generalizing p with
  | h work ih =>
    cases hresult : p.result? with
    | some r => exact ⟨0, p, r, .refl, hresult⟩
    | none =>
      obtain ⟨p', hstep⟩ := h.exists_step hjobs hresult
      have hlt := hstep.work_lt
      rw [hwork] at hlt
      obtain ⟨n, q, r, hrun, hq⟩ := ih p'.work hlt (h.step hstep) rfl
      exact ⟨n + 1, q, r, .step hstep hrun, hq⟩

/-- What fewer workers can do, more can do. -/
theorem Run.mono {jobs' : Nat} (h : Run translate jobs n p q) (hle : jobs ≤ jobs') :
    Run translate jobs' n p q := by
  induction h with
  | refl => exact .refl
  | step h _ ih =>
    refine .step ?_ ih
    cases h with
    | start hfree => exact .start (Nat.lt_of_lt_of_le hfree hle)
    | move ht htask => exact .move ht htask

/-! ## Results -/

/-- A task that is done has stored its result, unless an error is recorded. -/
theorem Task.Sound.eq_slot (h : t.Sound translate g) (hdone : t.phase.isDone)
    (herror : g.error = none) : t.isStored ∧ translate t.source = .ok t.slot := by
  obtain ⟨source, phase⟩ := t
  cases phase with
  | stored c => exact ⟨rfl, h⟩
  | ended =>
    change g.error.isSome at h
    rw [herror] at h
    cases h
  | _ => cases hdone

/-- Tasks that are done have stored their results, unless an error is recorded. -/
theorem storedSources_eq_map {tasks : List Task} (h : ∀ t ∈ tasks, t.Sound translate g)
    (hdone : ∀ t ∈ tasks, t.phase.isDone) (herror : g.error = none) :
    storedSources tasks = tasks.map Task.source := by
  rw [storedSources, List.filter_eq_self.mpr]
  exact fun t ht => ((h t ht).eq_slot (hdone t ht) herror).1

/-- The result is what all sources are compiled to, and the log names them all; or it is the error
that was recorded. -/
theorem Sound.result_cases {r : Except TaskError (List CompiledSource)}
    (h : Sound translate sources p) (hresult : p.result? = some r) :
    (∃ batch, sources.map translate = batch.map .ok ∧ r = .ok batch ∧
      storedSources p.tasks = sources) ∨
    p.waiting = [] ∧ ∃ e, p.group.error = some e ∧ r = .error e := by
  rw [Pool.result?] at hresult
  split at hresult
  · next hend =>
    obtain ⟨hwaiting, hdone⟩ := hend
    split at hresult
    · next e he =>
      cases hresult
      exact .inr ⟨hwaiting, e, he, rfl⟩
    · next hnone =>
      cases hresult
      have horder := h.order
      rw [hwaiting, List.append_nil] at horder
      refine .inl ⟨_, ?_, rfl, (storedSources_eq_map h.tasks hdone hnone).trans horder⟩
      rw [← horder, List.map_map, List.map_map]
      exact List.map_congr_left fun t ht => ((h.tasks t ht).eq_slot (hdone t ht) hnone).2
  · cases hresult

/-- The log names a source at most as often as it was given. -/
theorem Sound.translated_subperm (h : Sound translate sources p) :
    p.group.translated.Subperm sources := by
  have hstored : (storedSources p.tasks).Sublist (p.tasks.map Task.source) :=
    List.filter_sublist.map Task.source
  have hstarted : (p.tasks.map Task.source).Sublist sources := by
    rw [← h.order]
    exact List.sublist_append_left ..
  exact h.translated.subperm.trans (hstored.trans hstarted).subperm

/-- The sources that the log names were compiled. -/
theorem Sound.exists_of_mem_translated (h : Sound translate sources p) {s : Bytes}
    (hs : s ∈ p.group.translated) : ∃ c, translate s = .ok c := by
  obtain ⟨t, ht, rfl⟩ := List.mem_map.mp (h.translated.mem_iff.mp hs)
  obtain ⟨htask, hstored⟩ := List.mem_filter.mp ht
  have hsound := h.tasks t htask
  obtain ⟨source, phase⟩ := t
  cases phase with
  | stored c => exact ⟨c, hsound⟩
  | _ => cases hstored

theorem Run.sound (h : Run translate jobs n (.initial sources) p) : Sound translate sources p :=
  h.keeps Sound.step (.initial _ _)

/-- The result of a run is what all sources are compiled to, and the log names them all; or it is
the error of a source. -/
theorem Run.result_cases {r : Except TaskError (List CompiledSource)}
    (h : Run translate jobs n (.initial sources) p) (hresult : p.result? = some r) :
    (∃ batch, sources.map translate = batch.map .ok ∧ r = .ok batch ∧
      p.group.translated.Perm sources) ∨
    ∃ source ∈ sources, ∃ e, translate source = .error e ∧ r = .error (.source e) := by
  rcases h.sound.result_cases hresult with ⟨batch, hbatch, hr, hstored⟩ | ⟨-, e, he, rfl⟩
  · exact .inl ⟨batch, hbatch, hr, hstored ▸ h.sound.translated⟩
  · obtain ⟨source, hsource, e', he', rfl⟩ := h.sound.error e he
    exact .inr ⟨source, hsource, e', he', rfl⟩

/-- If a source fails, the result is the error of such a source. -/
theorem Run.result_of_failure {r : Except TaskError (List CompiledSource)}
    (h : Run translate jobs n (.initial sources) p) (hresult : p.result? = some r)
    (hfail : ∃ source ∈ sources, ∃ e, translate source = .error e) :
    ∃ source ∈ sources, ∃ e, translate source = .error e ∧ r = .error (.source e) := by
  rcases h.result_cases hresult with ⟨batch, hbatch, -⟩ | hfirst
  · obtain ⟨source, hsource, e, he⟩ := hfail
    exact absurd he (ne_error_of_map_eq_map_ok hbatch hsource e)
  · exact hfirst

/-! ## One worker -/

/-- A task that neither compiles nor is going to. -/
def Task.Quiet (g : Group) (t : Task) : Prop :=
  match t.phase with
  | .started => g.cancelled
  | .compiling | .compiled _ => False
  | .stored _ | .failed _ | .recorded | .ended => True

theorem Task.quiet_of_isDone (h : t.phase.isDone) (g : Group) : t.Quiet g := by
  obtain ⟨source, phase⟩ := t
  cases phase with
  | stored | ended => trivial
  | _ => cases h

theorem Task.Quiet.mono (h : t.Quiet g) (hle : g.Le g') : t.Quiet g' := by
  unfold Task.Quiet at h ⊢
  split at h <;> first | exact hle.cancelled h | exact h

/-- A task that does not compile leaves the log as it is and stays so. -/
theorem TaskStep.quiet (h : TaskStep translate g t g' t') (ht : t.Quiet g) :
    t'.Quiet g' ∧ g'.translated = g.translated := by
  cases h with
  | giveUp | record | cancel | drop => exact ⟨trivial, rfl⟩
  | proceed => cases ht
  | succeed | fail | store => exact ht.elim

/-- A task that records the first error leaves the log as it is. -/
theorem TaskStep.of_recorded (h : TaskStep translate g t g' t') (hnone : g.error = none)
    (he : g'.error.isSome) : t'.Quiet g' ∧ g'.translated = g.translated := by
  cases h with
  | record => exact ⟨trivial, rfl⟩
  | drop => cases hnone
  | _ => exact absurd he (by simpa using hnone)

/-- What holds of a pool with one worker. -/
structure InOrder (translate : Bytes → Except SourceError CompiledSource) (p : Pool) : Prop where
  /-- Only the last task may still run. -/
  done : ∀ t ∈ p.tasks.dropLast, t.phase.isDone
  /-- The log names the sources whose results are stored in their order. -/
  translated : p.group.translated = storedSources p.tasks
  /-- The error that is recorded is that of the first source that fails, and the log names those
  before it. -/
  error : ∀ e, p.group.error = some e →
    ∃ source after e', p.tasks.map Task.source = p.group.translated ++ source :: after ∧
      (∀ s ∈ p.group.translated, ∃ c, translate s = .ok c) ∧ translate source = .error e' ∧
      e = .source e'
  /-- Nothing is compiled after an error. -/
  quiet : p.group.error.isSome → ∀ t ∈ p.tasks, t.Quiet p.group

theorem InOrder.initial (translate : Bytes → Except SourceError CompiledSource)
    (sources : List Bytes) : InOrder translate (.initial sources) where
  done t ht := by cases ht
  translated := rfl
  error e he := by cases he
  quiet he := by cases he

theorem TaskStep.isDone_eq_false (h : TaskStep translate g t g' t') : t.phase.isDone = false := by
  cases h <;> rfl

/-- With one worker, a task is started when all others are done. -/
theorem InOrder.start (h : InOrder translate p) (hsound : Sound translate sources p)
    (hdone : ∀ t ∈ p.tasks, t.phase.isDone) (waiting : List Bytes) (source : Bytes) :
    InOrder translate ⟨waiting, p.tasks ++ [⟨source, .started⟩], p.group⟩ := by
  refine ⟨?_, ?_, fun e he => ?_, fun he t ht => ?_⟩
  · rw [List.dropLast_concat]
    exact hdone
  · rw [storedSources_append, h.translated]
    exact (List.append_nil _).symm
  · obtain ⟨first, after, e', hsplit, hbefore, he', rfl⟩ := h.error e he
    refine ⟨first, after ++ [source], e', ?_, hbefore, he', rfl⟩
    rw [List.map_append, hsplit, List.append_assoc]
    rfl
  · rcases List.mem_append.mp ht with ht | ht
    · exact h.quiet he t ht
    · -- The task that recorded the error is done, so it has cancelled the group.
      cases List.mem_singleton.mp ht
      refine (hsound.recorded he).resolve_right ?_
      rintro ⟨u, hu, hphase⟩
      have hended := hdone u hu
      rw [hphase] at hended
      cases hended

/-- With one worker, only the last task goes on. -/
theorem InOrder.move {waiting : List Bytes} {before : List Task}
    (h : InOrder translate ⟨waiting, before ++ [t], g⟩)
    (hsound : Sound translate sources ⟨waiting, before ++ [t], g⟩)
    (htask : TaskStep translate g t g' t') :
    InOrder translate ⟨waiting, before ++ [t'], g'⟩ := by
  have hdone : ∀ u ∈ before, u.phase.isDone := by simpa using h.done
  have ht : t.Sound translate g := hsound.tasks t (by simp)
  obtain ⟨hnone, hlog⟩ := htask.translated_eq
  have htranslated : g.translated = storedSources before := by
    rw [h.translated, storedSources_append, hnone, List.append_nil]
  have hsources : (before ++ [t']).map Task.source = (before ++ [t]).map Task.source := by
    simp [htask.source_eq]
  refine ⟨?_, ?_, fun e he => ?_, fun he u hu => ?_⟩
  · simpa using hdone
  · rw [hlog, htranslated, storedSources_append]
  · rcases htask.error_eq ht hsound.cancelled he with herror | ⟨hnone, e', he', rfl⟩
    · have hquiet := htask.quiet (h.quiet (by rw [herror]; rfl) t (by simp))
      simp only [hquiet.2, hsources]
      exact h.error e herror
    · -- All tasks before have stored their results, since no error was recorded.
      have hbefore : ∀ u ∈ before, u.Sound translate g := fun u hu =>
        hsound.tasks u (List.mem_append_left [t] hu)
      have hsame := (htask.of_recorded hnone (by rw [he]; rfl)).2
      simp only [hsame, htranslated, storedSources_eq_map hbefore hdone hnone]
      refine ⟨t.source, [], e', by simp [htask.source_eq], fun s hs => ?_, he', rfl⟩
      obtain ⟨u, hu, rfl⟩ := List.mem_map.mp hs
      exact ⟨u.slot, ((hbefore u hu).eq_slot (hdone u hu) hnone).2⟩
  · cases herror : g.error with
    | none =>
      rcases List.mem_append.mp hu with hu | hu
      · exact Task.quiet_of_isDone (hdone u hu) g'
      · cases List.mem_singleton.mp hu
        exact (htask.of_recorded herror he).1
    | some e =>
      have hquiet := h.quiet (by rw [herror]; rfl)
      rcases List.mem_append.mp hu with hu | hu
      · exact (hquiet u (List.mem_append_left [t] hu)).mono htask.le
      · cases List.mem_singleton.mp hu
        exact (htask.quiet (hquiet t (by simp))).1

theorem InOrder.step (h : InOrder translate p) (hsound : Sound translate sources p)
    (hstep : Step translate 1 p q) : InOrder translate q := by
  obtain ⟨waiting, tasks, g⟩ := p
  rcases hstep.cases_on with ⟨source, waiting', -, hfree, rfl⟩ |
    ⟨before, t, after, t', g', hsplit, htask, rfl⟩
  · have hnone := List.countP_eq_zero.mp (Nat.lt_one_iff.mp hfree)
    exact h.start hsound (fun u hu => by simpa using hnone u hu) waiting' source
  · obtain rfl : tasks = before ++ t :: after := hsplit
    -- The task that goes on is the last one, since it is not done.
    obtain rfl : after = [] := by
      by_contra hne
      have hmem : t ∈ (before ++ t :: after).dropLast := by
        rw [List.dropLast_append_of_ne_nil (by simp), List.dropLast_cons_of_ne_nil hne]
        simp
      have := h.done t hmem
      rw [htask.isDone_eq_false] at this
      cases this
    exact h.move hsound htask

theorem Run.inOrder (h : Run translate 1 n (.initial sources) p) : InOrder translate p :=
  (h.keeps (P := fun p => Sound translate sources p ∧ InOrder translate p)
    (fun h hstep => ⟨h.1.step hstep, h.2.step h.1 hstep⟩) ⟨.initial _ _, .initial _ _⟩).2

end

/-- The result of compiling sources one after the other. -/
def outcome : List CompiledSource × Option SourceError → Except TaskError (List CompiledSource)
  | (batch, none) => .ok batch
  | (_, some e) => .error (.source e)

section
variable {t : FileTree} {output? : Option Bytes} {sources : List Bytes}

/-- The sources of what is compiled are those that were given. -/
theorem map_source_eq {batch : List CompiledSource}
    (h : sources.map (compileOne t output?) = batch.map .ok) :
    batch.map CompiledSource.source = sources := by
  induction sources generalizing batch with
  | nil =>
    rw [List.map_eq_nil_iff.mp h.symm]
    rfl
  | cons source sources ih =>
    cases batch with
    | nil => cases h
    | cons c batch =>
      rw [List.map_cons, List.map_cons, List.cons.injEq] at h
      obtain ⟨src, code, -, -, rfl⟩ := compileOne_eq_ok_iff.mp h.1
      rw [List.map_cons, ih h.2]

/-- With one worker, the result is that of compiling the sources one after the other, and so is the
log. -/
theorem Run.eq_outcome {n : Nat} {p : Pool} {r : Except TaskError (List CompiledSource)}
    (h : Run (compileOne t output?) 1 n (.initial sources) p) (hresult : p.result? = some r) :
    r = outcome (compileAll t output? sources) ∧
      p.group.translated = (compileAll t output? sources).1.map CompiledSource.source := by
  have hsound := h.sound
  have horder := h.inOrder
  rcases hsound.result_cases hresult with ⟨batch, hbatch, rfl, hstored⟩ | ⟨hwaiting, e, he, rfl⟩
  · rw [compileAll_of_map hbatch, horder.translated, hstored, map_source_eq hbatch]
    exact ⟨rfl, rfl⟩
  · obtain ⟨source, after, e', heq, hbefore, he', rfl⟩ := horder.error e he
    obtain ⟨batch, hbatch, hmap⟩ := compileAll_of_failure hbefore he' after
    have hsources := hsound.order
    rw [hwaiting, List.append_nil, heq] at hsources
    rw [← hsources, hbatch]
    exact ⟨rfl, hmap.symm⟩

end

/-- Two workers, of which the second one fails first. The task of the third source gives up. -/
def secondFails : Pool :=
  ⟨[], [⟨"b.ml", .ended⟩, ⟨"c.ml", .ended⟩, ⟨"a.ml", .ended⟩],
    ⟨some (.source (.unreadable "c.ml" (.cannotOpen "c.ml" .noEntry))), true, []⟩⟩

theorem run_secondFails :
    Run (compileOne faultyTree none) 2 12 (.initial ["b.ml", "c.ml", "a.ml"]) secondFails := by
  have hrejected := faultyTree.compileOne_rejected
  have hmissing := faultyTree.compileOne_missing
  refine .step (.start (by decide)) (.step (.start (by decide)) ?_)
  refine .step (.move (i := 1) rfl .proceed) (.step (.move (i := 1) rfl (.fail hmissing)) ?_)
  refine .step (.move (i := 1) rfl .record) (.step (.move (i := 0) rfl .proceed) ?_)
  refine .step (.move (i := 0) rfl (.fail hrejected)) (.step (.move (i := 1) rfl .cancel) ?_)
  refine .step (.move (i := 0) rfl .drop) (.step (.start (by decide)) ?_)
  exact .step (.move (i := 2) rfl .giveUp) (.step (.move (i := 2) rfl .drop) .refl)

end Batch

open Batch

/-- **The result of a batch does not depend on how its tasks are scheduled.** Every run on one
worker or more comes to a result, after five steps for each source or fewer. If all sources can be
read and compiled, the result is what they are compiled to, in their order. Otherwise it is the
error of a source that cannot, and never that of a task that gave up. With one worker it is the
error of the first such source, and the whole result is that of compiling one source after the
other. -/
theorem batch_ignores_schedule (t : FileTree) (output? : Option Bytes) (sources : List Bytes)
    (jobs : Nat) (hjobs : 1 ≤ jobs) :
    (∀ n p, Run (compileOne t output?) jobs n (.initial sources) p →
      n ≤ 5 * sources.length ∧ (p.result? = none → ∃ q, Step (compileOne t output?) jobs p q)) ∧
    ∀ n p r, Run (compileOne t output?) jobs n (.initial sources) p → p.result? = some r →
      ((∀ source ∈ sources, ∃ c, compileOne t output? source = .ok c) →
        ∃ batch, sources.map (compileOne t output?) = batch.map .ok ∧ r = .ok batch) ∧
      ((∃ source ∈ sources, ∃ e, compileOne t output? source = .error e) →
        ∃ source ∈ sources, ∃ e, compileOne t output? source = .error e ∧ r = .error (.source e)) ∧
      (jobs = 1 → r = outcome (compileAll t output? sources) ∧
        ∀ before source after e, sources = before ++ source :: after →
          (∀ s ∈ before, ∃ c, compileOne t output? s = .ok c) →
          compileOne t output? source = .error e → r = .error (.source e)) := by
  refine ⟨fun n p hrun => ⟨?_, hrun.sound.exists_step hjobs⟩, fun n p r hrun hresult => ?_⟩
  · have := hrun.add_work_le
    simp only [Pool.work, Pool.initial, stepsLeft] at this
    omega
  refine ⟨fun hall => ?_, hrun.result_of_failure hresult, fun hone => ?_⟩
  · rcases hrun.result_cases hresult with ⟨batch, hbatch, hr, -⟩ | ⟨source, hsource, e, he, -⟩
    · exact ⟨batch, hbatch, hr⟩
    · obtain ⟨c, hc⟩ := hall source hsource
      rw [hc] at he
      cases he
  · subst hone
    have houtcome := (hrun.eq_outcome hresult).1
    refine ⟨houtcome, ?_⟩
    rintro before source after e rfl hbefore he
    obtain ⟨batch, hbatch, -⟩ := compileAll_of_failure hbefore he after
    rw [houtcome, hbatch]
    rfl

/-- Two workers, of which the second one fails first. The task of the third source gives up. -/
theorem batch_ignores_schedule_second :
    ∃ n p e, e = SourceError.unreadable "c.ml" (.cannotOpen "c.ml" .noEntry) ∧
      Run (compileOne faultyTree none) 2 n (.initial ["b.ml", "c.ml", "a.ml"]) p ∧
      p.result? = some (.error (.source e)) ∧ n ≤ 15 ∧
      ∃ source ∈ (["b.ml", "c.ml", "a.ml"] : List Bytes),
        compileOne faultyTree none source = .error e := by
  have hends := batch_ignores_schedule faultyTree none ["b.ml", "c.ml", "a.ml"] 2 (by decide)
  obtain ⟨source, hsource, e, he, hr⟩ :=
    (hends.2 _ _ _ run_secondFails rfl).2.1
      ⟨"c.ml", .tail _ (.head _), _, faultyTree.compileOne_missing⟩
  cases hr
  exact ⟨_, _, _, rfl, run_secondFails, rfl, (hends.1 _ _ run_secondFails).1, source, hsource, he⟩

end Arrowlet
