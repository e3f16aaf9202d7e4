import CommerceAgent.Effects.Discipline
import CommerceAgent.Tasks.Steps

/-!
# Creating a task once

`creationMachine` runs any number of `RedisStore.create_task` calls at once, while
records and keys expire. The script that creates a record maps its key to it, and a
live record keeps its mapping as long as nobody drops it: the recovery path deletes
the key of a record that has vanished, and what it deletes is by then, if all goes
well, still the mapping that it has read.
-/

namespace CommerceAgent

open Effects

/-- A call of `RedisStore.create_task`. -/
structure Creation where
  task : TaskRecord
  idempotencyKey : Option String
  stackDepth : ℕ := 1000

/-- The tasks of different calls have different identifiers. -/
def Distinct (calls : ℕ → Creation) : Prop :=
  Function.Injective fun n => (calls n).task.taskId

/-- Any number of calls at once; the thread `n` makes the call number `n`. -/
def creationMachine (settings : Settings) (calls : ℕ → Creation) :
    Machine Exn TaskCall TaskCall.Reply World TaskChoice ℕ (TaskRecord × Bool) TaskEnvironment where
  program _ n := createTaskRecord (calls n).task (calls n).idempotencyKey (calls n).stackDepth
  answer := (taskMachine settings arbitraryRun).answer
  accept i n w := if n = i then some w else none
  halt _ w := w
  environment e w := e.apply w

/-- The key is mapped to a record that exists. -/
def World.mapsLive (w : World) (idempotencyKey : String) : Bool :=
  ((w.idempotencyKeys idempotencyKey).bind w.records).isSome

/-- The call deletes the mapping of a record that exists. -/
def TaskCall.dropsMapping (c : TaskCall) (ch : TaskChoice) (w : World) : Bool :=
  match c with
  | .deleteKey idempotencyKey => decide ch.Effective && w.mapsLive idempotencyKey
  | _ => false

/-- The mapping expires before the record does. -/
def TaskEnvironment.dropsMapping (e : TaskEnvironment) (w : World) : Bool :=
  match e with
  | .expireKey idempotencyKey => w.mapsLive idempotencyKey
  | _ => false

/-- Calls start with fresh task identifiers. -/
def freshTasks (calls : ℕ → Creation) : Policy TaskCall World TaskChoice ℕ TaskEnvironment where
  start _ n w := (w.records (calls n).task.taskId).isNone = true

/-- Calls start with fresh task identifiers, and no step drops the mapping of a live record. -/
def mappingsKept (calls : ℕ → Creation) : Policy TaskCall World TaskChoice ℕ TaskEnvironment where
  call _ c ch w := c.dropsMapping ch w = false
  start _ n w := (w.records (calls n).task.taskId).isNone = true
  environment e w := e.dropsMapping w = false

/-- What holds of the store while only `create_task` writes to it. -/
structure World.Mapping (calls : ℕ → Creation) (w : World) : Prop where
  /-- A record that was created under a key is the one the key is mapped to. -/
  mapped : ∀ n key, (calls n).idempotencyKey = some key → key ≠ "" →
    w.records (calls n).task.taskId ≠ none →
      w.idempotencyKeys key = some (calls n).task.taskId
  source : ∀ key taskId, w.idempotencyKeys key = some taskId →
    ∃ n, (calls n).idempotencyKey = some key ∧ (calls n).task.taskId = taskId
  stored : ∀ taskId record, w.records taskId = some record →
    ∃ n, record = (calls n).task ∧ (calls n).task.taskId = taskId

/-- Each call may rely on its own record not being there before it creates it. -/
def creationDiscipline (calls : ℕ → Creation) : Discipline World ℕ (TaskRecord × Bool) where
  inv := World.Mapping calls
  rely j w w' := ∀ n, j = some n → w.records (calls n).task.taskId = none →
    w'.records (calls n).task.taskId = none
  post n result _ := (result.2 = false → truthy (calls n).idempotencyKey) ∧
    ∃ m, (calls m).idempotencyKey = (calls n).idempotencyKey ∧ result.1 = (calls m).task
  refl _ _ := fun _ _ h => h
  trans h₁ h₂ := fun n hn h => h₂ n hn (h₁ n hn h)
  post_stable _ h := h

section Rules

variable {settings : Settings} {calls : ℕ → Creation} {w w' : World} {i : ℕ}

theorem mapping_fresh : World.fresh.Mapping calls :=
  ⟨fun _ _ _ _ h => absurd rfl h, fun _ _ h => (by cases h), fun _ _ h => by cases h⟩

/-- A step that forgets records and drops no mapping of a live one. -/
theorem World.Mapping.forget (h : w.Mapping calls)
    (hrecords : ∀ taskId, w'.records taskId = w.records taskId ∨ w'.records taskId = none)
    (hkeys : ∀ key, w'.idempotencyKeys key = w.idempotencyKeys key ∨
      (w'.idempotencyKeys key = none ∧ w.mapsLive key = false)) : w'.Mapping calls where
  mapped n key hkey hne hlive := by
    have hsame : w'.records (calls n).task.taskId = w.records (calls n).task.taskId :=
      (hrecords _).resolve_right hlive
    rw [hsame] at hlive
    have hmapped := h.mapped n key hkey hne hlive
    rcases hkeys key with heq | ⟨-, hdead⟩
    · rw [heq, hmapped]
    · rw [World.mapsLive, hmapped, Option.bind_some, Option.isSome_eq_false_iff,
        Option.isNone_iff_eq_none] at hdead
      exact absurd hdead hlive
  source key taskId hkey := by
    rcases hkeys key with heq | ⟨hnone, -⟩
    · exact h.source key taskId (heq ▸ hkey)
    · rw [hnone] at hkey
      cases hkey
  stored taskId record hrecord := by
    rcases hrecords taskId with heq | hnone
    · exact h.stored taskId record (heq ▸ hrecord)
    · rw [hnone] at hrecord
      cases hrecord

/-- The step that creates the record of a call, and maps its key to it if it has one. -/
theorem World.Mapping.create (hfresh : Distinct calls) (h : w.Mapping calls)
    (hrecords : w'.records = (w.store (calls i).task).records)
    (hkeys : (w'.idempotencyKeys = w.idempotencyKeys ∧ ¬ truthy (calls i).idempotencyKey) ∨
      ∃ key, (calls i).idempotencyKey = some key ∧ w.idempotencyKeys key = none ∧
        w'.idempotencyKeys =
          Function.update w.idempotencyKeys key (some (calls i).task.taskId)) :
    w'.Mapping calls where
  mapped n key hkey hne hlive := by
    rw [hrecords, World.store_records] at hlive
    by_cases hn : n = i
    · subst hn
      rcases hkeys with ⟨-, hfalse⟩ | ⟨key', hkey', -, heq⟩
      · exact absurd (by simp [hkey, truthy, hne]) hfalse
      · rw [hkey', Option.some.injEq] at hkey
        rw [heq, hkey, Function.update_self]
    · rw [if_neg fun heq => hn (hfresh heq)] at hlive
      have hmapped := h.mapped n key hkey hne hlive
      rcases hkeys with ⟨heq, -⟩ | ⟨key', -, hnone, heq⟩
      · rw [heq, hmapped]
      · have hother : key ≠ key' := by
          rintro rfl
          rw [hmapped] at hnone
          cases hnone
        rw [heq, Function.update_of_ne hother, hmapped]
  source key taskId hmapped := by
    rcases hkeys with ⟨heq, -⟩ | ⟨key', hkey', -, heq⟩
    · exact h.source key taskId (heq ▸ hmapped)
    · rw [heq] at hmapped
      by_cases hsame : key = key'
      · subst hsame
        rw [Function.update_self, Option.some.injEq] at hmapped
        exact ⟨i, hkey', hmapped⟩
      · rw [Function.update_of_ne hsame] at hmapped
        exact h.source key taskId hmapped
  stored taskId record hrecord := by
    rw [hrecords, World.store_records] at hrecord
    split at hrecord
    · next heq =>
        cases hrecord
        exact ⟨i, rfl, heq.symm⟩
    · exact h.stored taskId record hrecord

/-- What the calls of `create_task` do: they create the record of the call, drop the
mapping of its key, or change neither records nor keys. -/
inductive CreationStep (calls : ℕ → Creation) (i : ℕ) (c : TaskCall) (ch : TaskChoice) :
    World → World → Prop where
  | same {w w' : World} (records : w'.records = w.records)
      (keys : w'.idempotencyKeys = w.idempotencyKeys) : CreationStep calls i c ch w w'
  | create {w w' : World} (records : w'.records = (w.store (calls i).task).records)
      (keys : (w'.idempotencyKeys = w.idempotencyKeys ∧ ¬ truthy (calls i).idempotencyKey) ∨
        ∃ key, (calls i).idempotencyKey = some key ∧ w.idempotencyKeys key = none ∧
          w'.idempotencyKeys =
            Function.update w.idempotencyKeys key (some (calls i).task.taskId)) :
      CreationStep calls i c ch w w'
  | drop {w w' : World} {key : String} (records : w'.records = w.records)
      (keys : w'.idempotencyKeys = Function.update w.idempotencyKeys key none)
      (kept : c.dropsMapping ch w = false → w.mapsLive key = false) :
      CreationStep calls i c ch w w'

variable {c : TaskCall} {ch : TaskChoice}

/-- A step keeps the mappings of live records, and creates no record but its own. -/
theorem CreationStep.keeps (h : CreationStep calls i c ch w w') (hfresh : Distinct calls)
    (hw : w.Mapping calls) (hkept : c.dropsMapping ch w = false) :
    (creationDiscipline calls).Keeps i w w' := by
  cases h with
  | same hrecords hkeys =>
      refine ⟨hw.forget (fun _ => .inl (by rw [hrecords])) fun _ => .inl (by rw [hkeys]), ?_⟩
      exact fun _ _ _ _ hnone => by rw [hrecords, hnone]
  | create hrecords hkeys =>
      refine ⟨hw.create hfresh hrecords hkeys, ?_⟩
      intro j hj n hn hnone
      subst hn
      rw [hrecords, World.store_records, if_neg fun heq => hj (congrArg some (hfresh heq)), hnone]
  | @drop key hrecords hkeys hdrop =>
      refine ⟨hw.forget (fun _ => .inl (by rw [hrecords])) fun key' => ?_, ?_⟩
      · rw [hkeys]
        by_cases heq : key' = key
        · subst heq
          exact .inr ⟨Function.update_self .., hdrop hkept⟩
        · exact .inl (Function.update_of_ne heq ..)
      · exact fun _ _ _ _ hnone => by rw [hrecords, hnone]

theorem creationStep_of_setNew (hfalse : ¬ truthy (calls i).idempotencyKey)
    {r : Except Exn (TaskCall.setNew (calls i).task).Reply}
    (h : (taskMachine settings arbitraryRun).answer i (.setNew (calls i).task) ch w =
      some (r, w')) : CreationStep calls i (.setNew (calls i).task) ch w w' := by
  rcases answer_cases h with rfl | ⟨reply, hrun⟩
  · exact .same rfl rfl
  simp only [TaskCall.execute] at hrun
  split at hrun <;> cases hrun
  · exact .same rfl rfl
  · exact .create rfl (.inl ⟨rfl, hfalse⟩)

theorem creationStep_of_createScript {key : String} (hkey : (calls i).idempotencyKey = some key)
    {r : Except Exn (TaskCall.createScript (calls i).task key).Reply}
    (h : (taskMachine settings arbitraryRun).answer i (.createScript (calls i).task key) ch w =
      some (r, w')) : CreationStep calls i (.createScript (calls i).task key) ch w w' := by
  rcases answer_cases h with rfl | ⟨reply, hrun⟩
  · exact .same rfl rfl
  simp only [TaskCall.execute] at hrun
  split at hrun
  · cases hrun
    exact .same rfl rfl
  · next hnone =>
      split at hrun <;> cases hrun
      · exact .same rfl rfl
      · exact .create rfl (.inr ⟨key, hkey, hnone, rfl⟩)

theorem creationStep_of_deleteKey {key : String} {r : Except Exn (TaskCall.deleteKey key).Reply}
    (h : (taskMachine settings arbitraryRun).answer i (.deleteKey key) ch w = some (r, w')) :
    CreationStep calls i (.deleteKey key) ch w w' := by
  by_cases heffective : ch.Effective
  · rcases answer_cases h with rfl | ⟨reply, hrun⟩
    · exact .same rfl rfl
    · cases hrun
      exact .drop rfl rfl (by simp [TaskCall.dropsMapping, heffective])
  · obtain ⟨e, hlost⟩ : ∃ e, ch.ending = .lost e := by
      simpa [TaskChoice.Effective] using heffective
    rw [(eq_of_lost hlost h).2]
    exact .same rfl rfl

theorem creationStep_of_getTask {taskId : String}
    {r : Except Exn (TaskCall.getTask .createTask taskId).Reply}
    (h : (taskMachine settings arbitraryRun).answer i (.getTask .createTask taskId) ch w =
      some (r, w')) : CreationStep calls i (.getTask .createTask taskId) ch w w' := by
  rcases answer_cases h with rfl | ⟨reply, hrun⟩
  · exact .same rfl rfl
  · cases hrun
    exact .same rfl rfl

/-- The script finds a mapping, finds the record, or creates both. -/
theorem createScript_of_answer {task : TaskRecord} {key resolvedTaskId : String} {created : Bool}
    (h : (taskMachine settings arbitraryRun).answer i (.createScript task key) ch w =
      some (.ok (resolvedTaskId, created), w')) :
    (created = false ∧ w' = w ∧ w.idempotencyKeys key = some resolvedTaskId) ∨
      (created = false ∧ w.records task.taskId ≠ none) ∨ created = true := by
  have hrun := execute_of_answer h
  simp only [TaskCall.execute] at hrun
  split at hrun
  · next existing hexisting =>
      cases hrun
      exact .inl ⟨rfl, rfl, hexisting⟩
  · split at hrun
    · next hrecord =>
        cases hrun
        exact .inr (.inl ⟨rfl, by simp [hrecord]⟩)
    · cases hrun
      exact .inr (.inr rfl)

/-- The call returns a record that a call with its key has created. -/
def Resolves (settings : Settings) (calls : ℕ → Creation) (i : ℕ)
    (p : TaskProgram (TaskRecord × Bool)) (w : World) : Prop :=
  (creationDiscipline calls).Safe (creationMachine settings calls) (mappingsKept calls) i
    ((creationDiscipline calls).post i) (fun _ _ => True) p w

/-- A command that creates a record where there is none says so. -/
theorem created_of_setNew {task : TaskRecord} {created : Bool}
    (h : (taskMachine settings arbitraryRun).answer i (.setNew task) ch w = some (.ok created, w'))
    (hnone : w.records task.taskId = none) : created = true := by
  have hrun := execute_of_answer h
  simp only [TaskCall.execute, hnone] at hrun
  cases hrun
  rfl

/-- The recovery path, for a key that is mapped to this task. -/
theorem resolves_existing (hfresh : Distinct calls) {key resolvedTaskId : String}
    {retry : TaskProgram (TaskRecord × Bool)}
    (hsource : ∃ m, (calls m).idempotencyKey = (calls i).idempotencyKey ∧
      (calls m).task.taskId = resolvedTaskId)
    (hkey : truthy (calls i).idempotencyKey) (hw : w.records (calls i).task.taskId = none)
    (hretry : ∀ w, w.records (calls i).task.taskId = none → Resolves settings calls i retry w) :
    Resolves settings calls i (do
      let existing ← (TaskCall.getTask .createTask resolvedTaskId).perform
      match existing with
      | some existing => pure (existing, false)
      | none => do
        (TaskCall.deleteKey key).perform
        retry) w := by
  apply Discipline.Safe.handle
  intro w₁ hrely hinv ch r w₂ hkept h
  refine ⟨(creationStep_of_getTask h).keeps hfresh hinv hkept, ?_⟩
  cases r with
  | error e => trivial
  | ok found =>
      have hread : (taskMachine settings arbitraryRun).answer i
          (.getTask .createTask resolvedTaskId) ch w₁ = some (.ok found, w₂) := h
      obtain ⟨rfl, rfl⟩ := read_of_answer hread
      have hnone := hrely i rfl hw
      cases hfound : w₂.records resolvedTaskId with
      | some record =>
          obtain ⟨m, hm, hid⟩ := hsource
          obtain ⟨m', rfl, hid'⟩ := hinv.stored resolvedTaskId record hfound
          cases hfresh (hid.trans hid'.symm)
          exact ⟨fun _ => hkey, m, hm, rfl⟩
      | none =>
          apply Discipline.Safe.handle
          intro w₃ hrely₃ hinv₃ ch₃ r₃ w₄ hkept₃ h₃
          refine ⟨(creationStep_of_deleteKey h₃).keeps hfresh hinv₃ hkept₃, ?_⟩
          have hstill := hrely₃ i rfl hnone
          cases r₃ with
          | error e => trivial
          | ok _ =>
              apply hretry
              have hdelete : (taskMachine settings arbitraryRun).answer i (.deleteKey key) ch₃ w₃ =
                  some (.ok (), w₄) := h₃
              rw [(records_of_answer hdelete).resolve_right (by simp [TaskCall.written]), hstill]

/-- A call of `create_task` keeps the mappings, and returns the record of a call with its key. -/
theorem resolves_createTaskRecord (hfresh : Distinct calls) (depth : ℕ)
    (hw : w.records (calls i).task.taskId = none) :
    Resolves settings calls i
      (createTaskRecord (calls i).task (calls i).idempotencyKey depth) w := by
  induction depth generalizing w with
  | zero => trivial
  | succ depth ih =>
      have hset : ¬ truthy (calls i).idempotencyKey →
          Resolves settings calls i ((TaskCall.setNew (calls i).task).perform >>= fun created =>
            pure ((calls i).task, created)) w := by
        intro hfalse
        apply Discipline.Safe.handle
        intro w₁ hrely hinv ch r w₂ hkept h
        refine ⟨(creationStep_of_setNew hfalse h).keeps hfresh hinv hkept, ?_⟩
        cases r with
        | error e => trivial
        | ok created =>
            have hcreated : created = true := created_of_setNew h (hrely i rfl hw)
            exact ⟨fun hfalse => absurd (hcreated.symm.trans hfalse) nofun, i, rfl, rfl⟩
      cases hkey : (calls i).idempotencyKey with
      | none =>
          simp only [hkey] at hset
          exact hset (by simp [truthy])
      | some key =>
          rw [hkey] at hset ih
          unfold createTaskRecord
          split
          · exact hset (by simp_all [truthy])
          · exact hset (by simp_all [truthy])
          next key' hempty hsame =>
          cases hsame
          have htruthy : truthy (calls i).idempotencyKey := by
            rw [hkey]
            simpa [truthy] using hempty
          apply Discipline.Safe.handle
          intro w₁ hrely hinv ch r w₂ hkept h
          have hkeeps := (creationStep_of_createScript hkey h).keeps hfresh hinv hkept
          refine ⟨hkeeps, ?_⟩
          cases r with
          | error e => trivial
          | ok reply =>
              obtain ⟨resolvedTaskId, created⟩ := reply
              rcases createScript_of_answer h with ⟨rfl, rfl, hmapped⟩ | ⟨-, hrecord⟩ | rfl
              · obtain ⟨m, hm, hid⟩ := hinv.source key resolvedTaskId hmapped
                apply resolves_existing hfresh ⟨m, hm.trans hkey.symm, hid⟩ htruthy (hrely i rfl hw)
                exact fun w hw => ih hw
              · exact absurd (hrely i rfl hw) hrecord
              · exact ⟨nofun, i, rfl, rfl⟩

/-- The environment forgets keys and changes none. -/
theorem keys_of_environment {e : TaskEnvironment} (h : e.apply w = some w') (key : String) :
    w'.idempotencyKeys key = w.idempotencyKeys key ∨
      (e = .expireKey key ∧ w'.idempotencyKeys key = none) := by
  cases e with
  | expireKey expired =>
      cases h
      by_cases heq : key = expired
      · exact .inr ⟨by rw [heq], by simp [heq]⟩
      · exact .inl (Function.update_of_ne heq ..)
  | duplicate payload =>
      simp only [TaskEnvironment.apply] at h
      split at h <;> cases h
      exact .inl rfl
  | redeliver j =>
      cases h
      unfold World.requeue
      split <;> exact .inl rfl
  | _ =>
      cases h
      exact .inl rfl

theorem creationSound (hfresh : Distinct calls) :
    (creationDiscipline calls).Sound (creationMachine settings calls) (mappingsKept calls) where
  start i n w w' hinv hstart haccept := by
    by_cases hn : n = i
    · subst hn
      have haccept' : (if n = n then some w else none) = some w' := haccept
      rw [if_pos rfl] at haccept'
      cases haccept'
      refine ⟨⟨hinv, fun j _ => (creationDiscipline calls).refl j w⟩, ?_⟩
      exact resolves_createTaskRecord hfresh _ (Option.isNone_iff_eq_none.1 hstart)
    · have haccept' : (if n = i then some w else none) = some w' := haccept
      rw [if_neg hn] at haccept'
      cases haccept'
  crash i w hinv _ := ⟨hinv, fun j _ => (creationDiscipline calls).refl j w⟩
  environment e w w' hinv hkept henv := by
    have hrecords := records_of_environment henv
    refine ⟨hinv.forget hrecords fun key => ?_, fun j n _ hnone => ?_⟩
    · rcases keys_of_environment henv key with heq | ⟨rfl, hnone⟩
      · exact .inl heq
      · exact .inr ⟨hnone, hkept⟩
    · rcases hrecords (calls n).task.taskId with heq | heq
      · rw [heq, hnone]
      · exact heq

end Rules

section Returns

variable {settings : Settings} {calls : ℕ → Creation}

/-- The call has read the record that it returns as an existing one. -/
def ReadBefore (creation : Creation) (past : List TaskExchange) (result : TaskRecord × Bool) :
    Prop :=
  truthy creation.idempotencyKey → result.2 = false → ∃ taskId,
    (⟨.getTask .createTask taskId, .ok (some result.1)⟩ : TaskExchange) ∈ past

/-- What is asked of the calls by `ReadBefore`, which is nothing. -/
def creationContract : Contract Exn TaskCall TaskCall.Reply World ℕ where
  inv _ := True
  assume _ _ := True
  guarantee _ _ _ := True

theorem meets_createTaskRecord (creation : Creation) (n depth : ℕ) (past : List TaskExchange) :
    (createTaskRecord creation.task creation.idempotencyKey depth).Meets creationContract.assume
      (creationContract.guarantee n) (ReadBefore creation) (fun _ _ => True) past := by
  induction depth generalizing past with
  | zero => trivial
  | succ depth ih =>
      unfold createTaskRecord
      split
      · next hnone =>
          refine Program.meets_bind.2 ⟨trivial, fun created _ hkey => ?_, fun _ _ => trivial⟩
          rw [hnone] at hkey
          cases hkey
      · next hempty =>
          refine Program.meets_bind.2 ⟨trivial, fun created _ hkey => ?_, fun _ _ => trivial⟩
          rw [hempty] at hkey
          cases hkey
      · refine Program.meets_bind.2 ⟨trivial, fun reply _ => ?_, fun _ _ => trivial⟩
        obtain ⟨resolvedTaskId, created⟩ := reply
        cases created with
        | true => exact fun _ => nofun
        | false =>
            refine Program.meets_bind.2 ⟨trivial, fun existing _ => ?_, fun _ _ => trivial⟩
            cases existing with
            | some existing => exact fun _ _ => ⟨resolvedTaskId, by simp⟩
            | none => exact Program.meets_bind.2 ⟨trivial, fun _ _ => ih _, fun _ _ => trivial⟩

/-- An existing record that a call has returned was stored when the call read it. -/
theorem stored_of_returned {π : Policy TaskCall World TaskChoice ℕ TaskEnvironment} {w : World}
    {h c} (run : (creationMachine settings calls).Run π (.initial w) h c) {i n : ℕ}
    {record : TaskRecord} (hslot : c.pool i = .running n (.pure (record, false)))
    (hkey : truthy (calls n).idempotencyKey) :
    ∃ v ∈ h, ∃ taskId, v.1.state.records taskId = some record := by
  have hsound : creationContract.Sound (creationMachine settings calls) π :=
    { start := fun _ n _ _ _ _ _ => ⟨trivial, (meets_createTaskRecord (calls n) n _ []).mono
        (fun _ _ _ => trivial) fun _ _ _ => trivial⟩
      call := fun _ _ _ _ _ _ _ _ _ _ _ _ => ⟨trivial, trivial⟩
      crash := fun _ _ _ _ => trivial
      environment := fun _ _ _ _ _ _ => trivial }
  have hreads : ∀ i n w, π.start i n w → ((creationMachine settings calls).program i n).Meets
      creationContract.assume (creationContract.guarantee n) (ReadBefore (calls n))
        (fun _ _ => True) [] :=
    fun _ n _ _ => meets_createTaskRecord (calls n) n _ []
  obtain ⟨taskId, hread⟩ := hsound.post hreads trivial run i n _ hslot hkey rfl
  obtain ⟨h₁, v, h₂, rfl, hexchange⟩ := Machine.exists_of_mem_transcript hread
  obtain ⟨ch, w', -, hanswer⟩ := Machine.answer_of_exchange hexchange
  replace hanswer : (taskMachine settings arbitraryRun).answer i (.getTask .createTask taskId) ch
      v.1.state = some (.ok (some record), w') := hanswer
  exact ⟨v, by simp, taskId, (read_of_answer hanswer).1.symm⟩

end Returns

/-- However calls of `create_task` are interleaved, as long as no step drops the mapping
of a live record: no two live records were created under one key, and a call that
returns `created = False` gives a record that was stored under its key, by the call that
created it. -/
theorem created_once {settings : Settings} {calls : ℕ → Creation} (hfresh : Distinct calls) {h c}
    (run : (creationMachine settings calls).Run (mappingsKept calls) (.initial .fresh) h c) :
    (∀ n m key, key ≠ "" → (calls n).idempotencyKey = some key →
      (calls m).idempotencyKey = some key → c.state.records (calls n).task.taskId ≠ none →
        c.state.records (calls m).task.taskId ≠ none → n = m) ∧
    ∀ i n record, c.pool i = .running n (.pure (record, false)) →
      ∃ m key, key ≠ "" ∧ (calls n).idempotencyKey = some key ∧
        (calls m).idempotencyKey = some key ∧ record = (calls m).task ∧
        ∃ v ∈ h, v.1.state.records (calls m).task.taskId = some record ∧
          v.1.state.idempotencyKeys key = some (calls m).task.taskId := by
  obtain ⟨hholds, hpast⟩ := (creationSound hfresh).run mapping_fresh run
  refine ⟨fun n m key hne hn hm hlive hlive' => ?_, fun i n record hslot => ?_⟩
  · have hmapped := hholds.inv.mapped n key hn hne hlive
    rw [hholds.inv.mapped m key hm hne hlive'] at hmapped
    exact hfresh (Option.some.inj hmapped.symm)
  · have hsafe := hholds.safe i
    rw [hslot] at hsafe
    obtain ⟨htruthy, m, hm, rfl⟩ := hsafe
    obtain ⟨key, hkey, hne⟩ : ∃ key, (calls n).idempotencyKey = some key ∧ key ≠ "" := by
      cases hkey : (calls n).idempotencyKey with
      | none => simp [hkey, truthy] at htruthy
      | some key => exact ⟨key, rfl, by simpa [hkey, truthy] using htruthy⟩
    obtain ⟨v, hv, taskId, hrecord⟩ := stored_of_returned run hslot (htruthy rfl)
    have hmapping := (hpast v hv).1.inv
    obtain ⟨m', hsame, rfl⟩ := hmapping.stored taskId _ hrecord
    replace hsame : (calls m).task.taskId = (calls m').task.taskId :=
      congrArg TaskRecord.taskId hsame
    rw [← hsame] at hrecord
    exact ⟨m, key, hne, hkey, hm.trans hkey, rfl, v, hv, hrecord,
      hmapping.mapped m key (hm.trans hkey) hne (by simp [hrecord])⟩

/-- Calls with one key. -/
def demoCalls (n : ℕ) : Creation where
  task := { demoRequest.record with taskId := String.ofList (List.replicate (n + 1) 't') }
  idempotencyKey := some "key"

theorem demoCalls_distinct : Distinct demoCalls := by
  intro n m heq
  have hlength := congrArg (fun s : String => s.toList.length) heq
  simpa [demoCalls] using hlength

instance (calls : ℕ → Creation) (i n : ℕ) (w : World) :
    Decidable ((freshTasks calls).start i n w) := inferInstanceAs (Decidable (_ = true))

instance (calls : ℕ → Creation) (i n : ℕ) (w : World) :
    Decidable ((mappingsKept calls).start i n w) := inferInstanceAs (Decidable (_ = true))

instance (calls : ℕ → Creation) (i : ℕ) (c : TaskCall) (ch : TaskChoice) (w : World) :
    Decidable ((mappingsKept calls).call i c ch w) := inferInstanceAs (Decidable (_ = false))

instance (calls : ℕ → Creation) (e : TaskEnvironment) (w : World) :
    Decidable ((mappingsKept calls).environment e w) := inferInstanceAs (Decidable (_ = false))

instance (calls : ℕ → Creation) (i : ℕ) (c : TaskCall) (ch : TaskChoice) (w : World) :
    Decidable ((freshTasks calls).call i c ch w) := .isTrue trivial

instance (calls : ℕ → Creation) (i : ℕ) (w : World) :
    Decidable ((freshTasks calls).crash i w) := .isTrue trivial

instance (calls : ℕ → Creation) (i : ℕ) (w : World) :
    Decidable ((mappingsKept calls).crash i w) := .isTrue trivial

instance (calls : ℕ → Creation) (e : TaskEnvironment) (w : World) :
    Decidable ((freshTasks calls).environment e w) := .isTrue trivial

/-- A record and its key expire while a call that has found the key is about to read
the record; another call creates its own before the first deletes the key. -/
def demoDroppingActions : List (Action TaskChoice ℕ TaskEnvironment) :=
  [.start 0 0, .call 0 {}, .start 1 1, .call 1 {},
   .environment (.expireRecord "t"), .environment (.expireKey "key"),
   .start 2 2, .call 2 {}, .call 1 {}, .call 1 {}, .call 1 {}]

/-- Two live records were created under one key. -/
theorem created_twice : ∃ h c,
    (creationMachine demoSettings demoCalls).Run (freshTasks demoCalls) (.initial .fresh) h c ∧
      Distinct demoCalls ∧ (demoCalls 1).idempotencyKey = some "key" ∧
      (demoCalls 2).idempotencyKey = some "key" ∧
      c.state.records (demoCalls 1).task.taskId ≠ none ∧
        c.state.records (demoCalls 2).task.taskId ≠ none := by
  have hend : ((creationMachine demoSettings demoCalls).exec (freshTasks demoCalls)
      demoDroppingActions (.initial .fresh)).map
        (fun c => ((c.state.records "tt").isSome, (c.state.records "ttt").isSome)) =
          some (true, true) := by decide
  obtain ⟨c, hc, hlive⟩ := Option.map_eq_some_iff.1 hend
  obtain ⟨h, run⟩ := Machine.Run.exec .nil hc
  rw [Prod.mk.injEq] at hlive
  exact ⟨h, c, run, demoCalls_distinct, rfl, rfl, Option.isSome_iff_ne_none.1 hlive.1,
    Option.isSome_iff_ne_none.1 hlive.2⟩

/-- The record expires with its key before another call asks for the key, and a third
call gets the record of the second. -/
def demoKeepingActions : List (Action TaskChoice ℕ TaskEnvironment) :=
  [.start 0 0, .call 0 {}, .environment (.expireRecord "t"), .environment (.expireKey "key"),
   .start 1 1, .call 1 {}, .start 2 2, .call 2 {}, .call 2 {}]

/-- The identifier of the record that a call has returned as existing. -/
def existingTask (c : Config Exn TaskCall TaskCall.Reply World ℕ (TaskRecord × Bool)) (i : ℕ) :
    Option String :=
  match c.pool i with
  | .running _ (.pure (record, false)) => some record.taskId
  | _ => none

theorem exists_of_existingTask {c : Config Exn TaskCall TaskCall.Reply World ℕ (TaskRecord × Bool)}
    {i : ℕ} {taskId : String} (h : existingTask c i = some taskId) :
    ∃ n record, c.pool i = .running n (.pure (record, false)) ∧ record.taskId = taskId := by
  unfold existingTask at h
  split at h
  · next n record hslot =>
      cases h
      exact ⟨n, record, hslot, rfl⟩
  · cases h

theorem created_once_demo : ∃ h c,
    (creationMachine demoSettings demoCalls).Run (mappingsKept demoCalls) (.initial .fresh) h c ∧
      (∀ n m, c.state.records (demoCalls n).task.taskId ≠ none →
        c.state.records (demoCalls m).task.taskId ≠ none → n = m) ∧
      ∃ n record, c.pool 2 = .running n (.pure (record, false)) ∧ record.taskId = "tt" ∧
        ∃ v ∈ h, v.1.state.records "tt" = some record ∧
          v.1.state.idempotencyKeys "key" = some "tt" := by
  have hend : ((creationMachine demoSettings demoCalls).exec (mappingsKept demoCalls)
      demoKeepingActions (.initial .fresh)).map (fun c => existingTask c 2) =
        some (some "tt") := by decide
  obtain ⟨c, hc, hexisting⟩ := Option.map_eq_some_iff.1 hend
  obtain ⟨h, run⟩ := Machine.Run.exec .nil hc
  obtain ⟨honce, hreturned⟩ := created_once demoCalls_distinct run
  obtain ⟨n, record, hslot, hid⟩ := exists_of_existingTask hexisting
  obtain ⟨m, key, -, hkey, -, rfl, v, hv, hstored, hmapped⟩ := hreturned 2 n record hslot
  cases hkey
  rw [hid] at hstored hmapped
  refine ⟨h, c, run, fun n m hn hm => ?_, n, _, hslot, hid, v, hv, hstored, hmapped⟩
  exact honce n m "key" (by decide) rfl rfl hn hm

end CommerceAgent
