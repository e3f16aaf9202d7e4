import CommerceAgent.Agent.Budget

/-!
# Vetted messages

The approval node does not ask whose approval it is handed. That it is one of its own
task rests on every record and every message: a resumption of kind `approval` names an
approval that the table has for the task of the record, or of the message. A handler
makes the calls of the graph under the lease of the task, on the checkpoint that it has
read or committed last.

`vetting` is the contract that says both. What the graph adds to it is taken from the
policy of the run.
-/

namespace CommerceAgent

open Effects Relational

/-- What an exchange makes of the lease that a process holds. -/
def leaseAfter : TaskExchange → Option String → Option String
  | ⟨.acquireTaskLease taskId _, .ok true⟩, _ => some taskId
  | ⟨.releaseTaskLease _, _⟩, _ => none
  | _, held => held

/-- The task whose lease a process has got and not released. -/
def heldLease (past : List TaskExchange) : Option String :=
  past.foldl (fun held e => leaseAfter e held) none

theorem heldLease_snoc (past : List TaskExchange) (e : TaskExchange) :
    heldLease (past ++ [e]) = leaseAfter e (heldLease past) := by
  rw [heldLease, List.foldl_append]
  rfl

/-- What an exchange makes of the checkpoint in work: a commit that raises may have been
made. -/
def workAfter : TaskExchange → Option (Option Checkpoint) → Option (Option Checkpoint)
  | ⟨.getCheckpoint _, .ok found⟩, _ => some found
  | ⟨.putCheckpoint _ checkpoint, .ok _⟩, _ => some (some checkpoint)
  | ⟨.putCheckpoint .., .error _⟩, _ => none
  | _, work => work

/-- The checkpoint that a process knows to be the one of its thread. -/
def openWork (past : List TaskExchange) : Option (Option Checkpoint) :=
  past.foldl (fun work e => workAfter e work) none

theorem openWork_snoc (past : List TaskExchange) (e : TaskExchange) :
    openWork (past ++ [e]) = workAfter e (openWork past) := by
  rw [openWork, List.foldl_append]
  rfl

/-- The call neither takes nor releases a lease, and leaves the checkpoints alone. -/
def TaskCall.steady : TaskCall → Bool
  | .acquireTaskLease .. | .releaseTaskLease _ | .getCheckpoint _ | .putCheckpoint .. => false
  | _ => true

section Steady

variable {c : TaskCall} {past : List TaskExchange}

theorem heldLease_of_steady (hc : c.steady = true) (r : Except Exn c.Reply) :
    heldLease (past ++ [⟨c, r⟩]) = heldLease past := by
  rw [heldLease_snoc]
  cases c <;> first | rfl | cases hc

theorem openWork_of_steady (hc : c.steady = true) (r : Except Exn c.Reply) :
    openWork (past ++ [⟨c, r⟩]) = openWork past := by
  rw [openWork_snoc]
  cases c <;> first | rfl | cases hc

theorem steady_of_ofNode (hc : c.ofNode = true) : c.steady = true := by
  cases c <;> first | rfl | cases hc

theorem steady_of_neutral (hc : c.neutral = true) : c.steady = true := by
  cases c <;> first | rfl | cases hc

/-- The checkpoint in work is the one that the run works on. -/
theorem currentCheckpoint_of_openWork {found : Option Checkpoint}
    (h : openWork past = some found) : currentCheckpoint past = found := by
  induction past using List.reverseRecOn generalizing found with
  | nil => cases h
  | append_singleton past e ih =>
      rw [openWork_snoc] at h
      rw [currentCheckpoint_snoc]
      obtain ⟨c, r⟩ := e
      cases c with
      | getCheckpoint threadId =>
          cases r with
          | ok b => exact Option.some.inj h
          | error exc => exact ih h
      | putCheckpoint threadId checkpoint =>
          cases r with
          | ok b => exact Option.some.inj h
          | error exc => cases h
      | _ => exact ih h

end Steady

section Vetted

variable (taskOf : String → Option String)

/-- The record names no approval but one of its task, as `taskOf` attributes them. -/
structure TaskRecord.Vetted (task : TaskRecord) : Prop where
  colonFree : ':' ∉ task.taskId.toList
  pending : task.pendingResumeKind = some .approval →
    ∃ approvalId, task.pendingResumeId = some approvalId ∧ taskOf approvalId = some task.taskId
  interaction : ∀ approvalId, task.interaction = some (.approvalResume approvalId) →
    taskOf approvalId = some task.taskId

/-- The message names no approval but one of its task. -/
structure QueueMessage.Vetted (payload : QueueMessage) : Prop where
  colonFree : ':' ∉ payload.taskId.toList
  resume : payload.resumeKind = some .approval →
    ∃ approvalId, payload.resumeId = some approvalId ∧ taskOf approvalId = some payload.taskId

/-- What every world has: vetted records and messages, checkpoints of their own threads,
and the approvals that `taskOf` knows. -/
structure World.Vetted (w : World) : Prop where
  keyed : w.Keyed
  records : ∀ taskId task, w.records taskId = some task → task.Vetted taskOf
  messages : ∀ payload, w.Carried payload → payload.Vetted taskOf
  checkpoints : ∀ threadId checkpoint, w.checkpoints threadId = some checkpoint →
    checkpoint.state.taskId = threadId
  approvals : ∀ row ∈ w.ledger.approvals, taskOf row.approvalId = some row.taskId

/-- A handler of the message has the lease of its task, and the checkpoint in work. -/
structure Working (payload : QueueMessage) (past : List TaskExchange) (checkpoint : Checkpoint) :
    Prop where
  leased : heldLease past = some payload.taskId
  work : openWork past = some (some checkpoint)
  own : checkpoint.state.taskId = payload.taskId

/-- The step of the repository names the approval that the message carries. -/
def Consumes (payload : QueueMessage) (c : LedgerCall) : Prop :=
  ∀ approvalId, c = .getApproval approvalId ∨ c = .applyApprovedPlan approvalId →
    payload.resumeKind = some .approval ∧ taskOf approvalId = some payload.taskId

/-- The plan that the step inserts is made from the product that was read. -/
def Quotes (past : List TaskExchange) (c : LedgerCall) : Prop :=
  ∀ content, c = .insertPlan content →
    (⟨.graph content.taskId (.selectProduct content.merchantId content.productId),
      .ok (some (content.beforeValue, content.productVersion))⟩ : TaskExchange) ∈ past ∧
      content.planVersion = 1 ∧ content.actionId = "update_description"

/-- The calls of a process, by its request and what it was answered. -/
def TaskRequest.Allows (catalog : Catalog) (q : TaskRequest) (past : List TaskExchange) :
    TaskCall → Prop
  | .setNew task | .createScript task _ =>
      (':' ∉ task.taskId.toList → task.Vetted taskOf) ∧ task.status = .queued
  | .transitionTask task _ => task.Vetted taskOf ∧ task.status = .queued
  | .saveTask (.outcome payload) task => q = .handleMessage (.ok payload) ∧
      payload.Vetted taskOf ∧ task.taskId = payload.taskId ∧ task.pendingResumeKind = none ∧
        heldLease past = some payload.taskId ∧ openWork past ≠ none
  | .saveTask _ task =>
      task.Vetted taskOf ∧ task.status ∈ [.queued, .running, .retrying, .failed]
  | .publish payload | .publishRetry payload => payload.Vetted taskOf
  | .acquireTaskLease .. => heldLease past = none ∧ openWork past = none
  | .getCheckpoint taskId => heldLease past = some taskId
  | .putCheckpoint taskId _ => heldLease past = some taskId ∧ openWork past ≠ none
  | .graph _ c => ∃ payload checkpoint, q = .handleMessage (.ok payload) ∧
      payload.Vetted taskOf ∧ Working payload past checkpoint ∧
        (checkpoint.next = some .approval → Consumes taskOf payload c) ∧
          (checkpoint.next = some .plan → Quotes past c)
  | .ledger c => (∀ content, c ≠ .insertPlan content) ∧
      (∀ approvalId, c ≠ .applyApprovedPlan approvalId) ∧
        ∀ catalog', c = .initializeSync catalog' → catalog' = catalog
  | _ => True

/-- What the answers to calls say. -/
def Attested : (c : TaskCall) → Except Exn c.Reply → Prop
  | .setNew task, .ok true | .createScript task _, .ok (_, true) => ':' ∉ task.taskId.toList
  | .getTask _ taskId, .ok (some task) => task.taskId = taskId ∧ task.Vetted taskOf
  | .getCheckpoint taskId, .ok (some checkpoint) => checkpoint.state.taskId = taskId
  | .putCheckpoint taskId checkpoint, .ok _ => checkpoint.state.taskId = taskId
  | .ledger (.recordApproval taskId ..), .ok approvalId => taskOf approvalId = some taskId
  | _, _ => True

/-- Vetted records lead to vetted messages, and back. -/
def vetting (catalog : Catalog) : Contract Exn TaskCall TaskCall.Reply World TaskRequest where
  inv := World.Vetted taskOf
  assume := Attested taskOf
  guarantee q past c := q.Allows taskOf catalog past c

end Vetted

section Knowledge

variable {taskOf : String → Option String} {catalog : Catalog} {q : TaskRequest}
  {payload : QueueMessage} {past past' : List TaskExchange} {c : TaskCall}
  {r : Except Exn c.Reply}

variable (taskOf catalog q) in
/-- The protocol of a process that was started for the request. -/
abbrev vettedProtocol : Protocol Exn TaskCall TaskCall.Reply (List TaskExchange) :=
  Program.transcribed (Attested taskOf) (q.Allows taskOf catalog)

variable (taskOf q) in
/-- What the process knows. -/
def vettedKnowledge : Knowledge → List TaskExchange → Prop
  | .known task, _ => task.Vetted taskOf
  | .approved task approvalId, _ =>
      task.Vetted taskOf ∧ taskOf approvalId = some task.taskId
  | .stored task interaction, _ => task.Vetted taskOf ∧
      ∀ approvalId, interaction = some (.approvalResume approvalId) →
        taskOf approvalId = some task.taskId
  | .received payload, past => (q = .handleMessage (.ok payload) ∧ payload.Vetted taskOf) ∧
      heldLease past = none ∧ openWork past = none
  | .holding payload, past => (q = .handleMessage (.ok payload) ∧ payload.Vetted taskOf) ∧
      heldLease past = some payload.taskId
  | .found payload task, past => (q = .handleMessage (.ok payload) ∧ payload.Vetted taskOf) ∧
      heldLease past = some payload.taskId ∧ task.Vetted taskOf
  | .matched payload task, past => (q = .handleMessage (.ok payload) ∧ payload.Vetted taskOf) ∧
      heldLease past = some payload.taskId ∧ task.taskId = payload.taskId
  | .ran payload task _, past => (q = .handleMessage (.ok payload) ∧ payload.Vetted taskOf) ∧
      heldLease past = some payload.taskId ∧ openWork past ≠ none ∧ task.taskId = payload.taskId
  | .failing payload _ task, _ | .failed payload task, _ =>
      (q = .handleMessage (.ok payload) ∧ payload.Vetted taskOf) ∧ task.Vetted taskOf
  | .missing payload, _ | .concluded payload, _ | .raised payload _, _ | .settled payload, _ =>
      q = .handleMessage (.ok payload) ∧ payload.Vetted taskOf

/-- A steady call changes nothing that a process knows. -/
theorem vettedKnowledge_of_steady (hc : c.steady = true) {k : Knowledge}
    (hk : vettedKnowledge taskOf q k past) : vettedKnowledge taskOf q k (past ++ [⟨c, r⟩]) := by
  cases k <;>
    simp only [vettedKnowledge, heldLease_of_steady hc, openWork_of_steady hc] at hk ⊢ <;> exact hk

/-- The message of a vetted record is vetted. -/
theorem QueueMessage.For.vetted {task : TaskRecord} (h : payload.For task)
    (htask : task.Vetted taskOf) : payload.Vetted taskOf := by
  obtain ⟨hid, -, hkind, hresume⟩ := h
  constructor
  · exact hid ▸ htask.colonFree
  · intro hpayload
    obtain ⟨approvalId, happroval, howned⟩ := htask.pending (hkind.trans hpayload)
    exact ⟨approvalId, hresume ▸ happroval, hid ▸ howned⟩

theorem vetted_withInput {task : TaskRecord} (htask : task.Vetted taskOf) (productId : String) :
    (task.withInput productId).Vetted taskOf := by
  constructor
  · exact htask.colonFree
  · exact nofun
  · exact nofun

theorem vetted_withApproval {task : TaskRecord} (htask : task.Vetted taskOf) {approvalId : String}
    (happroval : taskOf approvalId = some task.taskId) :
    (task.withApproval approvalId).Vetted taskOf := by
  constructor
  · exact htask.colonFree
  · exact fun _ => ⟨approvalId, rfl, happroval⟩
  · exact nofun

/-- What a vetted record resumes is an approval of its task, or none. -/
theorem vetted_resumed {task : TaskRecord} (htask : task.Vetted taskOf) :
    task.resumed.Vetted taskOf := by
  constructor
  · exact htask.colonFree
  · intro hkind
    change task.resumption.1 = some .approval at hkind
    change ∃ approvalId, task.resumption.2 = some approvalId ∧ _
    unfold TaskRecord.resumption at hkind ⊢
    split
    · next hmarked =>
        rw [if_pos hmarked] at hkind
        cases hinteraction : task.interaction with
        | none => simp [hinteraction] at hkind
        | some x =>
            cases x with
            | approvalResume approvalId =>
                exact ⟨approvalId, rfl, htask.interaction approvalId hinteraction⟩
            | _ => simp [hinteraction] at hkind
    · next hmarked =>
        rw [if_neg hmarked] at hkind
        split
        · next hnone =>
            rw [if_pos hnone] at hkind
            cases hkind
        · next hsome =>
            rw [if_neg hsome] at hkind
            exact htask.pending hkind
  · exact nofun

theorem vetted_publishFailed {task : TaskRecord} (htask : task.Vetted taskOf)
    (errorMessage : String) {interaction past : Option Interaction}
    (hremembers : Remembers interaction task past)
    (hpast : ∀ approvalId, past = some (.approvalResume approvalId) →
      taskOf approvalId = some task.taskId) :
    (task.publishFailed errorMessage interaction).Vetted taskOf := by
  constructor
  · exact htask.colonFree
  · exact htask.pending
  · intro approvalId heq
    have heq : interaction = some (.approvalResume approvalId) := heq
    rcases hremembers approvalId heq with ⟨hkind, hid⟩ | hsame
    · obtain ⟨approvalId', hid', howned⟩ := htask.pending hkind
      rw [hid, Option.some.injEq] at hid'
      exact hid' ▸ howned
    · exact hpast approvalId (hsame.trans heq)

theorem vetted_started {task : TaskRecord} (htask : task.Vetted taskOf)
    (payload : QueueMessage) : (task.started payload).Vetted taskOf :=
  ⟨htask.colonFree, htask.pending, htask.interaction⟩

theorem vetted_failedRun {task : TaskRecord} (htask : task.Vetted taskOf)
    (hpayload : payload.Vetted taskOf) (hid : task.taskId = payload.taskId) (exc : Exn)
    (graphStarted : Bool) (status : TaskStatus) :
    (task.failedRun payload exc graphStarted status).Vetted taskOf := by
  constructor
  · exact htask.colonFree
  · intro hkind
    change (retryResumption payload graphStarted).1 = some .approval at hkind
    change ∃ approvalId, (retryResumption payload graphStarted).2 = some approvalId ∧
      taskOf approvalId = some task.taskId
    unfold retryResumption at hkind ⊢
    split
    · next hretry =>
        rw [if_pos hretry] at hkind
        cases hkind
    · next hretry =>
        rw [if_neg hretry] at hkind
        rw [hid]
        exact hpayload.resume hkind
  · exact htask.interaction

theorem vettedOutline (settings : Settings) :
    Outline settings (vettedProtocol taskOf catalog q) (vettedKnowledge taskOf q) where
  neutral c past hc := by
    refine ⟨?_, ?_⟩
    · cases c with
      | ledger lc =>
          cases lc with
          | getApprovalForTask taskId => exact ⟨nofun, nofun, nofun⟩
          | _ => cases hc
      | _ => trivial
    · rintro r past' ⟨-, rfl⟩ k hk
      exact vettedKnowledge_of_steady (steady_of_neutral hc) hk
  acquire payload ttl past hk := by
    refine ⟨hk.2, ?_⟩
    rintro acquired past' ⟨-, rfl⟩
    cases acquired with
    | true => exact ⟨hk.1, by rw [heldLease_snoc]; rfl⟩
    | false =>
        refine ⟨hk.1, ?_, ?_⟩
        · rw [heldLease_snoc]
          exact hk.2.1
        · rw [openWork_snoc]
          exact hk.2.2
  delay payload past hk := hk.1.2
  release payload past _ := trivial
  read site id past _ := ⟨trivial, fun _ _ h => h.1⟩
  readMessage payload past hk := by
    refine ⟨trivial, ?_, fun _ _ => hk.1, fun _ _ _ => hk.1⟩
    rintro task past' ⟨hattested, rfl⟩
    refine ⟨hattested.1, hk.1, ?_, hattested.2⟩
    rw [heldLease_of_steady rfl]
    exact hk.2
  dismiss payload past hk := ⟨fun _ _ => hk, fun _ _ _ => hk⟩
  ignore payload task past hk := ⟨fun _ _ => hk.1, fun _ _ _ => hk.1⟩
  raise payload c e past past' _ _ hk := by
    rcases hk with hk | ⟨task, hk⟩
    · exact hk
    · exact hk.1
  concluded payload past hk := hk
  readFailure payload exc past hk :=
    ⟨trivial, fun _ _ h => ⟨h.1.1, hk, h.1.2⟩, fun _ _ => hk, fun _ _ _ => hk⟩
  failed payload task past hk := hk.1
  setNew request past := by
    have hvetted : ':' ∉ request.record.taskId.toList → request.record.Vetted taskOf :=
      fun hcolon => ⟨hcolon, nofun, nofun⟩
    exact ⟨⟨hvetted, rfl⟩, fun _ h => ⟨hvetted h.1, nofun⟩⟩
  createScript request key past := by
    have hvetted : ':' ∉ request.record.taskId.toList → request.record.Vetted taskOf :=
      fun hcolon => ⟨hcolon, nofun, nofun⟩
    exact ⟨⟨hvetted, rfl⟩, fun _ _ h => ⟨hvetted h.1, nofun⟩⟩
  input task productId past hk _ :=
    ⟨⟨vetted_withInput hk productId, rfl⟩, fun _ _ => ⟨vetted_withInput hk productId, nofun⟩⟩
  record request task past hk _ := ⟨⟨nofun, nofun, nofun⟩, fun _ _ h => ⟨hk, h.1⟩⟩
  approval task approvalId status past hk _ :=
    ⟨⟨vetted_withApproval hk.1 hk.2, rfl⟩, fun _ _ => ⟨vetted_withApproval hk.1 hk.2, nofun⟩⟩
  resumed task past hk _ :=
    ⟨⟨vetted_resumed hk, by simp [TaskRecord.resumed]⟩,
      fun _ _ => ⟨vetted_resumed hk, hk.interaction⟩⟩
  publish task interaction payload past hk hfor := by
    refine ⟨hfor.vetted hk.1, ?_⟩
    rintro e past' ⟨-, rfl⟩
    exact hk
  publishFailed site task interaction errorMessage interaction' past hk hremembers _ hsite := by
    have hvetted := vetted_publishFailed hk.1 errorMessage hremembers hk.2
    cases site with
    | outcome payload => cases hsite
    | _ => exact ⟨hvetted, by simp [TaskRecord.publishFailed]⟩
  started payload task past hk htask _ _ := by
    refine ⟨⟨vetted_started hk.2.2 payload, by simp [TaskRecord.started]⟩, ?_, fun _ _ _ => hk.1⟩
    rintro past' ⟨-, rfl⟩
    refine ⟨hk.1, ?_, htask⟩
    rw [heldLease_of_steady rfl]
    exact hk.2.1
  outcome payload task outcome past hk := by
    obtain ⟨⟨hq, hpayload⟩, hleased, hwork, htask⟩ := hk
    exact ⟨⟨hq, hpayload, htask, rfl, hleased, hwork⟩, fun _ _ => ⟨hq, hpayload⟩,
      fun _ _ _ => ⟨hq, hpayload⟩⟩
  failedRun payload exc task graphStarted status past hk htask hstatus _ := by
    have hvetted := vetted_failedRun hk.2 hk.1.2 htask exc graphStarted status
    refine ⟨⟨hvetted, ?_⟩, fun _ _ => ⟨hk.1, hvetted⟩, fun _ _ _ => hk.1⟩
    simp only [List.mem_cons, List.not_mem_nil, or_false] at hstatus
    rcases hstatus with rfl | rfl <;> simp [TaskRecord.failedRun]
  publishRetry payload task retryPayload past hk _ hfor :=
    ⟨hfor.vetted hk.2, fun _ _ _ => hk⟩
  retryFailed payload task errorMessage interaction past hk _ hremembers _ :=
    ⟨⟨vetted_publishFailed hk.2 errorMessage hremembers nofun,
      by simp [TaskRecord.publishFailed]⟩, fun _ _ _ => hk.1⟩

section Graph

variable {agent : AgentSettings} {checkpoint : Checkpoint} {α β : Type}
  {Q : α → List TaskExchange → Prop}

theorem Working.snoc (h : Working payload past checkpoint) (hc : c.steady = true) :
    Working payload (past ++ [⟨c, r⟩]) checkpoint := by
  constructor
  · rw [heldLease_of_steady hc]
    exact h.leased
  · rw [openWork_of_steady hc]
    exact h.work
  · exact h.own

/-- A call of a node, and what follows its return. -/
theorem follows_steady {f : c.Reply → TaskProgram α} (hc : c.steady = true)
    (hmay : q.Allows taskOf catalog past c) (hwork : Working payload past checkpoint)
    (hf : ∀ b, Working payload (past ++ [⟨c, .ok b⟩]) checkpoint →
      (f b).Follows (vettedProtocol taskOf catalog q) Q (fun _ _ => True)
        (past ++ [⟨c, .ok b⟩])) :
    (c.perform >>= f).Follows (vettedProtocol taskOf catalog q) Q (fun _ _ => True) past := by
  apply Program.follows_call hmay
  · rintro b past' ⟨-, rfl⟩
    exact hf b (hwork.snoc hc)
  · exact fun _ _ _ => trivial

/-- What a node raises is of no concern. -/
theorem follows_ofExcept {x : Except Exn β} {f : β → TaskProgram α}
    (hf : ∀ b, (f b).Follows (vettedProtocol taskOf catalog q) Q (fun _ _ => True) past) :
    (Program.ofExcept x >>= f).Follows (vettedProtocol taskOf catalog q) Q (fun _ _ => True)
      past := by
  cases x with
  | ok b => exact hf b
  | error e => trivial

/-- A commit puts the new checkpoint in work. -/
theorem working_of_commit (hleased : heldLease past = some payload.taskId)
    {next : Checkpoint} (hattested : next.state.taskId = payload.taskId) :
    Working payload (past ++ [⟨.putCheckpoint payload.taskId next, .ok ()⟩]) next := by
  constructor
  · rw [heldLease_snoc]
    exact hleased
  · rw [openWork_snoc]
    rfl
  · exact hattested

variable (hq : q = .handleMessage (.ok payload)) (hpayload : payload.Vetted taskOf)
include hq hpayload

/-- A node other than the two that write makes calls that ask for nothing else. -/
theorem follows_node_silent {node : GraphNode} {resume : Option ResumeValue}
    (hwork : Working payload past checkpoint) (hnext : checkpoint.next = some node)
    (hplan : node ≠ .plan) (happroval : node ≠ .approval) :
    (agent.node node checkpoint.state resume).Follows (vettedProtocol taskOf catalog q)
      (fun _ past => Working payload past checkpoint) (fun _ _ => True) past := by
  have hcall : ∀ c past, c.ofNode = true → Working payload past checkpoint →
      (vettedProtocol taskOf catalog q).may c past ∧ ∀ r past',
        (vettedProtocol taskOf catalog q).next c past r past' →
          Working payload past' checkpoint := by
    intro c past hc hwork
    constructor
    · cases c with
      | graph threadId lc =>
          refine ⟨payload, checkpoint, hq, hpayload, hwork, ?_, ?_⟩
          · exact fun h => absurd (Option.some.inj (hnext.symm.trans h)) happroval
          · exact fun h => absurd (Option.some.inj (hnext.symm.trans h)) hplan
      | _ => trivial
    · rintro r past' ⟨-, rfl⟩
      exact hwork.snoc (steady_of_ofNode hc)
  exact (Program.Follows.of_invariant hcall
    (AgentSettings.nodeOnly node checkpoint.state resume) hwork).mono (fun _ _ h => h.2)
      fun _ _ _ => trivial

/-- The step of the repository of a node, and what follows its return. -/
theorem follows_graph {lc : LedgerCall} {f : lc.Reply → TaskProgram α}
    (hwork : Working payload past checkpoint)
    (hconsumes : checkpoint.next = some .approval → Consumes taskOf payload lc)
    (hquotes : checkpoint.next = some .plan → Quotes past lc)
    (hf : ∀ b, Working payload
      (past ++ [⟨.graph checkpoint.state.taskId lc, .ok b⟩]) checkpoint →
        (f b).Follows (vettedProtocol taskOf catalog q) Q (fun _ _ => True)
          (past ++ [⟨.graph checkpoint.state.taskId lc, .ok b⟩])) :
    ((TaskCall.graph checkpoint.state.taskId lc).perform >>= f).Follows
      (vettedProtocol taskOf catalog q) Q (fun _ _ => True) past :=
  follows_steady rfl ⟨payload, checkpoint, hq, hpayload, hwork, hconsumes, hquotes⟩ hwork hf

theorem follows_approvalNode {resume : Option ResumeValue}
    (hresume : ∀ v ∈ resume, v.resumeKind = .approval →
      payload.resumeKind = some .approval ∧ taskOf v.resumeId = some payload.taskId)
    (hwork : Working payload past checkpoint) (hnext : checkpoint.next = some .approval) :
    (approvalNode checkpoint.state resume).Follows (vettedProtocol taskOf catalog q)
      (fun _ past => Working payload past checkpoint) (fun _ _ => True) past := by
  have hplan : ∀ {lc past}, checkpoint.next = some .plan → Quotes past lc := by
    intro lc past h
    rw [hnext] at h
    cases h
  have hreport : ∀ {event : TaskEvent} {result : NodeResult} {past : List TaskExchange},
      Working payload past checkpoint →
        ((TaskCall.appendEvent checkpoint.state.taskId event).perform >>= fun _ =>
          (pure result : NodeProgram)).Follows (vettedProtocol taskOf catalog q)
            (fun _ past => Working payload past checkpoint) (fun _ _ => True) past :=
    fun hwork => follows_steady rfl trivial hwork fun _ hwork => hwork
  unfold approvalNode
  split
  · trivial
  split
  · exact hwork
  next decision =>
  split
  · trivial
  next hkind =>
  have hconsumed := hresume decision rfl (not_not.1 hkind)
  apply follows_graph hq hpayload hwork _ hplan
  · intro approval hwork₁
    cases approval with
    | none => trivial
    | some approval =>
        change Program.Follows _ _ _ (if _ then _ else _) _
        split
        · exact hreport hwork₁
        · apply follows_graph hq hpayload hwork₁ _ hplan
          · exact fun receipt hwork₂ => hreport hwork₂
          · rintro - approvalId (h | h)
            · cases h
            · cases h
              exact hconsumed
  · rintro - approvalId (h | h)
    · cases h
      exact hconsumed
    · cases h

theorem follows_planNode (hwork : Working payload past checkpoint)
    (hnext : checkpoint.next = some .plan) :
    (agent.planNode checkpoint.state).Follows (vettedProtocol taskOf catalog q)
      (fun _ past => Working payload past checkpoint) (fun _ _ => True) past := by
  have hconsumes : ∀ {lc}, checkpoint.next = some .approval → Consumes taskOf payload lc := by
    intro lc h
    rw [hnext] at h
    cases h
  unfold AgentSettings.planNode
  split
  · next diagnosis _ =>
      apply follows_ofExcept
      intro result
      split
      · exact hwork
      · next patch _ =>
          apply follows_ofExcept
          intro productId
          apply Program.Follows.bind
          rw [createPlanSync, Program.bind_eq, Program.lift_handle, Program.lift_perform]
          apply follows_graph hq hpayload hwork hconsumes
          · rintro - content heq
            cases heq
          intro existing hwork₁
          cases existing with
          | some plan => exact hwork₁
          | none =>
              simp only [Program.bind_eq, Program.lift_handle, Program.lift_perform]
              apply follows_graph hq hpayload hwork₁ hconsumes
              · rintro - content heq
                cases heq
              intro product hwork₂
              cases product with
              | none => trivial
              | some row =>
                  simp only [Program.lift_perform]
                  rw [← Program.handle_pure_throw (Program.perform _)]
                  apply follows_graph hq hpayload hwork₂ hconsumes
                  · rintro - content heq
                    cases heq
                    exact ⟨by simp, rfl, rfl⟩
                  exact fun plan hwork₃ => hwork₃
  · trivial

/-- A node makes the calls that a handler of the message may make. -/
theorem follows_node {node : GraphNode} {resume : Option ResumeValue}
    (hresume : ∀ v ∈ resume, v.resumeKind = .approval →
      payload.resumeKind = some .approval ∧ taskOf v.resumeId = some payload.taskId)
    (hwork : Working payload past checkpoint) (hnext : checkpoint.next = some node) :
    (agent.node node checkpoint.state resume).Follows (vettedProtocol taskOf catalog q)
      (fun _ past => Working payload past checkpoint) (fun _ _ => True) past := by
  cases node with
  | plan => exact follows_planNode hq hpayload hwork hnext
  | approval => exact follows_approvalNode hq hpayload hresume hwork hnext
  | _ => exact follows_node_silent hq hpayload hwork hnext nofun nofun

/-- A run from the checkpoint in work. -/
theorem vetted_runFrom (limit : ℕ) :
    ∀ (checkpoint : Checkpoint) (resume : Option ResumeValue) (past : List TaskExchange),
      (∀ v ∈ resume, v.resumeKind = .approval →
        payload.resumeKind = some .approval ∧ taskOf v.resumeId = some payload.taskId) →
      Working payload past checkpoint →
        (agent.runFrom payload.taskId limit checkpoint resume).Follows
          (vettedProtocol taskOf catalog q)
          (fun _ past => heldLease past = some payload.taskId ∧ openWork past ≠ none)
          (fun _ _ => True) past := by
  induction limit with
  | zero => exact fun _ _ _ _ _ => trivial
  | succ limit ih =>
      intro checkpoint resume past hresume hwork
      unfold AgentSettings.runFrom
      split
      · exact ⟨hwork.leased, by simp [hwork.work]⟩
      next node hnext =>
      have hentered : q.Allows taskOf catalog past (.enterNode payload.taskId node) := trivial
      apply follows_steady rfl hentered hwork
      intro _ hwork₁
      apply Program.Follows.bind
      refine (follows_node hq hpayload hresume hwork₁ hnext).mono ?_ fun _ _ _ => trivial
      intro result past₂ hwork₂
      apply Program.follows_call
      · exact ⟨hwork₂.leased, by simp [hwork₂.work]⟩
      · rintro _ past₃ ⟨hattested, rfl⟩
        have hwork₃ := working_of_commit hwork₂.leased hattested
        cases result with
        | interrupt interaction => exact ⟨hwork₃.leased, by simp [hwork₃.work]⟩
        | update state => exact ih _ none _ nofun hwork₃
      · exact fun _ _ _ => trivial

/-- A run of the orchestrator on the record that was started on the message. -/
theorem vetted_orchestrator {task : TaskRecord} (htask : task.taskId = payload.taskId)
    (hleased : heldLease past = some payload.taskId) :
    (agent.orchestrator task payload.resumeKind payload.resumeId).Follows
      (vettedProtocol taskOf catalog q)
      (fun _ past => heldLease past = some payload.taskId ∧ openWork past ≠ none)
      (fun _ _ => True) past := by
  have hinvoke : ∀ {limit checkpoint resume past}, (∀ v ∈ resume, v.resumeKind = .approval →
      payload.resumeKind = some .approval ∧ taskOf v.resumeId = some payload.taskId) →
      Working payload past checkpoint →
        (agent.invoke limit payload.taskId checkpoint resume).Follows
          (vettedProtocol taskOf catalog q)
          (fun _ past => heldLease past = some payload.taskId ∧ openWork past ≠ none)
          (fun _ _ => True) past :=
    fun hresume hwork => .bind (vetted_runFrom hq hpayload _ _ _ _ hresume hwork)
  suffices hrun : (agent.run agent.recursionLimit task payload.resumeKind payload.resumeId).Follows
      (vettedProtocol taskOf catalog q)
      (fun _ past => heldLease past = some payload.taskId ∧ openWork past ≠ none)
      (fun _ _ => True) past from
    .handle (hrun.mono (fun _ _ h => h) fun _ _ _ => trivial)
  unfold AgentSettings.run
  split
  · trivial
  apply Program.follows_call
  · change heldLease past = some task.taskId
    rw [htask]
    exact hleased
  · rintro found past₁ ⟨hattested, rfl⟩
    have hleased₁ : heldLease (past ++ [⟨.getCheckpoint task.taskId, .ok found⟩]) =
        some payload.taskId := by
      rw [heldLease_snoc]
      exact hleased
    have hwork₁ : openWork (past ++ [⟨.getCheckpoint task.taskId, .ok found⟩]) = some found := by
      rw [openWork_snoc]
      rfl
    cases found with
    | none =>
        change Program.Follows _ _ _ (agent.startThread _ _ _) _
        unfold AgentSettings.startThread
        split
        · trivial
        rw [htask]
        rw [htask] at hleased₁ hwork₁
        apply Program.follows_call
        · exact ⟨hleased₁, by simp [hwork₁]⟩
        · rintro _ past₂ ⟨hattested₂, rfl⟩
          exact hinvoke nofun (working_of_commit hleased₁ hattested₂)
        · exact fun _ _ _ => trivial
    | some checkpoint =>
        change Program.Follows _ _ _ (agent.resumeThread _ _ _ _ _) _
        have hwork : Working payload (past ++ [⟨.getCheckpoint task.taskId, .ok (some checkpoint)⟩])
            checkpoint := ⟨hleased₁, hwork₁, htask ▸ hattested⟩
        unfold AgentSettings.resumeThread
        rw [htask]
        rw [htask] at hwork
        split
        · next interaction _ =>
            split
            · exact ⟨hwork.leased, by simp [hwork.work]⟩
            next hkind =>
            split
            · trivial
            apply hinvoke _ hwork
            rintro v ⟨⟩ happroval
            have hkind : payload.resumeKind = some .approval := by
              rw [not_not.1 hkind]
              exact congrArg some happroval
            obtain ⟨approvalId, hid, howned⟩ := hpayload.resume hkind
            exact ⟨hkind, by simpa [hid] using howned⟩
        · split
          · trivial
          · exact hinvoke nofun hwork
  · exact fun _ _ _ => trivial

end Graph

/-- The orchestrator of an agent makes the calls of a run. -/
theorem vetted_runs {agent : AgentSettings} (payload : QueueMessage) :
    Outline.Runs (vettedProtocol taskOf catalog q) (vettedKnowledge taskOf q) agent.orchestrator
      payload := by
  rintro task past ⟨⟨hq, hpayload⟩, hleased, htask⟩
  refine (vetted_orchestrator hq hpayload htask hleased).mono ?_ fun _ _ _ => ⟨hq, hpayload⟩
  exact fun outcome past' h => ⟨⟨hq, hpayload⟩, h.1, h.2, htask⟩

end Knowledge

end CommerceAgent
