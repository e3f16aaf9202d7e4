import CommerceAgent.Tasks.Calls
import CommerceAgent.Tasks.Steps

/-!
# Agreement on approvals

The Redis record and the approvals table are two stores, and `submit_approval`
has three ways to succeed. Each of them names a row of the table that agrees with
the call in every column. Rows are never changed, so the row named is still the
row of the task at the end of any run: `agreementDiscipline` lets every thread
rely on the growth of the commerce database, and on nothing else.
-/

namespace CommerceAgent

open Effects Relational

/-- The approvals table has the row that the request asked for, under this identifier. -/
def Agreed (request : SubmitApproval) (approvalId : String) (db : Ledger) : Prop :=
  ∃ row ∈ db.approvals, row.approvalId = approvalId ∧ row.taskId = request.taskId ∧
    row.merchantId = request.merchantId ∧ row.planId = request.planId ∧
      row.planVersion = request.planVersion ∧ row.actionId = request.actionId ∧
        row.decision = request.decision

theorem Agreed.grows {request : SubmitApproval} {approvalId : String} {db db' : Ledger}
    (h : Agreed request approvalId db) (hgrows : db.Grows db') :
    Agreed request approvalId db' := by
  obtain ⟨row, hrow, hcolumns⟩ := h
  exact ⟨row, hgrows.approvals row hrow, hcolumns⟩

/-- What an approval request that returns has established. -/
def approvalPost : TaskRequest → TaskResult → World → Prop
  | .submitApproval request, .approved _ approvalId, w => Agreed request approvalId w.ledger
  | _, _, _ => True

/-- The commerce database grows, and records are stored under their identifiers. -/
def agreementDiscipline (catalog : Catalog) : Discipline World TaskRequest TaskResult where
  inv w := w.ledger.Invariant catalog ∧ w.Keyed
  rely _ w w' := w.ledger.Grows w'.ledger
  post := approvalPost
  refl _ _ := .refl _
  trans := .trans
  post_stable {q result _ _} hgrows h := by
    unfold approvalPost at h ⊢
    split at h
    · exact h.grows hgrows
    · trivial

/-- A call that writes at most an approval into the commerce database. -/
def TaskCall.KeepsPlans (c : TaskCall) : Prop :=
  ∀ lc, c.ledgerCall = some lc → (∀ catalog, lc ≠ .initializeSync catalog) ∧
    ∀ content, lc ≠ .insertPlan content

theorem TaskCall.ByService.keepsPlans {site : Site} {c : TaskCall} (hc : c.ByService site) :
    c.KeepsPlans := by
  rintro lc hlc
  cases c with
  | ledger c =>
      cases hlc
      constructor <;> rintro _ rfl <;> exact hc
  | graph threadId c => exact hc.elim
  | _ => cases hlc

theorem TaskCall.ByHandler.keepsPlans {payload : QueueMessage} {c : TaskCall}
    (hc : c.ByHandler payload) : c.KeepsPlans := by
  rintro lc hlc
  cases c with
  | ledger c | graph threadId c => exact hc.elim
  | _ => cases hlc

section Rules

variable {settings : Settings} {π : TaskPolicy} {i : ℕ} {w : World}

/-- A step that leaves the ledger alone keeps the discipline. -/
theorem agreement_keeps {w' : World} (hinv : w.ledger.Invariant settings.catalog)
    (hledger : w'.ledger = w.ledger) (hkeyed : w'.Keyed) :
    (agreementDiscipline settings.catalog).inv w' ∧
      ∀ j, (agreementDiscipline settings.catalog).rely j w w' := by
  refine ⟨⟨hledger ▸ hinv, hkeyed⟩, fun _ => ?_⟩
  change w.ledger.Grows w'.ledger
  rw [hledger]
  exact .refl _

theorem agreement_keeps_call {c : TaskCall} (hc : c.KeepsPlans) {ch : TaskChoice}
    {r : Except Exn c.Reply} {w' : World}
    (hinv : w.ledger.Invariant settings.catalog ∧ w.Keyed)
    (h : (taskMachine settings arbitraryRun).answer i c ch w = some (r, w')) :
    (agreementDiscipline settings.catalog).Keeps i w w' := by
  rcases writes_of_answer h with hledger | ⟨lc, hlc, hwrites⟩
  · obtain ⟨hinv', hrely⟩ := agreement_keeps hinv.1 hledger (hinv.2.answer h)
    exact ⟨hinv', fun j _ => hrely j⟩
  · obtain ⟨hseed, hplan⟩ := hc lc hlc
    exact ⟨⟨hwrites.invariant hinv.1 (fun catalog heq => absurd heq (hseed catalog))
      (fun content heq => absurd heq (hplan content)), hinv.2.answer h⟩,
      fun _ _ => hwrites.grows⟩

/-- What only grows with the database still holds where such a program ends. -/
theorem safe_of_keepsPlans {α : Type} {P : TaskCall → Prop} {V : α → Prop} {I : Ledger → Prop}
    {p : TaskProgram α} (hP : ∀ c, P c → c.KeepsPlans)
    (hI : ∀ db db', db.Grows db' → I db → I db') (hp : p.Only P V) (hw : I w.ledger) :
    (agreementDiscipline settings.catalog).Safe (taskMachine settings arbitraryRun) π i
      (fun a w => V a ∧ I w.ledger) (fun _ w => I w.ledger) p w :=
  .of_only (fun c hc _ _ _ _ hinv _ h => agreement_keeps_call (hP c hc) hinv h)
    (fun _ _ => hI _ _) (fun _ _ => hI _ _) hp hw

/-- A program of the repository is as safe here as in a ledger of its own. -/
theorem safe_liftLedger {α : Type} {Q : α → Ledger → Prop} {E : Exn → Ledger → Prop}
    {p : LedgerProgram α}
    (hp : (ledgerDiscipline settings.catalog).Safe (ledgerMachine settings.catalog) .any i Q E p
      w.ledger) :
    (agreementDiscipline settings.catalog).Safe (taskMachine settings arbitraryRun) π i
      (fun a w => Q a w.ledger) (fun e w => E e w.ledger) (liftLedger p) w := by
  refine Discipline.Safe.lift  (f := TaskCall.ledger)
    (fun _ _ (h : Ledger.Grows _ _) => h)
    (fun w (hinv : w.ledger.Invariant settings.catalog ∧ w.Keyed) => hinv.1) ?_ ?_ hp
  · intro c ch w r w' h
    exact ⟨⟨ch.token, ch.ending⟩, trivial, (ledgerMachine_of_answer h).1⟩
  · intro c ch w r w' hinv h hkeeps
    exact ⟨⟨hkeeps.1, hinv.2.answer h⟩, fun j hj => hkeeps.2 j hj⟩

/-- A record that is read is the record of the task asked for. -/
theorem safe_getTaskForMerchant {I : Ledger → Prop} (hI : ∀ db db', db.Grows db' → I db → I db')
    (hw : I w.ledger) (site : Site) (taskId merchantId : String) :
    (agreementDiscipline settings.catalog).Safe (taskMachine settings arbitraryRun) π i
      (fun task w => task.taskId = taskId ∧ task.merchantId = merchantId ∧ I w.ledger)
      (fun _ w => I w.ledger) (getTaskForMerchant site taskId merchantId) w := by
  refine .handle (.handle ?_)
  intro w₁ hgrows hinv ch r w₂ _ h
  have hI₁ := hI _ _ hgrows hw
  have hkeeps := agreement_keeps_call (by simp [TaskCall.KeepsPlans]) hinv h
  refine ⟨hkeeps, ?_⟩
  cases r with
  | error e => exact hI _ _ (hkeeps.2 none (by simp)) hI₁
  | ok found =>
      obtain ⟨rfl, rfl⟩ := read_of_answer h
      cases hfound : w₂.records taskId with
      | none => exact hI₁
      | some task =>
          change Discipline.Safe _ _ _ _ _ _ (if task.merchantId ≠ merchantId then _ else _) _
          split
          · exact hI₁
          · next hmerchant => exact ⟨hinv.2 taskId task hfound, not_not.1 hmerchant, hI₁⟩

/-- A call of the repository, with what its operation returns. -/
theorem safe_ledger {α : Type} {lc : LedgerCall} {f : lc.Reply → TaskProgram α}
    {Q : α → World → Prop} (hlc : (TaskCall.ledger lc).KeepsPlans)
    (hf : ∀ (w : World) token reply db', w.ledger.Invariant settings.catalog →
      lc.execute token w.ledger = .ok (reply, db') →
        (agreementDiscipline settings.catalog).Safe (taskMachine settings arbitraryRun) π i
          Q (fun _ _ => True) (f reply) { w with ledger := db' }) :
    (agreementDiscipline settings.catalog).Safe (taskMachine settings arbitraryRun) π i
      Q (fun _ _ => True) ((TaskCall.ledger lc).perform >>= f) w := by
  refine .handle ?_
  intro w₁ hgrows hinv ch r w₂ _ h
  refine ⟨agreement_keeps_call hlc hinv h, ?_⟩
  cases r with
  | error e => trivial
  | ok reply =>
      have hrun := execute_of_answer h
      obtain ⟨⟨reply', db'⟩, hexecute, heq⟩ := exists_of_map_ok hrun
      cases heq
      exact hf w₁ ch.token reply' db' hinv.1 hexecute

/-- A recorded approval is the row that the request asked for. -/
theorem agreed_of_recordApproval (request : SubmitApproval) {approvalId token : String}
    {catalog : Catalog} {db db' : Ledger} (hinv : db.Invariant catalog)
    (h : recordApprovalSync request.taskId request.merchantId request.planId request.planVersion
      request.actionId request.decision token db = .ok (approvalId, db')) :
    Agreed request approvalId db' := by
  obtain ⟨plan, hplan, hplanId, htask, hmerchant, hversion, haction,
    ⟨rfl, row, hrow, hrowTask, hdecision, hid⟩ | ⟨rfl, approvals, rfl, hinsert⟩⟩ :=
    recordApproval_ok h
  · obtain ⟨plan', hplan', happroves⟩ := hinv.approvals row hrow
    have heq : plan' = plan :=
      eq_of_planTask hplan' hplan (happroves.taskId.symm.trans (hrowTask.trans htask.symm))
    rw [heq] at happroves
    exact ⟨row, hrow, hid, hrowTask, happroves.merchantId.trans hmerchant,
      happroves.planId.trans hplanId, happroves.planVersion.trans hversion,
      happroves.actionId.trans haction, hdecision⟩
  · exact ⟨_, (Table.mem_of_insert? hinsert).2 (.inr rfl), rfl, rfl, rfl, rfl, rfl, rfl, rfl⟩

theorem safe_repeatedApproval {request : SubmitApproval} {task : TaskRecord}
    (htask : task.taskId = request.taskId) (hmerchant : task.merchantId = request.merchantId) :
    (agreementDiscipline settings.catalog).Safe (taskMachine settings arbitraryRun) π i
      (fun result w => Agreed request result.2 w.ledger) (fun _ _ => True)
      (repeatedApproval request task) w := by
  refine safe_ledger (by simp [TaskCall.KeepsPlans]) fun w₁ token found db' _ hfound => ?_
  cases hfound
  cases hrow : getApprovalForTaskSync task.taskId w₁.ledger with
  | none => trivial
  | some row =>
      obtain ⟨hmem, hrowTask⟩ := mem_of_getApprovalForTask hrow
      change Discipline.Safe _ _ _ _ _ _ (if request.Repeats task.merchantId row then _ else _) _
      split
      · next hrepeats =>
          obtain ⟨hrowMerchant, hcolumns⟩ := hrepeats
          exact ⟨row, hmem, rfl, hrowTask.trans htask, hrowMerchant.trans hmerchant, hcolumns⟩
      · trivial

/-- Every way in which `submit_approval` returns agrees with the approvals table. -/
theorem safe_submitApproval (request : SubmitApproval) :
    (agreementDiscipline settings.catalog).Safe (taskMachine settings arbitraryRun) π i
      (fun result w => Agreed request result.2 w.ledger) (fun _ _ => True)
      (submitApproval request) w := by
  refine .handle (.imp ?_ (fun _ _ _ => trivial) (safe_getTaskForMerchant (I := fun _ => True)
    (fun _ _ _ _ => trivial) trivial .submitApproval request.taskId request.merchantId))
  rintro task w₁ ⟨htask, hmerchant, -⟩
  change Discipline.Safe _ _ _ _ _ _ (if task.status ∈ _ then _ else _) _
  split
  · exact safe_repeatedApproval htask hmerchant
  split
  · trivial
  split
  · trivial
  refine safe_ledger (by simp [TaskCall.KeepsPlans]) fun w₂ token approvalId db' hinv hrecord => ?_
  rw [htask, hmerchant] at hrecord
  have hagreed := agreed_of_recordApproval request hinv hrecord
  refine .imp (fun result w hresult => ?_) (fun _ _ _ => trivial)
    (safe_of_keepsPlans (P := TaskCall.ByService .submitApproval) (fun _ hc => hc.keepsPlans)
      (V := fun result => result.2 = approvalId) (I := Agreed request approvalId)
      (fun _ _ hgrows h => h.grows hgrows) ?_ hagreed)
  · rw [hresult.1]
    exact hresult.2
  · refine serves_bind ⟨rfl, by simp [TaskRecord.withApproval], ?_⟩ fun transitioned => ?_
    · split <;> simp
    split
    · exact serves_racedApproval request approvalId
    · exact serves_enqueueApproval request (by simp [TaskRecord.withApproval]) approvalId _

theorem agreementSound : (agreementDiscipline settings.catalog).Sound
    (taskMachine settings arbitraryRun) π where
  start i q w w' hinv _ haccept := by
    obtain ⟨hinv', hrely⟩ := agreement_keeps hinv.1 (ledger_of_accept haccept)
      (hinv.2.of_records (records_of_accept haccept))
    refine ⟨⟨hinv', fun j _ => hrely j⟩, ?_⟩
    have hkeeps : ∀ {α : Type} {P : TaskCall → Prop} {p : TaskProgram α} (f : α → TaskResult),
        (∀ c, P c → c.KeepsPlans) → p.Only P (fun _ => True) →
          (∀ a w, approvalPost q (f a) w) →
            (agreementDiscipline settings.catalog).Safe (taskMachine settings arbitraryRun) π i
              (approvalPost q) (fun _ _ => True) (p >>= fun a => pure (f a)) w' :=
      fun f hP hp hf => .handle (.imp (fun a w _ => hf a w) (fun _ _ _ => trivial)
        (safe_of_keepsPlans (I := fun _ => True) hP (fun _ _ _ _ => trivial) hp trivial))
    cases q with
    | createTask request =>
        exact hkeeps _ (fun _ hc => hc.keepsPlans) (serves_createTask request) fun _ _ => trivial
    | submitInput taskId merchantId productId =>
        exact hkeeps _ (fun _ hc => hc.keepsPlans) (serves_submitInput _ _ _) fun _ _ => trivial
    | submitApproval request =>
        exact .handle (.imp (fun _ _ h => h) (fun _ _ _ => trivial) (safe_submitApproval request))
    | resumeTask taskId merchantId =>
        exact hkeeps _ (fun _ hc => hc.keepsPlans) (serves_resumeTask _ _) fun _ _ => trivial
    | handleMessage body =>
        cases body with
        | error e =>
            exact hkeeps _ (fun c (hc : c = .reject false) => by simp [hc, TaskCall.KeepsPlans])
              (Program.Only.perform (c := TaskCall.reject false) rfl) fun _ _ => trivial
        | ok payload =>
            exact hkeeps _ (fun _ hc => hc.keepsPlans)
              (handles_handleMessage settings handles_arbitraryRun) fun _ _ => trivial
    | ledger request =>
        exact .handle (.imp (fun _ _ _ => trivial) (fun _ _ _ => trivial)
          (safe_liftLedger (ledgerSound.start i request _ _ hinv'.1 trivial rfl).2))
  crash i w hinv _ := by
    obtain ⟨hinv', hrely⟩ := agreement_keeps hinv.1 (w.requeue_ledger i)
      (hinv.2.of_records (w.requeue_records i))
    exact ⟨hinv', fun j _ => hrely j⟩
  environment e w w' hinv _ henv :=
    agreement_keeps hinv.1 (ledger_of_environment henv) (hinv.2.environment henv)

end Rules

section Agreement

variable {settings : Settings} {h : List (TaskConfig × TaskAction)} {c : TaskConfig}

/-- Whatever API calls, handlers and repository operations are interleaved, each
task has at most one approval, which never changes; every approval request that
has returned agrees with it, so that two of them never decide differently. -/
theorem approvals_agree
    (run : (taskMachine settings arbitraryRun).Run .any (.initial World.fresh) h c) :
    (∀ a ∈ c.state.ledger.approvals, ∀ a' ∈ c.state.ledger.approvals, a.taskId = a'.taskId →
      a = a') ∧
    (∀ v ∈ h, ∀ a ∈ v.1.state.ledger.approvals, a ∈ c.state.ledger.approvals) ∧
    (∀ i request task approvalId,
      c.pool i = .running (.submitApproval request) (.pure (.approved task approvalId)) →
        ∃ row ∈ c.state.ledger.approvals, row.approvalId = approvalId ∧
          row.taskId = request.taskId ∧ row.merchantId = request.merchantId ∧
          row.planId = request.planId ∧ row.planVersion = request.planVersion ∧
          row.actionId = request.actionId ∧ row.decision = request.decision) ∧
    ∀ i request task approvalId j request' task' approvalId',
      c.pool i = .running (.submitApproval request) (.pure (.approved task approvalId)) →
      c.pool j = .running (.submitApproval request') (.pure (.approved task' approvalId')) →
        request.taskId = request'.taskId →
          approvalId = approvalId' ∧ request.decision = request'.decision := by
  obtain ⟨hholds, hpast⟩ := agreementSound.run ⟨Ledger.Invariant.fresh, World.keyed_fresh⟩ run
  have hunique : ∀ a ∈ c.state.ledger.approvals, ∀ a' ∈ c.state.ledger.approvals,
      a.taskId = a'.taskId → a = a' := fun a ha a' ha' htask => eq_of_approvalTask ha ha' htask
  have hagreed : ∀ i request task approvalId,
      c.pool i = .running (.submitApproval request) (.pure (.approved task approvalId)) →
        Agreed request approvalId c.state.ledger := by
    intro i request task approvalId hslot
    have hsafe := hholds.safe i
    rw [hslot] at hsafe
    exact hsafe
  refine ⟨hunique, fun v hv a ha => (hpast v hv).2.approvals a ha, hagreed, ?_⟩
  intro i request task approvalId j request' task' approvalId' hi hj htask
  obtain ⟨row, hrow, hid, hrowTask, -, -, -, -, hdecision⟩ := hagreed i _ _ _ hi
  obtain ⟨row', hrow', hid', hrowTask', -, -, -, -, hdecision'⟩ := hagreed j _ _ _ hj
  have heq := hunique row hrow row' hrow' (hrowTask.trans (htask.trans hrowTask'.symm))
  subst heq
  exact ⟨hid.symm.trans hid', hdecision.symm.trans hdecision'⟩

end Agreement

/-- A plan is made and shown, approved, approved again and rejected in vain. -/
def demoApprovalActions : List TaskAction :=
  let shown : RunOutcome := { status := .awaitingApproval }
  let approval : SubmitApproval :=
    ⟨"task-1", demoMerchantId, "plan-1", 1, "update_description", .approve⟩
  let rejection : SubmitApproval := { approval with decision := .reject }
  let patch : ProductPatch := ⟨"description", "Works with game consoles.", "Buyers ask."⟩
  [.start 0 (.createTask demoRequest), .call 0 {}, .call 0 {}, .call 0 {},
   .start 1 (.ledger .initializeSync), .call 1 {},
   .start 2 (.handleMessage (.ok demoMessage)), .call 2 {}, .call 2 {}, .call 2 {}, .call 2 {},
   .start 3 (.ledger (.createPlan demoTaskId demoMerchantId demoProductId patch)),
   .call 3 {}, .call 3 {}, .call 3 { token := "plan-1" },
   .call 2 { outcome := shown }, .call 2 {}, .call 2 {}, .call 2 {}, .call 2 {},
   .start 4 (.submitApproval approval), .start 5 (.submitApproval rejection), .call 4 {},
   .call 4 { token := "approval-1" }, .call 4 {}, .call 4 {}, .call 4 {}, .call 5 {}, .call 5 {},
   .start 6 (.submitApproval approval), .call 6 {}, .call 6 {}]

/-- The approval that a thread has returned. -/
def returnedApproval (c : TaskConfig) (i : ℕ) : Option (SubmitApproval × String) :=
  match c.pool i with
  | .running (.submitApproval request) (.pure (.approved _ approvalId)) =>
      some (request, approvalId)
  | _ => none

theorem approvals_agree_demo : ∃ h c,
    (taskMachine demoSettings arbitraryRun).Run .any (.initial .fresh) h c ∧
      (returnedApproval c 4).map Prod.snd = some "approval-1" ∧
      (returnedApproval c 6).map Prod.snd = some "approval-1" ∧
      c.state.ledger.approvals.rows.length = 1 ∧
      ∀ a ∈ c.state.ledger.approvals, ∀ a' ∈ c.state.ledger.approvals,
        a.taskId = a'.taskId → a = a' := by
  have hend : ((taskMachine demoSettings arbitraryRun).exec .any demoApprovalActions
      (.initial .fresh)).map (fun c => ((returnedApproval c 4).map Prod.snd,
        (returnedApproval c 6).map Prod.snd, c.state.ledger.approvals.rows.length)) =
          some (some "approval-1", some "approval-1", 1) := by decide
  obtain ⟨c, hc, hresults⟩ := Option.map_eq_some_iff.1 hend
  obtain ⟨h, run⟩ := Machine.Run.exec .nil hc
  rw [Prod.mk.injEq, Prod.mk.injEq] at hresults
  exact ⟨h, c, run, hresults.1, hresults.2.1, hresults.2.2, (approvals_agree run).1⟩

end CommerceAgent
