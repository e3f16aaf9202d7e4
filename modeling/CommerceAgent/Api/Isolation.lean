import CommerceAgent.Agent.Scope
import CommerceAgent.Api.Endpoints
import CommerceAgent.Tasks.EventReplay

/-!
# The merchants are isolated

In every run of the API and its workers, a request that is authenticated as a merchant
changes no record, plan, approval or product of another merchant, and returns records,
events and approvals of tasks of its own merchant only. It is assumed that merchants have
no `:` in their identifiers, and that two merchants never draw the same task identifier.
-/

namespace CommerceAgent

open Effects Relational

/-- What a step for a merchant leaves of the others: their records, the approvals that
name them or that are of their tasks, and all plans, products and receipts. -/
structure ForeignUnchanged (merchantId : String) (w w' : World) : Prop where
  records : ∀ taskId task, task.merchantId ≠ merchantId →
    (w'.records taskId = some task ↔ w.records taskId = some task)
  plans : w'.ledger.plans = w.ledger.plans
  approvals : ∀ row : ApprovalRow, (row.merchantId ≠ merchantId ∨
    ∃ task, w.records row.taskId = some task ∧ task.merchantId ≠ merchantId) →
      (row ∈ w'.ledger.approvals ↔ row ∈ w.ledger.approvals)
  products : w'.ledger.products = w.ledger.products
  receipts : w'.ledger.receipts = w.ledger.receipts

/-- A change of neither records nor database. -/
theorem ForeignUnchanged.of_eq {merchantId : String} {w w' : World}
    (hrecords : w'.records = w.records) (hledger : w'.ledger = w.ledger) :
    ForeignUnchanged merchantId w w' where
  records _ _ _ := by rw [hrecords]
  plans := by rw [hledger]
  approvals _ _ := by rw [hledger]
  products := by rw [hledger]
  receipts := by rw [hledger]

/-- What belongs to a merchant. -/
structure Share where
  task : String → Prop
  record : TaskRecord → Prop
  product : String → Prop
  event : String → TaskEvent → Prop
  approval : String → String → Prop

/-- The result of the endpoint is of the task that the request names, and within the share. -/
def Endpoint.Confined (share : Share) : Endpoint → ApiResult → Prop
  | .createTask .., .created task _ => share.record task
  | .getTask taskId, .task task => task.taskId = taskId ∧ share.record task
  | .getTaskTrace taskId, .trace task events =>
      (task.taskId = taskId ∧ share.record task) ∧ ∀ event ∈ events, share.event taskId event
  | .submitTaskInput taskId productId, .task task =>
      (task.taskId = taskId ∧ share.record task) ∧
        task.productId = some productId ∧ share.product productId
  | .submitTaskApproval taskId _, .approved task approvalId =>
      (task.taskId = taskId ∧ share.record task) ∧ share.approval taskId approvalId
  | .resumeTask taskId, .task task => task.taskId = taskId ∧ share.record task
  | .streamTaskEvents taskId .., .events events =>
      share.task taskId ∧ ∀ event ∈ events, share.event taskId event
  | _, _ => False

theorem Endpoint.Confined.mono {share : Share} {event : String → TaskEvent → Prop}
    {approval : String → String → Prop} (hevent : ∀ id x, share.event id x → event id x)
    (happroval : ∀ id approvalId, share.approval id approvalId → approval id approvalId)
    {endpoint : Endpoint} {result : ApiResult} (h : endpoint.Confined share result) :
    endpoint.Confined { share with event, approval } result := by
  unfold Endpoint.Confined at h ⊢
  split at h
  · exact h
  · exact h
  · exact ⟨h.1, fun x hx => hevent _ x (h.2 x hx)⟩
  · exact h
  · exact ⟨h.1, happroval _ _ h.2⟩
  · exact h
  · exact ⟨h.1, fun x hx => hevent _ x (h.2 x hx)⟩
  · exact h.elim

/-- The merchant and the task identifier of a request that creates a task. -/
def ApiRequest.creation : ApiRequest → Option (String × String)
  | .request merchantId (.createTask _ _ context) => some (merchantId, context.taskToken)
  | _ => none

/-- The merchants and task identifiers of the requests that were started. -/
def creations (h : List (ApiConfig × ApiAction)) : List (String × String) :=
  h.filterMap fun v => match v.2 with
    | .start _ q => q.creation
    | _ => none

/-- Two merchants never draw the same task identifier. -/
def TokensApart (h : List (ApiConfig × ApiAction)) : Prop :=
  ∀ x ∈ creations h, ∀ y ∈ creations h, x.2 = y.2 → x.1 = y.1

/-- The merchant of a product. -/
def Catalog.merchantOf (catalog : Catalog) (productId : String) : Option String :=
  (catalog.products.find? fun p => p.productId == productId).map ProductRow.merchantId

/-- A task belongs to the merchant that has created it, a product to the one that the
catalogue gives it to. -/
def owners (catalog : Catalog) (h : List (ApiConfig × ApiAction)) : Owners where
  task taskId := ((creations h).find? fun x => x.2 == taskId).map Prod.fst
  product := catalog.merchantOf

/-- What belongs to a merchant in a world. -/
def Owners.share (o : Owners) (w : World) (merchantId : String) : Share where
  task taskId := o.task taskId = some merchantId
  record := o.Of merchantId
  product productId := o.product productId = some merchantId
  event taskId event := (taskId, event) ∈ w.events
  approval taskId approvalId := ∃ row ∈ w.ledger.approvals,
    row.approvalId = approvalId ∧ row.taskId = taskId ∧ row.merchantId = merchantId

/-- The request is of a merchant without `:` in its identifier, and a token that it draws
is not empty. -/
def ApiRequest.Admissible (q : ApiRequest) : Prop :=
  q.merchant.all (fun merchantId => decide (':' ∉ merchantId.toList)) = true ∧
    q.creation.all (fun x => x.2 != "") = true

instance (q : ApiRequest) : Decidable q.Admissible := inferInstanceAs (Decidable (_ ∧ _))

/-- Requests of merchants without `:`, with tokens that are not empty. -/
def colonFree : Policy ApiCall World ApiChoice ApiRequest TaskEnvironment where
  start _ q _ := q.Admissible

/-- The action is one of a process that acts for the merchant. -/
def ActsFor (merchantId : String) (c : ApiConfig) : ApiAction → Prop
  | .start _ q => q.merchant = some merchantId
  | .call i _ | .crash i => ∃ q p, c.pool i = .running q p ∧ q.merchant = some merchantId
  | .environment _ => False

abbrev ApiExchange := Exchange Exn ApiCall ApiCall.Reply

/-- The call is one that a process of the request may make. -/
def ApiRequest.Permits (o : Owners) : ApiRequest → ApiCall → Prop
  | .request merchantId _, .task c => o.May c ∧ c.For merchantId
  | .request merchantId _, .readEvents taskId => o.task taskId = some merchantId
  | .handleMessage _, .task c | .startup, .task c => o.May c
  | .handleMessage _, .readEvents _ | .startup, .readEvents _ => False

/-- The processes rely on answers from an owned world, and keep it owned. -/
def isolation (o : Owners) : Contract Exn ApiCall ApiCall.Reply World ApiRequest where
  inv := o.Owned
  assume
    | .task c, r => o.Gives c r
    | .readEvents _, _ => True
  guarantee q _ c := q.Permits o c

/-- What belongs to a merchant by the answers that a process has got. -/
def Owners.answered (o : Owners) (merchantId : String) (past : List ApiExchange) : Share where
  task taskId := o.task taskId = some merchantId
  record := o.Of merchantId
  product productId := o.product productId = some merchantId
  event taskId event :=
    ∃ batch, (⟨.readEvents taskId, .ok batch⟩ : ApiExchange) ∈ past ∧ event ∈ batch
  approval taskId approvalId := o.task taskId = some merchantId ∧
    ∃ past', Owners.Approves past' taskId merchantId approvalId ∧
      past = past'.map (Program.exchangeLift .task)

section Endpoints

variable {o : Owners} {merchantId : String} {endpoint : Endpoint} {α β : Type}

/-- What an endpoint does, in the contract. -/
abbrev EndpointMeets (o : Owners) (merchantId : String) (endpoint : Endpoint)
    (p : ApiProgram α) (Q : List ApiExchange → α → Prop) (past : List ApiExchange) : Prop :=
  p.Meets (isolation o).assume ((isolation o).guarantee (.request merchantId endpoint)) Q
    (fun _ _ => True) past

theorem meets_liftTask {p : TaskProgram α} {W : List TaskExchange → α → Prop}
    (hp : o.Serves merchantId p W []) {f : α → ApiProgram β} {Q : List ApiExchange → β → Prop}
    (hf : ∀ past a, W past a →
      EndpointMeets o merchantId endpoint (f a) Q (past.map (Program.exchangeLift .task))) :
    EndpointMeets o merchantId endpoint (liftTask p >>= f) Q [] := by
  apply Program.Meets.handle
  have hlift : o.Serves merchantId p (fun past a =>
      EndpointMeets o merchantId endpoint (f a) Q (past.map (Program.exchangeLift .task))) [] :=
    hp.mono hf fun _ _ _ => trivial
  exact Program.Meets.lift (f := ApiCall.task) (A := (isolation o).assume)
    (G := (isolation o).guarantee (.request merchantId endpoint))
    (Q := fun past a => EndpointMeets o merchantId endpoint (f a) Q past)
    (E := fun _ _ => True) hlift

/-- The events that a stream sends were read from the task. -/
theorem meets_generateEvents {taskId : String} (howned : o.task taskId = some merchantId)
    (reads : ℕ) : ∀ past, EndpointMeets o merchantId endpoint (generateEvents taskId reads)
      (fun past events => ∀ event ∈ events, (o.answered merchantId past).event taskId event)
        past := by
  have hsent : ∀ batch event, event ∈ (sentOf batch).1 → event ∈ batch := by
    intro batch
    induction batch with
    | nil => exact fun _ h => h
    | cons first batch ih =>
        intro event h
        simp only [sentOf] at h
        split at h
        · rw [List.mem_singleton.1 h]
          exact List.mem_cons_self
        · rcases List.mem_cons.1 h with rfl | h
          · exact List.mem_cons_self
          · exact List.mem_cons_of_mem _ (ih event h)
  induction reads with
  | zero => exact fun _ event h => absurd h List.not_mem_nil
  | succ reads ih =>
      intro past
      apply Program.meets_bind.2
      refine ⟨howned, fun batch _ => ?_, fun _ _ => trivial⟩
      have hread : (⟨.readEvents taskId, .ok batch⟩ : ApiExchange) ∈
          past ++ [⟨.readEvents taskId, .ok batch⟩] := by simp
      split
      · exact fun event h => ⟨batch, hread, hsent batch event h⟩
      · apply Program.Meets.handle
        apply ((ih _).remember hread).mono
        · intro past rest hrest event h
          rcases List.mem_append.1 h with h | h
          · exact ⟨batch, hrest.2, hsent batch event h⟩
          · exact hrest.1 event h
        · exact fun _ _ _ => trivial

/-- Every endpoint keeps to the merchant that it runs for. -/
theorem meets_endpoint {codec : EventCodec} (hempty : o.task "" = none)
    (hcolon : ':' ∉ merchantId.toList) (hcreation : ∀ x,
      (ApiRequest.request merchantId endpoint).creation = some x → o.task x.2 = some x.1) :
    EndpointMeets o merchantId endpoint (endpoint.program codec merchantId)
      (fun past result => endpoint.Confined (o.answered merchantId past) result) [] := by
  have hread : ∀ taskId, o.Serves merchantId (getTaskForMerchant .resumeTask taskId merchantId)
      (fun _ task => task.taskId = taskId ∧ o.Of merchantId task) [] :=
    fun taskId => Owners.serves_getTaskForMerchant .resumeTask taskId []
  have howned : ∀ {taskId} {task : TaskRecord}, task.taskId = taskId ∧ o.Of merchantId task →
      o.task taskId = some merchantId := by
    rintro taskId task ⟨rfl, hof⟩
    exact hof.record.owned.trans (congrArg some hof.merchant)
  cases endpoint with
  | createTask payload client context =>
      apply meets_liftTask (Owners.serves_createTask hempty hcolon payload client context
        (hcreation _ rfl))
      exact fun _ _ hresult => hresult
  | getTask taskId =>
      apply meets_liftTask (hread taskId)
      exact fun _ _ hresult => hresult
  | getTaskTrace taskId =>
      change EndpointMeets o merchantId _ ((readTask taskId merchantId >>= _) >>= _) _ []
      rw [Program.bind_eq, Program.bind_eq, Program.handle_handle]
      apply meets_liftTask (hread taskId)
      intro past task htask
      rw [Program.bind_eq, Program.handle_handle]
      apply Program.meets_handle.2
      refine ⟨howned htask, fun batch _ => ⟨htask, ?_⟩, fun _ _ => trivial⟩
      exact fun event hevent => ⟨batch, by simp, hevent⟩
  | submitTaskInput taskId productId =>
      apply meets_liftTask (Owners.serves_submitInput taskId productId)
      exact fun _ _ hresult => hresult
  | submitTaskApproval taskId payload =>
      apply meets_liftTask (Owners.serves_submitApproval (payload.routed merchantId taskId) rfl)
      exact fun past _ hresult => ⟨hresult.1, howned hresult.1, past, hresult.2, rfl⟩
  | resumeTask taskId =>
      apply meets_liftTask (Owners.serves_resumeTask taskId)
      exact fun _ _ hresult => hresult
  | streamTaskEvents taskId after lastEventId reads =>
      change EndpointMeets o merchantId _ ((readTask taskId merchantId >>= _) >>= _) _ []
      rw [Program.bind_eq, Program.bind_eq, Program.handle_handle]
      apply meets_liftTask (hread taskId)
      intro past task htask
      split
      · trivial
      · apply Program.Meets.handle
        apply (meets_generateEvents (howned htask) reads _).mono
        · exact fun _ _ hevents => ⟨howned htask, hevents⟩
        · exact fun _ _ _ => trivial

end Endpoints

section Steps

variable {o : Owners} {merchantId : String} {codec : EventCodec} {settings : Settings}
  {agent : AgentSettings} {orchestrator : Orchestrator} {i : ℕ} {w w' : World}

/-- A repository step that a merchant may make adds at most an approval, of a plan of the
merchant. -/
theorem approves_of_writes {lc : LedgerCall} {db db' : Ledger} (hwrites : Writes lc db db')
    (hfor : (TaskCall.ledger lc).For merchantId) :
    db'.plans = db.plans ∧ db'.products = db.products ∧ db'.receipts = db.receipts ∧
      ∀ row ∈ db'.approvals, row ∈ db.approvals ∨ ∃ plan ∈ db.plans, row.taskId = plan.taskId ∧
        row.merchantId = merchantId ∧ plan.merchantId = merchantId := by
  cases hwrites with
  | nothing => exact ⟨rfl, rfl, rfl, fun _ hrow => .inl hrow⟩
  | @approval plan decision approvalId db approvals mem insert =>
      refine ⟨rfl, rfl, rfl, ?_⟩
      intro row hrow
      rcases (Table.mem_of_insert? insert).1 hrow with hrow | rfl
      · exact .inl hrow
      · exact .inr ⟨plan, mem, rfl, hfor, hfor⟩
  | seed | plan | receipt => exact hfor.elim

/-- A call that a merchant may make changes nothing of the others. -/
theorem unchanged_of_answer {c : TaskCall} {ch : TaskChoice} {r : Except Exn c.Reply}
    (hw : o.Owned w) (hmay : o.May c) (hfor : c.For merchantId)
    (h : (taskMachine settings orchestrator).answer i c ch w = some (r, w')) :
    ForeignUnchanged merchantId w w' := by
  have hrecords : ∀ taskId task, task.merchantId ≠ merchantId →
      (w'.records taskId = some task ↔ w.records taskId = some task) := by
    intro taskId task hforeign
    rcases records_of_answer h with hsame | ⟨written, hwritten, hstored⟩
    · rw [hsame]
    have hof : o.Of merchantId written := by
      cases c with
      | setNew stored | saveTask site stored | transitionTask stored status =>
          cases hwritten
          exact ⟨hfor, hmay⟩
      | createScript stored key =>
          cases hwritten
          exact ⟨hfor, hmay.1⟩
      | _ => cases hwritten
    rw [hstored, World.store_records]
    split
    · next heq =>
        constructor
        · intro hsame
          cases hsame
          exact absurd hof.merchant hforeign
        · intro hread
          have howned := (hw.records taskId task hread).2.owned
          rw [(hw.records taskId task hread).1, heq, hof.record.owned, hof.merchant] at howned
          exact absurd (Option.some.inj howned).symm hforeign
    · rfl
  rcases writes_of_answer h with hsame | ⟨lc, hlc, hwrites⟩
  · exact ⟨hrecords, by rw [hsame], fun _ _ => by rw [hsame], by rw [hsame], by rw [hsame]⟩
  cases c with
  | ledger lc' =>
      cases hlc
      obtain ⟨hplans, hproducts, hreceipts, happrovals⟩ := approves_of_writes hwrites hfor
      refine ⟨hrecords, hplans, ?_, hproducts, hreceipts⟩
      intro row hforeign
      refine ⟨fun hrow => ?_, hwrites.grows.approvals row⟩
      rcases happrovals row hrow with hold | ⟨plan, hplan, htask, hmerchant, hown⟩
      · exact hold
      · rcases hforeign with hne | ⟨task, hread, hne⟩
        · exact absurd hmerchant hne
        · have howned := (hw.records row.taskId task hread).2.owned
          rw [(hw.records row.taskId task hread).1, htask, (hw.rows.plans plan hplan).task,
            Option.some.injEq] at howned
          exact absurd (howned.symm.trans hown) hne
  | graph threadId lc' => exact hfor.elim
  | _ => cases hlc

/-- A read of events changes nothing. -/
theorem world_of_readEvents {taskId : String} {ch : ApiChoice}
    {r : Except Exn (ApiCall.readEvents taskId).Reply}
    (h : (apiMachine codec settings agent).answer i (.readEvents taskId) ch w = some (r, w')) :
    w' = w := by
  rcases Ending.answer_cases (Option.some.inj h) with heq | ⟨batch, hread⟩
  · exact heq
  · cases hread
    rfl

/-- The step of a process that acts for a merchant. -/
theorem unchanged_of_permits {q : ApiRequest} (hq : q.merchant = some merchantId) {c : ApiCall}
    {ch : ApiChoice} {r : Except Exn c.Reply} (hw : o.Owned w) (hpermits : q.Permits o c)
    (h : (apiMachine codec settings agent).answer i c ch w = some (r, w')) :
    ForeignUnchanged merchantId w w' := by
  cases q with
  | handleMessage body | startup => cases hq
  | request merchant endpoint =>
      cases hq
      cases c with
      | task c =>
          have hanswer : (taskMachine settings agent.orchestrator).answer i c ch.toTaskChoice w =
            some (r, w') := h
          exact unchanged_of_answer hw hpermits.1 hpermits.2 hanswer
      | readEvents taskId =>
          have hsame := world_of_readEvents h
          exact hsame ▸ .of_eq rfl rfl

end Steps

/-- Admissible requests whose tasks belong to their merchants. -/
def attributed (o : Owners) : Policy ApiCall World ApiChoice ApiRequest TaskEnvironment where
  start _ q _ := q.Admissible ∧ ∀ x, q.creation = some x → o.task x.2 = some x.1

/-- What a process ends with: an endpoint with what belongs to its merchant. -/
def Ends (o : Owners) : ApiRequest → List ApiExchange → ApiResult → Prop
  | .request merchantId endpoint, past, result =>
      endpoint.Confined (o.answered merchantId past) result
  | .handleMessage _, _, _ | .startup, _, _ => True

section Run

variable {o : Owners} {codec : EventCodec} {settings : Settings} {agent : AgentSettings}

/-- A program of the workers, in the contract. -/
theorem meets_of_keeps {q : ApiRequest} (hq : ∀ c, o.May c → q.Permits o (.task c))
    {p : TaskProgram Unit} (hp : o.Keeps p fun _ => True) :
    (liftTask p >>= fun _ => (pure .handled : ApiProgram ApiResult)).Meets (isolation o).assume
      ((isolation o).guarantee q) (fun _ _ => True) (fun _ _ => True) [] := by
  apply Program.Meets.handle
  have hmeets : p.Meets o.Gives (fun _ c => q.Permits o (.task c)) (fun _ _ => True)
      (fun _ _ => True) [] :=
    (Program.Meets.of_follows hp).weaken fun _ => hq
  exact Program.Meets.lift (f := ApiCall.task) (A := (isolation o).assume)
    (G := (isolation o).guarantee q) (Q := fun _ _ => True) (E := fun _ _ => True) hmeets

/-- Every process keeps the contract, and ends with what belongs to its merchant. -/
theorem meets_program (hempty : o.task "" = none) (hseeds : o.Seeds settings.catalog)
    {q : ApiRequest} {w : World} {i : ℕ} (hstart : (attributed o).start i q w) :
    (q.program codec settings agent).Meets (isolation o).assume ((isolation o).guarantee q)
      (Ends o q) (fun _ _ => True) [] := by
  obtain ⟨⟨hcolon, -⟩, hcreation⟩ := hstart
  cases q with
  | request merchantId endpoint =>
      rw [ApiRequest.merchant, Option.all_some, decide_eq_true_eq] at hcolon
      exact meets_endpoint hempty hcolon hcreation
  | handleMessage body =>
      exact meets_of_keeps (q := .handleMessage body) (fun _ hc => hc)
        (Owners.keeps_handleMessage settings body)
  | startup =>
      apply meets_of_keeps (q := .startup) (fun _ hc => hc)
      exact (Owners.keeps_perform (by exact hseeds)).mono fun _ _ => trivial

theorem isolation_sound (hempty : o.task "" = none) (hseeds : o.Seeds settings.catalog) :
    (isolation o).Sound (apiMachine codec settings agent) (attributed o) where
  start i q w w' hw hstart haccept := by
    refine ⟨?_, ?_⟩
    · cases q with
      | handleMessage body => exact hw.accept haccept
      | request merchantId endpoint | startup =>
          cases haccept
          exact hw
    · exact (meets_program hempty hseeds hstart).mono (fun _ _ _ => trivial) fun _ _ _ => trivial
  call i q past c ch w r w' hw _ hpermits h := by
    cases c with
    | task c =>
        have hanswer : (taskMachine settings agent.orchestrator).answer i c ch.toTaskChoice w =
          some (r, w') := h
        have hmay : o.May c := by
          cases q with
          | request merchantId endpoint => exact hpermits.1
          | handleMessage body | startup => exact hpermits
        exact ⟨hw.gives hanswer, hw.answer hmay hanswer⟩
    | readEvents taskId => exact ⟨trivial, world_of_readEvents h ▸ hw⟩
  crash i w hw _ := hw.requeue
  environment e w w' hw _ he := hw.environment he

/-- What holds from a state of a run to its end: the database grows, and the events stay. -/
def Lasts (w w' : World) : Prop :=
  w.ledger.Grows w'.ledger ∧ ∀ entry ∈ w.events, entry ∈ w'.events

instance : IsPreorder World Lasts where
  refl w := ⟨.refl w.ledger, fun _ h => h⟩
  trans _ _ _ h h' := ⟨h.1.trans h'.1, fun entry hentry => h'.2 entry (h.2 entry hentry)⟩

/-- A call appends to the events or leaves them. -/
theorem events_of_answer {orchestrator : Orchestrator} {i : ℕ} {c : TaskCall} {ch : TaskChoice}
    {w w' : World} {r : Except Exn c.Reply}
    (h : (taskMachine settings orchestrator).answer i c ch w = some (r, w')) :
    ∀ entry ∈ w.events, entry ∈ w'.events := by
  intro entry hentry
  rcases answer_cases h with rfl | ⟨reply, hrun⟩
  · exact hentry
  cases c with
  | appendEvent taskId event =>
      cases hrun
      exact List.mem_append_left _ hentry
  | setNew task | createScript task key | transitionTask task status | acquireTaskLease taskId ttl
  | releaseTaskLease taskId =>
      simp only [TaskCall.execute] at hrun
      repeat' split at hrun
      all_goals
        cases hrun
        exact hentry
  | reject requeue =>
      cases hrun
      cases requeue <;> simp [World.deadLetter, World.requeue] <;> split <;> exact hentry
  | resolveProduct merchantId query | getMetrics merchantId productId | ledger lc
  | graph threadId lc =>
      obtain ⟨items, -, heq⟩ := exists_of_map_ok hrun
      cases heq
      exact hentry
  | _ =>
      cases hrun
      exact hentry

theorem lasts_of_answer {i : ℕ} {c : ApiCall} {ch : ApiChoice} {w w' : World}
    {r : Except Exn c.Reply}
    (h : (apiMachine codec settings agent).answer i c ch w = some (r, w')) :
    Lasts w w' := by
  cases c with
  | task c =>
      have hanswer : (taskMachine settings agent.orchestrator).answer i c ch.toTaskChoice w =
        some (r, w') := h
      refine ⟨?_, events_of_answer hanswer⟩
      rcases writes_of_answer hanswer with hsame | ⟨lc, -, hwrites⟩
      · exact hsame ▸ .refl _
      · exact hwrites.grows
  | readEvents taskId => exact world_of_readEvents h ▸ refl_of Lasts w

theorem lasts_of_step {a : ApiAction} {c c' : ApiConfig}
    (step : (apiMachine codec settings agent).step a c = some c') : Lasts c.state c'.state := by
  cases a with
  | call i ch =>
      obtain ⟨q, cl, k, r, w, -, hanswer, rfl⟩ := Machine.step_call _ step
      exact lasts_of_answer hanswer
  | start i q =>
      obtain ⟨w, -, haccept, rfl⟩ := Machine.step_start _ step
      cases q with
      | handleMessage body =>
          refine ⟨ledger_of_accept haccept ▸ .refl _, ?_⟩
          simp only [apiMachine, ApiRequest.accept, TaskRequest.accept] at haccept
          split at haccept
          · split at haccept <;> cases haccept
            exact fun _ h => h
          · cases haccept
            exact fun _ h => h
      | request merchantId endpoint | startup =>
          cases haccept
          exact refl_of Lasts _
  | crash i =>
      obtain ⟨q, p, -, rfl⟩ := Machine.step_crash _ step
      refine ⟨World.requeue_ledger .. ▸ .refl _, ?_⟩
      change ∀ entry ∈ c.state.events, entry ∈ (c.state.requeue i).events
      unfold World.requeue
      split <;> exact fun _ h => h
  | environment e =>
      obtain ⟨w, he, rfl⟩ := Machine.step_environment _ step
      refine ⟨ledger_of_environment he ▸ .refl _, ?_⟩
      cases e with
      | duplicate payload =>
          simp only [apiMachine, TaskEnvironment.apply] at he
          split at he <;> cases he
          exact fun _ h => h
      | redeliver j =>
          cases he
          change ∀ entry ∈ c.state.events, entry ∈ (c.state.requeue j).events
          unfold World.requeue
          split <;> exact fun _ h => h
      | _ =>
          cases he
          exact fun _ h => h

variable {h : List (ApiConfig × ApiAction)} {c : ApiConfig}
  {π : Policy ApiCall World ApiChoice ApiRequest TaskEnvironment} {w₀ : World}

/-- An event that was read is in the stream of its task. -/
theorem event_of_answered (run : (apiMachine codec settings agent).Run π (.initial w₀) h c) {i : ℕ}
    {merchantId taskId : String} {event : TaskEvent}
    (hread : (o.answered merchantId ((apiMachine codec settings agent).transcript i h)).event taskId
      event) : (taskId, event) ∈ c.state.events := by
  obtain ⟨batch, hmem, hevent⟩ := hread
  obtain ⟨ch, w, w', hanswer, hlasts⟩ := run.exchanged (fun _ _ _ => lasts_of_step) hmem
  have hrun := Ending.answer_ok (Option.some.inj hanswer)
  simp only [ApiCall.execute, Except.ok.injEq, Prod.mk.injEq] at hrun
  obtain ⟨rfl, rfl⟩ := hrun
  have hstored := List.mem_of_mem_drop (List.mem_of_mem_take hevent)
  exact hlasts.2 _ (World.mem_eventsOf.1 hstored)

/-- An approval that was recorded or found is a row of its task. -/
theorem approval_of_answered (run : (apiMachine codec settings agent).Run π (.initial w₀) h c)
    (hw : o.Owned c.state) {i : ℕ} {merchantId taskId approvalId : String}
    (hread : (o.answered merchantId ((apiMachine codec settings agent).transcript i h)).approval
      taskId approvalId) :
    ∃ row ∈ c.state.ledger.approvals, row.approvalId = approvalId ∧ row.taskId = taskId ∧
      row.merchantId = merchantId := by
  obtain ⟨howned, past, happroves, hpast⟩ := hread
  have hrow : ∃ row ∈ c.state.ledger.approvals, row.approvalId = approvalId ∧
      row.taskId = taskId := by
    have hread : ∀ {lc : LedgerCall} {reply : lc.Reply},
        (⟨.ledger lc, .ok reply⟩ : TaskExchange) ∈ past → ∃ token db db',
          lc.execute token db = .ok (reply, db') ∧ db'.Grows c.state.ledger := by
      intro lc reply he
      have hmem : Program.exchangeLift ApiCall.task (⟨.ledger lc, .ok reply⟩ : TaskExchange) ∈
          (apiMachine codec settings agent).transcript i h := hpast ▸ List.mem_map_of_mem he
      obtain ⟨ch, w, w', hanswer, hlasts⟩ := run.exchanged (fun _ _ _ => lasts_of_step) hmem
      have hexecute : (TaskCall.ledger lc).execute settings i ch.toTaskChoice w = .ok (reply, w') :=
        Ending.answer_ok (Option.some.inj hanswer)
      obtain ⟨result, hresult, heq⟩ := exists_of_map_ok hexecute
      cases heq
      exact ⟨ch.token, w.ledger, result.2, hresult, hlasts.1⟩
    rcases happroves with ⟨planId, planVersion, actionId, decision, he⟩ | ⟨row, he, hid⟩
    · obtain ⟨token, db, db', hexecute, hgrows⟩ := hread he
      obtain ⟨plan, -, -, -, -, -, -, ⟨rfl, row, hrow, htask, -, hid⟩ |
        ⟨rfl, approvals, rfl, hinsert⟩⟩ := recordApproval_ok hexecute
      · exact ⟨row, hgrows.approvals row hrow, hid, htask⟩
      · exact ⟨_, hgrows.approvals _ ((Table.mem_of_insert? hinsert).2 (.inr rfl)), rfl, rfl⟩
    · obtain ⟨token, db, db', hexecute, hgrows⟩ := hread he
      simp only [LedgerCall.execute, Except.ok.injEq, Prod.mk.injEq] at hexecute
      obtain ⟨hfound, rfl⟩ := hexecute
      obtain ⟨hrow, htask⟩ := mem_of_getApprovalForTask hfound
      exact ⟨row, hgrows.approvals row hrow, hid, htask⟩
  obtain ⟨row, hmem, hid, htask⟩ := hrow
  refine ⟨row, hmem, hid, htask, ?_⟩
  have hmerchant := hw.rows.approvals row hmem
  rw [htask, howned, Option.some.injEq] at hmerchant
  exact hmerchant.symm

/-- The task of a creation belongs to the merchant that has made it. -/
theorem owner_of_creation (catalog : Catalog) (hapart : TokensApart h) {x : String × String}
    (hx : x ∈ creations h) : (owners catalog h).task x.2 = some x.1 := by
  cases hfind : (creations h).find? fun y => y.2 == x.2 with
  | none =>
      have hnone := List.find?_eq_none.1 hfind x hx
      simp at hnone
  | some y =>
      have hsame : y.2 = x.2 := by simpa using List.find?_some hfind
      change ((creations h).find? fun y => y.2 == x.2).map Prod.fst = some x.1
      rw [hfind, Option.map_some, hapart y (List.mem_of_find?_eq_some hfind) x hx hsame]

theorem mem_creations {v : ApiConfig × ApiAction} {i : ℕ} {q : ApiRequest} {x : String × String}
    (hv : v ∈ h) (hstart : v.2 = .start i q) (hx : q.creation = some x) : x ∈ creations h :=
  List.mem_filterMap.2 ⟨v, hv, by rw [hstart]; exact hx⟩

/-- No task has an empty identifier. -/
theorem owner_empty (catalog : Catalog)
    (run : (apiMachine codec settings agent).Run colonFree (.initial w₀) h c) :
    (owners catalog h).task "" = none := by
  rw [owners, Option.map_eq_none_iff, List.find?_eq_none]
  intro x hx
  obtain ⟨v, hv, hcreation⟩ := List.mem_filterMap.1 hx
  obtain ⟨h₁, h₂, rfl⟩ := List.append_of_mem hv
  obtain ⟨-, permitted, -⟩ := run.before rfl
  obtain ⟨c₁, a⟩ := v
  cases a with
  | start i q =>
      have hadmissible : q.Admissible := permitted
      have hne := hadmissible.2
      rw [show q.creation = some x from hcreation, Option.all_some] at hne
      simpa using hne
  | call i ch | crash i | environment e => cases hcreation

theorem owners_seeds (catalog : Catalog) : (owners catalog h).Seeds catalog := by
  intro productId row hfind
  change (catalog.products.find? fun p => p.productId == productId).map _ = some row.merchantId
  rw [hfind, Option.map_some]

/-- A run of admissible requests attributes each task to its merchant. -/
theorem attributed_run (hapart : TokensApart h)
    (run : (apiMachine codec settings agent).Run colonFree (.initial w₀) h c) :
    (apiMachine codec settings agent).Run (attributed (owners settings.catalog h)) (.initial w₀)
      h c := by
  apply run.restrict
  intro v hv permitted
  obtain ⟨c₁, a⟩ := v
  cases a with
  | start i q =>
      refine ⟨permitted, ?_⟩
      intro x hx
      exact owner_of_creation settings.catalog hapart (mem_creations hv rfl hx)
  | call i ch =>
      simp only [Policy.permits]
      split <;> trivial
  | crash i | environment e => trivial

/-- A request that is authenticated as a merchant changes nothing of another merchant, and
returns what belongs to its own merchant only. -/
theorem merchant_isolation
    (run : (apiMachine codec settings agent).Run colonFree (.initial World.fresh) h c)
    (hapart : TokensApart h) :
    (∀ merchantId a c', ActsFor merchantId c a →
      (apiMachine codec settings agent).step a c = some c' →
        ForeignUnchanged merchantId c.state c'.state) ∧
    ∀ i merchantId endpoint result,
      c.pool i = .running (.request merchantId endpoint) (.pure result) →
        endpoint.Confined ((owners settings.catalog h).share c.state merchantId) result := by
  have hempty := owner_empty settings.catalog run
  have run' := attributed_run hapart run
  have hsound : (isolation (owners settings.catalog h)).Sound (apiMachine codec settings agent)
      (attributed (owners settings.catalog h)) := isolation_sound hempty (owners_seeds _)
  have hholds := hsound.run Owners.Owned.fresh run'
  constructor
  · intro merchantId a c' hacts step
    cases a with
    | call i ch =>
        obtain ⟨q, p, hslot, hq⟩ := hacts
        obtain ⟨q', cl, k, r, w, hcalling, hanswer, rfl⟩ := Machine.step_call _ step
        rw [hslot, Slot.running.injEq] at hcalling
        obtain ⟨rfl, rfl⟩ := hcalling
        exact unchanged_of_permits hq hholds.inv (hholds.guarantee hslot) hanswer
    | start i q =>
        obtain ⟨w, -, haccept, rfl⟩ := Machine.step_start _ step
        cases q with
        | request merchant endpoint =>
            cases haccept
            exact .of_eq rfl rfl
        | handleMessage body | startup => cases hacts
    | crash i =>
        obtain ⟨q, p, -, rfl⟩ := Machine.step_crash _ step
        exact .of_eq (World.requeue_records ..) (World.requeue_ledger ..)
    | environment e => exact hacts.elim
  · intro i merchantId endpoint result hslot
    have hends := hsound.post (fun i q w hstart => meets_program hempty (owners_seeds _) hstart)
      Owners.Owned.fresh run' i _ _ hslot
    exact Endpoint.Confined.mono (fun _ _ => event_of_answered run)
      (fun _ _ => approval_of_answered run hholds.inv) hends

end Run

instance (i : ℕ) (q : ApiRequest) (w : World) : Decidable (colonFree.start i q w) :=
  inferInstanceAs (Decidable q.Admissible)

instance (i : ℕ) (c : ApiCall) (ch : ApiChoice) (w : World) : Decidable (colonFree.call i c ch w) :=
  .isTrue trivial

instance (i : ℕ) (w : World) : Decidable (colonFree.crash i w) := .isTrue trivial

instance (e : TaskEnvironment) (w : World) : Decidable (colonFree.environment e w) :=
  .isTrue trivial

/-- What a request has raised. -/
def raisedBy (c : ApiConfig) (i : ℕ) : Option Exn :=
  match c.pool i with
  | .running _ (.throw e) => some e
  | _ => none

/-- The types of the events that a trace has returned. -/
def tracedBy (c : ApiConfig) (i : ℕ) : Option (List String) :=
  match c.pool i with
  | .running _ (.pure (.trace _ events)) => some (events.map TaskEvent.eventType)
  | _ => none

/-- A creation with a key that two merchants both use. -/
def demoKeyedCreation (token : String) : Endpoint :=
  .createTask { prompt := "Why did sales drop?" } (some "retry-01")
    { taskToken := token, sessionToken := "session-1", traceToken := "trace-1" }

/-- Two merchants create a task each; the second one asks for the task of the first, which
reads its own trace. -/
def demoIsolationActions : List ApiAction :=
  [.start 0 .startup, .call 0 {}, .start 1 (.request "shop-a" (demoKeyedCreation "task-1"))] ++
    List.replicate 3 (.call 1 {}) ++ [.start 2 (.request "shop-b" (demoKeyedCreation "task-2"))] ++
    List.replicate 3 (.call 2 {}) ++ [.start 3 (.request "shop-b" (.getTask "task-1")), .call 3 {},
      .start 4 (.request "shop-a" (.getTaskTrace "task-1")), .call 4 {}, .call 4 {}]

theorem merchant_isolation_demo : ∃ h c,
    (apiMachine demoEventCodec demoSettings demoAgent).Run colonFree (.initial World.fresh) h c ∧
      creations h = [("shop-a", "task-1"), ("shop-b", "task-2")] ∧
      raisedBy c 3 = some (.appError "MERCHANT_FORBIDDEN" "不能访问其他商家的任务" 403) ∧
      tracedBy c 4 = some ["task.queued"] ∧
      (∀ merchantId a c', ActsFor merchantId c a →
        (apiMachine demoEventCodec demoSettings demoAgent).step a c = some c' →
          ForeignUnchanged merchantId c.state c'.state) ∧
      ∀ i merchantId endpoint result,
        c.pool i = .running (.request merchantId endpoint) (.pure result) →
          endpoint.Confined ((owners demoSettings.catalog h).share c.state merchantId) result := by
  have hend : ((apiMachine demoEventCodec demoSettings demoAgent).exec colonFree
      demoIsolationActions (.initial .fresh)).map (fun c => (raisedBy c 3, tracedBy c 4)) =
        some (some (.appError "MERCHANT_FORBIDDEN" "不能访问其他商家的任务" 403),
          some ["task.queued"]) := by decide
  have hcreations : creations ((apiMachine demoEventCodec demoSettings demoAgent).trail
      demoIsolationActions (.initial .fresh)) = [("shop-a", "task-1"), ("shop-b", "task-2")] := by
    decide
  obtain ⟨c, hc, hanswers⟩ := Option.map_eq_some_iff.1 hend
  have run := Machine.Run.follow .nil hc
  rw [List.nil_append] at run
  have hapart : TokensApart ((apiMachine demoEventCodec demoSettings demoAgent).trail
      demoIsolationActions (.initial .fresh)) := by
    rw [TokensApart, hcreations]
    decide
  rw [Prod.mk.injEq] at hanswers
  exact ⟨_, c, run, hcreations, hanswers.1, hanswers.2, merchant_isolation run hapart⟩

end CommerceAgent
