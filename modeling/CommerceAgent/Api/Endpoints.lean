import CommerceAgent.Api.Router
import CommerceAgent.Api.Workers

/-!
# The endpoints keep to the merchant of a request

Whatever the answers are, as long as they come from an owned world, an endpoint writes
records of its own merchant only, and what it returns belongs to this merchant. The check
of `get_task_for_merchant` is behind every record that is written or returned, the ones
that are read again after a lost race too; the record that `create_task` finds under an
idempotency key is the merchant's because the key is.
-/

namespace CommerceAgent

open Effects

/-- The call writes what belongs to the merchant only. -/
def TaskCall.For (merchantId : String) : TaskCall → Prop
  | .setNew task | .createScript task _ | .saveTask _ task | .transitionTask task _ =>
      task.merchantId = merchantId
  | .resolveProduct merchant _ | .ledger (.recordApproval _ merchant ..) => merchant = merchantId
  | .ledger (.getApprovalForTask _) => True
  | .deleteKey _ | .getTask .. | .hasTaskLease _ | .appendEvent .. | .publish _ => True
  | _ => False

namespace Owners

variable (o : Owners) (merchantId : String) {α β : Type}

/-- The program, run for the merchant after the exchanges `past`, writes what belongs to the
merchant, and ends in `Q`. -/
abbrev Serves (p : TaskProgram α) (Q : List TaskExchange → α → Prop) (past : List TaskExchange) :
    Prop :=
  p.Meets o.Gives (fun _ c => o.May c ∧ c.For merchantId) Q (fun _ _ => True) past

/-- A record of the merchant. -/
structure Of (task : TaskRecord) : Prop where
  merchant : task.merchantId = merchantId
  record : o.Record task

section Rules

variable {o} {merchantId} {Q : List TaskExchange → β → Prop} {past : List TaskExchange}

theorem serves_call {c : TaskCall} {f : c.Reply → TaskProgram β} {h : Exn → TaskProgram β}
    (hmay : o.May c) (hfor : c.For merchantId)
    (hf : ∀ b, o.Gives c (.ok b) → o.Serves merchantId (f b) Q (past ++ [⟨c, .ok b⟩]))
    (hh : ∀ e, o.Serves merchantId (h e) Q (past ++ [⟨c, .error e⟩])) :
    o.Serves merchantId (c.perform.handle f h) Q past :=
  Program.meets_handle.2 ⟨⟨hmay, hfor⟩, hf, fun e _ => hh e⟩

theorem serves_perform {c : TaskCall} (hmay : o.May c) (hfor : c.For merchantId) :
    o.Serves merchantId c.perform (fun _ _ => True) past :=
  Program.meets_perform.2 ⟨⟨hmay, hfor⟩, fun _ _ => trivial, fun _ _ => trivial⟩

theorem Serves.bind {p : TaskProgram α} {W : List TaskExchange → α → Prop}
    {f : α → TaskProgram β} (hp : o.Serves merchantId p W past)
    (hf : ∀ past a, W past a → o.Serves merchantId (f a) Q past) :
    o.Serves merchantId (p >>= f) Q past :=
  Program.Meets.handle (hp.mono hf fun _ _ _ => trivial)

theorem Of.with {task task' : TaskRecord} (h : o.Of merchantId task)
    (htask : task'.taskId = task.taskId) (hmerchant : task'.merchantId = task.merchantId)
    (hshown : ∀ x, task'.interaction = some x → o.Shows merchantId x) : o.Of merchantId task' :=
  ⟨hmerchant.trans h.merchant,
    h.record.with htask hmerchant fun x hx => h.merchant ▸ hshown x hx⟩

end Rules

section Service

variable {o} {merchantId} {past : List TaskExchange} {task : TaskRecord}

theorem serves_getTaskForMerchant (site : Site) (taskId : String) (past : List TaskExchange) :
    o.Serves merchantId (getTaskForMerchant site taskId merchantId)
      (fun _ task => task.taskId = taskId ∧ o.Of merchantId task) past := by
  rw [getTaskForMerchant, getTask, Program.bind_eq, Program.bind_eq, Program.handle_handle]
  apply serves_call (by trivial) (by trivial)
  · intro found hfound
    cases found with
    | none => trivial
    | some task =>
        change o.Serves _ (if _ then _ else _) _ _
        split
        · trivial
        · next hmerchant => exact ⟨hfound.1, not_not.1 hmerchant, hfound.2⟩
  · exact fun _ => trivial

/-- A record of the merchant is published, or stored as failed. -/
theorem serves_publishOrFail (h : o.Of merchantId task) (site : Site) (payload : QueueMessage)
    (errorMessage : String) {interaction : Option Interaction}
    (hshown : ∀ x, interaction = some x → o.Shows merchantId x)
    {report : TaskProgram Unit}
    (hreport : ∀ past, o.Serves merchantId report (fun _ _ => True) past) :
    o.Serves merchantId (publishOrFail site task payload errorMessage interaction report)
      (fun _ _ => True) past := by
  have hfailed : o.Of merchantId (task.publishFailed errorMessage interaction) :=
    h.with rfl rfl hshown
  apply serves_call (by trivial) (by trivial)
  · exact fun _ _ => trivial
  · intro _
    apply serves_call (by exact hfailed.record) (by exact hfailed.merchant)
    · exact fun _ _ => Serves.bind (hreport _) fun _ _ _ => trivial
    · exact fun _ => trivial

/-- What an operation does with the record that it has stored. -/
theorem serves_enqueue (h : o.Of merchantId task) (site : Site) (event : TaskEvent)
    (payload : QueueMessage) (errorMessage : String) {interaction : Option Interaction}
    (hshown : ∀ x, interaction = some x → o.Shows merchantId x)
    {report : TaskProgram Unit}
    (hreport : ∀ past, o.Serves merchantId report (fun _ _ => True) past)
    {f : Unit → TaskProgram α} {V : α → Prop}
    (hf : ∀ a past, o.Serves merchantId (f a) (fun _ a => V a) past) :
    o.Serves merchantId ((TaskCall.appendEvent task.taskId event).perform >>= fun _ =>
      publishOrFail site task payload errorMessage interaction report >>= f) (fun _ a => V a)
      past := by
  apply serves_call (by trivial) (by trivial)
  · intro _ _
    apply (serves_publishOrFail h site payload errorMessage hshown hreport).bind
    exact fun past a _ => hf a past
  · exact fun _ => trivial

/-- The record that `create_task` finds under the key of a merchant is the merchant's. -/
theorem serves_createTaskRecord (hempty : o.task "" = none) (h : o.Of merchantId task)
    (hcolon : ':' ∉ merchantId.toList) (client : Option String) :
    ∀ depth past, o.Serves merchantId (createTaskRecord task (merchantKey merchantId client) depth)
      (fun _ result => o.Of merchantId result.1) past := by
  intro depth
  induction depth with
  | zero => exact fun _ => trivial
  | succ depth ih =>
      intro past
      have hset : o.Serves merchantId ((TaskCall.setNew task).perform >>= fun created =>
          (pure (task, created) : TaskProgram (TaskRecord × Bool)))
            (fun _ result => o.Of merchantId result.1) past :=
        serves_call (by exact h.record) (by exact h.merchant) (fun _ _ => h) fun _ => trivial
      unfold createTaskRecord
      split
      · exact hset
      · exact hset
      · next key _ hkey =>
          have hclient : ∃ client, key = merchantId ++ ":" ++ client := by
            unfold merchantKey at hkey
            split at hkey <;> cases hkey
            exact ⟨_, rfl⟩
          obtain ⟨client, rfl⟩ := hclient
          have howned : o.task task.taskId = some merchantId :=
            h.record.owned.trans (congrArg some h.merchant)
          apply serves_call
          · exact ⟨h.record, merchantId, client, hcolon, rfl, howned⟩
          · exact h.merchant
          · intro reply hreply
            obtain ⟨resolved, created⟩ := reply
            cases created with
            | true => exact h
            | false =>
                apply serves_call (by trivial) (by trivial)
                · intro found hfound
                  cases found with
                  | some existing =>
                      have hexisting : o.task resolved = some existing.merchantId :=
                        hfound.1 ▸ hfound.2.owned
                      rcases hreply with rfl | hmapped
                      · rw [hempty] at hexisting
                        cases hexisting
                      · have hmerchant := (hmapped.owned hcolon).symm.trans hexisting
                        exact ⟨(Option.some.inj hmerchant).symm, hfound.2⟩
                  | none =>
                      apply serves_call (by trivial) (by trivial)
                      · exact fun _ _ => hkey ▸ ih _
                      · exact fun _ => trivial
                · exact fun _ => trivial
          · exact fun _ => trivial

theorem serves_createTask (hempty : o.task "" = none) (hcolon : ':' ∉ merchantId.toList)
    (payload : CreateTaskRequest) (client : Option String) (context : CreationContext)
    (howned : o.task context.taskToken = some merchantId) :
    o.Serves merchantId (createTask (payload.routed merchantId client context))
      (fun _ result => o.Of merchantId result.1) past := by
  have hrecord : o.Of merchantId (payload.routed merchantId client context).record :=
    ⟨rfl, howned, nofun⟩
  apply (serves_createTaskRecord hempty hrecord hcolon client context.stackDepth past).bind
  intro past result hresult
  obtain ⟨resolved, created⟩ := result
  cases created with
  | false => exact hresult
  | true =>
      apply serves_enqueue hrecord
      · exact nofun
      · exact fun _ => serves_perform (by trivial) (by trivial)
      · exact fun _ _ => hrecord

theorem serves_submitInput (taskId productId : String) :
    o.Serves merchantId (submitInput taskId merchantId productId)
      (fun _ task => (task.taskId = taskId ∧ o.Of merchantId task) ∧
        task.productId = some productId ∧ o.product productId = some merchantId) past := by
  apply (serves_getTaskForMerchant .submitInput taskId past).bind
  intro past task htask
  obtain ⟨htaskId, hof⟩ := htask
  split
  · trivial
  apply serves_call (by trivial) (by exact hof.merchant)
  · intro items hitems
    split
    · trivial
    next hany =>
    have hproduct : o.product productId = some merchantId := by
      simp only [Bool.not_eq_true', Bool.not_eq_false, List.any_eq_true, beq_iff_eq] at hany
      obtain ⟨item, hitem, rfl⟩ := hany
      rw [← hof.merchant]
      exact hitems item hitem
    have hinput : o.Of merchantId (task.withInput productId) := hof.with rfl rfl nofun
    apply serves_call (by exact hinput.record) (by exact hinput.merchant)
    · intro transitioned _
      cases transitioned with
      | false =>
          apply (serves_getTaskForMerchant .submitInput taskId _).bind
          intro past current hcurrent
          split
          · next hsame => exact ⟨hcurrent, hsame.1, hproduct⟩
          · trivial
      | true =>
          apply serves_enqueue hinput
          · intro x hx
            cases hx
            trivial
          · exact fun _ => trivial
          · exact fun _ _ => ⟨⟨htaskId, hinput⟩, rfl, hproduct⟩
    · exact fun _ => trivial
  · exact fun _ => trivial

theorem serves_resumeTask (taskId : String) :
    o.Serves merchantId (resumeTask taskId merchantId)
      (fun _ task => task.taskId = taskId ∧ o.Of merchantId task) past := by
  apply (serves_getTaskForMerchant .resumeTask taskId past).bind
  intro past original horiginal
  obtain ⟨htaskId, hof⟩ := horiginal
  split
  · trivial
  have hstale : o.Serves merchantId (staleRunning original) (fun _ _ => True) past := by
    unfold staleRunning
    split
    · exact serves_call (by trivial) (by trivial) (fun _ _ => trivial) fun _ => trivial
    · trivial
  apply hstale.bind
  intro past stale _
  split
  · trivial
  have hresumed : o.Of merchantId original.resumed := hof.with rfl rfl nofun
  apply serves_call (by exact hresumed.record) (by exact hresumed.merchant)
  · intro _ _
    apply serves_enqueue hresumed
    · intro x hx
      rcases ServiceOutline.resumes_resumed original x hx with hresumes | hsame
      · exact shows_of_resumes hresumes
      · exact hof.merchant ▸ hof.record.shown x (hsame.trans hx)
    · exact fun _ => trivial
    · exact fun _ _ => ⟨htaskId, hresumed⟩
  · exact fun _ => trivial

/-- The approval is one that the repository has recorded or found for the task. -/
def Approves (past : List TaskExchange) (taskId merchantId approvalId : String) : Prop :=
  (∃ planId planVersion actionId decision, (⟨.ledger (.recordApproval taskId merchantId planId
    planVersion actionId decision), .ok approvalId⟩ : TaskExchange) ∈ past) ∨
  ∃ row : ApprovalRow, (⟨.ledger (.getApprovalForTask taskId), .ok (some row)⟩ : TaskExchange) ∈
    past ∧ row.approvalId = approvalId

/-- What `submit_approval` returns for a merchant and a task. -/
abbrev Approved (o : Owners) (merchantId taskId : String) (past : List TaskExchange)
    (result : TaskRecord × String) : Prop :=
  (result.1.taskId = taskId ∧ o.Of merchantId result.1) ∧
    Approves past taskId merchantId result.2

theorem serves_repeatedApproval (request : SubmitApproval) (h : o.Of merchantId task) :
    o.Serves merchantId (repeatedApproval request task)
      (o.Approved merchantId task.taskId) past := by
  apply serves_call (by trivial) (by trivial)
  · intro existing _
    cases existing with
    | none => trivial
    | some row =>
        change o.Serves _ (if _ then _ else _) _ _
        split
        · exact ⟨⟨rfl, h⟩, .inr ⟨row, by simp, rfl⟩⟩
        · trivial
  · exact fun _ => trivial

/-- What follows in `submit_approval` when the approval is recorded. -/
theorem serves_approve (request : SubmitApproval) (h : o.Of merchantId task)
    (htask : task.taskId = request.taskId) (hmerchant : request.merchantId = merchantId)
    (approvalId : String) (requeued : Bool) :
    o.Serves merchantId (do
      let transitioned ← (TaskCall.transitionTask (task.withApproval approvalId)
        (if requeued then .failed else .awaitingApproval)).perform
      if !transitioned then racedApproval request approvalId
      else enqueueApproval request (task.withApproval approvalId) approvalId requeued)
      (fun _ result => (result.1.taskId = request.taskId ∧ o.Of merchantId result.1) ∧
        result.2 = approvalId) past := by
  have happroved : o.Of merchantId (task.withApproval approvalId) := h.with rfl rfl nofun
  apply serves_call (by exact happroved.record) (by exact happroved.merchant)
  · intro transitioned _
    cases transitioned with
    | false =>
        subst hmerchant
        apply (serves_getTaskForMerchant .submitApproval request.taskId _).bind
        intro past current hcurrent
        split
        · exact ⟨hcurrent, rfl⟩
        · trivial
    | true =>
        apply serves_enqueue happroved
        · intro x hx
          cases hx
          trivial
        · exact fun _ => trivial
        · intro _ past
          have hreport : o.Serves merchantId
              (reportRequeued (task.withApproval approvalId) approvalId requeued)
              (fun _ _ => True) past := by
            unfold reportRequeued
            split
            · exact serves_perform (by trivial) (by trivial)
            · trivial
          exact hreport.bind fun _ _ _ => ⟨⟨htask, happroved⟩, rfl⟩
  · exact fun _ => trivial

theorem serves_submitApproval (request : SubmitApproval)
    (hmerchant : request.merchantId = merchantId) :
    o.Serves merchantId (submitApproval request) (o.Approved merchantId request.taskId) past := by
  subst hmerchant
  apply (serves_getTaskForMerchant .submitApproval request.taskId past).bind
  intro past task htask
  obtain ⟨htaskId, hof⟩ := htask
  change o.Serves _ (if task.status ∈ _ then _ else _) _ _
  split
  · exact htaskId ▸ serves_repeatedApproval request hof
  split
  · trivial
  split
  · trivial
  apply serves_call (by trivial) (by exact hof.merchant)
  · intro approvalId _
    apply (Program.Meets.remember (serves_approve request hof htaskId rfl approvalId _)
      (List.mem_append_right _ (List.mem_singleton_self _))).mono
    · rintro past result ⟨⟨hresult, rfl⟩, hrecorded⟩
      refine ⟨hresult, .inl ⟨request.planId, request.planVersion, request.actionId,
        request.decision, ?_⟩⟩
      rw [← htaskId, ← hof.merchant]
      exact hrecorded
    · exact fun _ _ _ => trivial
  · exact fun _ => trivial

end Service

end Owners

end CommerceAgent
