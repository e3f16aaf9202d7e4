import CommerceAgent.Commerce.Interleaving
import CommerceAgent.Effects.Attempt

/-!
# Concurrent plans for one task

`create_plan` looks for the plan of its task outside a write transaction and inserts one
afterwards. When another call has inserted a plan for the task in between, the `UNIQUE`
constraint on `task_id` refuses the second row, and the call raises instead of returning
the plan. In the runs in which no `INSERT` meets a row of its task, and in no others, every
call returns the row of its task.
-/

namespace CommerceAgent

open Effects Relational

abbrev LedgerConfig := Config Exn LedgerCall LedgerCall.Reply Ledger LedgerRequest LedgerResult

abbrev LedgerAction := Action LedgerChoice LedgerRequest Empty

abbrev LedgerPolicy := Policy LedgerCall Ledger LedgerChoice LedgerRequest Empty

/-- The statements of `create_plan` meet with no fault of the database, no plan identifier
is drawn twice, and the product belongs to the merchant. -/
def planPolicy : LedgerPolicy where
  call _ c ch db :=
    match c with
    | .selectPlanOfTask _ | .selectProduct .. => ch.ending = .done
    | .insertPlan _ => ch.ending = .done ∧ ∀ plan ∈ db.plans.rows, plan.planId ≠ ch.token
    | _ => True
  start _ q db :=
    match q with
    | .createPlan _ merchantId productId _ =>
        ∃ row ∈ db.products.rows, row.merchantId = merchantId ∧ row.productId = productId
    | _ => True

/-- The step is the `INSERT` of a plan whose task has a plan already. -/
def Collides (v : LedgerConfig × LedgerAction) : Prop :=
  ∃ i ch q content k, v.2 = .call i ch ∧
    v.1.pool i = .running q (.call (.insertPlan content) k) ∧
      ∃ plan ∈ v.1.state.plans, plan.taskId = content.taskId

/-- Every `create_plan` that has ended has returned the only plan of its task. -/
def Idempotent (c : LedgerConfig) : Prop :=
  ∀ i taskId merchantId productId patch p r,
    c.pool i = .running (.createPlan taskId merchantId productId patch) p →
      p.attempt = .pure r →
        ∃ plan ∈ c.state.plans, plan.taskId = taskId.val ∧ r = .ok (.plan plan) ∧
          ∀ other ∈ c.state.plans, other.taskId = taskId.val → other = plan

/-- The runs of `planPolicy` without a collision. -/
def orderlyPolicy : LedgerPolicy where
  call i c ch db := planPolicy.call i c ch db ∧
    ∀ content, c = .insertPlan content → ∀ plan ∈ db.plans, plan.taskId ≠ content.taskId
  start := planPolicy.start

/-- What a `create_plan` that has ended has established. -/
def Planned (taskId : TaskId) (r : Except Exn LedgerResult) (db : Ledger) : Prop :=
  ∃ plan ∈ db.plans, plan.taskId = taskId.val ∧ r = .ok (.plan plan)

/-- The database grows, and `create_plan` returns a plan of its task. -/
def planDiscipline : Discipline Ledger LedgerRequest (Except Exn LedgerResult) where
  inv _ := True
  rely _ := Ledger.Grows
  post q r db :=
    match q with
    | .createPlan taskId _ _ _ => Planned taskId r db
    | _ => True
  refl _ := .refl
  trans := .trans
  post_stable {q r db db'} hgrows h := by
    cases q with
    | createPlan taskId merchantId productId patch =>
        obtain ⟨plan, hplan, htask, hr⟩ := h
        exact ⟨plan, hgrows.plans plan hplan, htask, hr⟩
    | _ => trivial

section

variable {catalog : Catalog} {i : ℕ} {db : Ledger}

theorem grows_of_answer {c : LedgerCall} {ch : LedgerChoice} {r : Except Exn c.Reply}
    {db' : Ledger} (h : ch.ending.answer (c.execute ch.token db) db = (r, db')) :
    db.Grows db' := by
  rcases Ending.answer_cases h with rfl | ⟨b, hrun⟩
  · exact .refl _
  · exact (writes_of_execute hrun).grows

/-- A statement without a fault: what it returns holds of the database that it leaves. -/
theorem safe_statement {c : LedgerCall} {Q : c.Reply → Ledger → Prop} {E : Exn → Ledger → Prop}
    (hdone : ∀ ch db', orderlyPolicy.call i c ch db' → ch.ending = .done)
    (hQ : ∀ ch db', db.Grows db' → orderlyPolicy.call i c ch db' →
      ∃ reply db'', c.execute ch.token db' = .ok (reply, db'') ∧ Q reply db'') :
    planDiscipline.Safe (ledgerMachine catalog).attempt orderlyPolicy i Q E c.perform db := by
  intro db' hgrows _ ch r db'' hch hanswer
  have heq : ch.ending.answer (c.execute ch.token db') db' = (r, db'') := Option.some.inj hanswer
  refine ⟨⟨trivial, fun _ _ => grows_of_answer heq⟩, ?_⟩
  obtain ⟨reply, s, hrun, hreply⟩ := hQ ch db' hgrows hch
  rw [hdone ch db' hch, hrun] at heq
  obtain ⟨rfl, rfl⟩ := Prod.mk.inj heq
  exact hreply

/-- A row whose task and identifier are new is inserted. -/
theorem insertPlan_ok {content : PlanContent} {planId : String}
    (htask : ∀ plan ∈ db.plans, plan.taskId ≠ content.taskId)
    (hid : ∀ plan ∈ db.plans, plan.planId ≠ planId) :
    ∃ plans, insertPlan content planId db = .ok ({ content with planId }, { db with plans }) ∧
      { content with planId } ∈ plans := by
  cases hinsert : db.plans.insert? { content with planId } with
  | none =>
      obtain ⟨f, hf, plan, hplan, heq⟩ := Table.insert?_eq_none_iff.1 hinsert
      rcases List.mem_cons.1 hf with rfl | hf
      · exact absurd heq (hid plan hplan)
      · obtain rfl := List.mem_singleton.1 hf
        exact absurd heq (htask plan hplan)
  | some plans =>
      refine ⟨plans, by simp [insertPlan, hinsert], ?_⟩
      exact (Table.mem_of_insert? hinsert).2 (.inr rfl)

theorem exists_selectProduct {merchantId productId : String}
    (h : ∃ row ∈ db.products, row.merchantId = merchantId ∧ row.productId = productId) :
    ∃ description version, selectProduct merchantId productId db = some (description, version) := by
  obtain ⟨row, hrow, hmerchant, hproduct⟩ := h
  cases hselect : db.products.select fun p =>
      p.merchantId == merchantId && p.productId == productId with
  | none =>
      have hfalse := Table.select_eq_none_iff.1 hselect row hrow
      simp [hmerchant, hproduct] at hfalse
  | some p => exact ⟨p.description, p.version, by simp [selectProduct, hselect]⟩

/-- `create_plan` on a product of the merchant, when its `INSERT` collides with nothing. -/
theorem planned_createPlan (taskId : TaskId) {merchantId productId : String}
    (patch : ProductPatch)
    (hproduct : ∃ row ∈ db.products, row.merchantId = merchantId ∧ row.productId = productId) :
    planDiscipline.Safe (ledgerMachine catalog).attempt orderlyPolicy i
      (fun plan db => plan ∈ db.plans ∧ plan.taskId = taskId.val) (fun _ _ => False)
      (createPlanSync taskId.val merchantId productId patch) db := by
  apply Discipline.Safe.handle
  apply safe_statement
  · exact fun ch db' hch => hch.1
  intro ch db₁ hgrows₁ _
  refine ⟨_, _, rfl, ?_⟩
  cases hexisting : selectPlanOfTask taskId.val db₁ with
  | some plan => exact mem_of_selectPlanOfTask hexisting
  | none =>
      apply Discipline.Safe.handle
      apply safe_statement
      · exact fun ch db' hch => hch.1
      intro ch db₂ hgrows₂ _
      have howned : ∃ row ∈ db₂.products, row.merchantId = merchantId ∧
          row.productId = productId := by
        obtain ⟨row, hrow, hmerchant, hid⟩ := hproduct
        obtain ⟨row', hrow', hid', hmerchant', -⟩ := (hgrows₁.trans hgrows₂).products row hrow
        exact ⟨row', hrow', hmerchant'.trans hmerchant, hid'.trans hid⟩
      obtain ⟨description, version, hselect⟩ := exists_selectProduct howned
      refine ⟨some (description, version), db₂, ?_, ?_⟩
      · simp [LedgerCall.execute, hselect]
      apply safe_statement
      · exact fun ch db' hch => hch.1.1
      intro ch db₃ _ hch
      obtain ⟨plans, hinsert, hmem⟩ := insertPlan_ok (hch.2 _ rfl) hch.1.2
      exact ⟨_, _, hinsert, hmem, rfl⟩

theorem planSound : planDiscipline.Sound (ledgerMachine catalog).attempt orderlyPolicy where
  start i q db db' _ hstart haccept := by
    obtain rfl : db = db' := Option.some.inj haccept
    refine ⟨⟨trivial, fun _ _ => .refl _⟩, ?_⟩
    cases q with
    | createPlan taskId merchantId productId patch =>
        apply Discipline.Safe.handle
        apply Discipline.Safe.handle
        apply (planned_createPlan taskId patch hstart).imp
        · intro plan db hplan
          exact ⟨plan, hplan.1, hplan.2, rfl⟩
        · exact fun _ _ h => h.elim
    | _ =>
        have honly : ∀ p : LedgerProgram (Except Exn LedgerResult), ∀ db,
            planDiscipline.Safe (ledgerMachine catalog).attempt orderlyPolicy i
              (fun _ _ => True) (fun _ _ => True) p db := by
          intro p
          induction p with
          | pure r => exact fun _ => trivial
          | throw e => exact fun _ => trivial
          | call c k ih =>
              intro db db' _ _ ch r db'' _ hanswer
              have hgrows := grows_of_answer (Option.some.inj hanswer)
              exact ⟨⟨trivial, fun _ _ => hgrows⟩, ih r db''⟩
        exact honly _ _
  crash i db _ _ := ⟨trivial, fun _ _ => .refl _⟩
  environment e := e.elim

end

/-- An `INSERT` of a plan is made by `create_plan`, which passes on what it raises. -/
def PassesOn (q : LedgerRequest) : LedgerProgram LedgerResult → Prop
  | .call (.insertPlan _) k =>
      (∃ taskId merchantId productId patch,
        q = .createPlan taskId merchantId productId patch) ∧
        (∀ e, k (.error e) = .throw e) ∧ ∀ r, PassesOn q (k r)
  | .call _ k => ∀ r, PassesOn q (k r)
  | _ => True

theorem PassesOn.next {q : LedgerRequest} {c : LedgerCall}
    {k : Except Exn c.Reply → LedgerProgram LedgerResult} (h : PassesOn q (.call c k))
    (r : Except Exn c.Reply) : PassesOn q (k r) := by
  cases c with
  | insertPlan content => exact h.2.2 r
  | _ => exact h r

theorem passesOn_program (catalog : Catalog) (q : LedgerRequest) :
    PassesOn q (q.program catalog) := by
  cases q with
  | createPlan taskId merchantId productId patch =>
      intro existing
      match existing with
      | .error e | .ok (some plan) => trivial
      | .ok none =>
          intro product
          match product with
          | .error e | .ok none => trivial
          | .ok (some (description, version)) =>
              refine ⟨⟨taskId, merchantId, productId, patch, rfl⟩, fun _ => rfl, ?_⟩
              intro r
              cases r <;> trivial
  | _ =>
      intro r
      cases r <;> trivial

/-- Each thread of a run passes on what its `INSERT` raises. -/
theorem passesOn_run {catalog : Catalog} {π : LedgerPolicy} {h c}
    (run : (ledgerMachine catalog).Run π (.initial Ledger.fresh) h c) :
    ∀ i q p, c.pool i = .running q p → PassesOn q p := by
  refine (run.invariant (fun c => ∀ i q p, c.pool i = .running q p → PassesOn q p) ?_ ?_).1
  · intro i q p hslot
    cases hslot
  · intro c a c' hc _ step i q p hslot
    by_cases hi : a.thread = some i
    · cases a with
      | call j ch =>
          cases hi
          obtain ⟨q', cl, k, r, s, hslot', -, rfl⟩ := Machine.step_call _ step
          simp only [Function.update_self, Slot.running.injEq] at hslot
          obtain ⟨rfl, rfl⟩ := hslot
          exact (hc i _ _ hslot').next r
      | start j q' =>
          cases hi
          obtain ⟨s, -, -, rfl⟩ := Machine.step_start _ step
          simp only [Function.update_self, Slot.running.injEq] at hslot
          obtain ⟨rfl, rfl⟩ := hslot
          exact passesOn_program catalog q'
      | crash j =>
          cases hi
          obtain ⟨q', p', -, rfl⟩ := Machine.step_crash _ step
          simp only [Function.update_self, reduceCtorEq] at hslot
      | environment e => cases hi
    · rw [Machine.step_pool step hi] at hslot
      exact hc i q p hslot

section

variable {catalog : Catalog} {h : List (LedgerConfig × LedgerAction)} {c : LedgerConfig}

/-- A step without a collision is orderly. -/
theorem orderly_of_not_collides {v : LedgerConfig × LedgerAction} (hv : ¬ Collides v)
    (hpermits : planPolicy.permits v.1 v.2) : orderlyPolicy.permits v.1 v.2 := by
  obtain ⟨c, a⟩ := v
  cases a with
  | call i ch =>
      cases hslot : c.pool i with
      | running q p =>
          cases p with
          | call cl k =>
              have hcall : planPolicy.call i cl ch c.state := by
                simpa [Policy.permits, hslot] using hpermits
              have horderly : orderlyPolicy.call i cl ch c.state := by
                refine ⟨hcall, ?_⟩
                rintro content rfl plan hplan htask
                exact hv ⟨i, ch, q, content, k, rfl, hslot, plan, hplan, htask⟩
              simpa [Policy.permits, hslot] using horderly
          | _ => simp [Policy.permits, hslot]
      | _ => simp [Policy.permits, hslot]
  | start i q => exact hpermits
  | _ => trivial

theorem idempotent_of_orderly
    (run : (ledgerMachine catalog).Run orderlyPolicy (.initial Ledger.fresh) h c) :
    Idempotent c := by
  intro i taskId merchantId productId patch p r hslot hr
  obtain ⟨plan, hplan, htask, hresult⟩ := planSound.ended trivial run hslot hr
  refine ⟨plan, hplan, htask, hresult, ?_⟩
  intro other hother hsame
  exact eq_of_planTask hother hplan (hsame.trans htask.symm)

/-- After a collision a `create_plan` has raised. -/
theorem not_idempotent_of_collides {a : LedgerAction} {c' : LedgerConfig}
    (hpasses : ∀ i q p, c.pool i = .running q p → PassesOn q p)
    (hpermits : planPolicy.permits c a) (step : (ledgerMachine catalog).step a c = some c')
    (hcollides : Collides (c, a)) : ¬ Idempotent c' := by
  obtain ⟨i, ch, q, content, k, rfl, hslot, plan, hplan, htask⟩ := hcollides
  obtain ⟨q', cl, k', r, s, hslot', hanswer, rfl⟩ := Machine.step_call _ step
  obtain ⟨⟨taskId, merchantId, productId, patch, rfl⟩, hraise, -⟩ := hpasses i q _ hslot
  have hcall : planPolicy.call i (.insertPlan content) ch c.state := by
    simpa [Policy.permits, show c.pool i = _ from hslot] using hpermits
  have hrefused : c.state.plans.insert? { content with planId := ch.token } = none :=
    Table.insert?_eq_none_iff.2 ⟨fun p => p.taskId, by simp, plan, hplan, htask⟩
  cases hslot.symm.trans hslot'
  have herror : r = .error .integrityError := by
    simp only [ledgerMachine, LedgerCall.execute, insertPlan, hrefused, hcall.1,
      Option.some.injEq] at hanswer
    exact (congrArg Prod.fst hanswer).symm
  intro hidempotent
  have hended : (k r).attempt = .pure (.error .integrityError) := by
    rw [herror, hraise]
    rfl
  obtain ⟨plan', -, -, hok, -⟩ := hidempotent i taskId merchantId productId patch (k r) _
    (Function.update_self ..) hended
  cases hok

/-- In every run of the ledger operations in which the statements of `create_plan` meet with
no fault, every `create_plan` that ends returns the only plan of its task, at every state of
the run, exactly when no `INSERT` of the run finds a plan of its task. -/
theorem create_plan_idempotent_iff
    (run : (ledgerMachine catalog).Run planPolicy (.initial Ledger.fresh) h c) :
    (Idempotent c ∧ ∀ v ∈ h, Idempotent v.1) ↔ ∀ v ∈ h, ¬ Collides v := by
  constructor
  · induction run with
    | nil => exact fun _ v hv => absurd hv List.not_mem_nil
    | @snoc h c c' a run permitted step ih =>
        rintro ⟨hc', hpast⟩ v hv
        rcases List.mem_append.1 hv with hv | hv
        · refine ih ⟨hpast (c, a) (by simp), fun w hw => hpast w (by simp [hw])⟩ v hv
        · rw [List.mem_singleton.1 hv]
          exact fun hcollides =>
            not_idempotent_of_collides (passesOn_run run) permitted step hcollides hc'
  · intro hfree
    have orderly := run.restrict fun v hv => orderly_of_not_collides (hfree v hv)
    refine ⟨idempotent_of_orderly orderly, ?_⟩
    intro v hv
    obtain ⟨before, after, rfl⟩ := List.append_of_mem hv
    exact idempotent_of_orderly (orderly.before rfl).1

end

instance (i : ℕ) (c : LedgerCall) (ch : LedgerChoice) (db : Ledger) :
    Decidable (planPolicy.call i c ch db) :=
  match c with
  | .selectPlanOfTask _ | .selectProduct .. => inferInstanceAs (Decidable (_ = _))
  | .insertPlan _ => inferInstanceAs (Decidable (_ ∧ _))
  | .initializeSync _ | .recordApproval .. | .getApproval _ | .getApprovalForTask _
  | .applyApprovedPlan _ => .isTrue trivial

instance (i : ℕ) (q : LedgerRequest) (db : Ledger) : Decidable (planPolicy.start i q db) :=
  match q with
  | .createPlan _ merchantId productId _ => inferInstanceAs (Decidable
      (∃ row ∈ db.products.rows, row.merchantId = merchantId ∧ row.productId = productId))
  | .recordApproval .. | .applyApprovedPlan _ | .initializeSync => .isTrue trivial

instance (i : ℕ) (db : Ledger) : Decidable (planPolicy.crash i db) := .isTrue trivial

instance (e : Empty) (db : Ledger) : Decidable (planPolicy.environment e db) := e.elim

/-- What a `create_plan` has raised. -/
def raisedByCreate (c : LedgerConfig) (i : ℕ) : Option Exn :=
  match c.pool i with
  | .running (.createPlan ..) (.throw e) => some e
  | _ => none

theorem not_idempotent_of_raised {c : LedgerConfig} {i : ℕ} {e : Exn}
    (h : raisedByCreate c i = some e) : ¬ Idempotent c := by
  unfold raisedByCreate at h
  split at h
  · next taskId merchantId productId patch e' hslot =>
      intro hidempotent
      obtain ⟨plan, -, -, hok, -⟩ := hidempotent i taskId merchantId productId patch _ _ hslot rfl
      cases hok
  · cases h

/-- Two calls for one task, as a worker and its retry make them. -/
def demoTwoPlans : List LedgerAction :=
  let patch : ProductPatch := ⟨"description", "Works with game consoles.", "Buyers ask."⟩
  [.start 0 .initializeSync, .call 0 {},
   .start 1 (.createPlan demoTaskId demoMerchantId demoProductId patch), .call 1 {},
   .start 2 (.createPlan demoTaskId demoMerchantId demoProductId patch)]

/-- Both look for the plan of the task before one of them inserts it: the other one raises. -/
theorem create_plan_raises : ∃ h c,
    (ledgerMachine demoCatalog).Run planPolicy (.initial Ledger.fresh) h c ∧
      raisedByCreate c 2 = some .integrityError ∧ ¬ Idempotent c := by
  have hend : ((ledgerMachine demoCatalog).exec planPolicy
      (demoTwoPlans ++ [.call 2 {}, .call 1 {}, .call 2 {}, .call 1 { token := "plan-1" },
        .call 2 { token := "plan-2" }])
      (.initial .fresh)).map (fun c => raisedByCreate c 2) = some (some .integrityError) := by
    decide
  obtain ⟨c, hc, hraised⟩ := Option.map_eq_some_iff.1 hend
  obtain ⟨h, run⟩ := Machine.Run.exec .nil hc
  exact ⟨h, c, run, hraised, not_idempotent_of_raised hraised⟩

/-- The second call starts while the first is under way, and looks for the plan after the
first has inserted it. -/
theorem create_plan_idempotent_iff_demo : ∃ h c,
    (ledgerMachine demoCatalog).Run planPolicy (.initial Ledger.fresh) h c ∧
      c.state.plans.rows.length = 1 ∧
      ((Idempotent c ∧ ∀ v ∈ h, Idempotent v.1) ↔ ∀ v ∈ h, ¬ Collides v) := by
  have hend : ((ledgerMachine demoCatalog).exec planPolicy
      (demoTwoPlans ++ [.call 1 {}, .call 1 { token := "plan-1" }, .call 2 {}])
      (.initial .fresh)).map (fun c => c.state.plans.rows.length) = some 1 := by
    decide
  obtain ⟨c, hc, hlength⟩ := Option.map_eq_some_iff.1 hend
  obtain ⟨h, run⟩ := Machine.Run.exec .nil hc
  exact ⟨_, c, run, hlength, create_plan_idempotent_iff run⟩

end CommerceAgent
