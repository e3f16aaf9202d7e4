import CommerceAgent.Commerce.Invariant
import CommerceAgent.Effects.Discipline

/-!
# Interleaved ledger operations

`ledgerMachine catalog` runs any number of `create_plan`, `record_approval`,
`apply_approved_plan` and `initialize` operations at once over one commerce
database that starts without rows. Only `create_plan` has more than one call, so
only it can be overtaken; what it has read stays true as a `Snapshot`.
-/

namespace CommerceAgent

open Effects Relational

inductive LedgerRequest where
  | createPlan (taskId : TaskId) (merchantId productId : String) (patch : ProductPatch)
  | recordApproval (taskId merchantId planId : String) (planVersion : ℤ) (actionId : String)
      (decision : ApprovalDecision)
  | applyApprovedPlan (approvalId : String)
  | initializeSync

inductive LedgerResult where
  | plan (plan : ActionPlan)
  | approvalId (approvalId : String)
  | receipt (receipt : ActionReceipt)
  | done

/-- What the environment chooses about a step: the token the step draws and how
the call ends. -/
structure LedgerChoice where
  token : String := ""
  ending : Ending Exn := .done

/-- The program of a request. -/
def LedgerRequest.program (catalog : Catalog) : LedgerRequest → LedgerProgram LedgerResult
  | .createPlan taskId merchantId productId patch => do
      let plan ← createPlanSync taskId.val merchantId productId patch
      pure (.plan plan)
  | .recordApproval taskId merchantId planId planVersion actionId decision => do
      let approvalId ← (LedgerCall.recordApproval taskId merchantId planId planVersion actionId
        decision).perform
      pure (.approvalId approvalId)
  | .applyApprovedPlan approvalId => do
      let receipt ← (LedgerCall.applyApprovedPlan approvalId).perform
      pure (.receipt receipt)
  | .initializeSync => do
      (LedgerCall.initializeSync catalog).perform
      pure .done

/-- Ledger operations over one database seeded from `catalog`. -/
def ledgerMachine (catalog : Catalog) :
    Machine Exn LedgerCall LedgerCall.Reply Ledger LedgerChoice LedgerRequest LedgerResult
      Empty where
  program _ q := q.program catalog
  answer _ c ch db := some (ch.ending.answer (c.execute ch.token db) db)
  accept _ _ db := some db
  halt _ db := db
  environment e _ := e.elim

/-- The ledger's threads may rely on growth, and keep the invariant. -/
def ledgerDiscipline (catalog : Catalog) : Discipline Ledger LedgerRequest LedgerResult where
  inv := Ledger.Invariant catalog
  rely _ := Ledger.Grows
  post _ _ _ := True
  refl _ := .refl
  trans := .trans
  post_stable _ _ := trivial

section Rules

variable {catalog : Catalog} {π : Policy LedgerCall Ledger LedgerChoice LedgerRequest Empty}
  {i : ℕ} {db : Ledger}

theorem keeps_of_writes {c : LedgerCall} {db' : Ledger} (h : Writes c db db')
    (hinv : db.Invariant catalog)
    (hseed : ∀ catalog', c = .initializeSync catalog' → catalog' = catalog)
    (hplan : ∀ content, c = .insertPlan content → content.Sound db) :
    (ledgerDiscipline catalog).Keeps i db db' :=
  ⟨h.invariant hinv hseed hplan, fun _ _ => h.grows⟩

/-- One step is safe, and returns what the operation returns in the database it
finds. -/
theorem safe_perform {c : LedgerCall} {Q : c.Reply → Ledger → Prop}
    (hseed : ∀ catalog', c = .initializeSync catalog' → catalog' = catalog)
    (hplan : ∀ db', db.Grows db' → ∀ content, c = .insertPlan content → content.Sound db')
    (hQ : ∀ db', db.Grows db' → db'.Invariant catalog → ∀ token reply db'',
      c.execute token db' = .ok (reply, db'') → Q reply db'') :
    (ledgerDiscipline catalog).Safe (ledgerMachine catalog) π i Q (fun _ _ => True) c.perform
      db := by
  intro db' hgrows hinv ch r db'' _ hanswer
  simp only [ledgerMachine, Option.some.injEq] at hanswer
  have hkeeps : (ledgerDiscipline catalog).Keeps i db' db'' := by
    rcases Ending.answer_cases hanswer with rfl | ⟨b, hrun⟩
    · exact keeps_of_writes (c := c) .nothing hinv hseed (hplan _ hgrows)
    · exact keeps_of_writes (writes_of_execute hrun) hinv hseed (hplan db' hgrows)
  refine ⟨hkeeps, ?_⟩
  cases r with
  | error e => trivial
  | ok reply => exact hQ db' hgrows hinv ch.token reply db'' (Ending.answer_ok hanswer)

/-- `create_plan` inserts a plan whose snapshot it has read. -/
theorem safe_createPlan (taskId : TaskId) (merchantId productId : String) (patch : ProductPatch) :
    (ledgerDiscipline catalog).Safe (ledgerMachine catalog) π i (fun _ _ => True) (fun _ _ => True)
      (createPlanSync taskId.val merchantId productId patch) db := by
  refine Discipline.Safe.handle (safe_perform (by simp) (by simp) ?_)
  intro db₁ _ _ _ existing _ _
  cases existing with
  | some plan => trivial
  | none =>
      refine Discipline.Safe.handle (safe_perform (by simp) (by simp) ?_)
      intro db₂ _ _ _ product db₃ hread
      simp only [LedgerCall.execute, Except.ok.injEq, Prod.mk.injEq] at hread
      obtain ⟨hread, rfl⟩ := hread
      cases product with
      | none => trivial
      | some snapshot =>
          obtain ⟨description, version⟩ := snapshot
          obtain ⟨p, hp, hmerchant, hid, hdescription, hversion⟩ := mem_of_selectProduct hread
          refine safe_perform (by simp) ?_ (fun _ _ _ _ _ _ _ => trivial)
          intro db₄ hgrows content hcontent
          rw [← LedgerCall.insertPlan.inj hcontent]
          refine ⟨taskId.colonFree, rfl, rfl, ?_⟩
          exact Snapshot.grows ⟨p, hp, hmerchant, hid, hversion.ge, fun _ => hdescription⟩ hgrows

theorem ledgerSound : (ledgerDiscipline catalog).Sound (ledgerMachine catalog) π where
  start i q db db' hinv _ haccept := by
    rw [← Option.some.inj haccept]
    refine ⟨keeps_of_writes (c := .getApproval "") .nothing hinv (by simp) (by simp), ?_⟩
    cases q with
    | createPlan taskId merchantId productId patch =>
        exact .handle (.mono (fun _ _ _ _ => trivial) (fun _ _ _ _ => trivial) hinv
          (safe_createPlan taskId merchantId productId patch))
    | recordApproval taskId merchantId planId planVersion actionId decision =>
        exact .handle (safe_perform (by simp) (by simp) (fun _ _ _ _ _ _ _ => trivial))
    | applyApprovedPlan approvalId =>
        exact .handle (safe_perform (by simp) (by simp) (fun _ _ _ _ _ _ _ => trivial))
    | initializeSync =>
        refine .handle (safe_perform ?_ (by simp) (fun _ _ _ _ _ _ _ => trivial))
        intro catalog' heq
        exact (LedgerCall.initializeSync.inj heq).symm
  crash i db hinv _ := keeps_of_writes (c := .getApproval "") .nothing hinv (by simp) (by simp)
  environment e := e.elim

end Rules

/-- In every run the invariant holds at every state, and the database has grown
from every state to the last. -/
theorem ledger_run {catalog : Catalog}
    {π : Policy LedgerCall Ledger LedgerChoice LedgerRequest Empty}
    {h c} (run : (ledgerMachine catalog).Run π (.initial Ledger.fresh) h c) :
    c.state.Invariant catalog ∧
      ∀ v ∈ h, v.1.state.Invariant catalog ∧ v.1.state.Grows c.state := by
  obtain ⟨hholds, hpast⟩ := ledgerSound.run Ledger.Invariant.fresh run
  exact ⟨hholds.inv, fun v hv => ⟨(hpast v hv).1.inv, (hpast v hv).2⟩⟩

end CommerceAgent
