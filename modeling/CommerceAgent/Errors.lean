import Mathlib.Data.Nat.Notation

/-!
# Exceptions

`Exn` is the part of the exception hierarchy that the program tells apart: an
`AppError` carries its code, message and HTTP status; `AgentLoopDetectedError`
and `DependencyError` are the two subclasses that are tested for by class; a
`ValueError` and a `TimeoutError` are the built-in classes that are. Everything
else (a Redis, AMQP or SQLite error) is `other`.
-/

namespace CommerceAgent

/-- The exceptions the program distinguishes. -/
inductive Exn where
  | appError (code message : String) (httpStatus : ℕ)
  | agentLoopDetected (message : String)
  | dependencyError (code message : String)
  | valueError (message : String)
  | timeoutError
  | other (name : String)
  deriving DecidableEq, Repr

namespace Exn

def taskNotFound (taskId : String) : Exn :=
  .appError "TASK_NOT_FOUND" ("任务不存在：" ++ taskId) 404

def taskNotResumable (taskId : String) : Exn :=
  .appError "TASK_NOT_RESUMABLE" ("任务不可续跑：" ++ taskId) 409

def taskStateConflict (message : String) : Exn :=
  .appError "TASK_STATE_CONFLICT" message 409

def merchantForbidden : Exn :=
  .appError "MERCHANT_FORBIDDEN" "不能访问其他商家的任务" 403

/-- A violated `PRIMARY KEY` or `UNIQUE` constraint. -/
def integrityError : Exn := .other "IntegrityError"

/-- The cancellation of a coroutine, which `except Exception` does not catch. -/
def cancelled : Exn := .other "CancelledError"

end Exn

end CommerceAgent
