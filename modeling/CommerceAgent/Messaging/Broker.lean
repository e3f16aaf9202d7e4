import Mathlib.Data.List.Perm.Basic
import Mathlib.Data.Nat.Notation
import Mathlib.Logic.Function.Basic

/-!
# A message broker

Direct exchanges, queues with a time to live and a dead-letter exchange, and bindings between
them. Declarations may be repeated: what is there stays as it is, and a queue that is declared
again with other arguments is an error. A message that is published goes to every queue that
is bound to its routing key.
-/

namespace Messaging

/-- The arguments of a queue: `x-message-ttl`, and the exchange and the routing key of its
dead letters. -/
structure QueueArguments where
  messageTtl : Option ℕ := none
  deadLetter : Option (String × String) := none
  deriving DecidableEq

structure Binding where
  exchange : String
  routingKey : String
  queue : String
  deriving DecidableEq

/-- What has been declared. -/
structure Topology where
  exchanges : List String
  queues : List (String × QueueArguments)
  bindings : List Binding
  deriving DecidableEq

inductive BrokerError where
  | notFound
  | preconditionFailed
  | unroutable
  deriving DecidableEq

namespace Topology

def empty : Topology := ⟨[], [], []⟩

def declareExchange (exchange : String) (t : Topology) : Topology :=
  { t with exchanges := t.exchanges.insert exchange }

def declareQueue (queue : String) (arguments : QueueArguments) (t : Topology) :
    Except BrokerError Topology :=
  match t.queues.lookup queue with
  | none => .ok { t with queues := t.queues ++ [(queue, arguments)] }
  | some declared => if declared = arguments then .ok t else .error .preconditionFailed

def bind (binding : Binding) (t : Topology) : Except BrokerError Topology :=
  if binding.exchange ∈ t.exchanges ∧ (t.queues.lookup binding.queue).isSome then
    .ok { t with bindings := t.bindings.insert binding }
  else .error .notFound

/-- The queues that a message is put on. -/
def route (t : Topology) (exchange routingKey : String) : List String :=
  (t.bindings.filter fun binding =>
    binding.exchange == exchange && binding.routingKey == routingKey).map Binding.queue

end Topology

/-- One of the lists that are joined becomes another one. -/
theorem flatMap_update_perm {ι β : Type} [DecidableEq ι] {f f' : ι → List β} {l : List ι} {i : ι}
    (hnodup : l.Nodup) (hi : i ∈ l) (hother : ∀ j, j ≠ i → f' j = f j) :
    (l.flatMap f' ++ f i).Perm (l.flatMap f ++ f' i) := by
  induction l with
  | nil => cases hi
  | cons first l ih =>
      obtain ⟨hfirst, hnodup⟩ := List.nodup_cons.1 hnodup
      by_cases heq : first = i
      · subst heq
        have hrest : l.flatMap f' = l.flatMap f := List.flatMap_congr fun j hmem =>
          hother j fun h => hfirst (h ▸ hmem)
        rw [List.flatMap_cons, List.flatMap_cons, hrest, List.append_assoc (f first)]
        exact List.perm_append_comm.trans (List.perm_append_comm.append_left _)
      · have hmem : i ∈ l := (List.mem_cons.1 hi).resolve_left (Ne.symm heq)
        rw [List.flatMap_cons, List.flatMap_cons, hother first heq, List.append_assoc,
          List.append_assoc]
        exact (ih hnodup hmem).append_left _

/-- A broker with the messages that wait on its queues, oldest first. -/
structure Broker (β : Type) where
  topology : Topology
  ready : String → List β

namespace Broker

variable {β : Type}

def fresh (t : Topology) : Broker β := ⟨t, fun _ => []⟩

def push (m : β) (b : Broker β) (queue : String) : Broker β :=
  { b with ready := Function.update b.ready queue (b.ready queue ++ [m]) }

/-- Put a message on the queues that are bound to the routing key. -/
def send (b : Broker β) (exchange routingKey : String) (m : β) : Broker β :=
  (b.topology.route exchange routingKey).foldl (push m) b

/-- `basic.publish` with `mandatory`. -/
def publish (b : Broker β) (exchange routingKey : String) (m : β) :
    Except BrokerError (Broker β) :=
  if exchange ∉ b.topology.exchanges then .error .notFound
  else if b.topology.route exchange routingKey = [] then .error .unroutable
  else .ok (b.send exchange routingKey m)

/-- A message of the queue that was rejected, or has expired. -/
def deadLetter (b : Broker β) (queue : String) (m : β) : Broker β :=
  match (b.topology.queues.lookup queue).bind QueueArguments.deadLetter with
  | some (exchange, routingKey) => b.send exchange routingKey m
  | none => b

/-- The oldest message of a queue with a time to live expires. -/
def expire (b : Broker β) (queue : String) : Option (Broker β) :=
  match (b.topology.queues.lookup queue).bind QueueArguments.messageTtl, b.ready queue with
  | some _, m :: rest =>
      some (deadLetter { b with ready := Function.update b.ready queue rest } queue m)
  | _, _ => none

/-- Deliver the first message of the queue that satisfies `p`. -/
def take (b : Broker β) (queue : String) (p : β → Bool) : Option (β × Broker β) :=
  ((b.ready queue).find? p).map fun m =>
    (m, { b with ready := Function.update b.ready queue ((b.ready queue).eraseP p) })

/-- A delivered message goes back to its queue. -/
def restore (b : Broker β) (queue : String) (m : β) : Broker β :=
  { b with ready := Function.update b.ready queue (m :: b.ready queue) }

/-- The messages that wait on some queues. -/
def held (b : Broker β) (queues : List String) : List β := queues.flatMap b.ready

section

variable {b : Broker β} {exchange routingKey queue : String} {m : β}

/-- A routing key to which one queue is bound. -/
theorem send_of_route (h : b.topology.route exchange routingKey = [queue]) :
    b.send exchange routingKey m = b.push m queue := by
  rw [send, h]
  rfl

theorem publish_of_route (hexchange : exchange ∈ b.topology.exchanges)
    (h : b.topology.route exchange routingKey = [queue]) :
    b.publish exchange routingKey m = .ok (b.push m queue) := by
  rw [publish, if_neg (not_not_intro hexchange), h, if_neg (List.cons_ne_nil _ _), send_of_route h]

theorem deadLetter_of_route (hqueue : (b.topology.queues.lookup queue).bind
      QueueArguments.deadLetter = some (exchange, routingKey)) {target : String}
    (h : b.topology.route exchange routingKey = [target]) :
    b.deadLetter queue m = b.push m target := by
  rw [deadLetter, hqueue]
  exact send_of_route h

@[simp] theorem push_topology (b : Broker β) (queue : String) :
    (b.push m queue).topology = b.topology := rfl

theorem push_ready (b : Broker β) (queue other : String) :
    (b.push m queue).ready other =
      if other = queue then b.ready queue ++ [m] else b.ready other :=
  Function.update_apply ..

theorem push_ready_ne (b : Broker β) {other : String} (h : other ≠ queue) :
    (b.push m queue).ready other = b.ready other := Function.update_of_ne h ..

theorem restore_ready_ne (b : Broker β) {other : String} (h : other ≠ queue) :
    (b.restore queue m).ready other = b.ready other := Function.update_of_ne h ..

section Held

variable {b' : Broker β} {queues : List String} {ms : List β}

theorem held_congr (h : ∀ queue ∈ queues, b'.ready queue = b.ready queue) :
    b'.held queues = b.held queues := List.flatMap_congr h

/-- A queue gets other messages. -/
theorem held_update (hnodup : queues.Nodup) (hqueue : queue ∈ queues)
    (hready : b'.ready = Function.update b.ready queue ms) :
    (b'.held queues ++ b.ready queue).Perm (b.held queues ++ ms) := by
  have hself : b'.ready queue = ms := by rw [hready, Function.update_self]
  rw [← hself]
  refine flatMap_update_perm hnodup hqueue fun other hne => ?_
  rw [hready, Function.update_of_ne hne]

theorem held_push (hnodup : queues.Nodup) (hqueue : queue ∈ queues) :
    ((b.push m queue).held queues).Perm (b.held queues ++ [m]) := by
  have hupdate : ((b.push m queue).held queues ++ b.ready queue).Perm
      (b.held queues ++ (b.ready queue ++ [m])) := held_update hnodup hqueue rfl
  have hswap : (b.held queues ++ (b.ready queue ++ [m])).Perm
      ((b.held queues ++ [m]) ++ b.ready queue) := by
    rw [List.append_assoc]
    exact List.perm_append_comm.append_left _
  exact (List.perm_append_right_iff _).1 (hupdate.trans hswap)

theorem held_push_of_notMem (hqueue : queue ∉ queues) :
    (b.push m queue).held queues = b.held queues :=
  held_congr fun _ hmem => push_ready_ne b fun h => hqueue (h ▸ hmem)

theorem held_restore (hnodup : queues.Nodup) (hqueue : queue ∈ queues) :
    ((b.restore queue m).held queues).Perm (m :: b.held queues) := by
  have hupdate : ((b.restore queue m).held queues ++ b.ready queue).Perm
      (b.held queues ++ (m :: b.ready queue)) := held_update hnodup hqueue rfl
  have hswap : (b.held queues ++ (m :: b.ready queue)).Perm
      ((m :: b.held queues) ++ b.ready queue) := List.perm_middle
  exact (List.perm_append_right_iff _).1 (hupdate.trans hswap)

/-- What is delivered has waited. -/
theorem held_take {p : β → Bool} (hnodup : queues.Nodup) (hqueue : queue ∈ queues)
    (h : b.take queue p = some (m, b')) :
    p m = true ∧ b'.topology = b.topology ∧ (∀ other, other ≠ queue →
      b'.ready other = b.ready other) ∧ (b.held queues).Perm (m :: b'.held queues) := by
  obtain ⟨found, hfound, htaken⟩ := Option.map_eq_some_iff.1 h
  cases htaken
  obtain ⟨hp, before, after, hready, hbefore⟩ := List.find?_eq_some_iff_append.1 hfound
  refine ⟨hp, rfl, fun other hne => Function.update_of_ne hne .., ?_⟩
  have herase : (b.ready queue).eraseP p = before ++ after := by
    rw [hready, List.eraseP_append_right _ (by simpa using hbefore), List.eraseP_cons_of_pos hp]
  have hperm : (b.ready queue).Perm (m :: (b.ready queue).eraseP p) := by
    rw [herase, hready]
    exact List.perm_middle
  set b' : Broker β := ⟨b.topology, Function.update b.ready queue ((b.ready queue).eraseP p)⟩
  have hupdate : (b'.held queues ++ b.ready queue).Perm
      (b.held queues ++ (b.ready queue).eraseP p) := held_update hnodup hqueue rfl
  have hmoved : ((m :: b'.held queues) ++ (b.ready queue).eraseP p).Perm
      (b.held queues ++ (b.ready queue).eraseP p) :=
    (List.perm_middle.symm.trans (hperm.symm.append_left _)).trans hupdate
  exact ((List.perm_append_right_iff _).1 hmoved).symm

/-- An expired message waits on, on another queue. -/
theorem held_expire (hnodup : queues.Nodup) (hqueue : queue ∈ queues) {target : String}
    (htarget : target ∈ queues)
    (hdead : (b.topology.queues.lookup queue).bind QueueArguments.deadLetter =
      some (exchange, routingKey))
    (hroute : b.topology.route exchange routingKey = [target])
    (h : b.expire queue = some b') :
    b'.topology = b.topology ∧ (∀ other, other ≠ queue → other ≠ target →
      b'.ready other = b.ready other) ∧ (b'.held queues).Perm (b.held queues) := by
  unfold expire at h
  split at h
  · next m rest _ hready =>
      cases h
      set popped : Broker β := ⟨b.topology, Function.update b.ready queue rest⟩
      have hupdate : (popped.held queues ++ b.ready queue).Perm (b.held queues ++ rest) :=
        held_update hnodup hqueue rfl
      rw [hready] at hupdate
      have hpopped : (m :: popped.held queues).Perm (b.held queues) :=
        (List.perm_append_right_iff _).1 (List.perm_middle.symm.trans hupdate)
      have hpush : popped.deadLetter queue m = popped.push m target :=
        deadLetter_of_route (b := popped) hdead hroute
      change (popped.deadLetter queue m).topology = _ ∧ (∀ other, _ → _ →
        (popped.deadLetter queue m).ready other = _) ∧
          ((popped.deadLetter queue m).held queues).Perm _
      rw [hpush]
      refine ⟨rfl, ?_, (held_push hnodup htarget).trans
        ((List.perm_append_singleton _ _).trans hpopped)⟩
      intro other hne hother
      rw [push_ready_ne popped hother]
      exact Function.update_of_ne hne ..
  · cases h

end Held

end

end Broker

end Messaging
