import CommerceAgent.Effects.Machine
import CommerceAgent.Errors
import CommerceAgent.Messaging.Broker
import CommerceAgent.Tasks.Documents
import Mathlib.Data.List.Nodup

/-!
# The task queue

`RabbitTaskQueue.connect` declares the exchanges, the queues and the bindings, and every
process calls it when it starts. Whatever processes connect at once: none of their
declarations is refused, and when one of them has connected, a message that is published goes
to the queue of the workers, one that is to be retried to the retry queue of its attempt and
from there to the queue of the workers, and one that is rejected to the queue of dead letters.
-/

namespace CommerceAgent

open Effects Messaging

namespace TaskQueue

def exchangeName : String := "e-commerce-agent.tasks.v1"

def routingKey : String := "agent.run"

def queueName : String := "e-commerce-agent.tasks.v1"

def retryExchangeName : String := "e-commerce-agent.retry.v1"

def deadExchangeName : String := "e-commerce-agent.dead.v1"

def deadQueueName : String := "e-commerce-agent.dead.v1"

def deadRoutingKey : String := "agent.dead"

def retryDelaysMs : List ℕ := [1000, 5000, 20000]

/-- `_retry_routing_key`. -/
def retryRoutingKey (index : ℕ) : String := "agent.retry." ++ Nat.repr (index + 1)

def retryQueueName (index : ℕ) : String := queueName ++ ".retry." ++ Nat.repr (index + 1)

/-- `min(max(payload.attempt - 1, 0), len(self.retry_delays_ms) - 1)`. -/
def retryIndex (attempt : ℤ) : ℕ := (min (max (attempt - 1) 0) (retryDelaysMs.length - 1)).toNat

end TaskQueue

open TaskQueue

/-- What `connect` asks the broker for. -/
inductive Declaration where
  | exchange (name : String)
  | queue (name : String) (arguments : QueueArguments)
  | binding (b : Binding)
  deriving DecidableEq

/-- What `connect` declares, in its order. -/
def declarations : List Declaration :=
  [.exchange exchangeName, .exchange retryExchangeName, .exchange deadExchangeName,
    .queue queueName ⟨none, some (deadExchangeName, deadRoutingKey)⟩,
    .binding ⟨exchangeName, routingKey, queueName⟩,
    .queue deadQueueName ⟨none, none⟩,
    .binding ⟨deadExchangeName, deadRoutingKey, deadQueueName⟩] ++
  retryDelaysMs.zipIdx.flatMap fun (delayMs, index) =>
    [.queue (retryQueueName index) ⟨some delayMs, some (exchangeName, routingKey)⟩,
      .binding ⟨retryExchangeName, retryRoutingKey index, retryQueueName index⟩]

abbrev ConnectProgram := Program Exn Declaration (fun _ => Unit)

/-- `connect`, from its first declaration on. -/
def declareAll : List Declaration → ConnectProgram Unit
  | [] => pure ()
  | d :: rest => do
    Program.perform d
    declareAll rest

def connect : ConnectProgram Unit := declareAll declarations

/-- How a declaration that the broker refuses is raised. -/
def BrokerError.raised : BrokerError → Exn
  | .notFound => .other "ChannelNotFoundEntity"
  | .preconditionFailed => .other "ChannelPreconditionFailed"
  | .unroutable => .other "DeliveryError"

def Declaration.execute (t : Topology) : Declaration → Except BrokerError Topology
  | .exchange name => .ok (t.declareExchange name)
  | .queue name arguments => t.declareQueue name arguments
  | .binding b => t.bind b

/-- Any number of processes that connect. -/
def connectMachine :
    Machine Exn Declaration (fun _ => Unit) Topology (Ending Exn) Unit Unit Empty where
  program _ _ := connect
  answer _ d ending t :=
    some (ending.answer (((d.execute t).mapError BrokerError.raised).map fun t' => ((), t')) t)
  accept _ _ t := some t
  halt _ t := t
  environment e := e.elim

abbrev ConnectConfig := Config Exn Declaration (fun _ => Unit) Topology Unit Unit

/-- The declaration is in effect. -/
def Declaration.InEffect (t : Topology) : Declaration → Prop
  | .exchange name => name ∈ t.exchanges
  | .queue name arguments => t.queues.lookup name = some arguments
  | .binding b => b ∈ t.bindings

/-- All that is declared is declared by `connect`, and once. -/
structure Within (t : Topology) : Prop where
  queues : ∀ name arguments, t.queues.lookup name = some arguments →
    .queue name arguments ∈ declarations
  bindings : ∀ b ∈ t.bindings, .binding b ∈ declarations
  once : t.bindings.Nodup

/-- The topology in which the messages get where they belong. -/
structure Routed (t : Topology) : Prop where
  tasks : exchangeName ∈ t.exchanges
  retries : retryExchangeName ∈ t.exchanges
  route : t.route exchangeName routingKey = [queueName]
  routeRetry : ∀ index < retryDelaysMs.length,
    t.route retryExchangeName (retryRoutingKey index) = [retryQueueName index]
  routeDead : t.route deadExchangeName deadRoutingKey = [deadQueueName]
  queue : t.queues.lookup queueName = some ⟨none, some (deadExchangeName, deadRoutingKey)⟩
  retryQueue : ∀ index (h : index < retryDelaysMs.length),
    t.queues.lookup (retryQueueName index) =
      some ⟨some retryDelaysMs[index], some (exchangeName, routingKey)⟩

section

variable {t t' : Topology} {d : Declaration} {exchange key queue : String}

def Declaration.queue? : Declaration → Option (String × QueueArguments)
  | .queue name arguments => some (name, arguments)
  | _ => none

def Declaration.binding? : Declaration → Option Binding
  | .binding b => some b
  | _ => none

/-- No queue is declared twice. -/
theorem arguments_unique {name : String} {arguments other : QueueArguments}
    (h : .queue name arguments ∈ declarations) (hother : .queue name other ∈ declarations) :
    arguments = other := by
  have hall : ∀ p ∈ declarations.filterMap Declaration.queue?,
      ∀ p' ∈ declarations.filterMap Declaration.queue?, p.1 = p'.1 → p.2 = p'.2 := by
    decide +kernel
  exact hall (name, arguments) (List.mem_filterMap.2 ⟨_, h, rfl⟩) (name, other)
    (List.mem_filterMap.2 ⟨_, hother, rfl⟩) rfl

/-- A declaration of `connect` succeeds where what it needs is there, and takes effect. -/
theorem Declaration.execute_ok (h : Within t) (hd : d ∈ declarations)
    (hready : ∀ b, d = .binding b →
      b.exchange ∈ t.exchanges ∧ (t.queues.lookup b.queue).isSome) :
    ∃ t', d.execute t = .ok t' ∧ Within t' ∧ d.InEffect t' ∧
      ∀ other : Declaration, other.InEffect t → other.InEffect t' := by
  cases d with
  | exchange name =>
      refine ⟨_, rfl, ⟨h.queues, h.bindings, h.once⟩, ?_, ?_⟩
      · exact List.mem_insert_self
      · intro other hother
        cases other with
        | exchange name' => exact List.mem_insert_of_mem hother
        | queue name' arguments => exact hother
        | binding b => exact hother
  | queue name arguments =>
      cases hlookup : t.queues.lookup name with
      | some declared =>
          obtain rfl := arguments_unique hd (h.queues name declared hlookup)
          refine ⟨t, ?_, h, hlookup, fun _ => id⟩
          simp [Declaration.execute, Topology.declareQueue, hlookup]
      | none =>
          have hkept : ∀ other, (t.queues ++ [(name, arguments)]).lookup other =
              if other = name then some arguments else t.queues.lookup other := by
            intro other
            rw [List.lookup_append]
            by_cases heq : other = name
            · subst heq
              simp [hlookup]
            · have hne : (other == name) = false := beq_eq_false_iff_ne.2 heq
              simp [List.lookup_cons, hne, heq]
          refine ⟨{ t with queues := t.queues ++ [(name, arguments)] }, ?_, ?_, ?_, ?_⟩
          · simp [Declaration.execute, Topology.declareQueue, hlookup]
          · refine ⟨?_, h.bindings, h.once⟩
            intro other arguments' hother
            rw [hkept] at hother
            split at hother
            · next heq =>
                cases hother
                exact heq ▸ hd
            · exact h.queues other arguments' hother
          · change (t.queues ++ [(name, arguments)]).lookup name = _
            rw [hkept, if_pos rfl]
          · intro other hother
            cases other with
            | exchange name' => exact hother
            | queue name' arguments' =>
                change (t.queues ++ [(name, arguments)]).lookup name' = _
                have hother : t.queues.lookup name' = some arguments' := hother
                rw [hkept, if_neg, hother]
                rintro rfl
                rw [hlookup] at hother
                cases hother
            | binding b => exact hother
  | binding b =>
      have hboth := hready b rfl
      refine ⟨{ t with bindings := t.bindings.insert b }, ?_, ?_, ?_, ?_⟩
      · simp only [Declaration.execute, Topology.bind]
        rw [if_pos hboth]
      · refine ⟨h.queues, ?_, h.once.insert⟩
        intro other hother
        rcases List.mem_insert_iff.1 hother with rfl | hother
        · exact hd
        · exact h.bindings other hother
      · exact List.mem_insert_self
      · intro other hother
        cases other with
        | exchange name' => exact hother
        | queue name' arguments => exact hother
        | binding b' => exact List.mem_insert_of_mem hother

/-- What `connect` has done, and what it has still to do. -/
structure Connecting (t : Topology) (p : ConnectProgram Unit) (done rest : List Declaration) :
    Prop where
  all : done ++ rest = declarations
  program : p = declareAll rest
  inEffect : ∀ d ∈ done, d.InEffect t

/-- Some process's `connect`, as far as it has come; unless the environment let it fail. -/
structure Connected (c : ConnectConfig) : Prop where
  within : Within c.state
  stage : ∀ i p, c.pool i = .running () p →
    (∃ done rest, Connecting c.state p done rest) ∨ ∃ exc, p = .throw exc

theorem Connecting.later {p : ConnectProgram Unit} {done rest : List Declaration}
    (h : Connecting t p done rest)
    (hkeep : ∀ d : Declaration, d.InEffect t → d.InEffect t') : Connecting t' p done rest :=
  ⟨h.all, h.program, fun d hd => hkeep d (h.inEffect d hd)⟩

/-- A binding needs its exchange and its queue. -/
def Declaration.placed (done : List Declaration) : Declaration → Bool
  | .binding b => decide (.exchange b.exchange ∈ done) &&
      done.any fun d => d.queue?.any fun queue => queue.1 == b.queue
  | _ => true

/-- Each binding of `connect` is made between an exchange and a queue that were declared
before it. -/
theorem declared_before {done rest : List Declaration} {b : Binding}
    (h : done ++ .binding b :: rest = declarations) :
    .exchange b.exchange ∈ done ∧ ∃ arguments, .queue b.queue arguments ∈ done := by
  have hall : ∀ k < declarations.length, ∀ d ∈ declarations[k]?,
      d.placed (declarations.take k) = true := by decide +kernel
  have htake : declarations.take done.length = done := by
    rw [← h, List.take_left]
  have hget : declarations[done.length]? = some (.binding b) := by
    rw [← h]
    simp
  have hlength : done.length < declarations.length := by
    rw [← h]
    simp
  have hplaced := hall done.length hlength _ hget
  simp only [htake, Declaration.placed, Bool.and_eq_true, decide_eq_true_eq,
    List.any_eq_true] at hplaced
  obtain ⟨hexchange, d, hd, hqueue⟩ := hplaced
  refine ⟨hexchange, ?_⟩
  cases d with
  | queue name arguments =>
      obtain rfl : name = b.queue := by simpa [Declaration.queue?] using hqueue
      exact ⟨arguments, hd⟩
  | _ => simp [Declaration.queue?] at hqueue

/-- The declaration that a process has come to can be made. -/
theorem Connecting.ready {p : ConnectProgram Unit} {done rest : List Declaration}
    (h : Connecting t p done (d :: rest)) : ∀ b, d = .binding b →
      b.exchange ∈ t.exchanges ∧ (t.queues.lookup b.queue).isSome := by
  rintro b rfl
  obtain ⟨hexchange, arguments, hqueue⟩ := declared_before h.all
  have hlookup : t.queues.lookup b.queue = some arguments := h.inEffect _ hqueue
  exact ⟨h.inEffect _ hexchange, by rw [hlookup]; rfl⟩

/-- One step of a process leaves the others where they are. -/
theorem Connected.update {c : ConnectConfig} (h : Connected c) {i : ℕ}
    {slot : Slot Exn Declaration (fun _ => Unit) Unit Unit} (hwithin : Within t)
    (hkeep : ∀ d : Declaration, d.InEffect c.state → d.InEffect t)
    (hslot : ∀ p, slot = .running () p →
      (∃ done rest, Connecting t p done rest) ∨ ∃ exc, p = .throw exc) :
    Connected ⟨Function.update c.pool i slot, t⟩ := by
  refine ⟨hwithin, ?_⟩
  intro j p hj
  by_cases hij : j = i
  · subst hij
    exact hslot p (by simpa using hj)
  · simp only [Function.update_of_ne hij] at hj
    rcases h.stage j p hj with ⟨done, rest, hconnecting⟩ | hthrow
    · exact .inl ⟨done, rest, hconnecting.later hkeep⟩
    · exact .inr hthrow

/-- A declaration of a process that connects is answered as the environment wants it. -/
theorem Connected.call {c : ConnectConfig} (h : Connected c) {i : ℕ}
    {k : Except Exn Unit → ConnectProgram Unit} (hslot : c.pool i = .running () (.call d k))
    {ending : Ending Exn} {r : Except Exn Unit}
    (hanswer : connectMachine.answer i d ending c.state = some (r, t)) :
    Connected ⟨Function.update c.pool i (.running () (k r)), t⟩ ∧
      ∀ exc, k r = .throw exc → ending = .lost exc ∨ ending = .late exc := by
  obtain ⟨done, rest, hconnecting⟩ : ∃ done rest, Connecting c.state (.call d k) done rest := by
    rcases h.stage i _ hslot with hconnecting | ⟨exc, hthrow⟩
    · exact hconnecting
    · cases hthrow
  obtain ⟨rest, rfl, hk⟩ : ∃ rest', rest = d :: rest' ∧
      k = fun r => (Program.ofExcept r).handle (fun _ => declareAll rest') .throw := by
    cases rest with
    | nil => cases hconnecting.program
    | cons d' rest' =>
        cases hconnecting.program
        exact ⟨rest', rfl, rfl⟩
  have hmem : d ∈ declarations := by
    rw [← hconnecting.all]
    simp
  obtain ⟨t', hexecute, hwithin, heffect, hkeep⟩ := d.execute_ok h.within hmem hconnecting.ready
  have hnext : Connecting t' (declareAll rest) (done ++ [d]) rest := by
    refine ⟨?_, rfl, ?_⟩
    · rw [List.append_assoc]
      exact hconnecting.all
    · intro other hother
      rcases List.mem_append.1 hother with hother | hother
      · exact hkeep other (hconnecting.inEffect other hother)
      · rw [List.mem_singleton.1 hother]
        exact heffect
  have hanswer' : (ending.answer (.ok ((), t')) c.state : Except Exn Unit × Topology) = (r, t) := by
    have hresult := Option.some.inj hanswer
    rwa [hexecute] at hresult
  subst hk
  cases ending with
  | done =>
      cases hanswer'
      refine ⟨h.update hwithin hkeep ?_, ?_⟩
      · rintro p ⟨⟩
        exact .inl ⟨_, _, hnext⟩
      · intro exc hthrow
        cases rest <;> cases hthrow
  | lost exc =>
      cases hanswer'
      refine ⟨h.update h.within (fun _ => id) ?_, ?_⟩
      · rintro p ⟨⟩
        exact .inr ⟨exc, rfl⟩
      · rintro _ ⟨⟩
        exact .inl rfl
  | late exc =>
      cases hanswer'
      refine ⟨h.update hwithin hkeep ?_, ?_⟩
      · rintro p ⟨⟩
        exact .inr ⟨exc, rfl⟩
      · rintro _ ⟨⟩
        exact .inr rfl

/-- What raises in `connect` is what the environment lets fail. -/
def Excused (i : ℕ) (exc : Exn) (a : Action (Ending Exn) Unit Empty) : Prop :=
  a = .call i (.lost exc) ∨ a = .call i (.late exc)

theorem Connected.step {c c' : ConnectConfig} (h : Connected c)
    {a : Action (Ending Exn) Unit Empty} (hstep : connectMachine.step a c = some c') :
    Connected c' ∧ ∀ i exc, c'.pool i = .running () (.throw exc) →
      c.pool i = .running () (.throw exc) ∨ Excused i exc a := by
  cases a with
  | call i ending =>
      obtain ⟨q, d, k, r, t, hslot, hanswer, rfl⟩ := connectMachine.step_call hstep
      obtain ⟨hconnected, hraised⟩ := h.call hslot hanswer
      refine ⟨hconnected, ?_⟩
      intro j exc hj
      by_cases hij : j = i
      · subst hij
        simp only [Function.update_self, Slot.running.injEq] at hj
        rcases hraised exc hj.2 with rfl | rfl
        · exact .inr (.inl rfl)
        · exact .inr (.inr rfl)
      · simp only [Function.update_of_ne hij] at hj
        exact .inl hj
  | start i q =>
      obtain ⟨t, hslot, ht, rfl⟩ := connectMachine.step_start hstep
      cases ht
      refine ⟨h.update h.within (fun _ => id) ?_, ?_⟩
      · rintro p ⟨⟩
        exact .inl ⟨[], declarations, rfl, rfl, by simp⟩
      · intro j exc hj
        by_cases hij : j = i
        · subst hij
          simp at hj
          cases hj
        · simp only [Function.update_of_ne hij] at hj
          exact .inl hj
  | crash i =>
      obtain ⟨q, p, hslot, rfl⟩ := connectMachine.step_crash hstep
      refine ⟨h.update h.within (fun _ => id) (by simp), ?_⟩
      intro j exc hj
      by_cases hij : j = i
      · subst hij
        simp at hj
      · simp only [Function.update_of_ne hij] at hj
        exact .inl hj
  | environment e => exact e.elim

/-- The routing keys of `connect`, each with its queue. -/
def boundKeys : List Binding := declarations.filterMap Declaration.binding?

/-- A routing key of `connect` leads to its queue and to no other. -/
theorem route_of_inEffect (h : Within t) {b : Binding} (hb : b ∈ t.bindings)
    (hunique : ∀ other ∈ boundKeys, other.exchange = b.exchange → other.routingKey = b.routingKey →
      other = b) : t.route b.exchange b.routingKey = [b.queue] := by
  have hsame : ∀ other ∈ t.bindings, (other.exchange == b.exchange &&
      other.routingKey == b.routingKey) = (other == b) := by
    intro other hother
    have hdeclared : other ∈ boundKeys := List.mem_filterMap.2 ⟨_, h.bindings other hother, rfl⟩
    rw [Bool.eq_iff_iff, Bool.and_eq_true, beq_iff_eq, beq_iff_eq, beq_iff_eq]
    constructor
    · rintro ⟨hexchange, hkey⟩
      exact hunique other hdeclared hexchange hkey
    · rintro rfl
      exact ⟨rfl, rfl⟩
  rw [Topology.route, List.filter_congr hsame, List.filter_beq, List.count_eq_one_of_mem h.once hb]
  rfl

/-- With all declarations in effect, the messages get where they belong. -/
theorem routed_of_inEffect (h : Within t) (hall : ∀ d ∈ declarations, d.InEffect t) :
    Routed t where
  tasks := hall (.exchange exchangeName) (by decide +kernel)
  retries := hall (.exchange retryExchangeName) (by decide +kernel)
  route := route_of_inEffect h
    (hall (.binding ⟨exchangeName, routingKey, queueName⟩) (by decide +kernel)) (by decide +kernel)
  routeRetry index hindex := by
    have hdeclared : ∀ index < retryDelaysMs.length,
        .binding ⟨retryExchangeName, retryRoutingKey index, retryQueueName index⟩ ∈ declarations ∧
          ∀ other ∈ boundKeys, other.exchange = retryExchangeName →
            other.routingKey = retryRoutingKey index →
              other = ⟨retryExchangeName, retryRoutingKey index, retryQueueName index⟩ := by
      decide +kernel
    obtain ⟨hmem, hunique⟩ := hdeclared index hindex
    exact route_of_inEffect h (hall _ hmem) hunique
  routeDead := route_of_inEffect h
    (hall (.binding ⟨deadExchangeName, deadRoutingKey, deadQueueName⟩) (by decide +kernel))
    (by decide +kernel)
  queue := hall (.queue queueName _) (by decide +kernel)
  retryQueue index hindex := by
    have hdeclared : ∀ index (h : index < retryDelaysMs.length),
        .queue (retryQueueName index) ⟨some retryDelaysMs[index], some (exchangeName, routingKey)⟩ ∈
          declarations := by
      decide +kernel
    exact hall _ (hdeclared index hindex)

end

/-- In every run each process has made its declarations, and they are in effect. -/
theorem connected_run {h : List (ConnectConfig × Action (Ending Exn) Unit Empty)}
    {c : ConnectConfig}
    (run : connectMachine.Run Policy.any (.initial .empty) h c) : Connected c := by
  have hinitial : Connected (.initial .empty) := by
    refine ⟨⟨by simp [Config.initial, Topology.empty], by simp [Config.initial, Topology.empty],
      List.nodup_nil⟩, ?_⟩
    intro i p hslot
    cases hslot
  exact (run.invariant Connected hinitial fun _ _ _ hc _ hstep => (hc.step hstep).1).1

/-- A process that has connected. -/
theorem Connected.routed {c : ConnectConfig} (hc : Connected c) {i : ℕ}
    (hreturned : c.pool i = .running () (.pure ())) : Routed c.state := by
  rcases hc.stage i _ hreturned with ⟨done, rest, hconnecting⟩ | ⟨exc, hthrow⟩
  · cases rest with
    | nil =>
        apply routed_of_inEffect hc.within
        intro d hd
        apply hconnecting.inEffect
        rwa [← hconnecting.all, List.append_nil] at hd
    | cons d rest => cases hconnecting.program
  · cases hthrow

/-- Whatever processes connect at once: nothing is raised but what the environment lets fail,
and when one of them has connected, every message gets where it belongs. -/
theorem connect_interleaved {h : List (ConnectConfig × Action (Ending Exn) Unit Empty)}
    {c : ConnectConfig}
    (run : connectMachine.Run Policy.any (.initial .empty) h c) :
    (∀ i exc, c.pool i = .running () (.throw exc) → ∃ v ∈ h, Excused i exc v.2) ∧
      ∀ i, c.pool i = .running () (.pure ()) → Routed c.state := by
  refine ⟨?_, fun i => (connected_run run).routed⟩
  induction run with
  | nil =>
      intro i exc hthrow
      cases hthrow
  | snoc run _ hstep ih =>
      intro i exc hthrow
      rcases ((connected_run run).step hstep).2 i exc hthrow with hbefore | hexcused
      · obtain ⟨v, hv, hexcused⟩ := ih i exc hbefore
        exact ⟨v, List.mem_append_left _ hv, hexcused⟩
      · exact ⟨_, List.mem_append_right _ (List.mem_singleton_self _), hexcused⟩

/-- The thread has returned. -/
def returned (slot : Slot Exn Declaration (fun _ => Unit) Unit Unit) : Bool :=
  match slot with
  | .running _ (.pure _) => true
  | _ => false

/-- Two processes whose declarations alternate; the second loses its connection at the end. -/
def demoConnecting : List (Action (Ending Exn) Unit Empty) :=
  [.start 0 (), .start 1 ()] ++
    (List.replicate 12 [.call 0 .done, .call 1 .done]).flatten ++
    [.call 0 .done, .call 1 (.lost .timeoutError)]

theorem connect_interleaved_demo : ∃ h c,
    connectMachine.Run Policy.any (.initial .empty) h c ∧ returned (c.pool 0) = true ∧
      returned (c.pool 1) = false ∧
      (∀ i exc, c.pool i = .running () (.throw exc) → ∃ v ∈ h, Excused i exc v.2) ∧
      ∀ i, c.pool i = .running () (.pure ()) → Routed c.state := by
  have hend : (connectMachine.exec Policy.any demoConnecting (.initial .empty)).map
      (fun c => (returned (c.pool 0), returned (c.pool 1))) = some (true, false) := by
    decide +kernel
  obtain ⟨c, hc, hreturned⟩ := Option.map_eq_some_iff.1 hend
  obtain ⟨h, run⟩ := Machine.Run.exec .nil hc
  exact ⟨_, c, run, congrArg Prod.fst hreturned, congrArg Prod.snd hreturned,
    connect_interleaved run⟩

end CommerceAgent
