import WasmerJs.Net.Connect

/-! The loop of `connect_networking` (`src/net.rs`) over one connection after the other. The connections share the
    channels from and to the client, and the web sockets and relay tasks of earlier ones go on. -/

namespace WasmerJs
namespace Net
open Transition

variable {Message : Type}

/-! ### The loop -/

/-- What a connection has for itself. -/
structure Own (Message : Type) where
  relay : List Bytes := []
  relayRx : RelayRx Message := .waiting
  connected : List Bool := []
  task : Task := .connecting

/-- A request in the channel from the client, which the relay tasks of the connections send to as well. -/
inductive Queued where
  | reconnect (issuer : Nat)
  | other
  deriving DecidableEq

namespace Queued

def request : Queued → MessageRequest
  | .reconnect _ => .reconnect
  | .other => .other

/-- The request of a connection or of the client. -/
def tag (k : Nat) : MessageRequest → Queued
  | .reconnect => .reconnect k
  | .other => .other

end Queued

structure Gateway (Message : Type) where
  backoff : Nat := 0
  -- How many web sockets were made, and what their connections are.
  made : Nat := 0
  own : Nat → Own Message := fun _ => {}
  recv : List Message := []
  client : Bool := true
  send : List Queued := []
  panicked : Bool := false

/-- The loop wakes up and makes a web socket or fails to, or something happens in a connection. -/
inductive GatewayEvent where
  | wake (made : Bool)
  | on (k : Nat) (e : Event)
  deriving DecidableEq

/-- What the client does, on the channels that all connections share. -/
def Event.ofClient : Event → Bool
  | .clientRecv => true
  | .clientRequest => true
  | .clientDrop => true
  | .onopen => false
  | .onclose => false
  | .onmessage _ => false
  | .connectedRecv => false
  | .relayRecv => false
  | .recvSend => false
  | .sendRecv _ => false

/-- The requests after a connection has taken the first of them, added a last one, or none of these. -/
def requeue (k : Nat) (queue : List Queued) (send : List MessageRequest) : List Queued :=
  queue.drop (queue.length - send.length) ++ (send.drop queue.length).map (Queued.tag k)

namespace Gateway

/-- A connection with the channels that it shares. -/
def connection (g : Gateway Message) (k : Nat) : Connection Message where
  relay := (g.own k).relay
  relayRx := (g.own k).relayRx
  connected := (g.own k).connected
  task := (g.own k).task
  recv := g.recv
  client := g.client
  send := g.send.map Queued.request
  panicked := g.panicked

/-- A connection has become `c`. The backoff is reset when it was opened. -/
def put (g : Gateway Message) (k : Nat) (c : Connection Message) : Gateway Message :=
  { g with
    backoff := if (g.own k).task = .connecting ∧ c.task = .sending then 100 else g.backoff
    own := Function.update g.own k
      { relay := c.relay, relayRx := c.relayRx, connected := c.connected, task := c.task }
    recv := c.recv
    client := c.client
    send := requeue k g.send c.send
    panicked := c.panicked }

/-- The task has left all connections that were made. -/
def between (g : Gateway Message) : Bool :=
  match g.made with
  | 0 => true
  | k + 1 => (g.own k).task = .left

/-- The start of an iteration of the loop, after the sleep. -/
def wake (g : Gateway Message) (made : Bool) : Option (Gateway Message) :=
  if g.between ∧ g.panicked = false then
    let g := { g with backoff := min 8000 (g.backoff * 2 + 100) }
    some (if made then { g with made := g.made + 1, own := Function.update g.own g.made {} } else g)
  else none

end Gateway

variable (deserialize : Bytes → Option Message)

/-- A step of the system. Connections step as in `step`. -/
def gatewayStep (g : Gateway Message) : GatewayEvent → Option (Gateway Message)
  | .wake made => g.wake made
  | .on k e =>
    if k < g.made ∨ e.ofClient = true then (step deserialize (g.connection k) e).map (g.put k) else none

/-! ### What is expected of connections -/

/-- The relay task forwards messages to the client. -/
def RelayRx.running : RelayRx Message → Bool
  | .waiting => false
  | .relayTask _ => true
  | .dropped => false

/-- The request to reconnect that ends a send loop does not come from an earlier connection. -/
def OwnRequest (g : Gateway Message) (e : GatewayEvent) : Prop :=
  ∀ k sent j, e = .on k (.sendRecv sent) → g.send.head? = some (.reconnect j) → ¬ j < k

/-- Nothing is sent on a connection that has asked to reconnect, because its relay task has ended. -/
def NotUsed (g : Gateway Message) (e : GatewayEvent) : Prop :=
  ∀ k sent, e = .on k (.sendRecv sent) → g.send.head? = some .other → (g.own k).relayRx ≠ .dropped

structure EndsOnlyItself (g : Gateway Message) (e : GatewayEvent) : Prop where
  ownRequest : OwnRequest g e
  notUsed : NotUsed g e

/-- At most one connection forwards messages. -/
def OneRelay (g : Gateway Message) : Prop :=
  ∀ j k, (g.own j).relayRx.running = true → (g.own k).relayRx.running = true → j = k

/-- The event ends the relay task of a connection: what it takes is empty or cannot be decoded, or the client is
    gone. -/
inductive RelayEnds (c : Connection Message) : Event → Prop where
  | bad {data : Bytes} {relay : List Bytes} (hrx : c.relayRx = .relayTask none) (hrelay : c.relay = data :: relay)
      (hbad : data = [] ∨ deserialize data = none) : RelayEnds c .relayRecv
  | alone {message : Message} (hrx : c.relayRx = .relayTask (some message)) (hclient : c.client = false) :
      RelayEnds c .recvSend

/-- No request fails to be sent, and no request waits when a relay task ends. -/
structure InTurn (g : Gateway Message) (e : GatewayEvent) : Prop where
  sent : ∀ k, e = .on k (.sendRecv false) → g.send.head? ≠ some .other
  noneWaits : ∀ k e', e = .on k e' → RelayEnds deserialize (g.connection k) e' → g.send = []

/-! ### What a step of a connection changes -/

/-- How a step changes the task, the relay task and the channel from the client. -/
inductive Change (c : Connection Message) : Event → Connection Message → Prop where
  | quiet {e : Event} {t : Connection Message} (htask : t.task = c.task)
      (hrunning : t.relayRx.running = c.relayRx.running) (hdropped : t.relayRx = .dropped ↔ c.relayRx = .dropped)
      (hsend : t.send = c.send) : Change c e t
  | request {t : Connection Message} (htask : t.task = c.task) (hrx : t.relayRx = c.relayRx)
      (hsend : t.send = c.send ++ [.other]) : Change c .clientRequest t
  | opened {t : Connection Message} (hbefore : c.task = .connecting) (htask : t.task = .sending)
      (hrx : t.relayRx = .relayTask none) (hsend : t.send = c.send) : Change c .connectedRecv t
  | closed {t : Connection Message} (hbefore : c.task = .connecting) (htask : t.task = .left)
      (hrx : t.relayRx = .dropped) (hsend : t.send = c.send) : Change c .connectedRecv t
  | relayEnded {e : Event} {t : Connection Message} (h : RelayEnds deserialize c e) (htask : t.task = c.task)
      (hrx : t.relayRx = .dropped)
      (hsend : t.send = if c.send.length < capacity then c.send ++ [.reconnect] else c.send) : Change c e t
  | reconnected {sent : Bool} {t : Connection Message} {send : List MessageRequest} (hbefore : c.task = .sending)
      (hhead : c.send = .reconnect :: send) (htask : t.task = .left) (hrx : t.relayRx = c.relayRx)
      (hsend : t.send = send) : Change c (.sendRecv sent) t
  | sent {t : Connection Message} {send : List MessageRequest} (hbefore : c.task = .sending)
      (hhead : c.send = .other :: send) (htask : t.task = .sending) (hrx : t.relayRx = c.relayRx)
      (hsend : t.send = send) : Change c (.sendRecv true) t
  | failed {t : Connection Message} {send : List MessageRequest} (hbefore : c.task = .sending)
      (hhead : c.send = .other :: send) (htask : t.task = .left) (hrx : t.relayRx = c.relayRx)
      (hsend : t.send = send) : Change c (.sendRecv false) t

section Change

variable {deserialize} {c t : Connection Message} {e : Event}

theorem connectedSend_quiet (c : Connection Message) (signal : Bool) :
    (c.connectedSend signal).task = c.task ∧ (c.connectedSend signal).relayRx = c.relayRx ∧
      (c.connectedSend signal).send = c.send := by
  unfold Connection.connectedSend
  split
  · exact ⟨rfl, rfl, rfl⟩
  · exact ⟨rfl, rfl, rfl⟩
  · exact ⟨rfl, rfl, rfl⟩

theorem change_of_relayRecv (hs : c.relayRecv deserialize = some t) : Change deserialize c .relayRecv t := by
  unfold Connection.relayRecv at hs
  split at hs
  · rename_i data relay hrx hrelay
    split at hs
    · rename_i hempty
      cases hs
      exact .relayEnded (.bad hrx hrelay (.inl hempty)) rfl rfl rfl
    · split at hs
      · rename_i hbad
        cases hs
        exact .relayEnded (.bad hrx hrelay (.inr hbad)) rfl rfl rfl
      · cases hs
        exact .quiet rfl (by rw [hrx]; rfl) (by simp [hrx]) rfl
  · cases hs
  · cases hs
  · cases hs
  · cases hs

theorem change_of_recvSend (hs : c.recvSend = some t) : Change deserialize c .recvSend t := by
  unfold Connection.recvSend at hs
  split at hs
  · rename_i message hrx
    split at hs
    · split at hs
      · cases hs
        exact .quiet rfl (by rw [hrx]; rfl) (by simp [hrx]) rfl
      · cases hs
    · rename_i hclient
      cases hs
      exact .relayEnded (.alone hrx (Bool.eq_false_iff.mpr hclient)) rfl rfl rfl
  · cases hs
  · cases hs
  · cases hs

theorem change_of_sendRecv {sent : Bool} (hs : c.sendRecv sent = some t) :
    Change deserialize c (.sendRecv sent) t := by
  unfold Connection.sendRecv at hs
  split at hs
  · rename_i htask hsend
    cases hs
    exact .reconnected htask hsend rfl rfl rfl
  · rename_i htask hsend
    cases sent with
    | true =>
      cases hs
      exact .sent htask hsend htask rfl rfl
    | false =>
      cases hs
      exact .failed htask hsend rfl rfl rfl
  · cases hs
  · cases hs
  · cases hs

theorem change_of_onmessage {data : MessageData} : Change deserialize c (.onmessage data) (c.onmessage data) := by
  cases data with
  | arrayBuffer data =>
    rcases relaySend_cases c data with ⟨-, heq⟩ | ⟨-, heq⟩
    · have hpanic : c.onmessage (.arrayBuffer data) = { c with panicked := true } := by
        simp [Connection.onmessage, heq]
      rw [hpanic]
      exact .quiet rfl rfl Iff.rfl rfl
    · have hmessage : c.onmessage (.arrayBuffer data) = { c with relay := c.relay ++ [data] } := by
        simp [Connection.onmessage, heq]
      rw [hmessage]
      exact .quiet rfl rfl Iff.rfl rfl
  | text txt => exact .quiet rfl rfl Iff.rfl rfl
  | unknown => exact .quiet rfl rfl Iff.rfl rfl

theorem change_of_onclose : Change deserialize c .onclose c.onclose := by
  rcases relaySend_cases c [] with ⟨-, heq⟩ | ⟨-, heq⟩
  · have hclose : c.onclose = c.connectedSend false := by rw [Connection.onclose, heq, Option.getD_none]
    obtain ⟨htask, hrx, hsend⟩ := connectedSend_quiet c false
    rw [hclose]
    exact .quiet htask (by rw [hrx]) (by rw [hrx]) hsend
  · have hclose : c.onclose = ({ c with relay := c.relay ++ [[]] } : Connection Message).connectedSend false := by
      rw [Connection.onclose, heq, Option.getD_some]
    obtain ⟨htask, hrx, hsend⟩ := connectedSend_quiet { c with relay := c.relay ++ [[]] } false
    rw [hclose]
    exact .quiet htask (by rw [hrx]) (by rw [hrx]) hsend

/-- The changes are all that a step can do. -/
theorem change_of_step (hs : step deserialize c e = some t) : Change deserialize c e t := by
  unfold step at hs
  split at hs
  · cases hs
  cases e with
  | onopen =>
    cases hs
    obtain ⟨htask, hrx, hsend⟩ := connectedSend_quiet c true
    exact .quiet htask (by rw [Connection.onopen, hrx]) (by rw [Connection.onopen, hrx]) hsend
  | onclose =>
    cases hs
    exact change_of_onclose
  | onmessage data =>
    cases hs
    exact change_of_onmessage
  | connectedRecv =>
    simp only [Connection.connectedRecv] at hs
    split at hs
    · rename_i htask _
      cases hs
      exact .opened htask rfl rfl rfl
    · rename_i htask _
      cases hs
      exact .closed htask rfl rfl rfl
    · cases hs
    · cases hs
    · cases hs
  | relayRecv => exact change_of_relayRecv hs
  | recvSend => exact change_of_recvSend hs
  | clientRecv =>
    simp only [Connection.clientRecv] at hs
    split at hs
    · cases hs
      exact .quiet rfl rfl Iff.rfl rfl
    · cases hs
    · cases hs
  | clientRequest =>
    simp only [Connection.clientRequest] at hs
    split at hs
    · cases hs
      exact .request rfl rfl rfl
    · cases hs
  | clientDrop =>
    cases hs
    exact .quiet rfl rfl Iff.rfl rfl
  | sendRecv sent => exact change_of_sendRecv hs

end Change

/-! ### The queue -/

section Queue

variable {k : Nat} {queue : List Queued}

theorem requeue_same : requeue k queue (queue.map Queued.request) = queue := by
  simp [requeue]

theorem requeue_concat {r : MessageRequest} :
    requeue k queue (queue.map Queued.request ++ [r]) = queue ++ [Queued.tag k r] := by
  simp [requeue]

theorem requeue_tail {q : Queued} : requeue k (q :: queue) (queue.map Queued.request) = queue := by
  simp [requeue]

theorem map_request_eq_cons {r : MessageRequest} {send : List MessageRequest}
    (h : queue.map Queued.request = r :: send) :
    ∃ q rest, queue = q :: rest ∧ q.request = r ∧ requeue k queue send = rest := by
  obtain ⟨q, rest, rfl, hq, rfl⟩ := List.map_eq_cons_iff.mp h
  exact ⟨q, rest, rfl, hq, requeue_tail⟩

theorem request_eq_reconnect {q : Queued} (h : q.request = .reconnect) : ∃ j, q = .reconnect j := by
  cases q with
  | reconnect j => exact ⟨j, rfl⟩
  | other => cases h

theorem request_eq_other {q : Queued} (h : q.request = .other) : q = .other := by
  cases q with
  | reconnect j => cases h
  | other => rfl

/-- The requests after a relay task has ended. -/
theorem requeue_relayEnd : requeue k queue (if (queue.map Queued.request).length < capacity then
      queue.map Queued.request ++ [.reconnect] else queue.map Queued.request) =
    if queue.length < capacity then queue ++ [.reconnect k] else queue := by
  rw [List.length_map]
  split
  · exact requeue_concat
  · exact requeue_same

end Queue

/-! ### Steps in turn -/

section Gateway

variable {deserialize} {g g' : Gateway Message} {k : Nat} {e : Event} {c : Connection Message}

namespace Gateway

@[simp] theorem put_made : (g.put k c).made = g.made := rfl

@[simp] theorem put_send : (g.put k c).send = requeue k g.send c.send := rfl

@[simp] theorem put_panicked : (g.put k c).panicked = c.panicked := rfl

theorem put_own : (g.put k c).own k =
    { relay := c.relay, relayRx := c.relayRx, connected := c.connected, task := c.task } := by
  simp [put]

theorem put_own_ne {j : Nat} (h : j ≠ k) : (g.put k c).own j = g.own j := by
  simp [put, h]

/-- What a step of a connection leaves as it is. -/
theorem put_keeps {α : Sort _} (f : Own Message → α)
    (h : f { relay := c.relay, relayRx := c.relayRx, connected := c.connected, task := c.task } = f (g.own k))
    (j : Nat) : f ((g.put k c).own j) = f (g.own j) := by
  by_cases heq : j = k
  · rw [heq, put_own, h]
  · rw [put_own_ne heq]

end Gateway

/-- The event of a connection of the loop is a step of that connection. -/
theorem gatewayStep_on (hs : gatewayStep deserialize g (.on k e) = some g') :
    (k < g.made ∨ e.ofClient = true) ∧ ∃ c, step deserialize (g.connection k) e = some c ∧ g' = g.put k c := by
  rw [gatewayStep] at hs
  split at hs
  · rename_i h
    obtain ⟨c, hc, rfl⟩ := Option.map_eq_some_iff.mp hs
    exact ⟨h, c, hc, rfl⟩
  · cases hs

/-- A step of a connection leaves in the queue what it leaves in its channel. -/
theorem Change.requeue (h : Change deserialize (g.connection k) e c) :
    (requeue k g.send c.send).map Queued.request = c.send := by
  have hsame : ∀ {send : List MessageRequest}, send = (g.connection k).send →
      (Net.requeue k g.send send).map Queued.request = send := by
    rintro _ rfl
    exact congrArg _ requeue_same
  have hmore : ∀ {r : MessageRequest} {send : List MessageRequest}, send = (g.connection k).send ++ [r] →
      (Net.requeue k g.send send).map Queued.request = send := by
    rintro r _ rfl
    have htag : (Queued.tag k r).request = r := by cases r <;> rfl
    refine (congrArg _ requeue_concat).trans ?_
    rw [List.map_append, List.map_singleton, htag]
    rfl
  have hless : ∀ {r : MessageRequest} {send : List MessageRequest}, (g.connection k).send = r :: send →
      (Net.requeue k g.send send).map Queued.request = send := by
    intro r send hhead
    obtain ⟨q, rest, hqueue, -, hrest⟩ := map_request_eq_cons (k := k) hhead
    have htail : (q :: rest).map Queued.request = r :: send := hqueue ▸ hhead
    rw [hrest]
    exact (List.cons.inj htail).2
  cases h with
  | quiet _ _ _ hsend => exact hsame hsend
  | request _ _ hsend => exact hmore hsend
  | opened _ _ _ hsend => exact hsame hsend
  | closed _ _ _ hsend => exact hsame hsend
  | relayEnded _ _ _ hsend =>
    split at hsend
    · exact hmore hsend
    · exact hsame hsend
  | reconnected _ hhead _ _ hsend => exact hsend ▸ hless hhead
  | sent _ hhead _ _ hsend => exact hsend ▸ hless hhead
  | failed _ hhead _ _ hsend => exact hsend ▸ hless hhead

/-- Every connection of the loop runs as a connection does on its own, with what the others leave in the channels. -/
theorem gatewayStep_connection (hs : gatewayStep deserialize g (.on k e) = some g') :
    step deserialize (g.connection k) e = some (g'.connection k) := by
  obtain ⟨-, c, hc, rfl⟩ := gatewayStep_on hs
  have hqueue := (change_of_step hc).requeue
  rw [hc, Gateway.connection, Gateway.put_own, Gateway.put_send, hqueue]
  rfl

theorem gatewayStep_of (hk : k < g.made) (hc : step deserialize (g.connection k) e = some c) :
    gatewayStep deserialize g (.on k e) = some (g.put k c) := by
  rw [gatewayStep, if_pos (.inl hk), hc]
  rfl

theorem wake_inv {made : Bool} (hs : g.wake made = some g') :
    (∀ k, k + 1 = g.made → (g.own k).task = .left) ∧ g.panicked = false ∧ g'.send = g.send ∧ g'.panicked = g.panicked ∧
      (made = true ∧ g'.made = g.made + 1 ∧ g'.own = Function.update g.own g.made {} ∨
        made = false ∧ g'.made = g.made ∧ g'.own = g.own) := by
  unfold Gateway.wake at hs
  split at hs
  · rename_i h
    refine ⟨fun k hk => ?_, h.2, ?_⟩
    · have hbetween := h.1
      rw [Gateway.between, ← hk] at hbetween
      exact of_decide_eq_true hbetween
    · cases hs
      cases made with
      | true => exact ⟨rfl, rfl, .inl ⟨rfl, rfl, rfl⟩⟩
      | false => exact ⟨rfl, rfl, .inr ⟨rfl, rfl, rfl⟩⟩
  · cases hs

/-- Which connection is in use, and whose relay task runs. -/
structure InUse (g : Gateway Message) : Prop where
  last : ∀ k, k < g.made → (g.own k).task ≠ .left → k + 1 = g.made
  relay : ∀ k, (g.own k).relayRx.running = true → k < g.made ∧ (g.own k).task = .sending
  opened : ∀ k, k < g.made → (g.own k).task = .sending → (g.own k).relayRx.running = true ∨ (g.own k).relayRx = .dropped

/-- No connection has asked to reconnect, or the one in use has, and its request is the next one. -/
inductive Asked (g : Gateway Message) : Prop where
  | none (hqueue : ∀ j, .reconnect j ∉ g.send)
      (hopen : ∀ k, k < g.made → (g.own k).task = .sending → (g.own k).relayRx ≠ .dropped) : Asked g
  | next {k : Nat} {rest : List Queued} (hsend : g.send = .reconnect k :: rest) (hrest : ∀ j, .reconnect j ∉ rest)
      (hmade : k + 1 = g.made) (htask : (g.own k).task = .sending) (hrx : (g.own k).relayRx = .dropped) : Asked g

theorem InUse.oneRelay (h : InUse g) : OneRelay g := by
  intro j k hj hk
  obtain ⟨hjm, hjt⟩ := h.relay j hj
  obtain ⟨hkm, hkt⟩ := h.relay k hk
  have hj' := h.last j hjm (by simp [hjt])
  have hk' := h.last k hkm (by simp [hkt])
  omega

/-- A step that leaves the task and the relay task of every connection as they are. -/
theorem InUse.kept (h : InUse g) (hmade : g'.made = g.made) (htask : ∀ j, (g'.own j).task = (g.own j).task)
    (hrunning : ∀ j, (g'.own j).relayRx.running = (g.own j).relayRx.running)
    (hdropped : ∀ j, (g'.own j).relayRx = .dropped ↔ (g.own j).relayRx = .dropped) : InUse g' where
  last j := by rw [hmade, htask]; exact h.last j
  relay j := by rw [hmade, htask, hrunning]; exact h.relay j
  opened j := by rw [hmade, htask, hrunning, hdropped]; exact h.opened j

/-- A step of a connection that is in use, or whose task leaves it or goes on to send. -/
theorem InUse.put (h : InUse g) (hk : k < g.made) (hlast : (g.own k).task ≠ .left)
    (hrelay : c.relayRx.running = true → c.task = .sending)
    (hopened : c.task = .sending → c.relayRx.running = true ∨ c.relayRx = .dropped) : InUse (g.put k c) where
  last j hj hne := by
    by_cases heq : j = k
    · subst heq
      exact h.last j hk hlast
    · rw [Gateway.put_own_ne heq] at hne
      exact h.last j hj hne
  relay j hrunning := by
    by_cases heq : j = k
    · subst heq
      rw [Gateway.put_own] at hrunning ⊢
      exact ⟨hk, hrelay hrunning⟩
    · rw [Gateway.put_own_ne heq] at hrunning ⊢
      exact h.relay j hrunning
  opened j hj htask := by
    by_cases heq : j = k
    · subst heq
      rw [Gateway.put_own] at htask ⊢
      exact hopened htask
    · rw [Gateway.put_own_ne heq] at htask ⊢
      exact h.opened j hj htask

theorem InUse.unique (h : InUse g) {j : Nat} (hj : j < g.made) (hk : k < g.made) (hjt : (g.own j).task ≠ .left)
    (hkt : (g.own k).task ≠ .left) : j = k := by
  have := h.last j hj hjt
  have := h.last k hk hkt
  omega

theorem Asked.kept (h : Asked g) (hmade : g'.made = g.made) (htask : ∀ j, (g'.own j).task = (g.own j).task)
    (hdropped : ∀ j, (g'.own j).relayRx = .dropped ↔ (g.own j).relayRx = .dropped) {more : List Queued}
    (hmore : ∀ j, .reconnect j ∉ more) (hsend : g'.send = g.send ++ more) : Asked g' := by
  cases h with
  | none hqueue hopen =>
    refine .none (fun j hj => ?_) fun k hk => ?_
    · rw [hsend] at hj
      rcases List.mem_append.mp hj with hj | hj
      · exact hqueue j hj
      · exact hmore j hj
    · rw [hmade] at hk
      rw [htask, Ne, hdropped]
      exact hopen k hk
  | @next k rest hq hrest hk hkt hkrx =>
    have hqueue : g'.send = .reconnect k :: (rest ++ more) := by rw [hsend, hq, List.cons_append]
    refine .next hqueue (fun j hj => ?_) (hmade ▸ hk) ((htask k).trans hkt) ((hdropped k).mpr hkrx)
    rcases List.mem_append.mp hj with hj | hj
    · exact hrest j hj
    · exact hmore j hj

/-- The connection in use has not asked, and nobody else has. -/
theorem InUse.noneAsked (h : InUse g) (hk : k < g.made) (hne : (g.own k).task ≠ .left)
    (hqueue : ∀ j, .reconnect j ∉ requeue k g.send c.send) (hopen : c.task = .sending → c.relayRx ≠ .dropped) :
    Asked (g.put k c) := by
  refine .none hqueue fun j hj htask => ?_
  by_cases heq : j = k
  · subst heq
    rw [Gateway.put_own] at htask ⊢
    exact hopen htask
  · rw [Gateway.put_own_ne heq] at htask
    exact absurd (h.unique hj hk (by simp [htask]) hne) heq

/-- No request is from a connection that has left, or that has not been opened. -/
theorem Asked.none_of (h : Asked g) (hnone : ∀ k, k + 1 = g.made → (g.own k).task = .sending →
    (g.own k).relayRx ≠ .dropped) : ∀ j, .reconnect j ∉ g.send := by
  cases h with
  | none hqueue _ => exact hqueue
  | next _ _ hmade htask hrx => exact absurd hrx (hnone _ hmade htask)

theorem Asked.none_of_connecting (h : Asked g) (hu : InUse g) (hk : k < g.made)
    (hbefore : (g.own k).task = .connecting) :
    ∀ j, .reconnect j ∉ g.send := by
  refine h.none_of fun j hj hsending => ?_
  have hjne : (g.own j).task ≠ .left := by simp [hsending]
  have heq : j = k := hu.unique (by omega) hk hjne (by simp [hbefore])
  rw [heq, hbefore] at hsending
  cases hsending

theorem RelayEnds.running (h : RelayEnds deserialize (g.connection k) e) :
    e.ofClient = false ∧ (g.own k).relayRx.running = true := by
  cases h with
  | bad hrx _ _ =>
    have hrx : (g.own k).relayRx = .relayTask none := hrx
    exact ⟨rfl, by rw [hrx]; rfl⟩
  | @alone message hrx _ =>
    have hrx : (g.own k).relayRx = .relayTask (some message) := hrx
    exact ⟨rfl, by rw [hrx]; rfl⟩

theorem inv_of_on (hu : InUse g) (ha : Asked g) (hok : InTurn deserialize g (.on k e))
    (hs : gatewayStep deserialize g (.on k e) = some g') : InUse g' ∧ Asked g' := by
  obtain ⟨hmade, c, hc, rfl⟩ := gatewayStep_on hs
  have hin : e.ofClient = false → k < g.made := fun he => hmade.resolve_right (by simp [he])
  cases change_of_step hc with
  | quiet htask hrunning hdropped hsend =>
    have htask' := Gateway.put_keeps (g := g) (k := k) (c := c) Own.task htask
    have hdropped' := Gateway.put_keeps (g := g) (k := k) (c := c) (fun o => o.relayRx = .dropped) (propext hdropped)
    refine ⟨hu.kept rfl htask' (Gateway.put_keeps (fun o => o.relayRx.running) hrunning) fun j => (hdropped' j).to_iff,
      ha.kept rfl htask' (fun j => (hdropped' j).to_iff) (fun j => List.not_mem_nil) ?_⟩
    rw [Gateway.put_send, hsend, List.append_nil]
    exact requeue_same
  | request htask hrx hsend =>
    have htask' := Gateway.put_keeps (g := g) (k := k) (c := c) Own.task htask
    have hrx' := Gateway.put_keeps (g := g) (k := k) (c := c) Own.relayRx hrx
    have hmore : ∀ j, Queued.reconnect j ∉ [Queued.other] := fun j hj => by cases List.mem_singleton.mp hj
    refine ⟨hu.kept rfl htask' (fun j => by rw [hrx' j]) fun j => by rw [hrx' j],
      ha.kept rfl htask' (fun j => by rw [hrx' j]) hmore ?_⟩
    rw [Gateway.put_send, hsend]
    exact requeue_concat
  | opened hbefore htask hrx hsend =>
    have hk := hin rfl
    have hbefore : (g.own k).task = .connecting := hbefore
    have hne : (g.own k).task ≠ .left := by simp [hbefore]
    refine ⟨hu.put hk hne (fun _ => htask) fun _ => .inl (by rw [hrx]; rfl), hu.noneAsked hk hne ?_ (by simp [hrx])⟩
    rw [hsend]
    exact requeue_same ▸ ha.none_of_connecting hu hk hbefore
  | closed hbefore htask hrx hsend =>
    have hk := hin rfl
    have hbefore : (g.own k).task = .connecting := hbefore
    have hne : (g.own k).task ≠ .left := by simp [hbefore]
    refine ⟨hu.put hk hne (by simp [hrx, RelayRx.running]) (by simp [htask]), hu.noneAsked hk hne ?_ (by simp [htask])⟩
    rw [hsend]
    exact requeue_same ▸ ha.none_of_connecting hu hk hbefore
  | relayEnded h htask hrx hsend =>
    obtain ⟨hclient, hrunning⟩ := h.running
    obtain ⟨hk, hsending⟩ := hu.relay k hrunning
    have hne : (g.own k).task ≠ .left := by simp [hsending]
    have hempty := hok.noneWaits k e rfl h
    have hsend' : (g.put k c).send = [.reconnect k] := by
      rw [Gateway.put_send, hsend]
      refine requeue_relayEnd.trans ?_
      rw [hempty]
      rfl
    refine ⟨hu.put hk hne (by simp [hrx, RelayRx.running]) fun _ => .inr hrx, ?_⟩
    refine .next hsend' (fun j => List.not_mem_nil) (hu.last k hk hne) ?_ ?_
    · rw [Gateway.put_own]
      exact htask.trans hsending
    · rw [Gateway.put_own]
      exact hrx
  | reconnected hbefore hhead htask hrx hsend =>
    have hk := hin rfl
    have hbefore : (g.own k).task = .sending := hbefore
    have hrx : c.relayRx = (g.own k).relayRx := hrx
    have hne : (g.own k).task ≠ .left := by simp [hbefore]
    obtain ⟨q, rest, hqueue, hq, hrest⟩ := map_request_eq_cons hhead
    obtain ⟨j, rfl⟩ := request_eq_reconnect hq
    cases ha with
    | none hnone _ => exact absurd (hqueue ▸ List.mem_cons_self) (hnone j)
    | @next i rest' hqueue' hnone hmade' hit hirx =>
      obtain ⟨rfl, rfl⟩ : j = i ∧ rest = rest' := by simpa using hqueue.symm.trans hqueue'
      obtain rfl : j = k := hu.unique (by omega) hk (by simp [hit]) hne
      refine ⟨hu.put hk hne (by simp [hrx, hirx, RelayRx.running]) (by simp [htask]),
        hu.noneAsked hk hne ?_ (by simp [htask])⟩
      rw [hsend, hrest]
      exact hnone
  | sent hbefore hhead htask hrx hsend =>
    have hk := hin rfl
    have hbefore : (g.own k).task = .sending := hbefore
    have hrx : c.relayRx = (g.own k).relayRx := hrx
    have hne : (g.own k).task ≠ .left := by simp [hbefore]
    obtain ⟨q, rest, hqueue, hq, hrest⟩ := map_request_eq_cons hhead
    have hq := request_eq_other hq
    cases ha with
    | none hnone hopen =>
      refine ⟨hu.put hk hne (fun _ => htask) fun _ => hrx ▸ hu.opened k hk hbefore, hu.noneAsked hk hne ?_ ?_⟩
      · rw [hsend, hrest]
        exact fun j hj => hnone j (hqueue ▸ List.mem_cons_of_mem _ hj)
      · exact fun _ => hrx ▸ hopen k hk hbefore
    | next hqueue' _ _ _ _ =>
      rw [hqueue, hq] at hqueue'
      cases hqueue'
  | failed hbefore hhead htask hrx hsend =>
    obtain ⟨q, rest, hqueue, hq, -⟩ := map_request_eq_cons (k := k) hhead
    refine absurd ?_ (hok.sent k rfl)
    rw [hqueue, request_eq_other hq]
    rfl

theorem inv_of_wake {made : Bool} (hu : InUse g) (ha : Asked g) (hs : g.wake made = some g') : InUse g' ∧ Asked g' := by
  obtain ⟨hleft, -, hsend, -, hmade⟩ := wake_inv hs
  have hidle : ∀ k, k < g.made → (g.own k).task = .left := fun k hk => by
    by_contra hne
    exact hne (hleft k (hu.last k hk hne))
  have hstopped : ∀ k, (g.own k).relayRx.running = false := fun k => by
    by_contra hrunning
    obtain ⟨hk, hsending⟩ := hu.relay k (Bool.eq_true_of_not_eq_false hrunning)
    rw [hidle k hk] at hsending
    cases hsending
  have hqueue : ∀ j, .reconnect j ∉ g'.send := hsend ▸ ha.none_of fun k hk hsending => by
    rw [hleft k hk] at hsending
    cases hsending
  rcases hmade with ⟨-, hmade, hown⟩ | ⟨-, hmade, hown⟩
  · have hnew : g'.own g.made = {} := by rw [hown, Function.update_self]
    have hold : ∀ k, k ≠ g.made → g'.own k = g.own k := fun k hk => by rw [hown, Function.update_of_ne hk]
    have hopen : ∀ k, k < g'.made → (g'.own k).task ≠ .left → k = g.made := fun k hk hne => by
      by_contra heq
      rw [hold k heq] at hne
      exact hne (hidle k (by omega))
    have hsending : ∀ k, k < g'.made → (g'.own k).task ≠ .sending := fun k hk htask => by
      rw [hopen k hk (by simp [htask]), hnew] at htask
      cases htask
    refine ⟨⟨fun k hk hne => ?_, fun k hrunning => ?_, fun k hk htask => absurd htask (hsending k hk)⟩,
      .none hqueue fun k hk htask => absurd htask (hsending k hk)⟩
    · rw [hopen k hk hne, hmade]
    · by_cases heq : k = g.made
      · rw [heq, hnew] at hrunning
        cases hrunning
      · rw [hold k heq, hstopped k] at hrunning
        cases hrunning
  · refine ⟨hu.kept hmade (fun j => by rw [hown]) (fun j => by rw [hown]) fun j => by rw [hown], .none hqueue ?_⟩
    intro k hk htask
    rw [hown, hidle k (hmade ▸ hk)] at htask
    cases htask

/-- Steps in turn keep what is known of the connections and of the queue. -/
theorem inv_of_step {e : GatewayEvent} (h : InUse g ∧ Asked g) (hok : InTurn deserialize g e)
    (hs : gatewayStep deserialize g e = some g') : InUse g' ∧ Asked g' := by
  cases e with
  | wake made => exact inv_of_wake h.1 h.2 hs
  | on k e => exact inv_of_on h.1 h.2 hok hs

theorem inv_start : InUse ({} : Gateway Message) ∧ Asked ({} : Gateway Message) :=
  ⟨⟨fun _ hk => absurd hk (Nat.not_lt_zero _), fun _ h => (by cases h), fun _ hk => absurd hk (Nat.not_lt_zero _)⟩,
    .none (fun _ => List.not_mem_nil) fun _ hk => absurd hk (Nat.not_lt_zero _)⟩

theorem sending_of_step {sent : Bool} (hs : gatewayStep deserialize g (.on k (.sendRecv sent)) = some g') :
    k < g.made ∧ (g.own k).task = .sending := by
  obtain ⟨hmade, c, hc, -⟩ := gatewayStep_on hs
  refine ⟨hmade.resolve_right (by simp [Event.ofClient]), ?_⟩
  cases htask : (g.own k).task with
  | sending => rfl
  | connecting =>
    simp [step, Connection.sendRecv, Gateway.connection, htask] at hc
  | left =>
    simp [step, Connection.sendRecv, Gateway.connection, htask] at hc

theorem endsOnlyItself_of_inv {e : GatewayEvent} (ha : Asked g) (hs : gatewayStep deserialize g e = some g') :
    EndsOnlyItself g e := by
  constructor
  · rintro k sent j rfl hhead hlt
    obtain ⟨hk, -⟩ := sending_of_step hs
    cases ha with
    | none hqueue _ => exact hqueue j (List.mem_of_head? hhead)
    | next hsend _ hmade _ _ =>
      rw [hsend] at hhead
      cases hhead
      omega
  · rintro k sent rfl hhead
    obtain ⟨hk, hsending⟩ := sending_of_step hs
    cases ha with
    | none _ hopen => exact hopen k hk hsending
    | next hsend _ _ _ _ =>
      rw [hsend] at hhead
      cases hhead

end Gateway

/-- In every run in which no request fails to be sent, and in which no request waits when a relay task ends, no
    connection ends a later one, at most one forwards messages, and none is used after it has asked to reconnect. -/
theorem connections_end_themselves {es : List GatewayEvent} {g : Gateway Message}
    (hr : run (gatewayStep deserialize) {} es = some g)
    (hok : RunOk (gatewayStep deserialize) (InTurn deserialize) {} es) :
    RunOk (gatewayStep deserialize) EndsOnlyItself {} es ∧ RunAll (gatewayStep deserialize) OneRelay {} es :=
  ⟨hok.runOk (fun h _ hs => endsOnlyItself_of_inv h.2 hs) inv_of_step inv_start hr,
    hok.runAll (fun h => h.1.oneRelay) inv_of_step inv_start⟩

/-! ### Steps that are not in turn -/

section Disturbed

variable {deserialize} {g g' : Gateway Message} {k : Nat} {e : Event} {c : Connection Message}

theorem step_of_relayEnds (hcalm : c.panicked = false) (h : RelayEnds deserialize c e) :
    step deserialize c e = some c.relayEnd := by
  unfold step
  rw [if_neg (by simp [hcalm])]
  cases h with
  | bad hrx hrelay hbad =>
    simp only [Connection.relayRecv, hrx, hrelay]
    split
    · rfl
    · rename_i hne
      simp only [hbad.resolve_left hne]
  | alone hrx hclient => simp [Connection.recvSend, hrx, hclient]

theorem calm_of_gatewayStep (hs : gatewayStep deserialize g (.on k e) = some g') : g.panicked = false := by
  obtain ⟨-, c, hc, -⟩ := gatewayStep_on hs
  exact calm_of_step hc

/-- A connection that is left while its relay task runs. The next one can be opened before the relay task ends. -/
theorem disturbed_of_left (hk : k + 1 = g.made) (hleft : (g.own k).task = .left)
    (hrunning : (g.own k).relayRx.running = true) (hcalm : g.panicked = false) :
    ∃ es t, run (gatewayStep deserialize) g es = some t ∧ ¬ RunAll (gatewayStep deserialize) OneRelay g es := by
  have hbetween : g.between = true := by
    rw [Gateway.between, ← hk]
    exact decide_eq_true hleft
  let g₁ : Gateway Message :=
    { g with backoff := min 8000 (g.backoff * 2 + 100), made := g.made + 1, own := Function.update g.own g.made {} }
  have hwake : gatewayStep deserialize g (.wake true) = some g₁ := by
    simp [gatewayStep, Gateway.wake, hbetween, hcalm, g₁]
  have hnew : g₁.own g.made = {} := Function.update_self g.made {} g.own
  let c₁ := (g₁.connection g.made).onopen
  have hopen : gatewayStep deserialize g₁ (.on g.made .onopen) = some (g₁.put g.made c₁) := by
    refine gatewayStep_of (Nat.lt_succ_self _) ?_
    rw [step, if_neg (by simp [Gateway.connection, g₁, hcalm])]
  let g₂ := g₁.put g.made c₁
  have hown₂ : g₂.own g.made = { connected := [true] } := by
    simp [g₂, c₁, Gateway.put_own, Connection.onopen, Connection.connectedSend, Gateway.connection, hnew]
  let c₂ : Connection Message :=
    { g₂.connection g.made with task := .sending, connected := [], relayRx := .relayTask none }
  have hconnected : gatewayStep deserialize g₂ (.on g.made .connectedRecv) = some (g₂.put g.made c₂) := by
    refine gatewayStep_of (Nat.lt_succ_self _) ?_
    have hcalm₂ : (g₂.connection g.made).panicked = false := by
      simp [g₂, c₁, Gateway.connection, Connection.onopen, connectedSend_fields, g₁, hcalm]
    rw [step, if_neg (by simp [hcalm₂])]
    simp [Connection.connectedRecv, Gateway.connection, hown₂, c₂]
  have hrun : run (gatewayStep deserialize) g [.wake true, .on g.made .onopen, .on g.made .connectedRecv] =
      some (g₂.put g.made c₂) := by
    rw [run_cons, hwake, Option.bind_some, run_cons, hopen, Option.bind_some, run_cons, hconnected]
    rfl
  have hne : k ≠ g.made := by omega
  refine ⟨_, _, hrun, fun h => hne (h.last hrun k g.made ?_ ?_)⟩
  · rw [Gateway.put_own_ne hne, Gateway.put_own_ne hne]
    simpa [g₁, hne] using hrunning
  · rw [Gateway.put_own]
    rfl

/-- A request that waits when the relay task ends is sent on the connection all the same. -/
theorem disturbed_of_waiting (hk : k < g.made) (hsending : (g.own k).task = .sending)
    (hrx : (g.own k).relayRx = .dropped) (hhead : g.send.head? = some .other) (hcalm : g.panicked = false) :
    ∃ es t, run (gatewayStep deserialize) g es = some t ∧ ¬ RunOk (gatewayStep deserialize) NotUsed g es := by
  obtain ⟨rest, hqueue⟩ := List.head?_eq_some_iff.mp hhead
  let c : Connection Message := { g.connection k with send := rest.map Queued.request }
  have hs : gatewayStep deserialize g (.on k (.sendRecv true)) = some (g.put k c) := by
    refine gatewayStep_of hk ?_
    rw [step, if_neg (by simp [Gateway.connection, hcalm])]
    simp [Connection.sendRecv, Gateway.connection, hsending, hqueue, Queued.request, c]
  refine ⟨[.on k (.sendRecv true)], g.put k c, ?_, fun h => h.1 k true rfl hhead hrx⟩
  rw [run_cons, hs]
  rfl

theorem inv_of_reachVia (hr : ReachVia (gatewayStep deserialize) (InTurn deserialize) {} g) : InUse g ∧ Asked g :=
  hr.invariant (I := fun g => InUse g ∧ Asked g) inv_start inv_of_step

/-- A request that waits while a relay task runs, and the one that is next after that task has ended. -/
theorem Asked.head_other (h : Asked g) (hu : InUse g) (hrunning : (g.own k).relayRx.running = true)
    (hwaits : g.send ≠ []) : (g.put k (g.connection k).relayEnd).send.head? = some .other := by
  obtain ⟨rest, hqueue⟩ : ∃ rest, g.send = .other :: rest := by
    cases h with
    | none hqueue _ =>
      cases hsend : g.send with
      | nil => exact absurd hsend hwaits
      | cons q rest =>
        cases q with
        | other => exact ⟨rest, rfl⟩
        | reconnect j => exact absurd (hsend ▸ List.mem_cons_self) (hqueue j)
    | @next j _ _ _ hmade htask hrx =>
      obtain ⟨hk, hsending⟩ := hu.relay k hrunning
      obtain rfl : j = k := hu.unique (by omega) hk (by simp [htask]) (by simp [hsending])
      rw [hrx] at hrunning
      cases hrunning
  have hsend : (g.put k (g.connection k).relayEnd).send =
      if g.send.length < capacity then g.send ++ [.reconnect k] else g.send := requeue_relayEnd
  rw [hsend, hqueue]
  split
  · rfl
  · rfl

/-- The task leaves a connection on which a request could not be sent. -/
theorem left_of_failed (hc : step deserialize (g.connection k) (.sendRecv false) = some c)
    (hhead : g.send.head? = some .other) :
    c.task = .left ∧ c.relayRx = (g.own k).relayRx ∧ c.panicked = g.panicked := by
  obtain ⟨rest, hqueue⟩ := List.head?_eq_some_iff.mp hhead
  have hsend : (g.connection k).send = .other :: rest.map Queued.request := by
    rw [Gateway.connection, hqueue]
    rfl
  unfold step at hc
  split at hc
  · cases hc
  · simp only [Connection.sendRecv, hsend] at hc
    split at hc
    · rename_i heq
      cases heq
    · cases hc
      exact ⟨rfl, rfl, rfl⟩
    · cases hc
    · cases hc
    · cases hc

/-- A step that is the first one not to be in turn can be followed by steps that disturb another connection. -/
theorem disturbed_of_not_inTurn {e : GatewayEvent}
    (hr : ReachVia (gatewayStep deserialize) (InTurn deserialize) {} g) (hs : gatewayStep deserialize g e = some g')
    (hn : ¬ InTurn deserialize g e) : ∃ es t, run (gatewayStep deserialize) g' es = some t ∧
      ¬ (RunOk (gatewayStep deserialize) EndsOnlyItself g' es ∧ RunAll (gatewayStep deserialize) OneRelay g' es) := by
  obtain ⟨hu, ha⟩ := inv_of_reachVia hr
  by_cases hsent : ∀ k, e = .on k (.sendRecv false) → g.send.head? ≠ some .other
  · obtain ⟨k, e', rfl, hends, hwaits⟩ : ∃ k e', e = .on k e' ∧ RelayEnds deserialize (g.connection k) e' ∧
        g.send ≠ [] := by
      by_contra hnot
      exact hn ⟨hsent, fun k e' he hends => by_contra fun hwaits => hnot ⟨k, e', he, hends, hwaits⟩⟩
    have hcalm := calm_of_gatewayStep hs
    obtain ⟨hk, hsending⟩ := hu.relay k hends.running.2
    obtain ⟨-, c, hc, rfl⟩ := gatewayStep_on hs
    rw [step_of_relayEnds hcalm hends] at hc
    cases hc
    obtain ⟨es, t, hrun, hnot⟩ : ∃ es t, run (gatewayStep deserialize) (g.put k (g.connection k).relayEnd) es = some t ∧
        ¬ RunOk (gatewayStep deserialize) NotUsed (g.put k (g.connection k).relayEnd) es := by
      refine disturbed_of_waiting hk ?_ ?_ (ha.head_other hu hends.running.2 hwaits) hcalm
      · rw [Gateway.put_own]
        exact hsending
      · rw [Gateway.put_own]
        rfl
    refine ⟨es, t, hrun, fun h => hnot ?_⟩
    exact h.1.runOk (I := fun _ => True) (fun _ h _ => h.notUsed) (fun _ _ _ => trivial) trivial hrun
  · obtain ⟨k, rfl, hhead⟩ : ∃ k, e = .on k (.sendRecv false) ∧ g.send.head? = some .other := by
      by_contra hnot
      exact hsent fun k he hhead => hnot ⟨k, he, hhead⟩
    have hcalm := calm_of_gatewayStep hs
    obtain ⟨hk, hsending⟩ := sending_of_step hs
    have hrunning : (g.own k).relayRx.running = true :=
      (hu.opened k hk hsending).resolve_right ((endsOnlyItself_of_inv ha hs).notUsed k false rfl hhead)
    obtain ⟨-, c, hc, rfl⟩ := gatewayStep_on hs
    obtain ⟨htask, hrx, hpanicked⟩ := left_of_failed hc hhead
    obtain ⟨es, t, hrun, hnot⟩ : ∃ es t, run (gatewayStep deserialize) (g.put k c) es = some t ∧
        ¬ RunAll (gatewayStep deserialize) OneRelay (g.put k c) es := by
      refine disturbed_of_left (hu.last k hk (by simp [hsending])) ?_ ?_ (hpanicked.trans hcalm)
      · rw [Gateway.put_own]
        exact htask
      · rw [Gateway.put_own]
        exact hrx ▸ hrunning
    exact ⟨es, t, hrun, fun h => hnot h.2⟩

end Disturbed

/-- A connection whose relay task asks to reconnect while nothing else is to be sent. -/
def oneReconnect : List GatewayEvent :=
  [.wake true, .on 0 .onopen, .on 0 .connectedRecv, .on 0 .clientRequest, .on 0 (.sendRecv true), .on 0 .onclose,
    .on 0 .relayRecv, .on 0 (.sendRecv true), .wake true]

theorem one_reconnect_ends_itself :
    RunOk (gatewayStep fun _ => some ()) EndsOnlyItself ({} : Gateway Unit) oneReconnect ∧
      RunAll (gatewayStep fun _ => some ()) OneRelay ({} : Gateway Unit) oneReconnect := by
  have hempty : ∀ {g : Gateway Unit} {e : GatewayEvent}, g.send = [] → InTurn (fun _ => some ()) g e := by
    intro g e h
    exact ⟨fun _ _ => by simp [h], fun _ _ _ _ => h⟩
  have hsent : ∀ {g : Gateway Unit}, InTurn (fun _ => some ()) g (.on 0 (.sendRecv true)) := by
    intro g
    constructor
    · intro k h
      cases h
    · intro k e h hends
      cases h
      cases hends
  exact @connections_end_themselves Unit (fun _ => some ()) _ _ rfl
    ⟨hempty rfl, hempty rfl, hempty rfl, hempty rfl, hsent, hempty rfl, hempty rfl, hsent, hempty rfl, trivial⟩

/-- A request fails to be sent while the relay task of the connection runs, which ends when the next one is in use. -/
def failedSend : List GatewayEvent :=
  [.wake true, .on 0 .onopen, .on 0 .connectedRecv, .on 0 .clientRequest, .on 0 (.sendRecv false), .wake true,
    .on 1 .onopen, .on 1 .connectedRecv, .on 0 .onclose, .on 0 .relayRecv]

/-- The relay task ends when the channel from the client is full. -/
def fullQueue : List GatewayEvent :=
  [.wake true, .on 0 .onopen, .on 0 .connectedRecv] ++ List.replicate 100 (.on 0 .clientRequest) ++
    [.on 0 .onclose, .on 0 .relayRecv]

theorem connections_disturb_others :
    (¬ ∀ es g, run (gatewayStep fun _ => some ()) {} es = some g →
      RunAll (gatewayStep fun _ => some ()) OneRelay ({} : Gateway Unit) es) ∧
    (¬ ∀ es g, run (gatewayStep fun _ => some ()) {} es = some g →
      RunOk (gatewayStep fun _ => some ()) OwnRequest ({} : Gateway Unit) es) ∧
    ¬ ∀ es g, run (gatewayStep fun _ => some ()) {} es = some g →
      RunOk (gatewayStep fun _ => some ()) NotUsed ({} : Gateway Unit) es := by
  refine ⟨fun h => ?_, fun h => ?_, fun h => ?_⟩
  · have hlast := (h (failedSend.take 8) _ rfl).last rfl
    cases hlast 0 1 rfl rfl
  · have hlast := ((h (failedSend ++ [.on 1 (.sendRecv true)]) _ rfl).of_append rfl).1
    exact hlast 1 true 0 rfl rfl Nat.zero_lt_one
  · have hfull : (run (gatewayStep fun _ => some ()) ({} : Gateway Unit) fullQueue).any (fun g =>
        (match (g.own 0).relayRx with
          | .waiting => false
          | .relayTask _ => false
          | .dropped => true) &&
        decide (g.send.head? = some .other ∧
          (gatewayStep (fun _ => some ()) g (.on 0 (.sendRecv true))).isSome)) = true := by decide +kernel
    obtain ⟨g, hg, hfull⟩ := (Option.any_eq_true _ _).mp hfull
    obtain ⟨hdropped, hfull⟩ := Bool.and_eq_true_iff.mp hfull
    obtain ⟨hhead, hstep⟩ := of_decide_eq_true hfull
    obtain ⟨g', hs⟩ := Option.isSome_iff_exists.mp hstep
    have hr : run (gatewayStep fun _ => some ()) ({} : Gateway Unit) (fullQueue ++ [.on 0 (.sendRecv true)]) =
        some g' := by
      rw [run_concat, hg, Option.bind_some, hs]
    refine ((h _ _ hr).of_append hg).1 0 true rfl hhead ?_
    split at hdropped
    · cases hdropped
    · cases hdropped
    · assumption

end Net
end WasmerJs
