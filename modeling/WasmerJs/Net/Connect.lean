import WasmerJs.Lib.Transition
import WasmerJs.Pipe.Memory

/-! One connection of `connect_networking` (`src/net.rs`): the callbacks of its web socket (`src/ws.rs`), the task that
    waits for the socket to be connected and then sends requests, and the relay task. The callbacks are never dropped,
    and the socket may call them after the task has gone on to the next connection. -/

namespace WasmerJs
namespace Net
open Transition

/-! ### The connection -/

/-- The data of a `MessageEvent`. The binary type is set to array buffers, so that it is no blob. -/
inductive MessageData where
  | arrayBuffer (data : Bytes)
  | text (txt : String)
  | unknown
  deriving DecidableEq

inductive MessageRequest where
  | reconnect
  | other

/-- The task of the connection, which then goes on to the next one. -/
inductive Task where
  | connecting
  | sending
  | left
  deriving DecidableEq

/-- Where the receiver of the relay channel is. The relay task may be about to send a message to the client. -/
inductive RelayRx (Message : Type) where
  | waiting
  | relayTask (data : Option Message)
  | dropped

structure Connection (Message : Type) where
  relay : List Bytes := []
  relayRx : RelayRx Message := .waiting
  connected : List Bool := []
  task : Task := .connecting
  -- The channel to the client, and whether the client still has its end.
  recv : List Message := []
  client : Bool := true
  -- The channel from the client.
  send : List MessageRequest := []
  panicked : Bool := false

/-- The web socket calls `onopen`, `onclose` and `onmessage`. The task takes a signal of `connected_rx` or a request, and
    the relay task a message from the relay channel, which it sends to the client. The client takes messages, makes
    requests, or is dropped. -/
inductive Event where
  | onopen
  | onclose
  | onmessage (e : MessageData)
  | connectedRecv
  | relayRecv
  | recvSend
  | clientRecv
  | clientRequest
  | clientDrop
  -- Whether the request could be serialized and sent.
  | sendRecv (sent : Bool)
  deriving DecidableEq

/-- The capacity of the channels to and from the client. -/
def capacity : Nat := 100

variable {Message : Type} (deserialize : Bytes → Option Message)

namespace Connection

/-- `relay_tx.send`, which fails when the receiver was dropped. -/
def relaySend (c : Connection Message) (data : Bytes) : Option (Connection Message) :=
  match c.relayRx with
  | .waiting => some { c with relay := c.relay ++ [data] }
  | .relayTask _ => some { c with relay := c.relay ++ [data] }
  | .dropped => none

/-- `connected_tx.send(..).ok()` -/
def connectedSend (c : Connection Message) (signal : Bool) : Connection Message :=
  match c.task with
  | .connecting => { c with connected := c.connected ++ [signal] }
  | .sending => { c with connected := c.connected ++ [signal] }
  | .left => c

def onopen (c : Connection Message) : Connection Message := c.connectedSend true

def onclose (c : Connection Message) : Connection Message := ((c.relaySend []).getD c).connectedSend false

def onmessage (c : Connection Message) : MessageData → Connection Message
  | .arrayBuffer data =>
    match c.relaySend data with
    | some c => c
    | none => { c with panicked := true }
  | .text _ => c
  | .unknown => c

/-- The task leaves an iteration of its loop without a relay task. -/
def leave (c : Connection Message) : Connection Message :=
  { c with task := .left, connected := [], relayRx := .dropped, relay := [] }

def connectedRecv (c : Connection Message) : Option (Connection Message) :=
  match c.task, c.connected with
  | .connecting, true :: connected => some { c with task := .sending, connected, relayRx := .relayTask none }
  | .connecting, false :: _ => some c.leave
  | .connecting, [] => none
  | .sending, _ => none
  | .left, _ => none

/-- The relay task ends. It asks the task to reconnect, as long as there is room for a request. -/
def relayEnd (c : Connection Message) : Connection Message :=
  { c with relayRx := .dropped, relay := [],
           send := if c.send.length < capacity then c.send ++ [.reconnect] else c.send }

def relayRecv (c : Connection Message) : Option (Connection Message) :=
  match c.relayRx, c.relay with
  | .relayTask none, data :: relay =>
    if data = [] then some c.relayEnd
    else
      match deserialize data with
      | none => some c.relayEnd
      | some message => some { c with relay, relayRx := .relayTask (some message) }
  | .relayTask none, [] => none
  | .relayTask (some _), _ => none
  | .waiting, _ => none
  | .dropped, _ => none

/-- `recv_tx.send`, which waits for room. -/
def recvSend (c : Connection Message) : Option (Connection Message) :=
  match c.relayRx with
  | .relayTask (some message) =>
    if c.client then
      if c.recv.length < capacity then some { c with recv := c.recv ++ [message], relayRx := .relayTask none } else none
    else some c.relayEnd
  | .relayTask none => none
  | .waiting => none
  | .dropped => none

def clientRecv (c : Connection Message) : Option (Connection Message) :=
  match c.client, c.recv with
  | true, _ :: recv => some { c with recv }
  | true, [] => none
  | false, _ => none

def clientRequest (c : Connection Message) : Option (Connection Message) :=
  if c.client ∧ c.send.length < capacity then some { c with send := c.send ++ [.other] } else none

def clientDrop (c : Connection Message) : Connection Message := { c with client := false, recv := [] }

def sendRecv (c : Connection Message) (sent : Bool) : Option (Connection Message) :=
  match c.task, c.send with
  | .sending, .reconnect :: send => some { c with task := .left, connected := [], send }
  | .sending, .other :: send =>
    some (if sent then { c with send } else { c with task := .left, connected := [], send })
  | .sending, [] => none
  | .connecting, _ => none
  | .left, _ => none

end Connection

/-- A step of the system. Nothing happens after a panic. -/
def step (c : Connection Message) (e : Event) : Option (Connection Message) :=
  if c.panicked then none
  else
    match e with
    | .onopen => some c.onopen
    | .onclose => some c.onclose
    | .onmessage data => some (c.onmessage data)
    | .connectedRecv => c.connectedRecv
    | .relayRecv => c.relayRecv deserialize
    | .recvSend => c.recvSend
    | .clientRecv => c.clientRecv
    | .clientRequest => c.clientRequest
    | .clientDrop => some c.clientDrop
    | .sendRecv sent => c.sendRecv sent

/-! ### What the events say -/

/-- What comes into the relay channel, in order. -/
def Event.relayed? : Event → Option Bytes
  | .onclose => some []
  | .onmessage (.arrayBuffer data) => some data
  | .onmessage (.text _) => none
  | .onmessage .unknown => none
  | .onopen => none
  | .connectedRecv => none
  | .relayRecv => none
  | .recvSend => none
  | .clientRecv => none
  | .clientRequest => none
  | .clientDrop => none
  | .sendRecv _ => none

def relayed (es : List Event) : List Bytes := es.filterMap Event.relayed?

/-- Whether the socket was opened or closed. -/
def Event.signal? : Event → Option Bool
  | .onopen => some true
  | .onclose => some false
  | .onmessage _ => none
  | .connectedRecv => none
  | .relayRecv => none
  | .recvSend => none
  | .clientRecv => none
  | .clientRequest => none
  | .clientDrop => none
  | .sendRecv _ => none

def signals (es : List Event) : List Bool := es.filterMap Event.signal?

/-- The relay task has taken a message that is empty or cannot be decoded. -/
def TookBad (es : List Event) : Prop :=
  ∃ data ∈ (relayed es).take (es.count Event.relayRecv), data = [] ∨ deserialize data = none

/-- The relay task has sent a message to the client after the client was dropped. -/
def SentLate (es : List Event) : Prop := ∃ es₁ es₂, es = es₁ ++ .recvSend :: es₂ ∧ .clientDrop ∈ es₁

/-- The task has found that the socket was closed before it was opened. -/
def ClosedFirst (es : List Event) : Prop := .connectedRecv ∈ es ∧ (signals es).head? = some false

/-- There is nobody any more who would take messages. -/
def RelayOver (es : List Event) : Prop := TookBad deserialize es ∨ SentLate es ∨ ClosedFirst es

section Events

variable {deserialize} {es : List Event} {e : Event}

theorem relayed_concat : relayed (es ++ [e]) = relayed es ++ e.relayed?.toList := by
  rw [relayed, List.filterMap_append]
  cases h : e.relayed? <;> simp [relayed, h]

theorem relayed_quiet (h : e.relayed? = none) : relayed (es ++ [e]) = relayed es := by
  rw [relayed_concat, h, Option.toList_none, List.append_nil]

theorem signals_concat : signals (es ++ [e]) = signals es ++ e.signal?.toList := by
  rw [signals, List.filterMap_append]
  cases h : e.signal? <;> simp [signals, h]

theorem count_concat (h : e ≠ .relayRecv) : (es ++ [e]).count Event.relayRecv = es.count Event.relayRecv := by
  simp [List.count_append, h]

theorem count_relayRecv : (es ++ [Event.relayRecv]).count Event.relayRecv = es.count Event.relayRecv + 1 := by
  simp [List.count_append]

theorem TookBad.concat (h : TookBad deserialize es) : TookBad deserialize (es ++ [e]) := by
  obtain ⟨data, hmem, hbad⟩ := h
  refine ⟨data, ?_, hbad⟩
  rw [relayed_concat]
  have hle : es.count Event.relayRecv ≤ (es ++ [e]).count Event.relayRecv := by
    rw [List.count_append]
    exact Nat.le_add_right _ _
  have hbegin : (relayed es).take (es.count Event.relayRecv) <+: (relayed es ++ e.relayed?.toList).take
      (es.count Event.relayRecv) := (List.prefix_append _ _).take _
  exact (hbegin.trans (List.take_prefix_take_left hle)).subset hmem

theorem tookBad_concat (h : e ≠ .relayRecv) (hcount : es.count Event.relayRecv ≤ (relayed es).length) :
    TookBad deserialize (es ++ [e]) ↔ TookBad deserialize es := by
  unfold TookBad
  rw [relayed_concat, count_concat h, List.take_append_of_le_length hcount]

theorem tookBad_relayRecv {data : Bytes} {rest : List Bytes}
    (h : (relayed es).drop (es.count Event.relayRecv) = data :: rest) :
    TookBad deserialize (es ++ [Event.relayRecv]) ↔ TookBad deserialize es ∨ data = [] ∨ deserialize data = none := by
  have htake : (relayed es).take (es.count Event.relayRecv + 1) =
      (relayed es).take (es.count Event.relayRecv) ++ [data] := by
    rw [List.take_add, h]
    rfl
  unfold TookBad
  rw [relayed_concat, count_relayRecv]
  simp only [Event.relayed?, Option.toList_none, List.append_nil, htake, List.mem_append, List.mem_singleton,
    or_and_right, exists_or, exists_eq_left]

theorem SentLate.concat (h : SentLate es) : SentLate (es ++ [e]) := by
  obtain ⟨es₁, es₂, rfl, hdrop⟩ := h
  exact ⟨es₁, es₂ ++ [e], by simp, hdrop⟩

theorem sentLate_concat : SentLate (es ++ [e]) ↔ SentLate es ∨ e = .recvSend ∧ .clientDrop ∈ es := by
  constructor
  · rintro ⟨es₁, es₂, h, hdrop⟩
    rcases List.eq_nil_or_concat es₂ with rfl | ⟨es₂, e', rfl⟩
    · obtain ⟨rfl, heq⟩ := List.append_inj' h rfl
      exact .inr ⟨(List.cons.inj heq).1, hdrop⟩
    · rw [List.concat_eq_append, ← List.cons_append, ← List.append_assoc] at h
      obtain ⟨rfl, -⟩ := List.append_inj' h rfl
      exact .inl ⟨es₁, es₂, rfl, hdrop⟩
  · rintro (h | ⟨rfl, hdrop⟩)
    · exact h.concat
    · exact ⟨es, [], rfl, hdrop⟩

theorem ClosedFirst.concat (h : ClosedFirst es) : ClosedFirst (es ++ [e]) := by
  refine ⟨List.mem_append_left _ h.1, ?_⟩
  rw [signals_concat, List.head?_append, h.2]
  rfl

theorem RelayOver.concat (h : RelayOver deserialize es) : RelayOver deserialize (es ++ [e]) := by
  rcases h with h | h | h
  · exact .inl h.concat
  · exact .inr (.inl h.concat)
  · exact .inr (.inr h.concat)

end Events

/-! ### What the events have made of the connection -/

/-- What the events say of the relay channel, by who has its receiver. -/
def RelayHistory (es : List Event) (c : Connection Message) : Prop :=
  match c.relayRx with
  | .waiting => c.relay = relayed es ∧ c.connected = signals es ∧ .connectedRecv ∉ es ∧
      es.count Event.relayRecv = 0 ∧ .recvSend ∉ es
  | .relayTask _ => c.relay = (relayed es).drop (es.count Event.relayRecv) ∧ (signals es).head? = some true ∧
      ¬ TookBad deserialize es ∧ ¬ SentLate es
  | .dropped => RelayOver deserialize es

/-- The state that the events lead to. -/
structure History (es : List Event) (c : Connection Message) : Prop where
  calm : c.panicked = false
  client : c.client = true ↔ .clientDrop ∉ es
  taken : es.count Event.relayRecv ≤ (relayed es).length
  waiting : c.task = .connecting ↔ c.relayRx = .waiting
  relay : RelayHistory deserialize es c

section History

variable {deserialize} {es : List Event} {e : Event} {c t : Connection Message}

theorem history_start : History deserialize [] ({} : Connection Message) where
  calm := rfl
  client := iff_of_true rfl List.not_mem_nil
  taken := le_rfl
  waiting := iff_of_true rfl rfl
  relay := ⟨rfl, rfl, List.not_mem_nil, rfl, List.not_mem_nil⟩

/-- An event that leaves the receiver where it is. -/
theorem RelayHistory.quiet (h : RelayHistory deserialize es c) (htaken : es.count Event.relayRecv ≤ (relayed es).length)
    (he : e ≠ .relayRecv ∧ e ≠ .recvSend ∧ e ≠ .connectedRecv) (hrx : t.relayRx = c.relayRx)
    (hrelay : c.relayRx ≠ .dropped → t.relay = c.relay ++ e.relayed?.toList)
    (hconnected : c.relayRx = .waiting → t.connected = c.connected ++ e.signal?.toList) :
    RelayHistory deserialize (es ++ [e]) t := by
  unfold RelayHistory at *
  rw [hrx]
  cases hc : c.relayRx with
  | waiting =>
    rw [hc] at h hrelay
    obtain ⟨hr, hs, hnotask, hnone, hnosend⟩ := h
    refine ⟨?_, ?_, ?_, ?_, ?_⟩
    · rw [hrelay (by simp), hr, relayed_concat]
    · rw [hconnected hc, hs, signals_concat]
    · simp [hnotask, he.2.2.symm]
    · rw [count_concat he.1, hnone]
    · simp [hnosend, he.2.1.symm]
  | relayTask m =>
    rw [hc] at h hrelay
    obtain ⟨hr, hs, hbad, hlate⟩ := h
    refine ⟨?_, ?_, ?_, ?_⟩
    · rw [hrelay (by simp), hr, relayed_concat, count_concat he.1, List.drop_append_of_le_length htaken]
    · rw [signals_concat, List.head?_append, hs]
      rfl
    · rwa [tookBad_concat he.1 htaken]
    · rw [sentLate_concat, not_or]
      exact ⟨hlate, fun h => he.2.1 h.1⟩
  | dropped =>
    rw [hc] at h
    exact RelayOver.concat h

/-- An event that only the channels, the task or the client see. -/
theorem History.quiet (h : History deserialize es c) (he : e ≠ .relayRecv ∧ e ≠ .recvSend ∧ e ≠ .connectedRecv)
    (hcalm : t.panicked = false) (hclient : t.client = true ↔ c.client = true ∧ e ≠ .clientDrop)
    (hwaiting : t.task = .connecting ↔ c.task = .connecting) (hrx : t.relayRx = c.relayRx)
    (hrelay : c.relayRx ≠ .dropped → t.relay = c.relay ++ e.relayed?.toList)
    (hconnected : c.relayRx = .waiting → t.connected = c.connected ++ e.signal?.toList) :
    History deserialize (es ++ [e]) t where
  calm := hcalm
  client := by
    rw [hclient, h.client, List.mem_append, List.mem_singleton, not_or]
    exact and_congr_right fun _ => ne_comm
  taken := by
    rw [count_concat he.1, relayed_concat, List.length_append]
    exact h.taken.trans (Nat.le_add_right _ _)
  waiting := by rw [hwaiting, hrx, h.waiting]
  relay := h.relay.quiet h.taken he hrx hrelay hconnected

/-- An event that puts nothing into a channel. -/
theorem History.unseen (h : History deserialize es c) (he : e ≠ .relayRecv ∧ e ≠ .recvSend ∧ e ≠ .connectedRecv)
    (hrelayed : e.relayed? = none) (hsignal : e.signal? = none) (hcalm : t.panicked = c.panicked)
    (hclient : t.client = true ↔ c.client = true ∧ e ≠ .clientDrop)
    (hwaiting : t.task = .connecting ↔ c.task = .connecting) (hrx : t.relayRx = c.relayRx) (hrelay : t.relay = c.relay)
    (hconnected : c.relayRx = .waiting → t.connected = c.connected) : History deserialize (es ++ [e]) t := by
  refine h.quiet he (hcalm.trans h.calm) hclient hwaiting hrx (fun _ => ?_) fun hw => ?_
  · rw [hrelay, hrelayed, Option.toList_none, List.append_nil]
  · rw [hconnected hw, hsignal, Option.toList_none, List.append_nil]

/-- The receiver was dropped, or one more message is in the channel. -/
theorem relaySend_cases (c : Connection Message) (data : Bytes) :
    c.relayRx = .dropped ∧ c.relaySend data = none ∨
      c.relayRx ≠ .dropped ∧ c.relaySend data = some { c with relay := c.relay ++ [data] } := by
  unfold Connection.relaySend
  cases h : c.relayRx with
  | waiting => exact .inr ⟨by simp, rfl⟩
  | relayTask m => exact .inr ⟨by simp, rfl⟩
  | dropped => exact .inl ⟨rfl, rfl⟩

/-- A signal is on its way to the task that waits for one. -/
theorem connectedSend_fields (c : Connection Message) (signal : Bool) :
    (c.connectedSend signal).panicked = c.panicked ∧ (c.connectedSend signal).client = c.client ∧
      (c.connectedSend signal).task = c.task ∧ (c.connectedSend signal).relayRx = c.relayRx ∧
      (c.connectedSend signal).relay = c.relay ∧
      (c.task = .connecting → (c.connectedSend signal).connected = c.connected ++ [signal]) := by
  unfold Connection.connectedSend
  cases h : c.task <;> simp [h]

theorem History.connectedSend (h : History deserialize es c) {signal : Bool} {relay : List Bytes}
    (he : e ≠ .relayRecv ∧ e ≠ .recvSend ∧ e ≠ .connectedRecv) (hdrop : e ≠ .clientDrop)
    (hsignal : e.signal? = some signal) (hrelay : c.relayRx ≠ .dropped → relay = c.relay ++ e.relayed?.toList) :
    History deserialize (es ++ [e]) (({ c with relay } : Connection Message).connectedSend signal) := by
  obtain ⟨hcalm, hclient, htask, hrx, hsame, hconnected⟩ := connectedSend_fields { c with relay } signal
  refine h.quiet he (hcalm.trans h.calm) ?_ ?_ hrx (fun hlive => hsame.trans (hrelay hlive)) fun hw => ?_
  · rw [hclient]
    exact (and_iff_left hdrop).symm
  · rw [htask]
  · rw [hconnected (h.waiting.mpr hw), hsignal]
    rfl

theorem History.onclose (h : History deserialize es c) : History deserialize (es ++ [Event.onclose]) c.onclose := by
  rcases relaySend_cases c [] with ⟨hdropped, heq⟩ | ⟨-, heq⟩
  · have hclose : c.onclose = ({ c with relay := c.relay } : Connection Message).connectedSend false := by
      rw [Connection.onclose, heq]
      rfl
    rw [hclose]
    exact h.connectedSend (by simp) (by simp) rfl fun hlive => absurd hdropped hlive
  · have hclose : c.onclose = ({ c with relay := c.relay ++ [[]] } : Connection Message).connectedSend false := by
      rw [Connection.onclose, heq]
      rfl
    rw [hclose]
    exact h.connectedSend (by simp) (by simp) rfl fun _ => rfl

theorem History.onmessage (h : History deserialize es c) {data : MessageData}
    (hcalm : (c.onmessage data).panicked = false) : History deserialize (es ++ [Event.onmessage data]) (c.onmessage data) := by
  cases data with
  | arrayBuffer data =>
    rcases relaySend_cases c data with ⟨-, heq⟩ | ⟨-, heq⟩
    · rw [Connection.onmessage] at hcalm
      simp [heq] at hcalm
    · have hmessage : c.onmessage (.arrayBuffer data) = { c with relay := c.relay ++ [data] } := by
        simp [Connection.onmessage, heq]
      rw [hmessage]
      exact h.quiet (by simp) h.calm (by simp) Iff.rfl rfl (fun _ => rfl) fun _ => (List.append_nil _).symm
  | text txt =>
    exact h.unseen (by simp) rfl rfl rfl (by simp [Connection.onmessage]) Iff.rfl rfl rfl fun _ => rfl
  | unknown =>
    exact h.unseen (by simp) rfl rfl rfl (by simp [Connection.onmessage]) Iff.rfl rfl rfl fun _ => rfl

theorem History.clientRecv (h : History deserialize es c) (hs : c.clientRecv = some t) :
    History deserialize (es ++ [Event.clientRecv]) t := by
  unfold Connection.clientRecv at hs
  split at hs
  · cases hs
    exact h.unseen (by simp) rfl rfl rfl (by simp) Iff.rfl rfl rfl fun _ => rfl
  · cases hs
  · cases hs

theorem History.clientRequest (h : History deserialize es c) (hs : c.clientRequest = some t) :
    History deserialize (es ++ [Event.clientRequest]) t := by
  unfold Connection.clientRequest at hs
  split at hs
  · cases hs
    exact h.unseen (by simp) rfl rfl rfl (by simp) Iff.rfl rfl rfl fun _ => rfl
  · cases hs

theorem History.clientDrop (h : History deserialize es c) :
    History deserialize (es ++ [Event.clientDrop]) c.clientDrop :=
  h.unseen (by simp) rfl rfl rfl (by simp [Connection.clientDrop]) Iff.rfl rfl rfl fun _ => rfl

theorem History.sendRecv (h : History deserialize es c) {sent : Bool} (hs : c.sendRecv sent = some t) :
    History deserialize (es ++ [Event.sendRecv sent]) t := by
  have hsame : ∀ {t : Connection Message}, c.task = .sending → t.panicked = c.panicked → t.client = c.client →
      t.task ≠ .connecting → t.relayRx = c.relayRx → t.relay = c.relay →
      History deserialize (es ++ [Event.sendRecv sent]) t := by
    intro t htask hcalm hclient hne hrx hrelay
    refine h.unseen (by simp) rfl rfl hcalm (by simp [hclient]) ?_ hrx hrelay fun hw => ?_
    · rw [htask]
      exact iff_of_false hne (by simp)
    · rw [← h.waiting, htask] at hw
      cases hw
  unfold Connection.sendRecv at hs
  split at hs
  · rename_i htask _
    cases hs
    exact hsame htask rfl rfl (by simp) rfl rfl
  · rename_i htask _
    cases sent with
    | true =>
      cases hs
      exact hsame htask rfl rfl (by simp [htask]) rfl rfl
    | false =>
      cases hs
      exact hsame htask rfl rfl (by simp) rfl rfl
  · cases hs
  · cases hs
  · cases hs

/-- The parts of the history that do not depend on the receiver. -/
theorem History.next (h : History deserialize es c) (hdrop : e ≠ .clientDrop) (hcalm : t.panicked = c.panicked)
    (hclient : t.client = c.client) (htaken : (es ++ [e]).count Event.relayRecv ≤ (relayed (es ++ [e])).length)
    (hwaiting : t.task = .connecting ↔ t.relayRx = .waiting) (hrelay : RelayHistory deserialize (es ++ [e]) t) :
    History deserialize (es ++ [e]) t where
  calm := hcalm.trans h.calm
  client := by
    rw [hclient, h.client, List.mem_append, List.mem_singleton, not_or]
    exact (and_iff_left hdrop.symm).symm
  taken := htaken
  waiting := hwaiting
  relay := hrelay

theorem History.taken_concat (h : History deserialize es c) (he : e ≠ .relayRecv) :
    (es ++ [e]).count Event.relayRecv ≤ (relayed (es ++ [e])).length := by
  rw [count_concat he, relayed_concat, List.length_append]
  exact h.taken.trans (Nat.le_add_right _ _)

theorem History.not_connecting (h : History deserialize es c) {m : Option Message} (hrx : c.relayRx = .relayTask m) :
    c.task ≠ .connecting := by
  rw [Ne, h.waiting, hrx]
  exact fun hwaiting => by cases hwaiting

theorem History.connectedRecv (h : History deserialize es c) (hs : c.connectedRecv = some t) :
    History deserialize (es ++ [Event.connectedRecv]) t := by
  have hrelay := h.relay
  have htaken := h.taken_concat (e := .connectedRecv) (by simp)
  unfold Connection.connectedRecv at hs
  split at hs
  · rename_i htask hconnected
    rw [RelayHistory, h.waiting.mp htask] at hrelay
    obtain ⟨hr, hsignals, -, hnone, hnosend⟩ := hrelay
    cases hs
    refine h.next (by simp) rfl rfl htaken (by simp) ⟨?_, ?_, ?_, ?_⟩
    · rw [count_concat (by simp), hnone, relayed_quiet rfl]
      exact hr
    · rw [signals_concat, ← hsignals, hconnected]
      rfl
    · rw [tookBad_concat (by simp) h.taken, TookBad, hnone]
      rintro ⟨data, hmem, -⟩
      cases hmem
    · rw [sentLate_concat, not_or]
      refine ⟨?_, fun h => by cases h.1⟩
      rintro ⟨es₁, es₂, rfl, -⟩
      exact hnosend (List.mem_append_right _ List.mem_cons_self)
  · rename_i htask hconnected
    rw [RelayHistory, h.waiting.mp htask] at hrelay
    cases hs
    refine h.next (by simp) rfl rfl htaken (by simp [Connection.leave]) (.inr (.inr ⟨by simp, ?_⟩))
    rw [signals_concat, ← hrelay.2.1, hconnected]
    rfl
  · cases hs
  · cases hs
  · cases hs

theorem History.relayRecv (h : History deserialize es c) (hs : c.relayRecv deserialize = some t) :
    History deserialize (es ++ [Event.relayRecv]) t := by
  have hrelay := h.relay
  unfold Connection.relayRecv at hs
  split at hs
  · rename_i data rest hrx hchannel
    rw [RelayHistory, hrx] at hrelay
    obtain ⟨hr, hsignals, hbad, hlate⟩ := hrelay
    have hdrop : (relayed es).drop (es.count Event.relayRecv) = data :: rest := hr.symm.trans hchannel
    have htaken : (es ++ [Event.relayRecv]).count Event.relayRecv ≤ (relayed (es ++ [Event.relayRecv])).length := by
      have hlength := congrArg List.length hdrop
      rw [List.length_drop, List.length_cons] at hlength
      rw [count_relayRecv, relayed_concat, List.length_append]
      omega
    have hnotask := h.not_connecting hrx
    split at hs
    · rename_i hempty
      cases hs
      exact h.next (by simp) rfl rfl htaken (iff_of_false hnotask (by simp [Connection.relayEnd]))
        (.inl ((tookBad_relayRecv hdrop).mpr (.inr (.inl hempty))))
    · rename_i hnonempty
      split at hs
      · rename_i hundecodable
        cases hs
        exact h.next (by simp) rfl rfl htaken (iff_of_false hnotask (by simp [Connection.relayEnd]))
          (.inl ((tookBad_relayRecv hdrop).mpr (.inr (.inr hundecodable))))
      · rename_i message hdecoded
        cases hs
        refine h.next (by simp) rfl rfl htaken (iff_of_false hnotask (by simp)) ⟨?_, ?_, ?_, ?_⟩
        · rw [count_relayRecv, relayed_quiet rfl, ← List.tail_drop, hdrop]
          rfl
        · rw [signals_concat, List.head?_append, hsignals]
          rfl
        · rw [tookBad_relayRecv hdrop]
          rintro (h | h | h)
          · exact hbad h
          · exact hnonempty h
          · cases hdecoded.symm.trans h
        · rw [sentLate_concat, not_or]
          exact ⟨hlate, fun h => by cases h.1⟩
  · cases hs
  · cases hs
  · cases hs
  · cases hs

theorem History.recvSend (h : History deserialize es c) (hs : c.recvSend = some t) :
    History deserialize (es ++ [Event.recvSend]) t := by
  have hrelay := h.relay
  have htaken := h.taken_concat (e := .recvSend) (by simp)
  unfold Connection.recvSend at hs
  split at hs
  · rename_i message hrx
    rw [RelayHistory, hrx] at hrelay
    obtain ⟨hr, hsignals, hbad, hlate⟩ := hrelay
    have hnotask := h.not_connecting hrx
    split at hs
    · rename_i hclient
      split at hs
      · cases hs
        refine h.next (by simp) rfl rfl htaken (iff_of_false hnotask (by simp)) ⟨?_, ?_, ?_, ?_⟩
        · rw [count_concat (by simp), relayed_quiet rfl]
          exact hr
        · rw [signals_concat, List.head?_append, hsignals]
          rfl
        · rwa [tookBad_concat (by simp) h.taken]
        · rw [sentLate_concat, not_or]
          exact ⟨hlate, fun hdrop => h.client.mp hclient hdrop.2⟩
      · cases hs
    · rename_i hclient
      cases hs
      refine h.next (by simp) rfl rfl htaken (iff_of_false hnotask (by simp [Connection.relayEnd])) (.inr (.inl ?_))
      exact sentLate_concat.mpr (.inr ⟨rfl, not_not.mp fun hdrop => hclient (h.client.mpr hdrop)⟩)
  · cases hs
  · cases hs
  · cases hs

/-- What the events say is kept by each step that is no panic. -/
theorem History.step (h : History deserialize es c) (hs : step deserialize c e = some t) (hcalm : t.panicked = false) :
    History deserialize (es ++ [e]) t := by
  unfold Net.step at hs
  rw [if_neg (by simp [h.calm])] at hs
  cases e with
  | onopen =>
    cases hs
    exact h.connectedSend (by simp) (by simp) rfl fun _ => (List.append_nil _).symm
  | onclose =>
    cases hs
    exact h.onclose
  | onmessage data =>
    cases hs
    exact h.onmessage hcalm
  | connectedRecv => exact h.connectedRecv hs
  | relayRecv => exact h.relayRecv hs
  | recvSend => exact h.recvSend hs
  | clientRecv => exact h.clientRecv hs
  | clientRequest => exact h.clientRequest hs
  | clientDrop =>
    cases hs
    exact h.clientDrop
  | sendRecv sent => exact h.sendRecv hs

theorem calm_of_step (hs : Net.step deserialize c e = some t) : c.panicked = false := by
  unfold Net.step at hs
  split at hs
  · cases hs
  · rename_i hcalm
    exact Bool.eq_false_iff.mpr hcalm

/-- The receiver was dropped exactly when the relay is over by the events. -/
theorem History.dropped_iff (h : History deserialize es c) : c.relayRx = .dropped ↔ RelayOver deserialize es := by
  have hrelay := h.relay
  unfold RelayHistory at hrelay
  cases hrx : c.relayRx with
  | waiting =>
    rw [hrx] at hrelay
    obtain ⟨-, -, hnotask, hnone, hnosend⟩ := hrelay
    refine iff_of_false (by simp) ?_
    rintro (⟨data, hmem, -⟩ | ⟨es₁, es₂, rfl, -⟩ | hclosed)
    · rw [hnone] at hmem
      cases hmem
    · exact hnosend (List.mem_append_right _ List.mem_cons_self)
    · exact hnotask hclosed.1
  | relayTask m =>
    rw [hrx] at hrelay
    obtain ⟨-, hsignals, hbad, hlate⟩ := hrelay
    refine iff_of_false (by simp) ?_
    rintro (h | h | h)
    · exact hbad h
    · exact hlate h
    · cases hsignals.symm.trans h.2
  | dropped =>
    rw [hrx] at hrelay
    exact iff_of_true rfl hrelay

theorem calm_kept (hs : Net.step deserialize c e = some t) (he : ∀ data, e ≠ .onmessage (.arrayBuffer data)) :
    t.panicked = false := by
  have hcalm := calm_of_step hs
  unfold Net.step at hs
  rw [if_neg (by simp [hcalm])] at hs
  cases e with
  | onopen =>
    cases hs
    exact (connectedSend_fields c true).1.trans hcalm
  | onclose =>
    cases hs
    refine (connectedSend_fields _ false).1.trans ?_
    rcases relaySend_cases c [] with ⟨-, heq⟩ | ⟨-, heq⟩
    · rw [heq]
      exact hcalm
    · rw [heq]
      exact hcalm
  | onmessage data =>
    cases data with
    | arrayBuffer data => exact absurd rfl (he data)
    | text txt =>
      cases hs
      exact hcalm
    | unknown =>
      cases hs
      exact hcalm
  | connectedRecv =>
    simp only [Connection.connectedRecv] at hs
    split at hs <;> cases hs <;> exact hcalm
  | relayRecv =>
    simp only [Connection.relayRecv] at hs
    split at hs
    · split at hs
      · cases hs
        exact hcalm
      · split at hs <;> cases hs <;> exact hcalm
    all_goals cases hs
  | recvSend =>
    simp only [Connection.recvSend] at hs
    split at hs
    · split at hs
      · split at hs <;> cases hs
        exact hcalm
      · cases hs
        exact hcalm
    all_goals cases hs
  | clientRecv =>
    simp only [Connection.clientRecv] at hs
    split at hs <;> cases hs
    exact hcalm
  | clientRequest =>
    simp only [Connection.clientRequest] at hs
    split at hs <;> cases hs
    exact hcalm
  | clientDrop =>
    cases hs
    exact hcalm
  | sendRecv sent =>
    simp only [Connection.sendRecv] at hs
    split at hs
    · cases hs
      exact hcalm
    · cases sent <;> cases hs <;> exact hcalm
    all_goals cases hs

/-- Only a binary message that finds the relay over makes the socket's callback panic. -/
theorem History.panicked_iff (h : History deserialize es c) (hs : Net.step deserialize c e = some t) :
    t.panicked = true ↔ (∃ data, e = .onmessage (.arrayBuffer data)) ∧ RelayOver deserialize es := by
  by_cases hdata : ∃ data, e = .onmessage (.arrayBuffer data)
  · obtain ⟨data, rfl⟩ := hdata
    rw [and_iff_right ⟨data, rfl⟩, ← h.dropped_iff]
    unfold Net.step at hs
    rw [if_neg (by simp [h.calm])] at hs
    cases hs
    rcases relaySend_cases c data with ⟨hdropped, heq⟩ | ⟨hlive, heq⟩
    · exact iff_of_true (by simp [Connection.onmessage, heq]) hdropped
    · exact iff_of_false (by simp [Connection.onmessage, heq, h.calm]) hlive
  · refine iff_of_false ?_ fun h => hdata h.1
    rw [calm_kept hs fun data heq => hdata ⟨data, heq⟩]
    exact Bool.false_ne_true

theorem history_of_run (hr : run (step deserialize) ({} : Connection Message) es = some t)
    (hcalm : t.panicked = false) : History deserialize es t := by
  induction es using List.reverseRecOn generalizing t with
  | nil =>
    cases hr
    exact history_start
  | append_singleton es e ih =>
    rw [run_concat] at hr
    obtain ⟨c, hc, hs⟩ := Option.bind_eq_some_iff.mp hr
    exact (ih hc (calm_of_step hs)).step hs hcalm

end History

/-! ### No callback panics -/

/-- Every binary message comes before the relay is over. -/
def InTime (es : List Event) : Prop := ∀ es₁ data es₂, es = es₁ ++ .onmessage (.arrayBuffer data) :: es₂ →
  ¬ RelayOver deserialize es₁

theorem inTime_concat {es : List Event} {e : Event} : InTime deserialize (es ++ [e]) ↔
    InTime deserialize es ∧ ¬ ((∃ data, e = .onmessage (.arrayBuffer data)) ∧ RelayOver deserialize es) := by
  constructor
  · intro h
    constructor
    · rintro es₁ data es₂ rfl
      exact h es₁ data (es₂ ++ [e]) (by simp)
    · rintro ⟨⟨data, rfl⟩, hover⟩
      exact h es data [] rfl hover
  · rintro ⟨h, hlast⟩ es₁ data es₂ heq hover
    rcases List.eq_nil_or_concat es₂ with rfl | ⟨es₂, e', rfl⟩
    · obtain ⟨rfl, hmessage⟩ := List.append_inj' heq rfl
      exact hlast ⟨⟨data, (List.cons.inj hmessage).1⟩, hover⟩
    · rw [List.concat_eq_append, ← List.cons_append, ← List.append_assoc] at heq
      obtain ⟨rfl, -⟩ := List.append_inj' heq rfl
      exact h es₁ data es₂ rfl hover

section Runs

variable {deserialize} {es : List Event} {t : Connection Message}

/-- A run that has not panicked has not panicked before. -/
theorem runAll_calm (hr : run (step deserialize) ({} : Connection Message) es = some t) :
    RunAll (step deserialize) (fun c => c.panicked = false) ({} : Connection Message) es ↔ t.panicked = false := by
  induction es using List.reverseRecOn generalizing t with
  | nil =>
    cases hr
    exact Iff.rfl
  | append_singleton es e ih =>
    rw [run_concat] at hr
    obtain ⟨c, hc, hs⟩ := Option.bind_eq_some_iff.mp hr
    constructor
    · intro h
      have hlast := (h.of_append hc).2.2
      rw [hs] at hlast
      exact hlast
    · intro h
      have hcalm := calm_of_step hs
      refine ((ih hc).mpr hcalm).append hc ⟨hcalm, ?_⟩
      rw [hs]
      exact h

theorem calm_iff_inTime (hr : run (step deserialize) ({} : Connection Message) es = some t) :
    t.panicked = false ↔ InTime deserialize es := by
  induction es using List.reverseRecOn generalizing t with
  | nil =>
    cases hr
    refine iff_of_true rfl fun es₁ data es₂ h => ?_
    exact absurd (List.append_eq_nil_iff.mp h.symm).2 (List.cons_ne_nil _ _)
  | append_singleton es e ih =>
    rw [run_concat] at hr
    obtain ⟨c, hc, hs⟩ := Option.bind_eq_some_iff.mp hr
    have hcalm := calm_of_step hs
    rw [inTime_concat, ← ih hc, ← (history_of_run hc hcalm).panicked_iff hs, and_iff_right hcalm, Bool.not_eq_true]

end Runs

/-- The gateway connection survives exactly the runs in which every binary message comes before the relay is over. -/
theorem connection_survives_iff {es : List Event} {t : Connection Message}
    (hr : run (step deserialize) {} es = some t) :
    RunAll (step deserialize) (fun c => c.panicked = false) ({} : Connection Message) es ↔ InTime deserialize es := by
  rw [runAll_calm hr, calm_iff_inTime hr]

theorem one_message_inTime :
    InTime (fun _ => some ()) [.onopen, .connectedRecv, .onmessage (.arrayBuffer [1]), .relayRecv] :=
  (@connection_survives_iff Unit (fun _ => some ()) _ _ rfl).mp ⟨rfl, rfl, rfl, rfl, rfl⟩

/-- A message behind an empty one. -/
theorem message_behind_empty_panics : ¬ ∀ (deserialize : Bytes → Option Unit) (es : List Event) (t : Connection Unit),
    run (step deserialize) {} es = some t →
      RunAll (step deserialize) (fun c => c.panicked = false) ({} : Connection Unit) es := by
  intro h
  obtain ⟨-, -, -, -, -, hlast⟩ := h (fun _ => some ())
    [.onopen, .connectedRecv, .onmessage (.arrayBuffer []), .relayRecv, .onmessage (.arrayBuffer [1])] _ rfl
  cases hlast

end Net
end WasmerJs
