import Ruuter.WsConnections
import Ruuter.Lib.Mailbox

/-! What becomes of the payloads that `ws_send` puts into the registry (`src/ws/mod.rs`): the
bounded channel of each connection, the writer task of a client (`run_ws_connection`,
`src/router/mod.rs`), the bridge and the writer task of a source (`connect_and_drain`,
`src/sources/ws.rs`), and broadcasts that walk through the registry while all of them run.
Connections and broadcasts are numbered as they begin. -/
namespace Ruuter.Ws.Delivery
open Transition Table

def defaultOutboundQueueCapacity : Nat := 256

def boundedSender (capacity : Nat) : Mailbox Json := { bound := some capacity }

/-- A frame for a socket. -/
inductive Message
  | text (text : String)
  | pong (payload : List UInt8)

/-- Which task of a source has put a message into its outbound channel. -/
inductive Origin
  | onConnect
  | bridge
  | reader
deriving DecidableEq

/-- A registered connection with its tasks. The writer of a client reads the registered channel
itself; a source has a bridge that moves its payloads into a channel without a bound. Behind these
stands the history of the connection: the payloads accepted for it, with the broadcast they came
from, the messages put into the outbound channel and the frames its socket has taken. -/
structure Conn where
  id : String
  source : Bool
  onConnect : List String := []
  /-- The reader has not ended. -/
  live : Bool := true
  inbox : Mailbox Json := boundedSender defaultOutboundQueueCapacity
  outbox : Mailbox Message := {}
  held : Option Message := none
  accepted : List (Option Nat × Json) := []
  offered : List (Origin × Message) := []
  written : List Message := []

namespace Conn

/-- `try_send` on the registered channel. -/
def accept (conn : Conn) (origin : Option Nat) (payload : Json) : Conn :=
  match conn.inbox.trySend payload with
  | .ok inbox => { conn with inbox, accepted := conn.accepted ++ [(origin,payload)] }
  | .error _ => conn

/-- `send` on the outbound channel of a source. -/
def offer (conn : Conn) (origin : Origin) (message : Message) : Option Conn :=
  match conn.outbox.trySend message with
  | .ok outbox => some { conn with outbox, offered := conn.offered ++ [(origin,message)] }
  | .error _ => none

/-- What the end of the reader does to the tasks: both are aborted and their receivers dropped. -/
def shut (conn : Conn) : Conn :=
  { conn with live := false, inbox := conn.inbox.close, outbox := conn.outbox.close, held := none }

end Conn

/-- The steps of the tasks of one connection. -/
inductive Task
  | greet
  | ping (payload : List UInt8)
  | relay
  | take
  | flushed
  | failed

section Machine
variable (toString : Json → Option String)

/-- One step of a task; `toString` is `serde_json::to_string`, whose errors skip the payload. -/
def Conn.run (conn : Conn) : Task → Option Conn
  | .greet =>
    match conn.source && conn.live,conn.onConnect with
    | true,text :: rest => some { (conn.offer .onConnect (.text text)).getD conn with onConnect := rest }
    | _,_ => none
  | .ping payload =>
    match conn.source && conn.live,conn.onConnect with
    | true,[] => some ((conn.offer .reader (.pong payload)).getD conn)
    | _,_ => none
  | .relay =>
    match conn.source,conn.inbox.recv with
    | true,some (payload,inbox) =>
      match toString payload with
      | none => some { conn with inbox }
      | some text =>
        match Conn.offer { conn with inbox } .bridge (.text text) with
        | some sent => some sent
        -- the writer is gone, and the bridge ends
        | none => some { conn with inbox := inbox.close }
    | _,_ => none
  | .take =>
    match conn.held,conn.source with
    | some _,_ => none
    | none,false =>
      match conn.inbox.recv with
      | none => none
      | some (payload,inbox) => some { conn with inbox, held := (toString payload).map Message.text }
    | none,true =>
      match conn.outbox.recv with
      | none => none
      | some (message,outbox) => some { conn with outbox, held := some message }
  | .flushed =>
    match conn.held with
    | none => none
    | some message => some { conn with held := none, written := conn.written ++ [message] }
  | .failed =>
    match conn.held,conn.source with
    | none,_ => none
    | some _,false => some { conn with held := none, inbox := conn.inbox.close }
    | some _,true => some { conn with held := none, outbox := conn.outbox.close }

/-- A broadcast on its way through the registry: the entries it has visited, its count of
deliveries, and whether it has returned. -/
structure Fanout where
  pred : String → StringMap String → Bool
  payload : Json
  visited : List String := []
  delivered : Nat := 0
  returned : Bool := false

structure State where
  registry : Registry := ∅
  conns : List Conn := []
  fanouts : List Fanout := []

inductive Action
  | accept (id : String)
  | connected (id : String) (onConnect : List String)
  | tag (id : String) (entries : List (String × String))
  | send (id : String) (payload : Json)
  | broadcast (pred : String → StringMap String → Bool) (payload : Json)
  | visit (fanout : Nat) (id : String) (tags : StringMap String)
  | finish (fanout : Nat)
  | run (c : Nat) (task : Task)
  | close (c : Nat)

namespace State

/-- What `try_send` on the channel of a connection gives. -/
def trySend (s : State) (payload : Json) (c : Nat) : TrySend :=
  match s.conns[c]? with
  | none => .closed
  | some conn =>
    match conn.inbox.trySend payload with
    | .ok _ => .ok
    | .error .full => .full
    | .error .closed => .closed

def deliver (s : State) (c : Nat) (origin : Option Nat) (payload : Json) : State :=
  match s.conns[c]? with
  | none => s
  | some conn => { s with conns := s.conns.set c (conn.accept origin payload) }

def join (s : State) (id : String) (conn : Conn) : State :=
  { s with registry := s.registry.register id s.conns.length, conns := s.conns ++ [conn] }

end State

/-- One step. A broadcast visits the entries one by one, each at most once; the tags of an entry are
copied one by one while others write them, so that what it sees of them comes from outside. -/
def step (s : State) : Action → Option State
  | .accept id => some (s.join id { id, source := false })
  | .connected id onConnect => some (s.join id { id, source := true, onConnect })
  | .tag id entries =>
    match s.registry.setTags id entries with
    | .ok registry => some { s with registry }
    | .error _ => some s
  | .send id payload =>
    match s.registry.send (s.trySend payload) id with
    | .ok c => some (s.deliver c none payload)
    | .error _ => some s
  | .broadcast pred payload => some { s with fanouts := s.fanouts ++ [{ pred, payload }] }
  | .visit b id tags =>
    match s.fanouts[b]?,s.registry.lookup id with
    | some fanout,some entry =>
      if fanout.returned || fanout.visited.contains id then none
      else
        let seen := { fanout with visited := id :: fanout.visited }
        if fanout.pred id tags && s.trySend fanout.payload entry.tx = .ok then
          let counted := { seen with delivered := fanout.delivered + 1 }
          some ({ s with fanouts := s.fanouts.set b counted }.deliver entry.tx (some b) fanout.payload)
        else some { s with fanouts := s.fanouts.set b seen }
    | _,_ => none
  | .finish b =>
    match s.fanouts[b]? with
    | some fanout => some { s with fanouts := s.fanouts.set b { fanout with returned := true } }
    | none => none
  | .run c task => (s.conns[c]?.bind (·.run toString task)).map fun conn => { s with conns := s.conns.set c conn }
  | .close c =>
    match s.conns[c]? with
    | some conn =>
      if conn.live then
        some { s with registry := s.registry.unregister conn.id, conns := s.conns.set c conn.shut }
      else none
    | none => none

end Machine

section Order
variable (toString : Json → Option String)

def frame (payload : Json) : Option Message := (toString payload).map Message.text

/-- What the bridge of a source has passed on. -/
def Conn.relayed (conn : Conn) : List Message := (conn.offered.filter (·.1 = .bridge)).map (·.2)

/-- The pipeline of a connection. The frames of the payloads accepted for a client go to its socket,
those for a source to its bridge; what the tasks of a source have put into the outbound channel goes
to its socket. -/
structure Conn.Ordered (conn : Conn) : Prop where
  capacity : conn.inbox.bound = some defaultOutboundQueueCapacity
  client : conn.source = false →
    conn.inbox.Feeds (frame toString) (conn.accepted.map (·.2)) (conn.written ++ conn.held.toList)
  bridge : conn.source = true → conn.inbox.Feeds (frame toString) (conn.accepted.map (·.2)) conn.relayed
  writer : conn.source = true → conn.outbox.Feeds some (conn.offered.map (·.2)) (conn.written ++ conn.held.toList)

variable {toString : Json → Option String} {conn after : Conn}

theorem ordered_new (id : String) (source : Bool) (onConnect : List String) :
    Conn.Ordered toString { id, source, onConnect } :=
  ⟨rfl,fun _ => Mailbox.feeds_new _ _,fun _ => Mailbox.feeds_new _ _,fun _ => Mailbox.feeds_new _ _⟩

theorem Conn.Ordered.accept (ordered : conn.Ordered toString) (origin : Option Nat) (payload : Json) :
    (conn.accept origin payload).Ordered toString := by
  unfold Conn.accept
  cases sent : conn.inbox.trySend payload with
  | error refusal => exact ordered
  | ok inbox =>
    constructor
    · exact (Mailbox.bound_trySend sent).trans ordered.capacity
    · intro client
      rw [List.map_append]
      exact (ordered.client client).trySend sent
    · intro source
      rw [List.map_append]
      exact (ordered.bridge source).trySend sent
    · exact ordered.writer

/-- A message put into the outbound channel goes behind all others, and counts as relayed when the
bridge has put it there. -/
theorem offer_eq_some {origin : Origin} {message : Message} : conn.offer origin message = some after ↔
    ∃ outbox, conn.outbox.trySend message = .ok outbox ∧
      after = { conn with outbox, offered := conn.offered ++ [(origin,message)] } := by
  unfold Conn.offer
  cases conn.outbox.trySend message <;> simp [eq_comm]

theorem relayed_snoc (conn : Conn) (origin : Origin) (message : Message) (outbox : Mailbox Message) :
    Conn.relayed { conn with outbox, offered := conn.offered ++ [(origin,message)] } =
      conn.relayed ++ if origin = .bridge then [message] else [] := by
  unfold Conn.relayed
  by_cases bridge : origin = .bridge <;> simp [List.filter_append,bridge]

/-- A message from another task than the bridge keeps the order, whether or not it is taken. -/
theorem Conn.Ordered.offer (ordered : conn.Ordered toString) {origin : Origin} (other : origin ≠ .bridge)
    (message : Message) : ((conn.offer origin message).getD conn).Ordered toString := by
  cases offered : conn.offer origin message with
  | none => exact ordered
  | some after =>
    obtain ⟨outbox,sent,rfl⟩ := offer_eq_some.mp offered
    constructor
    · exact ordered.capacity
    · exact ordered.client
    · intro source
      have bridge := ordered.bridge source
      rw [Option.getD_some,relayed_snoc,if_neg other,List.append_nil]
      exact bridge
    · intro source
      have writer := ordered.writer source
      rw [Option.getD_some,List.map_append]
      exact writer.trySend sent

theorem Conn.Ordered.onConnect (ordered : conn.Ordered toString) (onConnect : List String) :
    Conn.Ordered toString { conn with onConnect } :=
  ⟨ordered.capacity,ordered.client,ordered.bridge,ordered.writer⟩

theorem Conn.Ordered.shut (ordered : conn.Ordered toString) : conn.shut.Ordered toString := by
  constructor
  · exact ordered.capacity
  · intro client
    have feeds := (ordered.client client).close
    rw [← List.append_nil conn.written] at feeds
    exact feeds
  · intro source
    have feeds := ordered.bridge source
    rw [← List.append_nil conn.relayed] at feeds
    exact feeds.close
  · intro source
    have feeds := (ordered.writer source).close
    rw [← List.append_nil conn.written] at feeds
    exact feeds

theorem Conn.Ordered.greet (ordered : conn.Ordered toString)
    (ran : conn.run toString .greet = some after) : after.Ordered toString := by
  simp only [Conn.run] at ran
  split at ran
  · cases ran
    exact (ordered.offer (by decide) _).onConnect _
  · cases ran

theorem Conn.Ordered.ping {bytes : List UInt8} (ordered : conn.Ordered toString)
    (ran : conn.run toString (.ping bytes) = some after) : after.Ordered toString := by
  simp only [Conn.run] at ran
  split at ran
  · cases ran
    exact ordered.offer (by decide) _
  · cases ran

/-- The bridge passes on what it takes, loses it with the channel, or skips what has no text. -/
theorem Conn.Ordered.relay (ordered : conn.Ordered toString)
    (ran : conn.run toString .relay = some after) : after.Ordered toString := by
  simp only [Conn.run] at ran
  split at ran
  · rename_i payload inbox source got
    have client : conn.source ≠ false := by
      rw [source]
      decide
    have feeds := (ordered.bridge source).recv got
    have capacity := (Mailbox.bound_recv got).trans ordered.capacity
    cases rendered : toString payload with
    | none =>
      simp only [rendered,Option.some.injEq] at ran
      subst ran
      simp only [frame,rendered,Option.map_none,Option.toList_none,List.append_nil] at feeds
      exact ⟨capacity,fun absent => absurd absent client,fun _ => feeds,ordered.writer⟩
    | some text =>
      simp only [rendered] at ran
      simp only [frame,rendered,Option.map_some,Option.toList_some] at feeds
      split at ran
      · rename_i sent offered
        cases ran
        obtain ⟨outbox,accepted,rfl⟩ := offer_eq_some.mp offered
        refine ⟨capacity,fun absent => absurd absent client,?_,?_⟩
        · intro _
          rw [relayed_snoc]
          exact feeds
        · intro _
          rw [List.map_append]
          exact (ordered.writer source).trySend accepted
      · cases ran
        exact ⟨capacity,fun absent => absurd absent client,fun _ => feeds.close,ordered.writer⟩
  · cases ran

theorem Conn.Ordered.take (ordered : conn.Ordered toString)
    (ran : conn.run toString .take = some after) : after.Ordered toString := by
  simp only [Conn.run] at ran
  split at ran
  · cases ran
  · rename_i idle client
    have feeds := ordered.client client
    rw [idle,Option.toList_none,List.append_nil] at feeds
    split at ran
    · cases ran
    · rename_i payload inbox got
      cases ran
      refine ⟨(Mailbox.bound_recv got).trans ordered.capacity,fun _ => feeds.recv got,?_,?_⟩
      · intro source
        cases client.symm.trans source
      · intro source
        cases client.symm.trans source
  · rename_i idle source
    have feeds := ordered.writer source
    rw [idle,Option.toList_none,List.append_nil] at feeds
    split at ran
    · cases ran
    · rename_i message outbox got
      cases ran
      refine ⟨ordered.capacity,?_,ordered.bridge,fun _ => feeds.recv got⟩
      intro client
      cases source.symm.trans client

theorem Conn.Ordered.flushed (ordered : conn.Ordered toString)
    (ran : conn.run toString .flushed = some after) : after.Ordered toString := by
  simp only [Conn.run] at ran
  split at ran
  · cases ran
  · rename_i message held
    cases ran
    refine ⟨ordered.capacity,?_,ordered.bridge,?_⟩
    · intro client
      have feeds := ordered.client client
      rw [held] at feeds
      rw [Option.toList_none,List.append_nil]
      exact feeds
    · intro source
      have feeds := ordered.writer source
      rw [held] at feeds
      rw [Option.toList_none,List.append_nil]
      exact feeds

/-- A writer whose socket fails takes with it what it held and what waits for it. -/
theorem Conn.Ordered.failed (ordered : conn.Ordered toString)
    (ran : conn.run toString .failed = some after) : after.Ordered toString := by
  simp only [Conn.run] at ran
  split at ran
  · cases ran
  · rename_i client
    cases ran
    refine ⟨ordered.capacity,?_,?_,?_⟩
    · intro _
      rw [Option.toList_none,List.append_nil]
      exact (ordered.client client).close
    · intro source
      cases client.symm.trans source
    · intro source
      cases client.symm.trans source
  · rename_i source
    cases ran
    refine ⟨ordered.capacity,?_,ordered.bridge,?_⟩
    · intro client
      cases source.symm.trans client
    · intro _
      rw [Option.toList_none,List.append_nil]
      exact (ordered.writer source).close

theorem Conn.Ordered.run (ordered : conn.Ordered toString) (task : Task)
    (ran : conn.run toString task = some after) : after.Ordered toString := by
  cases task with
  | greet => exact ordered.greet ran
  | ping payload => exact ordered.ping ran
  | relay => exact ordered.relay ran
  | take => exact ordered.take ran
  | flushed => exact ordered.flushed ran
  | failed => exact ordered.failed ran

end Order

section Count
variable {toString : Json → Option String} {conn after : Conn} {s t : State}

/-- The copies of a broadcast that a connection has accepted. -/
def Conn.copies (conn : Conn) (b : Nat) : List (Option Nat × Json) := conn.accepted.filter (·.1 = some b)

def Conn.reached (conn : Conn) (b : Nat) : Bool := !(conn.copies b).isEmpty

/-- Registrations carry the id of their connection; a broadcast has counted the connections that have
its payload, each of which has one copy and was visited. -/
structure Counted (s : State) : Prop where
  named : ∀ id entry, s.registry.lookup id = some entry → ∃ conn, s.conns[entry.tx]? = some conn ∧ conn.id = id
  count : ∀ (b : Nat) (fanout : Fanout), s.fanouts[b]? = some fanout → fanout.delivered = s.conns.countP (·.reached b)
  once : ∀ (b c : Nat) (conn : Conn), s.conns[c]? = some conn → conn.reached b = true →
    ∃ fanout : Fanout, s.fanouts[b]? = some fanout ∧
    conn.id ∈ fanout.visited ∧ conn.copies b = [(some b,fanout.payload)]

/-- A step of a connection that neither renames it nor brings it a copy of a broadcast. -/
structure Conn.Alike (conn after : Conn) : Prop where
  id : after.id = conn.id
  copies : ∀ b, after.copies b = conn.copies b

theorem Conn.Alike.reached (alike : conn.Alike after) (b : Nat) : after.reached b = conn.reached b := by
  unfold Conn.reached
  rw [alike.copies]

theorem alike_accept (conn : Conn) (payload : Json) : conn.Alike (conn.accept none payload) := by
  unfold Conn.accept
  cases conn.inbox.trySend payload with
  | error _ => exact ⟨rfl,fun _ => rfl⟩
  | ok inbox => exact ⟨rfl,fun b => by simp [Conn.copies,List.filter_append]⟩

theorem offer_alike (conn : Conn) (origin : Origin) (message : Message) :
    conn.Alike ((conn.offer origin message).getD conn) := by
  unfold Conn.offer
  cases conn.outbox.trySend message <;> exact ⟨rfl,fun _ => rfl⟩

theorem run_alike (task : Task) (ran : conn.run toString task = some after) : conn.Alike after := by
  cases task <;> simp only [Conn.run] at ran
  case greet =>
    split at ran
    · cases ran
      have alike := offer_alike conn
      exact ⟨(alike _ _).id,(alike _ _).copies⟩
    · cases ran
  case ping payload =>
    split at ran
    · cases ran
      exact offer_alike conn _ _
    · cases ran
  case relay =>
    split at ran
    · split at ran
      · cases ran
        exact ⟨rfl,fun _ => rfl⟩
      · split at ran
        · rename_i sent
          cases ran
          obtain ⟨_,_,rfl⟩ := offer_eq_some.mp sent
          exact ⟨rfl,fun _ => rfl⟩
        · cases ran
          exact ⟨rfl,fun _ => rfl⟩
    · cases ran
  case take =>
    split at ran
    · cases ran
    all_goals
      split at ran <;> cases ran
      exact ⟨rfl,fun _ => rfl⟩
  case flushed =>
    split at ran <;> cases ran
    exact ⟨rfl,fun _ => rfl⟩
  case failed =>
    split at ran <;> cases ran <;> exact ⟨rfl,fun _ => rfl⟩

theorem shut_alike (conn : Conn) : conn.Alike conn.shut := ⟨rfl,fun _ => rfl⟩

/-- Registrations that are there keep their names when a connection changes in place. -/
theorem Counted.set (c : Nat) (counted : Counted s) (found : s.conns[c]? = some conn) (alike : conn.Alike after)
    (registry : Registry)
    (within : ∀ id entry, registry.lookup id = some entry → ∃ old, s.registry.lookup id = some old ∧ old.tx = entry.tx) :
    Counted { s with registry, conns := s.conns.set c after } := by
  constructor
  · intro id entry held
    obtain ⟨old,before,same⟩ := within id entry held
    obtain ⟨row,atRow,named⟩ := counted.named id old before
    rw [same] at atRow
    obtain ⟨below,_⟩ := List.getElem?_eq_some_iff.mp atRow
    by_cases own : c = entry.tx
    · subst own
      cases found.symm.trans atRow
      exact ⟨after,List.getElem?_set_self below,alike.id.trans named⟩
    · exact ⟨row,(List.getElem?_set_ne own).trans atRow,named⟩
  · intro b fanout listed
    have moved := countP_set_row found after (·.reached b)
    rw [alike.reached] at moved
    exact (counted.count b fanout listed).trans (Nat.add_right_cancel moved).symm
  · intro b d row atRow reached
    rcases getElem?_set_cases atRow with ⟨_,rfl⟩ | ⟨_,before⟩
    · rw [alike.reached] at reached
      rw [alike.id,alike.copies]
      exact counted.once b c conn found reached
    · exact counted.once b d row before reached

theorem Counted.join (counted : Counted s) (id : String) (source : Bool) (onConnect : List String) :
    Counted (s.join id { id, source, onConnect }) := by
  constructor
  · intro other entry held
    by_cases same : other = id
    · subst same
      rw [State.join,Registry.register,AList.lookup_insert] at held
      cases held
      exact ⟨_,List.getElem?_concat_length,rfl⟩
    · rw [State.join,Registry.register,AList.lookup_insert_ne same] at held
      obtain ⟨row,atRow,named⟩ := counted.named other entry held
      exact ⟨row,getElem?_snoc_old atRow,named⟩
  · intro b fanout listed
    rw [counted.count b fanout listed,State.join,List.countP_append]
    rfl
  · intro b c row atRow reached
    rcases getElem?_snoc_cases atRow with before | ⟨_,rfl⟩
    · exact counted.once b c row before reached
    · cases reached

theorem Counted.broadcast (counted : Counted s) (pred : String → StringMap String → Bool) (payload : Json) :
    Counted { s with fanouts := s.fanouts ++ [{ pred, payload }] } := by
  constructor
  · exact counted.named
  · intro b fanout listed
    rcases getElem?_snoc_cases listed with before | ⟨last,rfl⟩
    · exact counted.count b fanout before
    · symm
      rw [List.countP_eq_zero]
      intro row member reached
      obtain ⟨c,atRow⟩ := List.getElem?_of_mem member
      obtain ⟨_,before,_⟩ := counted.once b c row atRow reached
      obtain ⟨below,_⟩ := List.getElem?_eq_some_iff.mp before
      omega
  · intro b c row atRow reached
    obtain ⟨fanout,before,rest⟩ := counted.once b c row atRow reached
    exact ⟨fanout,getElem?_snoc_old before,rest⟩

/-- A broadcast that goes on without a delivery. -/
theorem Counted.pass (counted : Counted s) {fanout next : Fanout} (found : s.fanouts[b]? = some fanout)
    (payload : next.payload = fanout.payload) (delivered : next.delivered = fanout.delivered)
    (visited : fanout.visited ⊆ next.visited) : Counted { s with fanouts := s.fanouts.set b next } := by
  obtain ⟨below,_⟩ := List.getElem?_eq_some_iff.mp found
  constructor
  · exact counted.named
  · intro d other listed
    rcases getElem?_set_cases listed with ⟨rfl,rfl⟩ | ⟨_,before⟩
    · exact delivered.trans (counted.count b fanout found)
    · exact counted.count d other before
  · intro d c row atRow reached
    obtain ⟨other,listed,inside,copies⟩ := counted.once d c row atRow reached
    by_cases own : b = d
    · subst own
      cases found.symm.trans listed
      exact ⟨next,List.getElem?_set_self below,visited inside,by rw [copies,payload]⟩
    · exact ⟨other,(List.getElem?_set_ne own).trans listed,inside,copies⟩

theorem accept_id (conn : Conn) (origin : Option Nat) (payload : Json) : (conn.accept origin payload).id = conn.id := by
  unfold Conn.accept
  split <;> rfl

theorem copies_accept_self {payload : Json} {inbox : Mailbox Json} (sent : conn.inbox.trySend payload = .ok inbox)
    (unreached : conn.reached b = false) : (conn.accept (some b) payload).copies b = [(some b,payload)] := by
  have none_copied : conn.accepted.filter (·.1 = some b) = [] := by simpa [Conn.reached,Conn.copies] using unreached
  simp only [Conn.accept,sent,Conn.copies,List.filter_append,none_copied]
  simp

theorem copies_accept_other (conn : Conn) (payload : Json) {b d : Nat} (different : b ≠ d) :
    (conn.accept (some b) payload).copies d = conn.copies d := by
  unfold Conn.accept
  split
  · simp [Conn.copies,List.filter_append,different]
  · rfl

theorem reached_accept_other (conn : Conn) (payload : Json) {b d : Nat} (different : b ≠ d) :
    (conn.accept (some b) payload).reached d = conn.reached d := by
  rw [Conn.reached,copies_accept_other conn payload different]
  rfl

/-- A delivery goes to a connection that the broadcast has not visited, and so has no copy yet. -/
theorem Counted.deliver (counted : Counted s) {fanout : Fanout} {entry : Connection} {inbox : Mailbox Json}
    {key : String} (found : s.fanouts[b]? = some fanout) (held : s.registry.lookup key = some entry)
    (fresh : key ∉ fanout.visited) (atRow : s.conns[entry.tx]? = some conn)
    (sent : conn.inbox.trySend fanout.payload = .ok inbox) :
    Counted
      { s with
        fanouts := s.fanouts.set b
          { fanout with visited := key :: fanout.visited, delivered := fanout.delivered + 1 }
        conns := s.conns.set entry.tx (conn.accept (some b) fanout.payload) } := by
  obtain ⟨row,atEntry,named⟩ := counted.named key entry held
  cases atRow.symm.trans atEntry
  have unreached : conn.reached b = false := by
    rw [← Bool.not_eq_true]
    intro reached
    obtain ⟨other,listed,visited,_⟩ := counted.once b _ conn atRow reached
    cases found.symm.trans listed
    exact fresh (named ▸ visited)
  have id := accept_id conn (some b) fanout.payload
  have own_copies := copies_accept_self sent unreached
  have other_copies := fun (d : Nat) (different : b ≠ d) => copies_accept_other conn fanout.payload different
  have other_reached := fun (d : Nat) (different : b ≠ d) => reached_accept_other conn fanout.payload different
  have reached : (conn.accept (some b) fanout.payload).reached b = true := by
    rw [Conn.reached,own_copies]
    rfl
  obtain ⟨below,_⟩ := List.getElem?_eq_some_iff.mp found
  obtain ⟨inside,_⟩ := List.getElem?_eq_some_iff.mp atRow
  constructor
  · intro other registered listed
    obtain ⟨row,atOther,name⟩ := counted.named other registered listed
    by_cases own : entry.tx = registered.tx
    · rw [← own] at atOther ⊢
      cases atRow.symm.trans atOther
      exact ⟨_,List.getElem?_set_self inside,id.trans name⟩
    · exact ⟨row,(List.getElem?_set_ne own).trans atOther,name⟩
  · intro d other listed
    have moved := countP_set_row atRow (conn.accept (some b) fanout.payload) (·.reached d)
    rcases getElem?_set_cases listed with ⟨rfl,rfl⟩ | ⟨different,before⟩
    · rw [reached,unreached] at moved
      rw [show _ = _ from counted.count b fanout found]
      exact moved.symm
    · rw [other_reached d different] at moved
      exact (counted.count d other before).trans (Nat.add_right_cancel moved).symm
  · intro d c row atC copied
    by_cases own : b = d
    · subst own
      refine ⟨_,List.getElem?_set_self below,?_,?_⟩
      · rcases getElem?_set_cases atC with ⟨_,rfl⟩ | ⟨_,before⟩
        · rw [id]
          exact List.mem_cons.mpr (.inl named)
        · obtain ⟨other,listed,visited,_⟩ := counted.once b c row before copied
          cases found.symm.trans listed
          exact List.mem_cons_of_mem _ visited
      · rcases getElem?_set_cases atC with ⟨_,rfl⟩ | ⟨_,before⟩
        · exact own_copies
        · obtain ⟨other,listed,_,copies⟩ := counted.once b c row before copied
          cases found.symm.trans listed
          exact copies
    · rcases getElem?_set_cases atC with ⟨_,rfl⟩ | ⟨_,before⟩
      · rw [other_reached d own] at copied
        obtain ⟨other,listed,visited,copies⟩ := counted.once d _ conn atRow copied
        refine ⟨other,(List.getElem?_set_ne own).trans listed,?_,?_⟩
        · rw [id]
          exact visited
        · rw [other_copies d own]
          exact copies
      · obtain ⟨other,listed,rest⟩ := counted.once d c row before copied
        exact ⟨other,(List.getElem?_set_ne own).trans listed,rest⟩

theorem trySend_ok {payload : Json} (sent : s.trySend payload c = .ok) :
    ∃ conn inbox, s.conns[c]? = some conn ∧ conn.inbox.trySend payload = .ok inbox := by
  unfold State.trySend at sent
  split at sent
  · cases sent
  · rename_i conn found
    split at sent
    · rename_i inbox accepted
      exact ⟨conn,inbox,found,accepted⟩
    · cases sent
    · cases sent

theorem deliver_eq {origin : Option Nat} {payload : Json} (found : s.conns[c]? = some conn) :
    s.deliver c origin payload = { s with conns := s.conns.set c (conn.accept origin payload) } := by
  rw [State.deliver,found]

/-- What a visit does: it marks the entry, and where the predicate holds and the channel takes the
payload it counts a delivery. -/
theorem visit_cases {tags : StringMap String} (taken : step toString s (.visit b key tags) = some t) :
    ∃ fanout entry, s.fanouts[b]? = some fanout ∧ s.registry.lookup key = some entry ∧ key ∉ fanout.visited ∧
      (t = { s with fanouts := s.fanouts.set b { fanout with visited := key :: fanout.visited } } ∨
        ∃ conn inbox, s.conns[entry.tx]? = some conn ∧ conn.inbox.trySend fanout.payload = .ok inbox ∧
          t = { s with
            fanouts := s.fanouts.set b
              { fanout with visited := key :: fanout.visited, delivered := fanout.delivered + 1 }
            conns := s.conns.set entry.tx (conn.accept (some b) fanout.payload) }) := by
  simp only [step] at taken
  split at taken
  · rename_i fanout entry found held
    split at taken
    · cases taken
    · rename_i open_fresh
      have fresh : key ∉ fanout.visited := by
        intro visited
        exact open_fresh (by simp [visited])
      refine ⟨fanout,entry,found,held,fresh,?_⟩
      split at taken
      · rename_i accepted
        have sent : s.trySend fanout.payload entry.tx = .ok := by simpa using (Bool.and_eq_true_iff.mp accepted).2
        obtain ⟨conn,inbox,atRow,took⟩ := trySend_ok sent
        cases taken
        exact .inr ⟨conn,inbox,atRow,took,deliver_eq atRow⟩
      · cases taken
        exact .inl rfl
  · cases taken

theorem Counted.step (counted : Counted s) (a : Action) (taken : step toString s a = some t) : Counted t := by
  have unchanged : ∀ id entry, s.registry.lookup id = some entry →
      ∃ old, s.registry.lookup id = some old ∧ old.tx = entry.tx := fun id entry held => ⟨entry,held,rfl⟩
  cases a with
  | accept id =>
    cases taken
    exact counted.join id false []
  | connected id onConnect =>
    cases taken
    exact counted.join id true onConnect
  | tag id entries =>
    simp only [Delivery.step] at taken
    split at taken
    · rename_i registry tagged
      cases taken
      refine ⟨?_,counted.count,counted.once⟩
      intro other entry held
      obtain ⟨old,before,same⟩ := lookup_setTags tagged held
      obtain ⟨row,atRow,named⟩ := counted.named other old before
      exact ⟨row,same ▸ atRow,named⟩
    · cases taken
      exact counted
  | send id payload =>
    simp only [Delivery.step] at taken
    split at taken
    · rename_i c sent
      cases taken
      unfold State.deliver
      split
      · exact counted
      · rename_i conn found
        exact counted.set c found (alike_accept conn payload) s.registry unchanged
    · cases taken
      exact counted
  | broadcast pred payload =>
    cases taken
    exact counted.broadcast pred payload
  | visit b id tags =>
    obtain ⟨fanout,entry,found,held,fresh,rfl | ⟨conn,inbox,atRow,sent,rfl⟩⟩ := visit_cases taken
    · exact counted.pass found rfl rfl (List.subset_cons_self _ _)
    · exact counted.deliver found held fresh atRow sent
  | finish b =>
    simp only [Delivery.step] at taken
    split at taken
    · rename_i fanout found
      cases taken
      exact counted.pass found rfl rfl (List.Subset.refl _)
    · cases taken
  | run c task =>
    simp only [Delivery.step,Option.map_eq_some_iff,Option.bind_eq_some_iff] at taken
    obtain ⟨after,⟨conn,found,ran⟩,rfl⟩ := taken
    exact counted.set c found (run_alike task ran) s.registry unchanged
  | close c =>
    simp only [Delivery.step] at taken
    split at taken
    · rename_i conn found
      split at taken
      · cases taken
        refine counted.set c found (shut_alike conn) _ ?_
        intro id entry held
        have other : id ≠ conn.id := by
          rintro rfl
          rw [Registry.unregister,AList.lookup_erase] at held
          cases held
        rw [Registry.unregister,AList.lookup_erase_ne other] at held
        exact ⟨entry,held,rfl⟩
      · cases taken
    · cases taken

theorem ordered_set (ordered : ∀ conn ∈ s.conns, conn.Ordered toString) (c : Nat)
    (fits : after.Ordered toString) : ∀ conn ∈ s.conns.set c after, conn.Ordered toString := by
  intro conn member
  rcases List.mem_or_eq_of_mem_set member with before | rfl
  · exact ordered conn before
  · exact fits

theorem ordered_join (ordered : ∀ conn ∈ s.conns, conn.Ordered toString) (id : String) (source : Bool)
    (onConnect : List String) :
    ∀ conn ∈ (s.join id { id, source, onConnect }).conns, conn.Ordered toString := by
  intro conn member
  rcases List.mem_append.mp member with before | last
  · exact ordered conn before
  · rw [List.mem_singleton.mp last]
    exact ordered_new id source onConnect

theorem ordered_step (ordered : ∀ conn ∈ s.conns, conn.Ordered toString) (a : Action)
    (taken : step toString s a = some t) : ∀ conn ∈ t.conns, conn.Ordered toString := by
  cases a with
  | accept id =>
    cases taken
    exact ordered_join ordered id false []
  | connected id onConnect =>
    cases taken
    exact ordered_join ordered id true onConnect
  | tag id entries =>
    simp only [Delivery.step] at taken
    split at taken <;> cases taken <;> exact ordered
  | send id payload =>
    simp only [Delivery.step] at taken
    split at taken
    · rename_i c sent
      cases taken
      unfold State.deliver
      split
      · exact ordered
      · rename_i conn found
        exact ordered_set ordered c ((ordered conn (List.mem_of_getElem? found)).accept none payload)
    · cases taken
      exact ordered
  | broadcast pred payload =>
    cases taken
    exact ordered
  | visit b id tags =>
    obtain ⟨fanout,entry,_,_,_,rfl | ⟨conn,_,atRow,_,rfl⟩⟩ := visit_cases taken
    · exact ordered
    · exact ordered_set ordered entry.tx ((ordered conn (List.mem_of_getElem? atRow)).accept (some b) fanout.payload)
  | finish b =>
    simp only [Delivery.step] at taken
    split at taken <;> cases taken
    exact ordered
  | run c task =>
    simp only [Delivery.step,Option.map_eq_some_iff,Option.bind_eq_some_iff] at taken
    obtain ⟨after,⟨conn,found,ran⟩,rfl⟩ := taken
    exact ordered_set ordered c ((ordered conn (List.mem_of_getElem? found)).run task ran)
  | close c =>
    simp only [Delivery.step] at taken
    split at taken
    · rename_i conn found
      split at taken
      · cases taken
        exact ordered_set ordered c (ordered conn (List.mem_of_getElem? found)).shut
      · cases taken
    · cases taken

end Count

section Runs
variable {toString : Json → Option String} {actions : List Action} {u : State}

/-- In every interleaving, the frames of the payloads accepted for a connection go to its socket (or to
the bridge of a source) in the order in which they were accepted, none twice and none lost while its
tasks run, and no registered channel holds more than its capacity. -/
theorem frames_in_order (ran : exec (step toString) {} actions = some u) (member : conn ∈ u.conns) :
    conn.Ordered toString ∧ conn.inbox.queue.length ≤ defaultOutboundQueueCapacity := by
  have ordered : ∀ conn ∈ u.conns, conn.Ordered toString := by
    refine exec_history (I := fun _ s => ∀ conn ∈ s.conns, conn.Ordered toString) ?_ ?_ ran
    · intro conn none
      cases none
    · intro _ t a u ordered taken
      exact ordered_step ordered a taken
  have own := ordered conn member
  refine ⟨own,?_⟩
  cases source : conn.source with
  | false => exact (own.client source).bounded _ own.capacity
  | true => exact (own.bridge source).bounded _ own.capacity

def plainText : Json → Option String
  | .null => some "null"
  | .bool true => some "true"
  | .bool false => some "false"
  | _ => none

/-- A broadcast to two clients, between whose visits one of them gets another payload. The writer of
the second never runs. -/
def twoClients : List Action :=
  [.accept "client:a",.accept "client:b",.broadcast (fun _ _ => true) .null,.visit 0 "client:b" ∅,
    .send "client:a" (.bool true),.visit 0 "client:a" ∅,.finish 0,.run 0 .take,.run 0 .flushed,.run 1 .take,
    .run 0 .take,.run 0 .flushed]

def twoClientsEnd : State := (exec (step plainText) {} twoClients).getD {}

theorem twoClients_ran : exec (step plainText) {} twoClients = some twoClientsEnd := rfl

def firstClient : Conn := twoClientsEnd.conns.headD { id := "", source := false }

theorem frames_in_order_two_clients : firstClient.written = [.text "true",.text "null"] ∧
    firstClient.Ordered plainText ∧ firstClient.inbox.queue.length ≤ defaultOutboundQueueCapacity :=
  ⟨rfl,frames_in_order twoClients_ran List.mem_cons_self⟩

/-- In every interleaving, a broadcast has counted exactly the connections that have accepted its
payload, and none of them has accepted it twice. -/
theorem broadcast_counts_receivers (ran : exec (step toString) {} actions = some u)
    (found : u.fanouts[b]? = some fanout) :
    fanout.delivered = u.conns.countP (·.reached b) ∧
      ∀ conn ∈ u.conns, conn.copies b = if conn.reached b then [(some b,fanout.payload)] else [] := by
  have counted : Counted u := by
    refine exec_history (I := fun _ s => Counted s) ?_ ?_ ran
    · refine ⟨?_,?_,?_⟩
      · intro id entry held
        cases held
      · intro b fanout listed
        cases listed
      · intro b c conn listed
        cases listed
    · intro _ t a u counted taken
      exact counted.step a taken
  refine ⟨counted.count b fanout found,?_⟩
  intro conn member
  cases reached : conn.reached b with
  | false => simpa [Conn.reached] using reached
  | true =>
    obtain ⟨c,atRow⟩ := List.getElem?_of_mem member
    obtain ⟨other,listed,_,copies⟩ := counted.once b c conn atRow reached
    cases found.symm.trans listed
    exact copies

theorem broadcast_counts_two_clients :
    2 = twoClientsEnd.conns.countP (·.reached 0) ∧
      firstClient.copies 0 = if firstClient.reached 0 then [(some 0,.null)] else [] := by
  obtain ⟨fanout,found,delivered,payload⟩ :
      ∃ fanout, twoClientsEnd.fanouts[0]? = some fanout ∧ fanout.delivered = 2 ∧ fanout.payload = .null :=
    ⟨_,rfl,rfl,rfl⟩
  have counts := broadcast_counts_receivers twoClients_ran found
  rw [delivered,payload] at counts
  exact ⟨counts.1,counts.2 firstClient List.mem_cons_self⟩

end Runs

end Ruuter.Ws.Delivery
