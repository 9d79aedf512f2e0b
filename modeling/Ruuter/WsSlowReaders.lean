import Ruuter.WsDelivery

/-! Slow receivers and the broadcasts that reach them (`src/ws/mod.rs`): a client whose socket takes
nothing costs no other connection a frame, and the outbound channel of a source takes whatever its
bridge moves into it. -/
namespace Ruuter.Ws.Delivery
open Transition Table

/-- The steps of writers and bridges, which move payloads towards the socket. -/
def Task.drains : Task → Bool
  | .relay | .take | .flushed | .failed => true
  | .greet | .ping _ => false

/-- What a connection is but for its payloads. -/
def Conn.blank (conn : Conn) : Conn :=
  { id := conn.id, source := conn.source, onConnect := conn.onConnect, live := conn.live }

section Stalled
variable (stalled : Nat → Bool)

/-- Everything but the steps of the writers and bridges that are stalled. -/
def goesOn : Action → Bool
  | .run c task => !(stalled c && task.drains)
  | _ => true

def view (c : Nat) (conn : Conn) : Conn := if stalled c then conn.blank else conn

/-- What a broadcast is but for its count. -/
def Fanout.walk (fanout : Fanout) : Fanout := { fanout with delivered := 0 }

/-- Two states that differ in the payloads of the stalled connections only, and so in what broadcasts
have counted. -/
structure Apart (s t : State) : Prop where
  registry : t.registry = s.registry
  rows : SeenAlike (view stalled) s.conns t.conns
  fanouts : SeenAlike (fun _ => Fanout.walk) s.fanouts t.fanouts

variable {stalled : Nat → Bool} {toString : Json → Option String} {s t s' : State} {conn other after : Conn}

theorem blank_accept (conn : Conn) (origin : Option Nat) (payload : Json) :
    (conn.accept origin payload).blank = conn.blank := by
  unfold Conn.accept
  split <;> rfl

theorem blank_offer (conn : Conn) (origin : Origin) (message : Message) :
    ((conn.offer origin message).getD conn).blank = conn.blank := by
  unfold Conn.offer
  cases conn.outbox.trySend message <;> rfl

theorem blank_greet (conn : Conn) (origin : Origin) (message : Message) (onConnect : List String) :
    Conn.blank { (conn.offer origin message).getD conn with onConnect } = { conn.blank with onConnect } := by
  unfold Conn.offer
  cases conn.outbox.trySend message <;> rfl

/-- What moves payloads towards the socket changes nothing else. -/
theorem run_blank {task : Task} (drains : task.drains = true) (ran : conn.run toString task = some after) :
    after.blank = conn.blank := by
  cases task <;> simp only [Conn.run] at ran
  case greet => cases drains
  case ping => cases drains
  case relay =>
    split at ran
    · split at ran
      · cases ran
        rfl
      · split at ran
        · rename_i sent
          cases ran
          obtain ⟨_,_,rfl⟩ := offer_eq_some.mp sent
          rfl
        · cases ran
          rfl
    · cases ran
  case take =>
    split at ran
    · cases ran
    all_goals
      split at ran <;> cases ran
      rfl
  case flushed =>
    split at ran <;> cases ran
    rfl
  case failed =>
    split at ran <;> cases ran <;> rfl

/-- The steps of a reader depend on nothing that a stalled writer holds back. -/
theorem run_reader {task : Task} (reader : task.drains = false) (same : other.blank = conn.blank)
    (ran : conn.run toString task = some after) :
    ∃ next, other.run toString task = some next ∧ next.blank = after.blank := by
  obtain ⟨id,source,onConnect,live,_,_,_,_,_,_⟩ := conn
  obtain ⟨_,_,_,_,_,_,_,_,_,_⟩ := other
  cases same
  cases task <;> simp only [Conn.run] at ran ⊢
  case greet =>
    split at ran
    · cases ran
      refine ⟨_,rfl,?_⟩
      rw [blank_greet,blank_greet]
      rfl
    · cases ran
  case ping payload =>
    split at ran
    · cases ran
      refine ⟨_,rfl,?_⟩
      rw [blank_offer,blank_offer]
      rfl
    · cases ran
  all_goals cases reader

theorem view_eq_of_blank (same : other.blank = conn.blank) (hidden : stalled c = true) :
    view stalled c other = view stalled c conn := by
  rw [view,view,if_pos hidden,if_pos hidden,same]

theorem blank_of_view (same : view stalled c other = view stalled c conn) : other.blank = conn.blank := by
  unfold view at same
  split at same
  · exact same
  · rw [same]

theorem eq_of_view (same : view stalled c other = view stalled c conn) (shown : stalled c = false) : other = conn := by
  simpa [view,shown] using same

theorem accept_refused {origin : Option Nat} {payload : Json} {refusal : Mailbox.Refusal}
    (refused : conn.inbox.trySend payload = .error refusal) : conn.accept origin payload = conn := by
  rw [Conn.accept,refused]

/-- A payload that the channel refuses leaves the state as it was. -/
theorem deliver_refused (origin : Option Nat) {payload : Json} (refused : s.trySend payload c ≠ .ok) :
    s.deliver c origin payload = s := by
  unfold State.deliver
  split
  · rfl
  · rename_i conn found
    obtain ⟨below,here⟩ := List.getElem?_eq_some_iff.mp found
    cases sent : conn.inbox.trySend payload with
    | ok inbox => exact absurd (by simp only [State.trySend,found,sent]) refused
    | error refusal =>
      rw [accept_refused sent,← here,List.set_getElem_self]

/-- A send changes the state as a delivery to the connection registered under the id does. -/
theorem step_send (id : String) (payload : Json) : step toString s (.send id payload) =
    some ((s.registry.lookup id).elim s fun entry => s.deliver entry.tx none payload) := by
  simp only [step,Registry.send]
  cases held : s.registry.lookup id with
  | none => rfl
  | some entry =>
    cases sent : s.trySend payload entry.tx with
    | ok => simp [sent]
    | full => simp [sent,deliver_refused none (show s.trySend payload entry.tx ≠ .ok by simp [sent])]
    | closed => simp [sent,deliver_refused none (show s.trySend payload entry.tx ≠ .ok by simp [sent])]

theorem Apart.deliver (apart : Apart stalled s t) (c : Nat) (origin : Option Nat) (payload : Json) :
    Apart stalled (s.deliver c origin payload) (t.deliver c origin payload) := by
  cases found : s.conns[c]? with
  | none =>
    have absent : t.conns[c]? = none := by simpa [found] using apart.rows c
    rw [State.deliver,State.deliver,found,absent]
    exact apart
  | some conn =>
    obtain ⟨other,atRow,same⟩ := apart.rows.same_row found
    rw [deliver_eq found,deliver_eq atRow]
    refine ⟨apart.registry,apart.rows.set c ?_,apart.fanouts⟩
    cases shown : stalled c with
    | false => rw [eq_of_view same shown]
    | true =>
      apply view_eq_of_blank _ shown
      rw [blank_accept,blank_accept]
      exact blank_of_view same

/-- A broadcast may count a delivery to a stalled connection in one state and not in the other. -/
theorem Apart.walk (apart : Apart stalled s t) (b : Nat) {fanout other : Fanout} (same : other.walk = fanout.walk) :
    Apart stalled { s with fanouts := s.fanouts.set b fanout } { t with fanouts := t.fanouts.set b other } :=
  ⟨apart.registry,apart.rows,apart.fanouts.set b same⟩

/-- What a visit does, the refused delivery written as one that changes nothing. -/
theorem step_visit (toString : Json → Option String) {fanout : Fanout} {entry : Connection} (tags : StringMap String)
    (found : s.fanouts[b]? = some fanout) (held : s.registry.lookup key = some entry)
    (fresh : (fanout.returned || fanout.visited.contains key) = false) :
    ∃ delivered, step toString s (.visit b key tags) =
      some
        { (if fanout.pred key tags then s.deliver entry.tx (some b) fanout.payload else s) with
          fanouts := s.fanouts.set b { fanout with visited := key :: fanout.visited, delivered } } := by
  simp only [step,found,held,fresh]
  cases fits : fanout.pred key tags with
  | false => exact ⟨fanout.delivered,by simp⟩
  | true =>
    by_cases sent : s.trySend fanout.payload entry.tx = .ok
    · refine ⟨fanout.delivered + 1,?_⟩
      simp only [sent,decide_true,Bool.and_self,if_true,State.deliver]
      cases s.conns[entry.tx]? <;> rfl
    · refine ⟨fanout.delivered,?_⟩
      rw [deliver_refused (some b) sent]
      simp [sent]

theorem Apart.join (apart : Apart stalled s t) (id : String) (conn : Conn) :
    Apart stalled (s.join id conn) (t.join id conn) := by
  refine ⟨?_,apart.rows.snoc conn,apart.fanouts⟩
  rw [State.join,State.join,apart.rows.length,apart.registry]

theorem goesOn_run {c : Nat} {task : Task} (on : goesOn stalled (.run c task) = true) :
    stalled c = false ∨ task.drains = false := by
  simpa [goesOn] using on

/-- Each step that is not stalled is taken in the other state too. -/
theorem Apart.step (apart : Apart stalled s t) (a : Action) (taken : step toString s a = some s')
    (on : goesOn stalled a = true) : ∃ t', step toString t a = some t' ∧ Apart stalled s' t' := by
  cases a with
  | accept id =>
    cases taken
    exact ⟨_,rfl,apart.join id _⟩
  | connected id onConnect =>
    cases taken
    exact ⟨_,rfl,apart.join id _⟩
  | tag id entries =>
    simp only [Delivery.step,apart.registry] at taken ⊢
    split at taken <;> cases taken
    · exact ⟨_,rfl,rfl,apart.rows,apart.fanouts⟩
    · exact ⟨_,rfl,apart⟩
  | send id payload =>
    rw [step_send] at taken
    cases taken
    refine ⟨_,step_send id payload,?_⟩
    rw [apart.registry]
    cases s.registry.lookup id with
    | none => exact apart
    | some entry => exact apart.deliver entry.tx none payload
  | broadcast pred payload =>
    cases taken
    exact ⟨_,rfl,apart.registry,apart.rows,apart.fanouts.snoc _⟩
  | visit b id tags =>
    obtain ⟨fanout,entry,found,held,_⟩ := visit_cases taken
    obtain ⟨other,listed,same⟩ := apart.fanouts.same_row found
    have open_fresh : (fanout.returned || fanout.visited.contains id) = false := by
      simp only [Delivery.step,found,held] at taken
      split at taken
      · cases taken
      · rename_i unguarded
        exact Bool.eq_false_iff.mpr unguarded
    obtain ⟨pred,payload,visited,delivered,returned⟩ := fanout
    obtain ⟨_,_,_,_,_⟩ := other
    cases same
    obtain ⟨count,left⟩ := step_visit toString tags found held open_fresh
    obtain ⟨count',right⟩ := step_visit toString tags listed (apart.registry ▸ held) open_fresh
    cases taken.symm.trans left
    have delivered : Apart stalled (if pred id tags then s.deliver entry.tx (some b) payload else s)
        (if pred id tags then t.deliver entry.tx (some b) payload else t) := by
      split
      · exact apart.deliver entry.tx (some b) payload
      · exact apart
    exact ⟨_,right,delivered.registry,delivered.rows,apart.fanouts.set b rfl⟩
  | finish b =>
    simp only [Delivery.step] at taken ⊢
    split at taken
    · rename_i fanout found
      obtain ⟨other,listed,same⟩ := apart.fanouts.same_row found
      cases taken
      rw [listed]
      refine ⟨_,rfl,apart.walk b ?_⟩
      have walk := congrArg (fun fanout : Fanout => { fanout with returned := true }) same
      exact walk
    · cases taken
  | run c task =>
    simp only [Delivery.step,Option.map_eq_some_iff,Option.bind_eq_some_iff] at taken ⊢
    obtain ⟨after,⟨conn,found,ran⟩,rfl⟩ := taken
    obtain ⟨other,atRow,same⟩ := apart.rows.same_row found
    cases shown : stalled c with
    | false =>
      cases eq_of_view same shown
      exact ⟨_,⟨after,⟨conn,atRow,ran⟩,rfl⟩,apart.registry,apart.rows.set c rfl,apart.fanouts⟩
    | true =>
      have reader : task.drains = false := by
        rcases goesOn_run on with other | reader
        · cases other.symm.trans shown
        · exact reader
      obtain ⟨next,ran',alike⟩ := run_reader reader (blank_of_view same) ran
      exact ⟨_,⟨next,⟨other,atRow,ran'⟩,rfl⟩,apart.registry,apart.rows.set c (view_eq_of_blank alike shown),apart.fanouts⟩
  | close c =>
    simp only [Delivery.step] at taken ⊢
    split at taken
    · rename_i conn found
      obtain ⟨other,atRow,same⟩ := apart.rows.same_row found
      split at taken
      · rename_i live
        cases taken
        have blank := blank_of_view same
        have named : other.blank.id = conn.blank.id := congrArg Conn.id blank
        have open_reader : other.blank.live = conn.blank.live := congrArg Conn.live blank
        change other.id = conn.id at named
        change other.live = conn.live at open_reader
        rw [atRow]
        simp only [open_reader,live,if_true]
        refine ⟨_,rfl,?_,apart.rows.set c ?_,apart.fanouts⟩
        · rw [named,apart.registry]
        · cases shown : stalled c with
          | false => rw [eq_of_view same shown]
          | true =>
            apply view_eq_of_blank _ shown
            have shut := congrArg (fun blank : Conn => { blank with live := false }) blank
            exact shut
      · cases taken
    · cases taken

/-- A step of a stalled writer or bridge is not seen. -/
theorem Apart.skip (apart : Apart stalled s t) (a : Action) (taken : Delivery.step toString s a = some s')
    (off : goesOn stalled a = false) : Apart stalled s' t := by
  cases a with
  | run c task =>
    simp only [goesOn,Bool.not_eq_false',Bool.and_eq_true] at off
    simp only [Delivery.step,Option.map_eq_some_iff,Option.bind_eq_some_iff] at taken
    obtain ⟨after,⟨conn,found,ran⟩,rfl⟩ := taken
    exact ⟨apart.registry,apart.rows.set_left found (view_eq_of_blank (run_blank off.2 ran) off.1),apart.fanouts⟩
  | _ => cases off

end Stalled

/-- Whatever writers and bridges never get a turn, for the same calls every other connection accepts the
same payloads and writes the same frames. -/
theorem slow_readers_isolated (toString : Json → Option String) (stalled : Nat → Bool)
    (ran : exec (step toString) {} actions = some u) :
    ∃ v, exec (step toString) {} (actions.filter (goesOn stalled)) = some v ∧ v.registry = u.registry ∧
      ∀ c, stalled c = false → v.conns[c]? = u.conns[c]? := by
  have none_apart : Apart stalled {} {} := ⟨rfl,fun _ => rfl,fun _ => rfl⟩
  obtain ⟨v,done,apart⟩ := exec_filter (R := Apart stalled) (goesOn stalled)
    (fun _ _ a _ apart taken on => apart.step a taken on) (fun _ _ a _ apart taken off => apart.skip a taken off)
    none_apart ran
  refine ⟨v,done,apart.registry,?_⟩
  intro c shown
  have same := apart.rows c
  have plain : view stalled c = id := by
    funext conn
    rw [view,shown]
    rfl
  rw [plain,Option.map_id,id,id] at same
  exact same

/-- The second client never takes what it is sent, and the first writes the same frames. -/
theorem slow_readers_isolated_two_clients :
    ∃ v, exec (step plainText) {} (twoClients.filter (goesOn (· == 1))) = some v ∧
      v.registry = twoClientsEnd.registry ∧ v.conns[0]? = some firstClient := by
  obtain ⟨v,done,registry,rows⟩ := slow_readers_isolated plainText (· == 1) twoClients_ran
  exact ⟨v,done,registry,rows 0 rfl⟩

section Backlog
variable {toString : Json → Option String} {payload : Json} {text : String}

/-- A source whose bridge has moved `waiting` payloads towards an upstream that takes nothing: the writer
holds the first frame, if it has begun. -/
def clogged (payload : Json) (text id : String) (waiting : Nat) (held : Option Message) : Conn :=
  let moved := waiting + held.toList.length
  { id, source := true
    outbox := { queue := List.replicate waiting (.text text) }
    held
    accepted := List.replicate moved (none,payload)
    offered := List.replicate moved (.bridge,.text text) }

def backlog (payload : Json) (text id : String) (waiting : Nat) (held : Option Message) : State where
  registry := Registry.register ∅ id 0
  conns := [clogged payload text id waiting held]

def floodRun (payload : Json) (id : String) : Nat → List Action
  | 0 => [.connected id [],.send id payload,.run 0 .relay,.run 0 .take]
  | n + 1 => floodRun payload id n ++ [.send id payload,.run 0 .relay]

/-- The bridge puts a payload that was sent behind those that wait. -/
theorem relay_clogged (rendered : toString payload = some text) (id : String) (n : Nat) (held : Option Message) :
    ((clogged payload text id n held).accept none payload).run toString .relay =
      some (clogged payload text id (n + 1) held) := by
  have moved : n + 1 + held.toList.length = n + held.toList.length + 1 := Nat.add_right_comm _ _ _
  have accepted : (clogged payload text id n held).accept none payload =
      { clogged payload text id n held with
        inbox := { bound := some defaultOutboundQueueCapacity, queue := [payload] }
        accepted := List.replicate (n + held.toList.length) (none,payload) ++ [(none,payload)] } := rfl
  rw [accepted]
  simp only [Conn.run,clogged,Mailbox.recv,rendered,Conn.offer,Mailbox.trySend,Mailbox.isFull,moved,
    List.replicate_succ']
  rfl

theorem backlog_grows (rendered : toString payload = some text) (id : String) (n : Nat) (held : Option Message) :
    exec (step toString) (backlog payload text id n held) [.send id payload,.run 0 .relay] =
      some (backlog payload text id (n + 1) held) := by
  refine exec_cons_eq_some.mpr ⟨_,step_send id payload,?_⟩
  rw [show (backlog payload text id n held).registry.lookup id = some { tx := 0 } from AList.lookup_insert _]
  refine exec_cons_eq_some.mpr ⟨_,?_,exec_nil⟩
  have ran := relay_clogged rendered id n held
  simp only [step,Option.elim_some,deliver_eq (show (backlog payload text id n held).conns[0]? = some _ from rfl)]
  rw [show (List.set _ 0 _)[0]? = some ((clogged payload text id n held).accept none payload) from rfl,
    Option.bind_some,ran]
  rfl

/-- The bound on the registered channel of a source does not bound what is kept for its upstream: for
every number there is a run after which that many frames wait while the upstream has taken none. -/
theorem source_backlog_unbounded (rendered : toString payload = some text) (id : String) (n : Nat) :
    ∃ actions u conn, exec (step toString) {} actions = some u ∧ u.conns = [conn] ∧ conn.written = [] ∧
      conn.inbox.queue = [] ∧ conn.outbox.queue.length = n ∧ conn.accepted.length = n + 1 := by
  have run : exec (step toString) {} (floodRun payload id n) =
      some (backlog payload text id n (some (.text text))) := by
    induction n with
    | zero =>
      have sent := backlog_grows rendered id 0 none
      have connected : step toString {} (.connected id []) = some (backlog payload text id 0 none) := rfl
      have flood : floodRun payload id 0 = [.connected id []] ++ [.send id payload,.run 0 .relay] ++
          [.run 0 .take] := rfl
      rw [flood,exec_append,exec_append,exec,connected,Option.bind_some,exec_nil,Option.bind_some,sent]
      rfl
    | succ n ih =>
      rw [floodRun,exec_append,ih]
      exact backlog_grows rendered id n _
  exact ⟨_,_,_,run,rfl,rfl,rfl,List.length_replicate,List.length_replicate⟩

theorem source_backlog_unbounded_ticks : ∃ actions u conn, exec (step plainText) {} actions = some u ∧
    u.conns = [conn] ∧ conn.written = [] ∧ conn.inbox.queue = [] ∧ conn.outbox.queue.length = 1000 ∧
      conn.accepted.length = 1001 :=
  source_backlog_unbounded (show plainText .null = some "null" from rfl) "source:proj:feed" 1000

end Backlog

end Ruuter.Ws.Delivery
