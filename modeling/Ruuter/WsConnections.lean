import Ruuter.Context
import Ruuter.Lib.Table
import Ruuter.Lib.Transition

/-! The WebSocket registry (`src/ws/mod.rs`) and the life cycles of the connections that register in
it: `run_ws_connection` (`src/router/mod.rs`) for clients and `connect_and_drain`
(`src/sources/ws.rs`) for sources, which the supervisor starts again after a panic. Connections
are numbered as they begin; the number stands for the identity of the sender. -/
namespace Ruuter.Ws
open Transition Table

/-- A registered connection: its writer channel and its tags. -/
structure Connection where
  tx : Nat
  tags : StringMap String := ∅

abbrev Registry := StringMap Connection

/-- What `try_send` on a channel gives at one moment. -/
inductive TrySend
  | ok
  | full
  | closed
deriving DecidableEq

namespace Registry

def register (r : Registry) (id : String) (sender : Nat) : Registry := r.insert id { tx := sender }

def unregister (r : Registry) (id : String) : Registry := r.erase id

/-- A unicast, with the sender that took the payload. -/
def send (r : Registry) (trySend : Nat → TrySend) (id : String) : Except RuuterError Nat :=
  match r.lookup id with
  | none => .error (.invalidStep ("ws_send: no such connection '" ++ id ++ "'"))
  | some entry =>
    match trySend entry.tx with
    | .ok => .ok entry.tx
    | .full => .error (.invalidStep ("ws_send: outbound queue full for '" ++ id ++ "' (slow reader?)"))
    | .closed => .error (.invalidStep ("ws_send: writer dropped for '" ++ id ++ "'"))

/-- A broadcast by id and tags, with the senders that are counted as delivered. -/
def broadcastWhere (r : Registry) (trySend : Nat → TrySend) (pred : String → StringMap String → Bool) :
    List Nat :=
  (r.entries.filter fun entry => pred entry.1 entry.2.tags && trySend entry.2.tx = .ok).map (·.2.tx)

def broadcast (r : Registry) (trySend : Nat → TrySend) (pred : String → Bool) : List Nat :=
  r.broadcastWhere trySend fun id _ => pred id

def setTags (r : Registry) (id : String) (entries : List (String × String)) : Except RuuterError Registry :=
  match r.lookup id with
  | none => .error (.invalidStep ("ws_tag: no such connection '" ++ id ++ "'"))
  | some entry =>
    .ok (r.insert id { entry with tags := entries.foldl (fun tags pair => tags.insert pair.1 pair.2) entry.tags })

end Registry

/-- How a reader stopped: behind its loop, by a panic of a dispatch, or by cancellation. -/
inductive Outcome
  | returned
  | panicked
  | cancelled
deriving DecidableEq

/-- Where the reader of a connection stands. Only a source awaits its connection before it
registers. -/
inductive Phase
  | connecting
  | reading
  | dispatching
  | ended (outcome : Outcome)

def Phase.isEnded : Phase → Bool
  | .ended _ => true
  | .connecting | .reading | .dispatching => false

structure Reader where
  id : String
  source : Bool
  phase : Phase
  /-- The source has been started again after this life. -/
  restarted : Bool := false

structure State where
  registry : Registry := ∅
  readers : List Reader := []

inductive Action
  | accept (id : String)
  | spawn (project name : String)
  | restart (reader : Nat)
  | connected (reader : Nat)
  | refused (reader : Nat)
  | frame (reader : Nat)
  | dispatched (reader : Nat)
  | close (reader : Nat)
  | panic (reader : Nat)
  | cancel (reader : Nat)
  | tag (id : String) (entries : List (String × String))

def sourceId (project name : String) : String := "source:" ++ project ++ ":" ++ name

namespace State

def setPhase (s : State) (c : Nat) (phase : Phase) : State :=
  { s with readers := s.readers.modify c fun reader => { reader with phase } }

end State

/-- One step. The loop of a reader ends at the end of the stream, at an error and at a close
frame; behind it stands `unregister`. A panic unwinds from a dispatch, a cancellation strikes at
any await. A source that panicked is started again by the supervisor, one that returned by its own
loop; one that was cancelled is not. -/
def step (s : State) : Action → Option State
  | .accept id =>
    some
      { registry := s.registry.register id s.readers.length
        readers := s.readers ++ [{ id, source := false, phase := .reading }] }
  | .spawn project name =>
    some { s with readers := s.readers ++ [{ id := sourceId project name, source := true, phase := .connecting }] }
  | .restart c =>
    match s.readers[c]? with
    | some ⟨id,true,.ended .returned,false⟩ | some ⟨id,true,.ended .panicked,false⟩ =>
      some
        { s with
          readers := s.readers.modify c (fun reader => { reader with restarted := true }) ++
            [{ id, source := true, phase := .connecting }] }
    | _ => none
  | .connected c =>
    match s.readers[c]? with
    | some ⟨id,_,.connecting,_⟩ => some ({ s with registry := s.registry.register id c }.setPhase c .reading)
    | _ => none
  | .refused c =>
    match s.readers[c]? with
    | some ⟨_,_,.connecting,_⟩ => some (s.setPhase c (.ended .returned))
    | _ => none
  | .frame c =>
    match s.readers[c]? with
    | some ⟨_,_,.reading,_⟩ => some (s.setPhase c .dispatching)
    | _ => none
  | .dispatched c =>
    match s.readers[c]? with
    | some ⟨_,_,.dispatching,_⟩ => some (s.setPhase c .reading)
    | _ => none
  | .close c =>
    match s.readers[c]? with
    | some ⟨id,_,.reading,_⟩ =>
      some ({ s with registry := s.registry.unregister id }.setPhase c (.ended .returned))
    | _ => none
  | .panic c =>
    match s.readers[c]? with
    | some ⟨_,_,.dispatching,_⟩ => some (s.setPhase c (.ended .panicked))
    | _ => none
  | .cancel c =>
    match s.readers[c]? with
    | some ⟨_,_,.ended _,_⟩ | none => none
    | some _ => some (s.setPhase c (.ended .cancelled))
  | .tag id entries =>
    match s.registry.setTags id entries with
    | .ok registry => some { s with registry }
    | .error _ => some s

/-- The reader that an action ends. -/
def Action.ends : Action → Option Nat
  | .refused c | .close c | .panic c | .cancel c => some c
  | _ => none

/-- A sender that nothing reaches any more. -/
structure Gone (r : Registry) (c : Nat) : Prop where
  unregistered : ∀ id entry, r.lookup id = some entry → entry.tx ≠ c
  unsent : ∀ trySend id, r.send trySend id ≠ .ok c
  uncounted : ∀ trySend pred, c ∉ r.broadcast trySend pred
  unmatched : ∀ trySend pred, c ∉ r.broadcastWhere trySend pred

/-- The registry holds no dead connection, and the end of one connection leaves the registrations
of all others. -/
structure Live (t : State) (a : Action) (u : State) : Prop where
  gone : ∀ (c : Nat) (reader : Reader), u.readers[c]? = some reader → reader.phase.isEnded = true →
    Gone u.registry c
  others : ∀ c, a.ends = some c → ∀ id entry, t.registry.lookup id = some entry → entry.tx ≠ c →
    u.registry.lookup id = some entry

/-- A reader panics or is cancelled only while its sender is not registered, and one that returns
finds under its id its own registration or none. -/
def Clean (t : State) : Action → Prop
  | .panic c | .cancel c => ∀ reader entry, t.readers[c]? = some reader →
      t.registry.lookup reader.id = some entry → entry.tx ≠ c
  | .close c => ∀ reader entry, t.readers[c]? = some reader →
      t.registry.lookup reader.id = some entry → entry.tx = c
  | _ => True

/-- The reader is between `register` and `unregister`. -/
def Phase.isActive : Phase → Bool
  | .reading | .dispatching => true
  | .connecting | .ended _ => false

/-- Every registration belongs to an active reader of that id. -/
def Owned (s : State) : Prop :=
  ∀ id entry, s.registry.lookup id = some entry →
    ∃ reader, s.readers[entry.tx]? = some reader ∧ reader.id = id ∧ reader.phase.isActive = true

section Owners
variable {s t u : State} {a : Action} {c d : Nat} {reader : Reader} {id other : String} {entry : Connection}

theorem gone_of_unregistered {r : Registry}
    (unregistered : ∀ id entry, r.lookup id = some entry → entry.tx ≠ c) : Gone r c := by
  have unmatched : ∀ trySend pred, c ∉ r.broadcastWhere trySend pred := by
    intro trySend pred counted
    obtain ⟨⟨id,entry⟩,found,same⟩ := List.mem_map.mp counted
    have held := AList.mem_lookup_iff.mpr (List.mem_of_mem_filter found)
    exact unregistered id entry held same
  refine ⟨unregistered,?_,fun trySend pred => unmatched trySend _,unmatched⟩
  intro trySend id sent
  unfold Registry.send at sent
  split at sent
  · cases sent
  · rename_i entry found
    split at sent
    · exact unregistered id entry found (Except.ok.inj sent)
    · cases sent
    · cases sent

/-- Ended readers are gone where every registration has an active owner. -/
theorem Owned.gone (owned : Owned u) (found : u.readers[c]? = some reader)
    (ended : reader.phase.isEnded = true) : Gone u.registry c := by
  apply gone_of_unregistered
  rintro id entry held rfl
  obtain ⟨owner,atOwner,_,active⟩ := owned id entry held
  cases found.symm.trans atOwner
  cases phase : reader.phase <;> simp_all [Phase.isEnded,Phase.isActive]

/-- An owner keeps its registration through a phase change that leaves it active. -/
theorem owner_setPhase {owner : Reader} {phase : Phase} (found : s.readers[d]? = some owner)
    (active : owner.phase.isActive = true) (kept : c = d → phase.isActive = true) :
    ∃ reader, (s.setPhase c phase).readers[d]? = some reader ∧ reader.id = owner.id ∧
      reader.phase.isActive = true := by
  refine ⟨_,getElem?_modify_row found,?_,?_⟩
  · split <;> rfl
  · split
    · rename_i same
      exact kept same
    · exact active

/-- A phase change that leaves the owner of a registration active keeps the registry owned. -/
theorem Owned.setPhase {phase : Phase} (owned : Owned t)
    (kept : ∀ id entry, t.registry.lookup id = some entry → entry.tx = c → phase.isActive = true) :
    Owned (t.setPhase c phase) := by
  intro id entry held
  obtain ⟨owner,found,same,active⟩ := owned id entry held
  obtain ⟨reader,after,named,still⟩ := owner_setPhase found active fun tx => kept id entry held tx.symm
  exact ⟨reader,after,named.trans same,still⟩

/-- A registration of a reader stands under the id of the reader. -/
theorem Owned.lookup (owned : Owned t) (found : t.readers[c]? = some reader)
    (held : t.registry.lookup id = some entry) (same : entry.tx = c) :
    reader.id = id ∧ reader.phase.isActive = true := by
  subst same
  obtain ⟨owner,atOwner,named,active⟩ := owned id entry held
  cases found.symm.trans atOwner
  exact ⟨named,active⟩

/-- What an owner is, it is with more readers behind it. -/
theorem Owned.snoc (owned : Owned t) (registry : Registry)
    (inside : ∀ id entry, registry.lookup id = some entry →
      (∃ old, t.registry.lookup id = some old ∧ old.tx = entry.tx) ∨
        entry.tx = t.readers.length ∧ reader.id = id ∧ reader.phase.isActive = true) :
    Owned { registry, readers := t.readers ++ [reader] } := by
  intro id entry held
  rcases inside id entry held with ⟨old,before,same⟩ | ⟨last,named,active⟩
  · obtain ⟨owner,found,named,active⟩ := owned id old before
    rw [same] at found
    exact ⟨owner,getElem?_snoc_old found,named,active⟩
  · refine ⟨reader,?_,named,active⟩
    rw [last]
    simp

theorem lookup_setTags (tagged : Registry.setTags r id entries = .ok registry)
    (held : registry.lookup other = some entry) : ∃ old, r.lookup other = some old ∧ old.tx = entry.tx := by
  unfold Registry.setTags at tagged
  split at tagged
  · cases tagged
  · rename_i old found
    cases tagged
    by_cases same : other = id
    · subst same
      rw [AList.lookup_insert] at held
      cases held
      exact ⟨old,found,rfl⟩
    · rw [AList.lookup_insert_ne same] at held
      exact ⟨entry,held,rfl⟩

theorem Owned.accepted (owned : Owned t) (id : String) : Owned
    { registry := t.registry.register id t.readers.length
      readers := t.readers ++ [{ id, source := false, phase := .reading }] } := by
  refine owned.snoc _ ?_
  intro other entry held
  by_cases same : other = id
  · subst same
    rw [Registry.register,AList.lookup_insert] at held
    cases held
    exact .inr ⟨rfl,rfl,rfl⟩
  · rw [Registry.register,AList.lookup_insert_ne same] at held
    exact .inl ⟨entry,held,rfl⟩

/-- A restart leaves the readers that are there as they are but for the mark of the old one. -/
theorem Owned.restarted (owned : Owned t) (c : Nat) (extra : Reader) : Owned { t with
    readers := t.readers.modify c (fun reader => { reader with restarted := true }) ++ [extra] } := by
  intro id entry held
  obtain ⟨owner,found,named,active⟩ := owned id entry held
  refine ⟨_,getElem?_snoc_old (getElem?_modify_row found),?_,?_⟩
  · split <;> exact named
  · split <;> exact active

/-- A source that connects owns the registration under its id. -/
theorem Owned.connected (owned : Owned t) (found : t.readers[c]? = some reader) :
    Owned ({ t with registry := t.registry.register reader.id c }.setPhase c .reading) := by
  intro other entry held
  by_cases same : other = reader.id
  · subst same
    rw [show State.registry _ = t.registry.register reader.id c from rfl,Registry.register,
      AList.lookup_insert] at held
    cases held
    exact ⟨_,getElem?_modify_row found,by simp,by simp [Phase.isActive]⟩
  · rw [show State.registry _ = t.registry.register reader.id c from rfl,Registry.register,
      AList.lookup_insert_ne same] at held
    obtain ⟨owner,atOwner,named,active⟩ := owned other entry held
    obtain ⟨after,held,same,still⟩ := owner_setPhase (s := { t with registry := t.registry.register reader.id c })
      atOwner active (fun _ => rfl : c = _ → Phase.reading.isActive = true)
    exact ⟨after,held,same.trans named,still⟩

/-- A reader that closes takes the registration under its id with it. -/
theorem Owned.closed (owned : Owned t) (found : t.readers[c]? = some reader) :
    Owned ({ t with registry := t.registry.unregister reader.id }.setPhase c (.ended .returned)) := by
  intro other entry held
  have different : other ≠ reader.id := by
    rintro rfl
    rw [show State.registry _ = t.registry.erase reader.id from rfl,AList.lookup_erase] at held
    cases held
  rw [show State.registry _ = t.registry.erase reader.id from rfl,AList.lookup_erase_ne different] at held
  obtain ⟨owner,atOwner,named,active⟩ := owned other entry held
  have elsewhere : c ≠ entry.tx := by
    rintro rfl
    cases found.symm.trans atOwner
    exact different named.symm
  obtain ⟨after,held,same,still⟩ := owner_setPhase (s := { t with registry := t.registry.unregister reader.id })
    (c := c) atOwner active fun same => absurd same elsewhere
  exact ⟨after,held,same.trans named,still⟩

/-- A reader that holds no registration may end without `unregister`. -/
theorem Owned.ended (owned : Owned t) (found : t.readers[c]? = some reader)
    (clean : ∀ entry, t.registry.lookup reader.id = some entry → entry.tx ≠ c) (phase : Phase) :
    Owned (t.setPhase c phase) := by
  refine owned.setPhase ?_
  intro id entry held same
  have named := (owned.lookup found held same).1
  exact absurd same (clean entry (by rw [named]; exact held))

theorem Owned.tagged (owned : Owned t) (tagged : t.registry.setTags id entries = .ok registry) :
    Owned { t with registry } := by
  intro other entry held
  obtain ⟨old,before,same⟩ := lookup_setTags tagged held
  obtain ⟨owner,found,named,active⟩ := owned other old before
  rw [same] at found
  exact ⟨owner,found,named,active⟩

/-- Clean steps keep every registration owned by an active reader. -/
theorem Owned.step (owned : Owned t) (clean : Clean t a) (taken : step t a = some u) : Owned u := by
  cases a with
  | accept id =>
    cases taken
    exact owned.accepted id
  | spawn project name =>
    cases taken
    exact owned.snoc _ fun id entry held => .inl ⟨entry,held,rfl⟩
  | restart c =>
    simp only [Ws.step] at taken
    split at taken
    · cases taken
      exact owned.restarted c _
    · cases taken
      exact owned.restarted c _
    · cases taken
  | connected c =>
    simp only [Ws.step] at taken
    split at taken
    · cases taken
      rename_i found
      exact owned.connected found
    · cases taken
  | refused c =>
    simp only [Ws.step] at taken
    split at taken
    · cases taken
      rename_i found
      refine owned.setPhase ?_
      intro id entry held same
      cases (owned.lookup found held same).2
    · cases taken
  | frame c =>
    simp only [Ws.step] at taken
    split at taken
    · cases taken
      exact owned.setPhase fun _ _ _ _ => rfl
    · cases taken
  | dispatched c =>
    simp only [Ws.step] at taken
    split at taken
    · cases taken
      exact owned.setPhase fun _ _ _ _ => rfl
    · cases taken
  | close c =>
    simp only [Ws.step] at taken
    split at taken
    · cases taken
      rename_i found
      exact owned.closed found
    · cases taken
  | panic c =>
    simp only [Ws.step] at taken
    split at taken
    · cases taken
      rename_i found
      exact owned.ended found (fun entry held => clean _ entry found held) _
    · cases taken
  | cancel c =>
    simp only [Ws.step] at taken
    split at taken
    · cases taken
    · cases taken
    · cases taken
      rename_i found
      exact owned.ended found (fun entry held => clean _ entry found held) _
  | tag id entries =>
    simp only [Ws.step] at taken
    split at taken
    · rename_i registry tagged
      cases taken
      exact owned.tagged tagged
    · cases taken
      exact owned

/-- Clean steps leave the registrations of other readers. -/
theorem Clean.others (clean : Clean t a) (taken : step t a = some u) (ends : a.ends = some c)
    (held : t.registry.lookup id = some entry) (different : entry.tx ≠ c) :
    u.registry.lookup id = some entry := by
  cases a <;> simp only [Action.ends,reduceCtorEq,Option.some.injEq] at ends
  all_goals
    subst ends
    simp only [Ws.step] at taken
    split at taken <;> cases taken
  · exact held
  · rename_i own _ _ found
    have elsewhere : id ≠ own := by
      rintro rfl
      exact different (clean _ entry found held)
    exact (AList.lookup_erase_ne elsewhere).trans held
  · exact held
  · exact held

/-- From a registry whose registrations are owned, a step keeps it alive exactly when it is
clean. -/
theorem live_iff_clean (owned : Owned t) (taken : step t a = some u) : Live t a u ↔ Clean t a := by
  constructor
  · intro live
    cases a with
    | panic c =>
      intro reader entry found held same
      simp only [Ws.step,found] at taken
      split at taken
      · cases taken
        exact (live.gone c _ (getElem?_modify_row found) (by simp [Phase.isEnded])).unregistered _ entry held same
      · cases taken
    | cancel c =>
      intro reader entry found held same
      simp only [Ws.step,found] at taken
      split at taken
      · cases taken
      · cases taken
      · cases taken
        exact (live.gone c _ (getElem?_modify_row found) (by simp [Phase.isEnded])).unregistered _ entry held same
    | close c =>
      intro reader entry found held
      by_contra different
      have kept := live.others c rfl _ entry held different
      simp only [Ws.step,found] at taken
      split at taken
      · rename_i id _ _ same
        cases same
        cases taken
        rw [show State.registry _ = t.registry.erase id from rfl,AList.lookup_erase] at kept
        cases kept
      · cases taken
    | _ => trivial
  · intro clean
    refine ⟨?_,?_⟩
    · intro c reader found ended
      exact (owned.step clean taken).gone found ended
    · intro c ends id entry held different
      exact clean.others taken ends held different

end Owners

/-- The registry holds no dead connection, and no end of a connection removes another's
registration, along exactly those schedules whose steps are all clean. -/
theorem live_along_iff (actions : List Action) :
    Along step Live {} actions ↔ Along step (fun t a _ => Clean t a) {} actions := by
  have empty : Owned {} := by
    intro id entry held
    cases held
  constructor
  · intro live
    apply live.transfer empty
    · intro t a u owned taken live
      exact owned.step ((live_iff_clean owned taken).mp live) taken
    · intro t a u owned taken live
      exact (live_iff_clean owned taken).mp live
  · intro clean
    apply clean.transfer empty
    · intro t a u owned taken clean
      exact owned.step clean taken
    · intro t a u owned taken clean
      exact (live_iff_clean owned taken).mpr clean

/-- A client's frame makes the dispatch panic. -/
def panickingRun : List Action := [.accept "client:1",.frame 0,.panic 0]

/-- After the panic the sender is still registered, and a send to it counts as delivered. -/
theorem panicked_reader_registered :
    (exec step {} panickingRun).map (fun s => s.registry.send (fun _ => .ok) "client:1") = some (.ok 0) ∧
      ¬ Along step Live {} panickingRun := by
  refine ⟨rfl,?_⟩
  intro live
  have last := Along.transition (panickingRun.take 2) (.panic 0) [] live rfl rfl
  exact (last.gone 0 _ rfl rfl).unsent (fun _ => .ok) "client:1" rfl

end Ruuter.Ws
