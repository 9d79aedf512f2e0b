import Ruuter.Lib.Table
import Ruuter.Lib.Transition
import Ruuter.Step

/-! The single-flight registry (`src/steps/single_flight.rs`) under arbitrary interleavings.
Callers and entries are numbered in the order in which they appear; an entry number stands
for the identity of an `Arc<Entry>`. -/
namespace Ruuter.SingleFlight
open Transition Table

/-- What a leader broadcasts: its result variable, if one is configured, or its error text. -/
abbrev Outcome := Except String (Option Json)

structure Entry where
  isLeaderSlot : Bool := true
  sent : List Outcome := []

structure Registry where
  inner : StringMap Nat := ∅
  maxEntries : Nat := 10000

/-- A slot of the registry: a key and the number of its entry. -/
abbrev Slot := Sigma fun _ : String => Nat

/-- Where a call of `execute` stands. The first three belong to `run_as_leader`, the next
four to `run_as_follower`; a caller can be dropped at an await point of either. -/
inductive Phase
  | leading
  | published
  | finished
  | arrived
  | waiting (cursor : Nat)
  | received (outcome : Outcome)
  | timedOut
  | closed
  | cancelled

structure Caller where
  key : String
  entry : Nat
  phase : Phase

structure State where
  registry : Registry := {}
  entries : List Entry := []
  callers : List Caller := []

/-- A claim comes with the order in which `retain` would meet the slots. -/
inductive Action
  | claim (key : String) (order : List Slot)
  | publish (caller : Nat) (outcome : Outcome)
  | remove (caller : Nat)
  | subscribe (caller : Nat)
  | receive (caller : Nat)
  | closed (caller : Nat)
  | timeout (caller : Nat)
  | cancel (caller : Nat)

namespace Phase

/-- The caller still holds its `Arc<Entry>` and with it a sender. -/
def holds : Phase → Bool
  | .leading | .published | .arrived | .waiting _ => true
  | .finished | .received _ | .timedOut | .closed | .cancelled => false

def leads : Phase → Bool
  | .leading | .published | .finished => true
  | _ => false

/-- The caller has called `Registry::remove`. -/
def removed : Phase → Bool
  | .finished | .timedOut => true
  | _ => false

theorem removed_iff {p : Phase} : p.removed = true ↔ p = .finished ∨ p = .timedOut := by
  cases p <;> simp [removed]

end Phase

/-- The overflow check of `claim`: `retain` keeps the first `max_entries` slots it meets, in an order
of the map's own. -/
def Registry.retain (r : Registry) (key : String) (order : List Slot) (arranged : order.Perm r.inner.entries) :
    Registry :=
  if key ∉ r.inner ∧ r.maxEntries ≤ r.inner.entries.length then
    { r with inner := ⟨order.take r.maxEntries,
        ((List.perm_nodupKeys arranged).mpr r.inner.nodupKeys).sublist (List.take_sublist ..)⟩ }
  else r

def Registry.remove (r : Registry) (key : String) : Registry :=
  { r with inner := r.inner.erase key }

namespace State

def slot (s : State) (key : String) : Option Nat := s.registry.inner.lookup key

/-- `entry(key).or_insert_with(Entry::new)`. -/
def orInsert (s : State) (key : String) : State × Nat :=
  match s.slot key with
  | some e => (s,e)
  | none =>
    ({ s with
        registry := { s.registry with inner := s.registry.inner.insert key s.entries.length }
        entries := s.entries ++ [{}] },s.entries.length)

/-- `Registry::claim`, with the caller entering `run_as_leader` or `run_as_follower`. -/
def claim (s : State) (key : String) (order : List Slot) (arranged : order.Perm s.registry.inner.entries) : State :=
  let (s,e) := { s with registry := s.registry.retain key order arranged }.orInsert key
  let isLeader := (s.entries[e]?.map (·.isLeaderSlot)).getD false
  { s with
    entries := s.entries.modify e fun entry => { entry with isLeaderSlot := false }
    callers := s.callers ++ [⟨key,e,if isLeader then .leading else .arrived⟩] }

def setPhase (s : State) (c : Nat) (phase : Phase) : State :=
  { s with callers := s.callers.modify c fun caller => { caller with phase } }

def send (s : State) (e : Nat) (outcome : Outcome) : State :=
  { s with entries := s.entries.modify e fun entry => { entry with sent := entry.sent ++ [outcome] } }

def remove (s : State) (key : String) : State :=
  { s with registry := s.registry.remove key }

/-- The messages sent on an entry's channel. -/
def sent (s : State) (e : Nat) : List Outcome := (s.entries[e]?.map (·.sent)).getD []

/-- Live clones of an entry's sender: one in the registry slot, one with each caller that
has not left its `execute` call. -/
def senders (s : State) (e : Nat) : Nat :=
  s.registry.inner.entries.countP (·.2 == e) +
    s.callers.countP fun caller => caller.entry == e && caller.phase.holds

end State

/-- One atomic step. A receiver sees the messages sent after it subscribed; the timer of a
waiting follower may fire at any moment; a future can be dropped only while it awaits. -/
def step (s : State) : Action → Option State
  | .claim key order =>
    if arranged : order.Perm s.registry.inner.entries then some (s.claim key order arranged) else none
  | .publish c outcome =>
    match s.callers[c]? with
    | some ⟨_,e,.leading⟩ => some ((s.send e outcome).setPhase c .published)
    | _ => none
  | .remove c =>
    match s.callers[c]? with
    | some ⟨key,_,.published⟩ => some ((s.remove key).setPhase c .finished)
    | _ => none
  | .subscribe c =>
    match s.callers[c]? with
    | some ⟨_,e,.arrived⟩ => some (s.setPhase c (.waiting (s.sent e).length))
    | _ => none
  | .receive c =>
    match s.callers[c]? with
    | some ⟨_,e,.waiting cursor⟩ =>
      ((s.sent e)[cursor]?).map fun outcome => s.setPhase c (.received outcome)
    | _ => none
  | .closed c =>
    match s.callers[c]? with
    | some ⟨_,e,.waiting cursor⟩ =>
      if (s.sent e).length ≤ cursor ∧ s.senders e = 0 then some (s.setPhase c .closed) else none
    | _ => none
  | .timeout c =>
    match s.callers[c]? with
    | some ⟨key,_,.waiting _⟩ => some ((s.remove key).setPhase c .timedOut)
    | _ => none
  | .cancel c =>
    match s.callers[c]? with
    | some ⟨_,_,.leading⟩ | some ⟨_,_,.waiting _⟩ => some (s.setPhase c .cancelled)
    | _ => none

/-- Some caller of the entry has already called `Registry::remove`. -/
def Released (t : State) (e : Nat) : Prop :=
  ∃ (c : Nat) (x : Caller), t.callers[c]? = some x ∧ x.entry = e ∧ x.phase.removed = true

/-- The claim, if the action is one, finds its key or finds room for it. -/
def NoOverflow (t : State) : Action → Prop
  | .claim key _ => key ∈ t.registry.inner ∨ t.registry.inner.entries.length < t.registry.maxEntries
  | _ => True

instance : (a : Action) → Decidable (NoOverflow t a)
  | .claim .. => inferInstanceAs (Decidable (_ ∨ _))
  | .publish .. | .remove _ | .subscribe _ | .receive _ | .closed _ | .timeout _ | .cancel _ =>
    .isTrue trivial

/-- Mutual exclusion at one transition. A slot is emptied only by the leader or a timed-out
follower of the entry in it, and a claim does not make a second leader beside one that has
not published unless a follower of the running entry has timed out. -/
structure Exclusive (t : State) (a : Action) (u : State) : Prop where
  removal : ∀ k e, t.slot k = some e → u.slot k = none →
    ∃ (c : Nat) (x : Caller), t.callers[c]? = some x ∧ x.entry = e ∧
      (a = .remove c ∧ x.phase.leads = true ∨ a = .timeout c ∧ x.phase.leads = false)
  succession : ∀ (k : String) (order : List Slot) (c : Nat) (running started : Caller), a = .claim k order →
    t.callers[c]? = some running → running.key = k → running.phase = .leading →
    u.callers[t.callers.length]? = some started → started.phase = .leading →
    ∃ (d : Nat) (x : Caller), t.callers[d]? = some x ∧ x.entry = running.entry ∧ x.phase = .timedOut

/-- The caller that calls `Registry::remove` in this action. -/
def Action.releases : Action → Option Nat
  | .remove c | .timeout c => some c
  | _ => none

/-- A caller that calls `remove` although its entry has been released before finds the slot
of its key empty. -/
def Settled (t : State) (a : Action) : Prop :=
  ∀ c ∈ a.releases, ∀ x ∈ t.callers[c]?, Released t x.entry → t.slot x.key = none

instance : Decidable (Released t e) :=
  decidable_of_iff (∃ x ∈ t.callers, x.entry = e ∧ x.phase.removed = true) <| by
    simp only [Released,List.mem_iff_getElem?]
    constructor
    · rintro ⟨x,⟨c,found⟩,rest⟩
      exact ⟨c,x,found,rest⟩
    · rintro ⟨c,x,found,rest⟩
      exact ⟨x,⟨c,found⟩,rest⟩

instance : Decidable (Settled t a) :=
  inferInstanceAs (Decidable (∀ c ∈ a.releases, ∀ x ∈ t.callers[c]?, _))

namespace State

@[simp] theorem slot_setPhase (s : State) : (s.setPhase c p).slot k = s.slot k := rfl

@[simp] theorem slot_send (s : State) : (s.send e outcome).slot k = s.slot k := rfl

@[simp] theorem slot_remove_same (s : State) (k : String) : (s.remove k).slot k = none := by
  simp [remove,Registry.remove,slot]

theorem slot_remove_ne (s : State) (other : k ≠ key) : (s.remove key).slot k = s.slot k := by
  simp [remove,Registry.remove,slot,AList.lookup_erase_ne other]

@[simp] theorem callers_remove (s : State) : (s.remove k).callers = s.callers := rfl

@[simp] theorem callers_send (s : State) : (s.send e outcome).callers = s.callers := rfl

/-- A caller after a phase change is the caller before it with another phase. -/
theorem caller_of_setPhase (s : State) (found : (s.setPhase c p).callers[d]? = some y) :
    ∃ x, s.callers[d]? = some x ∧ y.key = x.key ∧ y.entry = x.entry ∧
      (y = x ∧ c ≠ d ∨ y.phase = p ∧ c = d) := by
  obtain ⟨x,atX,⟨other,rfl⟩ | ⟨same,rfl⟩⟩ := getElem?_modify_cases found
  · exact ⟨y,atX,rfl,rfl,.inl ⟨rfl,other⟩⟩
  · exact ⟨x,atX,rfl,rfl,.inr ⟨rfl,same⟩⟩

/-- Whether the entry still waits for its leader. -/
def leaderSlot (s : State) (e : Nat) : Bool := (s.entries[e]?.map (·.isLeaderSlot)).getD false

@[simp] theorem leaderSlot_setPhase (s : State) : (s.setPhase c p).leaderSlot e = s.leaderSlot e := rfl

@[simp] theorem leaderSlot_remove (s : State) : (s.remove k).leaderSlot e = s.leaderSlot e := rfl

@[simp] theorem leaderSlot_send (s : State) : (s.send d outcome).leaderSlot e = s.leaderSlot e := by
  simp only [send,leaderSlot,List.getElem?_modify]
  by_cases same : d = e <;> cases s.entries[e]? <;> simp [same]

theorem retain_of_room (s : State) (arranged : order.Perm s.registry.inner.entries)
    (room : NoOverflow s (.claim key order)) : s.registry.retain key order arranged = s.registry := by
  have kept : ¬(key ∉ s.registry.inner ∧ s.registry.maxEntries ≤ s.registry.inner.entries.length) := by
    rcases room with present | below
    · simp [present]
    · intro full
      omega
  simp [Registry.retain,if_neg kept]

/-- A claim on an occupied slot whose leader is known adds a follower of that entry. -/
theorem claim_present (s : State) (arranged : order.Perm s.registry.inner.entries)
    (room : NoOverflow s (.claim key order)) (occupied : s.slot key = some e) (led : s.leaderSlot e = false) :
    s.claim key order arranged = { s with
      entries := s.entries.modify e fun entry => { entry with isLeaderSlot := false }
      callers := s.callers ++ [⟨key,e,.arrived⟩] } := by
  have flag : (s.entries[e]?.map (·.isLeaderSlot)).getD false = false := led
  simp only [claim,retain_of_room s arranged room,orInsert,occupied,flag]
  rfl

/-- A claim on an empty slot makes the caller leader of a new entry. -/
theorem claim_absent (s : State) (arranged : order.Perm s.registry.inner.entries)
    (room : NoOverflow s (.claim key order)) (empty : s.slot key = none) :
    s.claim key order arranged = { s with
      registry := { s.registry with inner := s.registry.inner.insert key s.entries.length }
      entries := s.entries ++ [{ isLeaderSlot := false }]
      callers := s.callers ++ [⟨key,s.entries.length,.leading⟩] } := by
  have opened : (s.entries ++ [({} : Entry)]).modify s.entries.length
      (fun entry => { entry with isLeaderSlot := false }) =
        s.entries ++ [{ isLeaderSlot := false }] := by
    simp [List.modify_eq_take_cons_drop]
  simp only [claim,retain_of_room s arranged room,orInsert,empty]
  simp [opened]

end State

/-- Everything a transition can do, as far as the registry is concerned: a claim, a removal
of the caller's key, or a phase change that leaves the registry alone. -/
inductive Move (t : State) : Action → State → Prop
  | claim (arranged : order.Perm t.registry.inner.entries) :
    Move t (.claim key order) (t.claim key order arranged)
  | release (found : t.callers[c]? = some x) (done : p.removed = true) (role : p.leads = x.phase.leads)
      (origin : a = .remove c ∧ x.phase.leads = true ∨ a = .timeout c ∧ x.phase.leads = false) :
      Move t a ((t.remove x.key).setPhase c p)
  | local (found : t.callers[c]? = some x) (live : x.phase.removed = false)
      (undone : p.removed = false) (role : p.leads = true → x.phase.leads = true)
      (quiet : ∀ d key order, a ≠ .remove d ∧ a ≠ .timeout d ∧ a ≠ .claim key order)
      (channel : v = t ∨ ∃ e outcome, v = t.send e outcome) : Move t a (v.setPhase c p)

variable {t u v : State} {x y : Caller} {p : Phase}

theorem step_move (taken : step t a = some u) : Move t a u := by
  cases a <;> simp only [step] at taken
  case claim key order =>
    split at taken
    · cases taken
      exact .claim _
    · cases taken
  case remove c =>
    split at taken
    · cases taken
      exact .release (p := .finished) (by assumption) rfl rfl (.inl ⟨rfl,rfl⟩)
    · cases taken
  case timeout c =>
    split at taken
    · cases taken
      exact .release (p := .timedOut) (by assumption) rfl rfl (.inr ⟨rfl,rfl⟩)
    · cases taken
  case receive c =>
    split at taken
    · obtain ⟨outcome,-,rfl⟩ := Option.map_eq_some_iff.mp taken
      exact .local (by assumption) rfl rfl (by simp [Phase.leads]) (by simp) (.inl rfl)
    · cases taken
  case closed c =>
    split at taken
    · split at taken
      · cases taken
        exact .local (by assumption) rfl rfl (by simp [Phase.leads]) (by simp) (.inl rfl)
      · cases taken
    · cases taken
  case publish c outcome =>
    split at taken
    · cases taken
      exact .local (by assumption) rfl rfl (by simp [Phase.leads]) (by simp) (.inr ⟨_,_,rfl⟩)
    · cases taken
  case subscribe c =>
    split at taken
    · cases taken
      exact .local (by assumption) rfl rfl (by simp [Phase.leads]) (by simp) (.inl rfl)
    · cases taken
  case cancel c =>
    split at taken
    · cases taken
      exact .local (by assumption) rfl rfl (by simp [Phase.leads]) (by simp) (.inl rfl)
    · cases taken
      exact .local (by assumption) rfl rfl (by simp [Phase.leads]) (by simp) (.inl rfl)
    · cases taken

/-- What the callers of one entry have in common. -/
structure Consistent (t : State) : Prop where
  bounded : ∀ (c : Nat) (x : Caller), t.callers[c]? = some x → x.entry < t.entries.length
  led : ∀ (c : Nat) (x : Caller), t.callers[c]? = some x → t.leaderSlot x.entry = false
  agree : ∀ (c d : Nat) (x y : Caller), t.callers[c]? = some x → t.callers[d]? = some y →
    x.entry = y.entry → x.key = y.key
  leader : ∀ (c d : Nat) (x y : Caller), t.callers[c]? = some x → t.callers[d]? = some y →
    x.entry = y.entry → x.phase.leads = true → y.phase.leads = true → c = d

/-- What relates the callers to the registry. `held` is the part that removing the entry of
another caller breaks. -/
structure Invariant (t : State) : Prop extends Consistent t where
  owned : ∀ k e, t.slot k = some e →
    ∃ (c : Nat) (x : Caller), t.callers[c]? = some x ∧ x.entry = e ∧ x.key = k
  fresh : ∀ k e, t.slot k = some e → ¬Released t e
  held : ∀ (c : Nat) (x : Caller), t.callers[c]? = some x →
    t.slot x.key = some x.entry ∨ Released t x.entry

theorem initial_invariant (maxEntries : Nat) :
    Invariant { registry := { maxEntries } } where
  bounded := by simp
  led := by simp
  agree := by simp
  leader := by simp
  owned := by simp [State.slot]
  fresh := by simp [State.slot]
  held := by simp

/-- A phase change keeps the callers consistent when it makes nobody a leader. -/
theorem Consistent.setPhase (con : Consistent t) (found : t.callers[c]? = some x)
    (role : p.leads = true → x.phase.leads = true) : Consistent (t.setPhase c p) := by
  have back : ∀ (d : Nat) (y : Caller), (t.setPhase c p).callers[d]? = some y →
      ∃ z, t.callers[d]? = some z ∧ y.key = z.key ∧ y.entry = z.entry ∧
        (y.phase.leads = true → z.phase.leads = true) := by
    intro d y atD
    obtain ⟨z,atZ,key,entry,⟨rfl,-⟩ | ⟨rfl,rfl⟩⟩ := t.caller_of_setPhase atD
    · exact ⟨y,atZ,rfl,rfl,id⟩
    · obtain rfl := Option.some.inj (found.symm.trans atZ)
      exact ⟨x,atZ,key,entry,role⟩
  constructor
  · intro d y atD
    obtain ⟨z,atZ,-,entry,-⟩ := back d y atD
    rw [entry]
    exact con.bounded d z atZ
  · intro d y atD
    obtain ⟨z,atZ,-,entry,-⟩ := back d y atD
    rw [entry]
    exact con.led d z atZ
  · intro d d' y y' atD atD' same
    obtain ⟨z,atZ,key,entry,-⟩ := back d y atD
    obtain ⟨z',atZ',key',entry',-⟩ := back d' y' atD'
    rw [key,key']
    exact con.agree d d' z z' atZ atZ' (by rw [← entry,← entry',same])
  · intro d d' y y' atD atD' same leads leads'
    obtain ⟨z,atZ,-,entry,role⟩ := back d y atD
    obtain ⟨z',atZ',-,entry',role'⟩ := back d' y' atD'
    exact con.leader d d' z z' atZ atZ' (by rw [← entry,← entry',same]) (role leads) (role' leads')

theorem Consistent.remove (con : Consistent t) : Consistent (t.remove k) :=
  ⟨con.bounded,con.led,con.agree,con.leader⟩

theorem Invariant.send (inv : Invariant t) : Invariant (t.send e outcome) where
  bounded c x found := by
    have := inv.bounded c x found
    simpa [State.send] using this
  led c x found := by
    rw [State.leaderSlot_send]
    exact inv.led c x found
  agree := inv.agree
  leader := inv.leader
  owned := inv.owned
  fresh := inv.fresh
  held := inv.held

/-- Every caller survives a phase change with its key and entry. -/
theorem caller_setPhase (found : t.callers[d]? = some y) (c : Nat) (p : Phase) :
    ∃ z, (t.setPhase c p).callers[d]? = some z ∧ z.entry = y.entry ∧ z.key = y.key ∧
      (c ≠ d → z = y) ∧ (c = d → z.phase = p) := by
  refine ⟨_,getElem?_modify_row found,by split <;> rfl,by split <;> rfl,?_,?_⟩
  · intro other
    simp [other]
  · intro same
    simp [same]

/-- What a phase change adds to the released entries. -/
theorem released_setPhase (found : t.callers[c]? = some x) (live : x.phase.removed = false) :
    Released (t.setPhase c p) e ↔ Released t e ∨ p.removed = true ∧ e = x.entry := by
  constructor
  · rintro ⟨d,y,atD,rfl,done⟩
    obtain ⟨z,atZ,-,entry,⟨rfl,-⟩ | ⟨rfl,rfl⟩⟩ := t.caller_of_setPhase atD
    · exact .inl ⟨d,y,atZ,rfl,done⟩
    · obtain rfl := Option.some.inj (found.symm.trans atZ)
      exact .inr ⟨done,entry⟩
  · rintro (⟨d,y,atD,rfl,done⟩ | ⟨done,rfl⟩)
    · have other : c ≠ d := by
        rintro rfl
        obtain rfl := Option.some.inj (found.symm.trans atD)
        simp [live] at done
      obtain ⟨z,atZ,entry,-,same,-⟩ := caller_setPhase atD c p
      exact ⟨d,z,atZ,entry,same other ▸ done⟩
    · obtain ⟨z,atZ,entry,-,-,phase⟩ := caller_setPhase found c p
      exact ⟨c,z,atZ,entry,(phase rfl) ▸ done⟩

/-- A phase change that releases nothing keeps the invariant. -/
theorem Invariant.setPhase (inv : Invariant t) (found : t.callers[c]? = some x)
    (live : x.phase.removed = false) (undone : p.removed = false)
    (role : p.leads = true → x.phase.leads = true) : Invariant (t.setPhase c p) := by
  have released : ∀ e, Released (t.setPhase c p) e ↔ Released t e := by
    intro e
    simp [released_setPhase found live,undone]
  refine { inv.toConsistent.setPhase found role with owned := ?_, fresh := ?_, held := ?_ }
  · intro k e occupied
    obtain ⟨d,y,atD,rfl,rfl⟩ := inv.owned k e occupied
    obtain ⟨z,atZ,entry,key,-⟩ := caller_setPhase atD c p
    exact ⟨d,z,atZ,entry,key⟩
  · intro k e occupied
    rw [released]
    exact inv.fresh k e occupied
  · intro d y atD
    obtain ⟨z,atZ,key,entry,-⟩ := t.caller_of_setPhase atD
    rw [released,key,entry]
    exact inv.held d z atZ

/-- A removal keeps the invariant when no other entry has taken the slot meanwhile. -/
theorem Invariant.release (inv : Invariant t) (found : t.callers[c]? = some x)
    (live : x.phase.removed = false) (done : p.removed = true) (role : p.leads = x.phase.leads)
    (settled : Released t x.entry → t.slot x.key = none) :
    Invariant ((t.remove x.key).setPhase c p) := by
  have found' : (t.remove x.key).callers[c]? = some x := found
  have released : ∀ e, Released ((t.remove x.key).setPhase c p) e ↔ Released t e ∨ e = x.entry := by
    intro e
    simp [released_setPhase found' live,done]
    rfl
  refine { inv.toConsistent.remove.setPhase found' (by simp [role]) with
    owned := ?_, fresh := ?_, held := ?_ }
  · intro k e occupied
    have other : k ≠ x.key := by
      rintro rfl
      simp at occupied
    rw [State.slot_setPhase,State.slot_remove_ne t other] at occupied
    obtain ⟨d,y,atD,rfl,rfl⟩ := inv.owned k e occupied
    obtain ⟨z,atZ,entry,key,-⟩ := caller_setPhase (t := t.remove x.key) atD c p
    exact ⟨d,z,atZ,entry,key⟩
  · intro k e occupied
    have other : k ≠ x.key := by
      rintro rfl
      simp at occupied
    rw [State.slot_setPhase,State.slot_remove_ne t other] at occupied
    rw [released]
    rintro (already | rfl)
    · exact inv.fresh k e occupied already
    · obtain ⟨d,y,atD,entry,rfl⟩ := inv.owned k x.entry occupied
      exact other (inv.agree d c y x atD found entry)
  · intro d y atD
    obtain ⟨z,atZ,key,entry,-⟩ := (t.remove x.key).caller_of_setPhase atD
    rw [released,key,entry]
    rcases inv.held d z atZ with occupied | already
    · by_cases same : z.key = x.key
      · rcases inv.held c x found with own | gone
        · rw [same] at occupied
          exact .inr (.inr (Option.some.inj (occupied.symm.trans own)))
        · rw [same,settled gone] at occupied
          cases occupied
      · rw [State.slot_setPhase,State.slot_remove_ne t same]
        exact .inl occupied
    · exact .inr (.inl already)

/-- A new caller keeps the callers consistent when it agrees with those of its entry. -/
theorem Consistent.arrive (con : Consistent t) (callers : u.callers = t.callers ++ [x])
    (length : t.entries.length ≤ u.entries.length) (bounded : x.entry < u.entries.length)
    (led : u.leaderSlot x.entry = false)
    (flags : ∀ e, t.leaderSlot e = false → e < t.entries.length → u.leaderSlot e = false)
    (agree : ∀ (c : Nat) (y : Caller), t.callers[c]? = some y → y.entry = x.entry → y.key = x.key)
    (leader : x.phase.leads = true → ∀ (c : Nat) (y : Caller), t.callers[c]? = some y →
      y.entry ≠ x.entry) : Consistent u := by
  constructor
  · intro d y atD
    rw [callers] at atD
    rcases getElem?_snoc_cases atD with old | ⟨-,rfl⟩
    · exact Nat.lt_of_lt_of_le (con.bounded d y old) length
    · exact bounded
  · intro d y atD
    rw [callers] at atD
    rcases getElem?_snoc_cases atD with old | ⟨-,rfl⟩
    · exact flags y.entry (con.led d y old) (con.bounded d y old)
    · exact led
  · intro c d y z atC atD same
    rw [callers] at atC atD
    rcases getElem?_snoc_cases atC with oldC | ⟨-,rfl⟩ <;> rcases getElem?_snoc_cases atD with oldD | ⟨-,rfl⟩
    · exact con.agree c d y z oldC oldD same
    · exact agree c y oldC same
    · exact (agree d z oldD same.symm).symm
    · rfl
  · intro c d y z atC atD same leads leads'
    rw [callers] at atC atD
    rcases getElem?_snoc_cases atC with oldC | ⟨lastC,rfl⟩ <;>
      rcases getElem?_snoc_cases atD with oldD | ⟨lastD,rfl⟩
    · exact con.leader c d y z oldC oldD same leads leads'
    · exact absurd same (leader leads' c y oldC)
    · exact absurd same.symm (leader leads d z oldD)
    · rw [lastC,lastD]

/-- A caller that has removed nothing yet releases nothing by arriving. -/
theorem released_arrive (callers : u.callers = t.callers ++ [x]) (live : x.phase.removed = false) :
    Released u e ↔ Released t e := by
  constructor
  · rintro ⟨d,y,atD,rfl,done⟩
    rw [callers] at atD
    rcases getElem?_snoc_cases atD with old | ⟨-,rfl⟩
    · exact ⟨d,y,old,rfl,done⟩
    · simp [live] at done
  · rintro ⟨d,y,atD,rfl,done⟩
    refine ⟨d,y,?_,rfl,done⟩
    rw [callers]
    exact getElem?_snoc_old atD

theorem Invariant.claim (inv : Invariant t) (arranged : order.Perm t.registry.inner.entries)
    (room : NoOverflow t (.claim k order)) : Invariant (t.claim k order arranged) := by
  cases occupied : t.slot k with
  | some e =>
    obtain ⟨c,x,atC,rfl,rfl⟩ := inv.owned k e occupied
    have led := inv.led c x atC
    have shape := t.claim_present arranged room occupied led
    have callers : (t.claim x.key order arranged).callers = t.callers ++ [⟨x.key,x.entry,.arrived⟩] := by rw [shape]
    have slots : ∀ k, (t.claim x.key order arranged).slot k = t.slot k := by
      intro k
      rw [shape]
      rfl
    have length : (t.claim x.key order arranged).entries.length = t.entries.length := by simp [shape]
    have flags : ∀ e, t.leaderSlot e = false → (t.claim x.key order arranged).leaderSlot e = false := by
      intro e flag
      rw [shape]
      simp only [State.leaderSlot,List.getElem?_modify] at flag ⊢
      by_cases same : x.entry = e
      · cases t.entries[e]? <;> simp [same]
      · simpa [same] using flag
    have released : ∀ e, Released (t.claim x.key order arranged) e ↔ Released t e := fun e =>
      released_arrive callers rfl
    have consistent := inv.toConsistent.arrive callers (by rw [length])
      (by rw [length]; exact inv.bounded c x atC) (flags x.entry led) (fun e flag _ => flags e flag)
      (fun d y atD same => inv.agree d c y x atD atC same) (by simp [Phase.leads])
    refine { consistent with owned := ?_, fresh := ?_, held := ?_ }
    · intro k e occupied
      rw [slots] at occupied
      obtain ⟨d,y,atD,entry,key⟩ := inv.owned k e occupied
      exact ⟨d,y,by rw [callers]; exact getElem?_snoc_old atD,entry,key⟩
    · intro k e occupied
      rw [slots] at occupied
      rw [released]
      exact inv.fresh k e occupied
    · intro d y atD
      rw [callers] at atD
      rw [slots,released]
      rcases getElem?_snoc_cases atD with old | ⟨-,rfl⟩
      · exact inv.held d y old
      · exact .inl occupied
  | none =>
    have shape := t.claim_absent arranged room occupied
    have callers : (t.claim k order arranged).callers = t.callers ++ [⟨k,t.entries.length,.leading⟩] := by rw [shape]
    have slotSame : (t.claim k order arranged).slot k = some t.entries.length := by
      rw [shape]
      simp [State.slot]
    have slotOther : ∀ k', k' ≠ k → (t.claim k order arranged).slot k' = t.slot k' := by
      intro k' other
      rw [shape]
      simp [State.slot,AList.lookup_insert_ne other]
    have length : (t.claim k order arranged).entries.length = t.entries.length + 1 := by simp [shape]
    have flags : ∀ e, e < t.entries.length → (t.claim k order arranged).leaderSlot e = t.leaderSlot e := by
      intro e below
      rw [shape]
      simp [State.leaderSlot,List.getElem?_append_left below]
    have released : ∀ e, Released (t.claim k order arranged) e ↔ Released t e := fun e =>
      released_arrive callers rfl
    have older : ∀ (c : Nat) (y : Caller), t.callers[c]? = some y → y.entry ≠ t.entries.length :=
      fun c y atC => Nat.ne_of_lt (inv.bounded c y atC)
    have consistent := inv.toConsistent.arrive callers (by omega) (by simp [length])
      (by rw [shape]; simp [State.leaderSlot]) (fun e flag below => by rw [flags e below,flag])
      (fun c y atC same => absurd same (older c y atC)) (fun _ => older)
    refine { consistent with owned := ?_, fresh := ?_, held := ?_ }
    · intro k' e occupied'
      by_cases same : k' = k
      · subst same
        rw [slotSame] at occupied'
        cases occupied'
        exact ⟨t.callers.length,⟨k',t.entries.length,.leading⟩,by simp [callers],rfl,rfl⟩
      · rw [slotOther k' same] at occupied'
        obtain ⟨d,y,atD,entry,key⟩ := inv.owned k' e occupied'
        exact ⟨d,y,by rw [callers]; exact getElem?_snoc_old atD,entry,key⟩
    · intro k' e occupied'
      rw [released]
      by_cases same : k' = k
      · subst same
        rw [slotSame] at occupied'
        cases occupied'
        rintro ⟨d,y,atD,entry,-⟩
        exact older d y atD entry
      · rw [slotOther k' same] at occupied'
        exact inv.fresh k' e occupied'
    · intro d y atD
      rw [callers] at atD
      rw [released]
      rcases getElem?_snoc_cases atD with old | ⟨-,rfl⟩
      · rcases inv.held d y old with present | gone
        · by_cases same : y.key = k
          · rw [same,occupied] at present
            cases present
          · rw [slotOther y.key same]
            exact .inl present
        · exact .inr gone
      · exact .inl slotSame

theorem origin_releases {a : Action}
    (origin : a = .remove c ∧ x.phase.leads = true ∨ a = .timeout c ∧ x.phase.leads = false) :
    c ∈ a.releases := by
  rcases origin with ⟨rfl,-⟩ | ⟨rfl,-⟩ <;> rfl

/-- A releasing caller has not removed anything before, and leaves its slot empty. -/
theorem release_live (taken : step t a = some u) (origin : c ∈ a.releases)
    (found : t.callers[c]? = some x) : x.phase.removed = false ∧ u.slot x.key = none := by
  cases a <;> simp only [Action.releases,Option.mem_def,reduceCtorEq] at origin
  all_goals
    cases origin
    simp only [step,found] at taken
    split at taken
    all_goals first
      | contradiction
      | (rename_i eq; cases eq; cases taken; exact ⟨rfl,by simp⟩)

/-- Settled transitions keep the invariant. -/
theorem Invariant.step (inv : Invariant t) (room : NoOverflow t a) (settled : Settled t a)
    (taken : step t a = some u) : Invariant u := by
  cases step_move taken with
  | claim arranged => exact inv.claim arranged room
  | release found done role origin =>
    have releases := origin_releases origin
    exact inv.release found (release_live taken releases found).1 done role
      (settled _ releases _ found)
  | «local» found live undone role quiet channel =>
    rcases channel with rfl | ⟨e,outcome,rfl⟩
    · exact inv.setPhase found live undone role
    · exact inv.send.setPhase found live undone role

/-- The slots after a claim: the old ones, and a new entry if the key had none. -/
theorem slot_claim (arranged : order.Perm t.registry.inner.entries) (room : NoOverflow t (.claim key order))
    (inv : Invariant t) (occupied : t.slot k = some e) : (t.claim key order arranged).slot k = some e := by
  cases present : t.slot key with
  | some d =>
    obtain ⟨c,x,atC,rfl,rfl⟩ := inv.owned key d present
    rw [t.claim_present arranged room present (inv.led c x atC)]
    exact occupied
  | none =>
    have other : k ≠ key := by
      rintro rfl
      simp [present] at occupied
    rw [t.claim_absent arranged room present]
    simp only [State.slot,AList.lookup_insert_ne other]
    exact occupied

/-- Where the invariant holds, one transition is exclusive exactly when it is settled. -/
theorem exclusive_iff_settled (inv : Invariant t) (room : NoOverflow t a)
    (taken : step t a = some u) : Exclusive t a u ↔ Settled t a := by
  constructor
  · intro exclusive c origin x found gone
    cases occupied : t.slot x.key with
    | none => rfl
    | some e =>
      have emptied := (release_live taken origin found).2
      obtain ⟨d,y,atD,rfl,act⟩ := exclusive.removal x.key e occupied emptied
      obtain rfl : d = c := Option.some.inj ((origin_releases act).symm.trans origin)
      obtain rfl := Option.some.inj (found.symm.trans atD)
      exact absurd gone (inv.fresh x.key x.entry occupied)
  · intro settled
    constructor
    · intro k e occupied emptied
      cases step_move taken with
      | claim arranged =>
        rw [slot_claim arranged room inv occupied] at emptied
        cases emptied
      | release found done role origin =>
        rename_i c x p
        have same : k = x.key := by
          by_contra other
          rw [State.slot_setPhase,State.slot_remove_ne t other,occupied] at emptied
          cases emptied
        subst same
        refine ⟨c,x,found,?_,origin⟩
        rcases inv.held c x found with own | gone
        · exact Option.some.inj (own.symm.trans occupied)
        · rw [settled c (origin_releases origin) x found gone] at occupied
          cases occupied
      | «local» found live undone role quiet channel =>
        rcases channel with rfl | ⟨d,outcome,rfl⟩ <;> simp [occupied] at emptied
    · rintro k order c running started rfl found rfl phase new leading
      obtain ⟨arranged,rfl⟩ : ∃ arranged, t.claim running.key order arranged = u := by
        simpa [step] using taken
      rcases inv.held c running found with own | ⟨d,y,atD,entry,done⟩
      · rw [t.claim_present arranged room own (inv.led c running found)] at new
        simp at new
        subst new
        cases leading
      · rcases Phase.removed_iff.mp done with ended | ended
        · have same := inv.leader d c y running atD found entry (by simp [ended,Phase.leads])
            (by simp [phase,Phase.leads])
          subst same
          obtain rfl := Option.some.inj (found.symm.trans atD)
          rw [phase] at ended
          cases ended
        · exact ⟨d,y,atD,entry,ended⟩

/-- Mutual exclusion holds along exactly those schedules in which every second removal for
an entry finds the slot of its key empty. -/
theorem exclusive_along_iff (maxEntries : Nat) (actions : List Action)
    (room : Along step (fun t a _ => NoOverflow t a) { registry := { maxEntries } } actions) :
    Along step Exclusive { registry := { maxEntries } } actions ↔
      Along step (fun t a _ => Settled t a) { registry := { maxEntries } } actions := by
  constructor
  · intro exclusive
    apply (exclusive.and room).transfer (initial_invariant maxEntries)
    · rintro t a u inv taken ⟨good,room⟩
      exact inv.step room ((exclusive_iff_settled inv room taken).mp good) taken
    · rintro t a u inv taken ⟨good,room⟩
      exact (exclusive_iff_settled inv room taken).mp good
  · intro settled
    apply (settled.and room).transfer (initial_invariant maxEntries)
    · rintro t a u inv taken ⟨good,room⟩
      exact inv.step room good taken
    · rintro t a u inv taken ⟨good,room⟩
      exact (exclusive_iff_settled inv room taken).mpr good

/-- A follower of the first entry times out, a second leader starts, and the first leader
then finishes: its removal by key takes the second entry out of the slot. -/
def overtakenSchedule : List Action :=
  [.claim "k" [],.claim "k" [⟨"k",0⟩],.subscribe 1,.timeout 1,.claim "k" [],.publish 0 (.ok none),.remove 0,
    .claim "k" []]

theorem overtaken_not_exclusive :
    Along step (fun t a _ => NoOverflow t a) {} overtakenSchedule ∧
      ¬Along step Exclusive {} overtakenSchedule := by
  refine ⟨by decide,fun along => ?_⟩
  have exclusive := Along.transition (overtakenSchedule.take 6) (.remove 0) [.claim "k" []] along rfl rfl
  obtain ⟨c,x,found,entry,⟨act,-⟩ | ⟨act,-⟩⟩ := exclusive.removal "k" 1 rfl rfl
  · cases act
    cases found
    cases entry
  · cases act

theorem undisturbed_timeout_exclusive :
    Along step Exclusive {}
      [.claim "k" [],.claim "k" [⟨"k",0⟩],.subscribe 1,.timeout 1,.publish 0 (.ok none),.remove 0,.claim "k" []] :=
  (exclusive_along_iff 10000 _ (by decide)).mpr (by decide)

end Ruuter.SingleFlight
