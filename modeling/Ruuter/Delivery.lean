import Ruuter.SingleFlight

/-! What reaches the followers of a single flight, and which slots a leader leaves behind,
in every interleaving: claims beyond the capacity, cancellation at every await point and
timers included. -/
namespace Ruuter.SingleFlight
open Transition Table

variable {t u v : State} {x y : Caller} {p : Phase} {e c d : Nat} {order : List Slot}

/-- What relates callers and slots in every reachable state. -/
structure Held (t : State) : Prop extends Consistent t where
  owned : ∀ k e, t.slot k = some e →
    ∃ (c : Nat) (x : Caller), t.callers[c]? = some x ∧ x.entry = e ∧ x.key = k

theorem initial_held (maxEntries : Nat) : Held { registry := { maxEntries } } :=
  ⟨(initial_invariant maxEntries).toConsistent,(initial_invariant maxEntries).owned⟩

/-- A registry after the overflow check of `claim`. -/
def State.retained (s : State) (key : String) (order : List Slot)
    (arranged : order.Perm s.registry.inner.entries) : State :=
  { s with registry := s.registry.retain key order arranged }

theorem slot_retained (arranged : order.Perm t.registry.inner.entries)
    (occupied : (t.retained key order arranged).slot k = some e) : t.slot k = some e := by
  simp only [State.slot,State.retained,Registry.retain] at occupied ⊢
  split at occupied
  · rw [← Option.mem_def,AList.mem_lookup_iff] at occupied ⊢
    exact arranged.subset (List.mem_of_mem_take occupied)
  · exact occupied

/-- What a claim does: the caller `x` follows the entry in the slot, or leads a new one. -/
structure Arrival (t : State) (key : String) (x : Caller) (u : State) : Prop where
  callers : u.callers = t.callers ++ [x]
  named : x.key = key
  sent : ∀ e, u.sent e = t.sent e
  slots : ∀ k e, u.slot k = some e → t.slot k = some e ∨ k = key ∧ e = x.entry
  role : x.phase = .arrived ∧ t.slot key = some x.entry ∨
    x.phase = .leading ∧ x.entry = t.entries.length
  grown : t.entries.length ≤ u.entries.length ∧ x.entry < u.entries.length
  claimed : u.leaderSlot x.entry = false
  flags : ∀ e, t.leaderSlot e = false → e < t.entries.length → u.leaderSlot e = false

theorem Held.slot_led (inv : Held t) (occupied : t.slot k = some e) :
    t.leaderSlot e = false ∧ e < t.entries.length := by
  obtain ⟨c,x,found,rfl,-⟩ := inv.owned k e occupied
  exact ⟨inv.led c x found,inv.bounded c x found⟩

theorem claim_arrival (inv : Held t) (key : String) (arranged : order.Perm t.registry.inner.entries) :
    ∃ x, Arrival t key x (t.claim key order arranged) := by
  cases occupied : (t.retained key order arranged).slot key with
  | some e =>
    have before := slot_retained arranged occupied
    obtain ⟨led,below⟩ := inv.slot_led before
    have shape : t.claim key order arranged = { t.retained key order arranged with
        entries := t.entries.modify e fun entry => { entry with isLeaderSlot := false }
        callers := t.callers ++ [⟨key,e,.arrived⟩] } := by
      have occupied' : ({ t with registry := t.registry.retain key order arranged } : State).slot key = some e :=
        occupied
      have flag : (t.entries[e]?.map (·.isLeaderSlot)).getD false = false := led
      simp only [State.claim,State.orInsert,occupied',flag]
      rfl
    rw [shape]
    refine ⟨⟨key,e,.arrived⟩,rfl,rfl,?_,?_,.inl ⟨rfl,before⟩,?_,?_,?_⟩
    · intro d
      simp only [State.sent,List.getElem?_modify]
      by_cases same : e = d <;> cases t.entries[d]? <;> simp [same]
    · intro k d taken
      exact .inl (slot_retained arranged taken)
    · simpa using below
    · simp only [State.leaderSlot,List.getElem?_modify]
      cases t.entries[e]? <;> simp
    · intro d flag below
      simp only [State.leaderSlot,List.getElem?_modify] at flag ⊢
      by_cases same : e = d
      · cases t.entries[d]? <;> simp [same]
      · simpa [same] using flag
  | none =>
    have opened : (t.entries ++ [({} : Entry)]).modify t.entries.length
        (fun entry => { entry with isLeaderSlot := false }) =
          t.entries ++ [{ isLeaderSlot := false }] := by
      simp [List.modify_eq_take_cons_drop]
    have shape : t.claim key order arranged = { t.retained key order arranged with
        registry := { (t.retained key order arranged).registry with
          inner := (t.retained key order arranged).registry.inner.insert key t.entries.length }
        entries := t.entries ++ [{ isLeaderSlot := false }]
        callers := t.callers ++ [⟨key,t.entries.length,.leading⟩] } := by
      have empty : ({ t with registry := t.registry.retain key order arranged } : State).slot key = none := occupied
      simp only [State.claim,State.orInsert,empty]
      simp [State.retained,opened]
    rw [shape]
    refine ⟨⟨key,t.entries.length,.leading⟩,rfl,rfl,?_,?_,.inr ⟨rfl,rfl⟩,?_,?_,?_⟩
    · intro d
      simp only [State.sent]
      by_cases below : d < t.entries.length
      · rw [List.getElem?_append_left below]
      · by_cases last : d = t.entries.length
        · subst last
          simp
        · have beyond : t.entries.length + 1 ≤ d := by omega
          rw [List.getElem?_eq_none (by simpa using beyond),List.getElem?_eq_none (by omega)]
    · intro k d taken
      by_cases same : k = key
      · subst same
        simp [State.slot] at taken
        exact .inr ⟨rfl,taken.symm⟩
      · simp only [State.slot,AList.lookup_insert_ne same] at taken
        exact .inl (slot_retained arranged taken)
    · simp
    · simp [State.leaderSlot]
    · intro d flag below
      simpa [State.leaderSlot,List.getElem?_append_left below] using flag

theorem Held.arrive (inv : Held t) (arrival : Arrival t key x u) : Held u := by
  have consistent := inv.toConsistent.arrive arrival.callers arrival.grown.1 arrival.grown.2
    arrival.claimed arrival.flags ?_ ?_
  · refine { consistent with owned := ?_ }
    intro k e occupied
    rcases arrival.slots k e occupied with old | ⟨rfl,rfl⟩
    · obtain ⟨c,y,found,rest⟩ := inv.owned k e old
      exact ⟨c,y,by rw [arrival.callers]; exact getElem?_snoc_old found,rest⟩
    · exact ⟨t.callers.length,x,by simp [arrival.callers],rfl,arrival.named⟩
  · intro c y found same
    rcases arrival.role with ⟨-,occupied⟩ | ⟨-,new⟩
    · obtain ⟨d,z,foundZ,entry,key⟩ := inv.owned _ _ occupied
      rw [inv.agree c d y z found foundZ (same.trans entry.symm),key,arrival.named]
    · have below := inv.bounded c y found
      omega
  · intro leads c y found same
    rcases arrival.role with ⟨phase,-⟩ | ⟨-,new⟩
    · simp [phase,Phase.leads] at leads
    · have below := inv.bounded c y found
      omega

theorem slot_of_remove (occupied : (t.remove key).slot k = some e) : t.slot k = some e ∧ k ≠ key := by
  have ne : k ≠ key := by
    rintro rfl
    simp at occupied
  rw [t.slot_remove_ne ne] at occupied
  exact ⟨occupied,ne⟩

theorem Held.remove (inv : Held t) : Held (t.remove key) :=
  ⟨inv.toConsistent.remove,fun k e occupied => inv.owned k e (slot_of_remove occupied).1⟩

theorem Held.send (inv : Held t) : Held (t.send e outcome) where
  bounded c x found := by
    have := inv.bounded c x found
    simpa [State.send] using this
  led c x found := by
    rw [State.leaderSlot_send]
    exact inv.led c x found
  agree := inv.agree
  leader := inv.leader
  owned := inv.owned

theorem Held.setPhase (inv : Held t) (found : t.callers[c]? = some x)
    (role : p.leads = true → x.phase.leads = true) : Held (t.setPhase c p) := by
  refine ⟨inv.toConsistent.setPhase found role,?_⟩
  intro k e occupied
  obtain ⟨d,y,atD,rfl,rfl⟩ := inv.owned k e occupied
  obtain ⟨z,atZ,entry,key,-⟩ := caller_setPhase atD c p
  exact ⟨d,z,atZ,entry,key⟩

theorem Held.step (inv : Held t) (taken : step t a = some u) : Held u := by
  cases step_move taken with
  | claim arranged =>
    obtain ⟨x,arrival⟩ := claim_arrival inv _ arranged
    exact inv.arrive arrival
  | release found done role origin => exact inv.remove.setPhase found (by simp [role])
  | «local» found live undone role quiet channel =>
    rcases channel with rfl | ⟨e,outcome,rfl⟩
    · exact inv.setPhase found role
    · exact inv.send.setPhase found role

/-- The caller is in `run_as_leader`: it runs its body, or it has published and removes its
slot next, without an await in between. -/
def Phase.inside : Phase → Bool
  | .leading | .published => true
  | _ => false

theorem Phase.leads_of_inside (inside : p.inside = true) : p.leads = true := by
  cases p <;> simp_all [Phase.inside,Phase.leads]

/-- Some caller leads the entry. -/
def Led (t : State) (e : Nat) : Prop :=
  ∃ (c : Nat) (x : Caller), t.callers[c]? = some x ∧ x.entry = e ∧ x.phase.inside = true

/-- Every slot that has been claimed belongs to a caller in `run_as_leader`. -/
def NoOrphan (t : State) : Prop :=
  ∀ k e, t.slot k = some e → t.leaderSlot e = false → Led t e

/-- No leader is dropped while its entry is in the registry. -/
def Kept (t : State) : Action → Prop
  | .cancel c => ∀ x ∈ t.callers[c]?, x.phase.leads = true → t.slot x.key ≠ some x.entry
  | _ => True

theorem Led.arrive (led : Led t e) (arrival : Arrival t key x u) : Led u e := by
  obtain ⟨c,y,found,rest⟩ := led
  exact ⟨c,y,by rw [arrival.callers]; exact getElem?_snoc_old found,rest⟩

/-- A phase change takes the leader from an entry only if it is the leader's own. -/
theorem Led.setPhase (led : Led t e) (found : t.callers[c]? = some x)
    (stays : p.inside = true ∨ x.phase.inside = false ∨ x.entry ≠ e) : Led (t.setPhase c p) e := by
  obtain ⟨d,y,atD,rfl,inside⟩ := led
  obtain ⟨z,atZ,entry,-,same,phase⟩ := caller_setPhase atD c p
  refine ⟨d,z,atZ,entry,?_⟩
  by_cases own : c = d
  · subst own
    obtain rfl := Option.some.inj (found.symm.trans atD)
    rw [phase rfl]
    simpa [inside] using stays
  · rw [same own]
    exact inside

/-- An entry is only ever in the slot of the key that its callers gave. -/
theorem Held.slot_key (inv : Held t) (found : t.callers[c]? = some x)
    (occupied : t.slot k = some x.entry) : k = x.key := by
  obtain ⟨d,y,atD,entry,rfl⟩ := inv.owned k x.entry occupied
  exact inv.agree d c y x atD found entry

theorem noOrphan_claim (inv : Held t) (arranged : order.Perm t.registry.inner.entries) (none : NoOrphan t) :
    NoOrphan (t.claim key order arranged) := by
  obtain ⟨x,arrival⟩ := claim_arrival inv key arranged
  intro k e occupied _
  have old : t.slot k = some e → Led (t.claim key order arranged) e := fun before =>
    (none k e before (inv.slot_led before).1).arrive arrival
  rcases arrival.slots k e occupied with before | ⟨rfl,rfl⟩
  · exact old before
  · rcases arrival.role with ⟨-,before⟩ | ⟨leading,-⟩
    · exact old before
    · exact ⟨t.callers.length,x,by simp [arrival.callers],rfl,by simp [leading,Phase.inside]⟩

/-- A phase change leaves no orphan if the caller was no leader, or its entry has no slot. -/
theorem NoOrphan.setPhase (inv : Held t) (none : NoOrphan t) (found : t.callers[c]? = some x)
    (stays : p.inside = true ∨ x.phase.inside = false ∨ t.slot x.key ≠ some x.entry) :
    NoOrphan (t.setPhase c p) := by
  intro k e occupied led
  apply (none k e occupied led).setPhase found
  rcases stays with inside | outside | empty
  · exact .inl inside
  · exact .inr (.inl outside)
  · refine .inr (.inr ?_)
    rintro rfl
    obtain rfl := inv.slot_key found occupied
    exact empty occupied

theorem NoOrphan.remove (none : NoOrphan t) : NoOrphan (t.remove key) :=
  fun k e occupied led => none k e (slot_of_remove occupied).1 led

theorem NoOrphan.send (none : NoOrphan t) : NoOrphan (t.send e outcome) := by
  intro k d occupied led
  rw [State.leaderSlot_send] at led
  exact none k d occupied led

theorem NoOrphan.step (inv : Held t) (none : NoOrphan t) (taken : step t a = some u) (kept : Kept t a) :
    NoOrphan u := by
  cases a <;> simp only [SingleFlight.step] at taken
  case claim key order =>
    split at taken <;> cases taken
    exact noOrphan_claim inv _ none
  case publish c outcome =>
    split at taken <;> cases taken
    rename_i found
    exact none.send.setPhase inv.send found (.inl rfl)
  case remove c =>
    split at taken <;> cases taken
    rename_i found
    exact none.remove.setPhase inv.remove found (.inr (.inr (by simp)))
  case subscribe c =>
    split at taken <;> cases taken
    rename_i found
    exact none.setPhase inv found (.inr (.inl rfl))
  case receive c =>
    split at taken
    · rename_i found
      obtain ⟨outcome,-,rfl⟩ := Option.map_eq_some_iff.mp taken
      exact none.setPhase inv found (.inr (.inl rfl))
    · cases taken
  case closed c =>
    split at taken
    · rename_i found
      split at taken <;> cases taken
      exact none.setPhase inv found (.inr (.inl rfl))
    · cases taken
  case timeout c =>
    split at taken <;> cases taken
    rename_i found
    exact none.remove.setPhase inv.remove found (.inr (.inl rfl))
  case cancel c =>
    split at taken
    · rename_i found
      cases taken
      exact none.setPhase inv found (.inr (.inr (kept _ found rfl)))
    · rename_i found
      cases taken
      exact none.setPhase inv found (.inr (.inl rfl))
    · cases taken

/-- A dropped leader whose entry is in the registry leaves it there without one. -/
theorem kept_of_noOrphan (inv : Held t) (taken : step t a = some u) (none : NoOrphan u) : Kept t a := by
  cases a <;> try trivial
  case cancel c =>
    intro x found leads occupied
    have shape : u = t.setPhase c .cancelled := by
      simp only [SingleFlight.step] at taken
      split at taken <;> cases taken <;> rfl
    subst shape
    obtain ⟨d,y,atD,entry,inside⟩ := none x.key x.entry occupied (inv.led c x found)
    obtain ⟨z,atZ,-,same,⟨rfl,other⟩ | ⟨ended,-⟩⟩ := t.caller_of_setPhase atD
    · exact other (inv.leader c d x y found atZ entry.symm leads (Phase.leads_of_inside inside))
    · rw [ended] at inside
      cases inside

/-- Every claimed slot keeps a leader along exactly those schedules in which no leader is
dropped while its entry is in the registry. -/
theorem noOrphan_along_iff (maxEntries : Nat) (actions : List Action) :
    Along step (fun _ _ u => NoOrphan u) { registry := { maxEntries } } actions ↔
      Along step (fun t a _ => Kept t a) { registry := { maxEntries } } actions := by
  have start : NoOrphan { registry := { maxEntries } } := by simp [NoOrphan,State.slot]
  constructor
  · intro none
    apply none.transfer (initial_held maxEntries)
    · intro t a u inv taken _
      exact inv.step taken
    · intro t a u inv taken after
      exact kept_of_noOrphan inv taken after
  · intro kept
    apply kept.transfer (I := fun t => Held t ∧ NoOrphan t) ⟨initial_held maxEntries,start⟩
    · intro t a u inv taken kept
      exact ⟨inv.1.step taken,inv.2.step inv.1 taken kept⟩
    · intro t a u inv taken kept
      exact inv.2.step inv.1 taken kept

/-- A request timeout drops a leader in its body; the next caller of the key follows nobody. -/
theorem cancelled_leader_orphans :
    ¬Along step (fun _ _ u => NoOrphan u) {} [.claim "k" [],.cancel 0,.claim "k" [⟨"k",0⟩]] := by
  intro along
  have none := Along.transition [Action.claim "k" [],.cancel 0] (.claim "k" [⟨"k",0⟩]) [] along rfl rfl
  obtain ⟨c,x,found,-,inside⟩ := none "k" 0 rfl rfl
  match c, found with
  | 0, found =>
    cases found
    cases inside
  | 1, found =>
    cases found
    cases inside

/-- `rx.recv()` is ready: there is a message behind the cursor, or no sender is left. -/
def State.ready (s : State) (e cursor : Nat) : Bool := (s.sent e)[cursor]?.isSome || s.senders e == 0

/-- One atomic step, with the timer of a follower as `tokio::time::timeout` has it: `recv` is
polled first, and the timer fires only if that is pending. -/
def poll (s : State) : Action → Option State
  | .timeout c =>
    match s.callers[c]? with
    | some ⟨_,e,.waiting cursor⟩ => if s.ready e cursor then none else step s (.timeout c)
    | _ => none
  | a => step s a

/-- The leader of the entry has neither published nor been dropped. -/
def Leading (t : State) (e : Nat) : Prop :=
  ∃ (c : Nat) (x : Caller), t.callers[c]? = some x ∧ x.entry = e ∧ x.phase = .leading

/-- Delivery at one transition. A follower that has received has the one outcome that its
leader published; one whose leader has published or stopped can return at once; `Closed` and
the timer end a wait only as announced. -/
structure Delivers (t : State) (a : Action) (u : State) : Prop where
  received : ∀ (c : Nat) (x : Caller) (outcome : Outcome), u.callers[c]? = some x →
    x.phase = .received outcome → u.sent x.entry = [outcome]
  prompt : ∀ (c : Nat) (x : Caller) (cursor : Nat), u.callers[c]? = some x →
    x.phase = .waiting cursor → ¬Leading u x.entry → u.ready x.entry cursor = true
  closed : ∀ (c : Nat) (x : Caller) (cursor : Nat), a = .closed c → t.callers[c]? = some x →
    x.phase = .waiting cursor → (t.sent x.entry).length ≤ cursor ∧ ¬Leading t x.entry
  timely : ∀ (c : Nat) (x : Caller), a = .timeout c → t.callers[c]? = some x → Leading t x.entry

/-- Followers subscribe while their leader leads, and no leader is dropped while a follower
waits for it. -/
def Joined (t : State) : Action → Prop
  | .subscribe c => ∀ x ∈ t.callers[c]?, Leading t x.entry
  | .cancel c => ∀ x ∈ t.callers[c]?, x.phase = .leading →
    ∀ (d : Nat) (y : Caller) (cursor : Nat), t.callers[d]? = some y → y.phase = .waiting cursor →
      y.entry ≠ x.entry
  | _ => True

/-- What the channel of an entry has seen. -/
structure Channel (t : State) : Prop extends Held t where
  silent : ∀ e, Leading t e → t.sent e = []
  received : ∀ (c : Nat) (x : Caller) (outcome : Outcome), t.callers[c]? = some x →
    x.phase = .received outcome → t.sent x.entry = [outcome]
  waiting : ∀ (c : Nat) (x : Caller) (cursor : Nat), t.callers[c]? = some x →
    x.phase = .waiting cursor → cursor = 0 ∧ (Leading t x.entry ∨ ∃ outcome, t.sent x.entry = [outcome])

theorem initial_channel (maxEntries : Nat) : Channel { registry := { maxEntries } } where
  toHeld := initial_held maxEntries
  silent := by simp [Leading]
  received := by simp
  waiting := by simp

theorem Channel.ready_of_ended (inv : Channel t) (found : t.callers[c]? = some x)
    (phase : x.phase = .waiting cursor) (ended : ¬Leading t x.entry) : t.ready x.entry cursor = true := by
  obtain ⟨rfl,leading | ⟨outcome,published⟩⟩ := inv.waiting c x cursor found phase
  · exact absurd leading ended
  · simp [State.ready,published]

/-- A waiting follower is itself a holder of the sender. -/
theorem senders_pos (found : t.callers[c]? = some x) (phase : x.phase = .waiting cursor) :
    0 < t.senders x.entry := by
  have counted : 0 < t.callers.countP fun caller => caller.entry == x.entry && caller.phase.holds :=
    List.countP_pos_iff.mpr ⟨x,List.mem_of_getElem? found,by simp [phase,Phase.holds]⟩
  simp only [State.senders]
  omega

theorem closed_disabled (t : State) (c : Nat) : step t (.closed c) = none := by
  simp only [step]
  split
  · rename_i key e cursor found
    have positive : 0 < t.senders e := senders_pos found rfl
    rw [if_neg]
    omega
  · rfl

theorem poll_step (taken : poll t a = some u) : step t a = some u := by
  cases a <;> simp only [poll] at taken
  case timeout c =>
    split at taken
    · split at taken
      · cases taken
      · exact taken
    · cases taken
  all_goals exact taken

theorem sent_send (below : e < t.entries.length) :
    (t.send e outcome).sent d = if e = d then t.sent d ++ [outcome] else t.sent d := by
  simp only [State.sent,State.send,List.getElem?_modify]
  by_cases same : e = d
  · subst same
    simp [below]
  · simp [same]

theorem leading_of_setPhase (leading : Leading (t.setPhase c p) e) (other : p ≠ .leading) :
    ∃ (d : Nat) (y : Caller), t.callers[d]? = some y ∧ y.entry = e ∧ y.phase = .leading ∧ c ≠ d := by
  obtain ⟨d,y,atD,rfl,phase⟩ := leading
  obtain ⟨z,atZ,-,entry,⟨rfl,ne⟩ | ⟨changed,-⟩⟩ := t.caller_of_setPhase atD
  · exact ⟨d,y,atZ,rfl,phase,ne⟩
  · exact absurd (changed.symm.trans phase) other

theorem Leading.setPhase (leading : Leading t e) (found : t.callers[c]? = some x)
    (other : x.phase = .leading → x.entry ≠ e) (p : Phase) : Leading (t.setPhase c p) e := by
  obtain ⟨d,y,atD,rfl,phase⟩ := leading
  obtain ⟨z,atZ,entry,-,same,-⟩ := caller_setPhase atD c p
  have ne : c ≠ d := by
    rintro rfl
    obtain rfl := Option.some.inj (found.symm.trans atD)
    exact other phase rfl
  exact ⟨d,z,atZ,entry,by rw [same ne,phase]⟩

theorem Channel.remove (inv : Channel t) : Channel (t.remove key) :=
  ⟨inv.toHeld.remove,inv.silent,inv.received,inv.waiting⟩

/-- A caller that is not leading changes phase, and what its new phase says about the channel
is so. -/
theorem Channel.setPhase (inv : Channel t) (found : t.callers[c]? = some x)
    (before : x.phase ≠ .leading) (other : p ≠ .leading)
    (role : p.leads = true → x.phase.leads = true)
    (received : ∀ outcome, p = .received outcome → t.sent x.entry = [outcome])
    (waiting : ∀ cursor, p = .waiting cursor → cursor = 0 ∧ Leading t x.entry) :
    Channel (t.setPhase c p) := by
  have kept : ∀ e, Leading t e → Leading (t.setPhase c p) e := by
    intro e leading
    exact leading.setPhase found (fun phase => absurd phase before) p
  refine ⟨inv.toHeld.setPhase found role,?_,?_,?_⟩
  · intro e leading
    obtain ⟨d,y,atD,entry,phase,-⟩ := leading_of_setPhase leading other
    exact inv.silent e ⟨d,y,atD,entry,phase⟩
  · intro d y outcome atD phase
    obtain ⟨z,atZ,-,entry,⟨rfl,-⟩ | ⟨rfl,rfl⟩⟩ := t.caller_of_setPhase atD
    · exact inv.received d y outcome atZ phase
    · obtain rfl := Option.some.inj (found.symm.trans atZ)
      rw [entry]
      exact received outcome phase
  · intro d y cursor atD phase
    obtain ⟨z,atZ,-,entry,⟨rfl,-⟩ | ⟨rfl,rfl⟩⟩ := t.caller_of_setPhase atD
    · obtain ⟨first,leading | published⟩ := inv.waiting d y cursor atZ phase
      · exact ⟨first,.inl (kept _ leading)⟩
      · exact ⟨first,.inr published⟩
    · obtain rfl := Option.some.inj (found.symm.trans atZ)
      obtain ⟨first,leading⟩ := waiting cursor phase
      rw [entry]
      exact ⟨first,.inl (kept _ leading)⟩

theorem Channel.claim (inv : Channel t) (arranged : order.Perm t.registry.inner.entries) :
    Channel (t.claim key order arranged) := by
  obtain ⟨x,arrival⟩ := claim_arrival inv.toHeld key arranged
  have back : ∀ (c : Nat) (y : Caller), (t.claim key order arranged).callers[c]? = some y →
      t.callers[c]? = some y ∨ y = x := by
    intro c y found
    rw [arrival.callers] at found
    exact (getElem?_snoc_cases found).imp_right And.right
  have kept : ∀ e, Leading t e → Leading (t.claim key order arranged) e := by
    rintro e ⟨c,y,found,rest⟩
    exact ⟨c,y,by rw [arrival.callers]; exact getElem?_snoc_old found,rest⟩
  have role : x.phase = .arrived ∨ x.phase = .leading := arrival.role.imp And.left And.left
  refine ⟨inv.toHeld.arrive arrival,?_,?_,?_⟩
  · rintro e ⟨c,y,found,rfl,phase⟩
    rw [arrival.sent]
    rcases back c y found with old | rfl
    · exact inv.silent y.entry ⟨c,y,old,rfl,phase⟩
    · rcases arrival.role with ⟨arrived,-⟩ | ⟨-,new⟩
      · rw [arrived] at phase
        cases phase
      · simp [State.sent,new]
  · intro c y outcome found phase
    rw [arrival.sent]
    rcases back c y found with old | rfl
    · exact inv.received c y outcome old phase
    · rcases role with other | other <;> simp [other] at phase
  · intro c y cursor found phase
    rw [arrival.sent]
    rcases back c y found with old | rfl
    · obtain ⟨first,rest⟩ := inv.waiting c y cursor old phase
      exact ⟨first,rest.imp_left (kept _)⟩
    · rcases role with other | other <;> simp [other] at phase

/-- The leader publishes: what was silent now has one message. -/
theorem Channel.publish (inv : Channel t) (found : t.callers[c]? = some ⟨key,e,.leading⟩)
    (outcome : Outcome) : Channel ((t.send e outcome).setPhase c .published) := by
  have below := inv.bounded c _ found
  have own : Leading t e := ⟨c,_,found,rfl,rfl⟩
  have silent : t.sent e = [] := inv.silent e own
  have found' : (t.send e outcome).callers[c]? = some ⟨key,e,.leading⟩ := found
  have sent : ∀ d, ((t.send e outcome).setPhase c .published).sent d =
      if e = d then [outcome] else t.sent d := by
    intro d
    have changed : ((t.send e outcome).setPhase c .published).sent d = (t.send e outcome).sent d := rfl
    rw [changed,sent_send below]
    by_cases same : e = d
    · subst same
      simp [silent]
    · simp [same]
  refine ⟨inv.toHeld.send.setPhase found' (fun _ => rfl),?_,?_,?_⟩
  · intro d leading
    obtain ⟨b,y,atB,rfl,phase,ne⟩ := leading_of_setPhase leading (by simp)
    have other : e ≠ y.entry := by
      intro same
      exact ne (inv.leader c b _ y found atB same rfl (by simp [phase,Phase.leads]))
    rw [sent,if_neg other]
    exact inv.silent y.entry ⟨b,y,atB,rfl,phase⟩
  · intro d y result atD phase
    obtain ⟨z,atZ,-,entry,⟨rfl,-⟩ | ⟨changed,-⟩⟩ := (t.send e outcome).caller_of_setPhase atD
    · have before := inv.received d y result atZ phase
      have other : e ≠ y.entry := by
        rintro rfl
        rw [silent] at before
        cases before
      rw [sent,if_neg other,before]
    · rw [changed] at phase
      cases phase
  · intro d y cursor atD phase
    obtain ⟨z,atZ,-,entry,⟨rfl,-⟩ | ⟨changed,-⟩⟩ := (t.send e outcome).caller_of_setPhase atD
    · obtain ⟨first,rest⟩ := inv.waiting d y cursor atZ phase
      refine ⟨first,?_⟩
      by_cases same : e = y.entry
      · exact .inr ⟨outcome,by rw [sent,if_pos same]⟩
      · rcases rest with leading | ⟨result,published⟩
        · have still : Leading (t.send e outcome) y.entry := leading
          exact .inl (still.setPhase found' (fun _ => same) .published)
        · exact .inr ⟨result,by rw [sent,if_neg same,published]⟩
    · rw [changed] at phase
      cases phase

/-- A leader for which nobody waits is dropped. -/
theorem Channel.drop (inv : Channel t) (found : t.callers[c]? = some x)
    (alone : ∀ (d : Nat) (y : Caller) (cursor : Nat), t.callers[d]? = some y →
      y.phase = .waiting cursor → y.entry ≠ x.entry) : Channel (t.setPhase c .cancelled) := by
  refine ⟨inv.toHeld.setPhase found (by simp [Phase.leads]),?_,?_,?_⟩
  · intro e leading
    obtain ⟨d,y,atD,entry,phase,-⟩ := leading_of_setPhase leading (by simp)
    exact inv.silent e ⟨d,y,atD,entry,phase⟩
  · intro d y outcome atD phase
    obtain ⟨z,atZ,-,-,⟨rfl,-⟩ | ⟨changed,-⟩⟩ := t.caller_of_setPhase atD
    · exact inv.received d y outcome atZ phase
    · rw [changed] at phase
      cases phase
  · intro d y cursor atD phase
    obtain ⟨z,atZ,-,-,⟨rfl,-⟩ | ⟨changed,-⟩⟩ := t.caller_of_setPhase atD
    · obtain ⟨first,leading | published⟩ := inv.waiting d y cursor atZ phase
      · have other := alone d y cursor atZ phase
        exact ⟨first,.inl (leading.setPhase found (fun _ => Ne.symm other) .cancelled)⟩
      · exact ⟨first,.inr published⟩
    · rw [changed] at phase
      cases phase

theorem Channel.step (inv : Channel t) (taken : step t a = some u) (joined : Joined t a) : Channel u := by
  cases a <;> simp only [SingleFlight.step] at taken
  case claim key order =>
    split at taken <;> cases taken
    exact inv.claim _
  case publish c outcome =>
    split at taken <;> cases taken
    rename_i found
    exact inv.publish found outcome
  case remove c =>
    split at taken <;> cases taken
    rename_i found
    exact inv.remove.setPhase found (by simp) (by simp) (fun _ => rfl) (by simp) (by simp)
  case subscribe c =>
    split at taken <;> cases taken
    rename_i key e found
    have leading : Leading t e := joined _ found
    have silent := inv.silent e leading
    apply inv.setPhase found (by simp) (by simp) (by simp [Phase.leads]) (by simp)
    intro cursor phase
    rw [silent] at phase
    cases phase
    exact ⟨rfl,leading⟩
  case receive c =>
    split at taken
    · rename_i key e cursor found
      obtain ⟨outcome,message,rfl⟩ := Option.map_eq_some_iff.mp taken
      apply inv.setPhase found (by simp) (by simp) (by simp [Phase.leads]) _ (by simp)
      intro result phase
      cases phase
      obtain ⟨rfl,leading | ⟨result,published⟩⟩ := inv.waiting c _ cursor found rfl
      · have silent : t.sent e = [] := inv.silent e leading
        simp [silent] at message
      · have published : t.sent e = [result] := published
        rw [published] at message ⊢
        cases message
        rfl
    · cases taken
  case closed c =>
    have never := closed_disabled t c
    simp only [SingleFlight.step] at never
    rw [never] at taken
    cases taken
  case timeout c =>
    split at taken <;> cases taken
    rename_i found
    exact inv.remove.setPhase found (by simp) (by simp) (by simp [Phase.leads]) (by simp) (by simp)
  case cancel c =>
    split at taken
    · rename_i found
      cases taken
      exact inv.drop found (joined _ found rfl)
    · rename_i found
      cases taken
      exact inv.setPhase found (by simp) (by simp) (by simp [Phase.leads]) (by simp) (by simp)
    · cases taken

/-- The timer fires only on a follower whose leader still leads. -/
theorem Channel.delivers (inv : Channel t) (taken : poll t a = some u) (joined : Joined t a) :
    Delivers t a u := by
  have after := inv.step (poll_step taken) joined
  refine ⟨after.received,?_,?_,?_⟩
  · intro c x cursor found phase ended
    exact after.ready_of_ended found phase ended
  · rintro c x cursor rfl found phase
    have never : poll t (.closed c) = none := closed_disabled t c
    rw [never] at taken
    cases taken
  · rintro c x rfl found
    simp only [poll,found] at taken
    split at taken
    · rename_i key e cursor eq
      cases eq
      split at taken
      · cases taken
      · rename_i pending
        by_contra ended
        exact pending (inv.ready_of_ended found rfl ended)
    · cases taken

/-- A late subscription, or a leader dropped while a follower waits, leaves a follower that
nothing but its timer can end. -/
theorem joined_of_delivers (inv : Channel t) (taken : poll t a = some u) (delivers : Delivers t a u) :
    Joined t a := by
  cases a <;> try trivial
  case subscribe c =>
    intro x found
    by_contra ended
    have shape : u = t.setPhase c (.waiting (t.sent x.entry).length) := by
      simp only [poll,step] at taken
      split at taken
      · rename_i key e eq
        obtain rfl := Option.some.inj (eq.symm.trans found)
        cases taken
        rfl
      · cases taken
    obtain ⟨z,atZ,entry,-,-,phase⟩ := caller_setPhase found c (.waiting (t.sent x.entry).length)
    have waits := phase rfl
    rw [← shape] at atZ
    have still : ¬Leading u z.entry := by
      intro leading
      rw [shape,entry] at leading
      obtain ⟨d,y,atD,same,leads,-⟩ := leading_of_setPhase leading (by simp)
      exact ended ⟨d,y,atD,same,leads⟩
    have ready := delivers.prompt c z _ atZ waits still
    have positive := senders_pos atZ waits
    have sent : u.sent z.entry = t.sent x.entry := by
      rw [shape,entry]
      rfl
    simp only [State.ready,sent,Bool.or_eq_true,beq_iff_eq] at ready
    rcases ready with message | none
    · simp at message
    · omega
  case cancel c =>
    intro x found leads d y cursor atD phase same
    have shape : u = t.setPhase c .cancelled := by
      simp only [poll,step] at taken
      split at taken <;> cases taken <;> rfl
    have ne : c ≠ d := by
      rintro rfl
      obtain rfl := Option.some.inj (found.symm.trans atD)
      rw [leads] at phase
      cases phase
    obtain ⟨z,atZ,entry,-,unchanged,-⟩ := caller_setPhase atD c .cancelled
    obtain rfl := unchanged ne
    rw [← shape] at atZ
    have still : ¬Leading u z.entry := by
      intro leading
      rw [shape] at leading
      obtain ⟨b,w,atB,entry',leads',ne'⟩ := leading_of_setPhase leading (by simp)
      apply ne'
      exact inv.leader c b x w found atB (by rw [entry',same]) (by simp [leads,Phase.leads])
        (by simp [leads',Phase.leads])
    have ready := delivers.prompt d z cursor atZ phase still
    have silent : u.sent z.entry = [] := by
      rw [shape,same]
      exact inv.silent x.entry ⟨c,x,found,rfl,leads⟩
    have positive := senders_pos atZ phase
    simp only [State.ready,silent,Bool.or_eq_true,beq_iff_eq] at ready
    rcases ready with message | none
    · simp at message
    · omega

/-- Delivery holds along exactly those schedules in which followers subscribe before their
leader publishes or stops, and no leader stops while a follower waits for it. -/
theorem delivers_along_iff (maxEntries : Nat) (actions : List Action) :
    Along poll Delivers { registry := { maxEntries } } actions ↔
      Along poll (fun t a _ => Joined t a) { registry := { maxEntries } } actions := by
  constructor
  · intro delivers
    apply delivers.transfer (initial_channel maxEntries)
    · intro t a u inv taken good
      exact inv.step (poll_step taken) (joined_of_delivers inv taken good)
    · intro t a u inv taken good
      exact joined_of_delivers inv taken good
  · intro joined
    apply joined.transfer (initial_channel maxEntries)
    · intro t a u inv taken good
      exact inv.step (poll_step taken) good
    · intro t a u inv taken good
      exact inv.delivers taken good

/-- The leader publishes between the claim and the subscription of its follower. -/
def lateSchedule : List Action :=
  [.claim "k" [],.claim "k" [⟨"k",0⟩],.publish 0 (.ok none),.subscribe 1,.remove 0,.timeout 1]

/-- A follower that subscribes after its leader has published waits out its whole ttl. -/
theorem late_follower_times_out :
    (exec poll {} lateSchedule).isSome = true ∧ ¬Along poll Delivers {} lateSchedule := by
  refine ⟨rfl,?_⟩
  intro along
  have late := Along.transition (lateSchedule.take 5) (.timeout 1) [] along rfl rfl
  obtain ⟨c,x,found,-,phase⟩ := late.timely 1 _ rfl rfl
  match c, found with
  | 0, found =>
    cases found
    cases phase
  | 1, found =>
    cases found
    cases phase

end Ruuter.SingleFlight
