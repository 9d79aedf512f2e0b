import Mathlib.Data.List.Sort
import Ruuter.Engine
import Ruuter.Lib.Pool
import Ruuter.NestedGrammar

/-! The tasks of a `parallel_http` step: each waits for a permit, sends its request and is joined in
the order in which it finishes. What is bound does not depend on that order. -/
namespace Ruuter
namespace ParallelHttp
open Transition

/-- The peers of a step, each with what its call gives. They come out of an array in memory. -/
structure FanOut where
  peers : List (Json × Except RuuterError HttpResponse)
  fits : peers.length < 2 ^ 63

/-- The response of an entry, made up for a call that failed before it was sent. -/
def response : Except RuuterError HttpResponse → Json
  | .ok response => peerResponse response
  | .error e =>
    .object [("body",.null),("error",.string e.text),("headers",.object []),("status",.ofNat 0)]

/-- What is bound for a peer. -/
def entry (p : Json × Except RuuterError HttpResponse) : Json :=
  .object [("peer",p.1),("response",response p.2)]

/-- `build_peer_entry` and `build_peer_error_entry`: the entry with the position of its peer inside. -/
def buildPeerEntry (index : Nat) (p : Json × Except RuuterError HttpResponse) : Json :=
  .object [("_idx",.ofNat index),("peer",p.1),("response",response p.2)]

/-- The key that the entries are sorted by. -/
def sentinel : Json → UInt64
  | .object members =>
    match members.lookup "_idx" with
    | some (.number n) => n.asU64.getD (UInt64.ofNat (UInt64.size - 1))
    | _ => UInt64.ofNat (UInt64.size - 1)
  | _ => UInt64.ofNat (UInt64.size - 1)

def removeIdx : Json → Json
  | .object members => .object (members.filter (·.1 ≠ "_idx"))
  | other => other

/-- What `collect_filtered` keeps. -/
def filterKeeps (dropErrors : Bool) : Except RuuterError HttpResponse → Bool
  | .ok response => !(dropErrors && isTransportError response)
  | .error _ => !dropErrors

/-- `max_concurrency`, with one permit for each peer when it is not given. -/
def maxConcurrency (b : ParallelHttpBody) (peerCount : Nat) : Nat :=
  (b.maxConcurrency.map fun n => max n.toNat 1).getD peerCount

/-- The entries after which `collect_first_n` stops. -/
def target (b : ParallelHttpBody) : Nat := max (b.firstN.getD 1).toNat 1

/-- The collector joins further tasks. -/
def wants (b : ParallelHttpBody) (c : List Json × St) : Bool :=
  match b.aggregate with
  | .firstN => c.1.length < target b
  | .collectOk | .collectAll => true

/-- The tasks that are left are aborted, and not left to finish in the background. -/
def cancels (b : ParallelHttpBody) : Bool :=
  b.aggregate = .firstN ∧ b.remainingPeersAfter.getD .cancel = .cancel

/-- The bound array. -/
def ordered (collected : List Json) : List Json :=
  (collected.insertionSort fun left right => sentinel left ≤ sentinel right).map removeIdx

section Collect
variable (h : Host) (ctx : Ctx) (b : ParallelHttpBody)

/-- `predicate_matches` for a call that gave a response; it has no error of its own. -/
def counts (outcome : Except RuuterError HttpResponse) (s : St) : Bool × St :=
  match outcome with
  | .error _ => (false,s)
  | .ok response =>
    match predicateMatches h ctx b.earlyExitOn response s with
    | (.ok counted,t) => (counted,t)
    | (.error _,t) => (false,t)

/-- Whether the entry of a joined task is kept. -/
def keeps (outcome : Except RuuterError HttpResponse) (s : St) : Bool × St :=
  match b.aggregate with
  | .collectOk => (filterKeeps true outcome,s)
  | .collectAll => (filterKeeps false outcome,s)
  | .firstN => counts h ctx b outcome s

/-- What the collector does with a task, by its position. -/
def judge (f : FanOut) (i : Nat) (s : St) : Bool × St :=
  match f.peers[i]? with
  | some p => keeps h ctx b p.2 s
  | none => (false,s)

def tagged (f : FanOut) (i : Nat) : Json := ((f.peers[i]?).map (buildPeerEntry i)).getD .null

/-- The tasks before the first of them asks for its permit. -/
def FanOut.start (f : FanOut) (st : St) : Pool.State (List Json × St) :=
  Pool.start f.peers.length (maxConcurrency b f.peers.length) ([],st)

def FanOut.step (f : FanOut) : Pool.State (List Json × St) → Pool.Action → Option (Pool.State (List Json × St)) :=
  Pool.step (Pool.collecting (judge h ctx b f) (tagged f)) (wants b) (cancels b)

/-- The peers whose response is not a transport error. -/
def answered : Except RuuterError HttpResponse → Bool
  | .ok response => !isTransportError response
  | .error _ => false

/-- The response satisfies `early_exit_on`, in the state in which it is examined. -/
structure Satisfies (response : HttpResponse) (s : St) : Prop where
  answered : isTransportError response = false
  status : ((b.earlyExitOn.bind (·.statusRange)).getD (200,299)).1 ≤ response.status ∧
    response.status ≤ ((b.earlyExitOn.bind (·.statusRange)).getD (200,299)).2
  body : ∀ expr, b.earlyExitOn.bind (·.bodyPredicate) = some expr → ∃ value t,
    evaluate h ctx (.string expr) (setVariable "response" (peerResponse response) s).2 = (.ok value,t) ∧
      isTruthy value = true

/-- A peer's task was joined, and in the state in which it was examined its response satisfied the
predicate. -/
def Matches (f : FanOut) (st : St) (joins : List Nat) (i : Nat) : Prop :=
  ∃ before after peer response, joins = before ++ i :: after ∧ f.peers[i]? = some (peer,.ok response) ∧
    Satisfies h ctx b response (Pool.counted (judge h ctx b f) before st).2

/-- The law of `first_n`, for the positions of the peers that are bound. -/
structure FirstN (f : FanOut) (st : St) (s : Pool.State (List Json × St)) (picked : List Nat) : Prop where
  bound : ordered s.collector.1 = picked.filterMap fun i => f.peers[i]?.map entry
  inOrder : picked.Pairwise (· < ·)
  quota : picked.length ≤ target b
  satisfied : ∀ i ∈ picked, Matches h ctx b f st s.joins i
  short : picked.length < target b →
    (∀ i < f.peers.length, i ∈ s.joins) ∧ ∀ i, Matches h ctx b f st s.joins i → i ∈ picked

/-- What is bound when the collector has closed. -/
def FanOut.Bound (f : FanOut) (st : St) (s : Pool.State (List Json × St)) : Prop :=
  match b.aggregate with
  | .collectAll => ordered s.collector.1 = f.peers.map entry
  | .collectOk => ordered s.collector.1 = (f.peers.filter fun p => answered p.2).map entry
  | .firstN => ∃ picked, FirstN h ctx b f st s picked

variable {h ctx b} {f : FanOut} {st : St} {s : Pool.State (List Json × St)}

/-- The two ways in which a predicate ends, and the state it leaves. -/
theorem predicateMatches_eq {predicate : Option EarlyExitOn} {response : HttpResponse} (s : St)
    (given : (predicate.bind (·.statusRange)).getD (200,299) = (low,high)) :
    predicateMatches h ctx predicate response s =
      if isTransportError response || response.status < low || high < response.status then (.ok false,s)
      else
        match predicate.bind (·.bodyPredicate) with
        | none => (.ok true,s)
        | some expr =>
          match evaluate h ctx (.string expr) (setVariable "response" (peerResponse response) s).2 with
          | (.ok value,t) => (.ok (isTruthy value),t)
          | (.error _,t) => (.ok false,t) := by
  unfold predicateMatches
  rw [given]
  dsimp only
  split
  · rfl
  · cases predicate.bind (·.bodyPredicate) with
    | none => rfl
    | some expr =>
      have bound : setVariable "response" (peerResponse response) s =
          (.ok (),(setVariable "response" (peerResponse response) s).2) := rfl
      refine (Eff.bind_eq_ok bound).trans ?_
      dsimp only
      rcases ran : evaluate h ctx (.string expr) (setVariable "response" (peerResponse response) s).2 with
        ⟨_ | value,t⟩
      · exact Eff.bind_eq_ok (Eff.attempt_eq ran)
      · exact Eff.bind_eq_ok (Eff.attempt_eq ran)

/-- A call is counted when it gave a response that satisfies the predicate. -/
theorem counts_iff {outcome : Except RuuterError HttpResponse} {s : St} :
    (counts h ctx b outcome s).1 = true ↔ ∃ response, outcome = .ok response ∧ Satisfies h ctx b response s := by
  cases outcome with
  | error e => simp [counts]
  | ok response =>
    rcases given : (b.earlyExitOn.bind (·.statusRange)).getD (200,299) with ⟨low,high⟩
    simp only [Except.ok.injEq,exists_eq_left']
    unfold counts
    dsimp only
    rw [predicateMatches_eq s given]
    constructor
    · intro counted
      by_cases outside : (isTransportError response || response.status < low || high < response.status) = true
      · rw [if_pos outside] at counted
        cases counted
      · rw [if_neg outside] at counted
        simp only [Bool.or_eq_true,decide_eq_true_eq,not_or,Bool.not_eq_true,UInt16.not_lt] at outside
        refine ⟨outside.1.1,by rw [given]; exact ⟨outside.1.2,outside.2⟩,fun expr predicate => ?_⟩
        rw [predicate] at counted
        dsimp only at counted
        rcases ran : evaluate h ctx (.string expr) (setVariable "response" (peerResponse response) s).2 with
          ⟨_ | value,t⟩
        · rw [ran] at counted
          cases counted
        · rw [ran] at counted
          exact ⟨value,t,rfl,counted⟩
    · rintro ⟨answered,status,body⟩
      rw [given] at status
      rw [if_neg (by simp [answered,UInt16.not_lt.mpr status.1,UInt16.not_lt.mpr status.2])]
      cases predicate : b.earlyExitOn.bind (·.bodyPredicate) with
      | none => rfl
      | some expr =>
        obtain ⟨value,t,ran,truthy⟩ := body expr predicate
        dsimp only
        rw [ran]
        exact truthy

theorem sentinel_tagged {i : Nat} (below : i < f.peers.length) : sentinel (tagged f i) = UInt64.ofNat i := by
  unfold tagged
  rw [List.getElem?_eq_getElem below]
  rfl

theorem removeIdx_tagged {i : Nat} (below : i < f.peers.length) :
    some (removeIdx (tagged f i)) = f.peers[i]?.map entry := by
  unfold tagged
  rw [List.getElem?_eq_getElem below]
  rfl

/-- The entries come out in the order of the peers, without their positions. -/
theorem ordered_tagged {indices : List Nat} (below : ∀ i ∈ indices, i < f.peers.length) :
    ordered (indices.map (tagged f)) =
      (indices.insertionSort (· ≤ ·)).filterMap fun i => f.peers[i]?.map entry := by
  have keyed : ∀ i ∈ indices, ∀ j ∈ indices, i ≤ j ↔ sentinel (tagged f i) ≤ sentinel (tagged f j) := by
    intro i left j right
    have small (k : Nat) (member : k ∈ indices) : k < UInt64.size :=
      lt_trans (below k member) (lt_of_lt_of_le f.fits (by decide))
    rw [sentinel_tagged (below i left),sentinel_tagged (below j right),UInt64.le_iff_toNat_le,
      UInt64.toNat_ofNat_of_lt' (small i left),UInt64.toNat_ofNat_of_lt' (small j right)]
  unfold ordered
  rw [← List.map_insertionSort (· ≤ ·) (fun left right => sentinel left ≤ sentinel right) (tagged f) indices keyed,
    List.map_map,← List.filterMap_eq_map]
  refine List.filterMap_congr fun i member => ?_
  exact removeIdx_tagged (below i ((List.mem_insertionSort _).mp member))

/-- A list read back from its positions, with those left out that fail a test. -/
theorem filterMap_positions (items : List α) (kept : α → Bool) :
    ((List.range items.length).filter fun i => (items[i]?).any kept).filterMap (items[·]?) = items.filter kept := by
  induction items using List.reverseRecOn with
  | nil => rfl
  | append_singleton front last ih =>
    have same : ∀ i ∈ List.range front.length, (front ++ [last])[i]? = front[i]? := by
      intro i member
      exact List.getElem?_append_left (List.mem_range.mp member)
    rw [List.length_append,List.length_singleton,List.range_succ,List.filter_append,List.filterMap_append,
      List.filter_append,← ih]
    congr 1
    · rw [List.filter_congr fun i member => by rw [same i member]]
      exact List.filterMap_congr fun i member => same i (List.mem_filter.mp member).1
    · cases chosen : kept last <;> simp [chosen]

theorem wants_iff (mode : b.aggregate = .firstN) {c : List Json × St} : wants b c = true ↔ c.1.length < target b := by
  unfold wants
  rw [mode]
  simp

/-- Without a predicate the state decides nothing. -/
theorem judge_free {dropErrors : Bool}
    (mode : ∀ outcome t, keeps h ctx b outcome t = (filterKeeps dropErrors outcome,t)) (i : Nat) (t : St) :
    judge h ctx b f i t = ((f.peers[i]?).any fun p => filterKeeps dropErrors p.2,t) := by
  unfold judge
  cases f.peers[i]? with
  | none => rfl
  | some p => exact mode p.2 t

/-- What a collector without a predicate has bound when it closes. -/
theorem ordered_filtered (dropErrors : Bool)
    (inv : Pool.Invariant (Pool.collecting (judge h ctx b f) (tagged f)) (wants b) f.peers.length permits ([],st) s)
    (mode : ∀ outcome t, keeps h ctx b outcome t = (filterKeeps dropErrors outcome,t))
    (all : s.joins.Perm (List.range f.peers.length)) :
    ordered s.collector.1 = (f.peers.filter fun p => filterKeeps dropErrors p.2).map entry := by
  have kept : s.collector.1 = (s.joins.filter fun i => (f.peers[i]?).any fun p => filterKeeps dropErrors p.2).map
      (tagged f) := by
    rw [inv.collector_eq,Pool.counted_of_free (judge_free mode)]
  have sorted : (s.joins.filter fun i => (f.peers[i]?).any fun p => filterKeeps dropErrors p.2).insertionSort (· ≤ ·) =
      (List.range f.peers.length).filter fun i => (f.peers[i]?).any fun p => filterKeeps dropErrors p.2 := by
    refine List.Perm.eq_of_pairwise' (List.pairwise_insertionSort (· ≤ ·) _) ?_
      ((List.perm_insertionSort _ _).trans (all.filter _))
    exact (List.pairwise_lt_range.imp Nat.le_of_lt).filter _
  rw [kept,ordered_tagged fun i member => inv.lt_of_joined (List.mem_filter.mp member).1,sorted,
    ← filterMap_positions f.peers,List.map_filterMap]

theorem ordered_length (collected : List Json) : (ordered collected).length = collected.length := by
  unfold ordered
  rw [List.length_map,List.length_insertionSort]

/-- A position is counted when its peer matches. -/
theorem mem_counted_iff (mode : b.aggregate = .firstN) {joins : List Nat} :
    i ∈ (Pool.counted (judge h ctx b f) joins st).1 ↔ Matches h ctx b f st joins i := by
  have judged (u : St) : (judge h ctx b f i u).1 = true ↔
      ∃ peer response, f.peers[i]? = some (peer,.ok response) ∧ Satisfies h ctx b response u := by
    unfold judge
    cases found : f.peers[i]? with
    | none => simp
    | some p =>
      obtain ⟨peer,outcome⟩ := p
      have counting : keeps h ctx b outcome u = counts h ctx b outcome u := by
        unfold keeps
        rw [mode]
      dsimp only
      rw [counting,counts_iff]
      simp
  rw [Pool.mem_counted]
  constructor
  · rintro ⟨_,before,after,split,rfl,counted⟩
    obtain ⟨peer,response,found,satisfied⟩ := (judged _).mp counted
    exact ⟨before,after,peer,response,split,found,satisfied⟩
  · rintro ⟨before,after,peer,response,split,found,satisfied⟩
    exact ⟨_,before,after,split,rfl,(judged _).mpr ⟨peer,response,found,satisfied⟩⟩

/-- What `collect_first_n` has bound when it closes. -/
theorem ordered_first_n
    (inv : Pool.Invariant (Pool.collecting (judge h ctx b f) (tagged f)) (wants b) f.peers.length permits ([],st) s)
    (mode : b.aggregate = .firstN) (closed : s.closed = true) : ∃ picked, FirstN h ctx b f st s picked := by
  have collected := inv.collector_eq
  have sublist : (Pool.counted (judge h ctx b f) s.joins st).1.Sublist s.joins := Pool.counted_sublist s.joins st
  refine ⟨(Pool.counted (judge h ctx b f) s.joins st).1.insertionSort (· ≤ ·),?_,?_,?_,?_,?_⟩
  · rw [collected]
    exact ordered_tagged fun i member => inv.lt_of_joined (sublist.subset member)
  · have nodup := (List.perm_insertionSort (· ≤ ·) _).nodup_iff.mpr (inv.nodup.sublist sublist)
    refine ((List.pairwise_insertionSort (· ≤ ·) _).and nodup).imp ?_
    exact fun ⟨le,ne⟩ => lt_of_le_of_ne le ne
  · rw [List.length_insertionSort]
    exact inv.counted_le fun c => (wants_iff mode).mp
  · intro i member
    exact (mem_counted_iff mode).mp ((List.mem_insertionSort _).mp member)
  · intro short
    rw [List.length_insertionSort] at short
    have missing : wants b s.collector = true := by
      rw [wants_iff mode,collected,List.length_map]
      exact short
    have all := inv.perm_range closed missing
    refine ⟨fun i below => all.mem_iff.mpr (List.mem_range.mpr below),fun i satisfied => ?_⟩
    exact (List.mem_insertionSort _).mpr ((mem_counted_iff mode).mpr satisfied)

/-- However the tasks interleave and finish, no more of them are in progress than have permits, and what
is bound is given by the order of the peers. -/
theorem bound_in_peer_order (f : FanOut) (st : St) (actions : List Pool.Action)
    (reached : exec (f.step h ctx b) (f.start b st) actions = some s) :
    s.running ≤ maxConcurrency b f.peers.length ∧ (s.closed = true → f.Bound h ctx b st s) := by
  have inv := Pool.invariant_of_exec reached
  refine ⟨Pool.running_le reached,fun closed => ?_⟩
  unfold FanOut.Bound
  cases mode : b.aggregate with
  | collectAll =>
    have all := inv.perm_range closed (by simp [wants,mode])
    have everything : (fun p : Json × Except RuuterError HttpResponse => filterKeeps false p.2) = fun _ => true := by
      funext p
      cases p.2 <;> rfl
    have bound := ordered_filtered false inv (fun outcome t => by simp [keeps,mode]) all
    rw [everything,List.filter_true] at bound
    exact bound
  | collectOk =>
    have all := inv.perm_range closed (by simp [wants,mode])
    have answering : (fun p : Json × Except RuuterError HttpResponse => filterKeeps true p.2) =
        fun p => answered p.2 := by
      funext p
      cases p.2 <;> rfl
    have bound := ordered_filtered true inv (fun outcome t => by simp [keeps,mode]) all
    rw [answering] at bound
    exact bound
  | firstN => exact ordered_first_n inv mode closed

/-- The finished calls as the executor of the step has them. -/
def FanOut.spawned (f : FanOut) : List PeerOutcome :=
  f.peers.mapIdx fun index p => { index, peer := p.1, outcome := p.2 }

theorem spawned_getElem? (f : FanOut) (i : Nat) :
    f.spawned[i]? = f.peers[i]?.map fun p => { index := i, peer := p.1, outcome := p.2 : PeerOutcome } := by
  unfold FanOut.spawned
  rw [List.getElem?_mapIdx]

/-- A position beside its entry. -/
def located (f : FanOut) (i : Nat) : Nat × Json := (i,(f.peers[i]?.map entry).getD .null)

theorem peer_of_lt {i : Nat} (below : i < f.peers.length) : ∃ peer outcome, f.peers[i]? = some (peer,outcome) :=
  ⟨_,_,List.getElem?_eq_getElem below⟩

theorem spawned_of_peer (found : f.peers[i]? = some (peer,outcome)) :
    f.spawned[i]? = some { index := i, peer, outcome : PeerOutcome } := by
  rw [spawned_getElem?,found]
  rfl

/-- The executor pairs a position with the same entry. -/
theorem located_of_peer (found : f.peers[i]? = some (peer,outcome)) :
    located f i = PeerOutcome.entry { index := i, peer, outcome } := by
  unfold located
  rw [found]
  cases outcome <;> rfl

theorem predicateMatches_total (predicate : Option EarlyExitOn) (response : HttpResponse) (s : St) :
    ∃ counted t, predicateMatches h ctx predicate response s = (.ok counted,t) := by
  rcases given : (predicate.bind (·.statusRange)).getD (200,299) with ⟨low,high⟩
  rw [predicateMatches_eq s given]
  split
  · exact ⟨false,s,rfl⟩
  · split
    · exact ⟨true,s,rfl⟩
    · split
      · exact ⟨_,_,rfl⟩
      · exact ⟨_,_,rfl⟩

theorem collectFirstN_zero (predicate : Option EarlyExitOn) (finished : List PeerOutcome) :
    collectFirstN h ctx predicate 0 finished = pure [] := by
  cases finished <;> rfl

/-- `collect_first_n` over the tasks in the order in which they finish, with those that it no longer joins. -/
theorem collectFirstN_eq (mode : b.aggregate = .firstN) {joins rest : List Nat} {missing : Nat} {st : St}
    (below : ∀ i ∈ joins, i < f.peers.length)
    (wanted : ∀ before i after, joins = before ++ i :: after →
      (Pool.counted (judge h ctx b f) before st).1.length < missing)
    (stop : missing ≤ (Pool.counted (judge h ctx b f) joins st).1.length ∨ rest = []) :
    collectFirstN h ctx b.earlyExitOn missing ((joins ++ rest).filterMap (f.spawned[·]?)) st =
      (.ok ((Pool.counted (judge h ctx b f) joins st).1.map (located f)),
        (Pool.counted (judge h ctx b f) joins st).2) := by
  induction joins generalizing missing st with
  | nil =>
    rcases stop with full | rfl
    · cases Nat.le_zero.mp full
      rw [collectFirstN_zero]
      rfl
    · cases missing <;> rfl
  | cons i joins ih =>
    obtain ⟨missing,rfl⟩ := Nat.exists_eq_add_one.mpr (Nat.zero_lt_of_lt (wanted [] i joins rfl))
    obtain ⟨peer,outcome,found⟩ := peer_of_lt (below i List.mem_cons_self)
    have counted (later : List Nat) : Pool.counted (judge h ctx b f) (i :: later) st =
        (if (counts h ctx b outcome st).1 then
            i :: (Pool.counted (judge h ctx b f) later (counts h ctx b outcome st).2).1
          else (Pool.counted (judge h ctx b f) later (counts h ctx b outcome st).2).1,
          (Pool.counted (judge h ctx b f) later (counts h ctx b outcome st).2).2) := by
      have judged : judge h ctx b f i st = counts h ctx b outcome st := by
        unfold judge keeps
        rw [found,mode]
      rw [Pool.counted,judged]
    have later : ∀ i ∈ joins, i < f.peers.length := fun i member => below i (List.mem_cons_of_mem _ member)
    rw [counted] at stop ⊢
    rw [List.cons_append,List.filterMap_cons_some (spawned_of_peer found)]
    -- The quota still has room here, and one place less after a peer that counts.
    cases outcome with
    | error e =>
      refine ih later (fun before j after split => ?_) stop
      have room := wanted (i :: before) j after (by rw [split]; rfl)
      rw [counted] at room
      exact room
    | ok response =>
      obtain ⟨matched,t,ran⟩ : ∃ matched t, predicateMatches h ctx b.earlyExitOn response st = (.ok matched,t) :=
        predicateMatches_total b.earlyExitOn response st
      have judged : counts h ctx b (.ok response) st = (matched,t) := by
        unfold counts
        dsimp only
        rw [ran]
      rw [judged] at counted stop ⊢
      refine (Eff.bind_eq_ok ran).trans ?_
      cases matched with
      | true =>
        have room : ∀ before j after, joins = before ++ j :: after →
            (Pool.counted (judge h ctx b f) before t).1.length < missing := by
          intro before j after split
          have room := wanted (i :: before) j after (by rw [split]; rfl)
          rw [counted] at room
          exact Nat.lt_of_succ_lt_succ room
        have rest := ih later room (stop.imp_left Nat.le_of_succ_le_succ)
        refine (Eff.bind_eq_ok rest).trans ?_
        simp only [if_true,List.map_cons,located_of_peer found]
        rfl
      | false =>
        refine ih later (fun before j after split => ?_) stop
        have room := wanted (i :: before) j after (by rw [split]; rfl)
        rw [counted] at room
        exact room

/-- `collect_filtered` over the tasks in the order in which they finish. -/
theorem collectFiltered_eq (dropErrors : Bool) {joins : List Nat} (below : ∀ i ∈ joins, i < f.peers.length) :
    collectFiltered dropErrors (joins.filterMap (f.spawned[·]?)) =
      (joins.filter fun i => (f.peers[i]?).any fun p => filterKeeps dropErrors p.2).map (located f) := by
  induction joins with
  | nil => rfl
  | cons i joins ih =>
    have later := ih fun j member => below j (List.mem_cons_of_mem _ member)
    obtain ⟨peer,outcome,found⟩ := peer_of_lt (below i List.mem_cons_self)
    have here := located_of_peer found
    unfold collectFiltered at later ⊢
    rw [List.filterMap_cons_some (spawned_of_peer found),List.filter_cons,List.filter_cons,found,Option.any_some]
    cases outcome with
    | error e =>
      cases dropErrors with
      | true => exact later
      | false =>
        simp only [filterKeeps,Bool.not_false,if_true,List.map_cons,here]
        exact congrArg _ later
    | ok response =>
      cases kept : !(dropErrors && isTransportError response) with
      | false =>
        simp only [filterKeeps,kept,Bool.false_eq_true,if_false]
        exact later
      | true =>
        simp only [filterKeeps,kept,if_true,List.map_cons,here]
        exact congrArg _ later

/-- Sorting by the position beside an entry is sorting by the position inside it. -/
theorem ordered_located {indices : List Nat} (below : ∀ i ∈ indices, i < f.peers.length) :
    ((indices.map (located f)).insertionSort fun left right => left.1 ≤ right.1).map (·.2) =
      ordered (indices.map (tagged f)) := by
  have keyed : ∀ i ∈ indices, ∀ j ∈ indices, i ≤ j ↔ (located f i).1 ≤ (located f j).1 := fun i _ j _ => Iff.rfl
  rw [ordered_tagged below,← List.map_insertionSort (· ≤ ·) (fun left right => left.1 ≤ right.1) (located f) indices
    keyed,List.map_map,← List.filterMap_eq_map]
  refine List.filterMap_congr fun i member => ?_
  have inside := List.getElem?_eq_getElem (below i ((List.mem_insertionSort _).mp member))
  unfold located
  dsimp only [Function.comp]
  rw [inside]
  rfl

/-- The executor's account of the step, in which the calls finish in some order, agrees with every run of
the tasks that joins them in that order. -/
theorem aggregated_of_run (f : FanOut) (st : St) (actions : List Pool.Action)
    (reached : exec (f.step h ctx b) (f.start b st) actions = some s) (closed : s.closed = true) (rest : List Nat)
    (nodup : (s.joins ++ rest).Nodup) (below : ∀ i ∈ s.joins ++ rest, i < f.peers.length) :
    ∃ collected, aggregated h ctx b ((s.joins ++ rest).filterMap (f.spawned[·]?)) st = (.ok collected,s.collector.2) ∧
      (collected.insertionSort fun left right => left.1 ≤ right.1).map (·.2) = ordered s.collector.1 := by
  have inv := Pool.invariant_of_exec reached
  have collected := inv.collector_eq
  have sublist : (Pool.counted (judge h ctx b f) s.joins st).1.Sublist s.joins := Pool.counted_sublist s.joins st
  have joined : ∀ i ∈ s.joins, i < f.peers.length := fun i => inv.lt_of_joined
  have nothing (wanting : wants b s.collector = true) : rest = [] := by
    refine List.eq_nil_iff_forall_not_mem.mpr fun i member => ?_
    have again := (inv.perm_range closed wanting).mem_iff.mpr
      (List.mem_range.mpr (below i (List.mem_append_right _ member)))
    exact List.disjoint_of_nodup_append nodup again member
  refine ⟨(Pool.counted (judge h ctx b f) s.joins st).1.map (located f),?_,?_⟩
  · have filtered (dropErrors : Bool)
        (mode : ∀ outcome t, keeps h ctx b outcome t = (filterKeeps dropErrors outcome,t))
        (wanting : wants b s.collector = true) :
        (collectFiltered dropErrors ((s.joins ++ rest).filterMap (f.spawned[·]?)),st) =
          ((Pool.counted (judge h ctx b f) s.joins st).1.map (located f),s.collector.2) := by
      rw [nothing wanting,List.append_nil,collectFiltered_eq dropErrors joined,collected,
        Pool.counted_of_free (judge_free mode)]
    unfold aggregated
    cases mode : b.aggregate with
    | collectAll =>
      obtain ⟨same,kept⟩ := Prod.mk.inj (filtered false (fun _ _ => by simp [keeps,mode]) (by simp [wants,mode]))
      dsimp only
      rw [Eff.pure_eq,same,← kept]
    | collectOk =>
      obtain ⟨same,kept⟩ := Prod.mk.inj (filtered true (fun _ _ => by simp [keeps,mode]) (by simp [wants,mode]))
      dsimp only
      rw [Eff.pure_eq,same,← kept]
    | firstN =>
      have room : ∀ before i after, s.joins = before ++ i :: after →
          (Pool.counted (judge h ctx b f) before st).1.length < target b := by
        intro before i after split
        have wanted := (wants_iff mode).mp (inv.wanted before i after split)
        rw [Pool.foldl_collecting,List.nil_append,List.length_map] at wanted
        exact wanted
      have stop : target b ≤ (Pool.counted (judge h ctx b f) s.joins st).1.length ∨ rest = [] := by
        by_cases full : target b ≤ (Pool.counted (judge h ctx b f) s.joins st).1.length
        · exact .inl full
        · refine .inr (nothing ((wants_iff mode).mpr ?_))
          rw [collected,List.length_map]
          exact Nat.lt_of_not_le full
      rw [collected]
      exact collectFirstN_eq mode joined room stop
  · rw [collected]
    exact ordered_located fun i member => joined i (sublist.subset member)

end Collect

/-- Two peers that answer, and a step that asks both and keeps everything. -/
def pair : FanOut where
  peers := [(.string "a",.ok { status := 200 }),(.string "b",.ok { status := 503, error := some "connect" })]
  fits := by decide

def keepAll : ParallelHttpBody where
  peers := "$\x7bsites\x7d"
  args := { url := "$\x7bpeer\x7d" }
  maxConcurrency := some 2
  aggregate := .collectAll
  result := "answers"

theorem pair_bound_in_peer_order : ∃ s, exec (pair.step {} {} keepAll) (pair.start keepAll {})
      [.acquire 0,.acquire 1,.finish 1,.join 1,.finish 0,.join 0,.close] = some s ∧ s.closed = true ∧
    s.running ≤ 2 ∧ ordered s.collector.1 = pair.peers.map entry := by
  obtain ⟨s,reached,closed⟩ : ∃ s, exec (pair.step {} {} keepAll) (pair.start keepAll {})
      [.acquire 0,.acquire 1,.finish 1,.join 1,.finish 0,.join 0,.close] = some s ∧ s.closed = true := ⟨_,rfl,rfl⟩
  have law := bound_in_peer_order pair {} _ reached
  exact ⟨s,reached,closed,law.1,law.2 closed⟩

/-- A nested step that asks for no entry at all. -/
def unaskedContent : String :=
  "each:\n  iterate:\n    over: [1]\n    as: item\n    do:\n      - parallel_http:\n" ++
  "          peers: $\x7bsites\x7d\n          args:\n            url: $\x7bpeer\x7d\n" ++
  "          aggregate: first_n\n          first_n: 0\n          result: answers\n"

def unaskedDocument : StringMap Yaml :=
  AList.singleton "each" (.mapping [(.string "iterate",.mapping
    [(.string "over",.sequence [.number (.posInt 1)]),(.string "as",.string "item"),
     (.string "do",.sequence [.mapping [(.string "parallel_http",.mapping
       [(.string "peers",.string "$\x7bsites\x7d"),
        (.string "args",.mapping [(.string "url",.string "$\x7bpeer\x7d")]),
        (.string "aggregate",.string "first_n"),(.string "first_n",.number (.posInt 0)),
        (.string "result",.string "answers")])]])])])

def unasked : ParallelHttpBody where
  peers := "$\x7bsites\x7d"
  args := { url := "$\x7bpeer\x7d" }
  aggregate := .firstN
  firstN := some 0
  result := "answers"

def unaskedDsl : Dsl where
  steps := AList.singleton "each" (.iterate { iterate :=
    { «over» := .array [.number (.posInt 1)], itemVar := "item"
      body := [.parallelHttp { parallelHttp := unasked }] } })

theorem unaskedContent_plain : '#' ∉ unaskedContent.toList := by
  unfold unaskedContent
  rw [String.toList_append,String.toList_append]
  simp only [List.mem_append,not_or]
  refine ⟨⟨?_,?_⟩,?_⟩ <;> decide +kernel

/-- It is loaded, and the first peer that answers is bound all the same. -/
theorem unasked_binds_one :
    (DslParser.oneDocument unaskedContent unaskedDocument).parseContent unaskedContent = .ok unaskedDsl ∧
      ∃ s, exec (pair.step {} {} unasked) (pair.start unasked {}) [.acquire 0,.finish 0,.join 0,.close] = some s ∧
        s.closed = true ∧ unasked.firstN = some 0 ∧ ¬ (ordered s.collector.1).length ≤ 0 := by
  constructor
  · rw [DslParser.parseContent_loaded
      (DslParser.oneDocument_loaded (DslParser.replaceConstants_plain _ unaskedContent_plain))]
    rfl
  · obtain ⟨s,reached,closed,one⟩ : ∃ s, exec (pair.step {} {} unasked) (pair.start unasked {})
        [.acquire 0,.finish 0,.join 0,.close] = some s ∧ s.closed = true ∧ s.collector.1.length = 1 := ⟨_,rfl,rfl,rfl⟩
    refine ⟨s,reached,closed,rfl,?_⟩
    rw [ordered_length,one]
    exact Nat.not_succ_le_zero 0

end ParallelHttp
end Ruuter
