import Ruuter.Proxy
import Ruuter.Lib.Table
import Ruuter.Lib.Transition

/-! The concurrency cap of a proxy route (`src/router/proxy.rs`) over interleaved requests and hot
reloads. A request reads its declaration when it arrives and asks for its permit later; the
semaphore of a route is made once, with the cap of the declaration that asked first. -/
namespace Ruuter.Proxy.Capacity
open Transition Table

/-- The state of `capped_response_stream`. -/
structure CappedStream where
  counter : Nat := 0
  permit : Bool
  errored : Bool := false

/-- What the upstream's body yields next. -/
abbrev Frame := Option (Except String (List UInt8))

/-- One poll of `capped_response_stream`. -/
def CappedStream.next (cap : Option Nat) (s : CappedStream) (frame : Frame) : Frame × CappedStream :=
  if s.errored then (none,s)
  else
    match frame with
    | none => (none,{ s with permit := false })
    | some (.ok bytes) =>
      let total := s.counter + bytes.length
      match cap with
      | some limit =>
        if limit < total then
          (some (.error ("proxy response body exceeded cap " ++ toString limit ++ " bytes (seen " ++
            toString total ++ ")")),{ s with counter := total, permit := false, errored := true })
        else (some (.ok bytes),{ s with counter := total })
      | none => (some (.ok bytes),{ s with counter := total })
    | some (.error e) =>
      (some (.error ("proxy response body error: " ++ e)),{ s with permit := false, errored := true })

/-- Where a proxied request stands. -/
inductive Phase
  | checking
  | sending (permit : Bool)
  | streaming (stream : CappedStream)
  | ended

/-- The request is in flight: it was admitted, and its response has not come to its end. -/
def Phase.inFlight : Phase → Bool
  | .sending _ => true
  | .streaming stream => !stream.errored
  | .checking | .ended => false

/-- The request holds a permit of its route. -/
def Phase.holds : Phase → Bool
  | .sending permit => permit
  | .streaming stream => stream.permit
  | .checking | .ended => false

structure Flight where
  route : String
  maxInFlight : Option UInt32
  phase : Phase := .checking

structure State where
  declared : String → Option UInt32
  semaphores : StringMap Semaphore := ∅
  flights : List Flight := []

inductive Action
  | reload (declared : String → Option UInt32)
  | arrive (route : String)
  | enter (flight : Nat)
  | respond (flight : Nat)
  | poll (flight : Nat) (frame : Frame)
  | drop (flight : Nat)

namespace State

/-- A request changes its phase; a permit that it no longer holds goes back. -/
def move (s : State) (i : Nat) (flight : Flight) (phase : Phase) : State :=
  { s with
    semaphores := release s.semaphores flight.route (flight.phase.holds && !phase.holds)
    flights := s.flights.set i { flight with phase } }

def enter (s : State) (i : Nat) (flight : Flight) : State :=
  match acquire s.semaphores flight.route flight.maxInFlight with
  | (.ok permit,semaphores) =>
    { s with semaphores, flights := s.flights.set i { flight with phase := .sending permit } }
  | (.error _,semaphores) => { s with semaphores, flights := s.flights.set i { flight with phase := .ended } }

/-- The requests in flight on a route. -/
def inFlight (s : State) (route : String) : Nat :=
  s.flights.countP fun flight => flight.route == route && flight.phase.inFlight

/-- The permits that are held on a route. -/
def held (s : State) (route : String) : Nat :=
  s.flights.countP fun flight => flight.route == route && flight.phase.holds

end State

/-- What a poll makes of a stream: the stream goes on, or it came to its end. -/
def polled (cap : Option Nat) (stream : CappedStream) (frame : Frame) : Phase :=
  match stream.next cap frame with
  | (none,_) => .ended
  | (some _,next) => .streaming next

/-- One step. A request that is being sent or streamed can be dropped at any time, by a failure
or by its client. -/
def step (limit : Option Nat) (s : State) : Action → Option State
  | .reload declared => some { s with declared }
  | .arrive route => some { s with flights := s.flights ++ [{ route, maxInFlight := s.declared route }] }
  | .enter i =>
    match s.flights[i]? with
    | some ⟨route,cap,.checking⟩ => some (s.enter i ⟨route,cap,.checking⟩)
    | _ => none
  | .respond i =>
    match s.flights[i]? with
    | some ⟨route,cap,.sending permit⟩ =>
      some (s.move i ⟨route,cap,.sending permit⟩ (.streaming { permit }))
    | _ => none
  | .poll i frame =>
    match s.flights[i]? with
    | some ⟨route,cap,.streaming stream⟩ =>
      some (s.move i ⟨route,cap,.streaming stream⟩ (polled limit stream frame))
    | _ => none
  | .drop i =>
    match s.flights[i]? with
    | some ⟨_,_,.ended⟩ | none => none
    | some flight => some (s.move i flight .ended)

/-- An admission under a cap leaves no more requests in flight on the route than the cap. -/
def Capped (_ : State) (a : Action) (u : State) : Prop :=
  ∀ i flight cap, a = .enter i → u.flights[i]? = some flight → flight.phase.inFlight = true →
    flight.maxInFlight = some cap → u.inFlight flight.route ≤ cap.toNat

/-- An admission under a cap finds no semaphore that was made for more, and no request in flight
that was admitted without a cap. -/
def Fits (t : State) : Action → Prop
  | .enter i => ∀ flight cap, t.flights[i]? = some flight → flight.maxInFlight = some cap →
      (∀ semaphore, t.semaphores.lookup flight.route = some semaphore → semaphore.capacity ≤ cap.toNat) ∧
      ∀ other ∈ t.flights, other.route = flight.route → other.phase.inFlight = true → other.phase.holds = true
  | _ => True

/-- The permits of a semaphore are available or held; without a semaphore none is held. -/
def Balanced (s : State) : Prop :=
  ∀ route, match s.semaphores.lookup route with
    | none => s.held route = 0
    | some semaphore => semaphore.available + s.held route = semaphore.capacity

section Permits
variable {semaphores : StringMap Semaphore} {key route : String} {cap : UInt32}

/-- The semaphore a capped request meets: the one of the route, or a new one of its own cap. -/
def met (semaphores : StringMap Semaphore) (key : String) (cap : UInt32) : Semaphore :=
  (semaphores.lookup key).getD ⟨cap.toNat,cap.toNat⟩

/-- A capped request gets a permit of the semaphore it meets, or is refused when there is none. -/
theorem acquire_cases (semaphores : StringMap Semaphore) (key : String) (cap : UInt32) :
    ∃ result after, acquire semaphores key (some cap) = (result,after) ∧
      (∀ route, route ≠ key → after.lookup route = semaphores.lookup route) ∧
      (result = .ok true ∧ 0 < (met semaphores key cap).available ∧
          after.lookup key = some { met semaphores key cap with available := (met semaphores key cap).available - 1 } ∨
        (∃ e, result = .error e) ∧ (met semaphores key cap).available = 0 ∧
          after.lookup key = some (met semaphores key cap)) := by
  unfold acquire semaphoreForRoute met
  cases found : semaphores.lookup key with
  | some semaphore =>
    simp only [Option.map_some,Option.getD_some]
    by_cases empty : semaphore.available = 0
    · simp only [empty,if_true]
      exact ⟨_,_,rfl,fun _ _ => rfl,.inr ⟨⟨_,rfl⟩,trivial,found⟩⟩
    · simp only [empty,if_false]
      exact ⟨_,_,rfl,fun _ other => AList.lookup_insert_ne other,.inl ⟨rfl,by omega,AList.lookup_insert _⟩⟩
  | none =>
    simp only [Option.map_some,Option.getD_none]
    by_cases empty : cap.toNat = 0
    · simp only [empty,if_true]
      exact ⟨_,_,rfl,fun _ other => AList.lookup_insert_ne other,.inr ⟨⟨_,rfl⟩,trivial,AList.lookup_insert _⟩⟩
    · simp only [empty,if_false]
      refine ⟨_,_,rfl,?_,.inl ⟨rfl,by omega,AList.lookup_insert _⟩⟩
      intro route other
      rw [AList.lookup_insert_ne other,AList.lookup_insert_ne other]

theorem lookup_release (semaphores : StringMap Semaphore) (key route : String) (permit : Bool) :
    (release semaphores key permit).lookup route =
      if permit = true ∧ key = route then
        (semaphores.lookup route).map fun semaphore => { semaphore with available := semaphore.available + 1 }
      else semaphores.lookup route := by
  unfold release
  cases permit with
  | false => simp
  | true =>
    cases found : semaphores.lookup key with
    | none =>
      by_cases same : key = route
      · subst same
        simp [found]
      · simp [same]
    | some semaphore =>
      by_cases same : key = route
      · subst same
        simp [found]
      · simp [same,AList.lookup_insert_ne (Ne.symm same)]

end Permits

section Balance
variable {s : State} {i : Nat} {flight : Flight} {phase : Phase}

/-- A phase change moves the permits held on a route by those of the request. -/
theorem held_set (found : s.flights[i]? = some flight) (phase : Phase) (semaphores : StringMap Semaphore)
    (route : String) :
    State.held { s with semaphores, flights := s.flights.set i { flight with phase } } route +
        (if flight.route == route && flight.phase.holds then 1 else 0) =
      s.held route + (if flight.route == route && phase.holds then 1 else 0) :=
  countP_set_row found _ _

theorem Balanced.move (balanced : Balanced s) (found : s.flights[i]? = some flight)
    (less : phase.holds = true → flight.phase.holds = true) : Balanced (s.move i flight phase) := by
  intro route
  have moved := held_set found phase (release s.semaphores flight.route (flight.phase.holds && !phase.holds)) route
  have before := balanced route
  simp only [State.move,lookup_release]
  by_cases same : flight.route = route
  · subst same
    cases kept : phase.holds with
    | true =>
      simp only [kept,less kept,beq_self_eq_true,Bool.and_self,if_true,Bool.not_true,Bool.and_false,
        Bool.false_eq_true,false_and,if_false] at moved ⊢
      have unchanged := Nat.add_right_cancel moved
      rw [unchanged]
      exact before
    | false =>
      cases gave : flight.phase.holds with
      | false =>
        simp only [kept,gave,Bool.and_false,Bool.false_eq_true,if_false,Nat.add_zero,Bool.false_and,
          false_and] at moved ⊢
        rw [moved]
        exact before
      | true =>
        simp only [kept,gave,beq_self_eq_true,Bool.and_self,if_true,Bool.and_false,Bool.false_eq_true,
          if_false,Nat.add_zero,Bool.not_false,true_and] at moved ⊢
        cases sem : s.semaphores.lookup flight.route with
        | none =>
          simp only [sem] at before
          omega
        | some semaphore =>
          simp only [sem,Option.map_some] at before ⊢
          omega
  · simp only [same,Bool.false_and,Bool.false_eq_true,if_false,Nat.add_zero,and_false,
      beq_eq_false_iff_ne.mpr same] at moved ⊢
    rw [moved]
    exact before

/-- What an admission does: without a cap the request goes on without a permit; under a cap it
gets a permit of the semaphore it meets, or is refused. -/
theorem enter_cases (s : State) (i : Nat) (flight : Flight) :
    flight.maxInFlight = none ∧
        s.enter i flight = { s with flights := s.flights.set i { flight with phase := .sending false } } ∨
      ∃ cap after, flight.maxInFlight = some cap ∧
        (∀ route, route ≠ flight.route → after.lookup route = s.semaphores.lookup route) ∧
        (s.enter i flight = { s with
              semaphores := after, flights := s.flights.set i { flight with phase := .sending true } } ∧
            0 < (met s.semaphores flight.route cap).available ∧
            after.lookup flight.route = some { met s.semaphores flight.route cap with
              available := (met s.semaphores flight.route cap).available - 1 } ∨
          s.enter i flight = { s with
              semaphores := after, flights := s.flights.set i { flight with phase := .ended } } ∧
            (met s.semaphores flight.route cap).available = 0 ∧
            after.lookup flight.route = some (met s.semaphores flight.route cap)) := by
  unfold State.enter
  cases declared : flight.maxInFlight with
  | none => exact .inl ⟨rfl,rfl⟩
  | some cap =>
    obtain ⟨result,after,acquired,others,outcome⟩ := acquire_cases s.semaphores flight.route cap
    refine .inr ⟨cap,after,rfl,others,?_⟩
    rw [acquired]
    rcases outcome with ⟨rfl,some,left⟩ | ⟨⟨e,rfl⟩,none,left⟩
    · exact .inl ⟨rfl,some,left⟩
    · exact .inr ⟨rfl,none,left⟩

/-- The permits of the semaphore a capped request meets. -/
theorem Balanced.met (balanced : Balanced s) (route : String) (cap : UInt32) :
    (met s.semaphores route cap).available + s.held route = (met s.semaphores route cap).capacity := by
  have before := balanced route
  unfold Capacity.met
  cases found : s.semaphores.lookup route with
  | none =>
    simp only [found] at before
    simp [before]
  | some semaphore =>
    simp only [found] at before
    exact before

theorem Balanced.enter (balanced : Balanced s) (found : s.flights[i]? = some flight)
    (checking : flight.phase = .checking) : Balanced (s.enter i flight) := by
  have free : flight.phase.holds = false := by rw [checking]; rfl
  have counted : ∀ phase semaphores route,
      State.held { s with semaphores, flights := s.flights.set i { flight with phase } } route =
        s.held route + (if flight.route == route && phase.holds then 1 else 0) := by
    intro phase semaphores route
    have moved := held_set found phase semaphores route
    rw [free] at moved
    simpa using moved
  rcases enter_cases s i flight with ⟨_,same⟩ | ⟨cap,after,_,others,outcome⟩
  · rw [same]
    intro route
    have unchanged := counted (.sending false) s.semaphores route
    simp only [Phase.holds,Bool.and_false,Bool.false_eq_true,if_false,Nat.add_zero] at unchanged
    simp only [unchanged]
    exact balanced route
  · rcases outcome with ⟨same,positive,left⟩ | ⟨same,empty,left⟩
    all_goals
      rw [same]
      intro route
      simp only [counted]
      have permits := balanced.met route cap
      by_cases own : route = flight.route
    · subst own
      simp only [left,Phase.holds,beq_self_eq_true,Bool.and_self,if_true]
      omega
    · simp only [others route own,beq_eq_false_iff_ne.mpr (Ne.symm own),Bool.false_and,Bool.false_eq_true,
        if_false,Nat.add_zero]
      exact balanced route
    · subst own
      simp only [left,Phase.holds,Bool.and_false,Bool.false_eq_true,if_false,Nat.add_zero]
      exact permits
    · simp only [others route own,Phase.holds,Bool.and_false,Bool.false_eq_true,if_false,Nat.add_zero]
      exact balanced route

/-- A stream never takes a permit. -/
theorem next_permit (stream : CappedStream) (cap : Option Nat) (frame : Frame)
    (kept : (stream.next cap frame).2.permit = true) : stream.permit = true := by
  unfold CappedStream.next at kept
  cases broken : stream.errored with
  | true => simpa [broken] using kept
  | false =>
    match frame, cap with
    | none,_ => simp [broken] at kept
    | some (.error e),_ => simp [broken] at kept
    | some (.ok bytes),none => simpa [broken] using kept
    | some (.ok bytes),some limit =>
      by_cases exceeded : limit < stream.counter + bytes.length
      · simp [broken,exceeded] at kept
      · simpa [broken,exceeded] using kept

theorem polled_holds (stream : CappedStream) (cap : Option Nat) (frame : Frame)
    (held : (polled cap stream frame).holds = true) : stream.permit = true := by
  apply next_permit stream cap frame
  unfold polled at held
  split at held
  · cases held
  · rename_i taken
    rw [taken]
    exact held

theorem Balanced.step (balanced : Balanced s) (taken : step limit s a = some u) : Balanced u := by
  cases a with
  | reload declared =>
    cases taken
    exact balanced
  | arrive route =>
    cases taken
    intro other
    simpa [State.held,Phase.holds] using balanced other
  | enter i =>
    simp only [Capacity.step] at taken
    split at taken
    · rename_i found
      cases taken
      exact balanced.enter found rfl
    · cases taken
  | respond i =>
    simp only [Capacity.step] at taken
    split at taken
    · rename_i found
      cases taken
      exact balanced.move found id
    · cases taken
  | poll i frame =>
    simp only [Capacity.step] at taken
    split at taken
    · rename_i found
      cases taken
      exact balanced.move found (polled_holds _ _ _)
    · cases taken
  | drop i =>
    simp only [Capacity.step] at taken
    split at taken
    · cases taken
    · cases taken
    · rename_i found
      cases taken
      exact balanced.move found (by simp [Phase.holds])

/-- An admission that fits leaves the route within the cap. -/
theorem Fits.capped (fits : Fits s a) (balanced : Balanced s) (taken : step limit s a = some u) :
    Capped s a u := by
  rintro i admitted cap rfl found flying declared
  have after := balanced.step taken
  simp only [Capacity.step] at taken
  split at taken
  · rename_i route own before
    cases taken
    have below : i < s.flights.length := (List.getElem?_eq_some_iff.mp before).1
    rcases enter_cases s i ⟨route,own,.checking⟩ with ⟨uncapped,same⟩ | ⟨cap',semaphores,capped,_,outcome⟩
    · rw [same] at found
      simp only [List.getElem?_set_self below,Option.some.injEq] at found
      subst found
      cases uncapped.symm.trans declared
    · rcases outcome with ⟨same,positive,left⟩ | ⟨same,_,_⟩
      · rw [same] at found after ⊢
        simp only [List.getElem?_set_self below,Option.some.injEq] at found
        subst found
        cases capped.symm.trans declared
        obtain ⟨small,permitted⟩ := fits _ _ before capped
        have held := after route
        simp only [left] at held
        have size : (met s.semaphores route cap).capacity ≤ cap.toNat := by
          unfold met
          cases present : s.semaphores.lookup route with
          | none => exact Nat.le_refl _
          | some semaphore => exact small semaphore present
        refine le_trans (List.countP_mono_left ?_) (le_trans (Nat.le_add_left _ _) (le_trans (Nat.le_of_eq held) size))
        intro other member inside
        simp only [Bool.and_eq_true,beq_iff_eq] at inside ⊢
        refine ⟨inside.1,?_⟩
        rcases List.mem_or_eq_of_mem_set member with old | rfl
        · exact permitted other old inside.1 inside.2
        · rfl
      · rw [same] at found
        simp only [List.getElem?_set_self below,Option.some.injEq] at found
        subst found
        cases flying
  · cases taken

end Balance

/-- In a run in which no admission meets a semaphore made for more than its cap or requests in
flight without a permit, every admission leaves its route within the cap. -/
theorem capped_of_fits (limit : Option Nat) (declared : String → Option UInt32) (actions : List Action)
    (fits : Along (step limit) (fun t a _ => Fits t a) { declared } actions) :
    Along (step limit) Capped { declared } actions := by
  apply fits.transfer (I := Balanced)
  · intro route
    rfl
  · intro t a u balanced taken _
    exact balanced.step taken
  · intro t a u balanced taken fits
    exact fits.capped balanced taken

/-- Two requests on a route whose cap is raised to two before. -/
def raisedRun : List Action :=
  [.reload fun _ => some 2,.arrive "r",.enter 0,.arrive "r",.enter 1]

theorem raised_capped : Along (step none) Capped { declared := fun _ => some 1 } raisedRun := by
  refine capped_of_fits none (fun _ => some 1) raisedRun ?_
  rintro _ ⟨⟩
  refine ⟨trivial,?_⟩
  rintro _ ⟨⟩
  refine ⟨trivial,?_⟩
  rintro _ ⟨⟩
  refine ⟨?_,?_⟩
  · rintro flight cap ⟨⟩ ⟨⟩
    refine ⟨?_,?_⟩
    · rintro semaphore ⟨⟩
    · simp [Phase.inFlight]
  rintro _ ⟨⟩
  refine ⟨trivial,?_⟩
  rintro _ ⟨⟩
  refine ⟨?_,trivial⟩
  rintro flight cap ⟨⟩ ⟨⟩
  refine ⟨?_,?_⟩
  · rintro semaphore ⟨⟩
    decide
  · intro other member _ flying
    have known : other ∈ [(⟨"r",some 2,.sending true⟩ : Flight),⟨"r",some 2,.checking⟩] := member
    rcases List.mem_pair.mp known with rfl | rfl
    · rfl
    · cases flying

/-- The cap of a route is lowered while its semaphore stays. -/
def loweredRun : List Action :=
  [.arrive "r",.enter 0,.reload fun _ => some 1,.arrive "r",.enter 1]

/-- After the cap was lowered to one a second request is admitted beside the first. -/
theorem lowered_exceeds : ¬ Along (step none) Capped { declared := fun _ => some 2 } loweredRun := by
  intro capped
  have last := Along.transition (loweredRun.take 4) (.enter 1) [] capped rfl rfl
  exact absurd (last 1 ⟨"r",some 1,.sending true⟩ 1 rfl rfl rfl rfl) (by decide)

end Ruuter.Proxy.Capacity
