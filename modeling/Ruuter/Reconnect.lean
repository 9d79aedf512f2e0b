import Mathlib.Algebra.Order.Ring.Nat
import Ruuter.ConstantReferences
import Ruuter.Lib.Backoff
import Ruuter.Lib.Overflow

/-! The loops that reconnect a WebSocket source (`src/sources/ws.rs`) and restart a crashed one
(`src/supervisor/mod.rs`), with the delays they take before jitter. -/
namespace Ruuter
open Overflow (arith)

/-- `(backoff * 2).min(max)`. -/
def nextBackoff (checks : Bool) (max backoff : UInt64) : Option UInt64 :=
  (arith checks (backoff.toNat * 2 < 2 ^ 64) (backoff * 2)).map (min · max)

/-- A delay with `k` others before it. Doubling it does not overflow. -/
structure InBounds (initial max : UInt64) (k : Nat) (ms : UInt64) : Prop where
  least : min initial max ≤ ms
  most : ms ≤ max
  value : ms.toNat = min (initial.toNat * 2 ^ k) max.toNat
  fits : ms.toNat * 2 < 2 ^ 64

section Delays
variable {initial max ms : UInt64}

theorem inBounds_of_value (value : ms.toNat = Backoff.delay 2 initial.toNat max.toNat k)
    (fits : ms.toNat * 2 < 2 ^ 64) :
    InBounds initial max k ms where
  least := by
    rw [UInt64.le_iff_toNat_le,UInt64.toNat_min,value]
    exact Backoff.le_delay (Nat.le_succ 1) (Nat.zero_le _) k
  most := by
    rw [UInt64.le_iff_toNat_le,value]
    exact Backoff.delay_le ..
  value := value
  fits := fits

theorem nextBackoff_delay (checks : Bool) (value : ms.toNat = Backoff.delay 2 initial.toNat max.toNat k)
    (fits : ms.toNat * 2 < 2 ^ 64) :
    ∃ later, nextBackoff checks max ms = some later ∧
      later.toNat = Backoff.delay 2 initial.toNat max.toNat (k + 1) := by
  have room : decide (ms.toNat * 2 < 2 ^ 64) = true := decide_eq_true fits
  refine ⟨min (ms * 2) max,?_,?_⟩
  · rw [nextBackoff,room,arith,Bool.not_true,Bool.and_false]
    rfl
  · have doubled : (ms * 2).toNat = ms.toNat * 2 := by
      rw [UInt64.toNat_mul]
      exact Nat.mod_eq_of_lt fits
    rw [UInt64.toNat_min,doubled,value]
    exact (Backoff.delay_succ (Nat.le_succ 1) (Nat.zero_le _) k).symm

/-- The delays of a loop that doubles them. -/
theorem waits_inBounds (checks : Bool) (resets : α → Bool) (outcomes : List α) (ordered : initial ≤ max)
    (doubles : max.toNat < 2 ^ 63 ∨ ∀ k ∈ Backoff.used resets 0 outcomes, initial.toNat * 2 ^ k < 2 ^ 63) :
    List.Forall₂ (InBounds initial max) (Backoff.used resets 0 outcomes)
      (Backoff.waits resets initial (nextBackoff checks max) initial outcomes) := by
  have start : initial.toNat = Backoff.delay 2 initial.toNat max.toNat 0 :=
    (Backoff.delay_zero (UInt64.le_iff_toNat_le.mp ordered)).symm
  apply Backoff.waits_used (P := fun k ms => ms.toNat = Backoff.delay 2 initial.toNat max.toNat k) start start
  intro k member ms value
  have fits : ms.toNat * 2 < 2 ^ 64 := by
    have grown : ms.toNat ≤ initial.toNat * 2 ^ k := value ▸ min_le_left _ _
    have capped : ms.toNat ≤ max.toNat := value ▸ min_le_right _ _
    rcases doubles with small | few
    · omega
    · have := few k member
      omega
  exact ⟨inBounds_of_value value fits,nextBackoff_delay checks value fits⟩

end Delays

namespace Sources

/-- A call of `sleep_with_jitter`. -/
structure Sleep where
  ms : UInt64
  jitter : Bool

section Run
variable (checks : Bool) (policy : ReconnectPolicy)

/-- The loop of `run`, over how the connections end: closed, or with an error. -/
def runFrom : UInt64 → List (Except String Unit) → List Sleep
  | _, [] => []
  | backoffMs, outcome :: rest =>
    let backoffMs := match outcome with
      | .ok () => policy.initialBackoffMs
      | .error _ => backoffMs
    { ms := backoffMs, jitter := policy.jitter } ::
      match nextBackoff checks policy.maxBackoffMs backoffMs with
      | some backoffMs => runFrom backoffMs rest
      | none => []

def run (outcomes : List (Except String Unit)) : List Sleep := runFrom checks policy policy.initialBackoffMs outcomes

def closedCleanly : Except String Unit → Bool
  | .ok () => true
  | .error _ => false

/-- How many delays were used before that of each attempt, since the start or the last clean close. -/
def delaysUsed (outcomes : List (Except String Unit)) : List Nat := Backoff.used closedCleanly 0 outcomes

/-- Every attempt is followed by the delay of the policy. -/
def BackoffSound (outcomes : List (Except String Unit)) : Prop :=
  List.Forall₂ (fun k sleep => InBounds policy.initialBackoffMs policy.maxBackoffMs k sleep.ms)
    (delaysUsed outcomes) (run checks policy outcomes)

/-- No delay of the history is doubled beyond 64 bits. -/
def Doubles (outcomes : List (Except String Unit)) : Prop :=
  policy.maxBackoffMs.toNat < 2 ^ 63 ∨ ∀ k ∈ delaysUsed outcomes, policy.initialBackoffMs.toNat * 2 ^ k < 2 ^ 63

end Run

section Exact
variable {checks : Bool} {policy : ReconnectPolicy} {outcomes : List (Except String Unit)}

theorem runFrom_waits (backoffMs : UInt64) (outcomes : List (Except String Unit)) :
    (runFrom checks policy backoffMs outcomes).map Sleep.ms =
      Backoff.waits closedCleanly policy.initialBackoffMs (nextBackoff checks policy.maxBackoffMs) backoffMs outcomes := by
  induction outcomes generalizing backoffMs with
  | nil => rfl
  | cons outcome rest ih =>
    have later (ms : UInt64) :
        (match nextBackoff checks policy.maxBackoffMs ms with
          | some backoffMs => runFrom checks policy backoffMs rest
          | none => []).map Sleep.ms =
        (nextBackoff checks policy.maxBackoffMs ms).elim []
          (Backoff.waits closedCleanly policy.initialBackoffMs (nextBackoff checks policy.maxBackoffMs) · rest) := by
      cases nextBackoff checks policy.maxBackoffMs ms with
      | none => rfl
      | some next => exact ih next
    cases outcome with
    | ok => exact congrArg _ (later _)
    | error => exact congrArg _ (later _)

theorem delaysUsed_head (outcome : Except String Unit) (rest : List (Except String Unit)) :
    ∃ later, delaysUsed (outcome :: rest) = 0 :: later := by
  cases outcome with
  | ok => exact ⟨_,rfl⟩
  | error => exact ⟨_,rfl⟩

theorem sound_of_doubles (ordered : policy.initialBackoffMs ≤ policy.maxBackoffMs) (doubles : Doubles policy outcomes) :
    BackoffSound checks policy outcomes := by
  have all := waits_inBounds checks closedCleanly outcomes ordered doubles
  rwa [← runFrom_waits,List.forall₂_map_right_iff] at all

theorem ordered_of_sound (sound : BackoffSound checks policy (outcome :: rest)) :
    policy.initialBackoffMs ≤ policy.maxBackoffMs := by
  obtain ⟨later,head⟩ := delaysUsed_head outcome rest
  rw [BackoffSound,head] at sound
  cases outcome with
  | ok => exact (List.forall₂_cons.mp sound).1.most
  | error => exact (List.forall₂_cons.mp sound).1.most

theorem doubles_of_sound (sound : BackoffSound checks policy outcomes) : Doubles policy outcomes := by
  by_cases small : policy.maxBackoffMs.toNat < 2 ^ 63
  · exact .inl small
  · refine .inr fun k member => ?_
    obtain ⟨i,rfl⟩ := List.mem_iff_get.mp member
    obtain ⟨same,each⟩ := List.forall₂_iff_get.mp sound
    have bounds : InBounds _ _ ((delaysUsed outcomes).get i) _ := each i.1 i.2 (same ▸ i.2)
    have value := bounds.value
    have fits := bounds.fits
    omega

theorem sound_iff : BackoffSound checks policy outcomes ↔
    outcomes = [] ∨ policy.initialBackoffMs ≤ policy.maxBackoffMs ∧ Doubles policy outcomes := by
  constructor
  · intro sound
    cases outcomes with
    | nil => exact .inl rfl
    | cons => exact .inr ⟨ordered_of_sound sound,doubles_of_sound sound⟩
  · rintro (rfl | ⟨ordered,doubles⟩)
    · exact .nil
    · exact sound_of_doubles ordered doubles

/-- After 63 errors in a row every delay but that of zero is doubled beyond 64 bits. -/
theorem always_doubles_iff : (∀ outcomes, Doubles policy outcomes) ↔
    policy.maxBackoffMs.toNat < 2 ^ 63 ∨ policy.initialBackoffMs = 0 := by
  constructor
  · intro doubles
    refine (doubles (List.replicate 64 (.error ""))).imp_right fun few => ?_
    have used : delaysUsed (List.replicate 64 (.error "")) = List.range' 0 64 := by
      rw [delaysUsed,Backoff.used_of_never,List.length_replicate]
      intro outcome member
      rw [List.eq_of_mem_replicate member]
      rfl
    have last := few 63 (by rw [used]; exact List.mem_range'_1.mpr (by omega))
    apply UInt64.toNat_inj.mp
    change policy.initialBackoffMs.toNat = 0
    omega
  · rintro (small | zero) outcomes
    · exact .inl small
    · refine .inr fun k _ => ?_
      rw [zero]
      simp

end Exact

end Sources

namespace Supervisor

/-- A `tokio::task::JoinError`: what it says of itself, and its `Debug` text. -/
structure JoinError where
  isPanic : Bool
  isCancelled : Bool
  debug : String

inductive SourceStatus
  | starting
  | running
  | restarting (restartCount : UInt32) (lastError : String) (nextAttemptInMs : UInt64)
  | dead (reason : String)

/-- What a watchdog does to be seen: it sets the status and the number of restarts, and it sleeps. -/
inductive Watch
  | status (status : SourceStatus) (restartCount : UInt32)
  | sleep (ms : UInt64)

structure SourceSupervisor where
  initialBackoffMs : UInt64
  maxBackoffMs : UInt64

/-- The only way to make one. -/
def SourceSupervisor.new : SourceSupervisor where
  initialBackoffMs := 500
  maxBackoffMs := 60000

def reason (joinErr : JoinError) : String :=
  if joinErr.isPanic then "panic: " ++ joinErr.debug
  else if joinErr.isCancelled then "task cancelled"
  else "task aborted"

section Watchdog
variable (checks : Bool) (maxBackoff : UInt64)

/-- The loop of a watchdog, over how the spawned tasks end. Behind the last of them one still runs. -/
def watch : (backoff : UInt64) → (restartCount : UInt32) → List (Except JoinError Unit) → List Watch
  | _, restartCount, [] => [.status .running restartCount]
  | _, restartCount, .ok () :: _ => [.status .running restartCount,.status (.dead "clean exit") restartCount]
  | backoff, restartCount, .error joinErr :: rest =>
    .status .running restartCount ::
      if joinErr.isCancelled then [.status (.dead (reason joinErr)) restartCount]
      else match arith checks (restartCount.toNat + 1 < 2 ^ 32) (restartCount + 1) with
        | none => []
        | some restartCount =>
          .status (.restarting restartCount (reason joinErr) backoff) restartCount :: .sleep backoff ::
            match nextBackoff checks maxBackoff backoff with
            | none => []
            | some backoff => watch backoff restartCount rest

end Watchdog

def SourceSupervisor.supervise (sup : SourceSupervisor) (checks : Bool)
    (results : List (Except JoinError Unit)) : List Watch :=
  .status .starting 0 :: watch checks sup.maxBackoffMs sup.initialBackoffMs 0 results

def Watch.slept : Watch → Option UInt64
  | .status _ _ => none
  | .sleep ms => some ms

def sleeps (trace : List Watch) : List UInt64 := trace.filterMap Watch.slept

/-- A watchdog takes the delays of a loop without resets, as far as it gets. -/
theorem sleeps_watch (checks : Bool) (initial maxBackoff backoff : UInt64) (restartCount : UInt32)
    (results : List (Except JoinError Unit)) :
    sleeps (watch checks maxBackoff backoff restartCount results) <+:
      Backoff.waits (fun _ => false) initial (nextBackoff checks maxBackoff) backoff results := by
  induction results generalizing backoff restartCount with
  | nil => exact List.prefix_refl []
  | cons result rest ih =>
    cases result with
    | ok => exact List.nil_prefix
    | error joinErr =>
      rw [watch]
      cases joinErr.isCancelled with
      | true => exact List.nil_prefix
      | false =>
        cases arith checks (restartCount.toNat + 1 < 2 ^ 32) (restartCount + 1) with
        | none => exact List.nil_prefix
        | some restartCount =>
          refine (List.prefix_cons_inj backoff).mpr ?_
          change sleeps (match nextBackoff checks maxBackoff backoff with
              | none => []
              | some backoff => watch checks maxBackoff backoff restartCount rest) <+:
            (nextBackoff checks maxBackoff backoff).elim []
              (Backoff.waits (fun _ => false) initial (nextBackoff checks maxBackoff) · rest)
          cases nextBackoff checks maxBackoff backoff with
          | none => exact List.nil_prefix
          | some backoff => exact ih backoff restartCount

theorem supervise_inBounds {sup : SourceSupervisor} (ordered : sup.initialBackoffMs ≤ sup.maxBackoffMs)
    (small : sup.maxBackoffMs.toNat < 2 ^ 63) (slept : (sleeps (sup.supervise checks results))[i]? = some ms) :
    InBounds sup.initialBackoffMs sup.maxBackoffMs i ms := by
  have all := waits_inBounds checks (fun _ => false) results ordered (.inl small)
  have taken : (sleeps (watch checks sup.maxBackoffMs sup.initialBackoffMs 0 results))[i]? = some ms := slept
  obtain ⟨inside,rfl⟩ := List.getElem?_eq_some_iff.mp taken
  apply Backoff.of_forall₂_used all
  exact List.prefix_iff_getElem?.mp (sleeps_watch checks _ _ _ 0 results) i inside

example : sleeps (SourceSupervisor.new.supervise true
    [.error ⟨true,false,"first"⟩,.error ⟨true,false,"second"⟩,.ok (),.error ⟨true,false,"never"⟩]) = [500,1000] := by
  decide

end Supervisor

/-- The delays of a source are those of its policy when the first is not above the largest and no delay is
doubled beyond 64 bits; those of a supervisor always are. -/
theorem backoff_bounds_exact (checks : Bool) :
    (∀ policy outcomes, Sources.BackoffSound checks policy outcomes ↔
      outcomes = [] ∨ policy.initialBackoffMs ≤ policy.maxBackoffMs ∧ Sources.Doubles policy outcomes) ∧
    (∀ policy, (∀ outcomes, Sources.BackoffSound checks policy outcomes) ↔
      policy.initialBackoffMs ≤ policy.maxBackoffMs ∧
        (policy.maxBackoffMs.toNat < 2 ^ 63 ∨ policy.initialBackoffMs = 0)) ∧
    ∀ results i ms, (Supervisor.sleeps (Supervisor.SourceSupervisor.new.supervise checks results))[i]? = some ms →
      InBounds Supervisor.SourceSupervisor.new.initialBackoffMs Supervisor.SourceSupervisor.new.maxBackoffMs i ms := by
  refine ⟨fun _ _ => Sources.sound_iff,fun policy => ?_,fun results i ms slept => ?_⟩
  · rw [← Sources.always_doubles_iff]
    constructor
    · intro sound
      exact ⟨Sources.ordered_of_sound (sound [.ok ()]),fun outcomes => Sources.doubles_of_sound (sound outcomes)⟩
    · rintro ⟨ordered,doubles⟩ outcomes
      exact Sources.sound_of_doubles ordered (doubles outcomes)
  · exact Supervisor.supervise_inBounds (by decide) (by decide) slept

/-- A policy whose first delay is above the largest, and one whose first delay is doubled to zero. -/
theorem first_delay_escapes :
    ¬ Sources.BackoffSound false { initialBackoffMs := 120000 } [.error "connection refused"] ∧
    ¬ Sources.BackoffSound true { initialBackoffMs := 120000 } [.error "connection refused"] ∧
    ¬ Sources.BackoffSound false { initialBackoffMs := 0x8000000000000000, maxBackoffMs := 0x8000000000000000 }
      [.error "connection refused"] ∧
    (Sources.run false { initialBackoffMs := 0x8000000000000000, maxBackoffMs := 0x8000000000000000 }
      [.error "connection refused",.error "connection refused"]).map Sources.Sleep.ms = [0x8000000000000000,0] := by
  refine ⟨fun sound => ?_,fun sound => ?_,fun sound => ?_,by decide +kernel⟩
  · exact absurd (Sources.ordered_of_sound sound) (by decide)
  · exact absurd (Sources.ordered_of_sound sound) (by decide)
  · have few := (Sources.doubles_of_sound sound).resolve_left (by decide +kernel)
    exact absurd (few 0 List.mem_cons_self) (by decide +kernel)

end Ruuter
