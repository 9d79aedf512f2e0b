import Ruuter.ProxyCapacity
import Ruuter.Lib.Metering

/-! The two metered streams of a proxied request (`src/router/proxy.rs`): the inbound body on its way
to the upstream, and the upstream's body on its way back, which carries the permit. -/
namespace Ruuter.Proxy
open Metering Capacity

/-- What an inbound body does next: a frame, a failure, or no frame for as long as the idle timeout. -/
inductive Inbound
  | data (bytes : List UInt8)
  | failed (e : String)
  | gap

inductive ErrorKind
  | timedOut
  | invalidData
  | other
deriving DecidableEq

structure IoError where
  kind : ErrorKind
  text : String

/-- The state that `metered_request_body` unfolds. The counter is a 64-bit word in the source, which
no body is long enough to fill. -/
structure MeteredBody where
  inner : List Inbound
  counter : Nat := 0
  errored : Bool := false

/-- The wait for the next frame of a body, with what is left of it: a gap is waited out unless there
is an idle timeout. -/
def awaitFrame (idle : Option Nat) : List Inbound → Option (Option (Except String (List UInt8))) × List Inbound
  | [] => (some none,[])
  | .gap :: rest => if idle.isSome then (none,rest) else awaitFrame idle rest
  | .data bytes :: rest => (some (some (.ok bytes)),rest)
  | .failed e :: rest => (some (some (.error e)),rest)

/-- One poll of the stream that `metered_request_body` makes. -/
def meteredRequestBody (cap : Nat) (idle : Option Nat) (s : MeteredBody) :
    Option (Except IoError (List UInt8)) × MeteredBody :=
  if s.errored then (none,s)
  else
    let (frame,inner) := awaitFrame idle s.inner
    match frame with
    | none => (some (.error ⟨.timedOut,"proxy inbound idle timeout"⟩),{ s with inner, errored := true })
    | some none => (none,{ s with inner })
    | some (some (.ok bytes)) =>
      let total := s.counter + bytes.length
      if cap < total then
        (some (.error ⟨.invalidData,"proxy inbound body exceeded cap " ++ toString cap ++ " bytes (seen " ++
          toString total ++ ")"⟩),{ inner, counter := total, errored := true })
      else (some (.ok bytes),{ s with inner, counter := total })
    | some (some (.error e)) =>
      (some (.error ⟨.other,"proxy inbound body error: " ++ e⟩),{ s with inner, errored := true })

/-- The state of `capped_response_stream` with the frames that the upstream has yet to send. -/
structure CappedBody where
  inner : List (Except String (List UInt8))
  stream : CappedStream

/-- One poll of the stream that `capped_response_stream` makes. -/
def cappedResponseStream (cap : Option Nat) (s : CappedBody) :
    Option (Except String (List UInt8)) × CappedBody :=
  let (item,stream) := s.stream.next cap s.inner.head?
  (item,{ inner := if s.stream.errored then s.inner else s.inner.tail, stream })

/-- The data of an inbound body. -/
def inboundData (body : List Inbound) : List (List UInt8) :=
  body.filterMap fun
    | .data bytes => some bytes
    | _ => none

/-- A frame of the body failed, or was waited for until the idle timeout. -/
def Inbound.Fails (idle : Option Nat) : Inbound → Prop
  | .data _ => False
  | .failed _ => True
  | .gap => idle.isSome = true

section Request
variable {cap : Nat} {idle : Option Nat}

/-- The chunks of an inbound body as its meter meets them. -/
def arrivals (idle : Option Nat) (body : List Inbound) : List (Option (List UInt8)) :=
  body.filterMap fun
    | .data bytes => some (some bytes)
    | .failed _ => some none
    | .gap => if idle.isSome then some none else none

theorem chunks_arrivals (idle : Option Nat) (body : List Inbound) :
    chunks (arrivals idle body) = inboundData body := by
  unfold chunks arrivals inboundData
  rw [List.filterMap_filterMap]
  congr 1
  funext event
  cases event with
  | data | failed => rfl
  | gap => cases idle <;> rfl

theorem none_arrivals (idle : Option Nat) (body : List Inbound) :
    none ∉ arrivals idle body ↔ ∀ event ∈ body, ¬ event.Fails idle := by
  unfold arrivals
  rw [List.mem_filterMap]
  push Not
  refine forall₂_congr fun event _ => ?_
  cases event with
  | data | failed => simp [Inbound.Fails]
  | gap => cases idle <;> simp [Inbound.Fails]

/-- What the wait finds is the next arrival. -/
theorem awaitFrame_cases (idle : Option Nat) (body : List Inbound) :
    (awaitFrame idle body = (some none,[]) ∧ arrivals idle body = []) ∨
      ∃ rest, rest.length < body.length ∧
        ((awaitFrame idle body = (none,rest) ∧ arrivals idle body = none :: arrivals idle rest) ∨
          (∃ e, awaitFrame idle body = (some (some (.error e)),rest) ∧
            arrivals idle body = none :: arrivals idle rest) ∨
          ∃ bytes, awaitFrame idle body = (some (some (.ok bytes)),rest) ∧
            arrivals idle body = some bytes :: arrivals idle rest) := by
  induction body with
  | nil => exact .inl ⟨rfl,rfl⟩
  | cons event rest ih =>
    have shorter : rest.length < (event :: rest).length := Nat.lt_succ_self _
    cases event with
    | data bytes => exact .inr ⟨rest,shorter,.inr (.inr ⟨bytes,rfl,rfl⟩)⟩
    | failed e => exact .inr ⟨rest,shorter,.inr (.inl ⟨e,rfl,rfl⟩)⟩
    | gap =>
      cases idle with
      | some timeout => exact .inr ⟨rest,shorter,.inl ⟨rfl,rfl⟩⟩
      | none =>
        -- Without a timeout the wait goes on behind the gap.
        rcases ih with ended | ⟨left,fewer,found⟩
        · exact .inl ended
        · exact .inr ⟨left,Nat.lt_trans fewer shorter,found⟩

theorem meteredRequestBody_left {s t : MeteredBody} {item : Except IoError (List UInt8)}
    (poll : meteredRequestBody cap idle s = (some item,t)) : t.inner.length < s.inner.length := by
  unfold meteredRequestBody at poll
  split at poll
  · cases poll
  · rcases awaitFrame_cases idle s.inner with
      ⟨found,_⟩ | ⟨rest,fewer,⟨found,_⟩ | ⟨e,found,_⟩ | ⟨bytes,found,_⟩⟩
    all_goals simp only [found] at poll
    · cases poll
    · cases poll
      exact fewer
    · cases poll
      exact fewer
    · split at poll
      all_goals
        cases poll
        exact fewer

theorem meteredRequestBody_meters (cap : Nat) (idle : Option Nat) :
    Meters (meteredRequestBody cap idle) (some cap) (fun s => !s.errored) MeteredBody.counter
      (fun s => arrivals idle s.inner) := by
  have within {n : Nat} : Within (some cap) n ↔ n ≤ cap := by simp [Within]
  constructor
  case stopped =>
    intro s off
    have errored : s.errored = true := by simpa using off
    simp [meteredRequestBody,errored]
  all_goals
    intro s
    rcases awaitFrame_cases idle s.inner with
      ⟨found,source⟩ | ⟨left,_,⟨found,source⟩ | ⟨e,found,source⟩ | ⟨bytes,found,source⟩⟩
  all_goals simp only [source,meteredRequestBody,found,within,Bool.not_eq_true']
  case ended.inl =>
    rintro live -
    simp [live]
  case failed.inr.inl | failed.inr.inr.inl =>
    rintro rest live -
    simp [live]
  case exceeds.inr.inr.inr =>
    rintro chunk rest live same more
    cases same
    simp [live,Nat.lt_of_not_le more]
  case passed.inr.inr.inr =>
    rintro chunk rest live same fits
    cases same
    simp [live,Nat.not_lt.mpr fits]
  all_goals simp

end Request

section Response
variable {cap : Option Nat}

/-- The chunks of an upstream's body as its meter meets them. -/
def upstreamChunks (frames : List (Except String (List UInt8))) : List (Option (List UInt8)) :=
  frames.map Except.toOption

theorem chunks_upstreamChunks (frames : List (Except String (List UInt8))) :
    chunks (upstreamChunks frames) = delivered frames := by
  unfold chunks upstreamChunks delivered
  rw [List.filterMap_map]
  rfl

theorem none_upstreamChunks (frames : List (Except String (List UInt8))) :
    none ∉ upstreamChunks frames ↔ ∀ frame ∈ frames, ∃ bytes, frame = .ok bytes := by
  unfold upstreamChunks
  rw [List.mem_map]
  push Not
  refine forall₂_congr fun frame _ => ?_
  cases frame <;> simp [Except.toOption]

/-- One poll of the capped stream. It ends or fails without the permit, or passes a frame on and
keeps the permit. -/
theorem cappedResponseStream_cases (cap : Option Nat) (s : CappedBody) (live : s.stream.errored = false) :
    (s.inner = [] ∧ (cappedResponseStream cap s).1 = none ∧
        (cappedResponseStream cap s).2.stream.permit = false) ∨
      ∃ frame rest, s.inner = frame :: rest ∧ (cappedResponseStream cap s).2.inner = rest ∧
        ((∃ e, (cappedResponseStream cap s).1 = some (.error e) ∧
            (cappedResponseStream cap s).2.stream.permit = false ∧
            (cappedResponseStream cap s).2.stream.errored = true ∧
            ∀ bytes, frame = .ok bytes → ¬ Within cap (s.stream.counter + bytes.length)) ∨
          ∃ bytes, frame = .ok bytes ∧ Within cap (s.stream.counter + bytes.length) ∧
            (cappedResponseStream cap s).1 = some (.ok bytes) ∧
            (cappedResponseStream cap s).2.stream =
              { s.stream with counter := s.stream.counter + bytes.length }) := by
  unfold cappedResponseStream CappedStream.next
  cases inner : s.inner with
  | nil => exact .inl ⟨rfl,by simp [live],by simp [live]⟩
  | cons frame rest =>
    refine .inr ⟨frame,rest,rfl,by simp [live],?_⟩
    cases frame with
    | error e => exact .inl ⟨_,by simp [live]; rfl,by simp [live],by simp [live],fun _ same => by cases same⟩
    | ok bytes =>
      cases cap with
      | none => exact .inr ⟨bytes,rfl,by simp [Within],by simp [live],by simp [live]⟩
      | some limit =>
        by_cases beyond : limit < s.stream.counter + bytes.length
        · refine .inl ⟨_,by simp [live,beyond]; rfl,by simp [live,beyond],by simp [live,beyond],?_⟩
          intro same equal within
          cases equal
          exact absurd (within limit rfl) (Nat.not_le.mpr beyond)
        · refine .inr ⟨bytes,rfl,?_,by simp [live,beyond],by simp [live,beyond]⟩
          simpa [Within] using Nat.not_lt.mp beyond

theorem cappedResponseStream_stopped (cap : Option Nat) (s : CappedBody) (off : s.stream.errored = true) :
    cappedResponseStream cap s = (none,s) := by
  simp [cappedResponseStream,CappedStream.next,off]

theorem cappedResponseStream_left {s t : CappedBody} {item : Except String (List UInt8)}
    (poll : cappedResponseStream cap s = (some item,t)) : t.inner.length < s.inner.length := by
  cases live : s.stream.errored with
  | true =>
    rw [cappedResponseStream_stopped cap s live] at poll
    cases poll
  | false =>
    rcases cappedResponseStream_cases cap s live with ⟨_,none,_⟩ | ⟨frame,rest,inner,left,_⟩
    · rw [poll] at none
      cases none
    · rw [poll] at left
      rw [inner,left]
      exact Nat.lt_succ_self _

theorem cappedResponseStream_meters (cap : Option Nat) :
    Meters (cappedResponseStream cap) cap (fun s => !s.stream.errored) (fun s => s.stream.counter)
      (fun s => upstreamChunks s.inner) := by
  constructor
  case stopped =>
    intro s off
    rw [cappedResponseStream_stopped cap s (by simpa using off)]
  all_goals
    intro s
    cases live : s.stream.errored
    case true => simp
  all_goals
    rcases cappedResponseStream_cases cap s live with
      ⟨inner,none,_⟩ | ⟨frame,rest,inner,left,⟨e,error,_,errored,large⟩ | ⟨bytes,rfl,fits,ok,stream⟩⟩
  all_goals simp only [inner,upstreamChunks,List.map_nil,List.map_cons]
  case ended.false.inl => exact fun _ _ => none
  case failed.false.inr.inl => simp [error,errored]
  case exceeds.false.inr.inl => simp [error,errored]
  case exceeds.false.inr.inr =>
    intro chunk more _ same beyond
    cases same
    exact absurd fits beyond
  case passed.false.inr.inl =>
    intro chunk more _ same fits
    cases frame with
    | error => cases same
    | ok bytes =>
      cases same
      exact absurd fits (large _ rfl)
  case passed.false.inr.inr =>
    intro chunk more _ same _
    cases same
    simp [ok,stream,left,live]
  all_goals simp [Except.toOption]

/-- A stream that failed ends with the next poll. -/
theorem polls_after_failure {s : CappedBody} {polls : List (Option (Except String (List UInt8)) × CappedBody)}
    (run : Polls (cappedResponseStream cap) s polls) (off : s.stream.errored = true) : polls = [(none,s)] :=
  run.unique (.ended (cappedResponseStream_stopped cap s off))

/-- The permit over the polls of a stream: the polls that pass data on keep it, and it is given
back once. -/
theorem permit_released {s : CappedBody} {polls : List (Option (Except String (List UInt8)) × CappedBody)}
    (run : Polls (cappedResponseStream cap) s polls) (live : s.stream.errored = false) :
    releases s.stream.permit (polls.map (·.2.stream.permit)) = (if s.stream.permit then 1 else 0) ∧
      ∀ poll ∈ polls, poll.2.stream.permit =
        match poll.1 with
        | some (.ok _) => s.stream.permit
        | _ => false := by
  induction run with
  | @ended s t poll =>
    rcases cappedResponseStream_cases cap s live with ⟨_,_,free⟩ | ⟨_,_,_,_,⟨e,error,_⟩ | ⟨bytes,_,_,ok,_⟩⟩
    · rw [poll] at free
      have gone : t.stream.permit = false := free
      constructor
      · simp only [List.map_cons,List.map_nil,releases,gone]
        cases s.stream.permit <;> rfl
      · simpa using gone
    · rw [poll] at error
      cases error
    · rw [poll] at ok
      cases ok
  | @item s t item rest poll later ih =>
    rcases cappedResponseStream_cases cap s live with
      ⟨_,none,_⟩ | ⟨_,_,_,_,⟨e,error,free,off,_⟩ | ⟨bytes,_,_,ok,stream⟩⟩
    · rw [poll] at none
      cases none
    · rw [poll] at error free off
      cases error
      have gone : t.stream.permit = false := free
      cases polls_after_failure later off
      constructor
      · simp only [List.map_cons,List.map_nil,releases,gone]
        cases s.stream.permit <;> rfl
      · simpa using gone
    · rw [poll] at ok stream
      cases ok
      have kept : t.stream = { s.stream with counter := s.stream.counter + bytes.length } := stream
      have same : t.stream.permit = s.stream.permit := by rw [kept]
      obtain ⟨once,held⟩ := ih (by rw [kept]; exact live)
      rw [same] at once held
      constructor
      · simp only [List.map_cons,releases,same,once]
        cases s.stream.permit <;> rfl
      · intro poll member
        rcases List.mem_cons.mp member with rfl | among
        · exact same
        · exact held poll among

end Response

/-- Both bodies are metered, whatever frames arrive. The permit of the response goes back once,
with the poll that fails or finds the end, and not with a poll that passes data on. -/
theorem bodies_metered :
    (∀ (cap : Nat) (idle : Option Nat) (body : List Inbound),
      (∃ polls, Polls (meteredRequestBody cap idle) { inner := body } polls) ∧
      ∀ polls, Polls (meteredRequestBody cap idle) { inner := body } polls →
        Metered (some cap) (inboundData body) (∀ event ∈ body, ¬ event.Fails idle) (items polls)) ∧
    ∀ (cap : Option Nat) (permit : Bool) (frames : List (Except String (List UInt8))),
      (∃ polls, Polls (cappedResponseStream cap) ⟨frames,{ permit }⟩ polls) ∧
      ∀ polls, Polls (cappedResponseStream cap) ⟨frames,{ permit }⟩ polls →
        Metered cap (delivered frames) (∀ frame ∈ frames, ∃ bytes, frame = .ok bytes) (items polls) ∧
        releases permit (polls.map (·.2.stream.permit)) = (if permit then 1 else 0) ∧
        ∀ poll ∈ polls, poll.2.stream.permit =
          match poll.1 with
          | some (.ok _) => permit
          | _ => false := by
  constructor
  · intro cap idle body
    refine ⟨Polls.exists_of_measure (·.inner.length) (fun _ _ _ => meteredRequestBody_left) _,?_⟩
    intro polls run
    have metered := (meteredRequestBody_meters cap idle).metered run rfl rfl
    rwa [chunks_arrivals,none_arrivals] at metered
  · intro cap permit frames
    refine ⟨Polls.exists_of_measure (·.inner.length) (fun _ _ _ => cappedResponseStream_left) _,?_⟩
    intro polls run
    have metered := (cappedResponseStream_meters cap).metered run rfl rfl
    rw [chunks_upstreamChunks,none_upstreamChunks] at metered
    exact ⟨metered,permit_released run rfl⟩

end Ruuter.Proxy
