import Ruuter.Router

/-! `multipart/form-data` bodies (`parse_multipart_body` in `src/router/mod.rs`). Where the parts of a
body begin and end is for `multer` to find; it yields each part with its names and, piece by piece, its
bytes. -/
namespace Ruuter.Multipart

/-- A part as `multer` yields it: its bytes in chunks, and the error behind the last of them. -/
structure Field where
  fileName : Option String := none
  name : Option String := none
  chunks : List (List UInt8)
  failure : Option String := none

namespace Field

def bytes (field : Field) : List UInt8 := field.chunks.flatten

/-- The field name, else the file name, else `part`. -/
def key (field : Field) : String := (field.name.or field.fileName).getD "part"

end Field

/-- The limit that a number exceeds. -/
def exceeded (limit : Option Nat) (n : Nat) : Option Nat := limit.filter (· < n)

section Parse
variable (utf8Lossy : List UInt8 → String) (maxParts maxPartSize : Option Nat)

/-- The loop over the chunks of a part. -/
def readChunks (failure : Option String) : (bytes : List UInt8) → List (List UInt8) → Except MultipartError (List UInt8)
  | bytes, [] =>
    match failure with
    | some message => .error (.parse message)
    | none => .ok bytes
  | bytes, chunk :: rest =>
    let bytes := bytes ++ chunk
    match exceeded maxPartSize bytes.length with
    | some limit => .error (.partTooLarge limit)
    | none => readChunks failure bytes rest

/-- The loop over the parts. `failure` is the error that `next_field` returns behind the last of them. -/
def readFields (failure : Option String) :
    (partCount : Nat) → StringMap Json → List Field → Except MultipartError (StringMap Json)
  | _, out, [] =>
    match failure with
    | some message => .error (.parse message)
    | none => .ok out
  | partCount, out, field :: rest =>
    let partCount := partCount + 1
    match exceeded maxParts partCount with
    | some limit => .error (.tooManyParts limit)
    | none =>
      match readChunks maxPartSize field.failure [] field.chunks with
      | .error e => .error e
      | .ok bytes => readFields failure partCount (out.insert field.key (.string (utf8Lossy bytes))) rest

/-- `parse_multipart_body`, over what `multer` finds in a body with a boundary. -/
def parseMultipartBody (multer : List UInt8 → String → List Field × Option String) (bodyBytes : List UInt8)
    (boundary : String) : Except MultipartError (StringMap Json) :=
  readFields utf8Lossy maxParts maxPartSize (multer bodyBytes boundary).2 0 ∅ (multer bodyBytes boundary).1

end Parse

variable {utf8Lossy : List UInt8 → String} {maxParts maxPartSize : Option Nat} {failure : Option String}
  {limit : Option Nat} {n m cap : Nat} {out result : StringMap Json} {field : Field} {fields : List Field}

theorem exceeded_eq_some : exceeded limit n = some cap ↔ limit = some cap ∧ cap < n := by
  simp [exceeded,Option.filter_eq_some_iff]

theorem exceeded_eq_none : exceeded limit n = none ↔ ∀ cap ∈ limit, n ≤ cap := by
  simp [exceeded,Option.filter_eq_none_iff]

theorem exceeded_mono (above : exceeded limit n = some cap) (le : n ≤ m) : exceeded limit m = some cap := by
  rw [exceeded_eq_some] at above ⊢
  exact ⟨above.1,Nat.lt_of_lt_of_le above.2 le⟩

/-- What becomes of the bytes of a part and the error behind them. -/
def judge (maxPartSize : Option Nat) (failure : Option String) (bytes : List UInt8) :
    Except MultipartError (List UInt8) :=
  match exceeded maxPartSize bytes.length with
  | some limit => .error (.partTooLarge limit)
  | none =>
    match failure with
    | some message => .error (.parse message)
    | none => .ok bytes

/-- It does not matter how a part is cut into chunks. -/
theorem readChunks_eq (bytes : List UInt8) (chunks : List (List UInt8))
    (fits : exceeded maxPartSize bytes.length = none) :
    readChunks maxPartSize failure bytes chunks = judge maxPartSize failure (bytes ++ chunks.flatten) := by
  induction chunks generalizing bytes with
  | nil => simp [readChunks,judge,fits]
  | cons chunk rest ih =>
    rw [readChunks,List.flatten_cons,← List.append_assoc]
    cases above : exceeded maxPartSize (bytes ++ chunk).length with
    | none => exact ih _ above
    | some limit =>
      have longer : (bytes ++ chunk).length ≤ (bytes ++ chunk ++ rest.flatten).length := by simp
      simp only [judge,exceeded_mono above longer]

/-- A part that is neither too large nor cut off. -/
def Field.Fits (maxPartSize : Option Nat) (field : Field) : Prop :=
  field.failure = none ∧ exceeded maxPartSize field.bytes.length = none

/-- The entry that a part leaves in the map. -/
def keep (utf8Lossy : List UInt8 → String) (out : StringMap Json) (field : Field) : StringMap Json :=
  out.insert field.key (.string (utf8Lossy field.bytes))

theorem readChunks_field (field : Field) : readChunks maxPartSize field.failure [] field.chunks =
    judge maxPartSize field.failure field.bytes := by
  apply readChunks_eq
  rw [exceeded_eq_none]
  exact fun _ _ => Nat.zero_le _

theorem readFields_full (full : exceeded maxParts (n + 1) = some cap) :
    readFields utf8Lossy maxParts maxPartSize failure n out (field :: fields) = .error (.tooManyParts cap) := by
  simp only [readFields,full]

theorem readFields_large (room : exceeded maxParts (n + 1) = none)
    (above : exceeded maxPartSize field.bytes.length = some cap) :
    readFields utf8Lossy maxParts maxPartSize failure n out (field :: fields) = .error (.partTooLarge cap) := by
  simp only [readFields,room,readChunks_field]
  simp only [judge,above]

theorem readFields_cut (room : exceeded maxParts (n + 1) = none)
    (whole : exceeded maxPartSize field.bytes.length = none) (cut : field.failure = some message) :
    readFields utf8Lossy maxParts maxPartSize failure n out (field :: fields) = .error (.parse message) := by
  simp only [readFields,room,readChunks_field]
  simp only [judge,whole,cut]

theorem readFields_fits (room : exceeded maxParts (n + 1) = none) (fits : field.Fits maxPartSize) :
    readFields utf8Lossy maxParts maxPartSize failure n out (field :: fields) =
      readFields utf8Lossy maxParts maxPartSize failure (n + 1) (keep utf8Lossy out field) fields := by
  simp only [readFields,room,readChunks_field]
  simp only [judge,fits.1,fits.2]
  rfl

/-- A part fits, or it stops the loop. -/
theorem fits_or (maxPartSize : Option Nat) (field : Field) : field.Fits maxPartSize ∨
    (∃ cap, exceeded maxPartSize field.bytes.length = some cap) ∨
    exceeded maxPartSize field.bytes.length = none ∧ ∃ message, field.failure = some message := by
  cases above : exceeded maxPartSize field.bytes.length with
  | some cap => exact .inr (.inl ⟨cap,rfl⟩)
  | none =>
    cases cut : field.failure with
    | some message => exact .inr (.inr ⟨rfl,message,rfl⟩)
    | none => exact .inl ⟨cut,above⟩

theorem readFields_ok (room : exceeded maxParts n = none) :
    readFields utf8Lossy maxParts maxPartSize failure n out fields = .ok result ↔
      failure = none ∧ exceeded maxParts (n + fields.length) = none ∧ (∀ field ∈ fields, field.Fits maxPartSize) ∧
        result = fields.foldl (keep utf8Lossy) out := by
  induction fields generalizing n out with
  | nil =>
    cases failure with
    | some message => simp [readFields]
    | none => simp [readFields,room,eq_comm]
  | cons field rest ih =>
    have longer : n + (field :: rest).length = n + 1 + rest.length := by simp; omega
    rw [longer]
    cases next : exceeded maxParts (n + 1) with
    | some cap =>
      rw [readFields_full next,exceeded_mono next (Nat.le_add_right _ _)]
      simp
    | none =>
      rcases fits_or maxPartSize field with fits | ⟨cap,above⟩ | ⟨whole,message,cut⟩
      · rw [readFields_fits next fits,ih next]
        simp [fits]
      · rw [readFields_large next above]
        simp [Field.Fits,above]
      · rw [readFields_cut next whole cut]
        simp [Field.Fits,cut]

theorem readFields_tooManyParts (room : exceeded maxParts n = none) :
    readFields utf8Lossy maxParts maxPartSize failure n out fields = .error (.tooManyParts cap) ↔
      maxParts = some cap ∧ cap < n + fields.length ∧ ∀ field ∈ fields.take (cap - n), field.Fits maxPartSize := by
  induction fields generalizing n out with
  | nil =>
    have out : ¬(maxParts = some cap ∧ cap < n) := by
      rw [← exceeded_eq_some,room]
      simp
    cases failure <;> simp_all [readFields]
  | cons field rest ih =>
    cases next : exceeded maxParts (n + 1) with
    | some full =>
      rw [readFields_full next]
      obtain ⟨known,below⟩ := exceeded_eq_some.mp next
      have least : n ≤ full := exceeded_eq_none.mp room full known
      have start : full - n = 0 := by omega
      constructor
      · intro same
        cases same
        refine ⟨known,by simp; omega,?_⟩
        rw [start]
        simp
      · rintro ⟨also,-,-⟩
        cases known.symm.trans also
        rfl
    | none =>
      have unfit : ¬field.Fits maxPartSize → ¬(maxParts = some cap ∧ cap < n + (field :: rest).length ∧
          ∀ other ∈ (field :: rest).take (cap - n), other.Fits maxPartSize) := by
        rintro bad ⟨known,-,fit⟩
        have room := exceeded_eq_none.mp next cap known
        have first : cap - n = cap - (n + 1) + 1 := by omega
        rw [first,List.take_succ_cons] at fit
        exact bad (fit field List.mem_cons_self)
      rcases fits_or maxPartSize field with fits | ⟨size,above⟩ | ⟨whole,message,cut⟩
      · rw [readFields_fits next fits,ih next]
        refine and_congr_right fun known => ?_
        have room := exceeded_eq_none.mp next cap known
        have first : cap - n = cap - (n + 1) + 1 := by omega
        have longer : n + (field :: rest).length = n + 1 + rest.length := by simp; omega
        rw [first,longer,List.take_succ_cons]
        simp [fits]
      · rw [readFields_large next above]
        refine iff_of_false (by simp) (unfit ?_)
        simp [Field.Fits,above]
      · rw [readFields_cut next whole cut]
        refine iff_of_false (by simp) (unfit ?_)
        simp [Field.Fits,cut]

/-- A part behind others: it is the first one, or the first one is one of the others. -/
theorem split_cons {P : List Field → Field → Prop} {first : Field} :
    (∃ before field after, first :: fields = before ++ field :: after ∧ P before field) ↔
      P [] first ∨ ∃ before field after, fields = before ++ field :: after ∧ P (first :: before) field := by
  constructor
  · rintro ⟨_ | ⟨head,before⟩,field,after,split,holds⟩
    · cases split
      exact .inl holds
    · cases split
      exact .inr ⟨before,field,after,rfl,holds⟩
  · rintro (holds | ⟨before,field,after,rfl,holds⟩)
    · exact ⟨[],first,fields,rfl,holds⟩
    · exact ⟨first :: before,field,after,rfl,holds⟩

theorem readFields_partTooLarge (room : exceeded maxParts n = none) :
    readFields utf8Lossy maxParts maxPartSize failure n out fields = .error (.partTooLarge cap) ↔
      ∃ before field after, fields = before ++ field :: after ∧
        (exceeded maxParts (n + before.length + 1) = none ∧ (∀ field ∈ before, field.Fits maxPartSize) ∧
          exceeded maxPartSize field.bytes.length = some cap) := by
  induction fields generalizing n out with
  | nil => cases failure <;> simp [readFields]
  | cons field rest ih =>
    rw [split_cons]
    cases next : exceeded maxParts (n + 1) with
    | some full =>
      rw [readFields_full next]
      have past : ∀ k, exceeded maxParts (n + k + 1) ≠ none := by
        intro k
        rw [exceeded_mono next (by omega)]
        simp
      simp [past]
    | none =>
      rcases fits_or maxPartSize field with fits | ⟨size,above⟩ | ⟨whole,message,cut⟩
      · rw [readFields_fits next fits,ih next]
        simp [fits.2,fits,Nat.add_assoc,Nat.add_comm 1]
      · rw [readFields_large next above]
        simp [Field.Fits,above]
      · rw [readFields_cut next whole cut]
        simp [Field.Fits,whole,cut]

/-- The outcome of a multipart body by its parts alone, however their bytes are cut into chunks: the body is
taken when nothing is cut off, there are not too many parts and none is too large; otherwise what comes
first in the body decides, a part that is too large or one too many. -/
theorem multipart_exact (utf8Lossy : List UInt8 → String) (maxParts maxPartSize : Option Nat)
    (multer : List UInt8 → String → List Field × Option String) (bodyBytes : List UInt8) (boundary : String) :
    (∀ result, parseMultipartBody utf8Lossy maxParts maxPartSize multer bodyBytes boundary = .ok result ↔
      (multer bodyBytes boundary).2 = none ∧ exceeded maxParts (multer bodyBytes boundary).1.length = none ∧
        (∀ field ∈ (multer bodyBytes boundary).1, field.Fits maxPartSize) ∧
        result = (multer bodyBytes boundary).1.foldl (keep utf8Lossy) ∅) ∧
    (∀ cap, parseMultipartBody utf8Lossy maxParts maxPartSize multer bodyBytes boundary = .error (.tooManyParts cap) ↔
      maxParts = some cap ∧ cap < (multer bodyBytes boundary).1.length ∧
        ∀ field ∈ (multer bodyBytes boundary).1.take cap, field.Fits maxPartSize) ∧
    ∀ cap, parseMultipartBody utf8Lossy maxParts maxPartSize multer bodyBytes boundary = .error (.partTooLarge cap) ↔
      ∃ before field after, (multer bodyBytes boundary).1 = before ++ field :: after ∧
        (exceeded maxParts (before.length + 1) = none ∧ (∀ field ∈ before, field.Fits maxPartSize) ∧
          exceeded maxPartSize field.bytes.length = some cap) := by
  have room : exceeded maxParts 0 = none := by
    rw [exceeded_eq_none]
    exact fun _ _ => Nat.zero_le _
  refine ⟨?_,?_,?_⟩
  · intro result
    rw [parseMultipartBody,readFields_ok room,Nat.zero_add]
  · intro cap
    rw [parseMultipartBody,readFields_tooManyParts room,Nat.zero_add,Nat.sub_zero]
  · intro cap
    rw [parseMultipartBody,readFields_partTooLarge room]
    simp only [Nat.zero_add]

/-- Of two parts of one name the later one counts; the third part here is one too many. -/
example : (parseMultipartBody (fun _ => "") (some 2) none
    (fun _ _ => ([{ name := some "a", chunks := [] },{ name := some "a", chunks := [] },{ chunks := [] }],none)) [] "x"
      matches .error (.tooManyParts 2)) = true := rfl

end Ruuter.Multipart
