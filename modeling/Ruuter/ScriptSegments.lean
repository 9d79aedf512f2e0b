import Ruuter.ByteScan
import Ruuter.Context

/-! The segments `find_script_segments` returns: ordered, on character boundaries, balanced outside of
strings, and together with the gaps between them the whole text. -/
namespace Ruuter
open Utf8

namespace Reading

/-- What the scanner is in behind a text. -/
def behind (r : Reading) (text : List Char) : Reading := text.foldl next r

/-- The characters of a text outside of strings. -/
def codeOf : Reading → List Char → List Char
  | _, [] => []
  | r, c :: rest => if r = code then c :: codeOf (r.next c) rest else codeOf (r.next c) rest

/-- The braces that are open behind a text. -/
def opened (r : Reading) (text : List Char) : Nat := (r.codeOf text).count '\x7b'

def closed (r : Reading) (text : List Char) : Nat := (r.codeOf text).count '\x7d'

end Reading

end Ruuter

namespace Ruuter.Scripting
open Utf8 Reading

/-- A brace behind the text closes the segment: no string is open, and every brace is closed. -/
def Closes (text : List Char) : Prop :=
  behind .code text = .code ∧ opened .code text = closed .code text

/-- Outside of strings every brace is opened before it is closed, and closed. -/
structure Balanced (text : List Char) : Prop where
  closes : Closes text
  before : ∀ p, p <+: text → closed .code p ≤ opened .code p

def segmentText (segment : Segment) : String := "$\x7b" ++ segment.inner ++ "\x7d"

/-- The text between the segments, when all slices are on boundaries. -/
def gaps (s : String) : (cursor : Nat) → List Segment → Option (List String)
  | cursor, [] => (slice s cursor s.utf8ByteSize).map ([·])
  | cursor, segment :: rest => do
    let gap ← slice s cursor segment.start
    let later ← gaps s segment.stop rest
    pure (gap :: later)

/-- Gaps and what stands between them, in turns. -/
def interleave : List String → List String → String
  | gap :: gaps, text :: texts => gap ++ text ++ interleave gaps texts
  | gap :: _, [] => gap
  | [], _ => ""

/-- What holds of the segments of a text and the gaps around them. -/
structure Segmented (s : String) (segments : List Segment) (between : List String) : Prop where
  ordered : segments.Pairwise fun a b => a.stop ≤ b.start
  bounds : ∀ g ∈ segments, g.start < g.stop ∧ g.stop ≤ s.utf8ByteSize
  boundaries : ∀ g ∈ segments, isCharBoundary s g.start = true ∧ isCharBoundary s g.stop = true
  text : ∀ g ∈ segments, slice s g.start g.stop = some (segmentText g)
  balanced : ∀ g ∈ segments, Balanced g.inner.toList
  first : ∀ g ∈ segments, ∀ p, p ++ ['\x7d'] <+: g.inner.toList → ¬ Closes p
  gaps : gaps s 0 segments = some between
  whole : interleave between (segments.map segmentText) = s

section Balance
variable {c : Char} {d e : Nat} {r q : Reading} {text p : List Char}

theorem opened_cons : r.opened (c :: text) =
    (if r = code ∧ c = '\x7b' then 1 else 0) + (r.next c).opened text := by
  unfold opened
  rw [codeOf]
  by_cases inside : r = code
  · by_cases opens : c = '\x7b'
    · simp [inside,opens,Nat.add_comm]
    · simp [inside,opens]
  · simp [inside]

theorem closed_cons : r.closed (c :: text) =
    (if r = code ∧ c = '\x7d' then 1 else 0) + (r.next c).closed text := by
  unfold closed
  rw [codeOf]
  by_cases inside : r = code
  · by_cases closes : c = '\x7d'
    · simp [inside,closes,Nat.add_comm]
    · simp [inside,closes]
  · simp [inside]

/-- The depth moves with the braces. -/
theorem depth_moves (positive : 0 < d) : r.depth c d + (if r = code ∧ c = '\x7d' then 1 else 0) =
    d + (if r = code ∧ c = '\x7b' then 1 else 0) := by
  cases r with
  | code =>
    by_cases opens : c = '\x7b'
    · subst opens
      rfl
    · by_cases closes : c = '\x7d'
      · subst closes
        simp only [depth]
        simp
        omega
      · simp [depth,opens,closes]
  | quoted => rfl
  | escaped => rfl

theorem reads_behind (reads : Reads d r text e q) : r.behind text = q := by
  induction reads with
  | nil => rfl
  | cons _ _ ih => exact ih

theorem reads_level (reads : Reads d r text e q) (positive : 0 < d) : e + r.closed text = d + r.opened text := by
  induction reads with
  | nil => rfl
  | @cons r c d text e q open' _ ih =>
    have next := ih (depth_pos positive open')
    have moves := @depth_moves c d r positive
    rw [closed_cons,opened_cons]
    omega

/-- What is read of a text is read of each prefix. -/
theorem reads_start (reads : Reads d r text e q) (starts : p <+: text) : ∃ f t, Reads d r p f t := by
  induction reads generalizing p with
  | nil =>
    obtain rfl := List.prefix_nil.mp starts
    exact ⟨_,_,.nil⟩
  | @cons r c d text e q open' _ ih =>
    cases p with
    | nil => exact ⟨_,_,.nil⟩
    | cons b p =>
      obtain ⟨rfl,later⟩ := List.cons_prefix_cons.mp starts
      obtain ⟨f,t,reads⟩ := ih later
      exact ⟨f,t,.cons open' reads⟩

/-- What is read from an opening brace to the one that closes it is balanced. -/
theorem reads_balanced (reads : Reads 1 .code text 1 .code) : Balanced text where
  closes := by
    have level := reads_level reads Nat.one_pos
    exact ⟨reads_behind reads,by omega⟩
  before p starts := by
    obtain ⟨f,t,reads⟩ := reads_start reads starts
    have level := reads_level reads Nat.one_pos
    have positive := reads.pos Nat.one_pos
    omega

theorem codeOf_append (r : Reading) (text rest : List Char) :
    r.codeOf (text ++ rest) = r.codeOf text ++ (r.behind text).codeOf rest := by
  induction text generalizing r with
  | nil => rfl
  | cons c text ih =>
    rw [List.cons_append,codeOf,codeOf,ih]
    split <;> rfl

/-- No brace before the last one closes the segment. -/
theorem Balanced.first (balanced : Balanced text) (p : List Char) (starts : p ++ ['\x7d'] <+: text) : ¬ Closes p := by
  rintro ⟨outside,level⟩
  have held := balanced.before _ starts
  unfold closed opened at held
  rw [codeOf_append,outside,List.count_append,List.count_append] at held
  unfold closed opened at level
  have one : (codeOf .code ['\x7d']).count '\x7d' = 1 := rfl
  have none : (codeOf .code ['\x7d']).count '\x7b' = 0 := rfl
  omega

end Balance

/-- A text cut into gaps and segments, from an offset on. -/
inductive Segmentation : (offset : Nat) → List Char → List Segment → List String → Prop
  | gap : Segmentation offset text [] [String.ofList text]
  | segment {inner : List Char} {offset : Nat} {gap text : List Char} {segments : List Segment} {between : List String} :
      Reads 1 .code inner 1 .code →
      Segmentation (offset + size gap + 3 + size inner) text segments between →
      Segmentation offset (gap ++ '$' :: '\x7b' :: (inner ++ '\x7d' :: text))
        ({ start := offset + size gap, stop := offset + size gap + 3 + size inner, inner := String.ofList inner } ::
          segments) (String.ofList gap :: between)

/-- Where a segment stands in a text. -/
def StandsIn (s : String) (g : Segment) : Prop :=
  ∃ before inner after, s.toList = before ++ ('$' :: '\x7b' :: (inner ++ ['\x7d']) ++ after) ∧
    Reads 1 .code inner 1 .code ∧
    g = { start := size before, stop := size before + 3 + size inner, inner := String.ofList inner }

section Segmentation
variable {c : Char} {s : String} {offset n : Nat} {before text : List Char} {segments : List Segment}
  {between : List String} {g : Segment}

theorem Segmentation.grow (cut : Segmentation (offset + c.utf8Size) text segments between) :
    ∃ between, Segmentation offset (c :: text) segments between := by
  cases cut with
  | gap => exact ⟨_,.gap⟩
  | @segment inner _ gap text segments between reads later =>
    have start : offset + c.utf8Size + size gap = offset + size (c :: gap) := by rw [size_cons,Nat.add_assoc]
    rw [start] at later ⊢
    exact ⟨_,.segment reads later⟩

/-- The scanner cuts the text. -/
theorem exists_segmentation (n offset : Nat) (text : List Char) (bound : text.length ≤ n) :
    ∃ between, Segmentation offset text (segmentsFrom n offset text) between := by
  induction n generalizing offset text with
  | zero =>
    obtain rfl := List.length_eq_zero_iff.mp (Nat.le_zero.mp bound)
    exact ⟨_,.gap⟩
  | succ n ih =>
    cases text with
    | nil => exact ⟨_,.gap⟩
    | cons c rest =>
      have shorter : rest.length ≤ n := Nat.le_of_succ_le_succ bound
      by_cases opening : c = '$' ∧ ∃ tail, rest = '\x7b' :: tail
      · obtain ⟨rfl,tail,rfl⟩ := opening
        obtain ⟨e,q,reads⟩ | ⟨inner,after,rfl,reads⟩ := reads_or_closes tail 1 .code
        · rw [segmentsFrom_open reads]
          obtain ⟨between,cut⟩ := ih (offset + 1) ('\x7b' :: tail) shorter
          exact cut.grow (c := '$')
        · rw [segmentsFrom_closed reads]
          have behind : after.length ≤ n := by
            simp only [List.length_cons,List.length_append] at shorter
            omega
          obtain ⟨between,cut⟩ := ih (offset + 3 + size inner) after behind
          exact ⟨_,@Segmentation.segment inner offset [] after _ between reads cut⟩
      · have plain : c = '$' → ∀ tail, rest ≠ '\x7b' :: tail := fun same tail brace => opening ⟨same,tail,brace⟩
        rw [segmentsFrom_char plain]
        obtain ⟨between,cut⟩ := ih (offset + c.utf8Size) rest shorter
        exact cut.grow

theorem size_segment (inner : List Char) : size ('$' :: '\x7b' :: (inner ++ ['\x7d'])) = size inner + 3 := by
  rw [size_cons,size_cons,size_snoc]
  have dollar : ('$' : Char).utf8Size = 1 := rfl
  have brace : ('\x7b' : Char).utf8Size = 1 := rfl
  have closing : ('\x7d' : Char).utf8Size = 1 := rfl
  omega

/-- A text that is cut behind a prefix. -/
theorem split_segment {gap inner : List Char}
    (split : s.toList = before ++ (gap ++ '$' :: '\x7b' :: (inner ++ '\x7d' :: text))) :
    s.toList = before ++ gap ++ ('$' :: '\x7b' :: (inner ++ ['\x7d']) ++ text) := by
  simpa using split

theorem Segmentation.stands (cut : Segmentation offset text segments between)
    (split : s.toList = before ++ text) (start : offset = size before) (member : g ∈ segments) : StandsIn s g := by
  induction cut generalizing before with
  | gap => cases member
  | @segment inner offset gap text segments between reads _ ih =>
    have here := split_segment split
    have size_gap : size (before ++ gap) = offset + size gap := by rw [size_append,start]
    rcases List.mem_cons.mp member with rfl | later
    · exact ⟨before ++ gap,inner,text,here,reads,by rw [size_gap]⟩
    · refine @ih (before ++ gap ++ '$' :: '\x7b' :: (inner ++ ['\x7d'])) ?_ ?_ later
      · rw [here,List.append_assoc (before ++ gap)]
      · rw [size_append,size_segment,size_gap]
        omega

theorem Segmentation.above (cut : Segmentation offset text segments between) (member : g ∈ segments) :
    offset ≤ g.start := by
  induction cut with
  | gap => cases member
  | segment _ _ ih =>
    rcases List.mem_cons.mp member with rfl | later
    · exact Nat.le_add_right _ _
    · have := ih later
      omega

theorem Segmentation.ordered (cut : Segmentation offset text segments between) :
    segments.Pairwise fun a b => a.stop ≤ b.start := by
  induction cut with
  | gap => exact .nil
  | segment _ cut ih => exact .cons (fun g member => cut.above member) ih

theorem Segmentation.gaps (cut : Segmentation offset text segments between)
    (split : s.toList = before ++ text) (start : offset = size before) :
    gaps s offset segments = some between := by
  induction cut generalizing before with
  | @gap offset text =>
    have whole := @slice_eq s before text [] (by simpa using split)
    have stop : size before + size text = s.utf8ByteSize := by rw [utf8ByteSize_eq,split,size_append]
    rw [Scripting.gaps,start,← stop,whole]
    rfl
  | @segment inner offset gap text segments between reads _ ih =>
    have here := split_segment split
    have size_gap : size (before ++ gap) = offset + size gap := by rw [size_append,start]
    have sliced := @slice_eq s before gap ('$' :: '\x7b' :: (inner ++ '\x7d' :: text)) split
    have later := @ih (before ++ gap ++ '$' :: '\x7b' :: (inner ++ ['\x7d']))
      (by rw [here,List.append_assoc (before ++ gap)])
      (by rw [size_append,size_segment,size_gap]; omega)
    rw [Scripting.gaps,later]
    dsimp only
    rw [start,sliced]
    rfl

theorem segmentText_ofList (start stop : Nat) (inner : List Char) :
    segmentText { start, stop, inner := String.ofList inner } =
      String.ofList ('$' :: '\x7b' :: (inner ++ ['\x7d'])) := by
  apply String.toList_inj.mp
  simp [segmentText]

theorem Segmentation.whole (cut : Segmentation offset text segments between) :
    interleave between (segments.map segmentText) = String.ofList text := by
  induction cut with
  | gap => rfl
  | segment _ _ ih =>
    rw [List.map_cons,interleave,ih,segmentText_ofList,← String.ofList_append,← String.ofList_append]
    simp

theorem StandsIn.bounds (stands : StandsIn s g) : g.start < g.stop ∧ g.stop ≤ s.utf8ByteSize := by
  obtain ⟨before,inner,after,split,_,rfl⟩ := stands
  rw [utf8ByteSize_eq,split,size_append,size_append,size_segment]
  dsimp only
  omega

theorem StandsIn.sliced (stands : StandsIn s g) : slice s g.start g.stop = some (segmentText g) := by
  obtain ⟨before,inner,after,split,_,rfl⟩ := stands
  have sliced := slice_eq split
  rw [size_segment] at sliced
  have stop : size before + 3 + size inner = size before + (size inner + 3) := by omega
  rw [segmentText_ofList,← sliced,← stop]

/-- What is sliced has its ends on boundaries. -/
theorem boundaries_of_slice {start stop : Nat} (sliced : slice s start stop = some piece) :
    isCharBoundary s start = true ∧ isCharBoundary s stop = true := by
  unfold slice at sliced
  split at sliced
  · rename_i held
    exact held.2
  · cases sliced

theorem StandsIn.balanced (stands : StandsIn s g) : Balanced g.inner.toList := by
  obtain ⟨_,inner,_,_,reads,rfl⟩ := stands
  have balanced := reads_balanced reads
  rwa [← @String.toList_ofList inner] at balanced

end Segmentation

theorem append_interleave (out gap piece : String) (between texts : List String) :
    out ++ gap ++ piece ++ interleave between texts = out ++ interleave (gap :: between) (piece :: texts) := by
  rw [interleave,← String.append_assoc,← String.append_assoc]

/-- A mixed string that evaluates keeps the gaps and has one text for each segment. -/
theorem interpolate_ok {h : Host} {ctx : Ctx} (cut : Segmentation offset text segments between)
    (split : s.toList = before ++ text) (start : offset = size before)
    (evaluated : interpolate h ctx s segments offset out failed t = (.ok value,u)) :
    ∃ texts, texts.length = segments.length ∧ value = .string (out ++ interleave between texts) := by
  induction cut generalizing before out failed t with
  | @gap offset text =>
    have whole := @textSlice_eq before text [] s (by simpa using split)
    have stop : size before + size text = s.utf8ByteSize := by rw [utf8ByteSize_eq,split,size_append]
    rw [stop,← start] at whole
    cases failed with
    | some e => cases evaluated
    | none =>
      simp only [interpolate,whole] at evaluated
      cases evaluated
      exact ⟨[],rfl,rfl⟩
  | @segment inner offset gap text segments between reads _ ih =>
    have here := split_segment split
    have size_gap : size (before ++ gap) = offset + size gap := by rw [size_append,start]
    have sliced : Text.slice s offset (offset + size gap) = String.ofList gap := by
      rw [start]
      exact textSlice_eq split
    have later := fun {out failed t} => @ih (before ++ gap ++ '$' :: '\x7b' :: (inner ++ ['\x7d'])) out failed t
      (by rw [here,List.append_assoc (before ++ gap)])
      (by rw [size_append,size_segment,size_gap]; omega)
    simp only [interpolate,sliced] at evaluated
    obtain ⟨result,v,_,rest⟩ := Eff.bind_ok_inv evaluated
    cases result with
    | ok v =>
      obtain ⟨texts,length,rfl⟩ := later rest
      exact ⟨_ :: texts,congrArg Nat.succ length,congrArg Json.string (append_interleave _ _ _ between texts)⟩
    | error e =>
      obtain ⟨texts,length,rfl⟩ := later rest
      exact ⟨_ :: texts,congrArg Nat.succ length,congrArg Json.string (append_interleave _ _ _ between texts)⟩

/-- The scanner returns, and cuts the text into gaps and balanced segments; a mixed string is its gaps
with one text for each segment. -/
def SegmentsCut (checks : Bool) (s : String) : Prop :=
  ∃ segments between, FindsScriptSegments checks s segments ∧ Segmented s segments between ∧
    ∀ (h : Host) (ctx : Ctx) (t u : St) (value : Json),
      interpolate h ctx s segments 0 "" none t = (.ok value,u) →
        ∃ texts, texts.length = segments.length ∧ value = .string (interleave between texts)

/-- A segment that ends at a brace that does not close it is not balanced. -/
theorem not_balanced (reads : Reads 1 .code text e .code) (deeper : e ≠ 1) : ¬ Balanced text := by
  intro balanced
  have level := reads_level reads Nat.one_pos
  have even := balanced.closes.2
  omega

theorem segmentsCut_of_counts {checks : Bool} {s : String} (counts : CountsAll checks s.toList.length s.toList) :
    SegmentsCut checks s := by
  obtain ⟨between,cut⟩ := exists_segmentation s.toList.length 0 s.toList (Nat.le_refl _)
  have stands : ∀ g ∈ findScriptSegments s, StandsIn s g := fun g member =>
    cut.stands (show s.toList = [] ++ s.toList from rfl) rfl member
  refine ⟨findScriptSegments s,between,findsScriptSegments_of_counts s counts,?_,?_⟩
  · exact
      { ordered := cut.ordered
        bounds := fun g member => (stands g member).bounds
        boundaries := fun g member => boundaries_of_slice (stands g member).sliced
        text := fun g member => (stands g member).sliced
        balanced := fun g member => (stands g member).balanced
        first := fun g member => (stands g member).balanced.first
        gaps := cut.gaps (show s.toList = [] ++ s.toList from rfl) rfl
        whole := cut.whole.trans String.ofList_toList }
  · intro h ctx t u value evaluated
    obtain ⟨texts,length,same⟩ := interpolate_ok cut (show s.toList = [] ++ s.toList from rfl) rfl evaluated
    exact ⟨texts,length,same.trans (by rw [String.empty_append])⟩

/-- The scanner cuts a text exactly when the counter of braces keeps count of it. -/
theorem script_segments_cut (checks : Bool) (s : String) :
    SegmentsCut checks s ↔ CountsAll checks s.toList.length s.toList := by
  constructor
  · rintro ⟨segments,between,⟨fuel,found⟩,cut,_⟩
    by_contra slips
    obtain ⟨g,member,e,deeper,reads⟩ :=
      segmentsLoop_slips s s.toList.length [] s.toList rfl (Nat.le_refl _) slips found
    exact not_balanced reads deeper (cut.balanced g member)
  · exact segmentsCut_of_counts

/-- A text of less than `2 ^ 31` characters is cut. -/
theorem short_segments_cut (checks : Bool) {s : String} (short : s.toList.length < 2 ^ 31) : SegmentsCut checks s :=
  segmentsCut_of_counts (countsAll_of_short _ short)

/-- Opening braces alone are counted up to the end of the text. -/
theorem counts_openings (checks : Bool) (n d : Nat) : Counts checks (List.replicate n '\x7b') d .code ↔
    (checks = true → n ≠ 0 → d + n < 2 ^ 31) ∧ (checks = false → (d + n) % 2 ^ 32 ≠ 0) := by
  induction n generalizing d with
  | zero => simp [Counts]
  | succ n ih =>
    have opened : Reading.depth .code '\x7b' d = d + 1 := rfl
    have next : Reading.next .code '\x7b' = .code := rfl
    rw [List.replicate_succ,Counts,opened,next,ih]
    constructor
    · rintro (⟨_,brace,_⟩ | ⟨kept,range,away⟩)
      · exact absurd brace (by decide)
      · have here := kept.range
        rw [opened] at here
        refine ⟨fun on _ => ?_,fun off => ?_⟩
        · have := here on
          have := range on
          omega
        · have := away off
          rwa [Nat.add_right_comm] at this
    · rintro ⟨range,away⟩
      refine .inr ⟨⟨fun on => ?_,fun _ _ brace => absurd brace (by decide)⟩,fun on _ => ?_,fun off => ?_⟩
      · have := range on (Nat.succ_ne_zero n)
        omega
      · have := range on (Nat.succ_ne_zero n)
        omega
      · have := away off
        rwa [Nat.add_right_comm]

/-- A text that opens a segment and `n` braces. -/
def openings (n : Nat) : String := String.ofList ('$' :: '\x7b' :: List.replicate n '\x7b')

theorem openings_slip (n : Nat) (slips : ¬ Counts checks (List.replicate n '\x7b') 1 .code) :
    ¬ CountsAll checks (openings n).toList.length (openings n).toList := by
  rw [openings,String.toList_ofList,List.length_cons]
  intro counts
  rw [CountsAll] at counts
  exact slips counts.1

/-- With overflow checks the scanner panics at the brace that is one too many, and without them it never
returns from a text whose braces count up to zero. -/
theorem openings_not_cut :
    ¬ SegmentsCut true (openings (2 ^ 31 - 1)) ∧ ¬ SegmentsCut false (openings (2 ^ 32 - 1)) := by
  rw [script_segments_cut,script_segments_cut]
  constructor
  · refine openings_slip _ ?_
    rw [counts_openings]
    intro counts
    exact absurd (counts.1 rfl (by decide)) (by decide)
  · refine openings_slip _ ?_
    rw [counts_openings]
    intro counts
    exact absurd (counts.2 rfl) (by decide)

end Ruuter.Scripting
