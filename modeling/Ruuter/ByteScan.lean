import Ruuter.Script
import Ruuter.Lib.Overflow
import Ruuter.Lib.Utf8

/-! `find_script_segments` (`src/scripting/mod.rs`) over the bytes of a text, as the source has it: two
loops over byte offsets, a counter of braces of 32 bits, and slices that panic off a character boundary.
It returns what the scan of characters returns as long as the counter keeps count. -/
namespace Ruuter
open Form (bytesOf)
open Overflow (arith)

/-- How the inner loop ends: at the brace that closes the segment, at the end of the text, or where the
counter overflows. -/
inductive Scanned
  | closed (j : Nat)
  | ended (depth : Int32)
  | panicked
deriving DecidableEq

section Source
variable (checks : Bool)

/-- The inner loop, on the bytes from `j` on. -/
def scanBytes : List UInt8 → (j : Nat) → (depth : Int32) → (inStr : Option UInt8) → (escape : Bool) → Scanned
  | [], _, depth, _, _ => .ended depth
  | b :: rest, j, depth, some q, escape =>
    if escape then scanBytes rest (j + 1) depth (some q) false
    else if b = 0x5C then scanBytes rest (j + 1) depth (some q) true
    else if b = q then scanBytes rest (j + 1) depth none escape
    else scanBytes rest (j + 1) depth (some q) escape
  | b :: rest, j, depth, none, escape =>
    if b = 0x22 ∨ b = 0x27 ∨ b = 0x60 then scanBytes rest (j + 1) depth (some b) escape
    else if b = 0x7B then
      match arith checks (depth.toInt + 1 < 2 ^ 31) (depth + 1) with
      | none => .panicked
      | some deeper => scanBytes rest (j + 1) deeper none escape
    else if b = 0x7D then
      match arith checks (-2 ^ 31 ≤ depth.toInt - 1) (depth - 1) with
      | none => .panicked
      | some less => if less = 0 then .closed j else scanBytes rest (j + 1) less none escape
    else scanBytes rest (j + 1) depth none escape

/-- The outer loop. There is no result when the counter or a slice panics, or after `fuel` rounds. -/
def segmentsLoop (s : String) : (fuel i : Nat) → (out : List Segment) → Option (List Segment)
  | 0, _, _ => none
  | fuel + 1, i, out =>
    match (bytesOf s)[i]?,(bytesOf s)[i + 1]? with
    | some b, some next =>
      if b = 0x24 ∧ next = 0x7B then
        match scanBytes checks ((bytesOf s).drop (i + 2)) (i + 2) 1 none false with
        | .panicked => none
        | .closed j =>
          match Utf8.slice s (i + 2) j with
          | some inner => segmentsLoop s fuel (j + 1) (out ++ [{ start := i, stop := j + 1, inner }])
          | none => none
        | .ended depth => segmentsLoop s fuel (if depth ≠ 0 then i + 1 else i) out
      else segmentsLoop s fuel (i + 1) out
    | _, _ => some out

/-- `find_script_segments` returns segments. -/
def FindsScriptSegments (s : String) (segments : List Segment) : Prop :=
  ∃ fuel, segmentsLoop checks s fuel 0 [] = some segments

end Source

/-- What a scanner is in: code, or a string with its quote, after a backslash or not. -/
inductive Reading
  | code
  | quoted (q : Char)
  | escaped (q : Char)
deriving DecidableEq

namespace Reading

def isQuote (c : Char) : Prop := c = '\x22' ∨ c = '\x27' ∨ c = '\x60'

instance (c : Char) : Decidable (isQuote c) := inferInstanceAs (Decidable (_ ∨ _ ∨ _))

/-- What the scanner is in behind a character. -/
def next : Reading → Char → Reading
  | code, c => if isQuote c then quoted c else code
  | quoted q, c => if c = '\x5c' then escaped q else if c = q then code else quoted q
  | escaped q, _ => quoted q

/-- The depth of braces behind a character. Braces in strings do not count. -/
def depth : Reading → Char → Nat → Nat
  | code, c, d => if c = '\x7b' then d + 1 else if c = '\x7d' then d - 1 else d
  | quoted _, _, d | escaped _, _, d => d

def inStr : Reading → Option Char
  | code => none
  | quoted q | escaped q => some q

def escape : Reading → Bool
  | escaped _ => true
  | code | quoted _ => false

/-- Strings are opened by quotes. -/
def Proper (r : Reading) : Prop := ∀ q, r.inStr = some q → isQuote q

/-- The counter of braces keeps count behind a character: in a build with overflow checks it stays in
its range, and in any other it is not back at zero behind a closing brace. -/
structure Kept (checks : Bool) (c : Char) (d : Nat) (r : Reading) : Prop where
  range : checks = true → r.depth c d < 2 ^ 31
  away : checks = false → r = code → c = '\x7d' → r.depth c d % 2 ^ 32 ≠ 0

/-- The counter keeps count of a script from a depth to the brace that closes it, or to the end of the
text, where it is not zero. -/
def Counts (checks : Bool) : List Char → Nat → Reading → Prop
  | [], d, _ => checks = false → d % 2 ^ 32 ≠ 0
  | c :: rest, d, r => r = code ∧ c = '\x7d' ∧ d = 1 ∨
    Kept checks c d r ∧ Counts checks rest (r.depth c d) (r.next c)

/-- The counter keeps count at every `${` that the scanner comes to. -/
def CountsAll (checks : Bool) : (fuel : Nat) → List Char → Prop
  | 0, _ => True
  | fuel + 1, '$' :: '\x7b' :: rest => Counts checks rest 1 code ∧
    match scanScript rest 1 none false [] with
    | some (_,behind) => CountsAll checks fuel behind
    | none => CountsAll checks fuel ('\x7b' :: rest)
  | fuel + 1, _ :: rest => CountsAll checks fuel rest
  | _ + 1, [] => True

/-- A text that is read without a brace that closes the segment, from one depth to another. -/
inductive Reads : Nat → Reading → List Char → Nat → Reading → Prop
  | nil : Reads d r [] d r
  | cons : (r = .code → c = '\x7d' → d ≠ 1) → Reads (r.depth c d) (r.next c) text e q → Reads d r (c :: text) e q

end Reading

open Reading (Reads)

section Reads
variable {c : Char} {d e : Nat} {r q : Reading} {text rest : List Char}

theorem Reading.next_quote (quote : isQuote c) : code.next c = quoted c := if_pos quote

theorem Reading.next_plain (plain : ¬ isQuote c) : code.next c = code := if_neg plain

theorem Reading.proper_code : Reading.code.Proper := nofun

theorem Reading.Proper.next (proper : r.Proper) (c : Char) : (r.next c).Proper := by
  intro q given
  cases r with
  | code =>
    by_cases quote : isQuote c
    · simp only [Reading.next,if_pos quote,inStr,Option.some.injEq] at given
      exact given ▸ quote
    · simp [Reading.next,if_neg quote,inStr] at given
  | quoted s =>
    have own := proper s rfl
    simp only [Reading.next] at given
    split at given
    · obtain rfl := Option.some.inj given
      exact own
    · split at given
      · cases given
      · obtain rfl := Option.some.inj given
        exact own
  | escaped s =>
    obtain rfl := Option.some.inj given
    exact proper _ rfl

theorem Reading.depth_pos (positive : 0 < d) (open' : r = .code → c = '\x7d' → d ≠ 1) : 0 < r.depth c d := by
  cases r with
  | code =>
    simp only [Reading.depth]
    split
    · exact Nat.succ_pos d
    · split
      · rename_i closes
        have := open' rfl closes
        omega
      · exact positive
  | quoted => exact positive
  | escaped => exact positive

theorem Reading.Reads.pos (reads : Reads d r text e q) (positive : 0 < d) : 0 < e := by
  induction reads with
  | nil => exact positive
  | cons open' _ ih => exact ih (Reading.depth_pos positive open')

/-- A text is read to its end or up to the first brace that closes the segment. -/
theorem reads_or_closes (text : List Char) (d : Nat) (r : Reading) :
    (∃ e q, Reads d r text e q) ∨
      ∃ before after, text = before ++ '\x7d' :: after ∧ Reads d r before 1 .code := by
  induction text generalizing d r with
  | nil => exact .inl ⟨d,r,.nil⟩
  | cons c rest ih =>
    by_cases closes : r = .code ∧ c = '\x7d' ∧ d = 1
    · obtain ⟨rfl,rfl,rfl⟩ := closes
      exact .inr ⟨[],rest,rfl,.nil⟩
    · have open' : r = .code → c = '\x7d' → d ≠ 1 := fun code brace one => closes ⟨code,brace,one⟩
      obtain ⟨e,q,reads⟩ | ⟨before,after,rfl,reads⟩ := ih (r.depth c d) (r.next c)
      · exact .inl ⟨e,q,.cons open' reads⟩
      · exact .inr ⟨c :: before,after,rfl,.cons open' reads⟩

end Reads

section Characters
variable {c : Char} {d e : Nat} {r q : Reading} {text rest inner : List Char}

theorem scanScript_step (open' : r = .code → c = '\x7d' → d ≠ 1) :
    scanScript (c :: rest) d r.inStr r.escape inner =
      scanScript rest (r.depth c d) (r.next c).inStr (r.next c).escape (c :: inner) := by
  cases r with
  | code =>
    simp only [Reading.inStr,Reading.escape,scanScript,Reading.depth]
    by_cases quote : Reading.isQuote c
    · rw [Reading.next_quote quote]
      rcases quote with rfl | rfl | rfl <;> rfl
    · rw [Reading.next_plain quote]
      unfold Reading.isQuote at quote
      rw [if_neg quote]
      by_cases opens : c = '\x7b'
      · rw [if_pos opens,if_pos opens]
      · rw [if_neg opens,if_neg opens]
        by_cases closes : c = '\x7d'
        · rw [if_pos closes,if_pos closes,if_neg (open' rfl closes)]
        · rw [if_neg closes,if_neg closes]
  | quoted s =>
    simp only [Reading.inStr,Reading.escape,scanScript,Reading.next,Reading.depth,Bool.false_eq_true,if_false]
    by_cases slash : c = '\x5c'
    · simp [slash]
    · by_cases same : c = s
      · subst same
        simp [slash]
      · simp [slash,same]
  | escaped s => simp [Reading.inStr,Reading.escape,scanScript,Reading.next,Reading.depth]

theorem scanScript_reads (reads : Reads d r text e q) (rest inner : List Char) :
    scanScript (text ++ rest) d r.inStr r.escape inner =
      scanScript rest e q.inStr q.escape (text.reverse ++ inner) := by
  induction reads generalizing inner with
  | nil => rfl
  | @cons r c d text e q open' _ ih =>
    rw [List.cons_append,scanScript_step open',ih,List.reverse_cons,List.append_assoc]
    rfl

theorem scanScript_closed (reads : Reads 1 .code text 1 .code) (rest : List Char) :
    scanScript (text ++ '\x7d' :: rest) 1 none false [] = some (text,rest) := by
  refine (scanScript_reads reads _ _).trans ?_
  rw [List.append_nil]
  simp [scanScript,Reading.inStr,Reading.escape]

theorem scanScript_open (reads : Reads 1 .code text e q) : scanScript text 1 none false [] = none := by
  have whole := scanScript_reads reads [] []
  rw [List.append_nil] at whole
  refine whole.trans ?_
  cases q <;> rfl

end Characters

section Bytes
open Utf8
variable {checks : Bool} {c : Char} {d e : Nat} {r q : Reading} {text : List Char} {rest : List UInt8} {j : Nat}

theorem Reading.isQuote_ascii (quote : isQuote c) : c.toNat < 128 := by
  rcases quote with rfl | rfl | rfl <;> decide

theorem byte_isQuote (ascii : c.toNat < 128) :
    (byte c = 0x22 ∨ byte c = 0x27 ∨ byte c = 0x60) ↔ Reading.isQuote c :=
  or_congr (byte_inj (d := '\x22') ascii (by decide))
    (or_congr (byte_inj (d := '\x27') ascii (by decide)) (byte_inj (d := '\x60') ascii (by decide)))

theorem byte_slash (ascii : c.toNat < 128) : byte c = 0x5C ↔ c = '\x5c' := byte_inj (d := '\x5c') ascii (by decide)

theorem byte_open (ascii : c.toNat < 128) : byte c = 0x7B ↔ c = '\x7b' := byte_inj (d := '\x7b') ascii (by decide)

theorem byte_close (ascii : c.toNat < 128) : byte c = 0x7D ↔ c = '\x7d' := byte_inj (d := '\x7d') ascii (by decide)

/-- The counter of a build with overflow checks holds the depth. -/
def InRange (checks : Bool) (d : Nat) : Prop := checks = true → d < 2 ^ 31

theorem count_open (small : InRange checks d) (deeper : InRange checks (d + 1)) :
    arith checks ((Int32.ofNat d).toInt + 1 < 2 ^ 31) (Int32.ofNat d + 1) = some (Int32.ofNat (d + 1)) := by
  rw [Overflow.arith_fits,Overflow.ofNat_succ]
  intro on
  rw [Int32.toInt_ofNat_of_lt (small on),decide_eq_true_eq]
  have := deeper on
  omega

theorem count_close (positive : 0 < d) (small : InRange checks d) :
    arith checks (-2 ^ 31 ≤ (Int32.ofNat d).toInt - 1) (Int32.ofNat d - 1) = some (Int32.ofNat (d - 1)) := by
  rw [Overflow.arith_fits,Overflow.ofNat_pred positive]
  intro on
  rw [Int32.toInt_ofNat_of_lt (small on),decide_eq_true_eq]
  omega

theorem scanBytes_ascii (ascii : c.toNat < 128) (proper : r.Proper) (positive : 0 < d)
    (small : InRange checks d) (open' : r = .code → c = '\x7d' → d ≠ 1) (kept : Reading.Kept checks c d r) :
    scanBytes checks (byte c :: rest) j (Int32.ofNat d) (r.inStr.map byte) r.escape =
      scanBytes checks rest (j + 1) (Int32.ofNat (r.depth c d)) ((r.next c).inStr.map byte) (r.next c).escape := by
  cases r with
  | code =>
    simp only [Reading.inStr,Reading.escape,Option.map_none,scanBytes,byte_isQuote ascii,byte_open ascii,
      byte_close ascii]
    by_cases quote : Reading.isQuote c
    · rw [Reading.next_quote quote]
      rcases quote with rfl | rfl | rfl <;> rfl
    · rw [Reading.next_plain quote,if_neg quote]
      by_cases opens : c = '\x7b'
      · subst opens
        rw [if_pos rfl,count_open small kept.range]
        rfl
      · rw [if_neg opens]
        by_cases closes : c = '\x7d'
        · subst closes
          have less : Reading.depth .code '\x7d' d = d - 1 := rfl
          have deeper := open' rfl rfl
          have nonzero : Int32.ofNat (d - 1) ≠ 0 := by
            rw [ne_eq,Overflow.ofNat_eq_zero]
            cases on : checks with
            | false => exact kept.away on rfl rfl
            | true =>
              have := small on
              omega
          rw [if_pos rfl,count_close positive small]
          dsimp only
          rw [if_neg nonzero,less]
          rfl
        · have same : Reading.depth .code c d = d := by rw [Reading.depth,if_neg opens,if_neg closes]
          rw [if_neg closes,same]
          rfl
  | quoted s =>
    have same := byte_inj ascii (Reading.isQuote_ascii (proper s rfl))
    simp only [Reading.inStr,Reading.escape,Option.map_some,scanBytes,Reading.next,Reading.depth,Bool.false_eq_true,
      if_false,byte_slash ascii,same]
    by_cases slash : c = '\x5c'
    · simp [slash]
    · by_cases same : c = s
      · subst same
        simp [slash]
      · simp [slash,same]
  | escaped s => simp [Reading.inStr,Reading.escape,scanBytes,Reading.next,Reading.depth]

/-- Bytes that are not ASCII leave the scanner as it is, but for a backslash before them. -/
theorem scanBytes_high {bytes : List UInt8} (high : ∀ b ∈ bytes, 128 ≤ b.toNat) (proper : r.Proper)
    (plain : r.escape = false) (depth : Int32) :
    scanBytes checks (bytes ++ rest) j depth (r.inStr.map byte) false =
      scanBytes checks rest (j + bytes.length) depth (r.inStr.map byte) false := by
  induction bytes generalizing j with
  | nil => rfl
  | cons b bytes ih =>
    have above := high b (List.mem_cons_self ..)
    have ne : ∀ k : UInt8, k.toNat < 128 → b ≠ k := by
      rintro k low rfl
      omega
    have later := ih (j := j + 1) fun b member => high b (List.mem_cons_of_mem _ member)
    rw [Nat.add_assoc,Nat.add_comm 1] at later
    rw [List.cons_append,List.length_cons,← later]
    cases r with
    | code =>
      have quote : ¬ (b = 0x22 ∨ b = 0x27 ∨ b = 0x60) := by
        rintro (same | same | same) <;> exact ne _ (by decide) same
      simp only [Reading.inStr,Option.map_none,scanBytes]
      rw [if_neg quote,if_neg (ne _ (by decide)),if_neg (ne _ (by decide))]
    | quoted s =>
      have own : (byte s).toNat < 128 := by
        have ascii := Reading.isQuote_ascii (proper s rfl)
        rw [byte_toNat ascii]
        exact ascii
      simp only [Reading.inStr,Option.map_some,scanBytes]
      rw [if_neg (ne _ (by decide)),if_neg (ne _ own)]
      rfl
    | escaped s => cases plain

/-- A character that is not ASCII does not stand in code or a string but for itself. -/
theorem Reading.next_high (high : 128 ≤ c.toNat) (proper : r.Proper) :
    (r.next c).escape = false ∧ (r.next c).inStr = r.inStr ∧ r.depth c d = d := by
  have ne : ∀ k : Char, k.toNat < 128 → c ≠ k := by
    rintro k low rfl
    omega
  cases r with
  | code =>
    have plain : ¬ isQuote c := fun quote => absurd (isQuote_ascii quote) (Nat.not_lt.mpr high)
    rw [next_plain plain]
    refine ⟨rfl,rfl,?_⟩
    simp [depth,ne '\x7b' (by decide),ne '\x7d' (by decide)]
  | quoted s =>
    have own : c ≠ s := ne s (isQuote_ascii (proper s rfl))
    simp [next,ne '\x5c' (by decide),own,escape,inStr,depth]
  | escaped s => exact ⟨rfl,rfl,rfl⟩

theorem scanBytes_step (proper : r.Proper) (positive : 0 < d) (small : InRange checks d)
    (open' : r = .code → c = '\x7d' → d ≠ 1) (kept : Reading.Kept checks c d r) :
    scanBytes checks (String.utf8EncodeChar c ++ rest) j (Int32.ofNat d) (r.inStr.map byte) r.escape =
      scanBytes checks rest (j + c.utf8Size) (Int32.ofNat (r.depth c d)) ((r.next c).inStr.map byte)
        (r.next c).escape := by
  by_cases ascii : c.toNat < 128
  · rw [← String.length_utf8EncodeChar,encode_ascii ascii]
    exact scanBytes_ascii ascii proper positive small open' kept
  · have high : 128 ≤ c.toNat := Nat.not_lt.mp ascii
    obtain ⟨plain,same,kept⟩ := Reading.next_high (d := d) high proper
    have all : ∀ b ∈ String.utf8EncodeChar c, 128 ≤ b.toNat := fun b member => encode_high high member
    rw [plain,same,kept,← String.length_utf8EncodeChar]
    cases r with
    | code => exact scanBytes_high all proper rfl _
    | quoted s => exact scanBytes_high all proper rfl _
    | escaped s =>
      -- The first byte takes back the escape; the others are bytes of the string.
      have unescaped : (Reading.quoted s).Proper := proper
      obtain ⟨b,later,bytes⟩ := exists_head c
      rw [bytes] at all ⊢
      refine Eq.trans ?_ (scanBytes_high all unescaped rfl _)
      have own : (byte s).toNat < 128 := by
        have ascii := Reading.isQuote_ascii (proper s rfl)
        rw [byte_toNat ascii]
        exact ascii
      have above := all b (List.mem_cons_self ..)
      have slash : b ≠ 0x5C := by
        rintro rfl
        exact absurd above (by decide)
      have quote : b ≠ byte s := by
        rintro rfl
        omega
      simp [Reading.inStr,Reading.escape,scanBytes,slash,quote]

/-- The bytes of a script are scanned to its end while the counter keeps count. -/
theorem scanBytes_reads {rest : List Char} (reads : Reads d r text e q) (proper : r.Proper) (positive : 0 < d)
    (small : InRange checks d) (counts : Reading.Counts checks (text ++ rest) d r) (j : Nat) :
    scanBytes checks (encode (text ++ rest)) j (Int32.ofNat d) (r.inStr.map byte) r.escape =
      scanBytes checks (encode rest) (j + size text) (Int32.ofNat e) (q.inStr.map byte) q.escape ∧
    InRange checks e ∧ Reading.Counts checks rest e q := by
  induction reads generalizing j with
  | nil => exact ⟨rfl,small,counts⟩
  | @cons r c d text e q open' reads ih =>
    obtain ⟨kept,later⟩ := counts.resolve_left fun closes => open' closes.1 closes.2.1 closes.2.2
    obtain ⟨same,fits,held⟩ := ih (proper.next _) (Reading.depth_pos positive open') kept.range later
      (j + c.utf8Size)
    rw [List.cons_append,encode_cons,scanBytes_step proper positive small open' kept,same,size_cons,Nat.add_assoc]
    exact ⟨rfl,fits,held⟩

theorem inRange_one (checks : Bool) : InRange checks 1 := fun _ => by decide

/-- The brace that brings the counter to zero closes the segment. -/
theorem scanBytes_brace (positive : 0 < d) (small : InRange checks d) (zero : (d - 1) % 2 ^ 32 = 0)
    (after : List Char) (j : Nat) :
    scanBytes checks (encode ('\x7d' :: after)) j (Int32.ofNat d) none false = .closed j := by
  have brace : byte '\x7d' = 0x7D := rfl
  rw [encode_cons,encode_ascii (by decide)]
  simp only [List.cons_append,brace,scanBytes]
  rw [if_neg (by decide),if_neg (by decide),if_pos trivial,count_close positive small]
  dsimp only
  rw [if_pos (Overflow.ofNat_eq_zero.mpr zero)]

theorem scanBytes_closed (reads : Reads 1 .code text 1 .code) (after : List Char)
    (counts : Reading.Counts checks (text ++ '\x7d' :: after) 1 .code) (j : Nat) :
    scanBytes checks (encode (text ++ '\x7d' :: after)) j 1 none false = .closed (j + size text) := by
  have inside := (scanBytes_reads reads Reading.proper_code Nat.one_pos (inRange_one checks) counts j).1
  exact inside.trans (scanBytes_brace Nat.one_pos (inRange_one checks) rfl after _)

theorem scanBytes_open (reads : Reads 1 .code text e q) (counts : Reading.Counts checks text 1 .code) (j : Nat) :
    ∃ depth, depth ≠ 0 ∧ scanBytes checks (encode text) j 1 none false = .ended depth := by
  rw [← List.append_nil text] at counts ⊢
  obtain ⟨whole,fits,ends⟩ :=
    scanBytes_reads reads Reading.proper_code Nat.one_pos (inRange_one checks) counts j
  refine ⟨Int32.ofNat e,?_,whole.trans ?_⟩
  · rw [ne_eq,Overflow.ofNat_eq_zero]
    cases on : checks with
    | false => exact ends on
    | true =>
      have := fits on
      have := reads.pos Nat.one_pos
      omega
  · cases q <;> rfl

/-- One more brace than the counter holds: a build with overflow checks panics. -/
theorem scanBytes_overflows (small : d < 2 ^ 31) (beyond : 2 ^ 31 ≤ d + 1) (after : List Char) (j : Nat) :
    scanBytes true (encode ('\x7b' :: after)) j (Int32.ofNat d) none false = .panicked := by
  have refused : decide ((Int32.ofNat d).toInt + 1 < 2 ^ 31) = false := by
    rw [Int32.toInt_ofNat_of_lt small,decide_eq_false_iff_not]
    omega
  have brace : byte '\x7b' = 0x7B := rfl
  rw [encode_cons,encode_ascii (by decide)]
  simp only [List.cons_append,brace,scanBytes]
  rw [if_neg (by decide),if_pos trivial,refused]
  rfl

/-- Where the counter does not keep count, it overflows, or is zero at the end of the text, or closes the
segment at a brace that does not. -/
theorem scanBytes_slips (proper : r.Proper) (positive : 0 < d) (small : InRange checks d)
    (slips : ¬ Reading.Counts checks text d r) (j : Nat) :
    let scanned := scanBytes checks (encode text) j (Int32.ofNat d) (r.inStr.map byte) r.escape
    scanned = .panicked ∨ scanned = .ended 0 ∨
      ∃ before after e, text = before ++ '\x7d' :: after ∧ Reads d r before e .code ∧ e ≠ 1 ∧
        scanned = .closed (j + size before) := by
  induction text generalizing d r j with
  | nil =>
    simp only [Reading.Counts,not_forall,not_not] at slips
    obtain ⟨_,zero⟩ := slips
    rw [Overflow.ofNat_eq_zero.mpr zero]
    exact .inr (.inl (by cases r <;> rfl))
  | cons c rest ih =>
    obtain ⟨open',other⟩ := not_or.mp slips
    have open' : r = .code → c = '\x7d' → d ≠ 1 := fun code brace one => open' ⟨code,brace,one⟩
    by_cases kept : Reading.Kept checks c d r
    · have later := ih (proper.next c) (Reading.depth_pos positive open') kept.range
        (fun counts => other ⟨kept,counts⟩) (j + c.utf8Size)
      rw [encode_cons,scanBytes_step proper positive small open' kept]
      obtain panics | ended | ⟨before,after,e,rfl,reads,deeper,closed⟩ := later
      · exact .inl panics
      · exact .inr (.inl ended)
      · refine .inr (.inr ⟨c :: before,after,e,rfl,.cons open' reads,deeper,closed.trans ?_⟩)
        rw [size_cons,Nat.add_assoc]
    · have moved : r = .code ∧ (c = '\x7b' ∨ c = '\x7d') := by
        by_contra level
        refine kept ⟨?_,fun _ code brace => absurd ⟨code,.inr brace⟩ level⟩
        intro on
        refine lt_of_le_of_lt ?_ (small on)
        cases r with
        | code =>
          obtain ⟨left,right⟩ := not_or.mp fun either => level ⟨rfl,either⟩
          rw [Reading.depth,if_neg left,if_neg right]
        | quoted => exact Nat.le_refl d
        | escaped => exact Nat.le_refl d
      obtain ⟨rfl,rfl | rfl⟩ := moved
      · -- One more brace than the counter holds.
        have opened : Reading.depth .code '\x7b' d = d + 1 := rfl
        have refused : checks = true ∧ 2 ^ 31 ≤ d + 1 := by
          by_contra fits
          refine kept ⟨fun on => ?_,fun _ _ brace => absurd brace (by decide)⟩
          rw [opened]
          by_contra above
          exact fits ⟨on,Nat.not_lt.mp above⟩
        obtain ⟨rfl,refused⟩ := refused
        exact .inl (scanBytes_overflows (small rfl) refused rest j)
      · have closed : Reading.depth .code '\x7d' d = d - 1 := rfl
        have back : (d - 1) % 2 ^ 32 = 0 := by
          by_contra away
          refine kept ⟨fun on => ?_,fun _ _ _ => away⟩
          have := small on
          rw [closed]
          omega
        exact .inr (.inr ⟨[],rest,d,rfl,.nil,open' rfl rfl,scanBytes_brace positive small back rest j⟩)

end Bytes

section Loop
open Utf8
variable {checks : Bool} {s : String} {before after inner : List Char} {c : Char} {fuel i e : Nat} {q : Reading}
  {out segments : List Segment}

theorem getElem?_behind (split : s.toList = before ++ after) (k : Nat) :
    (bytesOf s)[size before + k]? = (encode after)[k]? := by
  rw [bytesOf_eq,split,encode_append,
    List.getElem?_append_right (show (encode before).length ≤ size before + k from Nat.le_add_right _ _)]
  exact congrArg ((encode after)[·]?) (Nat.add_sub_cancel_left _ _)

theorem drop_behind (split : s.toList = before ++ after) (k : Nat) :
    (bytesOf s).drop (size before + k) = (encode after).drop k := by
  rw [bytesOf_eq,split,encode_append,← List.drop_drop]
  exact congrArg (List.drop k) List.drop_left

theorem segmentsLoop_done (last : (bytesOf s)[i + 1]? = none) : segmentsLoop checks s (fuel + 1) i out = some out := by
  rw [segmentsLoop,last]
  cases (bytesOf s)[i]? <;> rfl

/-- Rounds at which no segment opens move on by a byte each. -/
theorem segmentsLoop_skip (k : Nat)
    (plain : ∀ m < k, ¬ ((bytesOf s)[i + m]? = some 0x24 ∧ (bytesOf s)[i + m + 1]? = some 0x7B)) :
    segmentsLoop checks s (fuel + 1 + k) i out = segmentsLoop checks s (fuel + 1) (i + k) out := by
  induction k generalizing i with
  | zero => rfl
  | succ k ih =>
    have here := plain 0 (Nat.succ_pos k)
    have later := ih (i := i + 1) fun m below => by
      have one := plain (m + 1) (Nat.succ_lt_succ below)
      rwa [show i + (m + 1) = i + 1 + m by omega] at one
    rw [show i + (k + 1) = i + 1 + k by omega,← later,show fuel + 1 + (k + 1) = fuel + 1 + k + 1 by omega]
    rw [Nat.add_zero] at here
    cases second : (bytesOf s)[i + 1]? with
    | none =>
      have behind : (bytesOf s)[i + 1 + 1]? = none :=
        List.getElem?_eq_none (Nat.le_succ_of_le (List.getElem?_eq_none_iff.mp second))
      rw [segmentsLoop_done second,show fuel + 1 + k = fuel + k + 1 by omega,segmentsLoop_done behind]
    | some next =>
      have inside : i < (bytesOf s).length := by
        have := (List.getElem?_eq_some_iff.mp second).1
        omega
      have first : (bytesOf s)[i]? = some (bytesOf s)[i] := List.getElem?_eq_getElem inside
      have other : ¬ ((bytesOf s)[i] = 0x24 ∧ next = 0x7B) := by
        intro both
        exact here ⟨by rw [first,both.1],by rw [second,both.2]⟩
      rw [segmentsLoop,first,second]
      exact if_neg other

/-- A character that opens no segment is passed over byte by byte. -/
theorem segmentsLoop_char (split : s.toList = before ++ c :: after)
    (plain : c = '$' → ∀ rest, after ≠ '\x7b' :: rest) :
    segmentsLoop checks s (fuel + 1 + c.utf8Size) (size before) out =
      segmentsLoop checks s (fuel + 1) (size before + c.utf8Size) out := by
  apply segmentsLoop_skip
  rintro m below ⟨dollar,brace⟩
  rw [getElem?_behind split,encode_cons] at dollar
  rw [Nat.add_assoc,getElem?_behind split,encode_cons] at brace
  by_cases ascii : c.toNat < 128
  · have one : c.utf8Size = 1 := by
      rw [← String.length_utf8EncodeChar,encode_ascii ascii]
      rfl
    obtain rfl : m = 0 := by omega
    rw [encode_ascii ascii] at dollar brace
    have same : c = '$' := (byte_inj (d := '$') ascii (by decide)).mp (Option.some.inj dollar)
    cases after with
    | nil => cases brace
    | cons d rest =>
      obtain ⟨ascii,byte⟩ := @encode_head d rest _ brace (by decide)
      obtain rfl : d = '\x7b' := (byte_open ascii).mp byte.symm
      exact plain same rest rfl
  · have inside : m < (String.utf8EncodeChar c).length := by rwa [String.length_utf8EncodeChar]
    rw [List.getElem?_append_left inside] at dollar
    have high := encode_high (Nat.not_lt.mp ascii) (List.mem_of_getElem? dollar)
    exact absurd high (by decide)

theorem encode_opening (after : List Char) : encode ('$' :: '\x7b' :: after) = 0x24 :: 0x7B :: encode after := by
  rw [encode_cons,encode_cons,encode_ascii (by decide),encode_ascii (by decide)]
  rfl

/-- The round at a `${`. -/
theorem segmentsLoop_opening (split : s.toList = before ++ '$' :: '\x7b' :: after) :
    segmentsLoop checks s (fuel + 1) (size before) out =
      match scanBytes checks (encode after) (size before + 2) 1 none false with
      | .panicked => none
      | .closed j =>
        match slice s (size before + 2) j with
        | some inner => segmentsLoop checks s fuel (j + 1) (out ++ [{ start := size before, stop := j + 1, inner }])
        | none => none
      | .ended depth => segmentsLoop checks s fuel (if depth ≠ 0 then size before + 1 else size before) out := by
  have first : (bytesOf s)[size before]? = some 0x24 := by
    have byte := getElem?_behind split 0
    rwa [encode_opening] at byte
  have second : (bytesOf s)[size before + 1]? = some 0x7B := by
    have byte := getElem?_behind split 1
    rwa [encode_opening] at byte
  have behind : (bytesOf s).drop (size before + 2) = encode after := by
    have bytes := drop_behind split 2
    rwa [encode_opening] at bytes
  rw [segmentsLoop,first,second]
  dsimp only
  rw [if_pos ⟨rfl,rfl⟩,behind]

theorem segmentsFrom_char (plain : c = '$' → ∀ rest, after ≠ '\x7b' :: rest) (n offset : Nat) :
    segmentsFrom (n + 1) offset (c :: after) = segmentsFrom n (offset + c.utf8Size) after := by
  rw [segmentsFrom.eq_def]
  split
  · rename_i size
    cases size
  · rename_i size same
    obtain ⟨rfl,brace⟩ := List.cons.inj same
    exact absurd brace (plain rfl _)
  · rename_i size same
    obtain ⟨rfl,rfl⟩ := List.cons.inj same
    cases size
    rfl
  · rename_i same
    cases same

theorem segmentsFrom_nil (n offset : Nat) : segmentsFrom n offset [] = [] := by
  cases n <;> rfl

theorem segmentsFrom_open (reads : Reads 1 .code after e q) (n offset : Nat) :
    segmentsFrom (n + 1) offset ('$' :: '\x7b' :: after) = segmentsFrom n (offset + 1) ('\x7b' :: after) := by
  rw [segmentsFrom,scanScript_open reads]

theorem segmentsFrom_closed (reads : Reads 1 .code inner 1 .code) (n offset : Nat) :
    segmentsFrom (n + 1) offset ('$' :: '\x7b' :: (inner ++ '\x7d' :: after)) =
      { start := offset, stop := offset + 3 + size inner, inner := String.ofList inner } ::
        segmentsFrom n (offset + 3 + size inner) after := by
  rw [segmentsFrom,scanScript_closed reads]
  simp only [utf8ByteSize_ofList]

theorem countsAll_char (plain : c = '$' → ∀ rest, after ≠ '\x7b' :: rest) (n : Nat) :
    Reading.CountsAll checks (n + 1) (c :: after) ↔ Reading.CountsAll checks n after := by
  rw [Reading.CountsAll.eq_def]
  split
  · rename_i size
    cases size
  · rename_i size same
    obtain ⟨rfl,brace⟩ := List.cons.inj same
    exact absurd brace (plain rfl _)
  · rename_i size same
    obtain ⟨rfl,rfl⟩ := List.cons.inj same
    cases size
    rfl
  · rename_i same
    cases same

theorem countsAll_open (reads : Reads 1 .code after e q) (n : Nat) :
    Reading.CountsAll checks (n + 1) ('$' :: '\x7b' :: after) ↔
      Reading.Counts checks after 1 .code ∧ Reading.CountsAll checks n ('\x7b' :: after) := by
  rw [Reading.CountsAll,scanScript_open reads]

theorem countsAll_closed (reads : Reads 1 .code inner 1 .code) (n : Nat) :
    Reading.CountsAll checks (n + 1) ('$' :: '\x7b' :: (inner ++ '\x7d' :: after)) ↔
      Reading.Counts checks (inner ++ '\x7d' :: after) 1 .code ∧ Reading.CountsAll checks n after := by
  rw [Reading.CountsAll,scanScript_closed reads]

/-- A segment between the brace behind a prefix and a later one. -/
theorem slice_inner (split : s.toList = before ++ '$' :: '\x7b' :: (inner ++ '\x7d' :: after)) :
    slice s (size before + 2) (size before + 2 + size inner) = some (String.ofList inner) := by
  have start : size (before ++ ['$','\x7b']) = size before + 2 := by rw [size_append]; rfl
  rw [← start]
  exact @slice_eq s (before ++ ['$','\x7b']) inner ('\x7d' :: after) (by simpa using split)

/-- A segment is longer than its inner text by its three marks. -/
theorem size_segment (before inner : List Char) :
    size (before ++ '$' :: '\x7b' :: inner ++ ['\x7d']) = size before + 2 + size inner + 1 := by
  have dollar : ('$' : Char).utf8Size = 1 := rfl
  have brace : ('\x7b' : Char).utf8Size = 1 := rfl
  have closing : ('\x7d' : Char).utf8Size = 1 := rfl
  rw [size_snoc,size_append,size_cons,size_cons]
  omega

/-- The loops over bytes find what the loops over characters find, while the counter keeps count. -/
theorem segmentsLoop_eq (s : String) (n : Nat) (before after : List Char) (split : s.toList = before ++ after)
    (counts : Reading.CountsAll checks n after) (fuel : Nat) (enough : size after < fuel)
    (bound : after.length ≤ n) (out : List Segment) :
    segmentsLoop checks s fuel (size before) out = some (out ++ segmentsFrom n (size before) after) := by
  have dollar : ('$' : Char).utf8Size = 1 := rfl
  have brace : ('\x7b' : Char).utf8Size = 1 := rfl
  have closing : ('\x7d' : Char).utf8Size = 1 := rfl
  induction n generalizing before after fuel out with
  | zero =>
    obtain rfl := List.length_eq_zero_iff.mp (Nat.le_zero.mp bound)
    obtain ⟨fuel,rfl⟩ := Nat.exists_eq_add_of_lt enough
    rw [segmentsLoop_done (getElem?_behind split 1),segmentsFrom_nil,List.append_nil]
  | succ n ih =>
    cases after with
    | nil =>
      obtain ⟨fuel,rfl⟩ := Nat.exists_eq_add_of_lt enough
      rw [segmentsLoop_done (getElem?_behind split 1),segmentsFrom_nil,List.append_nil]
    | cons c rest =>
      have shorter : rest.length ≤ n := Nat.le_of_succ_le_succ bound
      rw [size_cons] at enough
      by_cases opening : c = '$' ∧ ∃ tail, rest = '\x7b' :: tail
      · obtain ⟨rfl,tail,rfl⟩ := opening
        obtain ⟨fuel,rfl⟩ : ∃ k, fuel = k + 1 := ⟨fuel - 1,by omega⟩
        rw [size_cons,dollar,brace] at enough
        rw [segmentsLoop_opening split]
        obtain ⟨e,q,reads⟩ | ⟨inner,after,rfl,reads⟩ := reads_or_closes tail 1 .code
        · obtain ⟨here,later⟩ := (countsAll_open reads n).mp counts
          obtain ⟨depth,open',ended⟩ := scanBytes_open reads here (size before + 2)
          have next := ih (before ++ ['$']) ('\x7b' :: tail) (by simpa using split) later fuel
            (by rw [size_cons,brace]; omega) shorter out
          rw [size_snoc,dollar] at next
          rw [ended,segmentsFrom_open reads]
          simpa [open'] using next
        · obtain ⟨here,later⟩ := (countsAll_closed reads n).mp counts
          have sizes : size (inner ++ '\x7d' :: after) = size inner + (1 + size after) := by
            rw [size_append,size_cons,closing]
          have next := ih (before ++ '$' :: '\x7b' :: inner ++ ['\x7d']) after (by simpa using split) later fuel
            (by omega) (by simp at shorter; omega)
            (out ++ [{ start := size before, stop := size before + 2 + size inner + 1, inner := String.ofList inner }])
          rw [size_segment] at next
          rw [scanBytes_closed reads _ here,segmentsFrom_closed reads]
          dsimp only
          rw [slice_inner split]
          dsimp only
          have same : size before + 2 + size inner + 1 = size before + 3 + size inner := by omega
          rw [same] at next ⊢
          rw [next,List.append_assoc]
          rfl
      · have plain : c = '$' → ∀ tail, rest ≠ '\x7b' :: tail := fun same tail brace => opening ⟨same,tail,brace⟩
        obtain ⟨k,rfl⟩ : ∃ k, fuel = k + 1 + c.utf8Size := ⟨fuel - 1 - c.utf8Size,by omega⟩
        have next := ih (before ++ [c]) rest (by simpa using split) ((countsAll_char plain n).mp counts) (k + 1)
          (by omega) shorter out
        rw [size_snoc] at next
        rw [segmentsLoop_char split plain,next,segmentsFrom_char plain]

/-- A round panics, is the last, or goes on from another byte with more segments. -/
theorem segmentsLoop_round (checks : Bool) (s : String) (i : Nat) :
    (∀ fuel out, segmentsLoop checks s (fuel + 1) i out = none) ∨
    (∀ fuel out, segmentsLoop checks s (fuel + 1) i out = some out) ∨
    ∃ k new, ∀ fuel out, segmentsLoop checks s (fuel + 1) i out = segmentsLoop checks s fuel k (out ++ new) := by
  cases first : (bytesOf s)[i]? with
  | none => exact .inr (.inl fun fuel out => by rw [segmentsLoop,first])
  | some b =>
    cases second : (bytesOf s)[i + 1]? with
    | none => exact .inr (.inl fun fuel out => by rw [segmentsLoop,first,second])
    | some next =>
      simp only [segmentsLoop,first,second]
      by_cases opens : b = 0x24 ∧ next = 0x7B
      · simp only [if_pos opens]
        cases scanBytes checks ((bytesOf s).drop (i + 2)) (i + 2) 1 none false with
        | panicked => exact .inl fun _ _ => rfl
        | ended depth => exact .inr (.inr ⟨_,[],fun _ out => by rw [List.append_nil]⟩)
        | closed j =>
          dsimp only
          cases slice s (i + 2) j with
          | none => exact .inl fun _ _ => rfl
          | some inner => exact .inr (.inr ⟨_,_,fun _ _ => rfl⟩)
      · simp only [if_neg opens]
        exact .inr (.inr ⟨_,[],fun _ out => by rw [List.append_nil]⟩)

/-- More rounds change nothing once the loop has ended. -/
theorem segmentsLoop_more (found : segmentsLoop checks s fuel i out = some segments) (k : Nat) :
    segmentsLoop checks s (fuel + k) i out = some segments := by
  induction fuel generalizing i out with
  | zero => cases found
  | succ fuel ih =>
    rw [Nat.add_right_comm]
    obtain panics | last | ⟨next,new,goes⟩ := segmentsLoop_round checks s i
    · rw [panics] at found
      cases found
    · rwa [last] at found ⊢
    · rw [goes] at found ⊢
      exact ih found

/-- Segments that are found are kept. -/
theorem segmentsLoop_keeps (found : segmentsLoop checks s fuel i out = some segments) : out <+: segments := by
  induction fuel generalizing i out with
  | zero => cases found
  | succ fuel ih =>
    obtain panics | last | ⟨next,new,goes⟩ := segmentsLoop_round checks s i
    · rw [panics] at found
      cases found
    · rw [last] at found
      cases found
      exact List.prefix_refl _
    · rw [goes] at found
      exact (List.prefix_append out new).trans (ih found)

/-- A round that ends at depth zero is made for ever. -/
theorem segmentsLoop_stuck (split : s.toList = before ++ '$' :: '\x7b' :: after)
    (ended : scanBytes checks (encode after) (size before + 2) 1 none false = .ended 0) (fuel : Nat) :
    segmentsLoop checks s fuel (size before) out = none := by
  induction fuel with
  | zero => rfl
  | succ fuel ih =>
    rw [segmentsLoop_opening split,ended]
    exact ih

/-- Where the counter does not keep count the loop does not return, or a segment ends at a brace that does
not close it. -/
theorem segmentsLoop_slips (s : String) (n : Nat) (before after : List Char) (split : s.toList = before ++ after)
    (bound : after.length ≤ n) (slips : ¬ Reading.CountsAll checks n after)
    (found : segmentsLoop checks s fuel (size before) out = some segments) :
    ∃ g ∈ segments, ∃ e, e ≠ 1 ∧ Reads 1 .code g.inner.toList e .code := by
  induction n generalizing before after fuel out with
  | zero => exact absurd trivial slips
  | succ n ih =>
    cases after with
    | nil => exact absurd trivial slips
    | cons c rest =>
      have shorter : rest.length ≤ n := Nat.le_of_succ_le_succ bound
      by_cases opening : c = '$' ∧ ∃ tail, rest = '\x7b' :: tail
      · obtain ⟨rfl,tail,rfl⟩ := opening
        cases fuel with
        | zero => cases found
        | succ fuel =>
          by_cases here : Reading.Counts checks tail 1 .code
          · rw [segmentsLoop_opening split] at found
            obtain ⟨e,q,reads⟩ | ⟨inner,after,rfl,reads⟩ := reads_or_closes tail 1 .code
            · obtain ⟨depth,open',ended⟩ := scanBytes_open reads here (size before + 2)
              rw [ended] at found
              have start : size (before ++ ['$']) = size before + 1 := by rw [size_snoc]; rfl
              have found : segmentsLoop checks s fuel (size (before ++ ['$'])) out = some segments := by
                rw [start]
                simpa [open'] using found
              exact ih (before ++ ['$']) ('\x7b' :: tail) (by simpa using split) shorter
                (fun later => slips ((countsAll_open reads n).mpr ⟨here,later⟩)) found
            · rw [scanBytes_closed reads _ here] at found
              dsimp only at found
              rw [slice_inner split] at found
              dsimp only at found
              rw [← size_segment] at found
              refine ih _ after (by simpa using split) (by simp at shorter; omega)
                (fun later => slips ((countsAll_closed reads n).mpr ⟨here,later⟩)) found
          · obtain panicked | ended | ⟨inner,after,e,rfl,reads,deeper,closed⟩ :=
              scanBytes_slips Reading.proper_code Nat.one_pos (inRange_one checks) here (size before + 2)
            · have panicked : scanBytes checks (encode tail) (size before + 2) 1 none false = .panicked := panicked
              rw [segmentsLoop_opening split,panicked] at found
              cases found
            · rw [segmentsLoop_stuck split ended] at found
              cases found
            · have closed : scanBytes checks (encode (inner ++ '\x7d' :: after)) (size before + 2) 1 none false =
                  .closed (size before + 2 + size inner) := closed
              rw [segmentsLoop_opening split,closed] at found
              dsimp only at found
              rw [slice_inner split] at found
              refine ⟨_,(segmentsLoop_keeps found).subset (List.mem_append_right _ List.mem_cons_self),e,deeper,?_⟩
              rwa [String.toList_ofList]
      · have plain : c = '$' → ∀ tail, rest ≠ '\x7b' :: tail := fun same tail brace => opening ⟨same,tail,brace⟩
        have more := segmentsLoop_more found (1 + c.utf8Size)
        rw [← Nat.add_assoc,segmentsLoop_char split plain,← size_snoc] at more
        exact ih (before ++ [c]) rest (by simpa using split) shorter
          (fun later => slips ((countsAll_char plain n).mpr later)) more

/-- While the counter keeps count the segments are found by characters. -/
theorem findsScriptSegments_of_counts (s : String) (counts : Reading.CountsAll checks s.toList.length s.toList) :
    FindsScriptSegments checks s (findScriptSegments s) :=
  ⟨_,segmentsLoop_eq s s.toList.length [] s.toList rfl counts _ (Nat.lt_succ_self _) (Nat.le_refl _) []⟩

end Loop

section Short
variable {checks : Bool}

/-- A script that is shorter than `2 ^ 31` characters is counted. -/
theorem counts_of_short {r : Reading} (positive : 0 < d) (short : d + text.length < 2 ^ 31) :
    Reading.Counts checks text d r := by
  induction text generalizing d r with
  | nil =>
    intro _
    rw [List.length_nil] at short
    omega
  | cons c rest ih =>
    rw [List.length_cons] at short
    by_cases closes : r = .code ∧ c = '\x7d' ∧ d = 1
    · exact .inl closes
    · have positive' := Reading.depth_pos (c := c) positive fun code brace one => closes ⟨code,brace,one⟩
      have grows : r.depth c d ≤ d + 1 := by
        cases r with
        | code =>
          rw [Reading.depth]
          split
          · exact Nat.le_refl _
          · split <;> omega
        | quoted => exact Nat.le_succ d
        | escaped => exact Nat.le_succ d
      exact .inr ⟨⟨fun _ => by omega,fun _ _ _ => by omega⟩,ih positive' (by omega)⟩

theorem scanScript_shorter {inner : List Char}
    (scanned : scanScript text depth inStr escape inner = some (script,behind)) :
    behind.length < text.length := by
  induction text generalizing depth inStr escape inner with
  | nil => cases scanned
  | cons c rest ih =>
    rw [List.length_cons,Nat.lt_succ_iff]
    have within : ∀ {depth inStr escape inner}, scanScript rest depth inStr escape inner = some (script,behind) →
        behind.length ≤ rest.length := fun later => Nat.le_of_lt (ih later)
    cases inStr with
    | some quote =>
      rw [scanScript] at scanned
      split at scanned
      · exact within scanned
      · split at scanned
        · exact within scanned
        · split at scanned <;> exact within scanned
    | none =>
      rw [scanScript] at scanned
      split at scanned
      · exact within scanned
      · split at scanned
        · exact within scanned
        · split at scanned
          · split at scanned
            · cases scanned
              exact Nat.le_refl _
            · exact within scanned
          · exact within scanned

theorem countsAll_of_short (fuel : Nat) (short : text.length < 2 ^ 31) : Reading.CountsAll checks fuel text := by
  induction fuel generalizing text with
  | zero => trivial
  | succ fuel ih =>
    rw [Reading.CountsAll.eq_def]
    split
    · trivial
    · rename_i rest size
      cases size
      simp only [List.length_cons] at short
      refine ⟨counts_of_short Nat.one_pos (by omega),?_⟩
      split
      · rename_i scanned
        have := scanScript_shorter scanned
        exact ih (by omega)
      · exact ih (by rw [List.length_cons]; omega)
    · rename_i size
      cases size
      rw [List.length_cons] at short
      exact ih (by omega)
    · trivial

end Short

end Ruuter
