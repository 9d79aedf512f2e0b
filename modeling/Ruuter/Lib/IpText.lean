import Mathlib.Algebra.Group.Nat.Defs

/-! IP addresses as text: the readers and the printers of the standard library of Rust. A reader gives back
what it has not read; one that fails has read nothing. -/
namespace IpText

abbrev Octets := UInt8 × UInt8 × UInt8 × UInt8

/-- `u16::from_be_bytes` -/
def fromBe (high low : UInt8) : UInt16 := UInt16.ofNat (high.toNat * 256 + low.toNat)

section Readers

/-- `char::to_digit` -/
def toDigit (radix : Nat) (c : Char) : Option Nat :=
  let value :=
    if '0' ≤ c ∧ c ≤ '9' then c.toNat - '0'.toNat
    else if 'a' ≤ c ∧ c ≤ 'z' then c.toNat - 'a'.toNat + 10
    else if 'A' ≤ c ∧ c ≤ 'Z' then c.toNat - 'A'.toNat + 10
    else radix
  if value < radix then some value else none

/-- The value and the count of the leading digits. -/
def readDigits (radix value count : Nat) : List Char → Nat × Nat × List Char
  | [] => (value,count,[])
  | c :: rest =>
    match toDigit radix c with
    | some digit => readDigits radix (value * radix + digit) (count + 1) rest
    | none => (value,count,c :: rest)

def readNumber (radix maxDigits : Nat) (allowZeroPrefix : Bool) (text : List Char) : Option (Nat × List Char) :=
  let (value,count,rest) := readDigits radix 0 0 text
  if maxDigits < count ∨ count = 0 then none
  else if !allowZeroPrefix && text.head? == some '0' && decide (1 < count) then none
  else some (value,rest)

def readGiven (target : Char) : List Char → Option (List Char)
  | [] => none
  | c :: rest => if c = target then some rest else none

def readSeparator (separator : Char) (index : Nat) (inner : List Char → Option (α × List Char)) (text : List Char) :
    Option (α × List Char) :=
  if 0 < index then (readGiven separator text).bind inner else inner text

/-- A group of version 4, without octal notation. -/
def readOctet (text : List Char) : Option (UInt8 × List Char) := do
  let (value,rest) ← readNumber 10 3 false text
  if value < 256 then some (UInt8.ofNat value,rest) else none

def readIpv4 (text : List Char) : Option (Octets × List Char) := do
  let (a,text) ← readSeparator '.' 0 readOctet text
  let (b,text) ← readSeparator '.' 1 readOctet text
  let (c,text) ← readSeparator '.' 2 readOctet text
  let (d,text) ← readSeparator '.' 3 readOctet text
  return ((a,b,c,d),text)

def readGroup (text : List Char) : Option (UInt16 × List Char) :=
  (readNumber 16 4 true text).map fun (value,rest) => (UInt16.ofNat value,rest)

/-- The groups up to a place where none can be read, at most as many as are left, and whether the last two
are an address of version 4. -/
def readGroups : (left index : Nat) → List Char → List UInt16 × Bool × List Char
  | 0, _, text => ([],false,text)
  | left + 1, index, text =>
    match if 0 < left then readSeparator ':' index readIpv4 text else none with
    | some ((a,b,c,d),rest) => ([fromBe a b,fromBe c d],true,rest)
    | none =>
      match readSeparator ':' index readGroup text with
      | some (group,rest) =>
        let (groups,embedded,rest) := readGroups left (index + 1) rest
        (group :: groups,embedded,rest)
      | none => ([],false,text)

/-- The address that holds these groups, with zeros behind them. -/
def ofGroups (groups : List UInt16) : Vector UInt16 8 := Vector.ofFn fun i => groups.getD i 0

def readIpv6 (text : List Char) : Option (Vector UInt16 8 × List Char) :=
  let (head,embedded,text) := readGroups 8 0 text
  if head.length = 8 then some (ofGroups head,text)
  else if embedded then none
  else do
    let text ← readGiven ':' text
    let text ← readGiven ':' text
    let (tail,_,rest) := readGroups (8 - (head.length + 1)) 0 text
    return (ofGroups (head ++ List.replicate (8 - (head.length + tail.length)) 0 ++ tail),rest)

end Readers

section Printers

def octetsText : Octets → List Char
  | (a,b,c,d) => Nat.toDigits 10 a.toNat ++ '.' :: (Nat.toDigits 10 b.toNat ++ '.' :: (Nat.toDigits 10 c.toNat ++
      '.' :: Nat.toDigits 10 d.toNat))

/-- `{:x}` -/
def groupText (group : UInt16) : List Char := Nat.toDigits 16 group.toNat

def laterText (groups : List UInt16) : List Char := groups.flatMap fun group => ':' :: groupText group

/-- `fmt_subslice` -/
def groupsText : List UInt16 → List Char
  | [] => []
  | group :: rest => groupText group ++ laterText rest

structure Span where
  start : Nat := 0
  len : Nat := 0

/-- The loop that looks for the first of the longest runs of zeros. -/
def longestZeros : List UInt16 → (index : Nat) → (longest current : Span) → Span
  | [], _, longest, _ => longest
  | group :: rest, index, longest, current =>
    if group = 0 then
      let current : Span := ⟨if current.len = 0 then index else current.start,current.len + 1⟩
      longestZeros rest (index + 1) (if longest.len < current.len then current else longest) current
    else longestZeros rest (index + 1) longest {}

/-- An address of version 6 that no address of version 4 is mapped to. -/
def plainText (groups : List UInt16) : List Char :=
  let zeros := longestZeros groups 0 {} {}
  if 1 < zeros.len then
    groupsText (groups.take zeros.start) ++ ':' :: ':' :: groupsText (groups.drop (zeros.start + zeros.len))
  else groupsText groups

end Printers

section Numbers

/-- A text that goes on with no digit. -/
def Stops (radix : Nat) (rest : List Char) : Prop := ∀ c ∈ rest.head?, toDigit radix c = none

theorem stops_nil : Stops radix [] := fun _ member => nomatch member

theorem stops_cons (none : toDigit radix c = none) : Stops radix (c :: rest) := by
  intro d member
  cases member
  exact none

/-- All leading digits are read. -/
theorem readDigits_append {radix : Nat} {digits rest : List Char} (stops : Stops radix rest)
    (each : ∀ c ∈ digits, (toDigit radix c).isSome = true) (value count : Nat) :
    readDigits radix value count (digits ++ rest) =
      (digits.foldl (fun value c => value * radix + (toDigit radix c).getD 0) value,count + digits.length,rest) := by
  induction digits generalizing value count with
  | nil =>
    cases rest with
    | nil => rfl
    | cons c rest =>
      have none := stops c rfl
      simp [readDigits,none]
  | cons c digits ih =>
    obtain ⟨digit,first⟩ := Option.isSome_iff_exists.mp (each c List.mem_cons_self)
    simp only [List.cons_append,readDigits,first,ih (fun d member => each d (List.mem_cons_of_mem _ member)),
      List.foldl_cons,Option.getD_some,List.length_cons,Prod.mk.injEq,true_and,and_true]
    omega

theorem head?_toDigits (radix n : Nat) (rest : List Char) :
    (Nat.toDigits radix n ++ rest).head? = (Nat.toDigits radix n).head? := by
  cases written : Nat.toDigits radix n with
  | nil => exact absurd written Nat.toDigits_ne_nil
  | cons c later => rfl

variable {radix : Nat} (base : 1 < radix) (digit : ∀ d < radix, toDigit radix (Nat.digitChar d) = some d)

include base digit

theorem toDigits_digits (n : Nat) : ∀ c ∈ Nat.toDigits radix n, (toDigit radix c).isSome = true := by
  induction n using Nat.strongRecOn with
  | _ n ih =>
    intro c member
    rw [Nat.toDigits_eq_if base] at member
    split at member
    · rename_i small
      rw [List.mem_singleton.mp member,digit n small]
      rfl
    · rename_i large
      rcases List.mem_append.mp member with member | member
      · exact ih (n / radix) (Nat.div_lt_self (by omega) base) c member
      · rw [List.mem_singleton.mp member,digit _ (Nat.mod_lt n (by omega))]
        rfl

theorem foldl_toDigits (n : Nat) :
    (Nat.toDigits radix n).foldl (fun value c => value * radix + (toDigit radix c).getD 0) 0 = n := by
  induction n using Nat.strongRecOn with
  | _ n ih =>
    rw [Nat.toDigits_eq_if base]
    split
    · rename_i small
      rw [List.foldl_cons,List.foldl_nil,digit n small,Option.getD_some,Nat.zero_mul,Nat.zero_add]
    · rw [List.foldl_append,ih (n / radix) (Nat.div_lt_self (by omega) base),List.foldl_cons,List.foldl_nil,
        digit _ (Nat.mod_lt n (by omega)),Option.getD_some,Nat.mul_comm]
      exact Nat.div_add_mod n radix

/-- Only the number 0 is written with a 0 in front. -/
theorem head_toDigits (n : Nat) (positive : 0 < n) : (Nat.toDigits radix n).head? ≠ some '0' := by
  induction n using Nat.strongRecOn with
  | _ n ih =>
    rw [Nat.toDigits_eq_if base]
    split
    · rename_i small
      intro zero
      have value := digit n small
      rw [Option.some.inj zero] at value
      have none := digit 0 (by omega)
      rw [show Nat.digitChar 0 = '0' from rfl,value] at none
      exact absurd (Option.some.inj none) (by omega)
    · rename_i large
      rw [head?_toDigits]
      exact ih (n / radix) (Nat.div_lt_self (by omega) base) (Nat.div_pos (by omega) (by omega))

theorem readNumber_toDigits {n maxDigits : Nat} (fits : n < radix ^ maxDigits) (some : 0 < maxDigits)
    (allow : Bool) (stops : Stops radix rest) :
    readNumber radix maxDigits allow (Nat.toDigits radix n ++ rest) = .some (n,rest) := by
  have size : (Nat.toDigits radix n).length ≤ maxDigits := (Nat.length_toDigits_le_iff base some).mpr fits
  have nonempty : 0 < (Nat.toDigits radix n).length := Nat.length_toDigits_pos
  have noPrefix : (!allow && (Nat.toDigits radix n ++ rest).head? == .some '0' &&
      decide (1 < 0 + (Nat.toDigits radix n).length)) = false := by
    by_cases zero : n = 0
    · subst zero
      have single : (Nat.toDigits radix 0).length = 1 := by rw [Nat.toDigits_zero]; rfl
      rw [single]
      simp
    · rw [head?_toDigits,
        beq_false_of_ne (head_toDigits base digit n (Nat.pos_of_ne_zero zero)),Bool.and_false,Bool.false_and]
  unfold readNumber
  simp only [readDigits_append stops (toDigits_digits base digit n),foldl_toDigits base digit n,noPrefix]
  rw [if_neg (by omega)]
  rfl

end Numbers

section Four

theorem digit_ten : ∀ d < 10, toDigit 10 (Nat.digitChar d) = some d := by decide

theorem digit_sixteen : ∀ d < 16, toDigit 16 (Nat.digitChar d) = some d := by decide

theorem readOctet_toDigits (a : UInt8) (stops : Stops 10 rest) :
    readOctet (Nat.toDigits 10 a.toNat ++ rest) = some (a,rest) := by
  have bound : a.toNat < 256 := UInt8.toNat_lt_size a
  have read := readNumber_toDigits (by decide) digit_ten (show a.toNat < 10 ^ 3 by omega) (by decide) false stops
  simp only [readOctet,read,Option.bind_eq_bind,Option.bind_some]
  rw [if_pos bound,UInt8.ofNat_toNat]

theorem readIpv4_octetsText (octets : Octets) (stops : Stops 10 rest) :
    readIpv4 (octetsText octets ++ rest) = some (octets,rest) := by
  obtain ⟨a,b,c,d⟩ := octets
  have dot (text : List Char) : Stops 10 ('.' :: text) := stops_cons (by decide)
  simp only [readIpv4,octetsText,readSeparator,readGiven,List.append_assoc,List.cons_append,readOctet_toDigits _ (dot _),
    readOctet_toDigits d stops,Option.bind_eq_bind,Option.bind_some,Nat.lt_irrefl,Nat.zero_lt_succ,if_true,if_false]
  rfl

theorem readNumber_rest (read : readNumber radix maxDigits allow text = some (n,rest)) :
    ∃ before, text = before ++ rest := by
  have digits : ∀ (text : List Char) (value count : Nat),
      ∃ before, text = before ++ (readDigits radix value count text).2.2 := by
    intro text
    induction text with
    | nil => exact fun _ _ => ⟨[],rfl⟩
    | cons c later ih =>
      intro value count
      unfold readDigits
      split
      · rename_i digit _
        obtain ⟨before,split⟩ := ih (value * radix + digit) (count + 1)
        exact ⟨c :: before,congrArg (c :: ·) split⟩
      · exact ⟨[],rfl⟩
  unfold readNumber at read
  dsimp only at read
  split at read
  · cases read
  · split at read
    · cases read
    · cases read
      exact digits text 0 0

/-- Without a dot there is no address of version 4. -/
theorem readIpv4_noDot (clean : '.' ∉ text) : readIpv4 text = none := by
  unfold readIpv4 readSeparator
  rw [if_neg (Nat.lt_irrefl 0)]
  cases first : readOctet text with
  | none => rfl
  | some read =>
    obtain ⟨a,rest⟩ := read
    have suffix : ∃ before, text = before ++ rest := by
      unfold readOctet at first
      cases number : readNumber 10 3 false text with
      | none =>
        rw [number] at first
        cases first
      | some read =>
        obtain ⟨value,later⟩ := read
        simp only [number,Option.bind_eq_bind,Option.bind_some] at first
        split at first
        · cases first
          exact readNumber_rest number
        · cases first
    obtain ⟨before,rfl⟩ := suffix
    cases rest with
    | nil => rfl
    | cons c later =>
      have other : c ≠ '.' := by
        rintro rfl
        exact clean (by simp)
      simp [readGiven,other]

end Four

section Six

/-- A text at which the groups of one side end. -/
def Ends (rest : List Char) : Prop := rest = [] ∨ ∃ later, rest = ':' :: ':' :: later

theorem Ends.stops (ends : Ends rest) : Stops 16 rest := by
  rcases ends with rfl | ⟨later,rfl⟩
  · exact stops_nil
  · exact stops_cons (by decide)

theorem readGroup_groupText (group : UInt16) (stops : Stops 16 rest) :
    readGroup (groupText group ++ rest) = some (group,rest) := by
  have bound : group.toNat < 2 ^ 16 := UInt16.toNat_lt_size group
  have read := readNumber_toDigits (by decide) digit_sixteen (show group.toNat < 16 ^ 4 by omega) (by decide) true stops
  rw [readGroup,groupText,read,Option.map_some]
  dsimp only
  rw [UInt16.ofNat_toNat]

theorem dot_not_mem_groupText (group : UInt16) : '.' ∉ groupText group := by
  intro member
  have digit := toDigits_digits (by decide) digit_sixteen group.toNat '.' member
  exact absurd digit (by decide)

theorem dot_not_mem_laterText (groups : List UInt16) : '.' ∉ laterText groups := by
  intro member
  obtain ⟨group,_,member⟩ := List.mem_flatMap.mp member
  rcases List.mem_cons.mp member with colon | member
  · exact absurd colon (by decide)
  · exact dot_not_mem_groupText group member

theorem dot_not_mem_groupsText (groups : List UInt16) : '.' ∉ groupsText groups := by
  cases groups with
  | nil => exact List.not_mem_nil
  | cons group rest =>
    intro member
    rcases List.mem_append.mp member with member | member
    · exact dot_not_mem_groupText group member
    · exact dot_not_mem_laterText rest member

/-- Where the groups end no further one is read, whether or not a separator is due. -/
theorem readGroups_end (ends : Ends rest) (clean : '.' ∉ rest) (left index : Nat) :
    readGroups left index rest = ([],false,rest) := by
  have noGroup : ∀ later, readGroup (':' :: later) = none := fun later => rfl
  have noAddress : (if 0 < left - 1 then readSeparator ':' index readIpv4 rest else none) = none := by
    split
    · unfold readSeparator
      split
      · rcases ends with rfl | ⟨later,rfl⟩
        · rfl
        · exact readIpv4_noDot fun member => clean (List.mem_cons_of_mem _ member)
      · exact readIpv4_noDot clean
    · rfl
  have noNext : readSeparator ':' index readGroup rest = none := by
    unfold readSeparator
    rcases ends with rfl | ⟨later,rfl⟩
    · split <;> rfl
    · split
      · exact noGroup later
      · exact noGroup _
  cases left with
  | zero => rfl
  | succ left =>
    rw [Nat.add_sub_cancel] at noAddress
    simp only [readGroups,noAddress,noNext]

theorem readIpv4_groups (group : UInt16) (groups : List UInt16) (clean : '.' ∉ rest) :
    readIpv4 (groupText group ++ (laterText groups ++ rest)) = none := by
  apply readIpv4_noDot
  simp only [List.mem_append,not_or]
  exact ⟨dot_not_mem_groupText group,dot_not_mem_laterText groups,clean⟩

theorem Ends.stops_laterText (ends : Ends rest) (groups : List UInt16) : Stops 16 (laterText groups ++ rest) := by
  cases groups with
  | nil => exact ends.stops
  | cons next more => exact stops_cons (by decide)

theorem readGroups_laterText {groups : List UInt16} {left : Nat} (fits : groups.length ≤ left) (ends : Ends rest)
    (clean : '.' ∉ rest) (index : Nat) :
    readGroups left (index + 1) (laterText groups ++ rest) = (groups,false,rest) := by
  induction groups generalizing left index with
  | nil => exact readGroups_end ends clean left (index + 1)
  | cons group groups ih =>
    obtain ⟨left,rfl⟩ : ∃ more, left = more + 1 := ⟨left - 1,by simp only [List.length_cons] at fits; omega⟩
    have text : laterText (group :: groups) ++ rest = ':' :: (groupText group ++ (laterText groups ++ rest)) := by
      simp [laterText]
    have noAddress := readIpv4_groups group groups clean
    have stops := ends.stops_laterText groups
    have rests := ih (Nat.le_of_succ_le_succ fits) (index + 1)
    rw [text,readGroups]
    simp only [readSeparator,Nat.zero_lt_succ,if_true,readGiven,Option.bind_some,noAddress,ite_self,
      readGroup_groupText group stops,rests]

theorem readGroups_groupsText (groups : List UInt16) (left : Nat) (fits : groups.length ≤ left) (ends : Ends rest)
    (clean : '.' ∉ rest) : readGroups left 0 (groupsText groups ++ rest) = (groups,false,rest) := by
  cases groups with
  | nil => exact readGroups_end ends clean left 0
  | cons group groups =>
    obtain ⟨left,rfl⟩ : ∃ more, left = more + 1 := ⟨left - 1,by simp only [List.length_cons] at fits; omega⟩
    have noAddress := readIpv4_groups group groups clean
    have stops := ends.stops_laterText groups
    have rests := readGroups_laterText (Nat.le_of_succ_le_succ fits) ends clean 0
    rw [groupsText,List.append_assoc,readGroups]
    simp only [readSeparator,Nat.lt_irrefl,if_false,noAddress,ite_self,readGroup_groupText group stops,rests]

/-- A run of zeros inside the groups. -/
def Zeros (groups : List UInt16) (span : Span) : Prop :=
  ∀ j, span.start ≤ j → j < span.start + span.len → groups[j]? = some 0

/-- The run that the loop ends with holds zeros only: so does the longest one, and the current one, which
reaches up to the index. -/
theorem zeros_longestZeros (groups seen rest : List UInt16) (longest current : Span) (parts : groups = seen ++ rest)
    (held : Zeros groups longest) (running : Zeros groups current)
    (reaches : current.len = 0 ∨ current.start + current.len = seen.length) :
    Zeros groups (longestZeros rest seen.length longest current) := by
  induction rest generalizing seen longest current with
  | nil => exact held
  | cons group rest ih =>
    have size : (seen ++ [group]).length = seen.length + 1 := by simp
    have parts' : groups = seen ++ [group] ++ rest := by rw [parts,List.append_assoc]; rfl
    unfold longestZeros
    split
    · rename_i zero
      have here : groups[seen.length]? = some 0 := by
        rw [parts,List.getElem?_append_right (Nat.le_refl _),Nat.sub_self,zero]
        rfl
      have next : Zeros groups ⟨if current.len = 0 then seen.length else current.start,current.len + 1⟩ := by
        intro j from_start upto
        dsimp only at from_start upto
        split at from_start
        · rename_i none
          rw [if_pos none] at upto
          rw [show j = seen.length by omega]
          exact here
        · rename_i some
          rw [if_neg some] at upto
          by_cases last : j = seen.length
          · rw [last]
            exact here
          · exact running j from_start (by omega)
      rw [← size]
      have best : Zeros groups (if longest.len < current.len + 1 then
          ⟨if current.len = 0 then seen.length else current.start,current.len + 1⟩ else longest) := by
        by_cases longer : longest.len < current.len + 1
        · rw [if_pos longer]
          exact next
        · rw [if_neg longer]
          exact held
      apply ih (seen ++ [group]) _ _ parts' best next
      right
      dsimp only
      split <;> omega
    · rw [← size]
      exact ih (seen ++ [group]) _ _ parts' held (fun j low high => absurd high (Nat.not_lt.mpr low)) (.inl rfl)

theorem Zeros.split (zeros : Zeros groups span) (some : 0 < span.len) : span.start + span.len ≤ groups.length ∧
    groups = groups.take span.start ++ List.replicate span.len 0 ++ groups.drop (span.start + span.len) := by
  have bound : span.start + span.len ≤ groups.length := by
    have last := zeros (span.start + span.len - 1) (by omega) (by omega)
    obtain ⟨inside,_⟩ := List.getElem?_eq_some_iff.mp last
    omega
  refine ⟨bound,?_⟩
  have run : (groups.drop span.start).take span.len = List.replicate span.len 0 := by
    apply List.eq_replicate_iff.mpr
    refine ⟨by rw [List.length_take,List.length_drop]; omega,?_⟩
    intro group member
    obtain ⟨j,inside,rfl⟩ := List.mem_iff_getElem.mp member
    rw [List.length_take,List.length_drop] at inside
    have zero := zeros (span.start + j) (by omega) (by omega)
    rw [List.getElem_take,List.getElem_drop]
    exact (List.getElem?_eq_some_iff.mp zero).2
  rw [← run,List.append_assoc,← List.drop_drop,List.take_append_drop,List.take_append_drop]

theorem ofGroups_toList (address : Vector UInt16 8) : ofGroups address.toList = address := by
  apply Vector.ext
  intro i inside
  simp [ofGroups]

/-- The plain text of an address is read back. -/
theorem readIpv6_plainText (address : Vector UInt16 8) : readIpv6 (plainText address.toList) = some (address,[]) := by
  have size : address.toList.length = 8 := Vector.length_toList
  have noDot : '.' ∉ ([] : List Char) := List.not_mem_nil
  unfold plainText
  dsimp only
  have zeros : Zeros address.toList (longestZeros address.toList 0 {} {}) :=
    zeros_longestZeros address.toList [] address.toList {} {} rfl (fun j low high => absurd high (Nat.not_lt.mpr low))
      (fun j low high => absurd high (Nat.not_lt.mpr low)) (.inl rfl)
  generalize longestZeros address.toList 0 {} {} = span at zeros
  split
  · rename_i long
    obtain ⟨bound,parts⟩ := zeros.split (by omega)
    have head : (address.toList.take span.start).length = span.start := by rw [List.length_take]; omega
    have tail : (address.toList.drop (span.start + span.len)).length = 8 - (span.start + span.len) := by
      rw [List.length_drop,size]
    have clean : '.' ∉ ':' :: ':' :: groupsText (address.toList.drop (span.start + span.len)) := by
      simp only [List.mem_cons,not_or]
      exact ⟨by decide,by decide,dot_not_mem_groupsText _⟩
    have front := readGroups_groupsText _ 8 (by rw [head]; omega) (.inr ⟨_,rfl⟩) clean
    have back := readGroups_groupsText (address.toList.drop (span.start + span.len)) (8 - (span.start + 1))
      (by rw [tail]; omega) (.inl rfl) noDot
    rw [List.append_nil] at back
    have gap : 8 - (span.start + (8 - (span.start + span.len))) = span.len := by omega
    unfold readIpv6
    simp only [front,head]
    rw [if_neg (by omega),if_neg Bool.false_ne_true]
    simp only [readGiven,if_true,Option.bind_eq_bind,Option.bind_some,back,tail,gap,← parts,ofGroups_toList]
    rfl
  · have whole := readGroups_groupsText address.toList 8 (by omega) (.inl rfl) noDot
    rw [List.append_nil] at whole
    unfold readIpv6
    simp only [whole,size,if_true,ofGroups_toList]

/-- An address of version 4 behind `::ffff:`. -/
theorem readIpv6_mapped (text : List Char) (read : readIpv4 text = some ((a,b,c,d),[])) :
    readIpv6 ("::ffff:".toList ++ text) = some (ofGroups [0,0,0,0,0,0xffff,fromBe a b,fromBe c d],[]) := by
  have front : readGroups 8 0 ("::ffff:".toList ++ text) = ([],false,"::ffff:".toList ++ text) := rfl
  have stops : Stops 16 (':' :: text) := stops_cons (by decide)
  have group : readSeparator ':' 0 readGroup ("ffff:".toList ++ text) = some (0xffff,':' :: text) :=
    readGroup_groupText 0xffff stops
  have noAddress : readSeparator ':' 0 readIpv4 ("ffff:".toList ++ text) = none := rfl
  have address : readSeparator ':' 1 readIpv4 (':' :: text) = some ((a,b,c,d),[]) := read
  have back : readGroups 7 0 ("ffff:".toList ++ text) = ([0xffff,fromBe a b,fromBe c d],true,[]) := by
    simp only [readGroups,noAddress,group,address]
    rfl
  unfold readIpv6
  rw [front]
  show (do
    let text ← readGiven ':' ("::ffff:".toList ++ text)
    let text ← readGiven ':' text
    let (tail,_,rest) := readGroups 7 0 text
    return (ofGroups ([] ++ List.replicate (8 - (0 + tail.length)) 0 ++ tail),rest)) = _
  have colons : (readGiven ':' ("::ffff:".toList ++ text)).bind (readGiven ':') = some ("ffff:".toList ++ text) := rfl
  rw [Option.bind_eq_bind,← Option.bind_assoc,colons,Option.bind_some,back]
  rfl

end Six

end IpText
