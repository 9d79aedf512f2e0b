import Mathlib.Data.List.AList
import Ruuter.Json

/-! Reading JSON the way derived deserialisers do. A `Reader` carries the values it accepts
beside the function that reads them, and records are put together field by field, so the two
cannot part. The only recursion is `Reader.fix`, on the depth of the value. -/
namespace Ruuter

namespace Json

mutual

def depth : Json → Nat
  | .array items => depthList items + 1
  | .object members => depthMembers members + 1
  | .null | .bool _ | .number _ | .string _ => 0

def depthList : List Json → Nat
  | [] => 0
  | item :: rest => max item.depth (depthList rest)

def depthMembers : List (String × Json) → Nat
  | [] => 0
  | (_,value) :: rest => max value.depth (depthMembers rest)

end

theorem depth_le_depthList (member : item ∈ items) : item.depth ≤ depthList items := by
  induction member with
  | head rest => exact Nat.le_max_left ..
  | tail other _ ih => exact Nat.le_trans ih (Nat.le_max_right ..)

theorem depth_le_depthMembers {entry : String × Json} (member : entry ∈ members) :
    entry.2.depth ≤ depthMembers members := by
  induction member with
  | head rest => exact Nat.le_max_left ..
  | tail other _ ih => exact Nat.le_trans ih (Nat.le_max_right ..)

theorem lookup_insertMember (key name : String) (value : Json) (members : List (String × Json)) :
    (insertMember key value members).lookup name =
      if name = key then some value else members.lookup name := by
  induction members with
  | nil =>
    by_cases same : name = key
    · simp [insertMember,same]
    · simp [insertMember,List.lookup_cons,beq_false_of_ne same,same]
  | cons head rest ih =>
    obtain ⟨other,held⟩ := head
    unfold insertMember
    by_cases same : name = key
    · subst same
      split
      · simp
      · split
        · simp
        · rename_i different
          simp [List.lookup_cons,beq_false_of_ne different,ih]
    · split
      · simp [List.lookup_cons,beq_false_of_ne same]
      · split
        · rename_i equal
          subst equal
          simp [List.lookup_cons,beq_false_of_ne same]
        · simp [List.lookup_cons,ih,same]

end Json

theorem mem_of_lookup {members : List (String × α)} (found : members.lookup name = some value) :
    (name,value) ∈ members := by
  induction members with
  | nil => cases found
  | cons head rest ih =>
    obtain ⟨key,held⟩ := head
    rw [List.lookup_cons] at found
    split at found
    · rename_i same
      cases found
      rw [beq_iff_eq.mp same]
      exact List.mem_cons_self
    · exact List.mem_cons_of_mem _ (ih found)

section FirstMatch

variable {ι : Type} [DecidableEq ι] {f : ι → Option β}

/-- The first element of a list that gives a result. -/
theorem findSome?_iff {list : List ι} :
    list.findSome? f = some b ↔
      ∃ i ∈ list, f i = some b ∧ ∀ u ∈ list, list.idxOf u < list.idxOf i → f u = none := by
  induction list with
  | nil => simp
  | cons head rest ih =>
    cases first : f head with
    | some a =>
      simp only [List.findSome?_cons,first]
      constructor
      · intro same
        exact ⟨head,List.mem_cons_self,first.trans same,by simp⟩
      · rintro ⟨i,member,found,none⟩
        by_cases same : i = head
        · subst same
          exact first.symm.trans found
        · have early := none head List.mem_cons_self (by simp [Ne.symm same])
          cases first.symm.trans early
    | none =>
      simp only [List.findSome?_cons,first,ih]
      constructor
      · rintro ⟨i,member,found,none⟩
        have other : i ≠ head := by rintro rfl; cases first.symm.trans found
        refine ⟨i,List.mem_cons_of_mem _ member,found,?_⟩
        intro u memberU before
        by_cases same : u = head
        · exact same ▸ first
        · have inside := List.mem_of_ne_of_mem same memberU
          simp only [List.idxOf_cons,beq_false_of_ne (Ne.symm same),beq_false_of_ne (Ne.symm other)] at before
          exact none u inside (by simpa using before)
      · rintro ⟨i,member,found,none⟩
        have other : i ≠ head := by rintro rfl; cases first.symm.trans found
        refine ⟨i,List.mem_of_ne_of_mem other member,found,?_⟩
        intro u memberU before
        by_cases same : u = head
        · exact same ▸ first
        · apply none u (List.mem_cons_of_mem _ memberU)
          simp only [List.idxOf_cons,beq_false_of_ne (Ne.symm same),beq_false_of_ne (Ne.symm other)]
          simpa using before

end FirstMatch

/-- A deserialiser with the values it accepts. -/
structure Reader (α : Type) where
  read : Json → Option α
  Fits : Json → Prop
  fits_iff : ∀ j, (read j).isSome ↔ Fits j

namespace Reader

variable {α β : Type}

theorem fits_of_read {r : Reader α} (given : r.read j = some value) : r.Fits j :=
  (r.fits_iff j).mp (by simp [given])

theorem exists_read {r : Reader α} (fits : r.Fits j) : ∃ value, r.read j = some value :=
  Option.isSome_iff_exists.mp ((r.fits_iff j).mpr fits)

theorem read_eq_none {r : Reader α} : r.read j = none ↔ ¬ r.Fits j := by
  rw [← r.fits_iff j]
  simp

def never : Reader α := ⟨fun _ => none,fun _ => False,by simp⟩

/-- A field of type `Value`. -/
def any : Reader Json := ⟨some,fun _ => True,by simp⟩

def string : Reader String where
  read
    | .string s => some s
    | _ => none
  Fits j := ∃ s, j = .string s
  fits_iff j := by cases j <;> simp

def bool : Reader Bool where
  read
    | .bool b => some b
    | _ => none
  Fits j := ∃ b, j = .bool b
  fits_iff j := by cases j <;> simp

/-- An unsigned integer below a bound. Negative integers and floats do not fit. -/
def unsigned (ofNat : Nat → α) (bound : Nat) : Reader α where
  read
    | .number (.posInt n) => if n.toNat < bound then some (ofNat n.toNat) else none
    | _ => none
  Fits j := ∃ n : UInt64, j = .number (.posInt n) ∧ n.toNat < bound
  fits_iff j := by
    cases j with
    | number n => cases n <;> simp
    | _ => simp

def u16 : Reader UInt16 := unsigned UInt16.ofNat (2 ^ 16)
def u32 : Reader UInt32 := unsigned UInt32.ofNat (2 ^ 32)
def u64 : Reader UInt64 := unsigned UInt64.ofNat (2 ^ 64)

def map (f : α → β) (r : Reader α) : Reader β where
  read j := (r.read j).map f
  Fits := r.Fits
  fits_iff j := by simp [r.fits_iff]

/-- `Option<T>`: `null` is `None`. -/
def nullable (r : Reader α) : Reader (Option α) where
  read
    | .null => some none
    | j => (r.read j).map some
  Fits j := j = .null ∨ r.Fits j
  fits_iff j := by cases j <;> simp [r.fits_iff]

theorem isSome_mapM (f : Json → Option α) (items : List Json) :
    (items.mapM f).isSome ↔ ∀ item ∈ items, (f item).isSome := by
  induction items with
  | nil => simp
  | cons item rest ih =>
    simp only [List.mapM_cons,List.forall_mem_cons,← ih]
    cases f item <;> cases rest.mapM f <;> simp

/-- A list that is read as a whole is read element by element. -/
theorem mem_mapM {f : Json → Option α} {items : List Json} (given : items.mapM f = some out) :
    (∀ item ∈ items, ∃ value ∈ out, f item = some value) ∧
      ∀ value ∈ out, ∃ item ∈ items, f item = some value := by
  induction items generalizing out with
  | nil =>
    cases given
    simp
  | cons item rest ih =>
    simp only [List.mapM_cons,Option.bind_eq_bind,Option.bind_eq_some_iff] at given
    obtain ⟨value,read,values,others,same⟩ := given
    cases same
    obtain ⟨each,back⟩ := ih others
    constructor
    · intro other member
      rcases List.mem_cons.mp member with rfl | later
      · exact ⟨value,List.mem_cons_self,read⟩
      · obtain ⟨found,inside,held⟩ := each other later
        exact ⟨found,List.mem_cons_of_mem _ inside,held⟩
    · intro other member
      rcases List.mem_cons.mp member with rfl | later
      · exact ⟨item,List.mem_cons_self,read⟩
      · obtain ⟨found,inside,held⟩ := back other later
        exact ⟨found,List.mem_cons_of_mem _ inside,held⟩

/-- `Vec<T>`. -/
def list (r : Reader α) : Reader (List α) where
  read
    | .array items => items.mapM r.read
    | _ => none
  Fits j := ∃ items, j = .array items ∧ ∀ item ∈ items, r.Fits item
  fits_iff j := by
    cases j with
    | array items => simp [isSome_mapM,r.fits_iff]
    | _ => simp

/-- `HashMap<String, Value>` and `BTreeMap<String, Value>`. -/
def mapping : Reader (AList fun _ : String => Json) where
  read
    | .object members => some (members.map fun member => (⟨member.1,member.2⟩ : Sigma fun _ => Json)).toAList
    | _ => none
  Fits j := ∃ members, j = .object members
  fits_iff j := by cases j <;> simp

/-- `[T; 2]`. -/
def pair (r : Reader α) : Reader (α × α) where
  read
    | .array [first,second] => (r.read first).bind fun a => (r.read second).map (a,·)
    | _ => none
  Fits j := ∃ first second, j = .array [first,second] ∧ r.Fits first ∧ r.Fits second
  fits_iff j := by
    split
    · rename_i first second
      have parts : ((r.read first).bind fun a => (r.read second).map (a,·)).isSome ↔
          (r.read first).isSome ∧ (r.read second).isSome := by
        cases r.read first <;> cases r.read second <;> simp
      simp [parts,r.fits_iff]
    · rename_i other
      simp only [Option.isSome_none,Bool.false_eq_true,false_iff]
      rintro ⟨first,second,rfl,_⟩
      exact other first second rfl

/-- An enum of unit variants: the tag alone, or the tag with `null`. -/
def tag (variants : List (String × α)) : Reader α where
  read
    | .string name => variants.lookup name
    | .object [(name,.null)] => variants.lookup name
    | _ => none
  Fits j := ∃ name, (j = .string name ∨ j = .object [(name,.null)]) ∧ (variants.lookup name).isSome
  fits_iff j := by
    split
    · simp
    · simp
    · rename_i plain wrapped
      simp only [Option.isSome_none,Bool.false_eq_true,false_iff]
      rintro ⟨name,rfl | rfl,_⟩
      · exact plain name rfl
      · exact wrapped name rfl

/-- An enum whose variants carry fields: an object with the tag as its only key. -/
def tagged (variants : List (String × Reader α)) : Reader α where
  read
    | .object [(name,body)] => (variants.lookup name).bind (·.read body)
    | _ => none
  Fits j := ∃ name body, j = .object [(name,body)] ∧ ∃ r, variants.lookup name = some r ∧ r.Fits body
  fits_iff j := by
    split
    · rename_i name body
      cases found : variants.lookup name with
      | none => simp [found]
      | some r =>
        simp only [Option.bind_some,r.fits_iff]
        constructor
        · intro fits
          exact ⟨name,body,rfl,r,found,fits⟩
        · rintro ⟨_,_,same,r',found',fits⟩
          cases same
          cases found.symm.trans found'
          exact fits
    · rename_i other
      simp only [Option.isSome_none,Bool.false_eq_true,false_iff]
      rintro ⟨name,body,rfl,_⟩
      exact other name body rfl

/-- `#[serde(untagged)]`: the first reader that accepts. -/
def firstOf (readers : List (Reader α)) : Reader α where
  read j := readers.findSome? (·.read j)
  Fits j := ∃ r ∈ readers, r.Fits j
  fits_iff j := by simp [← Reader.fits_iff]

end Reader

/-- The fields a record is read from. A sequence names its fields by position. -/
structure Source where
  members : List (String × Json)
  positional : Bool := false

namespace Source

/-- The values given for a field under its name or an alias. -/
def values (s : Source) (names : List String) : List Json :=
  names.filterMap fun name => s.members.lookup name

theorem values_eq_singleton (s : Source) (name : String) :
    s.values [name] = [value] ↔ s.members.lookup name = some value := by
  simp only [values,List.filterMap_cons,List.filterMap_nil]
  cases s.members.lookup name <;> simp

/-- An object, or a sequence that is not longer than the record. -/
def ofJson (fields : List String) : Json → Option Source
  | .object members => some { members }
  | .array items =>
    if items.length ≤ fields.length then some { members := fields.zip items, positional := true }
    else none
  | _ => none

end Source

/-- A record under construction: the names of its fields in order, those it cannot do
without, and how it is read. -/
structure Layout (α : Type) where
  fields : List String
  needed : List String
  read : Source → Option α
  Fits : Source → Prop
  fits_iff : ∀ s, (read s).isSome ↔ Fits s
  present : ∀ s, Fits s → ∀ name ∈ needed, (s.members.lookup name).isSome

namespace Layout

variable {α β : Type}

def build (value : α) : Layout α where
  fields := []
  needed := []
  read _ := some value
  Fits _ := True
  fits_iff := by simp
  present := by simp

def ap (f : Layout (α → β)) (x : Layout α) : Layout β where
  fields := f.fields ++ x.fields
  needed := f.needed ++ x.needed
  read s := (f.read s).bind fun g => (x.read s).map g
  Fits s := f.Fits s ∧ x.Fits s
  fits_iff s := by
    rw [← f.fits_iff,← x.fits_iff]
    cases f.read s <;> cases x.read s <;> simp
  present s fits name member := by
    rcases List.mem_append.mp member with left | right
    · exact f.present s fits.1 name left
    · exact x.present s fits.2 name right

/-- One field. `absent` is its value when it is not given; a field given twice is an error. -/
def field (name : String) (aliases : List String) (absent : Bool → Option α) (r : Reader α) :
    Layout α where
  fields := [name]
  needed := []
  read s :=
    match s.values (name :: aliases) with
    | [] => absent s.positional
    | [value] => r.read value
    | _ => none
  Fits s := (s.values (name :: aliases) = [] ∧ (absent s.positional).isSome) ∨
    ∃ value, s.values (name :: aliases) = [value] ∧ r.Fits value
  fits_iff s := by
    split
    · simp_all
    · simp_all [r.fits_iff]
    · rename_i empty single
      simp only [Option.isSome_none,Bool.false_eq_true,false_iff]
      rintro (⟨none,_⟩ | ⟨value,one,_⟩)
      · exact empty none
      · exact single value one
  present := by simp

/-- A field without a default. -/
def required (name : String) (r : Reader α) : Layout α :=
  { field name [] (fun _ => none) r with
    needed := [name]
    present := by
      intro s fits other member
      obtain rfl := List.mem_singleton.mp member
      rcases fits with ⟨_,impossible⟩ | ⟨value,given,_⟩
      · cases impossible
      · by_contra missing
        simp [Source.values,Option.not_isSome_iff_eq_none.mp missing] at given }

theorem required_fits {r : Reader α} :
    (required name r).Fits s ↔ ∃ value, s.members.lookup name = some value ∧ r.Fits value := by
  simp [required,field,Source.values_eq_singleton]

theorem required_read {r : Reader α} :
    (required name r).read s = some a ↔ ∃ value, s.members.lookup name = some value ∧ r.read value = some a := by
  simp only [required,field,Source.values,List.filterMap_cons,List.filterMap_nil]
  cases s.members.lookup name <;> simp

/-- A field that is not given takes its default. -/
theorem field_absent {r : Reader α} {missing : Bool → Option α}
    (absent : ∀ other ∈ name :: aliases, s.members.lookup other = none)
    (value : (missing s.positional).isSome) : (field name aliases missing r).Fits s := by
  have none : s.values (name :: aliases) = [] := by
    unfold Source.values
    exact List.filterMap_eq_nil_iff.mpr absent
  exact .inl ⟨none,value⟩

theorem ap_fits {f : Layout (α → β)} {x : Layout α} (first : f.Fits s) (second : x.Fits s) :
    (f.ap x).Fits s :=
  ⟨first,second⟩

theorem ap_read {f : Layout (α → β)} {x : Layout α} :
    (f.ap x).read s = some b ↔ ∃ g, f.read s = some g ∧ ∃ a, x.read s = some a ∧ g a = b := by
  simp [ap,Option.bind_eq_some_iff,Option.map_eq_some_iff]

/-- A field of type `Option<T>`: it may be left out of an object, not of a sequence. -/
def optional (name : String) (r : Reader α) : Layout (Option α) :=
  field name [] (fun positional => if positional then none else some none) r.nullable

/-- A field with `#[serde(default)]`. -/
def defaulted (name : String) (value : α) (r : Reader α) (aliases : List String := []) : Layout α :=
  field name aliases (fun _ => some value) r

/-- A field of type `Option<T>` with `#[serde(default)]`. -/
def defaultedNone (name : String) (r : Reader α) (aliases : List String := []) : Layout (Option α) :=
  defaulted name none r.nullable aliases

end Layout

namespace Reader

variable {α β : Type}

/-- A struct: an object or a sequence. -/
def struct (record : Layout α) : Reader α where
  read j := (Source.ofJson record.fields j).bind record.read
  Fits j := ∃ s, Source.ofJson record.fields j = some s ∧ record.Fits s
  fits_iff j := by
    cases Source.ofJson record.fields j <;> simp [record.fits_iff]

/-- A struct with a flattened part: an object only. -/
def flat (record : Layout α) : Reader α where
  read
    | .object members => record.read { members }
    | _ => none
  Fits j := ∃ members, j = .object members ∧ record.Fits { members }
  fits_iff j := by cases j <;> simp [record.fits_iff]

/-- Two readers agree on the values below a depth. -/
def Agree (n : Nat) (r r' : Reader α) : Prop := ∀ j, j.depth < n → r.read j = r'.read j

end Reader

/-- Two records agree on the fields below a depth. -/
def Layout.Agree (n : Nat) (x x' : Layout α) : Prop :=
  x.fields = x'.fields ∧
    ∀ s : Source, (∀ entry ∈ s.members, entry.2.depth < n) → x.read s = x'.read s

namespace Layout

variable {α β : Type}

theorem Agree.refl (x : Layout α) : Agree n x x := ⟨rfl,fun _ _ => rfl⟩

theorem Agree.ap {f f' : Layout (α → β)} {x x' : Layout α} (first : Agree n f f')
    (second : Agree n x x') : Agree n (f.ap x) (f'.ap x') := by
  refine ⟨by simp [Layout.ap,first.1,second.1],?_⟩
  intro s below
  simp only [Layout.ap,first.2 s below,second.2 s below]

theorem Agree.field {r r' : Reader α} (agree : Reader.Agree n r r') :
    Agree n (field name aliases absent r) (field name aliases absent r') := by
  refine ⟨rfl,?_⟩
  intro s below
  simp only [Layout.field]
  split
  · rfl
  · rename_i value single
    have given : value ∈ s.values (name :: aliases) := by simp [single]
    obtain ⟨key,_,found⟩ := List.mem_filterMap.mp given
    exact agree value (below _ (mem_of_lookup found))
  · rfl

theorem Agree.required {r r' : Reader α} (agree : Reader.Agree n r r') :
    Agree n (Layout.required name r) (Layout.required name r') := by
  have same : Agree n (Layout.field name [] (fun _ => none) r) (Layout.field name [] (fun _ => none) r') :=
    .field agree
  exact ⟨rfl,same.2⟩

end Layout

namespace Reader

variable {α β : Type}

theorem Agree.refl (r : Reader α) : Agree n r r := fun _ _ => rfl

theorem Agree.mono {r r' : Reader α} (agree : Agree n r r') (le : m ≤ n) : Agree m r r' :=
  fun j below => agree j (Nat.lt_of_lt_of_le below le)

theorem Agree.map {r r' : Reader α} (f : α → β) (agree : Agree n r r') :
    Agree n (r.map f) (r'.map f) := by
  intro j below
  simp only [Reader.map,agree j below]

theorem Agree.nullable {r r' : Reader α} (agree : Agree n r r') :
    Agree n r.nullable r'.nullable := by
  intro j below
  have same := agree j below
  cases j <;> simp only [Reader.nullable,same]

theorem Agree.list {r r' : Reader α} (agree : Agree n r r') : Agree (n + 1) r.list r'.list := by
  intro j below
  cases j with
  | array items =>
    have each : ∀ item ∈ items, r.read item = r'.read item := by
      intro item member
      have le := Json.depth_le_depthList member
      simp only [Json.depth] at below
      exact agree item (by omega)
    clear below
    simp only [Reader.list]
    induction items with
    | nil => rfl
    | cons item rest ih =>
      have first : r.read item = r'.read item := each item List.mem_cons_self
      simp only [List.mapM_cons,first,ih fun other member => each other (List.mem_cons_of_mem _ member)]
  | _ => rfl

/-- The fields of an object or a sequence lie below it. -/
theorem ofJson_below (given : Source.ofJson fields j = some s) (below : j.depth < n + 1) :
    ∀ entry ∈ s.members, entry.2.depth < n := by
  intro entry member
  cases j with
  | object members =>
    cases given
    have le : entry.2.depth ≤ Json.depthMembers members := Json.depth_le_depthMembers member
    simp only [Json.depth] at below
    omega
  | array items =>
    simp only [Source.ofJson] at given
    split at given
    · cases given
      have le := Json.depth_le_depthList (List.of_mem_zip member).2
      simp only [Json.depth] at below
      omega
    · cases given
  | _ => cases given

theorem Agree.struct {x x' : Layout α} (agree : Layout.Agree n x x') :
    Agree (n + 1) (struct x) (struct x') := by
  intro j below
  simp only [Reader.struct,agree.1]
  cases given : Source.ofJson x'.fields j with
  | none => rfl
  | some s => exact agree.2 s (ofJson_below given below)

theorem Agree.flat {x x' : Layout α} (agree : Layout.Agree n x x') :
    Agree (n + 1) (flat x) (flat x') := by
  intro j below
  cases j with
  | object members =>
    have given : Source.ofJson x.fields (.object members) = some { members } := rfl
    exact agree.2 _ (ofJson_below given below)
  | _ => rfl

theorem Agree.firstOf {ι : Type} {f f' : ι → Reader α} (agree : ∀ i, Agree n (f i) (f' i))
    (list : List ι) : Agree n (firstOf (list.map f)) (firstOf (list.map f')) := by
  intro j below
  simp only [Reader.firstOf,List.findSome?_map]
  congr 1
  funext i
  exact agree i j below

/-- The reader after a number of unfoldings. -/
def unfolded (f : Reader α → Reader α) : Nat → Reader α
  | 0 => never
  | n + 1 => f (unfolded f n)

/-- A recursive reader. As many unfoldings as the value is deep are enough (`fix_read`). -/
def fix (f : Reader α → Reader α) : Reader α where
  read j := (unfolded f (j.depth + 1)).read j
  Fits j := (unfolded f (j.depth + 1)).Fits j
  fits_iff j := (unfolded f (j.depth + 1)).fits_iff j

theorem unfolded_agree {f : Reader α → Reader α}
    (deeper : ∀ n r r', Agree n r r' → Agree (n + 1) (f r) (f r')) (n : Nat) :
    ∀ m m', n ≤ m → n ≤ m' → Agree n (unfolded f m) (unfolded f m') := by
  induction n with
  | zero =>
    intro m m' _ _ j below
    exact absurd below (Nat.not_lt_zero _)
  | succ n ih =>
    intro m m' le le'
    obtain ⟨m,rfl⟩ := Nat.exists_eq_succ_of_ne_zero (Nat.ne_zero_of_lt le)
    obtain ⟨m',rfl⟩ := Nat.exists_eq_succ_of_ne_zero (Nat.ne_zero_of_lt le')
    exact deeper n _ _ (ih m m' (Nat.le_of_succ_le_succ le) (Nat.le_of_succ_le_succ le'))

/-- The recursive reader solves its equation. -/
theorem fix_read {f : Reader α → Reader α}
    (deeper : ∀ n r r', Agree n r r' → Agree (n + 1) (f r) (f r')) (j : Json) :
    (fix f).read j = (f (fix f)).read j := by
  have inner : Agree j.depth (unfolded f j.depth) (fix f) := by
    intro sub below
    exact unfolded_agree deeper (sub.depth + 1) _ _ below (Nat.le_refl _) sub (Nat.lt_succ_self _)
  exact deeper _ _ _ inner j (Nat.lt_succ_self _)

end Reader
end Ruuter
