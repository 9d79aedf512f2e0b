import Mathlib.Algebra.Group.Nat.Defs

/-! Strings as UTF-16 code units. A sequence of units need not be a text: a surrogate without its
partner encodes no character. -/
namespace Utf16

def IsHigh (u : UInt16) : Prop := 0xD800 ≤ u.toNat ∧ u.toNat < 0xDC00
def IsLow (u : UInt16) : Prop := 0xDC00 ≤ u.toNat ∧ u.toNat < 0xE000

instance : DecidablePred IsHigh := fun _ => inferInstanceAs (Decidable (_ ∧ _))
instance : DecidablePred IsLow := fun _ => inferInstanceAs (Decidable (_ ∧ _))

def encodeChar (c : Char) : List UInt16 :=
  if c.toNat < 0x10000 then [UInt16.ofNat c.toNat]
  else [UInt16.ofNat (0xD800 + (c.toNat - 0x10000) / 0x400),UInt16.ofNat (0xDC00 + (c.toNat - 0x10000) % 0x400)]

def encode (s : String) : List UInt16 := s.toList.flatMap encodeChar

/-- The character of a pair of surrogates. -/
def pair (high low : UInt16) : Char :=
  Char.ofNat (0x10000 + (high.toNat - 0xD800) * 0x400 + (low.toNat - 0xDC00))

/-- The characters of some units, unless a surrogate stands alone. -/
def decodeUnits : List UInt16 → Option (List Char)
  | [] => some []
  | [u] => if IsHigh u ∨ IsLow u then none else some [Char.ofNat u.toNat]
  | u :: v :: rest =>
    if IsHigh u then
      if IsLow v then (decodeUnits rest).map (pair u v :: ·) else none
    else if IsLow u then none
    else (decodeUnits (v :: rest)).map (Char.ofNat u.toNat :: ·)

def decode (units : List UInt16) : Option String := (decodeUnits units).map String.ofList

/-- Four hexadecimal digits, in upper case. -/
def hex (n : Nat) : List Char :=
  [n / 0x1000 % 16,n / 0x100 % 16,n / 0x10 % 16,n % 16].map fun d => (Nat.digitChar d).toUpper

def escape (u : UInt16) : List Char := '\\' :: 'u' :: hex u.toNat

/-- The characters of some units, each lone surrogate written as an escape. -/
def escapedUnits : List UInt16 → List Char
  | [] => []
  | [u] => if IsHigh u ∨ IsLow u then escape u else [Char.ofNat u.toNat]
  | u :: v :: rest =>
    if IsHigh u then
      if IsLow v then pair u v :: escapedUnits rest else escape u ++ escapedUnits (v :: rest)
    else if IsLow u then escape u ++ escapedUnits (v :: rest)
    else Char.ofNat u.toNat :: escapedUnits (v :: rest)

def escaped (units : List UInt16) : String := String.ofList (escapedUnits units)

theorem escapedUnits_of_decodeUnits (decoded : decodeUnits units = some chars) : escapedUnits units = chars := by
  induction units using decodeUnits.induct generalizing chars with
  | case1 =>
    cases decoded
    rfl
  | case2 u lone =>
    rw [decodeUnits,if_pos lone] at decoded
    cases decoded
  | case3 u whole =>
    rw [decodeUnits,if_neg whole,Option.some.injEq] at decoded
    rw [escapedUnits,if_neg whole,decoded]
  | case4 u v rest high low ih =>
    rw [decodeUnits,if_pos high,if_pos low] at decoded
    obtain ⟨later,inner,rfl⟩ := Option.map_eq_some_iff.mp decoded
    rw [escapedUnits,if_pos high,if_pos low,ih inner]
  | case5 u v rest high lone =>
    rw [decodeUnits,if_pos high,if_neg lone] at decoded
    cases decoded
  | case6 u v rest other low =>
    rw [decodeUnits,if_neg other,if_pos low] at decoded
    cases decoded
  | case7 u v rest other whole ih =>
    rw [decodeUnits,if_neg other,if_neg whole] at decoded
    obtain ⟨later,inner,rfl⟩ := Option.map_eq_some_iff.mp decoded
    rw [escapedUnits,if_neg other,if_neg whole,ih inner]

/-- Units without lone surrogates need no escapes. -/
theorem escaped_of_decode (decoded : decode units = some s) : escaped units = s := by
  obtain ⟨chars,units,rfl⟩ := Option.map_eq_some_iff.mp decoded
  exact congrArg String.ofList (escapedUnits_of_decodeUnits units)

theorem toNat_ofNat {n : Nat} (bound : n < 0x10000) : (UInt16.ofNat n).toNat = n :=
  Nat.mod_eq_of_lt bound

theorem decodeUnits_cons {u : UInt16} (high : ¬ IsHigh u) (low : ¬ IsLow u) (rest : List UInt16) :
    decodeUnits (u :: rest) = (decodeUnits rest).map (Char.ofNat u.toNat :: ·) := by
  cases rest with
  | nil => simp [decodeUnits,high,low]
  | cons v rest => rw [decodeUnits,if_neg high,if_neg low]

/-- A character is no surrogate. -/
theorem char_valid (c : Char) : c.toNat < 0xD800 ∨ 0xDFFF < c.toNat ∧ c.toNat < 0x110000 := c.valid

theorem decodeUnits_encodeChar (c : Char) (rest : List UInt16) :
    decodeUnits (encodeChar c ++ rest) = (decodeUnits rest).map (c :: ·) := by
  have valid := char_valid c
  unfold encodeChar
  split
  · rename_i small
    have size : (UInt16.ofNat c.toNat).toNat = c.toNat := toNat_ofNat small
    have high : ¬ IsHigh (UInt16.ofNat c.toNat) := by unfold IsHigh; omega
    have low : ¬ IsLow (UInt16.ofNat c.toNat) := by unfold IsLow; omega
    rw [List.cons_append,List.nil_append,decodeUnits_cons high low,size,Char.ofNat_toNat]
  · rename_i large
    have first := toNat_ofNat (show 0xD800 + (c.toNat - 0x10000) / 0x400 < 0x10000 by omega)
    have second := toNat_ofNat (show 0xDC00 + (c.toNat - 0x10000) % 0x400 < 0x10000 by omega)
    have high : IsHigh (UInt16.ofNat (0xD800 + (c.toNat - 0x10000) / 0x400)) := by unfold IsHigh; omega
    have low : IsLow (UInt16.ofNat (0xDC00 + (c.toNat - 0x10000) % 0x400)) := by unfold IsLow; omega
    have whole : pair (UInt16.ofNat (0xD800 + (c.toNat - 0x10000) / 0x400))
        (UInt16.ofNat (0xDC00 + (c.toNat - 0x10000) % 0x400)) = c := by
      have code : 0x10000 + (0xD800 + (c.toNat - 0x10000) / 0x400 - 0xD800) * 0x400 +
          (0xDC00 + (c.toNat - 0x10000) % 0x400 - 0xDC00) = c.toNat := by omega
      unfold pair
      rw [first,second,code,Char.ofNat_toNat]
    rw [List.cons_append,List.cons_append,List.nil_append,decodeUnits,if_pos high,if_pos low,whole]

theorem decode_encode (s : String) : decode (encode s) = some s := by
  have each : ∀ text : List Char, decodeUnits (text.flatMap encodeChar) = some text := by
    intro text
    induction text with
    | nil => rfl
    | cons c rest ih => rw [List.flatMap_cons,decodeUnits_encodeChar,ih,Option.map_some]
  unfold decode encode
  rw [each,Option.map_some,String.ofList_toList]

theorem encode_injective : Function.Injective encode := by
  intro first second same
  have decoded := decode_encode first
  rw [same,decode_encode,Option.some.injEq] at decoded
  exact decoded.symm

theorem toNat_charOfNat {n : Nat} (valid : n < 0xD800 ∨ 0xDFFF < n ∧ n < 0x110000) : (Char.ofNat n).toNat = n := by
  have given : n.isValidChar := valid
  rw [Char.ofNat,dif_pos given]
  rfl

theorem encodeChar_small {u : UInt16} (high : ¬ IsHigh u) (low : ¬ IsLow u) :
    encodeChar (Char.ofNat u.toNat) = [u] := by
  have bound : u.toNat < 0x10000 := u.toNat_lt
  have size : (Char.ofNat u.toNat).toNat = u.toNat := by
    apply toNat_charOfNat
    unfold IsHigh at high
    unfold IsLow at low
    omega
  unfold encodeChar
  rw [size,if_pos bound,UInt16.ofNat_toNat]

theorem encodeChar_pair {u v : UInt16} (high : IsHigh u) (low : IsLow v) : encodeChar (pair u v) = [u,v] := by
  unfold IsHigh at high
  unfold IsLow at low
  have size : (pair u v).toNat = 0x10000 + (u.toNat - 0xD800) * 0x400 + (v.toNat - 0xDC00) := by
    apply toNat_charOfNat
    omega
  have first : 0xD800 + ((pair u v).toNat - 0x10000) / 0x400 = u.toNat := by omega
  have second : 0xDC00 + ((pair u v).toNat - 0x10000) % 0x400 = v.toNat := by omega
  unfold encodeChar
  rw [if_neg (by omega),first,second,UInt16.ofNat_toNat,UInt16.ofNat_toNat]

/-- Decoded units are the encoding of their text. -/
theorem encode_of_decode (decoded : decode units = some s) : encode s = units := by
  obtain ⟨chars,given,rfl⟩ := Option.map_eq_some_iff.mp decoded
  clear decoded
  unfold encode
  rw [String.toList_ofList]
  induction units using decodeUnits.induct generalizing chars with
  | case1 =>
    cases given
    rfl
  | case2 u lone =>
    rw [decodeUnits,if_pos lone] at given
    cases given
  | case3 u whole =>
    rw [decodeUnits,if_neg whole,Option.some.injEq] at given
    subst given
    rw [not_or] at whole
    rw [List.flatMap_singleton,encodeChar_small whole.1 whole.2]
  | case4 u v rest high low ih =>
    rw [decodeUnits,if_pos high,if_pos low] at given
    obtain ⟨later,inner,rfl⟩ := Option.map_eq_some_iff.mp given
    rw [List.flatMap_cons,encodeChar_pair high low,ih later inner]
    rfl
  | case5 u v rest high lone =>
    rw [decodeUnits,if_pos high,if_neg lone] at given
    cases given
  | case6 u v rest other low =>
    rw [decodeUnits,if_neg other,if_pos low] at given
    cases given
  | case7 u v rest other whole ih =>
    rw [decodeUnits,if_neg other,if_neg whole] at given
    obtain ⟨later,inner,rfl⟩ := Option.map_eq_some_iff.mp given
    rw [List.flatMap_cons,encodeChar_small other whole,ih later inner]
    rfl

end Utf16
