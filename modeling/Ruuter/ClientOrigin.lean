import Ruuter.Lib.IpText
import Ruuter.Router
import Ruuter.Ssrf

/-! The origin of a request (`resolve_origin` and `canonicalise_ip` of `src/router/mod.rs`) over addresses
and their texts. `Router` has it with the texts of the addresses only; the two agree. -/
namespace Ruuter

open IpText

/-- `IpAddr::from_str`: the whole text is read. -/
def IpAddr.fromStr (s : String) : Option IpAddr :=
  match readIpv4 s.toList with
  | some ((a,b,c,d),rest) => if rest = [] then some (.v4 a b c d) else none
  | none =>
    match readIpv6 s.toList with
    | some (groups,rest) => if rest = [] then some (.v6 groups) else none
    | none => none

/-- `IpAddr::to_string` -/
def IpAddr.text : IpAddr → String
  | .v4 a b c d => String.ofList (octetsText (a,b,c,d))
  | .v6 groups =>
    match ipv4Mapped groups with
    | some octets => String.ofList ("::ffff:".toList ++ octetsText octets)
    | none => String.ofList (plainText groups.toList)

def canonicaliseIp : IpAddr → IpAddr
  | .v6 groups =>
    match ipv4Mapped groups with
    | some (a,b,c,d) => .v4 a b c d
    | none => .v6 groups
  | .v4 a b c d => .v4 a b c d

namespace ClientOrigin

/-- The address that the headers of a trusted peer name. -/
def forwardedIp (headersMap : StringMap String) : Option IpAddr :=
  let forwarded := (((headersMap.lookup "x-forwarded-for").bind fun value =>
    (Text.split value ',').head?).map Text.trim).filter (· ≠ "")
  ((forwarded.or ((headersMap.lookup "x-real-ip").map Text.trim)).bind IpAddr.fromStr).map canonicaliseIp

def trustedParsed (trustedProxies : List String) : List IpAddr :=
  trustedProxies.filterMap fun entry => (IpAddr.fromStr entry).map canonicaliseIp

def peerIpCanon (peerAddr : Option SocketAddr) : Option IpAddr := peerAddr.map fun peer => canonicaliseIp peer.ip

def peerIsTrusted (peerAddr : Option SocketAddr) (trustedProxies : List String) : Bool :=
  match peerIpCanon peerAddr with
  | some ip => (trustedParsed trustedProxies).any (· == ip)
  | none => false

def resolveOrigin (headersMap : StringMap String) (peerAddr : Option SocketAddr)
    (trustedProxies : List String) : String :=
  match if peerIsTrusted peerAddr trustedProxies then forwardedIp headersMap else none with
  | some ip => ip.text
  | none => ((peerIpCanon peerAddr).map IpAddr.text).getD "unknown"

section Texts

/-- The address of version 6 that an address of version 4 is mapped to. -/
def mappedGroups (a b c d : UInt8) : Vector UInt16 8 := ofGroups [0,0,0,0,0,0xffff,fromBe a b,fromBe c d]

theorem fromBe_halves (high low : UInt8) :
    (fromBe high low >>> 8).toUInt8 = high ∧ (fromBe high low).toUInt8 = low := by
  have upper : high.toNat < 256 := UInt8.toNat_lt_size high
  have lower : low.toNat < 256 := UInt8.toNat_lt_size low
  have value : (fromBe high low).toNat = high.toNat * 256 + low.toNat := Nat.mod_eq_of_lt (by omega)
  constructor
  · apply UInt8.toNat_inj.mp
    rw [UInt16.toNat_toUInt8,UInt16.toNat_shiftRight,value]
    show (high.toNat * 256 + low.toNat) >>> 8 % 256 = high.toNat
    rw [Nat.shiftRight_eq_div_pow]
    omega
  · apply UInt8.toNat_inj.mp
    rw [UInt16.toNat_toUInt8,value]
    omega

theorem fromBe_of_halves (group : UInt16) : fromBe (group >>> 8).toUInt8 group.toUInt8 = group := by
  have bound : group.toNat < 65536 := UInt16.toNat_lt_size group
  have upper : (group >>> 8).toUInt8.toNat = group.toNat / 256 := by
    rw [UInt16.toNat_toUInt8,UInt16.toNat_shiftRight]
    show group.toNat >>> 8 % 256 = group.toNat / 256
    rw [Nat.shiftRight_eq_div_pow]
    omega
  have lower : group.toUInt8.toNat = group.toNat % 256 := UInt16.toNat_toUInt8 group
  rw [fromBe,upper,lower,show group.toNat / 256 * 256 + group.toNat % 256 = group.toNat by omega,UInt16.ofNat_toNat]

theorem ipv4Mapped_mappedGroups (a b c d : UInt8) : ipv4Mapped (mappedGroups a b c d) = some (a,b,c,d) := by
  obtain ⟨first,second⟩ := fromBe_halves a b
  obtain ⟨third,fourth⟩ := fromBe_halves c d
  simp [ipv4Mapped,mappedGroups,ofGroups,first,second,third,fourth]

theorem mappedGroups_of_ipv4Mapped (mapped : ipv4Mapped groups = some (a,b,c,d)) : groups = mappedGroups a b c d := by
  unfold ipv4Mapped at mapped
  split at mapped
  · rename_i zeros
    simp only [Bool.and_eq_true,beq_iff_eq] at zeros
    obtain ⟨⟨⟨⟨⟨zero,one⟩,two⟩,three⟩,four⟩,five⟩ := zeros
    simp only [Option.some.injEq,Prod.mk.injEq] at mapped
    obtain ⟨rfl,rfl,rfl,rfl⟩ := mapped
    rw [mappedGroups,fromBe_of_halves,fromBe_of_halves]
    apply Vector.ext
    intro i inside
    have cases : i = 0 ∨ i = 1 ∨ i = 2 ∨ i = 3 ∨ i = 4 ∨ i = 5 ∨ i = 6 ∨ i = 7 := by omega
    rcases cases with rfl | rfl | rfl | rfl | rfl | rfl | rfl | rfl <;> simp [ofGroups,zero,one,two,three,four,five]
  · cases mapped

theorem readIpv4_octets (octets : Octets) : readIpv4 (octetsText octets) = some (octets,[]) := by
  have read := readIpv4_octetsText octets stops_nil
  rwa [List.append_nil] at read

/-- A text with a colon in front is no address of version 4. -/
theorem fromStr_colon (text : List Char) : IpAddr.fromStr (String.ofList ("::ffff:".toList ++ text)) =
    match readIpv6 ("::ffff:".toList ++ text) with
    | some (groups,rest) => if rest = [] then some (.v6 groups) else none
    | none => none := by
  have noAddress : readIpv4 ("::ffff:".toList ++ text) = none := rfl
  rw [IpAddr.fromStr,String.toList_ofList,noAddress]

/-- Behind `::ffff:` a text of an address of version 4 is one of the address it is mapped to. -/
theorem fromStr_mapped (read : IpAddr.fromStr t = some (.v4 a b c d)) :
    IpAddr.fromStr ("::ffff:" ++ t) = some (.v6 (mappedGroups a b c d)) := by
  have address : readIpv4 t.toList = some ((a,b,c,d),[]) := by
    unfold IpAddr.fromStr at read
    split at read
    · rename_i found
      split at read
      · rename_i whole
        cases read
        rw [found,whole]
      · cases read
    · split at read
      · split at read <;> cases read
      · cases read
  have text : "::ffff:" ++ t = String.ofList ("::ffff:".toList ++ t.toList) := by
    apply String.toList_injective
    rw [String.toList_ofList,String.toList_append]
  rw [text,fromStr_colon,readIpv6_mapped t.toList address]
  rfl

/-- Every address is read back from its text. -/
theorem fromStr_text (ip : IpAddr) : IpAddr.fromStr ip.text = some ip := by
  cases ip with
  | v4 a b c d =>
    rw [IpAddr.fromStr,IpAddr.text,String.toList_ofList,readIpv4_octets]
    rfl
  | v6 groups =>
    rw [IpAddr.text]
    cases mapped : ipv4Mapped groups with
    | some octets =>
      obtain ⟨a,b,c,d⟩ := octets
      dsimp only
      rw [fromStr_colon,readIpv6_mapped _ (readIpv4_octets (a,b,c,d)),mappedGroups_of_ipv4Mapped mapped]
      rfl
    | none =>
      have noDot : '.' ∉ plainText groups.toList := by
        unfold plainText
        dsimp only
        split
        · simp only [List.mem_append,List.mem_cons,not_or]
          exact ⟨dot_not_mem_groupsText _,by decide,by decide,dot_not_mem_groupsText _⟩
        · exact dot_not_mem_groupsText _
      dsimp only
      rw [IpAddr.fromStr,String.toList_ofList,readIpv4_noDot noDot,readIpv6_plainText]
      rfl

theorem text_injective : Function.Injective IpAddr.text := by
  intro ip other same
  have read := fromStr_text ip
  rw [same,fromStr_text] at read
  exact (Option.some.inj read).symm

theorem canonicaliseIp_idem (ip : IpAddr) : canonicaliseIp (canonicaliseIp ip) = canonicaliseIp ip := by
  cases ip with
  | v4 a b c d => rfl
  | v6 groups =>
    cases mapped : ipv4Mapped groups with
    | some octets =>
      obtain ⟨a,b,c,d⟩ := octets
      simp only [canonicaliseIp,mapped]
    | none => simp only [canonicaliseIp,mapped]

end Texts

section Agreement

/-- What `Router` calls the canonical text of an address. -/
def canonicalText (t : String) : Option String := (IpAddr.fromStr t).map fun ip => (canonicaliseIp ip).text

/-- The handler of a request resolves its origin in this way. -/
theorem router_resolveOrigin {r : Router} {req : Request} {peerAddr : Option SocketAddr} (texts : r.canonicalIp = canonicalText)
    (peer : req.peer = peerAddr.map fun peer => peer.ip.text) (headersMap : StringMap String) :
    Ruuter.resolveOrigin r req headersMap = resolveOrigin headersMap peerAddr r.trustedProxies := by
  have own : req.peer.bind r.canonicalIp = (peerIpCanon peerAddr).map IpAddr.text := by
    rw [peer,texts]
    cases peerAddr with
    | none => rfl
    | some addr =>
      rw [Option.map_some,Option.bind_some,canonicalText,fromStr_text]
      rfl
  have listed : r.trustedProxies.filterMap r.canonicalIp = (trustedParsed r.trustedProxies).map IpAddr.text := by
    rw [texts,trustedParsed,List.map_filterMap]
    apply List.filterMap_congr
    intro entry _
    rw [canonicalText,Option.map_map]
    rfl
  have named : ∀ candidate : Option String, candidate.bind r.canonicalIp =
      ((candidate.bind IpAddr.fromStr).map canonicaliseIp).map IpAddr.text := by
    intro candidate
    rw [texts]
    cases candidate with
    | none => rfl
    | some t =>
      rw [Option.bind_some,Option.bind_some,canonicalText,Option.map_map]
      rfl
  have trusts : ∀ ip, ((trustedParsed r.trustedProxies).map IpAddr.text).contains ip.text =
      (trustedParsed r.trustedProxies).any (· == ip) := by
    intro ip
    rw [Bool.eq_iff_iff,List.contains_iff_mem,List.mem_map_of_injective text_injective,List.any_eq_true]
    simp
  unfold Ruuter.resolveOrigin resolveOrigin peerIsTrusted
  simp only [own,listed,named]
  cases peerIpCanon peerAddr with
  | none => rfl
  | some ip =>
    simp only [Option.map_some,trusts]
    split
    · show ((forwardedIp headersMap).map IpAddr.text).getD ip.text = _
      cases forwardedIp headersMap <;> rfl
    · rfl

end Agreement

section Spoofing

/-- An address and itself, or the address of version 6 that it is mapped to. -/
inductive Mapped : IpAddr → IpAddr → Prop
  | same : Mapped ip ip
  | mapped : Mapped (.v4 a b c d) (.v6 (mappedGroups a b c d))

/-- An entry of the list and itself, or a text of the address of version 6 that its address is mapped to. -/
def EntryMapped (entry entry' : String) : Prop :=
  entry' = entry ∨ ∃ ip ip', IpAddr.fromStr entry = some ip ∧ IpAddr.fromStr entry' = some ip' ∧ Mapped ip ip'

theorem Mapped.canonicaliseIp (mapped : Mapped ip ip') : canonicaliseIp ip' = canonicaliseIp ip := by
  cases mapped with
  | same => rfl
  | mapped =>
    unfold Ruuter.canonicaliseIp
    simp only [ipv4Mapped_mappedGroups]

theorem EntryMapped.parsed (mapped : EntryMapped entry entry') :
    (IpAddr.fromStr entry').map canonicaliseIp = (IpAddr.fromStr entry).map canonicaliseIp := by
  rcases mapped with rfl | ⟨ip,ip',read,read',mapped⟩
  · rfl
  · rw [read,read',Option.map_some,Option.map_some,mapped.canonicaliseIp]

theorem trustedParsed_mapped (entries : List.Forall₂ EntryMapped trusted trusted') :
    trustedParsed trusted' = trustedParsed trusted := by
  induction entries with
  | nil => rfl
  | cons mapped _ ih =>
    unfold trustedParsed at ih ⊢
    rw [List.filterMap_cons,List.filterMap_cons,mapped.parsed,ih]

theorem peerIpCanon_mapped {peerAddr peerAddr' : Option SocketAddr}
    (peers : Option.Rel (fun peer peer' => Mapped peer.ip peer'.ip) peerAddr peerAddr') :
    peerIpCanon peerAddr' = peerIpCanon peerAddr := by
  cases peers with
  | none => rfl
  | some mapped => exact congrArg some mapped.canonicaliseIp

/-- Headers decide only behind a peer whose address is on the list. -/
theorem resolveOrigin_untrusted (untrusted : peerIsTrusted peerAddr trusted = false) (headersMap : StringMap String) :
    resolveOrigin headersMap peerAddr trusted = ((peerIpCanon peerAddr).map IpAddr.text).getD "unknown" := by
  unfold resolveOrigin
  rw [untrusted,if_neg Bool.false_ne_true]

/-- Headers name the origin only when the peer is on the list; which way an address of version 4 is written does
not matter; and the origin is the text of a canonical address or `unknown`. -/
theorem origin_not_spoofed (peerAddr : Option SocketAddr) (trusted : List String) :
    ((∀ peer ∈ peerAddr, ∀ entry ∈ trusted, ∀ ip, IpAddr.fromStr entry = some ip →
        canonicaliseIp ip ≠ canonicaliseIp peer.ip) →
      ∀ headersMap headersMap', resolveOrigin headersMap peerAddr trusted = resolveOrigin headersMap' peerAddr trusted) ∧
    (∀ peerAddr' trusted', Option.Rel (fun peer peer' => Mapped peer.ip peer'.ip) peerAddr peerAddr' →
      List.Forall₂ EntryMapped trusted trusted' → ∀ headersMap,
        resolveOrigin headersMap peerAddr' trusted' = resolveOrigin headersMap peerAddr trusted) ∧
    (∀ entry a b c d, IpAddr.fromStr entry = some (.v4 a b c d) → EntryMapped entry ("::ffff:" ++ entry)) ∧
    ∀ headersMap, resolveOrigin headersMap peerAddr trusted = "unknown" ∨
      ∃ ip, canonicaliseIp ip = ip ∧ resolveOrigin headersMap peerAddr trusted = ip.text ∧
        IpAddr.fromStr (resolveOrigin headersMap peerAddr trusted) = some ip := by
  refine ⟨?_,?_,?_,?_⟩
  · intro others headersMap headersMap'
    have untrusted : peerIsTrusted peerAddr trusted = false := by
      unfold peerIsTrusted peerIpCanon
      cases peerAddr with
      | none => rfl
      | some peer =>
        apply List.any_eq_false.mpr
        intro ip member
        obtain ⟨entry,listed,read⟩ := List.mem_filterMap.mp member
        obtain ⟨parsed,found,rfl⟩ := Option.map_eq_some_iff.mp read
        exact fun equal => others peer rfl entry listed parsed found (beq_iff_eq.mp equal)
    rw [resolveOrigin_untrusted untrusted,resolveOrigin_untrusted untrusted]
  · intro peerAddr' trusted' peers entries headersMap
    unfold resolveOrigin peerIsTrusted
    rw [peerIpCanon_mapped peers,trustedParsed_mapped entries]
  · intro entry a b c d read
    exact .inr ⟨_,_,read,fromStr_mapped read,.mapped⟩
  · intro headersMap
    have named : ∀ ip, canonicaliseIp ip = ip → resolveOrigin headersMap peerAddr trusted = ip.text →
        ∃ ip, canonicaliseIp ip = ip ∧ resolveOrigin headersMap peerAddr trusted = ip.text ∧
          IpAddr.fromStr (resolveOrigin headersMap peerAddr trusted) = some ip := by
      intro ip canonical result
      exact ⟨ip,canonical,result,by rw [result,fromStr_text]⟩
    cases chosen : (if peerIsTrusted peerAddr trusted then forwardedIp headersMap else none) with
    | some ip =>
      have candidate : forwardedIp headersMap = some ip := by
        split at chosen
        · exact chosen
        · cases chosen
      obtain ⟨parsed,_,rfl⟩ := Option.map_eq_some_iff.mp candidate
      exact .inr (named _ (canonicaliseIp_idem parsed) (by rw [resolveOrigin,chosen]))
    | none =>
      cases peerAddr with
      | none => exact .inl (by rw [resolveOrigin,chosen]; rfl)
      | some peer => exact .inr (named _ (canonicaliseIp_idem peer.ip) (by rw [resolveOrigin,chosen]; rfl))

end Spoofing

end ClientOrigin
end Ruuter
