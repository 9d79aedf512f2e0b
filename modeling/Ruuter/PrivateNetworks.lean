import Ruuter.Lib.Cidr
import Ruuter.Ssrf

/-! The block on private networks (`check_ssrf`, `is_private_or_local`): the blocked addresses as
blocks in the notation of the documentation, and what an accepted request can connect to. -/
namespace Ruuter
open Cidr

/-- The blocked blocks of version 4. -/
def blockedV4 : List Block :=
  [⟨[127,0,0,0],8⟩,⟨[169,254,0,0],16⟩,⟨[0,0,0,0],32⟩,⟨[255,255,255,255],32⟩,⟨[10,0,0,0],8⟩,
   ⟨[172,16,0,0],12⟩,⟨[192,168,0,0],16⟩,⟨[100,64,0,0],10⟩]

/-- The blocked blocks of version 6: `::1`, `::`, `fe80::/10` and `fc00::/7`. -/
def blockedV6 : List Block :=
  [⟨[0,0,0,0,0,0,0,1],128⟩,⟨[0,0,0,0,0,0,0,0],128⟩,⟨[0xfe80,0,0,0,0,0,0,0],10⟩,
   ⟨[0xfc00,0,0,0,0,0,0,0],7⟩]

def octets (a b c d : UInt8) : List Nat := [a.toNat,b.toNat,c.toNat,d.toNat]

def groupsOf (s : Vector UInt16 8) : List Nat := s.toList.map UInt16.toNat

def BlockedV4 (address : List Nat) : Prop := ∃ block ∈ blockedV4, block.Holds 8 address

/-- The addresses the documentation lists. An IPv4-mapped address is the one of version 4 behind
`::ffff:0:0/96`. -/
def Blocked : IpAddr → Prop
  | .v4 a b c d => BlockedV4 (octets a b c d)
  | .v6 s => (∃ block ∈ blockedV6, block.Holds 16 (groupsOf s)) ∨
      ∃ a b c d : UInt8, ofDigits 16 (groupsOf s) = 0xffff * 2 ^ 32 + ofDigits 8 (octets a b c d) ∧
        BlockedV4 (octets a b c d)

/-- What a client connects to: the pinned addresses; without them the address that the URL names,
or any address when it names a host. -/
inductive MayConnect (client : OutboundClient) (url : String) : SsrfResolution → IpAddr → Prop
  | pinned (member : addr ∈ addrs) : MayConnect client url (.pinned host addrs) addr.ip
  | literal (parsed : client.parseUrl url = .ok target) (named : target.host = some host)
      (address : client.parseIp host = some ip) : MayConnect client url .noPinning ip
  | resolved (parsed : client.parseUrl url = .ok target) (named : target.host = some host)
      (name : client.parseIp host = none) (ip : IpAddr) : MayConnect client url .noPinning ip

section Ranges

theorem octets_small (a b c d : UInt8) : ∀ x ∈ octets a b c d, x < 2 ^ 8 := by
  simp only [octets,List.mem_cons,List.not_mem_nil,or_false]
  rintro x (rfl | rfl | rfl | rfl) <;> exact UInt8.toNat_lt _

/-- The eight blocks as tests on octets. -/
theorem blockedV4_iff (a b c d : UInt8) : BlockedV4 (octets a b c d) ↔
    a.toNat = 127 ∨ (a.toNat = 169 ∧ b.toNat = 254) ∨ octets a b c d = [0,0,0,0] ∨
      octets a b c d = [255,255,255,255] ∨ a.toNat = 10 ∨ (a.toNat = 172 ∧ b.toNat / 16 = 1) ∨
      (a.toNat = 192 ∧ b.toNat = 168) ∨ (a.toNat = 100 ∧ b.toNat / 64 = 1) := by
  have small := octets_small a b c d
  have first (y : Nat) (tiny : y < 2 ^ 8) :
      Block.Holds ⟨[y,0,0,0],8⟩ 8 (octets a b c d) ↔ a.toNat = y := by
    refine (Block.holds_iff [] [] [b.toNat,c.toNat,d.toNat] [0,0,0] a.toNat y 8 (Nat.le_refl 8) small
      (by simpa using tiny) rfl rfl).trans ?_
    rw [and_iff_right rfl,Nat.sub_self,Nat.pow_zero,Nat.div_one,Nat.div_one]
  have second (lead y within : Nat) (room : within ≤ 8) (tiny : lead < 2 ^ 8 ∧ y < 2 ^ 8) :
      Block.Holds ⟨[lead,y,0,0],8 * 1 + within⟩ 8 (octets a b c d) ↔
        a.toNat = lead ∧ b.toNat / 2 ^ (8 - within) = y / 2 ^ (8 - within) :=
    (Block.holds_iff [a.toNat] [lead] [c.toNat,d.toNat] [0,0] b.toNat y within room small
      (by simpa using tiny) rfl rfl).trans (and_congr_left fun _ => by simp)
  have whole (base : List Nat) (tiny : ∀ x ∈ base, x < 2 ^ 8) (size : base.length = 4) :
      Block.Holds ⟨base,32⟩ 8 (octets a b c d) ↔ octets a b c d = base :=
    Block.holds_single small tiny size.symm
  have linkLocal := second 169 254 8 (Nat.le_refl 8) (by decide)
  have private172 := second 172 16 4 (by decide) (by decide)
  have private192 := second 192 168 8 (Nat.le_refl 8) (by decide)
  have shared := second 100 64 2 (by decide) (by decide)
  unfold BlockedV4 blockedV4
  simp only [List.mem_cons,List.not_mem_nil,or_false,exists_eq_or_imp,exists_eq_left,
    first 127 (by decide),first 10 (by decide),whole [0,0,0,0] (by decide) rfl,
    whole [255,255,255,255] (by decide) rfl]
  simp only [Nat.reduceMul,Nat.reduceAdd,Nat.reduceSub,Nat.reducePow,Nat.div_one,Nat.reduceDiv]
    at linkLocal private172 private192 shared
  rw [linkLocal,private172,private192,shared]

/-- The tests on octets in `is_private_or_local` are those of the blocks. -/
theorem isPrivateV4_iff (a b c d : UInt8) : isPrivateV4 a b c d = true ↔ BlockedV4 (octets a b c d) := by
  have private172 : (16 ≤ b.toNat ∧ b.toNat ≤ 31) ↔ b.toNat / 16 = 1 := by omega
  have shared : (64 ≤ b.toNat ∧ b.toNat ≤ 127) ↔ b.toNat / 64 = 1 := by omega
  rw [blockedV4_iff]
  unfold isPrivateV4 octets
  simp only [Bool.or_eq_true,Bool.and_eq_true,beq_iff_eq,decide_eq_true_eq,← UInt8.toNat_inj,
    UInt8.le_iff_toNat_le,List.cons.injEq,and_true,or_assoc,and_assoc]
  simp only [UInt8.reduceToNat,private172,shared]

theorem groupsOf_eq (s : Vector UInt16 8) : groupsOf s =
    [(s.get 0).toNat,(s.get 1).toNat,(s.get 2).toNat,(s.get 3).toNat,(s.get 4).toNat,(s.get 5).toNat,
      (s.get 6).toNat,(s.get 7).toNat] := by
  obtain ⟨⟨segments⟩,size⟩ := s
  match segments, size with
  | [_,_,_,_,_,_,_,_], _ => rfl

theorem groupsOf_injective : Function.Injective groupsOf := by
  intro s t same
  have lists : s.toList = t.toList := List.map_injective_iff.mpr (fun _ _ => UInt16.toNat_inj.mp) same
  exact Vector.toList_inj.mp lists

theorem groupsOf_small (s : Vector UInt16 8) : ∀ x ∈ groupsOf s, x < 2 ^ 16 := by
  intro x member
  obtain ⟨segment,_,rfl⟩ := List.mem_map.mp member
  exact UInt16.toNat_lt segment

/-- The mapped address is the one of version 4 in the last 32 bits. -/
theorem ipv4Mapped_iff (s : Vector UInt16 8) (a b c d : UInt8) : ipv4Mapped s = some (a,b,c,d) ↔
    ofDigits 16 (groupsOf s) = 0xffff * 2 ^ 32 + ofDigits 8 (octets a b c d) := by
  have number : 0xffff * 2 ^ 32 + ofDigits 8 (octets a b c d) =
      ofDigits 16 [0,0,0,0,0,0xffff,a.toNat * 256 + b.toNat,c.toNat * 256 + d.toNat] := by
    simp only [octets,ofDigits,List.length_cons,List.length_nil]
    omega
  have sizes := octets_small a b c d
  simp only [octets,List.mem_cons,List.not_mem_nil,or_false,forall_eq_or_imp,forall_eq] at sizes
  obtain ⟨sizeA,sizeB,sizeC,sizeD⟩ := sizes
  have digits : ofDigits 16 (groupsOf s) =
      ofDigits 16 [0,0,0,0,0,0xffff,a.toNat * 256 + b.toNat,c.toNat * 256 + d.toNat] ↔
      groupsOf s = [0,0,0,0,0,0xffff,a.toNat * 256 + b.toNat,c.toNat * 256 + d.toNat] := by
    refine ⟨ofDigits_injective (by simp [groupsOf]) (groupsOf_small s) ?_,congrArg _⟩
    simp only [List.mem_cons,List.not_mem_nil,or_false,forall_eq_or_imp,forall_eq]
    omega
  have halves (x : UInt16) (high low : UInt8) : ((x >>> 8).toUInt8 = high ∧ x.toUInt8 = low) ↔
      x.toNat = high.toNat * 256 + low.toNat := by
    have size := UInt16.toNat_lt x
    have bound := UInt8.toNat_lt low
    have up := UInt8.toNat_lt high
    rw [← UInt8.toNat_inj,← UInt8.toNat_inj,UInt16.toNat_toUInt8,UInt16.toNat_toUInt8,UInt16.toNat_shiftRight]
    simp only [UInt16.reduceToNat,Nat.reduceMod,Nat.shiftRight_eq_div_pow]
    omega
  have listed : groupsOf s =
      [s[0].toNat,s[1].toNat,s[2].toNat,s[3].toNat,s[4].toNat,s[5].toNat,s[6].toNat,s[7].toNat] := groupsOf_eq s
  rw [number,digits,listed]
  unfold ipv4Mapped
  simp only [List.cons.injEq,and_true,← halves]
  split
  · rename_i zeros
    simp only [Bool.and_eq_true,beq_iff_eq] at zeros
    simp [zeros,and_assoc]
  · rename_i other
    simp only [Bool.and_eq_true,beq_iff_eq,← UInt16.toNat_inj,UInt16.reduceToNat] at other
    refine iff_of_false (by rintro ⟨⟩) ?_
    rintro ⟨zero,one,two,three,four,five,_⟩
    exact other ⟨⟨⟨⟨⟨zero,one⟩,two⟩,three⟩,four⟩,five⟩

/-- The two single addresses and the two blocks of version 6. -/
theorem blockedV6_iff (s : Vector UInt16 8) : (∃ block ∈ blockedV6, block.Holds 16 (groupsOf s)) ↔
    s = #v[0,0,0,0,0,0,0,1] ∨ s = #v[0,0,0,0,0,0,0,0] ∨ (s.get 0).toNat / 64 = 0xfe80 / 64 ∨
      (s.get 0).toNat / 512 = 0xfc00 / 512 := by
  have small := groupsOf_small s
  have whole (t : Vector UInt16 8) : Block.Holds ⟨groupsOf t,128⟩ 16 (groupsOf s) ↔ s = t := by
    rw [show 128 = 16 * (groupsOf s).length by simp [groupsOf]]
    exact (Block.holds_single small (groupsOf_small t) (by simp [groupsOf])).trans groupsOf_injective.eq_iff
  rw [groupsOf_eq] at small
  have first (y within : Nat) (room : within ≤ 16) (tiny : y < 2 ^ 16) :
      Block.Holds ⟨[y,0,0,0,0,0,0,0],16 * 0 + within⟩ 16 (groupsOf s) ↔
        (s.get 0).toNat / 2 ^ (16 - within) = y / 2 ^ (16 - within) := by
    rw [groupsOf_eq]
    exact (Block.holds_iff [] [] _ [0,0,0,0,0,0,0] _ y within room small (by simpa using tiny) rfl rfl).trans
      (and_iff_right rfl)
  have local6 := first 0xfe80 10 (by decide) (by decide)
  have unique6 := first 0xfc00 7 (by decide) (by decide)
  unfold blockedV6
  simp only [List.mem_cons,List.not_mem_nil,or_false,exists_eq_or_imp,exists_eq_left]
  exact or_congr (whole #v[0,0,0,0,0,0,0,1]) (or_congr (whole #v[0,0,0,0,0,0,0,0]) (or_congr local6 unique6))

/-- The masks of `is_private_or_local` cut off the first bits. -/
theorem masked_iff (x mask base : UInt16) (kept : Nat) (room : kept ≤ 16)
    (shape : mask.toNat = 2 ^ 16 - 2 ^ kept) (aligned : base.toNat % 2 ^ kept = 0) :
    (x &&& mask == base) = true ↔ x.toNat / 2 ^ kept = base.toNat / 2 ^ kept := by
  rw [beq_iff_eq,← UInt16.toNat_inj,UInt16.toNat_and,shape,and_mask (UInt16.toNat_lt x) room]
  have whole := Nat.div_add_mod base.toNat (2 ^ kept)
  rw [aligned,Nat.add_zero] at whole
  rw [← whole,Nat.mul_div_cancel_left _ (Nat.two_pow_pos kept)]
  exact Nat.mul_right_inj (Nat.two_pow_pos kept).ne'

/-- A mapped address begins with zeros. -/
theorem ipv4Mapped_first (found : ipv4Mapped s = some v4) : (s.get 0).toNat = 0 := by
  unfold ipv4Mapped at found
  split at found
  · rename_i zeros
    simp only [Bool.and_eq_true,beq_iff_eq] at zeros
    exact congrArg UInt16.toNat zeros.1.1.1.1.1
  · cases found

/-- `is_private_or_local` holds for the addresses on the list. -/
theorem isPrivateOrLocal_iff (ip : IpAddr) : isPrivateOrLocal ip = true ↔ Blocked ip := by
  cases ip with
  | v4 a b c d => exact isPrivateV4_iff a b c d
  | v6 s =>
    have linkLocal := masked_iff s[0] 0xffc0 0xfe80 6 (by decide) (by decide) (by decide)
    have uniqueLocal := masked_iff s[0] 0xfe00 0xfc00 9 (by decide) (by decide) (by decide)
    simp only [Blocked,blockedV6_iff,← ipv4Mapped_iff,isPrivateOrLocal,Bool.or_eq_true,beq_iff_eq]
    by_cases single : s = #v[0,0,0,0,0,0,0,1] ∨ s = #v[0,0,0,0,0,0,0,0]
    · rw [if_pos single]
      exact iff_of_true rfl (.inl (single.imp id .inl))
    rw [if_neg single]
    rw [not_or] at single
    simp only [single.1,single.2,false_or]
    cases mapped : ipv4Mapped s with
    | some v4 =>
      obtain ⟨a,b,c,d⟩ := v4
      have zero := ipv4Mapped_first mapped
      simp only [isPrivateV4_iff,zero,Option.some.injEq,Prod.mk.injEq]
      constructor
      · intro blocked
        exact .inr ⟨a,b,c,d,⟨rfl,rfl,rfl,rfl⟩,blocked⟩
      · rintro (lead | ⟨_,_,_,_,⟨rfl,rfl,rfl,rfl⟩,blocked⟩)
        · exact absurd lead (by decide)
        · exact blocked
    | none =>
      simp only [Bool.or_eq_true,linkLocal,uniqueLocal,reduceCtorEq,false_and,exists_false,or_false]
      exact Iff.rfl

end Ranges

section Requests
variable (client : OutboundClient)

/-- A target that passes the block: a literal that is not blocked, or a host with checked
addresses. -/
theorem checkPrivate_ok (passed : checkPrivate client lookupHost url = .ok resolution) :
    ∃ target host, client.parseUrl url = .ok target ∧ target.host = some host ∧
      ((∃ ip, client.parseIp host = some ip ∧ isPrivateOrLocal ip = false ∧ resolution = .noPinning) ∨
        ∃ addrs, (∀ addr ∈ addrs, isPrivateOrLocal addr.ip = false) ∧ resolution = .pinned host addrs) := by
  obtain ⟨⟨host,target⟩,found,rest⟩ := Eff.except_bind_inv passed
  have named : client.parseUrl url = .ok target ∧ target.host = some host := by
    unfold hostOf at found
    split at found
    · cases found
    · rename_i parsed given
      split at found
      · cases found
      · rename_i name held
        cases found
        exact ⟨given,held⟩
  refine ⟨target,host,named.1,named.2,?_⟩
  dsimp only at rest
  split at rest
  · rename_i ip literal
    split at rest
    · cases rest
    · rename_i allowed
      cases rest
      exact .inl ⟨ip,literal,Bool.not_eq_true _ ▸ allowed,rfl⟩
  · split at rest
    · cases rest
    · rename_i addrs _
      obtain ⟨_,checked,rest⟩ := Eff.except_bind_inv rest
      split at rest
      · cases rest
      · cases rest
        exact .inr ⟨addrs,(checkAddrs_ok_iff client).mp checked,rfl⟩

theorem checkSsrf_ok (block : client.blockPrivateNetworks = true) (urls : client.allowedUrlPrefixes = [])
    (ips : client.allowedIpHosts = []) (passed : checkSsrf client lookupHost url = .ok resolution) :
    checkPrivate client lookupHost url = .ok resolution := by
  unfold checkSsrf at passed
  split at passed
  · cases passed
  · obtain ⟨_,_,rest⟩ := Eff.except_bind_inv passed
    obtain ⟨_,_,rest⟩ := Eff.except_bind_inv rest
    rwa [if_pos (by simp [block,urls,ips])] at rest

/-- With the block on and no allow-list, a request that is let through connects to no blocked
address. -/
theorem private_networks_blocked (block : client.blockPrivateNetworks = true)
    (urls : client.allowedUrlPrefixes = []) (ips : client.allowedIpHosts = [])
    (lookupHost : String → Except String (List SocketAddr)) (url : String) :
    (∀ resolution, checkSsrf client lookupHost url = .ok resolution →
      ∀ ip, MayConnect client url resolution ip → ¬ Blocked ip) ∧
    ∀ ip, isPrivateOrLocal ip = true ↔ Blocked ip := by
  refine ⟨?_,isPrivateOrLocal_iff⟩
  intro resolution passed ip connects
  have clear {ip : IpAddr} (allowed : isPrivateOrLocal ip = false) : ¬ Blocked ip := by
    rw [← isPrivateOrLocal_iff,allowed]
    exact Bool.false_ne_true
  obtain ⟨target,host,parsed,named,⟨literal,address,allowed,rfl⟩ | ⟨addrs,checked,rfl⟩⟩ :=
    checkPrivate_ok client (checkSsrf_ok client block urls ips passed)
  · cases connects with
    | literal again same known =>
      cases parsed.symm.trans again
      cases named.symm.trans same
      cases address.symm.trans known
      exact clear allowed
    | resolved again same name =>
      cases parsed.symm.trans again
      cases named.symm.trans same
      cases address.symm.trans name
  · cases connects with
    | pinned member => exact clear (checked _ member)

/-- A client that knows two URLs, one by its public address and one by a name. -/
def publicClient : OutboundClient :=
  { parseUrl := fun text =>
      if text = "http://8.8.8.8/" then .ok { scheme := "http", host := some "8.8.8.8", path := "/" }
      else if text = "http://dns.test/" then .ok { scheme := "http", host := some "dns.test", path := "/" }
      else .error "relative URL without a base"
    parseIp := fun host => if host = "8.8.8.8" then some (.v4 8 8 8 8) else none }

def publicLookup (target : String) : Except String (List SocketAddr) :=
  if target = "dns.test:80" then .ok [⟨.v4 8 8 8 8,80⟩] else .error "failed to lookup address information"

/-- A literal address is connected to as it is, and a name by the address it was looked up as. -/
theorem public_connects :
    (checkSsrf publicClient publicLookup "http://8.8.8.8/" = .ok .noPinning ∧
      MayConnect publicClient "http://8.8.8.8/" .noPinning (.v4 8 8 8 8)) ∧
    (checkSsrf publicClient publicLookup "http://dns.test/" = .ok (.pinned "dns.test" [⟨.v4 8 8 8 8,80⟩]) ∧
      MayConnect publicClient "http://dns.test/" (.pinned "dns.test" [⟨.v4 8 8 8 8,80⟩]) (.v4 8 8 8 8)) ∧
    ¬ Blocked (.v4 8 8 8 8) := by
  have literal : checkSsrf publicClient publicLookup "http://8.8.8.8/" = .ok .noPinning := rfl
  have named : checkSsrf publicClient publicLookup "http://dns.test/" =
      .ok (.pinned "dns.test" [⟨.v4 8 8 8 8,80⟩]) := rfl
  have connects : MayConnect publicClient "http://dns.test/"
      (.pinned "dns.test" [⟨.v4 8 8 8 8,80⟩]) (.v4 8 8 8 8) := .pinned List.mem_cons_self
  exact ⟨⟨literal,.literal rfl rfl rfl⟩,⟨named,connects⟩,
    (private_networks_blocked publicClient rfl rfl rfl publicLookup _).1 _ named _ connects⟩

end Requests
end Ruuter
