/-
# The bytes of an address on the wire

The array of a `CNetAddr` has 64 bytes, all of which are written to the wire; no constructor fills
more than 41 of them.  The others are whatever was in the place where the object was put, and they go
along with every copy.

`serialize_eq_iff` says, for every way to build an address, which bytes of which place must be the same
for two builds to be: from the seventeenth on, or from the forty-second for an onion name.
-/
import Breakout.HexText
import Breakout.NetAddr

namespace Breakout

open Lib

/-! ## 1. Constructors -/

/-- What was in the places of the objects that are built, in the order they are. -/
abbrev Storage := Nat → CNetAddr

/-- The places after the first so many. -/
def Storage.shift (m : Storage) (n : Nat) : Storage := fun i => m (n + i)

def pchIPv4 : Valtype := [0, 0, 0, 0, 0, 0, 0, 0, 0, 0, 0xff, 0xff]

/-- `struct in_addr`, its four bytes. -/
abbrev InAddr := { l : Valtype // l.length = 4 }
/-- `struct in6_addr` -/
abbrev In6Addr := { l : Valtype // l.length = 16 }

/-- `struct sockaddr`, by its family. -/
inductive SockAddr where
  | inet (sin_addr : InAddr) (sin_port : UInt16)
  | inet6 (sin6_addr : In6Addr) (sin6_port : UInt16)
  | unspec

/-- What the build and the system decide: `USE_IPV6`, and the addresses that `getaddrinfo` finds for a
name, without or with asking a server. -/
structure Host where
  useIPv6 : Bool
  getaddrinfo : List Char → Bool → List SockAddr

structure CService where
  addr : CNetAddr
  port : UInt16

namespace CNetAddr

def init (a : CNetAddr) : CNetAddr := a.write [] (List.replicate 16 0) (by decide)

/-- `CNetAddr(in_addr)` -/
def ofInAddr (a : CNetAddr) (ipv4Addr : InAddr) : CNetAddr :=
  a.write pchIPv4 ipv4Addr.val (by rw [List.length_append, ipv4Addr.property]; decide)

/-- `CNetAddr(in6_addr)` -/
def ofIn6Addr (a : CNetAddr) (ipv6Addr : In6Addr) : CNetAddr :=
  a.write [] ipv6Addr.val (by rw [List.length_append, ipv6Addr.property]; decide)

/-- The bytes it serialises: `FLATDATA(ip)`. -/
def serialize (a : CNetAddr) : Valtype := a.ip

end CNetAddr

/-! ## 2. Names -/

/-- The addresses that `LookupIntern` pushes, of those that were found. -/
def solutions (fUseIPv6 : Bool) (nMaxSolutions : Nat) (m : Storage) :
    List SockAddr → List CNetAddr → List CNetAddr
  | [], vIP => vIP
  | aiTrav :: rest, vIP =>
    if nMaxSolutions = 0 ∨ vIP.length < nMaxSolutions then
      match aiTrav with
      | .inet sin_addr _ =>
        solutions fUseIPv6 nMaxSolutions m rest (vIP ++ [(m vIP.length).ofInAddr sin_addr])
      | .inet6 sin6_addr _ =>
        if fUseIPv6 then
          solutions fUseIPv6 nMaxSolutions m rest (vIP ++ [(m vIP.length).ofIn6Addr sin6_addr])
        else solutions fUseIPv6 nMaxSolutions m rest vIP
      | .unspec => solutions fUseIPv6 nMaxSolutions m rest vIP
    else vIP

/-- `LookupIntern`: what it returns, and `vIP`. -/
def lookupIntern (host : Host) (pszName : List Char) (nMaxSolutions : Nat) (fAllowLookup : Bool)
    (m : Storage) : Bool × List CNetAddr :=
  match (m 0).init.setSpecial pszName with
  | (true, addr) => (true, [addr])
  | (false, _) =>
    let vIP := solutions host.useIPv6 nMaxSolutions (m.shift 1)
      (host.getaddrinfo pszName fAllowLookup) []
    (!vIP.isEmpty, vIP)

/-- The text of a C string. -/
def cString (s : List Char) : List Char := s.takeWhile (· ≠ Char.ofNat 0)

/-- A text without the brackets around it. -/
def unbracket (s : List Char) : List Char :=
  if s.head? = some '[' ∧ s.getLast? = some ']' then s.tail.dropLast else s

def lookupHost (host : Host) (pszName : List Char) (nMaxSolutions : Nat) (fAllowLookup : Bool)
    (m : Storage) : Bool × List CNetAddr :=
  if pszName = [] then (false, [])
  else lookupIntern host (unbracket (pszName.take 255)) nMaxSolutions fAllowLookup m

/-- `strtol` in base ten: the number, and what is left of the text. -/
def strtol (s : List Char) : Int × List Char :=
  let t := s.dropWhile isSpace
  let (sign, u) := match t with
    | '-' :: u => ((-1 : Int), u)
    | '+' :: u => (1, u)
    | u => (1, u)
  let digits := u.takeWhile (·.isDigit)
  let n : Nat := digits.foldl (fun n c => 10 * n + (c.toNat - 48)) 0
  if digits = [] then (0, s)
  else (max (-2 ^ 63) (min (2 ^ 63 - 1) (sign * n)), u.drop digits.length)

/-- `SplitHostPort`: the port and the host. -/
def splitHostPort (text : List Char) (portOut : Int) : Int × List Char :=
  let after := (text.reverse.takeWhile (· ≠ ':')).reverse
  let before := text.take (text.length - after.length - 1)
  let fHaveColon := decide (':' ∈ text)
  let fBracketed := decide (text.head? = some '[' ∧ before.getLast? = some ']')
  let fMultiColon := decide (':' ∈ before)
  let (n, endp) := strtol after
  let n := (Int32.ofInt n).toInt
  if fHaveColon ∧ (before = [] ∨ fBracketed ∨ ¬ fMultiColon) ∧ endp = [] ∧ 0 ≤ n then
    (if 0 < n ∧ n < 0x10000 then n else portOut, unbracket before)
  else (portOut, unbracket text)

def lookup (host : Host) (pszName : List Char) (portDefault : Int) (fAllowLookup : Bool)
    (nMaxSolutions : Nat) (m : Storage) : Bool × List CService :=
  if pszName = [] then (false, [])
  else
    let (port, hostname) := splitHostPort pszName portDefault
    let (fRet, vIP) := lookupIntern host hostname nMaxSolutions fAllowLookup m
    if fRet then (true, vIP.map fun addr => ⟨addr, UInt16.ofInt port⟩) else (false, [])

/-- `CNetAddr(strIp, fAllowLookup)` -/
def CNetAddr.ofString (host : Host) (strIp : List Char) (fAllowLookup : Bool) (m : Storage) :
    CNetAddr :=
  match lookupHost host (cString strIp) 1 fAllowLookup (m.shift 1) with
  | (true, addr :: _) => addr
  | _ => (m 0).init

namespace CService

/-- `CService()` -/
def default (m : Storage) : CService := ⟨(m 0).init, 0⟩

/-- `CService(strIpPort, portDefault, fAllowLookup)`.  The other objects on the way are assigned to
before they are read. -/
def ofString (host : Host) (strIpPort : List Char) (portDefault : Int) (fAllowLookup : Bool)
    (m : Storage) : CService :=
  match lookup host (cString strIpPort) portDefault fAllowLookup 1 (m.shift 1) with
  | (true, addr :: _) => addr
  | _ => default m

def setSockAddr (host : Host) (addr : CService) (paddr : SockAddr) (m : Storage) : Bool × CService :=
  match paddr with
  | .inet sin_addr sin_port => (true, ⟨(m 0).ofInAddr sin_addr, sin_port⟩)
  | .inet6 sin6_addr sin6_port =>
    if host.useIPv6 then (true, ⟨(m 0).ofIn6Addr sin6_addr, sin6_port⟩) else (false, addr)
  | .unspec => (false, addr)

end CService

/-- `SetIP`, and every assignment and copy: into a `CService`, a `CAddress` or a `CAddrInfo` and out of
them, all the bytes go. -/
def CNetAddr.setIP (_ ipIn : CNetAddr) : CNetAddr where
  ip := ipIn.ip
  size := ipIn.size

/-! ## 3. Builds -/

/-- The ways an address is built. -/
inductive Build where
  | default
  | inAddr (ipv4Addr : InAddr)
  | in6Addr (ipv6Addr : In6Addr)
  | sockAddr (paddr : SockAddr)
  | ofString (strIp : List Char) (fAllowLookup : Bool)
  | service (strIpPort : List Char) (portDefault : Int) (fAllowLookup : Bool)
  | copy (b : Build)

namespace Build

/-- The address, its object in the first place. -/
def run (host : Host) : Build → Storage → CNetAddr
  | default, m => (m 0).init
  | inAddr ipv4Addr, m => (m 0).ofInAddr ipv4Addr
  | in6Addr ipv6Addr, m => (m 0).ofIn6Addr ipv6Addr
  | sockAddr paddr, m => (CService.setSockAddr host (CService.default m) paddr (m.shift 1)).2.addr
  | ofString strIp fAllowLookup, m => CNetAddr.ofString host strIp fAllowLookup m
  | service strIpPort portDefault fAllowLookup, m =>
    (CService.ofString host strIpPort portDefault fAllowLookup m).addr
  | copy b, m => (m 0).setIP (b.run host (m.shift 1))

end Build

/-- Some bytes are filled, and the others are left from what was in one place. -/
structure Leaves (make : Storage → CNetAddr) (place n : Nat) : Prop where
  filled : ∃ bytes : Valtype, bytes.length = n ∧
    ∀ m, (make m).ip = bytes ++ (m place).ip.drop n

variable {make : Storage → CNetAddr} {place n : Nat}

theorem Leaves.serialize_eq (h : Leaves make place n) (m m' : Storage) :
    (make m).serialize = (make m').serialize ↔
      (m place).ip.drop n = (m' place).ip.drop n := by
  obtain ⟨bytes, -, heq⟩ := h.filled
  rw [CNetAddr.serialize, CNetAddr.serialize, heq, heq, List.append_right_inj]

theorem Leaves.shift (h : Leaves make place n) (k : Nat) :
    Leaves (fun m => make (m.shift k)) (k + place) n := by
  obtain ⟨bytes, hlength, heq⟩ := h.filled
  exact ⟨bytes, hlength, fun m => heq (m.shift k)⟩

theorem leaves_write {cat vchAddr : Valtype} (h : (cat ++ vchAddr).length ≤ 64)
    (hn : (cat ++ vchAddr).length = n) :
    Leaves (fun m => (m place).write cat vchAddr h) place n :=
  ⟨cat ++ vchAddr, hn, fun m => by rw [← hn]; rfl⟩

theorem leaves_init (place : Nat) : Leaves (fun m => (m place).init) place 16 :=
  leaves_write (by decide) (by decide)

theorem leaves_ofInAddr (ipv4Addr : InAddr) (place : Nat) :
    Leaves (fun m => (m place).ofInAddr ipv4Addr) place 16 :=
  leaves_write _ (by rw [List.length_append, ipv4Addr.property]; rfl)

theorem leaves_ofIn6Addr (ipv6Addr : In6Addr) (place : Nat) :
    Leaves (fun m => (m place).ofIn6Addr ipv6Addr) place 16 :=
  leaves_write _ (by rw [List.nil_append, ipv6Addr.property])

/-! ## 4. Names -/

/-- A name with the suffix of onion names. -/
def OnionName (pszName : List Char) : Prop :=
  pszName.length > strOnionSuffix.length ∧
    pszName.drop (pszName.length - strOnionSuffix.length) = strOnionSuffix

instance (pszName : List Char) : Decidable (OnionName pszName) :=
  inferInstanceAs (Decidable (_ ∧ _))

/-- How many bytes a name of a hidden service fills. -/
def nameBytes (pszName : List Char) : Nat := if OnionName pszName then 41 else 16

/-- `SetSpecial` on an address that was initialised: whether it can is about the name alone, and so is
what it fills. -/
theorem setSpecial_cases (pszName : List Char) :
    (∀ a : CNetAddr, a.setSpecial pszName = (false, a)) ∨
      ∃ bytes : Valtype, bytes.length = nameBytes pszName ∧ 16 ≤ bytes.length ∧
        ∀ a : CNetAddr, ∃ addr, a.setSpecial pszName = (true, addr) ∧
          addr.ip = bytes ++ a.ip.drop bytes.length := by
  unfold CNetAddr.setSpecial
  dsimp only
  split_ifs with honion hdecode hgarlic hdecode
  · have h41 : (pchOnionCat ++ decodeBase32 (pszName.take
        (pszName.length - strOnionSuffix.length))).length = 41 := by
      rw [List.length_append, hdecode]
      rfl
    exact Or.inr ⟨_, h41.trans (if_pos honion).symm, h41 ▸ by decide, fun a => ⟨_, rfl, rfl⟩⟩
  · exact Or.inl fun _ => rfl
  · have h16 : (pchOnionCat ++ decodeBase32 (pszName.take
        (pszName.length - strGarlicSuffix.length))).length = 16 := by
      rw [List.length_append, hdecode]
      rfl
    exact Or.inr ⟨_, h16.trans (if_neg honion).symm, h16 ▸ le_rfl, fun a => ⟨_, rfl, rfl⟩⟩
  · exact Or.inl fun _ => rfl
  · exact Or.inl fun _ => rfl

/-- An address that `getaddrinfo` found is taken. -/
def usable (fUseIPv6 : Bool) : SockAddr → Bool
  | .inet _ _ => true
  | .inet6 _ _ => fUseIPv6
  | .unspec => false

/-- Of one address at most, the first that is taken is in the first place. -/
theorem solutions_one (fUseIPv6 : Bool) : ∀ aiRes : List SockAddr,
    (aiRes.any (usable fUseIPv6) = false ∧ ∀ m, solutions fUseIPv6 1 m aiRes [] = []) ∨
      (aiRes.any (usable fUseIPv6) = true ∧ ∃ make, Leaves make 0 16 ∧
        ∀ m, solutions fUseIPv6 1 m aiRes [] = [make m])
  | [] => Or.inl ⟨rfl, fun _ => rfl⟩
  | aiTrav :: rest => by
    have hdone : ∀ (m : Storage) (addr : CNetAddr), solutions fUseIPv6 1 m rest [addr] = [addr] := by
      intro m addr
      cases rest with
      | nil => rfl
      | cons _ _ => exact if_neg (by simp)
    have hskip (h : usable fUseIPv6 aiTrav = false)
        (hnext : ∀ m, solutions fUseIPv6 1 m (aiTrav :: rest) [] = solutions fUseIPv6 1 m rest []) := by
      have ih := solutions_one fUseIPv6 rest
      rw [← Bool.false_or (rest.any _), ← h, ← List.any_cons] at ih
      simpa only [hnext] using ih
    cases aiTrav with
    | inet sin_addr sin_port =>
      exact Or.inr ⟨rfl, _, leaves_ofInAddr sin_addr 0, fun m => hdone m _⟩
    | inet6 sin6_addr sin6_port =>
      cases fUseIPv6 with
      | false => exact hskip rfl fun _ => rfl
      | true => exact Or.inr ⟨rfl, _, leaves_ofIn6Addr sin6_addr 0, fun m => hdone m _⟩
    | unspec => exact hskip rfl fun _ => rfl

/-- The place of the address that a name is looked up as, and how many bytes of it are filled. -/
def nameOrigin (host : Host) (pszName : List Char) (fAllowLookup : Bool) : Option (Nat × Nat) :=
  if (HiddenService.zeroed.setSpecial pszName).1 then some (0, nameBytes pszName)
  else if (host.getaddrinfo pszName fAllowLookup).any (usable host.useIPv6) then some (1, 16)
  else none

theorem init_drop {a : CNetAddr} (h : 16 ≤ n) : a.init.ip.drop n = a.ip.drop n := by
  obtain ⟨k, rfl⟩ := Nat.exists_eq_add_of_le h
  rw [CNetAddr.init, CNetAddr.write, ← List.drop_drop]
  rw [← List.drop_drop]
  rfl

/-- **What a name is looked up as.** -/
theorem lookupIntern_cases (host : Host) (pszName : List Char) (fAllowLookup : Bool) :
    (nameOrigin host pszName fAllowLookup = none ∧
        ∀ m, lookupIntern host pszName 1 fAllowLookup m = (false, [])) ∨
      ∃ place n make, nameOrigin host pszName fAllowLookup = some (place, n) ∧ Leaves make place n ∧
        ∀ m, lookupIntern host pszName 1 fAllowLookup m = (true, [make m]) := by
  unfold nameOrigin lookupIntern
  rcases setSpecial_cases pszName with hplain | ⟨bytes, hlength, hlong, hspecial⟩
  · simp only [hplain, Bool.false_eq_true, if_false]
    rcases solutions_one host.useIPv6 (host.getaddrinfo pszName fAllowLookup) with
      ⟨hnone, hsolutions⟩ | ⟨hsome, make, hmake, hsolutions⟩
    · left
      simp only [hnone, hsolutions, Bool.false_eq_true, if_false]
      exact ⟨trivial, fun _ => rfl⟩
    · right
      simp only [hsome, hsolutions, if_true]
      exact ⟨1, 16, _, rfl, hmake.shift 1, fun _ => rfl⟩
  · right
    obtain ⟨addr, hzeroed, -⟩ := hspecial HiddenService.zeroed
    rw [hzeroed, if_pos rfl]
    choose make hmake hip using hspecial
    refine ⟨0, nameBytes pszName, fun m => make (m 0).init, rfl, ⟨bytes, hlength, fun m => ?_⟩,
      fun m => ?_⟩
    · rw [hip, init_drop hlong, hlength]
    · rw [hmake]

/-! ## 5. What is left over -/

namespace Build

/-- The place that the bytes come from that were not filled, and how many were. -/
def origin (host : Host) : Build → Nat × Nat
  | default | inAddr _ | in6Addr _ => (0, 16)
  | sockAddr paddr => if usable host.useIPv6 paddr then (1, 16) else (0, 16)
  | ofString strIp fAllowLookup =>
    if cString strIp = [] then (0, 16)
    else match nameOrigin host (unbracket ((cString strIp).take 255)) fAllowLookup with
      | some (place, n) => (1 + place, n)
      | none => (0, 16)
  | service strIpPort portDefault fAllowLookup =>
    if cString strIpPort = [] then (0, 16)
    else match nameOrigin host (splitHostPort (cString strIpPort) portDefault).2 fAllowLookup with
      | some (place, n) => (1 + place, n)
      | none => (0, 16)
  | copy b => (1 + (b.origin host).1, (b.origin host).2)

theorem leaves_sockAddr (host : Host) (paddr : SockAddr) :
    Leaves (fun m => (CService.setSockAddr host (CService.default m) paddr (m.shift 1)).2.addr)
      ((sockAddr paddr).origin host).1 ((sockAddr paddr).origin host).2 := by
  cases paddr with
  | inet sin_addr sin_port => exact leaves_ofInAddr sin_addr 1
  | inet6 sin6_addr sin6_port =>
    unfold origin CService.setSockAddr usable
    cases host.useIPv6 with
    | false => exact leaves_init 0
    | true => exact leaves_ofIn6Addr sin6_addr 1
  | unspec => exact leaves_init 0

theorem leaves_ofString (host : Host) (strIp : List Char) (fAllowLookup : Bool) :
    Leaves (fun m => CNetAddr.ofString host strIp fAllowLookup m)
      ((ofString strIp fAllowLookup).origin host).1 ((ofString strIp fAllowLookup).origin host).2 := by
  unfold origin CNetAddr.ofString lookupHost
  split_ifs with hempty
  · exact leaves_init 0
  · rcases lookupIntern_cases host (unbracket ((cString strIp).take 255)) fAllowLookup with
      ⟨horigin, hlookup⟩ | ⟨place, n, make, horigin, hmake, hlookup⟩
    all_goals simp only [horigin, hlookup]
    · exact leaves_init 0
    · exact hmake.shift 1

theorem leaves_service (host : Host) (strIpPort : List Char) (portDefault : Int)
    (fAllowLookup : Bool) :
    Leaves (fun m => (CService.ofString host strIpPort portDefault fAllowLookup m).addr)
      ((service strIpPort portDefault fAllowLookup).origin host).1
      ((service strIpPort portDefault fAllowLookup).origin host).2 := by
  unfold origin CService.ofString lookup
  split_ifs with hempty
  · exact leaves_init 0
  · rcases lookupIntern_cases host (splitHostPort (cString strIpPort) portDefault).2 fAllowLookup
      with ⟨horigin, hlookup⟩ | ⟨place, n, make, horigin, hmake, hlookup⟩
    all_goals simp only [horigin, hlookup, if_true, Bool.false_eq_true, if_false, List.map_cons]
    · exact leaves_init 0
    · exact hmake.shift 1

/-- **Every build leaves bytes over.** -/
theorem leaves (host : Host) : ∀ b : Build,
    Leaves (b.run host) (b.origin host).1 (b.origin host).2
  | default => leaves_init 0
  | inAddr ipv4Addr => leaves_ofInAddr ipv4Addr 0
  | in6Addr ipv6Addr => leaves_ofIn6Addr ipv6Addr 0
  | sockAddr paddr => leaves_sockAddr host paddr
  | ofString strIp fAllowLookup => leaves_ofString host strIp fAllowLookup
  | service strIpPort portDefault fAllowLookup =>
    leaves_service host strIpPort portDefault fAllowLookup
  | copy b => (leaves host b).shift 1

theorem nameBytes_le (pszName : List Char) : nameBytes pszName ≤ 41 := by
  unfold nameBytes
  split_ifs <;> decide

/-- At least twenty-three bytes are left. -/
theorem origin_le (host : Host) : ∀ b : Build, (b.origin host).2 ≤ 41
  | default | inAddr _ | in6Addr _ => (by decide : 16 ≤ 41)
  | sockAddr _ => by
    unfold origin
    split_ifs <;> decide
  | ofString strIp fAllowLookup => by
    unfold origin nameOrigin
    split_ifs
    all_goals first | decide | exact nameBytes_le _
  | service strIpPort portDefault fAllowLookup => by
    unfold origin nameOrigin
    split_ifs
    all_goals first | decide | exact nameBytes_le _
  | copy b => origin_le host b

/-- **When two builds are the same on the wire**: for every way to build an address there are bytes that
are not filled, and for any two contents of the places, what is written is the same exactly when those
bytes are. -/
theorem serialize_eq_iff (host : Host) (b : Build) : (b.origin host).2 ≤ 41 ∧ ∀ m m' : Storage,
    ((b.run host m).serialize = (b.run host m').serialize ↔
      (m (b.origin host).1).ip.drop (b.origin host).2 =
        (m' (b.origin host).1).ip.drop (b.origin host).2) :=
  ⟨origin_le host b, (b.leaves host).serialize_eq⟩

/-- Bytes that were all the same. -/
def filledWith (b : UInt8) : Storage := fun _ => ⟨List.replicate 64 b, rfl⟩

/-- A host that knows no names. -/
def nameless : Host := ⟨false, fun _ _ => []⟩

/-- **The same address twice**: 127.0.0.1 in places that were zero and in places that were not. -/
theorem loopback_differs :
    ((inAddr ⟨[127, 0, 0, 1], rfl⟩).run nameless (filledWith 0)).serialize ≠
      ((inAddr ⟨[127, 0, 0, 1], rfl⟩).run nameless (filledWith 1)).serialize := by
  decide

end Build

end Breakout
