import Mathlib.Algebra.GroupWithZero.Nat
import Mathlib.Data.Fin.Basic
import Mathlib.Data.List.Basic
import Mathlib.Data.List.Infix

/-!
# IP addresses

Addresses of both versions, their classes, and their literal forms: four
decimal numbers for IPv4, and for IPv6 eight hexadecimal groups of which one run
of zeros may be left out and the last two may be written as an IPv4 address.

* `V4.text`, `parseV4_eq_some` — a text read as an IPv4 address is its dotted
  form.
* `IpAddr.Internal` — loopback, private, link-local and unspecified addresses,
  also where an IPv6 address stands for an IPv4 address.
-/

namespace Lib

-- the numerals of `Fin 256`
instance instNeZeroOctet : NeZero 256 := ⟨by decide⟩

-- `std::net::Ipv4Addr`
structure V4 where
  a : Fin 256
  b : Fin 256
  c : Fin 256
  d : Fin 256
deriving DecidableEq

-- `std::net::Ipv6Addr`
structure V6 where
  groups : List (Fin 65536)
  length_eq : groups.length = 8
deriving DecidableEq

-- `std::net::IpAddr`
inductive IpAddr where
  | v4 (x : V4)
  | v6 (x : V6)
deriving DecidableEq

-- ---
-- Classes
-- ---

namespace V4

/-- 10/8, 172.16/12 and 192.168/16. -/
def isPrivate (x : V4) : Bool :=
  x.a = 10 || (x.a = 172 && 16 ≤ x.b && x.b ≤ 31) || (x.a = 192 && x.b = 168)

def isLoopback (x : V4) : Bool := x.a = 127

def isLinkLocal (x : V4) : Bool := x.a = 169 && x.b = 254

def isBroadcast (x : V4) : Bool := x.a = 255 && x.b = 255 && x.c = 255 && x.d = 255

def isUnspecified (x : V4) : Bool := x.a = 0 && x.b = 0 && x.c = 0 && x.d = 0

/-- An address that is reached from inside only. -/
def isInternal (x : V4) : Bool :=
  x.isLoopback || x.isPrivate || x.isLinkLocal || x.isUnspecified

end V4

namespace V6

/-- The first group. -/
def first (x : V6) : Fin 65536 := x.groups.headD 0

def isLoopback (x : V6) : Bool := x.groups = [0, 0, 0, 0, 0, 0, 0, 1]

def isUnspecified (x : V6) : Bool := x.groups = [0, 0, 0, 0, 0, 0, 0, 0]

/-- fc00::/7. -/
def isUniqueLocal (x : V6) : Bool := x.first.val &&& 0xfe00 = 0xfc00

/-- fe80::/10. -/
def isLinkLocal (x : V6) : Bool := x.first.val &&& 0xffc0 = 0xfe80

/-- The IPv4 address behind ::ffff:0:0/96. -/
def mapped (x : V6) : Option V4 :=
  match x.groups with
  | [0, 0, 0, 0, 0, 0xffff, g, h] =>
    some ⟨Fin.ofNat 256 (g.val / 256), Fin.ofNat 256 g.val, Fin.ofNat 256 (h.val / 256),
      Fin.ofNat 256 h.val⟩
  | _ => none

def isInternal (x : V6) : Bool :=
  x.isLoopback || x.isUniqueLocal || x.isLinkLocal || x.isUnspecified ||
    x.mapped.any V4.isInternal

end V6

/-- A loopback, private, link-local or unspecified address. -/
def IpAddr.isInternal : IpAddr → Bool
  | .v4 x => x.isInternal
  | .v6 x => x.isInternal

-- ---
-- Literals
-- ---

-- the decimal form of a number
def decimal (n : Nat) : List Char := (toString n).toList

/-- The dotted form. -/
def V4.text (x : V4) : List Char :=
  decimal x.a ++ '.' :: decimal x.b ++ '.' :: decimal x.c ++ '.' :: decimal x.d

/-- The number below 256 with this decimal form. -/
def octet (s : List Char) : Option (Fin 256) :=
  (List.finRange 256).find? fun n => decimal n = s

def parseV4 (s : List Char) : Option V4 :=
  match s.splitOn '.' with
  | [a, b, c, d] => do
    let a ← octet a
    let b ← octet b
    let c ← octet c
    let d ← octet d
    return ⟨a, b, c, d⟩
  | _ => none

def hexDigit (c : Char) : Option Nat :=
  if c.isDigit then some (c.toNat - '0'.toNat)
  else if 'a' ≤ c ∧ c ≤ 'f' then some (c.toNat - 'a'.toNat + 10)
  else if 'A' ≤ c ∧ c ≤ 'F' then some (c.toNat - 'A'.toNat + 10)
  else none

/-- One to four hexadecimal digits. -/
def hexGroup (s : List Char) : Option (Fin 65536) :=
  if s = [] ∨ 4 < s.length then none
  else (s.mapM hexDigit).map fun ds => Fin.ofNat 65536 (ds.foldl (fun n d => 16 * n + d) 0)

-- the two groups of an IPv4 address at the end
def v4Groups (x : V4) : List (Fin 65536) :=
  [Fin.ofNat 65536 (256 * x.a.val + x.b.val), Fin.ofNat 65536 (256 * x.c.val + x.d.val)]

/-- Groups with colons between them; only the last may be an IPv4 address. -/
def groupsOf (dotted : Bool) : List (List Char) → Option (List (Fin 65536))
  | [] => some []
  | [s] =>
    match hexGroup s with
    | some g => some [g]
    | none => if dotted then (parseV4 s).map v4Groups else none
  | s :: rest => do
    let g ← hexGroup s
    let gs ← groupsOf dotted rest
    return g :: gs

-- no groups at all, or some
def sideGroups (dotted : Bool) (s : List Char) : Option (List (Fin 65536)) :=
  if s = [] then some [] else groupsOf dotted (s.splitOn ':')

/-- The text before and after the first `::`. -/
def cutDouble : List Char → Option (List Char × List Char)
  | ':' :: ':' :: rest => some ([], rest)
  | c :: rest => (cutDouble rest).map fun p => (c :: p.1, p.2)
  | [] => none

def parseV6 (s : List Char) : Option V6 := do
  let groups ← match cutDouble s with
    | none => groupsOf true (s.splitOn ':')
    | some (left, right) => do
      let l ← sideGroups false left
      let r ← sideGroups true right
      -- `::` stands for one group at least
      if l.length + r.length ≤ 7 then
        some (l ++ List.replicate (8 - l.length - r.length) 0 ++ r)
      else none
  if h : groups.length = 8 then some ⟨groups, h⟩ else none

/-- The address that a host is a literal of; one of version 6 stands in brackets. -/
def hostAddress (host : List Char) : Option IpAddr :=
  match host with
  | '[' :: rest =>
    match rest.getLast? with
    | some ']' => (parseV6 rest.dropLast).map .v6
    | _ => none
  | _ => (parseV4 host).map .v4

variable {s : List Char}

theorem octet_eq_some {n : Fin 256} (h : octet s = some n) : s = decimal n := by
  have hn := List.find?_some h
  simpa [eq_comm] using hn

theorem parseV4_eq_some {x : V4} (h : parseV4 s = some x) : s = x.text := by
  unfold parseV4 at h
  split at h
  · next a b c d hsplit =>
    simp only [bind, Option.bind_eq_some_iff, pure, Option.some.injEq] at h
    obtain ⟨a', ha, b', hb, c', hc, d', hd, rfl⟩ := h
    have hs : s = ['.'].intercalate [a, b, c, d] := by
      rw [← hsplit, List.intercalate_splitOn]
    rw [hs, octet_eq_some ha, octet_eq_some hb, octet_eq_some hc, octet_eq_some hd]
    simp [V4.text, List.intercalate]
  · cases h

end Lib
