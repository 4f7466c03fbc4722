import HiveClaw.Lib.Cidr
import HiveClaw.RustStd
import Mathlib.Data.Bool.AllAny
import Mathlib.Data.List.TakeWhile

/-!
# The target of a URL

`validate_url_target` of `crates/security/src/network.rs`: the host of a URL is
cut out by hand and resolved, and none of its addresses may lie in a blocked
network, unless a network of the whitelist holds it. Beside it stands the host
as an HTTP client finds it (`clientHost`).

* `safe_of_accepted_iff` — an accepted URL leads to safe addresses only, whatever the names resolve
  to, if the client finds the host that is checked.
-/

namespace HiveClaw.Security

open Lib

-- ---
-- Networks
-- ---

/-- `str::split_once`: the text before and behind the first `sep`. -/
def splitOnce (sep : Char) (s : List Char) : Option (List Char × List Char) :=
  if sep ∈ s then some (s.takeWhile (· ≠ sep), (s.dropWhile (· ≠ sep)).tail) else none

/-- The number that a text of digits stands for. -/
def number (digits : List Char) : Nat := digits.foldl (fun n c => 10 * n + (c.toNat - 48)) 0

-- `u8::from_str`
def parseU8 (s : List Char) : Option Nat :=
  let digits := match s with
    | '+' :: rest => rest
    | s => s
  if digits ≠ [] ∧ digits.all Char.isDigit ∧ number digits < 256 then some (number digits) else none

-- `IpAddr::from_str`
def parseIp (s : List Char) : Option IpAddr :=
  ((parseV4 s).map IpAddr.v4).or ((parseV6 s).map IpAddr.v6)

/-- The network that `CidrBlock::parse` reads. -/
def readNetwork (cidr : String) : Option Network := do
  let (addrPart, prefixPart) := match splitOnce '/' cidr.toList with
    | some (a, p) => (a, some p)
    | none => (cidr.toList, none)
  let address ← parseIp addrPart
  let whole := match address with
    | .v4 _ => "32"
    | .v6 _ => "128"
  let bits ← parseU8 (prefixPart.getD whole.toList)
  if h : bits ≤ address.width then some ⟨address, bits, h⟩ else none

-- `CidrBlock`
inductive CidrBlock where
  | v4 (base : BitVec 32) (bits : Nat) (bits_le : bits ≤ 32)
  | v6 (base : BitVec 128) (bits : Nat) (bits_le : bits ≤ 128)

namespace CidrBlock

def ofNetwork : Network → CidrBlock
  | ⟨.v4 x, bits, h⟩ => .v4 (x.bits &&& mask 32 bits) bits h
  | ⟨.v6 x, bits, h⟩ => .v6 (x.bits &&& mask 128 bits) bits h

-- `CidrBlock::parse`
def parse (cidr : String) : Option CidrBlock := (readNetwork cidr).map ofNetwork

-- `CidrBlock::contains`
def contains : CidrBlock → IpAddr → Bool
  | .v4 base bits _, .v4 x => x.bits &&& mask 32 bits = base
  | .v6 base bits _, .v6 x => x.bits &&& mask 128 bits = base
  | _, _ => false

/-- The masks test the first bits of an address. -/
theorem contains_ofNetwork (n : Network) (a : IpAddr) :
    (ofNetwork n).contains a = true ↔ n.Contains a := by
  obtain ⟨address, bits, hbits⟩ := n
  cases address with
  | v4 x =>
    have hle : bits ≤ 32 := hbits
    cases a with
    | v4 y =>
      show decide (_ = _) = true ↔ ∀ i < bits, x.bits.getMsbD i = y.bits.getMsbD i
      rw [decide_eq_true_iff, and_mask_eq_iff hle]
      exact forall₂_congr fun i _ => eq_comm
    | v6 y => exact iff_of_false nofun id
  | v6 x =>
    have hle : bits ≤ 128 := hbits
    cases a with
    | v4 y => exact iff_of_false nofun id
    | v6 y =>
      show decide (_ = _) = true ↔ ∀ i < bits, x.bits.getMsbD i = y.bits.getMsbD i
      rw [decide_eq_true_iff, and_mask_eq_iff hle]
      exact forall₂_congr fun i _ => eq_comm

end CidrBlock

/-- The texts of `BLOCKED_NETWORKS`. -/
def blockedTexts : List String :=
  ["0.0.0.0/8", "10.0.0.0/8", "100.64.0.0/10", "127.0.0.0/8", "169.254.0.0/16", "172.16.0.0/12",
    "192.168.0.0/16", "::1/128", "fc00::/7", "fe80::/10"]

-- `BLOCKED_NETWORKS`
def blockedNetworks : List CidrBlock := blockedTexts.filterMap CidrBlock.parse

/-- `configure_ssrf_whitelist`: the networks that are allowed from then on. -/
def configureSsrfWhitelist (cidrs : List String) : List CidrBlock := cidrs.filterMap CidrBlock.parse

-- `is_private`
def isPrivate (allowed : List CidrBlock) (addr : IpAddr) : Bool :=
  if allowed.any fun n => n.contains addr then false
  else blockedNetworks.any fun n => n.contains addr

-- ---
-- The host that is checked
-- ---

/-- The text before and behind the first `://`. -/
def cutScheme : List Char → Option (List Char × List Char)
  | ':' :: '/' :: '/' :: rest => some ([], rest)
  | c :: rest => (cutScheme rest).map fun p => (c :: p.1, p.2)
  | [] => none

/-- What is behind the last `sep`, or the whole text. -/
def afterLast (sep : Char) (s : List Char) : List Char := (s.reverse.takeWhile (· ≠ sep)).reverse

/-- What is before the last `sep`, or the whole text. -/
def beforeLast (sep : Char) (s : List Char) : List Char :=
  if sep ∈ s then ((s.reverse.dropWhile (· ≠ sep)).tail).reverse else s

/-- The host of an authority without user and password. -/
def hostnameOf (hostWithPort : List Char) : Option (List Char) :=
  match hostWithPort with
  | '[' :: stripped => if ']' ∈ stripped then some (stripped.takeWhile (· ≠ ']')) else none
  | hostWithPort => some (beforeLast ':' hostWithPort)

/-- `parse_url`: the scheme (not yet in lower case), the authority and the host. -/
def parseUrl (url : List Char) : Option (List Char × List Char × List Char) := do
  let (scheme, rest) ← cutScheme url
  let netloc := rest.takeWhile fun c => c ∉ ['/', '?', '#']
  if netloc = [] then none
  else
    let hostname ← hostnameOf (afterLast '@' netloc)
    return (scheme, netloc, hostname)

/-- The host of a URL as a client sees it. -/
inductive ClientHost where
  | domain (text : List Char)
  | literal (text : List Char)
deriving DecidableEq

/-- The text of the host, without brackets. -/
def ClientHost.text : ClientHost → List Char
  | .domain text => text
  | .literal text => text

/-- What the check and the client find outside. -/
structure Outside where
  /-- `str::to_lowercase` -/
  lower : String → String
  /-- `to_socket_addrs` -/
  resolve : String → Option (List IpAddr)
  /-- how an address is shown -/
  display : IpAddr → String
  /-- what the client's host parser makes of a host -/
  hostParser : ClientHost → Option String

-- `validate_url_target`
def validateUrlTarget (outside : Outside) (allowed : List CidrBlock) (url : String) :
    Bool × String :=
  match parseUrl url.toList with
  | none => (false, "Missing domain")
  | some (scheme, _, hostname) =>
    let scheme := outside.lower (String.ofList scheme)
    let hostname := String.ofList hostname
    if scheme ≠ "http" ∧ scheme ≠ "https" then
      let got := if scheme = "" then "none" else scheme
      (false, s!"Only http/https allowed, got '{got}'")
    else if hostname = "" then (false, "Missing hostname")
    else
      match outside.resolve hostname with
      | none => (false, s!"Cannot resolve hostname: {hostname}")
      | some infos =>
        match infos.find? (isPrivate allowed) with
        | some addr =>
          (false,
            s!"Blocked: {hostname} resolves to private/internal address {outside.display addr}")
        | none => (true, "")

-- ---
-- The host that a client contacts
-- ---

/-- A blank or control character, which a client removes at both ends of a URL. -/
def isBlank (c : Char) : Bool := c ≤ ' '

/-- The URL without blanks at its ends, tabs and line ends. -/
def cleaned (url : List Char) : List Char :=
  (((url.dropWhile isBlank).reverse.dropWhile isBlank).reverse).filter
    fun c => c ∉ ['\t', '\n', '\r']

/-- The authority of an http or https URL: it begins behind all slashes and backslashes after the
scheme, and a backslash ends it like a slash. -/
def clientAuthority (url : List Char) : Option (List Char) :=
  let url := cleaned url
  match url.dropWhile (· ≠ ':') with
  | ':' :: rest =>
    if (url.takeWhile (· ≠ ':')).map Char.toLower ∈ ["http".toList, "https".toList] then
      some ((rest.dropWhile fun c => c ∈ ['/', '\\']).takeWhile fun c => c ∉ ['/', '\\', '?', '#'])
    else none
  | _ => none

/-- A port is a number of 16 bits, or nothing. -/
def isPort (port : List Char) : Bool := port.all Char.isDigit && number port < 65536

def splitHost (hostPort : List Char) : Option ClientHost :=
  match hostPort with
  | '[' :: rest =>
    match rest.dropWhile (· ≠ ']') with
    | [']'] => some (.literal (rest.takeWhile (· ≠ ']')))
    | ']' :: ':' :: port => if isPort port then some (.literal (rest.takeWhile (· ≠ ']'))) else none
    | _ => none
  | hostPort =>
    let host := hostPort.takeWhile (· ≠ ':')
    if host ≠ [] ∧ isPort (hostPort.dropWhile (· ≠ ':')).tail then some (.domain host) else none

/-- The host of a URL by the WHATWG rules. -/
def clientHost (url : List Char) : Option ClientHost :=
  (clientAuthority url).bind fun authority => splitHost (afterLast '@' authority)

def clientAddresses (outside : Outside) (url : String) : List IpAddr :=
  (((clientHost url.toList).bind outside.hostParser).bind outside.resolve).getD []

-- ---
-- Safe addresses
-- ---

/-- One of the networks holds the address. -/
def Inside (texts : List String) (a : IpAddr) : Prop :=
  ∃ n ∈ texts.filterMap readNetwork, n.Contains a

/-- The address is whitelisted or not blocked, when an IPv4-mapped one is taken for its IPv4
address. -/
def Safe (whitelist : List String) (a : IpAddr) : Prop :=
  Inside whitelist a.unmapped ∨ ¬ Inside blockedTexts a.unmapped

theorem any_contains_iff (texts : List String) (a : IpAddr) :
    ((texts.filterMap CidrBlock.parse).any fun n => n.contains a) = true ↔ Inside texts a := by
  have hparse : texts.filterMap CidrBlock.parse =
      (texts.filterMap readNetwork).map CidrBlock.ofNetwork := by
    rw [List.map_filterMap]
    rfl
  rw [hparse, List.any_map, List.any_eq_true]
  exact exists_congr fun n => and_congr_right fun _ => CidrBlock.contains_ofNetwork n a

theorem isPrivate_eq_false_iff (whitelist : List String) (a : IpAddr) :
    isPrivate (configureSsrfWhitelist whitelist) a = false ↔
      Inside whitelist a ∨ ¬ Inside blockedTexts a := by
  unfold isPrivate
  rw [← any_contains_iff whitelist, ← any_contains_iff blockedTexts]
  split
  · next hallowed => exact iff_of_true rfl (Or.inl hallowed)
  · next hallowed =>
    rw [Bool.not_eq_true]
    exact ⟨Or.inr, fun h => h.resolve_left hallowed⟩

/-- The network differs from all IPv4-mapped addresses in the first or in the 81st bit. -/
def missesMapped (n : Network) : Bool :=
  match n.address with
  | .v4 _ => true
  | .v6 z => 0 < n.bits && z.bits.getMsbD 0 || 80 < n.bits && !z.bits.getMsbD 80

theorem blocked_missesMapped : (blockedTexts.filterMap readNetwork).all missesMapped = true := by
  decide +kernel

theorem not_inside_of_mapped {x : V6} {y : V4} (h : x.mapped = some y) :
    ¬ Inside blockedTexts (.v6 x) := by
  obtain ⟨hfirst, hset⟩ := mapped_bits h
  rintro ⟨n, hn, hcontains⟩
  have hmisses := List.all_eq_true.mp blocked_missesMapped n hn
  obtain ⟨address, bits, hbits⟩ := n
  cases address with
  | v4 z => exact hcontains
  | v6 z =>
    have hagree : ∀ i < bits, z.bits.getMsbD i = x.bits.getMsbD i := hcontains
    have hcases : (0 < bits ∧ z.bits.getMsbD 0 = true) ∨
        (80 < bits ∧ z.bits.getMsbD 80 = false) := by
      simpa [missesMapped] using hmisses
    rcases hcases with ⟨hpos, hbit⟩ | ⟨hlong, hbit⟩
    · rw [hagree 0 hpos, hfirst] at hbit
      cases hbit
    · rw [hagree 80 hlong, hset] at hbit
      cases hbit

theorem notPrivate_iff (whitelist : List String) (a : IpAddr) :
    Safe whitelist a ↔ isPrivate (configureSsrfWhitelist whitelist) a.unmapped = false :=
  (isPrivate_eq_false_iff whitelist a.unmapped).symm

variable {whitelist : List String} {a : IpAddr}

theorem unmapped_of_isPrivate (h : isPrivate (configureSsrfWhitelist whitelist) a = true) :
    a.unmapped = a := by
  cases a with
  | v4 x => rfl
  | v6 x =>
    cases hmapped : x.mapped with
    | none => simp only [IpAddr.unmapped, hmapped]
    | some y =>
      have hfalse := (isPrivate_eq_false_iff whitelist (.v6 x)).mpr
        (Or.inr (not_inside_of_mapped hmapped))
      rw [h] at hfalse
      cases hfalse

-- ---
-- Plain URLs
-- ---

/-- The URL has no backslash, no blank and no control character, and the client keeps its host as
it is written. -/
structure Plain (outside : Outside) (url : String) : Prop where
  chars : ∀ c ∈ url.toList, isBlank c = false ∧ c ≠ '\\'
  kept : ∀ host, clientHost url.toList = some host → ∀ text, outside.hostParser host = some text →
    text = String.ofList host.text

variable {p : Char → Bool} {s : List Char}

theorem dropWhile_of_forall_false (h : ∀ c ∈ s, p c = false) : s.dropWhile p = s := by
  cases s with
  | nil => rfl
  | cons c rest => rw [List.dropWhile_cons, h c List.mem_cons_self, if_neg Bool.false_ne_true]

theorem takeWhile_congr {q : Char → Bool} (h : ∀ c ∈ s, p c = q c) :
    s.takeWhile p = s.takeWhile q := by
  induction s with
  | nil => rfl
  | cons c rest ih =>
    rw [List.takeWhile_cons, List.takeWhile_cons, h c List.mem_cons_self,
      ih fun d hd => h d (List.mem_cons_of_mem c hd)]

theorem takeWhile_append_cons {front : List Char} {c : Char} (hfront : ∀ d ∈ front, p d = true)
    (hc : p c = false) (rest : List Char) :
    (front ++ c :: rest).takeWhile p = front ∧ (front ++ c :: rest).dropWhile p = c :: rest := by
  constructor
  · rw [List.takeWhile_append_of_pos hfront, List.takeWhile_cons, hc, if_neg Bool.false_ne_true,
      List.append_nil]
  · rw [List.dropWhile_append_of_pos hfront, List.dropWhile_cons, hc, if_neg Bool.false_ne_true]

theorem cleaned_of_noBlank {url : List Char} (h : ∀ c ∈ url, isBlank c = false) :
    cleaned url = url := by
  unfold cleaned
  rw [dropWhile_of_forall_false h,
    dropWhile_of_forall_false fun c hc => h c (List.mem_reverse.mp hc), List.reverse_reverse,
    List.filter_eq_self]
  intro c hc
  have hblank := h c hc
  refine decide_eq_true fun hmem => ?_
  simp only [List.mem_cons, List.not_mem_nil, or_false] at hmem
  rcases hmem with rfl | rfl | rfl
  all_goals exact absurd hblank (by decide)

variable {scheme : List Char}

theorem cutScheme_eq_some {url rest : List Char} (h : cutScheme url = some (scheme, rest)) :
    url = scheme ++ ':' :: '/' :: '/' :: rest := by
  induction url using cutScheme.induct generalizing scheme with
  | case1 tail =>
    rw [cutScheme] at h
    obtain ⟨rfl, rfl⟩ := Prod.mk.inj (Option.some.inj h)
    rfl
  | case2 c tail hnot ih =>
    rw [cutScheme] at h
    · obtain ⟨⟨front, rest'⟩, hrest, heq⟩ := Option.map_eq_some_iff.mp h
      obtain ⟨rfl, rfl⟩ := Prod.mk.inj heq
      rw [ih hrest, List.cons_append]
    · exact hnot
  | case3 => cases h

theorem colon_notMem_of_http (h : scheme.map Char.toLower ∈ ["http".toList, "https".toList]) :
    ':' ∉ scheme := by
  intro hmem
  have hlower : ':' ∈ scheme.map Char.toLower := List.mem_map.mpr ⟨':', hmem, by decide⟩
  simp only [List.mem_cons, List.not_mem_nil, or_false] at h
  rcases h with h | h
  · rw [h] at hlower
    exact absurd hlower (by decide)
  · rw [h] at hlower
    exact absurd hlower (by decide)

variable {host : ClientHost}

theorem hostnameOf_of_splitHost {hostPort : List Char} (h : splitHost hostPort = some host) :
    hostnameOf hostPort = some host.text := by
  have hdigits : ∀ port, isPort port = true → ':' ∉ port := by
    intro port hport hmem
    have hall := (Bool.and_eq_true _ _ ▸ hport).1
    exact absurd (List.all_eq_true.mp hall ':' hmem) (by decide)
  unfold splitHost at h
  split at h
  · next rest =>
    have hclosed : ∀ tail, rest.dropWhile (· ≠ ']') = ']' :: tail →
        hostnameOf ('[' :: rest) = some (rest.takeWhile (· ≠ ']')) := by
      intro tail htail
      have hmem : ']' ∈ rest := by
        rw [← List.takeWhile_append_dropWhile (p := (· ≠ ']')) (l := rest), htail]
        exact List.mem_append_right _ List.mem_cons_self
      exact if_pos hmem
    split at h
    · next hdrop =>
      cases h
      exact hclosed [] hdrop
    · next port hdrop =>
      split at h
      · cases h
        exact hclosed _ hdrop
      · cases h
    · cases h
  · next hbracket =>
    have hopen : hostnameOf hostPort = some (beforeLast ':' hostPort) := by
      unfold hostnameOf
      split
      · next rest => exact absurd rfl (hbracket rest)
      · rfl
    dsimp only at h
    split at h
    · next hport =>
      obtain rfl := Option.some.inj h
      rw [hopen]
      refine congrArg some ?_
      show beforeLast ':' hostPort = hostPort.takeWhile (· ≠ ':')
      unfold beforeLast
      split
      · next hcolon =>
        obtain ⟨front, port, rfl, hfront⟩ := List.eq_append_cons_of_mem hcolon
        have hne : ∀ d ∈ front, decide (d ≠ ':') = true := by
          intro d hd
          refine decide_eq_true ?_
          rintro rfl
          exact hfront hd
        obtain ⟨htake, hdrop⟩ := takeWhile_append_cons hne
          (decide_eq_false fun hc : ':' ≠ ':' => hc rfl) port
        rw [hdrop, List.tail_cons] at hport
        have hback : ∀ d ∈ port.reverse, decide (d ≠ ':') = true := by
          intro d hd
          refine decide_eq_true ?_
          rintro rfl
          exact hdigits port hport.2 (List.mem_reverse.mp hd)
        rw [htake, List.reverse_append, List.reverse_cons, List.append_assoc,
          List.singleton_append, (takeWhile_append_cons hback
            (decide_eq_false fun hc : ':' ≠ ':' => hc rfl) _).2, List.tail_cons,
          List.reverse_reverse]
      · next hcolon =>
        refine (List.takeWhile_eq_self_iff.mpr fun c hc => decide_eq_true ?_).symm
        rintro rfl
        exact hcolon hc
    · cases h

variable {hostname netloc : List Char}

/-- The two hosts are the same where the URL has no backslash, no blank and no control character. -/
theorem host_of_plain {url : List Char} (hplain : ∀ c ∈ url, isBlank c = false ∧ c ≠ '\\')
    (hparse : parseUrl url = some (scheme, netloc, hostname))
    (hscheme : scheme.map Char.toLower ∈ ["http".toList, "https".toList])
    (hhost : clientHost url = some host) : host.text = hostname := by
  simp only [parseUrl, bind, Option.bind_eq_some_iff, Prod.exists] at hparse
  obtain ⟨scheme', rest, hcut, hrest⟩ := hparse
  split at hrest
  · cases hrest
  · next hnetloc =>
    obtain ⟨hostname', hhostname, hresult⟩ := Option.bind_eq_some_iff.mp hrest
    obtain ⟨rfl, -, rfl⟩ : scheme' = scheme ∧ _ = netloc ∧ hostname' = hostname := by
      simpa using hresult
    have hurl := cutScheme_eq_some hcut
    have hcolon : ∀ d ∈ scheme', decide (d ≠ ':') = true := by
      intro d hd
      refine decide_eq_true ?_
      rintro rfl
      exact colon_notMem_of_http hscheme hd
    have hbackslash : ∀ c ∈ rest, c ≠ '\\' := by
      intro c hc
      refine (hplain c ?_).2
      rw [hurl]
      simp [hc]
    have hauthority : clientAuthority url = some (rest.takeWhile fun c => c ∉ ['/', '?', '#']) := by
      obtain ⟨htake, hdrop⟩ := takeWhile_append_cons hcolon
        (decide_eq_false fun hc : ':' ≠ ':' => hc rfl) ('/' :: '/' :: rest)
      unfold clientAuthority
      rw [cleaned_of_noBlank fun c hc => (hplain c hc).1]
      dsimp only
      rw [hurl, hdrop, htake]
      refine (if_pos hscheme).trans (congrArg some ?_)
      have hslashes : ('/' :: '/' :: rest).dropWhile (fun c => c ∈ ['/', '\\']) = rest := by
        rw [List.dropWhile_cons, if_pos (by decide), List.dropWhile_cons, if_pos (by decide)]
        cases rest with
        | nil => rfl
        | cons c tail =>
          refine (List.dropWhile_cons).trans (if_neg ?_)
          have hne := hbackslash c List.mem_cons_self
          intro hc
          have hslash : c = '/' := by simpa [hne] using hc
          subst hslash
          exact hnetloc rfl
      rw [hslashes]
      refine takeWhile_congr fun c hc => ?_
      have hne := hbackslash c hc
      simp [hne]
    unfold clientHost at hhost
    rw [hauthority, Option.bind_some] at hhost
    have hsame := hostnameOf_of_splitHost hhost
    rw [hhostname] at hsame
    exact (Option.some.inj hsame).symm

-- ---
-- Accepted URLs
-- ---

/-- What `str::to_lowercase` does: `http` and `https` have no other upper case letters than those of
ASCII. -/
def LowersAscii (lower : String → String) : Prop :=
  ∀ s, lower s = "http" ∨ lower s = "https" → RustStr.toAsciiLowercase s = lower s

variable {url : String} {allowed : List CidrBlock}

theorem of_accepted {outside : Outside} (h : (validateUrlTarget outside allowed url).1 = true) :
    ∃ scheme netloc hostname infos, parseUrl url.toList = some (scheme, netloc, hostname) ∧
      (outside.lower (String.ofList scheme) = "http" ∨
        outside.lower (String.ofList scheme) = "https") ∧
      outside.resolve (String.ofList hostname) = some infos ∧
      ∀ a ∈ infos, isPrivate allowed a = false := by
  unfold validateUrlTarget at h
  split at h
  · cases h
  · next scheme netloc hostname hparse =>
    dsimp only at h
    split at h
    · cases h
    · next hscheme =>
      split at h
      · cases h
      · split at h
        · cases h
        · next infos hresolve =>
          split at h
          · cases h
          · next hfind =>
            refine ⟨scheme, netloc, hostname, infos, hparse, ?_, hresolve, fun a ha => ?_⟩
            · rw [← Decidable.not_not (p := _ = "http"), ← imp_iff_not_or]
              exact fun hhttp => Decidable.not_not.mp fun hhttps => hscheme ⟨hhttp, hhttps⟩
            · exact Bool.not_eq_true _ ▸ List.find?_eq_none.mp hfind a ha

theorem http_of_lower {lower : String → String} (hlower : LowersAscii lower)
    (h : lower (String.ofList scheme) = "http" ∨ lower (String.ofList scheme) = "https") :
    scheme.map Char.toLower ∈ ["http".toList, "https".toList] := by
  have hascii := hlower _ h
  unfold RustStr.toAsciiLowercase at hascii
  rw [String.toList_ofList] at hascii
  rw [← String.toList_ofList (l := scheme.map _), hascii]
  rcases h with hs | hs
  · rw [hs]
    exact List.mem_cons_self
  · rw [hs]
    exact List.mem_cons_of_mem _ List.mem_cons_self

/-- The name under which the client looks the host up. -/
def clientName (outside : Outside) (url : String) : Option String :=
  (clientHost url.toList).bind outside.hostParser

/-- The client finds the host that `parse_url` cuts out, or none. -/
def SameHost (outside : Outside) (url : String) : Prop :=
  ∀ name, clientName outside url = some name →
    (parseUrl url.toList).map (fun parts => String.ofList parts.2.2) = some name

/-- For an accepted URL it is enough to be plain. -/
theorem sameHost_of_plain {outside : Outside} (hlower : LowersAscii outside.lower)
    (hplain : Plain outside url) (h : (validateUrlTarget outside allowed url).1 = true) :
    SameHost outside url := by
  obtain ⟨scheme, netloc, hostname, infos, hparse, hscheme, -⟩ := of_accepted h
  intro name hname
  obtain ⟨host, hhost, htext⟩ := Option.bind_eq_some_iff.mp hname
  rw [hparse, Option.map_some, hplain.kept host hhost name htext,
    host_of_plain hplain.chars hparse (http_of_lower hlower hscheme) hhost]

/-- None of the addresses is the mapped form of an IPv4 address that is refused. -/
def NoneMapped (whitelist : List String) (infos : List IpAddr) : Prop :=
  ∀ x y, IpAddr.v6 x ∈ infos → x.mapped = some y →
    isPrivate (configureSsrfWhitelist whitelist) (.v4 y) = false

/-- Where the client finds the checked host, its addresses are safe unless one is mapped. -/
theorem safe_of_sameHost {outside : Outside} (hsame : SameHost outside url)
    (h : (validateUrlTarget outside (configureSsrfWhitelist whitelist) url).1 = true) :
    (∀ a ∈ clientAddresses outside url, Safe whitelist a) ↔
      NoneMapped whitelist (clientAddresses outside url) := by
  constructor
  · intro hsafe x y hx hy
    simpa only [notPrivate_iff, IpAddr.unmapped, hy] using hsafe _ hx
  intro hunmapped a ha
  obtain ⟨scheme, netloc, hostname, infos, hparse, -, hresolve, hinfos⟩ := of_accepted h
  have haddresses : clientAddresses outside url =
      ((clientName outside url).bind outside.resolve).getD [] := rfl
  have hpublic : isPrivate (configureSsrfWhitelist whitelist) a = false := by
    cases hname : clientName outside url with
    | none =>
      rw [haddresses, hname] at ha
      cases ha
    | some name =>
      have hhost := hsame name hname
      rw [hparse] at hhost
      rw [haddresses, hname, ← hhost, Option.map_some, Option.bind_some, hresolve,
        Option.getD_some] at ha
      exact hinfos a ha
  rw [notPrivate_iff]
  cases a with
  | v4 x => exact hpublic
  | v6 x =>
    cases hx : x.mapped with
    | none => simpa only [IpAddr.unmapped, hx] using hpublic
    | some y => simpa only [IpAddr.unmapped, hx] using hunmapped x y ha hx

/-- A resolver that knows no address of one name, and one address of all others. -/
def resolveBut (checked : String) (a : IpAddr) (name : String) : Option (List IpAddr) :=
  some (if name = checked then [] else [a])

/-- A refused address is not the mapped form of another one. -/
theorem noneMapped_resolveBut (h : isPrivate (configureSsrfWhitelist whitelist) a = true)
    (checked name : String) :
    ∀ infos, resolveBut checked a name = some infos → NoneMapped whitelist infos := by
  intro infos hinfos x y hx hy
  obtain rfl := Option.some.inj hinfos
  split at hx
  · cases hx
  · obtain rfl := List.mem_singleton.mp hx
    have hself := unmapped_of_isPrivate h
    rw [IpAddr.unmapped, hy] at hself
    cases hself

theorem accepted_resolveBut {outside : Outside}
    (hparse : parseUrl url.toList = some (scheme, netloc, hostname))
    (h : (validateUrlTarget outside allowed url).1 = true) (a : IpAddr) :
    (validateUrlTarget { outside with resolve := resolveBut (String.ofList hostname) a } allowed
      url).1 = true := by
  unfold validateUrlTarget at h ⊢
  rw [hparse] at h ⊢
  dsimp only at h ⊢
  split at h
  · cases h
  next hscheme =>
  split at h
  · cases h
  next hhostname =>
  rw [if_neg hscheme, if_neg hhostname]
  unfold resolveBut
  rw [if_pos rfl]
  rfl

/-- **Accepted URLs.** Whatever names resolve to, but for the mapped forms of refused addresses, a
URL leads a client to safe addresses only when it is accepted, exactly if the client finds the host
that is checked or the whitelist holds all blocked addresses. A client that finds this host gets
safe addresses exactly if none is such a mapped form. -/
theorem safe_of_accepted_iff {outside : Outside} {whitelist : List String} {url : String}
    (haccepted : ∃ resolve, (validateUrlTarget { outside with resolve }
      (configureSsrfWhitelist whitelist) url).1 = true) :
    ((∀ resolve, (∀ name infos, resolve name = some infos → NoneMapped whitelist infos) →
      (validateUrlTarget { outside with resolve } (configureSsrfWhitelist whitelist) url).1 = true →
      ∀ a ∈ clientAddresses { outside with resolve } url, Safe whitelist a) ↔
      SameHost outside url ∨ ∀ a, isPrivate (configureSsrfWhitelist whitelist) a = false) ∧
    (SameHost outside url → ∀ resolve,
      (validateUrlTarget { outside with resolve } (configureSsrfWhitelist whitelist) url).1 = true →
      ((∀ a ∈ clientAddresses { outside with resolve } url, Safe whitelist a) ↔
        NoneMapped whitelist (clientAddresses { outside with resolve } url))) := by
  have hhosts : SameHost outside url → ∀ resolve, SameHost { outside with resolve } url :=
    fun hsame _ => hsame
  refine ⟨⟨fun hsafe => ?_, ?_⟩, fun hsame resolve h => safe_of_sameHost (hhosts hsame resolve) h⟩
  · obtain ⟨resolve, haccepted⟩ := haccepted
    obtain ⟨scheme, netloc, hostname, -, hparse, -⟩ := of_accepted haccepted
    by_contra hneither
    obtain ⟨hother, hrefused⟩ := not_or.mp hneither
    obtain ⟨a, ha⟩ := not_forall.mp hrefused
    obtain ⟨name, hother⟩ := not_forall.mp hother
    obtain ⟨hname, hne⟩ := Classical.not_imp.mp hother
    rw [Bool.not_eq_false] at ha
    rw [hparse, Option.map_some, Option.some_inj] at hne
    -- the client looks up another name than the check, and finds the refused address
    have hfound : a ∈ clientAddresses
        { outside with resolve := resolveBut (String.ofList hostname) a } url := by
      have haddresses : clientAddresses
          { outside with resolve := resolveBut (String.ofList hostname) a } url =
          ((clientName outside url).bind (resolveBut (String.ofList hostname) a)).getD [] := rfl
      rw [haddresses, hname, Option.bind_some, resolveBut, if_neg (Ne.symm hne)]
      exact List.mem_singleton.mpr rfl
    have hsafe := hsafe _ (noneMapped_resolveBut ha _) (accepted_resolveBut hparse haccepted a) a
      hfound
    rw [notPrivate_iff, unmapped_of_isPrivate ha, ha] at hsafe
    cases hsafe
  · rintro (hsame | hcovered) resolve hnone h
    · refine (safe_of_sameHost (hhosts hsame resolve) h).mpr fun x y hx hy => ?_
      have haddresses : clientAddresses { outside with resolve } url =
          ((clientName outside url).bind resolve).getD [] := rfl
      rw [haddresses] at hx
      cases hinfos : (clientName outside url).bind resolve with
      | none =>
        rw [hinfos] at hx
        cases hx
      | some infos =>
        rw [hinfos] at hx
        obtain ⟨name, -, hresolve⟩ := Option.bind_eq_some_iff.mp hinfos
        exact hnone name infos hresolve x y hx hy
    · exact fun a _ => (notPrivate_iff whitelist a).mpr (hcovered a.unmapped)

/-- A resolver that knows one name; a client that keeps hosts as they are written. -/
def sampleOutside : Outside where
  lower := RustStr.toAsciiLowercase
  resolve name :=
    if name = "127.0.0.1" then some [.v4 ⟨127, 0, 0, 1⟩]
    else if name = "example.com" then some [.v4 ⟨93, 184, 216, 34⟩]
    else none
  display _ := ""
  hostParser host := some (String.ofList host.text)

/-- `http://example.com/` is accepted, and safe. -/
theorem safe_example :
    clientAddresses sampleOutside "http://example.com/" = [.v4 ⟨93, 184, 216, 34⟩] ∧
      ∀ a ∈ clientAddresses sampleOutside "http://example.com/", Safe [] a := by
  have haccepted : (validateUrlTarget sampleOutside (configureSsrfWhitelist [])
      "http://example.com/").1 = true := by decide +kernel
  have hplain : Plain sampleOutside "http://example.com/" :=
    ⟨List.all_iff_forall_prop.mp (by decide), fun _ _ _ htext => (Option.some.inj htext).symm⟩
  have haddresses : clientAddresses sampleOutside "http://example.com/" =
      [.v4 ⟨93, 184, 216, 34⟩] := by decide +kernel
  refine ⟨haddresses, ?_⟩
  have hsame := sameHost_of_plain (fun _ _ => rfl) hplain haccepted
  refine ((safe_of_accepted_iff ⟨sampleOutside.resolve, haccepted⟩).2 hsame sampleOutside.resolve
    haccepted).mpr fun x y hx => ?_
  rw [haddresses] at hx
  cases List.mem_singleton.mp hx

/-- A backslash ends the authority for a client, and not for the check. -/
theorem backslash_escapes :
    LowersAscii sampleOutside.lower ∧
      (validateUrlTarget sampleOutside (configureSsrfWhitelist [])
        "http://127.0.0.1\\@example.com/").1 = true ∧
      ¬ ∀ a ∈ clientAddresses sampleOutside "http://127.0.0.1\\@example.com/", Safe [] a := by
  refine ⟨fun _ _ => rfl, by decide +kernel, fun hsafe => ?_⟩
  have haddresses : clientAddresses sampleOutside "http://127.0.0.1\\@example.com/" =
      [.v4 ⟨127, 0, 0, 1⟩] := by decide +kernel
  have hloopback := (notPrivate_iff [] _).mp (hsafe _ (haddresses ▸ List.mem_singleton.mpr rfl))
  have hblocked : isPrivate (configureSsrfWhitelist []) (.v4 ⟨127, 0, 0, 1⟩) = true := by
    decide +kernel
  exact absurd (hblocked.symm.trans hloopback) (by decide)

end HiveClaw.Security
