import HiveClaw.Lib.IpAddr
import HiveClaw.RustStd

/-!
# The network.http capability

`http_request` of `crates/hiveweb/src/runtime/capabilities/network_http.rs`: a
plugin may send a request to the hosts of a list, unless the host leads to a
private address. An entry `.suffix` of the list stands for a domain and its
subdomains.

The parser of URLs, the resolver of names and the check of headers are
parameters.

* `httpRequest_eq_ok_iff` — when a request is sent.
* `safe_iff` — when a request is sent to a host of the list only, and to no
  internal address.
-/

namespace HiveClaw.RustStr

-- `str::to_ascii_uppercase`
def toAsciiUppercase (s : String) : String := String.ofList (s.toList.map Char.toUpper)

end HiveClaw.RustStr

namespace HiveClaw.Runtime

open Lib

-- ---
-- The capability
-- ---

/-- `reqwest::Url`: its scheme and `host_str()`. -/
structure HttpUrl where
  scheme : String
  host : Option String

-- `HttpArgs`
structure HttpArgs where
  method : String
  url : String
  headers : List (String × String) := []
  body : Option String := none

/-- What `http_request` finds outside. -/
structure HttpOutside where
  /-- `reqwest::Url::parse` -/
  parse : String → Except String HttpUrl
  /-- `tokio::net::lookup_host`; a failure is passed over -/
  lookup : String → Option (List IpAddr)
  /-- whether a header can be part of a request, and the error of `send` if not -/
  header : String × String → Bool
  headerError : String
  /-- `NETWORK_HTTP_ALLOWLIST` -/
  allowlistVar : Option String

-- `BODY_MAX_BYTES`
def bodyMaxBytes : Nat := 4 * 1024 * 1024

-- `allowlist`
def allowlist (outside : HttpOutside) : List String :=
  (((((outside.allowlistVar.getD "").toList.splitOn ',').map String.ofList).map
    RustStr.trim).filter fun s => s ≠ "")

-- `is_private_ip`
def isPrivateIp : IpAddr → Bool
  | .v4 x => x.isPrivate || x.isLoopback || x.isLinkLocal || x.isBroadcast
  | .v6 x => x.isLoopback || x.isUniqueLocal

/-- An entry of the list lets a host through. -/
def entryMatches (host entry : String) : Bool :=
  match entry.toList with
  | '.' :: suffix => suffix.isSuffixOf host.toList || host.toList = suffix
  | _ => host = entry

def allowedMethods : List String := ["GET", "POST", "PUT", "DELETE"]

/-- The checks of `http_request` from the host on. -/
def checkHost (outside : HttpOutside) (args : HttpArgs) (host : String) : Except String String :=
  let list := allowlist outside
  let size := (args.body.getD "").utf8ByteSize
  if list = [] then
    .error "网络访问未配置；请设置 NETWORK_HTTP_ALLOWLIST 后重试（逗号分隔 hostname 列表）"
  else if list.any (entryMatches host) = false then
    .error s!"hostname {host} 不在 allowlist 内"
  else if ((outside.lookup (host ++ ":0")).getD []).any isPrivateIp then
    .error s!"hostname {host} 解析到私网地址，拒绝（SSRF 防护）"
  else if bodyMaxBytes < size then .error s!"request body 大小 {size} 超过 4 MB 上限"
  else if args.headers.all outside.header = false then
    .error s!"HTTP 请求失败: {outside.headerError}"
  else .ok host

/-- `http_request` up to the point at which the request is sent; the result is the host that it
goes to. -/
def httpRequest (outside : HttpOutside) (args : HttpArgs) : Except String String :=
  let method := RustStr.toAsciiUppercase args.method
  if method ∉ allowedMethods then
    .error s!"method {method} 不允许；仅支持 GET/POST/PUT/DELETE"
  else
    match outside.parse args.url with
    | .error e => .error s!"url parse: {e}"
    | .ok url =>
      if url.scheme ∉ ["http", "https"] then .error "仅允许 http/https scheme"
      else
        match url.host with
        | none => .error "url 缺少 host"
        | some host => checkHost outside args (RustStr.toAsciiLowercase host)

/-- The checks that have nothing to do with the list. -/
structure Passes (outside : HttpOutside) (args : HttpArgs) (host : String) : Prop where
  method : RustStr.toAsciiUppercase args.method ∈ allowedMethods
  url : ∃ url h, outside.parse args.url = .ok url ∧ url.scheme ∈ ["http", "https"] ∧
    url.host = some h ∧ host = RustStr.toAsciiLowercase h
  addresses : ∀ ip ∈ (outside.lookup (host ++ ":0")).getD [], isPrivateIp ip = false
  body : (args.body.getD "").utf8ByteSize ≤ bodyMaxBytes
  headers : ∀ h ∈ args.headers, outside.header h = true

-- a check that fails ends the computation
theorem guard_ok_iff {c : Prop} [Decidable c] {e : String} {k : Except String String}
    {v : String} : (if c then .error e else k) = .ok v ↔ ¬c ∧ k = .ok v := by
  split
  case isTrue h => exact iff_of_false nofun fun hk => hk.1 h
  case isFalse h => exact (and_iff_right h).symm

/-- An entry of the list lets the host through. -/
def Admitted (list : List String) (host : String) : Prop :=
  ∃ entry ∈ list, entryMatches host entry = true

variable {args : HttpArgs} {host : String}

theorem checkHost_eq_ok_iff {outside : HttpOutside} {sent : String} :
    checkHost outside args host = .ok sent ↔ host = sent ∧ Admitted (allowlist outside) host ∧
      (∀ ip ∈ (outside.lookup (host ++ ":0")).getD [], isPrivateIp ip = false) ∧
        (args.body.getD "").utf8ByteSize ≤ bodyMaxBytes ∧
          ∀ h ∈ args.headers, outside.header h = true := by
  have hempty : Admitted (allowlist outside) host → allowlist outside ≠ [] := by
    rintro ⟨entry, hmem, -⟩ hnil
    rw [hnil] at hmem
    cases hmem
  simp only [checkHost, guard_ok_iff, Except.ok.injEq, Nat.not_lt, List.any_eq_true, not_exists,
    not_and, Bool.not_eq_true, Bool.not_eq_false, List.all_eq_true]
  constructor
  · rintro ⟨-, hadmitted, haddresses, hbody, hheaders, hsent⟩
    exact ⟨hsent, hadmitted, haddresses, hbody, hheaders⟩
  · rintro ⟨hsent, hadmitted, haddresses, hbody, hheaders⟩
    exact ⟨hempty hadmitted, hadmitted, haddresses, hbody, hheaders, hsent⟩

/-- A request is sent to a host if and only if an entry of the list lets it through and all other
checks pass. -/
theorem httpRequest_eq_ok_iff {outside : HttpOutside} :
    httpRequest outside args = .ok host ↔
      Passes outside args host ∧ Admitted (allowlist outside) host := by
  unfold httpRequest
  simp only [guard_ok_iff, not_not]
  constructor
  · rintro ⟨hmethod, h⟩
    split at h
    · cases h
    · next url hparse =>
      obtain ⟨hscheme, h⟩ := guard_ok_iff.mp h
      split at h
      · cases h
      · next name hname =>
        obtain ⟨rfl, hadmitted, haddresses, hbody, hheaders⟩ := checkHost_eq_ok_iff.mp h
        exact ⟨⟨hmethod, ⟨url, name, hparse, not_not.mp hscheme, hname, rfl⟩, haddresses, hbody,
          hheaders⟩, hadmitted⟩
  · rintro ⟨⟨hmethod, ⟨url, name, hparse, hscheme, hname, rfl⟩, haddresses, hbody, hheaders⟩,
      hadmitted⟩
    simp only [hparse, hname, guard_ok_iff, not_not]
    exact ⟨hmethod, hscheme,
      checkHost_eq_ok_iff.mpr ⟨rfl, hadmitted, haddresses, hbody, hheaders⟩⟩

-- ---
-- Safe hosts
-- ---

def entryName (entry : String) : List Char :=
  match entry.toList with
  | '.' :: suffix => suffix
  | name => name

/-- The host is the domain of an entry or a proper subdomain of it. -/
def Listed (list : List String) (host : String) : Prop :=
  ∃ entry ∈ list, host.toList = entryName entry ∨ ('.' :: entryName entry) <:+ host.toList

/-- The host is one of the list and no literal of an internal address. -/
def Safe (list : List String) (host : String) : Prop :=
  Listed list host ∧ ∀ ip, hostAddress host.toList = some ip → ip.isInternal = false

/-- The host ends like an entry that stands for subdomains, but no label begins there, for this
entry or any other. -/
def CutsLabel (list : List String) (host : String) : Prop :=
  (∃ entry ∈ list, ∃ suffix, entry.toList = '.' :: suffix ∧ suffix <:+ host.toList) ∧
    ¬Listed list host

/-- An internal address that `is_private_ip` takes for a public one. -/
def missed : IpAddr → Bool
  | .v4 x => x.isUnspecified
  | .v6 x => x.isUnspecified || x.isLinkLocal || x.mapped.any V4.isInternal

theorem internal_iff_missed {ip : IpAddr} (h : isPrivateIp ip = false) :
    ip.isInternal = missed ip := by
  cases ip with
  | v4 x =>
    simp only [isPrivateIp, Bool.or_eq_false_iff] at h
    obtain ⟨⟨⟨hprivate, hloop⟩, hlink⟩, -⟩ := h
    simp [IpAddr.isInternal, V4.isInternal, missed, hprivate, hloop, hlink]
  | v6 x =>
    simp only [isPrivateIp, Bool.or_eq_false_iff] at h
    simp [IpAddr.isInternal, V6.isInternal, missed, h.1, h.2, Bool.or_comm x.isLinkLocal]

variable {list : List String}

theorem listed_or_cuts (h : Admitted list host) : Listed list host ∨ CutsLabel list host := by
  obtain ⟨entry, hmem, hentry⟩ := h
  by_cases hlisted : Listed list host
  · exact Or.inl hlisted
  refine Or.inr ⟨?_, hlisted⟩
  unfold entryMatches at hentry
  split at hentry
  · next suffix heq =>
    refine ⟨entry, hmem, suffix, heq, ?_⟩
    rcases Bool.or_eq_true _ _ ▸ hentry with hends | hequal
    · simpa using hends
    · rw [of_decide_eq_true hequal]
  · next hdot =>
    refine absurd ⟨entry, hmem, Or.inl ?_⟩ hlisted
    rw [of_decide_eq_true hentry, entryName]
    split
    · next suffix heq => exact absurd heq (hdot suffix)
    · rfl

theorem admitted_of_cuts (h : CutsLabel list host) : Admitted list host := by
  obtain ⟨⟨entry, hmem, suffix, heq, hends⟩, -⟩ := h
  refine ⟨entry, hmem, ?_⟩
  simp [entryMatches, heq, hends]

/-- The resolver answers a literal with its address. -/
def LooksUpLiterals (lookup : String → Option (List IpAddr)) : Prop :=
  ∀ host ip, hostAddress host.toList = some ip → lookup (host ++ ":0") = some [ip]

/-- Requests are sent to safe hosts only, if and only if no host that passes the other checks cuts
a label at an entry, and none that is let through is an unspecified address, or in IPv6 a link-local
or a mapped internal one. -/
theorem safe_iff {outside : HttpOutside} (hlookup : LooksUpLiterals outside.lookup)
    (args : HttpArgs) :
    (∀ host, httpRequest outside args = .ok host → Safe (allowlist outside) host) ↔
      ∀ host, Passes outside args host →
        ¬CutsLabel (allowlist outside) host ∧
          (Admitted (allowlist outside) host →
            ∀ ip, hostAddress host.toList = some ip → missed ip = false) := by
  have hmissed : ∀ host ip, Passes outside args host → hostAddress host.toList = some ip →
      ip.isInternal = missed ip := by
    intro host ip hpasses hip
    refine internal_iff_missed (hpasses.addresses ip ?_)
    rw [hlookup host ip hip]
    exact List.mem_singleton_self ip
  constructor
  · intro h host hpasses
    refine ⟨fun hcuts => hcuts.2 ?_, fun hadmitted ip hip => ?_⟩
    · exact (h host (httpRequest_eq_ok_iff.mpr ⟨hpasses, admitted_of_cuts hcuts⟩)).1
    · rw [← hmissed host ip hpasses hip]
      exact (h host (httpRequest_eq_ok_iff.mpr ⟨hpasses, hadmitted⟩)).2 ip hip
  · intro h host hok
    obtain ⟨hpasses, hadmitted⟩ := httpRequest_eq_ok_iff.mp hok
    obtain ⟨hcuts, hip⟩ := h host hpasses
    refine ⟨(listed_or_cuts hadmitted).resolve_right hcuts, fun ip haddress => ?_⟩
    rw [hmissed host ip hpasses haddress]
    exact hip hadmitted ip haddress

/-- A list of one domain with its subdomains, one host and two addresses. -/
def sampleOutside : HttpOutside where
  parse := fun url =>
    .ok ⟨"https", some (String.ofList ((url.toList.drop "https://".length).takeWhile (· ≠ '/')))⟩
  lookup := fun host =>
    match hostAddress (host.toList.take (host.toList.length - 2)) with
    | some ip => some [ip]
    | none => some [.v4 ⟨93, 184, 216, 34⟩]
  header := fun _ => true
  headerError := ""
  allowlistVar := some ".example.com, hooks.example.org, 0.0.0.0, [::ffff:7f00:1]"

def sampleArgs (url : String) : HttpArgs := { method := "get", url }

theorem sample_looksUpLiterals : LooksUpLiterals sampleOutside.lookup := by
  intro host ip h
  have htake : (host ++ ":0").toList.take ((host ++ ":0").toList.length - 2) = host.toList := by
    have hzero : ":0".toList = [':', '0'] := rfl
    simp [String.toList_append, hzero]
  show (match hostAddress _ with | some ip => some [ip] | none => _) = _
  rw [htake, h]

theorem safe_subdomain :
    httpRequest sampleOutside (sampleArgs "https://api.example.com/v1") = .ok "api.example.com" ∧
      ∀ host, httpRequest sampleOutside (sampleArgs "https://api.example.com/v1") = .ok host →
        Safe (allowlist sampleOutside) host := by
  have hlist : allowlist sampleOutside =
      [".example.com", "hooks.example.org", "0.0.0.0", "[::ffff:7f00:1]"] := by decide +kernel
  refine ⟨by decide +kernel, ?_⟩
  rw [safe_iff sample_looksUpLiterals, hlist]
  intro host hpasses
  obtain ⟨url, name, hparse, -, hname, hhost⟩ := hpasses.url
  have hapi : host = "api.example.com" := by
    cases hparse
    cases hname
    rw [hhost]
    decide +kernel
  subst hapi
  refine ⟨fun hcuts => hcuts.2 ⟨".example.com", by decide, Or.inr (by decide)⟩, fun _ ip hip => ?_⟩
  have hnone : hostAddress "api.example.com".toList = none := by decide +kernel
  rw [hnone] at hip
  cases hip

/-- Another domain that ends like an entry is sent to, so are 0.0.0.0 and the mapped form of
127.0.0.1. -/
theorem not_safe_hosts :
    ¬(∀ host, httpRequest sampleOutside (sampleArgs "https://evilexample.com/") = .ok host →
        Safe (allowlist sampleOutside) host) ∧
      ¬(∀ host, httpRequest sampleOutside (sampleArgs "https://0.0.0.0/") = .ok host →
        Safe (allowlist sampleOutside) host) ∧
      ¬(∀ host, httpRequest sampleOutside (sampleArgs "https://[::ffff:7f00:1]/") = .ok host →
        Safe (allowlist sampleOutside) host) := by
  have hlist : allowlist sampleOutside =
      [".example.com", "hooks.example.org", "0.0.0.0", "[::ffff:7f00:1]"] := by decide +kernel
  refine ⟨fun h => ?_, fun h => ?_, fun h => ?_⟩
  · obtain ⟨⟨entry, hmem, hentry⟩, -⟩ := h "evilexample.com" (by decide +kernel)
    rw [hlist] at hmem
    revert entry
    decide +kernel
  · have hpublic := (h "0.0.0.0" (by decide +kernel)).2 (.v4 ⟨0, 0, 0, 0⟩) (by decide +kernel)
    exact absurd hpublic (by decide)
  · have hpublic := (h "[::ffff:7f00:1]" (by decide +kernel)).2
      (.v6 ⟨[0, 0, 0, 0, 0, 0xffff, 0x7f00, 1], rfl⟩) (by decide +kernel)
    exact absurd hpublic (by decide)

end HiveClaw.Runtime
