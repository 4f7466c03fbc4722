import HiveClaw.Hooks.Service
import HiveClaw.Lib.IpAddr
import Mathlib.Data.Bool.AllAny

/-!
# The guard of webhook URLs

`validate_webhook_url` of `crates/hiveweb/src/services/agent_hook.rs` looks for
the patterns of private addresses anywhere in a URL; it does not look for its
host. So it finds every private IPv4 address, but no IPv6 address, and of
127/8 only what looks like 127.0.0.1; and it turns away public hosts whose path
happens to hold a pattern.

* `guarded_iff` — for which URLs the guard decides by the host.
-/

namespace HiveClaw.Hooks

open Service Lib

-- ---
-- Hosts
-- ---

-- what follows the first `://`
def afterScheme : List Char → List Char
  | ':' :: '/' :: '/' :: rest => rest
  | _ :: rest => afterScheme rest
  | [] => []

/-- Host and port: the authority without user and password. -/
def hostPort (url : List Char) : List Char :=
  let authority := (afterScheme url).takeWhile fun c => c ∉ ['/', '?', '#', '\\']
  (authority.reverse.takeWhile (· ≠ '@')).reverse

/-- The host component of a URL; an address of version 6 keeps its brackets. -/
def hostOf (url : List Char) : List Char :=
  match hostPort url with
  | '[' :: rest => '[' :: rest.takeWhile (· ≠ ']') ++ (rest.dropWhile (· ≠ ']')).take 1
  | text => text.takeWhile (· ≠ ':')

theorem afterScheme_suffix (url : List Char) : afterScheme url <:+ url := by
  induction url using afterScheme.induct with
  | case1 rest =>
    rw [afterScheme]
    exact ⟨[':', '/', '/'], rfl⟩
  | case2 c rest hnot ih =>
    rw [afterScheme]
    · exact ih.trans (List.suffix_cons c rest)
    · exact hnot
  | case3 => exact List.suffix_rfl

theorem hostPort_inside (url : List Char) : hostPort url <:+: url := by
  have hsuffix : hostPort url <:+
      (afterScheme url).takeWhile fun c => c ∉ ['/', '?', '#', '\\'] := by
    rw [← List.reverse_prefix, hostPort, List.reverse_reverse]
    exact List.takeWhile_prefix _
  exact (hsuffix.isInfix.trans (List.takeWhile_prefix _).isInfix).trans
    (afterScheme_suffix url).isInfix

theorem hostAddress_eq_v4 {host : List Char} {x : V4} (h : hostAddress host = some (.v4 x)) :
    host = x.text ∧ ∀ rest, host ≠ '[' :: rest := by
  unfold hostAddress at h
  split at h
  · split at h
    · simp at h
    · cases h
  · next hbracket =>
    obtain ⟨y, hy, hxy⟩ := Option.map_eq_some_iff.mp h
    cases hxy
    exact ⟨parseV4_eq_some hy, hbracket⟩

variable {x : V4}

theorem text_inside {url : List Char} (h : hostAddress (hostOf url) = some (.v4 x)) :
    x.text <:+: url := by
  obtain ⟨hdotted, hbracket⟩ := hostAddress_eq_v4 h
  rw [← hdotted]
  unfold hostOf at hbracket ⊢
  split
  · next rest heq =>
    rw [heq] at hbracket
    exact absurd rfl (hbracket _)
  · exact (List.takeWhile_prefix _).isInfix.trans (hostPort_inside url)

-- ---
-- Patterns
-- ---

/-- `str::to_lowercase` keeps digits and dots. -/
def KeepsDigits (lower : String → String) : Prop :=
  ∀ (text : String) (piece : List Char), piece <:+: text.toList →
    (∀ c ∈ piece, c.isDigit ∨ c = '.') → piece <:+: (lower text).toList

/-- One of the patterns stands in the URL, in lower case. -/
def Listed (lower : String → String) (url : String) : Prop :=
  ∃ pat ∈ blockedPatterns, RustStr.contains (lower url) pat = true

instance (lower : String → String) (url : String) : Decidable (Listed lower url) := by
  unfold Listed
  infer_instance

def IsHttps (url : String) : Prop := "https://".toList.IsPrefix url.toList

instance (url : String) : Decidable (IsHttps url) := by
  unfold IsHttps
  infer_instance

theorem validateWebhookUrl_eq_ok_iff (lower : String → String) (url : String) :
    validateWebhookUrl lower url = .ok () ↔ IsHttps url ∧ ¬Listed lower url := by
  unfold validateWebhookUrl IsHttps
  split
  · next hempty =>
    subst hempty
    refine iff_of_false nofun fun h => ?_
    exact absurd h.1 (by decide)
  split
  · next hscheme => exact iff_of_false nofun fun h => hscheme h.1
  · next hscheme =>
    rw [and_iff_right (not_not.mp hscheme)]
    split
    · next pat hfind =>
      refine iff_of_false nofun fun h => h ⟨pat, List.mem_of_find?_eq_some hfind, ?_⟩
      exact List.find?_some hfind
    · next hfind =>
      refine iff_of_true rfl ?_
      rintro ⟨pat, hmem, hpat⟩
      exact List.find?_eq_none.mp hfind pat hmem hpat

/-- The patterns spell this address. -/
def Spelled (x : V4) : Prop :=
  ∃ pat ∈ blockedPatterns, pat.toList <:+: x.text ∧ ∀ c ∈ pat.toList, c.isDigit ∨ c = '.'

-- a dotted form begins with its first number, or with its first two
theorem spelled_of_first (pat : String) (hmem : pat ∈ blockedPatterns)
    (hdigits : ∀ c ∈ pat.toList, c.isDigit ∨ c = '.') (h : pat.toList = decimal x.a ++ ['.'] ∨
      pat.toList = decimal x.a ++ '.' :: decimal x.b ++ ['.'] ∨ pat.toList = x.text) :
    Spelled x := by
  refine ⟨pat, hmem, ?_, hdigits⟩
  rcases h with h | h | h
  · rw [h]
    exact ⟨[], decimal x.b ++ '.' :: decimal x.c ++ '.' :: decimal x.d, by simp [V4.text]⟩
  · rw [h]
    exact ⟨[], decimal x.c ++ '.' :: decimal x.d, by simp [V4.text]⟩
  · rw [h]

theorem listed_172 : ∀ b < 32, 16 ≤ b →
    String.ofList (decimal 172 ++ '.' :: decimal b ++ ['.']) ∈ blockedPatterns ∧
      (decimal 172 ++ '.' :: decimal b ++ ['.']).all fun c => c.isDigit ∨ c = '.' := by
  decide +kernel

theorem spelled_of_internal (h : x.isPrivate || x.isLinkLocal || x.isUnspecified) : Spelled x := by
  obtain ⟨a, b, c, d⟩ := x
  simp only [V4.isPrivate, V4.isLinkLocal, V4.isUnspecified, Bool.or_eq_true, Bool.and_eq_true,
    decide_eq_true_eq] at h
  rcases h with (((rfl | ⟨⟨rfl, hlow⟩, hhigh⟩) | ⟨rfl, rfl⟩) | ⟨rfl, rfl⟩) | ⟨⟨⟨rfl, rfl⟩, rfl⟩, rfl⟩
  · exact spelled_of_first "10." (by decide) (List.all_iff_forall_prop.mp (by decide))
      (Or.inl (by show _ = decimal 10 ++ _; decide))
  · obtain ⟨hmem, hdigits⟩ := listed_172 b (Nat.lt_succ_of_le hhigh) hlow
    refine spelled_of_first _ hmem ?_ (Or.inr (Or.inl ?_))
    · rw [String.toList_ofList]
      exact List.all_iff_forall_prop.mp hdigits
    · rw [String.toList_ofList]
      rfl
  · refine spelled_of_first "192.168." (by decide) (List.all_iff_forall_prop.mp (by decide))
      (Or.inr (Or.inl ?_))
    show _ = decimal 192 ++ '.' :: decimal 168 ++ _
    decide
  · refine spelled_of_first "169.254." (by decide) (List.all_iff_forall_prop.mp (by decide))
      (Or.inr (Or.inl ?_))
    show _ = decimal 169 ++ '.' :: decimal 254 ++ _
    decide
  · exact spelled_of_first "0.0.0.0" (by decide) (List.all_iff_forall_prop.mp (by decide))
      (Or.inr (Or.inr (by decide)))

/-- An internal address that the patterns need not spell: all of 127/8 but 127.0.0.1, and every
internal IPv6 address. -/
def escapes : IpAddr → Bool
  | .v4 x => x.isLoopback && x ≠ ⟨127, 0, 0, 1⟩
  | .v6 x => x.isInternal

/-- Which addresses the patterns spell. -/
theorem listed_of_internal {lower : String → String} (hlower : KeepsDigits lower) {url : String}
    {ip : IpAddr} (hhost : hostAddress (hostOf url.toList) = some ip) (hip : ip.isInternal)
    (hspelled : escapes ip = false) : Listed lower url := by
  have hv4 : ∀ x, hostAddress (hostOf url.toList) = some (.v4 x) → Spelled x → Listed lower url := by
    rintro x hx ⟨pat, hmem, hinside, hdigits⟩
    refine ⟨pat, hmem, decide_eq_true ?_⟩
    exact hlower url pat.toList (hinside.trans (text_inside hx)) hdigits
  cases ip with
  | v6 x =>
    have hnot : x.isInternal = false := hspelled
    exact absurd hip (by simp [IpAddr.isInternal, hnot])
  | v4 x =>
    refine hv4 x hhost ?_
    by_cases hloop : x.isLoopback
    · have hx : x = ⟨127, 0, 0, 1⟩ := by simpa [escapes, hloop] using hspelled
      subst hx
      exact spelled_of_first "127.0.0.1" (by decide)
        (List.all_iff_forall_prop.mp (by decide)) (Or.inr (Or.inr (by decide)))
    · exact spelled_of_internal (by simpa [IpAddr.isInternal, V4.isInternal, hloop] using hip)

-- ---
-- The guard
-- ---

/-- A URL whose scheme is https, in any case. -/
def HasHttpsScheme (url : String) : Prop :=
  (url.toList.take "https://".length).map Char.toLower = "https://".toList

instance (url : String) : Decidable (HasHttpsScheme url) := by
  unfold HasHttpsScheme
  infer_instance

/-- No URL to an internal address is accepted, and every https URL to a public host is. -/
def Guarded (lower : String → String) (isPublic : List Char → Prop) (url : String) : Prop :=
  (∀ ip, hostAddress (hostOf url.toList) = some ip → ip.isInternal →
    validateWebhookUrl lower url ≠ .ok ()) ∧
    (HasHttpsScheme url → isPublic (hostOf url.toList) → validateWebhookUrl lower url = .ok ())

/-- The guard decides a URL by its host if and only if a pattern stands in it where the host is an
internal address that the patterns do not spell, and where the host is public none does and the
scheme is written in lower case. -/
theorem guarded_iff {lower : String → String} (hlower : KeepsDigits lower)
    (isPublic : List Char → Prop) (url : String) :
    Guarded lower isPublic url ↔
      (IsHttps url →
        ∀ ip, hostAddress (hostOf url.toList) = some ip → escapes ip → Listed lower url) ∧
        (HasHttpsScheme url → isPublic (hostOf url.toList) → IsHttps url ∧ ¬Listed lower url) := by
  simp only [Guarded, Ne, validateWebhookUrl_eq_ok_iff]
  refine and_congr_left fun _ => ?_
  have hinternal : ∀ ip, escapes ip → ip.isInternal := by
    intro ip h
    cases ip with
    | v4 x =>
      obtain ⟨hloop, -⟩ : x.isLoopback = true ∧ x ≠ ⟨127, 0, 0, 1⟩ := by simpa [escapes] using h
      simp [IpAddr.isInternal, V4.isInternal, hloop]
    | v6 x => exact h
  constructor
  · intro hprivate hhttps ip hhost hescapes
    by_contra hlisted
    exact hprivate ip hhost (hinternal ip hescapes) ⟨hhttps, hlisted⟩
  · intro h ip hhost hip hok
    refine hok.2 ?_
    cases hescapes : escapes ip with
    | true => exact h hok.1 ip hhost hescapes
    | false => exact listed_of_internal hlower hhost hip hescapes

/-- A public DNS name: labels of letters, digits and hyphens, at least two, the last of them no
number and none that is kept for local use. -/
def isDnsName (host : List Char) : Bool :=
  let labels := host.splitOn '.'
  let tld := labels.getLastD []
  1 < labels.length && labels.all (fun l => l ≠ [] && l.all fun c => c.isAlphanum || c = '-') &&
    tld.any Char.isAlpha &&
    ["localhost", "local", "internal", "test", "invalid"].all fun kept => kept.toList ≠ tld

theorem keepsDigits_toAsciiLowercase : KeepsDigits RustStr.toAsciiLowercase := by
  intro text piece hinside hdigits
  have hkept : ∀ c ∈ piece, c.toLower = c := by
    intro c hc
    refine dif_neg ?_
    rintro ⟨hlow, hhigh⟩
    rcases hdigits c hc with hdigit | rfl
    · simp only [Char.isDigit, Bool.and_eq_true, decide_eq_true_eq] at hdigit
      have hle := UInt32.le_trans hlow hdigit.2
      exact absurd hle (by decide)
    · exact absurd hlow (by decide)
  have hmap : piece.map Char.toLower = piece :=
    (List.map_congr_left hkept).trans (List.map_id'' (fun _ => rfl) piece)
  rw [RustStr.toAsciiLowercase, String.toList_ofList, ← hmap]
  exact hinside.map Char.toLower

theorem guarded_hooks :
    Guarded RustStr.toAsciiLowercase (fun host => isDnsName host) "https://192.168.0.7:8443/in" ∧
      Guarded RustStr.toAsciiLowercase (fun host => isDnsName host)
        "https://hooks.example.com/in" := by
  have hprivate : hostOf "https://192.168.0.7:8443/in".toList = "192.168.0.7".toList := by decide
  have haddress : hostAddress "192.168.0.7".toList = some (.v4 ⟨192, 168, 0, 7⟩) := by
    decide +kernel
  have hpublic : hostOf "https://hooks.example.com/in".toList = "hooks.example.com".toList := by
    decide
  have hnone : hostAddress "hooks.example.com".toList = none := by decide +kernel
  refine ⟨(guarded_iff keepsDigits_toAsciiLowercase _ _).mpr ⟨fun _ => ?_, fun _ => ?_⟩,
    (guarded_iff keepsDigits_toAsciiLowercase _ _).mpr ⟨fun _ => ?_, fun _ _ => ?_⟩⟩
  · rw [hprivate, haddress]
    rintro ip ⟨⟩
    decide
  · rw [hprivate]
    decide +kernel
  · rw [hpublic, hnone]
    nofun
  · decide +kernel

/-- A loopback address in brackets is accepted, so is 127.0.1.1, and a public host is turned away
for its path. -/
theorem not_guarded_hooks :
    ¬Guarded RustStr.toAsciiLowercase (fun host => isDnsName host) "https://[::1]/in" ∧
      ¬Guarded RustStr.toAsciiLowercase (fun host => isDnsName host) "https://127.0.1.1/in" ∧
      ¬Guarded RustStr.toAsciiLowercase (fun host => isDnsName host)
        "https://hooks.example.com/v10.2" := by
  have hprivate : ∀ url ip, hostAddress (hostOf url.toList) = some ip → ip.isInternal →
      IsHttps url → ¬Listed RustStr.toAsciiLowercase url →
        ¬Guarded RustStr.toAsciiLowercase (fun host => isDnsName host) url :=
    fun url ip hhost hip hhttps hlisted hguarded =>
      hguarded.1 ip hhost hip ((validateWebhookUrl_eq_ok_iff _ _).mpr ⟨hhttps, hlisted⟩)
  refine ⟨hprivate _ (.v6 ⟨[0, 0, 0, 0, 0, 0, 0, 1], rfl⟩) ?_ rfl ?_ ?_,
    hprivate _ (.v4 ⟨127, 0, 1, 1⟩) ?_ rfl ?_ ?_, fun hguarded => ?_⟩
  · decide +kernel
  · decide
  · decide +kernel
  · decide +kernel
  · decide
  · decide +kernel
  · have hok := hguarded.2 (by decide +kernel) (by decide +kernel)
    exact ((validateWebhookUrl_eq_ok_iff _ _).mp hok).2 (by decide +kernel)

end HiveClaw.Hooks
