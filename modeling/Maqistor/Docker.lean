import Maqistor.Lib.Outcome
import Mathlib.Data.List.DropRight

/-! The `[docker]` section of the configuration: its check when the file is loaded, and the
connection that the dispatcher makes of it. The endpoint is a string in both places, and each looks
at its prefix. -/

namespace Maqistor

structure DockerConfig where
  endpoint : Option String
  caCertPath : Option String
  certPath : Option String
  keyPath : Option String
deriving DecidableEq, Repr

structure DockerConnectOptions where
  endpoint : Option String
  caCertPath : Option String
  certPath : Option String
  keyPath : Option String
deriving DecidableEq, Repr

/-- `connect_options`. -/
def DockerConfig.connectOptions (docker : DockerConfig) : DockerConnectOptions :=
  { endpoint := docker.endpoint, caCertPath := docker.caCertPath, certPath := docker.certPath
    keyPath := docker.keyPath }

/-- The prefixes that the two functions know. -/
inductive DockerScheme where
  | unix
  | npipe
  | tcp
  | http
  | https
deriving DecidableEq, Repr

namespace DockerScheme

def text : DockerScheme → String
  | .unix => "unix://"
  | .npipe => "npipe://"
  | .tcp => "tcp://"
  | .http => "http://"
  | .https => "https://"

/-- `endpoint.starts_with(..)` of the scheme's text. -/
def starts (scheme : DockerScheme) (endpoint : String) : Bool :=
  scheme.text.toList <+: endpoint.toList

end DockerScheme

/-! ### `validate_docker_config` -/

inductive DockerConfigError where
  /-- "docker TLS requires ca_cert_path, cert_path, and key_path together" -/
  | partialTls
  /-- "https:// Docker endpoints require ca_cert_path, cert_path, and key_path" -/
  | httpsWithoutTls
  /-- "docker TLS requires a tcp:// or https:// endpoint" -/
  | tlsWithoutEndpoint
  /-- "docker TLS is only valid with a tcp:// or https:// endpoint" -/
  | tlsScheme
  /-- "docker.endpoint must use unix://, npipe://, tcp://, http://, or https://" -/
  | scheme
  /-- "docker.endpoint must include a path or host" -/
  | emptyEndpoint
deriving DecidableEq, Repr

/-- `tls_set`: how many of the three paths are set. -/
def DockerConfig.tlsSet (docker : DockerConfig) : Nat :=
  [docker.caCertPath, docker.certPath, docker.keyPath].countP Option.isSome

/-- `endpoint.trim_end_matches('/')`. -/
def trimEndSlashes (endpoint : String) : List Char := endpoint.toList.rdropWhile (· = '/')

def checkTlsSet (tlsSet : Nat) : Except DockerConfigError Unit :=
  if tlsSet ≠ 0 ∧ tlsSet ≠ 3 then .error .partialTls else .ok ()

def checkHttps (tlsSet : Nat) (endpoint : Option String) : Except DockerConfigError Unit :=
  if endpoint.any DockerScheme.https.starts ∧ tlsSet ≠ 3 then .error .httpsWithoutTls else .ok ()

def checkTlsEndpoint (tlsSet : Nat) (endpoint : Option String) : Except DockerConfigError Unit :=
  if tlsSet = 3 then
    match endpoint with
    | none => .error .tlsWithoutEndpoint
    | some endpoint =>
      if !(DockerScheme.tcp.starts endpoint || DockerScheme.https.starts endpoint) then
        .error .tlsScheme
      else .ok ()
  else .ok ()

def checkEndpoint : Option String → Except DockerConfigError Unit
  | none => .ok ()
  | some endpoint =>
    let ok := DockerScheme.unix.starts endpoint || DockerScheme.npipe.starts endpoint ||
      DockerScheme.tcp.starts endpoint || DockerScheme.http.starts endpoint ||
      DockerScheme.https.starts endpoint
    if !ok then .error .scheme
    else if "://".toList <:+ trimEndSlashes endpoint ∨ endpoint = "unix://" ∨
        endpoint = "npipe://" then .error .emptyEndpoint
    else .ok ()

/-- `validate_docker_config`: its four checks, in their order. -/
def validateDockerConfig (docker : DockerConfig) : Except DockerConfigError Unit := do
  checkTlsSet docker.tlsSet
  checkHttps docker.tlsSet docker.endpoint
  checkTlsEndpoint docker.tlsSet docker.endpoint
  checkEndpoint docker.endpoint

/-! ### `connect_docker` -/

/-- The hosts that the client is built for. -/
inductive Platform where
  | unix
  | windows
deriving DecidableEq, Repr

/-- `DOCKER_CONNECT_TIMEOUT_SECS`. -/
def dockerConnectTimeoutSecs : Nat := 120

/-- The call of the Docker client that is reached, with its arguments. -/
inductive DockerConnect where
  | connectWithLocalDefaults
  | connectWithUnix (endpoint : String) (timeoutSecs : Nat)
  | connectWithNamedPipe (endpoint : String) (timeoutSecs : Nat)
  | connectWithSsl (endpoint key cert ca : String) (timeoutSecs : Nat)
  | connectWithHttp (endpoint : String) (timeoutSecs : Nat)
deriving DecidableEq, Repr

inductive DockerConnectError where
  /-- "unix:// Docker endpoints are only supported on Unix hosts" -/
  | unixOnly
  /-- "npipe:// Docker endpoints are only supported on Windows hosts" -/
  | windowsOnly
  /-- "docker TLS requires ca_cert_path, cert_path, and key_path together" -/
  | partialTls
  /-- "unsupported docker endpoint scheme: {endpoint}" -/
  | unsupportedScheme (endpoint : String)
deriving DecidableEq, Repr

/-- `connect_docker`, up to the call of the client or the error before it. -/
def connectDocker (platform : Platform) (options : DockerConnectOptions) :
    Except DockerConnectError DockerConnect :=
  match options.endpoint with
  | none => .ok .connectWithLocalDefaults
  | some endpoint =>
    if DockerScheme.unix.starts endpoint then
      match platform with
      | .unix => .ok (.connectWithUnix endpoint dockerConnectTimeoutSecs)
      | .windows => .error .unixOnly
    else if DockerScheme.npipe.starts endpoint then
      match platform with
      | .windows => .ok (.connectWithNamedPipe endpoint dockerConnectTimeoutSecs)
      | .unix => .error .windowsOnly
    else if DockerScheme.tcp.starts endpoint || DockerScheme.http.starts endpoint ||
        DockerScheme.https.starts endpoint then
      match options.caCertPath, options.certPath, options.keyPath with
      | some ca, some cert, some key =>
        .ok (.connectWithSsl endpoint key cert ca dockerConnectTimeoutSecs)
      | none, none, none => .ok (.connectWithHttp endpoint dockerConnectTimeoutSecs)
      | _, _, _ => .error .partialTls
    else .error (.unsupportedScheme endpoint)

/-! ### Schemes -/

namespace DockerScheme

theorem starts_iff {scheme : DockerScheme} {endpoint : String} :
    scheme.starts endpoint = true ↔ ∃ target, endpoint = scheme.text ++ target := by
  unfold starts
  rw [decide_eq_true_eq]
  constructor
  · rintro ⟨target, htarget⟩
    refine ⟨String.ofList target, String.toList_injective ?_⟩
    rw [String.toList_append, String.toList_ofList, htarget]
  · rintro ⟨target, rfl⟩
    exact ⟨target.toList, String.toList_append.symm⟩

/-- No text of a scheme starts with that of another. -/
theorem text_unique {scheme other : DockerScheme} :
    scheme.text.toList <+: other.text.toList → scheme = other := by
  cases scheme <;> cases other <;> decide

/-- An endpoint has one scheme. -/
@[simp] theorem starts_text (scheme other : DockerScheme) (target : String) :
    other.starts (scheme.text ++ target) = decide (other = scheme) := by
  rw [Bool.eq_iff_iff, decide_eq_true_eq]
  constructor
  · intro h
    have hother : other.text.toList <+: (scheme.text ++ target).toList := of_decide_eq_true h
    have hscheme : scheme.text.toList <+: (scheme.text ++ target).toList :=
      ⟨target.toList, String.toList_append.symm⟩
    rcases List.prefix_or_prefix_of_prefix hother hscheme with hle | hle
    · exact text_unique hle
    · exact (text_unique hle).symm
  · rintro rfl
    exact starts_iff.mpr ⟨target, rfl⟩

theorem text_append_inj {scheme other : DockerScheme} {target target' : String} :
    scheme.text ++ target = other.text ++ target' ↔ scheme = other ∧ target = target' := by
  constructor
  · intro h
    have hstarts : other.starts (scheme.text ++ target) = true := starts_iff.mpr ⟨target', h⟩
    obtain rfl : other = scheme := by simpa using hstarts
    exact ⟨rfl, (String.append_right_inj other.text).mp h⟩
  · rintro ⟨rfl, rfl⟩
    rfl

/-- An endpoint that is no more than a scheme. -/
theorem text_append_eq_text {scheme : DockerScheme} {target : String} (other : DockerScheme) :
    scheme.text ++ target = other.text ↔ scheme = other ∧ target = "" := by
  rw [← text_append_inj, String.append_empty]

end DockerScheme

/-- Without its slashes at the end, no endpoint ends with "://". -/
theorem not_suffix_trimEndSlashes (endpoint : String) :
    ¬"://".toList <:+ trimEndSlashes endpoint := by
  rintro ⟨before, hbefore⟩
  unfold trimEndSlashes at hbefore
  have hne : endpoint.toList.rdropWhile (· = '/') ≠ [] := by
    rw [← hbefore]
    simp
  apply List.rdropWhile_last_not _ _ hne
  simp [← hbefore]

/-! ### What the check accepts -/

namespace DockerConfig

def NoTls (docker : DockerConfig) : Prop :=
  docker.caCertPath = none ∧ docker.certPath = none ∧ docker.keyPath = none

def AllTls (docker : DockerConfig) : Prop :=
  docker.caCertPath.isSome ∧ docker.certPath.isSome ∧ docker.keyPath.isSome

theorem NoTls.not_allTls {docker : DockerConfig} (h : docker.NoTls) : ¬docker.AllTls := by
  rintro ⟨hca, -⟩
  rw [h.1] at hca
  cases hca

theorem tlsSet_eq_zero {docker : DockerConfig} : docker.tlsSet = 0 ↔ docker.NoTls := by
  simp [tlsSet, NoTls]

theorem tlsSet_eq_three {docker : DockerConfig} : docker.tlsSet = 3 ↔ docker.AllTls := by
  obtain ⟨endpoint, ca, cert, key⟩ := docker
  cases ca <;> cases cert <;> cases key <;> simp [tlsSet, AllTls]

end DockerConfig

/-- The TLS paths that an endpoint of the scheme may have. -/
def DockerScheme.Takes (docker : DockerConfig) : DockerScheme → Prop
  | .unix | .npipe | .http => docker.NoTls
  | .tcp => docker.NoTls ∨ docker.AllTls
  | .https => docker.AllTls

theorem DockerScheme.Takes.none_or_all {docker : DockerConfig} {scheme : DockerScheme}
    (h : scheme.Takes docker) : docker.NoTls ∨ docker.AllTls := by
  cases scheme with
  | tcp => exact h
  | https => exact Or.inr h
  | unix | npipe | http => exact Or.inl h

/-- The schemes of a local endpoint. -/
def DockerScheme.Local (scheme : DockerScheme) : Prop := scheme = .unix ∨ scheme = .npipe

/-- What the check accepts. Only the two local schemes need something behind them. -/
inductive DockerConfig.Accepted (docker : DockerConfig) : Prop
  | localDefaults (hendpoint : docker.endpoint = none) (htls : docker.NoTls)
  | endpoint (scheme : DockerScheme) (target : String)
      (hendpoint : docker.endpoint = some (scheme.text ++ target)) (htls : scheme.Takes docker)
      (htarget : scheme.Local → target ≠ "")

section Checks

variable {tlsSet : Nat} {endpoint : Option String} {docker : DockerConfig}

theorem checkTlsSet_ok : checkTlsSet tlsSet = .ok () ↔ tlsSet = 0 ∨ tlsSet = 3 := by
  rw [checkTlsSet, Outcome.guard_eq_ok]
  omega

theorem checkHttps_ok : checkHttps tlsSet endpoint = .ok () ↔
    (endpoint.any DockerScheme.https.starts = true → tlsSet = 3) := by
  rw [checkHttps, Outcome.guard_eq_ok]
  tauto

theorem checkTlsEndpoint_ok : checkTlsEndpoint tlsSet endpoint = .ok () ↔
    (tlsSet = 3 → endpoint.any (fun endpoint =>
      DockerScheme.tcp.starts endpoint || DockerScheme.https.starts endpoint) = true) := by
  unfold checkTlsEndpoint
  split
  · next hall =>
    cases endpoint with
    | none => simp [hall]
    | some endpoint =>
      rw [Outcome.guard_eq_ok, Bool.not_eq_true', Bool.not_eq_false, Option.any_some]
      exact ⟨fun h _ => h, fun h => h hall⟩
  · next hnot => simp [hnot]

theorem exists_starts {endpoint : String} :
    (DockerScheme.unix.starts endpoint || DockerScheme.npipe.starts endpoint ||
      DockerScheme.tcp.starts endpoint || DockerScheme.http.starts endpoint ||
      DockerScheme.https.starts endpoint) = true ↔
    ∃ scheme target, endpoint = DockerScheme.text scheme ++ target := by
  constructor
  · intro h
    simp only [Bool.or_eq_true] at h
    rcases h with (((h | h) | h) | h) | h
    all_goals exact ⟨_, DockerScheme.starts_iff.mp h⟩
  · rintro ⟨scheme, target, rfl⟩
    cases scheme <;> simp

theorem checkEndpoint_ok : checkEndpoint endpoint = .ok () ↔
    ∀ given, endpoint = some given → ∃ scheme target, given = DockerScheme.text scheme ++ target ∧
      (scheme.Local → target ≠ "") := by
  cases endpoint with
  | none => simp [checkEndpoint]
  | some given =>
    simp only [checkEndpoint, Option.some.injEq, forall_eq']
    split
    · next hunknown =>
      rw [Bool.not_eq_true', ← Bool.not_eq_true, exists_starts] at hunknown
      refine iff_of_false (by simp) ?_
      rintro ⟨scheme, target, hgiven, -⟩
      exact hunknown ⟨scheme, target, hgiven⟩
    · next hknown =>
      rw [Bool.not_eq_true', Bool.not_eq_false, exists_starts] at hknown
      obtain ⟨scheme, target, rfl⟩ := hknown
      have hunix : scheme.text ++ target = "unix://" ↔ scheme = .unix ∧ target = "" :=
        DockerScheme.text_append_eq_text .unix
      have hnpipe : scheme.text ++ target = "npipe://" ↔ scheme = .npipe ∧ target = "" :=
        DockerScheme.text_append_eq_text .npipe
      -- the first of the three conditions never holds
      rw [Outcome.guard_eq_ok, or_iff_right (not_suffix_trimEndSlashes _), hunix, hnpipe, ← or_and_right,
        not_and]
      constructor
      · intro htarget
        exact ⟨scheme, target, rfl, htarget⟩
      · rintro ⟨other, target', heq, htarget⟩
        obtain ⟨rfl, rfl⟩ := DockerScheme.text_append_inj.mp heq
        exact htarget

theorem validateDockerConfig_ok : validateDockerConfig docker = .ok () ↔ docker.Accepted := by
  have hchecks : validateDockerConfig docker = .ok () ↔ checkTlsSet docker.tlsSet = .ok () ∧
      checkHttps docker.tlsSet docker.endpoint = .ok () ∧
      checkTlsEndpoint docker.tlsSet docker.endpoint = .ok () ∧
      checkEndpoint docker.endpoint = .ok () := by
    unfold validateDockerConfig
    simp only [Outcome.bind_eq_ok]
    constructor
    · rintro ⟨_, htls, _, hhttps, _, hendpoint, hscheme⟩
      exact ⟨htls, hhttps, hendpoint, hscheme⟩
    · rintro ⟨htls, hhttps, hendpoint, hscheme⟩
      exact ⟨(), htls, (), hhttps, (), hendpoint, hscheme⟩
  rw [hchecks, checkTlsSet_ok, checkHttps_ok, checkTlsEndpoint_ok, checkEndpoint_ok,
    DockerConfig.tlsSet_eq_zero, DockerConfig.tlsSet_eq_three]
  constructor
  · rintro ⟨htls, hhttps, hendpoint, hscheme⟩
    cases hgiven : docker.endpoint with
    | none =>
      rw [hgiven] at hendpoint
      exact .localDefaults hgiven (htls.resolve_right fun hall => by simpa using hendpoint hall)
    | some given =>
      obtain ⟨scheme, target, rfl, htarget⟩ := hscheme given hgiven
      rw [hgiven] at hhttps hendpoint
      refine .endpoint scheme target hgiven ?_ htarget
      cases scheme with
      | tcp => exact htls
      | https => exact hhttps (by simp)
      | unix | npipe | http =>
        exact htls.resolve_right fun hall => by simpa using hendpoint hall
  · rintro (⟨hnone, htls⟩ | ⟨scheme, target, hgiven, htls, htarget⟩)
    · rw [hnone]
      refine ⟨Or.inl htls, ?_, fun hall => absurd hall htls.not_allTls, ?_⟩
      · intro h
        cases h
      · intro given h
        cases h
    · rw [hgiven]
      refine ⟨htls.none_or_all, ?_, ?_, ?_⟩
      · intro hhttps
        obtain rfl : .https = scheme := by simpa using hhttps
        exact htls
      · intro hall
        cases scheme with
        | tcp | https => simp
        | unix | npipe | http => exact absurd hall (DockerConfig.NoTls.not_allTls htls)
      · rintro given ⟨⟩
        exact ⟨scheme, target, rfl, htarget⟩

end Checks

/-! ### What the connection needs -/

/-- A Unix socket is for Unix, a named pipe for Windows. -/
def Platform.Supports (platform : Platform) (endpoint : Option String) : Prop :=
  ∀ given, endpoint = some given → (DockerScheme.unix.starts given = true → platform = .unix) ∧
    (DockerScheme.npipe.starts given = true → platform = .windows)

/-- Settings that can be used: the endpoint names something behind its scheme, the TLS paths are
complete or absent as the scheme needs it, and the connection reaches the Docker client. -/
structure DockerConfig.Usable (docker : DockerConfig) : Prop where
  endpoint : ∀ given, docker.endpoint = some given →
    ∃ scheme target, given = DockerScheme.text scheme ++ target ∧ ∃ c ∈ target.toList, c ≠ '/'
  tls : (docker.AllTls ∧ ∃ scheme target, docker.endpoint = some (DockerScheme.text scheme ++ target) ∧
      (scheme = .tcp ∨ scheme = .https)) ∨
    docker.NoTls ∧ ∀ target, docker.endpoint ≠ some (DockerScheme.https.text ++ target)
  connects : ∀ platform : Platform, platform.Supports docker.endpoint →
    ∃ call, connectDocker platform docker.connectOptions = .ok call

def slashes (n : Nat) : String := String.ofList (List.replicate n '/')

/-- A scheme with slashes behind it and nothing else, and TLS paths that go with the scheme. A local
scheme alone is not meant. -/
def DockerConfig.Bare (docker : DockerConfig) : Prop :=
  ∃ scheme n, docker.endpoint = some (DockerScheme.text scheme ++ slashes n) ∧
    scheme.Takes docker ∧ (scheme.Local → n ≠ 0)

section Usable

variable {docker : DockerConfig}

theorem exists_ne_or_slashes (target : String) :
    (∃ c ∈ target.toList, c ≠ '/') ∨ ∃ n, target = slashes n := by
  by_cases hother : ∃ c ∈ target.toList, c ≠ '/'
  · exact Or.inl hother
  · right
    push Not at hother
    refine ⟨target.toList.length, String.toList_injective ?_⟩
    rw [slashes, String.toList_ofList]
    exact List.eq_replicate_length.mpr hother

theorem eq_slash_of_mem {n : Nat} {c : Char} (h : c ∈ (slashes n).toList) : c = '/' := by
  rw [slashes, String.toList_ofList] at h
  exact List.eq_of_mem_replicate h

theorem slashes_eq_empty {n : Nat} : slashes n = "" ↔ n = 0 := by
  rw [← String.toList_inj, slashes, String.toList_ofList]
  simp

theorem DockerConfig.Accepted.tls (h : docker.Accepted) :
    (docker.AllTls ∧ ∃ scheme target, docker.endpoint = some (DockerScheme.text scheme ++ target) ∧
      (scheme = .tcp ∨ scheme = .https)) ∨
    docker.NoTls ∧ ∀ target, docker.endpoint ≠ some (DockerScheme.https.text ++ target) := by
  cases h with
  | localDefaults hendpoint htls =>
    refine Or.inr ⟨htls, fun target heq => ?_⟩
    cases hendpoint.symm.trans heq
  | endpoint scheme target hendpoint htls =>
    rcases htls.none_or_all with hnone | hall
    · refine Or.inr ⟨hnone, fun target' heq => ?_⟩
      obtain ⟨rfl, -⟩ := DockerScheme.text_append_inj.mp (Option.some.inj (hendpoint.symm.trans heq))
      exact hnone.not_allTls htls
    · refine Or.inl ⟨hall, scheme, target, hendpoint, ?_⟩
      cases scheme with
      | tcp => exact Or.inl rfl
      | https => exact Or.inr rfl
      | unix | npipe | http => exact absurd hall (DockerConfig.NoTls.not_allTls htls)

/-- A remote endpoint is reached on every platform, with TLS or without. -/
theorem connectDocker_remote {scheme : DockerScheme} {target : String}
    (hendpoint : docker.endpoint = some (scheme.text ++ target)) (hremote : ¬scheme.Local)
    (htls : docker.NoTls ∨ docker.AllTls) (platform : Platform) :
    ∃ call, connectDocker platform docker.connectOptions = .ok call := by
  obtain ⟨hunix, hnpipe⟩ := not_or.mp hremote
  have hscheme : (decide (DockerScheme.tcp = scheme) || decide (DockerScheme.http = scheme) ||
      decide (DockerScheme.https = scheme)) = true := by
    cases scheme with
    | unix => exact absurd rfl hunix
    | npipe => exact absurd rfl hnpipe
    | tcp | http | https => rfl
  simp only [connectDocker, DockerConfig.connectOptions, hendpoint, DockerScheme.starts_text,
    Ne.symm hunix, Ne.symm hnpipe, decide_false, Bool.false_eq_true, if_false, hscheme, if_true]
  rcases htls with ⟨hca, hcert, hkey⟩ | ⟨hca, hcert, hkey⟩
  · rw [hca, hcert, hkey]
    exact ⟨_, rfl⟩
  · obtain ⟨ca, hca⟩ := Option.isSome_iff_exists.mp hca
    obtain ⟨cert, hcert⟩ := Option.isSome_iff_exists.mp hcert
    obtain ⟨key, hkey⟩ := Option.isSome_iff_exists.mp hkey
    rw [hca, hcert, hkey]
    exact ⟨_, rfl⟩

theorem DockerConfig.Accepted.connects (h : docker.Accepted) (platform : Platform)
    (hplatform : platform.Supports docker.endpoint) :
    ∃ call, connectDocker platform docker.connectOptions = .ok call := by
  cases h with
  | localDefaults hendpoint =>
    rw [connectDocker, DockerConfig.connectOptions, hendpoint]
    exact ⟨_, rfl⟩
  | endpoint scheme target hendpoint htls =>
    obtain ⟨hunix, hnpipe⟩ := hplatform _ hendpoint
    cases scheme with
    | unix =>
      obtain rfl := hunix (by simp)
      simp [connectDocker, DockerConfig.connectOptions, hendpoint]
    | npipe =>
      obtain rfl := hnpipe (by simp)
      simp [connectDocker, DockerConfig.connectOptions, hendpoint]
    | tcp | http | https =>
      exact connectDocker_remote hendpoint (by simp [DockerScheme.Local]) htls.none_or_all platform

theorem DockerConfig.Bare.accepted (h : docker.Bare) : docker.Accepted := by
  obtain ⟨scheme, n, hendpoint, htls, hlocal⟩ := h
  refine .endpoint scheme (slashes n) hendpoint htls fun hscheme => ?_
  rw [ne_eq, slashes_eq_empty]
  exact hlocal hscheme

theorem DockerConfig.Bare.not_usable (h : docker.Bare) : ¬docker.Usable := by
  intro husable
  obtain ⟨scheme, n, hendpoint, -, -⟩ := h
  obtain ⟨other, target, heq, c, hc, hne⟩ := husable.endpoint _ hendpoint
  obtain ⟨-, rfl⟩ := DockerScheme.text_append_inj.mp heq
  exact hne (eq_slash_of_mem hc)

/-- Settings that the check accepts name something, or are bare. -/
theorem DockerConfig.Accepted.named (h : docker.Accepted) (hbare : ¬docker.Bare) :
    ∀ given, docker.endpoint = some given →
      ∃ scheme target, given = DockerScheme.text scheme ++ target ∧ ∃ c ∈ target.toList, c ≠ '/' := by
  intro given hgiven
  cases h with
  | localDefaults hendpoint => simp [hendpoint] at hgiven
  | endpoint scheme target hendpoint htls htarget =>
    obtain rfl := Option.some.inj (hendpoint.symm.trans hgiven)
    refine ⟨scheme, target, rfl, ?_⟩
    rcases exists_ne_or_slashes target with hother | ⟨n, rfl⟩
    · exact hother
    · exact absurd ⟨scheme, n, hendpoint, htls, fun hlocal hzero =>
        htarget hlocal (slashes_eq_empty.mpr hzero)⟩ hbare

/-- For all settings: if the check accepts them they are usable, if and only if they are not
bare. -/
theorem docker_usable_iff (docker : DockerConfig) :
    (validateDockerConfig docker = .ok () → docker.Usable) ↔ ¬docker.Bare := by
  rw [validateDockerConfig_ok]
  constructor
  · intro husable hbare
    exact hbare.not_usable (husable hbare.accepted)
  · intro hbare haccepted
    exact ⟨haccepted.named hbare, haccepted.tls, haccepted.connects⟩

end Usable

/-- A slash more, and the endpoint without a path is accepted. -/
example :
    let docker endpoint : DockerConfig :=
      { endpoint := some endpoint, caCertPath := none, certPath := none, keyPath := none }
    validateDockerConfig (docker "unix://") = .error .emptyEndpoint ∧
      validateDockerConfig (docker "unix:///") = .ok () ∧
      validateDockerConfig (docker "unix:///var/run/docker.sock") = .ok () ∧
      validateDockerConfig (docker "ssh://host") = .error .scheme := by
  decide

/-- The check accepts an endpoint without a host. -/
theorem bare_tcp_accepted :
    ¬(validateDockerConfig
        { endpoint := some "tcp://", caCertPath := none, certPath := none, keyPath := none } = .ok () →
      DockerConfig.Usable
        { endpoint := some "tcp://", caCertPath := none, certPath := none, keyPath := none }) := by
  intro husable
  obtain ⟨scheme, target, heq, c, hc, hne⟩ := (husable (by decide)).endpoint _ rfl
  obtain ⟨-, rfl⟩ := (DockerScheme.text_append_eq_text .tcp).mp heq.symm
  cases hc

end Maqistor
