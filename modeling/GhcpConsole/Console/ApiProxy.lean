import Mathlib.Data.List.DropRight
import Mathlib.Data.Nat.Init
import Mathlib.Logic.Function.Iterate
import GhcpConsole.Lib.PercentDecoding

/-!
# The path guard of the console

`apiProxy.ts`: `serviceProxy` forwards a request to the API of a service. It decodes the path up to
five times and refuses one with a dot segment, but it takes a malformed escape that comes up in a
later pass for a percent sign and stops decoding there.
-/

namespace GhcpConsole.Console

structure Url where
  protocol : String
  host : String
  pathname : String

structure ConsoleConfig where
  proxyBaseUrl : String
  ssoBaseUrl : String
  loginBaseUrl : String
  publicBaseUrl : Option String

inductive Target where
  | proxy
  | sso
  | login

structure Request where
  method : String
  originalUrl : String
  secFetchSite : Option String
  origin : Option String
  host : Option String

inductive Answer where
  /-- 403 -/
  | crossSite (code message : String)
  /-- 400 -/
  | invalid (code message : String)
  /-- `new URL` throws. -/
  | thrown
  | forward (url : String)
deriving DecidableEq

section Proxy

-- `new URL`, with `none` where it throws.
variable (newUrl : String → Option Url) (config : ConsoleConfig)

def publicHost : Option String :=
  match config.publicBaseUrl with
  | some url => if url = "" then none else (newUrl url).map (·.host)
  | none => none

def isSameHostOrigin (origin : String) (hostHeader : Option String) : Bool :=
  match newUrl origin with
  | none => false
  | some originUrl =>
      let requestHost := match hostHeader with
        | some header =>
            if header = "" then none
            else (newUrl (originUrl.protocol ++ "//" ++ header)).map (·.host)
        | none => none
      some originUrl.host = requestHost || some originUrl.host = publicHost newUrl config

def SAFE_METHODS : List String := ["GET", "HEAD", "OPTIONS"]

def isSameOriginWrite (req : Request) : Bool :=
  if SAFE_METHODS.contains req.method then true
  else if req.secFetchSite = some "cross-site" then false
  else match req.origin with
    | none => true
    | some origin => isSameHostOrigin newUrl config origin req.host

def targetBaseUrl : Target → String
  | .proxy => config.proxyBaseUrl
  | .sso => config.ssoBaseUrl
  | .login => config.loginBaseUrl

/-- `baseUrl.replace(/\/+$/, '')` with `/api` behind it. -/
def apiUrl (target : Target) : List Char :=
  (targetBaseUrl config target).toList.rdropWhile (· = '/') ++ "/api".toList

/-- What follows the mount path. -/
def suffixOf (mountPath : String) (req : Request) : List Char :=
  let suffix := req.originalUrl.toList.drop mountPath.length
  if suffix = [] then ['/'] else suffix

/-- `suffix.split('?')[0]` -/
def requestPath (mountPath : String) (req : Request) : List Char :=
  (suffixOf mountPath req).takeWhile (· ≠ '?')

def PASSES : Nat := 5

/-- The passes from the given one on; `none` refuses the path. -/
def decodePasses : (left pass : Nat) → List Char → Option (List Char)
  | 0, _, path => some path
  | left + 1, pass, path =>
      match decodeURIComponent path with
      | some next => if next = path then some path else decodePasses left (pass + 1) next
      -- A percent sign decoded from a valid path is a literal identifier character.
      | none => if 0 < pass then some path else none

def isDotSegment (part : List Char) : Bool := part = ['.'] || part = ['.', '.']

def isSlash (c : Char) : Bool := c = '\\' || c = '/'

def hasDotSegment (path : List Char) : Bool := (path.splitOnP isSlash).any isDotSegment

def forwardUrl (target : Target) (mountPath : String) (req : Request) : String :=
  String.ofList (apiUrl config target ++ suffixOf mountPath req)

def serviceProxy (target : Target) (mountPath : String) (req : Request) : Answer :=
  if !isSameOriginWrite newUrl config req then
    .crossSite "cross_site_request_rejected" "Console writes must come from this Console."
  else
    let url := forwardUrl config target mountPath req
    match decodePasses PASSES 0 (requestPath mountPath req) with
    | none => .invalid "invalid_proxy_path" "The service path is invalid."
    | some decodedPath =>
        if hasDotSegment decodedPath then
          .invalid "invalid_proxy_path" "Only public service API paths may be forwarded."
        else match newUrl url, newUrl (String.ofList (apiUrl config target ++ ['/'])) with
          | some forwarded, some api =>
              if api.pathname.toList.isPrefixOf forwarded.pathname.toList then .forward url
              else .invalid "invalid_proxy_path" "Only public service API paths may be forwarded."
          | _, _ => .thrown

/-- The path of the URL lies below the service's `/api/` path. -/
def BelowApi (target : Target) (url : String) : Prop :=
  ∃ forwarded api, newUrl url = some forwarded ∧
    newUrl (String.ofList (apiUrl config target ++ ['/'])) = some api ∧
    api.pathname.toList <+: forwarded.pathname.toList

end Proxy

/-! ## Dot segments stay -/

theorem hasDotSegment_append (a b : List Char) {c : Char} (slash : isSlash c = true) :
    hasDotSegment (a ++ c :: b) = (hasDotSegment a || hasDotSegment b) := by
  rw [hasDotSegment, List.splitOnP_append_cons a b slash, List.any_append]
  rfl

theorem isPlain_of_slash {c : Char} (slash : isSlash c = true) : isPlain c = true := by
  rcases Bool.or_eq_true_iff.mp slash with h | h <;>
  · obtain rfl := of_decide_eq_true h
    decide

theorem exists_slash_of_any : ∀ path : List Char, path.any isSlash = true →
    ∃ a c b, path = a ++ c :: b ∧ isSlash c = true
  | c :: path, h => by
      by_cases slash : isSlash c = true
      · exact ⟨[], c, path, rfl, slash⟩
      · obtain ⟨a, d, b, rfl, isSlash⟩ := exists_slash_of_any path (by simpa [slash] using h)
        exact ⟨c :: a, d, b, rfl, isSlash⟩

theorem hasDotSegment_lenientDecode (path : List Char) (dots : hasDotSegment path = true) :
    hasDotSegment (lenientDecode path) = true := by
  induction h : path.length using Nat.strongRecOn generalizing path with
  | ind length ih =>
    by_cases slashes : path.any isSlash = true
    · obtain ⟨a, c, b, rfl, slash⟩ := exists_slash_of_any path slashes
      rw [List.length_append, List.length_cons] at h
      rw [lenientDecode_append (isPlain_of_slash slash), hasDotSegment_append _ _ slash]
      rw [hasDotSegment_append _ _ slash, Bool.or_eq_true_iff] at dots
      rcases dots with dots | dots
      · simp [ih a.length (by omega) a dots rfl]
      · simp [ih b.length (by omega) b dots rfl]
    · have single : path.splitOnP isSlash = [path] :=
        List.splitOnP_eq_singleton (by simpa using slashes)
      rw [hasDotSegment, single, List.any_cons, List.any_nil, Bool.or_false] at dots
      rcases Bool.or_eq_true_iff.mp dots with dot | dot <;>
      · obtain rfl := of_decide_eq_true dot
        decide

/-- The path decoded a number of times. -/
def decoded (path : List Char) (times : Nat) : List Char := lenientDecode^[times] path

theorem decoded_succ (path : List Char) (times : Nat) :
    decoded path (times + 1) = lenientDecode (decoded path times) :=
  Function.iterate_succ_apply' _ _ _

theorem hasDotSegment_decoded {path : List Char} {fewer times : Nat} (h : fewer ≤ times)
    (dots : hasDotSegment (decoded path fewer) = true) :
    hasDotSegment (decoded path times) = true := by
  induction times, h using Nat.le_induction with
  | base => exact dots
  | succ times _ ih =>
      rw [decoded_succ]
      exact hasDotSegment_lenientDecode _ ih

theorem decoded_of_fixed {path : List Char} {pass : Nat}
    (fixed : lenientDecode (decoded path pass) = decoded path pass) {times : Nat} (h : pass ≤ times) :
    decoded path times = decoded path pass := by
  induction times, h using Nat.le_induction with
  | base => rfl
  | succ times _ ih => rw [decoded_succ, ih, fixed]

/-! ## Where the passes stop -/

/-- A malformed escape comes up in this pass, and none did before. -/
structure StopsAt (path : List Char) (pass : Nat) : Prop where
  before : ∀ earlier < pass, decodeURIComponent (decoded path earlier) ≠ none
  malformed : decodeURIComponent (decoded path pass) = none

theorem StopsAt.unique {path : List Char} {pass other : Nat} (h : StopsAt path pass)
    (h' : StopsAt path other) : pass = other := by
  rcases Nat.lt_trichotomy pass other with less | same | greater
  · exact absurd h.malformed (h'.before pass less)
  · exact same
  · exact absurd h'.malformed (h.before other greater)

/-- What the passes make of a path, when the ones up to `pass` were without a malformed escape. -/
theorem decodePasses_spec (path : List Char) : ∀ (left pass : Nat),
    (∀ earlier < pass, decodeURIComponent (decoded path earlier) ≠ none) →
      (decodePasses left pass (decoded path pass) = some (decoded path (pass + left)) ∧
        ∀ later < pass + left, ¬ StopsAt path later) ∨
      ∃ later, pass ≤ later ∧ later < pass + left ∧ StopsAt path later ∧
        decodePasses left pass (decoded path pass) =
          if 0 < later then some (decoded path later) else none
  | 0, pass, fine => Or.inl ⟨rfl, fun later less stops => fine later less stops.malformed⟩
  | left + 1, pass, fine => by
      cases decodes : decodeURIComponent (decoded path pass) with
      | none =>
          refine Or.inr ⟨pass, Nat.le_refl _, by omega, ⟨fine, decodes⟩, ?_⟩
          rw [decodePasses, decodes]
      | some next =>
          have lenient := lenientDecode_eq decodes
          have fineNext : ∀ earlier < pass + 1,
              decodeURIComponent (decoded path earlier) ≠ none := by
            intro earlier less
            rcases Nat.lt_succ_iff_lt_or_eq.mp less with less | rfl
            · exact fine earlier less
            · simp [decodes]
          by_cases same : next = decoded path pass
          · have fixed : ∀ times, pass ≤ times → decoded path times = decoded path pass :=
              fun times h => decoded_of_fixed (by rw [lenient, same]) h
            refine Or.inl ⟨?_, fun later _ stops => ?_⟩
            · rw [decodePasses, decodes, fixed (pass + (left + 1)) (by omega)]
              simp [same]
            · by_cases less : later < pass
              · exact fine later less stops.malformed
              · have malformed := stops.malformed
                rw [fixed later (by omega), decodes] at malformed
                cases malformed
          · have step : decodePasses (left + 1) pass (decoded path pass) =
                decodePasses left (pass + 1) (decoded path (pass + 1)) := by
              rw [decodePasses, decodes, decoded_succ, lenient]
              simp [same]
            have rest := decodePasses_spec path left (pass + 1) fineNext
            rw [step, show pass + (left + 1) = pass + 1 + left by omega]
            rcases rest with rest | ⟨later, from', within, stops, result⟩
            · exact Or.inl rest
            · exact Or.inr ⟨later, by omega, within, stops, result⟩

/-- A pass after the first one stops before the path shows a dot segment that it hides. -/
def HidesDots (path : List Char) : Prop :=
  ∃ pass, 0 < pass ∧ pass < PASSES ∧ StopsAt path pass ∧
    hasDotSegment (decoded path pass) = false ∧ hasDotSegment (decoded path PASSES) = true

/-- The passes let a path through that hides a dot segment from them. -/
theorem passes_hide_iff {path : List Char} :
    (∃ shown, decodePasses PASSES 0 path = some shown ∧ hasDotSegment shown = false ∧
      hasDotSegment (decoded path PASSES) = true) ↔ HidesDots path := by
  have spec := decodePasses_spec path PASSES 0 (fun _ less => absurd less (Nat.not_lt_zero _))
  rw [Nat.zero_add, show decoded path 0 = path from rfl] at spec
  constructor
  · rintro ⟨shown, passes, clear, dots⟩
    rcases spec with ⟨all, _⟩ | ⟨pass, _, within, stops, result⟩
    · obtain rfl := Option.some.inj (passes.symm.trans all)
      exact absurd dots (by simp [clear])
    · rw [passes] at result
      split at result
      · rename_i later
        cases result
        exact ⟨pass, later, within, stops, clear, dots⟩
      · cases result
  · rintro ⟨pass, later, within, stops, clear, dots⟩
    rcases spec with ⟨_, none⟩ | ⟨other, _, _, stops', result⟩
    · exact absurd stops (none pass within)
    · obtain rfl := stops.unique stops'
      exact ⟨decoded path pass, by rw [result, if_pos later], clear, dots⟩

theorem serviceProxy_eq_forward (newUrl : String → Option Url) (config : ConsoleConfig)
    (target : Target) (mountPath : String) (req : Request) (url : String) :
    serviceProxy newUrl config target mountPath req = .forward url ↔
      isSameOriginWrite newUrl config req = true ∧ url = forwardUrl config target mountPath req ∧
        BelowApi newUrl config target url ∧
        ∃ shown, decodePasses PASSES 0 (requestPath mountPath req) = some shown ∧
          hasDotSegment shown = false := by
  unfold serviceProxy BelowApi
  cases sameOrigin : isSameOriginWrite newUrl config req with
  | false => simp
  | true =>
      cases passes : decodePasses PASSES 0 (requestPath mountPath req) with
      | none => simp
      | some shown =>
          cases dots : hasDotSegment shown with
          | true => simp [dots]
          | false =>
              simp only [Bool.not_true, Bool.false_eq_true, if_false, true_and, Option.some.injEq,
                exists_eq_left', dots, and_true]
              constructor
              · intro h
                split at h
                · rename_i forwarded api parsed root
                  split at h
                  · rename_i below
                    cases h
                    exact ⟨rfl, forwarded, api, parsed, root, List.isPrefixOf_iff_prefix.mp below⟩
                  · cases h
                · cases h
              · rintro ⟨rfl, forwarded, api, parsed, root, below⟩
                rw [parsed, root]
                simp [below]

/-- A request that is forwarded goes below the API of the service and has no dot segment however
often its path is decoded, and the only ones for which that fails are those whose path hides a dot
segment behind a malformed escape. -/
theorem serviceProxy_guards_iff (newUrl : String → Option Url) (config : ConsoleConfig)
    (target : Target) (mountPath : String) (req : Request) :
    (∀ url, serviceProxy newUrl config target mountPath req = .forward url →
      BelowApi newUrl config target url ∧
        ∀ times ≤ PASSES, hasDotSegment (decoded (requestPath mountPath req) times) = false) ↔
      ¬ (isSameOriginWrite newUrl config req = true ∧
        BelowApi newUrl config target (forwardUrl config target mountPath req) ∧
        HidesDots (requestPath mountPath req)) := by
  constructor
  · rintro guards ⟨sameOrigin, below, hides⟩
    obtain ⟨shown, passes, clear, dots⟩ := passes_hide_iff.mpr hides
    have forwarded := (serviceProxy_eq_forward newUrl config target mountPath req _).mpr
      ⟨sameOrigin, rfl, below, shown, passes, clear⟩
    have clearAll := (guards _ forwarded).2 PASSES (Nat.le_refl _)
    exact absurd dots (by simp [clearAll])
  · intro fine url forwarded
    obtain ⟨sameOrigin, rfl, below, shown, passes, clear⟩ :=
      (serviceProxy_eq_forward newUrl config target mountPath req url).mp forwarded
    refine ⟨below, fun times within => ?_⟩
    by_contra dots
    have dots := hasDotSegment_decoded within (by simpa using dots)
    exact fine ⟨sameOrigin, below, passes_hide_iff.mp ⟨shown, passes, clear, dots⟩⟩

/-- `new URL` where there is nothing in an `http` URL that it changes. -/
def plainUrl (text : String) : Option Url :=
  if "http://".toList.isPrefixOf text.toList then
    let rest := text.toList.drop 7
    some {
      protocol := "http:"
      host := String.ofList (rest.takeWhile (· ≠ '/'))
      pathname := String.ofList ((rest.dropWhile (· ≠ '/')).takeWhile (· ≠ '?')) }
  else none

def localServices : ConsoleConfig where
  proxyBaseUrl := "http://localhost:3000"
  ssoBaseUrl := "http://localhost:7001"
  loginBaseUrl := "http://localhost:7003"
  publicBaseUrl := none

def nestedEscapes : Request where
  method := "GET"
  originalUrl := "/api/console/sso/%25/%252e%252e/internal/users"
  secFetchSite := none
  origin := none
  host := none

/-- The first pass makes a lone percent sign of `%25`, and the second one stops at it, before the
dots that the first pass left escaped. -/
theorem serviceProxy_nested_escapes :
    serviceProxy plainUrl localServices .sso "/api/console/sso" nestedEscapes =
        .forward "http://localhost:7001/api/%25/%252e%252e/internal/users" ∧
      hasDotSegment (decoded (requestPath "/api/console/sso" nestedEscapes) 2) = true := by
  decide +kernel

end GhcpConsole.Console
