import Mathlib.Data.List.DropRight
import GhcpConsole.Lib.Json
import GhcpConsole.Lib.JsText
import GhcpConsole.Lib.LowerCase
import GhcpConsole.Pool.Scheduling

/-!
# Listings of enterprises, and their comparison

`enterpriseReadiness.ts`: what SSO and Login report of their enterprises, which is trusted whole or not at
all, and what the Proxy makes of it for an enterprise of its own. An enterprise is ready when there is no
blocker, and `compareEnterprise_ready` says what that means.
-/

namespace GhcpConsole.Readiness

open Pool

def MAX_ENTERPRISES : Nat := 32
def MAX_BLOCKERS : Nat := 64
def MAX_BLOCKER_LENGTH : Nat := 256

inductive ReadinessPeer where
  | sso | login
  deriving DecidableEq, Repr

def ReadinessPeer.name : ReadinessPeer → String
  | .sso => "sso"
  | .login => "login"

inductive ReadinessFetchFailure where
  | unavailable | invalidResponse
  deriving DecidableEq, Repr

def ReadinessFetchFailure.text : ReadinessFetchFailure → String
  | .unavailable => "unavailable"
  | .invalidResponse => "invalid_response"

structure EnterpriseServiceReadinessDto where
  id : String
  githubBaseUrl : Option String
  slug : Option String
  shortcode : Option String
  configured : Bool
  blockers : List String
  deriving DecidableEq, Repr

/-- The rows by their ids. -/
abbrev PeerListing := Except ReadinessFetchFailure (OrderedMap String EnterpriseServiceReadinessDto)

section Parsing

variable {ν : Type}

/-- `isNullableText(value)`, with the text; `none` is a value that is not one. -/
def nullableText : Option (Json ν) → Option (Option String)
  | some .null => some none
  | some (.str text) => if utf16Length text.toList ≤ MAX_BLOCKER_LENGTH then some (some text) else none
  | _ => none

def blockerList (value : Option (Json ν)) : Option (List String) :=
  match value.bind Json.items? with
  | none => none
  | some entries =>
      if MAX_BLOCKERS < entries.length then none
      else entries.mapM fun entry =>
        entry.string?.filter fun text => utf16Length text.toList ≤ MAX_BLOCKER_LENGTH

def parseRow (value : Json ν) : Option EnterpriseServiceReadinessDto := do
  let row ← value.members?
  let id ← ((row.get "id").bind Json.string?).filter isEnterpriseId
  let configured ← match row.get "configured" with
    | some (.bool configured) => some configured
    | _ => none
  let blockers ← blockerList (row.get "blockers")
  let githubBaseUrl ← nullableText (row.get "githubBaseUrl")
  let slug ← nullableText (row.get "slug")
  let shortcode ← nullableText (row.get "shortcode")
  some { id, githubBaseUrl, slug, shortcode, configured, blockers }

/-- The loop of `parseListing`. -/
def parseRows (rows : OrderedMap String EnterpriseServiceReadinessDto) : List (Json ν) → PeerListing
  | [] => .ok rows
  | value :: values =>
      match parseRow value with
      | none => .error .invalidResponse
      | some row =>
          if (rows.get row.id).isSome then .error .invalidResponse
          else parseRows (rows.set row.id row) values

def parseListing (body : Json ν) : PeerListing :=
  match body.items? with
  | none => .error .invalidResponse
  | some values => if MAX_ENTERPRISES < values.length then .error .invalidResponse else parseRows [] values

end Parsing

/-! ## Comparison -/

structure ProfileBlocker where
  code : String
  field : String
  deriving DecidableEq, Repr

/-- An enterprise of the Proxy, with what is compared of its profile. -/
structure ProxyEnterprise where
  id : String
  githubBaseUrl : String
  slug : Option String
  shortcode : Option String
  blockers : List ProfileBlocker
  deriving DecidableEq, Repr

structure ReadinessServices where
  proxy : Option EnterpriseServiceReadinessDto
  sso : Option EnterpriseServiceReadinessDto
  login : Option EnterpriseServiceReadinessDto
  deriving DecidableEq, Repr

/-- `checkedAt` is a time; the source writes it as an ISO date. -/
structure EnterpriseReadinessDto where
  enterpriseId : String
  ready : Bool
  blockers : List String
  services : ReadinessServices
  checkedAt : Nat
  deriving DecidableEq, Repr

def proxyRow (enterprise : ProxyEnterprise) : EnterpriseServiceReadinessDto where
  id := enterprise.id
  githubBaseUrl := some enterprise.githubBaseUrl
  slug := enterprise.slug
  shortcode := enterprise.shortcode
  configured := enterprise.blockers.isEmpty
  blockers := enterprise.blockers.map fun blocker => s!"{blocker.code}:{blocker.field}"

def peerRow (listing : PeerListing) (id : String) : Option EnterpriseServiceReadinessDto :=
  match listing with
  | .error _ => none
  | .ok rows => rows.get id

section Comparing

variable (letters : LowerCase)

def normalizeOrigin (url : Option String) : Option String :=
  url.map fun url => String.ofList (letters.toLowerCase (url.toList.rdropWhile (· = '/')))

def peerBlockers (peer : ReadinessPeer) (listing : PeerListing)
    (row : Option EnterpriseServiceReadinessDto) (proxy : EnterpriseServiceReadinessDto) : List String :=
  match listing, row with
  | .error failure, _ => [s!"{peer.name}_{failure.text}"]
  | .ok _, none => [s!"{peer.name}_missing"]
  | .ok _, some row =>
      let blockers := row.blockers.map fun blocker => s!"{peer.name}:{blocker}"
      let configured :=
        if !row.configured && blockers.isEmpty then blockers ++ [s!"{peer.name}_not_configured"] else blockers
      if normalizeOrigin letters row.githubBaseUrl ≠ normalizeOrigin letters proxy.githubBaseUrl then
        configured ++ [s!"{peer.name}_github_base_url_mismatch"]
      else configured

/-- The shortcode is shared by Proxy and SSO; the slug by SSO and Login, when Login reports one. -/
def crossBlockers (proxy : EnterpriseServiceReadinessDto) (sso login : Option EnterpriseServiceReadinessDto) :
    List String :=
  match sso with
  | none => []
  | some sso =>
      (if sso.shortcode.getD "" ≠ proxy.shortcode.getD "" then ["shortcode_mismatch"] else []) ++
        match login.bind (·.slug) with
        | some slug => if some slug ≠ sso.slug then ["slug_mismatch"] else []
        | none => []

def compareEnterprise (enterprise : ProxyEnterprise) (sso login : PeerListing) (checkedAt : Nat) :
    EnterpriseReadinessDto :=
  let proxy := proxyRow enterprise
  let ssoRow := peerRow sso enterprise.id
  let loginRow := peerRow login enterprise.id
  let blockers := proxy.blockers.map (fun blocker => s!"proxy:{blocker}") ++
    peerBlockers letters .sso sso ssoRow proxy ++ peerBlockers letters .login login loginRow proxy ++
    crossBlockers proxy ssoRow loginRow
  { enterpriseId := enterprise.id
    ready := blockers.isEmpty
    blockers
    services := { proxy := some proxy, sso := ssoRow, login := loginRow }
    checkedAt }

def unknownEnterprise (enterpriseId : String) (checkedAt : Nat) : EnterpriseReadinessDto where
  enterpriseId := enterpriseId
  ready := false
  blockers := ["proxy_missing"]
  services := { proxy := none, sso := none, login := none }
  checkedAt := checkedAt

end Comparing

/-! ## What is trusted -/

section Trust

variable {ν : Type} {body : Json ν} {values : List (Json ν)}
variable {rows before : OrderedMap String EnterpriseServiceReadinessDto}

/-- A listing without a malformed and without a duplicated row, and its rows. -/
structure WellFormed (body : Json ν) (rows : List EnterpriseServiceReadinessDto) : Prop where
  values : ∃ values, body = .arr values ∧ values.length ≤ MAX_ENTERPRISES ∧ values.map parseRow = rows.map some
  distinct : (rows.map (·.id)).Nodup

theorem parseRows_eq_ok (distinct : (before.map (·.1)).Nodup) : parseRows before values = .ok rows ↔
    ∃ added : List EnterpriseServiceReadinessDto, values.map parseRow = added.map some ∧
      (before.map (·.1) ++ added.map (·.id)).Nodup ∧ rows = before ++ added.map fun row => (row.id, row) := by
  induction values generalizing before with
  | nil =>
      constructor
      · rintro ⟨⟩
        exact ⟨[], rfl, by simpa using distinct, by simp⟩
      · rintro ⟨added, parsed, -, rfl⟩
        obtain rfl : added = [] := by simpa using parsed.symm
        simp [parseRows]
  | cons value values ih =>
      rw [parseRows]
      cases parsed : parseRow value with
      | none =>
          refine ⟨(nomatch ·), ?_⟩
          rintro ⟨_ | ⟨row, added⟩, all, -⟩
          · cases all
          · simp [parsed] at all
      | some row =>
          dsimp only
          by_cases known : row.id ∈ before.map (·.1)
          · have isSome : (before.get row.id).isSome = true := by
              rw [Option.isSome_iff_ne_none, Ne, OrderedMap.get_eq_none]
              exact fun fresh => fresh known
            rw [if_pos isSome]
            refine ⟨(nomatch ·), ?_⟩
            rintro ⟨_ | ⟨row', added⟩, all, fresh, -⟩
            · cases all
            · obtain rfl : row = row' := by simpa [parsed] using (List.cons.inj all).1
              exact absurd rfl ((List.nodup_append.mp fresh).2.2 _ known _ (.head _))
          · have isNone : ¬ (before.get row.id).isSome = true := by
              rw [Option.isSome_iff_ne_none, not_not, OrderedMap.get_eq_none]
              exact known
            have keys : ((before ++ [(row.id, row)]).map (·.1)).Nodup := by
              rw [List.map_append, List.map_singleton, List.nodup_append]
              refine ⟨distinct, List.nodup_singleton _, fun a inBefore b isId same => known ?_⟩
              rw [List.mem_singleton.mp isId] at same
              rw [show a = row.id from same] at inBefore
              exact inBefore
            rw [if_neg isNone, OrderedMap.set_of_not_mem known, ih keys]
            constructor
            · rintro ⟨added, all, fresh, rfl⟩
              exact ⟨row :: added, by rw [List.map_cons, parsed, all, List.map_cons], by simpa using fresh,
                by simp⟩
            · rintro ⟨_ | ⟨row', added⟩, all, fresh, rfl⟩
              · cases all
              · obtain rfl : row = row' := by simpa [parsed] using (List.cons.inj all).1
                exact ⟨added, (List.cons.inj all).2, by simpa using fresh, by simp⟩

/-- A listing is trusted if it is well formed as a whole, and only then. -/
theorem parseListing_eq_ok : parseListing body = .ok rows ↔
    ∃ list : List EnterpriseServiceReadinessDto, WellFormed body list ∧ rows = list.map fun row => (row.id, row) := by
  rw [parseListing]
  cases items : body.items? with
  | none =>
      refine ⟨(nomatch ·), ?_⟩
      rintro ⟨list, ⟨⟨values, rfl, -⟩, -⟩, -⟩
      cases items
  | some values =>
      have isArray : body = .arr values := by
        cases body <;> simp_all [Json.items?]
      subst isArray
      dsimp only
      split
      · rename_i long
        refine ⟨(nomatch ·), ?_⟩
        rintro ⟨list, ⟨⟨_, ⟨⟩, short, -⟩, -⟩, -⟩
        omega
      · rename_i short
        have none : (([] : OrderedMap String EnterpriseServiceReadinessDto).map (·.1)).Nodup := List.nodup_nil
        rw [parseRows_eq_ok none]
        constructor
        · rintro ⟨list, all, distinct, rfl⟩
          exact ⟨list, ⟨⟨values, rfl, by omega, all⟩, distinct⟩, rfl⟩
        · rintro ⟨list, ⟨⟨_, ⟨⟩, -, all⟩, distinct⟩, rfl⟩
          exact ⟨list, all, distinct, rfl⟩

end Trust

/-! ## Being ready -/

section Ready

variable {letters : LowerCase} {enterprise : ProxyEnterprise} {sso login : PeerListing} {checkedAt : Nat}

/-- A peer has the enterprise, configured and without blockers, with the Proxy's GitHub. -/
structure PeerAgrees (letters : LowerCase) (listing : PeerListing) (enterprise : ProxyEnterprise)
    (row : EnterpriseServiceReadinessDto) : Prop where
  listed : ∃ rows, listing = .ok rows ∧ rows.get enterprise.id = some row
  configured : row.configured = true
  unblocked : row.blockers = []
  baseUrl : normalizeOrigin letters row.githubBaseUrl =
    normalizeOrigin letters (some enterprise.githubBaseUrl)

theorem peerBlockers_eq_nil {peer : ReadinessPeer} {listing : PeerListing} :
    peerBlockers letters peer listing (peerRow listing enterprise.id) (proxyRow enterprise) = [] ↔
      ∃ row, PeerAgrees letters listing enterprise row := by
  cases listing with
  | error failure =>
      refine ⟨(nomatch ·), ?_⟩
      rintro ⟨row, ⟨_, ⟨⟩, -⟩, -⟩
  | ok rows =>
      rw [peerRow]
      cases found : rows.get enterprise.id with
      | none =>
          refine ⟨(nomatch ·), ?_⟩
          rintro ⟨row, ⟨_, ⟨⟩, isRow⟩, -⟩
          rw [found] at isRow
          cases isRow
      | some row =>
          constructor
          · intro none
            rw [peerBlockers] at none
            split at none
            · simp at none
            · rename_i sameUrl
              split at none
              · simp at none
              · rename_i reported
                have unblocked : row.blockers = [] := List.map_eq_nil_iff.mp none
                refine ⟨row, ⟨rows, rfl, found⟩, by simpa [unblocked] using reported, unblocked, ?_⟩
                exact not_not.mp sameUrl
          · rintro ⟨row', ⟨_, ⟨⟩, isRow⟩, configured, unblocked, baseUrl⟩
            obtain rfl : row = row' := by simpa [found] using isRow
            simp [peerBlockers, configured, unblocked, baseUrl, proxyRow]

/-- What Proxy, SSO and Login agree on. -/
structure Agrees (letters : LowerCase) (enterprise : ProxyEnterprise) (sso login : PeerListing) : Prop where
  proxy : enterprise.blockers = []
  peers : ∃ ssoRow loginRow, PeerAgrees letters sso enterprise ssoRow ∧
    PeerAgrees letters login enterprise loginRow ∧
    ssoRow.shortcode.getD "" = enterprise.shortcode.getD "" ∧
    (loginRow.slug = none ∨ loginRow.slug = ssoRow.slug)

theorem PeerAgrees.peerRow_eq {listing : PeerListing} {row : EnterpriseServiceReadinessDto}
    (agrees : PeerAgrees letters listing enterprise row) : peerRow listing enterprise.id = some row := by
  obtain ⟨rows, rfl, found⟩ := agrees.listed
  exact found

theorem crossBlockers_eq_nil {proxy ssoRow loginRow : EnterpriseServiceReadinessDto} :
    crossBlockers proxy (some ssoRow) (some loginRow) = [] ↔
      ssoRow.shortcode.getD "" = proxy.shortcode.getD "" ∧
        (loginRow.slug = none ∨ loginRow.slug = ssoRow.slug) := by
  rw [crossBlockers, List.append_eq_nil_iff, Option.bind_some]
  refine and_congr (by simp) ?_
  cases loginRow.slug with
  | none => simp
  | some slug => simp

/-- An enterprise is ready when all three agree on it, and only then. -/
theorem compareEnterprise_ready :
    (compareEnterprise letters enterprise sso login checkedAt).ready = true ↔
      Agrees letters enterprise sso login := by
  rw [compareEnterprise]
  simp only [List.isEmpty_iff, List.append_eq_nil_iff, List.map_eq_nil_iff, peerBlockers_eq_nil, and_assoc]
  constructor
  · rintro ⟨proxy, ⟨ssoRow, ssoAgrees⟩, ⟨loginRow, loginAgrees⟩, cross⟩
    rw [ssoAgrees.peerRow_eq, loginAgrees.peerRow_eq, crossBlockers_eq_nil] at cross
    exact ⟨List.map_eq_nil_iff.mp proxy, ssoRow, loginRow, ssoAgrees, loginAgrees, cross⟩
  · rintro ⟨proxy, ssoRow, loginRow, ssoAgrees, loginAgrees, cross⟩
    refine ⟨by rw [proxyRow, proxy]; rfl, ⟨ssoRow, ssoAgrees⟩, ⟨loginRow, loginAgrees⟩, ?_⟩
    rw [ssoAgrees.peerRow_eq, loginAgrees.peerRow_eq]
    exact crossBlockers_eq_nil.mpr cross

end Ready

end GhcpConsole.Readiness
