import GhcpConsole.Litellm.Caller
import GhcpConsole.Litellm.Cleaning

/-!
# Who a pool deployment is billed to

Two requests that differ only in what they say about the caller are the same to a deployment of the pool:
it gets the hash that LiteLLM has authenticated, or the request is denied.
-/

namespace GhcpConsole.Litellm

open Python

section Deployment

variable {library : Library} {hook : UserPoolIdentityHook} {kwargs kwargs' : Entries}

/-- Equal options, the client aside. -/
structure EqualButClient (cleaned cleaned' : Entries) : Prop where
  keys : ∀ name, (cleaned.get name).isSome = (cleaned'.get name).isSome
  values : ∀ name value value', cleaned.get name = some value → cleaned'.get name = some value' →
    name = key "client" ∨ value.Equal value'

theorem SameButIdentity.cleaned (differ : SameButIdentity library kwargs kwargs') :
    SameOutcome EqualButClient (cleanOptions library kwargs) (cleanOptions library kwargs') := by
  have same := cleanOptions_same (fun name value value' => name = key "client" ∨ value.Equal value')
    differ.distinct differ.distinct' differ.keys fun name value value' other found found' => by
      by_cases client : name = key "client"
      · have kept : place (key "client") = .kept := by decide
        rw [cleanOption_eq, cleanOption_eq, client, kept]
        exact .inr ⟨value, value', rfl, rfl, .inl rfl⟩
      · exact ((differ.values name value value' other client found found').outcome name rfl).mono
          fun _ _ => .inr
  exact same.mono fun cleaned cleaned' ⟨keys, values⟩ => ⟨keys, values⟩

theorem EqualButClient.set {cleaned cleaned' : Entries} (same : EqualButClient cleaned cleaned')
    (name : Key) {value value' : Value} (equal : value.Equal value') :
    EqualButClient (cleaned.set name value) (cleaned'.set name value') := by
  refine ⟨fun other => ?_, fun other w w' h h' => ?_⟩
  · rw [OrderedMap.get_set, OrderedMap.get_set]
    split
    · rfl
    · exact same.keys other
  · rw [OrderedMap.get_set] at h h'
    split at h
    · rename_i isName
      rw [if_pos isName] at h'
      cases h
      cases h'
      exact .inr equal
    · rename_i notName
      rw [if_neg notName] at h'
      exact same.values other w w' h h'

theorem EqualButClient.inject {cleaned cleaned' : Entries} (same : EqualButClient cleaned cleaned')
    (identity : Str) (name : String) (notClient : key name ≠ key "client") :
    EqualButClient (inject identity cleaned name) (inject identity cleaned' name) := by
  have headers : Value.Equal (.dict (headersOf cleaned name)) (.dict (headersOf cleaned' name)) := by
    refine Value.Equal.mappingEntries ?_
    unfold field
    have present := same.keys (key name)
    cases found : cleaned.get (key name) with
    | none =>
        rw [found] at present
        have absent : cleaned'.get (key name) = none := by simpa using present.symm
        rw [absent]
        exact .same _
    | some value =>
        rw [found] at present
        obtain ⟨value', found'⟩ := Option.isSome_iff_exists.mp present.symm
        rw [found']
        exact (same.values _ _ _ found found').resolve_left notClient
  exact same.set _ (headers.set _ (.same _))

/-- Without the client nothing is left that differs. -/
theorem EqualButClient.withoutClient {cleaned cleaned' : Entries} (same : EqualButClient cleaned cleaned') :
    Value.Equal (.dict (withoutClient cleaned)) (.dict (withoutClient cleaned')) := by
  unfold Litellm.withoutClient
  rw [← same.keys]
  split
  · have set := same.set (key "client") (.same .none)
    refine .dict _ _ set.keys fun name value value' found found' => ?_
    rcases set.values name value value' found found' with rfl | equal
    · rw [OrderedMap.get_set_self] at found found'
      cases found
      cases found'
      exact .same _
    · exact equal
  · rename_i absent
    refine .dict _ _ same.keys fun name value value' found found' => ?_
    rcases same.values name value value' found found' with rfl | equal
    · rw [found] at absent
      exact absurd rfl absent
    · exact equal

theorem isIdentityKey_key {name : String} (ascii : (text name).all (· < 128) = true) :
    isIdentityKey library (key name) = decide ((text name).map lowerAscii = identityHeader.map lowerAscii) := by
  unfold key
  dsimp only [isIdentityKey]
  rw [library.lower_ascii _ ascii, library.lower_ascii identityHeader (by decide)]

theorem SameButIdentity.field (differ : SameButIdentity library kwargs kwargs') (name : String)
    (other : isIdentityKey library (key name) = false) (notClient : key name ≠ key "client")
    (kept : place (key name) = .kept) : (field kwargs name).Equal (field kwargs' name) := by
  unfold Litellm.field
  have present := differ.keys _ other
  cases found : kwargs.get (key name) with
  | none =>
      rw [found] at present
      have absent : kwargs'.get (key name) = none := by simpa using present.symm
      rw [absent]
      exact .same _
  | some value =>
      rw [found] at present
      obtain ⟨value', found'⟩ := Option.isSome_iff_exists.mp present.symm
      rw [found']
      have differs := differ.values _ _ _ other notClient found found'
      rw [kept] at differs
      cases differs with
      | kept _ _ equal => exact equal

theorem urlKey_equal {value value' : Value} (equal : value.Equal value') :
    urlKey library value' = urlKey library value := by
  unfold urlKey
  rw [equal.str?]

/-- Both are for the pool, or both are not. -/
theorem SameButIdentity.isPoolDeployment (differ : SameButIdentity library kwargs kwargs') :
    isPoolDeployment library hook (.dict kwargs') = isPoolDeployment library hook (.dict kwargs) := by
  have baseUrl := differ.field "base_url"
    ((isIdentityKey_key (by decide)).trans (by decide)) (by decide) (by decide)
  have apiBase := differ.field "api_base"
    ((isIdentityKey_key (by decide)).trans (by decide)) (by decide) (by decide)
  unfold Litellm.isPoolDeployment
  dsimp only [Value.mapping?]
  rw [baseUrl.isNone]
  split
  · rw [urlKey_equal apiBase]
  · rw [urlKey_equal baseUrl]

/-- A map of headers that LiteLLM reaches through option containers, and the way to it. -/
inductive HeaderMapAt : Entries → List Key → Entries → Prop
  | here (options : Entries) (name : Key) (value : Value) (headers : Entries) (isHeaders : name ∈ headerMaps)
      (found : options.get name = some value) (mapping : value.mapping? = some headers) :
      HeaderMapAt options [name] headers
  | inside (options : Entries) (name : Key) (inner : Entries) (path : List Key) (headers : Entries)
      (isContainer : name ∈ optionContainers) (found : options.get name = some (.dict inner))
      (within : HeaderMapAt inner path headers) : HeaderMapAt options (name :: path) headers

/-- Of the caller these options say nothing but the identity, in the two maps of headers that count. -/
structure CarriesOnly (library : Library) (identity : Str) (options : Entries) : Prop where
  topLevel : ∀ entry ∈ options, isIdentityKey library entry.1 = false
  headers : ∀ name ∈ ["headers", "extra_headers"], ∃ headers, options.get (key name) = some (.dict headers)
    ∧ headers.filter (fun entry => isIdentityKey library entry.1) = [(.str identityHeader, .str identity)]
  others : ∀ path headers, HeaderMapAt options path headers → path ≠ [key "headers"] →
    path ≠ [key "extra_headers"] → ∀ entry ∈ headers, isIdentityKey library entry.1 = false

theorem cleanHeaders_identity {value : Value} {headers : Entries}
    (done : cleanHeaders library value = .ok headers) :
    ∀ entry ∈ headers, isIdentityKey library entry.1 = false := by
  unfold cleanHeaders at done
  split at done
  · cases done
    nofun
  · split at done
    · cases done
    · cases done
      intro entry mem
      simpa using (List.mem_filter.mp mem).2

/-- No map of headers in cleaned options has an entry for the identity. -/
theorem HeaderMapAt.clean {cleaned : Entries} {path : List Key} {headers : Entries}
    (reached : HeaderMapAt cleaned path headers) :
    ∀ {options : Entries}, cleanOptions library options = .ok cleaned →
      ∀ entry ∈ headers, isIdentityKey library entry.1 = false := by
  induction reached with
  | here cleaned name value headers isHeaders found mapping =>
      intro options done
      obtain ⟨_, before, _, option⟩ := cleanOptions_get_some done found
      have headerMap : place name = .headerMap := if_pos isHeaders
      rw [cleanOption_eq, headerMap] at option
      obtain ⟨clean, cleanedHeaders, rfl⟩ := except_map_eq_ok.mp option
      cases mapping
      exact cleanHeaders_identity cleanedHeaders
  | inside cleaned name inner path headers isContainer found within ih =>
      intro options done
      obtain ⟨_, before, _, option⟩ := cleanOptions_get_some done found
      have notHeaders : ∀ name ∈ optionContainers, name ∉ headerMaps := by decide
      have container : place name = .options := by
        rw [place, if_neg (notHeaders name isContainer), if_pos isContainer]
      rw [cleanOption_eq, container] at option
      dsimp only at option
      split at option
      · obtain ⟨clean, cleanedInner, same⟩ := except_map_eq_ok.mp option
        cases same
        exact ih cleanedInner
      · rename_i notDict
        cases option
        cases notDict

theorem isIdentityKey_identityHeader : isIdentityKey library (.str identityHeader) = true :=
  decide_eq_true rfl

/-- The identity comes last in headers that have none. -/
theorem filter_set_identity {headers : Entries} (identity : Str)
    (without : ∀ entry ∈ headers, isIdentityKey library entry.1 = false) :
    (headers.set (.str identityHeader) (.str identity)).filter (fun entry => isIdentityKey library entry.1)
      = [(.str identityHeader, .str identity)] := by
  rw [OrderedMap.set_of_not_mem, List.filter_append, List.filter_eq_nil_iff.mpr, List.nil_append]
  · exact List.filter_cons_of_pos isIdentityKey_identityHeader
  · intro entry mem
    rw [without entry mem]
    exact Bool.false_ne_true
  · intro mem
    obtain ⟨entry, inHeaders, isHeader⟩ := List.mem_map.mp mem
    have identity := without entry inHeaders
    rw [isHeader, isIdentityKey_identityHeader] at identity
    cases identity

/-- What injecting the identity and dropping the client leave as it is. -/
theorem injected_get (identity : Str) (cleaned : Entries) {name : Key} (notHeaders : name ≠ key "headers")
    (notExtra : name ≠ key "extra_headers") (notClient : name ≠ key "client") :
    (withoutClient (["headers", "extra_headers"].foldl (inject identity) cleaned)).get name
      = cleaned.get name := by
  have injected : (["headers", "extra_headers"].foldl (inject identity) cleaned).get name = cleaned.get name := by
    rw [List.foldl_cons, List.foldl_cons, List.foldl_nil, inject, OrderedMap.get_set_ne notExtra, inject,
      OrderedMap.get_set_ne notHeaders]
  unfold withoutClient
  split
  · rw [OrderedMap.get_set_ne notClient, injected]
  · exact injected

theorem mem_withoutClient {options : Entries} {entry : Key × Value} (mem : entry ∈ withoutClient options) :
    entry.1 = key "client" ∨ entry ∈ options := by
  unfold withoutClient at mem
  split at mem
  · rcases OrderedMap.mem_set mem with rfl | mem
    · exact .inl rfl
    · exact .inr mem
  · exact .inr mem

theorem mem_inject {options : Entries} {identity : Str} {name : String} {entry : Key × Value}
    (mem : entry ∈ inject identity options name) : entry.1 = key name ∨ entry ∈ options := by
  rcases OrderedMap.mem_set mem with rfl | mem
  · exact .inl rfl
  · exact .inr mem

theorem headersOf_identity {options cleaned : Entries} (done : cleanOptions library options = .ok cleaned)
    (name : String) (isHeaders : key name ∈ headerMaps) :
    ∀ entry ∈ headersOf cleaned name, isIdentityKey library entry.1 = false := by
  unfold headersOf field
  cases found : cleaned.get (key name) with
  | none => nofun
  | some value =>
      dsimp only [Option.getD_some]
      cases mapping : value.mapping? with
      | none => nofun
      | some headers => exact (HeaderMapAt.here cleaned _ value headers isHeaders found mapping).clean done

/-- Cleaned options say nothing of the caller, and then the identity is put in. -/
theorem carriesOnly_of_cleaned {options cleaned : Entries} (done : cleanOptions library options = .ok cleaned)
    (identity : Str) :
    CarriesOnly library identity (withoutClient (["headers", "extra_headers"].foldl (inject identity) cleaned)) where
  topLevel entry mem := by
    rcases mem_withoutClient mem with client | mem
    · rw [client]
      exact (isIdentityKey_key (by decide)).trans (by decide)
    · rcases mem_inject mem with extra | mem
      · rw [extra]
        exact (isIdentityKey_key (by decide)).trans (by decide)
      · rcases mem_inject mem with headers | mem
        · rw [headers]
          exact (isIdentityKey_key (by decide)).trans (by decide)
        · exact cleanOptions_identity done entry mem
  headers name mem := by
    have withoutClient_get : ∀ {options : Entries} {name : Key}, name ≠ key "client" →
        (withoutClient options).get name = options.get name := by
      intro options name notClient
      unfold withoutClient
      split
      · exact OrderedMap.get_set_ne notClient
      · rfl
    have cases : name = "headers" ∨ name = "extra_headers" := by simpa using mem
    rcases cases with rfl | rfl
    · refine ⟨_, ?_, filter_set_identity identity (headersOf_identity done "headers" (by decide))⟩
      rw [withoutClient_get (by decide), List.foldl_cons, List.foldl_cons, List.foldl_nil, inject,
        OrderedMap.get_set_ne (by decide), inject, OrderedMap.get_set_self]
    · refine ⟨_, ?_, filter_set_identity identity (headersOf_identity done "extra_headers" (by decide))⟩
      rw [withoutClient_get (by decide), List.foldl_cons, List.foldl_cons, List.foldl_nil, inject,
        OrderedMap.get_set_self, headersOf, headersOf, field, field, inject, OrderedMap.get_set_ne (by decide)]
  others path headers reached notHeaders notExtra := by
    have clean : HeaderMapAt cleaned path headers := by
      cases reached with
      | here _ name value _ isHeaders found mapping =>
          have apart : name ≠ key "client" := fun client => by
            rw [client] at isHeaders
            exact absurd isHeaders (by decide)
          rw [injected_get identity cleaned (fun same => notHeaders (congrArg (fun name => [name]) same))
            (fun same => notExtra (congrArg (fun name => [name]) same)) apart] at found
          exact .here _ name value _ isHeaders found mapping
      | inside _ name inner path _ isContainer found within =>
          have apart : ∀ name ∈ optionContainers,
              name ≠ key "headers" ∧ name ≠ key "extra_headers" ∧ name ≠ key "client" := by decide
          obtain ⟨notHeaders, notExtra, notClient⟩ := apart name isContainer
          rw [injected_get identity cleaned notHeaders notExtra notClient] at found
          exact .inside _ name inner path _ isContainer found within
    exact clean.clean done

/-! ## The hook -/

/-- A request for the pool that is not denied comes from an authenticated key. -/
theorem asyncPreCallDeploymentHook_ok {identity : Option Str} {result : Entries}
    (pool : isPoolDeployment library hook (.dict kwargs) = true)
    (done : asyncPreCallDeploymentHook library hook identity kwargs = .ok result) :
    ∃ trusted cleaned, identity = some trusted ∧ cleanOptions library kwargs = .ok cleaned
      ∧ result = withoutClient (["headers", "extra_headers"].foldl (inject trusted) cleaned) := by
  unfold asyncPreCallDeploymentHook at done
  rw [pool] at done
  cases identity with
  | none => cases done
  | some trusted =>
      cases clean : cleanOptions library kwargs with
      | error error =>
          dsimp only at done
          rw [clean] at done
          cases done
      | ok cleaned =>
          dsimp only at done
          rw [clean] at done
          cases done
          exact ⟨trusted, cleaned, rfl, rfl, rfl⟩

/-- What a request says about the caller makes no difference. -/
theorem asyncPreCallDeploymentHook_same (identity : Option Str)
    (pool : isPoolDeployment library hook (.dict kwargs) = true)
    (differ : SameButIdentity library kwargs kwargs') :
    SameOutcome (fun result result' => Value.Equal (.dict result) (.dict result'))
      (asyncPreCallDeploymentHook library hook identity kwargs)
      (asyncPreCallDeploymentHook library hook identity kwargs') := by
  unfold asyncPreCallDeploymentHook
  rw [differ.isPoolDeployment, pool]
  cases identity with
  | none => exact .inl ⟨rfl, rfl⟩
  | some identity =>
      dsimp only
      rcases differ.cleaned with ⟨denied, denied'⟩ | ⟨cleaned, cleaned', done, done', same⟩
      · rw [denied, denied']
        exact .inl ⟨rfl, rfl⟩
      · rw [done, done']
        have injected := (same.inject identity "headers" (by decide)).inject identity "extra_headers"
          (by decide)
        exact .inr ⟨_, _, rfl, rfl, injected.withoutClient⟩

/-- A deployment of the pool is not proposed to a caller without an identity. -/
theorem asyncFilterDeployments_ok {deployments remaining : List Value}
    (done : asyncFilterDeployments library hook none deployments = .ok remaining) :
    ∀ deployment ∈ remaining, isPoolDeployment library hook (litellmParams deployment) = false := by
  unfold asyncFilterDeployments at done
  rw [if_neg (by decide)] at done
  dsimp only at done
  split at done
  · cases done
  · cases done
    intro deployment mem
    simpa using (List.mem_filter.mp mem).2

theorem deployment_identity (library : Library) (hook : UserPoolIdentityHook) (events : List Event)
    (context : Nat) :
    (∀ kwargs kwargs', isPoolDeployment library hook (.dict kwargs) = true →
        SameButIdentity library kwargs kwargs' →
        SameOutcome (fun result result' => Value.Equal (.dict result) (.dict result'))
          (asyncPreCallDeploymentHook library hook (contextsAfter events context) kwargs)
          (asyncPreCallDeploymentHook library hook (contextsAfter events context) kwargs'))
    ∧ (∀ kwargs result, isPoolDeployment library hook (.dict kwargs) = true →
        asyncPreCallDeploymentHook library hook (contextsAfter events context) kwargs = .ok result →
        ∃ auth hash, latestAuth events context = some auth ∧ Authenticated auth hash
          ∧ CarriesOnly library (text "sha256:" ++ hash) result)
    ∧ ((∀ auth hash, latestAuth events context = some auth → ¬ Authenticated auth hash) →
        ∀ deployments remaining,
          asyncFilterDeployments library hook (contextsAfter events context) deployments = .ok remaining →
          ∀ deployment ∈ remaining, isPoolDeployment library hook (litellmParams deployment) = false) := by
  refine ⟨fun kwargs kwargs' => asyncPreCallDeploymentHook_same _, fun kwargs result pool done => ?_,
    fun untrusted deployments remaining done => ?_⟩
  · obtain ⟨trusted, cleaned, known, clean, rfl⟩ := asyncPreCallDeploymentHook_ok pool done
    rw [contextsAfter_eq, Option.bind_eq_some_iff] at known
    obtain ⟨auth, latest, identity⟩ := known
    obtain ⟨hash, authenticated, rfl⟩ := authenticatedIdentity_eq_some.mp identity
    exact ⟨auth, hash, latest, authenticated, carriesOnly_of_cleaned clean _⟩
  · have unknown : contextsAfter events context = none := by
      rw [contextsAfter_eq, Option.eq_none_iff_forall_not_mem]
      intro trusted known
      obtain ⟨auth, latest, identity⟩ := Option.bind_eq_some_iff.mp known
      obtain ⟨hash, authenticated, _⟩ := authenticatedIdentity_eq_some.mp identity
      exact untrusted auth hash latest authenticated
    rw [unknown] at done
    exact asyncFilterDeployments_ok done

end Deployment

namespace Sample

def base : Str := text "http://proxy.test:3000"

def library : Library where
  lower s := s.map lowerAscii
  lower_ascii _ _ := rfl
  strip := id
  urlsplit url :=
    if url = base then
      .ok { scheme := text "http", username := none, password := none, hostname := some (text "proxy.test")
            port := .ok (some 3000), path := [], query := [], fragment := [] }
    else .error .raised

def hook : UserPoolIdentityHook where
  bases := [⟨text "http", text "proxy.test", 3000, []⟩]
  nonempty := List.cons_ne_nil _ _

def hash : Str := List.replicate 64 'a'.val

def auth : AuthObject where
  userApiKeyAuth := true
  attributes := [("via_virtual_key", .bool true), ("token", .str hash)]

/-- Headers that a client sends under the name of the identity, and one of its own. -/
def headers : Entries := [(key "x-user-identity", .str (text "forged")), (key "x-trace", .str (text "1"))]

def forged : Entries :=
  [(key "X-USER-IDENTITY", .str (text "forged")), (key "api_base", .str base), (key "client", .bool true),
    (key "extra_body", .dict [(key "headers", .mapping headers)])]

/-- The same request from another client, that does not say who it is from. -/
def plain : Entries :=
  [(key "api_base", .str base), (key "client", .bool false),
    (key "extra_body", .dict [(key "headers", .mapping (withoutIdentity library headers))])]

theorem differsAt_headers : DiffersAt library .headerMap (.mapping headers)
    (.mapping (withoutIdentity library headers)) := by
  refine .headers _ _ _ _ rfl rfl (fun name other => ?_) fun name value value' other found found' => ?_
  · rw [get_withoutIdentity, if_neg (by rw [other]; exact Bool.false_ne_true)]
  · rw [get_withoutIdentity, if_neg (by rw [other]; exact Bool.false_ne_true), found] at found'
    cases found'
    exact .same _

theorem differsAt_extraBody : DiffersAt library .options (.dict [(key "headers", .mapping headers)])
    (.dict [(key "headers", .mapping (withoutIdentity library headers))]) := by
  refine .options _ _ (by decide) (by decide) (fun name other => ?_) fun name value value' other found found' => ?_
  · rw [OrderedMap.get_cons, OrderedMap.get_cons]
    split <;> rfl
  · rw [OrderedMap.get_cons] at found found'
    split at found
    · rename_i isHeaders
      rw [if_pos isHeaders] at found'
      cases found
      cases found'
      rw [isHeaders]
      exact differsAt_headers
    · cases found

theorem sameButIdentity_plain : SameButIdentity library forged plain := by
  have unsaid : ∀ name, isIdentityKey library name = false → forged.get name = OrderedMap.get forged.tail name := by
    intro name other
    have identity : isIdentityKey library (key "X-USER-IDENTITY") = true := by decide
    refine (OrderedMap.get_cons ..).trans (if_neg fun same => ?_)
    rw [same, identity] at other
    cases other
  refine ⟨by decide, by decide, fun name other => ?_, fun name value value' other notClient found found' => ?_⟩
  · rw [unsaid name other, forged, plain, List.tail_cons]
    simp only [OrderedMap.get_cons]
    split
    · rfl
    · split
      · rfl
      · split <;> rfl
  · rw [unsaid name other, forged, List.tail_cons] at found
    rw [plain] at found'
    simp only [OrderedMap.get_cons, if_neg notClient] at found found'
    split at found
    · rename_i isBase
      rw [if_pos isBase] at found'
      cases found
      cases found'
      rw [isBase]
      exact .kept _ _ (.same _)
    · rename_i notBase
      rw [if_neg notBase] at found'
      split at found
      · rename_i isBody
        rw [if_pos isBody] at found'
        cases found
        cases found'
        rw [isBody]
        exact differsAt_extraBody
      · cases found

/-- The pool's own deployment, and another one. -/
def deployments : List Value :=
  [.dict [(key "litellm_params", .dict [(key "api_base", .str base)])],
    .dict [(key "litellm_params", .dict [(key "api_base", .str (text "https://other.test"))])]]

end Sample

/-- The task of the request has been created after the early hook: what the client says of itself makes no
difference, and the deployment gets the hash. In a task of another request the pool's deployment is left out. -/
theorem deployment_identity_forged :
    SameOutcome (fun result result' => Value.Equal (.dict result) (.dict result'))
        (asyncPreCallDeploymentHook Sample.library Sample.hook
          (contextsAfter [.createTask 0 1, .preCall 0 Sample.auth] 1) Sample.forged)
        (asyncPreCallDeploymentHook Sample.library Sample.hook
          (contextsAfter [.createTask 0 1, .preCall 0 Sample.auth] 1) Sample.plain)
      ∧ (∃ auth hash, latestAuth [.createTask 0 1, .preCall 0 Sample.auth] 1 = some auth
        ∧ Authenticated auth hash ∧ CarriesOnly Sample.library (text "sha256:" ++ hash)
          [(key "api_base", .str Sample.base), (key "client", .none),
            (key "extra_body", .dict [(key "headers", .dict [(key "x-trace", .str (text "1"))])]),
            (key "headers", .dict [(.str identityHeader, .str (text "sha256:" ++ Sample.hash))]),
            (key "extra_headers", .dict [(.str identityHeader, .str (text "sha256:" ++ Sample.hash))])])
      ∧ ∀ deployment ∈ Sample.deployments.tail,
        isPoolDeployment Sample.library Sample.hook (litellmParams deployment) = false := by
  have result := deployment_identity Sample.library Sample.hook [.createTask 0 1, .preCall 0 Sample.auth]
  exact ⟨(result 1).1 _ _ rfl Sample.sameButIdentity_plain, (result 1).2.1 Sample.forged _ rfl rfl,
    (result 2).2.2 (fun _ _ unknown => by cases unknown) Sample.deployments _ rfl⟩

end GhcpConsole.Litellm
