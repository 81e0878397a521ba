import GhcpConsole.Sso.SignInRuns

/-!
# Signing in goes through

A browser that sends back the cookies it was given, among any others, is signed in: the visit is remembered through
the cookie, the login answers it with its id and its relay state, whatever the service does for others in between.
-/

namespace GhcpConsole.Sso

section Headers

variable {name value part : JsString} {cookies : List (JsString × JsString)}

/-- The header of a browser with the cookies. -/
def cookieHeader (cookies : List (JsString × JsString)) : JsString :=
  (utf16 "; ").intercalate (cookies.map fun cookie => signedText cookie.1 cookie.2)

/-- A cookie as the standard has them. -/
structure Proper (cookie : JsString × JsString) : Prop where
  some : cookie.1 ≠ []
  name : ∀ u ∈ cookie.1, u ≠ codeUnit ';' ∧ u ≠ codeUnit '=' ∧ isWhiteSpace u = false
  value : ∀ u ∈ cookie.2, u ≠ codeUnit ';' ∧ u ≠ codeUnit '"' ∧ isWhiteSpace u = false

theorem intercalate_spaced (first : JsString) (rest : List JsString) :
    (utf16 "; ").intercalate (first :: rest)
      = [codeUnit ';'].intercalate (first :: rest.map (codeUnit ' ' :: ·)) := by
  have mark : ∀ u v : JsString, u ++ utf16 "; " ++ v = u ++ [codeUnit ';'] ++ codeUnit ' ' :: v := by
    intro u v
    rw [List.append_assoc, List.append_assoc]
    rfl
  induction rest generalizing first with
  | nil => rfl
  | cons second rest ih =>
      rw [List.intercalate_cons_cons, ih, List.map_cons, List.intercalate_cons_cons, mark]
      cases rest with
      | nil => rfl
      | cons third rest => rw [List.map_cons, List.intercalate_cons_cons, List.intercalate_cons_cons]; rfl

theorem trim_spaced (h : ∀ u ∈ name, isWhiteSpace u = false) (space : JsString)
    (blank : ∀ u ∈ space, isWhiteSpace u = true) : JsString.trim (space ++ name) = name := by
  have kept : (space ++ name).dropWhile isWhiteSpace = name := by
    rw [List.dropWhile_append_of_pos blank]
    exact JsString.dropWhile_eq_self fun u mem => h u (List.mem_of_mem_head? mem)
  have own := JsString.trim_eq_self (fun u mem => h u (List.mem_of_mem_head? mem))
    fun u mem => h u (List.mem_of_mem_getLast? mem)
  rw [JsString.trim, JsString.dropWhile_eq_self fun u mem => h u (List.mem_of_mem_head? mem)] at own
  rw [JsString.trim, kept, own]

theorem unquote_eq_self (h : codeUnit '"' ∉ value) : unquote value = value := by
  rw [unquote, if_neg]
  exact fun quoted => h (List.mem_of_mem_head? quoted.2.1)

/-- A part of the header has the cookie that it is made of, with a blank before it or without. -/
theorem cookieIn_part (proper : Proper (name, value)) (space : JsString)
    (blank : ∀ u ∈ space, isWhiteSpace u = true) (wanted : JsString) :
    cookieIn wanted (space ++ signedText name value) = if wanted = name then some value else none := by
  have absent : codeUnit '=' ∉ space ++ name := by
    intro mem
    rcases List.mem_append.mp mem with first | later
    · exact absurd (blank _ first) (by decide)
    · exact (proper.name _ later).2.1 rfl
  have found : indexOf [codeUnit '='] (space ++ signedText name value) = some (space ++ name).length := by
    rw [signedText, ← List.append_assoc]
    exact indexOf_singleton absent
  have positive : 0 < (space ++ name).length := by
    rw [List.length_append]
    have := List.length_pos_iff.mpr proper.some
    dsimp only at this
    omega
  have before : (space ++ signedText name value).take (space ++ name).length = space ++ name := by
    rw [signedText, ← List.append_assoc, List.take_left]
  have behind : (space ++ signedText name value).drop ((space ++ name).length + 1) = value := by
    rw [signedText, ← List.append_assoc, ← List.drop_drop, List.drop_left]
    rfl
  rw [cookieIn, found]
  dsimp only
  rw [before, behind, trim_spaced (fun u mem => (proper.name u mem).2.2) space blank,
    JsString.trim_eq_self (fun u mem => (proper.value u (List.mem_of_mem_head? mem)).2.2)
      (fun u mem => (proper.value u (List.mem_of_mem_getLast? mem)).2.2), unquote_eq_self fun mem => (proper.value _ mem).2.1 rfl]
  by_cases same : wanted = name
  · rw [if_pos ⟨positive, same.symm⟩, if_pos same]
  · rw [if_neg fun both => same both.2.symm, if_neg same]

theorem semicolon_not_mem {cookie : JsString × JsString} (proper : Proper cookie) :
    codeUnit ';' ∉ signedText cookie.1 cookie.2 := by
  intro found
  rcases List.mem_append.mp found with inName | later
  · exact (proper.name _ inName).1 rfl
  · rcases List.mem_cons.mp later with equals | inValue
    · exact absurd equals (by decide)
    · exact (proper.value _ inValue).1 rfl

theorem semicolon_not_mem_spaced (proper : ∀ cookie ∈ cookies, Proper cookie) :
    ∀ part ∈ (cookies.map fun cookie => signedText cookie.1 cookie.2).map (codeUnit ' ' :: ·), codeUnit ';' ∉ part := by
  intro part mem found
  obtain ⟨text, inTexts, rfl⟩ := List.mem_map.mp mem
  obtain ⟨cookie, inCookies, rfl⟩ := List.mem_map.mp inTexts
  rcases List.mem_cons.mp found with blank | inText
  · exact absurd blank (by decide)
  · exact semicolon_not_mem (proper cookie inCookies) inText

theorem findSome?_spaced (proper : ∀ cookie ∈ cookies, Proper cookie) (wanted : JsString) :
    ((cookies.map fun cookie => signedText cookie.1 cookie.2).map (codeUnit ' ' :: ·)).findSome? (cookieIn wanted)
      = OrderedMap.get cookies wanted := by
  induction cookies with
  | nil => rfl
  | cons cookie rest ih =>
      have here := cookieIn_part (proper cookie List.mem_cons_self) [codeUnit ' '] (by decide) wanted
      rw [List.singleton_append] at here
      rw [List.map_cons, List.map_cons, List.findSome?_cons, here, OrderedMap.get_cons,
        ih fun other mem => proper other (List.mem_cons_of_mem _ mem)]
      by_cases same : wanted = cookie.1
      · rw [if_pos same, if_pos same]
      · rw [if_neg same, if_neg same]

/-- The browser's cookie of the name is read, wherever it stands among the others. -/
theorem readCookie_cookieHeader (proper : ∀ cookie ∈ cookies, Proper cookie) (wanted : JsString) :
    readCookie (some (cookieHeader cookies)) wanted = OrderedMap.get cookies wanted := by
  cases cookies with
  | nil => rfl
  | cons first rest =>
      have own := proper first List.mem_cons_self
      have others : ∀ cookie ∈ rest, Proper cookie := fun cookie mem => proper cookie (List.mem_cons_of_mem _ mem)
      have whole : ∀ part ∈ signedText first.1 first.2 :: (rest.map fun cookie => signedText cookie.1 cookie.2).map
          (codeUnit ' ' :: ·), codeUnit ';' ∉ part :=
        List.forall_mem_cons.mpr ⟨semicolon_not_mem own, semicolon_not_mem_spaced others⟩
      have here := cookieIn_part own [] (fun _ mem => (List.not_mem_nil mem).elim) wanted
      rw [List.nil_append] at here
      rw [readCookie, Option.map_some, Option.getD_some, cookieHeader, List.map_cons, intercalate_spaced,
        List.splitOn_intercalate _ whole (List.cons_ne_nil _ _), List.findSome?_cons, here, OrderedMap.get_cons,
        findSome?_spaced others]
      by_cases same : wanted = first.1
      · rw [if_pos same, if_pos same]
      · rw [if_neg same, if_neg same]

end Headers

section Written

variable {hmac : JsString → JsString → List UInt8} {secrets : Secrets} {enterprise : SsoEnterprise}
  {session : EnterpriseSession} {cookies : List (JsString × JsString)} {secret : JsString}

/-- What was written is read from a header with both cookies in it. -/
theorem readSession_written (proper : ∀ cookie ∈ cookies, Proper cookie)
    (value : OrderedMap.get cookies (cookieRef enterprise).name = some (cookieValue session))
    (signature : OrderedMap.get cookies (signatureName (cookieRef enterprise).name)
      = some (sign hmac (signedText (cookieRef enterprise).name (cookieValue session)) secret))
    (known : ssoSessionSecret secrets enterprise = .ok secret) (whole : ∀ pending ∈ session.pending, pending.Whole)
    (own : session.e = enterprise.id) (now : EpochMs) :
    readSession hmac secrets (some (cookieHeader cookies)) enterprise now
      = .ok { e := enterprise.id, user := session.user.filter (·.createdAt.isSome),
              pending := session.pending.filter (!·.exp.atMost now) } := by
  rw [← sessionOf_cookieValue whole own]
  unfold readSession
  dsimp only
  rw [readCookie_cookieHeader proper, readCookie_cookieHeader proper, value, signature]
  dsimp only
  rw [known]
  have valid : hasValidSignature hmac (cookieRef enterprise).name (cookieValue session)
      (sign hmac (signedText (cookieRef enterprise).name (cookieValue session)) secret) secret = true := by
    rw [hasValidSignature]
    exact decide_eq_true rfl
  show (if _ then (.ok _ : Except String EnterpriseSession) else _) = _
  rw [if_pos valid]

theorem ascii_nameUnit {u : CodeUnit} (h : isNameUnit u = true) : u.toNat < 0x80 := by
  simp only [isNameUnit, Bool.or_eq_true, Bool.and_eq_true, decide_eq_true_eq, UInt16.le_iff_toNat_le] at h
  rcases h with (((⟨-, high⟩ | ⟨-, high⟩) | rfl) | rfl) | rfl
  · exact Nat.lt_of_le_of_lt high (by decide)
  · exact Nat.lt_of_le_of_lt high (by decide)
  all_goals decide

theorem ascii_base64 {u : CodeUnit} (h : Base64.isBase64 u = true) : u.toNat < 0x80 := by
  rw [Base64.isBase64, Base64.value?, Bool.or_eq_true] at h
  rcases h with digit | padding
  · split at digit
    · rename_i upper
      exact Nat.lt_of_le_of_lt (UInt16.le_iff_toNat_le.mp upper.2) (by decide)
    · split at digit
      · rename_i lower
        exact Nat.lt_of_le_of_lt (UInt16.le_iff_toNat_le.mp lower.2) (by decide)
      · split at digit
        · rename_i decimal
          exact Nat.lt_of_le_of_lt (UInt16.le_iff_toNat_le.mp decimal.2) (by decide)
        · split at digit
          · rename_i mark
            rcases mark with rfl | rfl <;> decide
          · split at digit
            · rename_i mark
              rcases mark with rfl | rfl <;> decide
            · cases digit
  · rw [of_decide_eq_true padding]
    decide

theorem proper_of_units {name value : JsString} (nonempty : name ≠ []) (named : ∀ u ∈ name, isNameUnit u = true)
    (digits : ∀ u ∈ value, Base64.isBase64 u = true) : Proper (name, value) := by
  have eachName : ∀ n < 0x80, isNameUnit (UInt16.ofNat n) = true → UInt16.ofNat n ≠ codeUnit ';'
      ∧ UInt16.ofNat n ≠ codeUnit '=' ∧ isWhiteSpace (UInt16.ofNat n) = false := by decide +kernel
  have eachValue : ∀ n < 0x80, Base64.isBase64 (UInt16.ofNat n) = true → UInt16.ofNat n ≠ codeUnit ';'
      ∧ UInt16.ofNat n ≠ codeUnit '"' ∧ isWhiteSpace (UInt16.ofNat n) = false := by decide +kernel
  refine ⟨nonempty, fun u mem => ?_, fun u mem => ?_⟩
  · have kept := eachName u.toNat (ascii_nameUnit (named u mem))
    rw [UInt16.ofNat_toNat] at kept
    exact kept (named u mem)
  · have kept := eachValue u.toNat (ascii_base64 (digits u mem))
    rw [UInt16.ofNat_toNat] at kept
    exact kept (digits u mem)

/-- The cookies that the service writes are of this kind. -/
theorem proper_writeSession (secure : Bool) :
    ∀ cookie ∈ (writeSession hmac secrets secure enterprise session).2, Proper (cookie.name, cookie.value) := by
  have nonempty : (cookieRef enterprise).name ≠ [] := by
    unfold cookieRef
    split
    · decide
    · exact List.append_ne_nil_of_left_ne_nil (by decide) _
  have value : Proper ((cookieRef enterprise).name, cookieValue session) :=
    proper_of_units nonempty (fun _ mem => isNameUnit_name mem) (Base64.isBase64_encode _)
  intro cookie mem
  unfold writeSession at mem
  dsimp only at mem
  split at mem
  · rcases List.mem_pair.mp mem with rfl | rfl
    · exact value
    · exact proper_of_units (List.append_ne_nil_of_left_ne_nil nonempty _) (fun _ mem => isNameUnit_signatureName mem)
        (Base64.isBase64_encode _)
  · rw [List.mem_singleton.mp mem]
    exact value

end Written

namespace SignIn

section Others

variable {env : Env} {s : State} {enterprise : SsoEnterprise} {session : EnterpriseSession} {id : Nat}

/-- The input is somebody else's: it does not go on with the request `id`, and replaces no secret. -/
def Leaves (id : Nat) : Input → Prop
  | .secrets _ => False
  | .parsed other _ _ => other ≠ id
  | .verified other _ => other ≠ id
  | .built other _ => other ≠ id
  | _ => True

/-- Who awaits what, and the secrets, are as before. -/
structure Same (s s' : State) : Prop where
  handlers : s'.handlers = s.handlers
  next : s'.next = s.next
  secrets : s'.secrets = s.secrets

def Keeps (s : State) : Sum (State × Handler) (State × Response) → Prop
  | .inl (s', _) => Same s s'
  | .inr (s', _) => Same s s'

theorem keeps_continueSso (now : EpochMs) (event : Event) :
    Keeps s (continueSso env enterprise session now (s.record event)) := by
  have written : ∀ session', Same s (write env enterprise session' (s.record event)).2 := fun _ => ⟨rfl, rfl, rfl⟩
  unfold continueSso
  generalize currentUser _ session = found
  obtain ⟨user, session'⟩ := found
  cases user with
  | none =>
      dsimp only
      have kept := written session'
      generalize write env enterprise session' (s.record event) = result at kept
      obtain ⟨⟨outcome, cookies⟩, s'⟩ := result
      cases outcome <;> exact kept
  | some user => exact ⟨rfl, rfl, rfl⟩

theorem keeps_startSso (cookies : Option JsString) (query : SsoQuery) (now later : EpochMs) :
    Keeps s (startSso env enterprise cookies query now later s) := by
  unfold startSso
  split
  · exact ⟨rfl, rfl, rfl⟩
  · split
    · exact keeps_continueSso later _
    · exact ⟨rfl, rfl, rfl⟩

theorem keeps_parsed (query : SsoQuery) (request : Except String AuthnRequestFields) (now : EpochMs) :
    Keeps s (parsed env enterprise session query request now s) := by
  unfold parsed
  dsimp only
  split
  · exact ⟨rfl, rfl, rfl⟩
  · exact keeps_continueSso now _

theorem keeps_login (cookies : Option JsString) (body : Option LoginBody) :
    Keeps s (login enterprise cookies body s) := by
  unfold login
  split
  · exact ⟨rfl, rfl, rfl⟩
  · split <;> exact ⟨rfl, rfl, rfl⟩

theorem keeps_verified (user : StoredUser) (password : JsString) (cookies : Option JsString) (now : EpochMs) :
    Keeps s (verified env enterprise user password cookies now s) := by
  have written : ∀ session' event, Same s (write env enterprise session' (s.record event)).2 :=
    fun _ _ => ⟨rfl, rfl, rfl⟩
  unfold verified
  split
  · dsimp only
    split
    · exact ⟨rfl, rfl, rfl⟩
    · split
      · exact ⟨rfl, rfl, rfl⟩
      · rename_i session' _ _
        have kept := written { session' with
          user := some ⟨JsString.ofChars user.ssoUser, some (JsString.ofChars user.createdAt)⟩ }
          (.loggedIn enterprise user password)
        generalize write env enterprise _ _ = result at kept
        obtain ⟨⟨outcome, cookies⟩, s'⟩ := result
        cases outcome <;> exact kept
  · exact ⟨rfl, rfl, rfl⟩

theorem keeps_built (user : StoredUser) (readAt : EpochMs) (response : Except String Unit) :
    Same s (built env enterprise session user readAt response s).1 := by
  unfold built
  split
  · exact ⟨rfl, rfl, rfl⟩
  · dsimp only
    have kept : Same s (write env enterprise { session with pending := none } s).2 := ⟨rfl, rfl, rfl⟩
    generalize write env enterprise _ s = result at kept
    obtain ⟨⟨outcome, cookies⟩, s'⟩ := result
    cases outcome <;> exact ⟨kept.handlers, kept.next, kept.secrets⟩

/-- The request `id` still awaits what it did, under the same secrets. -/
structure Waits (id : Nat) (s s' : State) : Prop where
  handler : s'.handlers id = s.handlers id
  next : id < s'.next
  secrets : s'.secrets = s.secrets

theorem Keeps.begin {outcome : Sum (State × Handler) (State × Response)} (h : Keeps s outcome) (old : id < s.next) :
    Waits id s (begin outcome).1 := by
  rcases outcome with ⟨s', handler⟩ | ⟨s', response⟩
  · refine ⟨?_, Nat.lt_succ_of_lt (h.next ▸ old), h.secrets⟩
    show (if id = s'.next then some handler else s'.handlers id) = _
    rw [if_neg (by rw [h.next]; omega), h.handlers]
  · exact ⟨congrFun h.handlers id, h.next ▸ old, h.secrets⟩

theorem Keeps.resume {outcome : Sum (State × Handler) (State × Response)} (h : Keeps s outcome) (old : id < s.next)
    {other : Nat} (ne : other ≠ id) : Waits id s (resume other outcome).1 := by
  rcases outcome with ⟨s', handler⟩ | ⟨s', response⟩
  · refine ⟨?_, h.next ▸ old, h.secrets⟩
    show (if id = other then some handler else s'.handlers id) = _
    rw [if_neg ne.symm, h.handlers]
  · refine ⟨?_, h.next ▸ old, h.secrets⟩
    show (if id = other then none else s'.handlers id) = _
    rw [if_neg ne.symm, h.handlers]

theorem step_leaves {input : Input} (leaves : Leaves id input) (old : id < s.next) :
    Waits id s (step env s input).1 := by
  cases input with
  | secrets secrets => exact leaves.elim
  | users enterpriseId rows => exact ⟨rfl, old, rfl⟩
  | startSso enterprise cookies query now later => exact (keeps_startSso cookies query now later).begin old
  | login enterprise cookies body => exact (keeps_login cookies body).begin old
  | parsed other request now =>
      rw [step]
      split
      · exact (keeps_parsed _ request now).resume old leaves
      · exact ⟨rfl, old, rfl⟩
  | verified other now =>
      rw [step]
      split
      · exact (keeps_verified _ _ _ now).resume old leaves
      · exact ⟨rfl, old, rfl⟩
  | built other response =>
      rw [step]
      split
      · rename_i enterprise session user readAt _
        have kept : Keeps s (.inr (built env enterprise session user readAt response s)) := keeps_built user readAt response
        exact kept.resume old leaves
      · exact ⟨rfl, old, rfl⟩

theorem run_leaves (others : List Input) (leaves : ∀ input ∈ others, Leaves id input) :
    ∀ s : State, id < s.next → Waits id s (run env s others) := by
  induction others with
  | nil => exact fun s old => ⟨rfl, old, rfl⟩
  | cons input others ih =>
      intro s old
      have first : Waits id s (step env s input).1 := step_leaves (leaves input List.mem_cons_self) old
      have later := ih (fun other mem => leaves other (List.mem_cons_of_mem _ mem)) _ first.next
      exact ⟨later.handler.trans first.handler, later.next, later.secrets.trans first.secrets⟩

end Others

section Flow

variable {env : Env} {s t : State} {enterprise : SsoEnterprise} {session : EnterpriseSession}

theorem own_sessionOf (payload : Option JsonValue) (now : EpochMs) :
    (sessionOf enterprise payload now).e = enterprise.id := by
  unfold sessionOf
  split
  · rfl
  · split
    · split
      · rename_i default
        exact (of_decide_eq_true default).symm
      · rfl
    · split <;> rfl
    · rfl

theorem own_readSession {hmac : JsString → JsString → List UInt8} {secrets : Secrets} {header : Option JsString}
    {now : EpochMs} (read : readSession hmac secrets header enterprise now = .ok session) :
    session.e = enterprise.id := by
  rcases readSession_ok read with rfl | ⟨value, _, _, -, -, -, -, rfl⟩
  · rfl
  · exact own_sessionOf _ _

theorem currentUser_kept (users : List StoredUser) (session : EnterpriseSession) :
    (currentUser users session).2.e = session.e ∧ (currentUser users session).2.pending = session.pending := by
  unfold currentUser
  split
  · exact ⟨rfl, rfl⟩
  · split
    · exact ⟨rfl, rfl⟩
    · dsimp only
      split <;> exact ⟨rfl, rfl⟩

/-- What the way to the login page leaves with the browser. -/
theorem continueSso_redirect {now : EpochMs} {s' : State} {cookies : List SetCookie}
    (redirected : continueSso env enterprise session now s = .inr (s', .redirect cookies)) :
    ∃ written secret, written.e = session.e ∧ written.pending = session.pending
      ∧ ssoSessionSecret s.secrets enterprise = .ok secret
      ∧ cookies = (writeSession env.hmac s.secrets env.secure enterprise written).2 := by
  obtain ⟨own, kept⟩ := currentUser_kept (s.users enterprise.id) session
  unfold continueSso at redirected
  generalize currentUser (s.users enterprise.id) session = found at redirected own kept
  obtain ⟨user, written⟩ := found
  cases user with
  | some user => cases redirected
  | none =>
      dsimp only [write] at redirected
      cases known : ssoSessionSecret s.secrets enterprise with
      | error message =>
          simp only [writeSession, known] at redirected
          cases redirected
      | ok secret =>
          simp only [writeSession, known] at redirected
          refine ⟨written, secret, own, kept, rfl, ?_⟩
          simp only [writeSession, known]
          cases redirected
          rfl

theorem parsed_redirect {query : SsoQuery} {request : Except String AuthnRequestFields} {now : EpochMs} {s' : State}
    {cookies : List SetCookie}
    (redirected : parsed env enterprise session query request now s = .inr (s', .redirect cookies)) :
    ∃ fields written secret, request = .ok fields ∧ written.e = session.e
      ∧ written.pending = some (newPending fields.id query.relayState now)
      ∧ ssoSessionSecret s.secrets enterprise = .ok secret
      ∧ cookies = (writeSession env.hmac s.secrets env.secure enterprise written).2 := by
  unfold parsed at redirected
  dsimp only at redirected
  split at redirected
  · cases redirected
  · rename_i fields checked
    obtain ⟨written, secret, own, pending, known, rfl⟩ := continueSso_redirect redirected
    refine ⟨fields, written, secret, ?_, own, pending, known, rfl⟩
    cases urls : samlUrls env.baseUrl enterprise with
    | error message =>
        rw [urls] at checked
        cases checked
    | ok urls' =>
        rw [urls] at checked
        split at checked
        · cases checked
        · cases request with
          | error message => cases checked
          | ok request =>
              replace checked : (assertRequestMatches request urls' >>= fun _ => pure request) = .ok fields := checked
              cases same : assertRequestMatches request urls' with
              | error message =>
                  rw [same] at checked
                  cases checked
              | ok done =>
                  rw [same] at checked
                  exact checked

/-- The login of a browser that kept the cookies of its visit is answered with what the visit asked. -/
theorem verified_building {written : EnterpriseSession} {fields : AuthnRequestFields} {relayState : Option JsString}
    {asked now : EpochMs} {cookies : List (JsString × JsString)} {secret password : JsString} {user : StoredUser}
    (own : written.e = enterprise.id) (pending : written.pending = some (newPending fields.id relayState asked))
    (proper : ∀ cookie ∈ cookies, Proper cookie)
    (value : OrderedMap.get cookies (cookieRef enterprise).name = some (cookieValue written))
    (signature : OrderedMap.get cookies (signatureName (cookieRef enterprise).name)
      = some (sign env.hmac (signedText (cookieRef enterprise).name (cookieValue written)) secret))
    (known : ssoSessionSecret s.secrets enterprise = .ok secret)
    (valid : env.verifyPassword password user.passwordHash user.salt = true)
    (inTime : now.val < asked.val + PENDING_TTL_MS) :
    ∃ session s', verified env enterprise user password (some (cookieHeader cookies)) now s
        = .inl (s', .building enterprise session user now)
      ∧ session.pending = some (newPending fields.id relayState asked) := by
  have whole : ∀ pending ∈ written.pending, pending.Whole := by
    intro own mem
    rw [pending] at mem
    exact Option.mem_some_iff.mp mem ▸ whole_newPending _ _ _
  have fresh : (newPending fields.id relayState asked).exp.atMost now = false := by
    rw [newPending, atMost_newPending]
    exact decide_eq_false (Nat.not_le.mpr inTime)
  have read := readSession_written proper value signature known whole own now
  rw [pending, Option.filter_some, fresh] at read
  unfold verified
  rw [if_pos valid]
  dsimp only
  rw [show (s.record (.loggedIn enterprise user password)).secrets = s.secrets from rfl, read]
  exact ⟨_, _, rfl, rfl⟩

theorem startSso_awaits {sent : Option JsString} {query : SsoQuery} {now later : EpochMs} {s' : State}
    {handler : Handler} (awaits : startSso env enterprise sent query now later s = .inl (s', handler)) :
    (∃ session, handler = .parsing enterprise session query ∧ session.e = enterprise.id)
      ∨ ∃ session user readAt, handler = .building enterprise session user readAt := by
  unfold startSso at awaits
  split at awaits
  · cases awaits
  · rename_i session read
    split at awaits
    · refine .inr ?_
      unfold continueSso at awaits
      split at awaits
      · split at awaits <;> cases awaits
      · cases awaits
        exact ⟨_, _, _, rfl⟩
    · cases awaits
      exact .inl ⟨session, rfl, own_readSession read⟩

theorem built_samlPost {user : StoredUser} {readAt : EpochMs} {secret : JsString} {pending : PendingRequest}
    (known : ssoSessionSecret s.secrets enterprise = .ok secret) (own : session.pending = some pending) :
    ∃ written, (built env enterprise session user readAt (.ok ()) s).2
      = .samlPost user pending.requestId pending.relayState written := by
  simp only [built, write, writeSession, known, own]
  exact ⟨_, rfl⟩

/-- What a visit that was sent to the login page left with the browser. -/
theorem visit_given {sent : Option JsString} {query : SsoQuery} {now later asked : EpochMs}
    {request : Except String AuthnRequestFields} {given : List SetCookie} {others : List Input}
    (awaits : (step env s (.startSso enterprise sent query now later)).2.isNone = true)
    (leaves : ∀ input ∈ others, Leaves s.next input)
    (redirected : (step env (run env (step env s (.startSso enterprise sent query now later)).1 others)
      (.parsed s.next request asked)).2 = some (.redirect given)) :
    ∃ fields written secret, request = .ok fields ∧ written.e = enterprise.id
      ∧ written.pending = some (newPending fields.id query.relayState asked)
      ∧ ssoSessionSecret s.secrets enterprise = .ok secret
      ∧ given = (writeSession env.hmac s.secrets env.secure enterprise written).2 := by
  have keeps : Keeps s (startSso env enterprise sent query now later s) := keeps_startSso sent query now later
  have spec : ∀ s' handler, startSso env enterprise sent query now later s = .inl (s', handler) →
      (∃ session, handler = .parsing enterprise session query ∧ session.e = enterprise.id)
        ∨ ∃ session user readAt, handler = .building enterprise session user readAt :=
    fun _ _ => startSso_awaits
  rw [step] at awaits redirected
  generalize startSso env enterprise sent query now later s = outcome at keeps spec awaits redirected
  rcases outcome with ⟨s', handler⟩ | ⟨s', response⟩
  · have first : s.next < (s'.await handler).next := by
      show s.next < s'.next + 1
      rw [keeps.next]
      omega
    have waits : Waits s.next (s'.await handler) (run env (s'.await handler) others) :=
      run_leaves others leaves _ first
    have here : (s'.await handler).handlers s.next = some handler := if_pos keeps.next.symm
    have secrets : (run env (s'.await handler) others).secrets = s.secrets := waits.secrets.trans keeps.secrets
    rw [begin, step, waits.handler, here] at redirected
    rcases spec _ _ rfl with ⟨session, rfl, own⟩ | ⟨session, user, readAt, rfl⟩
    · dsimp only at redirected
      generalize result : parsed env enterprise session query request asked (run env (s'.await _) others) = outcome
        at redirected
      rcases outcome with ⟨s'', handler⟩ | ⟨s'', response⟩
      · cases redirected
      · rw [resume, Option.some.injEq] at redirected
        rw [redirected] at result
        obtain ⟨fields, written, secret, read, same, pending, known, rfl⟩ := parsed_redirect result
        rw [secrets] at known ⊢
        exact ⟨fields, written, secret, read, same.trans own, pending, known, rfl⟩
    · cases redirected
  · cases awaits

theorem login_awaits {sent : Option JsString} {username password : JsString} {user : StoredUser} (named : username ≠ [])
    (found : getUser (s.users enterprise.id) username = some user) :
    (step env s (.login enterprise sent (some ⟨some username, some password⟩))).1
      = s.await (.verifying enterprise user password sent) := by
  simp only [step, login, Option.filter_some, named, ne_eq, not_false_eq_true, decide_true, if_true, Option.bind_some,
    found, Option.getD_some]
  rfl

/-- The login that sends those cookies back ends with the answer. -/
theorem login_samlPost {written : EnterpriseSession} {fields : AuthnRequestFields} {relayState : Option JsString}
    {asked checked : EpochMs} {cookies : List (JsString × JsString)} {secret username password : JsString}
    {user : StoredUser} {meanwhile signing : List Input} (own : written.e = enterprise.id)
    (pending : written.pending = some (newPending fields.id relayState asked))
    (proper : ∀ cookie ∈ cookies, Proper cookie)
    (value : OrderedMap.get cookies (cookieRef enterprise).name = some (cookieValue written))
    (signature : OrderedMap.get cookies (signatureName (cookieRef enterprise).name)
      = some (sign env.hmac (signedText (cookieRef enterprise).name (cookieValue written)) secret))
    (known : ssoSessionSecret s.secrets enterprise = .ok secret) (named : username ≠ [])
    (found : getUser (s.users enterprise.id) username = some user)
    (valid : env.verifyPassword password user.passwordHash user.salt = true)
    (leavesLogin : ∀ input ∈ meanwhile, Leaves s.next input) (inTime : checked.val < asked.val + PENDING_TTL_MS)
    (leavesAnswer : ∀ input ∈ signing, Leaves s.next input) :
    ∃ rewritten, (step env (run env (step env (run env (step env s (.login enterprise (some (cookieHeader cookies))
        (some ⟨some username, some password⟩))).1 meanwhile) (.verified s.next checked)).1 signing)
        (.built s.next (.ok ()))).2 = some (.samlPost user fields.id relayState rewritten) := by
  -- the login awaits the hash
  rw [login_awaits named found]
  have hashing : Waits s.next (s.await (.verifying enterprise user password (some (cookieHeader cookies))))
      (run env (s.await (.verifying enterprise user password (some (cookieHeader cookies)))) meanwhile) :=
    run_leaves meanwhile leavesLogin _ (Nat.lt_succ_self _)
  generalize run env (s.await _) meanwhile = s₁ at hashing
  have knownHashed : ssoSessionSecret s₁.secrets enterprise = .ok secret := by
    rw [hashing.secrets]
    exact known
  -- then the signature
  obtain ⟨signedIn, s₂, verifies, waiting⟩ :=
    verified_building own pending proper value signature knownHashed valid inTime
  have hashed : (step env s₁ (.verified s.next checked)).1
      = s₂.proceed s.next (.building enterprise signedIn user checked) := by
    rw [step, hashing.handler, show (s.await _).handlers s.next = some _ from if_pos rfl]
    dsimp only
    rw [verifies]
    rfl
  have keeps : Keeps s₁ (.inl (s₂, .building enterprise signedIn user checked)) := verifies ▸ keeps_verified _ _ _ _
  rw [hashed]
  have building : Waits s.next (s₂.proceed s.next (.building enterprise signedIn user checked))
      (run env (s₂.proceed s.next (.building enterprise signedIn user checked)) signing) :=
    run_leaves signing leavesAnswer _ (keeps.next ▸ hashing.next)
  generalize run env (s₂.proceed s.next _) signing = s₃ at building
  have knownSigned : ssoSessionSecret s₃.secrets enterprise = .ok secret := by
    rw [building.secrets, show (s₂.proceed s.next _).secrets = s₂.secrets from rfl, keeps.secrets]
    exact knownHashed
  obtain ⟨rewritten, answered⟩ : ∃ rewritten, (built env enterprise signedIn user checked (.ok ()) s₃).2
      = .samlPost user fields.id relayState rewritten := built_samlPost knownSigned waiting
  refine ⟨rewritten, ?_⟩
  rw [step, building.handler, show (s₂.proceed s.next _).handlers s.next = some _ from if_pos rfl]
  dsimp only
  rw [resume, answered]

end Flow

/-- A visit that was sent to the login page, and the login of the same browser while the request is pending: the
answer is for the user who logged in, and it answers what the visit asked. The browser keeps the cookies it was given
among any others; the requests of others come in between at every await. -/
theorem sign_in_completes (env : Env) (enterprise : SsoEnterprise) (visit : State) (sent : Option JsString)
    (query : SsoQuery) (now later : EpochMs)
    (awaits : (step env visit (.startSso enterprise sent query now later)).2.isNone = true) (others : List Input)
    (leaves : ∀ input ∈ others, Leaves visit.next input) (request : Except String AuthnRequestFields)
    (asked : EpochMs) (given : List SetCookie)
    (redirected : (step env (run env (step env visit (.startSso enterprise sent query now later)).1 others)
      (.parsed visit.next request asked)).2 = some (.redirect given))
    (login : State) (same : ssoSessionSecret login.secrets enterprise = ssoSessionSecret visit.secrets enterprise)
    (cookies : List (JsString × JsString)) (proper : ∀ cookie ∈ cookies, Proper cookie)
    (kept : ∀ cookie ∈ given, OrderedMap.get cookies cookie.name = some cookie.value)
    (username password : JsString) (named : username ≠ []) (user : StoredUser)
    (found : getUser (login.users enterprise.id) username = some user)
    (valid : env.verifyPassword password user.passwordHash user.salt = true)
    (meanwhile : List Input) (leavesLogin : ∀ input ∈ meanwhile, Leaves login.next input)
    (checked : EpochMs) (inTime : checked.val < asked.val + PENDING_TTL_MS)
    (signing : List Input) (leavesAnswer : ∀ input ∈ signing, Leaves login.next input) :
    ∃ fields written, request = .ok fields
      ∧ (step env (run env (step env (run env (step env login (.login enterprise (some (cookieHeader cookies))
          (some ⟨some username, some password⟩))).1 meanwhile) (.verified login.next checked)).1 signing)
          (.built login.next (.ok ()))).2 = some (.samlPost user fields.id query.relayState written) := by
  obtain ⟨fields, session, secret, rfl, own, pending, known, rfl⟩ := visit_given awaits leaves redirected
  rw [← same] at known
  have written : (writeSession env.hmac visit.secrets env.secure enterprise session).2.map
      (fun cookie => (cookie.name, cookie.value)) = [((cookieRef enterprise).name, cookieValue session),
        (signatureName (cookieRef enterprise).name,
          sign env.hmac (signedText (cookieRef enterprise).name (cookieValue session)) secret)] := by
    simp only [writeSession, ← same, known]
    rfl
  have back : ∀ entry ∈ [((cookieRef enterprise).name, cookieValue session),
      (signatureName (cookieRef enterprise).name,
        sign env.hmac (signedText (cookieRef enterprise).name (cookieValue session)) secret)],
      OrderedMap.get cookies entry.1 = some entry.2 := by
    rw [← written]
    intro entry mem
    obtain ⟨cookie, inGiven, rfl⟩ := List.mem_map.mp mem
    exact kept cookie inGiven
  obtain ⟨rewritten, answered⟩ := login_samlPost own pending proper (back _ List.mem_cons_self)
    (back _ (List.mem_cons_of_mem _ List.mem_cons_self)) known named found valid leavesLogin inTime leavesAnswer
  exact ⟨fields, rewritten, rfl, answered⟩

namespace Sample

/-- Bob is created and guesses a password while the request is read. -/
def others : List Input := [
  .users "contoso" [bob, alice],
  .login contoso none (some ⟨some (utf16 "Bob"), some (utf16 "battery staple?")⟩),
  .verified 1 1500]

def given : List SetCookie := (writeSession env.hmac start.secrets env.secure contoso
  { e := contoso.id, pending := some (newPending request.id query.relayState 2000) }).2

def visited : State :=
  (step env (run env (step env start (.startSso contoso (some (utf16 "theme=dark")) query 1000 1001)).1 others)
    (.parsed start.next (.ok request) 2000)).1

/-- Alice's cookies after the visit. -/
def jar : List (JsString × JsString) :=
  (utf16 "theme", utf16 "dark") :: given.map fun cookie => (cookie.name, cookie.value)

/-- Somebody visits while the password is hashed, and is answered while the response is signed. -/
def meanwhile : List Input := [.startSso contoso none query 2500 2501]

def signing : List Input := [
  .parsed 3 (.error "AuthnRequest is not valid XML.") 3100,
  .users "contoso" [alice]]

theorem redirected_request :
    (step env (run env (step env start (.startSso contoso (some (utf16 "theme=dark")) query 1000 1001)).1 others)
        (.parsed start.next (.ok request) 2000)).2 = some (.redirect given)
      ∧ (step env start (.startSso contoso (some (utf16 "theme=dark")) query 1000 1001)).2.isNone = true
      ∧ visited.next = 2
      ∧ ssoSessionSecret visited.secrets contoso = ssoSessionSecret start.secrets contoso
      ∧ getUser (visited.users contoso.id) (utf16 "Alice") = some alice
      ∧ ∀ cookie ∈ given, OrderedMap.get jar cookie.name = some cookie.value := by
  decide +kernel

theorem proper_jar : ∀ cookie ∈ jar, Proper cookie := by
  refine List.forall_mem_cons.mpr ⟨⟨by decide, by decide, by decide⟩, fun cookie mem => ?_⟩
  obtain ⟨written, own, rfl⟩ := List.mem_map.mp mem
  exact proper_writeSession _ written own

end Sample

/-- Alice visits and logs in, while Bob and somebody else try the same. -/
theorem sign_in_completes_alice : ∃ fields written, (.ok Sample.request : Except String AuthnRequestFields) = .ok fields
    ∧ (step Sample.env (run Sample.env (step Sample.env (run Sample.env (step Sample.env Sample.visited
          (.login Sample.contoso (some (cookieHeader Sample.jar)) (some ⟨some (utf16 "Alice"),
            some (utf16 "correct horse")⟩))).1 Sample.meanwhile) (.verified Sample.visited.next 3000)).1 Sample.signing)
        (.built Sample.visited.next (.ok ()))).2
      = some (.samlPost Sample.alice fields.id (some (utf16 "relay")) written) := by
  obtain ⟨redirected, awaits, next, same, found, kept⟩ := Sample.redirected_request
  exact sign_in_completes Sample.env Sample.contoso Sample.start (some (utf16 "theme=dark")) Sample.query 1000 1001
    awaits Sample.others (by simp [Sample.others, Leaves, Sample.start]) (.ok Sample.request) 2000 Sample.given
    redirected Sample.visited same Sample.jar Sample.proper_jar kept (utf16 "Alice") (utf16 "correct horse")
    (by decide) Sample.alice found (by decide +kernel) Sample.meanwhile (by simp [Sample.meanwhile, Leaves]) 3000
    (by decide) Sample.signing (by simp [Sample.signing, Leaves, next])

end SignIn

end GhcpConsole.Sso
