import GhcpConsole.Pool.CallerGateSteps

/-!
# Runs of the caller gate

Requests keep the state `Sound` too: a new ticket joins its line at the end. What the gate is for
follows for every reachable state.
-/

namespace GhcpConsole.Pool.CallerGate

variable {π : Type}

/-! ## Requests -/

section Requests

variable [DecidableEq π] {s s' : Gate π} {t : Nat} {k : Ticket π}

/-- The late grant of a ticket that was cancelled. -/
theorem Sound.grant (h : Sound s) (hk : s.tickets[t]? = some k) (hcancelled : k.cancelled = true) :
    Sound (s.grant t) := by
  obtain ⟨hpools, hcallers, hscopes, hretained⟩ := grant_heap (s := s) t
  have hdead := (h.ordered.fits hk).dead hcancelled
  refine ⟨?_, ?_, h.ordered.grant hk (.inl hcancelled), ?_, ?_, hretained ▸ h.limit, ?_⟩
  · exact h.wired.same hpools hcallers hscopes (line_grant t) fun hx hlive =>
      Follows.grant.held h.wired hx hlive
  · intro key caller c hc
    rw [line_grant]
    rw [place_congr hpools hcallers] at hc
    exact h.used key caller c hc
  · intro i x hx hlive
    rw [line_grant]
    rw [grant_tickets hk] at hx
    rcases eq_or_ne t i with rfl | hne
    · have hlt := (List.getElem?_eq_some_iff.mp hk).1
      obtain rfl := Option.some.inj ((List.getElem?_set_self hlt).symm.trans hx)
      dsimp only at hlive
      omega
    · exact h.headed ((List.getElem?_set_ne hne).symm.trans hx) hlive
  · rw [hretained, countP_grant]
    exact h.counted
  · intro key caller
    rw [line_grant]
    exact h.short key caller

theorem Sound.stop (h : Sound s) (hk : s.tickets[t]? = some k) (hsettled : k.settled = false) :
    Sound (s.stop t)
    ∧ ∃ k', (s.stop t).tickets[t]? = some k' ∧ k'.settled = true ∧ k'.cancelled = true := by
  have hfits := h.ordered.fits hk
  have hopen : k.cancelled = false ∧ k.delivered = false := by
    have := mt hfits.settled.mpr (by simp [hsettled])
    simpa using this
  have hreleased : k.released = false := by
    by_contra hne
    have := hfits.released (by simpa using hne)
    simp [hopen] at this
  have hreferences := hfits.unreleased hreleased
  rw [hfits.retains hopen.2] at hreferences
  -- The waiter or the undelivered permit loses its only reference.
  obtain ⟨hsound, hself⟩ := h.drop { k with
      settled := true, cancelled := true, released := true, references := 0 } hk
    (by simp [hreferences]) ⟨rfl, rfl, rfl, rfl⟩ rfl (fun _ => rfl)
    ⟨by simp [hfits.retains hopen.2], hfits.retains, fun _ => ⟨rfl, hopen.2⟩, fun _ => .inl rfl,
      hfits.delivered, by simp⟩ (by simp)
  have hself := hself rfl
  have hone : k.references = 0 + 1 := by simpa using hreferences
  have hstop : s.stop t = ((s.put t { k with
      settled := true, cancelled := true, released := true, references := 0 + 1 }).drop t).grant t := by
    unfold Gate.stop Gate.release
    rw [hk]
    simp only [hsettled, Bool.false_eq_true, if_false, put_self _ hk, hreleased, put_put, hone]
  rw [hstop]
  refine ⟨hsound.grant hself rfl, { k with
    settled := true, cancelled := true, released := true, references := 0, granted := true }, ?_, rfl,
    rfl⟩
  rw [grant_tickets hself]
  exact List.getElem?_set_self (List.getElem?_eq_some_iff.mp hself).1

theorem Sound.observe (h : Sound s) (hk : s.tickets[t]? = some k) (hgranted : k.granted = true)
    (hobserved : k.observed = false) (expired : Bool) : Sound (s.observe t expired) := by
  have hfits := h.ordered.fits hk
  have hdelivered : k.delivered = false := by
    by_contra hne
    have := (hfits.delivered (by simpa using hne)).2
    simp [hobserved] at this
  have hfits' : ({ k with observed := true } : Ticket π).Fits :=
    ⟨hfits.references, hfits.retains, hfits.cancelled, hfits.released,
      fun hd => ⟨(hfits.delivered hd).1, rfl⟩, hfits.settled⟩
  have hput := h.put { k with observed := true } hk ⟨rfl, rfl, rfl, rfl⟩ rfl id Iff.rfl hfits'
  have hself : (s.put t { k with observed := true }).tickets[t]? = _ := put_self _ hk
  unfold Gate.observe
  rw [hk]
  dsimp only
  by_cases hsettled : k.settled = true
  · have hcancelled := (hfits.settled.mp hsettled).resolve_right (by simp [hdelivered])
    simp only [hsettled, Bool.not_true, Bool.false_and, Bool.false_eq_true, if_false]
    rw [put_self _ hk]
    simp only [if_true]
    simp only [hsettled] at hput hself
    exact hput.release hself (.inr (hfits.cancelled hcancelled).1)
  · rw [Bool.not_eq_true] at hsettled
    simp only [hsettled, Bool.not_false, Bool.true_and]
    simp only [hsettled] at hput hself
    cases expired with
    | true =>
        obtain ⟨hstop, k', hk', hsettled', hcancelled'⟩ := hput.stop hself rfl
        rw [if_pos rfl, hk']
        simp only [hsettled', if_true]
        exact hstop.release hk' (.inr ((hstop.ordered.fits hk').cancelled hcancelled').1)
    | false =>
        have hopen := mt hfits.settled.mpr (by simp [hsettled])
        rw [not_or] at hopen
        have hreleased : k.released = false := by
          by_contra hne
          exact (hfits.released (by simpa using hne)).elim hopen.1 hopen.2
        rw [if_neg Bool.false_ne_true, hself]
        simp only [Bool.false_eq_true, if_false, put_put]
        refine h.put _ hk ⟨rfl, rfl, rfl, rfl⟩ rfl id Iff.rfl ⟨hfits.references, by simp, ?_,
          fun _ => .inr rfl, fun _ => ⟨hgranted, rfl⟩, by simp⟩
        intro hcancelled
        exact absurd hcancelled hopen.1

theorem Scope.of_concat (tickets : List Nat) (t : Nat) : Scope.of (tickets ++ [t]) =
    if (Scope.of tickets).active.isSome then
      { Scope.of tickets with waiters := (Scope.of tickets).waiters ++ [t] }
    else { Scope.of tickets with active := some t } := by
  cases tickets <;> simp [Scope.of]

/-- The scope of a caller is its line. -/
theorem Sound.scope? (h : Sound s) (key : π) (caller : String) :
    s.scope? key caller = if line s.tickets key caller = [] then none
      else some (Scope.of (line s.tickets key caller)) := by
  rw [scope?_eq]
  cases hplace : s.place key caller with
  | none =>
      rw [Option.bind_none, if_pos]
      refine List.eq_nil_iff_forall_not_mem.mpr fun t ht => ?_
      obtain ⟨k, hk, rfl, rfl, hlive⟩ := mem_line.mp ht
      have := (h.wired.held hk hlive).2
      rw [hplace] at this
      cases this
  | some c =>
      rw [Option.bind_some, if_neg (h.used key caller c hplace), h.wired.shape hplace]

/-- A new ticket at the end of the line. -/
theorem Sound.join (h : Sound s) {key : π} {caller : String} {scopes current : Nat}
    (hs : s' = (s.enter key caller).1) (hscopes : scopes = (s.enter key caller).2.1)
    (hcurrent : current = (s.enter key caller).2.2) (hlimit : s.retainedTickets < ticketLimit)
    (hshort : (line s.tickets key caller).length ≤ queueLimit) :
    Sound (s'.join key caller scopes current) := by
  obtain ⟨hwired, hused, hpool, hplace, htickets, hgrants, hretained⟩ :=
    enter_spec h.wired h.used key caller
  rw [← hs, ← hscopes, ← hcurrent] at *
  -- The ticket before its grant.
  generalize hticket : ({
    key, caller, scopes, current, references := 1, released := false, retains := []
    granted := false, settled := false, cancelled := false, delivered := false
    observed := false } : Ticket π) = k
  have hfits : k.Fits := by
    subst hticket
    exact ⟨by simp, fun _ => rfl, nofun, nofun, nofun, by simp⟩
  have hmine : k.key = key ∧ k.caller = caller := by
    subst hticket
    exact ⟨rfl, rfl⟩
  have hjoin : s'.join key caller scopes current =
      (if line s.tickets key caller = [] then ({ s' with
          retainedTickets := s.retainedTickets + 1
          tickets := s.tickets ++ [k]
          scopes := s'.scopes.set current (Scope.of (line s.tickets key caller ++ [s.tickets.length])) }
            : Gate π).grant s.tickets.length
        else { s' with
          retainedTickets := s.retainedTickets + 1
          tickets := s.tickets ++ [k]
          scopes := s'.scopes.set current
            (Scope.of (line s.tickets key caller ++ [s.tickets.length])) }) := by
    have hshape := hwired.shape hplace
    rw [htickets] at hshape
    unfold Gate.join
    simp only [hshape, htickets, hretained, hticket, Gate.setScope, Scope.of_concat]
    cases line s.tickets key caller <;> simp [Scope.of]
  have hline : ∀ key' caller', line (s.tickets ++ [k]) key' caller' = line s.tickets key' caller' ++
      if key' = key ∧ caller' = caller then [s.tickets.length] else [] := by
    intro key' caller'
    rw [line_concat, ← hticket]
    congr 2
    simp [eq_comm]
  generalize hmiddle : ({ s' with
      retainedTickets := s.retainedTickets + 1
      tickets := s.tickets ++ [k]
      scopes := s'.scopes.set current
        (Scope.of (line s.tickets key caller ++ [s.tickets.length])) } : Gate π) = middle at hjoin
  have hmiddle' : middle.tickets = s.tickets ++ [k] := by rw [← hmiddle]
  have hnew : middle.tickets[s.tickets.length]? = some k := by simp [hmiddle']
  have hordered : Ordered middle := h.ordered.concat hfits (by rw [← hticket]) hmiddle'
    (by rw [← hmiddle]; exact hgrants)
  have hwired' : Wired middle := by
    refine hwired.update hplace (by rw [← hmiddle]) (by rw [← hmiddle]) ?_ ?_ ?_
    · rw [hmiddle', hline, if_pos ⟨rfl, rfl⟩, ← hmiddle]
    · intro key' caller' hne
      rw [hmiddle', hline, if_neg hne, List.append_nil, htickets]
    · intro i x hx hlive
      rw [hmiddle', getElem?_concat] at hx
      rcases hx with hx | ⟨-, rfl⟩
      · exact hwired.held (htickets ▸ hx) hlive
      · rw [← hticket]
        exact ⟨hpool, hplace⟩
  have hused' : Used middle := by
    intro key' caller' c hc
    rw [hmiddle', hline]
    rw [place_congr (by rw [← hmiddle]) (by rw [← hmiddle])] at hc
    rcases hused key' caller' c hc with hline' | hsame
    · rw [htickets] at hline'
      simp [hline']
    · simp [hsame]
  have hcount : middle.retainedTickets = middle.tickets.countP (0 < ·.references) := by
    rw [hmiddle', List.countP_append, ← hmiddle]
    have hone : [k].countP (0 < ·.references) = 1 := by simp [← hticket]
    have := h.counted
    rw [hone]
    push_cast
    omega
  have hlimit' : middle.retainedTickets ≤ ticketLimit := by
    rw [← hmiddle]
    dsimp only
    omega
  have hshort' : ∀ key caller, (line middle.tickets key caller).length ≤ queueLimit + 1 := by
    intro key' caller'
    rw [hmiddle', hline, List.length_append]
    split
    · rename_i hsame
      rw [hsame.1, hsame.2]
      simpa using hshort
    · simpa using h.short key' caller'
  -- The tickets before the new one are as they were.
  have hheaded : ∀ {i : Nat} {x : Ticket π}, s.tickets[i]? = some x → 0 < x.references →
      (x.granted = true ↔ (line middle.tickets x.key x.caller).head? = some i) := by
    intro i x hx hlive
    have hmem : i ∈ line s.tickets x.key x.caller := mem_line.mpr ⟨x, hx, rfl, rfl, hlive⟩
    rw [hmiddle', hline, List.head?_append_of_ne_nil _ (List.ne_nil_of_mem hmem)]
    exact h.headed hx hlive
  rw [hjoin]
  split
  · rename_i hempty
    obtain ⟨hpools, hcallers, hscopes', hretained'⟩ := grant_heap (s := middle) s.tickets.length
    have hsame := line_grant (s := middle) s.tickets.length
    refine ⟨?_, ?_, hordered.grant hnew (.inr fun i hi => ?_), ?_, ?_, hretained' ▸ hlimit', ?_⟩
    · exact hwired'.same hpools hcallers hscopes' hsame fun hx hlive =>
        Follows.grant.held hwired' hx hlive
    · intro key' caller' c hc
      rw [hsame]
      rw [place_congr hpools hcallers] at hc
      exact hused' key' caller' c hc
    · rw [hmiddle', hline, if_pos hmine, hmine.1, hmine.2, hempty] at hi
      simpa using (List.mem_singleton.mp hi).ge
    · intro i x hx hlive
      rw [hsame]
      rw [grant_tickets hnew, hmiddle'] at hx
      rcases eq_or_ne s.tickets.length i with rfl | hne
      · have hx' : { k with granted := true } = x := by simpa using hx
        rw [← hx', hmiddle', hline]
        simp [← hticket, hempty]
      · rw [List.getElem?_set_ne hne, getElem?_concat] at hx
        exact hheaded (hx.resolve_right fun hlast => hne hlast.1.symm) hlive
    · rw [hretained', countP_grant]
      exact hcount
    · intro key' caller'
      rw [hsame]
      exact hshort' key' caller'
  · rename_i hbusy
    refine ⟨hwired', hused', hordered, ?_, hcount, hlimit', hshort'⟩
    intro i x hx hlive
    rw [hmiddle', getElem?_concat] at hx
    rcases hx with hx | ⟨rfl, rfl⟩
    · exact hheaded hx hlive
    · -- The new ticket waits behind the others.
      have hhead : (line middle.tickets k.key k.caller).head? ≠ some s.tickets.length := by
        rw [hmiddle', hline, if_pos hmine, hmine.1, hmine.2, List.head?_append_of_ne_nil _ hbusy]
        intro hhead
        obtain ⟨y, hy, -⟩ := mem_line.mp (List.mem_of_mem_head? hhead)
        have := (List.getElem?_eq_some_iff.mp hy).1
        omega
      rw [← hticket] at hhead ⊢
      simpa using hhead

theorem Sound.acquireMysqlCaller (h : Sound s) {key : π} {caller : String} {aborted expired : Bool}
    {t : Nat} (hs : s.acquireMysqlCaller key caller aborted expired = .ok (s', t)) : Sound s' := by
  unfold Gate.acquireMysqlCaller at hs
  split at hs
  · cases hs
  split at hs
  · cases hs
  split at hs
  · cases hs
  · rename_i hroom
    obtain ⟨rfl, -⟩ := Prod.mk.inj (Except.ok.inj hs)
    rw [not_or, Int.not_le, Nat.not_le, h.scope?] at hroom
    refine h.join rfl rfl rfl hroom.1 ?_
    have hwaiters := hroom.2
    split at hwaiters
    · simp [*]
    · cases hline : line s.tickets key caller with
      | nil => simp
      | cons a rest =>
          rw [hline] at hwaiters
          simp only [Option.elim_some, Scope.of] at hwaiters
          exact hwaiters

end Requests

/-! ## Runs -/

/-- A ticket that has its caller's turn. -/
def Ticket.Active (k : Ticket π) : Prop := k.granted = true ∧ 0 < k.references

def Ticket.Waits (k : Ticket π) : Prop := k.granted = false ∧ 0 < k.references

/-- What the gate is for. -/
structure Orderly [DecidableEq π] (s : Gate π) : Prop where
  oneActive : ∀ {i j : Nat} {k k' : Ticket π}, s.tickets[i]? = some k → s.tickets[j]? = some k' →
    k.Active → k'.Active → k.key = k'.key → k.caller = k'.caller → i = j
  /-- The grants of one caller, less the cancelled ones, are in the order of the requests. -/
  fifo : ∀ key caller, (s.grants.filter (Standing s key caller)).Pairwise (· < ·)
  logged : ∀ t, t ∈ s.grants ↔ ∃ k, s.tickets[t]? = some k ∧ k.granted = true
  noneSkipped : ∀ {i j : Nat} {k k' : Ticket π}, s.tickets[i]? = some k → s.tickets[j]? = some k' →
    i < j → k'.key = k.key → k'.caller = k.caller → k'.granted = true → k'.cancelled = false →
    k.granted = true ∨ k.cancelled = true
  awake : ∀ {i : Nat} {k : Ticket π}, s.tickets[i]? = some k → k.Waits →
    ∃ (j : Nat) (k' : Ticket π), s.tickets[j]? = some k' ∧ k'.Active ∧ k'.key = k.key
      ∧ k'.caller = k.caller
  counted : s.retainedTickets = s.tickets.countP (0 < ·.references)
  limit : s.retainedTickets ≤ 1024
  /-- A scope holds the active ticket of its caller and at most 32 that wait. -/
  contents : ∀ {key caller scope}, s.scope? key caller = some scope →
    (∀ t, scope.active = some t ↔
      ∃ k, s.tickets[t]? = some k ∧ k.Active ∧ k.key = key ∧ k.caller = caller)
    ∧ (∀ t, t ∈ scope.waiters ↔
      ∃ k, s.tickets[t]? = some k ∧ k.Waits ∧ k.key = key ∧ k.caller = caller)
    ∧ scope.waiters.Pairwise (· < ·) ∧ scope.waiters.length ≤ 32
  scopes : ∀ key caller, (s.scope? key caller).isSome ↔
    ∃ (t : Nat) (k : Ticket π), s.tickets[t]? = some k ∧ k.key = key ∧ k.caller = caller
      ∧ 0 < k.references
  pools : ∀ key, key ∈ s.pools ↔
    ∃ (t : Nat) (k : Ticket π), s.tickets[t]? = some k ∧ k.key = key ∧ 0 < k.references

section Runs

variable [DecidableEq π] {s s' : Gate π} {t i : Nat} {k : Ticket π}

theorem Sound.initial : Sound (Gate.initial : Gate π) where
  wired := ⟨nofun, nofun, nofun, nofun, nofun, nofun⟩
  used := nofun
  ordered := ⟨nofun, nofun, by simp [Gate.initial], by simp [Gate.initial]⟩
  headed := nofun
  counted := rfl
  limit := show (0 : Int) ≤ 1024 by decide
  short := by simp [Gate.initial, line]

theorem Sound.step (h : Sound s) {e : Event π} (he : step s e = some s') : Sound s' := by
  have hticket : ∀ {t : Nat} {p : Ticket π → Bool} {s₁ : Gate π},
      (if s.tickets[t]?.any p then some s₁ else none) = some s' →
      ∃ k, s.tickets[t]? = some k ∧ p k = true ∧ s₁ = s' := by
    intro t p s₁ hs
    split at hs
    · rename_i hany
      obtain ⟨k, hk, hp⟩ := (Option.any_eq_true ..).mp hany
      exact ⟨k, hk, hp, Option.some.inj hs⟩
    · cases hs
  cases e with
  | acquire key caller aborted expired =>
      unfold CallerGate.step at he
      cases hs : s.acquireMysqlCaller key caller aborted expired with
      | error e =>
          simp only [hs, Option.some.injEq] at he
          exact he ▸ h
      | ok r =>
          simp only [hs, Option.some.injEq] at he
          exact he ▸ h.acquireMysqlCaller hs
  | stop t =>
      obtain ⟨k, hk, hsettled, rfl⟩ := hticket he
      exact (h.stop hk (by simpa using hsettled)).1
  | observe t expired =>
      obtain ⟨k, hk, hready, rfl⟩ := hticket he
      simp only [Bool.and_eq_true, Bool.not_eq_true'] at hready
      exact h.observe hk hready.1 hready.2 expired
  | release t =>
      obtain ⟨k, hk, hdelivered, rfl⟩ := hticket he
      exact h.release hk (.inl hdelivered)
  | retain t =>
      obtain ⟨k, hk, hdelivered, rfl⟩ := hticket he
      exact h.retain hk hdelivered
  | unretain t i =>
      obtain ⟨k, hk, -, rfl⟩ := hticket he
      exact h.unretain hk

theorem Sound.orderly (h : Sound s) : Orderly s := by
  have hactive : ∀ {t : Nat} {k : Ticket π}, s.tickets[t]? = some k → k.Active →
      (line s.tickets k.key k.caller).head? = some t := fun hk hactive =>
    (h.headed hk hactive.2).mp hactive.1
  -- The first of a line that is not empty.
  have hfirst : ∀ {key caller a rest}, line s.tickets key caller = a :: rest →
      ∃ k, s.tickets[a]? = some k ∧ k.Active ∧ k.key = key ∧ k.caller = caller := by
    intro key caller a rest hline
    obtain ⟨k, hk, rfl, rfl, hlive⟩ := mem_line.mp (hline ▸ List.mem_cons_self ..)
    exact ⟨k, hk, ⟨(h.headed hk hlive).mpr (by rw [hline, List.head?_cons]), hlive⟩, rfl, rfl⟩
  refine ⟨?_, h.ordered.sorted, h.ordered.logged, h.ordered.order, ?_, h.counted, h.limit, ?_, ?_, ?_⟩
  · intro i j k k' hk hk' hactive' hactive'' hkey hcaller
    have hi := hactive hk hactive'
    rw [hkey, hcaller, hactive hk' hactive''] at hi
    exact (Option.some.inj hi).symm
  · intro i k hk hwaits
    have hmem : i ∈ line s.tickets k.key k.caller := mem_line.mpr ⟨k, hk, rfl, rfl, hwaits.2⟩
    cases hline : line s.tickets k.key k.caller with
    | nil =>
        rw [hline] at hmem
        cases hmem
    | cons a rest =>
        obtain ⟨k', hk', hfirst'⟩ := hfirst hline
        exact ⟨a, k', hk', hfirst'⟩
  · intro key caller scope hscope
    rw [h.scope?] at hscope
    split at hscope
    · cases hscope
    obtain rfl := Option.some.inj hscope
    have hlength := h.short key caller
    have hpairs := line_pairwise s.tickets key caller
    cases hline : line s.tickets key caller with
    | nil => contradiction
    | cons a rest =>
        rw [hline] at hlength hpairs
        rw [List.pairwise_cons] at hpairs
        refine ⟨fun t => ?_, fun t => ?_, hpairs.2, Nat.le_of_succ_le_succ hlength⟩
        · constructor
          · intro ht
            obtain rfl : a = t := Option.some.inj ht
            exact hfirst hline
          · rintro ⟨k, hk, hk', rfl, rfl⟩
            have := hactive hk hk'
            rwa [hline, List.head?_cons] at this
        · constructor
          · intro ht
            obtain ⟨k, hk, rfl, rfl, hlive⟩ := mem_line.mp (hline ▸ List.mem_cons_of_mem a ht)
            refine ⟨k, hk, ⟨?_, hlive⟩, rfl, rfl⟩
            rw [← Bool.not_eq_true, h.headed hk hlive, hline, List.head?_cons]
            intro heq
            have := hpairs.1 t ht
            have := Option.some.inj heq
            omega
          · rintro ⟨k, hk, hwaits, rfl, rfl⟩
            have hmem : t ∈ line s.tickets k.key k.caller := mem_line.mpr ⟨k, hk, rfl, rfl, hwaits.2⟩
            rw [hline] at hmem
            refine (List.mem_cons.mp hmem).resolve_left ?_
            rintro rfl
            have := (h.headed hk hwaits.2).mpr (by rw [hline, List.head?_cons])
            rw [hwaits.1] at this
            cases this
  · intro key caller
    have hmem : (∃ t, t ∈ line s.tickets key caller) ↔ line s.tickets key caller ≠ [] :=
      ⟨fun h => List.ne_nil_of_mem h.choose_spec, List.exists_mem_of_ne_nil _⟩
    simp only [mem_line] at hmem
    rw [h.scope?, hmem]
    split <;> simp_all
  · intro key
    rw [← AList.lookup_isSome, Option.isSome_iff_exists]
    constructor
    · rintro ⟨r, hr⟩
      obtain ⟨caller, c, hc⟩ := h.wired.inhabited hr
      obtain ⟨t, ht⟩ := List.exists_mem_of_ne_nil _ (h.used key caller c hc)
      obtain ⟨k, hk, hkey, -, hlive⟩ := mem_line.mp ht
      exact ⟨t, k, hk, hkey, hlive⟩
    · rintro ⟨t, k, hk, rfl, hlive⟩
      exact ⟨k.scopes, (h.wired.held hk hlive).1⟩

/-! ### Calls that change nothing -/

/-- The flags of a ticket survive what other tickets do. -/
theorem drop_keeps (hk : s.tickets[t]? = some k) : ∃ k', (s.drop i).tickets[t]? = some k'
    ∧ k'.released = k.released ∧ k'.retains = k.retains := by
  have hput : ∀ {s : Gate π} {x y : Ticket π} {k : Ticket π}, s.tickets[i]? = some x →
      y.released = x.released → y.retains = x.retains → s.tickets[t]? = some k →
      ∃ k', (s.put i y).tickets[t]? = some k' ∧ k'.released = k.released
        ∧ k'.retains = k.retains := by
    intro s x y k hx hreleased hretains hk
    rcases eq_or_ne i t with rfl | hne
    · obtain rfl := Option.some.inj (hk.symm.trans hx)
      exact ⟨y, put_self _ hk, hreleased, hretains⟩
    · exact ⟨k, (List.getElem?_set_ne hne).trans hk, rfl, rfl⟩
  have hgrant : ∀ {s : Gate π} {n : Nat} {k : Ticket π}, s.tickets[t]? = some k →
      ∃ k', (s.grant n).tickets[t]? = some k' ∧ k'.released = k.released
        ∧ k'.retains = k.retains := by
    intro s n k hk
    cases hn : s.tickets[n]? with
    | none =>
        unfold Gate.grant
        rw [hn]
        exact ⟨k, hk, rfl, rfl⟩
    | some x =>
        rw [grant_tickets hn]
        rcases eq_or_ne n t with rfl | hne
        · obtain rfl := Option.some.inj (hk.symm.trans hn)
          exact ⟨_, put_self _ hk, rfl, rfl⟩
        · exact ⟨k, (List.getElem?_set_ne hne).trans hk, rfl, rfl⟩
  have hleave : ∀ {s : Gate π} {c : Nat} {k : Ticket π}, s.tickets[t]? = some k →
      ∃ k', (s.leave i c).tickets[t]? = some k' ∧ k'.released = k.released
        ∧ k'.retains = k.retains := by
    intro s c k hk
    unfold Gate.leave
    split
    · exact ⟨k, hk, rfl, rfl⟩
    · split
      · split
        · exact ⟨k, hk, rfl, rfl⟩
        · exact hgrant hk
      · exact ⟨k, hk, rfl, rfl⟩
  unfold Gate.drop
  cases hi : s.tickets[i]? with
  | none => exact ⟨k, hk, rfl, rfl⟩
  | some x =>
      dsimp only
      obtain ⟨k', hk', hsame⟩ := hput (y := { x with references := x.references - 1 }) hi rfl rfl hk
      split
      · exact ⟨k', hk', hsame⟩
      · rw [(sweep_tickets ..).1]
        obtain ⟨k'', hk'', hreleased, hretains⟩ := hleave (s := { s.put i
          { x with references := x.references - 1 } with
          retainedTickets := s.retainedTickets - 1 }) (c := x.current) hk'
        exact ⟨k'', hk'', hreleased.trans hsame.1, hretains.trans hsame.2⟩

theorem release_twice (s : Gate π) (t : Nat) : (s.release t).release t = s.release t := by
  cases hk : s.tickets[t]? with
  | none =>
      have hnone : s.release t = s := by
        unfold Gate.release
        rw [hk]
      rw [hnone, hnone]
  | some k =>
      by_cases hreleased : k.released = true
      · rw [release_released hk hreleased, release_released hk hreleased]
      · have hdrop : s.release t = (s.put t { k with released := true }).drop t := by
          unfold Gate.release
          rw [hk]
          exact if_neg hreleased
        obtain ⟨k', hk', hreleased', -⟩ := drop_keeps (i := t) (put_self { k with released := true } hk)
        rw [hdrop, release_released hk' hreleased']

theorem unretain_twice (s : Gate π) (t i : Nat) :
    (s.unretain t i).unretain t i = s.unretain t i := by
  have hdone : ∀ {s : Gate π} {k : Ticket π}, s.tickets[t]? = some k → k.retains[i]? ≠ some false →
      s.unretain t i = s := by
    intro s k hk hne
    unfold Gate.unretain
    rw [hk]
    exact if_neg hne
  cases hk : s.tickets[t]? with
  | none =>
      have hnone : s.unretain t i = s := by
        unfold Gate.unretain
        rw [hk]
      rw [hnone, hnone]
  | some k =>
      by_cases hretain : k.retains[i]? = some false
      · have hdrop : s.unretain t i =
            (s.put t { k with retains := k.retains.set i true }).drop t := by
          unfold Gate.unretain
          rw [hk]
          exact if_pos hretain
        obtain ⟨k', hk', -, hretains⟩ := drop_keeps (i := t) (put_self
          { k with retains := k.retains.set i true } hk)
        rw [hdrop, hdone hk']
        rw [hretains, List.getElem?_set_self (List.getElem?_eq_some_iff.mp hretain).1]
        simp
      · rw [hdone hk hretain, hdone hk hretain]

/-- In every state of every run the gate is orderly; releasing a permit or a retained reference again,
or a permit whose request was cancelled, changes nothing. -/
theorem caller_gate (h : Reaches step Gate.initial s) : Orderly s
    ∧ (∀ t, (s.release t).release t = s.release t)
    ∧ (∀ t i, (s.unretain t i).unretain t i = s.unretain t i)
    ∧ ∀ (t : Nat) (k : Ticket π), s.tickets[t]? = some k → k.cancelled = true → s.release t = s := by
  have hsound : Sound s := h.invariant Sound.initial fun _ _ _ hs he => hs.step he
  refine ⟨hsound.orderly, release_twice s, unretain_twice s, ?_⟩
  intro t k hk hcancelled
  exact release_released hk ((hsound.ordered.fits hk).cancelled hcancelled).1

/-- The second of three requests is cancelled while it waits, and the first is released while a
connection still retains it: the third is granted when that reference goes. -/
def sampleRun : List (Event Nat) :=
  [.acquire 0 "acme" false false, .observe 0 false, .acquire 0 "acme" false false,
    .acquire 0 "acme" false false, .retain 0, .release 0, .stop 1, .unretain 0 0, .observe 2 false]

theorem caller_gate_sample : ∃ s, Reaches step (Gate.initial : Gate Nat) s ∧ Orderly s
    ∧ s.grants = [0, 1, 2] ∧ s.retainedTickets = 1 := by
  have hrun : ((sampleRun.foldlM step Gate.initial).map fun s => (s.grants, s.retainedTickets))
      = some ([0, 1, 2], 1) := by decide +kernel
  obtain ⟨s, hs, hfields⟩ := Option.map_eq_some_iff.mp hrun
  have hreach := Reaches.of_foldlM hs
  exact ⟨s, hreach, (caller_gate hreach).1, (Prod.mk.inj hfields).1, (Prod.mk.inj hfields).2⟩

end Runs

end GhcpConsole.Pool.CallerGate
