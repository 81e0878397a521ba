import GhcpConsole.Pool.CallerGateState

/-!
# Steps of the caller gate

What is done with a permit keeps the state `Sound`: a ticket changes in place, or it leaves its line
and hands over to the next.
-/

namespace GhcpConsole.Pool.CallerGate

variable {π : Type}

/-! ## Tickets in place -/

/-- A ticket with references had them before, and was the same caller's at the same place. -/
def Follows (tickets tickets' : List (Ticket π)) : Prop :=
  ∀ (i : Nat) (x : Ticket π), tickets'[i]? = some x → 0 < x.references →
    ∃ y, tickets[i]? = some y ∧ 0 < y.references ∧ x.key = y.key ∧ x.caller = y.caller
      ∧ x.scopes = y.scopes ∧ x.current = y.current

/-- The two tickets are of one caller and captured one scope. -/
structure SamePlace (k k' : Ticket π) : Prop where
  key : k'.key = k.key
  caller : k'.caller = k.caller
  scopes : k'.scopes = k.scopes
  current : k'.current = k.current

section InPlace

variable {s s' : Gate π} {t : Nat} {k k' : Ticket π}

theorem Follows.set {tickets : List (Ticket π)} (hk : tickets[t]? = some k)
    (hsame : SamePlace k k') (hlive : 0 < k'.references → 0 < k.references) :
    Follows tickets (tickets.set t k') := by
  intro i x hx hxlive
  rcases eq_or_ne t i with rfl | hne
  · have hlt := (List.getElem?_eq_some_iff.mp hk).1
    rw [List.getElem?_set_self hlt] at hx
    obtain rfl := Option.some.inj hx
    exact ⟨k, hk, hlive hxlive, hsame.key, hsame.caller, hsame.scopes, hsame.current⟩
  · rw [List.getElem?_set_ne hne] at hx
    exact ⟨x, hx, hxlive, rfl, rfl, rfl, rfl⟩

theorem grant_heap (n : Nat) : (s.grant n).pools = s.pools ∧ (s.grant n).callers = s.callers
    ∧ (s.grant n).scopes = s.scopes ∧ (s.grant n).retainedTickets = s.retainedTickets := by
  unfold Gate.grant
  split
  · exact ⟨rfl, rfl, rfl, rfl⟩
  · split <;> exact ⟨rfl, rfl, rfl, rfl⟩

theorem Follows.grant {n : Nat} : Follows s.tickets (s.grant n).tickets := by
  cases hn : s.tickets[n]? with
  | none =>
      unfold Gate.grant
      rw [hn]
      exact fun i x hx hlive => ⟨x, hx, hlive, rfl, rfl, rfl, rfl⟩
  | some k =>
      rw [grant_tickets hn]
      exact Follows.set hn ⟨rfl, rfl, rfl, rfl⟩ id

theorem countP_set {p : Ticket π → Bool} {tickets : List (Ticket π)} (k' : Ticket π)
    (hk : tickets[t]? = some k) :
    (tickets.set t k').countP p + (if p k then 1 else 0)
      = tickets.countP p + if p k' then 1 else 0 := by
  rw [List.set_eq_modify]
  exact countP_modify hk

theorem countP_grant (n : Nat) : (s.grant n).tickets.countP (0 < ·.references)
    = s.tickets.countP (0 < ·.references) := by
  cases hn : s.tickets[n]? with
  | none =>
      unfold Gate.grant
      rw [hn]
  | some k =>
      rw [grant_tickets hn]
      have := countP_set (p := (0 < ·.references)) { k with granted := true } hn
      dsimp only at this
      omega

/-! ## Sound states -/

variable [DecidableEq π]

theorem Follows.held (h : Follows s.tickets s'.tickets) (hwired : Wired s) {i : Nat}
    {x : Ticket π} (hx : s'.tickets[i]? = some x) (hlive : 0 < x.references) :
    s.pools.lookup x.key = some x.scopes ∧ s.place x.key x.caller = some x.current := by
  obtain ⟨y, hy, hylive, hkey, hcaller, hscopes, hcurrent⟩ := h i x hx hlive
  rw [hkey, hcaller, hscopes, hcurrent]
  exact hwired.held hy hylive

theorem line_grant (n : Nat) (key : π) (caller : String) :
    line (s.grant n).tickets key caller = line s.tickets key caller := by
  cases hn : s.tickets[n]? with
  | none =>
      unfold Gate.grant
      rw [hn]
  | some k =>
      rw [grant_tickets hn]
      exact line_set_same hn rfl rfl Iff.rfl

structure Sound (s : Gate π) : Prop where
  wired : Wired s
  used : Used s
  ordered : Ordered s
  headed : Headed s
  counted : s.retainedTickets = s.tickets.countP (0 < ·.references)
  limit : s.retainedTickets ≤ ticketLimit
  short : ∀ key caller, (line s.tickets key caller).length ≤ queueLimit + 1

/-- A ticket changes without getting or losing its place. -/
theorem Sound.put (h : Sound s) (k' : Ticket π) (hk : s.tickets[t]? = some k) (hsame : SamePlace k k')
    (hgranted : k'.granted = k.granted) (hcancelled : k.cancelled = true → k'.cancelled = true)
    (hlive : 0 < k'.references ↔ 0 < k.references) (hfits : k'.Fits) : Sound (s.put t k') := by
  have hlines : ∀ key caller,
      line (s.put t k').tickets key caller = line s.tickets key caller := fun key caller =>
    line_set_same hk hsame.key hsame.caller hlive
  have hfollows : Follows s.tickets (s.put t k').tickets := Follows.set hk hsame hlive.mp
  refine ⟨?_, ?_, ?_, ?_, ?_, h.limit, ?_⟩
  · exact h.wired.same rfl rfl rfl hlines fun hx hxlive => hfollows.held h.wired hx hxlive
  · intro key caller c hc
    rw [hlines]
    exact h.used key caller c hc
  · exact h.ordered.set hk hsame.key hsame.caller hgranted hcancelled hfits rfl rfl
  · intro i x hx hxlive
    rw [hlines]
    rcases eq_or_ne t i with rfl | hne
    · have hlt := (List.getElem?_eq_some_iff.mp hk).1
      obtain rfl := Option.some.inj ((List.getElem?_set_self hlt).symm.trans hx)
      rw [hgranted, hsame.key, hsame.caller]
      exact h.headed hk (hlive.mp hxlive)
    · exact h.headed ((List.getElem?_set_ne hne).symm.trans hx) hxlive
  · have hcount := countP_set (p := (0 < ·.references)) k' hk
    have hcounted := h.counted
    simp only [decide_eq_true_eq, hlive] at hcount
    show s.retainedTickets = ((s.tickets.set t k').countP _ : Int)
    omega
  · intro key caller
    rw [hlines]
    exact h.short key caller

end InPlace

/-! ## Leaving -/

/-- Who is next when a ticket leaves a line. -/
def successor (tickets : List Nat) (t : Nat) : Option Nat :=
  if tickets.head? = some t then tickets.tail.head? else none

theorem leave_eq {s : Gate π} {c t : Nat} {tickets : List Nat}
    (hscope : s.scopes[c]? = some (Scope.of tickets)) (ht : t ∈ tickets) :
    s.leave t c = { (successor tickets t).elim s s.grant with
      scopes := s.scopes.set c (Scope.of (tickets.erase t)) } := by
  have hgrant : ∀ (scope : Scope) (n : Nat),
      (s.setScope c scope).grant n = { s.grant n with scopes := s.scopes.set c scope } := by
    intro scope n
    unfold Gate.grant Gate.setScope
    cases s.tickets[n]? with
    | none => rfl
    | some k =>
        dsimp only
        split <;> rfl
  unfold Gate.leave successor
  rw [hscope]
  match tickets, ht with
  | [a], ht =>
      obtain rfl := List.mem_singleton.mp ht
      simp [Scope.of, Gate.setScope]
  | a :: b :: rest, ht =>
      rcases eq_or_ne a t with rfl | hne
      · simp [Scope.of, hgrant]
      · have hrest : (a :: b :: rest).erase t = a :: (b :: rest).erase t :=
          List.erase_cons_tail (by simpa using hne)
        simp [Scope.of, hne, hrest, Gate.setScope]

theorem head?_erase (tickets : List Nat) (t : Nat) : (tickets.erase t).head? =
    if tickets.head? = some t then successor tickets t else tickets.head? := by
  unfold successor
  cases tickets with
  | nil => simp
  | cons a rest =>
      rcases eq_or_ne a t with rfl | hne
      · simp
      · rw [List.erase_cons_tail (by simpa using hne)]
        simp [hne]

section Leave

variable [DecidableEq π] {s s' : Gate π} {t : Nat} {k k' : Ticket π}

theorem Ordered.congr (h : Ordered s) (htickets : s'.tickets = s.tickets)
    (hgrants : s'.grants = s.grants) : Ordered s' := by
  obtain ⟨pools, callers, scopes, tickets, retainedTickets, grants⟩ := s'
  dsimp only at htickets hgrants
  subst htickets hgrants
  exact ⟨h.fits, h.order, h.logged, h.sorted⟩

/-- The state after a ticket has left and before its scope is looked at. -/
theorem Sound.left (h : Sound s) (hk : s.tickets[t]? = some k) (hlive : 0 < k.references)
    (hsame : SamePlace k k') (hgranted : k'.granted = k.granted)
    (hcancelled : k.cancelled = true → k'.cancelled = true) (hfits : k'.Fits)
    (hdead : k'.references = 0) (htickets : s'.tickets = s.tickets.set t k')
    (hpools : s'.pools = s.pools) (hcallers : s'.callers = s.callers)
    (hscopes : s'.scopes = s.scopes) (hgrants : s'.grants = s.grants)
    (hretained : s'.retainedTickets = s.retainedTickets - 1) :
    Wired (s'.leave t k.current) ∧ UsedBut (s'.leave t k.current) k.key k.caller
    ∧ Ordered (s'.leave t k.current) ∧ Headed (s'.leave t k.current)
    ∧ (s'.leave t k.current).retainedTickets
      = (s'.leave t k.current).tickets.countP (0 < ·.references)
    ∧ (s'.leave t k.current).retainedTickets = s.retainedTickets - 1
    ∧ (∀ key caller, line (s'.leave t k.current).tickets key caller
      = (line s.tickets key caller).erase t)
    ∧ (s'.leave t k.current).pools = s.pools ∧ (s'.leave t k.current).callers = s.callers
    ∧ (s'.leave t k.current).tickets[t]? = some k' := by
  obtain ⟨hpool, hplace⟩ := h.wired.held hk hlive
  have hlt := (List.getElem?_eq_some_iff.mp hk).1
  have hmem : t ∈ line s.tickets k.key k.caller := mem_line.mpr ⟨k, hk, rfl, rfl, hlive⟩
  have hnodup := line_nodup s.tickets k.key k.caller
  have hleave := leave_eq (s := s') (hscopes ▸ h.wired.shape hplace) hmem
  have hlines' : ∀ key caller, line s'.tickets key caller = (line s.tickets key caller).erase t := by
    intro key caller
    rw [htickets]
    exact line_set_dead hk hdead
  have hself : s'.tickets[t]? = some k' := by rw [htickets, List.getElem?_set_self hlt]
  have hother : ∀ {i : Nat}, t ≠ i → s'.tickets[i]? = s.tickets[i]? := fun hne => by
    rw [htickets, List.getElem?_set_ne hne]
  -- The next in line, if the ticket was the first of it.
  have hnext : ∀ n, successor (line s.tickets k.key k.caller) t = some n → n ≠ t ∧
      (∃ kn, s.tickets[n]? = some kn ∧ kn.key = k.key ∧ kn.caller = k.caller)
      ∧ ∀ i ∈ (line s.tickets k.key k.caller).erase t, n ≤ i := by
    intro n hn
    have hhead := head?_erase (line s.tickets k.key k.caller) t
    have hfirst : (line s.tickets k.key k.caller).head? = some t := by
      unfold successor at hn
      by_contra hne
      rw [if_neg hne] at hn
      cases hn
    rw [if_pos hfirst, hn] at hhead
    obtain ⟨rest, hrest⟩ := List.head?_eq_some_iff.mp hhead
    have hmem' : n ∈ (line s.tickets k.key k.caller).erase t := by simp [hrest]
    obtain ⟨hne, hmem'⟩ := hnodup.mem_erase_iff.mp hmem'
    obtain ⟨kn, hkn, hkey, hcaller, -⟩ := mem_line.mp hmem'
    refine ⟨hne, ⟨kn, hkn, hkey, hcaller⟩, ?_⟩
    have hpairs := (line_pairwise s.tickets k.key k.caller).sublist (List.erase_sublist (a := t))
    rw [hrest, List.pairwise_cons] at hpairs
    intro i hi
    rw [hrest] at hi
    rcases List.mem_cons.mp hi with rfl | hi
    · exact Nat.le_refl _
    · exact (hpairs.1 i hi).le
  have hordered := h.ordered.set hk hsame.key hsame.caller hgranted hcancelled hfits htickets hgrants
  generalize hnext? : successor (line s.tickets k.key k.caller) t = next? at hleave hnext
  -- What each ticket is afterwards.
  have hafter : ∀ {i : Nat}, i ≠ t → ∀ {x : Ticket π}, (s'.leave t k.current).tickets[i]? = some x →
      ∃ y, s.tickets[i]? = some y ∧ SamePlace y x ∧ x.references = y.references
        ∧ (x.granted = true ↔ y.granted = true ∨ next? = some i) := by
    intro i hne x hx
    rw [hleave] at hx
    cases next? with
    | none => exact ⟨x, (hother hne.symm).symm.trans hx, ⟨rfl, rfl, rfl, rfl⟩, rfl, by simp⟩
    | some n =>
        obtain ⟨hnt, ⟨kn, hkn, -⟩, -⟩ := hnext n rfl
        have hkn' := (hother hnt.symm).trans hkn
        have hgrant := grant_tickets hkn'
        simp only [Option.elim_some, hgrant] at hx
        rcases eq_or_ne n i with rfl | hni
        · have hlt' := (List.getElem?_eq_some_iff.mp hkn').1
          obtain rfl := Option.some.inj ((List.getElem?_set_self hlt').symm.trans hx)
          exact ⟨kn, hkn, ⟨rfl, rfl, rfl, rfl⟩, rfl, by simp⟩
        · rw [List.getElem?_set_ne hni, hother hne.symm] at hx
          exact ⟨x, hx, ⟨rfl, rfl, rfl, rfl⟩, rfl, by simp [hni]⟩
  have hself' : (s'.leave t k.current).tickets[t]? = some k' := by
    rw [hleave]
    cases next? with
    | none => exact hself
    | some n =>
        obtain ⟨hnt, ⟨kn, hkn, -⟩, -⟩ := hnext n rfl
        simp only [Option.elim_some, grant_tickets ((hother hnt.symm).trans hkn)]
        rw [List.getElem?_set_ne hnt, hself]
  have hfollows : Follows s.tickets (s'.leave t k.current).tickets := by
    intro i x hx hxlive
    rcases eq_or_ne i t with rfl | hne
    · obtain rfl := Option.some.inj (hself'.symm.trans hx)
      omega
    · obtain ⟨y, hy, hplaces, hrefs, -⟩ := hafter hne hx
      exact ⟨y, hy, hrefs ▸ hxlive, hplaces.key, hplaces.caller, hplaces.scopes, hplaces.current⟩
  have hheap : (s'.leave t k.current).pools = s.pools ∧ (s'.leave t k.current).callers = s.callers
      ∧ (s'.leave t k.current).retainedTickets = s.retainedTickets - 1 := by
    rw [hleave]
    cases next? with
    | none => exact ⟨hpools, hcallers, hretained⟩
    | some n =>
        obtain ⟨hpools', hcallers', -, hretained'⟩ := grant_heap (s := s') n
        exact ⟨hpools'.trans hpools, hcallers'.trans hcallers, hretained'.trans hretained⟩
  have hlines : ∀ key caller, line (s'.leave t k.current).tickets key caller
      = (line s.tickets key caller).erase t := by
    intro key caller
    rw [← hlines', hleave]
    cases next? with
    | none => rfl
    | some n => exact line_grant n key caller
  have hapart : ∀ key caller, ¬(key = k.key ∧ caller = k.caller) →
      line (s'.leave t k.current).tickets key caller = line s.tickets key caller := by
    intro key caller hne
    rw [hlines]
    refine List.erase_of_not_mem fun hmem' => ?_
    obtain ⟨y, hy, hkey, hcaller, -⟩ := mem_line.mp hmem'
    obtain rfl := Option.some.inj (hk.symm.trans hy)
    exact hne ⟨hkey.symm, hcaller.symm⟩
  refine ⟨?_, ?_, ?_, ?_, ?_, hheap.2.2, hlines, hheap.1, hheap.2.1, hself'⟩
  · refine h.wired.update hplace hheap.1 hheap.2.1 ?_ hapart fun hx hxlive =>
      hfollows.held h.wired hx hxlive
    rw [hlines, hleave, hscopes]
  · refine UsedBut.congr (s := s) (fun key caller c hc => .inl (h.used key caller c hc)) hheap.1
      hheap.2.1 hapart
  · rw [hleave]
    cases next? with
    | none => exact hordered.congr rfl rfl
    | some n =>
        obtain ⟨hnt, ⟨kn, hkn, hkey, hcaller⟩, hfirst⟩ := hnext n rfl
        have hkn' := (hother hnt.symm).trans hkn
        refine (hordered.grant hkn' (.inr fun i hi => ?_)).congr rfl rfl
        rw [hkey, hcaller, hlines'] at hi
        exact hfirst i hi
  · intro i x hx hxlive
    rcases eq_or_ne i t with rfl | hne
    · obtain rfl := Option.some.inj (hself'.symm.trans hx)
      omega
    obtain ⟨y, hy, hplaces, hrefs, hxgranted⟩ := hafter hne hx
    have hhead := h.headed hy (hrefs ▸ hxlive)
    rw [hxgranted, hplaces.key, hplaces.caller]
    by_cases hmine : y.key = k.key ∧ y.caller = k.caller
    · rw [hlines, hmine.1, hmine.2, head?_erase, hnext?]
      rw [hmine.1, hmine.2] at hhead
      rw [hhead]
      split
      · rename_i hfirst
        rw [hfirst]
        simp [Ne.symm hne]
      · rename_i hfirst
        have hnone : next? = none := by rw [← hnext?, successor, if_neg hfirst]
        simp [hnone]
    · rw [hapart y.key y.caller hmine, ← hhead]
      refine or_iff_left fun hn => hmine ?_
      obtain ⟨-, ⟨kn, hkn, hkey, hcaller⟩, -⟩ := hnext i hn
      obtain rfl := Option.some.inj (hy.symm.trans hkn)
      exact ⟨hkey, hcaller⟩
  · rw [hheap.2.2, h.counted]
    have hcount := countP_set (p := (0 < ·.references)) k' hk
    have hafter' : (s'.leave t k.current).tickets.countP (0 < ·.references)
        = (s.tickets.set t k').countP (0 < ·.references) := by
      rw [hleave, ← htickets]
      cases next? with
      | none => rfl
      | some n => exact countP_grant n
    rw [hafter']
    simp only [decide_eq_true_eq, hlive, hdead, if_true, Int.lt_irrefl, if_false] at hcount
    omega

/-- A ticket loses its last reference. -/
theorem Sound.gone (h : Sound s) (s' : Gate π) (hk : s.tickets[t]? = some k) (hlive : 0 < k.references)
    (hsame : SamePlace k k') (hgranted : k'.granted = k.granted)
    (hcancelled : k.cancelled = true → k'.cancelled = true) (hfits : k'.Fits)
    (hdead : k'.references = 0) (htickets : s'.tickets = s.tickets.set t k')
    (hpools : s'.pools = s.pools) (hcallers : s'.callers = s.callers)
    (hscopes : s'.scopes = s.scopes) (hgrants : s'.grants = s.grants)
    (hretained : s'.retainedTickets = s.retainedTickets - 1) :
    Sound ((s'.leave t k'.current).sweep k')
    ∧ ((s'.leave t k'.current).sweep k').tickets[t]? = some k' := by
  obtain ⟨hpool, hplace⟩ := h.wired.held hk hlive
  obtain ⟨hwired, hused, hordered, hheaded, hcounted, hless, hlines, hpools', hcallers', hself⟩ :=
    h.left hk hlive hsame hgranted hcancelled hfits hdead htickets hpools hcallers hscopes hgrants
      hretained
  rw [← hsame.current] at *
  obtain ⟨htickets', hgrants', hretained'⟩ := sweep_tickets (s'.leave t k'.current) k'
  have hplace' : (s'.leave t k'.current).place k'.key k'.caller = some k'.current := by
    rw [place_congr hpools' hcallers', hsame.key, hsame.caller]
    exact hplace
  obtain ⟨hwired', hused'⟩ := hwired.sweep
    (by rw [hpools', hsame.key, hsame.scopes]; exact hpool) hplace'
    (by rw [hsame.key, hsame.caller]; exact hused)
  refine ⟨⟨hwired', hused', hordered.congr htickets' hgrants', ?_, ?_, ?_, ?_⟩, ?_⟩
  · intro i x hx hxlive
    rw [htickets'] at hx ⊢
    exact hheaded hx hxlive
  · rw [hretained', htickets']
    exact hcounted
  · rw [hretained', hless]
    have := h.limit
    omega
  · intro key caller
    rw [htickets', hlines]
    exact (List.erase_sublist.length_le).trans (h.short key caller)
  · rw [htickets', hself]

end Leave

/-! ## The permit -/

section Permit

variable {s s' : Gate π} {t i : Nat} {k k' : Ticket π}

theorem put_put (s : Gate π) (t : Nat) (k k' : Ticket π) : (s.put t k).put t k' = s.put t k' := by
  unfold Gate.put
  rw [List.set_set]

theorem put_self (k' : Ticket π) (hk : s.tickets[t]? = some k) : (s.put t k').tickets[t]? = some k' :=
  List.getElem?_set_self (List.getElem?_eq_some_iff.mp hk).1

variable [DecidableEq π]

/-- A reference of a changed ticket is dropped; `k'` is the ticket without it. -/
theorem Sound.drop (h : Sound s) (k' : Ticket π) (hk : s.tickets[t]? = some k) (hlive : 0 < k.references)
    (hsame : SamePlace k k') (hgranted : k'.granted = k.granted)
    (hcancelled : k.cancelled = true → k'.cancelled = true) (hfits : k'.Fits)
    (hreferences : 0 ≤ k'.references) :
    Sound ((s.put t { k' with references := k'.references + 1 }).drop t)
    ∧ (k'.references = 0 →
      ((s.put t { k' with references := k'.references + 1 }).drop t).tickets[t]? = some k') := by
  unfold Gate.drop
  rw [put_self _ hk]
  simp only [put_put, Int.add_sub_cancel]
  by_cases hzero : k'.references = 0
  · rw [if_neg (not_not.mpr hzero)]
    obtain ⟨hsound, hself⟩ := h.gone { s.put t k' with
        retainedTickets := (s.put t k').retainedTickets - 1 } hk hlive hsame hgranted hcancelled
      hfits hzero rfl rfl rfl rfl rfl rfl
    exact ⟨hsound, fun _ => hself⟩
  · rw [if_pos hzero]
    exact ⟨h.put _ hk hsame hgranted hcancelled ⟨fun _ => hlive, fun _ => show 0 < k'.references by omega⟩ hfits,
      fun hzero' => absurd hzero' hzero⟩

theorem Sound.release (h : Sound s) (hk : s.tickets[t]? = some k)
    (hheld : k.delivered = true ∨ k.released = true) : Sound (s.release t) := by
  unfold Gate.release
  rw [hk]
  dsimp only
  split
  · exact h
  · rename_i hreleased
    have hfits := h.ordered.fits hk
    have hreferences := hfits.unreleased (by simpa using hreleased)
    have hdelivered : k.delivered = true := hheld.resolve_right hreleased
    have huncancelled : k.cancelled = false := by
      by_contra hne
      exact hreleased (hfits.cancelled (by simpa using hne)).1
    have hdrop := (h.drop { k with released := true, references := k.retains.count false } hk
      (by omega) ⟨rfl, rfl, rfl, rfl⟩ rfl id ?_ (by simp)).1
    · simpa only [← hreferences] using hdrop
    · exact ⟨by simp, hfits.retains, by simp [huncancelled], fun _ => .inr hdelivered,
        hfits.delivered, hfits.settled⟩

/-- Releasing again changes nothing. -/
theorem release_released (hk : s.tickets[t]? = some k) (hreleased : k.released = true) :
    s.release t = s := by
  unfold Gate.release
  rw [hk]
  exact if_pos hreleased

theorem Sound.retain (h : Sound s) (hk : s.tickets[t]? = some k) (hdelivered : k.delivered = true) :
    Sound ((s.retain t).elim s (·.1)) := by
  unfold Gate.retain
  rw [hk]
  dsimp only
  split
  · exact h
  · rename_i hreleased
    have hfits := h.ordered.fits hk
    have hreferences := hfits.unreleased (by simpa using hreleased)
    refine h.put _ hk ⟨rfl, rfl, rfl, rfl⟩ rfl id ?_ ⟨?_, ?_, hfits.cancelled, hfits.released,
      hfits.delivered, hfits.settled⟩
    · dsimp only
      omega
    · simp only [hreferences, List.count_append, hreleased]
      simp [Int.add_comm]
    · simp [hdelivered]

theorem Sound.unretain (h : Sound s) (hk : s.tickets[t]? = some k) : Sound (s.unretain t i) := by
  unfold Gate.unretain
  rw [hk]
  dsimp only
  split
  · rename_i hretain
    have hfits := h.ordered.fits hk
    have hcount : (k.retains.set i true).count false + 1 = k.retains.count false := by
      have := countP_modify (p := (· == false)) (f := fun _ => true) hretain
      rw [← List.set_eq_modify] at this
      simpa [List.count] using this
    have hreferences := hfits.references
    have hdrop := (h.drop { k with
        retains := k.retains.set i true, references := k.references - 1 } hk ?_ ⟨rfl, rfl, rfl, rfl⟩
      rfl id ?_ ?_).1
    · simpa only [Int.sub_add_cancel] using hdrop
    · split at hreferences <;> omega
    · refine ⟨?_, fun hdelivered => ?_, hfits.cancelled, hfits.released, hfits.delivered,
        hfits.settled⟩
      · dsimp only
        split at hreferences <;> simp_all <;> omega
      · rw [hfits.retains hdelivered] at hretain
        cases hretain
    · dsimp only
      split at hreferences <;> omega
  · exact h

end Permit

end GhcpConsole.Pool.CallerGate
