import GhcpConsole.Lib.Numbered
import GhcpConsole.Pool.CallerGate

/-!
# The state of the caller gate

The scope of a caller is determined by the tickets: it holds those of the caller that have references,
in the order of their numbers, and the first of them is active. `Wired` says so of the heap, `Headed`
and `Ordered` of the grants; in the middle of an operation one scope may be empty (`UsedBut`).
-/

namespace GhcpConsole.Pool.CallerGate

/-- The scope that holds these tickets. -/
def Scope.of : List Nat → Scope
  | [] => { active := none, waiters := [] }
  | a :: waiters => { active := some a, waiters }

/-- What the fields of a ticket say of each other. -/
structure Ticket.Fits {π : Type} (k : Ticket π) : Prop where
  references : k.references = (if k.released then 0 else 1) + k.retains.count false
  retains : k.delivered = false → k.retains = []
  cancelled : k.cancelled = true → k.released = true ∧ k.delivered = false
  released : k.released = true → k.cancelled = true ∨ k.delivered = true
  delivered : k.delivered = true → k.granted = true ∧ k.observed = true
  settled : k.settled = true ↔ k.cancelled = true ∨ k.delivered = true

namespace Ticket.Fits

variable {π : Type} {k : Ticket π}

/-- A ticket that was neither granted nor cancelled has its reference. -/
theorem live (h : k.Fits) (hgranted : k.granted = false) (hcancelled : k.cancelled = false) :
    0 < k.references := by
  have hdelivered : k.delivered = false := by
    by_contra hne
    have := (h.delivered (by simpa using hne)).1
    simp [hgranted] at this
  have hreleased : k.released = false := by
    by_contra hne
    have := h.released (by simpa using hne)
    simp [hcancelled, hdelivered] at this
  rw [h.references, h.retains hdelivered, hreleased]
  simp

theorem dead (h : k.Fits) (hcancelled : k.cancelled = true) : k.references = 0 := by
  obtain ⟨hreleased, hdelivered⟩ := h.cancelled hcancelled
  rw [h.references, h.retains hdelivered, hreleased]
  simp

theorem unreleased (h : k.Fits) (hreleased : k.released = false) :
    k.references = k.retains.count false + 1 := by
  rw [h.references, hreleased]
  simp [Int.add_comm]

end Ticket.Fits

section Grant

variable {π : Type} {s : Gate π} {t : Nat} {k : Ticket π}

theorem grant_tickets (hk : s.tickets[t]? = some k) :
    (s.grant t).tickets = s.tickets.set t { k with granted := true } := by
  unfold Gate.grant
  rw [hk]
  dsimp only
  split
  · rename_i hgranted
    have hsame : { k with granted := true } = k := by
      obtain ⟨⟩ := k
      simp_all
    obtain ⟨hlt, heq⟩ := List.getElem?_eq_some_iff.mp hk
    rw [hsame, ← heq, List.set_getElem_self]
  · rfl

theorem grant_grants (hk : s.tickets[t]? = some k) :
    (s.grant t).grants = if k.granted then s.grants else s.grants ++ [t] := by
  unfold Gate.grant
  rw [hk]
  dsimp only
  split <;> rfl

end Grant

variable {π : Type} [DecidableEq π]

/-! ## The line of a caller -/

/-- The tickets of a caller that have references. -/
def line (tickets : List (Ticket π)) (key : π) (caller : String) : List Nat :=
  (List.range tickets.length).filter fun t =>
    tickets[t]?.any fun k => k.key = key ∧ k.caller = caller ∧ 0 < k.references

section Line

variable {tickets : List (Ticket π)} {key : π} {caller : String} {t : Nat} {k k' : Ticket π}

theorem mem_line : t ∈ line tickets key caller ↔
    ∃ k, tickets[t]? = some k ∧ k.key = key ∧ k.caller = caller ∧ 0 < k.references := by
  rw [line, List.mem_filter, List.mem_range, Option.any_eq_true]
  simp only [decide_eq_true_eq]
  refine ⟨And.right, fun h => ⟨?_, h⟩⟩
  obtain ⟨k, hk, -⟩ := h
  exact (List.getElem?_eq_some_iff.mp hk).1

theorem line_pairwise (tickets : List (Ticket π)) (key : π) (caller : String) :
    (line tickets key caller).Pairwise (· < ·) :=
  List.pairwise_lt_range.sublist List.filter_sublist

theorem line_nodup (tickets : List (Ticket π)) (key : π) (caller : String) :
    (line tickets key caller).Nodup :=
  (line_pairwise tickets key caller).imp Nat.ne_of_lt

theorem line_congr {tickets' : List (Ticket π)}
    (hlength : tickets'.length = tickets.length)
    (hlive : ∀ t, t ∈ line tickets' key caller ↔ t ∈ line tickets key caller) :
    line tickets' key caller = line tickets key caller := by
  unfold line at *
  rw [hlength] at *
  refine List.filter_congr fun t ht => ?_
  have := hlive t
  simp only [List.mem_filter, ht, true_and] at this
  exact Bool.eq_iff_iff.mpr this

/-- A change that does not touch whose the ticket is and whether it has references. -/
theorem line_set_same (hk : tickets[t]? = some k) (hkey : k'.key = k.key)
    (hcaller : k'.caller = k.caller) (hlive : 0 < k'.references ↔ 0 < k.references) :
    line (tickets.set t k') key caller = line tickets key caller := by
  refine line_congr List.length_set fun i => ?_
  rw [mem_line, mem_line]
  rcases eq_or_ne t i with rfl | hne
  · have hlt := (List.getElem?_eq_some_iff.mp hk).1
    simp [List.getElem?_set_self hlt, hk, hkey, hcaller, hlive]
  · rw [List.getElem?_set_ne hne]

/-- A ticket that loses its last reference leaves the line. -/
theorem line_set_dead (hk : tickets[t]? = some k) (hdead : k'.references = 0) :
    line (tickets.set t k') key caller = (line tickets key caller).erase t := by
  rw [(line_nodup tickets key caller).erase_eq_filter, line, line, List.length_set,
    List.filter_filter]
  refine List.filter_congr fun i _ => ?_
  rcases eq_or_ne t i with rfl | hne
  · have hlt := (List.getElem?_eq_some_iff.mp hk).1
    simp [List.getElem?_set_self hlt, hdead]
  · simp [List.getElem?_set_ne hne, hne.symm]

theorem line_concat (k : Ticket π) (key : π) (caller : String) :
    line (tickets ++ [k]) key caller = line tickets key caller ++
      if k.key = key ∧ k.caller = caller ∧ 0 < k.references then [tickets.length] else [] := by
  have hold : (List.range tickets.length).filter (fun t => (tickets ++ [k])[t]?.any fun k =>
      k.key = key ∧ k.caller = caller ∧ 0 < k.references) = line tickets key caller := by
    refine List.filter_congr fun i hi => ?_
    rw [List.getElem?_append_left (List.mem_range.mp hi)]
  rw [line, List.length_append, List.length_singleton, List.range_succ, List.filter_append, hold]
  congr 1
  split <;> simp_all

end Line

/-! ## The order of the grants -/

/-- The tickets of a caller that were not cancelled. -/
def Standing (s : Gate π) (key : π) (caller : String) (t : Nat) : Bool :=
  s.tickets[t]?.any fun k => k.key = key ∧ k.caller = caller ∧ k.cancelled = false

structure Ordered (s : Gate π) : Prop where
  fits : ∀ {t : Nat} {k : Ticket π}, s.tickets[t]? = some k → k.Fits
  /-- Nobody is granted before an earlier request of the same caller. -/
  order : ∀ {i j : Nat} {k k' : Ticket π}, s.tickets[i]? = some k → s.tickets[j]? = some k' → i < j →
    k'.key = k.key → k'.caller = k.caller → k'.granted = true → k'.cancelled = false →
    k.granted = true ∨ k.cancelled = true
  logged : ∀ t, t ∈ s.grants ↔ ∃ k, s.tickets[t]? = some k ∧ k.granted = true
  sorted : ∀ key caller, (s.grants.filter (Standing s key caller)).Pairwise (· < ·)

/-- Of the tickets with references the first of each line is granted. -/
def Headed (s : Gate π) : Prop :=
  ∀ {t : Nat} {k : Ticket π}, s.tickets[t]? = some k → 0 < k.references →
    (k.granted = true ↔ (line s.tickets k.key k.caller).head? = some t)

section Ordered

variable {s s' : Gate π} {t : Nat} {k k' : Ticket π} {key : π} {caller : String}

theorem standing_iff : Standing s key caller t = true ↔
    ∃ k, s.tickets[t]? = some k ∧ k.key = key ∧ k.caller = caller ∧ k.cancelled = false := by
  rw [Standing, Option.any_eq_true]
  simp

/-- A change that keeps whose the ticket is and whether it is granted, and cancels it at most. -/
theorem Ordered.set (h : Ordered s) (hk : s.tickets[t]? = some k) (hkey : k'.key = k.key)
    (hcaller : k'.caller = k.caller) (hgranted : k'.granted = k.granted)
    (hcancelled : k.cancelled = true → k'.cancelled = true) (hfits : k'.Fits)
    (htickets : s'.tickets = s.tickets.set t k') (hgrants : s'.grants = s.grants) : Ordered s' := by
  have hlt := (List.getElem?_eq_some_iff.mp hk).1
  have hself : s'.tickets[t]? = some k' := by rw [htickets, List.getElem?_set_self hlt]
  have hother : ∀ {i : Nat}, t ≠ i → s'.tickets[i]? = s.tickets[i]? := fun hne => by
    rw [htickets, List.getElem?_set_ne hne]
  -- What a ticket was before the change.
  have hback : ∀ {i : Nat} {x : Ticket π}, s'.tickets[i]? = some x → ∃ y, s.tickets[i]? = some y ∧ x.key = y.key
      ∧ x.caller = y.caller ∧ x.granted = y.granted
      ∧ (y.cancelled = true → x.cancelled = true) := by
    intro i x hx
    rcases eq_or_ne t i with rfl | hne
    · obtain rfl := Option.some.inj (hself.symm.trans hx)
      exact ⟨k, hk, hkey, hcaller, hgranted, hcancelled⟩
    · exact ⟨x, (hother hne).symm.trans hx, rfl, rfl, rfl, id⟩
  refine ⟨?_, ?_, ?_, ?_⟩
  · intro i x hx
    rcases eq_or_ne t i with rfl | hne
    · obtain rfl := Option.some.inj (hself.symm.trans hx)
      exact hfits
    · exact h.fits ((hother hne).symm.trans hx)
  · intro i j x x' hx hx' hij hkeys hcallers hgranted' huncancelled
    obtain ⟨y, hy, hykey, hycaller, hygranted, hycancelled⟩ := hback hx
    obtain ⟨y', hy', hykey', hycaller', hygranted', hycancelled'⟩ := hback hx'
    have huncancelled' : y'.cancelled = false := by
      by_contra hne
      rw [hycancelled' (by simpa using hne)] at huncancelled
      cases huncancelled
    have := h.order hy hy' hij (by rw [← hykey', ← hykey, hkeys])
      (by rw [← hycaller', ← hycaller, hcallers]) (hygranted' ▸ hgranted') huncancelled'
    rw [hygranted]
    exact this.imp_right hycancelled
  · intro i
    rw [hgrants, h.logged]
    constructor
    · rintro ⟨y, hy, hygranted⟩
      rcases eq_or_ne t i with rfl | hne
      · obtain rfl := Option.some.inj (hk.symm.trans hy)
        exact ⟨k', hself, hgranted.trans hygranted⟩
      · exact ⟨y, (hother hne).trans hy, hygranted⟩
    · rintro ⟨x, hx, hxgranted⟩
      obtain ⟨y, hy, -, -, hygranted, -⟩ := hback hx
      exact ⟨y, hy, hygranted ▸ hxgranted⟩
  · intro key caller
    rw [hgrants]
    refine (h.sorted key caller).sublist (List.monotone_filter_right _ fun i hi => ?_)
    obtain ⟨x, hx, hxkey, hxcaller, hxcancelled⟩ := standing_iff.mp hi
    obtain ⟨y, hy, hykey, hycaller, -, hycancelled⟩ := hback hx
    refine standing_iff.mpr ⟨y, hy, hykey ▸ hxkey, hycaller ▸ hxcaller, ?_⟩
    by_contra hne
    rw [hycancelled (by simpa using hne)] at hxcancelled
    cases hxcancelled

/-- A grant to the first of a line, or to a ticket that was cancelled. -/
theorem Ordered.grant (h : Ordered s) (hk : s.tickets[t]? = some k)
    (hturn : k.cancelled = true ∨ ∀ i ∈ line s.tickets k.key k.caller, t ≤ i) :
    Ordered (s.grant t) := by
  have hlt := (List.getElem?_eq_some_iff.mp hk).1
  have htickets := grant_tickets hk
  have hself : (s.grant t).tickets[t]? = some { k with granted := true } := by
    rw [htickets, List.getElem?_set_self hlt]
  have hother : ∀ {i : Nat}, t ≠ i → (s.grant t).tickets[i]? = s.tickets[i]? := fun hne => by
    rw [htickets, List.getElem?_set_ne hne]
  have hstanding : ∀ key caller, Standing (s.grant t) key caller = Standing s key caller := by
    intro key caller
    funext i
    unfold Standing
    rcases eq_or_ne t i with rfl | hne
    · rw [hself, hk]
      rfl
    · rw [hother hne]
  -- A standing ticket after one that waits is not granted.
  have hturn' : ∀ {i : Nat} {x : Ticket π}, s.tickets[i]? = some x → x.key = k.key →
      x.caller = k.caller → x.granted = false → x.cancelled = false → k.cancelled = false →
      t ≤ i := by
    intro i x hx hkey hcaller hgranted hcancelled hstands
    have hlive := (h.fits hx).live hgranted hcancelled
    rcases hturn with hdead | hfirst
    · rw [hstands] at hdead
      cases hdead
    · exact hfirst i (mem_line.mpr ⟨x, hx, hkey, hcaller, hlive⟩)
  refine ⟨?_, ?_, ?_, ?_⟩
  · intro i x hx
    rcases eq_or_ne t i with rfl | hne
    · obtain rfl := Option.some.inj (hself.symm.trans hx)
      have hfits := h.fits hk
      exact ⟨hfits.references, hfits.retains, hfits.cancelled, hfits.released,
        fun hdelivered => ⟨rfl, (hfits.delivered hdelivered).2⟩, hfits.settled⟩
    · exact h.fits ((hother hne).symm.trans hx)
  · intro i j x x' hx hx' hij hkeys hcallers hgranted huncancelled
    rcases eq_or_ne t i with rfl | hne
    · obtain rfl := Option.some.inj (hself.symm.trans hx)
      exact .inl rfl
    rw [hother hne] at hx
    rcases eq_or_ne t j with rfl | hne'
    · obtain rfl := Option.some.inj (hself.symm.trans hx')
      by_contra hwaits
      rw [not_or, Bool.not_eq_true, Bool.not_eq_true] at hwaits
      have := hturn' hx hkeys.symm hcallers.symm hwaits.1 hwaits.2 huncancelled
      omega
    · rw [hother hne'] at hx'
      exact h.order hx hx' hij hkeys hcallers hgranted huncancelled
  · intro i
    rw [grant_grants hk]
    have hmem : (i ∈ if k.granted then s.grants else s.grants ++ [t]) ↔ i ∈ s.grants ∨ i = t := by
      split
      · rename_i hgranted
        refine ⟨.inl, fun hi => hi.elim id ?_⟩
        rintro rfl
        exact (h.logged _).mpr ⟨k, hk, hgranted⟩
      · simp
    rw [hmem, h.logged]
    constructor
    · rintro (⟨x, hx, hgranted⟩ | rfl)
      · rcases eq_or_ne t i with rfl | hne
        · exact ⟨_, hself, rfl⟩
        · exact ⟨x, (hother hne).trans hx, hgranted⟩
      · exact ⟨_, hself, rfl⟩
    · rintro ⟨x, hx, hgranted⟩
      rcases eq_or_ne t i with rfl | hne
      · exact .inr rfl
      · exact .inl ⟨x, (hother hne).symm.trans hx, hgranted⟩
  · intro key caller
    rw [hstanding, grant_grants hk]
    split
    · exact h.sorted key caller
    · rename_i hungranted
      rw [List.filter_append, List.pairwise_append]
      refine ⟨h.sorted key caller, (List.pairwise_singleton ..).sublist List.filter_sublist, ?_⟩
      intro i hi j hj
      obtain ⟨hj, hstands⟩ := List.mem_filter.mp hj
      obtain rfl := List.mem_singleton.mp hj
      obtain ⟨hlogged, hstands'⟩ := List.mem_filter.mp hi
      obtain ⟨y, hy, hykey, hycaller, hycancelled⟩ := standing_iff.mp hstands'
      obtain ⟨k', hk', hkey, hcaller, hcancelled⟩ := standing_iff.mp hstands
      obtain rfl := Option.some.inj (hk.symm.trans hk')
      obtain ⟨y', hy', hygranted⟩ := (h.logged i).mp hlogged
      obtain rfl := Option.some.inj (hy.symm.trans hy')
      rcases Nat.lt_trichotomy i j with hlt | rfl | hgt
      · exact hlt
      · obtain rfl := Option.some.inj (hk.symm.trans hy)
        exact absurd hygranted hungranted
      · rcases h.order hk hy hgt (hykey.trans hkey.symm) (hycaller.trans hcaller.symm) hygranted
          hycancelled with hgranted | hdead
        · exact absurd hgranted hungranted
        · rw [hcancelled] at hdead
          cases hdead

/-- A new ticket. -/
theorem Ordered.concat (h : Ordered s) (hfits : k.Fits) (hgranted : k.granted = false)
    (htickets : s'.tickets = s.tickets ++ [k]) (hgrants : s'.grants = s.grants) : Ordered s' := by
  have hold : ∀ {i : Nat} {x : Ticket π}, s'.tickets[i]? = some x →
      s.tickets[i]? = some x ∨ i = s.tickets.length ∧ k = x := fun hx => by
    rwa [htickets, getElem?_concat] at hx
  have hnew : ∀ {i : Nat} {x : Ticket π}, s.tickets[i]? = some x → s'.tickets[i]? = some x :=
    fun hx => by
      rw [htickets, getElem?_concat]
      exact .inl hx
  refine ⟨?_, ?_, ?_, ?_⟩
  · intro i x hx
    rcases hold hx with hx | ⟨-, rfl⟩
    · exact h.fits hx
    · exact hfits
  · intro i j x x' hx hx' hij hkeys hcallers hgranted' huncancelled
    rcases hold hx' with hx' | ⟨-, rfl⟩
    · have hlt := (List.getElem?_eq_some_iff.mp hx').1
      rcases hold hx with hx | ⟨rfl, -⟩
      · exact h.order hx hx' hij hkeys hcallers hgranted' huncancelled
      · omega
    · rw [hgranted] at hgranted'
      cases hgranted'
  · intro i
    rw [hgrants, h.logged]
    constructor
    · rintro ⟨x, hx, hxgranted⟩
      exact ⟨x, hnew hx, hxgranted⟩
    · rintro ⟨x, hx, hxgranted⟩
      rcases hold hx with hx | ⟨-, rfl⟩
      · exact ⟨x, hx, hxgranted⟩
      · rw [hgranted] at hxgranted
        cases hxgranted
  · intro key caller
    rw [hgrants]
    refine (congrArg (List.Pairwise (· < ·)) (List.filter_congr fun i hi => ?_)).mpr
      (h.sorted key caller)
    obtain ⟨x, hx, -⟩ := (h.logged i).mp hi
    unfold Standing
    rw [hnew hx, hx]

end Ordered

/-! ## The heap -/

/-- The name of the scope of a caller. -/
def Gate.place (s : Gate π) (key : π) (caller : String) : Option Nat :=
  (s.pools.lookup key).bind fun scopes => s.callers[scopes]?.bind (·.lookup caller)

theorem scope?_eq (s : Gate π) (key : π) (caller : String) :
    s.scope? key caller = (s.place key caller).bind (s.scopes[·]?) := by
  unfold Gate.scope? Gate.place
  simp only [Option.bind_eq_bind, Option.bind_assoc]

structure Wired (s : Gate π) : Prop where
  map : ∀ {key r}, s.pools.lookup key = some r → r < s.callers.length
  mapOne : ∀ {key key' r}, s.pools.lookup key = some r → s.pools.lookup key' = some r → key = key'
  scopeOne : ∀ {key key' caller caller' c}, s.place key caller = some c →
    s.place key' caller' = some c → key = key' ∧ caller = caller'
  inhabited : ∀ {key r}, s.pools.lookup key = some r → ∃ caller c, s.place key caller = some c
  shape : ∀ {key caller c}, s.place key caller = some c →
    s.scopes[c]? = some (Scope.of (line s.tickets key caller))
  /-- What the closures of a ticket captured is what is there now. -/
  held : ∀ {t : Nat} {k : Ticket π}, s.tickets[t]? = some k → 0 < k.references →
    s.pools.lookup k.key = some k.scopes ∧ s.place k.key k.caller = some k.current

/-- Every scope but that of one caller has a ticket. -/
def UsedBut (s : Gate π) (key : π) (caller : String) : Prop :=
  ∀ key' caller' c, s.place key' caller' = some c →
    line s.tickets key' caller' ≠ [] ∨ key' = key ∧ caller' = caller

def Used (s : Gate π) : Prop := ∀ key caller c, s.place key caller = some c →
  line s.tickets key caller ≠ []

section Heap

variable {s s' : Gate π} {t r c : Nat} {k : Ticket π} {key : π} {caller : String}

theorem place_congr (hpools : s'.pools = s.pools) (hcallers : s'.callers = s.callers) (key : π)
    (caller : String) : s'.place key caller = s.place key caller := by
  unfold Gate.place
  rw [hpools, hcallers]

/-- A change of the tickets of one caller together with its scope. -/
theorem Wired.update (h : Wired s) (hplace : s.place key caller = some c)
    (hpools : s'.pools = s.pools) (hcallers : s'.callers = s.callers)
    (hscopes : s'.scopes = s.scopes.set c (Scope.of (line s'.tickets key caller)))
    (hlines : ∀ key' caller', ¬(key' = key ∧ caller' = caller) →
      line s'.tickets key' caller' = line s.tickets key' caller')
    (hheld : ∀ {t : Nat} {k : Ticket π}, s'.tickets[t]? = some k → 0 < k.references →
      s.pools.lookup k.key = some k.scopes ∧ s.place k.key k.caller = some k.current) :
    Wired s' := by
  have hplaces := place_congr hpools hcallers
  refine ⟨?_, ?_, ?_, ?_, ?_, ?_⟩
  · rw [hpools, hcallers]
    exact h.map
  · rw [hpools]
    exact h.mapOne
  · intro key' key'' caller' caller'' c' hc' hc''
    rw [hplaces] at hc' hc''
    exact h.scopeOne hc' hc''
  · intro key' r' hr'
    obtain ⟨caller', c', hc'⟩ := h.inhabited (hpools ▸ hr')
    exact ⟨caller', c', (hplaces key' caller').trans hc'⟩
  · intro key' caller' c' hc'
    rw [hplaces] at hc'
    rw [hscopes]
    by_cases hsame : key' = key ∧ caller' = caller
    · obtain ⟨rfl, rfl⟩ := hsame
      obtain rfl := Option.some.inj (hplace.symm.trans hc')
      exact List.getElem?_set_self (List.getElem?_eq_some_iff.mp (h.shape hplace)).1
    · have hne : c ≠ c' := by
        rintro rfl
        exact hsame (h.scopeOne hc' hplace)
      rw [List.getElem?_set_ne hne, hlines key' caller' hsame]
      exact h.shape hc'
  · intro t k hk hlive
    rw [hpools, hplaces]
    exact hheld hk hlive

/-- A change of the tickets that no line sees. -/
theorem Wired.same (h : Wired s) (hpools : s'.pools = s.pools) (hcallers : s'.callers = s.callers)
    (hscopes : s'.scopes = s.scopes)
    (hlines : ∀ key caller, line s'.tickets key caller = line s.tickets key caller)
    (hheld : ∀ {t : Nat} {k : Ticket π}, s'.tickets[t]? = some k → 0 < k.references →
      s.pools.lookup k.key = some k.scopes ∧ s.place k.key k.caller = some k.current) :
    Wired s' := by
  have hplaces := place_congr hpools hcallers
  refine ⟨?_, ?_, ?_, ?_, ?_, ?_⟩
  · rw [hpools, hcallers]
    exact h.map
  · rw [hpools]
    exact h.mapOne
  · intro key' key'' caller' caller'' c' hc' hc''
    rw [hplaces] at hc' hc''
    exact h.scopeOne hc' hc''
  · intro key' r' hr'
    obtain ⟨caller', c', hc'⟩ := h.inhabited (hpools ▸ hr')
    exact ⟨caller', c', (hplaces key' caller').trans hc'⟩
  · intro key' caller' c' hc'
    rw [hplaces] at hc'
    rw [hscopes, hlines]
    exact h.shape hc'
  · intro t k hk hlive
    rw [hpools, hplaces]
    exact hheld hk hlive

theorem UsedBut.congr (h : UsedBut s key caller) (hpools : s'.pools = s.pools)
    (hcallers : s'.callers = s.callers)
    (hlines : ∀ key' caller', ¬(key' = key ∧ caller' = caller) →
      line s'.tickets key' caller' = line s.tickets key' caller') : UsedBut s' key caller := by
  intro key' caller' c' hc'
  rw [place_congr hpools hcallers] at hc'
  by_cases hsame : key' = key ∧ caller' = caller
  · exact .inr hsame
  · rw [hlines key' caller' hsame]
    exact h key' caller' c' hc'

/-! ### Deleting a scope -/

/-- Deleting the empty scope of a caller: its place is gone, every other is where it was. -/
theorem Wired.erase (h : Wired s) (hpool : s.pools.lookup key = some r)
    (hplace : s.place key caller = some c) (hempty : line s.tickets key caller = [])
    (hused : UsedBut s key caller) {scopes : AList fun _ : String => Nat}
    (hscopes : s.callers[r]? = some scopes)
    (hcallers : s'.callers = s.callers.set r (scopes.erase caller))
    (hpools : s'.pools = if (scopes.erase caller).keys = [] then s.pools.erase key else s.pools)
    (hheap : s'.scopes = s.scopes) (htickets : s'.tickets = s.tickets) : Wired s' ∧ Used s' := by
  have hlookup : ∀ caller', s.place key caller' = scopes.lookup caller' := fun caller' => by
    rw [Gate.place, hpool, Option.bind_some, hscopes, Option.bind_some]
  have hgone : (scopes.erase caller).keys = [] → ∀ caller', caller' ≠ caller →
      s.place key caller' = none := by
    intro hkeys caller' hne
    rw [hlookup, ← AList.lookup_erase_ne hne, AList.lookup_eq_none, AList.mem_keys, hkeys]
    simp
  have hpools' : ∀ {key' r'}, s'.pools.lookup key' = some r' → s.pools.lookup key' = some r' := by
    intro key' r' hr'
    rw [hpools] at hr'
    split at hr'
    · rcases eq_or_ne key' key with rfl | hne
      · rw [AList.lookup_erase] at hr'
        cases hr'
      · rwa [AList.lookup_erase_ne hne] at hr'
    · exact hr'
  have hplaces : ∀ key' caller', s'.place key' caller' =
      if key' = key ∧ caller' = caller then none else s.place key' caller' := by
    intro key' caller'
    rcases eq_or_ne key' key with rfl | hne
    · have hr := h.map hpool
      have hset : (s.callers.set r (scopes.erase caller))[r]? = some (scopes.erase caller) :=
        List.getElem?_set_self hr
      unfold Gate.place at *
      rw [hpools, hcallers]
      rcases eq_or_ne caller' caller with rfl | hne
      · rw [if_pos (show key' = key' ∧ caller' = caller' from ⟨rfl, rfl⟩)]
        split
        · rw [AList.lookup_erase, Option.bind_none]
        · rw [hpool, Option.bind_some, hset, Option.bind_some, AList.lookup_erase]
      · rw [if_neg (show ¬(key' = key' ∧ caller' = caller) from fun hsame => hne hsame.2)]
        split
        · rename_i hkeys
          rw [AList.lookup_erase, Option.bind_none, hgone hkeys caller' hne]
        · rw [hpool, Option.bind_some, hset, Option.bind_some, AList.lookup_erase_ne hne,
            Option.bind_some, hscopes, Option.bind_some]
    · have hsame : s'.pools.lookup key' = s.pools.lookup key' := by
        rw [hpools]
        split
        · exact AList.lookup_erase_ne hne
        · rfl
      rw [if_neg fun hsame => hne hsame.1, Gate.place, Gate.place, hsame, hcallers]
      cases hr' : s.pools.lookup key' with
      | none => rfl
      | some r' =>
          have hmap : r ≠ r' := by
            rintro rfl
            exact hne (h.mapOne hr' hpool)
          rw [Option.bind_some, Option.bind_some, List.getElem?_set_ne hmap]
  have hback : ∀ {key' caller' c'}, s'.place key' caller' = some c' →
      s.place key' caller' = some c' ∧ ¬(key' = key ∧ caller' = caller) := by
    intro key' caller' c' hc'
    rw [hplaces] at hc'
    split at hc'
    · cases hc'
    · exact ⟨hc', ‹_›⟩
  refine ⟨⟨?_, ?_, ?_, ?_, ?_, ?_⟩, ?_⟩
  · intro key' r' hr'
    rw [hcallers, List.length_set]
    exact h.map (hpools' hr')
  · intro key' key'' r' hr' hr''
    exact h.mapOne (hpools' hr') (hpools' hr'')
  · intro key' key'' caller' caller'' c' hc' hc''
    exact h.scopeOne (hback hc').1 (hback hc'').1
  · intro key' r' hr'
    rcases eq_or_ne key' key with rfl | hne
    · -- The map still has an entry, so it was kept.
      rw [hpools] at hr'
      split at hr'
      · rw [AList.lookup_erase] at hr'
        cases hr'
      · rename_i hkeys
        obtain ⟨caller', hmem⟩ := List.exists_mem_of_ne_nil _ hkeys
        obtain ⟨hne, hmem⟩ := AList.mem_erase.mp (AList.mem_keys.mpr hmem)
        obtain ⟨c', hc'⟩ := Option.isSome_iff_exists.mp (AList.lookup_isSome.mpr hmem)
        refine ⟨caller', c', ?_⟩
        rw [hplaces, if_neg fun hsame => hne hsame.2, hlookup, hc']
    · obtain ⟨caller', c', hc'⟩ := h.inhabited (hpools' hr')
      refine ⟨caller', c', ?_⟩
      rw [hplaces, if_neg fun hsame => hne hsame.1, hc']
  · intro key' caller' c' hc'
    rw [hheap, htickets]
    exact h.shape (hback hc').1
  · intro t k hk hlive
    rw [htickets] at hk
    obtain ⟨hr', hc'⟩ := h.held hk hlive
    have hother : ¬(k.key = key ∧ k.caller = caller) := by
      rintro ⟨rfl, rfl⟩
      have hmem := mem_line.mpr ⟨k, hk, rfl, rfl, hlive⟩
      rw [hempty] at hmem
      cases hmem
    refine ⟨?_, by rw [hplaces, if_neg hother, hc']⟩
    rw [hpools]
    split
    · rename_i hkeys
      have hne : k.key ≠ key := by
        rintro rfl
        have hnone := hgone hkeys k.caller fun heq => hother ⟨rfl, heq⟩
        rw [hc'] at hnone
        cases hnone
      rw [AList.lookup_erase_ne hne, hr']
    · exact hr'
  · intro key' caller' c' hc'
    obtain ⟨hc', hother⟩ := hback hc'
    rw [htickets]
    exact (hused key' caller' c' hc').resolve_right hother

theorem sweep_tickets (s : Gate π) (k : Ticket π) :
    (s.sweep k).tickets = s.tickets ∧ (s.sweep k).grants = s.grants
      ∧ (s.sweep k).retainedTickets = s.retainedTickets := by
  unfold Gate.sweep
  split
  · split
    · dsimp only
      split <;> exact ⟨rfl, rfl, rfl⟩
    · exact ⟨rfl, rfl, rfl⟩
  · exact ⟨rfl, rfl, rfl⟩

theorem Wired.sweep (h : Wired s) (hpool : s.pools.lookup k.key = some k.scopes)
    (hplace : s.place k.key k.caller = some k.current) (hused : UsedBut s k.key k.caller) :
    Wired (s.sweep k) ∧ Used (s.sweep k) := by
  have hshape := h.shape hplace
  have hmap := List.getElem?_eq_getElem (h.map hpool)
  unfold Gate.sweep
  rw [hshape, hmap]
  dsimp only
  cases hline : line s.tickets k.key k.caller with
  | nil =>
      rw [if_pos ⟨rfl, rfl⟩]
      refine h.erase hpool hplace hline hused hmap ?_ ?_ ?_ ?_
      all_goals split <;> simp_all
  | cons a waiters =>
      rw [if_neg (by simp [Scope.of])]
      refine ⟨h, fun key' caller' c' hc' => ?_⟩
      rcases hused key' caller' c' hc' with hline' | ⟨rfl, rfl⟩
      · exact hline'
      · simp [hline]

/-! ### Making a scope -/

/-- A new scope for a caller without one. -/
theorem Wired.insert (h : Wired s) (s' : Gate π) (hused : Used s) (hplace : s.place key caller = none)
    (hpools : ∀ key', s'.pools.lookup key' = if key' = key then some r else s.pools.lookup key')
    (hmap : r < s'.callers.length) (hcallers : s.callers.length ≤ s'.callers.length)
    (hfresh : ∀ key', s.pools.lookup key' = some r → key' = key)
    (hplaces : ∀ key' caller', s'.place key' caller' =
      if key' = key ∧ caller' = caller then some s.scopes.length else s.place key' caller')
    (hpool : ∀ r', s.pools.lookup key = some r' → r' = r)
    (hscopes : s'.scopes = s.scopes ++ [{ active := none, waiters := [] }])
    (htickets : s'.tickets = s.tickets) : Wired s' ∧ UsedBut s' key caller := by
  have hold : ∀ {key' caller' c'}, s.place key' caller' = some c' → c' < s.scopes.length :=
    fun hc' => (List.getElem?_eq_some_iff.mp (h.shape hc')).1
  refine ⟨⟨?_, ?_, ?_, ?_, ?_, ?_⟩, ?_⟩
  · intro key' r' hr'
    rw [hpools] at hr'
    split at hr'
    · obtain rfl := Option.some.inj hr'
      exact hmap
    · exact (h.map hr').trans_le hcallers
  · intro key' key'' r' hr' hr''
    rw [hpools] at hr' hr''
    split at hr' <;> split at hr''
    · simp_all
    · obtain rfl := Option.some.inj hr'
      exact absurd (hfresh key'' hr'') ‹_›
    · obtain rfl := Option.some.inj hr''
      exact absurd (hfresh key' hr') ‹_›
    · exact h.mapOne hr' hr''
  · intro key' key'' caller' caller'' c' hc' hc''
    rw [hplaces] at hc' hc''
    split at hc' <;> split at hc''
    · simp_all
    · have := hold hc''
      obtain rfl := Option.some.inj hc'
      omega
    · have := hold hc'
      obtain rfl := Option.some.inj hc''
      omega
    · exact h.scopeOne hc' hc''
  · intro key' r' hr'
    rw [hpools] at hr'
    split at hr'
    · rename_i hkey
      exact ⟨caller, s.scopes.length, by rw [hplaces, if_pos ⟨hkey, rfl⟩]⟩
    · rename_i hkey
      obtain ⟨caller', c', hc'⟩ := h.inhabited hr'
      exact ⟨caller', c', by rw [hplaces, if_neg fun hsame => hkey hsame.1, hc']⟩
  · intro key' caller' c' hc'
    rw [hplaces] at hc'
    rw [hscopes, htickets, getElem?_concat]
    split at hc'
    · rename_i hsame
      obtain ⟨rfl, rfl⟩ := hsame
      refine .inr ⟨(Option.some.inj hc').symm, ?_⟩
      have hline : line s.tickets key' caller' = [] := by
        refine List.eq_nil_iff_forall_not_mem.mpr fun t ht => ?_
        obtain ⟨k, hk, rfl, rfl, hlive⟩ := mem_line.mp ht
        have := (h.held hk hlive).2
        rw [hplace] at this
        cases this
      rw [hline, Scope.of]
    · exact .inl (h.shape hc')
  · intro t k hk hlive
    rw [htickets] at hk
    obtain ⟨hr', hc'⟩ := h.held hk hlive
    refine ⟨?_, ?_⟩
    · rw [hpools]
      split
      · rename_i hkey
        exact congrArg some (hpool k.scopes (hkey ▸ hr')).symm
      · exact hr'
    · rw [hplaces, if_neg, hc']
      rintro ⟨hkey, hcaller⟩
      rw [hkey, hcaller, hplace] at hc'
      cases hc'
  · intro key' caller' c' hc'
    rw [hplaces] at hc'
    split at hc'
    · exact .inr ‹_›
    · rw [htickets]
      exact .inl (hused key' caller' c' hc')

theorem enter_spec (h : Wired s) (hused : Used s) (key : π) (caller : String) :
    Wired (s.enter key caller).1 ∧ UsedBut (s.enter key caller).1 key caller
    ∧ (s.enter key caller).1.pools.lookup key = some (s.enter key caller).2.1
    ∧ (s.enter key caller).1.place key caller = some (s.enter key caller).2.2
    ∧ (s.enter key caller).1.tickets = s.tickets ∧ (s.enter key caller).1.grants = s.grants
    ∧ (s.enter key caller).1.retainedTickets = s.retainedTickets := by
  cases hpool : s.pools.lookup key with
  | none =>
      have hplace : s.place key caller = none := by rw [Gate.place, hpool, Option.bind_none]
      have henter : s.enter key caller =
          ({ s with
              pools := s.pools.insert key s.callers.length
              callers := s.callers ++ [AList.insert caller s.scopes.length ∅]
              scopes := s.scopes ++ [{ active := none, waiters := [] }] },
            s.callers.length, s.scopes.length) := by
        unfold Gate.enter
        simp [hpool, modify_concat]
      have hplaces : ∀ key' caller', (s.enter key caller).1.place key' caller' =
          if key' = key ∧ caller' = caller then some s.scopes.length else s.place key' caller' := by
        intro key' caller'
        rw [henter, Gate.place, Gate.place]
        rcases eq_or_ne key' key with rfl | hne
        · rw [AList.lookup_insert, Option.bind_some, List.getElem?_concat_length, Option.bind_some,
            hpool, Option.bind_none]
          rcases eq_or_ne caller' caller with rfl | hne
          · rw [AList.lookup_insert, if_pos ⟨rfl, rfl⟩]
          · rw [AList.lookup_insert_ne hne, AList.lookup_empty, if_neg fun hsame => hne hsame.2]
        · rw [AList.lookup_insert_ne hne, if_neg fun hsame => hne hsame.1]
          cases hr' : s.pools.lookup key' with
          | none => rfl
          | some r' =>
              rw [Option.bind_some, Option.bind_some, List.getElem?_append_left (h.map hr')]
      have hwired := h.insert (s.enter key caller).1 hused (r := s.callers.length) hplace
        (fun key' => by
          rw [henter]
          split
          · rename_i hkey
            rw [hkey, AList.lookup_insert]
          · exact AList.lookup_insert_ne ‹_›)
        (by rw [henter]; simp) (by rw [henter]; simp)
        (fun key' hr' => absurd (h.map hr') (Nat.lt_irrefl _)) hplaces
        (fun r' hr' => by rw [hpool] at hr'; cases hr') (by rw [henter]) (by rw [henter])
      refine ⟨hwired.1, hwired.2, ?_, ?_, ?_⟩
      · rw [henter, AList.lookup_insert]
      · rw [hplaces, if_pos ⟨rfl, rfl⟩, henter]
      · rw [henter]
        exact ⟨rfl, rfl, rfl⟩
  | some r =>
      have hmap := List.getElem?_eq_getElem (h.map hpool)
      cases hplace : s.place key caller with
      | some c =>
          have henter : s.enter key caller = (s, r, c) := by
            rw [Gate.place, hpool, Option.bind_some] at hplace
            unfold Gate.enter
            simp only [hpool, hplace]
          rw [henter]
          exact ⟨h, fun key' caller' c' hc' => .inl (hused key' caller' c' hc'), hpool, hplace,
            rfl, rfl, rfl⟩
      | none =>
          have henter : s.enter key caller =
              ({ s with
                  callers := s.callers.modify r (·.insert caller s.scopes.length)
                  scopes := s.scopes ++ [{ active := none, waiters := [] }] },
                r, s.scopes.length) := by
            rw [Gate.place, hpool, Option.bind_some] at hplace
            unfold Gate.enter
            simp only [hpool, hplace]
          have hplaces : ∀ key' caller', (s.enter key caller).1.place key' caller' =
              if key' = key ∧ caller' = caller then some s.scopes.length
              else s.place key' caller' := by
            intro key' caller'
            rw [henter, Gate.place, Gate.place]
            dsimp only
            rcases eq_or_ne key' key with rfl | hne
            · rw [hpool, Option.bind_some, Option.bind_some, List.getElem?_modify_eq, hmap]
              rcases eq_or_ne caller' caller with rfl | hne
              · simp
              · simp [AList.lookup_insert_ne hne, hne]
            · rw [if_neg fun hsame => hne hsame.1]
              cases hr' : s.pools.lookup key' with
              | none => rfl
              | some r' =>
                  have hother : r ≠ r' := by
                    rintro rfl
                    exact hne (h.mapOne hr' hpool)
                  rw [Option.bind_some, Option.bind_some, List.getElem?_modify_ne _ _ hother]
          have hwired := h.insert (s.enter key caller).1 hused (r := r) hplace
            (fun key' => by
              rw [henter]
              split
              · rename_i hkey
                rw [hkey, hpool]
              · rfl)
            (by rw [henter]; simpa using h.map hpool) (by rw [henter]; simp)
            (fun key' hr' => h.mapOne hr' hpool) hplaces
            (fun r' hr' => Option.some.inj (hr'.symm.trans hpool)) (by rw [henter])
            (by rw [henter])
          refine ⟨hwired.1, hwired.2, ?_, ?_, ?_⟩
          · rw [henter, hpool]
          · rw [hplaces, if_pos ⟨rfl, rfl⟩, henter]
          · rw [henter]
            exact ⟨rfl, rfl, rfl⟩

end Heap

end GhcpConsole.Pool.CallerGate
