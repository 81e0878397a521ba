import Mathlib.Data.List.Perm.Subperm
import GhcpConsole.Litellm.UserPoolHook

/-!
# The caller that a context stands for

The hook trusts the hash of a key that LiteLLM has authenticated, and only that of the latest early hook
that a context has seen.
-/

namespace GhcpConsole.Litellm

open Python

variable {auth : AuthObject} {hash : Str}

/-- The key with this hash has been authenticated. -/
structure Authenticated (auth : AuthObject) (hash : Str) : Prop where
  userApiKeyAuth : auth.userApiKeyAuth = true
  virtualKey : (auth.getattr "via_virtual_key" (.bool false)).isTrue = true
  noSession : (auth.getattr "is_session_token" (.bool false)).truthy = false
  isHash : isHash hash = true
  apiKey : auth.getattr "api_key" .none = .none ∨ auth.getattr "api_key" .none = .str hash
  token : auth.getattr "token" .none = .none ∨ auth.getattr "token" .none = .str hash
  hashedToken : auth.getattr "hashed_token" .none = .none ∨ auth.getattr "hashed_token" .none = .str hash
  present : auth.getattr "token" .none = .str hash ∨ auth.getattr "hashed_token" .none = .str hash

theorem isNone_iff {value : Value} : value.isNone = true ↔ value = .none := by
  cases value <;> simp [Value.isNone]

theorem hash?_eq_some {value : Value} : hash? value = some hash ↔ value = .str hash ∧ isHash hash = true := by
  cases value <;> simp [hash?, Value.str?, Option.filter_eq_some_iff]

theorem mapM_hash? {present : List Value} {hashes : List Str} :
    present.mapM hash? = some hashes ↔ present = hashes.map .str ∧ ∀ hash ∈ hashes, isHash hash = true := by
  induction present generalizing hashes with
  | nil =>
      cases hashes with
      | nil => simp
      | cons hash hashes => simp
  | cons value present ih =>
      rw [List.mapM_cons]
      simp only [Option.pure_def, Option.bind_eq_bind, Option.bind_eq_some_iff, hash?_eq_some, ih,
        Option.some.injEq]
      constructor
      · rintro ⟨hash, ⟨rfl, valid⟩, rest, ⟨rfl, valids⟩, rfl⟩
        exact ⟨rfl, List.forall_mem_cons.mpr ⟨valid, valids⟩⟩
      · rintro ⟨same, valid⟩
        cases hashes with
        | nil => cases same
        | cons hash rest =>
            obtain ⟨rfl, rfl⟩ := List.cons.inj same
            have valids := List.forall_mem_cons.mp valid
            exact ⟨hash, ⟨rfl, valids.1⟩, rest, ⟨rfl, valids.2⟩, rfl⟩

/-- A set of one element. -/
theorem dedup_length_eq_one {first : Str} {rest : List Str} :
    (first :: rest).dedup.length = 1 ↔ ∀ hash ∈ first :: rest, hash = first := by
  constructor
  · intro single hash mem
    obtain ⟨one, only⟩ := List.length_eq_one_iff.mp single
    have isOne : ∀ hash ∈ first :: rest, hash = one := fun hash mem => by
      have inSet := List.mem_dedup.mpr mem
      rw [only] at inSet
      exact List.mem_singleton.mp inSet
    rw [isOne hash mem, isOne first List.mem_cons_self]
  · intro same
    have le : (first :: rest).dedup.length ≤ [first].length :=
      (List.subperm_of_subset (List.nodup_dedup _) fun hash mem =>
        List.mem_singleton.mpr (same hash (List.mem_dedup.mp mem))).length_le
    have pos : 0 < (first :: rest).dedup.length :=
      List.length_pos_of_mem (List.mem_dedup.mpr List.mem_cons_self)
    exact Nat.le_antisymm le pos

theorem authenticatedIdentity_sound {identity : Str} (known : authenticatedIdentity auth = some identity) :
    ∃ hash, Authenticated auth hash ∧ identity = text "sha256:" ++ hash := by
  unfold authenticatedIdentity at known
  split at known
  · cases known
  · rename_i object
    dsimp only at known
    split at known
    · cases known
    · rename_i apiKey
      split at known
      · cases known
      · cases known
      · rename_i first rest hashes
        split at known
        · cases known
        · rename_i one
          rw [not_or, not_not, dedup_length_eq_one] at one
          obtain ⟨values, valid⟩ := mapM_hash?.mp hashes
          have known' : ∀ value, value ∈ ["token", "hashed_token"].map (fun field => auth.getattr field .none) →
              value = .none ∨ value = .str first := by
            intro value mem
            by_cases absent : value.isNone = true
            · exact .inl (isNone_iff.mp absent)
            · have present : value ∈ (first :: rest).map .str := by
                rw [← values]
                exact List.mem_filter.mpr ⟨mem, by simpa using absent⟩
              obtain ⟨hash, inHashes, rfl⟩ := List.mem_map.mp present
              exact .inr (by rw [one.1 hash inHashes])
          have firstPresent : Value.str first ∈ ["token", "hashed_token"].map fun field =>
              auth.getattr field .none := by
            have mem : Value.str first ∈ (first :: rest).map Value.str := List.mem_cons_self
            rw [← values] at mem
            exact (List.mem_filter.mp mem).1
          simp only [Bool.or_eq_true, Bool.not_eq_true', not_or, Bool.not_eq_false, Bool.not_eq_true] at object
          refine ⟨first, ⟨object.1.1, object.1.2, object.2, valid first List.mem_cons_self, ?_,
            known' _ List.mem_cons_self, known' _ (List.mem_cons_of_mem _ List.mem_cons_self), ?_⟩,
            (Option.some.inj known).symm⟩
          · cases absent : (auth.getattr "api_key" .none).isNone with
            | true => exact .inl (isNone_iff.mp absent)
            | false =>
                have same := not_and.mp one.2 absent
                rw [not_not] at same
                exact .inr (hash?_eq_some.mp same).1
          · simpa [eq_comm] using firstPresent

theorem Authenticated.identity (trusted : Authenticated auth hash) :
    authenticatedIdentity auth = some (text "sha256:" ++ hash) := by
  have valid : hash? (.str hash) = some hash := hash?_eq_some.mpr ⟨rfl, trusted.isHash⟩
  have hashes : ∃ rest, ((["token", "hashed_token"].map fun field => auth.getattr field .none).filter
      fun value => !value.isNone).mapM hash? = some (hash :: rest) ∧ ∀ other ∈ hash :: rest, other = hash := by
    simp only [mapM_hash?]
    rcases trusted.token with absent | token
    · have hashed : auth.getattr "hashed_token" .none = .str hash := by simpa [absent] using trusted.present
      exact ⟨[], ⟨by simp [absent, hashed, Value.isNone], by simpa using trusted.isHash⟩, by simp⟩
    · rcases trusted.hashedToken with absent | hashed
      · exact ⟨[], ⟨by simp [absent, token, Value.isNone], by simpa using trusted.isHash⟩, by simp⟩
      · exact ⟨[hash], ⟨by simp [hashed, token, Value.isNone], by simpa using trusted.isHash⟩, by simp⟩
  obtain ⟨rest, hashes, same⟩ := hashes
  unfold authenticatedIdentity
  rw [if_neg (by simp [trusted.userApiKeyAuth, trusted.virtualKey, trusted.noSession])]
  dsimp only
  rw [if_neg, hashes]
  · dsimp only
    rw [if_neg]
    rw [not_or, not_not, dedup_length_eq_one]
    refine ⟨same, fun ⟨given, other⟩ => ?_⟩
    rcases trusted.apiKey with absent | apiKey
    · rw [absent] at given
      cases given
    · exact other (by rw [apiKey, valid])
  · rcases trusted.apiKey with absent | apiKey
    · simp [absent, Value.isNone]
    · simp [apiKey, valid]

/-- The hook trusts the hash of an authenticated key, and nothing else. -/
theorem authenticatedIdentity_eq_some {identity : Str} :
    authenticatedIdentity auth = some identity
      ↔ ∃ hash, Authenticated auth hash ∧ identity = text "sha256:" ++ hash := by
  refine ⟨authenticatedIdentity_sound, ?_⟩
  rintro ⟨hash, trusted, rfl⟩
  exact trusted.identity

/-- The object of the latest early hook that a context has seen: its own task's, or one of a task that it
has been created in. -/
def latestAuth : List Event → Nat → Option AuthObject
  | [], _ => none
  | .preCall task auth :: earlier, context =>
      if context = task then some auth else latestAuth earlier context
  | .createTask creator task :: earlier, context =>
      if context = task then latestAuth earlier creator else latestAuth earlier context
  | .filterDeployments _ _ :: earlier, context => latestAuth earlier context
  | .preCallDeployment _ _ :: earlier, context => latestAuth earlier context

theorem contextsAfter_eq (events : List Event) (context : Nat) :
    contextsAfter events context = (latestAuth events context).bind authenticatedIdentity := by
  induction events generalizing context with
  | nil => rfl
  | cons event earlier ih =>
      cases event with
      | createTask creator task =>
          rw [contextsAfter, Event.step, latestAuth, Function.update_apply, ih, ih]
          split <;> rfl
      | preCall task auth =>
          rw [contextsAfter, Event.step, latestAuth, Function.update_apply, ih]
          split <;> rfl
      | filterDeployments task deployments => exact ih context
      | preCallDeployment task kwargs => exact ih context

end GhcpConsole.Litellm
