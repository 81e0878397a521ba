import GhcpConsole.Accounts.Storage

/-!
# The OAuth attempt of an account

Which attempt may write a token is decided by two columns of the account row, and no statement
says the rule as a whole. It is: the attempt of the latest `begin` that took effect, until it is
failed, a token is saved, or a token is imported. The rule is stated over the history of calls and
proved equal to what the columns say after any of them.
-/

namespace GhcpConsole.Accounts

open Pool (Credentials OauthStatus ProxyAccount)
open Storage

/-- A call that concerns the attempt of an account. -/
inductive Call
  | begin (identity attemptId : String) (expectedAttemptId : Option (Option String)) (now : Nat)
  | save (identity attemptId token : String) (ghLogin : Option String) (now : Nat)
  | fail (identity attemptId : String) (now : Nat)
  | invalidate (identity expectedToken : String) (status : Retired) (now : Nat)
  | importToken (input : AccountInput) (token : String) (now : Nat)
deriving DecidableEq, Repr

namespace Storage

/-- The table after a call, and whether the call took effect. -/
def call (st : Storage) : Call → Storage × Bool
  | .begin identity a expected now => st.beginCopilotOauthAuthorization identity a expected now
  | .save identity a token ghLogin now => st.saveCopilotOauthToken identity a token ghLogin now
  | .fail identity a now => st.failCopilotOauthAuthorization identity a now
  | .invalidate identity token status now => st.invalidateCopilotOauthToken identity token status now
  | .importToken input token now => st.importCopilotOauthToken input token now

def run (st : Storage) (calls : List Call) : Storage := calls.foldl (fun st c => (st.call c).1) st

/-- The attempt may still write a token. -/
def Open (identity a : String) (st : Storage) : Prop :=
  ∃ row, st.rows identity = some row ∧ row.credentials.attemptId = some a
    ∧ row.credentials.status = .refreshing

/-- The row carries the attempt, whether or not it has failed. -/
def Carries (identity a : String) (st : Storage) : Prop :=
  ∃ row, st.rows identity = some row ∧ row.credentials.attemptId = some a

end Storage

/-! ## Histories -/

/-- The call is a `begin` for the identity that takes effect. -/
def Call.Begins (identity : String) (st : Storage) : Call → Prop
  | .begin i a expected now => i = identity ∧ (st.call (.begin i a expected now)).2 = true
  | _ => False

/-- The call ends the right of an attempt to write a token. -/
def Call.Ends (identity a : String) (st : Storage) : Call → Prop
  | .fail i b _ => i = identity ∧ b = a
  | .save i b token ghLogin now => i = identity ∧ (st.call (.save i b token ghLogin now)).2 = true
  | .importToken input token now =>
      input.identity = identity ∧ (st.call (.importToken input token now)).2 = true
  | _ => False

/-- The call takes the attempt out of the row. -/
def Call.Clears (identity : String) (st : Storage) : Call → Prop
  | .save i b token ghLogin now => i = identity ∧ (st.call (.save i b token ghLogin now)).2 = true
  | .invalidate i token status now =>
      i = identity ∧ (st.call (.invalidate i token status now)).2 = true
  | .importToken input token now =>
      input.identity = identity ∧ (st.call (.importToken input token now)).2 = true
  | _ => False

section
variable (ends : Storage → Call → Prop) (identity a : String)

/-- No call is an effective `begin` for the identity, and none ends the attempt. -/
def Undisturbed : Storage → List Call → Prop
  | _, [] => True
  | st, c :: calls =>
      ¬(c.Begins identity st ∨ ends st c) ∧ Undisturbed (st.call c).1 calls

/-- The latest effective `begin` for the identity is of the attempt, and nothing has ended it. -/
def LatestBegin : Storage → List Call → Prop
  | _, [] => False
  | st, c :: calls =>
      (c.Begins identity st ∧ (∃ expected now, c = .begin identity a expected now)
        ∧ Undisturbed ends identity (st.call c).1 calls)
      ∨ LatestBegin (st.call c).1 calls

variable {ends identity a}

/-- A property that a `begin` brings about and the ending calls take away is a matter of history. -/
theorem latest_iff {P : Storage → Prop}
    (hstep : ∀ st c, P (st.call c).1 ↔
      (c.Begins identity st ∧ ∃ expected now, c = .begin identity a expected now)
        ∨ (P st ∧ ¬(c.Begins identity st ∨ ends st c))) (calls : List Call) :
    ∀ st, P (st.run calls) ↔
      LatestBegin ends identity a st calls ∨ (P st ∧ Undisturbed ends identity st calls) := by
  induction calls with
  | nil =>
      intro st
      simp [run, LatestBegin, Undisturbed]
  | cons c calls ih =>
      intro st
      have hrun : st.run (c :: calls) = (st.call c).1.run calls := rfl
      rw [hrun, ih, hstep]
      simp only [LatestBegin, Undisturbed]
      constructor
      · rintro (hlater | ⟨⟨hbegin, hattempt⟩ | ⟨hP, hkeep⟩, hrest⟩)
        · exact .inl (.inr hlater)
        · exact .inl (.inl ⟨hbegin, hattempt, hrest⟩)
        · exact .inr ⟨hP, hkeep, hrest⟩
      · rintro ((⟨hbegin, hattempt, hrest⟩ | hlater) | ⟨hP, hkeep, hrest⟩)
        · exact .inr ⟨.inl ⟨hbegin, hattempt⟩, hrest⟩
        · exact .inl hlater
        · exact .inr ⟨.inr ⟨hP, hkeep⟩, hrest⟩

end

/-! ## One call -/

def Call.identity : Call → String
  | .begin i .. | .save i .. | .fail i .. | .invalidate i .. => i
  | .importToken input .. => input.identity

variable {st : Storage} {identity a : String}

theorem call_refused {c : Call} (h : (st.call c).2 = false) : (st.call c).1 = st := by
  cases c with
  | importToken input token now =>
      rcases importCopilotOauthToken_cases st input token now with heq | ⟨row, heq, -⟩
      · exact congrArg Prod.fst heq
      · cases (congrArg Prod.snd heq).symm.trans h
  | begin => exact update_refused h
  | save => exact update_refused h
  | fail => exact update_refused h
  | invalidate => exact update_refused h

/-- A call touches the row of its identity only. -/
theorem call_other {c : Call} (h : c.identity ≠ identity) :
    (st.call c).1.rows identity = st.rows identity := by
  cases c with
  | importToken input token now =>
      rcases importCopilotOauthToken_cases st input token now with heq | ⟨row, heq, -⟩
      · exact congrArg (fun r => r.1.rows identity) heq
      · exact (congrArg (fun r => r.1.rows identity) heq).trans (put_other _ _ (Ne.symm h))
  | begin => exact update_other (Ne.symm h)
  | save => exact update_other (Ne.symm h)
  | fail => exact update_other (Ne.symm h)
  | invalidate => exact update_other (Ne.symm h)

theorem save_effective {token : String} {ghLogin : Option String} {now : Nat} :
    (st.call (.save identity a token ghLogin now)).2 = true ↔ st.Open identity a := by
  simp only [call, saveCopilotOauthToken, update_effective, Open, Bool.and_eq_true, decide_eq_true_eq]

theorem fail_effective {now : Nat} :
    (st.call (.fail identity a now)).2 = true ↔ st.Carries identity a := by
  simp only [call, failCopilotOauthAuthorization, update_effective, Carries, decide_eq_true_eq]

theorem invalidate_effective {token : String} {status : Retired} {now : Nat} :
    (st.call (.invalidate identity token status now)).2 = true
      ↔ ∃ row, st.rows identity = some row ∧ row.credentials.token = some token
        ∧ row.credentials.status = .valid := by
  simp only [call, invalidateCopilotOauthToken, update_effective, Bool.and_eq_true, decide_eq_true_eq]

/-- What an effective call leaves in the attempt columns of its row. -/
def Call.Leaves (row : ProxyAccount) : Call → Prop
  | .begin _ a _ _ => row.credentials.attemptId = some a ∧ row.credentials.status = .refreshing
  | .fail _ a _ => row.credentials.attemptId = some a ∧ row.credentials.status = .failed
  | .save .. | .invalidate .. | .importToken .. => row.credentials.attemptId = none

theorem call_effective {c : Call} (h : (st.call c).2 = true) :
    ∃ row, (st.call c).1.rows c.identity = some row ∧ c.Leaves row := by
  cases c with
  | importToken input token now =>
      rcases importCopilotOauthToken_cases st input token now with heq | ⟨row, heq, hrow, -⟩
      · cases (congrArg Prod.snd heq).symm.trans h
      · exact ⟨row, (congrArg (fun r => r.1.rows input.identity) heq).trans (put_same _ _ _), hrow⟩
  | begin i a expected now =>
      obtain ⟨row, hrow, -⟩ := update_effective.mp h
      refine ⟨_, (update_rows h).trans (congrArg _ hrow), ?_⟩
      exact ⟨rfl, rfl⟩
  | save i a token ghLogin now =>
      obtain ⟨row, hrow, -⟩ := update_effective.mp h
      refine ⟨_, (update_rows h).trans (congrArg _ hrow), ?_⟩
      rfl
  | fail i a now =>
      obtain ⟨row, hrow, hguard⟩ := update_effective.mp h
      refine ⟨_, (update_rows h).trans (congrArg _ hrow), ?_⟩
      exact ⟨of_decide_eq_true hguard, rfl⟩
  | invalidate i token status now =>
      obtain ⟨row, hrow, -⟩ := update_effective.mp h
      refine ⟨_, (update_rows h).trans (congrArg _ hrow), ?_⟩
      rfl

/-- The calls that write or take a token leave no attempt behind. -/
theorem clears_attempt {c : Call} (h : c.Clears identity st) :
    ∃ row, (st.call c).1.rows identity = some row ∧ row.credentials.attemptId = none := by
  cases c with
  | save i b token ghLogin now =>
      obtain ⟨rfl, heff⟩ := h
      exact call_effective heff
  | invalidate i token status now =>
      obtain ⟨rfl, heff⟩ := h
      exact call_effective heff
  | importToken input token now =>
      obtain ⟨rfl, heff⟩ := h
      exact call_effective heff
  | begin => exact h.elim
  | fail => exact h.elim

theorem Call.begins_effective {c : Call} (h : c.Begins identity st) :
    c.identity = identity ∧ (st.call c).2 = true := by
  cases c with
  | begin => exact h
  | save | fail | invalidate | importToken => exact h.elim

theorem Call.clears_effective {c : Call} (h : c.Clears identity st) :
    c.identity = identity ∧ (st.call c).2 = true := by
  cases c with
  | save | invalidate | importToken => exact h
  | begin | fail => exact h.elim

theorem Call.ends_identity {c : Call} (h : c.Ends identity a st) : c.identity = identity := by
  cases c with
  | save | fail | importToken => exact h.1
  | begin | invalidate => exact h.elim

theorem carries_of_row {row : ProxyAccount} (h : st.rows identity = some row) :
    st.Carries identity a ↔ row.credentials.attemptId = some a := by
  simp [Carries, h]

theorem open_of_row {row : ProxyAccount} (h : st.rows identity = some row) :
    st.Open identity a ↔ row.credentials.attemptId = some a ∧ row.credentials.status = .refreshing := by
  simp [Open, h]

/-- A `begin` puts its attempt in the row, a clearing call takes it out, no other call touches it. -/
theorem carries_call (st : Storage) (c : Call) :
    (st.call c).1.Carries identity a ↔
      (c.Begins identity st ∧ ∃ expected now, c = .begin identity a expected now)
        ∨ (st.Carries identity a ∧ ¬(c.Begins identity st ∨ c.Clears identity st)) := by
  by_cases hid : c.identity = identity
  · cases heff : (st.call c).2 with
    | false =>
        have hb : ¬c.Begins identity st := fun h => by
          simp [(Call.begins_effective h).2] at heff
        have hc : ¬c.Clears identity st := fun h => by
          simp [(Call.clears_effective h).2] at heff
        simp [call_refused heff, hb, hc]
    | true =>
        obtain ⟨row, hrow, hkind⟩ := call_effective heff
        rw [hid] at hrow
        rw [carries_of_row hrow]
        cases c with
        | begin i b expected now =>
            cases hid
            have hb : (Call.begin i b expected now).Begins i st := ⟨rfl, heff⟩
            simp [Call.identity, hkind.1, hb]
        | fail i b now =>
            cases hid
            have hcarries : ∀ a, st.Carries i a ↔ b = a := by
              intro a
              obtain ⟨old, hold, hb⟩ := fail_effective.mp heff
              simp [carries_of_row hold, hb]
            simp [Call.identity, hkind.1, hcarries, Call.Begins, Call.Clears]
        | save i b token ghLogin now =>
            cases hid
            have hc : (Call.save i b token ghLogin now).Clears i st := ⟨rfl, heff⟩
            simp [Call.identity, show row.credentials.attemptId = none from hkind, hc, Call.Begins]
        | invalidate i token status now =>
            cases hid
            have hc : (Call.invalidate i token status now).Clears i st := ⟨rfl, heff⟩
            simp [Call.identity, show row.credentials.attemptId = none from hkind, hc, Call.Begins]
        | importToken input token now =>
            cases hid
            have hc : (Call.importToken input token now).Clears input.identity st := ⟨rfl, heff⟩
            simp [Call.identity, show row.credentials.attemptId = none from hkind, hc, Call.Begins]
  · have hb : ¬c.Begins identity st := fun h => hid (Call.begins_effective h).1
    have hc : ¬c.Clears identity st := fun h => hid (Call.clears_effective h).1
    simp [Carries, call_other hid, hb, hc]

/-- The same for the right to write a token, which a failure takes away as well. -/
theorem open_call (st : Storage) (c : Call) :
    (st.call c).1.Open identity a ↔
      (c.Begins identity st ∧ ∃ expected now, c = .begin identity a expected now)
        ∨ (st.Open identity a ∧ ¬(c.Begins identity st ∨ c.Ends identity a st)) := by
  by_cases hid : c.identity = identity
  · cases heff : (st.call c).2 with
    | false =>
        have hb : ¬c.Begins identity st := fun h => by
          simp [(Call.begins_effective h).2] at heff
        -- An ineffective failure of `a` finds another attempt in the row.
        have hc : st.Open identity a → ¬c.Ends identity a st := by
          rintro ⟨row, hrow, hattempt, -⟩ h
          cases c with
          | fail i b now =>
              obtain ⟨rfl, rfl⟩ := h
              have heff' : (st.call (.fail i b now)).2 = true := fail_effective.mpr ⟨row, hrow, hattempt⟩
              simp [heff'] at heff
          | save | importToken => simp [h.2] at heff
          | begin | invalidate => exact h.elim
        rw [call_refused heff]
        simp only [hb, false_and, false_or]
        exact ⟨fun h => ⟨h, hc h⟩, fun h => h.1⟩
    | true =>
        obtain ⟨row, hrow, hkind⟩ := call_effective heff
        rw [hid] at hrow
        rw [open_of_row hrow]
        cases c with
        | begin i b expected now =>
            cases hid
            have hb : (Call.begin i b expected now).Begins i st := ⟨rfl, heff⟩
            simp [Call.identity, hkind.1, hkind.2, hb]
        | fail i b now =>
            cases hid
            obtain ⟨old, hold, hb⟩ := fail_effective.mp heff
            simp +contextual [Call.identity, hkind.2, open_of_row hold, hb, Call.Begins, Call.Ends]
        | save i b token ghLogin now =>
            cases hid
            have hc : (Call.save i b token ghLogin now).Ends i a st := ⟨rfl, heff⟩
            simp [Call.identity, show row.credentials.attemptId = none from hkind, hc, Call.Begins]
        | invalidate i token status now =>
            cases hid
            obtain ⟨old, hold, -, hvalid⟩ := invalidate_effective.mp heff
            simp [Call.identity, show row.credentials.attemptId = none from hkind, open_of_row hold, hvalid,
              Call.Begins]
        | importToken input token now =>
            cases hid
            have hc : (Call.importToken input token now).Ends input.identity a st := ⟨rfl, heff⟩
            simp [Call.identity, show row.credentials.attemptId = none from hkind, hc, Call.Begins]
  · have hb : ¬c.Begins identity st := fun h => hid (Call.begins_effective h).1
    have hc : ¬c.Ends identity a st := fun h => hid (Call.ends_identity h)
    simp [Open, call_other hid, hb, hc]

/-! ## The protocol -/

/-- Any table, any calls. A save takes effect exactly when its attempt is that of the latest effective
`begin` (one of the calls, or the attempt open at the start) and no failure of it, save or import has
come since; a failure exactly when its attempt is the latest and no token was written or taken since;
an invalidation exactly when the token is the current valid one. Any other call leaves the table as
it is. Whatever writes or takes a token leaves no attempt, and none can be saved after it without a
new `begin`. -/
theorem oauth_attempt_protocol (st : Storage) (calls : List Call) :
    (∀ identity a token ghLogin now,
      ((st.run calls).call (.save identity a token ghLogin now)).2 = true ↔
        LatestBegin (Call.Ends identity a) identity a st calls
          ∨ (st.Open identity a ∧ Undisturbed (Call.Ends identity a) identity st calls))
    ∧ (∀ identity a now,
      ((st.run calls).call (.fail identity a now)).2 = true ↔
        LatestBegin (Call.Clears identity) identity a st calls
          ∨ (st.Carries identity a ∧ Undisturbed (Call.Clears identity) identity st calls))
    ∧ (∀ identity token status now,
      ((st.run calls).call (.invalidate identity token status now)).2 = true ↔
        ∃ row, (st.run calls).rows identity = some row ∧ row.credentials.token = some token
          ∧ row.credentials.status = .valid)
    ∧ (∀ c : Call, ((st.run calls).call c).2 = false → ((st.run calls).call c).1 = st.run calls)
    ∧ ∀ (c : Call) identity, c.Clears identity (st.run calls) →
        (∃ row, ((st.run calls).call c).1.rows identity = some row
          ∧ row.credentials.attemptId = none)
        ∧ ∀ later a token ghLogin now,
          ((((st.run calls).call c).1.run later).call (.save identity a token ghLogin now)).2 = true →
            LatestBegin (Call.Ends identity a) identity a ((st.run calls).call c).1 later := by
  refine ⟨?_, ?_, ?_, ?_, ?_⟩
  · intro identity a token ghLogin now
    rw [save_effective]
    exact latest_iff open_call calls st
  · intro identity a now
    rw [fail_effective]
    exact latest_iff carries_call calls st
  · intro identity token status now
    exact invalidate_effective
  · intro c h
    exact call_refused h
  · intro c identity h
    have hnull := clears_attempt h
    refine ⟨hnull, ?_⟩
    intro later a token ghLogin now hsave
    rw [save_effective, latest_iff open_call later] at hsave
    rcases hsave with hlatest | ⟨hopen, -⟩
    · exact hlatest
    · obtain ⟨row, hrow, hnone⟩ := hnull
      rw [open_of_row hrow, hnone] at hopen
      cases hopen.1

end GhcpConsole.Accounts
