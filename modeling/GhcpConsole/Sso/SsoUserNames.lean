import Mathlib.Data.List.DropRight
import GhcpConsole.Lib.JsText
import GhcpConsole.Lib.LowerCase

/-!
# The names of the SSO users

`ssoUserNames.ts`: the name that an identity is looked up under and the name that a new user gets.
Both come from `normalizeName`. The first one then loses the shortcode of the enterprise and is cut
to its length, and the second one is the first one normalised once more (`sanitize_candidate`).
-/

namespace GhcpConsole.Sso

abbrev Name := List Char

/-- `.replace(/@.*$/, '')` -/
def dropAt : List Char → List Char
  | [] => []
  | c :: text =>
      if c = '@' && text.all (fun d => !isLineTerminator d) then [] else c :: dropAt text

/-- `[a-z0-9._-]` -/
def isNameChar (c : Char) : Bool :=
  ('a' ≤ c && c ≤ 'z') || ('0' ≤ c && c ≤ '9') || c = '.' || c = '_' || c = '-'

/-- `.replace(/[^a-z0-9._-]+/g, '-')`, where `inRun` says that the dash is already there. -/
def dashRuns : (inRun : Bool) → List Char → List Char
  | _, [] => []
  | inRun, c :: text =>
      if isNameChar c then c :: dashRuns false text
      else if inRun then dashRuns true text
      else '-' :: dashRuns true text

/-- `.replace(/^-+|-+$/g, '')` -/
def stripDashes (text : List Char) : List Char :=
  (text.dropWhile (· = '-')).rdropWhile (· = '-')

def MAX_SSO_USER_LENGTH : Nat := 32

section Names

variable (letters : LowerCase)

def normalizeName (raw : List Char) : Name :=
  stripDashes (dashRuns false (dropAt (letters.toLowerCase (trim raw))))

def sanitizeSsoUser (raw : List Char) : Name := (normalizeName letters raw).take MAX_SSO_USER_LENGTH

/-- What is left when the suffix that the enterprise puts behind its names is off; `shortcode` is
the enterprise's. -/
def stripEnterpriseShortcode (shortcode : List Char) (value : Name) : Name :=
  let shortcode := letters.toLowerCase (trim shortcode)
  if shortcode = [] then value
  else if ('_' :: shortcode).isSuffixOf value then
    let stripped := value.take (value.length - ('_' :: shortcode).length)
    if stripped = [] then value else stripped
  else value

def ssoUserFromEnsureInput (shortcode raw : List Char) : Name :=
  (stripEnterpriseShortcode letters shortcode (normalizeName letters raw)).take MAX_SSO_USER_LENGTH

/-- The loop of `uniqueCandidates`, with the keys that are in `seen`. -/
def uniqueFrom (normalize : List Char → List Char) :
    (seen : List (List Char)) → List (Option (List Char)) → List (List Char)
  | _, [] => []
  | seen, none :: values => uniqueFrom normalize seen values
  | seen, some raw :: values =>
      let key := letters.toLowerCase (normalize raw)
      if normalize raw = [] || seen.contains key then uniqueFrom normalize seen values
      else normalize raw :: uniqueFrom normalize (key :: seen) values

def uniqueCandidates (values : List (Option (List Char))) (normalize : List Char → List Char) :
    List (List Char) :=
  uniqueFrom letters normalize [] values

def ensureSsoUserCandidates (shortcode identity : List Char) (preferredSsoUser : Option (List Char)) :
    List Name :=
  uniqueCandidates letters [preferredSsoUser, some identity] (ssoUserFromEnsureInput letters shortcode)

end Names

/-! ## The characters of a name -/

theorem toNat_of_isNameChar {c : Char} (h : isNameChar c = true) :
    (97 ≤ c.toNat ∧ c.toNat ≤ 122) ∨ (48 ≤ c.toNat ∧ c.toNat ≤ 57) ∨ c.toNat = 46 ∨ c.toNat = 95 ∨
      c.toNat = 45 := by
  have le_iff : ∀ a b : Char, a ≤ b ↔ a.toNat ≤ b.toNat := fun a b => UInt32.le_iff_toNat_le
  simp only [isNameChar, Bool.or_eq_true, Bool.and_eq_true, decide_eq_true_eq, le_iff] at h
  rcases h with (((letter | digit) | rfl) | rfl) | rfl
  · exact Or.inl letter
  · exact Or.inr (Or.inl digit)
  · decide
  · decide
  · decide

theorem ascii_of_isNameChar {c : Char} (h : isNameChar c = true) : c.toNat < 128 := by
  have range := toNat_of_isNameChar h
  omega

theorem toLower_of_isNameChar {c : Char} (h : isNameChar c = true) : c.toLower = c := by
  have range := toNat_of_isNameChar h
  have small : ¬ (c.val ≥ 'A'.val ∧ c.val ≤ 'Z'.val) := by
    rintro ⟨lower, upper⟩
    have lower : 65 ≤ c.toNat := UInt32.le_iff_toNat_le.mp lower
    have upper : c.toNat ≤ 90 := UInt32.le_iff_toNat_le.mp upper
    omega
  exact dif_neg small

theorem isTrimmed_of_isNameChar {c : Char} (h : isNameChar c = true) : isTrimmed c = false := by
  have range := toNat_of_isNameChar h
  simp only [isTrimmed, Bool.or_eq_false_iff, Bool.and_eq_false_iff, decide_eq_false_iff_not,
    beq_eq_false_iff_ne]
  omega

theorem isNameChar_dashRuns : ∀ (inRun : Bool) (text : List Char), ∀ c ∈ dashRuns inRun text, isNameChar c = true
  | _, [], c, mem => by cases mem
  | inRun, d :: text, c, mem => by
      rw [dashRuns] at mem
      split at mem
      · rename_i name
        rcases List.mem_cons.mp mem with rfl | mem
        · exact name
        · exact isNameChar_dashRuns false text c mem
      · split at mem
        · exact isNameChar_dashRuns true text c mem
        · rcases List.mem_cons.mp mem with rfl | mem
          · decide
          · exact isNameChar_dashRuns true text c mem

theorem dashRuns_eq_self : ∀ (inRun : Bool) (text : List Char), (∀ c ∈ text, isNameChar c = true) →
    dashRuns inRun text = text
  | _, [], _ => rfl
  | inRun, c :: text, names => by
      rw [dashRuns, if_pos (names c List.mem_cons_self),
        dashRuns_eq_self false text fun d mem => names d (List.mem_cons_of_mem _ mem)]

theorem dropAt_eq_self : ∀ text : List Char, '@' ∉ text → dropAt text = text
  | [], _ => rfl
  | c :: text, noAt => by
      obtain ⟨other, rest⟩ := List.ne_and_not_mem_of_not_mem_cons noAt
      rw [dropAt, if_neg (by simp [Ne.symm other]), dropAt_eq_self text rest]

/-- A character that is kept keeps everything behind it. -/
theorem dropWhile_append_cons {p : Char → Bool} {c : Char} (kept : p c = false)
    (before after : List Char) :
    (before ++ c :: after).dropWhile p = before.dropWhile p ++ c :: after := by
  rw [List.dropWhile_append]
  split
  · rename_i empty
    rw [List.isEmpty_iff.mp empty, List.dropWhile_cons, if_neg (by simp [kept]), List.nil_append]
  · rfl

theorem trim_append_cons {c : Char} (kept : isTrimmed c = false) (before after : List Char) :
    trim (before ++ c :: after) = trimStart before ++ c :: trimEnd after := by
  rw [trim, trimStart, dropWhile_append_cons kept, trimEnd, List.reverse_append, List.reverse_cons,
    List.append_assoc, List.singleton_append, dropWhile_append_cons kept]
  simp [trimStart, trimEnd]

theorem dropWhile_of_forall {p : Char → Bool} : ∀ {text : List Char}, (∀ c ∈ text, p c = false) →
    text.dropWhile p = text
  | [], _ => rfl
  | c :: text, kept => by rw [List.dropWhile_cons, if_neg (by simp [kept c List.mem_cons_self])]

theorem trim_of_forall {text : List Char} (kept : ∀ c ∈ text, isTrimmed c = false) :
    trim text = text := by
  rw [trim, trimStart, dropWhile_of_forall kept, trimEnd,
    dropWhile_of_forall fun c mem => kept c (List.mem_reverse.mp mem), List.reverse_reverse]

theorem dropAt_append : ∀ {before : List Char}, '@' ∉ before → ∀ {c : Char}, c ≠ '@' →
    ∀ after, dropAt (before ++ c :: after) = before ++ c :: dropAt after
  | [], _, c, other, after => by
      rw [List.nil_append, dropAt, if_neg (by simp [other]), List.nil_append]
  | d :: before, noAt, c, other, after => by
      obtain ⟨first, rest⟩ := List.ne_and_not_mem_of_not_mem_cons noAt
      rw [List.cons_append, dropAt, if_neg (by simp [Ne.symm first]), dropAt_append rest other]
      rfl

theorem mem_dashRuns {c : Char} (name : isNameChar c = true) :
    ∀ (inRun : Bool) (text : List Char), c ∈ text → c ∈ dashRuns inRun text
  | inRun, d :: text, mem => by
      rcases List.mem_cons.mp mem with rfl | mem
      · rw [dashRuns, if_pos name]
        exact List.mem_cons_self
      · rw [dashRuns]
        split
        · exact List.mem_cons_of_mem _ (mem_dashRuns name false text mem)
        · split
          · exact mem_dashRuns name true text mem
          · exact List.mem_cons_of_mem _ (mem_dashRuns name true text mem)

theorem mem_stripDashes {c : Char} {text : List Char} (mem : c ∈ text) (other : c ≠ '-') :
    c ∈ stripDashes text := by
  obtain ⟨before, after, rfl⟩ := List.append_of_mem mem
  rw [stripDashes, dropWhile_append_cons (by simp [other]), List.rdropWhile, List.reverse_append,
    List.reverse_cons, List.append_assoc, List.singleton_append,
    dropWhile_append_cons (by simp [other])]
  simp

/-- What becomes of a letter or a digit. -/
theorem alphanum_kept {c : Char} (h : c.isAlphanum = true) :
    c.toNat < 128 ∧ isTrimmed c = false ∧ isNameChar c.toLower = true ∧ c.toLower ≠ '-' ∧
      c.toLower ≠ '@' := by
  have le_iff : ∀ a b : UInt32, a ≤ b ↔ a.toNat ≤ b.toNat := fun a b => UInt32.le_iff_toNat_le
  have small : c.toNat < 128 := by
    delta Char.isAlphanum Char.isAlpha Char.isUpper Char.isLower Char.isDigit at h
    simp only [Bool.or_eq_true, Bool.and_eq_true, decide_eq_true_eq, ge_iff_le, le_iff] at h
    have value : c.val.toNat = c.toNat := rfl
    simp at h
    omega
  have table : ∀ n < 128, (Char.ofNat n).isAlphanum = true →
      isTrimmed (Char.ofNat n) = false ∧ isNameChar (Char.ofNat n).toLower = true ∧
        (Char.ofNat n).toLower ≠ '-' ∧ (Char.ofNat n).toLower ≠ '@' := by
    decide
  have kept := table c.toNat small
  rw [Char.ofNat_toNat] at kept
  exact ⟨small, kept h⟩

section Candidates

variable (letters : LowerCase)

theorem isNameChar_normalizeName (raw : List Char) : ∀ c ∈ normalizeName letters raw, isNameChar c = true :=
  fun c mem => isNameChar_dashRuns _ _ c
    ((List.dropWhile_sublist _).mem ((List.rdropWhile_prefix _ _).sublist.mem mem))

theorem head?_normalizeName (raw : List Char) : (normalizeName letters raw).head? ≠ some '-' := by
  intro dash
  have first : ((dashRuns false (dropAt (letters.toLowerCase (trim raw)))).dropWhile
      (· = '-')).head? = some '-' := by
    obtain ⟨rest, starts⟩ := List.rdropWhile_prefix (· = '-') ((dashRuns false
      (dropAt (letters.toLowerCase (trim raw)))).dropWhile (· = '-'))
    rw [← starts, List.head?_append]
    rw [normalizeName, stripDashes] at dash
    rw [dash]
    rfl
  have kept := List.head?_dropWhile_not (· = '-')
    (dashRuns false (dropAt (letters.toLowerCase (trim raw))))
  rw [first] at kept
  simp at kept

/-- A name that is normalised again loses only dashes. -/
theorem normalizeName_of_names {text : List Char} (names : ∀ c ∈ text, isNameChar c = true) :
    normalizeName letters text = stripDashes text := by
  have trimmed : trim text = text :=
    trim_of_forall fun c mem => isTrimmed_of_isNameChar (names c mem)
  have lowered : letters.toLowerCase text = text := by
    rw [letters.ascii text fun c mem => ascii_of_isNameChar (names c mem)]
    calc text.map Char.toLower = text.map id :=
          List.map_congr_left fun c mem => toLower_of_isNameChar (names c mem)
      _ = text := List.map_id text
  have noAt : '@' ∉ text := fun mem => absurd (names _ mem) (by decide)
  rw [normalizeName, trimmed, lowered, dropAt_eq_self text noAt, dashRuns_eq_self false text names]

theorem stripEnterpriseShortcode_isPrefix (shortcode : List Char) (value : Name) :
    stripEnterpriseShortcode letters shortcode value <+: value := by
  unfold stripEnterpriseShortcode
  dsimp only
  split
  · exact List.prefix_refl _
  · split
    · split
      · exact List.prefix_refl _
      · exact List.take_prefix _ _
    · exact List.prefix_refl _

theorem ssoUserFromEnsureInput_prefix (shortcode raw : List Char) :
    ssoUserFromEnsureInput letters shortcode raw <+: normalizeName letters raw :=
  (List.take_prefix _ _).trans (stripEnterpriseShortcode_isPrefix letters shortcode _)

/-- The name a new user gets is the name that is looked up without the dashes at its end. -/
theorem sanitize_candidate (shortcode raw : List Char) :
    sanitizeSsoUser letters (ssoUserFromEnsureInput letters shortcode raw) =
      (ssoUserFromEnsureInput letters shortcode raw).rdropWhile (· = '-') := by
  have isPrefix := ssoUserFromEnsureInput_prefix letters shortcode raw
  have short : (ssoUserFromEnsureInput letters shortcode raw).length ≤ MAX_SSO_USER_LENGTH :=
    List.length_take_le _ _
  generalize ssoUserFromEnsureInput letters shortcode raw = candidate at isPrefix short
  have names : ∀ c ∈ candidate, isNameChar c = true := fun c mem =>
    isNameChar_normalizeName letters raw c (isPrefix.sublist.mem mem)
  have start : candidate.dropWhile (· = '-') = candidate := by
    cases candidate with
    | nil => rfl
    | cons c candidate =>
        refine List.dropWhile_cons_of_neg fun dash => ?_
        obtain ⟨rest, starts⟩ := isPrefix
        refine head?_normalizeName letters raw ?_
        rw [← starts]
        simpa using dash
  have shorter := (List.rdropWhile_prefix (· = '-') candidate).length_le
  rw [sanitizeSsoUser, normalizeName_of_names letters names, stripDashes, start,
    List.take_of_length_le (Nat.le_trans shorter short)]

/-- A letter or a digit before any `@` is in the name. -/
theorem normalizeName_ne_nil {before after : List Char} {c : Char} (alphanum : c.isAlphanum = true)
    (noAt : '@' ∉ before) : normalizeName letters (before ++ c :: after) ≠ [] := by
  obtain ⟨small, kept, name, noDash, other⟩ := alphanum_kept alphanum
  have noAtStart : '@' ∉ trimStart before := fun mem => noAt ((List.dropWhile_sublist _).mem mem)
  obtain ⟨before', after', lowered, noAt'⟩ :=
    letters.inPlace (trimStart before) c (trimEnd after) small
  have mem : c.toLower ∈ normalizeName letters (before ++ c :: after) := by
    rw [normalizeName, trim_append_cons kept, lowered,
      dropAt_append (fun mem => noAtStart (noAt' mem)) other]
    exact mem_stripDashes (mem_dashRuns name false _ (by simp)) noDash
  exact List.ne_nil_of_mem mem

theorem ssoUserFromEnsureInput_ne_nil (shortcode : List Char) {raw : List Char}
    (h : normalizeName letters raw ≠ []) : ssoUserFromEnsureInput letters shortcode raw ≠ [] := by
  have stripped : stripEnterpriseShortcode letters shortcode (normalizeName letters raw) ≠ [] := by
    unfold stripEnterpriseShortcode
    dsimp only
    split_ifs <;> assumption
  intro empty
  rcases List.take_eq_nil_iff.mp empty with none | empty
  · exact absurd none (by decide)
  · exact stripped empty

theorem mem_uniqueFrom {normalize : List Char → List Char} {name : List Char} :
    ∀ (values : List (Option (List Char))) (seen : List (List Char)),
      name ∈ uniqueFrom letters normalize seen values →
        name ≠ [] ∧ ∃ raw, some raw ∈ values ∧ name = normalize raw
  | none :: values, seen, mem => by
      obtain ⟨nonempty, raw, given, rfl⟩ := mem_uniqueFrom values seen mem
      exact ⟨nonempty, raw, List.mem_cons_of_mem _ given, rfl⟩
  | some raw :: values, seen, mem => by
      rw [uniqueFrom] at mem
      split at mem
      · obtain ⟨nonempty, raw, given, rfl⟩ := mem_uniqueFrom values seen mem
        exact ⟨nonempty, raw, List.mem_cons_of_mem _ given, rfl⟩
      · rename_i kept
        rcases List.mem_cons.mp mem with rfl | mem
        · refine ⟨fun empty => kept ?_, raw, List.mem_cons_self, rfl⟩
          simp [empty]
        · obtain ⟨nonempty, raw, given, rfl⟩ := mem_uniqueFrom values _ mem
          exact ⟨nonempty, raw, List.mem_cons_of_mem _ given, rfl⟩

/-- An identity that makes a name leaves at least one candidate. -/
theorem candidates_ne_nil (shortcode identity : List Char) (preferred : Option (List Char))
    (h : normalizeName letters identity ≠ []) :
    ensureSsoUserCandidates letters shortcode identity preferred ≠ [] := by
  have nonempty := ssoUserFromEnsureInput_ne_nil letters shortcode h
  unfold ensureSsoUserCandidates uniqueCandidates
  cases preferred with
  | none => simp [uniqueFrom, nonempty]
  | some preferred =>
      rw [uniqueFrom]
      split
      · simp [uniqueFrom, nonempty]
      · simp

end Candidates

end GhcpConsole.Sso
