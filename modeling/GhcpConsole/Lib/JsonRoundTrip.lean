import GhcpConsole.Lib.JsonSyntax
import GhcpConsole.Lib.Lines
import Mathlib.Tactic.IntervalCases

/-!
# Texts that are read back

What `JSON.stringify` writes for strings, booleans, whole numbers and objects of these is read back by
`JSON.parse` as the same value.
-/

namespace GhcpConsole

namespace JsonValue

variable {u : CodeUnit} {text rest : JsString} {value : JsonValue}

section Strings

section
-- Generates the equations here, once for all the proofs below.
attribute [local simp] readString readFraction readExponent readValue readNumber readWhole escapedUnit stringify serialize
end

theorem escapes_get : ∀ e ∈ escapes, e.1 ≠ codeUnit 'u' ∧ OrderedMap.get escapes e.1 = some e.2 := by
  decide

theorem hexDigit?_ofNat {d : Nat} (h : d < 16) :
    hexDigit? (UInt16.ofNat (if d < 10 then 0x30 + d else 0x57 + d)) = some d := by
  interval_cases d <;> rfl

theorem readString_quote : readString (codeUnit '"' :: text) = some ([], text) := by
  rw [readString.eq_def]
  exact if_pos rfl

theorem readString_of_plain (hquote : u ≠ codeUnit '"') (hsolidus : u ≠ codeUnit '\\')
    (hcontrol : 0x20 ≤ u) : readString (u :: text) = (readString text).map (·.map (u :: ·) id) := by
  rw [readString.eq_def]
  dsimp only
  rw [if_neg hquote, if_neg hsolidus, if_neg (UInt16.not_lt.mpr hcontrol)]

theorem readString_escape {e : CodeUnit} (hletter : e ≠ codeUnit 'u')
    (hunit : OrderedMap.get escapes e = some u) :
    readString (codeUnit '\\' :: e :: text) = (readString text).map (·.map (u :: ·) id) := by
  rw [readString.eq_def]
  dsimp only
  rw [if_neg (by decide), if_pos rfl, if_neg hletter, hunit, Option.bind_some]

theorem readString_hex {a b c d : CodeUnit} (hunit : hexUnit? a b c d = some u) :
    readString (codeUnit '\\' :: codeUnit 'u' :: a :: b :: c :: d :: text)
      = (readString text).map (·.map (u :: ·) id) := by
  rw [readString.eq_def]
  dsimp only
  rw [if_neg (by decide), if_pos rfl, if_pos rfl, hunit, Option.bind_some]

theorem readString_hexText :
    readString (utf16 "\\u" ++ hexText u ++ text) = (readString text).map (·.map (u :: ·) id) := by
  have bound : u.toNat < 0x10000 := u.toNat_lt
  have unit : UInt16.ofNat (u.toNat / 0x1000 * 0x1000 + u.toNat / 0x100 % 0x10 * 0x100
      + u.toNat / 0x10 % 0x10 * 0x10 + u.toNat % 0x10) = u := by
    rw [show u.toNat / 0x1000 * 0x1000 + u.toNat / 0x100 % 0x10 * 0x100
      + u.toNat / 0x10 % 0x10 * 0x10 + u.toNat % 0x10 = u.toNat by omega]
    exact UInt16.ofNat_toNat
  refine readString_hex ?_
  rw [hexUnit?, hexDigit?_ofNat (d := u.toNat / 0x1000) (by omega),
    hexDigit?_ofNat (d := u.toNat / 0x100 % 0x10) (by omega),
    hexDigit?_ofNat (d := u.toNat / 0x10 % 0x10) (by omega),
    hexDigit?_ofNat (d := u.toNat % 0x10) (by omega)]
  exact congrArg some unit

theorem readString_escapedUnit :
    readString (escapedUnit u ++ text) = (readString text).map (·.map (u :: ·) id) := by
  unfold escapedUnit
  split
  · rename_i e found
    obtain ⟨letter, hget⟩ := escapes_get e (List.mem_of_find?_eq_some found)
    have hunit := List.find?_some found
    rw [decide_eq_true_eq] at hunit
    exact readString_escape letter (by rw [hget, hunit.1])
  · rename_i absent
    split
    · exact readString_hexText
    · rename_i plain
      have other : ∀ e ∈ escapes, e.2 ≠ codeUnit '/' → u ≠ e.2 := by
        rintro e mem solidus rfl
        exact List.find?_eq_none.mp absent e mem (decide_eq_true ⟨rfl, solidus⟩)
      rw [not_or, UInt16.not_lt] at plain
      exact readString_of_plain (other (codeUnit '"', codeUnit '"') (by decide) (by decide))
        (other (codeUnit '\\', codeUnit '\\') (by decide) (by decide)) plain.1

theorem readString_surrogate (h : isHighSurrogate u = true ∨ isLowSurrogate u = true) :
    readString (u :: text) = (readString text).map (·.map (u :: ·) id) := by
  have large : 0xD800 ≤ u := by
    rcases h with high | low
    · simp only [isHighSurrogate, Bool.and_eq_true, decide_eq_true_eq] at high
      exact high.1
    · simp only [isLowSurrogate, Bool.and_eq_true, decide_eq_true_eq] at low
      exact UInt16.le_trans (by decide) low.1
  refine readString_of_plain ?_ ?_ (UInt16.le_trans (by decide) large)
  · rintro rfl
    exact absurd large (by decide)
  · rintro rfl
    exact absurd large (by decide)

/-- A string that is written is read back. -/
theorem readString_escaped : readString (escaped text ++ codeUnit '"' :: rest) = some (text, rest) := by
  fun_induction escaped text with
  | case1 high low text pair ih =>
      rw [List.cons_append, List.cons_append, readString_surrogate (.inl pair.1),
        readString_surrogate (.inr pair.2), ih]
      rfl
  | case2 high low text other ih =>
      rw [List.append_assoc, readString_escapedUnit, ih]
      rfl
  | case3 u =>
      rw [readString_escapedUnit, readString_quote]
      rfl
  | case4 => exact readString_quote

end Strings

/-- Between a value and what comes after it is a comma or a bracket. -/
def Delimited (rest : JsString) : Prop :=
  ∀ u ∈ rest.head?, u = codeUnit ',' ∨ u = codeUnit ']' ∨ u = codeUnit '\x7d'

/-- What is written for the value is read back. -/
def Reads (value : JsonValue) : Prop :=
  ∀ fuel rest, (stringify value).length < fuel → Delimited rest →
    readValue fuel (stringify value ++ rest) = some (value, rest)

section Numbers

variable {digits : JsString} {n : Nat}

theorem ne_of_isDigit {c : CodeUnit} (h : Double.isDigit u = true) (hc : Double.isDigit c = false) :
    u ≠ c := by
  rintro rfl
  rw [h] at hc
  cases hc

theorem not_isDigit_of_delimited (h : Delimited rest) :
    rest.takeWhile Double.isDigit = [] ∧ rest.dropWhile Double.isDigit = rest := by
  cases rest with
  | nil => exact ⟨rfl, rfl⟩
  | cons u rest => rcases h u rfl with rfl | rfl | rfl <;> exact ⟨rfl, rfl⟩

theorem readWhole_digits (alone : u = codeUnit '0' → digits = [])
    (all : ∀ v ∈ u :: digits, Double.isDigit v = true) (h : Delimited rest) :
    readWhole (u :: digits ++ rest) = some (u :: digits, rest) := by
  have here : Double.isDigit u = true := all u (List.mem_cons_self)
  obtain ⟨none, kept⟩ := not_isDigit_of_delimited h
  rw [List.cons_append, readWhole]
  split
  · rename_i zero
    rw [alone zero, List.nil_append]
  · rw [← List.cons_append, List.takeWhile_append_of_pos all,
      List.dropWhile_append_of_pos all, none, kept, List.append_nil]

theorem readFraction_of_delimited (h : Delimited rest) : readFraction rest = some ([], rest) := by
  cases rest with
  | nil => rfl
  | cons u rest => rcases h u rfl with rfl | rfl | rfl <;> rfl

theorem readExponent_of_delimited (h : Delimited rest) : readExponent rest = some (0, rest) := by
  cases rest with
  | nil => rfl
  | cons u rest => rcases h u rfl with rfl | rfl | rfl <;> rfl

theorem readNumber_digits (alone : u = codeUnit '0' → digits = [])
    (all : ∀ v ∈ u :: digits, Double.isDigit v = true) (h : Delimited rest) :
    readNumber (u :: digits ++ rest)
      = some (.num (Double.ofNat (Double.readDigits (u :: digits))), rest) := by
  have sign : ¬ (u :: digits ++ rest).head? = some (codeUnit '-') := by
    rw [List.cons_append, List.head?_cons, Option.some_inj]
    exact ne_of_isDigit (all u List.mem_cons_self) (by decide)
  rw [readNumber, if_neg sign, readWhole_digits alone all h]
  dsimp only [Option.bind_eq_bind, Option.bind_some]
  rw [readFraction_of_delimited h]
  dsimp only [Option.bind_some]
  rw [readExponent_of_delimited h]
  dsimp only [Option.bind_some]
  rw [decide_eq_false sign, List.append_nil, List.length_nil, Nat.cast_zero, sub_zero,
    Double.ofDecimal, neg_zero, Double.scaled_zero, Double.ofNat]

theorem skipSpace_cons (h : isSpace u = false) : skipSpace (u :: text) = u :: text := by
  rw [skipSpace, List.dropWhile_cons, h, if_neg Bool.false_ne_true]

theorem readValue_digit {fuel : Nat} (h : Double.isDigit u = true) :
    readValue (fuel + 1) (u :: text) = readNumber (u :: text) := by
  have other := fun c hc => ne_of_isDigit (u := u) (c := c) h hc
  have space : isSpace u = false := by
    simp [isSpace, other 0x20 (by decide), other 0x9 (by decide), other 0xA (by decide),
      other 0xD (by decide)]
  rw [readValue, skipSpace_cons space]
  dsimp only
  rw [if_neg (other _ (by decide)), if_neg (other _ (by decide)), if_neg (other _ (by decide)),
    if_neg (other _ (by decide)), if_neg (other _ (by decide)), if_neg (other _ (by decide))]

theorem stringify_whole (h : n < 2 ^ 53) :
    stringify (.num (Double.ofNat n)) = (Double.ofNat n).toText := by
  obtain ⟨significand, exponent, form⟩ := Double.ofNat_finite h
  rw [form]
  rfl

theorem reads_whole (h : n < 2 ^ 53) : Reads (.num (Double.ofNat n)) := by
  intro fuel rest enough delimited
  obtain ⟨fuel, rfl⟩ := Nat.exists_eq_add_of_lt enough
  obtain ⟨u, digits, text, alone, all, same⟩ := Double.toText_ofNat h
  rw [stringify_whole h, text, List.cons_append, readValue_digit (all u List.mem_cons_self),
    ← List.cons_append, readNumber_digits alone all delimited, same]

end Numbers

theorem reads_str : Reads (.str text) := by
  intro fuel rest enough _
  obtain ⟨fuel, rfl⟩ := Nat.exists_eq_add_of_lt enough
  show readValue (_ + fuel + 1) (codeUnit '"' :: escaped text ++ [codeUnit '"'] ++ rest) = _
  rw [List.append_assoc, List.cons_append, readValue, skipSpace_cons (by decide)]
  dsimp only
  rw [if_neg (by decide), if_neg (by decide), if_pos rfl, List.singleton_append, readString_escaped]
  rfl

theorem readName_append {name : String} : readName name value (utf16 name ++ text) = some (value, text) := by
  rw [readName, if_pos (List.prefix_append _ _), List.drop_left]

theorem reads_bool {b : Bool} : Reads (.bool b) := by
  intro fuel rest enough _
  obtain ⟨fuel, rfl⟩ := Nat.exists_eq_add_of_lt enough
  cases b
  · have text : stringify (.bool false) ++ rest = codeUnit 'f' :: (utf16 "alse" ++ rest) := rfl
    rw [text, readValue, skipSpace_cons (by decide)]
    dsimp only
    rw [if_neg (by decide), if_neg (by decide), if_neg (by decide), if_neg (by decide), if_pos rfl]
    exact readName_append
  · have text : stringify (.bool true) ++ rest = codeUnit 't' :: (utf16 "rue" ++ rest) := rfl
    rw [text, readValue, skipSpace_cons (by decide)]
    dsimp only
    rw [if_neg (by decide), if_neg (by decide), if_neg (by decide), if_pos rfl]
    exact readName_append

section Objects

variable {key : JsString} {members : List (JsString × JsonValue)} {fuel : Nat}

def memberText (key : JsString) (value : JsonValue) : JsString :=
  quote key ++ utf16 ":" ++ stringify value

theorem isSpace_of_delimited (h : Delimited (u :: rest)) : isSpace u = false := by
  rcases h u rfl with rfl | rfl | rfl <;> rfl

theorem readMembers_member (reads : Reads value) (enough : (stringify value).length < fuel)
    (h : Delimited (u :: rest)) : readMembers (fuel + 1) (memberText key value ++ u :: rest)
      = if u = codeUnit ',' then (readMembers fuel rest).map (·.map ((key, value) :: ·) id)
        else if u = codeUnit '\x7d' then some ([(key, value)], rest)
        else none := by
  have text : memberText key value ++ u :: rest = codeUnit '"' :: (escaped key
      ++ codeUnit '"' :: codeUnit ':' :: (stringify value ++ u :: rest)) := by
    rw [memberText, quote]
    simp only [List.append_assoc, List.cons_append, List.nil_append]
    rfl
  rw [text, readMembers, skipSpace_cons (by decide)]
  dsimp only
  rw [if_pos rfl, readString_escaped]
  dsimp only [Option.bind_eq_bind, Option.bind_some]
  rw [skipSpace_cons (by decide)]
  dsimp only
  rw [if_pos rfl, reads fuel _ enough h]
  dsimp only [Option.bind_some]
  rw [skipSpace_cons (isSpace_of_delimited h)]

theorem serializeMembers_cons : serializeMembers [] [] ((key, value) :: members)
    = memberText key value :: serializeMembers [] [] members := rfl

theorem length_stringify : (stringify value).length + 3 ≤ (memberText key value).length := by
  have colon : (utf16 ":").length = 1 := by decide
  rw [memberText, quote, List.length_append, List.length_append, List.length_append, List.length_cons,
    colon, List.length_singleton]
  omega

/-- The members as they are written, up to the brace after the last one. -/
theorem readMembers_serialize (reads : ∀ member ∈ (key, value) :: members, Reads member.2)
    (enough : ((utf16 ",").intercalate (serializeMembers [] [] ((key, value) :: members))).length < fuel) :
    readMembers fuel ((utf16 ",").intercalate (serializeMembers [] [] ((key, value) :: members))
      ++ codeUnit '\x7d' :: rest) = some ((key, value) :: members, rest) := by
  induction members generalizing key value fuel with
  | nil =>
      obtain ⟨fuel, rfl⟩ := Nat.exists_eq_add_of_lt enough
      have long : (stringify value).length + 3 ≤ (memberText key value).length := length_stringify
      rw [serializeMembers_cons, serializeMembers, List.intercalate_singleton] at enough ⊢
      have short : (stringify value).length < (memberText key value).length + fuel := by omega
      rw [readMembers_member (reads _ List.mem_cons_self) short (by simp [Delimited]),
        if_neg (by decide), if_pos rfl]
  | cons next members ih =>
      obtain ⟨nextKey, nextValue⟩ := next
      obtain ⟨fuel, rfl⟩ := Nat.exists_eq_add_of_lt enough
      have long : (stringify value).length + 3 ≤ (memberText key value).length := length_stringify
      have comma : (utf16 ",").length = 1 := by decide
      have parts : (utf16 ",").intercalate
          (serializeMembers [] [] ((key, value) :: (nextKey, nextValue) :: members))
          = memberText key value ++ codeUnit ',' :: (utf16 ",").intercalate
            (serializeMembers [] [] ((nextKey, nextValue) :: members)) := by
        rw [serializeMembers_cons, serializeMembers_cons, List.intercalate_cons_cons, List.append_assoc]
        rfl
      rw [parts, List.length_append, List.length_cons, List.append_assoc, List.cons_append]
      rw [parts, List.length_append, List.length_cons] at enough
      rw [readMembers_member (reads _ List.mem_cons_self) (show (stringify value).length < _ by omega)
        (by simp [Delimited]), if_pos rfl,
        ih (fun member mem => reads member (List.mem_cons_of_mem _ mem)) (by omega)]
      rfl

/-- The members come back as they were. -/
def Ordered (members : List (JsString × JsonValue)) : Prop :=
  (members.map (·.1)).Nodup ∧ ∀ member ∈ members, arrayIndex? member.1 = none

theorem ofMembers_of_ordered (h : Ordered members) : ofMembers members = .obj members := by
  suffices step : ∀ object : List (JsString × JsonValue), ((object ++ members).map (·.1)).Nodup →
      members.foldl (fun object member => setMember object member.1 member.2) object
        = object ++ members by
    rw [ofMembers, step [] h.1, List.nil_append]
  have names := h.2
  clear h
  induction members with
  | nil => exact fun object _ => (List.append_nil object).symm
  | cons member members ih =>
      intro object distinct
      rw [show object ++ member :: members = object ++ [member] ++ members by simp] at distinct ⊢
      have absent : member.1 ∉ object.map (·.1) := by
        rw [List.map_append, List.map_append, List.nodup_append, List.nodup_append] at distinct
        exact fun mem => distinct.1.2.2 _ mem member.1 (by simp) rfl
      rw [List.foldl_cons, setMember, names member List.mem_cons_self]
      dsimp only
      rw [OrderedMap.set_of_not_mem absent]
      exact ih (fun other mem => names other (List.mem_cons_of_mem _ mem)) _ distinct

theorem exists_intercalate_members (h : members ≠ []) : ∃ tail,
    (utf16 ",").intercalate (serializeMembers [] [] members) = codeUnit '"' :: tail := by
  match members, h with
  | [(key, value)], _ => exact ⟨_, rfl⟩
  | (key, value) :: (nextKey, nextValue) :: members, _ =>
      rw [serializeMembers_cons, serializeMembers_cons, List.intercalate_cons_cons, memberText, quote]
      exact ⟨_, rfl⟩

theorem reads_obj (reads : ∀ member ∈ members, Reads member.2) (ordered : Ordered members) :
    Reads (.obj members) := by
  intro fuel rest enough _
  cases fuel with
  | zero => exact absurd enough (Nat.not_lt_zero _)
  | succ fuel =>
      cases members with
      | nil =>
          have text : stringify (.obj []) ++ rest = codeUnit '\x7b' :: codeUnit '\x7d' :: rest := rfl
          rw [text, readValue, skipSpace_cons (by decide)]
          dsimp only
          rw [if_pos rfl, skipSpace_cons (by decide)]
          rfl
      | cons first members =>
          obtain ⟨key, value⟩ := first
          have parts : stringify (.obj ((key, value) :: members)) = codeUnit '\x7b'
              :: ((utf16 ",").intercalate (serializeMembers [] [] ((key, value) :: members))
                ++ [codeUnit '\x7d']) := rfl
          obtain ⟨tail, quoted⟩ :=
            exists_intercalate_members (List.cons_ne_nil (key, value) members)
          rw [parts, List.length_cons, List.length_append, List.length_singleton] at enough
          have inside : ((utf16 ",").intercalate (serializeMembers [] [] ((key, value) :: members))).length
              < fuel := by omega
          rw [parts, List.cons_append, List.append_assoc, List.singleton_append, readValue,
            skipSpace_cons (by decide)]
          dsimp only
          have notEmpty : ¬ (skipSpace ((utf16 ",").intercalate
              (serializeMembers [] [] ((key, value) :: members)) ++ codeUnit '\x7d' :: rest)).head?
                = some (codeUnit '\x7d') := by
            rw [quoted, List.cons_append, skipSpace_cons (by decide)]
            exact fun same => absurd (Option.some.inj same) (by decide)
          rw [if_pos rfl, if_neg notEmpty, readMembers_serialize reads inside, Option.map_some,
            Prod.map_apply, ofMembers_of_ordered ordered]
          rfl

end Objects

/-- `JSON.parse(JSON.stringify(value))`. -/
theorem parse_stringify (reads : Reads value) : parse (stringify value) = some value := by
  have whole := reads ((stringify value).length + 1) [] (Nat.lt_succ_self _) (by simp [Delimited])
  rw [List.append_nil] at whole
  rw [parse, whole]
  rfl

section Lines

/-- The names and marks between the strings and the numbers of a text. -/
def marks : List String := ["null", "true", "false", ",", ":", ": ", "[", "]", "\x7b", "\x7d"]

/-- A property that all parts of written texts have, and that holds of one text after another. -/
structure Closed (gap : JsString) (P : JsString → Prop) : Prop where
  nil : P []
  append : ∀ {u v}, P u → P v → P (u ++ v)
  quote : ∀ text, P (quote text)
  number : ∀ x : Double, P x.toText
  mark : ∀ name ∈ marks, P (utf16 name)
  line : gap ≠ [] → ∀ n, P (utf16 "\n" ++ List.replicate n (codeUnit ' '))

variable {gap indent : JsString} {P : JsString → Prop} {n : Nat}

theorem Closed.intercalate {separator : JsString} {parts : List JsString} (h : Closed gap P)
    (hseparator : P separator) (hparts : ∀ part ∈ parts, P part) :
    P (separator.intercalate parts) := by
  induction parts with
  | nil => exact h.nil
  | cons part parts ih =>
      have rest := ih fun other mem => hparts other (List.mem_cons_of_mem _ mem)
      have first := hparts part List.mem_cons_self
      cases parts with
      | nil => rwa [List.intercalate_singleton]
      | cons next parts =>
          rw [List.intercalate_cons_cons]
          exact h.append (h.append first hseparator) rest

theorem Closed.bracketed {first last : Char} {parts : List JsString} {m : Nat}
    (h : Closed (List.replicate m (codeUnit ' ')) P) (hfirst : P [codeUnit first])
    (hlast : P [codeUnit last]) (hparts : ∀ part ∈ parts, P part) :
    P (bracketed (List.replicate m (codeUnit ' ')) (List.replicate n (codeUnit ' ')) first last parts) := by
  have comma := h.mark "," (by decide)
  unfold JsonValue.bracketed
  split
  · exact h.append (v := [codeUnit last]) hfirst hlast
  · split
    · exact h.append (h.append hfirst (h.intercalate comma hparts)) hlast
    · rename_i some
      have inner := h.line some (n + m)
      rw [List.replicate_add, ← List.append_assoc] at inner
      have separator : P (utf16 ",\n" ++ List.replicate n (codeUnit ' ')
          ++ List.replicate m (codeUnit ' ')) := by
        rw [show utf16 ",\n" = utf16 "," ++ utf16 "\n" by decide, List.append_assoc, List.append_assoc,
          ← List.append_assoc (utf16 "\n")]
        exact h.append comma inner
      have start : P (codeUnit first :: utf16 "\n" ++ List.replicate n (codeUnit ' ')
          ++ List.replicate m (codeUnit ' ')) := by
        rw [List.append_assoc, List.cons_append, ← List.append_assoc (utf16 "\n")]
        exact h.append (u := [codeUnit first]) hfirst inner
      have items := h.append start (h.intercalate separator hparts)
      rw [List.append_assoc (_ ++ List.intercalate _ _)]
      exact h.append (h.append items (h.line some n)) hlast

mutual

theorem Closed.serialize (h : Closed (List.replicate n (codeUnit ' ')) P) (m : Nat) :
    ∀ value, P (serialize (List.replicate n (codeUnit ' ')) (List.replicate m (codeUnit ' ')) value)
  | .null => h.mark "null" (by decide)
  | .bool false => h.mark "false" (by decide)
  | .bool true => h.mark "true" (by decide)
  | .num (.infinite _) => h.mark "null" (by decide)
  | .num (.finite b significand exponent) => h.number (.finite b significand exponent)
  | .str text => h.quote text
  | .arr items => by
      rw [JsonValue.serialize, ← List.replicate_add]
      exact h.bracketed (h.mark "[" (by decide)) (h.mark "]" (by decide)) (h.items (m + n) items)
  | .obj members => by
      rw [JsonValue.serialize, ← List.replicate_add]
      exact h.bracketed (h.mark "\x7b" (by decide)) (h.mark "\x7d" (by decide))
        (h.members (m + n) members)

theorem Closed.items (h : Closed (List.replicate n (codeUnit ' ')) P) (m : Nat) :
    ∀ items, ∀ part ∈ serializeItems (List.replicate n (codeUnit ' '))
      (List.replicate m (codeUnit ' ')) items, P part
  | [], _, mem => nomatch mem
  | item :: items, part, mem => by
      rcases List.mem_cons.mp mem with rfl | later
      · exact h.serialize m item
      · exact h.items m items part later

theorem Closed.members (h : Closed (List.replicate n (codeUnit ' ')) P) (m : Nat) :
    ∀ members, ∀ part ∈ serializeMembers (List.replicate n (codeUnit ' '))
      (List.replicate m (codeUnit ' ')) members, P part
  | [], _, mem => nomatch mem
  | (key, value) :: members, part, mem => by
      rcases List.mem_cons.mp mem with rfl | later
      · refine h.append (h.append (h.quote key) ?_) (h.serialize m value)
        split
        · exact h.mark ":" (by decide)
        · exact h.mark ": " (by decide)
      · exact h.members m members part later

end

theorem not_mem_escapedUnit : lineFeed ∉ escapedUnit u := by
  unfold escapedUnit
  split
  · rename_i e found
    have letters : ∀ e ∈ escapes, lineFeed ∉ [codeUnit '\\', e.1] := by decide
    exact letters e (List.mem_of_find?_eq_some found)
  · split
    · intro inText
      rcases List.mem_append.mp inText with inMark | inHex
      · exact absurd inMark (by decide)
      · obtain ⟨d, digit, same⟩ := List.mem_map.mp inHex
        have small : d < 16 := by
          have := u.toNat_lt
          simp only [List.mem_cons, List.not_mem_nil, or_false] at digit
          omega
        interval_cases d <;> exact absurd same (by decide)
    · rename_i plain
      rw [not_or, UInt16.not_lt] at plain
      intro inText
      rw [← List.mem_singleton.mp inText] at plain
      exact absurd plain.1 (by decide)

theorem not_mem_escaped : lineFeed ∉ escaped text := by
  fun_induction escaped text with
  | case1 high low text pair ih =>
      have surrogates : ∀ c, isHighSurrogate c = true ∨ isLowSurrogate c = true → lineFeed ≠ c := by
        rintro c surrogate rfl
        exact absurd surrogate (by decide)
      simp only [List.mem_cons, not_or]
      exact ⟨surrogates high (.inl pair.1), surrogates low (.inr pair.2), ih⟩
  | case2 high low text other ih =>
      intro mem
      exact (List.mem_append.mp mem).elim not_mem_escapedUnit ih
  | case3 u => exact not_mem_escapedUnit
  | case4 => exact List.not_mem_nil

theorem not_mem_quote : lineFeed ∉ quote text := by
  rw [quote, List.mem_append, List.mem_cons]
  rintro ((first | inside) | last)
  · exact absurd first (by decide)
  · exact not_mem_escaped inside
  · exact absurd last (by decide)

theorem not_mem_stringify (value : JsonValue) : lineFeed ∉ stringify value := by
  have closed : Closed (List.replicate 0 (codeUnit ' ')) (lineFeed ∉ ·) :=
    { nil := List.not_mem_nil
      append := fun hu hv mem => (List.mem_append.mp mem).elim hu hv
      quote := fun _ => not_mem_quote
      number := fun x mem => absurd (Double.units_toText x _ mem) (by decide)
      mark := by decide
      line := fun some => absurd rfl some }
  exact closed.serialize 0 value

/-- No line of a value that is written on several lines begins with an equals sign. -/
theorem unmarked_pretty (value : JsonValue) :
    Unmarked [codeUnit '='] (lineFeed :: pretty n value) := by
  have without : ∀ {t : JsString}, codeUnit '=' ∉ t → Unmarked [codeUnit '='] (lineFeed :: t) :=
    fun h => unmarked_of_absent fun found => h (found.subset List.mem_cons_self)
  have closed : Closed (List.replicate n (codeUnit ' '))
      (fun t => Unmarked [codeUnit '='] (lineFeed :: t)) :=
    { nil := without List.not_mem_nil
      append := Unmarked.lineFeed_append
      quote := fun text => (unmarked_of_not_mem not_mem_quote).lineFeed_cons (by decide)
      number := fun x => without fun mem => absurd (Double.units_toText x _ mem) (by decide)
      mark := fun name mem => without (by revert name; decide)
      line := fun _ m => without fun mem => by
        rcases List.mem_append.mp mem with first | inSpaces
        · exact absurd first (by decide)
        · exact absurd (List.eq_of_mem_replicate inSpaces) (by decide) }
  exact closed.serialize 0 value

end Lines

end JsonValue

end GhcpConsole
