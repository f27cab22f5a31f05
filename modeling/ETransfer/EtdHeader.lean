import ETransfer.EtdDataPath
import Mathlib.Tactic.Ring
import Mathlib.Data.Nat.Digits

/-!
# The data header: `rxCommand`, `rxKeyValue`, `getKeyValuePairs` and `string2off_t`

`ETDDataServer::handle` finds a header `{...}` at the start of its buffer with `rxCommand`, splits
its inside into key-value pairs with the `regex_iterator` of `getKeyValuePairs` over `rxKeyValue`
(ECMAScript, case-insensitive), strips backslashes with `unSlash`, and reads the size with
`string2off_t`. The matcher of `rxKeyValue` is written by hand, one definition per part of the
pattern, in the order the backtracking engine tries the alternatives.

Proved here: a match always consumes input, so the iterator ends; and the headers `sendFile` and
`getFile` write decode to their UUID, size and `push` flag for every UUID that is a value token
(`isValueToken`: not empty, no blank, `,`, `}` or `\`, and no second `"` after a first one) and
every non-negative size that fits `long`. A UUID with a `,` is cut short at it.
-/

namespace ETransfer.EtdHeader

open EtdRegistry

/-- `\w` of ECMAScript, the characters `\b` tells from the others. -/
def isWordChar (c : Char) : Bool := c.isAlphanum || c == '_'

/-- `\s`, and `isspace` of the classic locale: space, `\t`, `\n`, `\v`, `\f` and `\r`. -/
def isSpaceChar (c : Char) : Bool :=
  c == ' ' || c == '\t' || c == '\n' || c == '\x0B' || c == '\x0C' || c == '\r'

/-- `[a-zA-Z0-9_-]`, the characters of a key after its first. -/
def isKeyChar (c : Char) : Bool := c.isAlphanum || c == '_' || c == '-'

/-- `[^, \t\v]`, the characters of a bare value. -/
def isBareChar (c : Char) : Bool := !(c == ',' || c == ' ' || c == '\t' || c == '\x0B')

/-- `.` of ECMAScript: any character but a line terminator. -/
def isDotChar (c : Char) : Bool := !(c == '\n' || c == '\r')

/-- The position of the last `"` in a list. -/
def lastQuote : List Char → Option ℕ
  | [] => none
  | c :: cs =>
    match lastQuote cs with
    | some i => some (i + 1)
    | none => if c == '"' then some 0 else none

/-- A match of `rxKeyValue`: group 1, group 2, group 3 (empty when the bare alternative matched)
and what follows the match. -/
structure KvMatch where
  /-- Group 1, the key. -/
  key : List Char
  /-- Group 2, the whole value. -/
  value : List Char
  /-- Group 3, the inside of a quoted value. -/
  quoted : List Char
  /-- The characters after the match. -/
  rest : List Char

/-- The value group `("(.*(?!\\))"|[^, \t\v]+)` at the start of `t`, alternatives in order: a `"`
then `.*` backed off to the last `"` before a line end (the look-ahead always holds there), else a
run of bare characters. -/
def valueAt (key t : List Char) : Option KvMatch :=
  match t with
  | '"' :: u =>
    match lastQuote (u.takeWhile isDotChar) with
    | some q => some ⟨key, '"' :: u.take q ++ ['"'], u.take q, u.drop (q + 1)⟩
    | none => some ⟨key, t.takeWhile isBareChar, [], t.dropWhile isBareChar⟩
  | c :: _ =>
    if isBareChar c then some ⟨key, t.takeWhile isBareChar, [], t.dropWhile isBareChar⟩ else none
  | [] => none

/-- `\s*` then the value: the greedy `\s*` gives back one space at a time until a value matches. -/
def spacesValue (key : List Char) : List Char → Option KvMatch
  | [] => none
  | c :: cs =>
    if isSpaceChar c then
      match spacesValue key cs with
      | some m => some m
      | none => valueAt key (c :: cs)
    else valueAt key (c :: cs)

/-- `rxKeyValue` at the start of `s`, past its `\b`: `[a-zA-Z]`, the greedy `[a-zA-Z0-9_-]+`,
`\s*`, `:`, `\s*` and the value. Backing off into the key or into the first `\s*` never helps:
after a shorter run comes a key character or a space, and neither is `:`. -/
def matchKeyValue : List Char → Option KvMatch
  | [] => none
  | c :: cs =>
    if c.isAlpha && !(cs.takeWhile isKeyChar).isEmpty then
      match (cs.dropWhile isKeyChar).dropWhile isSpaceChar with
      | ':' :: t => spacesValue (c :: cs.takeWhile isKeyChar) t
      | _ => none
    else none

/-- `\b` between `prev` and `c`; at the start of the range (`prev = none`) the left side counts as
a non-word character. -/
def wordBoundary (prev : Option Char) (c : Char) : Bool :=
  (prev.map isWordChar).getD false != isWordChar c

/-- `regex_search` for `rxKeyValue` in `s`: the match at the first position where one starts;
`prev` is the character before `s`. -/
def searchKeyValue : Option Char → List Char → Option KvMatch
  | _, [] => none
  | prev, c :: cs =>
    match (if wordBoundary prev c then matchKeyValue (c :: cs) else none) with
    | some m => some m
    | none => searchKeyValue (some c) cs

section Progress

variable {key t s : List Char} {m : KvMatch} {prev : Option Char}

theorem length_dropWhile_lt {p : Char → Bool} {c : Char} {cs : List Char} (h : p c = true) :
    ((c :: cs).dropWhile p).length < (c :: cs).length := by
  rw [List.dropWhile_cons_of_pos h]
  exact Nat.lt_succ_of_le (List.dropWhile_suffix p).length_le

/-- A value consumes at least one character. -/
theorem valueAt_rest (h : valueAt key t = some m) : m.rest.length < t.length := by
  unfold valueAt at h
  split at h
  · split at h <;> cases h
    · simp only [List.length_drop, List.length_cons]; omega
    · dsimp only; exact length_dropWhile_lt (by decide)
  · split at h
    · cases h; exact length_dropWhile_lt ‹_›
    · cases h
  · cases h

theorem spacesValue_rest (h : spacesValue key t = some m) : m.rest.length < t.length := by
  induction t with
  | nil => cases h
  | cons c cs ih =>
    simp only [spacesValue] at h
    split_ifs at h
    · split at h
      · cases h; exact Nat.lt_succ_of_lt (ih ‹_›)
      · exact valueAt_rest h
    · exact valueAt_rest h

theorem matchKeyValue_rest (h : matchKeyValue s = some m) : m.rest.length < s.length := by
  cases s with
  | nil => cases h
  | cons c cs =>
    simp only [matchKeyValue] at h
    split_ifs at h
    split at h
    · next t ht =>
      have hlen := congrArg List.length ht
      have h₁ := (List.dropWhile_suffix isSpaceChar (l := cs.dropWhile isKeyChar)).length_le
      have h₂ := (List.dropWhile_suffix isKeyChar (l := cs)).length_le
      have := spacesValue_rest h
      simp only [List.length_cons] at hlen ⊢
      omega
    · cases h

/-- A match ends after it starts, so the `regex_iterator` loop ends. -/
theorem searchKeyValue_rest (h : searchKeyValue prev s = some m) : m.rest.length < s.length := by
  induction s generalizing prev with
  | nil => cases h
  | cons c cs ih =>
    simp only [searchKeyValue] at h
    split at h
    · next hm =>
      cases h
      split_ifs at hm
      exact matchKeyValue_rest hm
    · exact Nat.lt_succ_of_lt (ih h)

end Progress

/-- The `regex_iterator` loop of `getKeyValuePairs`: each search starts where the last match ended,
with the last matched character visible to `\b`. -/
def keyValues (prev : Option Char) (s : List Char) : List KvMatch :=
  match _hm : searchKeyValue prev s with
  | none => []
  | some m => m :: keyValues m.value.getLast? m.rest
termination_by s.length
decreasing_by exact searchKeyValue_rest _hm

/-- `unSlash`: `regex_replace` of `rxSlash` by nothing drops every backslash. -/
def unSlash (s : List Char) : List Char := s.filter (· != '\\')

/-- Two keys `etdc::case_insensitive_lt` does not tell apart: equal up to case. -/
def sameKey (a b : String) : Bool := a.toList.map Char.toLower == b.toList.map Char.toLower

/-- Key lookup in `kvmap_type`, whose order `etdc::case_insensitive_lt` compares keys up to case. -/
def lookupKey (kv : List (String × String)) (k : String) : Option String :=
  (kv.find? (sameKey ·.1 k)).map (·.2)

/-- Modelled from the spec: `etdc::no_duplicates_inserter` and `etdc::case_insensitive_lt` are not
in the source; "duplicate keys are a protocol error", keys compared up to case. -/
def insertNoDup (kv : List (String × String)) (k v : String) :
    Except String (List (String × String)) :=
  if (lookupKey kv k).isSome then .error s!"duplicate key {k}" else .ok (kv ++ [(k, v)])

/-- `getKeyValuePairs` into `no_duplicates_inserter`: each match in turn, its value group 3 when
that is not empty and group 2 otherwise, backslashes removed. -/
def getKeyValuePairs (fields : List Char) : Except String (List (String × String)) :=
  (keyValues none fields).foldlM (fun kv m => insertNoDup kv (String.mk m.key)
    (String.mk (unSlash (if m.quoted.length ≠ 0 then m.quoted else m.value)))) []

/-- The value of a run of decimal digits. -/
def decimalValue (ds : List Char) : ℕ := ds.foldl (fun v d => 10 * v + (d.toNat - '0'.toNat)) 0

/-- `string2off_t`, that is `std::stol`: leading white space, an optional sign, then the longest
run of decimal digits, at least one (else `std::invalid_argument`), its value within `long` (else
`std::out_of_range`); what follows the digits is ignored. -/
def string2offT (s : String) : Except String ℤ :=
  let t := s.toList.dropWhile isSpaceChar
  let signed : Bool × List Char :=
    match t with
    | '-' :: u => (true, u)
    | '+' :: u => (false, u)
    | u => (false, u)
  let ds := signed.2.takeWhile Char.isDigit
  if ds = [] then .error "stol"
  else
    let v : ℤ := if signed.1 then -(decimalValue ds : ℤ) else decimalValue ds
    if v < -2 ^ 63 ∨ 2 ^ 63 ≤ v then .error "stol" else .ok v

/-- `rxCommand`, `^(\{([^\}]*)\})`, searched in `buffer[0, curPos)`: the fields between the `{`
at the start and the first `}`, and the bytes after that `}`. -/
def rxCommand : List Char → Option (List Char × List Char)
  | '\x7b' :: cs =>
    if '\x7d' ∈ cs then some (cs.takeWhile (· != '\x7d'), (cs.dropWhile (· != '\x7d')).tail) else none
  | _ => none

/-- The checks of `ETDDataServer::handle` on a header's fields: `uuid` and `sz` present, `push`
absent or `1`, and `sz` read by `string2off_t`. Gives the UUID, the size and whether to push. -/
def decodeHeader (fields : List Char) : Except String (Uuid × ℤ × Bool) :=
  match getKeyValuePairs fields with
  | .error e => .error e
  | .ok kv =>
    match lookupKey kv "uuid", lookupKey kv "sz" with
    | none, _ => .error "No UUID was sent"
    | some _, none => .error "No amount was sent"
    | some uuid, some sz =>
      if (lookupKey kv "push").all (· == "1") then
        (string2offT sz).map fun n => (uuid, n, (lookupKey kv "push").isSome)
      else .error "push keyword may only take one specific value"

section Decoding

variable {prev : Option Char} {s k v t : List Char} {m : KvMatch}

theorem keyValues_of_some (h : searchKeyValue prev s = some m) :
    keyValues prev s = m :: keyValues m.value.getLast? m.rest := by
  rw [keyValues]; split <;> simp_all

theorem keyValues_of_none (h : searchKeyValue prev s = none) : keyValues prev s = [] := by
  rw [keyValues]; split <;> simp_all

/-- The characters the UUIDs of the daemon are made of: letters, digits and `-`. -/
def isUuidChar (c : Char) : Bool := c.isAlphanum || c == '-'

/-- A UUID character is a bare value character and none of the characters the header parser
treats apart. -/
theorem uuidChar_facts {c : Char} (h : isUuidChar c = true) :
    isBareChar c = true ∧ isSpaceChar c = false ∧ c ≠ '"' ∧ c ≠ '\x7d' ∧ c ≠ '\\' := by
  have key : ∀ d ∈ [',', ' ', '\t', '\x0B', '\n', '\x0C', '\r', '"', '\x7d', '\\'], c ≠ d := by
    rintro d hd rfl
    simp only [List.mem_cons, List.mem_singleton, List.not_mem_nil, or_false] at hd
    rcases hd with rfl | rfl | rfl | rfl | rfl | rfl | rfl | rfl | rfl | rfl <;>
      exact absurd h (by decide)
  simp only [isBareChar, isSpaceChar, Bool.not_eq_true', Bool.or_eq_false_iff, beq_eq_false_iff_ne]
  exact ⟨⟨⟨⟨key _ (by simp), key _ (by simp)⟩, key _ (by simp)⟩, key _ (by simp)⟩,
    ⟨⟨⟨⟨⟨key _ (by simp), key _ (by simp)⟩, key _ (by simp)⟩, key _ (by simp)⟩, key _ (by simp)⟩,
      key _ (by simp)⟩, key _ (by simp), key _ (by simp), key _ (by simp)⟩

theorem takeWhile_stop {p : Char → Bool} {l t : List Char} {c : Char} (hl : ∀ x ∈ l, p x = true)
    (hc : p c = false) : (l ++ c :: t).takeWhile p = l := by
  rw [List.takeWhile_append_of_pos hl, List.takeWhile_cons_of_neg (by simp [hc]), List.append_nil]

theorem dropWhile_stop {p : Char → Bool} {l t : List Char} {c : Char} (hl : ∀ x ∈ l, p x = true)
    (hc : p c = false) : (l ++ c :: t).dropWhile p = c :: t := by
  rw [List.dropWhile_append_of_pos hl, List.dropWhile_cons_of_neg (by simp [hc])]

/-- A value that does not start with `"` is a run of bare characters. -/
theorem valueAt_of_ne_quote {c : Char} {u : List Char} (hq : c ≠ '"') :
    valueAt k (c :: u) = if isBareChar c then
      some ⟨k, (c :: u).takeWhile isBareChar, [], (c :: u).dropWhile isBareChar⟩ else none := by
  unfold valueAt
  split <;> rename_i h
  · exact absurd (List.cons.inj h).1 hq
  · obtain ⟨rfl, -⟩ := List.cons.inj h; rfl
  · cases h

/-- A token the header parser reads back whole as a bare value: not empty, with no blank, `,`,
`}` or `\`, and no second `"` when it starts with one (a `"` first opens a quoted value that runs
to the last `"`). -/
def isValueToken : List Char → Bool
  | [] => false
  | c :: cs => (c :: cs).all (fun x => !isSpaceChar x && x != ',' && x != '\x7d' && x != '\\') &&
      (c != '"' || !cs.contains '"')

theorem valueToken_facts (h : isValueToken v = true) :
    v ≠ [] ∧ (∀ x ∈ v, isBareChar x = true ∧ isSpaceChar x = false ∧ x ≠ '\x7d' ∧ x ≠ '\\') ∧
      ∀ c cs, v = c :: cs → c = '"' → '"' ∉ cs := by
  cases v with
  | nil => cases h
  | cons c cs =>
    simp only [isValueToken, Bool.and_eq_true, List.all_eq_true, Bool.not_eq_true',
      bne_iff_ne, ne_eq] at h
    refine ⟨List.cons_ne_nil _ _, fun x hx => ?_, ?_⟩
    · obtain ⟨⟨⟨hs, hcomma⟩, hb⟩, hbs⟩ := h.1 x hx
      refine ⟨?_, hs, hb, hbs⟩
      simp only [isSpaceChar, Bool.or_eq_false_iff, beq_eq_false_iff_ne] at hs
      simp only [isBareChar, Bool.not_eq_true', Bool.or_eq_false_iff, beq_eq_false_iff_ne]
      exact ⟨⟨⟨hcomma, hs.1.1.1.1.1⟩, hs.1.1.1.1.2⟩, hs.1.1.2⟩
    · rintro c' cs' heq rfl
      obtain ⟨rfl, rfl⟩ := List.cons.inj heq
      simpa [List.contains, List.elem_iff] using h.2

/-- The daemon's UUIDs are value tokens. -/
theorem isValueToken_of_uuid (hv : v ≠ []) (hc : ∀ c ∈ v, isUuidChar c = true) :
    isValueToken v = true := by
  obtain ⟨c, v', rfl⟩ := List.exists_cons_of_ne_nil hv
  have hq := (uuidChar_facts (hc c (List.mem_cons_self _ _))).2.2.1
  simp only [isValueToken, Bool.and_eq_true, List.all_eq_true]
  refine ⟨fun x hx => ?_, by simp [hq]⟩
  obtain ⟨hb, hs, -, hbr, hbs⟩ := uuidChar_facts (hc x hx)
  simp only [isBareChar, Bool.not_eq_true', Bool.or_eq_false_iff, beq_eq_false_iff_ne] at hb
  simp [hs, hb.1.1.1, hbr, hbs]

theorem lastQuote_of_not_mem {l : List Char} (h : '"' ∉ l) : lastQuote l = none := by
  induction l with
  | nil => rfl
  | cons c l ih =>
    rw [lastQuote, ih fun h' => h (List.mem_cons_of_mem _ h')]
    have hc : c ≠ '"' := fun e => h (e ▸ List.mem_cons_self _ _)
    simp [hc]

/-- A value token followed by a `,` or by nothing, with no `"` after it when it starts with one,
is a bare value. -/
theorem spacesValue_token (hv : isValueToken v = true) (ht : t = [] ∨ t.head? = some ',')
    (hq : v.head? = some '"' → '"' ∉ t) : spacesValue k (v ++ t) = some ⟨k, v, [], t⟩ := by
  obtain ⟨hne, hall, hfirst⟩ := valueToken_facts hv
  obtain ⟨c, v', rfl⟩ := List.exists_cons_of_ne_nil hne
  have hb : ∀ x ∈ c :: v', isBareChar x = true := fun x hx => (hall x hx).1
  have hrun : ((c :: v') ++ t).takeWhile isBareChar = c :: v' ∧
      ((c :: v') ++ t).dropWhile isBareChar = t := by
    rcases ht with rfl | ht
    · simp only [List.append_nil, List.takeWhile_eq_self_iff.mpr hb,
        List.dropWhile_eq_nil_iff.mpr hb, and_self]
    · obtain ⟨t', rfl⟩ : ∃ t', t = ',' :: t' := by
        cases t with
        | nil => cases ht
        | cons d t' => cases ht; exact ⟨t', rfl⟩
      exact ⟨takeWhile_stop hb rfl, dropWhile_stop hb rfl⟩
  have hval : valueAt k ((c :: v') ++ t) = some ⟨k, c :: v', [], t⟩ := by
    by_cases hc : c = '"'
    · -- a lone `"` first: no quoted value closes, and the bare alternative matches
      subst hc
      have hnq : '"' ∉ (v' ++ t).takeWhile isDotChar := fun h => by
        rcases List.mem_append.mp (List.takeWhile_subset _ h) with h | h
        · exact hfirst _ _ rfl rfl h
        · exact hq rfl h
      rw [List.cons_append, valueAt]
      simp only [lastQuote_of_not_mem hnq]
      rw [← List.cons_append, hrun.1, hrun.2]
    · rw [List.cons_append, valueAt_of_ne_quote hc, if_pos (hb c (List.mem_cons_self _ _)),
        ← List.cons_append, hrun.1, hrun.2]
  rw [List.cons_append, spacesValue, if_neg (by simp [(hall c (List.mem_cons_self _ _)).2.1]),
    ← List.cons_append, hval]

/-- A run of UUID characters followed by a `,` or by nothing is a bare value. -/
theorem spacesValue_uuid (hv : v ≠ []) (hc : ∀ c ∈ v, isUuidChar c = true)
    (ht : t = [] ∨ t.head? = some ',') : spacesValue k (v ++ t) = some ⟨k, v, [], t⟩ := by
  refine spacesValue_token (isValueToken_of_uuid hv hc) ht fun h => absurd h ?_
  obtain ⟨c, v', rfl⟩ := List.exists_cons_of_ne_nil hv
  simpa using (uuidChar_facts (hc c (List.mem_cons_self _ _))).2.2.1

/-- A key, a `:` and what `spacesValue` matches after it. -/
theorem matchKeyValue_of_spacesValue {k₀ : Char} (hk₀ : k₀.isAlpha = true) (hk : k ≠ [])
    (hkc : ∀ c ∈ k, isKeyChar c = true) (hs : spacesValue (k₀ :: k) t = some m) :
    matchKeyValue (k₀ :: (k ++ ':' :: t)) = some m := by
  rw [matchKeyValue, takeWhile_stop hkc (c := ':') rfl, dropWhile_stop hkc (c := ':') rfl,
    if_pos (by simp [hk₀, hk])]
  simp only [List.dropWhile_cons_of_neg (show ¬ isSpaceChar ':' = true by decide)]
  exact hs

/-- A pair `key:value` of a key and a UUID-character value, followed by a `,` or by nothing. -/
theorem matchKeyValue_pair {k₀ : Char} (hk₀ : k₀.isAlpha = true) (hk : k ≠ [])
    (hkc : ∀ c ∈ k, isKeyChar c = true) (hv : v ≠ []) (hvc : ∀ c ∈ v, isUuidChar c = true)
    (ht : t = [] ∨ t.head? = some ',') :
    matchKeyValue (k₀ :: (k ++ ':' :: (v ++ t))) = some ⟨k₀ :: k, v, [], t⟩ :=
  matchKeyValue_of_spacesValue hk₀ hk hkc (spacesValue_uuid hv hvc ht)

/-- A letter or `-` starts no match. -/
theorem searchKeyValue_skip {c : Char} (hc : c.isAlpha = false) :
    searchKeyValue prev (c :: s) = searchKeyValue (some c) s := by
  simp [searchKeyValue, matchKeyValue, hc]

theorem searchKeyValue_here {c : Char} (hb : wordBoundary prev c = true)
    (hm : matchKeyValue (c :: s) = some m) : searchKeyValue prev (c :: s) = some m := by
  simp [searchKeyValue, hb, hm]

theorem keyValues_skip {c : Char} (hc : c.isAlpha = false) :
    keyValues prev (c :: s) = keyValues (some c) s := by
  cases h : searchKeyValue (some c) s with
  | none => rw [keyValues_of_none h, keyValues_of_none ((searchKeyValue_skip hc).trans h)]
  | some m => rw [keyValues_of_some h, keyValues_of_some ((searchKeyValue_skip hc).trans h)]

/-- A `key:value` pair at a word boundary, followed by a `,`, is the next match. -/
theorem keyValues_pair {k₀ : Char} (hb : wordBoundary prev k₀ = true) (hk₀ : k₀.isAlpha = true)
    (hk : k ≠ []) (hkc : ∀ c ∈ k, isKeyChar c = true) (hv : v ≠ [])
    (hvc : ∀ c ∈ v, isUuidChar c = true) :
    keyValues prev (k₀ :: (k ++ ':' :: (v ++ ',' :: t))) =
      ⟨k₀ :: k, v, [], ',' :: t⟩ :: keyValues v.getLast? (',' :: t) :=
  keyValues_of_some (searchKeyValue_here hb (matchKeyValue_pair hk₀ hk hkc hv hvc (.inr rfl)))

/-- A `key:value` pair at a word boundary that ends the text is the last match. -/
theorem keyValues_last_pair {k₀ : Char} (hb : wordBoundary prev k₀ = true)
    (hk₀ : k₀.isAlpha = true) (hk : k ≠ []) (hkc : ∀ c ∈ k, isKeyChar c = true) (hv : v ≠ [])
    (hvc : ∀ c ∈ v, isUuidChar c = true) :
    keyValues prev (k₀ :: (k ++ ':' :: v)) = [⟨k₀ :: k, v, [], []⟩] := by
  have hm := matchKeyValue_pair hk₀ hk hkc hv hvc (t := []) (.inl rfl)
  rw [List.append_nil] at hm
  rw [keyValues_of_some (searchKeyValue_here hb hm), keyValues_of_none (s := []) rfl]

/-- A key character after a letter: too short a key, no match starts at the letter. -/
theorem keyValues_short_key {c d : Char} (hd : isKeyChar d = false) :
    keyValues prev (c :: d :: s) = keyValues (some c) (d :: s) := by
  have h : searchKeyValue prev (c :: d :: s) = searchKeyValue (some c) (d :: s) := by
    simp [searchKeyValue, matchKeyValue, hd]
  cases h' : searchKeyValue (some c) (d :: s) with
  | none => rw [keyValues_of_none h', keyValues_of_none (h.trans h')]
  | some m => rw [keyValues_of_some h', keyValues_of_some (h.trans h')]

/-- Without backslashes `unSlash` changes nothing. -/
theorem unSlash_uuid (hvc : ∀ c ∈ v, isUuidChar c = true) : unSlash v = v :=
  List.filter_eq_self.mpr fun c hc => by simp [(uuidChar_facts (hvc c hc)).2.2.2.2]

/-- A `key:value` pair at a word boundary, its value a token, followed by a `,` and no `"`, is
the next match. -/
theorem keyValues_token_pair {k₀ : Char} (hb : wordBoundary prev k₀ = true)
    (hk₀ : k₀.isAlpha = true) (hk : k ≠ []) (hkc : ∀ c ∈ k, isKeyChar c = true)
    (hv : isValueToken v = true) (hq : '"' ∉ t) :
    keyValues prev (k₀ :: (k ++ ':' :: (v ++ ',' :: t))) =
      ⟨k₀ :: k, v, [], ',' :: t⟩ :: keyValues v.getLast? (',' :: t) :=
  keyValues_of_some (searchKeyValue_here hb (matchKeyValue_of_spacesValue hk₀ hk hkc
    (spacesValue_token hv (.inr rfl) fun _ => by simp [hq])))

/-- Without backslashes `unSlash` changes nothing. -/
theorem unSlash_token (hv : isValueToken v = true) : unSlash v = v :=
  List.filter_eq_self.mpr fun c hc => by simp [((valueToken_facts hv).2.1 c hc).2.2.2]

end Decoding

section Digits

/-- The value of one step of `decimalValue`. -/
theorem foldl_decimal (a : ℕ) (l : List Char) :
    l.foldl (fun v d => 10 * v + (d.toNat - '0'.toNat)) a = a * 10 ^ l.length + decimalValue l := by
  induction l generalizing a with
  | nil => simp [decimalValue]
  | cons d l ih =>
    simp only [decimalValue, List.foldl_cons, List.length_cons] at ih ⊢
    rw [ih, ih (10 * 0 + _)]
    ring

theorem decimalValue_cons (d : Char) (l : List Char) :
    decimalValue (d :: l) = (d.toNat - '0'.toNat) * 10 ^ l.length + decimalValue l := by
  rw [decimalValue, List.foldl_cons, foldl_decimal, Nat.mul_zero, Nat.zero_add]

/-- What `Nat.digitChar` gives below ten: a digit, worth its argument. -/
theorem digitChar_facts : ∀ d < 10, (Nat.digitChar d).toNat - '0'.toNat = d ∧
    (Nat.digitChar d).isDigit = true ∧ isUuidChar (Nat.digitChar d) = true := by
  decide

/-- `Nat.toDigitsCore` with enough fuel writes `n` in decimal before `ds`. -/
theorem toDigitsCore_spec (fuel n : ℕ) (ds : List Char) (h : n ≤ fuel) :
    decimalValue (Nat.toDigitsCore 10 (fuel + 1) n ds) = n * 10 ^ ds.length + decimalValue ds ∧
      ds.length < (Nat.toDigitsCore 10 (fuel + 1) n ds).length ∧
      ∀ c ∈ Nat.toDigitsCore 10 (fuel + 1) n ds, (c.isDigit = true ∧ isUuidChar c = true) ∨ c ∈ ds := by
  induction fuel generalizing n ds with
  | zero =>
    obtain rfl : n = 0 := by omega
    obtain ⟨h₁, h₂, h₃⟩ := digitChar_facts 0 (by decide)
    simp only [Nat.toDigitsCore, Nat.zero_mod, Nat.zero_div, if_pos, decimalValue_cons, h₁,
      List.length_cons, List.mem_cons]
    exact ⟨by simp, by omega, by rintro c (rfl | hc) <;> simp_all⟩
  | succ fuel ih =>
    obtain ⟨h₁, h₂, h₃⟩ := digitChar_facts (n % 10) (Nat.mod_lt _ (by decide))
    rw [Nat.toDigitsCore]
    split_ifs with h0
    · have hn : n % 10 = n := Nat.mod_eq_of_lt (by omega)
      rw [decimalValue_cons, h₁, hn, List.length_cons]
      exact ⟨rfl, by omega, fun c hc => by
        rcases List.mem_cons.mp hc with rfl | hc
        · exact .inl ⟨hn ▸ h₂, hn ▸ h₃⟩
        · exact .inr hc⟩
    · obtain ⟨v, l, m⟩ := ih (n / 10) (Nat.digitChar (n % 10) :: ds) (by omega)
      refine ⟨?_, by simp only [List.length_cons] at l; omega, fun c hc => ?_⟩
      · rw [v, decimalValue_cons, h₁, List.length_cons, pow_succ]
        have := Nat.div_add_mod n 10
        calc n / 10 * (10 ^ ds.length * 10) + (n % 10 * 10 ^ ds.length + decimalValue ds)
            = (10 * (n / 10) + n % 10) * 10 ^ ds.length + decimalValue ds := by ring
          _ = n * 10 ^ ds.length + decimalValue ds := by rw [this]
      · rcases m c hc with hd | hc'
        · exact .inl hd
        · rcases List.mem_cons.mp hc' with rfl | hds
          · exact .inl ⟨h₂, h₃⟩
          · exact .inr hds

/-- `toString` of a size, `Nat.toDigits 10 n`: a non-empty run of digits worth `n`. -/
theorem toDigits_spec (n : ℕ) :
    decimalValue (Nat.toDigits 10 n) = n ∧ Nat.toDigits 10 n ≠ [] ∧
      ∀ c ∈ Nat.toDigits 10 n, c.isDigit = true ∧ isUuidChar c = true := by
  obtain ⟨v, l, m⟩ := toDigitsCore_spec n n [] le_rfl
  refine ⟨by simpa [decimalValue] using v, List.ne_nil_of_length_pos l, fun c hc => ?_⟩
  simpa using m c hc

/-- `string2off_t` of a run of digits worth less than `2^63` is its value. -/
theorem string2offT_digits {ds : List Char} (hne : ds ≠ []) (hall : ∀ c ∈ ds, c.isDigit = true)
    (hv : decimalValue ds < 2 ^ 63) : string2offT (String.mk ds) = .ok (decimalValue ds) := by
  obtain ⟨d, rest, rfl⟩ := List.exists_cons_of_ne_nil hne
  have hdig := hall d (List.mem_cons_self _ _)
  have hsp : isSpaceChar d = false :=
    (uuidChar_facts (by simp [isUuidChar, Char.isAlphanum, hdig])).2.1
  have hdigits : (d :: rest).takeWhile Char.isDigit = d :: rest :=
    List.takeWhile_eq_self_iff.mpr hall
  have hsigned : (match d :: rest with
      | '-' :: u => (true, u)
      | '+' :: u => (false, u)
      | u => (false, u) : Bool × List Char) = (false, d :: rest) := by
    split <;> rename_i h
    · exact absurd (List.cons.inj h).1 (by rintro rfl; exact absurd hdig (by decide))
    · exact absurd (List.cons.inj h).1 (by rintro rfl; exact absurd hdig (by decide))
    · rfl
  have hdrop : (d :: rest).dropWhile isSpaceChar = d :: rest :=
    List.dropWhile_cons_of_neg (by simp [hsp])
  simp only [string2offT, String.toList, hdrop, hsigned, hdigits, if_false, Bool.false_eq_true]
  rw [if_neg (List.cons_ne_nil _ _), if_neg (by omega)]

/-- `string2off_t` reads back every size below `2^63` that `toString` wrote. -/
theorem string2offT_toDigits {n : ℕ} (hn : n < 2 ^ 63) :
    string2offT (String.mk (Nat.toDigits 10 n)) = .ok n := by
  obtain ⟨v, hne, hall⟩ := toDigits_spec n
  rw [string2offT_digits hne (fun c hc => (hall c hc).1) (by rw [v]; exact hn), v]

end Digits

section Headers

open EtdDataPath

variable {u : Uuid} {n : ℕ} {fs w : List Char}

/-- A UUID of the daemon's alphabet: not empty, made of letters, digits and `-`. -/
def isUuidWord (u : Uuid) : Bool := !u.isEmpty && u.toList.all isUuidChar

/-- What `sendFile` writes between the braces of its header. -/
def sendFields (u : Uuid) (n : ℕ) : List Char :=
  " uuid:".toList ++ u.toList ++ ", sz:".toList ++ Nat.toDigits 10 n

/-- What `getFile` writes between the braces of its header. -/
def getFields (u : Uuid) (n : ℕ) : List Char :=
  " uuid:".toList ++ u.toList ++ ", push:1, sz:".toList ++ Nat.toDigits 10 n

theorem sendHeader_eq : sendHeader u n = '\x7b' :: sendFields u n ++ ['\x7d'] := by
  simp only [sendHeader, sendFields, String.toList, String.data_append, List.append_assoc,
    List.cons_append]
  rfl

theorem getHeader_eq : getHeader u n = '\x7b' :: getFields u n ++ ['\x7d'] := by
  simp only [getHeader, getFields, String.toList, String.data_append, List.append_assoc,
    List.cons_append]
  rfl

/-- `rxCommand` finds the header once its closing brace is in the buffer, and not before. -/
theorem rxCommand_closed (h : '\x7d' ∉ fs) : rxCommand ('\x7b' :: fs ++ '\x7d' :: w) = some (fs, w) := by
  have hall : ∀ c ∈ fs, (c != '\x7d') = true := fun c hc => by
    simpa using fun e : c = '\x7d' => h (e ▸ hc)
  have hstop : ('\x7d' != '\x7d') = false := rfl
  simp only [rxCommand, List.cons_append, List.mem_append, List.mem_cons, true_or, or_true,
    if_true, takeWhile_stop hall hstop, dropWhile_stop hall hstop, List.tail_cons]

theorem rxCommand_open (h : '\x7d' ∉ fs) : rxCommand ('\x7b' :: fs) = none := by
  simp [rxCommand, h]

theorem isUuidWord_spec (hu : isUuidWord u = true) :
    u.toList ≠ [] ∧ ∀ c ∈ u.toList, isUuidChar c = true := by
  simp only [isUuidWord, Bool.and_eq_true, Bool.not_eq_true', String.isEmpty, beq_iff_eq,
    List.all_eq_true] at hu
  refine ⟨fun h => ?_, hu.2⟩
  rw [String.toList, String.endPos, String.utf8ByteSize] at *
  simp_all

/-- The digits of a size are no `"`. -/
theorem quote_not_mem_toDigits : '"' ∉ Nat.toDigits 10 n := fun h =>
  (uuidChar_facts ((toDigits_spec n).2.2 _ h).2).2.2.1 rfl

/-- The header `sendFile` writes, with any value token for its UUID, splits into its two pairs. -/
theorem keyValues_sendFields_of_token (hu : isValueToken u.toList = true) :
    keyValues none (sendFields u n) = [⟨"uuid".toList, u.toList, [], ", sz:".toList ++ Nat.toDigits 10 n⟩,
      ⟨"sz".toList, Nat.toDigits 10 n, [], []⟩] := by
  obtain ⟨-, hds, hdc⟩ := toDigits_spec n
  simp only [sendFields, List.append_assoc]
  show keyValues none (' ' :: 'u' :: (['u', 'i', 'd'] ++ ':' :: (u.toList ++
    ',' :: ' ' :: 's' :: (['z'] ++ ':' :: Nat.toDigits 10 n)))) = _
  rw [keyValues_skip (c := ' ') (by decide),
    keyValues_token_pair (show wordBoundary (some ' ') 'u' = true by decide) (by decide)
      (k := ['u', 'i', 'd']) (by decide) (by decide) hu (by simp [quote_not_mem_toDigits]),
    keyValues_skip (c := ',') (by decide), keyValues_skip (c := ' ') (by decide),
    keyValues_last_pair (show wordBoundary (some ' ') 's' = true by decide) (by decide)
      (k := ['z']) (by decide) (by decide) hds (fun c hc => (hdc c hc).2)]
  rfl

/-- The header `getFile` writes, with any value token for its UUID, splits into its three pairs. -/
theorem keyValues_getFields_of_token (hu : isValueToken u.toList = true) :
    keyValues none (getFields u n) = [⟨"uuid".toList, u.toList, [], ", push:1, sz:".toList ++
      Nat.toDigits 10 n⟩, ⟨"push".toList, ['1'], [], ", sz:".toList ++ Nat.toDigits 10 n⟩,
      ⟨"sz".toList, Nat.toDigits 10 n, [], []⟩] := by
  obtain ⟨-, hds, hdc⟩ := toDigits_spec n
  simp only [getFields, List.append_assoc]
  show keyValues none (' ' :: 'u' :: (['u', 'i', 'd'] ++ ':' :: (u.toList ++
    ',' :: ' ' :: 'p' :: (['u', 's', 'h'] ++ ':' :: (['1'] ++
    ',' :: ' ' :: 's' :: (['z'] ++ ':' :: Nat.toDigits 10 n)))))) = _
  rw [keyValues_skip (c := ' ') (by decide),
    keyValues_token_pair (show wordBoundary (some ' ') 'u' = true by decide) (by decide)
      (k := ['u', 'i', 'd']) (by decide) (by decide) hu (by simp [quote_not_mem_toDigits]),
    keyValues_skip (c := ',') (by decide), keyValues_skip (c := ' ') (by decide),
    keyValues_pair (show wordBoundary (some ' ') 'p' = true by decide) (by decide)
      (k := ['u', 's', 'h']) (by decide) (by decide) (by decide) (by decide),
    keyValues_skip (c := ',') (by decide), keyValues_skip (c := ' ') (by decide),
    keyValues_last_pair (show wordBoundary (some ' ') 's' = true by decide) (by decide)
      (k := ['z']) (by decide) (by decide) hds (fun c hc => (hdc c hc).2)]
  rfl

theorem isValueToken_of_isUuidWord (hu : isUuidWord u = true) : isValueToken u.toList = true :=
  isValueToken_of_uuid (isUuidWord_spec hu).1 (isUuidWord_spec hu).2

/-- No `}` occurs in the fields of `sendFile`'s header, with a value token for its UUID, so
`rxCommand` ends it at its own brace. -/
theorem rbrace_not_mem_sendFields_of_token (hu : isValueToken u.toList = true) :
    '\x7d' ∉ sendFields u n := by
  have hall := (valueToken_facts hu).2.1
  have hds := (toDigits_spec n).2.2
  simp only [sendFields, List.mem_append, not_or]
  exact ⟨⟨⟨by decide, fun h => (hall _ h).2.2.1 rfl⟩, by decide⟩,
    fun h => (uuidChar_facts (hds _ h).2).2.2.2.1 rfl⟩

theorem rbrace_not_mem_getFields_of_token (hu : isValueToken u.toList = true) :
    '\x7d' ∉ getFields u n := by
  have hall := (valueToken_facts hu).2.1
  have hds := (toDigits_spec n).2.2
  simp only [getFields, List.mem_append, not_or]
  exact ⟨⟨⟨by decide, fun h => (hall _ h).2.2.1 rfl⟩, by decide⟩,
    fun h => (uuidChar_facts (hds _ h).2).2.2.2.1 rfl⟩

/-- No `}` occurs in the fields of `sendFile`'s header, so `rxCommand` ends it at its own brace. -/
theorem rbrace_not_mem_sendFields (hu : isUuidWord u = true) : '\x7d' ∉ sendFields u n :=
  rbrace_not_mem_sendFields_of_token (isValueToken_of_isUuidWord hu)

theorem rbrace_not_mem_getFields (hu : isUuidWord u = true) : '\x7d' ∉ getFields u n :=
  rbrace_not_mem_getFields_of_token (isValueToken_of_isUuidWord hu)

theorem getKeyValuePairs_sendFields_of_token (hu : isValueToken u.toList = true) :
    getKeyValuePairs (sendFields u n) = .ok [("uuid", u), ("sz", ⟨Nat.toDigits 10 n⟩)] := by
  obtain ⟨-, -, hdc⟩ := toDigits_spec n
  rw [getKeyValuePairs, keyValues_sendFields_of_token hu]
  simp only [List.foldlM_cons, List.foldlM_nil, List.length_nil, ne_eq, not_true_eq_false,
    if_false, unSlash_token hu, unSlash_uuid fun c hc => (hdc c hc).2]
  rfl

theorem getKeyValuePairs_getFields_of_token (hu : isValueToken u.toList = true) :
    getKeyValuePairs (getFields u n) =
      .ok [("uuid", u), ("push", "1"), ("sz", ⟨Nat.toDigits 10 n⟩)] := by
  obtain ⟨-, -, hdc⟩ := toDigits_spec n
  rw [getKeyValuePairs, keyValues_getFields_of_token hu]
  simp only [List.foldlM_cons, List.foldlM_nil, List.length_nil, ne_eq, not_true_eq_false,
    if_false, unSlash_token hu, unSlash_uuid fun c hc => (hdc c hc).2]
  rfl

/-- `handle` reads back any value token and size of `sendFile`'s header, and is not asked to
push. -/
theorem decodeHeader_sendFields_of_token (hu : isValueToken u.toList = true) (hn : n < 2 ^ 63) :
    decodeHeader (sendFields u n) = .ok (u, n, false) := by
  rw [decodeHeader, getKeyValuePairs_sendFields_of_token hu]
  show (string2offT ⟨Nat.toDigits 10 n⟩).map (fun m => (u, m, false)) = _
  rw [string2offT_toDigits hn]
  rfl

/-- `handle` reads back any value token and size of `getFile`'s header, and is asked to push. -/
theorem decodeHeader_getFields_of_token (hu : isValueToken u.toList = true) (hn : n < 2 ^ 63) :
    decodeHeader (getFields u n) = .ok (u, n, true) := by
  rw [decodeHeader, getKeyValuePairs_getFields_of_token hu]
  show (string2offT ⟨Nat.toDigits 10 n⟩).map (fun m => (u, m, true)) = _
  rw [string2offT_toDigits hn]
  rfl

/-- `handle` reads back the UUID and size of `sendFile`'s header, and is not asked to push. -/
theorem decodeHeader_sendFields (hu : isUuidWord u = true) (hn : n < 2 ^ 63) :
    decodeHeader (sendFields u n) = .ok (u, n, false) :=
  decodeHeader_sendFields_of_token (isValueToken_of_isUuidWord hu) hn

/-- `handle` reads back the UUID and size of `getFile`'s header, and is asked to push. -/
theorem decodeHeader_getFields (hu : isUuidWord u = true) (hn : n < 2 ^ 63) :
    decodeHeader (getFields u n) = .ok (u, n, true) :=
  decodeHeader_getFields_of_token (isValueToken_of_isUuidWord hu) hn

/-- **The data server decodes the headers the two transfers write.** For a UUID that is a value
token (not empty, no blank, `,`, `}` or `\`, and no second `"` after a first) and a size of an
`off_t`, `rxCommand` cuts `sendFile`'s header `{ uuid:u, sz:todo}` at its own brace, whatever
follows it, and its fields decode to `u`, `todo` and no push; likewise `getFile`'s header
`{ uuid:u, push:1, sz:todo}` decodes to `u`, `todo` and a push. -/
theorem header_round_trip (hu : isValueToken u.toList = true) (hn : n < 2 ^ 63) (w : List Char) :
    rxCommand (sendHeader u n ++ w) = some (sendFields u n, w) ∧
      decodeHeader (sendFields u n) = .ok (u, n, false) ∧
      rxCommand (getHeader u n ++ w) = some (getFields u n, w) ∧
      decodeHeader (getFields u n) = .ok (u, n, true) := by
  refine ⟨?_, decodeHeader_sendFields_of_token hu hn, ?_, decodeHeader_getFields_of_token hu hn⟩
  · rw [sendHeader_eq, List.append_assoc, List.singleton_append]
    exact rxCommand_closed (rbrace_not_mem_sendFields_of_token hu)
  · rw [getHeader_eq, List.append_assoc, List.singleton_append]
    exact rxCommand_closed (rbrace_not_mem_getFields_of_token hu)

theorem header_round_trip_dashed : isValueToken "a-1".toList = true ∧ 1 < 2 ^ 63 ∧
    rxCommand (sendHeader "a-1" 1 ++ []) = some (sendFields "a-1" 1, []) ∧
      decodeHeader (sendFields "a-1" 1) = .ok ("a-1", 1, false) ∧
      rxCommand (getHeader "a-1" 1 ++ []) = some (getFields "a-1" 1, []) ∧
      decodeHeader (getFields "a-1" 1) = .ok ("a-1", 1, true) :=
  ⟨by decide, by decide, header_round_trip (u := "a-1") (n := 1) (by decide) (by decide) []⟩

/-- A UUID the control channel carries, with a `,` in it: `sendFile`'s header for `a,b` is
decoded to the UUID `a`. -/
theorem comma_uuid_decoded_short :
    (∀ c ∈ "a,b".toList, isSpaceChar c = false) ∧
      rxCommand (sendHeader "a,b" 1) = some (sendFields "a,b" 1, []) ∧
      decodeHeader (sendFields "a,b" 1) = .ok ("a", 1, false) := by
  refine ⟨by decide, ?_, ?_⟩
  · rw [show sendHeader "a,b" 1 = sendHeader "a,b" ((1 : ℕ) : ℤ) from rfl, sendHeader_eq]
    exact rxCommand_closed (by decide)
  · have hkv : keyValues none (sendFields "a,b" 1) =
        [⟨"uuid".toList, ['a'], [], ",b, sz:1".toList⟩, ⟨"sz".toList, ['1'], [], []⟩] := by
      show keyValues none (' ' :: 'u' :: (['u', 'i', 'd'] ++ ':' :: (['a'] ++
        ',' :: 'b' :: ',' :: ' ' :: 's' :: (['z'] ++ ':' :: ['1'])))) = _
      rw [keyValues_skip (c := ' ') (by decide),
        keyValues_pair (show wordBoundary (some ' ') 'u' = true by decide) (by decide)
          (k := ['u', 'i', 'd']) (by decide) (by decide) (by decide) (by decide),
        keyValues_skip (c := ',') (by decide), keyValues_short_key (c := 'b') (by decide),
        keyValues_skip (c := ',') (by decide), keyValues_skip (c := ' ') (by decide),
        keyValues_last_pair (show wordBoundary (some ' ') 's' = true by decide) (by decide)
          (k := ['z']) (by decide) (by decide) (by decide) (by decide)]
      rfl
    rw [decodeHeader, getKeyValuePairs, hkv]
    rfl

end Headers

end ETransfer.EtdHeader
