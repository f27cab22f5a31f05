import ETransfer.EtdDataServer

/-!
# The documented header grammar against `ETDDataServer::handle`

The specification documents the header of a data connection as
`'{' (key ':' value (',' key ':' value)*)? '}'`, a key `[A-Za-z][A-Za-z0-9_-]+`, a value a bare
token `[^, \t\v]+` or a double-quoted string in which a backslash escapes any character and is
stripped; no key may occur twice (up to case), `uuid` and `sz` must be present, `sz` a
non-negative decimal integer and `push` absent or `1`. `SpecPairs` and `specDecode` say this in
the specification's words.

`handle` does not decide this grammar. Its `rxKeyValue` takes a quoted value up to the last `"`
before a line end (`keyValues_quoted_to_last`), so a header with two quoted values, well formed by
the grammar, is read as one pair and refused (`quoted_header_refused`). `unSlash` also drops every
backslash, escaped ones included, and `string2off_t` accepts a sign, so a negative size reaches
`pull_n` as a count modulo `2^64`.

Away from quotes the two agree: on fields with no blank, quote, backslash or `}`, whenever the
specification's checks accept the pairs with a size below `2^63`, `handle` decodes the same UUID,
size and push flag (`decodeHeader_of_specDecode`). The converse does not hold: `string2off_t`
accepts a signed size, or one followed by other characters, which the grammar refuses.
-/

namespace ETransfer.EtdHeaderGrammar

open EtdRegistry EtdDataPath EtdHeader EtdDataServer

/-! ## The grammar of the specification -/

/-- The inside of a double-quoted value and what it stands for: a backslash escapes the character
after it and is stripped. -/
inductive Escaped : List Char → List Char → Prop
  | nil : Escaped [] []
  | plain {c : Char} {t m : List Char} : c ≠ '"' → c ≠ '\\' → Escaped t m →
      Escaped (c :: t) (c :: m)
  | escape {c : Char} {t m : List Char} : Escaped t m → Escaped ('\\' :: c :: t) (c :: m)

/-- A value and what it stands for: a bare token `[^, \t\v]+`, or a double-quoted string. -/
inductive SpecValue : List Char → List Char → Prop
  | bare {v : List Char} : v ≠ [] → (∀ c ∈ v, isBareChar c = true) → SpecValue v v
  | quoted {t m : List Char} : Escaped t m → SpecValue ('"' :: t ++ ['"']) m

/-- A pair `key ':' value`, the key `[A-Za-z][A-Za-z0-9_-]+`, and the key with what its value
stands for. -/
inductive SpecPair : List Char → List Char × List Char → Prop
  | mk {k₀ : Char} {k v m : List Char} : k₀.isAlpha = true → k ≠ [] →
      (∀ c ∈ k, isKeyChar c = true) → SpecValue v m → SpecPair (k₀ :: k ++ ':' :: v) (k₀ :: k, m)

/-- Pairs separated by `,`, between the braces of a header. -/
inductive SpecPairs : List Char → List (List Char × List Char) → Prop
  | one {t : List Char} {p : List Char × List Char} : SpecPair t p → SpecPairs t [p]
  | cons {t ts : List Char} {p : List Char × List Char} {ps : List (List Char × List Char)} :
      SpecPair t p → SpecPairs ts ps → SpecPairs (t ++ ',' :: ts) (p :: ps)

/-- The value of a key, keys compared up to case. -/
def specLookup (kv : List (List Char × List Char)) (k : String) : Option (List Char) :=
  (kv.find? (fun p => p.1.map Char.toLower == k.toList)).map (·.2)

/-- The checks the specification asks of a header's pairs: no key twice up to case, `uuid` and
`sz` present, `sz` a non-negative decimal integer and `push` absent or `1`. Gives the UUID, the
size and whether the peer pushes. -/
def specDecode (kv : List (List Char × List Char)) : Option (Uuid × ℕ × Bool) :=
  if (kv.map (·.1.map Char.toLower)).Nodup then
    match specLookup kv "uuid", specLookup kv "sz", specLookup kv "push" with
    | some u, some sz, push =>
      if sz ≠ [] ∧ sz.all Char.isDigit ∧ push.all (· == ['1']) then
        some (⟨u⟩, decimalValue sz, push.isSome)
      else none
    | _, _, _ => none
  else none

/-! ## Where `handle` departs from it -/

section Quoted

variable {k u : List Char} {k₀ : Char}

/-- The last `"` of text that ends with one is its last character. -/
theorem lastQuote_append_quote (l : List Char) : lastQuote (l ++ ['"']) = some l.length := by
  induction l with
  | nil => rfl
  | cons c l ih => rw [List.cons_append, lastQuote, ih]; rfl

/-- **A quoted value runs to the last `"` of the line.** Whatever stands between the first and the
last `"` of a header's fields, a `"` and a `,` and other pairs included, is one value. -/
theorem keyValues_quoted_to_last (hk₀ : k₀.isAlpha = true) (hk : k ≠ [])
    (hkc : ∀ c ∈ k, isKeyChar c = true) (hu : ∀ c ∈ u, isDotChar c = true) :
    keyValues none (k₀ :: (k ++ ':' :: '"' :: (u ++ ['"']))) =
      [⟨k₀ :: k, '"' :: u ++ ['"'], u, []⟩] := by
  have hdot : ∀ c ∈ u ++ ['"'], isDotChar c = true := by
    intro c hc
    rcases List.mem_append.mp hc with hc | hc
    · exact hu c hc
    · rw [List.mem_singleton.mp hc]; rfl
  have hsv : spacesValue (k₀ :: k) ('"' :: (u ++ ['"'])) =
      some ⟨k₀ :: k, '"' :: u ++ ['"'], u, []⟩ := by
    rw [spacesValue, if_neg (by decide), valueAt]
    simp only [List.takeWhile_eq_self_iff.mpr hdot, lastQuote_append_quote, List.take_left' rfl,
      List.drop_eq_nil_of_le (show (u ++ ['"']).length ≤ u.length + 1 by simp)]
  have hb : wordBoundary none k₀ = true := by simp [wordBoundary, isWordChar, Char.isAlphanum, hk₀]
  rw [keyValues_of_some (searchKeyValue_here hb (matchKeyValue_of_spacesValue hk₀ hk hkc hsv)),
    keyValues_of_none (s := []) rfl]

end Quoted

/-- A header of the documented grammar, its two values quoted: `{uuid:"U",sz:"1"}` stands for the
UUID `U` and the size `1`. `handle` reads its fields as the one pair `uuid` = `U",sz:"1` and refuses
it for want of a size, whatever follows the header, the registry and the reads. -/
theorem quoted_header_refused :
    SpecPairs "uuid:\"U\",sz:\"1\"".toList [("uuid".toList, ['U']), ("sz".toList, ['1'])] ∧
      specDecode [("uuid".toList, ['U']), ("sz".toList, ['1'])] = some ("U", 1, false) ∧
      decodeHeader "uuid:\"U\",sz:\"1\"".toList = .error "No amount was sent" ∧
      ∀ (m : TransferMap) (fuel : ℕ) (fds : Uuid → Fd) (conn : Fd) (more : List Char),
        conn.ReadsProgress → conn.input = "\x7buuid:\"U\",sz:\"1\"\x7d".toList ++ more →
        ∃ conn', handle m (fuel + 1) fds conn = some (.error "No amount was sent", fds, conn') := by
  have hpair : ∀ (k₀ : Char) (k : List Char) (c : Char), k₀.isAlpha = true → k ≠ [] →
      (∀ x ∈ k, isKeyChar x = true) → c ≠ '"' → c ≠ '\\' →
      SpecPair (k₀ :: k ++ ':' :: ('"' :: [c] ++ ['"'])) (k₀ :: k, [c]) :=
    fun _ _ _ hk₀ hk hkc hq hs => .mk hk₀ hk hkc (.quoted (.plain hq hs .nil))
  have hdec : decodeHeader "uuid:\"U\",sz:\"1\"".toList = .error "No amount was sent" := by
    rw [decodeHeader, getKeyValuePairs,
      show "uuid:\"U\",sz:\"1\"".toList = 'u' :: (['u', 'i', 'd'] ++ ':' :: '"' ::
        ("U\",sz:\"1".toList ++ ['"'])) from rfl,
      keyValues_quoted_to_last (by decide) (by decide) (by decide) (by decide)]
    rfl
  refine ⟨.cons (hpair 'u' ['u', 'i', 'd'] 'U' (by decide) (by decide) (by decide) (by decide)
    (by decide)) (.one (hpair 's' ['z'] '1' (by decide) (by decide) (by decide) (by decide)
    (by decide))), by decide, hdec,
    fun m fuel fds conn more hp hin => ?_⟩
  have hin' : conn.input =
      ('\x7b' :: "uuid:\"U\",sz:\"1\"".toList ++ ['\x7d'] ++ more).drop 0 := hin
  obtain ⟨w, conn', hread, -⟩ := readCommand_header (by decide) (by decide) hp (by decide) hin'
  have hread' : readCommand [] conn = (.ok (some ("uuid:\"U\",sz:\"1\"".toList, w)), conn') :=
    hread
  refine ⟨conn', ?_⟩
  rw [handle, hread']
  simp only [serveCommand, hdec]

/-! ## Where `handle` agrees with it -/

section Plain

variable {t : List Char} {kv : List (List Char × List Char)} {prev : Option Char}

/-- A value of the grammar's bare alternative with no blank, quote, backslash or `}` is a value
token of the code. -/
theorem isValueToken_of_plain {v : List Char} (hne : v ≠ []) (hb : ∀ c ∈ v, isBareChar c = true)
    (hp : ∀ c ∈ v, isSpaceChar c = false ∧ c ≠ '"' ∧ c ≠ '\\' ∧ c ≠ '\x7d') :
    isValueToken v = true := by
  obtain ⟨c, cs, rfl⟩ := List.exists_cons_of_ne_nil hne
  have hcomma : ∀ x ∈ c :: cs, x ≠ ',' := fun x hx he => by
    have := hb x hx
    rw [he] at this
    cases this
  simp only [isValueToken, Bool.and_eq_true, List.all_eq_true, Bool.not_eq_true', bne_iff_ne,
    ne_eq, Bool.or_eq_true]
  exact ⟨fun x hx => ⟨⟨⟨(hp x hx).1, hcomma x hx⟩, (hp x hx).2.2.2⟩, (hp x hx).2.2.1⟩,
    .inl (hp c (List.mem_cons_self _ _)).2.1⟩

/-- A key starts at a word boundary after a non-word character or at the start of the fields. -/
theorem wordBoundary_key {k₀ : Char} (hprev : (prev.map isWordChar).getD false = false)
    (hk₀ : k₀.isAlpha = true) : wordBoundary prev k₀ = true := by
  simp [wordBoundary, hprev, isWordChar, Char.isAlphanum, hk₀]

/-- On pairs of the grammar with no blank, quote, backslash or `}`, the `regex_iterator` loop of
`getKeyValuePairs` finds each pair in turn, its key and its value as the grammar reads them. -/
theorem keyValues_plain (h : SpecPairs t kv)
    (hp : ∀ c ∈ t, isSpaceChar c = false ∧ c ≠ '"' ∧ c ≠ '\\' ∧ c ≠ '\x7d')
    (hprev : (prev.map isWordChar).getD false = false) :
    (keyValues prev t).map (fun m => (m.key, unSlash (if m.quoted.length ≠ 0 then m.quoted
      else m.value))) = kv := by
  have bare : ∀ {k₀ : Char} {k v m : List Char} (rest : List Char), SpecValue v m →
      (∀ c ∈ k₀ :: k ++ ':' :: v ++ rest, isSpaceChar c = false ∧ c ≠ '"' ∧ c ≠ '\\' ∧
        c ≠ '\x7d') → m = v ∧ isValueToken v = true := by
    intro k₀ k v m rest hv hplain
    cases hv with
    | bare hne hall =>
      exact ⟨rfl, isValueToken_of_plain hne hall fun c hc => hplain c (by simp [hc])⟩
    | quoted _ => exact absurd rfl (hplain '"' (by simp)).2.1
  induction h generalizing prev with
  | one hpair =>
    obtain @⟨k₀, k, v, m, hk₀, hk, hkc, hv⟩ := hpair
    obtain ⟨rfl, htok⟩ := bare [] hv (by simpa using hp)
    have hs := spacesValue_token (k := k₀ :: k) htok (t := []) (.inl rfl) (fun _ => by simp)
    rw [List.append_nil] at hs
    rw [List.cons_append, keyValues_of_some (searchKeyValue_here (wordBoundary_key hprev hk₀)
      (matchKeyValue_of_spacesValue hk₀ hk hkc hs)), keyValues_of_none (s := []) rfl]
    simp [unSlash_token htok]
  | @cons t₀ ts p ps hpair _ ih =>
    obtain @⟨k₀, k, v, m, hk₀, hk, hkc, hv⟩ := hpair
    obtain ⟨rfl, htok⟩ := bare (',' :: ts) hv (by simpa using hp)
    have hq : '"' ∉ ts := fun hq => (hp '"' (by simp [hq])).2.1 rfl
    simp only [List.cons_append, List.append_assoc]
    rw [keyValues_token_pair (wordBoundary_key hprev hk₀) hk₀ hk hkc htok hq,
      keyValues_skip (c := ',') rfl]
    simp only [List.map_cons, List.length_nil, ne_eq, not_true_eq_false, if_false,
      unSlash_token htok]
    rw [@ih (some ',') (fun c hc => hp c (by simp [hc])) rfl]

/-- `no_duplicates_inserter` over pairs whose keys differ up to case, from a map with none of those
keys, inserts every pair. -/
theorem foldlM_insertNoDup : ∀ {acc ps : List (String × String)},
    ((acc ++ ps).map fun p => p.1.toList.map Char.toLower).Nodup →
      ps.foldlM (fun a p => insertNoDup a p.1 p.2) acc = .ok (acc ++ ps)
  | acc, [], _ => by simp; rfl
  | acc, p :: ps, hnd => by
    have hfresh : lookupKey acc p.1 = none := by
      rw [List.map_append, List.map_cons, List.nodup_middle, List.nodup_cons, List.mem_append,
        not_or] at hnd
      simp only [lookupKey, Option.map_eq_none', List.find?_eq_none]
      intro q hq hsame
      exact hnd.1.1 (List.mem_map.mpr ⟨q, hq, by simpa [sameKey] using hsame⟩)
    have hhead : insertNoDup acc p.1 p.2 = .ok (acc ++ [p]) := by simp [insertNoDup, hfresh]
    rw [List.foldlM_cons, hhead]
    show ps.foldlM _ (acc ++ [p]) = _
    rw [foldlM_insertNoDup (by simpa using hnd)]
    simp

/-- A lookup of a lower-case key in the pairs stored as strings is the grammar's lookup. -/
theorem lookupKey_strings (k : String) (hk : k.toList.map Char.toLower = k.toList) :
    lookupKey (kv.map fun p => (String.mk p.1, String.mk p.2)) k = (specLookup kv k).map String.mk := by
  simp only [lookupKey, specLookup, List.find?_map, Option.map_map]
  have hk' : k.data.map Char.toLower = k.data := hk
  congr 2
  funext p
  simp [sameKey, hk']

/-- On a header of the grammar without blanks, quotes, backslashes or `}`, whose keys differ up
to case, `getKeyValuePairs` stores the grammar's pairs in order. -/
theorem getKeyValuePairs_plain (ht : SpecPairs t kv)
    (hp : ∀ c ∈ t, isSpaceChar c = false ∧ c ≠ '"' ∧ c ≠ '\\' ∧ c ≠ '\x7d')
    (hnd : (kv.map (·.1.map Char.toLower)).Nodup) :
    getKeyValuePairs t = .ok (kv.map fun p => (String.mk p.1, String.mk p.2)) :=
  calc getKeyValuePairs t
      = ((keyValues none t).map fun m => (m.key, unSlash (if m.quoted.length ≠ 0 then
          m.quoted else m.value))).foldlM (fun a p => insertNoDup a ⟨p.1⟩ ⟨p.2⟩) [] := by
        rw [getKeyValuePairs, List.foldlM_map]
    _ = (kv.map fun p => (String.mk p.1, String.mk p.2)).foldlM
          (fun a p => insertNoDup a p.1 p.2) [] := by
        rw [@keyValues_plain t kv none ht hp rfl, List.foldlM_map]
    _ = .ok (kv.map fun p => (String.mk p.1, String.mk p.2)) :=
        @foldlM_insertNoDup [] _ (by simpa [Function.comp_def] using hnd)

/-- **On headers without blanks, quotes, backslashes or `}`, `handle` decodes what the grammar
does.** Whenever the specification's checks accept the pairs of such a header, with a size below
`2^63` (an `off_t`), `handle`'s decoding of the fields gives the same UUID, size and push flag. -/
theorem decodeHeader_of_specDecode (ht : SpecPairs t kv)
    (hp : ∀ c ∈ t, isSpaceChar c = false ∧ c ≠ '"' ∧ c ≠ '\\' ∧ c ≠ '\x7d') {u : Uuid} {n : ℕ}
    {push : Bool} (hdec : specDecode kv = some (u, n, push)) (hn : n < 2 ^ 63) :
    decodeHeader t = .ok (u, n, push) := by
  unfold specDecode at hdec
  split_ifs at hdec with hnd
  cases hu : specLookup kv "uuid" with
  | none => simp [hu] at hdec
  | some u' =>
    cases hsz : specLookup kv "sz" with
    | none => simp [hu, hsz] at hdec
    | some sz =>
      simp only [hu, hsz] at hdec
      split_ifs at hdec with hc
      obtain ⟨hszne, hszd, hpush⟩ := hc
      cases hdec
      rw [decodeHeader, getKeyValuePairs_plain ht hp hnd]
      simp only [lookupKey_strings "uuid" (by decide), lookupKey_strings "sz" (by decide),
        lookupKey_strings "push" (by decide), hu, hsz, Option.map_some']
      have hpush' : ((specLookup kv "push").map String.mk).all (· == "1") = true := by
        cases hq : specLookup kv "push" with
        | none => rfl
        | some q =>
          rw [hq] at hpush
          have hq1 : q = ['1'] := by simpa using hpush
          simp [hq1]
      rw [if_pos hpush', string2offT_digits hszne (by simpa using hszd) hn]
      cases specLookup kv "push" <;> rfl

/-- The header `sendFile` writes, without its blanks: `{uuid:U,sz:1}` is read alike by the grammar
and by `handle`. -/
theorem decodeHeader_of_specDecode_plain :
    SpecPairs "uuid:U,sz:1".toList [("uuid".toList, ['U']), ("sz".toList, ['1'])] ∧
      (∀ c ∈ "uuid:U,sz:1".toList, isSpaceChar c = false ∧ c ≠ '"' ∧ c ≠ '\\' ∧ c ≠ '\x7d') ∧
      specDecode [("uuid".toList, ['U']), ("sz".toList, ['1'])] = some ("U", 1, false) ∧ 1 < 2 ^ 63 ∧
      decodeHeader "uuid:U,sz:1".toList = .ok ("U", 1, false) := by
  have ht : SpecPairs "uuid:U,sz:1".toList [("uuid".toList, ['U']), ("sz".toList, ['1'])] :=
    .cons (t := 'u' :: ['u', 'i', 'd'] ++ ':' :: ['U'])
      (.mk (by decide) (by decide) (by decide) (.bare (by decide) (by decide)))
      (.one (.mk (k := ['z']) (by decide) (by decide) (by decide)
        (.bare (by decide) (by decide))))
  have hp : ∀ c ∈ "uuid:U,sz:1".toList,
      isSpaceChar c = false ∧ c ≠ '"' ∧ c ≠ '\\' ∧ c ≠ '\x7d' := by decide
  have hdec : specDecode [("uuid".toList, ['U']), ("sz".toList, ['1'])] = some ("U", 1, false) := by
    decide
  exact ⟨ht, hp, hdec, by decide, decodeHeader_of_specDecode ht hp hdec (by decide)⟩

end Plain

end ETransfer.EtdHeaderGrammar
