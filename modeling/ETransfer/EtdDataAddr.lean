import ETransfer.EtdRoundTrip

/-!
# Data addresses: `decode_data_addr`

`decode_data_addr` reads a data address designator `<proto/host:port>` with `std::regex_match`
against `rxSockName`, `^<([^/]+)/(\[ipv6_lit\]|valid_host):([0-9]+)>$`, where `ipv6_lit` is
`[:0-9a-zA-Z]+(/[0-9]{1,3})?(%[a-zA-Z0-9]+)?` and `valid_host` is one or more labels joined by
`.`, a label `[a-zA-Z0-9]|[a-zA-Z0-9][a-zA-Z0-9\-]{0,61}[a-zA-Z0-9]`. A host name (group 5) longer
than 255 characters is refused; the groups 1, 2 and 9 go to `mk_sockname`.

The regex is written here as relations over the characters (`HostLabel`, `ValidHost`, `Ipv6Lit`,
`SockName`), one per part of the pattern, and `matchSockName` is an executable matcher for it. Its
parse is unique: the protocol runs to the first `/`, a bracketed host to the first `]`, a host name
to the first `:`. Proved: the matcher finds exactly the strings the regex matches, with their
groups (`matchSockName_iff`), so `decode_data_addr` hands `mk_sockname` the three groups of every
designator the regex accepts with a host name of at most 255 characters, and refuses everything
else with the message of the check that failed (`decodeDataAddr_spec`).

`mk_sockname`, `unbracket` and `port` are not in the source: the decoder takes them as one
function of the three groups.
-/

namespace ETransfer.EtdDataAddr

open EtdHeader EtdRoundTrip

/-! ## The pattern -/

/-- `[a-zA-Z0-9\-]`, the inner characters of a label. -/
def isLabelChar (c : Char) : Bool := c.isAlphanum || c == '-'

/-- `[:0-9a-zA-Z]`, the characters of the address part of an IPv6 literal. -/
def isIpv6Char (c : Char) : Bool := c == ':' || c.isAlphanum

/-- `[a-zA-Z0-9]|[a-zA-Z0-9][a-zA-Z0-9\-]{0,61}[a-zA-Z0-9]`: a label of a host name. -/
inductive HostLabel : List Char → Prop
  | one {c : Char} : c.isAlphanum = true → HostLabel [c]
  | inner {c d : Char} {mid : List Char} : c.isAlphanum = true →
      (∀ x ∈ mid, isLabelChar x = true) → mid.length ≤ 61 → d.isAlphanum = true →
      HostLabel (c :: mid ++ [d])

/-- `valid_host`: one or more labels joined by `.`. -/
def ValidHost (host : List Char) : Prop :=
  ∃ labels : List (List Char), labels ≠ [] ∧ (∀ l ∈ labels, HostLabel l) ∧
    host = ['.'].intercalate labels

/-- `(/[0-9]{1,3})?`: an optional prefix length. -/
def PrefixLen (p : List Char) : Prop :=
  p = [] ∨ ∃ d, p = '/' :: d ∧ d ≠ [] ∧ d.length ≤ 3 ∧ ∀ c ∈ d, c.isDigit = true

/-- `(%[a-zA-Z0-9]+)?`: an optional zone. -/
def ZoneId (z : List Char) : Prop :=
  z = [] ∨ ∃ w, z = '%' :: w ∧ w ≠ [] ∧ ∀ c ∈ w, c.isAlphanum = true

/-- `ipv6_lit`, `[:0-9a-zA-Z]+(/[0-9]{1,3})?(%[a-zA-Z0-9]+)?`. -/
def Ipv6Lit (v : List Char) : Prop :=
  ∃ a p z, v = a ++ p ++ z ∧ a ≠ [] ∧ (∀ c ∈ a, isIpv6Char c = true) ∧ PrefixLen p ∧ ZoneId z

/-- Group 2 of `rxSockName`: an IPv6 literal in brackets or a host name. -/
def HostOk (host : List Char) : Prop :=
  (∃ v, host = '[' :: v ++ [']'] ∧ Ipv6Lit v) ∨ ValidHost host

/-- `std::regex_match(s, fields, rxSockName)` holds, with `proto`, `host` and `port` its groups 1,
2 and 9. -/
structure SockName (s proto host port : List Char) : Prop where
  shape : s = '<' :: proto ++ '/' :: host ++ ':' :: port ++ ['>']
  protoOk : proto ≠ [] ∧ '/' ∉ proto
  hostOk : HostOk host
  portOk : port ≠ [] ∧ ∀ c ∈ port, c.isDigit = true

/-! ## The matcher -/

/-- Whether a run of characters is a label. -/
def isLabel : List Char → Bool
  | [] => false
  | c :: rest => c.isAlphanum && decide (rest.length ≤ 62) && rest.all isLabelChar &&
      rest.getLast?.all Char.isAlphanum

/-- Whether a run of characters is a host name: every piece between dots a label. -/
def isValidHost (host : List Char) : Bool := (host.splitOn '.').all isLabel

/-- Whether the rest of an IPv6 literal is an optional zone. -/
def isZoneId : List Char → Bool
  | [] => true
  | '%' :: w => !w.isEmpty && w.all Char.isAlphanum
  | _ => false

/-- Whether the inside of the brackets is an IPv6 literal. -/
def isIpv6Lit (v : List Char) : Bool :=
  !(v.takeWhile isIpv6Char).isEmpty &&
    match v.dropWhile isIpv6Char with
    | '/' :: r => !(r.takeWhile Char.isDigit).isEmpty && decide ((r.takeWhile Char.isDigit).length ≤ 3) &&
        isZoneId (r.dropWhile Char.isDigit)
    | r => isZoneId r

/-- Group 2 and what follows its `:`: a bracketed host runs to the first `]`, a host name to the
first `:`. -/
def hostPart : List Char → Option (List Char × List Char)
  | '[' :: r =>
    match r.dropWhile (· != ']') with
    | ']' :: ':' :: rest =>
      if isIpv6Lit (r.takeWhile (· != ']')) then some ('[' :: r.takeWhile (· != ']') ++ [']'], rest)
      else none
    | _ => none
  | r =>
    match r.dropWhile (· != ':') with
    | ':' :: rest => if isValidHost (r.takeWhile (· != ':')) then some (r.takeWhile (· != ':'), rest)
      else none
    | _ => none

/-- `regex_match` against `rxSockName`: groups 1, 2 and 9, or `none`. -/
def matchSockName : List Char → Option (List Char × List Char × List Char)
  | '<' :: r =>
    match r.dropWhile (· != '/') with
    | '/' :: r₁ =>
      match hostPart r₁ with
      | some (host, r₂) =>
        if r.takeWhile (· != '/') ≠ [] ∧ r₂.takeWhile Char.isDigit ≠ [] ∧
            r₂.dropWhile Char.isDigit = ['>'] then
          some (r.takeWhile (· != '/'), host, r₂.takeWhile Char.isDigit)
        else none
      | none => none
    | _ => none
  | _ => none

/-- Group 5, the host name: empty when the host is a bracketed IPv6 literal. -/
def hostNameGroup : List Char → List Char
  | '[' :: _ => []
  | host => host

/-- `decode_data_addr`; `mkSockname` is `mk_sockname` of group 1, `unbracket` of group 2 and
`port` of group 9. -/
def decodeDataAddr {α : Type} (mkSockname : String → String → String → Except String α)
    (s : String) : Except String α :=
  match matchSockName s.toList with
  | none => .error ("The string '" ++ s ++ "' is not a valid data address designator")
  | some (proto, host, port) =>
    if (hostNameGroup host).length ≤ 255 then mkSockname ⟨proto⟩ ⟨host⟩ ⟨port⟩
    else .error "Host names can not be longer than 255 characters (RFC1123)"

/-! ## The matcher decides the pattern -/

section Parts

variable {l host v z : List Char}

theorem HostLabel.labelChars (h : HostLabel l) : ∀ c ∈ l, isLabelChar c = true := by
  have alnum : ∀ {c : Char}, c.isAlphanum = true → isLabelChar c = true := fun hc => by
    simp [isLabelChar, hc]
  cases h with
  | one hc => simpa using alnum hc
  | inner hc hmid _ hd =>
    intro x hx
    simp only [List.cons_append, List.mem_cons, List.mem_append, List.not_mem_nil, or_false] at hx
    rcases hx with rfl | hx | rfl
    · exact alnum hc
    · exact hmid x hx
    · exact alnum hd

theorem isLabel_iff : isLabel l = true ↔ HostLabel l := by
  constructor
  · intro h
    cases l with
    | nil => cases h
    | cons c rest =>
      simp only [isLabel, Bool.and_eq_true, decide_eq_true_eq, List.all_eq_true] at h
      obtain ⟨⟨⟨hc, hlen⟩, hall⟩, hlast⟩ := h
      rcases List.eq_nil_or_concat rest with rfl | ⟨mid, d, rfl⟩
      · exact .one hc
      · simp only [List.concat_eq_append, List.getLast?_append, List.getLast?_singleton,
          Option.or_some, Option.all_some] at hlast
        simp only [List.concat_eq_append, List.length_append, List.length_singleton] at hlen hall ⊢
        exact .inner hc (fun x hx => hall x (List.mem_append_left _ hx)) (by omega) hlast
  · intro h
    cases h with
    | one hc => simp [isLabel, hc]
    | inner hc hmid hlen hd =>
      simp [isLabel, hc, hd]
      exact ⟨hlen, hmid, (HostLabel.one hd).labelChars _ (List.mem_singleton_self _)⟩

theorem isValidHost_iff : isValidHost host = true ↔ ValidHost host := by
  constructor
  · intro h
    exact ⟨host.splitOn '.', List.splitOnP_ne_nil _ _,
      fun l hl => isLabel_iff.mp (List.all_eq_true.mp h l hl), (List.intercalate_splitOn host '.').symm⟩
  · rintro ⟨labels, hne, hl, rfl⟩
    have hdot : ∀ l ∈ labels, '.' ∉ l := fun l hlab hd => by
      simpa [isLabelChar] using (hl l hlab).labelChars '.' hd
    rw [isValidHost, List.splitOn_intercalate labels '.' hdot hne]
    exact List.all_eq_true.mpr fun l hlab => isLabel_iff.mpr (hl l hlab)

/-- A run of characters that all pass `p`, then a character that does not (or the end): `takeWhile`
and `dropWhile` cut there. -/
theorem takeWhile_dropWhile_stop {p : Char → Bool} {l t : List Char} (hl : ∀ x ∈ l, p x = true)
    (ht : ∀ c t', t = c :: t' → p c = false) :
    (l ++ t).takeWhile p = l ∧ (l ++ t).dropWhile p = t := by
  cases t with
  | nil =>
    simp only [List.append_nil]
    exact ⟨List.takeWhile_eq_self_iff.mpr hl, List.dropWhile_eq_nil_iff.mpr hl⟩
  | cons c t => exact ⟨takeWhile_stop hl (ht c t rfl), dropWhile_stop hl (ht c t rfl)⟩

theorem HostLabel.head (h : HostLabel l) : ∃ c t, l = c :: t ∧ c.isAlphanum = true := by
  cases h with
  | one hc => exact ⟨_, _, rfl, hc⟩
  | inner hc _ _ _ => exact ⟨_, _, rfl, hc⟩

/-- A host name is made of label characters and dots, and starts with a letter or a digit. -/
theorem ValidHost.spec (h : ValidHost host) :
    (∀ c ∈ host, isLabelChar c = true ∨ c = '.') ∧ ∃ c t, host = c :: t ∧ c.isAlphanum = true := by
  obtain ⟨labels, hne, hl, rfl⟩ := h
  obtain ⟨l₀, ls, rfl⟩ := List.exists_cons_of_ne_nil hne
  obtain ⟨c, t, hl₀, hc⟩ := (hl l₀ (List.mem_cons_self _ _)).head
  rw [intercalate_cons_eq]
  refine ⟨fun x hx => ?_, c, t ++ ls.flatMap (['.'] ++ ·), by rw [hl₀]; rfl, hc⟩
  simp only [List.mem_append, List.mem_flatMap, List.mem_singleton] at hx
  rcases hx with hx | ⟨l, hlm, rfl | hx⟩
  · exact .inl ((hl l₀ (List.mem_cons_self _ _)).labelChars x hx)
  · exact .inr rfl
  · exact .inl ((hl l (List.mem_cons_of_mem _ hlm)).labelChars x hx)

theorem isZoneId_iff : isZoneId z = true ↔ ZoneId z := by
  constructor
  · intro h
    rcases z with _ | ⟨c, w⟩
    · exact .inl rfl
    · by_cases hc : c = '%'
      · subst hc
        simp only [isZoneId, Bool.and_eq_true, Bool.not_eq_true', List.isEmpty_eq_false,
          List.all_eq_true] at h
        exact .inr ⟨w, rfl, h.1, h.2⟩
      · simp [isZoneId, hc] at h
  · rintro (rfl | ⟨w, rfl, hne, hall⟩)
    · rfl
    · simpa [isZoneId, hne] using hall

/-- The characters of an IPv6 literal: those of its address part, `/` and `%`. -/
theorem Ipv6Lit.chars (h : Ipv6Lit v) : ∀ c ∈ v, isIpv6Char c = true ∨ c = '/' ∨ c = '%' := by
  obtain ⟨a, p, z, rfl, -, ha, hp, hz⟩ := h
  have alnum : ∀ {c : Char}, c.isAlphanum = true → isIpv6Char c = true := fun hc => by
    simp [isIpv6Char, hc]
  intro c hc
  simp only [List.mem_append] at hc
  rcases hc with (hc | hc) | hc
  · exact .inl (ha c hc)
  · rcases hp with rfl | ⟨d, rfl, -, -, hd⟩
    · cases hc
    · rcases List.mem_cons.mp hc with rfl | hc
      · exact .inr (.inl rfl)
      · exact .inl (alnum (by simp [Char.isAlphanum, hd c hc]))
  · rcases hz with rfl | ⟨w, rfl, -, hw⟩
    · cases hc
    · rcases List.mem_cons.mp hc with rfl | hc
      · exact .inr (.inr rfl)
      · exact .inl (alnum (hw c hc))

theorem isIpv6Lit_iff : isIpv6Lit v = true ↔ Ipv6Lit v := by
  have hsplit := List.takeWhile_append_dropWhile isIpv6Char v
  constructor
  · intro h
    simp only [isIpv6Lit, Bool.and_eq_true, Bool.not_eq_true', List.isEmpty_eq_false] at h
    obtain ⟨hne, h⟩ := h
    have ha : ∀ c ∈ v.takeWhile isIpv6Char, isIpv6Char c = true := fun c hc =>
      List.mem_takeWhile_imp hc
    split at h
    · next r hr =>
      simp only [Bool.and_eq_true, Bool.not_eq_true', List.isEmpty_eq_false,
        decide_eq_true_eq] at h
      obtain ⟨⟨hd, hlen⟩, hz⟩ := h
      refine ⟨_, '/' :: r.takeWhile Char.isDigit, r.dropWhile Char.isDigit, ?_, hne, ha,
        .inr ⟨_, rfl, hd, hlen, fun c hc => List.mem_takeWhile_imp hc⟩, isZoneId_iff.mp hz⟩
      rw [List.append_assoc, List.cons_append, List.takeWhile_append_dropWhile, ← hr, hsplit]
    · exact ⟨_, [], _, by rw [List.append_nil, hsplit], hne, ha, .inl rfl, isZoneId_iff.mp h⟩
  · rintro ⟨a, p, z, rfl, hne, ha, hp, hz⟩
    have hzstop : ∀ {q : Char → Bool}, q '%' = false → ∀ c t, z = c :: t → q c = false := by
      rintro q hq c t rfl
      rcases hz with h | ⟨w, h, -⟩ <;> cases h
      exact hq
    rcases hp with rfl | ⟨d, rfl, hd, hlen, hdig⟩
    · obtain ⟨htake, hdrop⟩ := takeWhile_dropWhile_stop ha (hzstop rfl)
      rw [List.append_nil]
      have hz' := isZoneId_iff.mpr hz
      simp only [isIpv6Lit, htake, hdrop, Bool.and_eq_true, Bool.not_eq_true',
        List.isEmpty_eq_false]
      refine ⟨hne, ?_⟩
      split
      · simp [isZoneId] at hz'
      · exact hz'
    · obtain ⟨htake, hdrop⟩ := takeWhile_dropWhile_stop (t := '/' :: (d ++ z)) ha
        (fun c t h => by cases h; rfl)
      obtain ⟨htake', hdrop'⟩ := takeWhile_dropWhile_stop hdig (hzstop rfl)
      rw [List.append_assoc, List.cons_append]
      simp only [isIpv6Lit, htake, hdrop, htake', hdrop', Bool.and_eq_true,
        Bool.not_eq_true', List.isEmpty_eq_false, decide_eq_true_eq]
      exact ⟨hne, ⟨hd, hlen⟩, isZoneId_iff.mpr hz⟩

end Parts

/-! ## The whole designator -/

section Designator

variable {r host rest : List Char}

theorem hostPart_sound (h : hostPart r = some (host, rest)) : r = host ++ ':' :: rest ∧ HostOk host := by
  unfold hostPart at h
  split at h
  · rename_i r'
    split at h
    · rename_i rest' hd
      split_ifs at h with hv
      cases h
      have hsplit := List.takeWhile_append_dropWhile (· != ']') r'
      rw [hd] at hsplit
      refine ⟨?_, .inl ⟨_, rfl, isIpv6Lit_iff.mp hv⟩⟩
      conv_lhs => rw [← hsplit]
      simp
    · cases h
  · split at h
    · rename_i rest' hd
      split_ifs at h with hv
      cases h
      have hsplit := List.takeWhile_append_dropWhile (· != ':') r
      rw [hd] at hsplit
      exact ⟨hsplit.symm, .inr (isValidHost_iff.mp hv)⟩
    · cases h

theorem hostPart_complete (h : HostOk host) : hostPart (host ++ ':' :: rest) = some (host, rest) := by
  rcases h with ⟨v, rfl, hv⟩ | hvh
  · have hno : ∀ c ∈ v, (c != ']') = true := fun c hc => by
      rcases hv.chars c hc with h | rfl | rfl
      · exact bne_iff_ne.mpr fun he => by rw [he] at h; cases h
      · rfl
      · rfl
    obtain ⟨ht, hd⟩ := takeWhile_dropWhile_stop (t := ']' :: ':' :: rest) hno
      (fun _ _ h => by cases h; rfl)
    simp only [List.cons_append, List.append_assoc, List.nil_append]
    rw [hostPart.eq_1, hd, ht]
    simp [isIpv6Lit_iff.mpr hv]
  · obtain ⟨hchars, c, t, rfl, hc⟩ := hvh.spec
    have hno : ∀ x ∈ c :: t, (x != ':') = true := fun x hx => by
      rcases hchars x hx with h | rfl
      · exact bne_iff_ne.mpr fun he => by rw [he] at h; cases h
      · rfl
    obtain ⟨ht, hd⟩ := takeWhile_dropWhile_stop (t := ':' :: rest) hno (fun _ _ h => by cases h; rfl)
    rw [hostPart.eq_def]
    split
    · rename_i heq
      rw [List.cons_append, List.cons.injEq] at heq
      rw [heq.1] at hc
      cases hc
    · simp only [hd, ht, isValidHost_iff.mpr hvh, if_true]

/-- **The matcher is `regex_match` against `rxSockName`.** It returns groups 1, 2 and 9 exactly
when the whole string matches the pattern with those groups. -/
theorem matchSockName_iff {s proto port : List Char} :
    matchSockName s = some (proto, host, port) ↔ SockName s proto host port := by
  constructor
  · intro h
    unfold matchSockName at h
    split at h
    · rename_i r
      split at h
      · rename_i r₁ hd
        split at h
        · rename_i host' r₂ hh
          split_ifs at h with hc
          obtain ⟨hp, hq, hz⟩ := hc
          cases h
          obtain ⟨hr₁, hok⟩ := hostPart_sound hh
          have e₁ := List.takeWhile_append_dropWhile (· != '/') r
          have e₂ := List.takeWhile_append_dropWhile Char.isDigit r₂
          rw [hd, hr₁] at e₁
          rw [hz] at e₂
          refine ⟨?_, ⟨hp, fun hm => by simpa using List.mem_takeWhile_imp hm⟩, hok, hq,
            fun c hc => List.mem_takeWhile_imp hc⟩
          conv_lhs => rw [← e₁]
          conv_lhs => rw [← e₂]
          simp
        · cases h
      · cases h
    · cases h
  · rintro ⟨rfl, ⟨hp, hslash⟩, hok, hq, hdig⟩
    have hno : ∀ c ∈ proto, (c != '/') = true := fun c hc =>
      bne_iff_ne.mpr fun he => hslash (he ▸ hc)
    obtain ⟨ht, hd⟩ := takeWhile_dropWhile_stop (t := '/' :: (host ++ ':' :: (port ++ ['>']))) hno
      (fun _ _ h => by cases h; rfl)
    obtain ⟨ht₂, hd₂⟩ := takeWhile_dropWhile_stop (t := ['>']) hdig (fun _ _ h => by cases h; rfl)
    simp only [List.cons_append, List.append_assoc, List.nil_append]
    rw [matchSockName.eq_1, hd]
    simp [hostPart_complete hok, ht, ht₂, hd₂, hp, hq]

end Designator

/-- **What `decode_data_addr` accepts.** A string that `rxSockName` matches, with groups
`proto`, `host` and `port`, goes to `mk_sockname` with those groups unless its host name (group 5;
a bracketed IPv6 literal has none) is longer than 255 characters; any other string is refused as
not a data address designator, the string quoted in the message. -/
theorem decodeDataAddr_spec {α : Type} (mkSockname : String → String → String → Except String α)
    (s : String) :
    (∀ proto host port, SockName s.toList proto host port →
      decodeDataAddr mkSockname s =
        if (hostNameGroup host).length ≤ 255 then mkSockname ⟨proto⟩ ⟨host⟩ ⟨port⟩
        else .error "Host names can not be longer than 255 characters (RFC1123)") ∧
    ((∀ proto host port, ¬ SockName s.toList proto host port) →
      decodeDataAddr mkSockname s =
        .error ("The string '" ++ s ++ "' is not a valid data address designator")) := by
  refine ⟨fun proto host port h => ?_, fun h => ?_⟩
  · rw [decodeDataAddr, matchSockName_iff.mpr h]
  · cases hm : matchSockName s.toList with
    | none => rw [decodeDataAddr, hm]
    | some g => exact absurd (matchSockName_iff.mp hm) (h _ _ _)

end ETransfer.EtdDataAddr
