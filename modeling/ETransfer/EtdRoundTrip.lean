import ETransfer.EtdControl

/-!
# A proxy over a wrapper: the pieces of one call

An `ETDProxy` writes each call as one command line; the `ETDServerWrapper` at the other end of the
connection matches the line against its patterns, calls its `ETDServer` and writes the reply, which
the proxy parses. This module gives the pieces of one call that `EtdSession` puts together for a
whole session, for any server behind the wrapper (a `Service`).

The wrapper recognises the proxy's line of `removeUUID` and `sendFile` as the same call with the
same arguments when the UUIDs, and the data addresses as written, are words without blanks;
`sendFile` also needs a count below `2^63` and addresses that the wrapper decodes back. For these
calls, whose reply is one line, the proxy reads back `true` as `true`, `false` as an error,
because the wrapper writes it as an `ERR` line, and an error with the proxy's prefix.
-/

namespace ETransfer.EtdRoundTrip

open EtdRegistry EtdLockProtocol EtdDataPath EtdHeader EtdControl

/-! ## The wrapper's patterns on the lines the proxy writes -/

/-- A word of the command patterns, `\S+`: not empty, and no blank in it. -/
def isWord (u : List Char) : Bool := !u.isEmpty && u.all (!isSpaceChar ·)

theorem isWord_iff {u : List Char} : isWord u = true ↔ u ≠ [] ∧ ∀ c ∈ u, isSpaceChar c = false := by
  simp [isWord, List.all_eq_true]

theorem isWord_spec {u : List Char} (h : isWord u = true) :
    u ≠ [] ∧ ∀ c ∈ u, isSpaceChar c = false :=
  isWord_iff.mp h

section Matching

variable {ts : List Tok} {s : List Char}

/-- A run of characters of `p` taken whole, when a character not in `p`, or the end, follows. -/
theorem run_split {p : Char → Bool} {u : List Char} (hu : ∀ c ∈ u, p c = true)
    (hs : ∀ c ∈ s.head?, p c = false) : (u ++ s).takeWhile p = u ∧ (u ++ s).dropWhile p = s := by
  cases s with
  | nil => simp [List.takeWhile_eq_self_iff.mpr hu, List.dropWhile_eq_nil_iff.mpr hu]
  | cons c s => exact ⟨takeWhile_stop hu (hs c rfl), dropWhile_stop hu (hs c rfl)⟩

/-- A literal matches the characters that spell it, in any case. -/
theorem matchToks_lit {p l : List Char} (hp : p.map Char.toLower = l) :
    matchToks (.lit l :: ts) (p ++ s) = matchToks ts s := by
  subst hp
  rw [matchToks, List.length_map, List.take_left, if_pos rfl, List.drop_left]

/-- A literal whose first `k` characters differ from the line's does not match. -/
theorem matchToks_lit_of_ne {l : List Char} (k : ℕ) (hk : k ≤ l.length)
    (h : (s.take k).map Char.toLower ≠ l.take k) : matchToks (.lit l :: ts) s = none := by
  rw [matchToks, if_neg]
  intro he
  have := congrArg (List.take k) he
  rw [← List.map_take, List.take_take, min_eq_left hk] at this
  exact h this

/-- `\s+` takes a run of blanks whole. -/
theorem matchToks_blanks {b : List Char} (hb : b ≠ []) (hbs : ∀ c ∈ b, isSpaceChar c = true)
    (hs : ∀ c ∈ s.head?, isSpaceChar c = false) :
    matchToks (.blanks :: ts) (b ++ s) = matchToks ts s := by
  rw [matchToks, (run_split hbs hs).1, (run_split hbs hs).2, if_neg hb]

/-- `(\S+)` takes a word whole, when a blank or the end follows. -/
theorem matchToks_word {u : List Char} (hu : isWord u = true)
    (hs : ∀ c ∈ s.head?, isSpaceChar c = true) :
    matchToks (.word :: ts) (u ++ s) = (matchToks ts s).map (u :: ·) := by
  obtain ⟨hne, hus⟩ := isWord_spec hu
  have hsplit := run_split (p := (!isSpaceChar ·)) (u := u) (s := s) (by simpa using hus)
    (by simpa using hs)
  rw [matchToks, hsplit.1, hsplit.2, if_neg hne]

/-- `([0-9]+)` takes a run of digits whole, when a non-digit or the end follows. -/
theorem matchToks_digits {d : List Char} (hd : d ≠ []) (hds : ∀ c ∈ d, c.isDigit = true)
    (hs : ∀ c ∈ s.head?, c.isDigit = false) :
    matchToks (.digits :: ts) (d ++ s) = (matchToks ts s).map (d :: ·) := by
  rw [matchToks, (run_split hds hs).1, (run_split hds hs).2, if_neg hd]

/-- A word followed by anything: its first character is not a blank. -/
theorem isWord_head {u : List Char} (hu : isWord u = true) :
    ∀ c ∈ (u ++ s).head?, isSpaceChar c = false := by
  obtain ⟨hne, hus⟩ := isWord_spec hu
  obtain ⟨c, u', rfl⟩ := List.exists_cons_of_ne_nil hne
  intro c' hc'
  obtain rfl : c = c' := by simpa using hc'
  exact hus c (List.mem_cons_self _ _)

/-- The line ends are blanks. -/
theorem isEol_of_not_space {c : Char} (h : isSpaceChar c = false) : isEol c = false := by
  revert h; unfold isSpaceChar isEol; cases c == '\n' <;> cases c == '\r' <;> simp

/-- A digit is no blank. -/
theorem not_space_of_digit {c : Char} (h : c.isDigit = true) : isSpaceChar c = false := by
  simp only [Char.isDigit, Bool.and_eq_true, decide_eq_true_eq] at h
  simp only [isSpaceChar, Bool.or_eq_false_iff, beq_eq_false_iff_ne, ne_eq]
  refine ⟨⟨⟨⟨⟨?_, ?_⟩, ?_⟩, ?_⟩, ?_⟩, ?_⟩ <;> rintro rfl <;> exact absurd h (by decide)

/-- A word has no line end. -/
theorem isWord_noEol {u : List Char} (hu : isWord u = true) : ∀ c ∈ u, isEol c = false :=
  fun c hc => isEol_of_not_space ((isWord_spec hu).2 c hc)

end Matching

/-- The line of `ETDProxy::removeUUID` is the wrapper's `remove-uuid` command, with the UUID. -/
theorem parseCommand_removeUUID {u : List Char} (hu : isWord u = true) :
    parseCommand ("remove-uuid ".toList ++ u) = some (.removeUUID ⟨u⟩) := by
  have h3 : (("remove-uuid ".toList ++ u).take 3).map Char.toLower = "rem".toList := by
    rw [List.take_append_of_le_length (by decide)]; rfl
  have hne : ∀ (l : List Char) (ts : List Tok), 3 ≤ l.length → "rem".toList ≠ l.take 3 →
      matchToks (.lit l :: ts) ("remove-uuid ".toList ++ u) = none :=
    fun l ts hl h => matchToks_lit_of_ne 3 hl (by rw [h3]; exact h)
  have hrm : matchToks rxRemoveUUID ("remove-uuid ".toList ++ u) = some [u] := by
    rw [rxRemoveUUID, show "remove-uuid ".toList ++ u = "remove-uuid".toList ++ ([' '] ++ (u ++ []))
      by simp, matchToks_lit (by decide), matchToks_blanks (by simp) (by decide) (isWord_head hu),
      matchToks_word hu (by simp)]
    rfl
  have h1 : matchToks rxList ("remove-uuid ".toList ++ u) = none := hne _ _ (by decide) (by decide)
  have h2 : matchToks rxReqFileWrite ("remove-uuid ".toList ++ u) = none :=
    hne _ _ (by decide) (by decide)
  have h3' : matchToks rxReqFileRead ("remove-uuid ".toList ++ u) = none :=
    hne _ _ (by decide) (by decide)
  have h4 : matchToks rxSendFile ("remove-uuid ".toList ++ u) = none :=
    hne _ _ (by decide) (by decide)
  have h5 : matchToks rxDataChannelAddr ("remove-uuid ".toList ++ u) = none :=
    hne _ _ (by decide) (by decide)
  simp only [parseCommand, h1, h2, h3', h4, h5, hrm, Option.none_orElse]

/-- The line of `ETDProxy::sendFile` is the wrapper's `send-file` command, with its four fields. -/
theorem parseCommand_sendFile {src dst ds addrs : List Char} (hsrc : isWord src = true)
    (hdst : isWord dst = true) (hds : ds ≠ []) (hdig : ∀ c ∈ ds, c.isDigit = true)
    (haddrs : isWord addrs = true) :
    parseCommand ("send-file ".toList ++ src ++ ' ' :: (dst ++ ' ' :: (ds ++ ' ' :: addrs))) =
      some (.sendFile ⟨src⟩ ⟨dst⟩ ⟨ds⟩ ⟨addrs⟩) := by
  have hne : ∀ (l : List Char) (ts : List Tok), 1 ≤ l.length → "s".toList ≠ l.take 1 →
      matchToks (.lit l :: ts)
        ("send-file ".toList ++ src ++ ' ' :: (dst ++ ' ' :: (ds ++ ' ' :: addrs))) = none := by
    intro l ts hl h
    refine matchToks_lit_of_ne 1 hl ?_
    rw [List.append_assoc, List.take_append_of_le_length (by decide)]
    exact h
  have hblank : ∀ c ∈ [' '], isSpaceChar c = true := by decide
  have hdhead : ∀ c ∈ (ds ++ ([' '] ++ (addrs ++ []))).head?, isSpaceChar c = false := by
    obtain ⟨d, ds', rfl⟩ := List.exists_cons_of_ne_nil hds
    simpa using not_space_of_digit (hdig d (List.mem_cons_self _ _))
  have hsf : matchToks rxSendFile
      ("send-file ".toList ++ src ++ ' ' :: (dst ++ ' ' :: (ds ++ ' ' :: addrs))) =
        some [src, dst, ds, addrs] := by
    rw [rxSendFile, show "send-file ".toList ++ src ++ ' ' :: (dst ++ ' ' :: (ds ++ ' ' :: addrs)) =
      "send-file".toList ++ ([' '] ++ (src ++ ([' '] ++ (dst ++ ([' '] ++ (ds ++ ([' '] ++
        (addrs ++ [])))))))) by simp,
      matchToks_lit (by decide), matchToks_blanks (by simp) hblank (isWord_head hsrc),
      matchToks_word hsrc (by simp [isSpaceChar]), matchToks_blanks (by simp) hblank (isWord_head hdst),
      matchToks_word hdst (by simp [isSpaceChar]), matchToks_blanks (by simp) hblank hdhead,
      matchToks_digits hds hdig (by simp [Char.isDigit]), matchToks_blanks (by simp) hblank
        (isWord_head haddrs), matchToks_word haddrs (by simp)]
    rfl
  have h1 : matchToks rxList _ = none := hne _ _ (by decide) (by decide)
  have h2 : matchToks rxReqFileWrite _ = none := hne _ _ (by decide) (by decide)
  have h3 : matchToks rxReqFileRead _ = none := hne _ _ (by decide) (by decide)
  simp only [parseCommand, h1, h2, h3, hsf, Option.none_orElse, Option.some_orElse]

/-! ## Data addresses, joined by the proxy and split by the wrapper -/

theorem intercalate_go_toList (acc sep : String) (as : List String) :
    (String.intercalate.go acc sep as).toList = acc.toList ++ as.flatMap (sep.toList ++ ·.toList) := by
  induction as generalizing acc with
  | nil => simp [String.intercalate.go]
  | cons a as ih =>
    rw [String.intercalate.go, ih]
    simp [String.toList, String.data_append]

theorem intercalate_cons_eq {sep x : List Char} (xs : List (List Char)) :
    sep.intercalate (x :: xs) = x ++ xs.flatMap (sep ++ ·) := by
  induction xs generalizing x with
  | nil => simp [List.intercalate]
  | cons y ys ih =>
    simp only [List.intercalate] at ih ⊢
    rw [List.intersperse_cons₂, List.flatten_cons, List.flatten_cons, ih]
    simp

/-- `","` joined by the proxy's `operator<<` loop, as characters. -/
theorem toList_intercalate (sep : String) (ss : List String) :
    (sep.intercalate ss).toList = sep.toList.intercalate (ss.map String.toList) := by
  cases ss with
  | nil => rfl
  | cons a as =>
    rw [String.intercalate, intercalate_go_toList, List.map_cons, intercalate_cons_eq]
    simp [List.flatMap_map]

/-- The wrapper's split of the proxy's joined addresses gives back what each address was written
as, when none is empty or holds a comma. -/
theorem splitOn_intercalate_addrs (ss : List String) (hne : ss ≠ [])
    (hc : ∀ s ∈ ss, s.toList ≠ [] ∧ ',' ∉ s.toList) :
    ((",".intercalate ss).toList.splitOn ',').filter (· ≠ []) = ss.map String.toList := by
  rw [toList_intercalate, show ",".toList = [','] from rfl,
    List.splitOn_intercalate _ ',' (by simpa using fun s hs => (hc s hs).2) (by simpa using hne),
    List.filter_eq_self.mpr (by simpa using fun s hs => (hc s hs).1)]

/-! ## Replies of one line -/

/-- The line the wrapper writes for a call that returns a `bool`: `OK`, `ERR` and `falseText` for
`false`, or `ERR` and the text of the exception. -/
def boolReply (falseText : String) : Except String Bool → String
  | .ok true => "OK"
  | .ok false => "ERR " ++ falseText
  | .error e => "ERR " ++ e

/-- What the proxy returns for a call whose direct result is `res`, `failed` heading its errors:
`true` stays `true`; `false` and an error become an error with the text of the wrapper's line. -/
def throughProxy (failed falseText : String) : Except String Bool → Except String Bool
  | .ok true => .ok true
  | .ok false => .error (failed ++ " " ++ falseText)
  | .error e => .error (failed ++ " " ++ e)

/-- A text that a reply line carries whole: no line end in it, and short enough that `ERR`, a
blank, the text and the line end fit the proxy's reply buffer. -/
def fitsReply (e : String) : Bool := e.toList.all (!isEol ·) && e.length + 4 < Proxy.bufSz

/-- The results whose reply line fits: all but an error, or a `false`, whose text does not. -/
def replyFits (falseText : String) : Except String Bool → Bool
  | .ok true => true
  | .ok false => fitsReply falseText
  | .error e => fitsReply e

section BoolReplies

variable {failed falseText : String} {res : Except String Bool}

theorem fitsReply_spec {e : String} (h : fitsReply e = true) :
    (∀ c ∈ e.toList, isEol c = false) ∧ e.length + 4 < Proxy.bufSz := by
  simpa [fitsReply, List.all_eq_true] using h

/-- The reply line of a result that fits is a line the proxy's buffer holds. -/
theorem boolReply_line (h : replyFits falseText res = true) :
    (boolReply falseText res).toList ≠ [] ∧ (∀ c ∈ (boolReply falseText res).toList, isEol c = false) ∧
      (boolReply falseText res).toList.length < Proxy.bufSz := by
  have herr : ∀ e : String, fitsReply e = true → ("ERR " ++ e).toList ≠ [] ∧
      (∀ c ∈ ("ERR " ++ e).toList, isEol c = false) ∧ ("ERR " ++ e).toList.length < Proxy.bufSz := by
    intro e he
    obtain ⟨hc, hl⟩ := fitsReply_spec he
    refine ⟨by simp [String.toList, String.data_append], fun c hc' => ?_, ?_⟩
    · simp only [String.toList, String.data_append, List.mem_append] at hc'
      rcases hc' with hc' | hc'
      · revert c; decide
      · exact hc c hc'
    · rw [show e.length = e.toList.length by cases e; rfl] at hl
      simp only [String.toList, String.data_append, List.length_append] at hl ⊢
      exact lt_of_eq_of_lt (Nat.add_comm _ _) hl
  match res, h with
  | .ok true, _ =>
    show ("OK" : String).toList ≠ [] ∧ (∀ c ∈ ("OK" : String).toList, isEol c = false) ∧
      ("OK" : String).toList.length < Proxy.bufSz
    decide
  | .ok false, h => exact herr falseText h
  | .error e, h => exact herr e h

/-- The proxy makes of the wrapper's line what `throughProxy` says. -/
theorem replyOutcome_boolReply (h : replyFits falseText res = true) :
    Proxy.replyOutcome failed (boolReply falseText res).toList = throughProxy failed falseText res := by
  have herr : ∀ e : String, fitsReply e = true →
      Proxy.replyOutcome failed ("ERR " ++ e).toList = .error (failed ++ " " ++ e) := by
    intro e he
    rw [show ("ERR " ++ e).toList = 'E' :: 'R' :: 'R' :: ' ' :: e.toList from rfl,
      Proxy.replyOutcome_err (fitsReply_spec he).1]
    congr 1
    exact String.ext (by simp [String.data_append])
  match res, h with
  | .ok true, _ => rfl
  | .ok false, h => exact herr falseText h
  | .error e, h => exact herr e h

end BoolReplies

/-! ## One call through both ends -/

section Calls

variable {σ α : Type} {svc : Service σ α} {codec : Codec α} {w : Wrapper σ}

/-- The wrapper answers `remove-uuid` with the one line of the server's result. -/
theorem run_removeUUID (st : σ) (u : Uuid) :
    (Command.removeUUID u).run svc codec st =
      ([boolReply "Failed to remove UUID" (svc.removeUUID u st).1], (svc.removeUUID u st).2) := by
  simp only [Command.run, errReply]
  generalize svc.removeUUID u st = r
  obtain ⟨(e | (_ | _)), st'⟩ := r <;> rfl

/-- The proxy's command written whole, on a reply that is the wrapper's `bool` line for a result
that fits, however the transport splits it: what `throughProxy` makes of the result. -/
theorem command_reads_boolReply {msg failed falseText : String} {res : Except String Bool}
    {pc : Fd} (hfit : replyFits falseText res = true) (hpw : pc.WritesAll msg.toList.length)
    (hpp : pc.ReadsProgress) (hin : pc.input = [boolReply falseText res].flatMap (·.toList ++ ['\n'])) :
    (Proxy.command msg failed pc).1 = throughProxy failed falseText res := by
  obtain ⟨hne, hle, hlen⟩ := boolReply_line hfit
  obtain ⟨pc', h, -, -⟩ := Proxy.command_of_line hpw hpp (by rw [hin]; simp) hne hle hlen
  rw [h, replyOutcome_boolReply hfit]

/-- A data address the control channel carries: the proxy writes it (`operator<<`) as a word
without commas, and the wrapper's `decode_data_addr` reads that back. -/
def Carries (codec : Codec α) (a : α) : Prop :=
  isWord (codec.showAddr a).toList = true ∧ ',' ∉ (codec.showAddr a).toList ∧
    codec.decodeDataAddr (codec.showAddr a) = .ok a

theorem mapM_decodeDataAddr {addrs : List α} (hc : ∀ a ∈ addrs, Carries codec a) :
    (addrs.map fun a => (codec.showAddr a).toList).mapM (fun l => codec.decodeDataAddr ⟨l⟩) =
      .ok addrs := by
  induction addrs with
  | nil => rfl
  | cons a as ih =>
    rw [List.map_cons, List.mapM_cons, ih fun b hb => hc b (List.mem_cons_of_mem _ hb),
      show codec.decodeDataAddr ⟨(codec.showAddr a).toList⟩ = .ok a from
        (hc a (List.mem_cons_self _ _)).2.2]
    rfl

/-- The command line `ETDProxy::sendFile` writes. -/
def sendFileLine (codec : Codec α) (srcUUID dstUUID : Uuid) (todo : ℤ) (dataaddrs : List α) :
    String :=
  "send-file " ++ srcUUID ++ " " ++ dstUUID ++ " " ++ toString todo ++ " " ++
    ",".intercalate (dataaddrs.map codec.showAddr) ++ "\n"

theorem proxy_sendFile_eq (src dst : Uuid) (todo : ℤ) (addrs : List α) (conn : Fd) :
    Proxy.sendFile codec src dst todo addrs conn =
      Proxy.command (sendFileLine codec src dst todo addrs) "sendFile failed - " conn := rfl

/-- The wrapper answers `send-file` with the one line of the server's result, when the count is
written in decimal below `2^63` and every address comes back from its text. -/
theorem run_sendFile (st : σ) (src dst : Uuid) {n : ℕ} (hn : n < 2 ^ 63) {addrs : List α}
    (hne : addrs ≠ []) (hcar : ∀ a ∈ addrs, Carries codec a) :
    (Command.sendFile src dst ⟨Nat.toDigits 10 n⟩ (",".intercalate (addrs.map codec.showAddr))).run
        svc codec st =
      ([boolReply "Failed to send file" (svc.sendFile src dst n addrs st).1],
        (svc.sendFile src dst n addrs st).2) := by
  have hsplit := splitOn_intercalate_addrs (addrs.map codec.showAddr) (by simpa using hne)
    (by simpa using fun a ha => ⟨(isWord_spec (hcar a ha).1).1, (hcar a ha).2.1⟩)
  simp only [Command.run, string2offT_toDigits hn, hsplit, List.map_map, Function.comp_def,
    mapM_decodeDataAddr hcar, errReply]
  generalize svc.sendFile src dst n addrs st = r
  obtain ⟨(e | (_ | _)), st'⟩ := r <;> rfl

/-- The data addresses the channel carries, joined by the proxy with commas: a word. -/
theorem isWord_intercalate_addrs {addrs : List α} (hne : addrs ≠ [])
    (hcar : ∀ a ∈ addrs, Carries codec a) :
    isWord (",".intercalate (addrs.map codec.showAddr)).toList = true := by
  obtain ⟨a, as, rfl⟩ := List.exists_cons_of_ne_nil hne
  have hword : ∀ b ∈ a :: as, (codec.showAddr b).toList ≠ [] ∧
      ∀ c ∈ (codec.showAddr b).toList, isSpaceChar c = false := fun b hb => isWord_spec (hcar b hb).1
  rw [isWord_iff, toList_intercalate, List.map_map, List.map_cons, intercalate_cons_eq]
  refine ⟨List.append_ne_nil_of_left_ne_nil (hword a (List.mem_cons_self _ _)).1 _, fun c hc => ?_⟩
  simp only [List.mem_append, List.mem_flatMap, List.mem_map, Function.comp_apply] at hc
  rcases hc with hc | ⟨_, ⟨b, hb, rfl⟩, hc | hc⟩
  · exact (hword a (List.mem_cons_self _ _)).2 c hc
  · obtain rfl : c = ',' := by simpa [String.toList] using hc
    rfl
  · exact (hword b (List.mem_cons_of_mem _ hb)).2 c hc

/-- The fields of the line of `ETDProxy::sendFile`, the UUIDs and the addresses words: no line
end. -/
theorem sendFile_fields_noEol {src dst : Uuid} {n : ℕ} {addrs : List α}
    (hsrc : isWord src.toList = true) (hdst : isWord dst.toList = true)
    (haddrs : isWord (",".intercalate (addrs.map codec.showAddr)).toList = true) :
    ∀ c ∈ "send-file ".toList ++ src.toList ++ ' ' :: (dst.toList ++ ' ' ::
      (Nat.toDigits 10 n ++ ' ' :: (",".intercalate (addrs.map codec.showAddr)).toList)),
      isEol c = false :=
  List.forall_mem_append.mpr ⟨List.forall_mem_append.mpr ⟨by decide, isWord_noEol hsrc⟩,
    List.forall_mem_cons.mpr ⟨rfl, List.forall_mem_append.mpr ⟨isWord_noEol hdst,
      List.forall_mem_cons.mpr ⟨rfl, List.forall_mem_append.mpr
        ⟨fun c hc => isEol_of_not_space (not_space_of_digit ((toDigits_spec n).2.2 c hc).1),
          List.forall_mem_cons.mpr ⟨rfl, isWord_noEol haddrs⟩⟩⟩⟩⟩⟩

end Calls

end ETransfer.EtdRoundTrip
