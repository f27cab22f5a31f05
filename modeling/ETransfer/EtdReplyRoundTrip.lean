import ETransfer.EtdRoundTrip
import ETransfer.EtdProxy
import Mathlib.Data.Nat.Digits

/-!
# A proxy over a wrapper: the calls whose replies have several lines

`listPath`, `dataChannelAddr`, `requestFileWrite` and `requestFileRead` of `ETDProxy` read replies
of several lines, which `ETDServerWrapper::handle` writes from its server's result: an `OK` line per
entry and a bare `OK`; or the position line, the `UUID:` line and `OK`; or one `ERR` line. This
module gives, for each of these calls, the reply lines the wrapper writes and what the proxy reads
back from them; `EtdSession` puts the calls of a session together.

Proved, for any server behind the wrapper: the wrapper recognises each proxy line as the same call
with the same arguments, and the proxy, however its reads split the reply, returns what the server
returned, an error with the proxy's prefix before it. This holds when what crosses the channel is
written in a form the other end reads back whole: paths, file names and entries that start with no
blank and hold no line end, UUIDs and open modes without blanks, positions within `off_t`, and
addresses that `decode_data_addr` reads back from their text. An entry or an error text that is
empty or starts with a blank does not come through whole: the proxy's `\s+` takes the blanks, and an
empty entry ends the reply. Those cases are left open here.
-/

namespace ETransfer.EtdReplyRoundTrip

open EtdRegistry EtdLockProtocol EtdDataPath EtdHeader EtdControl EtdRoundTrip EtdProxy

/-! ## The patterns' tails and signed numbers -/

section Matching

variable {ts : List Tok}

/-- An entry's first character is no blank. -/
theorem isEntry_head {t : List Char} (ht : isEntry t = true) :
    ∀ c ∈ t.head?, isSpaceChar c = false := by
  obtain ⟨c, t', rfl⟩ := List.exists_cons_of_ne_nil (ne_nil_of_isEntry ht)
  simp only [isEntry, Bool.and_eq_true, Bool.not_eq_true'] at ht
  simpa using ht.1

/-- A word is an entry. -/
theorem isEntry_of_isWord {u : List Char} (hu : isWord u = true) : isEntry u = true := by
  obtain ⟨hne, hus⟩ := isWord_spec hu
  obtain ⟨c, u', rfl⟩ := List.exists_cons_of_ne_nil hne
  simp only [isEntry, Bool.and_eq_true, Bool.not_eq_true', List.all_eq_true, Bool.not_eq_true']
  exact ⟨hus c (List.mem_cons_self _ _), fun x hx => isEol_of_not_space (hus x hx)⟩

/-- A literal whose first character differs from the line's, in any case, does not match. -/
theorem matchToks_lit_cons {l s : List Char} {c : Char} (hl : l ≠ [])
    (h : [c.toLower] ≠ l.take 1) : matchToks (.lit l :: ts) (c :: s) = none :=
  matchToks_lit_of_ne 1 (List.length_pos.mpr hl) h

/-- `(\S.*)` at the end of a line takes an entry whole. -/
theorem matchToks_tail {t : List Char} (ht : isEntry t = true) :
    matchToks (.tail :: ts) t = (matchToks ts []).map (t :: ·) := by
  obtain ⟨c, t', rfl⟩ := List.exists_cons_of_ne_nil (ne_nil_of_isEntry ht)
  rw [matchToks]
  exact if_pos ht

/-- `(-?[0-9]+)` at the end of a line takes a run of digits whole. -/
theorem matchToks_signed_nat {d : List Char} (hd : d ≠ []) (hds : ∀ c ∈ d, c.isDigit = true) :
    matchToks (.signed :: ts) d = (matchToks ts []).map (d :: ·) := by
  have hrun := run_split (s := []) hds (by simp)
  rw [List.append_nil] at hrun
  obtain ⟨c, d', rfl⟩ := List.exists_cons_of_ne_nil hd
  have hc : c ≠ '-' := by rintro rfl; exact absurd (hds '-' (List.mem_cons_self _ _)) (by decide)
  simp only [matchToks]
  split
  · rename_i h; exact absurd (List.cons.inj h).1 hc
  · rw [hrun.1, hrun.2, if_neg hd]

/-- `(-?[0-9]+)` at the end of a line takes a minus sign and a run of digits whole. -/
theorem matchToks_signed_neg {d : List Char} (hd : d ≠ []) (hds : ∀ c ∈ d, c.isDigit = true) :
    matchToks (.signed :: ts) ('-' :: d) = (matchToks ts []).map (('-' :: d) :: ·) := by
  have hrun := run_split (s := []) hds (by simp)
  rw [List.append_nil] at hrun
  simp only [matchToks, hrun.1, hrun.2, if_neg hd]

end Matching

/-! ## `toString` of an `off_t` and `string2off_t` -/

/-- `string2off_t` reads back a negative size that `toString` wrote, down to `-2^63`. -/
theorem string2offT_neg_toDigits {n : ℕ} (hn : n ≤ 2 ^ 63) :
    string2offT ⟨'-' :: Nat.toDigits 10 n⟩ = .ok (-(n : ℤ)) := by
  obtain ⟨v, hne, hall⟩ := toDigits_spec n
  generalize Nat.toDigits 10 n = ds at v hne hall
  have hdigits : ds.takeWhile Char.isDigit = ds :=
    List.takeWhile_eq_self_iff.mpr fun c hc => (hall c hc).1
  have hdrop : ('-' :: ds).dropWhile isSpaceChar = '-' :: ds :=
    List.dropWhile_cons_of_neg (by decide)
  simp only [string2offT, String.toList, hdrop, hdigits, v, if_true]
  rw [if_neg hne, if_neg (by omega)]

/-- `string2off_t` reads back every `off_t` that `toString` wrote. -/
theorem string2offT_toString {z : ℤ} (hlo : -2 ^ 63 ≤ z) (hhi : z < 2 ^ 63) :
    string2offT (toString z) = .ok z := by
  cases z with
  | ofNat n => rw [Int.ofNat_eq_coe] at hhi; exact string2offT_toDigits (by omega)
  | negSucc n => rw [Int.negSucc_eq] at hlo; exact string2offT_neg_toDigits (n := n + 1) (by omega)

/-- `toString` of an `off_t` is at most 20 characters long. -/
theorem toString_length_le {z : ℤ} (hlo : -2 ^ 63 ≤ z) (hhi : z < 2 ^ 63) :
    (toString z).length ≤ 20 := by
  cases z with
  | ofNat n =>
    rw [Int.ofNat_eq_coe] at hhi
    have := Nat.repr_length n 19 (by decide) (by omega)
    exact this.trans (by decide)
  | negSucc n =>
    rw [Int.negSucc_eq] at hlo
    have := Nat.repr_length (n + 1) 19 (by decide) (by omega)
    show (Nat.repr (n + 1)).length + 1 ≤ 20
    omega

/-! ## The replies of the two requests -/

section FieldLines

variable {posToks : List Tok} {dupUUID dupPos unknown : String} {f : Fields}

/-- `UUID:` and a word, when no UUID came before: the UUID. -/
theorem fieldLine_uuid {u : String} (hu : isWord u.toList = true) (hf : f.uuid = none) :
    fieldLine posToks dupUUID dupPos unknown f ("UUID:" ++ u).toList =
      .ok ({ f with uuid := some u }, false) := by
  have hm : matchToks rxUUID ("UUID:" ++ u).toList = some [u.toList] := by
    rw [rxUUID, show ("UUID:" ++ u).toList = "UUID:".toList ++ (u.toList ++ []) by
      rw [List.append_nil]; rfl, matchToks_lit (by decide), matchToks_word hu (by simp)]
    rfl
  rw [fieldLine, hm]
  simp only [hf, Option.isSome_none]
  rfl

/-- The position line, when no position came before: the position, read by `string2off_t`. -/
theorem fieldLine_pos {line d : List Char} {n : ℤ} (hu : matchToks rxUUID line = none)
    (hm : matchToks posToks line = some [d]) (hn : string2offT ⟨d⟩ = .ok n) (hf : f.pos = none) :
    fieldLine posToks dupUUID dupPos unknown f line = .ok ({ f with pos := some n }, false) := by
  rw [fieldLine, hu]
  simp only [hm, hf, hn, Option.isSome_none]
  rfl

/-- A reply line that is neither a `UUID:` line nor a position line ends the reply with its status
and information. -/
theorem fieldLine_close {line status g info : List Char} (hu : matchToks rxUUID line = none)
    (hm : matchToks posToks line = none) (hr : rxReply line = some (status, g, info)) :
    fieldLine posToks dupUUID dupPos unknown f line =
      .ok ({ f with status := status, info := info }, true) := by
  rw [fieldLine, hu]
  simp only [hm, hr]

/-- The reply a wrapper writes for a request that succeeded: the position line, `UUID:` and the
UUID, then `OK`. -/
theorem forLines_fields_ok {posLine : List Char} {u : String} {n : ℤ}
    (hpos : fieldLine posToks dupUUID dupPos unknown ⟨none, none, [], []⟩ posLine =
      .ok (⟨none, some n, [], []⟩, false))
    (hu : isWord u.toList = true) (hok : matchToks posToks "OK".toList = none) :
    forLines (fieldLine posToks dupUUID dupPos unknown) ⟨none, none, [], []⟩
        [posLine, ("UUID:" ++ u).toList, "OK".toList] =
      .ok (⟨some u, some n, "OK".toList, []⟩, true, []) := by
  rw [forLines, hpos]
  dsimp only
  rw [forLines, fieldLine_uuid hu rfl]
  dsimp only
  rw [forLines, fieldLine_close (by decide) hok
    (show rxReply "OK".toList = some ("OK".toList, [], []) by decide)]

/-- The reply a wrapper writes for a request that threw: one `ERR` line. -/
theorem forLines_fields_err {e : String} (he : isEntry e.toList = true)
    (hm : matchToks posToks ("ERR " ++ e).toList = none) :
    forLines (fieldLine posToks dupUUID dupPos unknown) ⟨none, none, [], []⟩
        [("ERR " ++ e).toList] = .ok (⟨none, none, "ERR".toList, e.toList⟩, true, []) := by
  have hu : matchToks rxUUID ("ERR " ++ e).toList = none := matchToks_lit_cons (by decide) (by decide)
  rw [forLines, fieldLine_close hu hm (rxReply_err_entry he)]
  rfl

end FieldLines

/-- The characters `toString` writes for an integer: no line end among them. -/
theorem toString_noEol (z : ℤ) : ∀ c ∈ (toString z).toList, isEol c = false := by
  have hdig : ∀ n : ℕ, ∀ c ∈ Nat.toDigits 10 n, isEol c = false := fun n c hc =>
    isEol_of_not_space (not_space_of_digit ((toDigits_spec n).2.2 c hc).1)
  cases z with
  | ofNat n => exact hdig n
  | negSucc n => exact List.forall_mem_cons.mpr ⟨rfl, hdig (n + 1)⟩

/-- `AlreadyHave:` and a position that is not negative, when no position came before: the
position. -/
theorem fieldLine_alreadyHave {dupUUID dupPos unknown : String} {z : ℤ} (h0 : 0 ≤ z)
    (hz : z < 2 ^ 63) :
    fieldLine rxAlreadyHave dupUUID dupPos unknown ⟨none, none, [], []⟩
        ("AlreadyHave:" ++ toString z).toList = .ok (⟨none, some z, [], []⟩, false) := by
  obtain ⟨m, rfl⟩ := Int.eq_ofNat_of_zero_le h0
  obtain ⟨-, hne, hall⟩ := toDigits_spec m
  have hm : matchToks rxAlreadyHave ("AlreadyHave:" ++ toString (m : ℤ)).toList =
      some [Nat.toDigits 10 m] := by
    rw [rxAlreadyHave, show ("AlreadyHave:" ++ toString (m : ℤ)).toList =
      "AlreadyHave:".toList ++ (Nat.toDigits 10 m ++ []) by rw [List.append_nil]; rfl,
      matchToks_lit (by decide), matchToks_digits hne (fun c hc => (hall c hc).1) (by simp)]
    rfl
  exact fieldLine_pos (matchToks_lit_cons (by decide) (by decide)) hm
    (string2offT_toDigits (by omega)) rfl

/-- `Remain:` and a position within `off_t`, when no position came before: the position. -/
theorem fieldLine_remain {dupUUID dupPos unknown : String} {z : ℤ} (hlo : -2 ^ 63 ≤ z)
    (hhi : z < 2 ^ 63) :
    fieldLine rxRemain dupUUID dupPos unknown ⟨none, none, [], []⟩ ("Remain:" ++ toString z).toList =
      .ok (⟨none, some z, [], []⟩, false) := by
  have hsigned : matchToks [.signed] (toString z).toList = some [(toString z).toList] := by
    have hdig : ∀ n : ℕ, ∀ c ∈ Nat.toDigits 10 n, c.isDigit = true := fun n c hc =>
      ((toDigits_spec n).2.2 c hc).1
    cases z with
    | ofNat n => exact matchToks_signed_nat (toDigits_spec n).2.1 (hdig n)
    | negSucc n => exact matchToks_signed_neg (toDigits_spec (n + 1)).2.1 (hdig (n + 1))
  have hm : matchToks rxRemain ("Remain:" ++ toString z).toList = some [(toString z).toList] := by
    rw [rxRemain, show ("Remain:" ++ toString z).toList = "Remain:".toList ++ (toString z).toList
      from rfl, matchToks_lit (by decide), hsigned]
  exact fieldLine_pos (matchToks_lit_cons (by decide) (by decide)) hm
    (string2offT_toString hlo hhi) rfl

section FieldCalls

variable {posToks : List Tok} {dupUUID dupPos unknown msg unprocessed : String}
  {leftover : ℕ → String} {conn : Fd} {fuel : ℕ}

/-- A request's loop on the reply of a request that succeeded, split into reads in any way: both
fields, and the status `OK`. -/
theorem multiCall_fields_ok {posLine u : String} {n : ℤ}
    (hpos : fieldLine posToks dupUUID dupPos unknown ⟨none, none, [], []⟩ posLine.toList =
      .ok (⟨none, some n, [], []⟩, false))
    (hposFit : posLine.toList ≠ [] ∧ (∀ c ∈ posLine.toList, isEol c = false) ∧
      posLine.length < 2048)
    (hok : matchToks posToks "OK".toList = none) (hu : isWord u.toList = true)
    (hulen : u.length + 5 < 2048) (hw : conn.WritesAll msg.toList.length)
    (hp : conn.ReadsProgress) (hin : conn.input = [posLine, "UUID:" ++ u, "OK"].flatMap
      (·.toList ++ ['\n'])) (hfuel : conn.input.length < fuel) :
    ∃ conn', multiCall msg 2048 (fieldLine posToks dupUUID dupPos unknown) unprocessed leftover
        fuel ⟨none, none, [], []⟩ conn = some (.ok ⟨some u, some n, "OK".toList, []⟩, conn') ∧
      conn'.output = conn.output ++ msg.toList := by
  have hrun := forLines_fields_ok hpos hu hok
  have hls : ∀ l ∈ [posLine.toList, ("UUID:" ++ u).toList, "OK".toList],
      l ≠ [] ∧ (∀ c ∈ l, isEol c = false) ∧ l.length < 2048 := by
    simp only [List.mem_cons, List.mem_singleton, List.not_mem_nil, or_false]
    rintro l (rfl | rfl | rfl)
    · exact hposFit
    · exact entryLine_fits (p := "UUID:".toList) (by decide) (isEntry_of_isWord hu)
        (by rw [show "UUID:".toList.length = 5 from rfl]; omega)
    · decide
  exact (multiCall_of_reply hw hp (by rw [hin, flatMap_toList]; rfl) hls (by rw [hrun]; simp)
    hfuel).imp fun c' h => ⟨by rw [h.1, hrun]; rfl, h.2⟩

/-- A request's loop on the reply of a request that threw, one `ERR` line: the status `ERR` and
the error as information. -/
theorem multiCall_fields_err {e : String} (he : isEntry e.toList = true)
    (hlen : e.length + 4 < 2048) (hm : matchToks posToks ("ERR " ++ e).toList = none)
    (hw : conn.WritesAll msg.toList.length) (hp : conn.ReadsProgress)
    (hin : conn.input = ("ERR " ++ e).toList ++ ['\n']) (hfuel : conn.input.length < fuel) :
    ∃ conn', multiCall msg 2048 (fieldLine posToks dupUUID dupPos unknown) unprocessed leftover
        fuel ⟨none, none, [], []⟩ conn = some (.ok ⟨none, none, "ERR".toList, e.toList⟩, conn') ∧
      conn'.output = conn.output ++ msg.toList := by
  have hrun : forLines (fieldLine posToks dupUUID dupPos unknown) ⟨none, none, [], []⟩
      [("ERR " ++ e).toList] = .ok (⟨none, none, "ERR".toList, e.toList⟩, true, []) :=
    forLines_fields_err he hm
  have hfit : ∀ l ∈ [("ERR " ++ e).toList], l ≠ [] ∧ (∀ c ∈ l, isEol c = false) ∧
      l.length < 2048 := by
    simpa using entryLine_fits (p := "ERR ".toList) (by decide) he
      (by rw [show "ERR ".toList.length = 4 from rfl]; omega)
  exact (multiCall_of_reply hw hp
    (by rw [hin]; simp : conn.input = [("ERR " ++ e).toList].flatMap (· ++ ['\n'])) hfit
    (by rw [hrun]; simp) hfuel).imp fun c' h => ⟨by rw [h.1, hrun]; rfl, h.2⟩

end FieldCalls

/-! ## The wrapper's patterns on the lines the proxy writes -/

/-- A number as `toString` writes it is a word. -/
theorem isWord_toDigits (n : ℕ) : isWord (Nat.toDigits 10 n) = true :=
  isWord_iff.mpr ⟨(toDigits_spec n).2.1, fun c hc =>
    not_space_of_digit ((toDigits_spec n).2.2 c hc).1⟩

/-- The line of `ETDProxy::listPath` is the wrapper's `list` command, with the path. -/
theorem parseCommand_list {p : List Char} (hp : isEntry p = true) :
    parseCommand ("list ".toList ++ p) = some (.list ⟨p⟩) := by
  have hm : matchToks rxList ("list ".toList ++ p) = some [p] := by
    rw [rxList, show "list ".toList ++ p = "list".toList ++ ([' '] ++ p) from rfl,
      matchToks_lit (by decide), matchToks_blanks (by simp) (by decide) (isEntry_head hp),
      matchToks_tail hp]
    rfl
  simp only [parseCommand, hm]
  rfl

/-- The line of `ETDProxy::requestFileWrite` is the wrapper's `write-file-` command, with the open
mode and the file. -/
theorem parseCommand_requestFileWrite {om file : List Char} (hom : isWord om = true)
    (hf : isEntry file = true) :
    parseCommand ("write-file-".toList ++ om ++ ' ' :: file) =
      some (.requestFileWrite ⟨om⟩ ⟨file⟩) := by
  have h1 : matchToks rxList ("write-file-".toList ++ om ++ ' ' :: file) = none :=
    matchToks_lit_cons (by decide) (by decide)
  have h2 : matchToks rxReqFileWrite ("write-file-".toList ++ om ++ ' ' :: file) =
      some [om, file] := by
    rw [rxReqFileWrite, show "write-file-".toList ++ om ++ ' ' :: file =
        "write-file-".toList ++ (om ++ ([' '] ++ file)) by simp,
      matchToks_lit (by decide), matchToks_word hom (by simp; rfl),
      matchToks_blanks (by simp) (by decide) (isEntry_head hf), matchToks_tail hf]
    rfl
  simp only [parseCommand, h1, h2, Option.none_orElse]
  rfl

/-- The line of `ETDProxy::requestFileRead` is the wrapper's `read-file` command, with what the
client already has, when that is not negative, and the file. -/
theorem parseCommand_requestFileRead {n : ℕ} {file : List Char} (hf : isEntry file = true) :
    parseCommand ("read-file ".toList ++ Nat.toDigits 10 n ++ ' ' :: file) =
      some (.requestFileRead ⟨Nat.toDigits 10 n⟩ ⟨file⟩) := by
  obtain ⟨-, hne, hall⟩ := toDigits_spec n
  have h1 : matchToks rxList ("read-file ".toList ++ Nat.toDigits 10 n ++ ' ' :: file) = none :=
    matchToks_lit_cons (by decide) (by decide)
  have h2 : matchToks rxReqFileWrite ("read-file ".toList ++ Nat.toDigits 10 n ++ ' ' :: file) =
      none := matchToks_lit_cons (by decide) (by decide)
  have h3 : matchToks rxReqFileRead ("read-file ".toList ++ Nat.toDigits 10 n ++ ' ' :: file) =
      some [Nat.toDigits 10 n, file] := by
    rw [rxReqFileRead, show "read-file ".toList ++ Nat.toDigits 10 n ++ ' ' :: file =
        "read-file".toList ++ ([' '] ++ (Nat.toDigits 10 n ++ ([' '] ++ file))) by simp,
      matchToks_lit (by decide), matchToks_blanks (by simp) (by decide) (isWord_head (isWord_toDigits n)),
      matchToks_digits hne (fun c hc => (hall c hc).1) (by simp),
      matchToks_blanks (by simp) (by decide) (isEntry_head hf), matchToks_tail hf]
    rfl
  simp only [parseCommand, h1, h2, h3, Option.none_orElse]
  rfl

/-- The line of `ETDProxy::dataChannelAddr` is the wrapper's `data-channel-addr` command. -/
theorem parseCommand_dataChannelAddr :
    parseCommand "data-channel-addr".toList = some .dataChannelAddr := by
  decide

/-! ## Four calls through both ends -/

/-- The results of a list whose reply the proxy reads back whole with a buffer of `bufSz`: entries,
or an error text, that start with no blank and hold no line end, each line shorter than the
buffer. -/
def listFits (bufSz : ℕ) : Except String (List String) → Bool
  | .ok entries => entries.all fun e => isEntry e.toList && decide (e.length + 3 < bufSz)
  | .error e => isEntry e.toList && decide (e.length + 4 < bufSz)

/-- The results of a request whose reply the proxy reads back whole: a UUID without blanks and a
position from `lo` to below `2^63`, or an error text that starts with no blank and holds no line
end, each line shorter than the buffer. `lo` is `0` where the proxy's pattern takes digits only. -/
def fieldsFit (lo : ℤ) : Except String (Uuid × ℤ) → Bool
  | .ok (u, n) =>
    isWord u.toList && decide (u.length + 5 < 2048) && decide (lo ≤ n) && decide (n < 2 ^ 63)
  | .error e => isEntry e.toList && decide (e.length + 4 < 2048)

/-- The results of `dataChannelAddr` whose reply the proxy reads back whole: addresses that the
channel carries, each line shorter than the buffer, or an error text as for a list. -/
def AddrsFit {α : Type} (codec : Codec α) : Except String (List α) → Prop
  | .ok addrs => ∀ a ∈ addrs, Carries codec a ∧ (codec.showAddr a).length + 3 < 2048
  | .error e => isEntry e.toList = true ∧ e.length + 4 < 2048

/-- A reply line of a status and an entry is as long as both. -/
theorem line_length (p e : String) : (p ++ e).toList.length = p.length + e.length :=
  String.length_append p e

/-- `fieldsResult` on the fields of an `ERR` reply: the error, after the call's prefix. -/
theorem fieldsResult_err (name file : String) {e : String} (he : isEntry e.toList = true) :
    fieldsResult name file ⟨none, none, "ERR".toList, e.toList⟩ =
      .error (name ++ "(" ++ file ++ ") failed - " ++ e) := by
  have hne : e.toList.isEmpty = false := by
    obtain ⟨c, t, hct⟩ := List.exists_cons_of_ne_nil (ne_nil_of_isEntry he)
    rw [hct]; rfl
  dsimp only [fieldsResult]
  rw [if_pos (by decide), hne]
  rfl

section Calls

variable {σ α : Type} {svc : Service σ α} {codec : Codec α} {w : Wrapper σ} {pc : Fd} {pfuel : ℕ}

/-- The state the wrapper leaves is the server's after the call, whatever it replies. -/
@[simp] theorem errReply_snd {β : Type} (res : Except String β × σ) (ok : β → List String) :
    (errReply res ok).2 = res.2 := by
  obtain ⟨_ | _, _⟩ := res <;> rfl

/-- The wrapper's reply to `list` for a result that fits: lines that writes of `16384` bytes take
whole. -/
theorem list_replies_le {path : String} {st : σ}
    (hfit : listFits 16384 (svc.listPath path st).1 = true) :
    ∀ r ∈ ((Command.list path).run svc codec st).1, r.toList.length ≤ 16384 := by
  simp only [Command.run]
  generalize svc.listPath path st = r at hfit
  obtain ⟨e | entries, st'⟩ := r
  · simp only [listFits, Bool.and_eq_true, decide_eq_true_eq] at hfit
    simp only [errReply, List.mem_singleton, forall_eq, line_length]
    exact le_of_lt (by rw [show "ERR ".length = 4 from rfl]; omega)
  · simp only [listFits, List.all_eq_true, Bool.and_eq_true, decide_eq_true_eq] at hfit
    simp only [errReply, List.mem_append, List.mem_map, List.mem_singleton]
    rintro r (⟨e, he, rfl⟩ | rfl)
    · rw [line_length, show "OK ".length = 3 from rfl]
      exact le_of_lt (by have := (hfit e he).2; omega)
    · decide

/-- The wrapper's reply to `list`, read by `ETDProxy::listPath` however it is split: the server's
result, an error after the proxy's prefix. -/
theorem listPath_reads_reply {path : String} {st : σ}
    (hfit : listFits 16384 (svc.listPath path st).1 = true)
    (hpw : pc.WritesAll ("list " ++ path ++ "\n").toList.length) (hpp : pc.ReadsProgress)
    (hin : pc.input = ((Command.list path).run svc codec st).1.flatMap (·.toList ++ ['\n']))
    (hpf : pc.input.length < pfuel) :
    (listPath path pfuel pc).map Prod.fst =
      some ((svc.listPath path st).1.mapError ("listPath(" ++ path ++ ") failed - " ++ ·)) := by
  simp only [Command.run] at hin
  generalize svc.listPath path st = r at hfit hin
  obtain ⟨e | entries, st'⟩ := r
  · simp only [listFits, Bool.and_eq_true, decide_eq_true_eq] at hfit
    obtain ⟨c', h, -⟩ := listPath_of_error hfit.1 hfit.2 hpw hpp (by simpa [errReply] using hin) hpf
    rw [h]
    rfl
  · simp only [listFits, List.all_eq_true, Bool.and_eq_true, decide_eq_true_eq] at hfit
    obtain ⟨c', h, -⟩ := listPath_of_entries hpw hpp hfit hin hpf
    rw [h]
    rfl

/-- An `ERR` line shorter than the buffer is a write of at most `2048` bytes. -/
theorem errLine_le {e : String} (h : e.length + 4 < 2048) :
    ∀ r ∈ ["ERR " ++ e], r.toList.length ≤ 2048 := by
  simp only [List.mem_singleton, forall_eq, line_length]
  exact le_of_lt (by rw [show "ERR ".length = 4 from rfl]; omega)

/-- The lines of a request that succeeded, for a position line of at most `2048` bytes and a UUID
whose line is shorter than the buffer: writes of at most `2048` bytes. -/
theorem fieldLines_le {posLine u : String} (hpos : posLine.length ≤ 2048)
    (hu : u.length + 5 < 2048) : ∀ r ∈ [posLine, "UUID:" ++ u, "OK"], r.toList.length ≤ 2048 := by
  simp only [List.mem_cons, List.mem_singleton, List.not_mem_nil, or_false]
  rintro r (rfl | rfl | rfl)
  · exact hpos
  · rw [line_length, show "UUID:".length = 5 from rfl]; omega
  · decide

/-- A position line: a prefix of at most `12` characters and an `off_t`, shorter than the buffer,
with no line end. -/
theorem posLine_fits {pre : String} {z : ℤ} (hpre : pre.toList ≠ [] ∧ pre.length ≤ 12)
    (hpe : ∀ c ∈ pre.toList, isEol c = false) (hlo : -2 ^ 63 ≤ z) (hhi : z < 2 ^ 63) :
    (pre ++ toString z).toList ≠ [] ∧ (∀ c ∈ (pre ++ toString z).toList, isEol c = false) ∧
      (pre ++ toString z).length < 2048 := by
  have := toString_length_le hlo hhi
  refine ⟨List.append_ne_nil_of_left_ne_nil hpre.1 _,
    List.forall_mem_append.mpr ⟨hpe, toString_noEol z⟩, ?_⟩
  rw [String.length_append]
  omega

theorem mapM_showAddr {addrs : List α} (hc : ∀ a ∈ addrs, Carries codec a) :
    (addrs.map codec.showAddr).mapM codec.decodeDataAddr = .ok addrs := by
  induction addrs with
  | nil => rfl
  | cons a as ih =>
    rw [List.map_cons, List.mapM_cons, (hc a (List.mem_cons_self _ _)).2.2,
      ih fun b hb => hc b (List.mem_cons_of_mem _ hb)]
    rfl

/-- The wrapper's reply to `data-channel-addr` for a result that fits: writes of at most `2048`
bytes. -/
theorem dataChannelAddr_replies_le {st : σ} (hfit : AddrsFit codec (svc.dataChannelAddr st).1) :
    ∀ r ∈ (Command.dataChannelAddr.run svc codec st).1, r.toList.length ≤ 2048 := by
  simp only [Command.run]
  generalize svc.dataChannelAddr st = r at hfit
  obtain ⟨e | addrs, st'⟩ := r
  · exact errLine_le hfit.2
  · simp only [errReply, List.mem_append, List.mem_map, List.mem_singleton]
    rintro r (⟨a, ha, rfl⟩ | rfl)
    · rw [line_length, show "OK ".length = 3 from rfl]
      exact le_of_lt (by have := (hfit a ha).2; omega)
    · decide

/-- The wrapper's reply to `data-channel-addr`, read by `ETDProxy::dataChannelAddr` however it is
split: the server's addresses, or its error after the proxy's prefix. -/
theorem dataChannelAddr_reads_reply {st : σ} (hfit : AddrsFit codec (svc.dataChannelAddr st).1)
    (hpw : pc.WritesAll "data-channel-addr\n".toList.length) (hpp : pc.ReadsProgress)
    (hin : pc.input = (Command.dataChannelAddr.run svc codec st).1.flatMap (·.toList ++ ['\n']))
    (hpf : pc.input.length < pfuel) :
    (dataChannelAddr codec pfuel pc).map Prod.fst =
      some ((svc.dataChannelAddr st).1.mapError ("dataChannelAddr() failed - " ++ ·)) := by
  simp only [Command.run] at hin
  generalize svc.dataChannelAddr st = r at hfit hin
  obtain ⟨e | addrs, st'⟩ := r
  · obtain ⟨c', h, -⟩ := dataChannelAddr_of_error hfit.1 hfit.2 hpw hpp
      (by simpa [errReply] using hin) hpf
    rw [h]
    rfl
  · have he : ∀ e ∈ addrs.map codec.showAddr, isEntry e.toList = true ∧ e.length + 3 < 2048 := by
      simpa using fun a ha => ⟨isEntry_of_isWord (hfit a ha).1.1, (hfit a ha).2⟩
    obtain ⟨c', h, -⟩ := dataChannelAddr_of_entries hpw hpp he
      (mapM_showAddr fun a ha => (hfit a ha).1) (by rw [hin, List.map_map]; rfl) hpf
    rw [h]
    rfl

/-- The wrapper's reply to `write-file-` for a result that fits: writes of at most `2048`
bytes. -/
theorem requestFileWrite_replies_le {file om : String} {st : σ}
    (hfit : fieldsFit 0 (svc.requestFileWrite file (codec.readOpenMode om) st).1 = true) :
    ∀ r ∈ ((Command.requestFileWrite om file).run svc codec st).1, r.toList.length ≤ 2048 := by
  simp only [Command.run]
  generalize svc.requestFileWrite file (codec.readOpenMode om) st = r at hfit
  obtain ⟨e | ⟨u, z⟩, st'⟩ := r
  · simp only [fieldsFit, Bool.and_eq_true, decide_eq_true_eq] at hfit
    exact errLine_le hfit.2
  · simp only [fieldsFit, Bool.and_eq_true, decide_eq_true_eq] at hfit
    obtain ⟨⟨⟨-, hulen⟩, h0⟩, hz⟩ := hfit
    exact fieldLines_le (posLine_fits (by decide) (by decide) (by omega) hz).2.2.le hulen

/-- The wrapper's reply to `write-file-`, read by `ETDProxy::requestFileWrite` however it is split:
the server's UUID and position, or its error after the proxy's prefix. -/
theorem requestFileWrite_reads_reply {file om : String} {st : σ}
    (hfit : fieldsFit 0 (svc.requestFileWrite file (codec.readOpenMode om) st).1 = true)
    (hpw : pc.WritesAll ("write-file-" ++ om ++ " " ++ file ++ "\n").toList.length)
    (hpp : pc.ReadsProgress)
    (hin : pc.input =
      ((Command.requestFileWrite om file).run svc codec st).1.flatMap (·.toList ++ ['\n']))
    (hpf : pc.input.length < pfuel) :
    (requestFileWrite file om pfuel pc).map Prod.fst =
      some ((svc.requestFileWrite file (codec.readOpenMode om) st).1.mapError
        ("requestFileWrite(" ++ file ++ ") failed - " ++ ·)) := by
  simp only [Command.run] at hin
  generalize svc.requestFileWrite file (codec.readOpenMode om) st = r at hfit hin
  obtain ⟨e | ⟨u, z⟩, st'⟩ := r
  · simp only [fieldsFit, Bool.and_eq_true, decide_eq_true_eq] at hfit
    rw [EtdProxy.requestFileWrite]
    exact (multiCall_fields_err hfit.1 hfit.2
      (show matchToks rxAlreadyHave ("ERR " ++ e).toList = none from
        matchToks_lit_cons (by decide) (by decide)) hpw hpp (by simpa [errReply] using hin)
      hpf).elim fun c' h => by
        rw [h.1]
        exact congrArg some (fieldsResult_err "requestFileWrite" file hfit.1)
  · simp only [fieldsFit, Bool.and_eq_true, decide_eq_true_eq] at hfit
    obtain ⟨⟨⟨hu, hulen⟩, h0⟩, hz⟩ := hfit
    rw [EtdProxy.requestFileWrite]
    exact (multiCall_fields_ok (fieldLine_alreadyHave h0 hz)
      (posLine_fits (by decide) (by decide) (by omega) hz) (by decide) hu hulen hpw hpp hin
      hpf).elim fun c' h => by rw [h.1]; rfl

/-- The wrapper's reply to `read-file` for a count it reads back and a result that fits: writes
of at most `2048` bytes. -/
theorem requestFileRead_replies_le {file : String} {n : ℕ} {st : σ} (hn : n < 2 ^ 63)
    (hfit : fieldsFit (-2 ^ 63) (svc.requestFileRead file n st).1 = true) :
    ∀ r ∈ ((Command.requestFileRead ⟨Nat.toDigits 10 n⟩ file).run svc codec st).1,
      r.toList.length ≤ 2048 := by
  simp only [Command.run, string2offT_toDigits hn]
  generalize svc.requestFileRead file n st = r at hfit
  obtain ⟨e | ⟨u, z⟩, st'⟩ := r
  · simp only [fieldsFit, Bool.and_eq_true, decide_eq_true_eq] at hfit
    exact errLine_le hfit.2
  · simp only [fieldsFit, Bool.and_eq_true, decide_eq_true_eq] at hfit
    obtain ⟨⟨⟨-, hulen⟩, hlo⟩, hhi⟩ := hfit
    exact fieldLines_le (posLine_fits (by decide) (by decide) hlo hhi).2.2.le hulen

/-- The wrapper's reply to `read-file`, read by `ETDProxy::requestFileRead` however it is split:
the server's UUID and remaining bytes, or its error after the proxy's prefix. -/
theorem requestFileRead_reads_reply {file : String} {n : ℕ} {st : σ} (hn : n < 2 ^ 63)
    (hfit : fieldsFit (-2 ^ 63) (svc.requestFileRead file n st).1 = true)
    (hpw : pc.WritesAll ("read-file " ++ toString (n : ℤ) ++ " " ++ file ++ "\n").toList.length)
    (hpp : pc.ReadsProgress)
    (hin : pc.input = ((Command.requestFileRead ⟨Nat.toDigits 10 n⟩ file).run svc codec st).1.flatMap
      (·.toList ++ ['\n']))
    (hpf : pc.input.length < pfuel) :
    (EtdProxy.requestFileRead file n pfuel pc).map Prod.fst =
      some ((svc.requestFileRead file n st).1.mapError
        ("requestFileRead(" ++ file ++ ") failed - " ++ ·)) := by
  simp only [Command.run, string2offT_toDigits hn] at hin
  generalize svc.requestFileRead file n st = r at hfit hin
  obtain ⟨e | ⟨u, z⟩, st'⟩ := r
  · simp only [fieldsFit, Bool.and_eq_true, decide_eq_true_eq] at hfit
    rw [EtdProxy.requestFileRead]
    exact (multiCall_fields_err hfit.1 hfit.2
      (show matchToks rxRemain ("ERR " ++ e).toList = none from
        matchToks_lit_cons (by decide) (by decide)) hpw hpp (by simpa [errReply] using hin)
      hpf).elim fun c' h => by
        rw [h.1]
        exact congrArg some (fieldsResult_err "requestFileRead" file hfit.1)
  · simp only [fieldsFit, Bool.and_eq_true, decide_eq_true_eq] at hfit
    obtain ⟨⟨⟨hu, hulen⟩, hlo⟩, hhi⟩ := hfit
    rw [EtdProxy.requestFileRead]
    exact (multiCall_fields_ok (fieldLine_remain hlo hhi)
      (posLine_fits (by decide) (by decide) hlo hhi) (by decide) hu hulen hpw hpp hin
      hpf).elim fun c' h => by rw [h.1]; rfl

end Calls

end ETransfer.EtdReplyRoundTrip
