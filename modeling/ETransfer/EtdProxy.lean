import ETransfer.EtdControl

/-!
# The replies of several lines: `ETDProxy::listPath`, `requestFileWrite`, `requestFileRead` and
`dataChannelAddr`

These four calls of `ETDProxy` write their command and then read reply lines until one of them
ends the reply: a bare `OK` for `listPath` and `dataChannelAddr`, an `OK` or `ERR` line for the
two requests. Their loops share one shape: read after the bytes kept, run the complete lines in
order, require that no line is left once the reply has ended, and move the bytes after the last
line to the front of the buffer (`memmove`). After the loop no byte may be left. That shape is
`replyLoop` and `multiCall`; each call gives it its buffer size, the body of its `for` loop and
its messages.

Proved: on a reply of whole lines that fit the buffer, split into reads in any way, the loop
runs exactly the reply's lines, in order, and reads all of it (`multiCall_of_reply`): what a call
returns depends on the reply's lines only. For each call the result on a well-formed reply is
computed from the lines. Replies whose lines are ended by any mix of `\r` and `\n`, and lines too
long for the buffer, are the subject of `EtdLineFraming`.
-/

namespace ETransfer.EtdProxy

open EtdRegistry EtdLockProtocol EtdDataPath EtdHeader EtdControl

/-! ## The loop shared by the four calls -/

/-- The `for` loop over the lines of one read, `onLine` its body: it stops after the line that
ends the reply, and gives the state, whether the reply ended, and the lines not looked at. -/
def forLines {S : Type} (onLine : S → List Char → Except String (S × Bool)) :
    S → List (List Char) → Except String (S × Bool × List (List Char))
  | s, [] => .ok (s, false, [])
  | s, line :: lines =>
    match onLine s line with
    | .error e => .error e
    | .ok (s', true) => .ok (s', true, lines)
    | .ok (s', false) => forLines onLine s' lines

/-- The `while` loop of the replies of several lines, `fuel` bounding its reads: read after the
`curPos` bytes kept, run the complete lines, require that none is left over, and keep the bytes
after the last line. It ends once the reply has ended or the buffer is full, with the state and
the bytes kept. -/
def replyLoop {S : Type} (bufSz : ℕ) (onLine : S → List Char → Except String (S × Bool))
    (unprocessed : String) : ℕ → S → List Char → Fd → Option (Except String (S × List Char) × Fd)
  | 0, _, _, _ => none
  | fuel + 1, s, buffer, conn =>
    if bufSz ≤ buffer.length then some (.ok (s, buffer), conn)
    else
      let r := conn.read (bufSz - buffer.length)
      if r.1 ≤ 0 then some (.error "Failed to read data from remote end", r.2.2)
      else
        let lines := getReplies (buffer ++ r.2.1)
        match forLines onLine s lines.1 with
        | .error e => some (.error e, r.2.2)
        | .ok (s', finished, left) =>
          if left ≠ [] then some (.error unprocessed, r.2.2)
          else if finished then some (.ok (s', lines.2), r.2.2)
          else replyLoop bufSz onLine unprocessed fuel s' lines.2 r.2.2

/-- A call whose reply has several lines: its command written, checked by `ETDCASSERTX`; the reply
loop from an empty buffer; then `curPos == 0`, `leftover` giving the message. -/
def multiCall {S : Type} (msg : String) (bufSz : ℕ)
    (onLine : S → List Char → Except String (S × Bool)) (unprocessed : String)
    (leftover : ℕ → String) (fuel : ℕ) (s : S) (conn : Fd) : Option (Except String S × Fd) :=
  let w := conn.write msg.toList
  if w.1 ≠ msg.toList.length then
    some (.error
      "__m_connection->write(__m_connection->__m_fd, msg.data(), msg.size())==(ssize_t)msg.size()",
      w.2)
  else
    (replyLoop bufSz onLine unprocessed fuel s [] w.2).map fun (r, c) =>
      (r.bind fun (s', rest) => if rest.length = 0 then .ok s' else .error (leftover rest.length), c)

/-! ## The bodies of the four loops -/

/-- One reply line of `listPath` or `dataChannelAddr`; the state is the status of the lines so far
and the entries. Every line must match `rxReply`, with the status of the first, which must be `OK`
when there are several; an `ERR` line throws `failed` and its information; a bare `OK` ends the
reply; any other line adds an entry, `decode` made of its information. -/
def listLine {β : Type} (failed : String) (decode : String → Except String β)
    (st : List Char × List β) (line : List Char) : Except String ((List Char × List β) × Bool) :=
  match rxReply line with
  | none => .error "Server replied with an invalid line"
  | some (status, _, info) =>
    if !(st.1.isEmpty || (st.1 == "OK".toList && status == st.1)) then
      .error "The server changed its mind about the success of the call in the middle of the reply"
    else if status = "ERR".toList then
      .error (failed ++ if info.isEmpty then "<unknown reason>" else ⟨info⟩)
    else if status == "OK".toList && info.isEmpty then .ok ((status, st.2), true)
    else (decode ⟨info⟩).map fun v => ((status, st.2 ++ [v]), false)

/-- `rxUUID`, `^UUID:(\S+)$`. -/
def rxUUID : List Tok := [.lit "uuid:".toList, .word]

/-- `rxAlreadyHave`, `^AlreadyHave:([0-9]+)$`. -/
def rxAlreadyHave : List Tok := [.lit "alreadyhave:".toList, .digits]

/-- `rxRemain`, `^Remain:(-?[0-9]+)$`. -/
def rxRemain : List Tok := [.lit "remain:".toList, .signed]

/-- What the reply loops of `requestFileWrite` and `requestFileRead` collect. -/
structure Fields where
  /-- `curUUID`. -/
  uuid : Option Uuid
  /-- `filePos` (`AlreadyHave:`) or `remain` (`Remain:`). -/
  pos : Option ℤ
  /-- `status_s`, group 1 of the closing line. -/
  status : List Char
  /-- `info`, group 3 of the closing line. -/
  info : List Char

/-- One reply line of `requestFileWrite` or `requestFileRead`, `posToks` the pattern of the
position line and the texts those of the call: a `UUID:` line or a position line, each at most
once, or the closing `OK` or `ERR` line; any other line throws. -/
def fieldLine (posToks : List Tok) (dupUUID dupPos unknown : String) (f : Fields)
    (line : List Char) : Except String (Fields × Bool) :=
  match matchToks rxUUID line with
  | some [u] => if f.uuid.isSome then .error dupUUID else .ok ({ f with uuid := some ⟨u⟩ }, false)
  | _ =>
    match matchToks posToks line with
    | some [d] =>
      if f.pos.isSome then .error dupPos
      else (string2offT ⟨d⟩).map fun n => ({ f with pos := some n }, false)
    | _ =>
      match rxReply line with
      | some (status, _, info) => .ok ({ f with status := status, info := info }, true)
      | none => .error (unknown ++ ⟨line⟩)

/-- The checks of `requestFileWrite` and `requestFileRead` after their loop: an `OK` status, then
both fields. -/
def fieldsResult (name file : String) (f : Fields) : Except String (Uuid × ℤ) :=
  if f.status ≠ "OK".toList then
    .error (name ++ "(" ++ file ++ ") failed - " ++
      if f.info.isEmpty then "<unknown reason>" else ⟨f.info⟩)
  else
    match f.pos, f.uuid with
    | some pos, some uuid => .ok (uuid, pos)
    | _, _ => .error (name ++ ": the server did NOT send all required fields")

/-! ## The four calls -/

/-- The message of the check after the loop of `listPath` and `dataChannelAddr`. -/
def unprocessedReply : String :=
  "There are unprocessed lines of reply from the server. This is probably a protocol error."

/-- `ETDProxy::listPath`, `fuel` bounding its reads. -/
def listPath (path : String) (fuel : ℕ) (conn : Fd) : Option (Except String (List String) × Fd) :=
  (multiCall ("list " ++ path ++ "\n") 16384 (listLine ("listPath(" ++ path ++ ") failed - ") .ok)
    unprocessedReply (fun n => "listPath: there are " ++ toString n ++
      " unconsumed bytes left in the input. This is likely a protocol error.") fuel ([], [])
    conn).map fun (r, c) => (r.map (·.2), c)

/-- `ETDProxy::dataChannelAddr`, `fuel` bounding its reads: each entry is decoded with
`decode_data_addr`. -/
def dataChannelAddr {α : Type} (codec : Codec α) (fuel : ℕ) (conn : Fd) :
    Option (Except String (List α) × Fd) :=
  (multiCall "data-channel-addr\n" 2048 (listLine "dataChannelAddr() failed - " codec.decodeDataAddr)
    unprocessedReply (fun n => "dataChannelAddr: there are " ++ toString n ++
      " unconsumed bytes left in the input. This is likely a protocol error.") fuel ([], [])
    conn).map fun (r, c) => (r.map (·.2), c)

/-- `ETDProxy::requestFileWrite`, `fuel` bounding its reads; `om` is the open mode as its
`operator<<` writes it. -/
def requestFileWrite (file om : String) (fuel : ℕ) (conn : Fd) :
    Option (Except String (Uuid × ℤ) × Fd) :=
  (multiCall ("write-file-" ++ om ++ " " ++ file ++ "\n") 2048
    (fieldLine rxAlreadyHave "Server had already sent a UUID" "Server had already sent file position"
      "requestFileWrite: the server sent a reply that we did not recognize: ")
    "requestFileWrite: there are unprocessed lines of input left, this means the server sent an erroneous reply."
    (fun n => "requestFileWrite: there are " ++ toString n ++
      " unconsumed server bytes left in the input. This is likely a protocol error.")
    fuel ⟨none, none, [], []⟩ conn).map fun (r, c) => (r.bind (fieldsResult "requestFileWrite" file), c)

/-- `ETDProxy::requestFileRead`, `fuel` bounding its reads. -/
def requestFileRead (file : String) (alreadyHave : ℤ) (fuel : ℕ) (conn : Fd) :
    Option (Except String (Uuid × ℤ) × Fd) :=
  (multiCall ("read-file " ++ toString alreadyHave ++ " " ++ file ++ "\n") 2048
    (fieldLine rxRemain "Server already sent a UUID" "Server already sent a file position"
      "requestFileRead: the server sent a reply that we did not recognize: ")
    "requestFileRead: there are unprocessed lines of input left, this means the server sent an erroneous reply."
    (fun n => "requestFileRead: there are " ++ toString n ++
      " unconsumed server bytes left in the input. This is likely a protocol error.")
    fuel ⟨none, none, [], []⟩ conn).map fun (r, c) => (r.bind (fieldsResult "requestFileRead" file), c)

/-! ## Running the lines of a reply -/

section Lines

variable {S : Type} (onLine : S → List Char → Except String (S × Bool))

/-- Running two lists of lines is running the first, then the second if the reply has not ended. -/
theorem forLines_append (s : S) (l₁ l₂ : List (List Char)) :
    forLines onLine s (l₁ ++ l₂) =
      match forLines onLine s l₁ with
      | .ok (s₁, false, _) => forLines onLine s₁ l₂
      | .ok (s₁, true, left) => .ok (s₁, true, left ++ l₂)
      | .error e => .error e := by
  induction l₁ generalizing s with
  | nil => rfl
  | cons l l₁ ih =>
    simp only [List.cons_append, forLines]
    rcases onLine s l with e | ⟨s', _ | _⟩
    · rfl
    · exact ih s'
    · rfl

variable {onLine}

/-- A run that has not ended the reply has looked at every line. -/
theorem forLines_left_of_false {s s' : S} {ls left : List (List Char)}
    (h : forLines onLine s ls = .ok (s', false, left)) : left = [] := by
  induction ls generalizing s with
  | nil => simp only [forLines, Except.ok.injEq, Prod.mk.injEq] at h; exact h.2.2.symm
  | cons l ls ih =>
    simp only [forLines] at h
    rcases hl : onLine s l with e | ⟨s'', _ | _⟩ <;> rw [hl] at h
    · cases h
    · exact ih h
    · simp at h

end Lines

/-! ## Cutting a reply into lines as it arrives -/

/-- The first `n + 1` characters of a line and the character after it. -/
theorem take_succ_append_cons (l t : List Char) (e : Char) :
    (l ++ e :: t).take (l.length + 1) = l ++ [e] := by
  rw [List.take_append_eq_append_take, List.take_of_length_le (by omega),
    show l.length + 1 - l.length = 1 by omega]
  rfl

/-- Bytes before a line end that are not line ends lie within the line before it. -/
theorem length_le_of_no_eol {buffer rest l t : List Char} {e : Char}
    (hin : buffer ++ rest = l ++ e :: t) (he : isEol e = true) (hb : ∀ c ∈ buffer, isEol c = false) :
    buffer.length ≤ l.length := by
  by_contra h
  have htake := congrArg (List.take (l.length + 1)) hin
  rw [List.take_append_of_le_length (by omega), take_succ_append_cons] at htake
  have hmem : e ∈ buffer.take (l.length + 1) := by rw [htake]; simp
  rw [hb e (List.mem_of_mem_take hmem)] at he
  cases he

/-- The bytes after a whole line start with no line end. -/
theorem dropWhile_isEol_of_lines {P Q : List Char} {ls : List (List Char)}
    (hls : ∀ l ∈ ls, l ≠ [] ∧ ∀ c ∈ l, isEol c = false) (h : P ++ Q = ls.flatMap (· ++ ['\n'])) :
    P.dropWhile isEol = P := by
  cases P with
  | nil => rfl
  | cons c P =>
    cases ls with
    | nil => simp at h
    | cons l ls =>
      obtain ⟨hl, hle⟩ := hls l (List.mem_cons_self _ _)
      obtain ⟨c', l', rfl⟩ := List.exists_cons_of_ne_nil hl
      simp only [List.cons_append, List.flatMap_cons, List.cons.injEq] at h
      rw [List.dropWhile_cons_of_neg (by simp [h.1, hle c' (List.mem_cons_self _ _)])]

/-- A prefix `P` of a reply of whole lines: `getReplies` gives the lines it holds whole, and keeps
the start of the next line. -/
theorem getReplies_prefix {ls : List (List Char)} {P Q : List Char}
    (hls : ∀ l ∈ ls, l ≠ [] ∧ ∀ c ∈ l, isEol c = false) (h : P ++ Q = ls.flatMap (· ++ ['\n'])) :
    ∃ j part, getReplies P = (ls.take j, part) ∧ part ++ Q = (ls.drop j).flatMap (· ++ ['\n']) ∧
      ∀ c ∈ part, isEol c = false := by
  induction ls generalizing P with
  | nil =>
    obtain ⟨rfl, rfl⟩ := List.append_eq_nil.mp h
    exact ⟨0, [], getReplies_of_no_eol (by simp), rfl, by simp⟩
  | cons l ls ih =>
    obtain ⟨hl, hle⟩ := hls l (List.mem_cons_self _ _)
    have hls' : ∀ l ∈ ls, l ≠ [] ∧ ∀ c ∈ l, isEol c = false :=
      fun l' hl' => hls l' (List.mem_cons_of_mem _ hl')
    rw [List.flatMap_cons, List.append_assoc, List.singleton_append] at h
    by_cases hP : P.length ≤ l.length
    · -- `P` ends inside the first line
      have hPl : P = l.take P.length := by
        conv_lhs => rw [← List.take_left P Q, h]
        rw [List.take_append_of_le_length hP]
      have hno : ∀ c ∈ P, isEol c = false := fun c hc =>
        hle c (List.mem_of_mem_take (by rw [← hPl]; exact hc))
      refine ⟨0, P, getReplies_of_no_eol hno, ?_, hno⟩
      rw [h, List.drop_zero, List.flatMap_cons, List.append_assoc, List.singleton_append]
    · -- `P` holds the first line whole
      obtain ⟨P', rfl⟩ : ∃ P', P = l ++ '\n' :: P' := by
        have htake := congrArg (List.take (l.length + 1)) h
        rw [List.take_append_of_le_length (by omega), take_succ_append_cons] at htake
        refine ⟨P.drop (l.length + 1), ?_⟩
        rw [← List.take_append_drop (l.length + 1) P, htake]
        simp
      have h' : P' ++ Q = ls.flatMap (· ++ ['\n']) := by simpa using h
      obtain ⟨j, part, hg, hpart, hno⟩ := ih hls' h'
      refine ⟨j + 1, part, ?_, hpart, hno⟩
      rw [getReplies_line hl hle (show isEol '\n' = true from rfl), dropWhile_isEol_of_lines hls' h',
        hg]
      rfl

/-! ## The loop on a reply of whole lines -/

/-- What the reply loop gives for a reply whose lines, run at once, give `r`, when the reply ends
with its last line or one of its lines throws. -/
def loopResult {S : Type} : Except String (S × Bool × List (List Char)) → Except String (S × List Char)
  | .ok (s', _, _) => .ok (s', [])
  | .error e => .error e

section Loop

variable {S : Type} {onLine : S → List Char → Except String (S × Bool)} {bufSz : ℕ}
  {unprocessed : String}

/-- The reply loop on the rest of a reply of whole lines, each shorter than the buffer, that ends
with its last line (or throws): however the transport splits it into reads, the loop runs the
lines in order and gives what running them at once gives, having read the whole reply unless a
line threw. `buffer` holds the start of the first line. -/
theorem replyLoop_of_reply {ls : List (List Char)} {s : S} {buffer : List Char} {conn : Fd}
    {fuel : ℕ} (hls : ∀ l ∈ ls, l ≠ [] ∧ (∀ c ∈ l, isEol c = false) ∧ l.length < bufSz)
    (hend : ∀ s' fin left, forLines onLine s ls = .ok (s', fin, left) → fin = true ∧ left = [])
    (hp : conn.ReadsProgress) (hin : buffer ++ conn.input = ls.flatMap (· ++ ['\n']))
    (hb : ∀ c ∈ buffer, isEol c = false) (hfuel : conn.input.length < fuel) :
    ∃ conn', replyLoop bufSz onLine unprocessed fuel s buffer conn =
        some (loopResult (forLines onLine s ls), conn') ∧ conn'.output = conn.output ∧
      ((forLines onLine s ls).isOk → conn'.input = []) := by
  induction fuel generalizing s buffer conn ls with
  | zero => omega
  | succ fuel ih =>
    obtain ⟨l, ls', rfl⟩ : ∃ l ls', ls = l :: ls' := by
      cases ls with
      | nil => exact absurd (hend s false [] rfl).1 (by simp)
      | cons l ls' => exact ⟨l, ls', rfl⟩
    obtain ⟨hl, hle, hlt⟩ := hls l (List.mem_cons_self _ _)
    have hin' : buffer ++ conn.input = l ++ '\n' :: ls'.flatMap (· ++ ['\n']) := by
      rw [hin, List.flatMap_cons, List.append_assoc, List.singleton_append]
    have hbl := length_le_of_no_eol hin' rfl hb
    have hne : conn.input ≠ [] := by
      intro h
      rw [h, List.append_nil] at hin'
      have := congrArg List.length hin'
      simp only [List.length_append, List.length_cons] at this
      omega
    obtain ⟨hfst, hpos⟩ := Fd.read_of_progress hp (k := bufSz - buffer.length) (by omega) hne
    have hall := Fd.read_append_input (f := conn) (k := bufSz - buffer.length)
    have hlines : (buffer ++ (conn.read (bufSz - buffer.length)).2.1) ++
        (conn.read (bufSz - buffer.length)).2.2.input = (l :: ls').flatMap (· ++ ['\n']) := by
      rw [List.append_assoc, hall, hin]
    obtain ⟨j, part, hg, hpart, hno⟩ :=
      getReplies_prefix (fun l hl => ⟨(hls l hl).1, (hls l hl).2.1⟩) hlines
    have happ := forLines_append onLine s ((l :: ls').take j) ((l :: ls').drop j)
    rw [List.take_append_drop] at happ
    rw [replyLoop, if_neg (by omega)]
    dsimp only
    rw [if_neg (by omega), hg]
    rcases hj : forLines onLine s ((l :: ls').take j) with e | ⟨s₁, _ | _, left⟩ <;>
      rw [hj] at happ <;> dsimp only at happ ⊢
    · -- a line of this read throws
      exact ⟨_, by rw [happ]; rfl, Fd.read_output _ _, by rw [happ]; intro h; cases h⟩
    · -- the reply goes on: the loop turns again with the bytes after the last line
      rw [forLines_left_of_false hj, if_neg (by simp), if_neg (by simp)]
      rw [happ] at hend ⊢
      have hrest := congrArg List.length hall
      simp only [List.length_append] at hrest
      obtain ⟨c', h, ho, hi⟩ := ih (fun l' hl' => hls l' (List.mem_of_mem_drop hl')) hend
        (hp.later Fd.later_read) hpart hno (by omega)
      exact ⟨c', h, by rw [ho, Fd.read_output], hi⟩
    · -- the reply ends in this read
      obtain ⟨-, hnil⟩ := hend _ _ _ happ
      obtain ⟨rfl, hdrop⟩ := List.append_eq_nil.mp hnil
      rw [hdrop, List.flatMap_nil] at hpart
      obtain ⟨rfl, hq⟩ := List.append_eq_nil.mp hpart
      rw [happ]
      exact ⟨_, by simp; rfl, Fd.read_output _ _, fun _ => hq⟩

/-- A call whose command is written whole and whose reply is whole lines, each shorter than the
buffer, that end with the last (or throw), split into reads in any way: it gives what running the
lines at once gives, and appends its command to the output. -/
theorem multiCall_of_reply {msg : String} {leftover : ℕ → String} {ls : List (List Char)} {s : S}
    {conn : Fd} {fuel : ℕ} (hw : conn.WritesAll msg.toList.length) (hp : conn.ReadsProgress)
    (hin : conn.input = ls.flatMap (· ++ ['\n']))
    (hls : ∀ l ∈ ls, l ≠ [] ∧ (∀ c ∈ l, isEol c = false) ∧ l.length < bufSz)
    (hend : ∀ s' fin left, forLines onLine s ls = .ok (s', fin, left) → fin = true ∧ left = [])
    (hfuel : conn.input.length < fuel) :
    ∃ conn', multiCall msg bufSz onLine unprocessed leftover fuel s conn =
        some ((forLines onLine s ls).map (·.1), conn') ∧ conn'.output = conn.output ++ msg.toList := by
  have hp' : (conn.write msg.toList).2.ReadsProgress := hp.later Fd.later_write
  obtain ⟨c', h, ho, -⟩ : ∃ c', replyLoop bufSz onLine unprocessed fuel s []
      (conn.write msg.toList).2 = some (loopResult (forLines onLine s ls), c') ∧ _ ∧ _ :=
    replyLoop_of_reply hls hend hp' (by rw [List.nil_append, Fd.write_input, hin]) (by simp)
      (by rw [Fd.write_input]; exact hfuel)
  rw [multiCall]
  simp only [Fd.write_fst_of_all hw le_rfl, ne_eq, not_true_eq_false, if_false, h, Option.map_some']
  refine ⟨c', ?_, by rw [ho, Fd.write_output_of_all hw le_rfl]⟩
  generalize forLines onLine s ls = r
  rcases r with e | ⟨s', f, left⟩ <;> rfl

end Loop

/-! ## The replies of a list -/

/-- An entry a list reply carries whole: not empty, no line end, and no blank first, which the
reply's `\s+` would take. -/
def isEntry : List Char → Bool
  | [] => false
  | c :: e => !isSpaceChar c && (c :: e).all (!isEol ·)

theorem ne_nil_of_isEntry {e : List Char} (h : isEntry e = true) : e ≠ [] := by
  rintro rfl; cases h

/-- `OK`, a blank and an entry: status `OK`, the entry as information. -/
theorem rxReply_ok_entry {e : List Char} (he : isEntry e = true) :
    rxReply ('O' :: 'K' :: ' ' :: e) = some (['O', 'K'], ' ' :: e, e) := by
  obtain ⟨c, e, rfl⟩ : ∃ c e', e = c :: e' := by
    cases e with
    | nil => cases he
    | cons c e' => exact ⟨c, e', rfl⟩
  simp only [isEntry, Bool.and_eq_true, Bool.not_eq_true'] at he
  simp [rxReply, List.dropWhile, isSpaceChar.eq_1 ' ', he.1, he.2]

/-- `ERR`, a blank and an entry: status `ERR`, the entry as information. -/
theorem rxReply_err_entry {e : List Char} (he : isEntry e = true) :
    rxReply ('E' :: 'R' :: 'R' :: ' ' :: e) = some (['E', 'R', 'R'], ' ' :: e, e) := by
  obtain ⟨c, e, rfl⟩ : ∃ c e', e = c :: e' := by
    cases e with
    | nil => cases he
    | cons c e' => exact ⟨c, e', rfl⟩
  simp only [isEntry, Bool.and_eq_true, Bool.not_eq_true'] at he
  simp [rxReply, List.dropWhile, isSpaceChar.eq_1 ' ', he.1, he.2]

/-- An entry has no end-of-line character. -/
theorem noEol_of_isEntry {e : List Char} (h : isEntry e = true) : ∀ c ∈ e, isEol c = false := by
  cases e with
  | nil => cases h
  | cons c e =>
    intro x hx
    simp only [isEntry, Bool.and_eq_true, List.all_eq_true] at h
    simpa using h.2 x hx

section ListReplies

variable {β : Type} {failed : String} {decode : String → Except String β}

/-- The bare `OK` ends a list reply whose lines so far were `OK`. -/
theorem listLine_ok {st₁ : List Char} {vs : List β} (hst : st₁ = [] ∨ st₁ = ['O', 'K']) :
    listLine failed decode (st₁, vs) ['O', 'K'] = .ok ((['O', 'K'], vs), true) := by
  rcases hst with rfl | rfl <;> rfl

/-- An `OK` line with an entry adds the entry, decoded. -/
theorem listLine_entry {st₁ e : List Char} {vs : List β} {v : β}
    (hst : st₁ = [] ∨ st₁ = ['O', 'K']) (he : isEntry e = true) (hv : decode ⟨e⟩ = .ok v) :
    listLine failed decode (st₁, vs) ('O' :: 'K' :: ' ' :: e) = .ok ((['O', 'K'], vs ++ [v]), false) := by
  obtain ⟨c, e', rfl⟩ : ∃ c e', e = c :: e' := by
    cases e with
    | nil => cases he
    | cons c e' => exact ⟨c, e', rfl⟩
  rw [listLine, rxReply_ok_entry he]
  dsimp only
  rw [if_neg (by rcases hst with rfl | rfl <;> decide), if_neg (by decide), if_neg (by simp), hv]
  rfl

/-- An `ERR` line with an entry first ends a list reply with the error `failed` and the entry. -/
theorem listLine_err {e : List Char} (he : isEntry e = true) :
    listLine failed decode ([], []) ('E' :: 'R' :: 'R' :: ' ' :: e) = .error (failed ++ ⟨e⟩) := by
  obtain ⟨c, e', rfl⟩ : ∃ c e', e = c :: e' := by
    cases e with
    | nil => cases he
    | cons c e' => exact ⟨c, e', rfl⟩
  rw [listLine, rxReply_err_entry he]
  dsimp only
  rw [if_neg (by decide), if_pos (by decide)]
  rfl

/-- The lines `OK <entry>`, one per entry, then a bare `OK`, run from a state that is empty or
`OK`: the reply ends with its last line, with the entries decoded in order. -/
theorem forLines_listLine_ok {entries : List String} {vs : List β}
    (he : ∀ e ∈ entries, isEntry e.toList = true) (hd : entries.mapM decode = .ok vs)
    (st₁ : List Char) (ws : List β) (hst : st₁ = [] ∨ st₁ = ['O', 'K']) :
    forLines (listLine failed decode) (st₁, ws)
        ((entries.map ("OK " ++ ·) ++ ["OK"]).map String.toList) =
      .ok ((['O', 'K'], ws ++ vs), true, []) := by
  induction entries generalizing st₁ ws vs with
  | nil =>
    obtain rfl : vs = [] := by cases hd; rfl
    simp only [List.map_nil, List.nil_append, List.map_cons, forLines]
    rw [show "OK".toList = ['O', 'K'] from rfl, listLine_ok hst, List.append_nil]
  | cons e es ih =>
    rw [List.mapM_cons] at hd
    rcases hv : decode e with err | v <;> rw [hv] at hd
    · cases hd
    rcases hvs : es.mapM decode with err | vs' <;> rw [hvs] at hd
    · cases hd
    cases hd
    have hline : listLine failed decode (st₁, ws) ("OK " ++ e).toList =
        .ok ((['O', 'K'], ws ++ [v]), false) :=
      listLine_entry hst (he e (List.mem_cons_self _ _)) hv
    rw [List.map_cons, List.cons_append, List.map_cons, forLines, hline]
    dsimp only
    rw [ih (fun e' he' => he e' (List.mem_cons_of_mem _ he')) hvs _ _ (.inr rfl), List.append_assoc,
      List.singleton_append]

/-- An `ERR` line with an entry, alone: the reply ends with the error. -/
theorem forLines_listLine_err {e : String} (he : isEntry e.toList = true) :
    forLines (listLine failed decode) ([], []) [("ERR " ++ e).toList] = .error (failed ++ e) :=
  by rw [forLines, show ("ERR " ++ e).toList = 'E' :: 'R' :: 'R' :: ' ' :: e.toList from rfl,
    listLine_err he]; rfl

end ListReplies

/-- The lines of a reply, each written with its `\n`. -/
theorem flatMap_toList (rs : List String) :
    rs.flatMap (·.toList ++ ['\n']) = (rs.map String.toList).flatMap (· ++ ['\n']) := by
  simp [List.flatMap_map]

/-- A status and a blank followed by an entry, the whole shorter than the buffer: a line the loop
takes. -/
theorem entryLine_fits {p : List Char} {e : String} {bufSz : ℕ} (hp : ∀ c ∈ p, isEol c = false)
    (he : isEntry e.toList = true) (hlen : p.length + e.length < bufSz) :
    p ++ e.toList ≠ [] ∧ (∀ c ∈ p ++ e.toList, isEol c = false) ∧ (p ++ e.toList).length < bufSz :=
  ⟨List.append_ne_nil_of_right_ne_nil _ (ne_nil_of_isEntry he),
    List.forall_mem_append.mpr ⟨hp, noEol_of_isEntry he⟩, by rw [List.length_append]; exact hlen⟩

/-- The reply lines of a list and their bound: an entry, after `OK` and a blank, shorter than the
buffer; every such line, and the bare `OK`, is a line the loop takes. -/
theorem okLines_fit {entries : List String} {bufSz : ℕ} (h2 : 2 < bufSz)
    (he : ∀ e ∈ entries, isEntry e.toList = true ∧ e.length + 3 < bufSz) :
    ∀ l ∈ (entries.map ("OK " ++ ·) ++ ["OK"]).map String.toList,
      l ≠ [] ∧ (∀ c ∈ l, isEol c = false) ∧ l.length < bufSz := by
  intro l hl
  simp only [List.map_append, List.map_map, List.mem_append, List.mem_map, List.mem_singleton,
    Function.comp] at hl
  rcases hl with ⟨e, hmem, rfl⟩ | ⟨_, rfl, rfl⟩
  · exact entryLine_fits (p := "OK ".toList) (by decide) (he e hmem).1
      (by rw [show "OK ".toList.length = 3 from rfl]; have := (he e hmem).2; omega)
  · exact ⟨by simp, by decide, by simp; omega⟩

/-- Decoding the entries of `listPath`, which keeps their text, never fails. -/
theorem mapM_ok (entries : List String) :
    entries.mapM (Except.ok : String → Except String String) = .ok entries := by
  induction entries with
  | nil => rfl
  | cons e es ih => rw [List.mapM_cons, ih]; rfl

section ListCalls

variable {β : Type} {failed msg unprocessed : String} {leftover : ℕ → String} {bufSz : ℕ}
  {decode : String → Except String β} {conn : Fd} {fuel : ℕ}

/-- A call whose loop body is `listLine`, on the reply `OK <entry>` for each entry then `OK`, each
line shorter than the buffer, split into reads in any way: the entries, decoded in order. -/
theorem multiCall_listLine_ok {entries : List String} {vs : List β} (h2 : 2 < bufSz)
    (hw : conn.WritesAll msg.toList.length) (hp : conn.ReadsProgress)
    (he : ∀ e ∈ entries, isEntry e.toList = true ∧ e.length + 3 < bufSz)
    (hd : entries.mapM decode = .ok vs)
    (hin : conn.input = (entries.map ("OK " ++ ·) ++ ["OK"]).flatMap (·.toList ++ ['\n']))
    (hfuel : conn.input.length < fuel) :
    ∃ conn', multiCall msg bufSz (listLine failed decode) unprocessed leftover fuel ([], []) conn =
        some (.ok (['O', 'K'], vs), conn') ∧ conn'.output = conn.output ++ msg.toList := by
  have hrun : forLines (listLine failed decode) ([], [])
      ((entries.map ("OK " ++ ·) ++ ["OK"]).map String.toList) =
        .ok ((['O', 'K'], [] ++ vs), true, []) :=
    forLines_listLine_ok (fun e he' => (he e he').1) hd [] [] (.inl rfl)
  exact (multiCall_of_reply hw hp (by rw [hin, flatMap_toList]) (okLines_fit h2 he)
    (by rw [hrun]; simp) hfuel).imp fun c' h => ⟨by rw [h.1, hrun]; rfl, h.2⟩

/-- A call whose loop body is `listLine`, on the one reply line `ERR <entry>`, shorter than the
buffer: the error `failed` followed by the entry. -/
theorem multiCall_listLine_err {e : String} (he : isEntry e.toList = true)
    (hlen : e.length + 4 < bufSz) (hw : conn.WritesAll msg.toList.length)
    (hp : conn.ReadsProgress) (hin : conn.input = ("ERR " ++ e).toList ++ ['\n'])
    (hfuel : conn.input.length < fuel) :
    ∃ conn', multiCall msg bufSz (listLine failed decode) unprocessed leftover fuel ([], []) conn =
        some (.error (failed ++ e), conn') ∧ conn'.output = conn.output ++ msg.toList := by
  have hfit : ∀ l ∈ [("ERR " ++ e).toList], l ≠ [] ∧ (∀ c ∈ l, isEol c = false) ∧
      l.length < bufSz := by
    simpa using entryLine_fits (p := "ERR ".toList) (by decide) he
      (by rw [show "ERR ".toList.length = 4 from rfl]; omega)
  have hend : ∀ s' fin left, forLines (listLine failed decode) ([], []) [("ERR " ++ e).toList] =
      .ok (s', fin, left) → fin = true ∧ left = [] := fun _ _ _ h => by
    rw [forLines_listLine_err he] at h; cases h
  exact (multiCall_of_reply hw hp
    (by rw [hin]; simp : conn.input = [("ERR " ++ e).toList].flatMap (· ++ ['\n'])) hfit hend
    hfuel).imp fun c' h => ⟨by rw [h.1, forLines_listLine_err he]; rfl, h.2⟩

end ListCalls

section Calls

variable {conn : Fd} {fuel : ℕ}

/-- `listPath` on the reply a wrapper writes for `entries`, split into reads in any way: the
entries, in order. -/
theorem listPath_of_entries {path : String} {entries : List String}
    (hw : conn.WritesAll ("list " ++ path ++ "\n").toList.length) (hp : conn.ReadsProgress)
    (he : ∀ e ∈ entries, isEntry e.toList = true ∧ e.length + 3 < 16384)
    (hin : conn.input = (entries.map ("OK " ++ ·) ++ ["OK"]).flatMap (·.toList ++ ['\n']))
    (hfuel : conn.input.length < fuel) :
    ∃ conn', listPath path fuel conn = some (.ok entries, conn') ∧
      conn'.output = conn.output ++ ("list " ++ path ++ "\n").toList := by
  rw [listPath]
  exact (multiCall_listLine_ok (by decide) hw hp he (mapM_ok entries) hin hfuel).imp
    fun c' h => ⟨by rw [h.1]; rfl, h.2⟩

/-- `listPath` on an `ERR` reply: the error, after the call's prefix. -/
theorem listPath_of_error {path e : String} (he : isEntry e.toList = true)
    (hlen : e.length + 4 < 16384) (hw : conn.WritesAll ("list " ++ path ++ "\n").toList.length)
    (hp : conn.ReadsProgress) (hin : conn.input = ("ERR " ++ e).toList ++ ['\n'])
    (hfuel : conn.input.length < fuel) :
    ∃ conn', listPath path fuel conn =
        some (.error ("listPath(" ++ path ++ ") failed - " ++ e), conn') ∧
      conn'.output = conn.output ++ ("list " ++ path ++ "\n").toList := by
  rw [listPath]
  exact (multiCall_listLine_err he hlen hw hp hin hfuel).imp fun c' h => ⟨by rw [h.1]; rfl, h.2⟩

/-- `dataChannelAddr` on the reply a wrapper writes for `entries`, split into reads in any way:
the entries decoded, in order. -/
theorem dataChannelAddr_of_entries {α : Type} {codec : Codec α} {entries : List String}
    {addrs : List α} (hw : conn.WritesAll "data-channel-addr\n".toList.length)
    (hp : conn.ReadsProgress) (he : ∀ e ∈ entries, isEntry e.toList = true ∧ e.length + 3 < 2048)
    (hd : entries.mapM codec.decodeDataAddr = .ok addrs)
    (hin : conn.input = (entries.map ("OK " ++ ·) ++ ["OK"]).flatMap (·.toList ++ ['\n']))
    (hfuel : conn.input.length < fuel) :
    ∃ conn', dataChannelAddr codec fuel conn = some (.ok addrs, conn') ∧
      conn'.output = conn.output ++ "data-channel-addr\n".toList := by
  rw [dataChannelAddr]
  exact (multiCall_listLine_ok (by decide) hw hp he hd hin hfuel).imp
    fun c' h => ⟨by rw [h.1]; rfl, h.2⟩

/-- `dataChannelAddr` on an `ERR` reply: the error, after the call's prefix. -/
theorem dataChannelAddr_of_error {α : Type} {codec : Codec α} {e : String}
    (he : isEntry e.toList = true) (hlen : e.length + 4 < 2048)
    (hw : conn.WritesAll "data-channel-addr\n".toList.length) (hp : conn.ReadsProgress)
    (hin : conn.input = ("ERR " ++ e).toList ++ ['\n']) (hfuel : conn.input.length < fuel) :
    ∃ conn', dataChannelAddr codec fuel conn =
        some (.error ("dataChannelAddr() failed - " ++ e), conn') ∧
      conn'.output = conn.output ++ "data-channel-addr\n".toList := by
  rw [dataChannelAddr]
  exact (multiCall_listLine_err he hlen hw hp hin hfuel).imp fun c' h => ⟨by rw [h.1]; rfl, h.2⟩

end Calls

end ETransfer.EtdProxy
