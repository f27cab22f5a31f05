import ETransfer.EtdHeader

/-!
# The control channel: `ETDServerWrapper::handle` and the replies of `ETDProxy`

A control connection carries lines. `getReplies` cuts a buffer into the lines `rxLine` matches and
the bytes after the last of them. `ETDServerWrapper::handle` reads into its 2 KiB buffer, matches
each complete line against its six command patterns, calls its `ETDServer` and writes the replies;
an unknown command closes the connection and ends the loop, once the lines already read have been
served. `ETDProxy::removeUUID` and `ETDProxy::sendFile` send one command and wait for one reply
line. The patterns have no nested repetition: each is a list of tokens whose runs are taken whole,
which is the only way the ECMAScript engine's backtracking can match them. What the wrapper's
`ETDServer` does is a `Service`; `etdServer` builds it from the registry of `EtdRegistry`, the
data phase of `EtdDataPath` and a host that answers for the file system.

Proved: the wrapper serves every line of a read, including those after an unknown command; the
two one-line replies of the proxy are `true` once 2 KiB arrive without a line end;
`removeUUID` of a server that owns no record is `false` when called directly and an error through
a proxy and a wrapper; and `etdServer` changes its transfers map atomically: a request that throws
leaves it as it was, one that succeeds adds exactly the server's own record. The proxy's
multi-line replies (`listPath`, `requestFileWrite`, `requestFileRead`, `dataChannelAddr`) are
modelled in `EtdProxy`, the framing of lines over any reads in `EtdLineFraming`.
-/

namespace ETransfer.EtdControl

open EtdRegistry EtdLockProtocol EtdDataPath EtdHeader

/-! ## Lines -/

/-- The line ends of `rxLine`: `\r` and `\n`. -/
def isEol (c : Char) : Bool := c == '\r' || c == '\n'

/-- `getReplies` over `rxLine`, `([^\r\n]+)[\r\n]+`: the `regex_iterator` finds the next match at
the first character that is not a line end, takes the longest run of such characters and then the
longest run of line ends, which must not be empty, and searches on after it. Gives the lines
(group 1) and the bytes after the last match, which the callers move to the front of their
buffer. -/
def getReplies (s : List Char) : List (List Char) × List Char :=
  match _h : (s.dropWhile isEol).dropWhile (!isEol ·) with
  | [] => ([], s)
  | _ :: u =>
    ((s.dropWhile isEol).takeWhile (!isEol ·) :: (getReplies (u.dropWhile isEol)).1,
      (getReplies (u.dropWhile isEol)).2)
termination_by s.length
decreasing_by
  all_goals
    have h₁ := (List.dropWhile_suffix isEol (l := u)).length_le
    have h₂ := congrArg List.length _h
    have h₃ := (List.dropWhile_suffix (fun c => !isEol c) (l := s.dropWhile isEol)).length_le
    have h₄ := (List.dropWhile_suffix isEol (l := s)).length_le
    simp only [List.length_cons] at h₂
    omega

section Lines

variable {s l rest : List Char} {e : Char}

/-- Without a line end there is no line, and nothing is consumed. -/
theorem getReplies_of_no_eol (h : ∀ c ∈ s, isEol c = false) : getReplies s = ([], s) := by
  have hd : s.dropWhile isEol = s := by
    cases s with
    | nil => rfl
    | cons c cs => exact List.dropWhile_cons_of_neg (by simp [h c (List.mem_cons_self _ _)])
  have hd' : s.dropWhile (!isEol ·) = [] := List.dropWhile_eq_nil_iff.mpr (by simpa using h)
  rw [getReplies]
  split
  · rfl
  · next u hu => rw [hd, hd'] at hu; cases hu

/-- A line and the line end after it come out first; the search goes on after the line ends. -/
theorem getReplies_line (hl : l ≠ []) (hle : ∀ c ∈ l, isEol c = false) (he : isEol e = true) :
    getReplies (l ++ e :: rest) =
      (l :: (getReplies (rest.dropWhile isEol)).1, (getReplies (rest.dropWhile isEol)).2) := by
  obtain ⟨c, cs, rfl⟩ := List.exists_cons_of_ne_nil hl
  have hd : (c :: cs ++ e :: rest).dropWhile isEol = c :: cs ++ e :: rest :=
    List.dropWhile_cons_of_neg (by simp [hle c (List.mem_cons_self _ _)])
  have hall : ∀ x ∈ c :: cs, (!isEol x) = true := fun x hx => by simp [hle x hx]
  have hstop : (!isEol e) = false := by simp [he]
  rw [getReplies]
  split
  · next hnil => rw [hd, dropWhile_stop hall hstop] at hnil; cases hnil
  · next x u hu =>
    rw [hd, dropWhile_stop hall hstop] at hu
    obtain ⟨rfl, rfl⟩ := List.cons.inj hu
    rw [hd, takeWhile_stop hall hstop]

/-- Lines, each ended by one `\n`, are cut back into themselves, and nothing is left over. -/
theorem getReplies_join (ls : List (List Char)) (h : ∀ l ∈ ls, l ≠ [] ∧ ∀ c ∈ l, isEol c = false) :
    getReplies (ls.flatMap (· ++ ['\n'])) = (ls, []) := by
  induction ls with
  | nil => exact getReplies_of_no_eol (by simp)
  | cons l ls ih =>
    have hrest : (ls.flatMap (· ++ ['\n'])).dropWhile isEol = ls.flatMap (· ++ ['\n']) := by
      cases ls with
      | nil => rfl
      | cons l' ls' =>
        obtain ⟨hne, hle⟩ := h l' (by simp)
        obtain ⟨c, cs, rfl⟩ := List.exists_cons_of_ne_nil hne
        exact List.dropWhile_cons_of_neg (by simp [hle c (List.mem_cons_self _ _)])
    obtain ⟨hne, hle⟩ := h l (List.mem_cons_self _ _)
    rw [List.flatMap_cons, List.append_assoc, List.singleton_append,
      getReplies_line hne hle (show isEol '\n' = true from rfl), hrest,
      ih fun l' hl' => h l' (List.mem_cons_of_mem _ hl')]

example : getReplies "x\nremove-uuid U\n".toList = (["x".toList, "remove-uuid U".toList], []) :=
  getReplies_join ["x".toList, "remove-uuid U".toList] (by decide)

end Lines

/-- `rxReply`, `^(OK|ERR)(\s+(\S.*)?)?$` with `icase`, matched against a whole line: the status
as written (group 1), group 2 and group 3, empty when unmatched. After the status come either
nothing or blanks, then possibly a character that is not blank and more that are no line ends. -/
def rxReply (line : List Char) : Option (List Char × List Char × List Char) :=
  let after (status rest : List Char) : Option (List Char × List Char × List Char) :=
    match rest with
    | [] => some (status, [], [])
    | c :: _ =>
      if isSpaceChar c && (rest.dropWhile isSpaceChar).all (!isEol ·) then
        some (status, rest, rest.dropWhile isSpaceChar)
      else none
  if (line.take 2).map Char.toLower = ['o', 'k'] then after (line.take 2) (line.drop 2)
  else if (line.take 3).map Char.toLower = ['e', 'r', 'r'] then after (line.take 3) (line.drop 3)
  else none

/-! ## The command patterns -/

/-- The pieces of the patterns of the control channel: a literal, here in lower case since the
patterns are matched with `icase`; `\s+`; a group `(\S+)`; a group `([0-9]+)`; a group
`(-?[0-9]+)`; and a last group `(\S.*)`. -/
inductive Tok where
  | lit (s : List Char)
  | blanks
  | word
  | digits
  | signed
  | tail

/-- `std::regex_match` of a pattern `^...$` made of tokens: its groups in order. Each run is
taken whole, since the token after it cannot begin inside it. -/
def matchToks : List Tok → List Char → Option (List (List Char))
  | [], s => if s = [] then some [] else none
  | .lit l :: ts, s =>
    if (s.take l.length).map Char.toLower = l then matchToks ts (s.drop l.length) else none
  | .blanks :: ts, s =>
    if s.takeWhile isSpaceChar = [] then none else matchToks ts (s.dropWhile isSpaceChar)
  | .word :: ts, s =>
    if s.takeWhile (!isSpaceChar ·) = [] then none
    else (matchToks ts (s.dropWhile (!isSpaceChar ·))).map (s.takeWhile (!isSpaceChar ·) :: ·)
  | .digits :: ts, s =>
    if s.takeWhile Char.isDigit = [] then none
    else (matchToks ts (s.dropWhile Char.isDigit)).map (s.takeWhile Char.isDigit :: ·)
  | .signed :: ts, s =>
    match s with
    | '-' :: u =>
      if u.takeWhile Char.isDigit = [] then none
      else (matchToks ts (u.dropWhile Char.isDigit)).map (('-' :: u.takeWhile Char.isDigit) :: ·)
    | _ =>
      if s.takeWhile Char.isDigit = [] then none
      else (matchToks ts (s.dropWhile Char.isDigit)).map (s.takeWhile Char.isDigit :: ·)
  | .tail :: ts, s =>
    match s with
    | c :: _ => if !isSpaceChar c && s.all (!isEol ·) then (matchToks ts []).map (s :: ·) else none
    | [] => none

/-- `rxList`, `^list\s+(\S.*)$`: the path. -/
def rxList : List Tok := [.lit "list".toList, .blanks, .tail]

/-- `rxReqFileWrite`, `^write-file-(\S+)\s+(\S.*)$`: the open mode and the file name. -/
def rxReqFileWrite : List Tok := [.lit "write-file-".toList, .word, .blanks, .tail]

/-- `rxReqFileRead`, `^read-file\s+([0-9]+)\s+(\S.*)$`: what the client already has, and the
file name. -/
def rxReqFileRead : List Tok := [.lit "read-file".toList, .blanks, .digits, .blanks, .tail]

/-- `rxSendFile`, `^send-file\s+(\S+)\s+(\S+)\s+([0-9]+)\s+(\S+)$`: the source and destination
UUIDs, the count and the data channel addresses. -/
def rxSendFile : List Tok :=
  [.lit "send-file".toList, .blanks, .word, .blanks, .word, .blanks, .digits, .blanks, .word]

/-- `rxDataChannelAddr`, `^data-channel-addr$`. -/
def rxDataChannelAddr : List Tok := [.lit "data-channel-addr".toList]

/-- `rxRemoveUUID`, `^remove-uuid\s+(\S+)$`: the UUID. -/
def rxRemoveUUID : List Tok := [.lit "remove-uuid".toList, .blanks, .word]

/-! ## The server behind the wrapper -/

/-- The `ETDServer` operations the wrapper calls, on a server state `σ`, with `α` the data
addresses: each gives its result, or the `what()` of the exception it throws, and the state
after. -/
structure Service (σ α : Type) where
  /-- `listPath(path, false)`: no `~` expansion for a remote client. -/
  listPath : String → σ → Except String (List String) × σ
  /-- `requestFileWrite(file, om)`: the UUID and the position writing starts at. -/
  requestFileWrite : String → OpenMode → σ → Except String (Uuid × ℤ) × σ
  /-- `requestFileRead(file, already_have)`: the UUID and the bytes that remain. -/
  requestFileRead : String → ℤ → σ → Except String (Uuid × ℤ) × σ
  /-- `sendFile(srcUUID, dstUUID, todo, dataAddrs)`. -/
  sendFile : Uuid → Uuid → ℤ → List α → σ → Except String Bool × σ
  /-- `dataChannelAddr()`. -/
  dataChannelAddr : σ → Except String (List α) × σ
  /-- `removeUUID(uuid)`. -/
  removeUUID : Uuid → σ → Except String Bool × σ

/-- What an `ETDServer` reaches beyond its registry. -/
structure Host (α : Type) where
  /-- The normalisation of a path before it is compared or stored. -/
  normalize : String → String
  /-- `glob(3)` with `GLOB_MARK`. -/
  glob : String → List String
  /-- What opening a file for writing in a mode gives: its size, or the error. -/
  openWrite : String → OpenMode → Opened
  /-- What opening a file for reading gives. -/
  openRead : String → Opened
  /-- The error of seeking a file opened for reading to a position, if any. -/
  seekError : String → ℤ → Option String
  /-- `shared_state.dataaddrs`. -/
  dataAddrs : List α
  /-- How the data phase of `sendFile` connects. -/
  dial : Dialer α
  /-- The descriptor of the server's record, as its data phase finds it. -/
  file : Fd

variable {σ α : Type}

/-- The `ETDServer` of UUID `own` as the wrapper calls it, with no other thread contending for
the registry: its state is the transfers map and the serial of the next record. -/
def etdServer (own : Uuid) (host : Host α) : Service (TransferMap × ℕ) α where
  listPath path st :=
    (if path.isEmpty then .error "We do not allow listing an empty path"
      else .ok (host.glob (if path.back = '/' then path ++ "*" else path)), st)
  requestFileWrite path mode st :=
    match EtdRegistry.requestFileWrite host.normalize own path mode (host.openWrite path mode)
        st.2 st.1 with
    | .ok (m, uuid, pos) => (.ok (uuid, pos), (m, st.2 + 1))
    | .error e => (.error e, st)
  requestFileRead path alreadyhave st :=
    match EtdRegistry.requestFileRead host.normalize own path alreadyhave (host.openRead path)
        (host.seekError path alreadyhave) st.2 st.1 with
    | .ok (m, uuid, remain) => (.ok (uuid, remain), (m, st.2 + 1))
    | .error e => (.error e, st)
  sendFile srcUUID dstUUID todo dataAddrs st :=
    ((EtdDataPath.sendFile host.dial own st.1 host.file srcUUID dstUUID todo dataAddrs).1, st)
  dataChannelAddr st := (.ok host.dataAddrs, st)
  removeUUID uuid st :=
    match EtdRegistry.removeUUID own uuid st.1 with
    | .ok (m, removed) => (.ok removed, (m, st.2))
    | .error e => (.error e, st)

/-- **The server's calls change its transfers map atomically.** A request that throws, at any of
its checks or on the file, leaves the map as it was; one that succeeds returns the server's own
UUID, which had no record, and adds exactly its record, with the normalised path and the mode
asked for (`read` for a read), every other entry kept. A removal changes the map only by erasing
the server's own record, which it held, and only when it returns `true`. -/
theorem etdServer_requests_atomic (own : Uuid) (host : Host α) (st : TransferMap × ℕ)
    (path : String) (mode : OpenMode) (alreadyhave : ℤ) (uuid : Uuid) :
    (match (etdServer own host).requestFileWrite path mode st with
      | (.error _, st') => st'.1 = st.1
      | (.ok (u, _), st') => st.1.find own = none ∧ u = own ∧
        ∀ x, x ∈ st'.1.entries ↔
          x = (own, newRecord own (host.normalize path) mode st.2) ∨ x ∈ st.1.entries) ∧
    (match (etdServer own host).requestFileRead path alreadyhave st with
      | (.error _, st') => st'.1 = st.1
      | (.ok (u, _), st') => st.1.find own = none ∧ u = own ∧
        ∀ x, x ∈ st'.1.entries ↔
          x = (own, newRecord own (host.normalize path) .read st.2) ∨ x ∈ st.1.entries) ∧
    (match (etdServer own host).removeUUID uuid st with
      | (r, st') => st'.1 = st.1 ∨
        (r = .ok true ∧ (st.1.find own).isSome ∧ st'.1 = st.1.erase own)) := by
  refine ⟨?_, ?_, ?_⟩
  · -- `requestFileWrite`
    simp only [etdServer]
    rcases h : EtdRegistry.requestFileWrite host.normalize own path mode (host.openWrite path mode)
      st.2 st.1 with e | ⟨m, u, pos⟩
    · rfl
    · obtain ⟨hfind, -, -, -, hu, hmem⟩ := requestFileWrite_eq_ok h
      exact ⟨hfind, hu, hmem⟩
  · -- `requestFileRead`
    simp only [etdServer]
    rcases h : EtdRegistry.requestFileRead host.normalize own path alreadyhave (host.openRead path)
      (host.seekError path alreadyhave) st.2 st.1 with e | ⟨m, u, rem⟩
    · rfl
    · obtain ⟨hfind, -, -, -, hu, hmem⟩ := requestFileRead_eq_ok h
      exact ⟨hfind, hu, hmem⟩
  · -- `removeUUID`
    simp only [etdServer, EtdRegistry.removeUUID]
    split_ifs with hne hfind
    · exact .inl rfl
    · exact .inr ⟨rfl, hfind, rfl⟩
    · exact .inl rfl

/-- **`removeUUID` undoes a request.** Let a server that owns no record make a request, whatever
the path, the mode and the answers of the file system: its `removeUUID` of its own UUID right
after returns `true` exactly when the request succeeded, and leaves the transfers map as it was
before the request, entry for entry. -/
theorem removeUUID_undoes_request (own : Uuid) (host : Host α) (st : TransferMap × ℕ)
    (hfree : st.1.find own = none) (path : String) (mode : OpenMode) (alreadyhave : ℤ) :
    (match (etdServer own host).requestFileWrite path mode st with
      | (res, st') => (etdServer own host).removeUUID own st' = (.ok res.isOk, (st.1, st'.2))) ∧
    (match (etdServer own host).requestFileRead path alreadyhave st with
      | (res, st') => (etdServer own host).removeUUID own st' = (.ok res.isOk, (st.1, st'.2))) := by
  have hremoved : ∀ {m : TransferMap} {r : TransferProps}, (own, r) ∈ m.entries →
      m.erase own = st.1 →
      (etdServer own host).removeUUID own (m, st.2 + 1) = (.ok true, (st.1, st.2 + 1)) :=
    fun hm he => by simp [etdServer, EtdRegistry.removeUUID, TransferMap.find_eq_some_iff.mpr hm, he]
  have hkept : (etdServer own host).removeUUID own st = (.ok false, (st.1, st.2)) := by
    simp [etdServer, EtdRegistry.removeUUID, hfree]
  refine ⟨?_, ?_⟩
  · -- `requestFileWrite`
    rcases h : EtdRegistry.requestFileWrite host.normalize own path mode (host.openWrite path mode)
      st.2 st.1 with e | ⟨m, u, pos⟩
    · rw [show (etdServer own host).requestFileWrite path mode st = (.error e, st) by
        simp only [etdServer, h]]
      exact hkept
    · obtain ⟨-, -, -, -, -, hmem⟩ := requestFileWrite_eq_ok h
      rw [show (etdServer own host).requestFileWrite path mode st = (.ok (u, pos), (m, st.2 + 1)) by
        simp only [etdServer, h]]
      exact hremoved ((hmem _).mpr (.inl rfl)) (erase_of_requestFileWrite h)
  · -- `requestFileRead`
    rcases h : EtdRegistry.requestFileRead host.normalize own path alreadyhave (host.openRead path)
      (host.seekError path alreadyhave) st.2 st.1 with e | ⟨m, u, rem⟩
    · rw [show (etdServer own host).requestFileRead path alreadyhave st = (.error e, st) by
        simp only [etdServer, h]]
      exact hkept
    · obtain ⟨-, -, -, -, -, hmem⟩ := requestFileRead_eq_ok h
      rw [show (etdServer own host).requestFileRead path alreadyhave st =
        (.ok (u, rem), (m, st.2 + 1)) by simp only [etdServer, h]]
      exact hremoved ((hmem _).mpr (.inl rfl)) (erase_of_requestFileRead h)

/-- On a host whose files open, both requests of a fresh server succeed and its `removeUUID`
takes the record out again. -/
theorem removeUUID_undoes_request_opened :
    let host : Host Unit :=
      ⟨id, fun _ => [], fun _ _ => .ok 0, fun _ => .ok 0, fun _ _ => none, [], closedDial, closedConn⟩
    TransferMap.empty.find "U" = none ∧
      (match (etdServer "U" host).requestFileWrite "/f" .new (TransferMap.empty, 0) with
        | (res, st') => (etdServer "U" host).removeUUID "U" st' =
          (.ok res.isOk, (TransferMap.empty, st'.2))) ∧
      (match (etdServer "U" host).requestFileRead "/f" 0 (TransferMap.empty, 0) with
        | (res, st') => (etdServer "U" host).removeUUID "U" st' =
          (.ok res.isOk, (TransferMap.empty, st'.2))) :=
  ⟨rfl, removeUUID_undoes_request "U" _ (TransferMap.empty, 0) rfl "/f" .new 0⟩

/-- The conversions of the control channel whose code is not in the source: `operator>>` of
`openmode_type`, `decode_data_addr` (its `mk_sockname` is missing; a failure gives the `what()`
of its exception) and `operator<<` of `sockname_type`. -/
structure Codec (α : Type) where
  /-- `iss >> om`. -/
  readOpenMode : String → OpenMode
  /-- `decode_data_addr`. -/
  decodeDataAddr : String → Except String α
  /-- `oss << sn`. -/
  showAddr : α → String

/-! ## `ETDServerWrapper::handle` -/

/-- A line that matched one of the wrapper's six patterns, with its groups. -/
inductive Command where
  | list (path : String)
  | requestFileWrite (om file : String)
  | requestFileRead (alreadyHave file : String)
  | sendFile (srcUUID dstUUID todo dataAddrs : String)
  | dataChannelAddr
  | removeUUID (uuid : String)
  deriving DecidableEq

/-- The patterns tried in the wrapper's order; the first that matches gives the command. -/
def parseCommand (line : List Char) : Option Command :=
  (match matchToks rxList line with
    | some [path] => some (.list ⟨path⟩)
    | _ => none) <|>
  (match matchToks rxReqFileWrite line with
    | some [om, file] => some (.requestFileWrite ⟨om⟩ ⟨file⟩)
    | _ => none) <|>
  (match matchToks rxReqFileRead line with
    | some [alreadyHave, file] => some (.requestFileRead ⟨alreadyHave⟩ ⟨file⟩)
    | _ => none) <|>
  (match matchToks rxSendFile line with
    | some [src, dst, todo, addrs] => some (.sendFile ⟨src⟩ ⟨dst⟩ ⟨todo⟩ ⟨addrs⟩)
    | _ => none) <|>
  (match matchToks rxDataChannelAddr line with
    | some [] => some .dataChannelAddr
    | _ => none) <|>
  (match matchToks rxRemoveUUID line with
    | some [uuid] => some (.removeUUID ⟨uuid⟩)
    | _ => none)

/-- The replies of a call that threw: `ERR <what>`. -/
def errReply {β : Type} (res : Except String β × σ) (ok : β → List String) : List String × σ :=
  match res with
  | (.ok v, st) => (ok v, st)
  | (.error e, st) => (["ERR " ++ e], st)

/-- The body of the wrapper's `try` for a recognised command: the replies to write and the
server's state after. An exception becomes the reply `ERR <what>`. -/
def Command.run (svc : Service σ α) (codec : Codec α) (st : σ) : Command → List String × σ
  | .list path => errReply (svc.listPath path st) fun entries => entries.map ("OK " ++ ·) ++ ["OK"]
  | .requestFileWrite om file =>
    errReply (svc.requestFileWrite file (codec.readOpenMode om) st) fun (uuid, pos) =>
      ["AlreadyHave:" ++ toString pos, "UUID:" ++ uuid, "OK"]
  | .requestFileRead alreadyHave file =>
    match string2offT alreadyHave with
    | .error e => (["ERR " ++ e], st)
    | .ok n =>
      errReply (svc.requestFileRead file n st) fun (uuid, remain) =>
        ["Remain:" ++ toString remain, "UUID:" ++ uuid, "OK"]
  | .sendFile srcUUID dstUUID todo addrs =>
    match string2offT todo,
        ((addrs.toList.splitOn ',').filter (· ≠ [])).mapM (codec.decodeDataAddr ⟨·⟩) with
    | .error e, _ => (["ERR " ++ e], st)
    | .ok _, .error e => (["ERR " ++ e], st)
    | .ok n, .ok dataAddrs =>
      errReply (svc.sendFile srcUUID dstUUID n dataAddrs st) fun rv =>
        [if rv then "OK" else "ERR Failed to send file"]
  | .dataChannelAddr =>
    errReply (svc.dataChannelAddr st) fun entries =>
      entries.map (fun a => "OK " ++ codec.showAddr a) ++ ["OK"]
  | .removeUUID uuid =>
    errReply (svc.removeUUID uuid st) fun removed =>
      [if removed then "OK" else "ERR Failed to remove UUID"]

/-- The wrapper's side of a control connection: its server's state, the connection, and whether
the wrapper has closed it. -/
structure Wrapper (σ : Type) where
  /-- The state of `__m_etdserver`. -/
  server : σ
  /-- `__m_connection`. -/
  conn : Fd
  /-- Whether `__m_connection->close` has been called: writes then fail, their results ignored. -/
  closed : Bool

namespace Wrapper

/-- The replies to one line written out, each followed by `\n`, the results ignored. -/
def sendReplies (rs : List String) (w : Wrapper σ) : Wrapper σ :=
  if w.closed then w
  else { w with conn := rs.foldl (fun c r => ((c.write r.toList).2.write ['\n']).2) w.conn }

/-- The wrapper's `for` loop over the lines of one read: each line is run and its replies
written, also after a line that matched no command, on which the wrapper closes the connection
and throws the `std::string` that ends its `while` loop. Gives whether such a line was met. -/
def serveLines (svc : Service σ α) (codec : Codec α) : List (List Char) → Wrapper σ → Bool × Wrapper σ
  | [], w => (false, w)
  | line :: lines, w =>
    match parseCommand line with
    | some cmd =>
      let r := cmd.run svc codec w.server
      serveLines svc codec lines (sendReplies r.1 { w with server := r.2 })
    | none => (true, (serveLines svc codec lines { w with closed := true }).2)

/-- `bufSz` of `ETDServerWrapper::handle`: 2 KiB. -/
def bufSz : ℕ := 2 * 1024

/-- `ETDServerWrapper::handle`, `fuel` bounding its reads: read after the `curPos` bytes of
`buffer` kept from before, serve every complete line and keep the bytes after the last one; stop
once a line matched no command, or when 2 KiB hold no complete line. -/
def handle (svc : Service σ α) (codec : Codec α) :
    ℕ → List Char → Wrapper σ → Option (Except String Unit × Wrapper σ)
  | 0, _, _ => none
  | fuel + 1, buffer, w =>
    if bufSz ≤ buffer.length then some (.ok (), w)
    else
      let r := w.conn.read (bufSz - buffer.length)
      if r.1 ≤ 0 then some (.error "Failed to read data from remote end", { w with conn := r.2.2 })
      else
        match serveLines svc codec (getReplies (buffer ++ r.2.1)).1 { w with conn := r.2.2 } with
        | (true, w') => some (.ok (), w')
        | (false, w') => handle svc codec fuel (getReplies (buffer ++ r.2.1)).2 w'

section Serve

variable {svc : Service σ α} {codec : Codec α}

@[simp] theorem sendReplies_server (rs : List String) (w : Wrapper σ) :
    (sendReplies rs w).server = w.server := by
  unfold sendReplies; split <;> rfl

/-- The server runs every recognised line of a read, in order, those after an unknown command
included. -/
theorem serveLines_server (lines : List (List Char)) (w : Wrapper σ) :
    (serveLines svc codec lines w).2.server = lines.foldl (fun st line =>
      match parseCommand line with
      | some cmd => (cmd.run svc codec st).2
      | none => st) w.server := by
  induction lines generalizing w with
  | nil => rfl
  | cons line lines ih =>
    rw [serveLines, List.foldl_cons]
    split <;> rename_i h <;> simp only [ih, h, sendReplies_server]

/-- Replies written whole on an open connection that takes writes of `k` bytes: each reply and
its `\n` are appended to the output; the input is not touched and the connection stays open. -/
theorem sendReplies_output {rs : List String} {w : Wrapper σ} {k : ℕ} (hc : w.closed = false)
    (hw : w.conn.WritesAll k) (hk : 1 ≤ k) (hrs : ∀ r ∈ rs, r.toList.length ≤ k) :
    (sendReplies rs w).conn.output = w.conn.output ++ rs.flatMap (·.toList ++ ['\n']) ∧
      (sendReplies rs w).conn.input = w.conn.input ∧ (sendReplies rs w).closed = false := by
  have key : ∀ c : Fd, c.WritesAll k →
      (rs.foldl (fun c r => ((c.write r.toList).2.write ['\n']).2) c).output =
        c.output ++ rs.flatMap (·.toList ++ ['\n']) ∧
      (rs.foldl (fun c r => ((c.write r.toList).2.write ['\n']).2) c).input = c.input := by
    induction rs with
    | nil => simp
    | cons r rs ih =>
      intro c hc'
      have hw1 : (c.write r.toList).2.WritesAll k := hc'.later Fd.later_write
      obtain ⟨ho, hi⟩ := ih (fun r' hr' => hrs r' (List.mem_cons_of_mem _ hr')) _
        (hw1.later Fd.later_write)
      rw [List.foldl_cons, ho, hi, Fd.write_output_of_all hw1 (by simpa using hk),
        Fd.write_output_of_all hc' (hrs r (List.mem_cons_self _ _)), Fd.write_input, Fd.write_input]
      simp
  rw [sendReplies, if_neg (by simp [hc])]
  exact ⟨(key _ hw).1, (key _ hw).2, hc⟩

end Serve

end Wrapper

/-! ## The one-line replies of `ETDProxy` -/

namespace Proxy

/-- `bufSz` of the reply loops of `ETDProxy::removeUUID` and `ETDProxy::sendFile`. -/
def bufSz : ℕ := 2048

/-- The checks on the one reply line of `ETDProxy::removeUUID` and `ETDProxy::sendFile`: it
matches `rxReply`, and its status is `OK`; otherwise `failed` and group 2 make the error. -/
def replyOutcome (failed : String) (line : List Char) : Except String Bool :=
  match rxReply line with
  | none => .error "The client sent a non-conforming response"
  | some (status, group2, _) => if status = ['O', 'K'] then .ok true else .error (failed ++ ⟨group2⟩)

/-- The reply loop of `ETDProxy::removeUUID` and `ETDProxy::sendFile`, `failed` heading the
message of a reply that is not `OK`: read until the buffer holds a complete line (the end position
of `getReplies` is discarded, so nothing is moved out), then require exactly one line and check it.
When `bufSz` bytes hold no complete line the loop ends, and the call returns `true`. -/
def awaitReply (failed : String) (buffer : List Char) (conn : Fd) : Except String Bool × Fd :=
  if _hfull : bufSz ≤ buffer.length then (.ok true, conn)
  else
    let r := conn.read (bufSz - buffer.length)
    if _hr : r.1 ≤ 0 then (.error "Failed to read data from remote end", r.2.2)
    else
      match (getReplies (buffer ++ r.2.1)).1 with
      | [] => awaitReply failed (buffer ++ r.2.1) r.2.2
      | [line] => (replyOutcome failed line, r.2.2)
      | _ =>
        (.error "The client sent wrong number of responses - this is likely a protocol error", r.2.2)
termination_by bufSz - buffer.length
decreasing_by
  have h := Fd.read_length_pos_of_pos (not_le.mp _hr)
  simp only [List.length_append]
  omega

/-- The proxy's command write, checked by `ETDCASSERTX`, then its reply loop. -/
def command (msg failed : String) (conn : Fd) : Except String Bool × Fd :=
  let w := conn.write msg.toList
  if w.1 ≠ msg.toList.length then
    (.error "__m_connection->write(__m_connection->__m_fd, msg.data(), msg.size())==(ssize_t)msg.size()",
      w.2)
  else awaitReply failed [] w.2

/-- `ETDProxy::removeUUID`. -/
def removeUUID (uuid : Uuid) (conn : Fd) : Except String Bool × Fd :=
  command ("remove-uuid " ++ uuid ++ "\n") "removeUUID failed: " conn

/-- `ETDProxy::sendFile`: the data addresses written with `operator<<`, separated by commas. -/
def sendFile (codec : Codec α) (srcUUID dstUUID : Uuid) (todo : ℤ) (dataaddrs : List α)
    (conn : Fd) : Except String Bool × Fd :=
  command ("send-file " ++ srcUUID ++ " " ++ dstUUID ++ " " ++ toString todo ++ " " ++
    ",".intercalate (dataaddrs.map codec.showAddr) ++ "\n") "sendFile failed - " conn

section Replies

variable {failed : String} {conn : Fd} {pre more : List Char}

/-- Bytes that fill the reply buffer with no line end, however the transport splits them, end the
reply loop with `true`. -/
theorem awaitReply_of_no_eol {pre more : List Char} (buffer : List Char) {conn : Fd}
    (hp : conn.ReadsProgress) (hin : conn.input = pre ++ more) (hlen : buffer.length + pre.length = bufSz)
    (hb : ∀ c ∈ buffer, isEol c = false) (hpre : ∀ c ∈ pre, isEol c = false) :
    (awaitReply failed buffer conn).1 = .ok true := by
  obtain ⟨d, hd⟩ : ∃ d, bufSz - buffer.length = d := ⟨_, rfl⟩
  induction d using Nat.strong_induction_on generalizing pre buffer conn with
  | _ d ih =>
    rw [awaitReply]
    by_cases hfull : bufSz ≤ buffer.length
    · rw [dif_pos hfull]
    · rw [dif_neg hfull]
      have hne : conn.input ≠ [] :=
        hin ▸ List.append_ne_nil_of_left_ne_nil (List.ne_nil_of_length_pos (by omega)) more
      obtain ⟨hfst, hpos⟩ := Fd.read_of_progress hp (k := bufSz - buffer.length) (by omega) hne
      have hle := Fd.read_length_le (f := conn) (k := bufSz - buffer.length)
      have hbytes : (conn.read (bufSz - buffer.length)).2.1 =
          pre.take (conn.read (bufSz - buffer.length)).2.1.length := by
        conv_lhs => rw [Fd.read_bytes_eq]
        rw [hin, List.take_append_of_le_length (by omega)]
      have hrest : (conn.read (bufSz - buffer.length)).2.2.input =
          pre.drop (conn.read (bufSz - buffer.length)).2.1.length ++ more := by
        rw [Fd.read_input_eq, hin, List.drop_append_of_le_length (by omega)]
      have hb' : ∀ c ∈ buffer ++ pre.take (conn.read (bufSz - buffer.length)).2.1.length,
          isEol c = false :=
        List.forall_mem_append.mpr ⟨hb, fun c hc => hpre c (List.mem_of_mem_take hc)⟩
      dsimp only
      rw [dif_neg (by omega), hbytes, getReplies_of_no_eol hb']
      exact ih _ (by simp only [List.length_append, List.length_take]; omega) _
        (hp.later Fd.later_read) hrest
        (by simp only [List.length_append, List.length_take, List.length_drop]; omega) hb'
        (fun c hc => hpre c (List.mem_of_mem_drop hc)) rfl

/-- A reply of one line and its `\n` that fits the buffer, however the transport splits it: the
loop reads all of it and gives the line's outcome. `rest` is the part of the line still unread. -/
theorem awaitReply_of_line {line rest : List Char} (buffer : List Char) {conn : Fd}
    (hp : conn.ReadsProgress) (hin : conn.input = rest ++ ['\n']) (hline : buffer ++ rest = line)
    (hl : line ≠ []) (hle : ∀ c ∈ line, isEol c = false) (hlen : line.length < bufSz) :
    ∃ conn', awaitReply failed buffer conn = (replyOutcome failed line, conn') ∧
      conn'.input = [] ∧ conn'.output = conn.output := by
  obtain ⟨d, hd⟩ : ∃ d, bufSz - buffer.length = d := ⟨_, rfl⟩
  induction d using Nat.strong_induction_on generalizing rest buffer conn with
  | _ d ih =>
    have hbl : buffer.length + rest.length = line.length := by rw [← hline, List.length_append]
    rw [awaitReply, dif_neg (by omega)]
    obtain ⟨hfst, hpos⟩ := Fd.read_of_progress hp (k := bufSz - buffer.length) (by omega)
      (by rw [hin]; exact List.append_ne_nil_of_right_ne_nil rest (List.cons_ne_nil _ _))
    have hall := Fd.read_append_input (f := conn) (k := bufSz - buffer.length)
    rw [hin] at hall
    dsimp only
    rw [dif_neg (by omega)]
    by_cases hm : (conn.read (bufSz - buffer.length)).2.1.length ≤ rest.length
    · -- the read ends inside the line
      have hb : (conn.read (bufSz - buffer.length)).2.1 =
          rest.take (conn.read (bufSz - buffer.length)).2.1.length := by
        conv_lhs => rw [← List.take_left (conn.read _).2.1 (conn.read _).2.2.input, hall]
        rw [List.take_append_of_le_length hm]
      have hr : (conn.read (bufSz - buffer.length)).2.2.input =
          rest.drop (conn.read (bufSz - buffer.length)).2.1.length ++ ['\n'] := by
        rw [← List.drop_left (conn.read _).2.1 (conn.read _).2.2.input, hall,
          List.drop_append_of_le_length hm]
      have hline' : buffer ++ (conn.read (bufSz - buffer.length)).2.1 ++
          rest.drop (conn.read (bufSz - buffer.length)).2.1.length = line := by
        have hsplit := List.take_append_drop (conn.read (bufSz - buffer.length)).2.1.length rest
        rw [← hb] at hsplit
        rw [List.append_assoc, hsplit, hline]
      rw [getReplies_of_no_eol fun c hc => hle c (by rw [← hline']; exact List.mem_append_left _ hc)]
      obtain ⟨c', h, hi, ho⟩ := ih _ (by simp only [List.length_append]; omega)
        (buffer ++ (conn.read _).2.1) (hp.later Fd.later_read) hr hline' rfl
      exact ⟨c', h, hi, by rw [ho, Fd.read_output]⟩
    · -- the read brings the line end
      have hr : (conn.read (bufSz - buffer.length)).2.2.input = [] := by
        have := congrArg List.length hall
        simp only [List.length_append, List.length_singleton] at this
        exact List.eq_nil_of_length_eq_zero (by omega)
      rw [hr, List.append_nil] at hall
      rw [hall, ← List.append_assoc, hline, show line ++ ['\n'] = [line].flatMap (· ++ ['\n']) by simp,
        getReplies_join [line] (by simpa using ⟨hl, hle⟩)]
      exact ⟨_, rfl, hr, Fd.read_output _ _⟩

/-- A command whose reply brings `bufSz` bytes with no line end returns `true`, however the
transport splits them. -/
theorem command_of_no_eol {msg : String} (hw : conn.WritesAll msg.toList.length)
    (hp : conn.ReadsProgress) (hin : conn.input = pre ++ more) (hlen : pre.length = bufSz)
    (hpre : ∀ c ∈ pre, isEol c = false) : (command msg failed conn).1 = .ok true := by
  rw [command]
  simp only [Fd.write_fst_of_all hw le_rfl, ne_eq, not_true_eq_false, if_false]
  exact awaitReply_of_no_eol [] (hp.later Fd.later_write) (by rw [Fd.write_input, hin])
    (by rw [List.length_nil, hlen, Nat.zero_add]) (by simp) hpre

/-- A command written whole, whose reply is one line that fits the buffer, split any way by the
transport: the call gives the line's outcome and reads the whole reply. -/
theorem command_of_line {msg : String} {line : List Char} (hw : conn.WritesAll msg.toList.length)
    (hp : conn.ReadsProgress) (hin : conn.input = line ++ ['\n']) (hl : line ≠ [])
    (hle : ∀ c ∈ line, isEol c = false) (hlen : line.length < bufSz) :
    ∃ conn', command msg failed conn = (replyOutcome failed line, conn') ∧ conn'.input = [] ∧
      conn'.output = conn.output ++ msg.toList := by
  rw [command]
  simp only [Fd.write_fst_of_all hw le_rfl, ne_eq, not_true_eq_false, if_false]
  have hp' : (conn.write msg.toList).2.ReadsProgress := hp.later Fd.later_write
  obtain ⟨c', h, hi, ho⟩ := awaitReply_of_line [] hp' (by rw [Fd.write_input, hin])
    (List.nil_append line) hl hle hlen
  exact ⟨c', h, hi, by rw [ho, Fd.write_output_of_all hw le_rfl]⟩

@[simp] theorem replyOutcome_ok : replyOutcome failed ['O', 'K'] = .ok true := rfl

/-- An `ERR` line fails with its message after `failed`, the blank after `ERR` included. -/
theorem replyOutcome_err {e : List Char} (he : ∀ c ∈ e, isEol c = false) :
    replyOutcome failed ('E' :: 'R' :: 'R' :: ' ' :: e) = .error (failed ++ ⟨' ' :: e⟩) := by
  have hall : ((' ' :: e).dropWhile isSpaceChar).all (!isEol ·) = true :=
    List.all_eq_true.mpr fun c hc => by simp [he c ((List.dropWhile_suffix _).subset hc)]
  simp only [replyOutcome, rxReply, List.take, List.drop, List.map, hall]
  rfl

end Replies

end Proxy

/-! ## Where the control channel departs from a direct call -/

/-- A host with no files, no data addresses and a data path whose peer closes at once. -/
def bareHost : Host Unit :=
  ⟨id, fun _ => [], fun _ _ => .error "", fun _ => .error "", fun _ _ => none, [], closedDial,
    closedConn⟩

/-- Conversions for a single data address. -/
def unitCodec : Codec Unit := ⟨fun _ => .read, fun _ => .ok (), fun _ => ""⟩

/-- An unknown line closes the connection, yet a `remove-uuid` read with it still erases the
server's record. -/
theorem wrapper_removes_after_unknown_line :
    ∃ w, Wrapper.handle (etdServer "U" bareHost) unitCodec 1 []
        ⟨(oneRecord "U" .new, 1), regularFile "x\nremove-uuid U\n".toList, false⟩ =
        some (.ok (), w) ∧
      w.closed = true ∧ (oneRecord "U" .new).find "U" ≠ none ∧ w.server.1.find "U" = none := by
  have hbytes : ((regularFile "x\nremove-uuid U\n".toList).read Wrapper.bufSz).2.1 =
      ["x".toList, "remove-uuid U".toList].flatMap (· ++ ['\n']) := by
    rw [Fd.read_bytes_of_full (k := EtdLockProtocol.bufSz) (fun _ _ => le_rfl) (by decide)]
    rfl
  have hpos : ((regularFile "x\nremove-uuid U\n".toList).read Wrapper.bufSz).1 = 16 := by
    rw [Fd.read_fst_of_full (k := EtdLockProtocol.bufSz) (fun _ _ => le_rfl) (by decide)]
    rfl
  refine ⟨⟨((oneRecord "U" .new).erase "U", 1),
    ((regularFile "x\nremove-uuid U\n".toList).read Wrapper.bufSz).2.2, true⟩, ?_, rfl, by decide,
    by decide⟩
  simp only [Wrapper.handle, List.length_nil, Nat.sub_zero, hpos, hbytes, List.nil_append,
    getReplies_join _ (by decide : ∀ l ∈ ["x".toList, "remove-uuid U".toList],
      l ≠ [] ∧ ∀ c ∈ l, isEol c = false)]
  rfl

/-- An error reply longer than the reply buffer, as the failure of `sendFile` over many data
addresses can be: `ETDProxy::sendFile` returns `true`. -/
theorem proxy_sendFile_true_on_long_error :
    (Proxy.sendFile unitCodec "S" "D" 5 [()]
      (regularFile ("ERR ".toList ++ List.replicate 2044 'x' ++ ['\n']))).1 = .ok true :=
  Proxy.command_of_no_eol (Fd.WritesAll.mono (fun _ _ => le_rfl) (by decide))
    (fun _ _ => show (1 : ℤ) ≤ EtdLockProtocol.bufSz by decide) rfl
    (by simp only [List.length_append, List.length_replicate]; rfl)
    (by simp only [List.mem_append, List.mem_replicate]; rintro c (hc | ⟨-, rfl⟩) <;> [revert c; rfl]; decide)

/-- `removeUUID` of a server that owns no record is `false` when called directly; through a
wrapper the reply is `ERR Failed to remove UUID`, which the proxy turns into an error. -/
theorem removeUUID_direct_false_proxied_error :
    (etdServer "U" bareHost).removeUUID "U" (TransferMap.empty, 0) =
        (.ok false, (TransferMap.empty, 0)) ∧
      (∃ w, Wrapper.handle (etdServer "U" bareHost) unitCodec 2 []
          ⟨(TransferMap.empty, 0), regularFile "remove-uuid U\n".toList, false⟩ =
          some (.error "Failed to read data from remote end", w) ∧
        w.server = (TransferMap.empty, 0) ∧ w.conn.output = "ERR Failed to remove UUID\n".toList) ∧
      (Proxy.removeUUID "U" (regularFile "ERR Failed to remove UUID\n".toList)).1 =
        .error "removeUUID failed:  Failed to remove UUID" ∧
      (Proxy.removeUUID "U" (regularFile "ERR Failed to remove UUID\n".toList)).2.output =
        "remove-uuid U\n".toList := by
  refine ⟨rfl, ?wrapper, ?proxy⟩
  case wrapper =>
    have hbytes : ((regularFile "remove-uuid U\n".toList).read Wrapper.bufSz).2.1 =
        ["remove-uuid U".toList].flatMap (· ++ ['\n']) := by
      rw [Fd.read_bytes_of_full (k := EtdLockProtocol.bufSz) (fun _ _ => le_rfl) (by decide)]
      rfl
    have hpos : ((regularFile "remove-uuid U\n".toList).read Wrapper.bufSz).1 = 14 := by
      rw [Fd.read_fst_of_full (k := EtdLockProtocol.bufSz) (fun _ _ => le_rfl) (by decide)]
      rfl
    let c₁ := ((regularFile "remove-uuid U\n".toList).read Wrapper.bufSz).2.2
    let c₂ := ((c₁.write "ERR Failed to remove UUID".toList).2.write ['\n']).2
    have hserve : Wrapper.serveLines (etdServer "U" bareHost) unitCodec ["remove-uuid U".toList]
        ⟨(TransferMap.empty, 0), c₁, false⟩ = (false, ⟨(TransferMap.empty, 0), c₂, false⟩) := rfl
    have hread : (c₂.read Wrapper.bufSz).1 = 0 := rfl
    refine ⟨⟨(TransferMap.empty, 0), (c₂.read Wrapper.bufSz).2.2, false⟩, ?_, rfl, rfl⟩
    simp only [Wrapper.handle, List.length_nil, Nat.sub_zero, hpos, hbytes, List.nil_append,
      getReplies_join _ (by decide : ∀ l ∈ ["remove-uuid U".toList],
        l ≠ [] ∧ ∀ c ∈ l, isEol c = false)]
    simp only [hserve, hread]
    rfl
  case proxy =>
    let c₁ := ((regularFile "ERR Failed to remove UUID\n".toList).write
      ("remove-uuid " ++ "U" ++ "\n").toList).2
    have hwrite : ((regularFile "ERR Failed to remove UUID\n".toList).write
        ("remove-uuid " ++ "U" ++ "\n").toList).1 = ("remove-uuid " ++ "U" ++ "\n").toList.length :=
      Fd.write_fst_of_all (k := EtdLockProtocol.bufSz) (fun _ _ => le_rfl) (by decide)
    have hbytes : (c₁.read Proxy.bufSz).2.1 =
        ["ERR Failed to remove UUID".toList].flatMap (· ++ ['\n']) := by
      rw [Fd.read_bytes_of_full (k := EtdLockProtocol.bufSz) (fun _ _ => le_rfl) (by decide)]
      rfl
    have hpos : (c₁.read Proxy.bufSz).1 = 26 := by
      rw [Fd.read_fst_of_full (k := EtdLockProtocol.bufSz) (fun _ _ => le_rfl) (by decide)]
      rfl
    have hrun : Proxy.removeUUID "U" (regularFile "ERR Failed to remove UUID\n".toList) =
        (.error "removeUUID failed:  Failed to remove UUID", (c₁.read Proxy.bufSz).2.2) := by
      rw [Proxy.removeUUID, Proxy.command, Proxy.awaitReply]
      simp only [hwrite, ne_eq, not_true_eq_false, if_false, List.length_nil, Nat.sub_zero, hpos,
        hbytes, List.nil_append, getReplies_join _ (by decide : ∀ l ∈ ["ERR Failed to remove UUID".toList],
          l ≠ [] ∧ ∀ c ∈ l, isEol c = false)]
      rfl
    rw [hrun]
    exact ⟨rfl, rfl⟩

end ETransfer.EtdControl
