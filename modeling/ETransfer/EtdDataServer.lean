import ETransfer.EtdHeader

/-!
# `ETDDataServer::handle`: the data server's command loop

`handle` reads at most `maxNoCmdSz` bytes looking for a header `{...}` at the start of its
buffer, decodes it, looks its UUID up, checks the record's open mode and hands the connection and
the record's descriptor to `push_n` or `pull_n`; then it starts over on the same connection. The
search for a header always ends, since each read brings a byte or ends it, so it is `readCommand`,
by well-founded recursion; the loop over commands takes fuel. Other threads are absent here: a
record whose lock another thread holds makes the `try_lock` loop spin, and the run has no result.

Proved: the search finds a header that fits in `maxNoCmdSz` bytes however the transport splits
it, and reads past it only what the peer sent after it. So `sendFile` and `getFile` against
`handle` move exactly the requested bytes and one acknowledgement when the UUIDs are words of the
UUID alphabet no longer than a control line carries and the connections take whole writes. The
header is the one write `sendFile` does not check: on a connection that takes part of it, `handle`
never finds the command while `sendFile` still reports success. The registry's side of the
exchange is `EtdLockProtocol`'s.
-/

namespace ETransfer.EtdDataServer

open EtdRegistry EtdLockProtocol EtdDataPath EtdHeader

/-- `maxNoCmdSz`: the bytes `handle` reads looking for a command before it gives up. -/
def maxNoCmdSz : ℕ := 4 * 1024

theorem maxNoCmdSz_lt_bufSz : maxNoCmdSz < bufSz := by decide

/-- Modelled from the spec: `operator<<` of `openmode_type` is not in the source; a mode prints
as the spec names it. -/
def modeName : OpenMode → String
  | .read => "Read"
  | .new => "New"
  | .overWrite => "OverWrite"
  | .resume => "Resume"
  | .skipExisting => "SkipExisting"

/-- The search for a command in `handle`'s loop: read up to `maxNoCmdSz - curPos` bytes after the
`curPos` bytes of `buffer`, check that the first byte is `{` and search `rxCommand`; stop when the
buffer is full. Gives the fields and the bytes after the `}` once found. -/
def readCommand (buffer : List Char) (conn : Fd) :
    Except String (Option (List Char × List Char)) × Fd :=
  if _hfull : maxNoCmdSz ≤ buffer.length then (.ok none, conn)
  else
    let r := conn.read (maxNoCmdSz - buffer.length)
    if _hr : r.1 ≤ 0 then (.error "Failed to read data from remote end", r.2.2)
    else if (buffer ++ r.2.1).head? ≠ some '\x7b' then
      (.error "Client is messing with us - doesn't look like it is going to send a command", r.2.2)
    else
      match rxCommand (buffer ++ r.2.1) with
      | some cmd => (.ok (some cmd), r.2.2)
      | none => readCommand (buffer ++ r.2.1) r.2.2
termination_by maxNoCmdSz - buffer.length
decreasing_by
  have h := Fd.read_length_pos_of_pos (not_le.mp _hr)
  simp only [List.length_append]
  omega

/-- The rest of the loop's body once a command is found: decode it, find the record (a lock held
by another thread makes the `try_lock` loop spin), check its open mode, then `push_n` or `pull_n`
with the size as a `size_t`, `pull_n` starting from the bytes after the `}`. `fuel` bounds
`pull_n`. -/
def serveCommand (m : TransferMap) (fuel : ℕ) (fields window : List Char) (fds : Uuid → Fd)
    (conn : Fd) : Option (Except String Unit × (Uuid → Fd) × Fd) :=
  match decodeHeader fields with
  | .error msg => some (.error msg, fds, conn)
  | .ok (uuid, sz, push) =>
    match m.find uuid with
    | none => some (.error "No transfer associated with the UUID", fds, conn)
    | some r =>
      if r.lock.isSome then none
      else if !modeAdmits push r.openMode then
        some (.error ("The referred-to transfer's open mode (" ++ modeName r.openMode ++
          ") is not compatible with the current data request"), fds, conn)
      else
        (if push then some (pushN (sz % (sizeMod : ℤ)).toNat ⟨fds uuid, conn⟩)
          else pullN fuel (sz % (sizeMod : ℤ)).toNat (fields.length + 2) window
            ⟨fds uuid, conn⟩).map fun (res, e) => (res, Function.update fds uuid e.file, e.conn)

/-- `ETDDataServer::handle` on one connection, with `m` the transfers map, `fds` each record's
descriptor and `fuel` bounding the commands served: search a command, serve it, start over with
an empty buffer. It ends normally when `maxNoCmdSz` bytes bring no command, and with the message
of the first assertion that fails otherwise. -/
def handle (m : TransferMap) : ℕ → (Uuid → Fd) → Fd →
    Option (Except String Unit × (Uuid → Fd) × Fd)
  | 0, _, _ => none
  | fuel + 1, fds, conn =>
    match readCommand [] conn with
    | (.error msg, conn') => some (.error msg, fds, conn')
    | (.ok none, conn') => some (.ok (), fds, conn')
    | (.ok (some (fields, window)), conn') =>
      match serveCommand m fuel fields window fds conn' with
      | some (.ok (), fds', conn'') => handle m fuel fds' conn''
      | other => other

section Search

variable {buffer fs more : List Char} {conn : Fd}

/-- A read that brings nothing ends the search with an error. -/
theorem readCommand_of_eof (h : buffer.length < maxNoCmdSz)
    (hr : (conn.read (maxNoCmdSz - buffer.length)).1 ≤ 0) :
    readCommand buffer conn = (.error "Failed to read data from remote end",
      (conn.read (maxNoCmdSz - buffer.length)).2.2) := by
  rw [readCommand, dif_neg (not_le.mpr h)]
  exact dif_pos hr

/-- A read that brings bytes, after which the buffer starts with `{`: the search ends if
`rxCommand` finds a command and goes on otherwise. -/
theorem readCommand_of_read (h : buffer.length < maxNoCmdSz)
    (hr : 0 < (conn.read (maxNoCmdSz - buffer.length)).1)
    (hb : (buffer ++ (conn.read (maxNoCmdSz - buffer.length)).2.1).head? = some '\x7b') :
    readCommand buffer conn =
      match rxCommand (buffer ++ (conn.read (maxNoCmdSz - buffer.length)).2.1) with
      | some cmd => (.ok (some cmd), (conn.read (maxNoCmdSz - buffer.length)).2.2)
      | none => readCommand (buffer ++ (conn.read (maxNoCmdSz - buffer.length)).2.1)
          (conn.read (maxNoCmdSz - buffer.length)).2.2 := by
  rw [readCommand, dif_neg (not_le.mpr h)]
  exact (dif_neg (not_le.mpr hr)).trans (if_neg (not_not.mpr hb))

section Header

variable (hfs : '\x7d' ∉ fs)
include hfs

/-- `rxCommand` finds nothing in a proper prefix of a header. -/
theorem rxCommand_take_of_lt {q : ℕ} (hq : q < fs.length + 2) :
    rxCommand (('\x7b' :: fs ++ ['\x7d']).take q) = none := by
  cases q with
  | zero => rfl
  | succ q =>
    rw [List.cons_append, List.take_succ_cons, List.take_append_of_le_length (by omega)]
    exact rxCommand_open fun h => hfs (List.mem_of_mem_take h)

/-- However the transport splits a header of at most `maxNoCmdSz` bytes and what follows it, the
search returns the header's fields and the bytes it read past the `}`, which begin what followed;
it leaves the connection's output alone. -/
theorem readCommand_header (hlen : fs.length + 2 ≤ maxNoCmdSz) {conn : Fd} (hp : conn.ReadsProgress)
    {p : ℕ} (hpl : p < fs.length + 2)
    (hin : conn.input = ('\x7b' :: fs ++ ['\x7d'] ++ more).drop p) :
    ∃ w conn', readCommand (('\x7b' :: fs ++ ['\x7d'] ++ more).take p) conn =
        (.ok (some (fs, w)), conn') ∧ w ++ conn'.input = more ∧
      fs.length + 2 + w.length ≤ maxNoCmdSz ∧ conn.Later conn' ∧ conn'.output = conn.output := by
  obtain ⟨d, hd⟩ : ∃ d, fs.length + 2 - p = d := ⟨_, rfl⟩
  induction d using Nat.strong_induction_on generalizing p conn with
  | _ d ih =>
    have hl : ('\x7b' :: fs ++ ['\x7d']).length = fs.length + 2 := by simp
    have hne : conn.input ≠ [] := by
      rw [hin, ← List.length_pos, List.length_drop, List.length_append, hl]
      omega
    obtain ⟨hfst, hpos⟩ := Fd.read_of_progress hp (k := maxNoCmdSz - p) (by omega) hne
    obtain ⟨j, hj⟩ : ∃ j, (conn.read (maxNoCmdSz - p)).2.1.length = j := ⟨_, rfl⟩
    have hjk : j ≤ maxNoCmdSz - p := hj ▸ Fd.read_length_le
    have hbytes : (conn.read (maxNoCmdSz - p)).2.1 =
        (('\x7b' :: fs ++ ['\x7d'] ++ more).drop p).take j := by
      rw [← hj, ← hin]; exact Fd.read_bytes_eq
    have hrest : (conn.read (maxNoCmdSz - p)).2.2.input =
        ('\x7b' :: fs ++ ['\x7d'] ++ more).drop (p + j) := by
      rw [← List.drop_drop, ← hin, ← hj]; exact Fd.read_input_eq
    have hbl : (('\x7b' :: fs ++ ['\x7d'] ++ more).take p).length = p := by
      rw [List.length_take, List.length_append, hl]; omega
    have hbuf : ('\x7b' :: fs ++ ['\x7d'] ++ more).take p ++ (conn.read (maxNoCmdSz - p)).2.1 =
        ('\x7b' :: fs ++ ['\x7d'] ++ more).take (p + j) := by
      rw [hbytes, List.take_add]
    rw [readCommand_of_read (by omega) (by rw [hbl]; omega)
      (by rw [hbl, hbuf, List.head?_take]; simp; omega)]
    simp only [hbl, hbuf]
    by_cases hq : p + j < fs.length + 2
    · have hnone : rxCommand (('\x7b' :: fs ++ ['\x7d'] ++ more).take (p + j)) = none := by
        rw [List.take_append_of_le_length (by omega)]; exact rxCommand_take_of_lt hfs hq
      rw [hnone]
      obtain ⟨w, conn', h, hw, hwl, hlater, hout⟩ :=
        ih _ (by omega) (hp.later Fd.later_read) hq hrest rfl
      exact ⟨w, conn', h, hw, hwl, Fd.later_read.trans hlater, hout.trans (Fd.read_output _ _)⟩
    · rw [List.take_append_eq_append_take, List.take_of_length_le (by omega), hl]
      refine ⟨more.take (p + j - (fs.length + 2)), _, by
        rw [List.append_assoc, List.singleton_append, rxCommand_closed hfs], ?_, ?_,
        Fd.later_read, Fd.read_output _ _⟩
      · rw [hrest, List.drop_append_eq_append_drop, List.drop_eq_nil_of_le (by omega), hl,
          List.nil_append, List.take_append_drop]
      · rw [List.length_take]; omega

end Header

end Search

section Serve

variable {m : TransferMap} {fuel : ℕ} {fields window : List Char} {fds fds' : Uuid → Fd}
  {conn conn' conn'' : Fd} {msg : String}

theorem handle_of_search_error (h : readCommand [] conn = (.error msg, conn')) :
    handle m (fuel + 1) fds conn = some (.error msg, fds, conn') := by
  rw [handle, h]

/-- A served command starts the loop over. -/
theorem handle_of_served (h : readCommand [] conn = (.ok (some (fields, window)), conn'))
    (hs : serveCommand m fuel fields window fds conn' = some (.ok (), fds', conn'')) :
    handle m (fuel + 1) fds conn = handle m fuel fds' conn'' := by
  rw [handle, h]
  simp only [hs]

/-- Once the peer has closed the connection, `handle` fails on its next read. -/
theorem handle_at_eof (m : TransferMap) (fuel : ℕ) (fds : Uuid → Fd) (h : conn.input = []) :
    ∃ conn', handle m (fuel + 1) fds conn =
      some (.error "Failed to read data from remote end", fds, conn') ∧ conn'.output = conn.output :=
  ⟨_, handle_of_search_error (readCommand_of_eof (by decide) (Fd.read_of_input_nil h).1),
    Fd.read_output _ _⟩

/-- A decoded command for a free record whose open mode suits the request runs `push_n` or
`pull_n` on the record's descriptor, and only that descriptor changes. -/
theorem serveCommand_of_found {u : Uuid} {sz : ℤ} {push : Bool} {r : TransferProps}
    (hd : decodeHeader fields = .ok (u, sz, push)) (hm : m.find u = some r) (hl : r.lock = none)
    (hmode : modeAdmits push r.openMode = true) :
    serveCommand m fuel fields window fds conn =
      (if push then some (pushN (sz % (sizeMod : ℤ)).toNat ⟨fds u, conn⟩)
        else pullN fuel (sz % (sizeMod : ℤ)).toNat (fields.length + 2) window ⟨fds u, conn⟩).map
        fun (res, e) => (res, Function.update fds u e.file, e.conn) := by
  simp only [serveCommand, hd, hm, hl, Option.isSome_none, hmode, Bool.not_true,
    Bool.false_eq_true, if_false]

end Serve

section Exchange

variable {m : TransferMap} {fds : Uuid → Fd} {conn : Fd} {u : Uuid} {n : ℕ} {r : TransferProps}
  {fuel : ℕ}

theorem size_toNat_of_lt (hn : n < 2 ^ 63) : ((n : ℤ) % (sizeMod : ℤ)).toNat = n := by
  rw [Int.emod_eq_of_lt (by omega) (by simp only [sizeMod]; omega)]
  rfl

/-- The headers of `sendFile` and `getFile` for a UUID of at most 2 KiB, the most a control line
carries, and a count below `2^63` fit in the `maxNoCmdSz` bytes that `handle` scans. -/
theorem headers_fit (hu : u.length ≤ 2048) (hn : n < 2 ^ 63) :
    (sendHeader u n).length ≤ maxNoCmdSz ∧ (getHeader u n).length ≤ maxNoCmdSz := by
  have hd : (Nat.toDigits 10 n).length ≤ 19 := Nat.repr_length n 19 (by decide) (by omega)
  have hu' : u.toList.length ≤ 2048 := hu
  rw [sendHeader_eq, getHeader_eq]
  simp only [sendFields, getFields, List.length_cons, List.length_append, List.length_nil]
  have h1 : " uuid:".toList.length = 6 := rfl
  have h2 : ", sz:".toList.length = 5 := rfl
  have h3 : ", push:1, sz:".toList.length = 13 := rfl
  have hm : maxNoCmdSz = 4096 := rfl
  omega

/-- `handle` against `sendFile`: given the header `{ uuid:u, sz:n}` and then exactly `n` bytes,
however the transport splits them, it writes those bytes to `u`'s descriptor and no other,
acknowledges them with one `y`, and fails on its next read once the peer has closed. -/
theorem handle_pulls {payload : List Char} (hu : isUuidWord u = true) (hsz : n < 2 ^ 63)
    (hfit : (sendHeader u n).length ≤ maxNoCmdSz) (hm : m.find u = some r) (hl : r.lock = none)
    (hmode : modeAdmits false r.openMode = true) (hf : (fds u).WritesAll bufSz)
    (hp : conn.ReadsProgress) (hw : conn.WritesAll 1)
    (hin : conn.input = sendHeader u n ++ payload) (hpl : payload.length = n)
    (hfuel : n + 3 ≤ fuel) :
    ∃ fds' conn', handle m fuel fds conn =
        some (.error "Failed to read data from remote end", fds', conn') ∧
      (fds' u).output = (fds u).output ++ payload ∧ conn'.output = conn.output ++ ['y'] ∧
      ∀ v, v ≠ u → fds' v = fds v := by
  obtain ⟨f, rfl⟩ : ∃ f, fuel = f + 2 := ⟨fuel - 2, by omega⟩
  rw [sendHeader_eq] at hfit hin
  have hlen : (sendFields u n).length + 2 ≤ maxNoCmdSz := by simpa using hfit
  obtain ⟨w, c₁, hread, hwm, hwl, hl₁, ho₁⟩ := readCommand_header (rbrace_not_mem_sendFields hu)
    hlen hp (p := 0) (by omega) (by rw [hin, List.drop_zero])
  rw [List.take_zero] at hread
  have hwlen : w.length + c₁.input.length = n := by rw [← hpl, ← hwm, List.length_append]
  obtain ⟨e', hpull, hfo, hci, hco⟩ := pullN_exact (e := ⟨fds u, c₁⟩)
    (show n < sizeMod by simp only [sizeMod]; omega) (show w.length ≤ n by omega)
    (show (sendFields u n).length + 2 + w.length < bufSz by have := maxNoCmdSz_lt_bufSz; omega)
    (hp.later hl₁) (hw.later hl₁) hf (by dsimp only; omega) (show n + 2 ≤ f + 1 by omega)
  have hserve : serveCommand m (f + 1) (sendFields u n) w fds c₁ =
      some (.ok (), Function.update fds u e'.file, e'.conn) := by
    rw [serveCommand_of_found (decodeHeader_sendFields hu hsz) hm hl hmode]
    simp only [Bool.false_eq_true, if_false, size_toNat_of_lt hsz, hpull, Option.map_some']
  have hnil : e'.conn.input = [] := by
    rw [hci]; exact List.drop_eq_nil_of_le (by dsimp only; omega)
  obtain ⟨c₂, heof, ho₂⟩ := handle_at_eof m f (Function.update fds u e'.file) hnil
  refine ⟨_, c₂, (handle_of_served hread hserve).trans heof, ?_, ?_,
    fun v hv => Function.update_noteq hv _ _⟩
  · rw [Function.update_same, hfo, List.take_of_length_le (by dsimp only; omega), List.append_assoc,
      hwm]
  · rw [ho₂, hco, ho₁]

/-- `handle` against `getFile`: given the header `{ uuid:u, push:1, sz:n}` and then the
acknowledgement, however the transport splits them, it sends the next `n` bytes of `u`'s regular
file, reads the acknowledgement and fails on its next read once the peer has closed. -/
theorem handle_pushes (hu : isUuidWord u = true) (hsz : n < 2 ^ 63)
    (hfit : (getHeader u n).length ≤ maxNoCmdSz) (hm : m.find u = some r) (hl : r.lock = none)
    (hmode : r.openMode = .read) (hf : (fds u).ReadsFull bufSz) (hn : n ≤ (fds u).input.length)
    (hp : conn.ReadsProgress) (hw : conn.WritesAll bufSz)
    (hin : conn.input = getHeader u n ++ ['y']) (hfuel : 2 ≤ fuel) :
    ∃ fds' conn', handle m fuel fds conn =
        some (.error "Failed to read data from remote end", fds', conn') ∧
      conn'.output = conn.output ++ (fds u).input.take n ∧ ∀ v, v ≠ u → fds' v = fds v := by
  obtain ⟨f, rfl⟩ : ∃ f, fuel = f + 2 := ⟨fuel - 2, by omega⟩
  rw [getHeader_eq] at hfit hin
  have hlen : (getFields u n).length + 2 ≤ maxNoCmdSz := by simpa using hfit
  obtain ⟨w, c₁, hread, hwm, -, hl₁, ho₁⟩ := readCommand_header (rbrace_not_mem_getFields hu)
    hlen hp (p := 0) (by omega) (by rw [hin, List.drop_zero])
  rw [List.take_zero] at hread
  obtain ⟨e', hpush, hco, hci, -⟩ := pushN_of_full (e := ⟨fds u, c₁⟩) (n := n) hf (hw.later hl₁)
    (hp.later hl₁) hn
  have hserve : serveCommand m (f + 1) (getFields u n) w fds c₁ =
      some (.ok (), Function.update fds u e'.file, e'.conn) := by
    rw [serveCommand_of_found (decodeHeader_getFields hu hsz) hm hl (by simp [hmode, modeAdmits])]
    simp only [if_true, size_toNat_of_lt hsz, hpush, Option.map_some']
  have hnil : e'.conn.input = [] := by
    have := congrArg List.length hwm
    rw [List.length_append] at this
    rw [hci]; exact List.drop_eq_nil_of_le (by dsimp only; simp at this; omega)
  obtain ⟨c₂, heof, ho₂⟩ := handle_at_eof m f (Function.update fds u e'.file) hnil
  exact ⟨_, c₂, (handle_of_served hread hserve).trans heof, by rw [ho₂, hco, ho₁],
    fun v hv => Function.update_noteq hv _ _⟩

end Exchange

/-! ## What a data connection can do to the records' files -/

/-- What a run of `handle` may do to the descriptor `f` of the UUID `k`, leaving `f'`: nothing when
`k` has no record or its record admits no transfer (`SkipExisting`); only read it when the record
is opened for reading; only write it when the record is opened for writing. -/
def ModeRespected (m : TransferMap) (k : Uuid) (f f' : Fd) : Prop :=
  match m.find k with
  | none => f' = f
  | some r =>
    if modeAdmits true r.openMode then f.ReadsOnly f'
    else if modeAdmits false r.openMode then f.WritesOnly f'
    else f' = f

section Modes

variable {m : TransferMap} {k : Uuid} {f f' f'' : Fd}

theorem ModeRespected.rfl : ModeRespected m k f f := by
  unfold ModeRespected
  split
  · rfl
  · split_ifs
    · exact Fd.ReadsOnly.rfl
    · exact Fd.WritesOnly.rfl
    · rfl

theorem ModeRespected.trans (h : ModeRespected m k f f') (h' : ModeRespected m k f' f'') :
    ModeRespected m k f f'' := by
  unfold ModeRespected at *
  rcases hm : m.find k with _ | r <;> simp only [hm] at h h' ⊢
  · exact h'.trans h
  · split_ifs at h h' ⊢
    · exact h.trans h'
    · exact h.trans h'
    · exact h'.trans h

/-- No open mode admits both directions of a transfer. -/
theorem modeAdmits_read_of_write {mode : OpenMode} (h : modeAdmits false mode = true) :
    modeAdmits true mode = false := by
  cases mode <;> simp_all [modeAdmits]

variable {fuel : ℕ} {fields window : List Char} {fds fds' : Uuid → Fd} {conn conn' : Fd}
  {res : Except String Unit}

/-- One served command changes at most the descriptor of its header's UUID, and that one only as
the record's open mode admits: `push_n` reads a file opened for reading, `pull_n` writes one opened
for writing. -/
theorem serveCommand_respects_modes
    (h : serveCommand m fuel fields window fds conn = some (res, fds', conn')) (k : Uuid) :
    ModeRespected m k (fds k) (fds' k) := by
  unfold serveCommand at h
  split at h
  · -- the header does not decode
    cases h
    exact .rfl
  next uuid sz push hd =>
  split at h
  · -- no record of the UUID
    cases h
    exact .rfl
  next r hr =>
  split_ifs at h with hl hmode hpush
  · -- the open mode does not suit the request
    cases h
    exact .rfl
  all_goals
    -- the transfer: only the record's descriptor changes, as its mode admits
    obtain ⟨⟨res₀, e⟩, he, hmap⟩ := Option.map_eq_some'.mp h
    obtain ⟨-, rfl, -⟩ := Prod.mk.inj_iff.mp hmap.symm
    have hadm : modeAdmits push r.openMode = true := by simpa using hmode
    by_cases hk : k = uuid
    swap
    · rw [Function.update_noteq hk]
      exact .rfl
    subst hk
    simp only [ModeRespected, hr, Function.update_same]
  · -- `push_n` reads the file
    rw [if_pos (hpush ▸ hadm)]
    exact pushN_reads_file (Option.some.inj he)
  · -- `pull_n` writes it
    rw [Bool.not_eq_true] at hpush
    rw [hpush] at hadm
    rw [if_neg (by rw [modeAdmits_read_of_write hadm]; decide), if_pos hadm]
    exact (pullN_writes_file he).2

/-- **A data connection reads only files opened for reading and writes only files opened for
writing.** Whatever a client sends on a data connection, however it is split, however many headers
it holds: in every run of `handle`, the descriptor of a UUID without a record, or of a record opened
`SkipExisting`, is left untouched; a file opened for reading is never written; a file opened for
writing (`New`, `OverWrite` or `Resume`) is never read. -/
theorem handle_respects_modes (h : handle m fuel fds conn = some (res, fds', conn')) (k : Uuid) :
    ModeRespected m k (fds k) (fds' k) := by
  induction fuel generalizing fds conn with
  | zero => cases h
  | succ fuel ih =>
    rw [handle] at h
    split at h
    · cases h
      exact .rfl
    · cases h
      exact .rfl
    · split at h
      · next fds₁ conn₂ hs => exact (serveCommand_respects_modes hs k).trans (ih h)
      · exact serveCommand_respects_modes h k

/-- A pull of one byte into a record opened `New`: the run writes the record's file only. -/
theorem handle_respects_modes_pull :
    ∃ fds₂ conn₂, handle (oneRecord "D" .new) 4 (fun _ => regularFile [])
        (regularFile (sendHeader "D" (1 : ℕ) ++ ['x'])) =
        some (.error "Failed to read data from remote end", fds₂, conn₂) ∧
      ModeRespected (oneRecord "D" .new) "D" (regularFile []) (fds₂ "D") := by
  obtain ⟨fds₁, conn₁, h, -⟩ := @handle_pulls (oneRecord "D" .new) (fun _ => regularFile [])
    (regularFile (sendHeader "D" (1 : ℕ) ++ ['x'])) "D" 1 _ 4 ['x'] (by decide) (by decide)
    (by decide) rfl rfl rfl (fun _ _ => le_rfl) (fun _ _ => show (1 : ℤ) ≤ bufSz by decide)
    (fun _ _ => show ((1 : ℕ) : ℤ) ≤ bufSz by decide) rfl rfl (by decide)
  exact ⟨fds₁, conn₁, h, handle_respects_modes h "D"⟩

end Modes

end ETransfer.EtdDataServer
