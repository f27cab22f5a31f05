import ETransfer.EtdReplyRoundTrip
import ETransfer.EtdLineFraming

/-!
# A client's session through `ETDProxy` and `ETDServerWrapper`

A client that reaches a remote daemon holds an `ETDProxy`: each call of the service interface
writes one command line on the control connection, and `ETDServerWrapper::handle` at the other end
runs it on its `ETDServer` and writes the reply lines the proxy reads. The proxy sends a command
only once it has read the reply to the one before.

Proved: a session of any calls, each of whose arguments the channel carries and each of whose
results the reply carries back whole, gives through the proxy what the same calls give on the
server directly (`session_through_proxy`). The wrapper, however the commands reach it in reads,
runs the calls in order, so its server ends in the state the direct calls leave, and writes their
replies in order; reading the reply to each call however it is split, the proxy returns the
server's result for that call, an error after the call's prefix, and a `false` of `removeUUID`
or `sendFile` as the error the wrapper's `ERR` line carries. The wrapper's side is
`handle_commands`: a stream of command lines served in order, whatever the reads.

Left out: arguments the channel does not carry back whole (a UUID with a blank, a negative count,
a path that starts with a blank), results it does not carry whole (an entry that starts with a
blank, a line longer than the proxy's buffer), and the open mode, written by `operator<<` and read
back by `operator>>`, neither of which is in the source: the direct call is made with the mode the
wrapper reads back.
-/

namespace ETransfer.EtdSession

open EtdRegistry EtdDataPath EtdHeader EtdControl EtdRoundTrip EtdProxy EtdReplyRoundTrip
  EtdLineFraming

variable {σ α : Type}

/-! ## The wrapper on a stream of commands -/

/-- The replies the wrapper writes for `cmds`, run in order on the server from `st`, one list per
command, and the server's state after them. -/
def runCommands (svc : Service σ α) (codec : Codec α) : List Command → σ → List (List String) × σ
  | [], st => ([], st)
  | cmd :: cmds, st =>
    let rest := runCommands svc codec cmds (cmd.run svc codec st).2
    ((cmd.run svc codec st).1 :: rest.1, rest.2)

section Wrapper

variable {svc : Service σ α} {codec : Codec α} {k : ℕ}

theorem runCommands_append (c₁ c₂ : List Command) (st : σ) :
    runCommands svc codec (c₁ ++ c₂) st =
      ((runCommands svc codec c₁ st).1 ++
          (runCommands svc codec c₂ (runCommands svc codec c₁ st).2).1,
        (runCommands svc codec c₂ (runCommands svc codec c₁ st).2).2) := by
  induction c₁ generalizing st with
  | nil => rfl
  | cons cmd c₁ ih => rw [List.cons_append]; simp only [runCommands, ih, List.cons_append]

/-- Lines that are the commands `cmds`, served on an open connection that takes whole writes of
the replies: the replies of the commands, run in order, go out, each line with its `\n`, and the
wrapper goes on with its server in the state after them. -/
theorem serveLines_commands {lines : List (List Char)} {cmds : List Command}
    (hparse : lines.map parseCommand = cmds.map some) {w : Wrapper σ} (hc : w.closed = false)
    (hw : w.conn.WritesAll k) (hk : 1 ≤ k)
    (hr : ∀ rs ∈ (runCommands svc codec cmds w.server).1, ∀ r ∈ rs, r.toList.length ≤ k) :
    ∃ w', Wrapper.serveLines svc codec lines w = (false, w') ∧
      w'.server = (runCommands svc codec cmds w.server).2 ∧ w'.closed = false ∧
      w'.conn.output = w.conn.output ++
        ((runCommands svc codec cmds w.server).1.map (·.flatMap (·.toList ++ ['\n']))).flatten ∧
      w'.conn.input = w.conn.input ∧ w.conn.Later w'.conn := by
  induction lines generalizing cmds w with
  | nil =>
    obtain rfl : cmds = [] := List.map_eq_nil_iff.mp hparse.symm
    exact ⟨w, rfl, rfl, hc, by simp [runCommands], rfl, Fd.Later.rfl⟩
  | cons line lines ih =>
    obtain ⟨cmd, cmds, rfl⟩ : ∃ cmd cmds', cmds = cmd :: cmds' := by
      cases cmds with
      | nil => cases hparse
      | cons cmd cmds' => exact ⟨cmd, cmds', rfl⟩
    simp only [List.map_cons, List.cons.injEq] at hparse
    obtain ⟨ho₁, hi₁, hc₁⟩ := Wrapper.sendReplies_output
      (w := { w with server := (cmd.run svc codec w.server).2 }) hc hw hk
      (hr _ (List.mem_cons_self _ _))
    have hl₁ := (sendReplies_conn (cmd.run svc codec w.server).1
      { w with server := (cmd.run svc codec w.server).2 }).1
    obtain ⟨w', hs, hsrv, hcl, hout, hin, hlat⟩ := ih hparse.2 hc₁ (hw.later hl₁)
      (by simpa using fun rs hrs => hr rs (List.mem_cons_of_mem _ hrs))
    refine ⟨w', ?_, by simpa using hsrv, hcl, ?_, by simpa using hin.trans hi₁, hl₁.trans hlat⟩
    · rw [Wrapper.serveLines, hparse.1]
      exact hs
    · rw [hout, ho₁]
      simp [runCommands]

/-- A buffer that holds the start of a stream of lines, and no `\n`, is shorter than the wrapper's
buffer when every line is. -/
theorem buffer_lt_bufSz {ls : List (List Char)} {buffer input : List Char}
    (hls : ∀ l ∈ ls, l.length < Wrapper.bufSz) (hin : buffer ++ input = ls.flatMap (· ++ ['\n']))
    (hb : ∀ c ∈ buffer, isEol c = false) : buffer.length < Wrapper.bufSz := by
  cases ls with
  | nil =>
    obtain ⟨rfl, -⟩ := List.append_eq_nil.mp hin
    decide
  | cons l ls' =>
    refine lt_of_le_of_lt (@length_le_of_no_eol buffer input l
      (ls'.flatMap (· ++ ['\n'])) '\n' ?_ rfl hb) (hls l (List.mem_cons_self _ _))
    rw [hin, List.flatMap_cons, List.append_assoc, List.singleton_append]

/-- A buffer without a `\n` holds no whole line. -/
theorem lines_nil_of_no_eol {ls : List (List Char)} {buffer : List Char}
    (hin : buffer = ls.flatMap (· ++ ['\n'])) (hb : ∀ c ∈ buffer, isEol c = false) : ls = [] := by
  cases ls with
  | nil => rfl
  | cons l ls' => cases hb '\n' (by rw [hin]; simp)

/-- **The wrapper serves a stream of commands, however it is cut into reads.** From a buffer that
holds the start of the first line, on a stream of whole command lines, each ended by one `\n` and
shorter than the buffer, split into reads in any way, over a connection that takes whole writes of
the replies: the wrapper runs the commands in order, writes their replies in the same order, each
line with its `\n`, and fails on its read once the peer has closed the connection. -/
theorem handle_commands {ls : List (List Char)} {cmds : List Command} {buffer : List Char}
    {w : Wrapper σ} {fuel : ℕ}
    (hls : ∀ l ∈ ls, l ≠ [] ∧ (∀ c ∈ l, isEol c = false) ∧ l.length < Wrapper.bufSz)
    (hparse : ls.map parseCommand = cmds.map some) (hc : w.closed = false)
    (hp : w.conn.ReadsProgress) (hw : w.conn.WritesAll k) (hk : 1 ≤ k)
    (hr : ∀ rs ∈ (runCommands svc codec cmds w.server).1, ∀ r ∈ rs, r.toList.length ≤ k)
    (hin : buffer ++ w.conn.input = ls.flatMap (· ++ ['\n']))
    (hb : ∀ c ∈ buffer, isEol c = false) (hfuel : w.conn.input.length < fuel) :
    ∃ w', Wrapper.handle svc codec fuel buffer w =
        some (.error "Failed to read data from remote end", w') ∧
      w'.server = (runCommands svc codec cmds w.server).2 ∧ w'.conn.input = [] ∧
      w'.conn.output = w.conn.output ++
        ((runCommands svc codec cmds w.server).1.map (·.flatMap (·.toList ++ ['\n']))).flatten := by
  induction fuel generalizing ls cmds buffer w with
  | zero => omega
  | succ fuel ih =>
    -- the buffer holds the start of a line, shorter than the buffer: it is never full
    have hbl := buffer_lt_bufSz (fun l hl => (hls l hl).2.2) hin hb
    rw [Wrapper.handle, if_neg (by omega)]
    dsimp only
    by_cases hnil : w.conn.input = []
    · -- the peer has closed the connection: every line came before
      obtain rfl := lines_nil_of_no_eol (by rwa [hnil, List.append_nil] at hin) hb
      obtain rfl : cmds = [] := List.map_eq_nil_iff.mp hparse.symm
      obtain ⟨h0, hi⟩ := Fd.read_of_input_nil hnil (k := Wrapper.bufSz - buffer.length)
      rw [if_pos h0]
      exact ⟨_, rfl, rfl, hi, by simp [runCommands]⟩
    -- a read brings bytes: the lines they complete are served, the loop goes on with the rest
    obtain ⟨hfst, hpos⟩ := Fd.read_of_progress hp (k := Wrapper.bufSz - buffer.length) (by omega)
      hnil
    rw [if_neg (by omega)]
    set c := w.conn.read (Wrapper.bufSz - buffer.length)
    have hall : c.2.1 ++ c.2.2.input = w.conn.input := Fd.read_append_input
    have hlen := congrArg List.length hall
    rw [List.length_append] at hlen
    obtain ⟨j, part, hg, hpart, hno⟩ := getReplies_prefix
      (fun l hl => ⟨(hls l hl).1, (hls l hl).2.1⟩)
      (show (buffer ++ c.2.1) ++ c.2.2.input = ls.flatMap (· ++ ['\n']) by
        rw [List.append_assoc, hall, hin])
    rw [hg]
    have hsplit : runCommands svc codec (cmds.take j ++ cmds.drop j) w.server = _ :=
      runCommands_append _ _ _
    rw [List.take_append_drop] at hsplit
    rw [hsplit] at hr ⊢
    obtain ⟨w₁, hs, hsrv, hcl, hout, hi₁, hl₁⟩ := serveLines_commands
      (by rw [List.map_take, hparse, List.map_take]) (w := { w with conn := c.2.2 }) hc
      (hw.later Fd.later_read) hk (fun rs hrs => hr rs (List.mem_append_left _ hrs))
    rw [hs]
    dsimp only
    obtain ⟨w', h, hsrv', hi', hout'⟩ := @ih (ls.drop j) (cmds.drop j) part w₁
      (fun l hl => hls l (List.mem_of_mem_drop hl)) (by rw [List.map_drop, hparse, List.map_drop])
      hcl ((hp.later Fd.later_read).later hl₁) ((hw.later Fd.later_read).later hl₁)
      (by rw [hsrv]; exact fun rs hrs => hr rs (List.mem_append_right _ hrs))
      (by rw [hi₁]; exact hpart) hno (by rw [hi₁]; show c.2.2.input.length < fuel; omega)
    refine ⟨w', h, by rw [hsrv', hsrv], hi', ?_⟩
    rw [hout', hout, hsrv, Fd.read_output]
    simp

end Wrapper

/-! ## The calls of a session -/

/-- What a call of the service interface returns. -/
inductive Answer (α : Type) where
  /-- `listPath`: the entries. -/
  | paths (entries : List String)
  /-- `requestFileWrite`, `requestFileRead`: the UUID, and the position or the bytes left. -/
  | transfer (uuid : Uuid) (pos : ℤ)
  /-- `dataChannelAddr`: the data addresses. -/
  | addrs (addrs : List α)
  /-- `removeUUID`, `sendFile`. -/
  | flag (b : Bool)

/-- A call of the service interface with the arguments the client passes; `om` is the open mode of
`requestFileWrite` as its `operator<<` writes it. -/
inductive Call (α : Type) where
  | listPath (path : String)
  | requestFileWrite (file om : String)
  | requestFileRead (file : String) (alreadyHave : ℤ)
  | dataChannelAddr
  | removeUUID (uuid : Uuid)
  | sendFile (srcUUID dstUUID : Uuid) (todo : ℤ) (dataAddrs : List α)

namespace Call

/-- The message the call of `ETDProxy` writes on the control connection. -/
def msg (codec : Codec α) : Call α → String
  | listPath path => "list " ++ path ++ "\n"
  | requestFileWrite file om => "write-file-" ++ om ++ " " ++ file ++ "\n"
  | requestFileRead file n => "read-file " ++ toString n ++ " " ++ file ++ "\n"
  | dataChannelAddr => "data-channel-addr\n"
  | removeUUID uuid => "remove-uuid " ++ uuid ++ "\n"
  | sendFile src dst todo addrs => sendFileLine codec src dst todo addrs

/-- The message without its `\n`: the line the wrapper matches. -/
def line (codec : Codec α) : Call α → List Char
  | listPath path => "list ".toList ++ path.toList
  | requestFileWrite file om => "write-file-".toList ++ om.toList ++ ' ' :: file.toList
  | requestFileRead file n => "read-file ".toList ++ (toString n).toList ++ ' ' :: file.toList
  | dataChannelAddr => "data-channel-addr".toList
  | removeUUID uuid => "remove-uuid ".toList ++ uuid.toList
  | sendFile src dst todo addrs => "send-file ".toList ++ src.toList ++ ' ' :: (dst.toList ++
      ' ' :: ((toString todo).toList ++ ' ' :: (",".intercalate (addrs.map codec.showAddr)).toList))

/-- The wrapper's command for the call's line, with the groups its pattern captures. -/
def command (codec : Codec α) : Call α → Command
  | listPath path => .list path
  | requestFileWrite file om => .requestFileWrite om file
  | requestFileRead file n => .requestFileRead (toString n) file
  | dataChannelAddr => .dataChannelAddr
  | removeUUID uuid => .removeUUID uuid
  | sendFile src dst todo addrs =>
    .sendFile src dst (toString todo) (",".intercalate (addrs.map codec.showAddr))

/-- The call made on the server directly, the open mode being the one the wrapper reads back:
the result and the server's state after. -/
def direct (svc : Service σ α) (codec : Codec α) (c : Call α) (st : σ) :
    Except String (Answer α) × σ :=
  match c with
  | listPath path => ((svc.listPath path st).1.map .paths, (svc.listPath path st).2)
  | requestFileWrite file om =>
    let r := svc.requestFileWrite file (codec.readOpenMode om) st
    (r.1.map fun (u, n) => .transfer u n, r.2)
  | requestFileRead file n =>
    let r := svc.requestFileRead file n st
    (r.1.map fun (u, n) => .transfer u n, r.2)
  | dataChannelAddr => ((svc.dataChannelAddr st).1.map .addrs, (svc.dataChannelAddr st).2)
  | removeUUID uuid => ((svc.removeUUID uuid st).1.map .flag, (svc.removeUUID uuid st).2)
  | sendFile src dst todo addrs =>
    let r := svc.sendFile src dst todo addrs st
    (r.1.map .flag, r.2)

/-- The call made through a proxy on the connection `conn`, `fuel` bounding the reads of the
calls whose reply has several lines. -/
def proxied (codec : Codec α) (c : Call α) (fuel : ℕ) (conn : Fd) :
    Option (Except String (Answer α) × Fd) :=
  match c with
  | listPath path => (EtdProxy.listPath path fuel conn).map fun (r, c') => (r.map .paths, c')
  | requestFileWrite file om =>
    (EtdProxy.requestFileWrite file om fuel conn).map fun (r, c') =>
      (r.map fun (u, n) => .transfer u n, c')
  | requestFileRead file n =>
    (EtdProxy.requestFileRead file n fuel conn).map fun (r, c') =>
      (r.map fun (u, n) => .transfer u n, c')
  | dataChannelAddr => (EtdProxy.dataChannelAddr codec fuel conn).map fun (r, c') => (r.map .addrs, c')
  | removeUUID uuid => some ((Proxy.removeUUID uuid conn).1.map .flag, (Proxy.removeUUID uuid conn).2)
  | sendFile src dst todo addrs =>
    let r := Proxy.sendFile codec src dst todo addrs conn
    some (r.1.map .flag, r.2)

/-- What the proxy makes of the result of a call that returns a `bool`: `true` stays, `false`
becomes an error with the text of the wrapper's `ERR` line, an error keeps its text; `failed`
heads both errors. -/
def flagThrough (failed falseText : String) : Except String (Answer α) → Except String (Answer α)
  | .ok (.flag false) => .error (failed ++ " " ++ falseText)
  | .error e => .error (failed ++ " " ++ e)
  | r => r

/-- What the proxy returns for a call whose direct result is `r`. -/
def expected : Call α → Except String (Answer α) → Except String (Answer α)
  | listPath path, r => r.mapError ("listPath(" ++ path ++ ") failed - " ++ ·)
  | requestFileWrite file _, r => r.mapError ("requestFileWrite(" ++ file ++ ") failed - " ++ ·)
  | requestFileRead file _, r => r.mapError ("requestFileRead(" ++ file ++ ") failed - " ++ ·)
  | dataChannelAddr, r => r.mapError ("dataChannelAddr() failed - " ++ ·)
  | removeUUID _, r => flagThrough "removeUUID failed: " "Failed to remove UUID" r
  | sendFile .., r => flagThrough "sendFile failed - " "Failed to send file" r

/-- A call whose arguments the channel carries whole: its line fits the wrapper's buffer; paths and
file names start with no blank and hold no line end; UUIDs and the open mode are words; counts are
`off_t` values that are not negative; data addresses are words the wrapper decodes back. -/
def WellFormed (codec : Codec α) (c : Call α) : Prop :=
  (c.line codec).length < Wrapper.bufSz ∧
    match c with
    | listPath path => isEntry path.toList = true
    | requestFileWrite file om => isWord om.toList = true ∧ isEntry file.toList = true
    | requestFileRead file n => 0 ≤ n ∧ n < 2 ^ 63 ∧ isEntry file.toList = true
    | dataChannelAddr => True
    | removeUUID uuid => isWord uuid.toList = true
    | sendFile src dst todo addrs => isWord src.toList = true ∧ isWord dst.toList = true ∧
        0 ≤ todo ∧ todo < 2 ^ 63 ∧ addrs ≠ [] ∧ ∀ a ∈ addrs, Carries codec a

/-- A call whose result, on the server in the state `st`, its reply carries back whole. -/
def Fits (svc : Service σ α) (codec : Codec α) (c : Call α) (st : σ) : Prop :=
  match c with
  | listPath path => listFits 16384 (svc.listPath path st).1 = true
  | requestFileWrite file om =>
    fieldsFit 0 (svc.requestFileWrite file (codec.readOpenMode om) st).1 = true
  | requestFileRead file n => fieldsFit (-2 ^ 63) (svc.requestFileRead file n st).1 = true
  | dataChannelAddr => AddrsFit codec (svc.dataChannelAddr st).1
  | removeUUID uuid => replyFits "Failed to remove UUID" (svc.removeUUID uuid st).1 = true
  | sendFile src dst todo addrs =>
    replyFits "Failed to send file" (svc.sendFile src dst todo addrs st).1 = true

end Call

/-- The calls made on the server directly, in order from `st`: their results and the state after
them. -/
def runCalls (svc : Service σ α) (codec : Codec α) :
    List (Call α) → σ → List (Except String (Answer α)) × σ
  | [], st => ([], st)
  | c :: cs, st =>
    let rest := runCalls svc codec cs (c.direct svc codec st).2
    ((c.direct svc codec st).1 :: rest.1, rest.2)

/-- Every call's result, on the server in the state the calls before it leave, comes back whole. -/
def FitsAlong (svc : Service σ α) (codec : Codec α) : List (Call α) → σ → Prop
  | [], _ => True
  | c :: cs, st => c.Fits svc codec st ∧ FitsAlong svc codec cs (c.direct svc codec st).2

/-- What the proxy reads back of a call's reply `reply`: whatever its reads, once the call's message
is written whole, the call returns what the proxy makes of the direct result `res`. -/
def Call.ReadsBack (codec : Codec α) (c : Call α) (res : Except String (Answer α))
    (reply : List Char) : Prop :=
  ∀ (pc : Fd) (pfuel : ℕ), pc.WritesAll (c.msg codec).toList.length → pc.ReadsProgress →
    pc.input = reply → pc.input.length < pfuel →
    (c.proxied codec pfuel pc).map Prod.fst = some (c.expected res)

/-! ## One call through both ends -/

section OneCall

variable {svc : Service σ α} {codec : Codec α} {c : Call α} {st : σ}

namespace Call

/-- Each message is its line and a `\n`. -/
theorem msg_toList (c : Call α) : (c.msg codec).toList = c.line codec ++ ['\n'] := by
  cases c <;> simp [msg, line, sendFileLine, String.toList, String.data_append]

/-- The line of a well-formed call is not empty, holds no line end, and is the wrapper's command
for the call. -/
theorem line_spec (hwf : c.WellFormed codec) :
    c.line codec ≠ [] ∧ (∀ ch ∈ c.line codec, isEol ch = false) ∧
      parseCommand (c.line codec) = some (c.command codec) := by
  obtain ⟨-, h⟩ := hwf
  cases c with
  | listPath path =>
    exact ⟨List.append_ne_nil_of_left_ne_nil (by decide) _,
      List.forall_mem_append.mpr ⟨by decide, noEol_of_isEntry h⟩, parseCommand_list h⟩
  | requestFileWrite file om =>
    exact ⟨List.append_ne_nil_of_left_ne_nil (List.append_ne_nil_of_left_ne_nil (by decide) _) _,
      List.forall_mem_append.mpr ⟨List.forall_mem_append.mpr ⟨by decide, isWord_noEol h.1⟩,
        List.forall_mem_cons.mpr ⟨rfl, noEol_of_isEntry h.2⟩⟩,
      parseCommand_requestFileWrite h.1 h.2⟩
  | requestFileRead file n =>
    obtain ⟨h0, -, hf⟩ := h
    obtain ⟨k, rfl⟩ := Int.eq_ofNat_of_zero_le h0
    exact ⟨List.append_ne_nil_of_left_ne_nil (List.append_ne_nil_of_left_ne_nil (by decide) _) _,
      List.forall_mem_append.mpr ⟨List.forall_mem_append.mpr ⟨by decide, toString_noEol (k : ℤ)⟩,
        List.forall_mem_cons.mpr ⟨rfl, noEol_of_isEntry hf⟩⟩,
      parseCommand_requestFileRead hf⟩
  | dataChannelAddr =>
    exact ⟨show "data-channel-addr".toList ≠ [] by decide,
      show ∀ ch ∈ "data-channel-addr".toList, isEol ch = false by decide, parseCommand_dataChannelAddr⟩
  | removeUUID uuid =>
    exact ⟨List.append_ne_nil_of_left_ne_nil (by decide) _,
      List.forall_mem_append.mpr ⟨by decide, isWord_noEol h⟩, parseCommand_removeUUID h⟩
  | sendFile src dst todo addrs =>
    obtain ⟨hsrc, hdst, h0, -, hne, hcar⟩ := h
    obtain ⟨k, rfl⟩ := Int.eq_ofNat_of_zero_le h0
    have haddrs := isWord_intercalate_addrs hne hcar
    exact ⟨List.append_ne_nil_of_left_ne_nil (List.append_ne_nil_of_left_ne_nil (by decide) _) _,
      sendFile_fields_noEol hsrc hdst haddrs, parseCommand_sendFile hsrc hdst (toDigits_spec k).2.1
        (fun c hc => ((toDigits_spec k).2.2 c hc).1) haddrs⟩

/-- The wrapper's command for a well-formed call leaves the server as the direct call does. -/
theorem command_run_snd (hwf : c.WellFormed codec) (st : σ) :
    ((c.command codec).run svc codec st).2 = (c.direct svc codec st).2 := by
  obtain ⟨-, h⟩ := hwf
  cases c with
  | requestFileRead file n =>
    obtain ⟨h0, hn, -⟩ := h
    obtain ⟨k, rfl⟩ := Int.eq_ofNat_of_zero_le h0
    simp only [command, direct, Command.run,
      show toString (k : ℤ) = String.mk (Nat.toDigits 10 k) from rfl,
      string2offT_toDigits (show k < 2 ^ 63 by omega), errReply_snd]
  | removeUUID uuid => exact congrArg Prod.snd (run_removeUUID st uuid)
  | sendFile src dst todo addrs =>
    obtain ⟨-, -, h0, hn, hne, hcar⟩ := h
    obtain ⟨k, rfl⟩ := Int.eq_ofNat_of_zero_le h0
    exact congrArg Prod.snd (run_sendFile st src dst (show k < 2 ^ 63 by omega) hne hcar)
  | _ => exact errReply_snd _ _

/-- The wrapper's replies to a well-formed call whose result fits: lines of at most 16 KiB. -/
theorem command_replies_le (hwf : c.WellFormed codec) (hfit : c.Fits svc codec st) :
    ∀ r ∈ ((c.command codec).run svc codec st).1, r.toList.length ≤ 16384 := by
  obtain ⟨-, h⟩ := hwf
  have h2048 : ∀ {rs : List String}, (∀ r ∈ rs, r.toList.length ≤ 2048) →
      ∀ r ∈ rs, r.toList.length ≤ 16384 := fun h r hr => (h r hr).trans (by decide)
  have hbool : ∀ {t : String} {res : Except String Bool}, replyFits t res = true →
      ∀ r ∈ [boolReply t res], r.toList.length ≤ 16384 := fun hf r hr => by
    rw [List.mem_singleton.mp hr]
    exact (boolReply_line hf).2.2.le.trans (by decide)
  cases c with
  | listPath path => exact list_replies_le hfit
  | requestFileWrite file om => exact h2048 (requestFileWrite_replies_le hfit)
  | requestFileRead file n =>
    obtain ⟨h0, hn, -⟩ := h
    obtain ⟨k, rfl⟩ := Int.eq_ofNat_of_zero_le h0
    exact h2048 (requestFileRead_replies_le (show k < 2 ^ 63 by omega) hfit)
  | dataChannelAddr => exact h2048 (dataChannelAddr_replies_le hfit)
  | removeUUID uuid => rw [command, run_removeUUID]; exact hbool hfit
  | sendFile src dst todo addrs =>
    obtain ⟨-, -, h0, hn, hne, hcar⟩ := h
    obtain ⟨k, rfl⟩ := Int.eq_ofNat_of_zero_le h0
    have hrun : (Command.sendFile src dst (toString (k : ℤ))
        (",".intercalate (addrs.map codec.showAddr))).run svc codec st = _ :=
      run_sendFile st src dst (show k < 2 ^ 63 by omega) hne hcar
    rw [command, hrun]
    exact hbool hfit

/-- The result of a call of several reply lines, as the proxy gives it, seen as an answer. -/
theorem map_fst_map {β : Type} {o : Option (Except String β × Fd)} {r : Except String β}
    {f : String → String} {g : β → Answer α} (h : o.map Prod.fst = some (r.mapError f)) :
    (o.map fun (x, c') => (x.map g, c')).map Prod.fst = some ((r.map g).mapError f) := by
  cases o with
  | none => cases h
  | some p =>
    simp only [Option.map_some', Option.some.injEq] at h ⊢
    rw [h]
    cases r <;> rfl

/-- What the proxy makes of a `bool` result, seen as an answer. -/
theorem flagThrough_map (failed falseText : String) (r : Except String Bool) :
    flagThrough failed falseText (r.map .flag : Except String (Answer α)) =
      (throughProxy failed falseText r).map .flag := by
  rcases r with e | _ | _ <;> rfl

/-- **The proxy reads back the server's result.** The wrapper's reply to a well-formed call whose
result fits, read by the proxy's call however it is split, gives what the proxy makes of the
direct call's result. -/
theorem reads_back (hwf : c.WellFormed codec) (hfit : c.Fits svc codec st) :
    c.ReadsBack codec (c.direct svc codec st).1
      (((c.command codec).run svc codec st).1.flatMap (·.toList ++ ['\n'])) := by
  intro pc pfuel hpw hpp hin hpf
  obtain ⟨-, h⟩ := hwf
  cases c with
  | listPath path => exact map_fst_map (listPath_reads_reply hfit hpw hpp hin hpf)
  | requestFileWrite file om => exact map_fst_map (requestFileWrite_reads_reply hfit hpw hpp hin hpf)
  | requestFileRead file n =>
    obtain ⟨h0, hn, -⟩ := h
    obtain ⟨k, rfl⟩ := Int.eq_ofNat_of_zero_le h0
    exact map_fst_map (requestFileRead_reads_reply (show k < 2 ^ 63 by omega) hfit hpw hpp hin hpf)
  | dataChannelAddr => exact map_fst_map (dataChannelAddr_reads_reply hfit hpw hpp hin hpf)
  | removeUUID uuid =>
    rw [command, run_removeUUID] at hin
    have hpw' : pc.WritesAll ("remove-uuid " ++ uuid ++ "\n").toList.length := hpw
    simp only [proxied, expected, direct, Option.map_some', flagThrough_map]
    rw [Proxy.removeUUID, command_reads_boolReply hfit hpw' hpp hin]
  | sendFile src dst todo addrs =>
    obtain ⟨-, -, h0, hn, hne, hcar⟩ := h
    obtain ⟨k, rfl⟩ := Int.eq_ofNat_of_zero_le h0
    have hrun : (Command.sendFile src dst (toString (k : ℤ))
        (",".intercalate (addrs.map codec.showAddr))).run svc codec st = _ :=
      run_sendFile st src dst (show k < 2 ^ 63 by omega) hne hcar
    rw [command, hrun] at hin
    have hpw' : pc.WritesAll (sendFileLine codec src dst k addrs).toList.length := hpw
    simp only [proxied, expected, direct, Option.map_some', flagThrough_map]
    rw [proxy_sendFile_eq, command_reads_boolReply hfit hpw' hpp hin]

end Call

end OneCall

/-! ## A whole session -/

section Session

variable {svc : Service σ α} {codec : Codec α}

/-- The commands of a session's calls, run on the server, leave it as the direct calls do; every
reply line fits a write of 16 KiB; and the proxy reads back each call's direct result from the
call's reply. -/
theorem runCommands_calls {cs : List (Call α)} (hwf : ∀ c ∈ cs, c.WellFormed codec) (st : σ)
    (hfit : FitsAlong svc codec cs st) :
    (runCommands svc codec (cs.map (Call.command codec)) st).2 = (runCalls svc codec cs st).2 ∧
      (∀ rs ∈ (runCommands svc codec (cs.map (Call.command codec)) st).1, ∀ r ∈ rs,
        r.toList.length ≤ 16384) ∧
      List.Forall₂ (fun (cr : Call α × Except String (Answer α)) reply => cr.1.ReadsBack codec cr.2 reply)
        (cs.zip (runCalls svc codec cs st).1)
        ((runCommands svc codec (cs.map (Call.command codec)) st).1.map
          (·.flatMap (·.toList ++ ['\n']))) := by
  induction cs generalizing st with
  | nil => exact ⟨rfl, by simp [runCommands], by simp [runCommands, runCalls]⟩
  | cons c cs ih =>
    have hc := hwf c (List.mem_cons_self _ _)
    obtain ⟨hst, hr, hrb⟩ := ih (fun c' h' => hwf c' (List.mem_cons_of_mem _ h')) _ hfit.2
    simp only [List.map_cons, runCommands, runCalls, Call.command_run_snd hc, List.zip_cons_cons,
      List.forall₂_cons, List.mem_cons]
    refine ⟨hst, ?_, Call.reads_back hc hfit.1, hrb⟩
    rintro rs (rfl | hrs)
    · exact Call.command_replies_le hc hfit.1
    · exact hr rs hrs

/-- **A session through a proxy and a wrapper is the session on the server.** Take calls whose
arguments the channel carries whole and whose results, on the server in the state the calls before
leave, the replies carry back whole. The proxy writes their messages in turn; however they reach
the wrapper in reads, the wrapper, over a connection that takes whole writes of 16 KiB, runs them in
order and fails on its read once the client has closed the connection. Its server is then in the
state the direct calls leave, and it has written one reply per call, in order; the proxy, reading a
call's reply however it is split, returns what it makes of the call's direct result: the same
value, an error after the call's prefix, a `false` of `removeUUID` or `sendFile` turned into the
error of the wrapper's `ERR` line. -/
theorem session_through_proxy {cs : List (Call α)} {w : Wrapper σ} {fuel : ℕ}
    (hwf : ∀ c ∈ cs, c.WellFormed codec) (hfit : FitsAlong svc codec cs w.server)
    (hc : w.closed = false) (hp : w.conn.ReadsProgress) (hw : w.conn.WritesAll 16384)
    (hin : w.conn.input = cs.flatMap fun c => (c.msg codec).toList)
    (hfuel : w.conn.input.length < fuel) :
    ∃ w' replies, Wrapper.handle svc codec fuel [] w =
        some (.error "Failed to read data from remote end", w') ∧
      w'.server = (runCalls svc codec cs w.server).2 ∧
      w'.conn.output = w.conn.output ++ replies.flatten ∧
      List.Forall₂ (fun (cr : Call α × Except String (Answer α)) reply => cr.1.ReadsBack codec cr.2 reply)
        (cs.zip (runCalls svc codec cs w.server).1) replies := by
  obtain ⟨hst, hr, hrb⟩ := runCommands_calls hwf w.server hfit
  have hls : ∀ l ∈ cs.map (Call.line codec),
      l ≠ [] ∧ (∀ ch ∈ l, isEol ch = false) ∧ l.length < Wrapper.bufSz := by
    simp only [List.mem_map]
    rintro l ⟨c, hmem, rfl⟩
    obtain ⟨hne, hle, -⟩ := Call.line_spec (hwf c hmem)
    exact ⟨hne, hle, (hwf c hmem).1⟩
  have hparse : (cs.map (Call.line codec)).map parseCommand = (cs.map (Call.command codec)).map some := by
    simp only [List.map_map]
    exact List.map_congr_left fun c hmem => (Call.line_spec (hwf c hmem)).2.2
  obtain ⟨w', h, hsrv, -, hout⟩ := handle_commands hls hparse hc hp hw (by decide) hr
    (by rw [List.nil_append, hin, List.flatMap_map]; simp only [Call.msg_toList]) (by simp) hfuel
  exact ⟨w', _, h, hsrv.trans hst, hout, hrb⟩

/-- A session of two calls on a host whose files open, its commands read one byte at a time:
`requestFileWrite` creates the server's record, and `removeUUID` returns `true` because it finds
that record and erases it. -/
theorem session_through_proxy_write_remove :
    let svc := etdServer "U" (⟨id, fun _ => [], fun _ _ => .ok 0, fun _ => .ok 0, fun _ _ => none,
      [], closedDial, closedConn⟩ : Host Unit)
    let codec : Codec Unit := ⟨fun _ => .new, fun _ => .ok (), fun _ => ""⟩
    let cs := [Call.requestFileWrite "/f" "n", Call.removeUUID "U"]
    let conn := byteStream "write-file-n /f\nremove-uuid U\n".toList
    runCalls svc codec cs (TransferMap.empty, 0) =
        ([.ok (.transfer "U" 0), .ok (.flag true)], (TransferMap.empty, 1)) ∧
      (∀ c ∈ cs, c.WellFormed codec) ∧ FitsAlong svc codec cs (TransferMap.empty, 0) ∧
      conn.ReadsProgress ∧ conn.WritesAll 16384 ∧
      ∃ w' replies, Wrapper.handle svc codec 40 [] ⟨(TransferMap.empty, 0), conn, false⟩ =
          some (.error "Failed to read data from remote end", w') ∧
        w'.server = (runCalls svc codec cs (TransferMap.empty, 0)).2 ∧
        w'.conn.output = replies.flatten ∧
        List.Forall₂ (fun (cr : Call Unit × Except String (Answer Unit)) reply =>
            cr.1.ReadsBack codec cr.2 reply)
          (cs.zip (runCalls svc codec cs (TransferMap.empty, 0)).1) replies := by
  intro svc codec cs conn
  have hwf : ∀ c ∈ cs, c.WellFormed codec := by
    simp only [cs, List.mem_cons, List.mem_singleton, List.not_mem_nil, or_false]
    rintro c (rfl | rfl)
    · exact ⟨by decide, by decide, by decide⟩
    · exact ⟨by decide, by decide⟩
  have hfit : FitsAlong svc codec cs (TransferMap.empty, 0) := ⟨rfl, rfl, trivial⟩
  have hp : conn.ReadsProgress := fun _ _ => le_rfl
  have hw : conn.WritesAll 16384 := fun _ _ => show ((16384 : ℕ) : ℤ) ≤ EtdLockProtocol.bufSz by decide
  exact ⟨rfl, hwf, hfit, hp, hw, session_through_proxy hwf hfit rfl hp hw rfl (by decide)⟩

end Session

end ETransfer.EtdSession
