import ETransfer.EtdLockProtocol

/-!
# The data path: `push_n`, `pull_n` and the data phases of `sendFile` and `getFile`

A descriptor (`etdc_fd`, a socket or a file) is seen through `read` and `write` only, and what
each call returns is the environment's choice, fixed call by call: so what is proved here holds
for every way a transport splits a stream and for every failure it reports. A C++ `char` is a
Lean `Char`; `size_t` arithmetic is done modulo `2^64`. The loops that need not end (the receive
loop of `getFile`, `pull_n` once its count has wrapped) take fuel and give `none` when it runs out.

Proved: the copy loop shared by `push_n` and `sendFile` moves exactly its count from a regular
file, and `pull_n` writes exactly the buffered bytes and then the rest of its count when the
buffered bytes do not outnumber the count. Against the documented contract: `pull_n` flushes
every buffered byte even past its count, `sendFile` reports success whatever its header write and
its acknowledgement read returned, and the receive loop of `getFile` spins on reads of `0` bytes
and writes past `todo` when a read brings more.
-/

namespace ETransfer.EtdDataPath

open EtdRegistry EtdLockProtocol

/-- An `etdc_fd` as the daemon uses it. The `i`-th `read` of `k` bytes returns the first
`min (readSizes i) k` bytes of `input`, or `-1` when `readSizes i` is negative; the `i`-th
`write` accepts the first `writeSizes i` bytes it is given, or returns `-1` when negative. -/
structure Fd where
  /-- What later reads return: the peer's stream, or the file's bytes from its position on. -/
  input : List Char
  /-- The environment's bound on the `i`-th read. -/
  readSizes : ℕ → ℤ
  /-- The environment's bound on the `i`-th write. -/
  writeSizes : ℕ → ℤ
  /-- Reads made so far. -/
  nReads : ℕ := 0
  /-- Writes made so far. -/
  nWrites : ℕ := 0
  /-- Every byte written so far, in order. -/
  output : List Char := []
  /-- What `etdc::strerror(errno)` says after a failed call. -/
  errorText : String := ""

namespace Fd

variable (f : Fd) (k : ℕ) (bs : List Char)

/-- `fd->read(fd->__m_fd, buf, k)`: the count returned, the bytes, and the descriptor after. -/
def read : ℤ × List Char × Fd :=
  if f.readSizes f.nReads < 0 then (-1, [], { f with nReads := f.nReads + 1 })
  else
    let j := min (f.readSizes f.nReads).toNat k
    ((f.input.take j).length, f.input.take j,
      { f with input := f.input.drop j, nReads := f.nReads + 1 })

/-- `fd->write(fd->__m_fd, bs.data(), bs.size())`: the count returned and the descriptor after. -/
def write : ℤ × Fd :=
  if f.writeSizes f.nWrites < 0 then (-1, { f with nWrites := f.nWrites + 1 })
  else
    ((bs.take (f.writeSizes f.nWrites).toNat).length,
      { f with output := f.output ++ bs.take (f.writeSizes f.nWrites).toNat,
               nWrites := f.nWrites + 1 })

@[simp] theorem read_readSizes : (f.read k).2.2.readSizes = f.readSizes := by
  unfold read; split <;> rfl

@[simp] theorem read_writeSizes : (f.read k).2.2.writeSizes = f.writeSizes := by
  unfold read; split <;> rfl

@[simp] theorem read_output : (f.read k).2.2.output = f.output := by
  unfold read; split <;> rfl

@[simp] theorem read_nReads : (f.read k).2.2.nReads = f.nReads + 1 := by
  unfold read; split <;> rfl

@[simp] theorem read_nWrites : (f.read k).2.2.nWrites = f.nWrites := by
  unfold read; split <;> rfl

@[simp] theorem write_readSizes : (f.write bs).2.readSizes = f.readSizes := by
  unfold write; split <;> rfl

@[simp] theorem write_writeSizes : (f.write bs).2.writeSizes = f.writeSizes := by
  unfold write; split <;> rfl

@[simp] theorem write_input : (f.write bs).2.input = f.input := by
  unfold write; split <;> rfl

@[simp] theorem write_nReads : (f.write bs).2.nReads = f.nReads := by
  unfold write; split <;> rfl

@[simp] theorem write_nWrites : (f.write bs).2.nWrites = f.nWrites + 1 := by
  unfold write; split <;> rfl

/-- From now on, reads of up to `k` bytes are bounded only by the data at hand, as on a regular
file. -/
def ReadsFull : Prop := ∀ i ≥ f.nReads, (k : ℤ) ≤ f.readSizes i

/-- From now on, every read returns at least one byte while data is pending, as on a stream
socket. -/
def ReadsProgress : Prop := ∀ i ≥ f.nReads, 1 ≤ f.readSizes i

/-- From now on, writes of up to `k` bytes are accepted whole. -/
def WritesAll : Prop := ∀ i ≥ f.nWrites, (k : ℤ) ≤ f.writeSizes i

/-- `f'` is `f` after more reads and writes: the environment's answers are the same, the counts
have grown and the output has grown at its end only. -/
structure Later (f' : Fd) : Prop where
  readSizes : f'.readSizes = f.readSizes
  writeSizes : f'.writeSizes = f.writeSizes
  nReads : f.nReads ≤ f'.nReads
  nWrites : f.nWrites ≤ f'.nWrites
  output : f.output <+: f'.output

variable {f k bs} {f' f'' : Fd}

theorem Later.rfl : f.Later f := ⟨Eq.refl _, Eq.refl _, le_rfl, le_rfl, List.prefix_refl _⟩

theorem Later.trans (h : f.Later f') (h' : f'.Later f'') : f.Later f'' :=
  ⟨h'.readSizes.trans h.readSizes, h'.writeSizes.trans h.writeSizes, h.nReads.trans h'.nReads,
    h.nWrites.trans h'.nWrites, h.output.trans h'.output⟩

theorem later_read : f.Later (f.read k).2.2 :=
  ⟨read_readSizes _ _, read_writeSizes _ _, by simp, by simp, by simp⟩

theorem later_write : f.Later (f.write bs).2 := by
  refine ⟨write_readSizes _ _, write_writeSizes _ _, by simp, by simp, ?_⟩
  unfold write; split
  · exact List.prefix_refl _
  · exact List.prefix_append _ _

theorem ReadsFull.later (hf : f.ReadsFull k) (h : f.Later f') : f'.ReadsFull k :=
  fun i hi => by rw [h.readSizes]; exact hf i (h.nReads.trans hi)

theorem ReadsProgress.later (hp : f.ReadsProgress) (h : f.Later f') : f'.ReadsProgress :=
  fun i hi => by rw [h.readSizes]; exact hp i (h.nReads.trans hi)

theorem WritesAll.later (hw : f.WritesAll k) (h : f.Later f') : f'.WritesAll k :=
  fun i hi => by rw [h.writeSizes]; exact hw i (h.nWrites.trans hi)

theorem WritesAll.mono {k' : ℕ} (hw : f.WritesAll k) (hk : k' ≤ k) : f.WritesAll k' :=
  fun i hi => le_trans (by exact_mod_cast hk) (hw i hi)

/-- `f'` is `f` after reads only: nothing was written to it. -/
structure ReadsOnly (f f' : Fd) : Prop where
  output : f'.output = f.output
  nWrites : f'.nWrites = f.nWrites

/-- `f'` is `f` after writes only: nothing was read from it. -/
structure WritesOnly (f f' : Fd) : Prop where
  input : f'.input = f.input
  nReads : f'.nReads = f.nReads

theorem ReadsOnly.rfl : f.ReadsOnly f := ⟨Eq.refl _, Eq.refl _⟩

theorem ReadsOnly.trans (h : f.ReadsOnly f') (h' : f'.ReadsOnly f'') : f.ReadsOnly f'' :=
  ⟨h'.output.trans h.output, h'.nWrites.trans h.nWrites⟩

theorem readsOnly_read : f.ReadsOnly (f.read k).2.2 := ⟨read_output _ _, read_nWrites _ _⟩

theorem WritesOnly.rfl : f.WritesOnly f := ⟨Eq.refl _, Eq.refl _⟩

theorem WritesOnly.trans (h : f.WritesOnly f') (h' : f'.WritesOnly f'') : f.WritesOnly f'' :=
  ⟨h'.input.trans h.input, h'.nReads.trans h.nReads⟩

theorem writesOnly_write : f.WritesOnly (f.write bs).2 := ⟨write_input _ _, write_nReads _ _⟩

section Answers

variable (hr : 0 ≤ f.readSizes f.nReads)
include hr

/-- A read that does not fail returns `j` bytes, `j` the smaller of the environment's bound and
the request, or fewer when the data runs out. -/
theorem read_bytes_of_nonneg : (f.read k).2.1 = f.input.take (min (f.readSizes f.nReads).toNat k) := by
  simp only [read, if_neg (not_lt.mpr hr)]

theorem read_input_of_nonneg :
    (f.read k).2.2.input = f.input.drop (min (f.readSizes f.nReads).toNat k) := by
  simp only [read, if_neg (not_lt.mpr hr)]

theorem read_fst_of_nonneg : (f.read k).1 = (f.read k).2.1.length := by
  simp only [read, if_neg (not_lt.mpr hr)]

theorem read_fst_nonneg : 0 ≤ (f.read k).1 := by
  rw [read_fst_of_nonneg hr]; exact Int.natCast_nonneg _

end Answers

/-- A read returns a prefix of the input and leaves the rest. -/
theorem read_bytes_eq : (f.read k).2.1 = f.input.take (f.read k).2.1.length := by
  unfold read; split
  · rfl
  · dsimp only
    generalize min (f.readSizes f.nReads).toNat k = m
    rw [List.length_take]
    by_cases h : m ≤ f.input.length
    · rw [Nat.min_eq_left h]
    · rw [Nat.min_eq_right (by omega), List.take_of_length_le (by omega),
        List.take_of_length_le (le_refl _)]

theorem read_input_eq : (f.read k).2.2.input = f.input.drop (f.read k).2.1.length := by
  unfold read; split
  · rfl
  · dsimp only
    generalize min (f.readSizes f.nReads).toNat k = m
    rw [List.length_take]
    by_cases h : m ≤ f.input.length
    · rw [Nat.min_eq_left h]
    · rw [Nat.min_eq_right (by omega), List.drop_eq_nil_of_le (by omega), List.drop_length]

/-- A read splits the input into what it returned and what is left. -/
theorem read_append_input : (f.read k).2.1 ++ (f.read k).2.2.input = f.input := by
  unfold read; split
  · rfl
  · exact List.take_append_drop _ _

theorem read_length_le : (f.read k).2.1.length ≤ k := by
  unfold read; split
  · exact Nat.zero_le _
  · simp only [List.length_take]; omega

/-- On a stream socket, a read of a positive count brings at least one byte while data is pending,
and returns the number of bytes it brought. -/
theorem read_of_progress (hp : f.ReadsProgress) (hk : 0 < k) (hin : f.input ≠ []) :
    (f.read k).1 = (f.read k).2.1.length ∧ 0 < (f.read k).2.1.length := by
  have h := hp f.nReads le_rfl
  refine ⟨read_fst_of_nonneg (by omega), ?_⟩
  have := List.length_pos.mpr hin
  rw [read_bytes_of_nonneg (by omega), List.length_take]
  omega

/-- A read that returns a positive count brings a byte. -/
theorem read_length_pos_of_pos (h : 0 < (f.read k).1) : 0 < (f.read k).2.1.length := by
  have hr : 0 ≤ f.readSizes f.nReads := by
    by_contra hneg
    simp [read, not_le.mp hneg] at h
  rw [read_fst_of_nonneg hr] at h
  exact_mod_cast h

/-- Once the peer has closed, a read brings nothing. -/
theorem read_of_input_nil (h : f.input = []) : (f.read k).1 ≤ 0 ∧ (f.read k).2.2.input = [] := by
  unfold read; split <;> simp [h]

section Regular

variable {k' : ℕ} (hf : f.ReadsFull k) (hk : k' ≤ k)
include hf hk

theorem min_toNat_of_full : min (f.readSizes f.nReads).toNat k' = k' := by
  have := hf f.nReads le_rfl; omega

/-- A read of at most `k` bytes from a regular file returns the next bytes, fewer at its end. -/
theorem read_bytes_of_full : (f.read k').2.1 = f.input.take k' := by
  rw [read_bytes_of_nonneg (by have := hf f.nReads le_rfl; omega), min_toNat_of_full hf hk]

theorem read_input_of_full : (f.read k').2.2.input = f.input.drop k' := by
  rw [read_input_of_nonneg (by have := hf f.nReads le_rfl; omega), min_toNat_of_full hf hk]

theorem read_fst_of_full : (f.read k').1 = (f.input.take k').length := by
  rw [read_fst_of_nonneg (by have := hf f.nReads le_rfl; omega), read_bytes_of_full hf hk]

end Regular

section Whole

variable (hw : f.WritesAll k) (hk : bs.length ≤ k)
include hw hk

/-- A write of at most `k` bytes to a descriptor that takes them whole. -/
theorem write_fst_of_all : (f.write bs).1 = bs.length := by
  have h := hw f.nWrites le_rfl
  simp only [write, if_neg (show ¬ f.writeSizes f.nWrites < 0 by omega),
    List.take_of_length_le (show bs.length ≤ (f.writeSizes f.nWrites).toNat by omega)]

theorem write_output_of_all : (f.write bs).2.output = f.output ++ bs := by
  have h := hw f.nWrites le_rfl
  simp only [write, if_neg (show ¬ f.writeSizes f.nWrites < 0 by omega),
    List.take_of_length_le (show bs.length ≤ (f.writeSizes f.nWrites).toNat by omega)]

end Whole

end Fd

theorem bufSz_pos : 0 < bufSz := by decide

/-- The two descriptors a transfer moves bytes between. -/
structure Ends where
  /-- The record's file. -/
  file : Fd
  /-- The data connection. -/
  conn : Fd

/-- `e'` is `e` after more reads and writes on both its descriptors. -/
structure Ends.Later (e e' : Ends) : Prop where
  file : e.file.Later e'.file
  conn : e.conn.Later e'.conn

theorem Ends.Later.rfl {e : Ends} : e.Later e := ⟨Fd.Later.rfl, Fd.Later.rfl⟩

theorem Ends.Later.trans {e e' e'' : Ends} (h : e.Later e') (h' : e'.Later e'') : e.Later e'' :=
  ⟨h.file.trans h'.file, h.conn.trans h'.conn⟩

/-- How the daemon reaches a data address: `mk_client` on it (its error text when it throws),
and how `operator<<` prints it. -/
structure Dialer (α : Type) where
  /-- `mk_client(get_protocol(addr), get_host(addr), get_port(addr))`. -/
  connect : α → Except String Fd
  /-- The address as `operator<<` writes it. -/
  showAddr : α → String

/-- The connect loop of `sendFile` and `getFile`: the first address that connects, or the error
listing every address tried with the reason it failed. -/
def connectFirst {α : Type} (dial : Dialer α) : List α → String → Except String Fd
  | [], tried => .error ("Failed to connect to any of the data servers: " ++ tried)
  | addr :: addrs, tried =>
    match dial.connect addr with
    | .ok fd => .ok fd
    | .error why => connectFirst dial addrs (tried ++ dial.showAddr addr ++ ": " ++ why ++ ", ")

variable {e : Ends} {readFail writeFail : String} {n : ℕ}

/-- The copy loop of `push_n` and of `sendFile`: while `n > 0`, read `min n bufSz` bytes from the
file and write them to the connection, each count asserted (`readFail` and `writeFail` are the
texts of the two assertions). -/
def copyOut (readFail writeFail : String) (n : ℕ) (e : Ends) : Except String Unit × Ends :=
  if 0 < n then
    let r := e.file.read (min n bufSz)
    if r.1 ≠ (min n bufSz : ℕ) then (.error readFail, { e with file := r.2.2 })
    else
      let w := e.conn.write r.2.1
      if w.1 ≠ (min n bufSz : ℕ) then (.error writeFail, ⟨r.2.2, w.2⟩)
      else copyOut readFail writeFail (n - min n bufSz) ⟨r.2.2, w.2⟩
  else (.ok (), e)
termination_by n
decreasing_by
  have : 0 < bufSz := by decide
  omega

/-- The copy loop only reads and writes its two descriptors, and it only reads the file. -/
theorem copyOut_reads_file {res : Except String Unit} {e' : Ends}
    (h : copyOut readFail writeFail n e = (res, e')) : e.Later e' ∧ e.file.ReadsOnly e'.file := by
  induction n using Nat.strong_induction_on generalizing e with
  | _ n ih =>
  rw [copyOut] at h
  dsimp only at h
  split_ifs at h with h0 hr hw
  · obtain ⟨-, rfl⟩ := Prod.mk.inj h
    exact ⟨⟨Fd.later_read, Fd.Later.rfl⟩, Fd.readsOnly_read⟩
  · obtain ⟨-, rfl⟩ := Prod.mk.inj h
    exact ⟨⟨Fd.later_read, Fd.later_write⟩, Fd.readsOnly_read⟩
  · obtain ⟨hl, hro⟩ := ih _ (by have := bufSz_pos; omega) h
    exact ⟨Ends.Later.trans ⟨Fd.later_read, Fd.later_write⟩ hl, Fd.readsOnly_read.trans hro⟩
  · obtain ⟨-, rfl⟩ := Prod.mk.inj h
    exact ⟨Ends.Later.rfl, Fd.ReadsOnly.rfl⟩

theorem copyOut_later {res : Except String Unit} {e' : Ends}
    (h : copyOut readFail writeFail n e = (res, e')) : e.Later e' :=
  (copyOut_reads_file h).1

/-- From a regular file holding at least `n` more bytes to a connection that takes whole writes,
the copy loop moves exactly the next `n` bytes of the file. -/
theorem copyOut_of_full (readFail writeFail : String) (hf : e.file.ReadsFull bufSz)
    (hc : e.conn.WritesAll bufSz) (hn : n ≤ e.file.input.length) :
    ∃ e', copyOut readFail writeFail n e = (.ok (), e') ∧ e'.file.input = e.file.input.drop n ∧
      e'.conn.output = e.conn.output ++ e.file.input.take n ∧ e'.conn.input = e.conn.input := by
  induction n using Nat.strong_induction_on generalizing e with
  | _ n ih =>
  rw [copyOut]
  by_cases h0 : 0 < n
  · have hm : min n bufSz ≤ bufSz := min_le_right _ _
    have hlen : (e.file.input.take (min n bufSz)).length = min n bufSz := by
      rw [List.length_take]; omega
    have hbytes := Fd.read_bytes_of_full hf hm
    have hw1 : (e.conn.write (e.file.read (min n bufSz)).2.1).1 = (min n bufSz : ℕ) := by
      rw [Fd.write_fst_of_all hc (Fd.read_length_le.trans hm), hbytes, hlen]
    simp only [if_pos h0, Fd.read_fst_of_full hf hm, hlen, hw1, ne_eq, not_true_eq_false, if_false]
    obtain ⟨e', h, hin, hout, hcin⟩ := ih (n - min n bufSz) (by have := bufSz_pos; omega)
      (e := ⟨(e.file.read (min n bufSz)).2.2, (e.conn.write (e.file.read (min n bufSz)).2.1).2⟩)
      (hf.later Fd.later_read) (hc.later Fd.later_write)
      (by simp only [Fd.read_input_of_full hf hm, List.length_drop]; omega)
    have hsum : min n bufSz + (n - min n bufSz) = n := by omega
    refine ⟨e', h, ?_, ?_, hcin.trans (Fd.write_input _ _)⟩
    · rw [hin, Fd.read_input_of_full hf hm, List.drop_drop, hsum]
    · rw [hout, Fd.write_output_of_all hc (Fd.read_length_le.trans hm), hbytes,
        Fd.read_input_of_full hf hm, List.append_assoc, ← List.take_add, hsum]
  · obtain rfl : n = 0 := by omega
    exact ⟨e, by simp, by simp, by simp, rfl⟩

/-- `ETDDataServer::push_n`: the copy loop from the record's file to the connection, then one byte
read from the connection as acknowledgement, its result ignored. The buffered bytes
`buf[rdPos, endPos)` are not used. -/
def pushN (n : ℕ) (e : Ends) : Except String Unit × Ends :=
  match copyOut "src->read(src->__m_fd,  &buf[0], nRead)==nRead"
      "dst->write(dst->__m_fd, &buf[0], nRead)==nRead" n e with
  | (.ok (), e') => (.ok (), { e' with conn := (e'.conn.read 1).2.2 })
  | (.error msg, e') => (.error msg, e')

/-- From a regular file holding at least `n` more bytes, over a stream that takes whole writes,
`push_n` sends exactly the next `n` bytes and then reads one byte of acknowledgement. -/
theorem pushN_of_full (hf : e.file.ReadsFull bufSz) (hc : e.conn.WritesAll bufSz)
    (hp : e.conn.ReadsProgress) (hn : n ≤ e.file.input.length) :
    ∃ e', pushN n e = (.ok (), e') ∧ e'.conn.output = e.conn.output ++ e.file.input.take n ∧
      e'.conn.input = e.conn.input.drop 1 ∧ e.Later e' := by
  obtain ⟨e₁, h, -, hout, hin⟩ := copyOut_of_full "src->read(src->__m_fd,  &buf[0], nRead)==nRead"
    "dst->write(dst->__m_fd, &buf[0], nRead)==nRead" hf hc hn
  have hl := copyOut_later h
  have hr := (hp.later hl.conn) e₁.conn.nReads le_rfl
  refine ⟨{ e₁ with conn := (e₁.conn.read 1).2.2 }, by rw [pushN, h], by simp [hout], ?_,
    ⟨hl.file, hl.conn.trans Fd.later_read⟩⟩
  rw [Fd.read_input_of_nonneg (by omega), hin]
  congr 1
  omega

/-- `push_n` only reads the record's file. -/
theorem pushN_reads_file {res : Except String Unit} {e' : Ends} (h : pushN n e = (res, e')) :
    e.file.ReadsOnly e'.file := by
  rw [pushN] at h
  split at h
  · next e₁ hc =>
    obtain ⟨-, rfl⟩ := Prod.mk.inj h
    exact (copyOut_reads_file hc).2
  · next msg e₁ hc =>
    obtain ⟨-, rfl⟩ := Prod.mk.inj h
    exact (copyOut_reads_file hc).2

/-- `size_t` values wrap modulo `2^64`. -/
def sizeMod : ℕ := 2 ^ 64

/-- What a turn of `pull_n` asks `read` for: `min(n + rdPos - wrEnd, bufSz - wrEnd)` in `size_t`,
with `wrEnd = rdPos + wlen`. -/
def pullRequest (n rdPos wlen : ℕ) : ℕ :=
  min ((n + rdPos + sizeMod - (rdPos + wlen)) % sizeMod) (bufSz - (rdPos + wlen))

/-- `ETDDataServer::pull_n` with `fuel` bounding its loop: copy `n` bytes from the connection to
the file. `window` is `buf[rdPos, wrEnd)`, the bytes the header loop read past the header; `n`
and the positions are `size_t`. Each turn reads at most `n + rdPos - wrEnd` more bytes into the
buffer (a count that wraps when the window holds more than `n`), writes the whole window out and
subtracts its length from `n`; at `n = 0` it writes the acknowledgement `'y'`, ignoring the
result. -/
def pullN : ℕ → ℕ → ℕ → List Char → Ends → Option (Except String Unit × Ends)
  | 0, _, _, _, _ => none
  | fuel + 1, n, rdPos, window, e =>
    if n = 0 then some (.ok (), { e with conn := (e.conn.write ['y']).2 })
    else
      let r := e.conn.read (pullRequest n rdPos window.length)
      if r.1 < 0 then
        some (.error ("Failed to read bytes from client - " ++ r.2.2.errorText), { e with conn := r.2.2 })
      else
        let chunk := window ++ r.2.1
        if chunk = [] then
          some (.error "No bytes read from client and no more bytes still left in buffer",
            { e with conn := r.2.2 })
        else
          let w := e.file.write chunk
          if w.1 ≠ chunk.length then
            some (.error "dst->write(dst->__m_fd, &buf[rdPos], wrEnd-rdPos)==ssize_t(wrEnd-rdPos)",
              ⟨w.2, r.2.2⟩)
          else pullN fuel ((n + sizeMod - chunk.length) % sizeMod) 0 [] ⟨w.2, r.2.2⟩

/-- A regular file holding `bs` from its position on. -/
def regularFile (bs : List Char) : Fd := ⟨bs, fun _ => bufSz, fun _ => bufSz, 0, 0, [], ""⟩

/-- A data connection that takes every write and whose peer has closed it: reads bring nothing. -/
def closedConn : Fd := regularFile []

/-- A connection that takes every write and whose reads bring one byte each. -/
def byteStream (bs : List Char) : Fd := ⟨bs, fun _ => 1, fun _ => bufSz, 0, 0, [], ""⟩

/-- A dialer whose first address connects to `closedConn`. -/
def closedDial : Dialer Unit := ⟨fun _ => .ok closedConn, fun _ => ""⟩

/-- The transfers map holding one record, of `u`, in mode `mode`. -/
def oneRecord (u : Uuid) (mode : OpenMode) : TransferMap :=
  ⟨[(u, ⟨true, "/data/f", mode, none, u, 0⟩)], List.pairwise_singleton _ _⟩

section Receiver

variable {fuel rdPos wlen : ℕ} {window : List Char} {res : Except String Unit} {e' : Ends}

/-- `a - b` in `size_t`, when it does not wrap. -/
theorem sizeSub_of_le {a b : ℕ} (hb : b ≤ a) (ha : a < sizeMod) :
    (a + sizeMod - b) % sizeMod = a - b := by
  rw [show a + sizeMod - b = a - b + sizeMod by omega, Nat.add_mod_right,
    Nat.mod_eq_of_lt (by omega)]

/-- When the window holds no more than `n` bytes, a turn asks for the rest of the count, or for
what fits in the buffer. -/
theorem pullRequest_of_le (rdPos : ℕ) (hw : wlen ≤ n) (hn : n < sizeMod) :
    pullRequest n rdPos wlen = min (n - wlen) (bufSz - (rdPos + wlen)) := by
  rw [pullRequest, show n + rdPos + sizeMod - (rdPos + wlen) = n + sizeMod - wlen by omega,
    sizeSub_of_le hw hn]

/-- At `n = 0` `pull_n` only writes the acknowledgement. -/
theorem pullN_zero (hfuel : 0 < fuel) :
    pullN fuel 0 rdPos window e = some (.ok (), { e with conn := (e.conn.write ['y']).2 }) := by
  obtain ⟨fuel, rfl⟩ : ∃ f, fuel = f + 1 := ⟨fuel - 1, by omega⟩
  simp [pullN]

/-- `pull_n` only reads and writes its two descriptors, and it only writes the file. -/
theorem pullN_writes_file (h : pullN fuel n rdPos window e = some (res, e')) :
    e.Later e' ∧ e.file.WritesOnly e'.file := by
  induction fuel generalizing n rdPos window e with
  | zero => simp [pullN] at h
  | succ fuel ih =>
    simp only [pullN] at h
    split_ifs at h
    all_goals try obtain ⟨-, rfl⟩ := Prod.mk.inj (Option.some.inj h)
    · exact ⟨⟨Fd.Later.rfl, Fd.later_write⟩, Fd.WritesOnly.rfl⟩
    · exact ⟨⟨Fd.Later.rfl, Fd.later_read⟩, Fd.WritesOnly.rfl⟩
    · exact ⟨⟨Fd.Later.rfl, Fd.later_read⟩, Fd.WritesOnly.rfl⟩
    · exact ⟨⟨Fd.later_write, Fd.later_read⟩, Fd.writesOnly_write⟩
    · obtain ⟨hl, hwo⟩ := ih h
      exact ⟨Ends.Later.trans ⟨Fd.later_write, Fd.later_read⟩ hl, Fd.writesOnly_write.trans hwo⟩

/-- A turn of `pull_n` whose read does not fail and whose chunk, the window and the bytes read,
is not empty and goes to the file whole: the loop goes on with the count less the chunk and an
empty window. -/
theorem pullN_succ_of_turn (h0 : n ≠ 0) (hr : 0 ≤ e.conn.readSizes e.conn.nReads)
    (hne : window ++ (e.conn.read (pullRequest n rdPos window.length)).2.1 ≠ [])
    (hf : e.file.WritesAll bufSz)
    (hle : (window ++ (e.conn.read (pullRequest n rdPos window.length)).2.1).length ≤ bufSz) :
    pullN (fuel + 1) n rdPos window e =
      pullN fuel ((n + sizeMod - (window ++ (e.conn.read (pullRequest n rdPos window.length)).2.1).length)
          % sizeMod) 0 []
        ⟨(e.file.write (window ++ (e.conn.read (pullRequest n rdPos window.length)).2.1)).2,
          (e.conn.read (pullRequest n rdPos window.length)).2.2⟩ := by
  simp only [pullN, if_neg h0, if_neg (not_lt.mpr (Fd.read_fst_nonneg hr)), if_neg hne,
    Fd.write_fst_of_all hf hle, ne_eq, not_true_eq_false, if_false]

/-- What a turn of `pull_n` reads when the window holds no more than `n` bytes and the connection
brings at least one byte: no more than is due, at least one byte while bytes are due, and no
more than fits in the buffer after the window. -/
theorem pullN_read_bounds (hn : n < sizeMod) (hw : window.length ≤ n)
    (hpos : rdPos + window.length < bufSz) (hc : 1 ≤ e.conn.readSizes e.conn.nReads)
    (hin : n - window.length ≤ e.conn.input.length) :
    (e.conn.read (pullRequest n rdPos window.length)).2.1.length ≤ n - window.length ∧
      (0 < n - window.length → 0 < (e.conn.read (pullRequest n rdPos window.length)).2.1.length) ∧
      window.length + (e.conn.read (pullRequest n rdPos window.length)).2.1.length ≤ bufSz := by
  rw [Fd.read_bytes_of_nonneg (by omega), List.length_take, pullRequest_of_le rdPos hw hn]
  omega

/-- `pull_n` when the window holds no more than `n` bytes: on a connection that brings at least
one byte per read while bytes are due, and a file that takes whole writes, it writes exactly the
window and then the next `n - |window|` bytes of the stream, and sends one `'y'`. -/
theorem pullN_exact (hn : n < sizeMod) (hw : window.length ≤ n)
    (hpos : rdPos + window.length < bufSz) (hc : e.conn.ReadsProgress) (hcw : e.conn.WritesAll 1)
    (hf : e.file.WritesAll bufSz) (hin : n - window.length ≤ e.conn.input.length)
    (hfuel : n + 2 ≤ fuel) :
    ∃ e', pullN fuel n rdPos window e = some (.ok (), e') ∧
      e'.file.output = e.file.output ++ window ++ e.conn.input.take (n - window.length) ∧
      e'.conn.input = e.conn.input.drop (n - window.length) ∧
      e'.conn.output = e.conn.output ++ ['y'] := by
  induction fuel generalizing n rdPos window e with
  | zero => omega
  | succ fuel ih =>
    by_cases h0 : n = 0
    · subst h0
      obtain rfl : window = [] := List.eq_nil_of_length_eq_zero (by omega)
      rw [pullN_zero (by omega)]
      exact ⟨_, rfl, by simp, by simp, Fd.write_output_of_all hcw (by simp)⟩
    · have hc0 := hc _ le_rfl
      obtain ⟨hD, hP, hB⟩ := pullN_read_bounds hn hw hpos hc0 hin
      have hbytes := Fd.read_bytes_eq (f := e.conn) (k := pullRequest n rdPos window.length)
      have hrest := Fd.read_input_eq (f := e.conn) (k := pullRequest n rdPos window.length)
      have hl : e.conn.Later (e.conn.read (pullRequest n rdPos window.length)).2.2 := Fd.later_read
      have hco := Fd.read_output e.conn (pullRequest n rdPos window.length)
      rw [pullN_succ_of_turn h0 (by omega)
        (List.ne_nil_of_length_pos (by rw [List.length_append]; omega)) hf
        (by rw [List.length_append]; omega)]
      generalize (e.conn.read (pullRequest n rdPos window.length)).2.1 = bytes at hbytes hrest hD hP hB ⊢
      generalize (e.conn.read (pullRequest n rdPos window.length)).2.2 = conn' at hrest hl hco ⊢
      have hn' : (n + sizeMod - (window ++ bytes).length) % sizeMod
          = n - window.length - bytes.length := by
        rw [List.length_append, sizeSub_of_le (by omega) hn]; omega
      rw [hn']
      obtain ⟨e', h, hout, hin', hack⟩ := @ih ⟨(e.file.write (window ++ bytes)).2, conn'⟩
        (n - window.length - bytes.length) 0 [] (by omega) (by simp) (by simpa using bufSz_pos)
        (hc.later hl) (hcw.later hl) (hf.later Fd.later_write)
        (by simp only [hrest, List.length_drop]; omega) (by omega)
      have hsum : bytes.length + (n - window.length - bytes.length) = n - window.length := by
        omega
      refine ⟨e', h, ?_, ?_, ?_⟩
      · rw [hout, Fd.write_output_of_all hf (by rw [List.length_append]; omega), hrest]
        conv_rhs => rw [← hsum, List.take_add, ← hbytes]
        simp only [List.length_nil, Nat.sub_zero, List.append_nil, List.append_assoc]
      · rw [hin', hrest, List.length_nil, Nat.sub_zero, List.drop_drop, hsum]
      · rw [hack, hco]

/-- The header `{ uuid:u, sz:1}` (15 bytes) read together with the two bytes `ab`, on a
connection whose peer sends nothing more: `pull_n` writes both bytes to the file, then fails
without acknowledging. -/
theorem pullN_writes_past_count :
    (pullN 2 1 15 ['a', 'b'] ⟨regularFile [], closedConn⟩).map (fun r => (r.1, r.2.file.output)) =
      some (.error "No bytes read from client and no more bytes still left in buffer", ['a', 'b']) :=
  rfl

end Receiver

/-- The receive loop of `ETDServer::getFile`, `fuel` bounding it: read up to `bufSz` bytes from
the connection and, when the count is positive, write them all to the file and subtract; a read
that returns `0` or `-1` just loops. -/
def getRecv : ℕ → ℤ → Ends → Option (Except String Unit × Ends)
  | 0, _, _ => none
  | fuel + 1, todo, e =>
    if todo ≤ 0 then some (.ok (), e)
    else
      let r := e.conn.read bufSz
      if 0 < r.1 then
        let w := e.file.write r.2.1
        if w.1 ≠ r.1 then
          some (.error "transfer.fd->write(transfer.fd->__m_fd, &buffer[0], n)==n", ⟨w.2, r.2.2⟩)
        else getRecv fuel (todo - r.1) ⟨w.2, r.2.2⟩
      else getRecv fuel todo { e with conn := r.2.2 }

section Getter

variable {todo : ℤ} {fuel : ℕ}

/-- Once the peer has closed the connection, the receive loop of `getFile` turns for ever while
bytes are due: reads of `0` (or `-1`) bytes are neither an error nor progress. -/
theorem getRecv_spins_at_eof (htodo : 0 < todo) (hin : e.conn.input = []) :
    getRecv fuel todo e = none := by
  induction fuel generalizing e with
  | zero => rfl
  | succ fuel ih =>
    obtain ⟨hr, hin'⟩ := Fd.read_of_input_nil (k := bufSz) hin
    simp only [getRecv, if_neg (not_le.mpr htodo), if_neg (not_lt.mpr hr)]
    exact ih hin'

/-- When the peer sends exactly the `todo` bytes due, the receive loop writes them all to the file
and returns, however the transport splits them. -/
theorem getRecv_exact (hc : e.conn.ReadsProgress) (hf : e.file.WritesAll bufSz)
    (htodo : todo = e.conn.input.length) (hfuel : e.conn.input.length < fuel) :
    ∃ e', getRecv fuel todo e = some (.ok (), e') ∧ e'.file.output = e.file.output ++ e.conn.input ∧
      e'.conn.input = [] ∧ e'.conn.output = e.conn.output ∧ e.Later e' := by
  induction fuel generalizing e todo with
  | zero => omega
  | succ fuel ih =>
    rw [getRecv]
    by_cases h0 : todo ≤ 0
    · have hnil : e.conn.input = [] := List.eq_nil_of_length_eq_zero (by omega)
      rw [if_pos h0]
      exact ⟨e, rfl, by simp [hnil], hnil, rfl, Ends.Later.rfl⟩
    · have hne : e.conn.input ≠ [] := fun h => h0 (by simp [htodo, h])
      obtain ⟨hfst, hpos⟩ := Fd.read_of_progress hc bufSz_pos hne
      have hle : (e.conn.read bufSz).2.1.length ≤ bufSz := Fd.read_length_le
      have hsplit := Fd.read_append_input (f := e.conn) (k := bufSz)
      have hlen := congrArg List.length hsplit
      rw [List.length_append] at hlen
      have hpos' : (0 : ℤ) < (e.conn.read bufSz).2.1.length := by exact_mod_cast hpos
      simp only [if_neg h0, hfst, if_pos hpos', Fd.write_fst_of_all hf hle, ne_eq,
        not_true_eq_false, if_false]
      obtain ⟨e', h, hout, hin, hco, hl⟩ :=
        ih (e := ⟨(e.file.write (e.conn.read bufSz).2.1).2, (e.conn.read bufSz).2.2⟩)
          (hc.later Fd.later_read) (hf.later Fd.later_write)
          (show todo - ((e.conn.read bufSz).2.1.length : ℤ) = (e.conn.read bufSz).2.2.input.length
            by omega) (by dsimp only; omega)
      refine ⟨e', h, ?_, hin, hco.trans (Fd.read_output _ _),
        Ends.Later.trans ⟨Fd.later_write, Fd.later_read⟩ hl⟩
      rw [hout, Fd.write_output_of_all hf hle, List.append_assoc, hsplit]

end Getter

/-- The header `sendFile` writes before the data: `{ uuid:<dstUUID>, sz:<todo>}`. -/
def sendHeader (dstUUID : Uuid) (todo : ℤ) : List Char :=
  ("\x7b uuid:" ++ dstUUID ++ ", sz:" ++ toString todo ++ "\x7d").toList

/-- The header `getFile` writes: `{ uuid:<srcUUID>, push:1, sz:<todo>}`. -/
def getHeader (srcUUID : Uuid) (todo : ℤ) : List Char :=
  ("\x7b uuid:" ++ srcUUID ++ ", push:1, sz:" ++ toString todo ++ "\x7d").toList

variable {α : Type}

/-- `ETDServer::sendFile` with no other thread contending for the record (the locking is
`EtdLockProtocol`'s): `own` is the server's UUID, `m` the transfers map, `file` the record's
descriptor. The outer `while (todo > 0)` runs its body once, since the copy loop leaves
`todo = 0`. Gives the result and, once connected, the two descriptors after. -/
def sendFile (dial : Dialer α) (own : Uuid) (m : TransferMap) (file : Fd)
    (srcUUID dstUUID : Uuid) (todo : ℤ) (dataAddrs : List α) : Except String Bool × Option Ends :=
  if srcUUID ≠ own then (.error s!"The srcUUID '{srcUUID}' is not our UUID", none)
  else if todo ≤ 0 then (.ok true, none)
  else
    match m.find own with
    | none => (.error "This server was not initialized yet", none)
    | some r =>
      if !modeAdmits true r.openMode then
        (.error "This server was initialized, but not for reading a file", none)
      else
        match connectFirst dial dataAddrs "" with
        | .error msg => (.error msg, none)
        | .ok conn =>
          match copyOut "transfer.fd->read(transfer.fd->__m_fd, &buffer[0], n)==(ssize_t)n"
              "dstFD->write(dstFD->__m_fd, &buffer[0], n)==(ssize_t)n" todo.toNat
              ⟨file, (conn.write (sendHeader dstUUID todo)).2⟩ with
          | (.error msg, e) => (.error msg, some e)
          | (.ok (), e) => (.ok true, some { e with conn := (e.conn.read 1).2.2 })

/-- `ETDServer::getFile` with no other thread contending for the record, `fuel` bounding its
receive loop: connect, write the header, receive until `todo` is not positive, write the
acknowledgement `'y'` (its result ignored). -/
def getFile (fuel : ℕ) (dial : Dialer α) (own : Uuid) (m : TransferMap) (file : Fd)
    (srcUUID dstUUID : Uuid) (todo : ℤ) (dataAddrs : List α) :
    Option (Except String Bool × Option Ends) :=
  if dstUUID ≠ own then some (.error s!"The dstUUID '{dstUUID}' is not our UUID", none)
  else if todo ≤ 0 then some (.ok true, none)
  else
    match m.find own with
    | none => some (.error "This server was not initialized yet", none)
    | some r =>
      if !modeAdmits false r.openMode then
        some (.error "This server was initialized, but not for writing to file", none)
      else
        match connectFirst dial dataAddrs "" with
        | .error msg => some (.error msg, none)
        | .ok conn =>
          (getRecv fuel todo ⟨file, (conn.write (getHeader srcUUID todo)).2⟩).map fun
            | (.error msg, e) => (.error msg, some e)
            | (.ok (), e) => (.ok true, some { e with conn := (e.conn.write ['y']).2 })

section Sender

variable {dial : Dialer α} {own srcUUID dstUUID : Uuid} {m : TransferMap} {file conn : Fd}
  {todo : ℤ} {addrs : List α} {r : TransferProps}

/-- Once its checks pass and it has connected, `sendFile` sends the next `todo` bytes of a regular
file over a connection that takes whole payload writes and returns `true`, whatever its header
write accepted and whatever its acknowledgement read returns. -/
theorem sendFile_true_whatever_ack (dial : Dialer α) (own : Uuid) (m : TransferMap) (file : Fd)
    (srcUUID dstUUID : Uuid) (todo : ℤ) (addrs : List α) (hown : srcUUID = own) (htodo : 0 < todo)
    (hm : m.find own = some r) (hr : r.openMode = .read) (hc : connectFirst dial addrs "" = .ok conn)
    (hf : file.ReadsFull bufSz) (hn : todo.toNat ≤ file.input.length)
    (hw : (conn.write (sendHeader dstUUID todo)).2.WritesAll bufSz) :
    ∃ e, sendFile dial own m file srcUUID dstUUID todo addrs = (.ok true, some e) ∧
      e.conn.output = (conn.write (sendHeader dstUUID todo)).2.output ++ file.input.take todo.toNat := by
  obtain ⟨e, h, -, hout, -⟩ := copyOut_of_full
    "transfer.fd->read(transfer.fd->__m_fd, &buffer[0], n)==(ssize_t)n"
    "dstFD->write(dstFD->__m_fd, &buffer[0], n)==(ssize_t)n"
    (e := ⟨file, (conn.write (sendHeader dstUUID todo)).2⟩) hf hw hn
  simp only [sendFile, hown, ne_eq, not_true_eq_false, if_false, not_le.mpr htodo, hm, hr, hc,
    modeAdmits, beq_self_eq_true, if_true, Bool.not_true, Bool.false_eq_true, h]
  exact ⟨_, rfl, by simpa using hout⟩

/-- The bytes `abc` of a reader record of `S`, sent to `D` over a connection that takes every
write and whose peer closes it without a byte of acknowledgement: `sendFile` returns `true`. -/
theorem sendFile_true_without_ack :
    let run := sendFile closedDial "S" (oneRecord "S" .read) (regularFile ['a', 'b', 'c']) "S" "D" 3 [()]
    run.1 = .ok true ∧ run.2.map (·.conn.output) = some (sendHeader "D" 3 ++ ['a', 'b', 'c']) := by
  obtain ⟨e, h, ho⟩ := sendFile_true_whatever_ack closedDial "S" (oneRecord "S" .read)
    (regularFile ['a', 'b', 'c']) "S" "D" 3 [()] rfl (by decide) rfl rfl rfl (fun _ _ => le_rfl)
    (by decide) (fun _ _ => le_rfl)
  simp only [h, ho, Option.map_some', true_and]
  rfl

end Sender

section Receiving

variable {conn : Fd} {r : TransferProps}

/-- Once its checks pass and it has connected, `getFile` receives exactly the bytes its peer sends
when they are the `todo` bytes due, however the transport splits them, and acknowledges them. -/
theorem getFile_receives (fuel : ℕ) (dial : Dialer α) (own : Uuid) (m : TransferMap) (file : Fd)
    (srcUUID dstUUID : Uuid) (todo : ℤ) (addrs : List α) (hown : dstUUID = own) (htodo : 0 < todo)
    (hm : m.find own = some r)
    (hmode : modeAdmits false r.openMode = true) (hc : connectFirst dial addrs "" = .ok conn)
    (hcp : conn.ReadsProgress) (hcw : conn.WritesAll bufSz)
    (hhdr : (getHeader srcUUID todo).length ≤ bufSz) (hf : file.WritesAll bufSz)
    (hin : todo = conn.input.length) (hfuel : conn.input.length < fuel) :
    ∃ e, getFile fuel dial own m file srcUUID dstUUID todo addrs = some (.ok true, some e) ∧
      e.file.output = file.output ++ conn.input ∧
      e.conn.output = conn.output ++ getHeader srcUUID todo ++ ['y'] := by
  obtain ⟨e, h, hout, -, hco, hl⟩ := getRecv_exact
    (e := ⟨file, (conn.write (getHeader srcUUID todo)).2⟩) (hcp.later Fd.later_write) hf
    (show todo = (conn.write _).2.input.length by rw [hin, Fd.write_input])
    (show (conn.write _).2.input.length < fuel by rw [Fd.write_input]; exact hfuel)
  simp only [getFile, hown, ne_eq, not_true_eq_false, if_false, not_le.mpr htodo, hm, hmode,
    Bool.not_true, Bool.false_eq_true, hc, h, Option.map_some']
  refine ⟨_, rfl, by simpa using hout, ?_⟩
  have hw := (hcw.later Fd.later_write).later hl.conn
  rw [Fd.write_output_of_all hw (by decide), hco, Fd.write_output_of_all hcw hhdr]

end Receiving

/-- `getFile` of one byte into a writer record of `D`, over a connection whose peer closes it at
once: whatever the fuel, the receive loop has not returned. -/
theorem getFile_spins_when_peer_closes (fuel : ℕ) :
    getFile fuel closedDial "D" (oneRecord "D" .new) (regularFile []) "S" "D" 1 [()] = none := by
  simp [getFile, oneRecord, TransferMap.find, modeAdmits, closedDial, connectFirst,
    getRecv_spins_at_eof, closedConn, regularFile]

end ETransfer.EtdDataPath
