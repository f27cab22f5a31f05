import ETransfer.EtdProxy

/-!
# Lines whatever the reads: the framing of `ETDServerWrapper::handle` and `ETDProxy`

The lines of a stream are its maximal non-empty runs of bytes other than `\r` and `\n` that a `\r`
or `\n` follows (`linesOf`): separators of any mix of line ends are collapsed. Both ends of a
control connection cut what they have read into lines with `getReplies`, move the bytes after the
last line to the front of the buffer (`memmove`) and append the next read to them.

`getReplies_spec` says what one call does: it consumes text that ends at a line end and holds
exactly the lines of the buffer, and it keeps bytes with no complete line, with no line end at all
once a line was found. So the lines of the buffer and of what is still unread are the lines
found now followed by those of the bytes kept and what is still unread (`linesOf_getReplies`).
By induction on the reads, the wrapper dispatches exactly the lines of the stream, in order, and
the proxy's reply loop runs exactly the lines of the reply, however the stream is cut into reads
(`handle_serves_lines`, `multiCall_runs_lines`); the one other way out of both loops is a full
buffer with no complete line, after the lines before it.
-/

namespace ETransfer.EtdLineFraming

open EtdDataPath EtdControl EtdProxy

/-! ## The lines of a stream -/

/-- The lines of a stream as the specification defines them, `run` holding the bytes of the line
under way: a line end closes the run when it is not empty. -/
def linesFrom (run : List Char) : List Char → List (List Char)
  | [] => []
  | c :: s =>
    if isEol c then (if run = [] then linesFrom [] s else run :: linesFrom [] s)
    else linesFrom (run ++ [c]) s

/-- `lines(S)` of the specification: the maximal non-empty runs of bytes other than `\r` and `\n`
that a `\r` or `\n` follows, in stream order. -/
def linesOf (s : List Char) : List (List Char) := linesFrom [] s

example : linesOf "\r\nab\r\n\ncd\ref".toList = ["ab".toList, "cd".toList] := by decide

/-- Text that is empty or ends with a line end. -/
def EndsLine (q : List Char) : Prop := ∀ c ∈ q.getLast?, isEol c = true

section Lines

variable {run q s t : List Char} {c : Char}

theorem EndsLine.nil : EndsLine [] := fun _ h => by cases h

theorem endsLine_of_eol (h : ∀ c ∈ q, isEol c = true) : EndsLine q :=
  fun c hc => h c (List.mem_of_getLast?_eq_some hc)

/-- Text followed by text that ends with a line end ends with one, when the latter is not empty
or the former ends with one. -/
theorem EndsLine.append (ht : EndsLine t) (hq : t = [] → EndsLine q) : EndsLine (q ++ t) := by
  intro c hc
  rw [List.getLast?_append] at hc
  rcases Option.or_eq_some.mp hc with h | ⟨h, h'⟩
  · exact ht c h
  · exact hq (List.getLast?_eq_none_iff.mp h) c h'

/-- The end of a text that ends with a line end does too. -/
theorem EndsLine.of_suffix (h : EndsLine s) (ht : t <:+ s) : EndsLine t := by
  obtain ⟨q, rfl⟩ := ht
  intro c hc
  exact h c (by rw [List.getLast?_append, hc]; rfl)

/-- Bytes that are not line ends join the line under way. -/
theorem linesFrom_append_of_noEol (h : ∀ c ∈ q, isEol c = false) :
    linesFrom run (q ++ s) = linesFrom (run ++ q) s := by
  induction q generalizing run with
  | nil => rw [List.nil_append, List.append_nil]
  | cons c q ih =>
    rw [List.cons_append, linesFrom, if_neg (by simp [h c (List.mem_cons_self _ _)]),
      ih fun x hx => h x (List.mem_cons_of_mem _ hx), List.append_assoc, List.singleton_append]

/-- A line end closes the line under way. -/
theorem linesFrom_eol (hrun : run ≠ []) (hc : isEol c = true) :
    linesFrom run (c :: s) = run :: linesOf s := by
  rw [linesFrom, if_pos hc, if_neg hrun]; rfl

/-- A line and the line end after it come first. -/
theorem linesOf_line (hq : q ≠ []) (h : ∀ c ∈ q, isEol c = false) (hc : isEol c = true) :
    linesOf (q ++ c :: s) = q :: linesOf s := by
  rw [linesOf, linesFrom_append_of_noEol h, List.nil_append, linesFrom_eol hq hc]

/-- Line ends before a stream add no line. -/
theorem linesOf_dropWhile (s : List Char) : linesOf (s.dropWhile isEol) = linesOf s := by
  induction s with
  | nil => rfl
  | cons c s ih =>
    by_cases hc : isEol c = true
    · rw [List.dropWhile_cons_of_pos hc, ih, linesOf, linesOf, linesFrom, if_pos hc, if_pos rfl]
    · rw [List.dropWhile_cons_of_neg hc]

/-- Bytes with no line end hold no line. -/
theorem linesOf_of_noEol (h : ∀ c ∈ s, isEol c = false) : linesOf s = [] := by
  rw [linesOf, ← List.append_nil s, linesFrom_append_of_noEol h]; rfl

/-- A line under way that meets no line end stays unfinished: no line end follows it. -/
theorem noEol_of_linesFrom_nil (hrun : run ≠ []) (h : linesFrom run s = []) :
    ∀ c ∈ s, isEol c = false := by
  induction s generalizing run with
  | nil => simp
  | cons c s ih =>
    by_cases hc : isEol c = true
    · rw [linesFrom_eol hrun hc] at h; cases h
    · rw [linesFrom, if_neg hc] at h
      intro x hx
      rcases List.mem_cons.mp hx with rfl | hx
      · simpa using hc
      · exact ih (by simp) h x hx

/-- Text that ends with a line end and holds no line is all line ends. -/
theorem eol_of_linesFrom_nil (h : linesFrom run s = []) (he : EndsLine s) :
    (∀ c ∈ s, isEol c = true) ∧ (s = [] ∨ run = []) := by
  induction s generalizing run with
  | nil => simp
  | cons c s ih =>
    have he' : EndsLine s := he.of_suffix (List.suffix_cons c s)
    by_cases hc : isEol c = true
    · rw [linesFrom, if_pos hc] at h
      by_cases hrun : run = []
      · rw [if_pos hrun] at h
        exact ⟨List.forall_mem_cons.mpr ⟨hc, (ih h he').1⟩, .inr hrun⟩
      · rw [if_neg hrun] at h; cases h
    · rw [linesFrom, if_neg hc] at h
      obtain ⟨-, rfl | hnil⟩ := ih h he'
      · exact absurd (he c rfl) hc
      · simp at hnil

/-- The lines of text that ends with a line end, then those of what follows. -/
theorem linesOf_append (hq : EndsLine q) (t : List Char) :
    linesOf (q ++ t) = linesOf q ++ linesOf t := by
  suffices ∀ run, q ≠ [] → linesFrom run (q ++ t) = linesFrom run q ++ linesOf t by
    cases q with
    | nil => rfl
    | cons c q => exact this [] (by simp)
  induction q with
  | nil => intro _ h; exact absurd rfl h
  | cons c q ih =>
    intro run _
    have hq' : EndsLine q := hq.of_suffix (List.suffix_cons c q)
    by_cases hnil : q = []
    · subst hnil
      have hc : isEol c = true := hq c rfl
      rw [List.singleton_append, linesFrom, linesFrom, if_pos hc, if_pos hc]
      split <;> simp [linesFrom, linesOf]
    · rw [List.cons_append, linesFrom, linesFrom]
      split
      · split
        · exact ih hq' [] hnil
        · rw [ih hq' [] hnil]; rfl
      · exact ih hq' _ hnil

/-- Bytes after the line ends that hold no line hold no line end: they start the next line. -/
theorem noEol_of_linesOf_dropWhile_nil (h : linesOf (s.dropWhile isEol) = []) :
    ∀ c ∈ s.dropWhile isEol, isEol c = false := by
  induction s with
  | nil => simp
  | cons c s ih =>
    by_cases hc : isEol c = true
    · rw [List.dropWhile_cons_of_pos hc] at h ⊢; exact ih h
    · rw [List.dropWhile_cons_of_neg hc] at h ⊢
      rw [linesOf, linesFrom, if_neg hc] at h
      intro x hx
      rcases List.mem_cons.mp hx with rfl | hx
      · simpa using hc
      · exact noEol_of_linesFrom_nil (by simp) h x hx

end Lines

/-! ## One call of `getReplies` -/

section GetReplies

variable {s : List Char}

theorem getReplies_of_dropWhile_nil (h : (s.dropWhile isEol).dropWhile (!isEol ·) = []) :
    getReplies s = ([], s) := by
  rw [getReplies]
  split
  · rfl
  · next x u hu => rw [h] at hu; cases hu

theorem getReplies_of_dropWhile_cons {x : Char} {u : List Char}
    (h : (s.dropWhile isEol).dropWhile (!isEol ·) = x :: u) :
    getReplies s = ((s.dropWhile isEol).takeWhile (!isEol ·) :: (getReplies (u.dropWhile isEol)).1,
      (getReplies (u.dropWhile isEol)).2) := by
  rw [getReplies]
  split
  · next hu => rw [h] at hu; cases hu
  · next x' u' hu => rw [h] at hu; obtain ⟨rfl, rfl⟩ := List.cons.inj hu; rfl

/-- **What one call of `getReplies` does.** It consumes text `q` that ends at a line end, whose
lines are exactly the lines of the buffer, and keeps the bytes after it, which hold no complete
line and, once a line was found, no line end. -/
theorem getReplies_spec (s : List Char) :
    ∃ q, s = q ++ (getReplies s).2 ∧ EndsLine q ∧ (getReplies s).1 = linesOf s ∧
      linesOf (getReplies s).2 = [] ∧
      ((getReplies s).1 = [] ∨ ∀ c ∈ (getReplies s).2, isEol c = false) := by
  induction s using getReplies.induct with
  | case1 s h =>
    -- no line end after the first line's start: nothing is consumed
    have hno : linesOf s = [] := by
      rw [← linesOf_dropWhile, linesOf_of_noEol fun c hc => by
        simpa using List.dropWhile_eq_nil_iff.mp h c hc]
    rw [getReplies_of_dropWhile_nil h]
    exact ⟨[], rfl, EndsLine.nil, hno.symm, hno, .inl rfl⟩
  | case2 s x u h ih =>
    -- a line `L`, the line end `x` after it, and the search from after the line ends
    obtain ⟨q', hq', hend', hlines', hnil', hno'⟩ := ih
    rw [getReplies_of_dropWhile_cons h]
    dsimp only
    set L := (s.dropWhile isEol).takeWhile (!isEol ·)
    have ht : L ++ x :: u = s.dropWhile isEol := by
      rw [← h]; exact List.takeWhile_append_dropWhile _ _
    have hx : isEol x = true := by
      simpa [h] using List.head_dropWhile_not (!isEol ·) (s.dropWhile isEol) (by simp [h])
    have hle : ∀ c ∈ L, isEol c = false := fun c hc => by simpa using List.mem_takeWhile_imp hc
    have hL : L ≠ [] := by
      intro hL
      rw [hL, List.nil_append] at ht
      have := List.head_dropWhile_not isEol s (by simp [← ht])
      simp [← ht, hx] at this
    refine ⟨s.takeWhile isEol ++ L ++ x :: (u.takeWhile isEol ++ q'), ?_, ?_, ?_, hnil', ?_⟩
    · conv_lhs => rw [← List.takeWhile_append_dropWhile isEol s, ← ht,
        ← List.takeWhile_append_dropWhile isEol u, hq']
      simp
    · show EndsLine ((s.takeWhile isEol ++ L) ++ ((x :: u.takeWhile isEol) ++ q'))
      refine EndsLine.append (EndsLine.append hend' fun _ => endsLine_of_eol ?_) (by simp)
      intro c hc
      rcases List.mem_cons.mp hc with rfl | hc
      · exact hx
      · exact List.mem_takeWhile_imp hc
    · rw [hlines', ← linesOf_dropWhile s, ← ht, linesOf_line hL hle hx, linesOf_dropWhile]
    · refine .inr (hno'.elim (fun h0 c hc => ?_) id)
      rw [hlines'] at h0
      exact noEol_of_linesOf_dropWhile_nil h0 c (by rw [hq']; exact List.mem_append_right _ hc)

/-- The lines of a buffer followed by what is unread: those `getReplies` finds, then those of the
bytes it keeps followed by what is unread. -/
theorem linesOf_getReplies (s t : List Char) :
    linesOf (s ++ t) = (getReplies s).1 ++ linesOf ((getReplies s).2 ++ t) := by
  obtain ⟨q, hs, hq, hl, hnil, -⟩ := getReplies_spec s
  have hlq : linesOf s = linesOf q := by
    conv_lhs => rw [hs]
    rw [linesOf_append hq, hnil, List.append_nil]
  conv_lhs => rw [hs]
  rw [List.append_assoc, linesOf_append hq, hl, hlq]

end GetReplies

/-- A read on a stream socket with bytes pending brings some: fewer are left pending, and the
lines of the buffer and the pending bytes are those `getReplies` finds in the buffer and the bytes
read, then those of the bytes it keeps and what is still pending. -/
theorem read_lines {conn : Fd} {k : ℕ} (hp : conn.ReadsProgress) (hk : 0 < k) (hin : conn.input ≠ [])
    (buffer : List Char) :
    ¬ (conn.read k).1 ≤ 0 ∧ (conn.read k).2.2.input.length < conn.input.length ∧
      linesOf (buffer ++ conn.input) = (getReplies (buffer ++ (conn.read k).2.1)).1 ++
        linesOf ((getReplies (buffer ++ (conn.read k).2.1)).2 ++ (conn.read k).2.2.input) := by
  obtain ⟨hfst, hpos⟩ := Fd.read_of_progress hp hk hin
  have hsplit := Fd.read_append_input (f := conn) (k := k)
  have hlen := congrArg List.length hsplit
  rw [List.length_append] at hlen
  refine ⟨by omega, by omega, ?_⟩
  rw [← linesOf_getReplies, List.append_assoc, hsplit]

/-- Once `getReplies` has found a line, it keeps nothing of a stream that ends with a line end and
holds no line after it. -/
theorem getReplies_kept_of_last {s rest : List Char} (hl : (getReplies s).1 ≠ [])
    (he : EndsLine ((getReplies s).2 ++ rest)) (hnil : linesOf ((getReplies s).2 ++ rest) = []) :
    (getReplies s).2 = [] := by
  obtain ⟨-, -, -, -, -, hno⟩ := getReplies_spec s
  have hall := (eol_of_linesFrom_nil hnil he).1
  cases h : (getReplies s).2 with
  | nil => rfl
  | cons x t =>
    have hx := hno.resolve_left hl x (by rw [h]; exact List.mem_cons_self _ _)
    rw [hall x (by rw [h]; exact List.mem_append_left _ (List.mem_cons_self _ _))] at hx
    cases hx

/-! ## `ETDServerWrapper::handle` -/

section Wrapper

variable {σ α : Type} (svc : Service σ α) (codec : Codec α)

/-- The server's state once the wrapper has dispatched `lines` in order, each line running the
command it matches. -/
def dispatchAll (lines : List (List Char)) (st : σ) : σ :=
  lines.foldl (fun st line =>
    match parseCommand line with
    | some cmd => (cmd.run svc codec st).2
    | none => st) st

/-- How a run of the wrapper's loop ends, `input` being the bytes in its buffer and those still
unread at its start, and `st` the server's state then: the peer closed the connection once every
line of `input` was served; or the buffer filled with 2 KiB read and no complete line in them,
`input` being the text `consumed` that the loop cut into lines and served, those bytes, and what
is still unread. -/
def Served (input : List Char) (st : σ) (r : Except String Unit) (w' : Wrapper σ) : Prop :=
  (r = .error "Failed to read data from remote end" ∧ w'.conn.input = [] ∧
      w'.server = dispatchAll svc codec (linesOf input) st) ∨
    (r = .ok () ∧ ∃ consumed buffer, input = consumed ++ buffer ++ w'.conn.input ∧
      EndsLine consumed ∧ linesOf buffer = [] ∧ Wrapper.bufSz ≤ buffer.length ∧
      w'.server = dispatchAll svc codec (linesOf consumed) st)

variable {svc codec}

theorem dispatchAll_append (ls ls' : List (List Char)) (st : σ) :
    dispatchAll svc codec (ls ++ ls') st = dispatchAll svc codec ls' (dispatchAll svc codec ls st) :=
  List.foldl_append _ _ _ _

/-- Text that ends at a line end, cut into lines and served before a run, comes before the text
the run serves. -/
theorem Served.append {q input : List Char} {st : σ} {r : Except String Unit} {w' : Wrapper σ}
    (hq : EndsLine q) (h : Served svc codec input (dispatchAll svc codec (linesOf q) st) r w') :
    Served svc codec (q ++ input) st r w' := by
  rcases h with ⟨hr, hi, hs⟩ | ⟨hr, c, b, hin, hc, hb, hfull, hs⟩
  · exact .inl ⟨hr, hi, by rw [hs, linesOf_append hq, dispatchAll_append]⟩
  · refine .inr ⟨hr, q ++ c, b, by rw [hin, List.append_assoc, List.append_assoc, List.append_assoc],
      hc.append fun _ => hq, hb, hfull, ?_⟩
    rw [hs, linesOf_append hq, dispatchAll_append]

/-- Writing replies leaves the input and the environment's answers as they were. -/
theorem sendReplies_conn (rs : List String) (w : Wrapper σ) :
    w.conn.Later (Wrapper.sendReplies rs w).conn ∧
      (Wrapper.sendReplies rs w).conn.input = w.conn.input := by
  have key : ∀ c : Fd, c.Later (rs.foldl (fun c r => ((c.write r.toList).2.write ['\n']).2) c) ∧
      (rs.foldl (fun c r => ((c.write r.toList).2.write ['\n']).2) c).input = c.input := by
    induction rs with
    | nil => exact fun c => ⟨Fd.Later.rfl, rfl⟩
    | cons r rs ih =>
      intro c
      obtain ⟨hl, hi⟩ := ih ((c.write r.toList).2.write ['\n']).2
      exact ⟨(Fd.later_write.trans Fd.later_write).trans hl, by
        rw [List.foldl_cons, hi, Fd.write_input, Fd.write_input]⟩
  unfold Wrapper.sendReplies
  split
  · exact ⟨Fd.Later.rfl, rfl⟩
  · exact key w.conn

/-- Serving lines leaves the input and the environment's answers as they were. -/
theorem serveLines_conn (lines : List (List Char)) (w : Wrapper σ) :
    w.conn.Later (Wrapper.serveLines svc codec lines w).2.conn ∧
      (Wrapper.serveLines svc codec lines w).2.conn.input = w.conn.input := by
  induction lines generalizing w with
  | nil => exact ⟨Fd.Later.rfl, rfl⟩
  | cons line lines ih =>
    rw [Wrapper.serveLines]
    split
    · next cmd _ =>
      have h := sendReplies_conn (cmd.run svc codec w.server).1
        { w with server := (cmd.run svc codec w.server).2 }
      exact ⟨h.1.trans (ih _).1, (ih _).2.trans h.2⟩
    · exact ih { w with closed := true }

/-- Lines that all match a command never stop the wrapper. -/
theorem serveLines_fst {lines : List (List Char)} (h : ∀ l ∈ lines, (parseCommand l).isSome)
    (w : Wrapper σ) : (Wrapper.serveLines svc codec lines w).1 = false := by
  induction lines generalizing w with
  | nil => rfl
  | cons line lines ih =>
    obtain ⟨cmd, hcmd⟩ := Option.isSome_iff_exists.mp (h line (List.mem_cons_self _ _))
    rw [Wrapper.serveLines, hcmd]
    exact ih (fun l hl => h l (List.mem_cons_of_mem _ hl)) _

/-- **The wrapper's loop dispatches the stream's lines, however it is cut into reads.** From a
buffer with no complete line, on a stream socket whose complete lines all match a command, the
loop ends with enough fuel, and either the peer closed the connection once every line of the
buffer and of the stream was served in order, or 2 KiB read gathered with no complete line once
the lines before them were. -/
theorem handle_serves_lines {fuel : ℕ} {buffer : List Char} {w : Wrapper σ}
    (hb : linesOf buffer = []) (hp : w.conn.ReadsProgress)
    (hparse : ∀ l ∈ linesOf (buffer ++ w.conn.input), (parseCommand l).isSome)
    (hfuel : w.conn.input.length < fuel) :
    ∃ r w', Wrapper.handle svc codec fuel buffer w = some (r, w') ∧
      Served svc codec (buffer ++ w.conn.input) w.server r w' := by
  induction fuel generalizing buffer w with
  | zero => omega
  | succ fuel ih =>
    rw [Wrapper.handle]
    by_cases hfull : Wrapper.bufSz ≤ buffer.length
    · -- the buffer is full
      rw [if_pos hfull]
      exact ⟨_, _, rfl, .inr ⟨rfl, [], buffer, rfl, EndsLine.nil, hb, hfull, rfl⟩⟩
    rw [if_neg hfull]
    dsimp only
    by_cases hin : w.conn.input = []
    · -- the peer has closed the connection
      obtain ⟨h0, hi⟩ := Fd.read_of_input_nil hin (k := Wrapper.bufSz - buffer.length)
      rw [if_pos h0]
      refine ⟨_, _, rfl, .inl ⟨rfl, hi, ?_⟩⟩
      rw [hin, List.append_nil, hb]
      rfl
    -- a read brings bytes: the lines they complete are served, the loop goes on with the rest
    obtain ⟨hpos, hlen, hlines⟩ := read_lines hp (k := Wrapper.bufSz - buffer.length) (by omega) hin buffer
    rw [if_neg hpos]
    set c := w.conn.read (Wrapper.bufSz - buffer.length)
    have hsplit : c.2.1 ++ c.2.2.input = w.conn.input := Fd.read_append_input
    obtain ⟨q, hq, hqe, hql, hkept, -⟩ := getReplies_spec (buffer ++ c.2.1)
    set g := getReplies (buffer ++ c.2.1)
    have hgq : g.1 = linesOf q := by rw [hql, hq, linesOf_append hqe, hkept, List.append_nil]
    set w₁ := (Wrapper.serveLines svc codec g.1 { w with conn := c.2.2 }).2
    have hs : Wrapper.serveLines svc codec g.1 { w with conn := c.2.2 } = (false, w₁) :=
      Prod.ext (serveLines_fst (fun l hl => hparse l (by rw [hlines]; exact List.mem_append_left _ hl))
        _) rfl
    obtain ⟨hl₁, hi₁⟩ : c.2.2.Later w₁.conn ∧ w₁.conn.input = c.2.2.input :=
      serveLines_conn g.1 { w with conn := c.2.2 }
    obtain ⟨r, w', hrun, hserved⟩ := ih hkept ((hp.later Fd.later_read).later hl₁)
      (fun l hl => hparse l (by rw [hlines, ← hi₁]; exact List.mem_append_right _ hl))
      (by rw [hi₁]; omega)
    rw [hs]
    refine ⟨r, w', hrun, ?_⟩
    rw [hi₁, Wrapper.serveLines_server] at hserved
    rw [← hsplit, ← List.append_assoc, hq, List.append_assoc]
    exact Served.append hqe (by rw [← hgq]; exact hserved)

end Wrapper

/-! ## The reply loops of `ETDProxy` -/

section Proxy

variable {S : Type} (onLine : S → List Char → Except String (S × Bool)) (bufSz : ℕ)

/-- The lines of a reply run one after the other by the loop's body `onLine` from `s`, as a reply
read at once would be: `.ok (s', true)` when its last line ends the reply, `.ok (s', false)` when
no line ends it, and the error of the first line that throws. -/
inductive RunLines : S → List (List Char) → Except String (S × Bool) → Prop
  | nil (s : S) : RunLines s [] (.ok (s, false))
  | last {s s' : S} {l : List Char} (h : onLine s l = .ok (s', true)) :
      RunLines s [l] (.ok (s', true))
  | throw {s : S} {l : List Char} {ls : List (List Char)} {e : String}
      (h : onLine s l = .error e) : RunLines s (l :: ls) (.error e)
  | next {s s₁ : S} {l : List Char} {ls : List (List Char)} {res : Except String (S × Bool)}
      (h : onLine s l = .ok (s₁, false)) (hrest : RunLines s₁ ls res) : RunLines s (l :: ls) res

/-- How the proxy's reply loop ends, `input` being the bytes in its buffer and those still unread
at its start, and `res` what running the lines of `input` from `s` gives: with that result, and
no line left unread when the reply ended; or with a full buffer of at least `bufSz` bytes read and
no complete line in them, `input` being the text `consumed` that the loop cut into lines and ran
without ending the reply, those bytes, and what is still unread. -/
def Replied (input : List Char) (s : S) (res : Except String (S × Bool))
    (r : Except String (S × List Char)) (conn' : Fd) : Prop :=
  (r = res.map (fun p => (p.1, [])) ∧ (res.isOk → linesOf conn'.input = [])) ∨
    ∃ consumed buffer s', input = consumed ++ buffer ++ conn'.input ∧ EndsLine consumed ∧
      linesOf buffer = [] ∧ bufSz ≤ buffer.length ∧
      RunLines onLine s (linesOf consumed) (.ok (s', false)) ∧ r = .ok (s', buffer)

variable {onLine bufSz} {unprocessed : String} {s s₁ : S} {ls ls' : List (List Char)}
  {res : Except String (S × Bool)}

/-- Lines that the `for` loop runs through without ending the reply are the first lines of a
reply. -/
theorem runLines_of_forLines (h : forLines onLine s ls = .ok (s₁, false, [])) :
    RunLines onLine s ls (.ok (s₁, false)) := by
  induction ls generalizing s with
  | nil =>
    cases h
    exact .nil _
  | cons l ls ih =>
    rw [forLines] at h
    split at h
    · cases h
    · cases h
    · next s' heq => exact .next heq (ih h)

theorem RunLines.append (h : RunLines onLine s ls (.ok (s₁, false)))
    (h' : RunLines onLine s₁ ls' res) : RunLines onLine s (ls ++ ls') res := by
  induction ls generalizing s with
  | nil =>
    cases h
    exact h'
  | cons l ls ih =>
    cases h with
    | next hl hrest => exact .next hl (ih hrest)

/-- What the lines of one read do to the reply they start: a line throws, and so does the reply;
no line ends the reply, and the rest of it runs from the state they leave; or the last line of
the read ends it, and nothing follows. -/
theorem RunLines.split (h : RunLines onLine s (ls ++ ls') res) :
    match forLines onLine s ls with
    | .error e => res = .error e
    | .ok (s₁, false, _) => RunLines onLine s₁ ls' res
    | .ok (s₁, true, left) => left = [] ∧ ls' = [] ∧ res = .ok (s₁, true) := by
  induction ls generalizing s with
  | nil => exact h
  | cons l ls ih =>
    generalize hx : (l :: ls) ++ ls' = x at h
    rw [List.cons_append] at hx
    cases h with
    | nil => cases hx
    | last hl =>
      obtain ⟨rfl, hnil⟩ := List.cons.inj hx
      obtain ⟨rfl, rfl⟩ := List.append_eq_nil.mp hnil
      simp [forLines, hl]
    | throw hl =>
      obtain ⟨rfl, -⟩ := List.cons.inj hx
      simp only [forLines, hl]
    | next hl hrest =>
      obtain ⟨rfl, rfl⟩ := List.cons.inj hx
      simp only [forLines, hl]
      exact ih hrest

/-- Text that ends at a line end, cut into lines and run without ending the reply before a turn
of the loop, comes before the text the loop runs after it. -/
theorem Replied.append {q input : List Char} {r : Except String (S × List Char)} {conn' : Fd}
    (hq : EndsLine q) (hrun : RunLines onLine s (linesOf q) (.ok (s₁, false)))
    (h : Replied onLine bufSz input s₁ res r conn') : Replied onLine bufSz (q ++ input) s res r conn' := by
  rcases h with h | ⟨c, b, s', hin, hc, hb, hfull, hs', hr⟩
  · exact .inl h
  · refine .inr ⟨q ++ c, b, s', by rw [hin, List.append_assoc, List.append_assoc, List.append_assoc],
      hc.append fun _ => hq, hb, hfull, ?_, hr⟩
    rw [linesOf_append hq]
    exact hrun.append hs'

/-- **The proxy's reply loop runs the reply's lines, however it is cut into reads.** From a
buffer with no complete line, on a stream socket carrying the rest of a reply that ends at a line
end and whose last line ends it, or one of whose lines throws, the loop ends with enough fuel with
what running the lines at once gives, or with a full buffer of bytes read holding no complete line
once the lines before them were run. -/
theorem replyLoop_runs_lines {fuel : ℕ} {buffer : List Char} {conn : Fd}
    (hb : linesOf buffer = []) (hp : conn.ReadsProgress) (he : EndsLine (buffer ++ conn.input))
    (hrun : RunLines onLine s (linesOf (buffer ++ conn.input)) res)
    (hend : ∀ s', res ≠ .ok (s', false)) (hfuel : conn.input.length < fuel) :
    ∃ r conn', replyLoop bufSz onLine unprocessed fuel s buffer conn = some (r, conn') ∧
      Replied onLine bufSz (buffer ++ conn.input) s res r conn' := by
  induction fuel generalizing s buffer conn with
  | zero => omega
  | succ fuel ih =>
    rw [replyLoop]
    by_cases hfull : bufSz ≤ buffer.length
    · -- the buffer is full
      rw [if_pos hfull]
      exact ⟨_, _, rfl, .inr ⟨[], buffer, s, rfl, EndsLine.nil, hb, hfull, .nil s, rfl⟩⟩
    rw [if_neg hfull]
    dsimp only
    have hin : conn.input ≠ [] := by
      intro hin
      rw [hin, List.append_nil, hb] at hrun
      cases hrun
      exact hend s rfl
    obtain ⟨hpos, hlen, hlines⟩ := read_lines hp (k := bufSz - buffer.length) (by omega) hin buffer
    rw [if_neg hpos]
    set c := conn.read (bufSz - buffer.length)
    have hsplit : c.2.1 ++ c.2.2.input = conn.input := Fd.read_append_input
    obtain ⟨q, hq, hqe, hql, hkept, -⟩ := getReplies_spec (buffer ++ c.2.1)
    set g := getReplies (buffer ++ c.2.1)
    have hgq : g.1 = linesOf q := by rw [hql, hq, linesOf_append hqe, hkept, List.append_nil]
    have hinput : buffer ++ conn.input = q ++ (g.2 ++ c.2.2.input) := by
      rw [← hsplit, ← List.append_assoc, hq, List.append_assoc]
    have he' : EndsLine (g.2 ++ c.2.2.input) := he.of_suffix ⟨q, hinput.symm⟩
    have hsp := RunLines.split (show RunLines onLine s (g.1 ++ linesOf (g.2 ++ c.2.2.input)) res by
      rw [← hlines]; exact hrun)
    rcases hj : forLines onLine s g.1 with e | ⟨s₁, _ | _, left⟩ <;> rw [hj] at hsp <;>
      dsimp only at hsp ⊢
    · -- a line of this read throws
      subst hsp
      exact ⟨_, _, rfl, .inl ⟨rfl, fun h => by cases h⟩⟩
    · -- the reply goes on: the loop turns again with the bytes kept
      rw [forLines_left_of_false hj, if_neg (by simp), if_neg (by simp)]
      obtain ⟨r, c', hrun', hrep⟩ := ih hkept (hp.later Fd.later_read) he' hsp
        (show c.2.2.input.length < fuel by omega)
      rw [hinput]
      refine ⟨r, c', hrun', Replied.append hqe ?_ hrep⟩
      rw [← hgq]
      exact runLines_of_forLines (forLines_left_of_false hj ▸ hj)
    · -- the reply ends in this read: nothing is kept
      obtain ⟨rfl, hnil, rfl⟩ := hsp
      have hg : g.1 ≠ [] := by rintro h0; rw [h0] at hj; cases hj
      have hkept0 : g.2 = [] := getReplies_kept_of_last hg he' hnil
      rw [if_neg (by simp), if_pos rfl, hkept0]
      rw [hkept0, List.nil_append] at hnil
      exact ⟨_, _, rfl, .inl ⟨rfl, fun _ => hnil⟩⟩

/-- **A call whose reply has several lines runs exactly the reply's lines, however it is cut into
reads.** Its command written whole, on a stream socket carrying a reply that ends at a line end
and whose last line ends it, or one of whose lines throws, a call with a buffer of `bufSz` bytes
gives with enough fuel what running the reply's lines at once gives, leaving no line unread; or
its unconsumed-bytes error once `bufSz` bytes read gather with no complete line, the lines before
them run without ending the reply. -/
theorem multiCall_runs_lines {msg : String} {leftover : ℕ → String} {conn : Fd} {fuel : ℕ}
    (hsz : 0 < bufSz) (hw : conn.WritesAll msg.toList.length) (hp : conn.ReadsProgress)
    (he : EndsLine conn.input) (hrun : RunLines onLine s (linesOf conn.input) res)
    (hend : ∀ s', res ≠ .ok (s', false)) (hfuel : conn.input.length < fuel) :
    ∃ r conn', multiCall msg bufSz onLine unprocessed leftover fuel s conn = some (r, conn') ∧
      ((r = res.map (·.1) ∧ (res.isOk → linesOf conn'.input = [])) ∨
        ∃ consumed buffer s', conn.input = consumed ++ buffer ++ conn'.input ∧
          EndsLine consumed ∧ linesOf buffer = [] ∧ bufSz ≤ buffer.length ∧
          RunLines onLine s (linesOf consumed) (.ok (s', false)) ∧
          r = .error (leftover buffer.length)) := by
  have hin : ([] ++ (conn.write msg.toList).2.input) = conn.input := by
    rw [List.nil_append, Fd.write_input]
  obtain ⟨r, c', h, hrep⟩ : ∃ r c', replyLoop bufSz onLine unprocessed fuel s []
      (conn.write msg.toList).2 = some (r, c') ∧
      Replied onLine bufSz ([] ++ (conn.write msg.toList).2.input) s res r c' :=
    replyLoop_runs_lines rfl (hp.later Fd.later_write) (hin ▸ he) (hin ▸ hrun) hend
      (by rwa [Fd.write_input])
  rw [hin] at hrep
  rw [multiCall]
  simp only [Fd.write_fst_of_all hw le_rfl, ne_eq, not_true_eq_false, if_false, h, Option.map_some']
  refine ⟨_, c', rfl, ?_⟩
  rcases hrep with ⟨rfl, hi⟩ | ⟨cs, b, s', hl, hc, hb, hfull, hs', rfl⟩
  · refine .inl ⟨?_, hi⟩
    rcases res with e | ⟨s', f⟩ <;> rfl
  · exact .inr ⟨cs, b, s', hl, hc, hb, hfull, hs', if_neg (show ¬ b.length = 0 by omega)⟩

end Proxy

/-- **Both ends of a control connection take the stream's lines, however it is cut into reads.**
On a stream socket, whose reads bring from one byte up to the free space of the buffer, the
wrapper's loop on a stream whose complete lines all match a command ends with enough fuel, and
unless it has read 2 KiB holding no complete line, it has dispatched exactly `lines(S)`, in order,
once the peer closes the connection. A call of the proxy whose reply has several lines
(`listPath`, `dataChannelAddr`, `requestFileWrite` and `requestFileRead` are `multiCall` with
their bodies and buffer sizes) gives on a reply that ends at its terminating line what running
that reply's lines at once gives, with none of them left unread, unless it has read a full buffer
holding no complete line. -/
theorem control_lines_whatever_the_reads :
    (∀ {σ α : Type} (svc : Service σ α) (codec : Codec α) (fuel : ℕ) (w : Wrapper σ),
      w.conn.ReadsProgress → (∀ l ∈ linesOf w.conn.input, (parseCommand l).isSome) →
      w.conn.input.length < fuel →
      ∃ r w', Wrapper.handle svc codec fuel [] w = some (r, w') ∧
        Served svc codec w.conn.input w.server r w') ∧
    (∀ {S : Type} (msg : String) (bufSz : ℕ) (onLine : S → List Char → Except String (S × Bool))
      (unprocessed : String) (leftover : ℕ → String) (fuel : ℕ) (s : S) (conn : Fd)
      (res : Except String (S × Bool)),
      0 < bufSz → conn.WritesAll msg.toList.length → conn.ReadsProgress → EndsLine conn.input →
      RunLines onLine s (linesOf conn.input) res → (∀ s', res ≠ .ok (s', false)) →
      conn.input.length < fuel →
      ∃ r conn', multiCall msg bufSz onLine unprocessed leftover fuel s conn = some (r, conn') ∧
        ((r = res.map (·.1) ∧ (res.isOk → linesOf conn'.input = [])) ∨
          ∃ consumed buffer s', conn.input = consumed ++ buffer ++ conn'.input ∧
            EndsLine consumed ∧ linesOf buffer = [] ∧ bufSz ≤ buffer.length ∧
            RunLines onLine s (linesOf consumed) (.ok (s', false)) ∧
            r = .error (leftover buffer.length))) :=
  ⟨fun _ _ _ _ hp hparse hfuel => handle_serves_lines (show linesOf [] = [] from rfl) hp hparse hfuel,
    fun _ _ _ _ _ _ _ _ _ hsz hw hp he hrun hend hfuel =>
      multiCall_runs_lines hsz hw hp he hrun hend hfuel⟩

/-- Both ends reading one byte at a time: the wrapper reads `list /`, a `\r\n` and then
`remove-uuid U`, and dispatches both lines before its read fails at the end of the stream; the
proxy's loop of `listPath("/")` reads the reply `OK a`, `\r\n`, `OK` and returns the entry `a`,
with no line left unread. -/
theorem control_lines_one_byte_reads :
    (∃ w', Wrapper.handle (etdServer "U" bareHost) unitCodec 30 []
        ⟨(EtdRegistry.TransferMap.empty, 0),
          byteStream "list /\r\nremove-uuid U\n".toList, false⟩ =
        some (.error "Failed to read data from remote end", w') ∧
      w'.server = dispatchAll (etdServer "U" bareHost) unitCodec
        ["list /".toList, "remove-uuid U".toList] (EtdRegistry.TransferMap.empty, 0)) ∧
    ∃ conn', multiCall "list /\n" 16384 (listLine "listPath(/) failed - " .ok) unprocessedReply
        (fun _ => "") 20 ([], []) (byteStream "OK a\r\nOK\n".toList) =
        some (.ok ("OK".toList, ["a"]), conn') ∧ linesOf conn'.input = [] := by
  constructor
  · have hl : linesOf "list /\r\nremove-uuid U\n".toList =
        ["list /".toList, "remove-uuid U".toList] := by decide
    obtain ⟨r, w', h, ⟨rfl, -, hs⟩ | ⟨-, c, b, hin, -, -, hfull, -⟩⟩ :=
      control_lines_whatever_the_reads.1 (etdServer "U" bareHost) unitCodec 30
        ⟨(EtdRegistry.TransferMap.empty, 0),
          byteStream "list /\r\nremove-uuid U\n".toList, false⟩
        (fun _ _ => le_rfl) (by decide) (by decide)
    · exact ⟨w', h, hs.trans (by rw [← hl]; rfl)⟩
    · have hlen := congrArg List.length hin
      simp only [List.length_append] at hlen
      have : Wrapper.bufSz = 2048 := rfl
      have : (byteStream "list /\r\nremove-uuid U\n".toList).input.length = 22 := rfl
      omega
  · obtain ⟨r, c', h, ⟨rfl, hi⟩ | ⟨cs, b, s', hin, -, -, hfull, -⟩⟩ :=
      control_lines_whatever_the_reads.2 "list /\n" 16384 (listLine "listPath(/) failed - " .ok)
        unprocessedReply (fun _ => "") 20 ([], [])
        (byteStream "OK a\r\nOK\n".toList)
        (.ok (("OK".toList, ["a"]), true)) (by decide)
        (fun _ _ => show (("list /\n".toList.length : ℕ) : ℤ) ≤ EtdLockProtocol.bufSz by decide)
        (fun _ _ => le_rfl)
        (show EndsLine "OK a\r\nOK\n".toList from fun c hc => by cases hc; rfl)
        (show RunLines _ _ ["OK a".toList, "OK".toList] _ from .next rfl (.last rfl))
        (fun _ h => by cases h) (by decide)
    · exact ⟨c', h, hi rfl⟩
    · have hlen := congrArg List.length hin
      simp only [List.length_append] at hlen
      have : (byteStream "OK a\r\nOK\n".toList).input.length = 9 := rfl
      omega

end ETransfer.EtdLineFraming
