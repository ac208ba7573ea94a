import BareMetal.Gdb.Text

/-!
# A packet in the buffer

A packet is received into `cmd_buf` byte by byte until its `#`, which becomes a null byte, and
then the escapes in it are undone in place: `}` and a character stand for that character with a
bit turned over.

What is in the buffer behind a packet is what earlier ones have left there. Receiving stays in
the buffer just if the `#` comes in time (`BareMetal.Gdb.Monitor.recv_eq`,
`BareMetal.Gdb.Monitor.recv_error`). The escapes are undone up to the first null byte that is not
itself escaped (`BareMetal.Gdb.Monitor.unescaped`), and what comes out is written over what was
read, never ahead of it (`BareMetal.Gdb.Monitor.unescapeFrom_eq`). A packet that ends in `}`
escapes its null byte, and the scan goes on behind it.
-/

namespace BareMetal

namespace Gdb

namespace Monitor

/-! ### The line -/

/-- Some bytes come on the line, from its byte `i` on. -/
def Comes (line : ℕ → Byte) : ℕ → List Byte → Prop
  | _, [] => True
  | i, c :: bs => line i = c ∧ Comes line (i + 1) bs

/-- A line with some bytes on it, and nothing but null bytes behind them. -/
def lineOf (bs : List Byte) : ℕ → Byte := fun i => bs.getD i 0#8

section Line

variable {line : ℕ → Byte} {i : ℕ} {bs cs : List Byte}

theorem comes_append : Comes line i (bs ++ cs) ↔ Comes line i bs ∧ Comes line (i + bs.length) cs := by
  induction bs generalizing i with
  | nil => simp [Comes]
  | cons c bs ih =>
    rw [List.cons_append, Comes, ih, Comes, List.length_cons, and_assoc, Nat.add_right_comm,
      Nat.add_assoc]

theorem comes_lineOf (pre bs : List Byte) : Comes (lineOf (pre ++ bs)) pre.length bs := by
  induction bs generalizing pre with
  | nil => trivial
  | cons c bs ih =>
    have hrest := ih (pre ++ [c])
    rw [List.append_assoc, List.singleton_append, List.length_append, List.length_singleton] at hrest
    refine ⟨?_, hrest⟩
    simp [lineOf]

/-- Among the next bytes a `#` comes, or it does not. -/
theorem exists_packet (line : ℕ → Byte) (i n : ℕ) :
    (∃ body, body.length < n ∧ ch '#' ∉ body ∧ Comes line i (body ++ [ch '#'])) ∨
      ∃ body, body.length = n ∧ ch '#' ∉ body ∧ Comes line i body := by
  induction n generalizing i with
  | zero => exact .inr ⟨[], rfl, by simp, trivial⟩
  | succ n ih =>
    by_cases hc : line i = ch '#'
    · exact .inl ⟨[], by simp, by simp, hc, trivial⟩
    · have hnot : ∀ {body : List Byte}, ch '#' ∉ body → ch '#' ∉ line i :: body := by
        intro body hbody hmem
        rcases List.mem_cons.mp hmem with heq | hmem
        · exact hc heq.symm
        · exact hbody hmem
      rcases ih (i + 1) with ⟨body, hlen, hbody, hcomes⟩ | ⟨body, hlen, hbody, hcomes⟩
      · exact .inl ⟨line i :: body, by rw [List.length_cons]; omega, hnot hbody, rfl, hcomes⟩
      · exact .inr ⟨line i :: body, by rw [List.length_cons, hlen], hnot hbody, rfl, hcomes⟩

end Line

/-! ### Receiving -/

section Recv

variable {line : ℕ → Byte} {i : ℕ} {body : List Byte}

/-- **A packet that fits is received**, with its sum. -/
theorem recv_eq (hbody : ch '#' ∉ body) (hcomes : Comes line i (body ++ [ch '#'])) {p : Ptr}
    (hlen : body.length < p.length) (csum : Byte) :
    recv line i csum p =
      .ok (i + body.length, body.foldl (· + ·) csum, body ++ 0#8 :: p.drop (body.length + 1)) := by
  induction body generalizing i csum p with
  | nil =>
    match p, hlen with
    | x :: p, _ =>
      obtain ⟨hline, -⟩ := hcomes
      simp [recv, hline]
  | cons c body ih =>
    match p, hlen with
    | x :: p, hlen =>
      obtain ⟨rfl, hcomes⟩ := hcomes
      have hne : line i ≠ ch '#' := fun h => hbody (h ▸ List.mem_cons_self)
      have hrest := ih (fun h => hbody (List.mem_cons_of_mem _ h)) hcomes
        (Nat.lt_of_succ_lt_succ hlen) (csum + line i)
      simp only [recv, if_neg hne, hrest, bind, Except.bind, pure, Except.pure]
      rw [List.length_cons, Nat.add_right_comm, Nat.add_assoc]
      rfl

/-- **A packet that does not fit runs over the end.** -/
theorem recv_error (hbody : ch '#' ∉ body) (hcomes : Comes line i body) {p : Ptr}
    (hlen : p.length ≤ body.length) (csum : Byte) : recv line i csum p = .error .cmdBuf := by
  induction p generalizing i csum body with
  | nil => rfl
  | cons x p ih =>
    match body, hlen with
    | c :: body, hlen =>
      obtain ⟨rfl, hcomes⟩ := hcomes
      have hne : line i ≠ ch '#' := fun h => hbody (h ▸ List.mem_cons_self)
      simp only [recv, if_neg hne, bind, Except.bind]
      rw [ih (fun h => hbody (List.mem_cons_of_mem _ h)) hcomes (Nat.le_of_succ_le_succ hlen)]

end Recv

/-! ### Escapes -/

/-- **What is left of a text without its escapes**, up to a null byte that is not escaped; nothing
if there is none. -/
def unescaped : List Byte → Option (List Byte)
  | [] => none
  | c :: p =>
      if c = 0#8 then some []
      else if c ≠ ch '}' then (unescaped p).map (c :: ·)
      else match p with
        | [] => none
        | d :: p => (unescaped p).map ((d ^^^ 0x20#8) :: ·)

theorem unescaped_zero (p : List Byte) : unescaped (0#8 :: p) = some [] := by
  rw [unescaped.eq_def]
  rfl

theorem unescaped_plain {c : Byte} (hc : c ≠ 0#8) (hne : c ≠ ch '}') (p : List Byte) :
    unescaped (c :: p) = (unescaped p).map (c :: ·) := by
  rw [unescaped.eq_def]
  simp only [if_neg hc, if_pos hne]

theorem unescaped_escape (d : Byte) (p : List Byte) :
    unescaped (ch '}' :: d :: p) = (unescaped p).map ((d ^^^ 0x20#8) :: ·) := by
  rw [unescaped.eq_def]
  simp only [if_neg (show ch '}' ≠ 0#8 by decide), ne_eq, not_true_eq_false, if_false]

section Unescape

variable {p out : List Byte}

/-- What comes out is not longer than what was read. -/
theorem length_lt_of_unescaped (h : unescaped p = some out) : out.length < p.length := by
  fun_induction unescaped p generalizing out with
  | case1 => simp at h
  | case2 p =>
    obtain rfl := Option.some.inj h
    simp
  | case3 c p hc hne ih =>
    obtain ⟨out, hout, rfl⟩ := Option.map_eq_some_iff.mp h
    have := ih hout
    simp only [List.length_cons]
    omega
  | case4 => simp at h
  | case5 c hc hne d p ih =>
    obtain ⟨out, hout, rfl⟩ := Option.map_eq_some_iff.mp h
    have := ih hout
    simp only [List.length_cons]
    omega

/-- A text without escapes comes out as it is. -/
theorem unescaped_text {t : List Byte} (ht : IsText t) (hesc : ch '}' ∉ t) (q : List Byte) :
    unescaped (t ++ 0#8 :: q) = some t := by
  induction t with
  | nil => exact unescaped_zero q
  | cons c t ih =>
    obtain ⟨hc, ht⟩ := ht.tail
    have hne : c ≠ ch '}' := fun h => hesc (h ▸ List.mem_cons_self)
    rw [List.cons_append, unescaped_plain hc hne, ih ht fun h => hesc (List.mem_cons_of_mem c h),
      Option.map_some]

/-- What lies behind the null byte does not matter. -/
theorem unescaped_append (h : unescaped p = some out) (q : List Byte) :
    unescaped (p ++ q) = some out := by
  fun_induction unescaped p generalizing out with
  | case1 => simp at h
  | case2 p => exact (unescaped_zero _).trans h
  | case3 c p hc hne ih =>
    obtain ⟨out, hout, rfl⟩ := Option.map_eq_some_iff.mp h
    rw [List.cons_append, unescaped_plain hc hne, ih hout, Option.map_some]
  | case4 => simp at h
  | case5 c hc hne d p ih =>
    obtain rfl := not_not.mp hne
    obtain ⟨out, hout, rfl⟩ := Option.map_eq_some_iff.mp h
    rw [List.cons_append, List.cons_append, unescaped_escape, ih hout, Option.map_some]

theorem unescapeFrom_of_none {buf : List Byte} {r : ℕ} (hr : buf[r]? = none) (w : ℕ) :
    unescapeFrom buf w r = .error .cmdBuf := by
  rw [unescapeFrom.eq_def]
  split
  · rfl
  · rename_i v hv
    simp [hr] at hv

/-- A round of the loop. -/
theorem unescapeFrom_of_some {buf : List Byte} {r : ℕ} {v : Byte} (hr : buf[r]? = some v) {w : ℕ}
    (hw : w < buf.length) :
    unescapeFrom buf w r =
      if v = 0#8 then writeAt buf w [0#8]
      else if v ≠ ch '}' then unescapeFrom (buf.set w v) (w + 1) (r + 1)
      else match buf[r + 1]? with
        | none => .error .cmdBuf
        | some c => unescapeFrom (buf.set w (c ^^^ 0x20#8)) (w + 1) (r + 2) := by
  rw [unescapeFrom.eq_def]
  split
  · rename_i hv
    simp [hr] at hv
  · rename_i v' hv
    obtain rfl : v = v' := Option.some.inj (hr.symm.trans hv)
    exact congrArg (ite (v = 0#8) (writeAt buf w [0#8])) (if_pos hw)

/-- A buffer of which `done` has been written and `rest` may still be written over, with what
comes out of the rest and a null byte. -/
def closeAt (done rest : List Byte) : Option (List Byte) → Except Fault (List Byte)
  | none => .error .cmdBuf
  | some out => .ok (done ++ (out ++ 0#8 :: rest.drop (out.length + 1)))

/-- One character is written over the first that has been read. -/
theorem unescapeFrom_set (done gap : List Byte) (hgap : gap ≠ []) (v : Byte)
    (ih : ∀ done gap : List Byte,
      unescapeFrom (done ++ (gap ++ p)) done.length (done.length + gap.length) =
        closeAt done (gap ++ p) (unescaped p)) :
    unescapeFrom ((done ++ (gap ++ p)).set done.length v) (done.length + 1)
        (done.length + gap.length) =
      closeAt done (gap ++ p) ((unescaped p).map (v :: ·)) := by
  match gap, hgap with
  | g :: gap, _ =>
    have hrest := ih (done ++ [v]) gap
    rw [List.length_append, List.length_singleton, List.append_assoc, List.singleton_append] at hrest
    rw [List.cons_append, List.set_append_right done.length v (Nat.le_refl _), Nat.sub_self,
      List.set_cons_zero, List.length_cons, Nat.add_comm gap.length, ← Nat.add_assoc, hrest]
    cases unescaped p with
    | none => rfl
    | some out => simp [closeAt]

theorem getElem?_unread (done gap p : List Byte) (k : ℕ) :
    (done ++ (gap ++ p))[done.length + gap.length + k]? = p[k]? := by
  rw [← List.append_assoc, ← List.length_append,
    List.getElem?_append_right (Nat.le_add_right _ _), Nat.add_sub_cancel_left]

/-- A round of the loop, with a character to read. -/
theorem unescapeFrom_unread (done gap : List Byte) (v : Byte) (p : List Byte) :
    unescapeFrom (done ++ (gap ++ v :: p)) done.length (done.length + gap.length) =
      if v = 0#8 then closeAt done (gap ++ v :: p) (some [])
      else if v ≠ ch '}' then
        unescapeFrom ((done ++ (gap ++ v :: p)).set done.length v) (done.length + 1)
          (done.length + gap.length + 1)
      else match p with
        | [] => .error .cmdBuf
        | c :: _ =>
            unescapeFrom ((done ++ (gap ++ v :: p)).set done.length (c ^^^ 0x20#8))
              (done.length + 1) (done.length + gap.length + 2) := by
  have hlt : done.length < (done ++ (gap ++ v :: p)).length := by
    simp only [List.length_append, List.length_cons]
    omega
  have hwrite : writeAt (done ++ (gap ++ v :: p)) done.length [0#8] =
      closeAt done (gap ++ v :: p) (some []) := by
    rw [writeAt, List.length_singleton, if_pos (by omega), List.take_left, ← List.drop_drop,
      List.drop_left]
    rfl
  have hread : (done ++ (gap ++ v :: p))[done.length + gap.length]? = some v :=
    getElem?_unread done gap (v :: p) 0
  rw [unescapeFrom_of_some hread hlt, hwrite, getElem?_unread done gap (v :: p) 1]
  cases p <;> rfl

/-- **The escapes are undone in place.** Of the buffer, `done` has been written, `gap` has been
read and may be written over, and `p` is still to be read. -/
theorem unescapeFrom_eq (done gap p : List Byte) :
    unescapeFrom (done ++ (gap ++ p)) done.length (done.length + gap.length) =
      closeAt done (gap ++ p) (unescaped p) := by
  fun_induction unescaped p generalizing done gap with
  | case1 => exact unescapeFrom_of_none (getElem?_unread done gap [] 0) _
  | case2 p => rw [unescapeFrom_unread, if_pos rfl]
  | case3 c p hc hne ih =>
    have hset := unescapeFrom_set done (gap ++ [c]) (by simp) c ih
    rw [List.append_assoc gap, List.singleton_append, List.length_append, List.length_singleton,
      ← Nat.add_assoc] at hset
    rw [unescapeFrom_unread, if_neg hc, if_pos hne]
    exact hset
  | case4 c hc hne =>
    rw [unescapeFrom_unread, if_neg hc, if_neg hne]
    rfl
  | case5 c hc hne d p ih =>
    have hset := unescapeFrom_set done (gap ++ [c, d]) (by simp) (d ^^^ 0x20#8) ih
    rw [List.append_assoc gap, List.length_append, ← Nat.add_assoc] at hset
    rw [unescapeFrom_unread, if_neg hc, if_neg hne]
    exact hset

/-- **`unescape`**, on a whole buffer. -/
theorem unescapeFrom_zero (p : List Byte) : unescapeFrom p 0 0 = closeAt [] p (unescaped p) :=
  unescapeFrom_eq [] [] p

end Unescape

/-! ### A packet -/

/-- What `gdbstub_handle` does before it looks for a handler: its answer, and the state in which
the command is handled. -/
def accept (s : Stub) (line : ℕ → Byte) : Except Fault (Byte × Stub) := do
  let (n, csum, buf) ← recv line 0 0#8 s.cmdBuf
  let ack := ackPacket (readCsum (line (n + 1)) (line (n + 2)) == csum)
  let buf ← unescapeFrom buf 0 0
  return (ack, { s with cmdBuf := buf })

/-- An answer in front of what a handler sends. -/
def answered (ack : Byte) (r : Handled) : Handled := r.map fun r => (ack :: r.1, r.2)

/-- **The two halves of `gdbstub_handle`.** -/
theorem gdbstubHandle_eq_accept (s : Stub) (line : ℕ → Byte) :
    gdbstubHandle s line = (accept s line).bind fun r => answered r.1 (dispatch r.2) := by
  simp only [gdbstubHandle, accept, bind, Except.bind, pure, Except.pure]
  cases recv line 0 0#8 s.cmdBuf with
  | error e => rfl
  | ok r =>
    dsimp only
    cases unescapeFrom r.2.2 0 0 with
    | error e => rfl
    | ok buf =>
      dsimp only
      cases dispatch { s with cmdBuf := buf } <;> rfl

section Packet

variable {s : Stub} {line : ℕ → Byte} {body : List Byte}

/-- The buffer with a packet in it. -/
def Stub.received (s : Stub) (body : List Byte) : List Byte :=
  body ++ 0#8 :: s.cmdBuf.drop (body.length + 1)

/-- The state in which a packet is handled: the buffer holds what came out of it. -/
def Stub.holding (s : Stub) (body out : List Byte) : Stub :=
  { s with cmdBuf := out ++ 0#8 :: (s.received body).drop (out.length + 1) }

/-- **What is handled**, and the answer to it. -/
theorem accept_eq (hs : s.cmdBuf.length = 512) (hbody : ch '#' ∉ body) (hlen : body.length ≤ 511)
    (hcomes : Comes line 0 (body ++ [ch '#'])) :
    accept s line = match unescaped (s.received body) with
      | none => .error .cmdBuf
      | some out => .ok (ackPacket (readCsum (line (body.length + 1)) (line (body.length + 2)) ==
          body.foldl (· + ·) 0#8), s.holding body out) := by
  have hrecv := recv_eq hbody hcomes (p := s.cmdBuf) (by omega) 0#8
  rw [Nat.zero_add, ← Stub.received] at hrecv
  simp only [accept, hrecv, bind, Except.bind, unescapeFrom_zero]
  cases unescaped (s.received body) <;> rfl

/-- A packet that is too long is not handled. -/
theorem accept_error (hs : s.cmdBuf.length = 512) (hbody : ch '#' ∉ body) (hlen : 512 ≤ body.length)
    (hcomes : Comes line 0 body) : accept s line = .error .cmdBuf := by
  have hrecv := recv_error hbody hcomes (p := s.cmdBuf) (by omega) 0#8
  simp only [accept, hrecv, bind, Except.bind]

end Packet

end Monitor

end Gdb

end BareMetal
