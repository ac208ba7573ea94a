import BareMetal.Gdb.Receive
import BareMetal.Gdb.Registers

/-!
# Staying inside the packet buffer

Receiving a packet, undoing its escapes, reading it and building a reply all happen in one
buffer of 512 bytes, with lengths that the other side chooses.

The last byte of the buffer is null before the first packet and after every one
(`BareMetal.Gdb.Monitor.bufOk_of_reach`), and this is what ends every string that is read in it,
the stale bytes behind a packet included. So most handlers cannot leave the buffer. Two can: a
request to read more than 255 bytes has no room for its reply, and a request to write whose
doubled length wraps around makes the loop over its data run away
(`BareMetal.Gdb.Monitor.InBounds`). And a packet can leave it before it is handled: if its `#`
does not come in time, or if the scan for escapes finds one in the last byte but one
(`BareMetal.Gdb.Monitor.Contained`).
-/

namespace BareMetal

namespace Gdb

namespace Monitor

/-! ### Strings that end -/

/-- The text at the beginning of a buffer. -/
def textOf (buf : List Byte) : List Byte := buf.takeWhile (· ≠ 0#8)

section Ended

variable {p : Ptr}

theorem isText_textOf (buf : List Byte) : IsText (textOf buf) := by
  intro hmem
  have := List.mem_takeWhile_imp hmem
  simp at this

/-- What has a null byte in it is a text and more. -/
theorem exists_text (hp : 0#8 ∈ p) : ∃ b, p = textOf p ++ 0#8 :: b := by
  induction p with
  | nil => simp at hp
  | cons c p ih =>
    by_cases hc : c = 0#8
    · subst hc
      exact ⟨p, by simp [textOf]⟩
    · obtain ⟨b, hb⟩ := ih ((List.mem_cons.mp hp).resolve_left (Ne.symm hc))
      refine ⟨b, ?_⟩
      rw [textOf, List.takeWhile_cons_of_pos (by simpa using hc), ← textOf, List.cons_append, ← hb]

theorem textOf_append_zero (out b : List Byte) : textOf (out ++ 0#8 :: b) = textOf out := by
  induction out with
  | nil => simp [textOf]
  | cons c out ih =>
    rw [textOf] at ih
    by_cases hc : c = 0#8
    · simp [textOf, hc]
    · simp only [textOf, List.cons_append]
      rw [List.takeWhile_cons_of_pos (by simpa using hc),
        List.takeWhile_cons_of_pos (by simpa using hc), ih, textOf]

/-- **`read_hex` in a text** reads the digits it begins with. -/
theorem readHex_text (t b : List Byte) :
    readHex 0#32 (t ++ 0#8 :: b) =
      .ok (BitVec.ofNat 32 (readAs (t.takeWhile isHex)), t.dropWhile isHex ++ 0#8 :: b) := by
  have hds : AllHex (t.takeWhile isHex) := fun c hc => List.mem_takeWhile_imp hc
  have hsplit : t ++ 0#8 :: b = t.takeWhile isHex ++ (t.dropWhile isHex ++ 0#8 :: b) := by
    rw [← List.append_assoc, List.takeWhile_append_dropWhile]
  rw [hsplit]
  cases hrest : t.dropWhile isHex with
  | nil => exact readHex_zero hds isHex_zero b
  | cons c rest =>
    have hc : isHex c = false := by
      have hne : t.dropWhile isHex ≠ [] := by simp [hrest]
      have := List.head_dropWhile_not isHex hne
      simpa [hrest] using this
    exact readHex_zero hds hc (rest ++ 0#8 :: b)

theorem readHex_ended (hp : 0#8 ∈ p) : ∃ r, readHex 0#32 p = .ok r := by
  obtain ⟨b, hb⟩ := exists_text hp
  rw [hb]
  exact ⟨_, readHex_text _ b⟩

theorem strlen_ended (hp : 0#8 ∈ p) : strlen p = .ok (textOf p).length := by
  obtain ⟨b, hb⟩ := exists_text hp
  have := strlen_text (isText_textOf p) b
  rwa [← hb] at this

theorem readField_ended (hp : 0#8 ∈ p) {delim : Byte} (hdelim : isHex delim = false)
    (hzero : delim ≠ 0#8) : ∃ r, readField p delim = .ok r := by
  obtain ⟨b, hb⟩ := exists_text hp
  rw [hb]
  exact ⟨_, readField_text (isText_textOf p) hdelim hzero b⟩

end Ended

/-! ### The buffer in order -/

section Buf

variable {buf : List Byte}

theorem BufOk.zero_mem (h : BufOk buf) {k : ℕ} (hk : k ≤ 511) : 0#8 ∈ buf.drop k := by
  have hget : (buf.drop k)[511 - k]? = some 0#8 := by
    rw [List.getElem?_drop, Nat.add_sub_cancel' hk]
    exact h.last_eq
  exact List.mem_of_getElem? hget

/-- A text and another byte are written at the beginning. -/
theorem BufOk.splice (h : BufOk buf) {t : List Byte} (ht : t.length ≤ 511) {c : Byte}
    (hc : t.length = 511 → c = 0#8) : BufOk (t ++ c :: buf.drop (t.length + 1)) := by
  have hlen := h.length_eq
  constructor
  · rw [List.length_append, List.length_cons, List.length_drop]
    omega
  · rw [List.getElem?_append_right ht]
    rcases Nat.lt_or_eq_of_le ht with hlt | heq
    · have hidx : 511 - t.length = (511 - t.length - 1) + 1 := by omega
      have hsum : t.length + 1 + (511 - t.length - 1) = 511 := by omega
      rw [hidx, List.getElem?_cons_succ, List.getElem?_drop, hsum]
      exact h.last_eq
    · rw [heq, hc heq]
      rfl

end Buf

/-- **A handler keeps to the buffer**: it does not leave it, and it leaves it in order. -/
def Kept : Handled → Prop
  | .error e => e ≠ .cmdBuf
  | .ok (_, t) => BufOk t.cmdBuf

theorem Kept.ne_error {r : Handled} (h : Kept r) : r ≠ .error .cmdBuf := by
  rintro rfl
  exact h rfl

theorem kept_respond {s : Stub} (hs : BufOk s.cmdBuf) (msg : List Byte) : Kept (respond s msg) := hs

/-! ### Handlers that cannot leave the buffer -/

section Handlers

variable {s : Stub}

theorem readRegs_kept (hs : BufOk s.cmdBuf) : Kept (readRegs s) := by
  obtain ⟨c, hread⟩ := readRegs_eq hs.length_eq
  have hlen := length_regText s.regs
  have hsplice := hs.splice (t := regText s.regs) (by omega) (c := c) (by omega)
  rw [hlen] at hsplice
  rw [hread]
  exact kept_respond hsplice _

theorem regFromStr_ok (str : Ptr) (hlen : 8 ≤ str.length) : ∃ v, regFromStr str = .ok v := by
  obtain ⟨r, hr⟩ := readHex_ended (p := str.take 8 ++ [0#8]) (by simp)
  exact ⟨_, by simp only [regFromStr, slowMemcpy, if_pos hlen, bind, Except.bind, hr]; rfl⟩

theorem takeRegs_ok (msg : Ptr) (hlen : 17 * 8 ≤ msg.length) (ms : List (Fin 17))
    (regs : Fin 17 → BitVec 32) : ∃ regs', takeRegs msg ms regs = .ok regs' := by
  induction ms generalizing regs with
  | nil => exact ⟨regs, rfl⟩
  | cons m ms ih =>
    obtain ⟨v, hv⟩ := regFromStr_ok (msg.drop (m * 8)) (by rw [List.length_drop]; omega)
    obtain ⟨regs', hregs⟩ := ih (Function.update regs m v)
    exact ⟨regs', by simp only [takeRegs, hv, bind, Except.bind, hregs]⟩

theorem writeRegs_kept (hs : BufOk s.cmdBuf) : Kept (writeRegs s) := by
  have hlen : (s.cmdBuf.drop 1).length = 511 := by rw [List.length_drop, hs.length_eq]
  have hlast : 8 ≤ ((s.cmdBuf.drop 1).drop ((16 + extraRegs) * 8)).length := by
    rw [List.length_drop, hlen]
    decide
  obtain ⟨regs, hregs⟩ := takeRegs_ok (s.cmdBuf.drop 1) (by omega) lowRegs s.regs
  obtain ⟨v, hv⟩ := regFromStr_ok _ hlast
  simp only [writeRegs, strlen_ended (hs.zero_mem (k := 1) (by omega)), bind, Except.bind, hregs, hv]
  split
  · exact kept_respond hs _
  · exact hs

theorem doContinue_kept (hs : BufOk s.cmdBuf) : Kept (doContinue s) := by
  have hend : 0#8 ∈ s.cmdBuf := hs.zero_mem (k := 0) (by omega)
  rcases strchr_ended hend (show ch ';' ≠ 0#8 by decide) with hnone | ⟨q, hsome, hq⟩
  · simp only [doContinue, hnone, bind, Except.bind]
    exact kept_respond hs _
  · match q, hq with
    | c :: q, _ =>
      simp only [doContinue, hsome, bind, Except.bind, List.drop_succ_cons, List.drop_zero]
      split
      · exact hs
      · split
        · exact hs
        · exact kept_respond hs _

/-- The part of a breakpoint handler that deals with the table. -/
theorem bkptOp_kept {op : Stub → BitVec 32 → Except Fault (Bool × Stub)}
    (hop : ∀ addr, op s addr = .error .nullPointer ∨
      ∃ zero t, op s addr = .ok (zero, t) ∧ t.cmdBuf = s.cmdBuf) (hs : BufOk s.cmdBuf) :
    Kept (bkptOp s op) := by
  obtain ⟨r, hr⟩ := readField_ended (hs.zero_mem (k := 3) (by omega))
    (show isHex (ch ',') = false by decide) (by decide)
  simp only [bkptOp, hr, bind, Except.bind]
  cases r with
  | none => exact kept_respond hs _
  | some r =>
    rcases hop r.1 with herr | ⟨zero, t, hok, hbuf⟩
    · simp only [herr]
      exact Fault.noConfusion
    · simp only [hok]
      exact kept_respond (hbuf ▸ hs) _

theorem addBkpt_cmdBuf (s : Stub) (addr : BitVec 32) : addBkpt s addr = .error .nullPointer ∨
    ∃ zero t, addBkpt s addr = .ok (zero, t) ∧ t.cmdBuf = s.cmdBuf := by
  have hact : ∀ (s : Stub) (b : Fin 64), (activateBkpt s b).cmdBuf = s.cmdBuf := by
    intro s b
    rw [activateBkpt]
    split <;> rfl
  rw [addBkpt]
  cases findBkpt s addr with
  | some bp => exact .inr ⟨_, _, rfl, hact _ _⟩
  | none =>
    cases findBkpt s 0#32 with
    | none => exact .inl rfl
    | some bp => exact .inr ⟨_, _, rfl, hact _ _⟩

theorem delBkpt_cmdBuf (s : Stub) (addr : BitVec 32) : delBkpt s addr = .error .nullPointer ∨
    ∃ zero t, delBkpt s addr = .ok (zero, t) ∧ t.cmdBuf = s.cmdBuf := by
  rw [delBkpt]
  cases findBkpt s addr with
  | none => exact .inr ⟨_, _, rfl, rfl⟩
  | some bp => exact .inr ⟨_, _, rfl, rfl⟩

end Handlers

/-! ### The reply to `m` -/

section Read

variable {mem : BitVec 32 → Byte} {addr : BitVec 32}

/-- **The loop of `gdb_read_mem`** puts the digits of one byte behind those of the other. -/
theorem putMem_append (mem : BitVec 32 → Byte) (addr : BitVec 32) (k m : ℕ)
    (pre rest : List Byte) (c : Byte) (hpre : pre.length = m * 2) (hrest : 2 * k ≤ rest.length) :
    ∃ c', putMem mem addr k m (pre ++ c :: rest) =
      .ok ((pre ++ (peek mem (addr + BitVec.ofNat 32 m) k).flatMap hexByte) ++
        c' :: rest.drop (2 * k)) := by
  induction k generalizing m pre rest c with
  | zero => exact ⟨c, by simp [putMem, peek]⟩
  | succ k ih =>
    have hbyte : pre.length + 2 = (m + 1) * 2 := by omega
    obtain ⟨c', hput⟩ := ih (m + 1) (pre ++ hexByte (mem (addr + BitVec.ofNat 32 m))) (rest.drop 2)
      0#8 (by rw [List.length_append, length_hexByte, hbyte]) (by rw [List.length_drop]; omega)
    have hlen : 2 + 2 * k = 2 * (k + 1) := by omega
    rw [List.drop_drop, hlen, BitVec.ofNat_add, ← BitVec.add_assoc,
      List.append_assoc pre _ (List.flatMap _ _), ← List.flatMap_cons, ← peek_succ] at hput
    refine ⟨c', ?_⟩
    simp only [putMem, ← hpre, putHexByte_append _ (show 2 ≤ rest.length by omega), bind,
      Except.bind]
    exact hput

theorem putHexByte_error {buf : List Byte} {dst : ℕ} (hlen : buf.length < dst + 3) (b : Byte) :
    putHexByte buf dst b = .error .cmdBuf :=
  if_neg (by rw [List.length_append, length_hexByte, List.length_singleton]; omega)

theorem putHexByte_ok (buf : List Byte) {dst : ℕ} (hlen : dst + 3 ≤ buf.length) (b : Byte) :
    ∃ buf', putHexByte buf dst b = .ok buf' ∧ buf'.length = buf.length := by
  have hle : dst + (hexByte b ++ [0#8]).length ≤ buf.length := by
    rw [List.length_append, length_hexByte, List.length_singleton]
    omega
  refine ⟨_, if_pos hle, ?_⟩
  simp only [List.length_append, List.length_take, List.length_drop, length_hexByte,
    List.length_singleton]
  omega

/-- **A reply of 256 bytes or more does not fit.** -/
theorem putMem_error {k m : ℕ} {buf : List Byte} (hbuf : buf.length = 512) (hk : 0 < k)
    (hlong : 256 ≤ m + k) : putMem mem addr k m buf = .error .cmdBuf := by
  induction k generalizing m buf with
  | zero => omega
  | succ k ih =>
    by_cases hm : m ≤ 254
    · obtain ⟨buf', hput, hlen⟩ := putHexByte_ok buf (show m * 2 + 3 ≤ buf.length by omega)
        (mem (addr + BitVec.ofNat 32 m))
      simp only [putMem, hput, bind, Except.bind]
      exact ih (hlen.trans hbuf) (by omega) (by omega)
    · simp only [putMem, putHexByte_error (show buf.length < m * 2 + 3 by omega), bind, Except.bind]

/-- The number of bytes that a request to read asks for, as it is read. -/
def askedLen (u : List Byte) : Option ℕ :=
  (splitField (ch ',') u).map fun f => readAs (f.2.takeWhile isHex) % 2 ^ 32

/-- What `gdb_read_mem` does once the request has been read. -/
def replyMem (s : Stub) (addr : BitVec 32) (len : ℕ) : Handled := do
  let buf ← putMem s.mem addr len 0 s.cmdBuf
  let n ← strlen buf
  respond { s with cmdBuf := buf } (buf.take n)

variable {s : Stub} {u b : List Byte}

/-- **What `gdb_read_mem` does**, up to its loop. -/
theorem gdbReadMem_eq (hbuf : s.cmdBuf = (ch 'm' :: u) ++ 0#8 :: b) :
    gdbReadMem s = match splitField (ch ',') u with
      | none => respond s (lit "E01")
      | some f => replyMem s (BitVec.ofNat 32 (readAs f.1))
          (readAs (f.2.takeWhile isHex) % 2 ^ 32) := by
  simp only [gdbReadMem, drop_command hbuf, readHex_text, bind, Except.bind, splitField_eq, replyMem]
  cases u.dropWhile isHex with
  | nil => rfl
  | cons c rest =>
    by_cases hc : c = ch ','
    · simp only [List.cons_append, hc, ne_eq, not_true_eq_false, if_false, if_true, readHex_text,
        BitVec.toNat_ofNat]
    · simp only [List.cons_append, ne_eq, hc, not_false_eq_true, if_true, if_false]

theorem length_memText (mem : BitVec 32 → Byte) (addr : BitVec 32) (len : ℕ) :
    ((peek mem addr len).flatMap hexByte).length = 2 * len := by
  rw [length_flatMap_const length_hexByte, length_peek]

/-- **The text of a reply**, in a whole buffer. -/
theorem putMem_eq (mem : BitVec 32 → Byte) (addr : BitVec 32) {buf : List Byte}
    (hbuf : buf.length = 512) {len : ℕ} (hlen : len ≤ 255) :
    ∃ c, putMem mem addr len 0 buf =
      .ok ((peek mem addr len).flatMap hexByte ++ c :: buf.drop (2 * len + 1)) := by
  match buf, hbuf with
  | c :: rest, hbuf =>
    rw [List.length_cons, Nat.add_right_cancel_iff] at hbuf
    obtain ⟨c', hput⟩ := putMem_append mem addr len 0 [] rest c rfl (by omega)
    rw [List.nil_append, List.nil_append, BitVec.add_zero] at hput
    exact ⟨c', hput⟩

/-- A reply of at most 255 bytes fits, with its null byte, … -/
theorem replyMem_kept (hs : BufOk s.cmdBuf) {len : ℕ} (hlen : len ≤ 255) :
    Kept (replyMem s addr len) := by
  obtain ⟨c, hput⟩ := putMem_eq s.mem addr hs.length_eq hlen
  have htext := length_memText s.mem addr len
  have hsplice := hs.splice (t := (peek s.mem addr len).flatMap hexByte) (by omega) (c := c)
    (by omega)
  rw [htext] at hsplice
  have hend := hsplice.zero_mem (k := 0) (by omega)
  rw [List.drop_zero] at hend
  simp only [replyMem, hput, bind, Except.bind, strlen_ended hend]
  exact hsplice

/-- … and a longer one does not. -/
theorem replyMem_error (hs : BufOk s.cmdBuf) {len : ℕ} (hlen : 255 < len) :
    replyMem s addr len = .error .cmdBuf := by
  simp only [replyMem, putMem_error hs.length_eq (show 0 < len by omega)
    (show 256 ≤ 0 + len by omega), bind, Except.bind]

theorem gdbReadMem_kept (hs : BufOk s.cmdBuf) (hbuf : s.cmdBuf = (ch 'm' :: u) ++ 0#8 :: b)
    (hlen : ∀ n, askedLen u = some n → n ≤ 255) : Kept (gdbReadMem s) := by
  rw [gdbReadMem_eq hbuf]
  cases hf : splitField (ch ',') u with
  | none => exact kept_respond hs _
  | some f => exact replyMem_kept hs (hlen _ (by rw [askedLen, hf, Option.map_some]))

theorem gdbReadMem_error (hs : BufOk s.cmdBuf) (hbuf : s.cmdBuf = (ch 'm' :: u) ++ 0#8 :: b) {n : ℕ}
    (hasked : askedLen u = some n) (hn : 255 < n) : gdbReadMem s = .error .cmdBuf := by
  rw [gdbReadMem_eq hbuf]
  obtain ⟨f, hf, rfl⟩ := Option.map_eq_some_iff.mp hasked
  rw [hf]
  exact replyMem_error hs hn

end Read

/-! ### The loop of `M` -/

section Write

variable {s : Stub} {u b : List Byte} {mem : BitVec 32 → Byte} {addr : BitVec 32}

theorem readByte_ok (p : Ptr) (hp : 2 ≤ p.length) : ∃ v, readByte p = .ok v := by
  obtain ⟨r, hr⟩ := readHex_ended (p := p.take 2 ++ [0#8]) (by simp)
  exact ⟨_, by simp only [readByte, slowMemcpy, if_pos hp, bind, Except.bind, hr]; rfl⟩

theorem readByte_error {p : Ptr} (hp : p.length < 2) : readByte p = .error .cmdBuf := by
  simp only [readByte, slowMemcpy, if_neg (Nat.not_le.mpr hp), bind, Except.bind]

/-- The loop over the bytes ends if the buffer has two characters for each, … -/
theorem putBytes_ok {k m : ℕ} {p : Ptr} (hp : 2 * k ≤ p.length) :
    ∃ mem', putBytes addr k m p mem = .ok (some mem') := by
  induction k generalizing m p mem with
  | zero => exact ⟨mem, rfl⟩
  | succ k ih =>
    obtain ⟨v, hv⟩ := readByte_ok p (by omega)
    simp only [putBytes, hv, bind, Except.bind, writeMem_one]
    exact ih (by rw [List.length_drop]; omega)

/-- … and runs over its end if not. -/
theorem putBytes_error {k m : ℕ} {p : Ptr} (hp : p.length < 2 * k) :
    putBytes addr k m p mem = .error .cmdBuf := by
  induction k generalizing m p mem with
  | zero => omega
  | succ k ih =>
    by_cases hshort : p.length < 2
    · simp only [putBytes, readByte_error hshort, bind, Except.bind]
    · obtain ⟨v, hv⟩ := readByte_ok p (by omega)
      simp only [putBytes, hv, bind, Except.bind, writeMem_one]
      exact ih (by rw [List.length_drop]; omega)

/-- The data of a request whose length does not wrap around are stored, … -/
theorem storeData_ok (mem : BitVec 32 → Byte) (addr : BitVec 32) {len : BitVec 32} {d : List Byte}
    (b : List Byte) (hd : 2 * len.toNat ≤ d.length) :
    ∃ mem', storeData mem addr len (d ++ 0#8 :: b) = .ok (some mem') := by
  rw [storeData]
  split
  · rename_i hlen
    simp only [readHex_text, bind, Except.bind, pure, Except.pure]
    rcases hlen with rfl | rfl
    · exact ⟨_, rfl⟩
    · exact ⟨_, rfl⟩
  · exact putBytes_ok (by rw [List.length_append]; omega)

/-- … and with another the loop leaves the buffer. -/
theorem storeData_error {len : BitVec 32} {p : Ptr} (hp : p.length ≤ 512)
    (hlen : 2 ^ 31 ≤ len.toNat) : storeData mem addr len p = .error .cmdBuf := by
  have hne : ¬(len = 2#32 ∨ len = 4#32) := by
    rintro (rfl | rfl)
    · exact absurd hlen (by decide)
    · exact absurd hlen (by decide)
  rw [storeData, if_neg hne]
  exact putBytes_error (by omega)

theorem gdbWriteMem_kept (hs : BufOk s.cmdBuf) (hu : IsText u)
    (hbuf : s.cmdBuf = (ch 'M' :: u) ++ 0#8 :: b)
    (hlen : ∀ a l d, request u = some (a, l, d) → LengthOk l d → readAs l % 2 ^ 32 < 2 ^ 31) :
    Kept (gdbWriteMem s) := by
  cases hreq : request u with
  | none =>
    rw [gdbWriteMem_of_none hu hbuf hreq]
    exact kept_respond hs _
  | some f =>
    obtain ⟨a, l, d⟩ := f
    by_cases hok : LengthOk l d
    · have hshort := hlen a l d hreq hok
      have htwice : 2 * (BitVec.ofNat 32 (readAs l)).toNat ≤ d.length := by
        have hnat := congrArg BitVec.toNat hok
        rw [BitVec.toNat_mul, BitVec.toNat_ofNat, BitVec.toNat_ofNat, BitVec.toNat_ofNat] at hnat
        rw [BitVec.toNat_ofNat]
        omega
      obtain ⟨mem, hstore⟩ := storeData_ok s.mem (BitVec.ofNat 32 (readAs a)) b htwice
      simp only [gdbWriteMem, readRequest_drop hu hbuf, hreq, Option.bind_some, if_pos hok, bind,
        Except.bind, hstore]
      exact hs
    · rw [gdbWriteMem_of_length hu hbuf hreq hok]
      exact kept_respond hs _

theorem gdbWriteMem_error (hs : BufOk s.cmdBuf) (hu : IsText u)
    (hbuf : s.cmdBuf = (ch 'M' :: u) ++ 0#8 :: b) {a l d : List Byte}
    (hreq : request u = some (a, l, d)) (hok : LengthOk l d) (hlong : 2 ^ 31 ≤ readAs l % 2 ^ 32) :
    gdbWriteMem s = .error .cmdBuf := by
  have hp : (d ++ 0#8 :: b).length ≤ 512 := by
    have hlen := hs.length_eq
    rw [hbuf, (request_eq_some_iff.mp hreq).1] at hlen
    simp only [List.length_append, List.length_cons] at hlen ⊢
    omega
  have hlen : 2 ^ 31 ≤ (BitVec.ofNat 32 (readAs l)).toNat := by rwa [BitVec.toNat_ofNat]
  simp only [gdbWriteMem, readRequest_drop hu hbuf, hreq, Option.bind_some, if_pos hok, bind,
    Except.bind, storeData_error hp hlen]

end Write

/-! ### One command -/

/-- **A command that keeps to the buffer**: a request to read asks for at most 255 bytes, and the
doubled length of a request to write that is accepted does not wrap around. -/
structure InBounds (cmd : List Byte) : Prop where
  read : ∀ u, cmd = ch 'm' :: u → ∀ n, askedLen u = some n → n ≤ 255
  write : ∀ u, cmd = ch 'M' :: u → ∀ a l d, request u = some (a, l, d) → LengthOk l d →
    readAs l % 2 ^ 32 < 2 ^ 31

section Dispatch

variable {s : Stub} {cmd : List Byte}

theorem strncmp_ok {pfx : List Byte} {p : Ptr} (hlen : pfx.length ≤ p.length) :
    ∃ r, strncmp pfx p = .ok r := by
  induction pfx generalizing p with
  | nil => exact ⟨true, rfl⟩
  | cons a pfx ih =>
    match p, hlen with
    | c :: p, hlen =>
      rw [strncmp]
      split
      · exact ih (Nat.le_of_succ_le_succ hlen)
      · exact ⟨false, rfl⟩

theorem lookupIn_ok {p : Ptr} {hs : List (String × CmdHandler)}
    (hlen : ∀ e ∈ hs, (lit e.1).length ≤ p.length) : ∃ r, lookupIn p hs = .ok r := by
  induction hs with
  | nil => exact ⟨none, rfl⟩
  | cons e hs ih =>
    obtain ⟨he, hhs⟩ := List.forall_mem_cons.mp hlen
    obtain ⟨r, hr⟩ := strncmp_ok he
    obtain ⟨r', hr'⟩ := ih hhs
    cases r with
    | true => exact ⟨some e.2, by simp only [lookupIn, hr, bind, Except.bind, if_true]; rfl⟩
    | false =>
      refine ⟨r', ?_⟩
      simpa only [lookupIn, hr, bind, Except.bind, Bool.false_eq_true, if_false] using hr'

theorem lookupCmdhandler_ok {p : Ptr} (hp : p.length = 512) : ∃ r, lookupCmdhandler p = .ok r := by
  have hlen : ∀ e ∈ handlers, (lit e.1).length ≤ 11 := by decide
  refine lookupIn_ok fun e he => ?_
  have := hlen e he
  omega

/-- What is found in the table is in it, and the command begins with its text. -/
theorem mem_of_lookupIn {p : Ptr} {hs : List (String × CmdHandler)} {h : CmdHandler}
    (hfound : lookupIn p hs = .ok (some h)) :
    ∃ pfx, (pfx, h) ∈ hs ∧ strncmp (lit pfx) p = .ok true := by
  induction hs with
  | nil => simp [lookupIn] at hfound
  | cons e hs ih =>
    simp only [lookupIn, bind, Except.bind] at hfound
    cases hcmp : strncmp (lit e.1) p with
    | error err => simp [hcmp] at hfound
    | ok r =>
      rw [hcmp] at hfound
      cases r with
      | true =>
        have heq : e.2 = h := by simpa [pure, Except.pure] using hfound
        exact ⟨e.1, heq ▸ List.mem_cons_self, hcmp⟩
      | false =>
        obtain ⟨pfx, hmem, hok⟩ := ih (by simpa using hfound)
        exact ⟨pfx, List.mem_cons_of_mem e hmem, hok⟩

/-- A handler with one text of one character. -/
theorem exists_cons_of_lookup {p : Ptr} {h : CmdHandler} {c : Char}
    (honly : ∀ e ∈ handlers, e.2 = h → lit e.1 = [ch c])
    (hfound : lookupCmdhandler p = .ok (some h)) : ∃ q, p = ch c :: q := by
  obtain ⟨pfx, hmem, hcmp⟩ := mem_of_lookupIn hfound
  rw [honly _ hmem rfl] at hcmp
  match p, hcmp with
  | x :: p, hcmp =>
    rw [strncmp] at hcmp
    split at hcmp
    · rename_i heq
      exact ⟨p, by rw [heq]⟩
    · simp at hcmp

theorem lookupCmdhandler_m (q : Ptr) : lookupCmdhandler (ch 'm' :: q) = .ok (some .gdbReadMem) := rfl

theorem lookupCmdhandler_M (q : Ptr) : lookupCmdhandler (ch 'M' :: q) = .ok (some .gdbWriteMem) := rfl

theorem Holds.exists_cons (h : Holds s.cmdBuf cmd) {c : Byte} (hc : c ≠ 0#8) {q : List Byte}
    (hq : s.cmdBuf = c :: q) : ∃ u b, cmd = c :: u ∧ s.cmdBuf = (c :: u) ++ 0#8 :: b := by
  obtain ⟨b, hb⟩ := h.eq
  match cmd, hb with
  | [], hb => exact absurd (List.cons.inj (hq.symm.trans hb)).1 hc
  | x :: u, hb =>
    obtain rfl := (List.cons.inj (hq.symm.trans hb)).1
    exact ⟨u, b, rfl, hb⟩

/-- **A command in bounds keeps to the buffer**, … -/
theorem dispatch_kept (hcmd : IsText cmd) (hs : Holds s.cmdBuf cmd) (hin : InBounds cmd) :
    Kept (dispatch s) := by
  obtain ⟨r, hr⟩ := lookupCmdhandler_ok hs.ok.length_eq
  simp only [dispatch, hr, bind, Except.bind]
  cases r with
  | none => exact kept_respond hs.ok _
  | some h =>
    cases h with
    | qsupported => exact kept_respond hs.ok _
    | stopStatus => exact kept_respond hs.ok _
    | readRegs => exact readRegs_kept hs.ok
    | writeRegs => exact writeRegs_kept hs.ok
    | gdbReadMem =>
      obtain ⟨q, hq⟩ := exists_cons_of_lookup (c := 'm') (by decide) hr
      obtain ⟨u, b, rfl, hb⟩ := hs.exists_cons (by decide) hq
      exact gdbReadMem_kept hs.ok hb (hin.read u rfl)
    | gdbWriteMem =>
      obtain ⟨q, hq⟩ := exists_cons_of_lookup (c := 'M') (by decide) hr
      obtain ⟨u, b, rfl, hb⟩ := hs.exists_cons (by decide) hq
      exact gdbWriteMem_kept hs.ok hcmd.tail.2 hb (hin.write u rfl)
    | removeBkpt => exact bkptOp_kept (delBkpt_cmdBuf s) hs.ok
    | insertBkpt => exact bkptOp_kept (addBkpt_cmdBuf s) hs.ok
    | vcontQuery => exact kept_respond hs.ok _
    | doContinue => exact doContinue_kept hs.ok
    | qattached => exact kept_respond hs.ok _
    | detach => exact hs.ok

/-- … and any other leaves it. -/
theorem dispatch_error (hcmd : IsText cmd) (hs : Holds s.cmdBuf cmd) (hin : ¬InBounds cmd) :
    dispatch s = .error .cmdBuf := by
  obtain ⟨b, hb⟩ := hs.eq
  by_cases hread : ∀ u, cmd = ch 'm' :: u → ∀ n, askedLen u = some n → n ≤ 255
  · have hwrite : ¬∀ u, cmd = ch 'M' :: u → ∀ a l d, request u = some (a, l, d) → LengthOk l d →
        readAs l % 2 ^ 32 < 2 ^ 31 := fun hwrite => hin ⟨hread, hwrite⟩
    push Not at hwrite
    obtain ⟨u, rfl, a, l, d, hreq, hok, hlong⟩ := hwrite
    have hlook : lookupCmdhandler s.cmdBuf = .ok (some .gdbWriteMem) := by
      rw [hb]
      exact lookupCmdhandler_M _
    simp only [dispatch, hlook, bind, Except.bind]
    exact gdbWriteMem_error hs.ok hcmd.tail.2 hb hreq hok hlong
  · push Not at hread
    obtain ⟨u, rfl, n, hasked, hn⟩ := hread
    have hlook : lookupCmdhandler s.cmdBuf = .ok (some .gdbReadMem) := by
      rw [hb]
      exact lookupCmdhandler_m _
    simp only [dispatch, hlook, bind, Except.bind]
    exact gdbReadMem_error hs.ok hb hasked hn

end Dispatch

/-! ### One packet -/

section Packet

variable {s : Stub} {line : ℕ → Byte} {body out : List Byte}

/-- **A packet**: received, its escapes undone, and handled. -/
theorem gdbstubHandle_eq (hs : BufOk s.cmdBuf) (hbody : ch '#' ∉ body) (hlen : body.length ≤ 511)
    (hcomes : Comes line 0 (body ++ [ch '#'])) :
    gdbstubHandle s line = match unescaped (s.received body) with
      | none => .error .cmdBuf
      | some out => answered (ackPacket (readCsum (line (body.length + 1)) (line (body.length + 2)) ==
          body.foldl (· + ·) 0#8)) (dispatch (s.holding body out)) := by
  rw [gdbstubHandle_eq_accept, accept_eq hs.length_eq hbody hlen hcomes]
  cases unescaped (s.received body) <;> rfl

theorem holds_holding (hs : BufOk s.cmdBuf) (hlen : body.length ≤ 511)
    (hout : unescaped (s.received body) = some out) :
    Holds (s.holding body out).cmdBuf (textOf out) := by
  have hrecv : BufOk (s.received body) := hs.splice hlen fun _ => rfl
  have hlt := length_lt_of_unescaped hout
  rw [hrecv.length_eq] at hlt
  have hok : BufOk (s.holding body out).cmdBuf := hrecv.splice (by omega) fun _ => rfl
  have hend := hok.zero_mem (k := 0) (by omega)
  rw [List.drop_zero] at hend
  obtain ⟨b, hb⟩ := exists_text hend
  refine ⟨hok, b, ?_⟩
  rwa [Stub.holding, textOf_append_zero] at hb

/-- **A packet that stays in the buffer**, given what is left in it: its `#` is among the first 512
bytes, the scan for escapes ends, and the command that comes out is in bounds. -/
def Contained (s : Stub) (line : ℕ → Byte) : Prop :=
  ∃ body out, ch '#' ∉ body ∧ body.length ≤ 511 ∧ Comes line 0 (body ++ [ch '#']) ∧
    unescaped (s.received body) = some out ∧ InBounds (textOf out)

theorem gdbstubHandle_kept (hs : BufOk s.cmdBuf) (h : Contained s line) :
    Kept (gdbstubHandle s line) := by
  obtain ⟨body, out, hbody, hlen, hcomes, hout, hin⟩ := h
  have hkept := dispatch_kept (isText_textOf out) (holds_holding hs hlen hout) hin
  rw [gdbstubHandle_eq hs hbody hlen hcomes, hout]
  dsimp only
  cases hd : dispatch (s.holding body out) with
  | error e =>
    rw [hd] at hkept
    exact hkept
  | ok r =>
    rw [hd] at hkept
    exact hkept

theorem gdbstubHandle_error (hs : BufOk s.cmdBuf) (h : ¬Contained s line) :
    gdbstubHandle s line = .error .cmdBuf := by
  rcases exists_packet line 0 512 with ⟨body, hlen, hbody, hcomes⟩ | ⟨body, hlen, hbody, hcomes⟩
  · rw [gdbstubHandle_eq hs hbody (by omega) hcomes]
    cases hout : unescaped (s.received body) with
    | none => rfl
    | some out =>
      have hin : ¬InBounds (textOf out) := fun hin =>
        h ⟨body, out, hbody, by omega, hcomes, hout, hin⟩
      simp only [dispatch_error (isText_textOf out) (holds_holding hs (by omega) hout) hin]
      rfl
  · rw [gdbstubHandle_eq_accept, accept_error hs.length_eq hbody (by omega) hcomes]
    rfl

end Packet

/-! ### Packet after packet -/

/-- A round of `gdbstub_io_handler` that goes well: a byte comes, and what follows it on the
line. -/
def ioStep (s : Stub) (e : Byte × (ℕ → Byte)) (out : List Byte) (t : Stub) : Prop :=
  ioRound s e.1 e.2 = .ok (out, t)

theorem bufOk_init (mem : BitVec 32 → Byte) (regs : Fin 17 → BitVec 32) :
    BufOk (Stub.init mem regs).cmdBuf where
  length_eq := List.length_replicate
  last_eq := by rw [Stub.init, List.getElem?_replicate, if_pos (by omega)]

/-- A round leaves the buffer in order, … -/
theorem bufOk_of_ioStep {s t : Stub} {e : Byte × (ℕ → Byte)} {out : List Byte} (hs : BufOk s.cmdBuf)
    (hstep : ioStep s e out t) : BufOk t.cmdBuf := by
  have hkept : Kept (ioRound s e.1 e.2) ∨ ioRound s e.1 e.2 = .error .cmdBuf := by
    rw [ioRound]
    split
    · exact .inl hs
    · split
      · exact .inl hs
      · split
        · by_cases h : Contained s e.2
          · exact .inl (gdbstubHandle_kept hs h)
          · exact .inr (gdbstubHandle_error hs h)
        · split
          · exact .inl Fault.noConfusion
          · exact .inl (kept_respond hs _)
  rw [show ioRound s e.1 e.2 = .ok (out, t) from hstep] at hkept
  exact hkept.resolve_right fun h => by cases h

/-- … and so **it is in order in every state that is reached**. -/
theorem bufOk_of_reach {mem : BitVec 32 → Byte} {regs : Fin 17 → BitVec 32}
    {h : List ((Byte × (ℕ → Byte)) × List Byte)} {s : Stub}
    (hr : Reach ioStep Always (Stub.init mem regs) h s) : BufOk s.cmdBuf :=
  hr.invariant (fun _ s => BufOk s.cmdBuf) (bufOk_init mem regs)
    fun _ _ _ _ _ hs _ hstep => bufOk_of_ioStep hs hstep

/-- **A packet is handled within the buffer.** -/
def StaysInBuffer (s : Stub) (line : ℕ → Byte) : Prop := gdbstubHandle s line ≠ .error .cmdBuf

/-- **When the stub stays in its buffer**: whatever has come on the line before, just when the
packet is contained. -/
theorem staysInBuffer_iff {mem : BitVec 32 → Byte} {regs : Fin 17 → BitVec 32}
    {h : List ((Byte × (ℕ → Byte)) × List Byte)} {s : Stub}
    (hr : Reach ioStep Always (Stub.init mem regs) h s) (line : ℕ → Byte) :
    StaysInBuffer s line ↔ Contained s line := by
  have hs := bufOk_of_reach hr
  constructor
  · intro hstay
    by_contra hcon
    exact hstay (gdbstubHandle_error hs hcon)
  · intro hcon
    exact (gdbstubHandle_kept hs hcon).ne_error

/-- The stub before the first packet, with nothing in memory. -/
def blankStub : Stub := Stub.init (fun _ => 0#8) fun _ => 0#32

/-- The stub after a packet, of which it needs the first character only. -/
def staleStub : Stub := blankStub.holding (lit "?aaaaaaaa") (lit "?aaaaaaaa")

theorem staleStub_cmdBuf : ∃ b, staleStub.cmdBuf = lit "?aaaaaaaa" ++ 0#8 :: b := ⟨_, rfl⟩

theorem dispatch_staleStub : dispatch staleStub = respond staleStub (lit "S05") := by
  obtain ⟨b, hb⟩ := staleStub_cmdBuf
  have hlook : lookupCmdhandler staleStub.cmdBuf = .ok (some .stopStatus) := by
    rw [hb]
    rfl
  simp only [dispatch, hlook, bind, Except.bind]
  rfl

theorem unescaped_staleStub :
    unescaped (staleStub.received (lit "m0,ff\x7d")) = some (lit "m0,ff aa") := by
  obtain ⟨b, hb⟩ := staleStub_cmdBuf
  rw [Stub.received, hb]
  exact unescaped_append (p := lit "m0,ff\x7d" ++ 0#8 :: lit "aa" ++ [0#8]) (by decide) b

/-- The second packet ends in an escape, which takes away its null byte: two characters of the first
packet belong to the request, which is for as many bytes as fit. -/
theorem staysInBuffer_iff_stale :
    Reach ioStep Always (Stub.init (fun _ => 0#8) fun _ => 0#32)
        [((ch '$', lineOf (lit "?aaaaaaaa#47")), ch '+' :: sendResponse (lit "S05"))] staleStub ∧
      unescaped (staleStub.received (lit "m0,ff\x7d")) = some (lit "m0,ff aa") ∧
      StaysInBuffer staleStub (lineOf (lit "m0,ff\x7d#12")) := by
  have hreach : Reach ioStep Always (Stub.init (fun _ => 0#8) fun _ => 0#32)
      [((ch '$', lineOf (lit "?aaaaaaaa#47")), ch '+' :: sendResponse (lit "S05"))] staleStub := by
    refine Reach.start.next trivial ?_
    have hcomes : Comes (lineOf (lit "?aaaaaaaa#47")) 0 (lit "?aaaaaaaa" ++ [ch '#']) :=
      ⟨rfl, rfl, rfl, rfl, rfl, rfl, rfl, rfl, rfl, rfl, trivial⟩
    have hhandle := gdbstubHandle_eq (bufOk_init (fun _ => 0#8) fun _ => 0#32) (by decide) (by decide)
      hcomes
    rw [Stub.received, unescaped_text (by decide) (by decide)] at hhandle
    simp only [ioStep, ioRound, if_neg (show ch '$' ≠ ch '+' by decide),
      if_neg (show ch '$' ≠ 3#8 by decide), if_true, hhandle]
    exact congrArg (answered _) dispatch_staleStub
  refine ⟨hreach, unescaped_staleStub, (staysInBuffer_iff hreach _).mpr
    ⟨lit "m0,ff\x7d", lit "m0,ff aa", by decide, by decide, ?_, unescaped_staleStub, ?_⟩⟩
  · exact ⟨rfl, rfl, rfl, rfl, rfl, rfl, rfl, trivial⟩
  · refine ⟨fun u h n hn => ?_, fun u h => absurd (List.cons.inj h).1 (by decide)⟩
    obtain rfl : lit "0,ff aa" = u := (List.cons.inj h).2
    have hasked : askedLen (lit "0,ff aa") = some 255 := by decide
    exact (Option.some.inj (hasked.symm.trans hn)).ge

/-- **A request for 256 bytes leaves the buffer**: their digits fill it, and the null byte behind
them is written over what comes next. -/
theorem not_staysInBuffer_read256 : ¬StaysInBuffer blankStub (lineOf (lit "m0,100#5a")) := by
  have hout : unescaped (blankStub.received (lit "m0,100")) = some (lit "m0,100") :=
    unescaped_text (by decide) (by decide) _
  have hs : BufOk blankStub.cmdBuf := bufOk_init _ _
  have hin : ¬InBounds (textOf (lit "m0,100")) := by
    intro hin
    have := hin.read (lit "0,100") (by decide) 256 (by decide)
    omega
  have hcomes : Comes (lineOf (lit "m0,100#5a")) 0 (lit "m0,100" ++ [ch '#']) :=
    ⟨rfl, rfl, rfl, rfl, rfl, rfl, rfl, trivial⟩
  have hhandle := gdbstubHandle_eq hs (by decide) (by decide) hcomes
  rw [hout] at hhandle
  intro hstay
  refine hstay (hhandle.trans ?_)
  simp only [dispatch_error (isText_textOf _) (holds_holding hs (by decide) hout) hin]
  rfl

end Monitor

end Gdb

end BareMetal
