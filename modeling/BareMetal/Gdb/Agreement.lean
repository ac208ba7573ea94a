import BareMetal.Gdb.Bounds

/-!
# The breakpoints, byte by byte

What is said of the breakpoints is said of a stub that reads messages of characters and sees a
memory of words. The whole stub reads a buffer of bytes and sees a memory of bytes. This file is
about the two being **one stub**.

A message lies in `cmd_buf` as its characters, a null byte, and whatever earlier packets have left
there (`BareMetal.Gdb.buffered`). On it each function that reads bytes comes to what the function
of that name comes to on the message: `read_hex`, `strchr` and `read_field`
(`BareMetal.Gdb.readField_buffered`), and `lookup_cmdhandler`
(`BareMetal.Gdb.lookupCmdhandler_buffered`). The two memories agree on the words at aligned
addresses, and the two tables are the same (`BareMetal.Gdb.Sees`). The operations on the table
keep this as long as their address is aligned (`BareMetal.Gdb.Sees.add`, `BareMetal.Gdb.Sees.del`),
and so does a whole packet from its first byte on the line (`BareMetal.Gdb.Sees.packet`).

Therefore every history of packets on bytes is a history on words (`BareMetal.Gdb.reach_words`),
and the breakpoints do not damage the bytes of the program (`BareMetal.Gdb.load32_of_honoured`).
-/

namespace BareMetal

namespace Gdb

open Monitor (Byte Ptr Fault Handled BufOk IsText Comes ch lit load32 le32)

/-! ### Characters as bytes -/

/-- A **plain** text: characters of seven bits, none of them null. -/
def Plain (t : List Char) : Prop := ∀ c ∈ t, 0 < c.toNat ∧ c.toNat < 128

instance (t : List Char) : Decidable (Plain t) := List.decidableBAll _ t

section Characters

variable {c d : Char} {t u : List Char}

theorem plain_cons : Plain (c :: t) ↔ (0 < c.toNat ∧ c.toNat < 128) ∧ Plain t := List.forall_mem_cons

theorem Plain.of_suffix (ht : Plain t) (h : u <:+ t) : Plain u := fun c hc => ht c (h.mem hc)

/-- What is true of the first 128 characters. -/
theorem forall_char_of_lt {P : Char → Prop} (h : ∀ n < 128, P (Char.ofNat n)) (hc : c.toNat < 128) :
    P c := by
  have hchar := h c.toNat hc
  rwa [Char.ofNat_toNat] at hchar

theorem isHex_ch (hc : c.toNat < 128) : Monitor.isHex (ch c) = isHex c :=
  forall_char_of_lt (P := fun c => Monitor.isHex (ch c) = isHex c) (by decide) hc

theorem hexNibbleVal_ch (hc : c.toNat < 128) : Monitor.hexNibbleVal (ch c) = hexNibbleVal c :=
  forall_char_of_lt (P := fun c => Monitor.hexNibbleVal (ch c) = hexNibbleVal c) (by decide) hc

theorem toNat_ch (hc : c.toNat < 128) : (ch c).toNat = c.toNat := by
  rw [ch, BitVec.toNat_ofNat, Nat.mod_eq_of_lt (by omega)]

theorem ch_inj (hc : c.toNat < 128) (hd : d.toNat < 128) : ch c = ch d ↔ c = d := by
  refine ⟨fun h => ?_, fun h => h ▸ rfl⟩
  have hnat : c.toNat = d.toNat := by rw [← toNat_ch hc, ← toNat_ch hd, h]
  rw [← Char.ofNat_toNat c, hnat, Char.ofNat_toNat]

theorem ch_ne_zero (hc : 0 < c.toNat ∧ c.toNat < 128) : ch c ≠ 0#8 := by
  intro h
  have hnat := congrArg BitVec.toNat h
  rw [toNat_ch hc.2, BitVec.toNat_ofNat, Nat.zero_mod] at hnat
  omega

theorem isText_map_ch (ht : Plain t) : IsText (t.map ch) := by
  intro h
  obtain ⟨c, hc, hzero⟩ := List.mem_map.mp h
  exact ch_ne_zero (ht c hc) hzero

theorem ch_mem_map (ht : Plain t) (hd : d.toNat < 128) : ch d ∈ t.map ch ↔ d ∈ t := by
  rw [List.mem_map]
  constructor
  · rintro ⟨c, hc, heq⟩
    exact (ch_inj (ht c hc).2 hd).mp heq ▸ hc
  · exact fun h => ⟨d, h, rfl⟩

end Characters

/-! ### A message in the buffer -/

/-- **A message in the buffer**: its characters, a null byte, and what lies behind it. -/
def buffered (t : List Char) (rest : Ptr) : Ptr := t.map ch ++ 0#8 :: rest

section Messages

variable {t u : List Char} {delim : Char} {rest : Ptr}

@[simp] theorem buffered_nil (rest : Ptr) : buffered [] rest = 0#8 :: rest := rfl

@[simp] theorem buffered_cons (c : Char) (t : List Char) (rest : Ptr) :
    buffered (c :: t) rest = ch c :: buffered t rest := rfl

/-- Two pointers into one buffer are equal if they leave the same of the message. -/
theorem buffered_inj (ht : Plain t) (hu : Plain u) (rest : Ptr) :
    buffered t rest = buffered u rest ↔ t = u := by
  refine ⟨fun h => ?_, fun h => h ▸ rfl⟩
  have hmap : t.map ch = u.map ch := List.append_cancel_right h
  clear h
  induction t generalizing u with
  | nil => exact (List.map_eq_nil_iff.mp hmap.symm).symm
  | cons c t ih =>
    cases u with
    | nil => cases hmap
    | cons d u =>
      obtain ⟨hc, ht⟩ := plain_cons.mp ht
      obtain ⟨hd, hu⟩ := plain_cons.mp hu
      rw [List.map_cons, List.map_cons, List.cons.injEq, ch_inj hc.2 hd.2] at hmap
      rw [hmap.1, ih ht hu hmap.2]

/-- **`read_hex`** reads the same number, and stops at the same place. -/
theorem readHex_buffered (ht : Plain t) (v : BitVec 32) : Monitor.readHex v (buffered t rest) =
    .ok ((readHex v t).1, buffered (readHex v t).2 rest) := by
  induction t generalizing v with
  | nil => rw [buffered_nil, Monitor.readHex, Monitor.isHex_zero, if_neg (by decide)]; rfl
  | cons c t ih =>
    obtain ⟨hc, ht⟩ := plain_cons.mp ht
    rw [buffered_cons, Monitor.readHex, isHex_ch hc.2, hexNibbleVal_ch hc.2, readHex]
    by_cases hhex : isHex c = true
    · rw [if_pos hhex, if_pos hhex]
      exact ih ht _
    · rw [if_neg hhex, if_neg hhex, buffered_cons]

theorem readHex_suffix (v : BitVec 32) (t : List Char) : (readHex v t).2 <:+ t := by
  induction t generalizing v with
  | nil => exact List.suffix_rfl
  | cons c t ih =>
    rw [readHex]
    split
    · exact (ih _).trans (List.suffix_cons c t)
    · exact List.suffix_rfl

/-- **`strchr`** finds the same place. -/
theorem strchr_buffered (ht : Plain t) (hd : 0 < delim.toNat ∧ delim.toNat < 128) :
    Monitor.strchr (ch delim) (buffered t rest) =
      .ok ((strchr delim t).map (buffered · rest)) := by
  induction t with
  | nil => rw [buffered_nil, Monitor.strchr, if_neg (ch_ne_zero hd).symm, if_pos rfl]; rfl
  | cons c t ih =>
    obtain ⟨hc, ht⟩ := plain_cons.mp ht
    simp only [buffered_cons, Monitor.strchr, strchr, ch_inj hc.2 hd.2]
    by_cases hcd : c = delim
    · rw [if_pos hcd, if_pos hcd]
      rfl
    · rw [if_neg hcd, if_neg hcd, if_neg (ch_ne_zero hc), ih ht]

theorem strchr_eq_some (h : strchr delim t = some u) : u <:+ t ∧ u ≠ [] := by
  induction t with
  | nil => cases h
  | cons c t ih =>
    rw [strchr] at h
    split at h
    · cases h
      exact ⟨List.suffix_rfl, List.cons_ne_nil c t⟩
    · exact ⟨(ih h).1.trans (List.suffix_cons c t), (ih h).2⟩

/-- **`read_field`** reads the same field, or refuses it. -/
theorem readField_buffered (ht : Plain t) (hd : 0 < delim.toNat ∧ delim.toNat < 128) (rest : Ptr) :
    Monitor.readField (buffered t rest) (ch delim) =
      .ok ((readField t delim).map fun r => (r.1, buffered r.2 rest)) := by
  simp only [Monitor.readField, strchr_buffered ht hd, readHex_buffered ht, readField, bind,
    Except.bind]
  cases hdel : strchr delim t with
  | none => rfl
  | some del =>
    -- both pointers leave an end of the message, and the bytes tell its ends apart
    obtain ⟨hsuffix, hne⟩ := strchr_eq_some hdel
    have hiff := buffered_inj (ht.of_suffix (readHex_suffix 0#32 t)) (ht.of_suffix hsuffix) rest
    simp only [Option.map_some, ne_eq, hiff]
    by_cases heq : (readHex 0#32 t).2 = del
    · obtain ⟨c, q, hcons⟩ := List.exists_cons_of_ne_nil (heq ▸ hne)
      rw [if_neg (not_not_intro heq), if_neg (not_not_intro heq), hcons]
      rfl
    · rw [if_pos heq, if_pos heq]
      rfl

theorem strncmp_buffered {pfx : List Char} (hp : Plain pfx) (ht : Plain t) :
    Monitor.strncmp (pfx.map ch) (buffered t rest) = .ok (pfx.isPrefixOf t) := by
  induction pfx generalizing t with
  | nil => rfl
  | cons a pfx ih =>
    obtain ⟨ha, hp⟩ := plain_cons.mp hp
    cases t with
    | nil =>
      rw [List.map_cons, buffered_nil, Monitor.strncmp, if_neg (ch_ne_zero ha)]
      rfl
    | cons c t =>
      obtain ⟨hc, ht⟩ := plain_cons.mp ht
      rw [List.map_cons, buffered_cons, Monitor.strncmp, ih hp ht, List.isPrefixOf_cons_cons]
      simp only [ch_inj ha.2 hc.2]
      by_cases hac : a = c
      · simp [hac]
      · simp [hac]

theorem lookupIn_buffered (ht : Plain t) {hs : List (String × CmdHandler)}
    (hplain : ∀ h ∈ hs, Plain h.1.toList) : Monitor.lookupIn (buffered t rest) hs =
      .ok ((hs.find? fun h => h.1.toList.isPrefixOf t).map Prod.snd) := by
  induction hs with
  | nil => rfl
  | cons h hs ih =>
    obtain ⟨hfirst, hplain⟩ := List.forall_mem_cons.mp hplain
    rw [Monitor.lookupIn, lit, strncmp_buffered hfirst ht, List.find?_cons, ih hplain]
    cases h.1.toList.isPrefixOf t <;> rfl

/-- **`lookup_cmdhandler`** finds the same handler. -/
theorem lookupCmdhandler_buffered (ht : Plain t) (rest : Ptr) :
    Monitor.lookupCmdhandler (buffered t rest) = .ok (lookupCmdhandler t) :=
  lookupIn_buffered ht (by decide)

end Messages

/-! ### Words in memory -/

section Words

variable {mem : BitVec 32 → Byte} {a b : BitVec 32}

/-- A word is read as it was stored. -/
theorem load32_poke_self (mem : BitVec 32 → Byte) (a v : BitVec 32) :
    load32 (poke mem a (le32 v)) a = v := by
  have hbyte : ∀ i (hi : i < 4), poke mem a (le32 v) (a + BitVec.ofNat 32 i) = (le32 v)[i] :=
    fun i hi => poke_add hi (show 4 ≤ 2 ^ 32 by decide)
  have hzero := hbyte 0 (by decide)
  rw [BitVec.add_zero] at hzero
  rw [load32, hbyte 3 (by decide), hbyte 2 (by decide), hbyte 1 (by decide), hzero]
  apply BitVec.eq_of_toNat_eq
  have hv := v.isLt
  simp only [le32, List.getElem_cons_succ, List.getElem_cons_zero, Monitor.toNat_append_byte,
    toNat_fieldAt, Nat.reducePow]
  omega

/-- A word at another aligned address is left alone. -/
theorem load32_poke_of_ne (ha : a.toNat % 4 = 0) (hb : b.toNat % 4 = 0) (hne : b ≠ a)
    (v : BitVec 32) : load32 (poke mem a (le32 v)) b = load32 mem b := by
  have hnat : b.toNat ≠ a.toNat := fun h => hne (BitVec.eq_of_toNat_eq h)
  have hbyte : ∀ i < 4, poke mem a (le32 v) (b + BitVec.ofNat 32 i) = mem (b + BitVec.ofNat 32 i) := by
    -- no byte of the one word is a byte of the other
    intro i hi
    refine poke_of_le ?_
    have := a.isLt
    have := b.isLt
    rw [BitVec.toNat_sub, BitVec.toNat_add, BitVec.toNat_ofNat, le32]
    simp only [List.length_cons, List.length_nil]
    omega
  have hzero := hbyte 0 (by decide)
  rw [BitVec.add_zero] at hzero
  rw [load32, hbyte 3 (by decide), hbyte 2 (by decide), hbyte 1 (by decide), hzero, load32]

end Words

/-! ### The table and the memory -/

/-- **One stub, twice**: the words at aligned addresses and the table are the same, and the buffer
is in order. -/
structure Sees (s : Monitor.Stub) (w : Stub) : Prop where
  mem : ∀ a : BitVec 32, a.toNat % 4 = 0 → load32 s.mem a = w.mem a
  table : s.breakpoints = w.breakpoints
  buf : BufOk s.cmdBuf

/-- What an operation on the table comes to: a fault for a fault, and otherwise the same result
and again one stub. -/
def SameOp : Except Fault (Bool × Monitor.Stub) → Option (ℤ × Stub) → Prop
  | .error e, none => e = .nullPointer
  | .ok (zero, s), some (rc, w) => zero = decide (rc = 0) ∧ Sees s w
  | _, _ => False

section Table

variable {s : Monitor.Stub} {w : Stub} {a : BitVec 32} {b : Fin 64}

theorem Sees.find (h : Sees s w) (a : BitVec 32) : Monitor.findBkpt s a = findBkpt w a := by
  rw [Monitor.findBkpt, h.table, findBkpt]

/-- Another table. -/
theorem Sees.setTable (h : Sees s w) (t : Fin 64 → Bkpt) :
    Sees { s with breakpoints := t } { w with breakpoints := t } :=
  ⟨h.mem, rfl, h.buf⟩

/-- A word is stored. -/
theorem Sees.store (h : Sees s w) (ha : a.toNat % 4 = 0) (v : BitVec 32) :
    Sees { s with mem := poke s.mem a (le32 v) } { w with mem := Function.update w.mem a v } := by
  refine ⟨fun b hb => ?_, h.table, h.buf⟩
  dsimp only
  by_cases hba : b = a
  · subst hba
    rw [load32_poke_self, Function.update_self]
  · rw [load32_poke_of_ne ha hb hba, Function.update_of_ne hba, h.mem b hb]

theorem Sees.activate (h : Sees s w) (hb : (w.breakpoints b).addr.toNat % 4 = 0) :
    Sees (Monitor.activateBkpt s b) (activateBkpt w b) := by
  rw [Monitor.activateBkpt, activateBkpt, h.table, h.mem _ hb]
  split
  · exact h
  · exact (h.store hb smcBkpt).setTable _

/-- **`add_bkpt`.** -/
theorem Sees.add (h : Sees s w) (ha : a.toNat % 4 = 0) :
    SameOp (Monitor.addBkpt s a) (addBkpt w a) := by
  rw [Monitor.addBkpt, addBkpt, h.find, h.find, findBkpt_zero]
  cases hfind : findBkpt w a with
  | some b => exact ⟨rfl, h.activate (addr_of_findBkpt hfind ▸ ha)⟩
  | none =>
    cases allocBkpt w with
    | none => rfl
    | some b =>
      refine ⟨rfl, ?_⟩
      rw [h.table]
      refine (h.setTable _).activate ?_
      dsimp only
      rw [Function.update_self]
      exact ha

/-- **`del_bkpt`.** -/
theorem Sees.del (h : Sees s w) (ha : a.toNat % 4 = 0) :
    SameOp (Monitor.delBkpt s a) (delBkpt w a) := by
  rw [Monitor.delBkpt, delBkpt, h.find]
  cases hfind : findBkpt w a with
  | none => exact ⟨rfl, h⟩
  | some b =>
    refine ⟨rfl, ?_⟩
    have hb : (w.breakpoints b).addr.toNat % 4 = 0 := addr_of_findBkpt hfind ▸ ha
    rw [Monitor.freeBkpt, Monitor.deactivateBkpt, freeBkpt, deactivateBkpt, h.table]
    exact (h.store hb _).setTable _

end Table

/-! ### A packet -/

/-- The text of an answer. -/
def Reply.text : Reply → String
  | .ok => "OK"
  | .e01 => "E01"

/-- What a packet comes to: a fault for no answer, and otherwise the same answer and again one
stub. -/
def SameAnswer : Handled → Option Reply × Stub → Prop
  | .error e, (none, _) => e = .nullPointer
  | .ok (out, s), (some r, w) => out = Monitor.sendResponse (lit r.text) ∧ Sees s w
  | _, _ => False

/-- A packet that **fits on the line and in the buffer**: it is plain, nothing in it ends or
escapes it, and it is not too long. -/
structure Packet.Sendable (p : Packet) : Prop where
  plain : Plain p.kind
  noHash : '#' ∉ p.kind
  noEscape : '}' ∉ p.kind
  length_le : p.text.length ≤ 511

section Packets

variable {s : Monitor.Stub} {w : Stub} {p : Packet} {rest : Ptr}

/-- **`bkpt_op`**, with either operation. -/
theorem Sees.bkptOp (h : Sees s w) {t : List Char} (ht : Plain t) (hlen : 3 ≤ t.length)
    (hbuf : s.cmdBuf = buffered t rest)
    {op : Monitor.Stub → BitVec 32 → Except Fault (Bool × Monitor.Stub)}
    {op' : Stub → BitVec 32 → Option (ℤ × Stub)}
    (hop : ∀ r ∈ readField (t.drop 3) ',', SameOp (op s r.1) (op' w r.1)) :
    SameAnswer (Monitor.bkptOp s op) (Gdb.bkptOp w t op') := by
  have hdrop : s.cmdBuf.drop 3 = buffered (t.drop 3) rest := by
    rw [hbuf, buffered, List.drop_append_of_le_length (by rwa [List.length_map]),
      ← List.map_drop, buffered]
  have hplain : Plain (t.drop 3) := ht.of_suffix (List.drop_suffix 3 t)
  have hread := readField_buffered hplain (show 0 < ','.toNat ∧ ','.toNat < 128 by decide) rest
  simp only [Monitor.bkptOp, Gdb.bkptOp, hdrop, hread, bind, Except.bind]
  cases hfield : readField (t.drop 3) ',' with
  | none => exact ⟨rfl, h⟩
  | some r =>
    have hsame := hop r hfield
    dsimp only [Option.map_some]
    revert hsame
    -- a fault and a result do not go together
    rcases op s r.1 with e | ⟨zero, s'⟩ <;> rcases op' w r.1 with - | ⟨rc, w'⟩
    · exact id
    · exact False.elim
    · exact False.elim
    · rintro ⟨rfl, hsees⟩
      by_cases hrc : rc = 0
      · simp only [hrc, decide_true, if_true]
        exact ⟨rfl, hsees⟩
      · simp only [hrc, decide_false, if_false, Bool.false_eq_true]
        exact ⟨rfl, hsees⟩

theorem plain_hexDigit : ∀ d, 0 < (hexDigit d).toNat ∧ (hexDigit d).toNat < 128 := by decide

/-- What a packet is made of. -/
theorem mem_text {c : Char} (h : c ∈ p.text) :
    c ∈ ['Z', 'z', '0', '1', ','] ∨ (∃ d, c = hexDigit d) ∨ c ∈ p.kind := by
  obtain ⟨insert, hardware, digits, kind⟩ := p
  simp only [Packet.text, List.mem_cons, List.mem_append, List.mem_map] at h
  rcases h with rfl | rfl | rfl | ⟨d, -, rfl⟩ | rfl | h
  · exact .inl (by cases insert <;> simp)
  · exact .inl (by cases hardware <;> simp)
  · exact .inl (by decide)
  · exact .inr (.inl ⟨d, rfl⟩)
  · exact .inl (by decide)
  · exact .inr (.inr h)

theorem Packet.Sendable.plain_text (hp : p.Sendable) : Plain p.text := by
  have hfixed : Plain ['Z', 'z', '0', '1', ','] := by decide
  intro c hc
  rcases mem_text hc with h | ⟨d, rfl⟩ | h
  · exact hfixed c h
  · exact plain_hexDigit d
  · exact hp.plain c h

/-- A character that no packet has except in its kind. -/
theorem not_mem_text {c : Char} (hfixed : c ∉ ['Z', 'z', '0', '1', ','])
    (hdigit : ∀ d, c ≠ hexDigit d) (hkind : c ∉ p.kind) : c ∉ p.text := by
  intro h
  rcases mem_text h with h | ⟨d, h⟩ | h
  · exact hfixed h
  · exact hdigit d h
  · exact hkind h

/-- A packet in the buffer is **handled** alike. -/
theorem Sees.dispatch (h : Sees s w) (hp : p.Sendable) (ha : Aligned w p)
    (hbuf : s.cmdBuf = buffered p.text rest) :
    SameAnswer (Monitor.dispatch s) (gdbStep w p) := by
  have hlen : 3 ≤ p.text.length := by simp [Packet.text]
  have hlookup := lookupCmdhandler_buffered hp.plain_text rest
  -- the address is read as it was written
  have hread : ∀ r ∈ readField (p.text.drop 3) ',', r.1.toNat % 4 = 0 := by
    rintro r hr
    rw [readField_text, Option.mem_some_iff] at hr
    exact hr ▸ ha
  rw [← hbuf, lookupCmdhandler_text] at hlookup
  simp only [Monitor.dispatch, hlookup, gdbStep, gdbstubHandle, lookupCmdhandler_text, bind,
    Except.bind]
  cases p.insert with
  | true => exact h.bkptOp hp.plain_text hlen hbuf fun r hr => h.add (hread r hr)
  | false => exact h.bkptOp hp.plain_text hlen hbuf fun r hr => h.del (hread r hr)

/-- A packet comes on the line, and what `gdbstub_handle` does. A fault is the end. -/
def Handles (s : Monitor.Stub) (p : Packet) (o : Option Reply) (s' : Monitor.Stub) : Prop :=
  ∃ line, Comes line 0 (p.text.map ch ++ [ch '#']) ∧ match o with
    | none => Monitor.gdbstubHandle s line = .error .nullPointer ∧ s' = s
    | some r => ∃ ack,
        Monitor.gdbstubHandle s line = .ok (ack :: Monitor.sendResponse (lit r.text), s')

theorem lit_text_inj {r r' : Reply}
    (h : Monitor.sendResponse (lit r.text) = Monitor.sendResponse (lit r'.text)) : r = r' := by
  cases r <;> cases r' <;> first | rfl | exact absurd h (by decide)

/-- **A packet from the line** is answered alike. -/
theorem Sees.packet (h : Sees s w) (hp : p.Sendable) (ha : Aligned w p) {line : ℕ → Byte}
    (hcomes : Comes line 0 (p.text.map ch ++ [ch '#'])) :
    ∃ ack r, Monitor.gdbstubHandle s line = Monitor.answered ack r ∧ SameAnswer r (gdbStep w p) := by
  have hplain := hp.plain_text
  have hhash : ch '#' ∉ p.text.map ch :=
    mt (ch_mem_map hplain (by decide)).mp (not_mem_text (by decide) (by decide) hp.noHash)
  have hescape : ch '}' ∉ p.text.map ch :=
    mt (ch_mem_map hplain (by decide)).mp (not_mem_text (by decide) (by decide) hp.noEscape)
  have hlen : (p.text.map ch).length ≤ 511 := by
    rw [List.length_map]
    exact hp.length_le
  -- what comes out of the escapes is the text itself
  have hout := Monitor.unescaped_text (isText_map_ch hplain) hescape
    (s.cmdBuf.drop ((p.text.map ch).length + 1))
  rw [← Monitor.Stub.received] at hout
  have hheld : Sees (s.holding (p.text.map ch) (p.text.map ch)) w :=
    ⟨h.mem, h.table, (Monitor.holds_holding h.buf hlen hout).1⟩
  rw [Monitor.gdbstubHandle_eq h.buf hhash hlen hcomes, hout]
  exact ⟨_, _, rfl, hheld.dispatch hp ha rfl⟩

/-- **One step on bytes** is one step on words. -/
theorem Sees.step (h : Sees s w) (hp : p.Sendable) (ha : Aligned w p) {o : Option Reply}
    {s' : Monitor.Stub} (hstep : Handles s p o s') : ∃ w', gdbStep w p = (o, w') ∧ Sees s' w' := by
  obtain ⟨line, hcomes, hout⟩ := hstep
  obtain ⟨ack, r, hhandle, hsame⟩ := h.packet hp ha hcomes
  have hkept := gdbStep_of_ne_ok (s := w) (p := p)
  rw [hhandle] at hout
  generalize gdbStep w p = x at hsame hkept
  obtain ⟨o', w'⟩ := x
  rcases r with e | ⟨out, t⟩ <;> rcases o' with - | r'
  · -- a fault, after which nothing has changed
    obtain rfl : w' = w := hkept (by simp)
    cases o with
    | none => exact ⟨w', rfl, hout.2 ▸ h⟩
    | some r =>
      obtain ⟨ack', hcon⟩ := hout
      cases hcon
  · exact hsame.elim
  · exact hsame.elim
  · obtain ⟨rfl, hsees⟩ := hsame
    cases o with
    | none => cases hout.1
    | some r =>
      obtain ⟨ack', heq⟩ := hout
      simp only [Monitor.answered, Except.map, Except.ok.injEq, Prod.mk.injEq, List.cons.injEq] at heq
      obtain ⟨⟨-, hsent⟩, rfl⟩ := heq
      rw [lit_text_inj hsent]
      exact ⟨w', rfl, hsees⟩

end Packets

/-! ### Every history of packets -/

/-- The words of a stub. -/
def words (s : Monitor.Stub) : Stub := ⟨load32 s.mem, s.breakpoints⟩

/-- A packet that fits and can be honoured. -/
def Proper (s : Monitor.Stub) (p : Packet) : Prop := p.Sendable ∧ Honoured (words s) p

section Histories

variable {s₀ s : Monitor.Stub} {w₀ : Stub} {h : List (Packet × Option Reply)}

/-- **Every history of packets on bytes is one on words**, with the same answers. -/
theorem reach_words (hsees : Sees s₀ w₀) (hr : Reach Handles Proper s₀ h s) :
    ∃ w, Reach (fnStep gdbStep) Honoured w₀ h w ∧ Sees s w := by
  induction hr with
  | start => exact ⟨w₀, .start, hsees⟩
  | @next _ _ p _ _ _ hok hstep ih =>
    obtain ⟨w, hreach, hw⟩ := ih
    -- whether a packet can be honoured is read off the table
    have hhonoured : Honoured w p := by
      have hbytes := hok.2
      rwa [Honoured, words, hw.table] at hbytes
    obtain ⟨w', hgdb, hw'⟩ := hw.step hok.1 hhonoured.1 hstep
    exact ⟨w', hreach.next hhonoured hgdb, hw'⟩

theorem sees_init (mem : BitVec 32 → Byte) (regs : Fin 17 → BitVec 32) :
    Sees (.init mem regs) (.init (load32 mem)) :=
  ⟨fun _ _ => rfl, rfl, Monitor.bufOk_init mem regs⟩

/-- **Breakpoints do not damage the bytes of the program**: from power-on, every packet has been
answered, and each word is the program's own or, where a breakpoint is inserted, the breakpoint
instruction. -/
theorem load32_of_honoured {mem : BitVec 32 → Byte} {regs : Fin 17 → BitVec 32}
    (hr : Reach Handles Proper (.init mem regs) h s) :
    (∀ e ∈ h, e.2 ≠ none) ∧ ∀ a : BitVec 32, a.toNat % 4 = 0 →
      load32 s.mem a = if inserted h a then smcBkpt else load32 mem a := by
  obtain ⟨w, hreach, hw⟩ := reach_words (sees_init mem regs) hr
  obtain ⟨hok, -⟩ := bkptOk_of_honoured hreach
  refine ⟨hok.answered, fun a ha => ?_⟩
  rw [hw.mem a ha, hok.mem a]

end Histories

end Gdb

end BareMetal
