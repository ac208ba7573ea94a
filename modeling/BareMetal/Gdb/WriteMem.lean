import BareMetal.Gdb.Text

/-!
# Writing memory for GDB

`M`*address*`,`*length*`:`*data* stores bytes, each of them two hexadecimal digits of *data*. The
stub reads the three fields, checks that the data have the length that is announced, and stores
them: two or four bytes as one access, so that a device register can be written, any other number
byte by byte.

What is wanted (`BareMetal.Gdb.Monitor.WriteExact`) is that a request of this form stores just
those bytes, and that any other text is refused. The two ways to store agree
(`BareMetal.Gdb.Monitor.storeData_eq`). But capital digits are read as something else, so that a
well-formed request is carried out just when it has them only where the error is lost
(`BareMetal.Gdb.Monitor.Clean`), and what is not well formed is refused only by the three checks
of the code: an empty field, data that are no digits, and a length whose double wraps around pass
them. That is the condition of `BareMetal.Gdb.Monitor.writeExact_iff`.
-/

namespace BareMetal

namespace Gdb

namespace Monitor

/-! ### The request -/

/-- A text that fits the buffer and begins with a character. -/
structure Command (c : Char) where
  text : List Byte
  isText : IsText text
  length_le : text.length ≤ 511
  head_eq : text.head? = some (ch c)

theorem Command.eq_cons {c : Char} (m : Command c) : ∃ u, m.text = ch c :: u ∧ IsText u := by
  obtain ⟨t, htext, -, hhead⟩ := m
  match t, hhead with
  | x :: u, hhead =>
    obtain rfl : x = ch c := by simpa using hhead
    exact ⟨u, rfl, htext.tail.2⟩

/-- The buffer holds a command. -/
structure Holds (buf t : List Byte) : Prop where
  ok : BufOk buf
  eq : ∃ b, buf = t ++ 0#8 :: b

/-- The fields of a request, with nothing asked of the data. -/
def request (u : List Byte) : Option (List Byte × List Byte × List Byte) :=
  (splitField (ch ',') u).bind fun f => (splitField (ch ':') f.2).map fun g => (f.1, g.1, g.2)

/-- **The parts of a request.** -/
theorem request_eq_some_iff {u a l d : List Byte} :
    request u = some (a, l, d) ↔ u = a ++ ch ',' :: (l ++ ch ':' :: d) ∧ AllHex a ∧ AllHex l := by
  have hcomma : isHex (ch ',') = false := by decide
  have hcolon : isHex (ch ':') = false := by decide
  rw [request, Option.bind_eq_some_iff]
  constructor
  · rintro ⟨⟨a', r⟩, hf, hg⟩
    rw [Option.map_eq_some_iff] at hg
    obtain ⟨⟨l', d'⟩, hg, heq⟩ := hg
    simp only [Prod.mk.injEq] at heq
    obtain ⟨rfl, rfl, rfl⟩ := heq
    obtain ⟨rfl, ha⟩ := (splitField_eq_some_iff hcomma).mp hf
    obtain ⟨rfl, hl⟩ := (splitField_eq_some_iff hcolon).mp hg
    exact ⟨rfl, ha, hl⟩
  · rintro ⟨rfl, ha, hl⟩
    refine ⟨(a, l ++ ch ':' :: d), (splitField_eq_some_iff hcomma).mpr ⟨rfl, ha⟩, ?_⟩
    rw [(splitField_eq_some_iff hcolon).mpr ⟨rfl, hl⟩]
    rfl

/-- The length of the data is the one that was read. -/
def LengthOk (l d : List Byte) : Prop := BitVec.ofNat 32 d.length = BitVec.ofNat 32 (readAs l) * 2#32

instance (l d : List Byte) : Decidable (LengthOk l d) := inferInstanceAs (Decidable (_ = _))

theorem isText_of_splitField {delim : Byte} (hdelim : isHex delim = false) {t a rest : List Byte}
    (ht : IsText t) (h : splitField delim t = some (a, rest)) : IsText rest := by
  obtain ⟨rfl, -⟩ := (splitField_eq_some_iff hdelim).mp h
  exact fun hmem => ht (List.mem_append_right a (List.mem_cons_of_mem delim hmem))

/-- **What the code reads of a request.** -/
theorem readRequest_text {u : List Byte} (hu : IsText u) (b : Ptr) :
    readRequest (u ++ 0#8 :: b) = .ok ((request u).bind fun f =>
      if LengthOk f.2.1 f.2.2 then
        some (BitVec.ofNat 32 (readAs f.1), BitVec.ofNat 32 (readAs f.2.1), f.2.2 ++ 0#8 :: b)
      else none) := by
  have hcomma : isHex (ch ',') = false := by decide
  have hcolon : isHex (ch ':') = false := by decide
  rw [readRequest, request, readField_text hu hcomma (by decide)]
  cases hf : splitField (ch ',') u with
  | none => rfl
  | some f =>
    have hf2 := isText_of_splitField hcomma hu hf
    simp only [Option.map_some, bind, Except.bind, Option.bind_some]
    rw [readField_text hf2 hcolon (by decide)]
    cases hg : splitField (ch ':') f.2 with
    | none => rfl
    | some g =>
      have hg2 := isText_of_splitField hcolon hf2 hg
      simp only [Option.map_some, Option.bind_some, strlen_text hg2, pure, Except.pure]
      by_cases hlen : LengthOk g.1 g.2
      · have heq : BitVec.ofNat 32 g.2.length = BitVec.ofNat 32 (readAs g.1) * 2#32 := hlen
        rw [if_pos hlen, if_neg (not_not.mpr heq)]
      · have hne : BitVec.ofNat 32 g.2.length ≠ BitVec.ofNat 32 (readAs g.1) * 2#32 := hlen
        rw [if_neg hlen, if_pos hne]

/-! ### The data -/

/-- The bytes of data, two digits each, with a reading of the two. -/
def byPairs (f : List Byte → ℕ) : List Byte → List Byte
  | a :: b :: d => BitVec.ofNat 8 (f [a, b]) :: byPairs f d
  | _ => []

/-- **The bytes that data spell.** -/
def dataBytes (d : List Byte) : List Byte := byPairs spelled d

/-- The bytes that are read, two digits at a time. -/
def pairsRead (d : List Byte) : List Byte := byPairs readAs d

/-- **The bytes that are stored**, by the access that their number calls for. -/
def readData (d : List Byte) : List Byte :=
  if d.length = 8 then be32 (BitVec.ofNat 32 (readAs d))
  else if d.length = 4 then be16 (BitVec.ofNat 16 (readAs d))
  else pairsRead d

theorem length_byPairs (f : List Byte → ℕ) (d : List Byte) :
    (byPairs f d).length = d.length / 2 := by
  fun_induction byPairs f d with
  | case1 a b d ih =>
    rw [List.length_cons, ih, List.length_cons, List.length_cons]
    omega
  | case2 d hd =>
    match d, hd with
    | [], _ => rfl
    | [x], _ => simp
    | a :: b :: d, hd => exact absurd rfl (hd a b d)

theorem length_readData (d : List Byte) : (readData d).length = d.length / 2 := by
  rw [readData]
  split_ifs with hword hhalf
  · rw [hword]
    rfl
  · rw [hhalf]
    rfl
  · exact length_byPairs readAs d

theorem readByte_pair {a b : Byte} (ha : isHex a = true) (hb : isHex b = true) (p : Ptr) :
    readByte (a :: b :: p) = .ok (BitVec.ofNat 8 (readAs [a, b])) := by
  have hab : AllHex [a, b] := by simp [AllHex, ha, hb]
  have hread : readHex 0#32 ([a, b] ++ [0#8]) = _ := readHex_zero hab isHex_zero []
  simp only [readByte, slowMemcpy, List.length_cons, Nat.le_add_left, if_true, List.take_succ_cons,
    List.take_zero, bind, Except.bind, hread, pure, Except.pure]
  rw [BitVec.setWidth_ofNat_of_le (by omega)]

theorem writeMem_one (mem : BitVec 32 → Byte) (v : Byte) (addr : BitVec 32) :
    writeMem mem (v.setWidth 32) addr 1 = some (Function.update mem addr v) := by
  have hv : (v.setWidth 32).setWidth 8 = v := by simp
  rw [writeMem, hv, poke_singleton]

/-- **The loop over the bytes**, with those that have been stored. -/
theorem putBytes_eq {addr : BitVec 32} {mem : BitVec 32 → Byte} (b : Ptr) (done : List Byte)
    {d : List Byte} {k : ℕ} (hd : AllHex d) (hk : d.length = 2 * k)
    (hlen : done.length + k < 2 ^ 32) :
    putBytes addr k done.length (d ++ 0#8 :: b) (poke mem addr done) =
      .ok (some (poke mem addr (done ++ pairsRead d))) := by
  induction k generalizing d done with
  | zero =>
    obtain rfl := List.eq_nil_of_length_eq_zero hk
    simp [putBytes, pairsRead, byPairs]
  | succ k ih =>
    match d, hk with
    | x :: y :: d, hk =>
      obtain ⟨hx, hy, hd⟩ : isHex x = true ∧ isHex y = true ∧ AllHex d := by
        simpa [AllHex] using hd
      have hstep := ih (done ++ [BitVec.ofNat 8 (readAs [x, y])]) hd
        (by simp only [List.length_cons] at hk; omega)
        (by simp only [List.length_append, List.length_singleton]; omega)
      rw [poke_concat _ _ _ (by omega), List.length_append, List.length_singleton,
        List.append_assoc] at hstep
      simp only [List.cons_append, putBytes, readByte_pair hx hy, bind, Except.bind, writeMem_one]
      exact hstep

/-- **What is stored is what is read**, whichever way is taken. -/
theorem storeData_eq {d : List Byte} {k : ℕ} (hd : AllHex d) (hk : d.length = 2 * k)
    (hlt : k < 2 ^ 31) (mem : BitVec 32 → Byte) (addr : BitVec 32) (b : Ptr) :
    storeData mem addr (BitVec.ofNat 32 k) (d ++ 0#8 :: b) =
      .ok (some (poke mem addr (readData d))) := by
  have hnat : (BitVec.ofNat 32 k).toNat = k := by
    rw [BitVec.toNat_ofNat, Nat.mod_eq_of_lt (by omega)]
  have heq : ∀ n < 2 ^ 32, BitVec.ofNat 32 k = BitVec.ofNat 32 n ↔ k = n := by
    intro n hn
    rw [← BitVec.toNat_inj, hnat, BitVec.toNat_ofNat, Nat.mod_eq_of_lt hn]
  have htwo := heq 2 (by omega)
  have hfour := heq 4 (by omega)
  rw [storeData]
  by_cases hword : k = 4
  · subst hword
    simp only [readData, hk, if_true, or_true, readHex_zero hd isHex_zero, bind, Except.bind, pure,
      Except.pure, BitVec.toNat_ofNat, writeMem, le32_bswap32, Nat.reduceMul, Nat.reducePow,
      Nat.reduceMod]
  · by_cases hhalf : k = 2
    · subst hhalf
      simp only [readData, hk, if_true, true_or, readHex_zero hd isHex_zero, bind, Except.bind,
        pure, Except.pure, BitVec.toNat_ofNat, writeMem, le16_bswap16, Nat.reduceMul, Nat.reducePow,
        Nat.reduceMod, Nat.reduceEqDiff, if_false,
        BitVec.setWidth_ofNat_of_le (show 16 ≤ 32 by omega)]
    · rw [if_neg (by rw [htwo, hfour]; omega), hnat, readData, if_neg (by omega), if_neg (by omega)]
      exact putBytes_eq b [] hd hk (by simp; omega)

/-! ### When the bytes are right -/

/-- Capitals in the data only where the error is lost: at the first digit of what is read at a
time. -/
def CleanData (d : List Byte) : Prop :=
  if d.length = 4 ∨ d.length = 8 then ∀ c ∈ d.tail, ¬IsCapital c
  else ∀ i c, d[2 * i + 1]? = some c → ¬IsCapital c

theorem ofNat_readAs_eq_iff {k n : ℕ} (hlow : 4 * k + 1 < n) (hhigh : n ≤ 4 * k + 5)
    (ds : List Byte) :
    BitVec.ofNat n (readAs ds) = BitVec.ofNat n (spelled ds) ↔
      ∀ c ∈ ds.reverse.take k, ¬IsCapital c := by
  rw [← readAs_mod_eq_iff hlow hhigh, ← BitVec.toNat_inj, BitVec.toNat_ofNat, BitVec.toNat_ofNat]

theorem forall_take_reverse_iff {d : List Byte} {k : ℕ} (hk : d.length = k + 1) :
    (∀ c ∈ d.reverse.take k, ¬IsCapital c) ↔ ∀ c ∈ d.tail, ¬IsCapital c := by
  have hrev : d.reverse.take k = d.tail.reverse := by
    match d, hk with
    | x :: d, hk =>
      simp only [List.length_cons, Nat.add_right_cancel_iff] at hk
      rw [List.reverse_cons, List.tail_cons, List.take_append_of_le_length (by simp [hk]),
        List.take_of_length_le (by simp [hk])]
  rw [hrev]
  simp only [List.mem_reverse]

theorem ofNat_pair_eq_iff (a b : Byte) :
    BitVec.ofNat 8 (readAs [a, b]) = BitVec.ofNat 8 (spelled [a, b]) ↔ ¬IsCapital b := by
  rw [ofNat_readAs_eq_iff (k := 1) (by omega) (by omega)]
  simp

/-- A pair is read as it is spelled if its second digit is no capital. -/
theorem pairsRead_eq_iff (d : List Byte) :
    pairsRead d = dataBytes d ↔ ∀ i c, d[2 * i + 1]? = some c → ¬IsCapital c := by
  rw [pairsRead, dataBytes]
  fun_induction byPairs readAs d with
  | case1 a b d ih =>
    rw [byPairs, List.cons.injEq, ofNat_pair_eq_iff, ih]
    constructor
    · rintro ⟨hb, hd⟩ (_ | i) c hc
      · obtain rfl : b = c := by simpa using hc
        exact hb
      · exact hd i c hc
    · intro h
      exact ⟨h 0 b rfl, fun i c hc => h (i + 1) c hc⟩
  | case2 d hd =>
    match d, hd with
    | [], _ => simp [byPairs]
    | [x], _ => simp [byPairs]
    | a :: b :: d, hd => exact absurd rfl (hd a b d)

theorem spelled_pair (a b : Byte) (d : List Byte) :
    spelled (a :: b :: d) = spelled [a, b] * 16 ^ d.length + spelled d :=
  spelled_append [a, b] d

theorem be32_spelled {d : List Byte} (hd : AllHex d) (hlen : d.length = 8) :
    be32 (BitVec.ofNat 32 (spelled d)) = dataBytes d := by
  match d, hlen with
  | [d7, d6, d5, d4, d3, d2, d1, d0], _ =>
    simp only [AllHex, List.forall_mem_cons] at hd
    obtain ⟨h7, h6, h5, h4, h3, h2, h1, h0, -⟩ := hd
    have hp3 : spelled [d7, d6] < 256 := spelled_lt (by simp [AllHex, h7, h6])
    have hp2 : spelled [d5, d4] < 256 := spelled_lt (by simp [AllHex, h5, h4])
    have hp1 : spelled [d3, d2] < 256 := spelled_lt (by simp [AllHex, h3, h2])
    have hp0 : spelled [d1, d0] < 256 := spelled_lt (by simp [AllHex, h1, h0])
    have hsum : spelled [d7, d6, d5, d4, d3, d2, d1, d0] =
        ((spelled [d7, d6] * 256 + spelled [d5, d4]) * 256 + spelled [d3, d2]) * 256 +
          spelled [d1, d0] := by
      rw [spelled_pair d7, spelled_pair d5, spelled_pair d3]
      simp only [List.length_cons, List.length_nil, Nat.reduceAdd, Nat.reducePow]
      omega
    rw [hsum]
    simp only [dataBytes, byPairs]
    generalize spelled [d7, d6] = p3 at *
    generalize spelled [d5, d4] = p2 at *
    generalize spelled [d3, d2] = p1 at *
    generalize spelled [d1, d0] = p0 at *
    refine List.cons_eq_cons.mpr ⟨?_, List.cons_eq_cons.mpr ⟨?_, List.cons_eq_cons.mpr ⟨?_,
      List.cons_eq_cons.mpr ⟨?_, rfl⟩⟩⟩⟩
    all_goals
      apply BitVec.eq_of_toNat_eq
      simp only [toNat_fieldAt, BitVec.toNat_ofNat, Nat.reducePow, Nat.div_one]
      omega

theorem be16_spelled {d : List Byte} (hd : AllHex d) (hlen : d.length = 4) :
    be16 (BitVec.ofNat 16 (spelled d)) = dataBytes d := by
  match d, hlen with
  | [d3, d2, d1, d0], _ =>
    simp only [AllHex, List.forall_mem_cons] at hd
    obtain ⟨h3, h2, h1, h0, -⟩ := hd
    have hp1 : spelled [d3, d2] < 256 := spelled_lt (by simp [AllHex, h3, h2])
    have hp0 : spelled [d1, d0] < 256 := spelled_lt (by simp [AllHex, h1, h0])
    have hsum : spelled [d3, d2, d1, d0] = spelled [d3, d2] * 256 + spelled [d1, d0] :=
      spelled_pair d3 d2 [d1, d0]
    rw [hsum]
    simp only [dataBytes, byPairs]
    generalize spelled [d3, d2] = p1 at *
    generalize spelled [d1, d0] = p0 at *
    refine List.cons_eq_cons.mpr ⟨?_, List.cons_eq_cons.mpr ⟨?_, rfl⟩⟩
    all_goals
      apply BitVec.eq_of_toNat_eq
      simp only [toNat_fieldAt, BitVec.toNat_ofNat, Nat.reducePow, Nat.div_one]
      omega

/-- **When the data are read as they are spelled.** -/
theorem readData_eq_iff {d : List Byte} (hd : AllHex d) :
    readData d = dataBytes d ↔ CleanData d := by
  rw [readData, CleanData]
  by_cases hword : d.length = 8
  · rw [if_pos hword, if_pos (.inr hword), ← be32_spelled hd hword, ← forall_take_reverse_iff hword,
      ← ofNat_readAs_eq_iff (k := 7) (n := 32) (by omega) (by omega)]
    exact ⟨be32_inj, congrArg be32⟩
  · by_cases hhalf : d.length = 4
    · rw [if_neg hword, if_pos hhalf, if_pos (.inl hhalf), ← be16_spelled hd hhalf,
        ← forall_take_reverse_iff hhalf,
        ← ofNat_readAs_eq_iff (k := 3) (n := 16) (by omega) (by omega)]
      exact ⟨be16_inj, congrArg be16⟩
    · rw [if_neg hword, if_neg hhalf, if_neg (by omega)]
      exact pairsRead_eq_iff d

/-! ### The property -/

/-- **A well-formed request**: address and length are numbers below 2^32, and there are two digits
for every byte. -/
structure WellFormed (t a l d : List Byte) : Prop where
  text_eq : t = ch 'M' :: (a ++ ch ',' :: (l ++ ch ':' :: d))
  addr_hex : AllHex a
  addr_ne : a ≠ []
  addr_lt : spelled a < 2 ^ 32
  len_hex : AllHex l
  len_ne : l ≠ []
  len_lt : spelled l < 2 ^ 32
  data_hex : AllHex d
  data_length : d.length = 2 * spelled l

/-- The reply is an error. -/
def IsError (msg : List Byte) : Prop := msg.head? = some (ch 'E')

theorem isError_e01 : IsError (lit "E01") := by
  unfold IsError
  decide

/-- **A request to write is exact**, in whatever state it comes: a well-formed one stores the
bytes that are spelled and nothing else, and is answered with `OK`; any other text changes nothing
and is answered with an error. -/
def WriteExact (t : List Byte) : Prop :=
  ∀ s : Stub, Holds s.cmdBuf t →
    (∀ a l d, WellFormed t a l d →
      gdbWriteMem s = respond
        { s with mem := poke s.mem (BitVec.ofNat 32 (spelled a)) (dataBytes d) } (lit "OK")) ∧
    ((∀ a l d, ¬WellFormed t a l d) → ∃ msg, IsError msg ∧ gdbWriteMem s = respond s msg)

/-- Capitals only where the error is lost: at the eighth digit of a number, counted from its
end; in an address that is not used; and at the first digit of what is read at a time. -/
structure Clean (a l d : List Byte) : Prop where
  len : ∀ c ∈ l.reverse.take 7, ¬IsCapital c
  rest : d = [] ∨ (∀ c ∈ a.reverse.take 7, ¬IsCapital c) ∧ CleanData d

/-- What the checks of the code let through: two fields of digits, which may be empty or too
long, and data, which may be anything, of twice the length that was read. -/
def Accepted (t : List Byte) : Prop :=
  ∃ a l d, t = ch 'M' :: (a ++ ch ',' :: (l ++ ch ':' :: d)) ∧ AllHex a ∧ AllHex l ∧
    LengthOk l d

/-! ### What the code does -/

section Write

variable {s : Stub} {u b a l d : List Byte}

theorem readRequest_drop (hu : IsText u) (hbuf : s.cmdBuf = (ch 'M' :: u) ++ 0#8 :: b) :
    readRequest (s.cmdBuf.drop 1) = .ok ((request u).bind fun f =>
      if LengthOk f.2.1 f.2.2 then
        some (BitVec.ofNat 32 (readAs f.1), BitVec.ofNat 32 (readAs f.2.1), f.2.2 ++ 0#8 :: b)
      else none) := by
  rw [drop_command hbuf]
  exact readRequest_text hu b

/-- A text without the fields is refused, … -/
theorem gdbWriteMem_of_none (hu : IsText u) (hbuf : s.cmdBuf = (ch 'M' :: u) ++ 0#8 :: b)
    (hreq : request u = none) : gdbWriteMem s = respond s (lit "E01") := by
  simp only [gdbWriteMem, readRequest_drop hu hbuf, hreq, Option.bind_none, bind, Except.bind]

/-- … and so is one whose data have another length. -/
theorem gdbWriteMem_of_length (hu : IsText u) (hbuf : s.cmdBuf = (ch 'M' :: u) ++ 0#8 :: b)
    (hreq : request u = some (a, l, d)) (hlen : ¬LengthOk l d) :
    gdbWriteMem s = respond s (lit "E01") := by
  simp only [gdbWriteMem, readRequest_drop hu hbuf, hreq, Option.bind_some, if_neg hlen, bind,
    Except.bind]

/-- `write_mem` of a byte never fails. -/
theorem putBytes_ne_none {addr : BitVec 32} {k m : ℕ} {p : Ptr} {mem : BitVec 32 → Byte} :
    putBytes addr k m p mem ≠ .ok none := by
  induction k generalizing m p mem with
  | zero => simp [putBytes]
  | succ k ih =>
    simp only [putBytes, bind, Except.bind]
    cases readByte p with
    | error e => simp
    | ok v =>
      simp only [writeMem_one]
      exact ih

theorem storeData_ne_none {addr len : BitVec 32} {p : Ptr} {mem : BitVec 32 → Byte} :
    storeData mem addr len p ≠ .ok none := by
  rw [storeData]
  split
  · rename_i hlen
    simp only [bind, Except.bind]
    cases readHex 0#32 p with
    | error e => simp
    | ok v => rcases hlen with rfl | rfl <;> simp [pure, Except.pure, writeMem]
  · exact putBytes_ne_none

theorem respond_inj {t : Stub} {msg msg' : List Byte} (h : respond s msg = respond t msg') :
    sendResponse msg = sendResponse msg' ∧ s = t := by
  simpa [respond] using h

theorem sendResponse_ok_ne {msg : List Byte} (hmsg : IsError msg) :
    sendResponse (lit "OK") ≠ sendResponse msg := by
  intro h
  match msg, hmsg with
  | c :: msg, hmsg =>
    have hc : c = ch 'E' := by simpa [IsError] using hmsg
    have hhead : ch 'O' = c := by
      simp only [sendResponse, lit, List.cons.injEq] at h
      exact (List.cons.inj h.2).1
    rw [hc] at hhead
    exact absurd hhead (by decide)

/-- **What passes the checks is not answered with an error.** -/
theorem gdbWriteMem_of_accepted (hu : IsText u) (hbuf : s.cmdBuf = (ch 'M' :: u) ++ 0#8 :: b)
    (hreq : request u = some (a, l, d)) (hlen : LengthOk l d) {msg : List Byte}
    (hmsg : IsError msg) : gdbWriteMem s ≠ respond s msg := by
  simp only [gdbWriteMem, readRequest_drop hu hbuf, hreq, Option.bind_some, if_pos hlen, bind,
    Except.bind]
  cases hstore : storeData s.mem (BitVec.ofNat 32 (readAs a)) (BitVec.ofNat 32 (readAs l))
      (d ++ 0#8 :: b) with
  | error e => simp [respond]
  | ok mem =>
    cases mem with
    | none => exact absurd hstore storeData_ne_none
    | some mem => exact fun h => sendResponse_ok_ne hmsg (respond_inj h).1

/-- **What is stored**, if the length is read as it is spelled. -/
theorem gdbWriteMem_stored (hu : IsText u) (hbuf : s.cmdBuf = (ch 'M' :: u) ++ 0#8 :: b)
    (hreq : request u = some (a, l, d)) (hlen : LengthOk l d) (hd : AllHex d) {k : ℕ}
    (hk : d.length = 2 * k) (hlt : k < 2 ^ 31)
    (hread : BitVec.ofNat 32 (readAs l) = BitVec.ofNat 32 k) :
    gdbWriteMem s = respond
      { s with mem := poke s.mem (BitVec.ofNat 32 (readAs a)) (readData d) } (lit "OK") := by
  simp only [gdbWriteMem, readRequest_drop hu hbuf, hreq, Option.bind_some, if_pos hlen, bind,
    Except.bind, hread, storeData_eq hd hk hlt]

end Write

/-! ### When a request is exact -/

/-- A state with a text in its buffer. -/
def stubWith (t : List Byte) (mem : BitVec 32 → Byte) : Stub :=
  { Stub.init mem (fun _ => 0#32) with cmdBuf := t ++ 0#8 :: List.replicate (511 - t.length) 0#8 }

theorem holds_stubWith {t : List Byte} (ht : t.length ≤ 511) (mem : BitVec 32 → Byte) :
    Holds (stubWith t mem).cmdBuf t where
  ok := by
    constructor
    · simp only [stubWith, List.length_append, List.length_cons, List.length_replicate]
      omega
    · simp only [stubWith]
      rw [← List.replicate_succ, List.getElem?_append_right ht, List.getElem?_replicate,
        if_pos (by omega)]
  eq := ⟨_, rfl⟩

/-- With the right number of digits, the length is accepted just when it is read as it is
spelled. -/
theorem lengthOk_iff {l d : List Byte} (hd : d.length = 2 * spelled l) :
    LengthOk l d ↔ ∀ c ∈ l.reverse.take 7, ¬IsCapital c := by
  rw [← readAs_mod_eq_iff (n := 31) (by omega) (by omega), LengthOk, ← BitVec.toNat_inj,
    BitVec.toNat_mul, BitVec.toNat_ofNat, BitVec.toNat_ofNat, BitVec.toNat_ofNat, hd]
  omega

section Exact

variable {u a l d : List Byte}

/-- A text has one set of fields. -/
theorem WellFormed.request_eq (h : WellFormed (ch 'M' :: u) a l d) :
    request u = some (a, l, d) :=
  request_eq_some_iff.mpr ⟨(List.cons.inj h.text_eq).2, h.addr_hex, h.len_hex⟩

theorem Accepted.request_eq (h : Accepted (ch 'M' :: u)) :
    ∃ a l d, request u = some (a, l, d) ∧ LengthOk l d := by
  obtain ⟨a, l, d, heq, ha, hl, hlen⟩ := h
  exact ⟨a, l, d, request_eq_some_iff.mpr ⟨(List.cons.inj heq).2, ha, hl⟩, hlen⟩

/-- **What a well-formed request does to memory** is what it says, just when it is clean. -/
theorem poke_readData_iff (hwf : WellFormed (ch 'M' :: u) a l d) (hlen : d.length ≤ 511) :
    (∀ mem, poke mem (BitVec.ofNat 32 (readAs a)) (readData d) =
      poke mem (BitVec.ofNat 32 (spelled a)) (dataBytes d)) ↔
      d = [] ∨ (∀ c ∈ a.reverse.take 7, ¬IsCapital c) ∧ CleanData d := by
  have heven := hwf.data_length
  have : Nontrivial Byte := ⟨0#8, 1#8, by decide⟩
  rw [← ofNat_readAs_eq_iff (k := 7) (n := 32) (by omega) (by omega),
    ← readData_eq_iff hwf.data_hex]
  constructor
  · intro h
    by_cases hnil : d = []
    · exact .inl hnil
    · have hpos := List.length_pos_of_ne_nil hnil
      refine .inr (poke_inj h ?_ ?_ ?_)
      · rw [length_readData, dataBytes, length_byPairs]
      · rw [length_readData]
        omega
      · rw [length_readData]
        omega
  · rintro (rfl | ⟨ha, hd⟩) mem
    · rfl
    · rw [ha, hd]

theorem WellFormed.data_le (hwf : WellFormed (ch 'M' :: u) a l d) (hle : (ch 'M' :: u).length ≤ 511) :
    d.length ≤ 511 := by
  have := congrArg List.length hwf.text_eq
  simp only [List.length_cons, List.length_append] at this hle
  omega

/-- A well-formed request that is carried out is clean. -/
theorem WriteExact.clean (h : WriteExact (ch 'M' :: u)) (hu : IsText u)
    (hle : (ch 'M' :: u).length ≤ 511) (hwf : WellFormed (ch 'M' :: u) a l d) : Clean a l d := by
  have hreq := hwf.request_eq
  have hdlen := hwf.data_le hle
  have heven := hwf.data_length
  have hexact := fun mem => (h (stubWith (ch 'M' :: u) mem) (holds_stubWith hle mem)).1 a l d hwf
  -- the length has to be accepted, …
  have hlen : LengthOk l d := by
    by_contra hlen
    have hfirst := hexact fun _ => 0#8
    rw [gdbWriteMem_of_length hu rfl hreq hlen] at hfirst
    exact sendResponse_ok_ne isError_e01 (respond_inj hfirst).1.symm
  have hclean := (lengthOk_iff heven).mp hlen
  refine ⟨hclean, (poke_readData_iff hwf hdlen).mp fun mem => ?_⟩
  -- … and then memory tells the address and the data
  have hstored := gdbWriteMem_stored (s := stubWith (ch 'M' :: u) mem) hu rfl hreq hlen
    hwf.data_hex heven (by omega) ((ofNat_readAs_eq_iff (by omega) (by omega) l).mpr hclean)
  rw [hexact mem] at hstored
  exact (congrArg Stub.mem (respond_inj hstored).2).symm

/-- Another text that is refused does not pass the checks. -/
theorem WriteExact.not_accepted (h : WriteExact (ch 'M' :: u)) (hu : IsText u)
    (hle : (ch 'M' :: u).length ≤ 511) (hno : ∀ a l d, ¬WellFormed (ch 'M' :: u) a l d) :
    ¬Accepted (ch 'M' :: u) := by
  intro hacc
  obtain ⟨a, l, d, hreq, hlen⟩ := hacc.request_eq
  obtain ⟨msg, hmsg, heq⟩ := (h (stubWith (ch 'M' :: u) fun _ => 0#8) (holds_stubWith hle _)).2 hno
  exact gdbWriteMem_of_accepted hu rfl hreq hlen hmsg heq

/-- Conversely, clean requests are carried out, and what does not pass the checks is refused. -/
theorem writeExact_of_clean (hu : IsText u) (hle : (ch 'M' :: u).length ≤ 511)
    (hclean : ∀ a l d, WellFormed (ch 'M' :: u) a l d → Clean a l d)
    (hrefuse : (∀ a l d, ¬WellFormed (ch 'M' :: u) a l d) → ¬Accepted (ch 'M' :: u)) :
    WriteExact (ch 'M' :: u) := by
  rintro s ⟨-, b, hbuf⟩
  refine ⟨fun a l d hwf => ?_, fun hno => ⟨lit "E01", isError_e01, ?_⟩⟩
  · have hreq := hwf.request_eq
    have hdlen := hwf.data_le hle
    have heven := hwf.data_length
    obtain ⟨hl, hrest⟩ := hclean a l d hwf
    rw [gdbWriteMem_stored hu hbuf hreq ((lengthOk_iff heven).mpr hl) hwf.data_hex heven (by omega)
      ((ofNat_readAs_eq_iff (by omega) (by omega) l).mpr hl), (poke_readData_iff hwf hdlen).mpr hrest]
  · cases hreq : request u with
    | none => exact gdbWriteMem_of_none hu hbuf hreq
    | some f =>
      obtain ⟨a, l, d⟩ := f
      refine gdbWriteMem_of_length hu hbuf hreq fun hlen => hrefuse hno ?_
      obtain ⟨heq, ha, hl⟩ := request_eq_some_iff.mp hreq
      exact ⟨a, l, d, congrArg (ch 'M' :: ·) heq, ha, hl, hlen⟩

/-- **When a request to write is exact**: a well-formed one if it is clean, and any other text if
it does not pass the checks. -/
theorem writeExact_iff (m : Command 'M') :
    WriteExact m.text ↔
      (∀ a l d, WellFormed m.text a l d → Clean a l d) ∧
        ((∀ a l d, ¬WellFormed m.text a l d) → ¬Accepted m.text) := by
  obtain ⟨u, htext, hu⟩ := m.eq_cons
  have hle := m.length_le
  rw [htext] at hle ⊢
  constructor
  · intro h
    exact ⟨fun a l d hwf => h.clean hu hle hwf, h.not_accepted hu hle⟩
  · rintro ⟨hclean, hrefuse⟩
    exact writeExact_of_clean hu hle hclean hrefuse

/-- **A capital digit changes what is stored.** GDB asks for the byte `0A` at 0x1000, `EA` is
stored, and the answer is `OK`. -/
theorem not_writeExact_capital :
    (∃ out t, gdbWriteMem (stubWith (lit "M1000,1:0A") fun _ => 0#8) = .ok (out, t) ∧
      out = sendResponse (lit "OK") ∧ t.mem 0x1000#32 = 0xEA#8) ∧
    ¬WriteExact (lit "M1000,1:0A") := by
  have hwf : WellFormed (ch 'M' :: lit "1000,1:0A") (lit "1000") (lit "1") (lit "0A") := by
    constructor <;> decide
  have hstored := gdbWriteMem_stored (s := stubWith (lit "M1000,1:0A") fun _ => 0#8) (by decide) rfl
    hwf.request_eq (by decide) hwf.data_hex hwf.data_length (by decide) (by decide)
  refine ⟨⟨_, _, hstored, rfl, ?_⟩, fun h => ?_⟩
  · decide
  · have hclean := WriteExact.clean (u := lit "1000,1:0A") h (by decide) (by decide) hwf
    rcases hclean.rest with hnil | ⟨-, hdata⟩
    · exact absurd hnil (by decide)
    · rw [CleanData, if_neg (by decide)] at hdata
      exact hdata 0 (ch 'A') (by decide) (by decide)

end Exact

end Monitor

end Gdb

end BareMetal
