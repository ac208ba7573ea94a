import BareMetal.Gdb.WriteMem
import Mathlib.Tactic.FinCases

/-!
# Registers to GDB and back

`g` sends the seventeen registers, each as the digits of its bytes in the order of memory, with 25
fields of `x` before the last; `G` sets them from such a payload. One writes digits from a table
and shifts, the other reads a number and swaps its bytes, and the fields are found by their
offsets.

The two are inverse: what `g` sends, `G` takes back as the same registers
(`BareMetal.Gdb.Monitor.RoundTrip`). A payload that does not come from the stub may be written in
capitals (`BareMetal.Gdb.Monitor.SetsRegs`), and then a register gets the value its field spells
just when no digit but the first of the field is one.
-/

namespace BareMetal

namespace Gdb

namespace Monitor

/-! ### Digits of a byte -/

/-- A digit as it is written. -/
def hexDigit (n : ℕ) : Byte := (lit "0123456789abcdef").getD n 0#8

/-- A digit in lower case. -/
def lower (c : Byte) : Byte := if IsCapital c then c + 32#8 else c

theorem hexByte_eq (b : Byte) : hexByte b = [hexDigit (b.toNat / 16), hexDigit (b.toNat % 16)] := by
  have hhigh : ((b &&& 0xf0#8) >>> 4).toNat = b.toNat / 16 := by
    revert b
    decide
  have hlow : (b &&& 0xf#8).toNat = b.toNat % 16 := by
    rw [BitVec.toNat_and]
    exact Nat.and_two_pow_sub_one_eq_mod b.toNat 4
  rw [hexDigit, hexDigit, ← hhigh, ← hlow]
  rfl

/-- A digit that is written is none of the capitals, and denotes what it was written for. -/
theorem hexDigit_spec : ∀ n : Fin 16, isHex (hexDigit n) = true ∧ ¬IsCapital (hexDigit n) ∧
    digitVal (hexDigit n) = n := by decide

/-- A digit that was read is written in lower case. -/
theorem hexDigit_digitVal : ∀ c, isHex c = true → hexDigit (digitVal c) = lower c := by decide

section Digits

variable {a b : Byte}

theorem spelled_two (a b : Byte) : spelled [a, b] = digitVal a * 16 + digitVal b := by
  rw [spelled_cons, spelled_cons]
  simp [spelled, numeral]

theorem hexByte_spelled (ha : isHex a = true) (hb : isHex b = true) :
    hexByte (BitVec.ofNat 8 (spelled [a, b])) = [lower a, lower b] := by
  have hx := digitVal_lt a ha
  have hy := digitVal_lt b hb
  have hval : (BitVec.ofNat 8 (spelled [a, b])).toNat = digitVal a * 16 + digitVal b := by
    rw [spelled_two, BitVec.toNat_ofNat, Nat.mod_eq_of_lt (by omega)]
  have hdiv : (digitVal a * 16 + digitVal b) / 16 = digitVal a := by omega
  have hmod : (digitVal a * 16 + digitVal b) % 16 = digitVal b := by omega
  rw [hexByte_eq, hval, hdiv, hmod, hexDigit_digitVal a ha, hexDigit_digitVal b hb]

/-- **Bytes that were spelled are written in lower case.** -/
theorem flatMap_dataBytes {d : List Byte} (hd : AllHex d) (heven : 2 ∣ d.length) :
    (dataBytes d).flatMap hexByte = d.map lower := by
  match d with
  | [] => rfl
  | [x] => simp at heven
  | x :: y :: d =>
    obtain ⟨hx, hy, hd⟩ : isHex x = true ∧ isHex y = true ∧ AllHex d := by
      simpa [AllHex] using hd
    have heven : 2 ∣ d.length := by
      simp only [List.length_cons] at heven
      omega
    have ih := flatMap_dataBytes hd heven
    rw [dataBytes] at ih
    rw [dataBytes, byPairs, List.flatMap_cons, ih, hexByte_spelled hx hy]
    rfl

theorem hexByte_digits (b : Byte) :
    AllHex (hexByte b) ∧ (∀ c ∈ hexByte b, ¬IsCapital c) ∧ spelled (hexByte b) = b.toNat := by
  have hb := b.isLt
  obtain ⟨hx, hxcap, hxval⟩ := hexDigit_spec ⟨b.toNat / 16, by omega⟩
  obtain ⟨hy, hycap, hyval⟩ := hexDigit_spec ⟨b.toNat % 16, by omega⟩
  rw [hexByte_eq, spelled_two, hxval, hyval]
  refine ⟨by simp [AllHex, hx, hy], by simp [hxcap, hycap], ?_⟩
  simp only
  omega

/-- **Bytes that are written spell themselves.** -/
theorem dataBytes_flatMap (bs : List Byte) : dataBytes (bs.flatMap hexByte) = bs := by
  induction bs with
  | nil => rfl
  | cons b bs ih =>
    have hval := (hexByte_digits b).2.2
    rw [hexByte_eq] at hval
    rw [dataBytes] at ih
    rw [dataBytes, List.flatMap_cons, hexByte_eq]
    simp only [List.cons_append, List.nil_append, byPairs, ih, hval, BitVec.ofNat_toNat,
      BitVec.setWidth_eq]

theorem forall_mem_flatMap_hexByte {P : Byte → Prop} (hP : ∀ b, ∀ c ∈ hexByte b, P c)
    (bs : List Byte) : ∀ c ∈ bs.flatMap hexByte, P c := by
  intro c hc
  obtain ⟨b, -, hb⟩ := List.mem_flatMap.mp hc
  exact hP b c hb

theorem allHex_flatMap_hexByte (bs : List Byte) : AllHex (bs.flatMap hexByte) :=
  forall_mem_flatMap_hexByte (fun b => (hexByte_digits b).1) bs

end Digits

/-! ### The reply to `g` -/

/-- A field of the reply. -/
def fieldText : Option (BitVec 32) → List Byte
  | some v => (le32 v).flatMap hexByte
  | none => lit "xxxxxxxx"

/-- **The payload of a register reply.** -/
def regText (regs : Fin 17 → BitVec 32) : List Byte := (regFields regs).flatMap fieldText

/-- Texts of one length, one behind the other. -/
theorem length_flatMap_const {α : Type*} {f : α → List Byte} {n : ℕ} (hf : ∀ x, (f x).length = n)
    (xs : List α) : (xs.flatMap f).length = n * xs.length := by
  induction xs with
  | nil => rfl
  | cons x xs ih =>
    rw [List.flatMap_cons, List.length_append, hf, ih, List.length_cons, Nat.mul_succ, Nat.add_comm]

theorem length_hexByte (b : Byte) : (hexByte b).length = 2 := rfl

theorem length_fieldText (r : Option (BitVec 32)) : (fieldText r).length = 8 := by
  cases r <;> rfl

theorem length_regFields (regs : Fin 17 → BitVec 32) : (regFields regs).length = 42 := rfl

theorem length_flatMap_fieldText (rs : List (Option (BitVec 32))) :
    (rs.flatMap fieldText).length = 8 * rs.length :=
  length_flatMap_const length_fieldText rs

section Put

variable {pre rest : List Byte} {c : Byte}

/-- Bytes and a null byte are written behind a part of the buffer that stays. -/
theorem writeAt_append {bs : List Byte} (hbs : bs.length ≤ rest.length) :
    writeAt (pre ++ c :: rest) pre.length (bs ++ [0#8]) =
      .ok ((pre ++ bs) ++ 0#8 :: rest.drop bs.length) := by
  have hle : pre.length + (bs ++ [0#8]).length ≤ (pre ++ c :: rest).length := by
    simp only [List.length_append, List.length_cons, List.length_nil]
    omega
  have hdrop : (pre ++ c :: rest).drop (pre.length + (bs ++ [0#8]).length) =
      rest.drop bs.length := by
    rw [← List.drop_drop, List.drop_left, List.length_append, List.length_singleton,
      List.drop_succ_cons]
  rw [writeAt, if_pos hle, hdrop, List.take_left]
  simp only [List.append_assoc, List.singleton_append]

theorem putHexByte_append (b : Byte) (hrest : 2 ≤ rest.length) :
    putHexByte (pre ++ c :: rest) pre.length b =
      .ok ((pre ++ hexByte b) ++ 0#8 :: rest.drop 2) :=
  writeAt_append hrest

theorem putReg_append (v : BitVec 32) (hrest : 8 ≤ rest.length) :
    putReg (pre ++ c :: rest) pre.length v =
      .ok ((pre ++ fieldText (some v)) ++ 0#8 :: rest.drop 8) := by
  -- one byte more, with `n` characters of the register written
  have hstep : ∀ (done : List Byte) (n : ℕ) (b : Byte), done.length = n → n + 2 ≤ 8 →
      putHexByte ((pre ++ done) ++ 0#8 :: rest.drop n) (pre.length + n) b =
        .ok ((pre ++ (done ++ hexByte b)) ++ 0#8 :: rest.drop (n + 2)) := by
    rintro done n b rfl hn
    rw [← List.length_append, putHexByte_append b (by rw [List.length_drop]; omega),
      List.drop_drop, List.append_assoc pre]
  simp only [putReg, bind, Except.bind, putHexByte_append _ (show 2 ≤ rest.length by omega)]
  rw [hstep _ 2 _ rfl (by omega)]
  simp only
  rw [hstep _ 4 _ rfl (by omega)]
  simp only
  rw [hstep _ 6 _ rfl (by omega)]
  simp only [fieldText, le32, List.flatMap_cons, List.flatMap_nil, List.append_nil,
    List.append_assoc]

theorem putInvalidReg_append (hrest : 8 ≤ rest.length) :
    putInvalidReg (pre ++ c :: rest) pre.length =
      .ok ((pre ++ fieldText none) ++ 0#8 :: rest.drop 8) :=
  writeAt_append hrest

/-- **The loops of `read_regs`** put one field behind the other. -/
theorem putFields_append (rs : List (Option (BitVec 32))) (pre rest : List Byte) (c : Byte)
    (hrest : 8 * rs.length ≤ rest.length) :
    ∃ c', putFields rs pre.length (pre ++ c :: rest) =
      .ok ((pre ++ rs.flatMap fieldText) ++ c' :: rest.drop (8 * rs.length)) := by
  induction rs generalizing pre rest c with
  | nil => exact ⟨c, by simp [putFields]⟩
  | cons r rs ih =>
    rw [List.length_cons] at hrest
    obtain ⟨c', hput⟩ := ih (pre ++ fieldText r) (rest.drop 8) 0#8
      (by rw [List.length_drop]; omega)
    have hlen : 8 + 8 * rs.length = 8 * (rs.length + 1) := by omega
    rw [List.length_append, length_fieldText, List.drop_drop, hlen,
      List.append_assoc pre (fieldText r) (rs.flatMap fieldText), ← List.flatMap_cons] at hput
    refine ⟨c', ?_⟩
    cases r with
    | some v =>
      simp only [putFields, putReg_append v (show 8 ≤ rest.length by omega), bind, Except.bind]
      exact hput
    | none =>
      simp only [putFields, putInvalidReg_append (show 8 ≤ rest.length by omega), bind, Except.bind]
      exact hput

end Put

/-- **What `g` sends**, and the buffer it leaves. -/
theorem readRegs_eq {s : Stub} (hbuf : s.cmdBuf.length = 512) :
    ∃ c, readRegs s = respond
      { s with cmdBuf := regText s.regs ++ c :: s.cmdBuf.drop 337 } (regText s.regs) := by
  match hs : s.cmdBuf, hbuf with
  | c :: rest, hbuf =>
    rw [List.length_cons, Nat.add_right_cancel_iff] at hbuf
    obtain ⟨c', hput⟩ := putFields_append (regFields s.regs) [] rest c
      (by rw [length_regFields]; omega)
    rw [length_regFields] at hput
    have hlen : (regText s.regs).length = (17 + extraRegs) * 8 :=
      length_flatMap_fieldText (regFields s.regs)
    refine ⟨c', ?_⟩
    simp only [List.nil_append, List.length_nil] at hput
    rw [← regText] at hput
    simp only [readRegs, hs, hput, bind, Except.bind, slowMemcpy]
    rw [if_pos (by rw [List.length_append, hlen]; omega), ← hlen, List.take_left]
    rfl

/-! ### The fields of a payload -/

/-- Where the field of a register is: the last comes after those that the processor does not
have. -/
def fieldIndex (m : Fin 17) : ℕ := if m = cpsr then 16 + extraRegs else m

/-- The field of a register. -/
def regField (p : List Byte) (m : Fin 17) : List Byte := (p.drop (fieldIndex m * 8)).take 8

theorem fieldIndex_le : ∀ m, fieldIndex m ≤ 41 := by decide

theorem length_regField {p : List Byte} (hp : p.length = 336) (m : Fin 17) :
    (regField p m).length = 8 := by
  have hm := fieldIndex_le m
  rw [regField, List.length_take, List.length_drop]
  omega

theorem take_drop_flatMap_fieldText {rs : List (Option (BitVec 32))} {i : ℕ}
    {r : Option (BitVec 32)} (hr : rs[i]? = some r) :
    ((rs.flatMap fieldText).drop (i * 8)).take 8 = fieldText r := by
  induction rs generalizing i with
  | nil => simp at hr
  | cons x rs ih =>
    rw [List.flatMap_cons]
    cases i with
    | zero =>
      obtain rfl : x = r := by simpa using hr
      rw [Nat.zero_mul, List.drop_zero, ← length_fieldText x, List.take_left]
    | succ i =>
      rw [List.getElem?_cons_succ] at hr
      rw [Nat.add_mul, Nat.one_mul, Nat.add_comm, ← List.drop_drop]
      have hdrop : (fieldText x ++ rs.flatMap fieldText).drop 8 = rs.flatMap fieldText := by
        rw [← length_fieldText x, List.drop_left]
      rw [hdrop]
      exact ih hr

theorem regFields_fieldIndex (regs : Fin 17 → BitVec 32) (m : Fin 17) :
    (regFields regs)[fieldIndex m]? = some (some (regs m)) := by
  fin_cases m <;> rfl

/-- **Each register is in its field.** -/
theorem regField_regText (regs : Fin 17 → BitVec 32) (m : Fin 17) :
    regField (regText regs) m = (le32 (regs m)).flatMap hexByte :=
  take_drop_flatMap_fieldText (regFields_fieldIndex regs m)

theorem length_regText (regs : Fin 17 → BitVec 32) : (regText regs).length = 336 :=
  length_flatMap_fieldText (regFields regs)

/-! ### What `G` does -/

/-- **The value a field is read as.** -/
def fieldRead (d : List Byte) : BitVec 32 := bswap32 (BitVec.ofNat 32 (readAs d))

theorem regFromStr_eq {str : Ptr} (hlen : 8 ≤ str.length) (hhex : AllHex (str.take 8)) :
    regFromStr str = .ok (fieldRead (str.take 8)) := by
  simp only [regFromStr, slowMemcpy, if_pos hlen, bind, Except.bind, readHex_zero hhex isHex_zero,
    pure, Except.pure, fieldRead]

/-- **The loop of `write_regs`**: the registers of the list are set, and the others stay. -/
theorem takeRegs_eq {msg : Ptr} {val : Fin 17 → BitVec 32} {ms : List (Fin 17)}
    (hms : ∀ m ∈ ms, regFromStr (msg.drop (m * 8)) = .ok (val m)) (regs : Fin 17 → BitVec 32) :
    takeRegs msg ms regs = .ok fun m => if m ∈ ms then val m else regs m := by
  induction ms generalizing regs with
  | nil => simp [takeRegs]
  | cons m ms ih =>
    obtain ⟨hm, hms⟩ := List.forall_mem_cons.mp hms
    simp only [takeRegs, hm, bind, Except.bind, ih hms]
    congr 1
    funext x
    by_cases hx : x ∈ ms
    · simp [hx]
    · by_cases hxm : x = m
      · subst hxm
        simp [hx]
      · simp [hx, hxm]

theorem mem_lowRegs_iff : ∀ m : Fin 17, m ∈ lowRegs ↔ m ≠ cpsr := by decide

section Write

variable {s : Stub} {p b : List Byte}

theorem take_drop_append {i : ℕ} (hi : i * 8 + 8 ≤ p.length) (q : List Byte) :
    ((p ++ q).drop (i * 8)).take 8 = (p.drop (i * 8)).take 8 := by
  rw [List.drop_append_of_le_length (by omega),
    List.take_append_of_le_length (by rw [List.length_drop]; omega)]

/-- Another length is refused, … -/
theorem writeRegs_of_length (hp : IsText p) (hbuf : s.cmdBuf = (ch 'G' :: p) ++ 0#8 :: b)
    (hlen : p.length ≠ 336) : writeRegs s = respond s (lit "E 01") := by
  have hne : p.length ≠ (17 + extraRegs) * 8 := hlen
  simp only [writeRegs, drop_command hbuf, strlen_text hp, bind, Except.bind, if_pos hne]

/-- … and with the right one **every register is what its field is read as**. -/
theorem writeRegs_eq (hp : IsText p) (hbuf : s.cmdBuf = (ch 'G' :: p) ++ 0#8 :: b)
    (hlen : p.length = 336) (hhex : ∀ m, AllHex (regField p m)) :
    writeRegs s = respond { s with regs := fun m => fieldRead (regField p m) } (lit "OK") := by
  have hfield : ∀ m, regFromStr ((p ++ 0#8 :: b).drop (fieldIndex m * 8)) =
      .ok (fieldRead (regField p m)) := by
    intro m
    have hm := fieldIndex_le m
    have htake := take_drop_append (p := p) (i := fieldIndex m) (by omega) (0#8 :: b)
    rw [regFromStr_eq, htake, regField]
    · rw [List.length_drop, List.length_append]
      omega
    · rw [htake]
      exact hhex m
  have hlow : ∀ m ∈ lowRegs, regFromStr ((p ++ 0#8 :: b).drop (m * 8)) =
      .ok (fieldRead (regField p m)) := by
    intro m hm
    have := hfield m
    rwa [fieldIndex, if_neg ((mem_lowRegs_iff m).mp hm)] at this
  have hlast := hfield cpsr
  rw [fieldIndex, if_pos rfl] at hlast
  have heq : p.length = (17 + extraRegs) * 8 := hlen
  simp only [writeRegs, drop_command hbuf, strlen_text hp, bind, Except.bind,
    if_neg (not_not.mpr heq), takeRegs_eq hlow, hlast]
  congr 2
  funext m
  by_cases hm : m = cpsr
  · rw [hm, Function.update_self]
  · rw [Function.update_of_ne hm, if_pos ((mem_lowRegs_iff m).mpr hm)]

end Write

/-! ### When a register is right -/

theorem le32_inj {v w : BitVec 32} (h : le32 v = le32 w) : v = w :=
  be32_inj (List.reverse_injective h)

/-- **A field is read as it is spelled** just when no digit but the first is a capital. -/
theorem le32_fieldRead_iff {d : List Byte} (hd : AllHex d) (hlen : d.length = 8) :
    le32 (fieldRead d) = dataBytes d ↔ ∀ c ∈ d.tail, ¬IsCapital c := by
  have hclean := readData_eq_iff hd
  rwa [readData, if_pos hlen, CleanData, if_pos (.inr hlen), ← le32_bswap32] at hclean

/-- What was written is read back. -/
theorem fieldRead_flatMap (v : BitVec 32) : fieldRead ((le32 v).flatMap hexByte) = v := by
  have hhex := allHex_flatMap_hexByte (le32 v)
  have hcap := forall_mem_flatMap_hexByte (fun b => (hexByte_digits b).2.1) (le32 v)
  apply le32_inj
  rw [(le32_fieldRead_iff hhex rfl).mpr fun c hc => hcap c (List.mem_of_mem_tail hc),
    dataBytes_flatMap]

/-! ### Both ways -/

/-- **What `g` sends is taken back**: in whatever state the payload comes as a `G` command, the
registers are those it was made from. -/
def RoundTrip (s : Stub) : Prop :=
  ∃ msg t, readRegs s = .ok (sendResponse msg, t) ∧ t.regs = s.regs ∧
    ∀ u : Stub, Holds u.cmdBuf (ch 'G' :: msg) →
      writeRegs u = respond { u with regs := s.regs } (lit "OK")

/-- A payload with a field of digits for each register. -/
structure RegPayload (p : List Byte) : Prop where
  length_eq : p.length = (17 + extraRegs) * 8
  hex : ∀ m, AllHex (regField p m)

/-- **A payload sets the registers**, in whatever state it comes: one with a field of digits for
each sets each to the value that its field spells in the order of memory, and a `g` that follows
sends these fields again, in lower case; one of another length changes nothing. -/
def SetsRegs (p : List Byte) : Prop :=
  ∀ s : Stub, Holds s.cmdBuf (ch 'G' :: p) →
    (RegPayload p → ∃ t, writeRegs s = .ok (sendResponse (lit "OK"), t) ∧
      (∀ m, le32 (t.regs m) = dataBytes (regField p m)) ∧
      ∀ u : Stub, BufOk u.cmdBuf → u.regs = t.regs →
        ∃ msg v, readRegs u = .ok (sendResponse msg, v) ∧ v.regs = u.regs ∧
          ∀ m, regField msg m = (regField p m).map lower) ∧
    (p.length ≠ (17 + extraRegs) * 8 → ∃ msg, writeRegs s = respond s msg)

theorem isText_of_allHex {t : List Byte} (ht : AllHex t) : IsText t := by
  intro hmem
  simpa [isHex_zero] using ht 0#8 hmem

theorem isText_flatMap_fieldText (rs : List (Option (BitVec 32))) :
    IsText (rs.flatMap fieldText) := by
  intro hmem
  obtain ⟨r, -, hr⟩ := List.mem_flatMap.mp hmem
  cases r with
  | none => exact absurd hr (by decide)
  | some v =>
    have hhex : AllHex (fieldText (some v)) := allHex_flatMap_hexByte (le32 v)
    exact isText_of_allHex hhex hr

/-- **Every state makes the round trip.** -/
theorem roundTrip_of_bufOk {s : Stub} (hs : BufOk s.cmdBuf) : RoundTrip s := by
  obtain ⟨c, hread⟩ := readRegs_eq hs.length_eq
  refine ⟨_, _, hread, rfl, fun u hu => ?_⟩
  obtain ⟨b, hbuf⟩ := hu.eq
  have hhex : ∀ m, AllHex (regField (regText s.regs) m) := by
    intro m
    rw [regField_regText]
    exact allHex_flatMap_hexByte _
  have htext : IsText (regText s.regs) := isText_flatMap_fieldText _
  rw [writeRegs_eq htext hbuf (length_regText _) hhex]
  simp only [regField_regText, fieldRead_flatMap]

section Sets

variable {p : List Byte}

/-- The fields that are sent after registers have been set as spelled. -/
theorem regField_regText_of_le32 (hp : RegPayload p) {regs : Fin 17 → BitVec 32}
    (hregs : ∀ m, le32 (regs m) = dataBytes (regField p m)) (m : Fin 17) :
    regField (regText regs) m = (regField p m).map lower := by
  have hlen := length_regField hp.length_eq m
  rw [regField_regText, hregs m, flatMap_dataBytes (hp.hex m) (by rw [hlen]; decide)]

/-- Without capitals behind the first digit of a field, a payload sets the registers. -/
theorem setsRegs_of_clean (hp : IsText p)
    (hclean : RegPayload p → ∀ m, ∀ c ∈ (regField p m).tail, ¬IsCapital c) : SetsRegs p := by
  rintro s ⟨-, b, hbuf⟩
  refine ⟨fun hpay => ?_, fun hlen => ⟨_, writeRegs_of_length hp hbuf hlen⟩⟩
  have hregs : ∀ m, le32 (fieldRead (regField p m)) = dataBytes (regField p m) := fun m =>
    (le32_fieldRead_iff (hpay.hex m) (length_regField hpay.length_eq m)).mpr (hclean hpay m)
  refine ⟨_, writeRegs_eq hp hbuf hpay.length_eq hpay.hex, hregs, fun u hu heq => ?_⟩
  obtain ⟨c, hread⟩ := readRegs_eq hu.length_eq
  refine ⟨_, _, hread, rfl, ?_⟩
  rw [heq]
  exact regField_regText_of_le32 hpay hregs

/-- A payload that sets the registers has no capital behind the first digit of a field. -/
theorem SetsRegs.clean (h : SetsRegs p) (hp : IsText p) (hle : (ch 'G' :: p).length ≤ 511)
    (hpay : RegPayload p) (m : Fin 17) : ∀ c ∈ (regField p m).tail, ¬IsCapital c := by
  obtain ⟨t, heq, hregs, -⟩ :=
    (h (stubWith (ch 'G' :: p) fun _ => 0#8) (holds_stubWith hle _)).1 hpay
  rw [writeRegs_eq hp rfl hpay.length_eq hpay.hex, respond, Except.ok.injEq, Prod.mk.injEq] at heq
  have hm := hregs m
  rw [← heq.2] at hm
  exact (le32_fieldRead_iff (hpay.hex m) (length_regField hpay.length_eq m)).mp hm

end Sets

/-- **Registers are transferred without a loss**, from the stub and back and with a payload of
GDB. -/
def Lossless (p : List Byte) : Prop := (∀ s : Stub, BufOk s.cmdBuf → RoundTrip s) ∧ SetsRegs p

/-- **When registers are transferred without a loss**: from the stub and back always, and from GDB
just when no digit of a field but its first is a capital. -/
theorem lossless_iff (g : Command 'G') :
    Lossless g.text.tail ↔
      (RegPayload g.text.tail → ∀ m, ∀ c ∈ (regField g.text.tail m).tail, ¬IsCapital c) := by
  obtain ⟨p, htext, hp⟩ := g.eq_cons
  have hle := g.length_le
  rw [htext] at hle
  rw [htext, List.tail_cons]
  constructor
  · rintro ⟨-, h⟩ hpay
    exact h.clean hp hle hpay
  · intro hclean
    exact ⟨fun s hs => roundTrip_of_bufOk hs, setsRegs_of_clean hp hclean⟩

/-- A payload of zeros, but for `0A` in front. -/
def capitalPayload : List Byte := lit "0A" ++ List.replicate 334 (ch '0')

theorem allHex_capitalPayload : AllHex capitalPayload := by
  intro c hc
  rcases List.mem_append.mp hc with hc | hc
  · have hlit : AllHex (lit "0A") := by decide
    exact hlit c hc
  · rw [List.eq_of_mem_replicate hc]
    decide

theorem regPayload_capitalPayload : RegPayload capitalPayload where
  length_eq := by
    rw [capitalPayload, List.length_append, List.length_replicate]
    rfl
  hex := fun _ c hc => allHex_capitalPayload c (List.mem_of_mem_drop (List.mem_of_mem_take hc))

/-- **A capital digit changes a register.** GDB sets `R0` to 0x0A, in capitals, it becomes 0xEA, and
the answer is `OK`. -/
theorem not_lossless_capital :
    (∃ t, writeRegs (stubWith (ch 'G' :: capitalPayload) fun _ => 0#8) =
      .ok (sendResponse (lit "OK"), t) ∧ t.regs 0 = 0xEA#32) ∧
    ¬Lossless capitalPayload := by
  have htext := isText_of_allHex allHex_capitalPayload
  have hpay := regPayload_capitalPayload
  have hfield : regField capitalPayload 0 = lit "0A000000" := rfl
  refine ⟨⟨_, writeRegs_eq htext rfl hpay.length_eq hpay.hex, ?_⟩, fun h => ?_⟩
  · simp only [hfield]
    decide
  · have hle : (ch 'G' :: capitalPayload).length ≤ 511 := by
      rw [List.length_cons, hpay.length_eq]
      decide
    have hclean := h.2.clean htext hle hpay 0
    rw [hfield] at hclean
    exact hclean (ch 'A') (by decide) (by decide)

end Monitor

end Gdb

end BareMetal
