import BareMetal.Numeral
import BareMetal.Gdb.Monitor
import Mathlib.Data.List.TakeWhile
import Mathlib.Tactic.Ring

/-!
# What the stub reads in its buffer

A command is a text with a null byte behind it and more bytes behind that. The string functions
read the text and the null byte and no further, so that on a buffer that has one they never leave
it (`BareMetal.Gdb.Monitor.strlen_text` and its siblings).

Digits may be written in capitals or not, and `is_hex` lets both through. A capital digit is read
as 224 more than it denotes (`BareMetal.Gdb.Monitor.toNat_hexNibbleVal`), so that a text is not
read as the number it spells (`BareMetal.Gdb.Monitor.spelled`) but as that number and 224 times
the places of its capitals (`BareMetal.Gdb.Monitor.readAs`). Of the lowest `4 k + 4` bits of a
number this leaves nothing just when none of the last `k` digits is a capital
(`BareMetal.Gdb.Monitor.readAs_mod_eq_iff`).
-/

namespace BareMetal

namespace Gdb

namespace Monitor

/-! ### Digits -/

/-- A capital digit. -/
def IsCapital (c : Byte) : Prop := ch 'A' ≤ c ∧ c ≤ ch 'F'

instance (c : Byte) : Decidable (IsCapital c) := inferInstanceAs (Decidable (_ ∧ _))

/-- The value of a digit of either case. -/
def digitVal (c : Byte) : ℕ :=
  if c ≤ ch '9' then c.toNat - 48 else if c ≤ ch 'F' then c.toNat - 55 else c.toNat - 87

/-- **A capital digit is read as 224 too much.** -/
theorem toNat_hexNibbleVal : ∀ c, isHex c = true →
    (hexNibbleVal c).toNat = digitVal c + 224 * (decide (IsCapital c)).toNat := by decide

theorem digitVal_lt : ∀ c, isHex c = true → digitVal c < 16 := by decide

/-- A text of digits. -/
def AllHex (ds : List Byte) : Prop := ∀ c ∈ ds, isHex c = true

instance (ds : List Byte) : Decidable (AllHex ds) := inferInstanceAs (Decidable (∀ c ∈ ds, _))

/-- **The number that digits spell.** -/
def spelled (ds : List Byte) : ℕ := numeral 16 (ds.map digitVal)

/-- The places of the capitals among them. -/
def capitals (ds : List Byte) : ℕ := markSum 4 (ds.reverse.map fun c => decide (IsCapital c))

/-- **The number that is read.** -/
def readAs (ds : List Byte) : ℕ := spelled ds + 224 * capitals ds

section Digits

variable {ds : List Byte} {c : Byte}

theorem spelled_cons : spelled (c :: ds) = digitVal c * 16 ^ ds.length + spelled ds := by
  rw [spelled, List.map_cons, numeral_cons, List.length_map, spelled]

theorem spelled_append (ds es : List Byte) :
    spelled (ds ++ es) = spelled ds * 16 ^ es.length + spelled es := by
  rw [spelled, List.map_append, numeral_append, List.length_map, spelled, spelled]

theorem spelled_lt (hds : AllHex ds) : spelled ds < 16 ^ ds.length := by
  rw [← List.length_map (f := digitVal)]
  refine numeral_lt (by omega) fun d hd => ?_
  obtain ⟨c, hc, rfl⟩ := List.mem_map.mp hd
  exact digitVal_lt c (hds c hc)

theorem capitals_cons :
    capitals (c :: ds) = (decide (IsCapital c)).toNat * 16 ^ ds.length + capitals ds := by
  rw [capitals, markSum, List.reverse_cons, List.map_append, List.map_append, Nat.ofDigits_append,
    ← markSum, ← capitals]
  simp only [List.map_cons, List.map_nil, Nat.ofDigits_singleton, List.length_map,
    List.length_reverse]
  ring

theorem readAs_cons (hc : isHex c = true) :
    readAs (c :: ds) = (hexNibbleVal c).toNat * 16 ^ ds.length + readAs ds := by
  rw [readAs, spelled_cons, capitals_cons, toNat_hexNibbleVal c hc, readAs]
  ring

/-- **When a number is read as it is spelled**, in its lowest `n` bits: none of the last `k`
digits is a capital. -/
theorem readAs_mod_eq_iff {k n : ℕ} (hlow : 4 * k + 1 < n) (hhigh : n ≤ 4 * k + 5) :
    readAs ds % 2 ^ n = spelled ds % 2 ^ n ↔ ∀ c ∈ ds.reverse.take k, ¬IsCapital c := by
  have hdvd : readAs ds % 2 ^ n = spelled ds % 2 ^ n ↔ 2 ^ n ∣ 2 ^ 5 * (7 * capitals ds) := by
    have herr : readAs ds - spelled ds = 2 ^ 5 * (7 * capitals ds) := by
      rw [readAs, Nat.add_sub_cancel_left]
      ring
    rw [eq_comm, ← herr]
    exact Nat.modEq_iff_dvd' (Nat.le_add_right _ _)
  rw [hdvd, capitals, two_pow_dvd_marks_iff (by omega) (by decide)]
  constructor
  · intro h c hc hcap
    obtain ⟨i, hi, rfl⟩ := List.getElem_of_mem hc
    rw [List.length_take] at hi
    rw [List.getElem_take] at hcap
    have hget : (ds.reverse.map fun c => decide (IsCapital c))[i]? = some true := by
      rw [List.getElem?_map, List.getElem?_eq_getElem (by omega), Option.map_some,
        decide_eq_true hcap]
    have := h i hget
    omega
  · intro h i hi
    rw [List.getElem?_map, Option.map_eq_some_iff] at hi
    obtain ⟨c, hget, hcap⟩ := hi
    by_contra hlt
    obtain ⟨hilt, hc⟩ := List.getElem?_eq_some_iff.mp hget
    refine h c ?_ (of_decide_eq_true hcap)
    rw [← hc]
    exact List.mem_take_iff_getElem.mpr ⟨i, by omega, rfl⟩

end Digits

/-! ### Numbers in the buffer -/

/-- **What `read_hex` reads**: the digits before the first character that is none. -/
theorem readHex_digits {ds : List Byte} (hds : AllHex ds) {c : Byte} (hc : isHex c = false)
    (v : BitVec 32) (p : Ptr) :
    readHex v (ds ++ c :: p) =
      .ok (v * 16#32 ^ ds.length + BitVec.ofNat 32 (readAs ds), c :: p) := by
  induction ds generalizing v with
  | nil => simp [readHex, hc, readAs, spelled, capitals, markSum]
  | cons d ds ih =>
    have hd : isHex d = true := hds d List.mem_cons_self
    rw [List.cons_append, readHex, if_pos hd, ih fun x hx => hds x (List.mem_cons_of_mem d hx),
      readAs_cons hd, List.length_cons, ← BitVec.ofNat_toNat]
    congr 2
    simp only [← BitVec.natCast_eq_ofNat]
    push_cast
    ring

/-! ### Strings in the buffer -/

/-- A text has no null byte. -/
def IsText (t : List Byte) : Prop := 0#8 ∉ t

instance (t : List Byte) : Decidable (IsText t) := inferInstanceAs (Decidable (_ ∉ _))

theorem isHex_zero : isHex 0#8 = false := by decide

section Strings

variable {t : List Byte} {delim : Byte} {b : Ptr}

theorem IsText.tail {c : Byte} (h : IsText (c :: t)) : c ≠ 0#8 ∧ IsText t :=
  ⟨fun hc => h (hc ▸ List.mem_cons_self), fun hc => h (List.mem_cons_of_mem c hc)⟩

/-- `strlen` stops at the null byte. -/
theorem strlen_text (ht : IsText t) (b : Ptr) : strlen (t ++ 0#8 :: b) = .ok t.length := by
  induction t with
  | nil => rfl
  | cons c t ih =>
    obtain ⟨hc, ht⟩ := ht.tail
    rw [List.cons_append, strlen, if_neg hc, ih ht]
    rfl

/-- `strchr` finds the first of its character, or nothing before the null byte. -/
theorem strchr_append {u : List Byte} (hu : IsText u) (hdelim : delim ∉ u) (p : Ptr) :
    strchr delim (u ++ p) = strchr delim p := by
  induction u with
  | nil => rfl
  | cons c u ih =>
    obtain ⟨hc, hu⟩ := hu.tail
    have hne : c ≠ delim := fun h => hdelim (h ▸ List.mem_cons_self)
    rw [List.cons_append, strchr, if_neg hne, if_neg hc]
    exact ih hu fun h => hdelim (List.mem_cons_of_mem c h)

theorem strchr_self (delim : Byte) (p : Ptr) :
    strchr delim (delim :: p) = .ok (some (delim :: p)) := by
  rw [strchr, if_pos rfl]

/-- In what ends with a null byte `strchr` finds nothing, or a place before that byte. -/
theorem strchr_ended {p : Ptr} (hp : 0#8 ∈ p) (hdelim : delim ≠ 0#8) :
    strchr delim p = .ok none ∨ ∃ q, strchr delim p = .ok (some (delim :: q)) ∧ 0#8 ∈ q := by
  induction p with
  | nil => simp at hp
  | cons c p ih =>
    rw [strchr]
    by_cases hc : c = delim
    · subst hc
      rw [if_pos rfl]
      exact .inr ⟨p, rfl, (List.mem_cons.mp hp).resolve_left hdelim.symm⟩
    · rw [if_neg hc]
      by_cases hz : c = 0#8
      · rw [if_pos hz]
        exact .inl rfl
      · rw [if_neg hz]
        exact ih ((List.mem_cons.mp hp).resolve_left (Ne.symm hz))

/-- What is behind the first character of a command. -/
theorem drop_command {s : Stub} {c : Byte} (hbuf : s.cmdBuf = (c :: t) ++ 0#8 :: b) :
    s.cmdBuf.drop 1 = t ++ 0#8 :: b := by
  rw [hbuf, List.cons_append, List.drop_succ_cons, List.drop_zero]

/-! ### Fields -/

/-- A text that begins with digits and a delimiter: the digits, and what is behind it. -/
def splitField (delim : Byte) : List Byte → Option (List Byte × List Byte)
  | [] => none
  | c :: t =>
      if isHex c then (splitField delim t).map fun f => (c :: f.1, f.2)
      else if c = delim then some ([], t)
      else none

theorem allHex_cons {c : Byte} {ds : List Byte} :
    AllHex (c :: ds) ↔ isHex c = true ∧ AllHex ds := List.forall_mem_cons

/-- The field is the digits in front of the first character that is none. -/
theorem splitField_eq (delim : Byte) (t : List Byte) :
    splitField delim t = match t.dropWhile isHex with
      | [] => none
      | c :: rest => if c = delim then some (t.takeWhile isHex, rest) else none := by
  induction t with
  | nil => rfl
  | cons c t ih =>
    by_cases hc : isHex c = true
    · rw [splitField, if_pos hc, ih, List.dropWhile_cons_of_pos hc, List.takeWhile_cons_of_pos hc]
      cases t.dropWhile isHex with
      | nil => rfl
      | cons d rest =>
        dsimp only
        split <;> rfl
    · rw [splitField, if_neg hc, List.dropWhile_cons_of_neg hc, List.takeWhile_cons_of_neg hc]

/-- **The field of a text**: some digits, or none at all, in front of the delimiter. -/
theorem splitField_eq_some_iff (hdelim : isHex delim = false) {a rest : List Byte} :
    splitField delim t = some (a, rest) ↔ t = a ++ delim :: rest ∧ AllHex a := by
  rw [splitField_eq]
  constructor
  · intro h
    have happ := List.takeWhile_append_dropWhile (p := isHex) (l := t)
    cases hrest : t.dropWhile isHex with
    | nil =>
      rw [hrest] at h
      cases h
    | cons c u =>
      rw [hrest] at h happ
      dsimp only at h
      split at h
      · rename_i hc
        obtain ⟨rfl, rfl⟩ := Prod.mk.inj (Option.some.inj h)
        exact ⟨by rw [← hc, happ], fun c hc => List.mem_takeWhile_imp hc⟩
      · cases h
  · rintro ⟨rfl, ha⟩
    have hstop : ¬isHex delim = true := by simp [hdelim]
    rw [List.dropWhile_append_of_pos ha, List.dropWhile_cons_of_neg hstop,
      List.takeWhile_append_of_pos ha, List.takeWhile_cons_of_neg hstop, List.append_nil]
    exact if_pos rfl

theorem splitField_append (delim : Byte) {a : List Byte} (ha : AllHex a) (u : List Byte) :
    splitField delim (a ++ u) = (splitField delim u).map fun f => (a ++ f.1, f.2) := by
  induction a with
  | nil => simp
  | cons c a ih =>
    obtain ⟨hc, ha⟩ := allHex_cons.mp ha
    rw [List.cons_append, splitField, if_pos hc, ih ha, Option.map_map]
    rfl

/-- Every text is some digits and then nothing, or a character that is none. -/
theorem exists_digits (t : List Byte) :
    ∃ a, AllHex a ∧ (t = a ∨ ∃ c rest, isHex c = false ∧ t = a ++ c :: rest) := by
  induction t with
  | nil => exact ⟨[], by simp [AllHex], .inl rfl⟩
  | cons c t ih =>
    by_cases hc : isHex c = true
    · obtain ⟨a, ha, h⟩ := ih
      refine ⟨c :: a, allHex_cons.mpr ⟨hc, ha⟩, ?_⟩
      rcases h with rfl | ⟨d, rest, hd, rfl⟩
      · exact .inl rfl
      · exact .inr ⟨d, rest, hd, rfl⟩
    · exact ⟨[], by simp [AllHex], .inr ⟨c, t, by simpa using hc, rfl⟩⟩

theorem readHex_zero {ds : List Byte} (hds : AllHex ds) {c : Byte} (hc : isHex c = false) (p : Ptr) :
    readHex 0#32 (ds ++ c :: p) = .ok (BitVec.ofNat 32 (readAs ds), c :: p) := by
  rw [readHex_digits hds hc, BitVec.zero_mul, BitVec.zero_add]

/-- `read_field` refuses digits that another character follows. -/
theorem readField_refused {a : List Byte} (ha : AllHex a) {c : Byte} (hc : isHex c = false)
    (hne : c ≠ delim) {p : Ptr} (hfound : strchr delim (a ++ c :: p) = .ok none ∨
      ∃ q, strchr delim (a ++ c :: p) = .ok (some (delim :: q))) :
    readField (a ++ c :: p) delim = .ok none := by
  rcases hfound with hnone | ⟨q, hsome⟩
  · simp only [readField, hnone, bind, Except.bind, pure, Except.pure]
  · have hneq : c :: p ≠ delim :: q := fun h => hne (List.cons.inj h).1
    simp only [readField, hsome, readHex_zero ha hc, bind, Except.bind, pure, Except.pure,
      ne_eq, hneq, not_false_eq_true, if_true]

/-- **`read_field` reads the field of a text.** -/
theorem readField_text (ht : IsText t) (hdelim : isHex delim = false) (hzero : delim ≠ 0#8)
    (b : Ptr) :
    readField (t ++ 0#8 :: b) delim =
      .ok ((splitField delim t).map fun f => (BitVec.ofNat 32 (readAs f.1), f.2 ++ 0#8 :: b)) := by
  have hfound : strchr delim (t ++ 0#8 :: b) = .ok none ∨
      ∃ q, strchr delim (t ++ 0#8 :: b) = .ok (some (delim :: q)) :=
    (strchr_ended (by simp) hzero).imp_right fun ⟨q, hq, _⟩ => ⟨q, hq⟩
  obtain ⟨a, ha, hcases⟩ := exists_digits t
  rcases hcases with rfl | ⟨c, rest, hc, rfl⟩
  · -- the digits end with the text
    have hnone : splitField delim t = none := by
      have := splitField_append delim ha []
      rwa [List.append_nil] at this
    rw [hnone, readField_refused ha isHex_zero hzero.symm hfound]
    rfl
  · rw [splitField_append delim ha, splitField, hc, if_neg Bool.false_ne_true]
    rw [List.append_assoc, List.cons_append] at hfound ⊢
    by_cases heq : c = delim
    · subst heq
      have hmem : c ∉ a := fun hmem => by simp [ha c hmem] at hc
      have ha' : IsText a := fun hmem => ht (List.mem_append_left _ hmem)
      rw [if_pos rfl]
      simp only [readField, strchr_append ha' hmem, strchr_self, readHex_zero ha hc, bind,
        Except.bind, pure, Except.pure, ne_eq, not_true_eq_false, if_false, List.drop_succ_cons,
        List.drop_zero, Option.map_some, List.append_nil]
    · rw [if_neg heq, readField_refused ha hc heq hfound]
      rfl

end Strings

/-! ### The order of bytes -/

/-- The bytes of a word, the highest first. -/
def be32 (v : BitVec 32) : List Byte := [fieldAt v 24 8, fieldAt v 16 8, fieldAt v 8 8, fieldAt v 0 8]

/-- The bytes of a halfword, the highest first. -/
def be16 (v : BitVec 16) : List Byte := [fieldAt v 8 8, fieldAt v 0 8]

theorem toNat_append_byte {n : ℕ} (x : BitVec n) (y : Byte) :
    (x ++ y).toNat = x.toNat * 256 + y.toNat := by
  rw [BitVec.toNat_append, ← Nat.shiftLeft_add_eq_or_of_lt y.isLt, Nat.shiftLeft_eq]

theorem toNat_bswap32 (v : BitVec 32) :
    (bswap32 v).toNat = ((v.toNat % 256 * 256 + v.toNat / 256 % 256) * 256 +
      v.toNat / 65536 % 256) * 256 + v.toNat / 16777216 % 256 := by
  simp only [bswap32, toNat_append_byte, toNat_fieldAt, Nat.reducePow, Nat.div_one]

theorem toNat_bswap16 (v : BitVec 16) :
    (bswap16 v).toNat = v.toNat % 256 * 256 + v.toNat / 256 := by
  have hv := v.isLt
  have hlow : (v &&& 0xff#16).toNat = v.toNat % 256 := by
    rw [BitVec.toNat_and]
    exact Nat.and_two_pow_sub_one_eq_mod v.toNat 8
  have hhigh : ((v &&& 0xff00#16) >>> 8).toNat = v.toNat / 256 := by
    rw [BitVec.ushiftRight_and_distrib, BitVec.toNat_and, BitVec.toNat_ushiftRight,
      Nat.shiftRight_eq_div_pow]
    refine (Nat.and_two_pow_sub_one_eq_mod (v.toNat / 2 ^ 8) 8).trans ?_
    omega
  have hshift : ((v &&& 0xff#16) <<< 8).toNat = (v.toNat % 256) <<< 8 := by
    rw [BitVec.toNat_shiftLeft, hlow, Nat.shiftLeft_eq]
    omega
  rw [bswap16, BitVec.toNat_or, hshift, hhigh,
    ← Nat.shiftLeft_add_eq_or_of_lt (show v.toNat / 256 < 2 ^ 8 by omega), Nat.shiftLeft_eq]

/-- A word with its bytes swapped lies in memory with the highest first. -/
theorem le32_bswap32 (v : BitVec 32) : le32 (bswap32 v) = be32 v := by
  have hswap := toNat_bswap32 v
  have h0 : v.toNat % 256 < 256 := Nat.mod_lt _ (by decide)
  have h1 : v.toNat / 256 % 256 < 256 := Nat.mod_lt _ (by decide)
  have h2 : v.toNat / 65536 % 256 < 256 := Nat.mod_lt _ (by decide)
  have h3 : v.toNat / 16777216 % 256 < 256 := Nat.mod_lt _ (by decide)
  refine List.cons_eq_cons.mpr ⟨?_, List.cons_eq_cons.mpr ⟨?_, List.cons_eq_cons.mpr ⟨?_,
    List.cons_eq_cons.mpr ⟨?_, rfl⟩⟩⟩⟩
  all_goals
    apply BitVec.eq_of_toNat_eq
    simp only [toNat_fieldAt, Nat.reducePow, Nat.div_one]
    generalize v.toNat % 256 = b0 at *
    generalize v.toNat / 256 % 256 = b1 at *
    generalize v.toNat / 65536 % 256 = b2 at *
    generalize v.toNat / 16777216 % 256 = b3 at *
    omega

theorem le16_bswap16 (v : BitVec 16) : le16 (bswap16 v) = be16 v := by
  have hswap := toNat_bswap16 v
  have h0 : v.toNat % 256 < 256 := Nat.mod_lt _ (by decide)
  have h1 : v.toNat / 256 < 256 := Nat.div_lt_of_lt_mul v.isLt
  refine List.cons_eq_cons.mpr ⟨?_, List.cons_eq_cons.mpr ⟨?_, rfl⟩⟩
  all_goals
    apply BitVec.eq_of_toNat_eq
    simp only [toNat_fieldAt, Nat.reducePow, Nat.div_one]
    generalize v.toNat % 256 = b0 at *
    generalize v.toNat / 256 = b1 at *
    omega

/-- The bytes of a word determine it. -/
theorem be32_inj {v w : BitVec 32} (h : be32 v = be32 w) : v = w := by
  have hv := v.isLt
  have hw := w.isLt
  simp only [be32, List.cons.injEq, and_true] at h
  obtain ⟨h3, h2, h1, h0⟩ := h
  have h3 := congrArg BitVec.toNat h3
  have h2 := congrArg BitVec.toNat h2
  have h1 := congrArg BitVec.toNat h1
  have h0 := congrArg BitVec.toNat h0
  simp only [toNat_fieldAt, Nat.reducePow] at h3 h2 h1 h0
  apply BitVec.eq_of_toNat_eq
  omega

theorem be16_inj {v w : BitVec 16} (h : be16 v = be16 w) : v = w := by
  have hv := v.isLt
  have hw := w.isLt
  simp only [be16, List.cons.injEq, and_true] at h
  obtain ⟨h1, h0⟩ := h
  have h1 := congrArg BitVec.toNat h1
  have h0 := congrArg BitVec.toNat h0
  simp only [toNat_fieldAt, Nat.reducePow] at h1 h0
  apply BitVec.eq_of_toNat_eq
  omega

end Monitor

end Gdb

end BareMetal
