import BareMetal.AddressSpace
import BareMetal.BitField
import BareMetal.Gdb.Breakpoints

/-!
# The GDB stub, byte by byte

The whole of `gdbstub_handle`: a packet is received into `cmd_buf`, its checksum is compared, the
escapes in it are undone in place, and one of fourteen handlers answers it, two of them again in
`cmd_buf`. Memory is a function on the 2^32 addresses, without the variables of the stub itself,
which a debugger has no business to change.

A pointer into `cmd_buf` is **what lies from there to the end of the buffer**, so that a read or a
write behind the last byte is a case that has to be answered, with
`BareMetal.Gdb.Monitor.Fault.cmdBuf`. The string functions stop at a null byte and not
before, wherever it is. A buffer is in order if it has its 512 bytes and the last of them is null
(`BareMetal.Gdb.Monitor.BufOk`).

A character is a byte, `hex_nibble_val` is what the source computes for any byte, and numbers wrap
around at 32 bits.
-/

namespace BareMetal

namespace Gdb

namespace Monitor

/-! ### Characters -/

abbrev Byte := BitVec 8

/-- A character as a byte. -/
def ch (c : Char) : Byte := BitVec.ofNat 8 c.toNat

/-- A string literal, without its null byte. -/
def lit (s : String) : List Byte := s.toList.map ch

/-- `is_hex`. -/
def isHex (v : Byte) : Bool :=
  let v := if ch 'A' ≤ v ∧ v ≤ ch 'F' then v - ch 'A' + ch 'a' else v
  (ch '0' ≤ v ∧ v ≤ ch '9') ∨ (ch 'a' ≤ v ∧ v ≤ ch 'f')

/-- `hex_nibble_val`. -/
def hexNibbleVal (v : Byte) : Byte :=
  if ch '0' ≤ v ∧ v ≤ ch '9' then v - ch '0' else v - ch 'a' + 10#8

/-- `put_hex_byte`, without the null byte it ends with. -/
def hexByte (b : Byte) : List Byte :=
  let digit (d : Byte) : Byte := (lit "0123456789abcdef").getD d.toNat 0#8
  [digit ((b &&& 0xf0#8) >>> 4), digit (b &&& 0xf#8)]

/-! ### Reading the buffer -/

/-- What the code must not do. -/
inductive Fault where
  /-- A read or a write behind the end of `cmd_buf`. -/
  | cmdBuf
  /-- A write through a null pointer. -/
  | nullPointer
  /-- `BUG`. -/
  | bug
  deriving DecidableEq, Repr

/-- A pointer: what lies from it to the end of the buffer. -/
abbrev Ptr := List Byte

/-- `read_hex`, once `v` has been read: the number, and where it ends. -/
def readHex (v : BitVec 32) : Ptr → Except Fault (BitVec 32 × Ptr)
  | [] => .error .cmdBuf
  | c :: p =>
      if isHex c then readHex (v * 16#32 + (hexNibbleVal c).setWidth 32) p else .ok (v, c :: p)

/-- `strchr`. -/
def strchr (delim : Byte) : Ptr → Except Fault (Option Ptr)
  | [] => .error .cmdBuf
  | c :: p =>
      if c = delim then .ok (some (c :: p)) else if c = 0#8 then .ok none else strchr delim p

/-- `strlen`. -/
def strlen : Ptr → Except Fault ℕ
  | [] => .error .cmdBuf
  | c :: p => if c = 0#8 then .ok 0 else (strlen p).map (· + 1)

/-- `!strncmp(pfx, p, strlen(pfx))`, for a `pfx` without null bytes. -/
def strncmp : List Byte → Ptr → Except Fault Bool
  | [], _ => .ok true
  | _ :: _, [] => .error .cmdBuf
  | a :: pfx, c :: p => if a = c then strncmp pfx p else .ok false

/-- `slow_memcpy` from the buffer. -/
def slowMemcpy (p : Ptr) (n : ℕ) : Except Fault (List Byte) :=
  if n ≤ p.length then .ok (p.take n) else .error .cmdBuf

/-- `read_field`. The two pointers are into one buffer, and equal if they leave the same. -/
def readField (p : Ptr) (delim : Byte) : Except Fault (Option (BitVec 32 × Ptr)) := do
  match ← strchr delim p with
  | none => return none
  | some del =>
      let (v, next) ← readHex 0#32 p
      if next ≠ del then return none
      return some (v, next.drop 1)

/-- `read_byte`, which copies two characters and ends them with a null byte. -/
def readByte (p : Ptr) : Except Fault Byte := do
  let buf ← slowMemcpy p 2
  let (v, _) ← readHex 0#32 (buf ++ [0#8])
  return v.setWidth 8

/-! ### Writing the buffer -/

/-- Bytes are written into a buffer from an index on. -/
def writeAt (buf : List Byte) (i : ℕ) (bs : List Byte) : Except Fault (List Byte) :=
  if i + bs.length ≤ buf.length then .ok (buf.take i ++ (bs ++ buf.drop (i + bs.length)))
  else .error .cmdBuf

/-- `put_hex_byte`. -/
def putHexByte (buf : List Byte) (dst : ℕ) (b : Byte) : Except Fault (List Byte) :=
  writeAt buf dst (hexByte b ++ [0#8])

/-- The bytes of a word, in the order of memory. -/
def le32 (v : BitVec 32) : List Byte := [fieldAt v 0 8, fieldAt v 8 8, fieldAt v 16 8, fieldAt v 24 8]

/-- The bytes of a halfword. -/
def le16 (v : BitVec 16) : List Byte := [fieldAt v 0 8, fieldAt v 8 8]

/-- `bswap32`. -/
def bswap32 (v : BitVec 32) : BitVec 32 :=
  fieldAt v 0 8 ++ fieldAt v 8 8 ++ fieldAt v 16 8 ++ fieldAt v 24 8

/-- `bswap16`. -/
def bswap16 (v : BitVec 16) : BitVec 16 :=
  ((v &&& 0xff#16) <<< 8) ||| ((v &&& 0xff00#16) >>> 8)

/-! ### The stub -/

/-- The memory of the program, its saved registers, and the variables of the stub. -/
structure Stub where
  mem : BitVec 32 → Byte
  regs : Fin 17 → BitVec 32
  breakpoints : Fin 64 → Bkpt
  running : Bool
  cmdBuf : List Byte

/-- A handler sends some bytes and leaves a state behind, or goes wrong. -/
abbrev Handled := Except Fault (List Byte × Stub)

/-- `send_response`. -/
def sendResponse (msg : List Byte) : List Byte :=
  ch '$' :: (msg ++ (ch '#' :: hexByte (msg.foldl (· + ·) 0#8)))

/-- A handler that has nothing to do but to answer. -/
def respond (s : Stub) (msg : List Byte) : Handled := .ok (sendResponse msg, s)

/-- The loop of `gdb_read_mem`, with `k` bytes still to come after the first `m`. -/
def putMem (mem : BitVec 32 → Byte) (addr : BitVec 32) : ℕ → ℕ → List Byte →
    Except Fault (List Byte)
  | 0, _, buf => .ok buf
  | k + 1, m, buf => do
      let buf ← putHexByte buf (m * 2) (mem (addr + BitVec.ofNat 32 m))
      putMem mem addr k (m + 1) buf

/-- `gdb_read_mem`. -/
def gdbReadMem (s : Stub) : Handled := do
  let (addr, next) ← readHex 0#32 (s.cmdBuf.drop 1)
  match next with
  | [] => throw .cmdBuf
  | c :: p =>
      if c ≠ ch ',' then respond s (lit "E01")
      else
        let (len, _) ← readHex 0#32 p
        let buf ← putMem s.mem addr len.toNat 0 s.cmdBuf
        let n ← strlen buf
        respond { s with cmdBuf := buf } (buf.take n)

/-- `write_mem`; the source is a word of which the lowest `len` bytes are used. -/
def writeMem (mem : BitVec 32 → Byte) (src addr : BitVec 32) (len : ℕ) :
    Option (BitVec 32 → Byte) :=
  match len with
  | 4 => some (poke mem addr (le32 (bswap32 src)))
  | 2 => some (poke mem addr (le16 (bswap16 (src.setWidth 16))))
  | 1 => some (poke mem addr [src.setWidth 8])
  | _ => none

/-- The loop of `gdb_write_mem`, with `k` bytes still to come after the first `m`. -/
def putBytes (addr : BitVec 32) : ℕ → ℕ → Ptr → (BitVec 32 → Byte) →
    Except Fault (Option (BitVec 32 → Byte))
  | 0, _, _, mem => .ok (some mem)
  | k + 1, m, p, mem => do
      let v ← readByte p
      match writeMem mem (v.setWidth 32) (addr + BitVec.ofNat 32 m) 1 with
      | none => return none
      | some mem => putBytes addr k (m + 1) (p.drop 2) mem

/-- What `gdb_write_mem` does once the request has been read. -/
def storeData (mem : BitVec 32 → Byte) (addr len : BitVec 32) (p : Ptr) :
    Except Fault (Option (BitVec 32 → Byte)) :=
  if len = 2#32 ∨ len = 4#32 then do
    let (v, _) ← readHex 0#32 p
    return writeMem mem v addr len.toNat
  else putBytes addr len.toNat 0 p mem

/-- The reading of a request to write: address, length and the data. -/
def readRequest (p : Ptr) : Except Fault (Option (BitVec 32 × BitVec 32 × Ptr)) := do
  match ← readField p (ch ',') with
  | none => return none
  | some (addr, p) =>
      match ← readField p (ch ':') with
      | none => return none
      | some (len, p) =>
          let n ← strlen p
          if BitVec.ofNat 32 n ≠ len * 2#32 then return none
          return some (addr, len, p)

/-- `gdb_write_mem`. -/
def gdbWriteMem (s : Stub) : Handled := do
  match ← readRequest (s.cmdBuf.drop 1) with
  | none => respond s (lit "E01")
  | some (addr, len, p) =>
      match ← storeData s.mem addr len p with
      | none => respond s (lit "E02")
      | some mem => respond { s with mem := mem } (lit "OK")

/-- `put_reg`. -/
def putReg (buf : List Byte) (dst : ℕ) (r : BitVec 32) : Except Fault (List Byte) := do
  let buf ← putHexByte buf dst (fieldAt r 0 8)
  let buf ← putHexByte buf (dst + 2) (fieldAt r 8 8)
  let buf ← putHexByte buf (dst + 4) (fieldAt r 16 8)
  putHexByte buf (dst + 6) (fieldAt r 24 8)

/-- `put_invalid_reg`. -/
def putInvalidReg (buf : List Byte) (dst : ℕ) : Except Fault (List Byte) :=
  writeAt buf dst (lit "xxxxxxxx" ++ [0#8])

/-- The loops of `read_regs`: one field after the other, from an index on. -/
def putFields : List (Option (BitVec 32)) → ℕ → List Byte → Except Fault (List Byte)
  | [], _, buf => .ok buf
  | r :: rs, dst, buf => do
      let buf ← match r with
        | some v => putReg buf dst v
        | none => putInvalidReg buf dst
      putFields rs (dst + 8) buf

/-- The registers `R0` to `PC`. -/
def lowRegs : List (Fin 17) := [0, 1, 2, 3, 4, 5, 6, 7, 8, 9, 10, 11, 12, 13, 14, 15]

/-- `CPSR`. -/
def cpsr : Fin 17 := 16

/-- `EXTRA_REGS`. -/
def extraRegs : ℕ := 25

/-- The fields of a register reply: the registers up to `PC`, those that GDB expects and the
processor does not have, and `CPSR`. -/
def regFields (regs : Fin 17 → BitVec 32) : List (Option (BitVec 32)) :=
  lowRegs.map (fun m => some (regs m)) ++ (List.replicate extraRegs none ++ [some (regs cpsr)])

/-- `read_regs`. -/
def readRegs (s : Stub) : Handled := do
  let buf ← putFields (regFields s.regs) 0 s.cmdBuf
  let msg ← slowMemcpy buf ((17 + extraRegs) * 8)
  respond { s with cmdBuf := buf } msg

/-- `reg_from_str`. -/
def regFromStr (str : Ptr) : Except Fault (BitVec 32) := do
  let buf ← slowMemcpy str 8
  let (v, _) ← readHex 0#32 (buf ++ [0#8])
  return bswap32 v

/-- The loop of `write_regs`: the registers of a list, each from its place. -/
def takeRegs (msg : Ptr) : List (Fin 17) → (Fin 17 → BitVec 32) → Except Fault (Fin 17 → BitVec 32)
  | [], regs => .ok regs
  | m :: ms, regs => do
      let v ← regFromStr (msg.drop (m * 8))
      takeRegs msg ms (Function.update regs m v)

/-- `write_regs`. -/
def writeRegs (s : Stub) : Handled := do
  let msg := s.cmdBuf.drop 1
  let n ← strlen msg
  if n ≠ (17 + extraRegs) * 8 then respond s (lit "E 01")
  else
    let regs ← takeRegs msg lowRegs s.regs
    let v ← regFromStr (msg.drop ((16 + extraRegs) * 8))
    respond { s with regs := Function.update regs cpsr v } (lit "OK")

/-- `do_continue`. -/
def doContinue (s : Stub) : Handled := do
  match ← strchr (ch ';') s.cmdBuf with
  | none => respond s []
  | some p =>
      match p.drop 1 with
      | [] => throw .cmdBuf
      | c :: _ =>
          if c = ch 'c' then return ([], { s with running := true })
          else if c = ch 't' then return ([], { s with running := false })
          else respond s []

/-- `detach`. -/
def detach (s : Stub) : Handled := respond { s with running := true } (lit "OK")

/-- The word at an address. -/
def load32 (mem : BitVec 32 → Byte) (a : BitVec 32) : BitVec 32 :=
  mem (a + 3#32) ++ mem (a + 2#32) ++ mem (a + 1#32) ++ mem a

/-- `find_bkpt`; `alloc_bkpt` looks for the address 0. -/
def findBkpt (s : Stub) (addr : BitVec 32) : Option (Fin 64) :=
  (List.finRange 64).find? fun m => (s.breakpoints m).addr == addr

/-- `activate_bkpt`. -/
def activateBkpt (s : Stub) (b : Fin 64) : Stub :=
  if (s.breakpoints b).saved = smcBkpt then s
  else
    { s with
      mem := poke s.mem (s.breakpoints b).addr (le32 smcBkpt)
      breakpoints := Function.update s.breakpoints b
        { s.breakpoints b with saved := load32 s.mem (s.breakpoints b).addr } }

/-- `deactivate_bkpt`. -/
def deactivateBkpt (s : Stub) (b : Fin 64) : Stub :=
  { s with mem := poke s.mem (s.breakpoints b).addr (le32 (s.breakpoints b).saved) }

/-- `free_bkpt`. -/
def freeBkpt (s : Stub) (b : Fin 64) : Stub :=
  { s with breakpoints := Function.update s.breakpoints b { s.breakpoints b with addr := 0#32 } }

/-- `add_bkpt`, which returns 0. -/
def addBkpt (s : Stub) (addr : BitVec 32) : Except Fault (Bool × Stub) :=
  match findBkpt s addr with
  | some bp => .ok (true, activateBkpt s bp)
  | none =>
      match findBkpt s 0#32 with
      | none => .error .nullPointer
      | some bp =>
          .ok (true, activateBkpt
            { s with breakpoints := Function.update s.breakpoints bp ⟨addr, 0#32⟩ } bp)

/-- `del_bkpt`: whether it returns 0. -/
def delBkpt (s : Stub) (addr : BitVec 32) : Except Fault (Bool × Stub) :=
  match findBkpt s addr with
  | none => .ok (false, s)
  | some bp => .ok (true, freeBkpt (deactivateBkpt s bp) bp)

/-- `bkpt_op`. -/
def bkptOp (s : Stub) (op : Stub → BitVec 32 → Except Fault (Bool × Stub)) : Handled := do
  match ← readField (s.cmdBuf.drop 3) (ch ',') with
  | none => respond s (lit "E01")
  | some (addr, _) =>
      let (zero, t) ← op s addr
      respond t (if zero then lit "OK" else lit "E01")

/-- What the handlers do. -/
def CmdHandler.handle : CmdHandler → Stub → Handled
  | .qsupported, s => respond s (lit "qSupported:PacketSize=256;multiprocess+")
  | .stopStatus, s => respond s (lit "S05")
  | .readRegs, s => Monitor.readRegs s
  | .writeRegs, s => Monitor.writeRegs s
  | .gdbReadMem, s => Monitor.gdbReadMem s
  | .gdbWriteMem, s => Monitor.gdbWriteMem s
  | .removeBkpt, s => bkptOp s delBkpt
  | .insertBkpt, s => bkptOp s addBkpt
  | .vcontQuery, s => respond s (lit "vCont;c;C;s;S")
  | .doContinue, s => Monitor.doContinue s
  | .qattached, s => respond s (lit "1")
  | .detach, s => Monitor.detach s

/-- The search of `lookup_cmdhandler` in the rest of the table. -/
def lookupIn (p : Ptr) : List (String × CmdHandler) → Except Fault (Option CmdHandler)
  | [] => .ok none
  | (pfx, h) :: hs => do
      if ← strncmp (lit pfx) p then return some h
      lookupIn p hs

/-- `lookup_cmdhandler`. -/
def lookupCmdhandler (p : Ptr) : Except Fault (Option CmdHandler) := lookupIn p handlers

/-- The end of `gdbstub_handle`: the command in `cmd_buf` is handled. -/
def dispatch (s : Stub) : Handled := do
  match ← lookupCmdhandler s.cmdBuf with
  | some h => CmdHandler.handle h s
  | none => respond s []

/-! ### Receiving a packet -/

/-- The loop that receives a packet, from its byte `i` on, and what `cmd_buf` holds from the
pointer on afterwards: the number of bytes before the `#`, their sum, and the bytes, with a null
byte in place of the `#`. -/
def recv (line : ℕ → Byte) : ℕ → Byte → Ptr → Except Fault (ℕ × Byte × List Byte)
  | _, _, [] => .error .cmdBuf
  | i, csum, _ :: p =>
      if line i = ch '#' then .ok (i, csum, 0#8 :: p)
      else do
        let (n, c, q) ← recv line (i + 1) (csum + line i) p
        return (n, c, line i :: q)

/-- `unescape`, with the two pointers as indices. -/
def unescapeFrom (buf : List Byte) (w r : ℕ) : Except Fault (List Byte) :=
  match _hr : buf[r]? with
  | none => .error .cmdBuf
  | some v =>
      if v = 0#8 then writeAt buf w [0#8]
      else if w < buf.length then
        if v ≠ ch '}' then unescapeFrom (buf.set w v) (w + 1) (r + 1)
        else
          match buf[r + 1]? with
          | none => .error .cmdBuf
          | some c => unescapeFrom (buf.set w (c ^^^ 0x20#8)) (w + 1) (r + 2)
      else .error .cmdBuf
  termination_by buf.length - r
  decreasing_by
    all_goals
      have hlt := (List.getElem?_eq_some_iff.mp _hr).1
      simp only [List.length_set]
      omega

/-- `read_csum`. -/
def readCsum (a b : Byte) : Byte := hexNibbleVal a * 16#8 + hexNibbleVal b

/-- `ack_packet`. -/
def ackPacket (good : Bool) : Byte := if good then ch '+' else ch '-'

/-- `gdbstub_handle`, with all that is to come on the line after the `$`. -/
def gdbstubHandle (s : Stub) (line : ℕ → Byte) : Handled := do
  let (n, csum, buf) ← recv line 0 0#8 s.cmdBuf
  let ack := ackPacket (readCsum (line (n + 1)) (line (n + 2)) == csum)
  let buf ← unescapeFrom buf 0 0
  let (out, t) ← dispatch { s with cmdBuf := buf }
  return (ack :: out, t)

/-- One round of `gdbstub_io_handler`: what comes first on the line, and what follows. -/
def ioRound (s : Stub) (c : Byte) (line : ℕ → Byte) : Handled :=
  if c = ch '+' then .ok ([], s)
  else if c = 3#8 then respond { s with running := false } (lit "S05")
  else if c = ch '$' then gdbstubHandle s line
  else if c = ch '-' then .error .bug
  else respond s []

/-- The buffer is in order: it has its length, and its last byte is null. -/
structure BufOk (buf : List Byte) : Prop where
  length_eq : buf.length = 512
  last_eq : buf[511]? = some 0#8

/-- Power-on, with a program in memory. -/
def Stub.init (mem : BitVec 32 → Byte) (regs : Fin 17 → BitVec 32) : Stub :=
  ⟨mem, regs, fun _ => ⟨0#32, 0#32⟩, false, List.replicate 512 0#8⟩

end Monitor

end Gdb

end BareMetal
