import BareMetal.Runs
import BareMetal.FatFs.Defs

/-!
# The native card driver

`mmc_sunxi.c` drives the card by commands. It writes a command and its argument to the
controller, waits until the controller is done, and finds the response in `SUNXI_SD_RESP0`;
data go through a FIFO. What the card answers is an input: a stream of responses
(`BareMetal.Sunxi.Bus.answers`), one for each command, and a stream of words. The waits are
taken to end.

`send_cmd` says that a command has been sent, not that a card has answered it: it returns `0`,
always (`BareMetal.Sunxi.sendCmd_fst`). So what `mmc_disk_initialize` learns about the card it
learns from responses, and it looks at two: that to `CMD8`, and the operating condition, which
it polls until the card says that it is ready. A card that never says so is taken for ready
nevertheless, since the branch for cards of version 2 does not look at its counter
(`BareMetal.Sunxi.not_initOk_of_silent`). The branch for older cards does; but it is never
taken, as it needs a command that fails.
-/

namespace BareMetal

namespace Sunxi

open FatFs

/-! ### Commands -/

/-- A command that has been issued: `SUNXI_SD_CMD`, `SUNXI_SD_CMDARG`, and what
`SUNXI_SD_RESP0` was afterwards. -/
structure Issue where
  cmdreg : BitVec 32
  arg : BitVec 32
  resp : BitVec 32
  deriving DecidableEq, Repr

/-- The controller and the card. -/
structure Bus where
  /-- `SUNXI_SD_RESP0`. -/
  resp0 : BitVec 32
  /-- The responses to come. -/
  answers : ℕ → BitVec 32
  /-- The words that will be read from `SUNXI_SD_FIFO`. -/
  fifo : ℕ → BitVec 32
  /-- The words that have been written to it. -/
  written : List (BitVec 32)
  /-- The commands that have been issued, the oldest first. -/
  sent : List Issue

/-- A command is issued and answered. -/
def Bus.issue (b : Bus) (cmdreg arg : BitVec 32) : Bus :=
  { b with
    resp0 := b.answers 0
    answers := fun i => b.answers (i + 1)
    sent := b.sent ++ [⟨cmdreg, arg, b.answers 0⟩] }

/-- `CMD0`, `CMD1` and so on; the bit 7 of an `ACMD` asks for a `CMD55` before it. -/
def cmd0 : BitVec 8 := 0#8
def cmd1 : BitVec 8 := 1#8
def cmd2 : BitVec 8 := 2#8
def cmd3 : BitVec 8 := 3#8
def cmd7 : BitVec 8 := 7#8
def cmd8 : BitVec 8 := 8#8
def cmd9 : BitVec 8 := 9#8
def cmd12 : BitVec 8 := 12#8
def cmd13 : BitVec 8 := 13#8
def cmd16 : BitVec 8 := 16#8
def cmd17 : BitVec 8 := 17#8
def cmd18 : BitVec 8 := 18#8
def acmd23 : BitVec 8 := 0x97#8
def cmd24 : BitVec 8 := 24#8
def cmd25 : BitVec 8 := 25#8
def acmd41 : BitVec 8 := 0xA9#8
def cmd55 : BitVec 8 := 55#8

/-- `OCR_HCS`, `OCR_BUSY`, and the voltages `MMC_VDD_32_33` and `MMC_VDD_33_34`. -/
def ocrHcs : BitVec 32 := 0x40000000#32
def ocrBusy : BitVec 32 := 0x80000000#32
def vdd : BitVec 32 := 0x00300000#32

/-- `CT_MMC`, `CT_SD1`, `CT_SD2`, `CT_SDC` and `CT_BLOCK`. -/
def ctMmc : BitVec 8 := 0x01#8
def ctSd1 : BitVec 8 := 0x02#8
def ctSd2 : BitVec 8 := 0x04#8
def ctSdc : BitVec 8 := 0x06#8
def ctBlock : BitVec 8 := 0x08#8

/-- A buffer of a data transfer: the words from its address on, and its length in bytes, which
is an `int`. -/
structure Buffer where
  words : ℕ → BitVec 32
  bytes : BitVec 32

/-- How often the loop over the FIFO runs. -/
def Buffer.count (u : Buffer) : ℕ := (u.bytes.toInt / 4).toNat

/-- The value of `SUNXI_SD_CMD` for a command. -/
def cmdReg (cmd : BitVec 8) (isWrite : Bool) (buf : Option Buffer) : BitVec 32 :=
  let cmdreg := 0x80000140#32 ||| cmd.setWidth 32
  match buf with
  | none => cmdreg
  | some u =>
      let cmdreg := if isWrite then cmdreg ||| 0x400#32 else cmdreg
      let cmdreg := if 512 < u.bytes.toInt then cmdreg ||| 0x1000#32 else cmdreg
      cmdreg ||| 0x2200#32

/-- `send_cmd_data`, from where the command register is made up: what is returned, the words of
the buffer, and the bus. -/
def transfer (b : Bus) (cmd : BitVec 8) (isWrite : Bool) (arg : BitVec 32) (buf : Option Buffer) :
    BitVec 8 × Option (ℕ → BitVec 32) × Bus :=
  let c := b.issue (cmdReg cmd isWrite buf) arg
  match buf with
  | none => (0#8, none, c)
  | some u =>
      if isWrite then
        (0#8, some u.words, { c with written := c.written ++ (List.range u.count).map u.words })
      else
        (0#8, some fun i => if i < u.count then c.fifo i else u.words i,
          { c with fifo := fun i => c.fifo (i + u.count) })

/-- `send_cmd_data`. -/
def sendCmdData (b : Bus) (cmd : BitVec 8) (arg : BitVec 32) (buf : Option Buffer) :
    BitVec 8 × Option (ℕ → BitVec 32) × Bus :=
  let isWrite := cmd == cmd24 || cmd == cmd25
  if cmd = cmd12 then (0#8, buf.map Buffer.words, b)
  else if has cmd 0x80#8 then
    let r := transfer b cmd55 false 0#32 none
    if r.1 ≠ 0#8 then (r.1, buf.map Buffer.words, r.2.2)
    else transfer r.2.2 (cmd &&& 0x7F#8) isWrite arg buf
  else transfer b cmd isWrite arg buf

/-- `send_cmd`. -/
def sendCmd (b : Bus) (cmd : BitVec 8) (arg : BitVec 32) : BitVec 8 × Bus :=
  ((sendCmdData b cmd arg none).1, (sendCmdData b cmd arg none).2.2)

/-! ### The driver -/

/-- `Stat`, `CardType` and the bus. -/
structure Driver where
  stat : DStatus
  cardType : BitVec 8
  bus : Bus

/-- The drive numbers that `fs.c` leaves to this driver. -/
abbrev Drive := Fin 2

/-- The one drive that the driver has. -/
def cardDrive : Drive := 0

/-- `mmc_disk_status`. -/
def mmcDiskStatus (s : Driver) (pdrv : Drive) : DStatus × Driver :=
  if pdrv ≠ 0 then (staNoinit, s)
  else if has s.stat staNoinit then (s.stat, s)
  else
    let r := sendCmd s.bus cmd13 0#32
    let st := if r.1 ≠ 0#8 then staNoinit else s.stat
    (st, { s with stat := st, bus := r.2 })

/-- `sd_send_init`: a `CMD0` without a response. -/
def sdSendInit (b : Bus) : Bus := { b with sent := b.sent ++ [⟨0x80008000#32, 0#32, b.resp0⟩] }

/-- The loops that wait for the card to leave the idle state: the value of `tmr` at their end,
and the bus. -/
def pollOpCond (cmd : BitVec 8) (arg : BitVec 32) : ℕ → Bus → ℕ × Bus
  | 0, b => (0, b)
  | tmr + 1, b =>
      let r := sendCmd b cmd arg
      if r.1 = 0#8 ∧ has r.2.resp0 ocrBusy then (tmr + 1, r.2) else pollOpCond cmd arg tmr r.2

/-- The branch of `mmc_disk_initialize` for cards that answer `CMD8`: the card type. -/
def opCond2 (b : Bus) : BitVec 8 × Bus :=
  if b.resp0 = 0x1AA#32 then
    let p := pollOpCond acmd41 (ocrHcs ||| vdd) 1000 b
    (if has p.2.resp0 ocrHcs then ctSd2 ||| ctBlock else ctSd2, p.2)
  else (0#8, b)

/-- The branch for cards that do not. -/
def opCond1 (b : Bus) : BitVec 8 × Bus :=
  let r := sendCmd b acmd41 0#32
  let ty := if r.1 = 0#8 then ctSd1 else ctMmc
  let cmd := if r.1 = 0#8 then acmd41 else cmd1
  let p := pollOpCond cmd 0#32 1000 r.2
  if p.1 = 0 then (0#8, p.2)
  else
    let r := sendCmd p.2 cmd16 512#32
    (if r.1 ≠ 0#8 then 0#8 else ty, r.2)

/-- The end of `mmc_disk_initialize`: the card is given an address and selected. -/
def assignAddress (ty : BitVec 8) (b : Bus) : BitVec 8 × Bus :=
  let r := sendCmd b cmd2 0#32
  if r.1 = 0#8 then
    let r := sendCmd r.2 cmd3 0#32
    if r.1 = 0#8 then
      let rca := r.2.resp0 >>> 16
      let r := sendCmd r.2 cmd7 (rca <<< 16)
      (if r.1 ≠ 0#8 then 0#8 else ty, r.2)
    else (ty, r.2)
  else (0#8, r.2)

/-- The identification of the card in `mmc_disk_initialize`. -/
def identify (b : Bus) : BitVec 8 × Bus :=
  let r := sendCmd b cmd0 0#32
  if r.1 = 0#8 then
    let r := sendCmd r.2 cmd8 0x1AA#32
    let p := if r.1 = 0#8 then opCond2 r.2 else opCond1 r.2
    assignAddress p.1 p.2
  else (0#8, r.2)

/-- `mmc_disk_initialize`. For a drive other than 0 it returns `RES_NOTRDY`, which is 3. -/
def mmcDiskInitialize (s : Driver) (pdrv : Drive) : DStatus × Driver :=
  if pdrv ≠ 0 then (3#8, s)
  else
    let r := identify (sdSendInit s.bus)
    let st := if r.1 ≠ 0#8 then 0#8 else staNoinit
    (st, ⟨st, r.1, r.2⟩)

/-- The sector as the card takes it: cards without block addressing count bytes. -/
def Driver.address (s : Driver) (sector : BitVec 32) : BitVec 32 :=
  if has s.cardType ctBlock then sector else sector * 512#32

/-- `mmc_disk_read`. -/
def mmcDiskRead (s : Driver) (pdrv : Drive) (buff : ℕ → BitVec 32) (sector count : BitVec 32) :
    DResult × (ℕ → BitVec 32) × Driver :=
  let d := mmcDiskStatus s pdrv
  if has d.1 staNoinit then (.notrdy, buff, d.2)
  else if count = 0#32 then (.parerr, buff, d.2)
  else
    let cmd := if count = 1#32 then cmd17 else cmd18
    let r := sendCmdData d.2.bus cmd (d.2.address sector) (some ⟨buff, count * 512#32⟩)
    (if r.1 = 0#8 then .ok else .error, r.2.1.getD buff, { d.2 with bus := r.2.2 })

/-- `mmc_disk_write`. -/
def mmcDiskWrite (s : Driver) (pdrv : Drive) (buff : ℕ → BitVec 32) (sector count : BitVec 32) :
    DResult × Driver :=
  let d := mmcDiskStatus s pdrv
  if has d.1 staNoinit then (.notrdy, d.2)
  else if count = 0#32 then (.parerr, d.2)
  else if count = 1#32 then
    let r := sendCmdData d.2.bus cmd24 (d.2.address sector) (some ⟨buff, 512#32⟩)
    (if r.1 = 0#8 then .ok else .error, { d.2 with bus := r.2.2 })
  else
    let b := if has d.2.cardType ctSdc then (sendCmd d.2.bus acmd23 count).2 else d.2.bus
    let r := sendCmdData b cmd25 (d.2.address sector) (some ⟨buff, count * 512#32⟩)
    (if r.1 = 0#8 then .ok else .error, { d.2 with bus := r.2.2 })

/-- The number of bytes of a CSD is not zero, so that numbers name them. -/
scoped instance neZero_csd : NeZero 16 := ⟨by decide⟩

/-- The bytes of the array `csd`, which the FIFO fills word by word. -/
def csdBytes (words : ℕ → BitVec 32) (i : Fin 16) : BitVec 8 :=
  (words (i / 4)).extractLsb' (8 * (i % 4)) 8

/-- What the branch for `GET_SECTOR_COUNT` stores, in the arithmetic of the source. A shift by a
negative amount has no result. -/
def sectorCount (csd : Fin 16 → BitVec 8) : Option (BitVec 32) :=
  let byte (i : Fin 16) : BitVec 32 := (csd i).setWidth 32
  if csd 0 >>> 6 = 1#8 then
    let cs := byte 9 + (byte 8 <<< 8) + ((byte 7 &&& 63#32) <<< 8) + 1#32
    some (cs <<< 10)
  else
    let n : BitVec 8 :=
      (csd 5 &&& 15#8) + ((csd 10 &&& 128#8) >>> 7) + ((csd 9 &&& 3#8) <<< 1) + 2#8
    let cs := (byte 8 >>> 6) + (byte 7 <<< 2) + ((byte 6 &&& 3#32) <<< 10) + 1#32
    if n.toNat < 9 then none else some (cs <<< (n.toNat - 9))

/-- `CTRL_SYNC`, `GET_SECTOR_COUNT` and `GET_BLOCK_SIZE`. -/
def ctrlSync : BitVec 8 := 0#8
def getSectorCount : BitVec 8 := 1#8
def getBlockSize : BitVec 8 := 3#8

/-- `mmc_disk_ioctl`: what it returns, and what it stores. -/
def mmcDiskIoctl (s : Driver) (pdrv : Drive) (cmd : BitVec 8) :
    DResult × Option (BitVec 32) × Driver :=
  let d := mmcDiskStatus s pdrv
  if has d.1 staNoinit then (.notrdy, none, d.2)
  else if cmd = ctrlSync then (.ok, none, d.2)
  else if cmd = getSectorCount then
    let r := sendCmdData d.2.bus cmd9 0#32 (some ⟨fun _ => 0#32, 16#32⟩)
    if r.1 = 0#8 then
      (.ok, r.2.1.bind fun words => sectorCount (csdBytes words), { d.2 with bus := r.2.2 })
    else (.error, none, { d.2 with bus := r.2.2 })
  else if cmd = getBlockSize then (.ok, some 128#32, d.2)
  else (.parerr, none, d.2)

/-- A call of the driver after the initialization. -/
inductive Call where
  | status (pdrv : Drive)
  | ioctl (pdrv : Drive) (cmd : BitVec 8)
  | read (pdrv : Drive) (buff : ℕ → BitVec 32) (sector count : BitVec 32)
  | write (pdrv : Drive) (buff : ℕ → BitVec 32) (sector count : BitVec 32)

/-- One call, and what a read or a write returns. -/
def driverStep (s : Driver) : Call → Option DResult × Driver
  | .status pdrv => (none, (mmcDiskStatus s pdrv).2)
  | .ioctl pdrv cmd => (none, (mmcDiskIoctl s pdrv cmd).2.2)
  | .read pdrv buff sector count =>
      let r := mmcDiskRead s pdrv buff sector count
      (some r.1, r.2.2)
  | .write pdrv buff sector count =>
      let r := mmcDiskWrite s pdrv buff sector count
      (some r.1, r.2)

/-! ### Ready cards -/

/-- The command asks for the operating condition: `CMD41` or `CMD1`. -/
def Issue.IsOpCond (i : Issue) : Prop :=
  i.cmdreg = cmdReg (acmd41 &&& 0x7F#8) false none ∨ i.cmdreg = cmdReg cmd1 false none

instance (i : Issue) : Decidable i.IsOpCond :=
  inferInstanceAs (Decidable (_ ∨ _))

/-- **The card is ready, addressed and selected**: one of at most 1000 polls of the operating
condition is answered with the ready bit, `CMD3` makes an address, and `CMD7` selects the card
by it, in this order. -/
def Identified (log : List Issue) : Prop :=
  log.countP (fun i => decide i.IsOpCond) ≤ 1000 ∧
    ∃ o a d, [o, a, d].Sublist log ∧ o.IsOpCond ∧ has o.resp ocrBusy = true ∧
      a.cmdreg = cmdReg cmd3 false none ∧ d.cmdreg = cmdReg cmd7 false none ∧
      d.arg >>> 16 = a.resp >>> 16

/-- The commands of a call. -/
def logSince (s t : Driver) : List Issue := t.bus.sent.drop s.bus.sent.length

/-- **A card is reported ready only if it is**: the initialization returns `0` and clears
`STA_NOINIT` only for a card that is ready, addressed and selected. Otherwise it returns
`STA_NOINIT`, and the reads and writes of all calls that follow return `RES_NOTRDY`. -/
structure InitOk (s : Driver) : Prop where
  ready : (mmcDiskInitialize s 0).1 = 0#8 →
    has (mmcDiskInitialize s 0).2.stat staNoinit = false →
    Identified (logSince s (mmcDiskInitialize s 0).2)
  other : ¬Identified (logSince s (mmcDiskInitialize s 0).2) →
    (mmcDiskInitialize s 0).1 = staNoinit ∧
    ∀ calls, ∀ e ∈ (runFn driverStep [] (mmcDiskInitialize s 0).2 calls).1,
      e.2 = none ∨ e.2 = some .notrdy

/-! ### Sending a command -/

section Send

variable {b : Bus} {cmd : BitVec 8} {arg : BitVec 32}

/-- **`send_cmd` never fails.** -/
theorem sendCmd_fst (b : Bus) (cmd : BitVec 8) (arg : BitVec 32) : (sendCmd b cmd arg).1 = 0#8 := by
  simp only [sendCmd, sendCmdData, transfer]
  split_ifs <;> rfl

/-- What it does for a command without `CMD55`. -/
theorem sendCmd_snd (cmd : BitVec 8) (h12 : cmd ≠ cmd12) (hacmd : has cmd 0x80#8 = false) :
    (sendCmd b cmd arg).2 = b.issue (cmdReg cmd false none) arg := by
  simp [sendCmd, sendCmdData, transfer, h12, hacmd, cmdReg]

/-- What it does for one with it. -/
theorem sendCmd_acmd41 : (sendCmd b acmd41 arg).2 =
    (b.issue (cmdReg cmd55 false none) 0#32).issue (cmdReg (acmd41 &&& 0x7F#8) false none) arg := by
  simp only [sendCmd, sendCmdData, transfer]
  rfl

/-- Two polls further, the answers are those that are left. -/
@[simp] theorem answers_issue (cmdreg : BitVec 32) (i : ℕ) :
    (b.issue cmdreg arg).answers i = b.answers (i + 1) := rfl

@[simp] theorem resp0_issue (cmdreg : BitVec 32) : (b.issue cmdreg arg).resp0 = b.answers 0 := rfl

@[simp] theorem sent_issue (cmdreg : BitVec 32) :
    (b.issue cmdreg arg).sent = b.sent ++ [⟨cmdreg, arg, b.answers 0⟩] := rfl

end Send

/-! ### The polls -/

/-- The card says within `n` polls that it is ready: each takes two answers, and the second is
the operating condition. -/
def ReadyWithin (n : ℕ) (answers : ℕ → BitVec 32) : Prop :=
  ∃ i < n, has (answers (2 * i + 1)) ocrBusy = true

/-- The commands of `n` polls that all find the card busy. -/
def pollLog (arg : BitVec 32) (answers : ℕ → BitVec 32) : ℕ → List Issue
  | 0 => []
  | n + 1 =>
      ⟨cmdReg cmd55 false none, 0#32, answers 0⟩ ::
        ⟨cmdReg (acmd41 &&& 0x7F#8) false none, arg, answers 1⟩ ::
        pollLog arg (fun i => answers (i + 2)) n

/-- The bus after `n` polls. -/
def polled (arg : BitVec 32) : ℕ → Bus → Bus
  | 0, b => b
  | n + 1, b => polled arg n (sendCmd b acmd41 arg).2

theorem sent_polled (arg : BitVec 32) (n : ℕ) (b : Bus) :
    (polled arg n b).sent = b.sent ++ pollLog arg b.answers n := by
  induction n generalizing b with
  | zero => simp [polled, pollLog]
  | succ n ih =>
    rw [polled, ih, sendCmd_acmd41]
    simp only [sent_issue, answers_issue, List.append_assoc, List.cons_append, List.nil_append]
    rfl

/-- **How a loop of polls ends**: at the first poll that finds the card ready, or after the last
one if none does. -/
theorem pollOpCond_snd (arg : BitVec 32) (n : ℕ) (b : Bus) :
    ∃ k ≤ n, (pollOpCond acmd41 arg n b).2 = polled arg k b ∧
      (ReadyWithin k b.answers ∨ ¬ReadyWithin n b.answers) := by
  induction n generalizing b with
  | zero => exact ⟨0, le_refl 0, rfl, Or.inr fun ⟨i, hi, _⟩ => by omega⟩
  | succ n ih =>
    have hresp : (sendCmd b acmd41 arg).2.resp0 = b.answers 1 := by
      rw [sendCmd_acmd41]
      simp
    have hanswers : ∀ i, (sendCmd b acmd41 arg).2.answers i = b.answers (i + 2) := by
      intro i
      rw [sendCmd_acmd41]
      simp
    simp only [pollOpCond, sendCmd_fst, true_and, hresp]
    split
    · rename_i hbusy
      exact ⟨1, by omega, rfl, Or.inl ⟨0, by omega, hbusy⟩⟩
    · rename_i hidle
      obtain ⟨k, hk, hbus, hready⟩ := ih (sendCmd b acmd41 arg).2
      refine ⟨k + 1, by omega, hbus, ?_⟩
      -- a poll of the rest is the next poll of the whole
      have hshift : ∀ m, ReadyWithin m (sendCmd b acmd41 arg).2.answers ↔
          ReadyWithin (m + 1) b.answers := by
        intro m
        constructor
        · rintro ⟨i, hi, hbusy⟩
          rw [hanswers] at hbusy
          exact ⟨i + 1, by omega, hbusy⟩
        · rintro ⟨i, hi, hbusy⟩
          cases i with
          | zero => exact absurd hbusy hidle
          | succ i => exact ⟨i, by omega, by rw [hanswers]; exact hbusy⟩
      rwa [hshift, hshift] at hready

theorem mem_pollLog (arg : BitVec 32) {n j : ℕ} (hj : j < n) (answers : ℕ → BitVec 32) :
    ⟨cmdReg (acmd41 &&& 0x7F#8) false none, arg, answers (2 * j + 1)⟩ ∈ pollLog arg answers n := by
  induction n generalizing j answers with
  | zero => omega
  | succ n ih =>
    cases j with
    | zero => simp [pollLog]
    | succ j =>
      have hmem := ih (j := j) (by omega) fun i => answers (i + 2)
      exact List.mem_cons_of_mem _ (List.mem_cons_of_mem _ hmem)

/-- `CMD55` does not ask for the operating condition. -/
theorem not_isOpCond_cmd55 (arg resp : BitVec 32) :
    ¬(⟨cmdReg cmd55 false none, arg, resp⟩ : Issue).IsOpCond := by
  simp [Issue.IsOpCond, cmdReg, cmd55, acmd41, cmd1]

theorem resp_of_mem_pollLog {arg : BitVec 32} {n : ℕ} {answers : ℕ → BitVec 32} {i : Issue}
    (hmem : i ∈ pollLog arg answers n) (hop : i.IsOpCond) :
    ∃ j < n, i.resp = answers (2 * j + 1) := by
  induction n generalizing answers with
  | zero => simp [pollLog] at hmem
  | succ n ih =>
    rw [pollLog, List.mem_cons, List.mem_cons] at hmem
    rcases hmem with rfl | rfl | hmem
    · exact absurd hop (not_isOpCond_cmd55 _ _)
    · exact ⟨0, by omega, rfl⟩
    · obtain ⟨j, hj, hresp⟩ := ih hmem
      exact ⟨j + 1, by omega, hresp⟩

theorem countP_pollLog (arg : BitVec 32) (n : ℕ) (answers : ℕ → BitVec 32) :
    (pollLog arg answers n).countP (fun i => decide i.IsOpCond) = n := by
  induction n generalizing answers with
  | zero => rfl
  | succ n ih =>
    rw [pollLog, List.countP_cons_of_neg (by simpa using not_isOpCond_cmd55 _ _),
      List.countP_cons_of_pos (by simp [Issue.IsOpCond]), ih]

/-! ### The initialization -/

section Init

variable {s : Driver}

/-- The commands before the polls. -/
def openingLog (s : Driver) : List Issue :=
  [⟨0x80008000#32, 0#32, s.bus.resp0⟩, ⟨cmdReg cmd0 false none, 0#32, s.bus.answers 0⟩,
    ⟨cmdReg cmd8 false none, 0x1AA#32, s.bus.answers 1⟩]

/-- The commands behind them: their answers are those that follow `b`. -/
def closingLog (b : Bus) : List Issue :=
  [⟨cmdReg cmd2 false none, 0#32, b.answers 0⟩, ⟨cmdReg cmd3 false none, 0#32, b.answers 1⟩,
    ⟨cmdReg cmd7 false none, b.answers 1 >>> 16 <<< 16, b.answers 2⟩]

/-- The bus behind `CMD8`. -/
def opened (s : Driver) : Bus :=
  ((sdSendInit s.bus).issue (cmdReg cmd0 false none) 0#32).issue (cmdReg cmd8 false none) 0x1AA#32

theorem sent_opened : (opened s).sent = s.bus.sent ++ openingLog s := by
  simp [opened, openingLog, sdSendInit, Bus.issue]

theorem assignAddress_eq (ty : BitVec 8) (b : Bus) :
    (assignAddress ty b).1 = ty ∧ (assignAddress ty b).2.sent = b.sent ++ closingLog b := by
  have h2 : (sendCmd b cmd2 0#32).2 = b.issue (cmdReg cmd2 false none) 0#32 :=
    sendCmd_snd cmd2 (by decide) (by decide)
  simp only [assignAddress, sendCmd_fst, if_true, h2]
  rw [sendCmd_snd cmd3 (by decide) (by decide),
    sendCmd_snd cmd7 (by decide) (by decide)]
  simp [closingLog]

/-- **What the initialization does**: the type of the card comes from the branch for cards of
version 2, whatever the card. -/
theorem mmcDiskInitialize_eq (s : Driver) :
    (mmcDiskInitialize s 0).2.cardType = (opCond2 (opened s)).1 ∧
      (mmcDiskInitialize s 0).2.bus.sent =
        (opCond2 (opened s)).2.sent ++ closingLog (opCond2 (opened s)).2 ∧
      (mmcDiskInitialize s 0).1 = (if (opCond2 (opened s)).1 = 0#8 then staNoinit else 0#8) ∧
      (mmcDiskInitialize s 0).2.stat = (mmcDiskInitialize s 0).1 := by
  have hid : identify (sdSendInit s.bus) =
      assignAddress (opCond2 (opened s)).1 (opCond2 (opened s)).2 := by
    simp only [identify, sendCmd_fst, if_true]
    rw [sendCmd_snd cmd0 (by decide) (by decide),
      sendCmd_snd cmd8 (by decide) (by decide)]
    rfl
  obtain ⟨hty, hsent⟩ := assignAddress_eq (opCond2 (opened s)).1 (opCond2 (opened s)).2
  simp [mmcDiskInitialize, hid, hty, hsent]

end Init

/-! ### When the initialization is right -/

section Verdict

variable {s : Driver}

/-- Before the initialization of a driver, the card is **not silent**: it does not answer `CMD8`,
or it says within 1000 polls that it is ready. -/
def NotSilent (s : Driver) : Prop :=
  s.bus.answers 1 ≠ 0x1AA#32 ∨ ReadyWithin 1000 fun i => s.bus.answers (i + 2)

/-- A card that does not answer `CMD8` is not ready. -/
theorem opCond2_none (h : s.bus.answers 1 ≠ 0x1AA#32) : (opCond2 (opened s)).1 = 0#8 := by
  have hresp : (opened s).resp0 = s.bus.answers 1 := rfl
  rw [opCond2, hresp, if_neg h]

/-- One that does gets a type, and its polls are in the log. -/
theorem opCond2_polled (h : s.bus.answers 1 = 0x1AA#32) :
    (opCond2 (opened s)).1 ≠ 0#8 ∧ ∃ k ≤ 1000,
      (opCond2 (opened s)).2 = polled (ocrHcs ||| vdd) k (opened s) ∧
      (ReadyWithin k (opened s).answers ∨ ¬ReadyWithin 1000 (opened s).answers) := by
  have hresp : (opened s).resp0 = 0x1AA#32 := h
  rw [opCond2, if_pos hresp]
  refine ⟨?_, pollOpCond_snd _ 1000 _⟩
  dsimp only
  split <;> decide

theorem logSince_initialize (s : Driver) {l : List Issue}
    (hl : (opCond2 (opened s)).2.sent = s.bus.sent ++ l) :
    logSince s (mmcDiskInitialize s 0).2 = l ++ closingLog (opCond2 (opened s)).2 := by
  rw [logSince, (mmcDiskInitialize_eq s).2.1, hl, List.append_assoc, List.drop_left]

/-- The log of an initialization with `k` polls. -/
theorem logSince_polled {k : ℕ}
    (hbus : (opCond2 (opened s)).2 = polled (ocrHcs ||| vdd) k (opened s)) :
    logSince s (mmcDiskInitialize s 0).2 =
      (openingLog s ++ pollLog (ocrHcs ||| vdd) (opened s).answers k) ++
        closingLog (opCond2 (opened s)).2 := by
  refine logSince_initialize s ?_
  rw [hbus, sent_polled, sent_opened, List.append_assoc]

/-- No command before the polls asks for the operating condition. -/
theorem not_isOpCond_openingLog {i : Issue} (hi : i ∈ openingLog s) : ¬i.IsOpCond := by
  simp only [openingLog, List.mem_cons, List.not_mem_nil, or_false] at hi
  rcases hi with rfl | rfl | rfl <;>
    simp [Issue.IsOpCond, cmdReg, acmd41, cmd0, cmd1, cmd8]

/-- None behind them does. -/
theorem not_isOpCond_closingLog {b : Bus} {i : Issue} (hi : i ∈ closingLog b) : ¬i.IsOpCond := by
  simp only [closingLog, List.mem_cons, List.not_mem_nil, or_false] at hi
  rcases hi with rfl | rfl | rfl <;>
    simp [Issue.IsOpCond, cmdReg, acmd41, cmd1, cmd2, cmd3, cmd7]

theorem countP_isOpCond_eq_zero {l : List Issue} (hl : ∀ i ∈ l, ¬i.IsOpCond) :
    l.countP (fun i => decide i.IsOpCond) = 0 :=
  List.countP_eq_zero.mpr fun i hi => by simpa using hl i hi

/-- **A card that says within 1000 polls that it is ready is identified.** -/
theorem identified_of_ready {k : ℕ} (hk : k ≤ 1000)
    (hbus : (opCond2 (opened s)).2 = polled (ocrHcs ||| vdd) k (opened s))
    (hready : ReadyWithin k (opened s).answers) :
    Identified (logSince s (mmcDiskInitialize s 0).2) := by
  rw [logSince_polled hbus]
  constructor
  · rw [List.countP_append, List.countP_append, countP_pollLog,
      countP_isOpCond_eq_zero fun i hi => not_isOpCond_openingLog hi,
      countP_isOpCond_eq_zero fun i hi => not_isOpCond_closingLog hi]
    omega
  · obtain ⟨j, hj, hbusy⟩ := hready
    refine ⟨⟨cmdReg (acmd41 &&& 0x7F#8) false none, ocrHcs ||| vdd, (opened s).answers (2 * j + 1)⟩,
      ⟨cmdReg cmd3 false none, 0#32, (opCond2 (opened s)).2.answers 1⟩,
      ⟨cmdReg cmd7 false none, (opCond2 (opened s)).2.answers 1 >>> 16 <<< 16,
        (opCond2 (opened s)).2.answers 2⟩, ?_, Or.inl rfl, hbusy, rfl, rfl, ?_⟩
    · have hpoll : [_].Sublist (openingLog s ++ pollLog (ocrHcs ||| vdd) (opened s).answers k) :=
        List.singleton_sublist.mpr
          (List.mem_append_right _ (mem_pollLog (ocrHcs ||| vdd) hj (opened s).answers))
      exact hpoll.append (List.sublist_cons_self _ _)
    · -- the address is the upper half of the answer
      refine BitVec.eq_of_getLsbD_eq fun i hi => ?_
      simp only [BitVec.getLsbD_shiftLeft, BitVec.getLsbD_ushiftRight]
      by_cases hup : i < 16
      · simp [show 16 + i < 32 by omega]
      · rw [BitVec.getLsbD_of_ge _ (16 + i) (by omega)]
        simp [show ¬16 + i < 32 by omega]

/-- **A card that never says that it is ready is not identified.** -/
theorem not_identified_of_silent {k : ℕ} (hk : k ≤ 1000)
    (hbus : (opCond2 (opened s)).2 = polled (ocrHcs ||| vdd) k (opened s))
    (hsilent : ¬ReadyWithin 1000 (opened s).answers) :
    ¬Identified (logSince s (mmcDiskInitialize s 0).2) := by
  rw [logSince_polled hbus]
  rintro ⟨-, o, a, d, hsub, hop, hbusy, -⟩
  have hmem := hsub.subset List.mem_cons_self
  rw [List.mem_append, List.mem_append] at hmem
  rcases hmem with (hmem | hmem) | hmem
  · exact not_isOpCond_openingLog hmem hop
  · obtain ⟨j, hj, hresp⟩ := resp_of_mem_pollLog hmem hop
    exact hsilent ⟨j, by omega, hresp ▸ hbusy⟩
  · exact not_isOpCond_closingLog hmem hop

/-- A drive that is not initialized stays so, and its reads and writes say so. -/
theorem notrdy_of_noinit (hs : has s.stat staNoinit = true) (e : Call) :
    ((driverStep s e).1 = none ∨ (driverStep s e).1 = some .notrdy) ∧
      has (driverStep s e).2.stat staNoinit = true := by
  have hstatus : ∀ pdrv, has (mmcDiskStatus s pdrv).1 staNoinit = true ∧
      (mmcDiskStatus s pdrv).2 = s := by
    intro pdrv
    by_cases hp : pdrv ≠ 0
    · rw [mmcDiskStatus, if_pos hp]
      have hself : has staNoinit staNoinit = true := by decide
      exact ⟨hself, rfl⟩
    · rw [mmcDiskStatus, if_neg hp, if_pos hs]
      exact ⟨hs, rfl⟩
  cases e with
  | status pdrv => exact ⟨Or.inl rfl, by rw [driverStep, (hstatus pdrv).2]; exact hs⟩
  | ioctl pdrv cmd =>
    refine ⟨Or.inl rfl, ?_⟩
    simp only [driverStep, mmcDiskIoctl, (hstatus pdrv).1, if_true, (hstatus pdrv).2, hs]
  | read pdrv buff sector count =>
    simp only [driverStep, mmcDiskRead, (hstatus pdrv).1, if_true, (hstatus pdrv).2, hs]
    simp
  | write pdrv buff sector count =>
    simp only [driverStep, mmcDiskWrite, (hstatus pdrv).1, if_true, (hstatus pdrv).2, hs]
    simp

/-- So do those of all calls that follow. -/
theorem notrdy_of_noinit_run (hs : has s.stat staNoinit = true) (calls : List Call)
    (e : Call × Option DResult) (he : e ∈ (runFn driverStep [] s calls).1) :
    e.2 = none ∨ e.2 = some .notrdy := by
  have hreach : Reach (fnStep driverStep) Always s (runFn driverStep [] s calls).1
      (runFn driverStep [] s calls).2 := reach_runFn okAlong_always
  have hinv := hreach.fnInvariant (fun h t => has t.stat staNoinit = true ∧
    ∀ e ∈ h, e.2 = none ∨ e.2 = some .notrdy) ⟨hs, by simp⟩ ?_
  · exact hinv.2 e he
  · rintro h t c ⟨ht, hh⟩ -
    obtain ⟨hres, hstat⟩ := notrdy_of_noinit ht c
    refine ⟨hstat, fun e he => ?_⟩
    rcases List.mem_cons.mp he with rfl | he
    · exact hres
    · exact hh e he

/-- The result of the initialization is its status, for the calls that follow. -/
theorem initOk_of_noinit (hst : (mmcDiskInitialize s 0).1 = staNoinit) : InitOk s := by
  have hstat : has (mmcDiskInitialize s 0).2.stat staNoinit = true := by
    rw [(mmcDiskInitialize_eq s).2.2.2, hst]
    decide
  constructor
  · intro h0
    rw [hst] at h0
    exact absurd h0 (by decide)
  · exact fun _ => ⟨hst, fun calls e he => notrdy_of_noinit_run hstat calls e he⟩

/-- **A silent card is reported ready**: it answers `CMD8`, and never says that it is ready. -/
theorem not_initOk_of_silent (h : ¬NotSilent s) : ¬InitOk s := by
  rw [NotSilent, not_or, not_not] at h
  obtain ⟨hcmd8, hsilent⟩ := h
  obtain ⟨hty, k, hk, hbus, -⟩ := opCond2_polled hcmd8
  intro hok
  have hst := (hok.other (not_identified_of_silent hk hbus hsilent)).1
  rw [(mmcDiskInitialize_eq s).2.2.1, if_neg hty] at hst
  exact absurd hst (by decide)

/-- **When a card is reported ready only if it is**: if it does not answer `CMD8`, or says within
1000 polls that it is ready. -/
theorem initOk_iff_notSilent (s : Driver) : InitOk s ↔ NotSilent s := by
  constructor
  · intro hok
    by_contra h
    exact not_initOk_of_silent h hok
  · intro h
    by_cases hcmd8 : s.bus.answers 1 = 0x1AA#32
    · obtain ⟨-, k, hk, hbus, hready⟩ := opCond2_polled hcmd8
      have hwithin : ReadyWithin 1000 (opened s).answers := h.resolve_left (not_not.mpr hcmd8)
      have hid := identified_of_ready hk hbus (hready.resolve_right (not_not.mpr hwithin))
      exact ⟨fun _ _ => hid, fun hnot => absurd hid hnot⟩
    · refine initOk_of_noinit ?_
      rw [(mmcDiskInitialize_eq s).2.2.1, if_pos (opCond2_none hcmd8)]

/-- A card that answers `CMD8` and nothing else. -/
def silentCard : Driver :=
  ⟨staNoinit, 0#8, ⟨0#32, fun i => if i = 1 then 0x1AA#32 else 0#32, fun _ => 0#32, [], []⟩⟩

/-- **The driver takes it for ready**: it returns `0` after 1000 polls without the ready bit. -/
theorem not_initOk_silentCard :
    (∀ i, has (silentCard.bus.answers i) ocrBusy = false) ∧
      (mmcDiskInitialize silentCard 0).1 = 0#8 ∧ ¬InitOk silentCard := by
  have hanswers : ∀ i, has (silentCard.bus.answers i) ocrBusy = false := by
    intro i
    simp only [silentCard]
    split <;> decide
  refine ⟨hanswers, ?_, not_initOk_of_silent ?_⟩
  · rw [(mmcDiskInitialize_eq silentCard).2.2.1, if_neg (opCond2_polled rfl).1]
  · rintro (hcmd8 | ⟨i, -, hbusy⟩)
    · exact hcmd8 rfl
    · simp [hanswers] at hbusy

end Verdict

end Sunxi

end BareMetal
