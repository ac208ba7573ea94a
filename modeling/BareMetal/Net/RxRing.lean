import BareMetal.Runs
import BareMetal.Ring
import BareMetal.FatFs.Defs

/-!
# Receiving Ethernet frames

The receive ring of the EMAC has 48 descriptors. The DMA fills them in ring order: it takes
the next descriptor whose own bit is set, stores a frame, and clears the bit. The program
goes round behind it with an index of its own, `rx_currdescnum`, which only
`emac_free_pkt` moves. `emac_eth_recv` returns the length of the frame at that index, or
`-1` both when there is none and when its length is bad; its caller `eth_recv_pbuf` tests
for `0`. So a poll that finds nothing is not told from a frame: memory for `(u16) -1` bytes
is asked for, and the descriptor, which the DMA has not filled, is freed and passed over.

The program counter of `network_task` is explicit (`BareMetal.Net.Pc`), since the DMA may
deliver between any two of its steps: the read of the descriptor, the allocation with the
copy out of the packet buffer, the release of the descriptor, the hand-over to lwIP.

What the ring is for is `BareMetal.Net.RxOk`: what lwIP is handed is a subsequence of what
was delivered, each frame has one fate, and a poll that finds nothing touches nothing. It is
proved along all runs in which a poll always finds a frame and no memory is found for the
`(u16) -1` bytes of a bad one (`BareMetal.Net.rxOk_of_found`), by way of the ring holding a
queue from `rx_currdescnum` on (`BareMetal.RingHolds`); the first step that is not so breaks
it (`BareMetal.Net.not_rxOk_of_not_found`).
-/

namespace BareMetal

namespace Net

open FatFs (has)

/-! ### The ring -/

/-- `CONFIG_RX_DESCR_NUM`. -/
abbrev rxDescrNum : ℕ := 48

/-- `CONFIG_ETH_RXSIZE`. -/
abbrev ethRxsize : ℕ := 2044

/-- `1U << 31`, the own bit of a descriptor: set while the DMA owns it. -/
def ownBit : BitVec 32 := 0x80000000#32

/-- The length field of a descriptor's status. -/
def lengthField (status : BitVec 32) : ℕ := ((status >>> 16) &&& 0x3FFF#32).toNat

/-- A frame: its length and what is in its buffer. -/
structure Frame (F : Type) where
  length : ℕ
  data : F
  deriving DecidableEq

/-- The lengths `emac_eth_recv` accepts. -/
def Frame.Valid {F : Type} (f : Frame F) : Prop := 0x40 ≤ f.length ∧ f.length ≤ ethRxsize

instance {F : Type} (f : Frame F) : Decidable f.Valid :=
  inferInstanceAs (Decidable (_ ∧ _))

/-- What a pbuf was filled with: a frame, or as many bytes from a packet pointer that was
never set. -/
inductive Pbuf (F : Type) where
  | packet (f : Frame F)
  | garbage (length : BitVec 16)
  deriving DecidableEq

/-- Where the core is in `network_task`. -/
inductive Pc (F : Type) where
  /-- Outside. -/
  | idle
  /-- Before `emac_eth_recv`. -/
  | poll
  /-- Before `pbuf_alloc`: the count, and the descriptor whose buffer `eth_data` points to
  if it was set. -/
  | alloc (count : ℤ) (ethData : Option (Fin rxDescrNum))
  /-- Before `emac_free_pkt`. -/
  | free (p : Option (Pbuf F))
  /-- Before the pbuf is handed to `netif_eth0.input`. -/
  | input (p : Option (Pbuf F))

/-- The receive ring, where the DMA is in it, and where the core is in `network_task`. -/
structure Rx (F : Type) where
  status : Fin rxDescrNum → BitVec 32
  buffer : Fin rxDescrNum → F
  rxCurrdescnum : Fin rxDescrNum
  hw : Fin rxDescrNum
  pc : Pc F

/-- `rx_descs_init`: every descriptor belongs to the DMA. -/
def Rx.init {F : Type} (buffer : Fin rxDescrNum → F) : Rx F :=
  ⟨fun _ => ownBit, buffer, 0, 0, .idle⟩

/-- What happens next. -/
inductive RxEvent (F : Type) where
  /-- The DMA has a frame, and the status it writes, whose own bit is clear. -/
  | deliver (status : BitVec 31) (data : F)
  /-- The next step of the core; a call of `network_task` finds the link up or down, and
  `pbuf_alloc` finds memory or not. -/
  | cpu (link alloc : Bool)

/-- What a step does for the outside. -/
inductive RxOut (F : Type) where
  | nothing
  /-- A frame was delivered into the ring. -/
  | delivered (f : Frame F)
  /-- A poll found a frame, or none. -/
  | polled (found : Bool)
  /-- A pbuf was filled. -/
  | took (p : Pbuf F)
  /-- `pbuf_alloc` failed for this frame. -/
  | refused (f : Frame F)
  /-- A pbuf was handed to lwIP. -/
  | handed (p : Pbuf F)

variable {F : Type}

/-! ### The code -/

/-- `emac_eth_recv`: the length, and the packet pointer if it is set. -/
def emacEthRecv (s : Rx F) : ℤ × Option (Fin rxDescrNum) :=
  let status := s.status s.rxCurrdescnum
  if !has status ownBit then
    let length := lengthField status
    if length < 0x40 then (-1, none)
    else if length > ethRxsize then (-1, none)
    else (length, some s.rxCurrdescnum)
  else
    (-1, none)

/-- The step of an index round the ring. -/
def nextDesc (i : Fin rxDescrNum) : Fin rxDescrNum :=
  if h : i.val + 1 < rxDescrNum then ⟨i.val + 1, h⟩ else 0

/-- `emac_free_pkt`. -/
def emacFreePkt (s : Rx F) : Rx F :=
  { s with status := Function.update s.status s.rxCurrdescnum
             (s.status s.rxCurrdescnum ||| ownBit)
           rxCurrdescnum := nextDesc s.rxCurrdescnum }

/-- `pbuf_take`: copy the packet, whose pointer may not have been set. -/
def pbufTake (s : Rx F) (count : ℤ) : Option (Fin rxDescrNum) → Pbuf F
  | some i => .packet ⟨count.toNat, s.buffer i⟩
  | none => .garbage (BitVec.ofInt 16 count)

/-- The DMA stores a frame in its next descriptor, if that is its own. -/
def dmaDeliver (s : Rx F) (status : BitVec 31) (data : F) : RxOut F × Rx F :=
  if has (s.status s.hw) ownBit then
    (.delivered ⟨lengthField (status.setWidth 32), data⟩,
      { s with status := Function.update s.status s.hw (status.setWidth 32)
               buffer := Function.update s.buffer s.hw data
               hw := nextDesc s.hw })
  else
    (.nothing, s)

/-- The next step of `network_task` and the `eth_recv_pbuf` it calls. -/
def networkTask (s : Rx F) (link alloc : Bool) : RxOut F × Rx F :=
  match s.pc with
  | .idle => (.nothing, { s with pc := if link then .poll else .idle })
  | .poll =>
      let r := emacEthRecv s
      -- the test is for 0, which `emac_eth_recv` never returns
      (.polled (!has (s.status s.rxCurrdescnum) ownBit),
        { s with pc := if r.1 = 0 then .input none else .alloc r.1 r.2 })
  | .alloc count ethData =>
      if alloc then
        (.took (pbufTake s count ethData),
          { s with pc := .free (some (pbufTake s count ethData)) })
      else
        (match ethData with
          | some i => .refused ⟨count.toNat, s.buffer i⟩
          | none => .nothing,
          { s with pc := .free none })
  -- the descriptor is freed whether or not there was a frame in it
  | .free p => (.nothing, { emacFreePkt s with pc := .input p })
  | .input (some p) => (.handed p, { s with pc := .poll })
  | .input none => (.nothing, { s with pc := .idle })

/-- One step of the system. -/
def rxStep (s : Rx F) : RxEvent F → RxOut F × Rx F
  | .deliver status data => dmaDeliver s status data
  | .cpu link alloc => networkTask s link alloc

/-! ### What the ring is for -/

/-- The frame a step delivers. -/
def RxOut.frameIn : RxOut F → Option (Frame F)
  | .delivered f => some f
  | _ => none

/-- The pbuf a step hands over. -/
def RxOut.pbufOut : RxOut F → Option (Pbuf F)
  | .handed p => some p
  | _ => none

/-- The frame a step finds no memory for. -/
def RxOut.frameRefused : RxOut F → Option (Frame F)
  | .refused f => some f
  | _ => none

/-- The frames delivered so far, in their order. -/
def delivered (h : List (RxEvent F × RxOut F)) : List (Frame F) := logOf RxOut.frameIn h

/-- The pbufs handed to lwIP so far, in their order. -/
def handed (h : List (RxEvent F × RxOut F)) : List (Pbuf F) := logOf RxOut.pbufOut h

/-- The frames for which `pbuf_alloc` failed, in their order. -/
def refused (h : List (RxEvent F × RxOut F)) : List (Frame F) := logOf RxOut.frameRefused h

@[simp] theorem delivered_cons (e : RxEvent F) (o : RxOut F) (h : List (RxEvent F × RxOut F)) :
    delivered ((e, o) :: h) = delivered h ++ o.frameIn.toList := rfl

@[simp] theorem handed_cons (e : RxEvent F) (o : RxOut F) (h : List (RxEvent F × RxOut F)) :
    handed ((e, o) :: h) = handed h ++ o.pbufOut.toList := rfl

@[simp] theorem refused_cons (e : RxEvent F) (o : RxOut F) (h : List (RxEvent F × RxOut F)) :
    refused ((e, o) :: h) = refused h ++ o.frameRefused.toList := rfl

/-- The last poll found no frame. -/
def emptyPoll : List (RxEvent F × RxOut F) → Bool
  | [] => false
  | (_, .polled found) :: _ => !found
  | _ :: h => emptyPoll h

/-- The pbuf that has been filled and not been handed over yet. -/
def Pc.inFlight : Pc F → List (Pbuf F)
  | .free (some p) => [p]
  | .input (some p) => [p]
  | _ => []

/-- The fate of a frame: copied into a pbuf for lwIP, dropped because `pbuf_alloc` failed,
or skipped because its length is bad. -/
inductive Fate where
  | taken | dropped | skipped
  deriving DecidableEq, Repr

/-- The frames of one fate. -/
def ofFate (fates : List (Frame F × Fate)) (a : Fate) : List (Frame F) :=
  (fates.filter fun x => x.2 = a).map Prod.fst

/-- What the DMA has put into a descriptor and the program has not given back. -/
def cells (s : Rx F) (i : Fin rxDescrNum) : Option (Frame F) :=
  if has (s.status i) ownBit then none else some ⟨lengthField (s.status i), s.buffer i⟩

/-- **The fates of the frames.** The frames delivered are those that have met their fate, in
order, and those waiting in the ring from `rx_currdescnum` on (behind the one that is being
released, if there is one); those taken are the ones handed over or about to be, those
dropped are the ones `pbuf_alloc` failed for, and those skipped are the ones of a bad
length. -/
def FatesOk (h : List (RxEvent F × RxOut F)) (s : Rx F) : Prop :=
  ∃ fates waiting busy,
    delivered h = fates.map Prod.fst ++ waiting ∧
    RingHolds (cells s) s.rxCurrdescnum (busy ++ waiting) ∧ busy.length ≤ 1 ∧
    handed h ++ s.pc.inFlight = (ofFate fates .taken).map .packet ∧
    refused h = ofFate fates .dropped ∧
    ∀ x ∈ fates, x.1.Valid ↔ x.2 ≠ .skipped

/-- **The receive path keeps the ring in step**: what is handed over is a subsequence of
what was delivered, every frame has one fate, and after a poll that found no frame the core
leaves the ring alone and copies nothing. -/
structure RxOk (h : List (RxEvent F × RxOut F)) (s : Rx F) : Prop where
  subsequence : (handed h).Sublist ((delivered h).map .packet)
  fates : FatesOk h s
  untouched : emptyPoll h → ∀ link alloc o t, networkTask s link alloc = (o, t) →
    (t.rxCurrdescnum = s.rxCurrdescnum ∧ t.status = s.status) ∧ ∀ p, o ≠ .took p

/-- Every poll finds a frame, and `pbuf_alloc` finds no `(u16) -1` bytes for a bad one. -/
def Found (s : Rx F) : RxEvent F → Prop
  | .deliver _ _ => True
  | .cpu _ alloc =>
      match s.pc with
      | .poll => has (s.status s.rxCurrdescnum) ownBit = false
      | .alloc count _ => count = -1 → alloc = false
      | _ => True

/-! ### Bits and cells -/

theorem has_ownBit (status : BitVec 32) : has status ownBit = status.getLsbD 31 := by
  have hbit : ownBit = BitVec.twoPow 32 31 := by decide
  rw [has, hbit, BitVec.and_twoPow]
  cases status.getLsbD 31
  · rfl
  · decide

/-- A status of 31 bits has its own bit clear. -/
theorem has_ownBit_setWidth (status : BitVec 31) : has (status.setWidth 32) ownBit = false := by
  rw [has_ownBit, BitVec.getLsbD_setWidth, BitVec.getLsbD_of_ge status 31 le_rfl, Bool.and_false]

theorem has_ownBit_or (status : BitVec 32) : has (status ||| ownBit) ownBit = true := by
  have hbit : ownBit.getLsbD 31 = true := by decide
  rw [has_ownBit, BitVec.getLsbD_or, hbit, Bool.or_true]

theorem nextDesc_eq (i : Fin rxDescrNum) : nextDesc i = i + 1 := by
  ext
  have hi : i.val < 48 := i.isLt
  rw [nextDesc, Fin.val_add]
  split
  · rename_i h
    exact (Nat.mod_eq_of_lt h).symm
  · rename_i h
    have hlast : i.val = 47 := by
      have : ¬i.val + 1 < 48 := h
      omega
    simp [hlast]

/-- Delivering fills the cell of the DMA. -/
theorem cells_deliver (s : Rx F) (status : BitVec 31) (data : F) (hw : Fin rxDescrNum)
    (pc : Pc F) (cur : Fin rxDescrNum) :
    cells ⟨Function.update s.status s.hw (status.setWidth 32),
        Function.update s.buffer s.hw data, cur, hw, pc⟩ =
      Function.update (cells s) s.hw (some ⟨lengthField (status.setWidth 32), data⟩) := by
  funext i
  by_cases hi : i = s.hw
  · subst hi
    simp [cells, has_ownBit_setWidth]
  · simp [cells, Function.update_of_ne hi]

/-- Freeing empties the cell of the program. -/
theorem cells_emacFreePkt (s : Rx F) :
    cells (emacFreePkt s) = Function.update (cells s) s.rxCurrdescnum none := by
  funext i
  by_cases hi : i = s.rxCurrdescnum
  · subst hi
    simp [cells, emacFreePkt, has_ownBit_or]
  · simp [cells, emacFreePkt, Function.update_of_ne hi]

theorem cells_eq_some {s : Rx F} {i : Fin rxDescrNum} {f : Frame F} (h : cells s i = some f) :
    has (s.status i) ownBit = false ∧ f = ⟨lengthField (s.status i), s.buffer i⟩ := by
  unfold cells at h
  split at h
  · simp at h
  · rename_i hown
    exact ⟨by simpa using hown, (Option.some.inj h).symm⟩

/-- What `emac_eth_recv` returns for a frame that is there. -/
theorem emacEthRecv_some {s : Rx F} {f : Frame F} (h : cells s s.rxCurrdescnum = some f) :
    (f.Valid ∧ emacEthRecv s = ((f.length : ℤ), some s.rxCurrdescnum)) ∨
      (¬f.Valid ∧ emacEthRecv s = (-1, none)) := by
  obtain ⟨hown, rfl⟩ := cells_eq_some h
  simp only [emacEthRecv, hown, Bool.not_false, if_true, Frame.Valid]
  split
  · rename_i hshort
    exact Or.inr ⟨by omega, rfl⟩
  · rename_i hlong
    split
    · exact Or.inr ⟨by omega, rfl⟩
    · exact Or.inl ⟨by omega, rfl⟩

/-! ### Fates -/

theorem ofFate_append_self (fates : List (Frame F × Fate)) (f : Frame F) (a : Fate) :
    ofFate (fates ++ [(f, a)]) a = ofFate fates a ++ [f] := by
  simp [ofFate]

theorem ofFate_append_of_ne (fates : List (Frame F × Fate)) (f : Frame F) {a b : Fate}
    (hne : a ≠ b) : ofFate (fates ++ [(f, a)]) b = ofFate fates b := by
  simp [ofFate, hne]

theorem ofFate_sublist (fates : List (Frame F × Fate)) (a : Fate) :
    (ofFate fates a).Sublist (fates.map Prod.fst) :=
  List.Sublist.map Prod.fst List.filter_sublist

/-! ### The invariant -/

/-- What the program counter says about the frames waiting and the one being released. -/
def Pc.Inv (cur : Fin rxDescrNum) (waiting busy : List (Frame F)) : Pc F → Prop
  | .idle => busy = []
  | .poll => busy = []
  | .alloc count ethData => busy = [] ∧ ∃ f rest, waiting = f :: rest ∧
      ((f.Valid ∧ count = f.length ∧ ethData = some cur) ∨
        (¬f.Valid ∧ count = -1 ∧ ethData = none))
  | .free _ => ∃ f, busy = [f]
  | .input _ => busy = []

/-- The invariant of the receive path, with the fates so far, the frames waiting, and the
one being released. -/
structure RxInv (h : List (RxEvent F × RxOut F)) (s : Rx F) (fates : List (Frame F × Fate))
    (waiting busy : List (Frame F)) : Prop where
  delivered : delivered h = fates.map Prod.fst ++ waiting
  ring : RingHolds (cells s) s.rxCurrdescnum (busy ++ waiting)
  hw : s.hw = place s.rxCurrdescnum (busy ++ waiting).length
  pc : s.pc.Inv s.rxCurrdescnum waiting busy
  handed : handed h ++ s.pc.inFlight = (ofFate fates .taken).map .packet
  refused : refused h = ofFate fates .dropped
  valid : ∀ x ∈ fates, x.1.Valid ↔ x.2 ≠ .skipped
  polled : emptyPoll h = false

theorem rxInv_init (buffer : Fin rxDescrNum → F) : RxInv [] (Rx.init buffer) [] [] [] where
  delivered := rfl
  ring := ringHolds_empty (fun _ => if_pos (show has ownBit ownBit = true by decide)) 0
  hw := rfl
  pc := rfl
  handed := rfl
  refused := rfl
  valid := by simp
  polled := rfl

theorem Pc.Inv.busy_le {pc : Pc F} {cur : Fin rxDescrNum} {waiting busy : List (Frame F)}
    (h : pc.Inv cur waiting busy) : busy.length ≤ 1 := by
  cases pc with
  | free p =>
    obtain ⟨f, rfl⟩ := h
    exact le_rfl
  | alloc count ethData => simp [h.1]
  | idle | poll | input p => simp [show busy = [] from h]

/-- More frames may come to wait. -/
theorem Pc.Inv.deliver {pc : Pc F} {cur : Fin rxDescrNum} {waiting busy : List (Frame F)}
    (h : pc.Inv cur waiting busy) (f : Frame F) : pc.Inv cur (waiting ++ [f]) busy := by
  cases pc with
  | alloc count ethData =>
    obtain ⟨hbusy, g, rest, rfl, hg⟩ := h
    exact ⟨hbusy, g, rest ++ [f], rfl, hg⟩
  | idle | poll | free p | input p => exact h

/-! ### One step -/

section OneStep

variable {h : List (RxEvent F × RxOut F)} {s t : Rx F} {o : RxOut F}
  {fates : List (Frame F × Fate)} {waiting busy : List (Frame F)}

/-- A delivery adds to the frames waiting. -/
theorem rxInv_deliver (hinv : RxInv h s fates waiting busy) {status : BitVec 31} {data : F}
    (hstep : dmaDeliver s status data = (o, t)) :
    ∃ waiting', RxInv ((.deliver status data, o) :: h) t fates waiting' busy := by
  by_cases hown : has (s.status s.hw) ownBit
  · -- the descriptor behind the queue is the DMA's own, so the ring is not full
    rw [dmaDeliver, if_pos hown] at hstep
    obtain ⟨rfl, rfl⟩ := Prod.mk.inj hstep
    have hnone : cells s (place s.rxCurrdescnum (busy ++ waiting).length) = none := by
      rw [← hinv.hw, cells, if_pos hown]
    have hpush := hinv.ring.push (hinv.ring.length_lt hnone)
      ⟨lengthField (status.setWidth 32), data⟩
    rw [← hinv.hw, ← cells_deliver s status data (nextDesc s.hw) s.pc s.rxCurrdescnum,
      List.append_assoc] at hpush
    refine ⟨waiting ++ [⟨lengthField (status.setWidth 32), data⟩], ?_, hpush, ?_,
      hinv.pc.deliver _, ?_, ?_, hinv.valid, hinv.polled⟩
    · simp [RxOut.frameIn, hinv.delivered]
    · show nextDesc s.hw = place s.rxCurrdescnum (busy ++ (waiting ++ [_])).length
      rw [nextDesc_eq, hinv.hw, place_add_one]
      simp [Nat.add_assoc]
    · simpa [RxOut.pbufOut] using hinv.handed
    · simpa [RxOut.frameRefused] using hinv.refused
  · rw [dmaDeliver, if_neg hown] at hstep
    obtain ⟨rfl, rfl⟩ := Prod.mk.inj hstep
    refine ⟨waiting, ?_, hinv.ring, hinv.hw, hinv.pc, ?_, ?_, hinv.valid, hinv.polled⟩
    · simpa [RxOut.frameIn] using hinv.delivered
    · simpa [RxOut.pbufOut] using hinv.handed
    · simpa [RxOut.frameRefused] using hinv.refused

/-- A poll that finds a frame learns its length, or that it is bad. -/
theorem rxInv_poll (hinv : RxInv h s fates waiting busy) (hpc : s.pc = .poll)
    (hfound : has (s.status s.rxCurrdescnum) ownBit = false) (e : RxEvent F) :
    RxInv ((e, .polled (!has (s.status s.rxCurrdescnum) ownBit)) :: h)
      { s with pc := if (emacEthRecv s).1 = 0 then .input none else
                 .alloc (emacEthRecv s).1 (emacEthRecv s).2 } fates waiting busy := by
  have hbusy : busy = [] := by
    have := hinv.pc
    rwa [hpc] at this
  subst hbusy
  obtain ⟨f, hf⟩ : ∃ f, cells s s.rxCurrdescnum = some f := by
    simp [cells, hfound]
  obtain ⟨rest, rfl⟩ : ∃ rest, waiting = f :: rest := by
    have hhead := hinv.ring.head
    rw [hf, List.nil_append] at hhead
    cases waiting with
    | nil => simp at hhead
    | cons g rest => exact ⟨rest, by simp_all⟩
  refine ⟨?_, hinv.ring, hinv.hw, ?_, ?_, ?_, hinv.valid, by simp [emptyPoll, hfound]⟩
  · simpa [RxOut.frameIn] using hinv.delivered
  · rcases emacEthRecv_some hf with ⟨hv, hr⟩ | ⟨hv, hr⟩
    · have hne : (f.length : ℤ) ≠ 0 := by
        have := hv.1
        omega
      rw [hr]
      simp only [if_neg hne]
      exact ⟨rfl, f, rest, rfl, Or.inl ⟨hv, rfl, rfl⟩⟩
    · rw [hr]
      exact ⟨rfl, f, rest, rfl, Or.inr ⟨hv, rfl, rfl⟩⟩
  · have hnone : (if (emacEthRecv s).1 = 0 then Pc.input none else
        .alloc (emacEthRecv s).1 (emacEthRecv s).2 : Pc F).inFlight = [] := by
      split <;> rfl
    have hhanded := hinv.handed
    rw [hpc] at hhanded
    simp only [hnone]
    simpa [RxOut.pbufOut, Pc.inFlight] using hhanded
  · simpa [RxOut.frameRefused] using hinv.refused

/-- What it takes for the first frame waiting to meet its fate. -/
theorem rxInv_fate {f : Frame F} {rest : List (Frame F)} (hinv : RxInv h s fates (f :: rest) [])
    (a : Fate) (ha : f.Valid ↔ a ≠ .skipped) {e : RxEvent F} {p : Option (Pbuf F)}
    (hin : o.frameIn = none)
    (hhanded : handed ((e, o) :: h) ++ (Pc.free p).inFlight =
      (ofFate (fates ++ [(f, a)]) .taken).map .packet)
    (hrefused : refused ((e, o) :: h) = ofFate (fates ++ [(f, a)]) .dropped)
    (hpolled : emptyPoll ((e, o) :: h) = false) :
    RxInv ((e, o) :: h) { s with pc := .free p } (fates ++ [(f, a)]) rest [f] where
  delivered := by simp [hin, hinv.delivered]
  ring := hinv.ring
  hw := hinv.hw
  pc := ⟨f, rfl⟩
  handed := hhanded
  refused := hrefused
  valid x hx := by
    rcases List.mem_append.mp hx with hx | hx
    · exact hinv.valid x hx
    · rw [List.mem_singleton] at hx
      subst hx
      exact ha
  polled := hpolled

/-- The allocation decides the fate of the first frame waiting. -/
theorem rxInv_alloc (hinv : RxInv h s fates waiting busy) {count : ℤ}
    {ethData : Option (Fin rxDescrNum)} (hpc : s.pc = .alloc count ethData) {link alloc : Bool}
    (hfound : count = -1 → alloc = false) (hstep : networkTask s link alloc = (o, t)) :
    ∃ fates' waiting' busy', RxInv ((.cpu link alloc, o) :: h) t fates' waiting' busy' := by
  have hinv' := hinv.pc
  rw [hpc] at hinv'
  obtain ⟨rfl, f, rest, rfl, hf⟩ := hinv'
  have hcell : cells s s.rxCurrdescnum = some f := by
    rw [hinv.ring.head]
    rfl
  have hhanded := hinv.handed
  rw [hpc] at hhanded
  simp only [Pc.inFlight, List.append_nil] at hhanded
  rw [networkTask, hpc] at hstep
  rcases hf with ⟨hv, rfl, rfl⟩ | ⟨hv, rfl, rfl⟩
  · -- a valid frame: its descriptor still holds it when the packet is copied
    have hframe : (⟨(f.length : ℤ).toNat, s.buffer s.rxCurrdescnum⟩ : Frame F) = f := by
      rw [(cells_eq_some hcell).2]
      rfl
    cases alloc with
    | true =>
      simp only [if_true, pbufTake, hframe, Prod.mk.injEq] at hstep
      obtain ⟨rfl, rfl⟩ := hstep
      refine ⟨_, _, _, rxInv_fate hinv .taken (by simp [hv]) rfl ?_ ?_ hinv.polled⟩
      · simp [RxOut.pbufOut, Pc.inFlight, hhanded, ofFate_append_self]
      · simpa [RxOut.frameRefused, ofFate_append_of_ne] using hinv.refused
    | false =>
      simp only [Bool.false_eq_true, if_false, hframe, Prod.mk.injEq] at hstep
      obtain ⟨rfl, rfl⟩ := hstep
      refine ⟨_, _, _, rxInv_fate hinv .dropped (by simp [hv]) rfl ?_ ?_ hinv.polled⟩
      · simpa [RxOut.pbufOut, Pc.inFlight, ofFate_append_of_ne] using hhanded
      · simp [RxOut.frameRefused, hinv.refused, ofFate_append_self]
  · -- a bad one: there is no memory for it
    obtain rfl := hfound rfl
    simp only [Bool.false_eq_true, if_false, Prod.mk.injEq] at hstep
    obtain ⟨rfl, rfl⟩ := hstep
    refine ⟨_, _, _, rxInv_fate hinv .skipped (by simp [hv]) rfl ?_ ?_ hinv.polled⟩
    · simpa [RxOut.pbufOut, Pc.inFlight, ofFate_append_of_ne] using hhanded
    · simpa [RxOut.frameRefused, ofFate_append_of_ne] using hinv.refused

/-- Freeing the descriptor takes its frame out of the ring. -/
theorem rxInv_free (hinv : RxInv h s fates waiting busy) {p : Option (Pbuf F)}
    (hpc : s.pc = .free p) (e : RxEvent F) :
    RxInv ((e, .nothing) :: h) { emacFreePkt s with pc := .input p } fates waiting [] := by
  have hbusy := hinv.pc
  rw [hpc] at hbusy
  obtain ⟨f, rfl⟩ := hbusy
  have hring := hinv.ring.pop
  rw [← cells_emacFreePkt, ← nextDesc_eq] at hring
  refine ⟨?_, hring, ?_, rfl, ?_, ?_, hinv.valid, hinv.polled⟩
  · simpa [RxOut.frameIn] using hinv.delivered
  · show s.hw = place (nextDesc s.rxCurrdescnum) waiting.length
    rw [nextDesc_eq, ← place_succ]
    exact hinv.hw
  · have hhanded := hinv.handed
    rw [hpc] at hhanded
    cases p <;> simpa [RxOut.pbufOut, Pc.inFlight] using hhanded
  · simpa [RxOut.frameRefused] using hinv.refused

/-- Steps that only move the core. -/
theorem rxInv_move (hinv : RxInv h s fates waiting []) {e : RxEvent F} {pc : Pc F}
    (hpc : pc.Inv s.rxCurrdescnum waiting []) (hin : o.frameIn = none)
    (hrefused : o.frameRefused = none)
    (hhanded : o.pbufOut.toList ++ pc.inFlight = s.pc.inFlight)
    (hpolled : emptyPoll ((e, o) :: h) = emptyPoll h) :
    RxInv ((e, o) :: h) { s with pc := pc } fates waiting [] where
  delivered := by simpa [hin] using hinv.delivered
  ring := hinv.ring
  hw := hinv.hw
  pc := hpc
  handed := by
    rw [handed_cons, List.append_assoc, hhanded]
    exact hinv.handed
  refused := by simpa [hrefused] using hinv.refused
  valid := hinv.valid
  polled := by rw [hpolled, hinv.polled]

/-- **Every step keeps the invariant** under the guard. -/
theorem rxInv_step (hinv : RxInv h s fates waiting busy) {e : RxEvent F}
    (hok : Found s e) (hstep : rxStep s e = (o, t)) :
    ∃ fates' waiting' busy', RxInv ((e, o) :: h) t fates' waiting' busy' := by
  cases e with
  | deliver status data =>
    obtain ⟨waiting', hinv'⟩ := rxInv_deliver hinv hstep
    exact ⟨fates, waiting', busy, hinv'⟩
  | cpu link alloc =>
    rw [rxStep] at hstep
    have hbusy := hinv.pc
    cases hpc : s.pc with
    | idle =>
      rw [networkTask, hpc] at hstep
      rw [hpc] at hbusy
      obtain rfl : busy = [] := hbusy
      obtain ⟨rfl, rfl⟩ := Prod.mk.inj hstep
      refine ⟨_, _, _, rxInv_move hinv ?_ rfl rfl ?_ rfl⟩
      · cases link <;> rfl
      · rw [hpc]
        cases link <;> rfl
    | poll =>
      have hfound : has (s.status s.rxCurrdescnum) ownBit = false := by
        simpa [Found, hpc] using hok
      rw [networkTask, hpc] at hstep
      obtain ⟨rfl, rfl⟩ := Prod.mk.inj hstep
      exact ⟨_, _, _, rxInv_poll hinv hpc hfound _⟩
    | alloc count ethData =>
      exact rxInv_alloc hinv hpc (by simpa [Found, hpc] using hok) hstep
    | free p =>
      rw [networkTask, hpc] at hstep
      obtain ⟨rfl, rfl⟩ := Prod.mk.inj hstep
      exact ⟨_, _, _, rxInv_free hinv hpc _⟩
    | input p =>
      rw [hpc] at hbusy
      obtain rfl : busy = [] := hbusy
      cases p with
      | none =>
        rw [networkTask, hpc] at hstep
        obtain ⟨rfl, rfl⟩ := Prod.mk.inj hstep
        exact ⟨_, _, _, rxInv_move hinv rfl rfl rfl (by rw [hpc]; rfl) rfl⟩
      | some p =>
        rw [networkTask, hpc] at hstep
        obtain ⟨rfl, rfl⟩ := Prod.mk.inj hstep
        exact ⟨_, _, _, rxInv_move hinv rfl rfl rfl (by rw [hpc]; rfl) rfl⟩

end OneStep

/-! ### Every run -/

theorem rxOk_of_rxInv {h : List (RxEvent F × RxOut F)} {s : Rx F} {fates : List (Frame F × Fate)}
    {waiting busy : List (Frame F)} (hinv : RxInv h s fates waiting busy) : RxOk h s where
  subsequence := by
    have htaken : (handed h).Sublist ((ofFate fates .taken).map .packet) := by
      rw [← hinv.handed]
      exact List.sublist_append_left _ _
    have hdelivered : (ofFate fates .taken).Sublist (delivered h) := by
      rw [hinv.delivered]
      exact (ofFate_sublist fates .taken).trans (List.sublist_append_left _ _)
    exact htaken.trans (hdelivered.map _)
  fates := ⟨fates, waiting, busy, hinv.delivered, hinv.ring, hinv.pc.busy_le, hinv.handed,
    hinv.refused, hinv.valid⟩
  untouched hempty := by
    rw [hinv.polled] at hempty
    exact absurd hempty Bool.false_ne_true

theorem rxInv_of_found {buffer : Fin rxDescrNum → F} {h : List (RxEvent F × RxOut F)} {s : Rx F}
    (hr : Reach (fnStep rxStep) Found (Rx.init buffer) h s) :
    ∃ fates waiting busy, RxInv h s fates waiting busy := by
  refine hr.invariant (fun h s => ∃ fates waiting busy, RxInv h s fates waiting busy)
    ⟨[], [], [], rxInv_init buffer⟩ ?_
  rintro h s e o t ⟨fates, waiting, busy, hinv⟩ hok hstep
  exact rxInv_step hinv hok hstep

/-- **The receive path keeps the ring in step along every run** in which a poll always finds
a frame and no memory is found for a bad one. -/
theorem rxOk_of_found {buffer : Fin rxDescrNum → F} {h : List (RxEvent F × RxOut F)} {s : Rx F}
    (hr : Reach (fnStep rxStep) Found (Rx.init buffer) h s) : RxOk h s := by
  obtain ⟨fates, waiting, busy, hinv⟩ := rxInv_of_found hr
  exact rxOk_of_rxInv hinv

/-- A frame of 64 bytes is delivered, polled, copied, and handed over. -/
theorem rxOk_of_found_frame :
    let r := runFn rxStep [] (Rx.init fun _ => 0) [.deliver 0x400000#31 7, .cpu true true,
      .cpu true true, .cpu true true, .cpu true true, .cpu true true]
    RxOk r.1 r.2 ∧ handed r.1 = [.packet ⟨64, 7⟩] := by
  intro r
  have hreach : Reach (fnStep rxStep) Found (Rx.init fun _ => 0) r.1 r.2 :=
    reach_runFn ⟨trivial, trivial,
      (by decide : has (BitVec.setWidth 32 0x400000#31) ownBit = false),
      fun hbad => absurd hbad (by decide), trivial, trivial, trivial⟩
  exact ⟨rxOk_of_found hreach, by decide⟩

/-- **A poll of an empty ring passes over a descriptor**: no memory is found for the
`(u16) -1` bytes, and then the descriptor is freed and the index moves. -/
theorem not_rxOk_emptyPoll :
    let r := runFn rxStep [] (Rx.init fun _ => 0)
      [.cpu true false, .cpu true false, .cpu true false]
    Reach (fnStep rxStep) Always (Rx.init fun _ => 0) r.1 r.2 ∧ delivered r.1 = [] ∧
      (rxStep r.2 (.cpu true false)).2.rxCurrdescnum = 1 ∧ ¬RxOk r.1 r.2 := by
  intro r
  refine ⟨reach_runFn okAlong_always, by decide, by decide, fun hok => ?_⟩
  have hsame := (hok.untouched (by decide) true false _ _ rfl).1.1
  exact absurd hsame (by decide)

/-! ### The condition is exact -/

/-- After a poll that found nothing, memory for the bytes of no frame would be filled. -/
theorem not_rxOk_of_emptyPoll {h : List (RxEvent F × RxOut F)} {s : Rx F} (hpoll : emptyPoll h)
    {count : ℤ} (hpc : s.pc = .alloc count none) : ¬RxOk h s := by
  intro hok
  have hstep : networkTask s true true =
      (.took (.garbage (BitVec.ofInt 16 count)),
        { s with pc := .free (some (.garbage (BitVec.ofInt 16 count))) }) := by
    rw [networkTask, hpc]
    rfl
  exact (hok.untouched hpoll true true _ _ hstep).2 _ rfl

/-- A pbuf that was filled from no packet is on its way to lwIP. -/
theorem not_rxOk_of_garbage {h : List (RxEvent F × RxOut F)} {s : Rx F} {length : BitVec 16}
    (hpc : s.pc = .free (some (.garbage length))) : ¬RxOk h s := by
  intro hok
  obtain ⟨fates, waiting, busy, -, -, -, hhanded, -, -⟩ := hok.fates
  have hmem : (.garbage length : Pbuf F) ∈ (ofFate fates .taken).map .packet := by
    rw [← hhanded, hpc]
    simp [Pc.inFlight]
  simp at hmem

/-- **The first step that breaks the condition breaks the ring**: a poll of an empty ring,
or memory for the `(u16) -1` bytes of a bad frame. -/
theorem not_rxOk_of_not_found {buffer : Fin rxDescrNum → F} {h : List (RxEvent F × RxOut F)}
    {s : Rx F} (hr : Reach (fnStep rxStep) Found (Rx.init buffer) h s) {e : RxEvent F}
    (hbad : ¬Found s e) : ¬RxOk ((e, (rxStep s e).1) :: h) (rxStep s e).2 := by
  obtain ⟨fates, waiting, busy, hinv⟩ := rxInv_of_found hr
  cases e with
  | deliver status data => exact absurd trivial hbad
  | cpu link alloc =>
    cases hpc : s.pc with
    | poll =>
      have hown : has (s.status s.rxCurrdescnum) ownBit = true := by
        simpa [Found, hpc] using hbad
      have hrecv : emacEthRecv s = (-1, none) := by simp [emacEthRecv, hown]
      have hstep : rxStep s (.cpu link alloc) =
          (.polled false, { s with pc := .alloc (-1) none }) := by
        simp [rxStep, networkTask, hpc, hrecv, hown]
      rw [hstep]
      exact not_rxOk_of_emptyPoll rfl rfl
    | alloc count ethData =>
      obtain ⟨rfl, rfl⟩ : count = -1 ∧ alloc = true := by simpa [Found, hpc] using hbad
      have hpcInv := hinv.pc
      rw [hpc] at hpcInv
      obtain ⟨-, f, rest, -, ⟨-, hcount, -⟩ | ⟨-, -, rfl⟩⟩ := hpcInv
      · omega
      · have hstep : (rxStep s (.cpu link true)).2 =
            { s with pc := .free (some (.garbage (BitVec.ofInt 16 (-1)))) } := by
          simp [rxStep, networkTask, hpc, pbufTake]
        rw [hstep]
        exact not_rxOk_of_garbage rfl
    | idle => exact absurd (by simp [Found, hpc]) hbad
    | free p => exact absurd (by simp [Found, hpc]) hbad
    | input p => exact absurd (by simp [Found, hpc]) hbad

end Net

end BareMetal
