import BareMetal.Gdb.Bounds

/-!
# The checksum of a packet

Behind the `#` of a packet come two digits that spell the sum of its bytes. The stub compares
them, answers `+` or `-`, and then handles the command in either case: the answer is all that
comes of the comparison.

What is wanted (`BareMetal.Gdb.Monitor.Frame.Honoured`) is that a packet with a wrong sum is
answered with `-` and does nothing, and that one with the right sum is answered with `+` and
handled. No packet with a wrong sum is treated like that
(`BareMetal.Gdb.Monitor.Frame.Honoured.spelt`): a handler says something or sets `running`, and
two states that differ in `running` alone tell the latter. With the right sum it is as it should
be if the second digit is no capital, the packet fits the buffer, and it does not end in the
middle of an escape (`BareMetal.Gdb.Monitor.honoured_iff`).
-/

namespace BareMetal

namespace Gdb

namespace Monitor

/-! ### Frames -/

/-- A packet as it comes on the line behind its `$`: some bytes, and two characters behind the
`#`. -/
structure Frame where
  body : List Byte
  noHash : ch '#' ∉ body
  high : Byte
  low : Byte

/-- The bytes on the line. -/
def Frame.bytes (p : Frame) : List Byte := p.body ++ [ch '#', p.high, p.low]

/-- **The checksum is right**: the two characters are digits, of either case, that spell the sum
of the bytes. -/
structure Frame.Spelt (p : Frame) : Prop where
  high : isHex p.high = true
  low : isHex p.low = true
  sum : spelled [p.high, p.low] = (p.body.map BitVec.toNat).sum % 256

/-- **The checksum is honoured**, whatever has come on the line before. With the right one the
answer is `+`, and the command that is handled is the packet without its escapes; with a wrong
one the answer is `-`, nothing else is sent, and memory, registers, breakpoints and `running`
stay as they are. -/
def Frame.Honoured (p : Frame) : Prop :=
  ∀ mem regs h s, Reach ioStep Always (Stub.init mem regs) h s → ∀ line, Comes line 0 p.bytes →
    (p.Spelt → ∃ cmd b, unescaped (p.body ++ [0#8]) = some cmd ∧
      accept s line = .ok (ch '+', { s with cmdBuf := cmd ++ 0#8 :: b }) ∧
      gdbstubHandle s line = answered (ch '+') (dispatch { s with cmdBuf := cmd ++ 0#8 :: b })) ∧
    (¬p.Spelt → ∃ t, gdbstubHandle s line = .ok ([ch '-'], t) ∧ t.mem = s.mem ∧ t.regs = s.regs ∧
      t.breakpoints = s.breakpoints ∧ t.running = s.running)

/-! ### The sum -/

theorem toNat_foldl_add (bs : List Byte) (c : Byte) :
    (bs.foldl (· + ·) c).toNat = (c.toNat + (bs.map BitVec.toNat).sum) % 256 := by
  induction bs generalizing c with
  | nil =>
    have := c.isLt
    simp only [List.foldl_nil, List.map_nil, List.sum_nil]
    omega
  | cons b bs ih =>
    rw [List.foldl_cons, ih, BitVec.toNat_add, List.map_cons, List.sum_cons]
    omega

/-- **What is read of the checksum**: a capital is harmless in front, where its error is a multiple
of 256, but not behind. -/
theorem readCsum_eq_iff {a b : Byte} (ha : isHex a = true) (hb : isHex b = true) :
    (readCsum a b).toNat = spelled [a, b] ↔ ¬IsCapital b := by
  have hx := digitVal_lt a ha
  have hy := digitVal_lt b hb
  have hcap : (decide (IsCapital b)).toNat = 0 ↔ ¬IsCapital b := by simp
  have hle := Bool.toNat_le (decide (IsCapital b))
  rw [readCsum, BitVec.toNat_add, BitVec.toNat_mul, toNat_hexNibbleVal a ha, toNat_hexNibbleVal b hb,
    spelled_two, BitVec.toNat_ofNat, ← hcap]
  omega

theorem ack_of_spelt {p : Frame} (hp : p.Spelt) :
    ackPacket (readCsum p.high p.low == p.body.foldl (· + ·) 0#8) = ch '+' ↔ ¬IsCapital p.low := by
  have hsum := toNat_foldl_add p.body 0#8
  rw [BitVec.toNat_ofNat, Nat.zero_mod, Nat.zero_add, ← hp.sum] at hsum
  rw [← readCsum_eq_iff hp.high hp.low, ← hsum, BitVec.toNat_inj]
  by_cases heq : readCsum p.high p.low = p.body.foldl (· + ·) 0#8
  · simp [heq, ackPacket]
  · simp only [heq, iff_false, ackPacket, beq_eq_false_iff_ne.mpr heq]
    decide

/-! ### Commands that say nothing -/

/-- A handler that goes well sends something. -/
def Speaks (r : Handled) : Prop := ∀ out t, r = .ok (out, t) → out ≠ []

theorem speaks_respond (s : Stub) (msg : List Byte) : Speaks (respond s msg) := by
  rintro out t h
  obtain ⟨rfl, -⟩ := Prod.mk.inj (Except.ok.inj h)
  exact List.cons_ne_nil _ _

theorem speaks_error (e : Fault) : Speaks (.error e) := fun _ _ h => by cases h

theorem speaks_bind {α : Type} (x : Except Fault α) {f : α → Handled} (hf : ∀ a, Speaks (f a)) :
    Speaks (x.bind f) := by
  cases x with
  | error e => exact speaks_error e
  | ok a => exact hf a

section Silent

variable {s t : Stub}

theorem readRegs_speaks (s : Stub) : Speaks (readRegs s) :=
  speaks_bind _ fun _ => speaks_bind _ fun _ => speaks_respond _ _

theorem writeRegs_speaks (s : Stub) : Speaks (writeRegs s) := by
  refine speaks_bind _ fun n => ?_
  split
  · exact speaks_respond _ _
  · exact speaks_bind _ fun _ => speaks_bind _ fun _ => speaks_respond _ _

theorem gdbReadMem_speaks (s : Stub) : Speaks (gdbReadMem s) := by
  refine speaks_bind _ fun r => ?_
  obtain ⟨addr, next⟩ := r
  cases next with
  | nil => exact speaks_error _
  | cons c p =>
    dsimp only
    split
    · exact speaks_respond _ _
    · exact speaks_bind _ fun _ => speaks_bind _ fun _ => speaks_bind _ fun _ => speaks_respond _ _

theorem gdbWriteMem_speaks (s : Stub) : Speaks (gdbWriteMem s) := by
  refine speaks_bind _ fun r => ?_
  cases r with
  | none => exact speaks_respond _ _
  | some r =>
    refine speaks_bind _ fun mem => ?_
    cases mem with
    | none => exact speaks_respond _ _
    | some mem => exact speaks_respond _ _

theorem bkptOp_speaks (s : Stub) (op : Stub → BitVec 32 → Except Fault (Bool × Stub)) :
    Speaks (bkptOp s op) := by
  refine speaks_bind _ fun r => ?_
  cases r with
  | none => exact speaks_respond _ _
  | some r => exact speaks_bind _ fun _ => speaks_respond _ _

/-- `do_continue` says nothing if it sets `running`, to what the text of the command tells. -/
theorem doContinue_silent (h : doContinue s = .ok ([], t)) :
    ∃ run, ∀ s' : Stub, s'.cmdBuf = s.cmdBuf →
      doContinue s' = .ok ([], { s' with running := run }) := by
  have hspeaks := speaks_respond s []
  rw [doContinue] at h
  cases hchr : strchr (ch ';') s.cmdBuf with
  | error e =>
    rw [hchr] at h
    cases h
  | ok r =>
    rw [hchr] at h
    cases r with
    | none => exact absurd rfl (hspeaks _ _ h)
    | some p =>
      simp only [bind, Except.bind] at h
      cases hp : p.drop 1 with
      | nil =>
        rw [hp] at h
        cases h
      | cons c q =>
        rw [hp] at h
        dsimp only at h
        split at h
        · rename_i hc
          refine ⟨true, fun s' hs' => ?_⟩
          simp only [doContinue, hs', hchr, bind, Except.bind, hp, if_pos hc]
          rfl
        · rename_i hc
          split at h
          · rename_i ht
            refine ⟨false, fun s' hs' => ?_⟩
            simp only [doContinue, hs', hchr, bind, Except.bind, hp, if_neg hc, if_pos ht]
            rfl
          · exact absurd rfl (hspeaks _ _ h)

/-- Every handler but one says something. -/
theorem handle_speaks {h : CmdHandler} (hne : h ≠ .doContinue) (s : Stub) :
    Speaks (CmdHandler.handle h s) := by
  cases h with
  | doContinue => exact absurd rfl hne
  | qsupported => exact speaks_respond _ _
  | stopStatus => exact speaks_respond _ _
  | readRegs => exact readRegs_speaks s
  | writeRegs => exact writeRegs_speaks s
  | gdbReadMem => exact gdbReadMem_speaks s
  | gdbWriteMem => exact gdbWriteMem_speaks s
  | removeBkpt => exact bkptOp_speaks s delBkpt
  | insertBkpt => exact bkptOp_speaks s addBkpt
  | vcontQuery => exact speaks_respond _ _
  | qattached => exact speaks_respond _ _
  | detach => exact speaks_respond _ _

/-- **A command that says nothing sets `running`**, to what its text tells. -/
theorem dispatch_silent (h : dispatch s = .ok ([], t)) :
    ∃ run, ∀ s' : Stub, s'.cmdBuf = s.cmdBuf →
      dispatch s' = .ok ([], { s' with running := run }) := by
  cases hlook : lookupCmdhandler s.cmdBuf with
  | error e =>
    simp only [dispatch, hlook, bind, Except.bind] at h
    cases h
  | ok r =>
    simp only [dispatch, hlook, bind, Except.bind] at h
    cases r with
    | none => exact absurd rfl (speaks_respond s [] _ _ h)
    | some hd =>
      by_cases hcont : hd = .doContinue
      · subst hcont
        obtain ⟨run, hrun⟩ := doContinue_silent h
        refine ⟨run, fun s' hs' => ?_⟩
        have hlook' : lookupCmdhandler s'.cmdBuf = .ok (some .doContinue) := hs' ▸ hlook
        simp only [dispatch, hlook', bind, Except.bind]
        exact hrun s' hs'
      · exact absurd rfl (handle_speaks hcont s _ _ h)

end Silent

/-! ### When a checksum is honoured -/

/-- The stub after `D`, which sets `running`. -/
def runningStub : Stub := { blankStub.holding (lit "D") (lit "D") with running := true }

theorem reach_runningStub :
    ∃ h, Reach ioStep Always (Stub.init (fun _ => 0#8) fun _ => 0#32) h runningStub := by
  have hs : BufOk blankStub.cmdBuf := bufOk_init _ _
  have hout : unescaped (blankStub.received (lit "D")) = some (lit "D") :=
    unescaped_text (by decide) (by decide) _
  have hcomes : Comes (lineOf (lit "D#44")) 0 (lit "D" ++ [ch '#']) := ⟨rfl, rfl, trivial⟩
  have hhandle := gdbstubHandle_eq hs (by decide) (by decide) hcomes
  rw [hout] at hhandle
  have hstep : ioStep blankStub (ch '$', lineOf (lit "D#44"))
      (ch '+' :: sendResponse (lit "OK")) runningStub := hhandle
  exact ⟨_, .next .start trivial hstep⟩

/-- What is behind a packet is the same in the two states. -/
theorem received_runningStub (body : List Byte) :
    runningStub.received body = blankStub.received body := by
  have hrun : runningStub.cmdBuf = ch 'D' :: 0#8 :: (List.replicate 512 0#8).drop 2 := rfl
  have hblank : blankStub.cmdBuf = List.replicate 512 0#8 := rfl
  rw [Stub.received, Stub.received, hrun, hblank, List.drop_succ_cons, List.drop_replicate,
    ← List.replicate_succ, List.drop_replicate, List.drop_replicate]
  congr 3
  omega

section Honoured

variable {p : Frame}

theorem Frame.comes_hash {line : ℕ → Byte} (h : Comes line 0 p.bytes) :
    Comes line 0 (p.body ++ [ch '#']) ∧ line (p.body.length + 1) = p.high ∧
      line (p.body.length + 2) = p.low := by
  rw [Frame.bytes, comes_append, Nat.zero_add] at h
  obtain ⟨hbody, hhash, hhigh, hlow, -⟩ := h
  exact ⟨comes_append.mpr ⟨hbody, by rw [Nat.zero_add]; exact ⟨hhash, trivial⟩⟩, hhigh, hlow⟩

theorem unescaped_received {cmd : List Byte} (hcmd : unescaped (p.body ++ [0#8]) = some cmd)
    (s : Stub) : unescaped (s.received p.body) = some cmd := by
  have happend := unescaped_append hcmd (s.cmdBuf.drop (p.body.length + 1))
  rwa [List.append_assoc] at happend

/-- A packet to which one character is sent was handled, and the handler said nothing. -/
theorem dispatch_of_single {s t : Stub} (hs : BufOk s.cmdBuf) {line : ℕ → Byte}
    (hcomes : Comes line 0 p.bytes) {c : Byte} (hhandle : gdbstubHandle s line = .ok ([c], t)) :
    ∃ out, unescaped (s.received p.body) = some out ∧
      dispatch (s.holding p.body out) = .ok ([], t) := by
  by_cases hlen : p.body.length ≤ 511
  · rw [gdbstubHandle_eq hs p.noHash hlen (Frame.comes_hash hcomes).1] at hhandle
    cases hout : unescaped (s.received p.body) with
    | none =>
      rw [hout] at hhandle
      cases hhandle
    | some out =>
      rw [hout] at hhandle
      dsimp only at hhandle
      refine ⟨out, rfl, ?_⟩
      cases hd : dispatch (s.holding p.body out) with
      | error e =>
        rw [hd] at hhandle
        cases hhandle
      | ok r =>
        rw [hd] at hhandle
        obtain ⟨hsent, ht⟩ := Prod.mk.inj (Except.ok.inj hhandle)
        rw [← (List.cons.inj hsent).2, ← ht]
  · have hbody := (comes_append.mp hcomes).1
    rw [gdbstubHandle_eq_accept, accept_error hs.length_eq p.noHash (by omega) hbody] at hhandle
    cases hhandle

/-- **No packet with a wrong checksum is dropped.** -/
theorem Frame.Honoured.spelt (h : p.Honoured) : p.Spelt := by
  by_contra hnot
  have hcomes : Comes (lineOf p.bytes) 0 p.bytes := comes_lineOf [] p.bytes
  obtain ⟨hist, hreach⟩ := reach_runningStub
  have hstart : Reach ioStep Always (Stub.init (fun _ => 0#8) fun _ => 0#32) [] blankStub := .start
  obtain ⟨t₀, hhandle₀, -, -, -, hrun₀⟩ := (h _ _ _ _ hstart _ hcomes).2 hnot
  obtain ⟨t₁, hhandle₁, -, -, -, hrun₁⟩ := (h _ _ _ _ hreach _ hcomes).2 hnot
  obtain ⟨out₀, hout₀, hd₀⟩ := dispatch_of_single (bufOk_of_reach hstart) hcomes hhandle₀
  obtain ⟨out₁, hout₁, hd₁⟩ := dispatch_of_single (bufOk_of_reach hreach) hcomes hhandle₁
  -- the command is the same in both states, and says what `running` becomes
  have hreceived := received_runningStub p.body
  rw [hreceived, hout₀] at hout₁
  obtain rfl := Option.some.inj hout₁
  obtain ⟨run, hrun⟩ := dispatch_silent hd₀
  have hsame : (runningStub.holding p.body out₀).cmdBuf = (blankStub.holding p.body out₀).cmdBuf := by
    simp only [Stub.holding, hreceived]
  have ht₀ := (Prod.mk.inj (Except.ok.inj (hd₀.symm.trans (hrun _ rfl)))).2
  have ht₁ := (Prod.mk.inj (Except.ok.inj (hd₁.symm.trans (hrun _ hsame)))).2
  rw [ht₀] at hrun₀
  rw [ht₁] at hrun₁
  have hcon : false = true := hrun₀.symm.trans hrun₁
  exact absurd hcon Bool.false_ne_true

/-- One with the right checksum that is answered with `+` and handled has a second digit that is no
capital, fits the buffer, and has its escapes complete. -/
theorem Frame.Honoured.complete (h : p.Honoured) (hp : p.Spelt) :
    ¬IsCapital p.low ∧ p.body.length ≤ 511 ∧ ∃ cmd, unescaped (p.body ++ [0#8]) = some cmd := by
  have hcomes : Comes (lineOf p.bytes) 0 p.bytes := comes_lineOf [] p.bytes
  have hs : BufOk blankStub.cmdBuf := bufOk_init _ _
  obtain ⟨cmd, b, hcmd, haccept, -⟩ := (h _ _ [] blankStub .start _ hcomes).1 hp
  have hlen : p.body.length ≤ 511 := by
    by_contra hlong
    rw [accept_error hs.length_eq p.noHash (by omega) (comes_append.mp hcomes).1] at haccept
    cases haccept
  obtain ⟨hhash, hhigh, hlow⟩ := Frame.comes_hash hcomes
  rw [accept_eq hs.length_eq p.noHash hlen hhash, unescaped_received hcmd, hhigh, hlow] at haccept
  have hack := (Prod.mk.inj (Except.ok.inj haccept)).1
  exact ⟨(ack_of_spelt hp).mp hack, hlen, cmd, hcmd⟩

/-- Conversely, such a packet is answered with `+` and handled. -/
theorem honoured_of_complete (hp : p.Spelt) (hlow : ¬IsCapital p.low) (hlen : p.body.length ≤ 511)
    {cmd : List Byte} (hcmd : unescaped (p.body ++ [0#8]) = some cmd) : p.Honoured := by
  intro mem regs h s hr line hcomes
  refine ⟨fun _ => ?_, fun hnot => absurd hp hnot⟩
  obtain ⟨hhash, hhigh, hlow'⟩ := Frame.comes_hash hcomes
  have hs := bufOk_of_reach hr
  have haccept := accept_eq hs.length_eq p.noHash hlen hhash
  rw [unescaped_received hcmd, hhigh, hlow'] at haccept
  dsimp only at haccept
  rw [(ack_of_spelt hp).mpr hlow] at haccept
  refine ⟨cmd, _, hcmd, haccept, ?_⟩
  rw [gdbstubHandle_eq_accept, haccept]
  rfl

end Honoured

/-- **When a checksum is honoured**: it has to be right, with a second digit that is no capital, and
the packet has to fit the buffer and to end outside an escape. -/
theorem honoured_iff (p : Frame) :
    p.Honoured ↔ p.Spelt ∧ ¬IsCapital p.low ∧ p.body.length ≤ 511 ∧
      ∃ cmd, unescaped (p.body ++ [0#8]) = some cmd := by
  constructor
  · intro h
    exact ⟨h.spelt, h.complete h.spelt⟩
  · rintro ⟨hp, hlow, hlen, cmd, hcmd⟩
    exact honoured_of_complete hp hlow hlen hcmd

/-- The packet `D`, with a wrong checksum. -/
def corruptDetach : Frame := ⟨lit "D", by decide, ch '0', ch '0'⟩

/-- **A corrupted packet is carried out.** The sum of `D` is 44, it comes with 00, and the answer is
`-`; but then `OK` is sent, and the program runs. -/
theorem not_honoured_corruptDetach :
    gdbstubHandle blankStub (lineOf corruptDetach.bytes) =
      .ok (ch '-' :: sendResponse (lit "OK"), runningStub) ∧
    runningStub.running ≠ blankStub.running ∧ ¬corruptDetach.Honoured := by
  have hs : BufOk blankStub.cmdBuf := bufOk_init _ _
  have hcomes : Comes (lineOf corruptDetach.bytes) 0 corruptDetach.bytes := comes_lineOf [] _
  have hout : unescaped (blankStub.received (lit "D")) = some (lit "D") :=
    unescaped_text (by decide) (by decide) _
  have hhandle := gdbstubHandle_eq hs corruptDetach.noHash (by decide) (Frame.comes_hash hcomes).1
  refine ⟨?_, by decide, fun h => ?_⟩
  · rw [hhandle, show corruptDetach.body = lit "D" from rfl, hout]
    rfl
  · have hsum := h.spelt.sum
    exact absurd hsum (by decide)

end Monitor

end Gdb

end BareMetal
