import BareMetal.Usb.Bulk

/-!
# What becomes of a sector transfer

Each of the three phases of a command may succeed, stall or fail, the drive may say in its
status block that it could not do what it was told, or it may be unplugged while the call
waits. The history of the events says which (`BareMetal.Usb.ended`, `BareMetal.Usb.Failed`), and
`BareMetal.Usb.BulkOk` compares it with what the call returns.

* If every transfer succeeds, the device answers after it has been asked, and it stays plugged
  in, then a call that returns `RES_OK` has done what it was asked for, and it returns as soon
  as it has (`BareMetal.Usb.bulkOk_of_clean`). The invariant is a ledger: each phase has still
  to be requested, hangs on an endpoint, or has ended well.
* A failure is never reported: a call that has failed says `RES_OK` or goes on waiting
  (`BareMetal.Usb.not_bulkOk_of_failed`). It says `RES_OK` when the input endpoint has halted
  (`BareMetal.Usb.poll_of_halted`) or the drive is gone (`BareMetal.Usb.poll_of_unplugged`), and
  waits for good when the command does not reach the device
  (`BareMetal.Usb.poll_of_unanswered`).
* A halted endpoint stays halted, with its queue marked as empty: the *next* call says `RES_OK`
  without a single transfer (`BareMetal.Usb.not_bulkOk_stalled`).
-/

namespace BareMetal

namespace Usb

open FatFs (DResult)

/-! ### What a history says of the call in progress -/

/-- The phase a descriptor was queued for, in the call in progress. -/
def phaseOf : List (BulkEvent × BulkOut) → Fin 10 → Option Phase
  | [], _ => none
  | (_, .begun) :: _, _ => none
  | (_, .queued ph k') :: h, k => if k = k' then some ph else phaseOf h k
  | _ :: h, k => phaseOf h k

/-- A phase has gone well: no error, and for the status phase `MSC_CSW_STATUS_PASSED`. -/
def Phase.good (ph : Phase) (cc : BitVec 4) (status : BitVec 8) : Bool :=
  cc = ccodeNoError ∧ (ph = .status → status = 0#8)

/-- Whether a phase of the call in progress has ended, and if so, whether well. -/
def ended : List (BulkEvent × BulkOut) → Phase → Option Bool
  | [], _ => none
  | (_, .begun) :: _, _ => none
  | (.complete _ cc status, .retired k) :: h, ph =>
      if phaseOf h k = some ph then some (ph.good cc status) else ended h ph
  | _ :: h, ph => ended h ph

/-- A phase of the call in progress has failed. -/
def Lost (h : List (BulkEvent × BulkOut)) : Prop := ∃ ph, ended h ph = some false

/-- **The call in progress has failed**, and the driver has been told: a phase has failed and
an interrupt has been handled since, or the drive has been taken away. -/
def Failed : List (BulkEvent × BulkOut) → Prop
  | [] => False
  | (_, .begun) :: _ => False
  | (_, .closed) :: _ => True
  | (_, .handled _) :: h => Failed h ∨ Lost h
  | _ :: h => Failed h

/-- **What became of a transfer is reported**: a call returns `RES_OK` only if all three phases
have gone well, and goes on waiting only while it is open how they go. -/
def BulkOk : List (BulkEvent × BulkOut) → Prop
  | [] => True
  | (_, o) :: h => BulkOk h ∧ (o = .returned .ok → ∀ ph, ended h ph = some true) ∧
      (o = .busy → ¬Failed h ∧ ∃ ph, ended h ph ≠ some true)

/-- **A clean step**: a call has a buffer and finds its pipes idle; the transfers on the pipes
succeed; the device answers only when it has taken everything that was sent to it, and what it
puts into the status block is that the command has passed; it is not unplugged in a call. -/
def Clean (s : BulkSys) : BulkEvent → Prop
  | .call _ _ buff _ _ =>
      buff ≠ 0#32 ∧ (s.ed s.msch.bulkIn).queue = [] ∧ (s.ed s.msch.bulkOut).queue = []
  | .complete p cc status =>
      (p = s.msch.bulkIn ∨ p = s.msch.bulkOut → cc = ccodeNoError) ∧
        (p = s.msch.bulkIn → (s.ed s.msch.bulkOut).queue = [] ∧ status = 0#8)
  | .unplug => s.call = none
  | _ => True

/-! ### A call in progress -/

/-- A descriptor hangs on one of the two pipes. -/
def OnPipes (s : BulkSys) (k : Fin 10) : Prop :=
  k ∈ (s.ed s.msch.bulkIn).queue ∨ k ∈ (s.ed s.msch.bulkOut).queue

/-- The requests a call has still to make: each for a pipe with room for it, each for another
phase, and the last one for input. -/
structure Asks (s : BulkSys) (rs : List Request) : Prop where
  pipes : ∀ r ∈ rs, r.pipe = s.msch.bulkIn ∨ r.pipe = s.msch.bulkOut
  room : ∀ r ∈ rs, (s.ed r.pipe).queue.length + (rs.filter (·.pipe = r.pipe)).length ≤ 2
  statusIn : ∀ r ∈ rs, r.phase = .status → r.pipe = s.msch.bulkIn
  last : ∀ r, rs.getLast? = some r → r.pipe = s.msch.bulkIn
  nodup : (rs.map Request.phase).Nodup

/-- **The three phases of a call**: each has still to be requested, hangs on a pipe, or has
ended well, and only one of these. -/
structure Ledger (h : List (BulkEvent × BulkOut)) (s : BulkSys) (rs : List Request) : Prop where
  place : ∀ ph, (∃ r ∈ rs, r.phase = ph) ∨ (∃ k, OnPipes s k ∧ phaseOf h k = some ph) ∨
    ended h ph = some true
  asked : ∀ r ∈ rs, ended h r.phase = none ∧ ∀ k, OnPipes s k → phaseOf h k ≠ some r.phase
  hanging : ∀ k ph, OnPipes s k → phaseOf h k = some ph → ended h ph = none
  unique : ∀ k k' ph, OnPipes s k → OnPipes s k' → phaseOf h k = some ph →
    phaseOf h k' = some ph → k = k'
  known : ∀ k, OnPipes s k → ∃ ph, phaseOf h k = some ph
  own : ∀ p k, k ∈ (s.ed p).queue → ∀ ph, phaseOf h k = some ph → OnPipes s k
  statusIn : ∀ k ∈ (s.ed s.msch.bulkOut).queue, phaseOf h k ≠ some .status

/-- A clean call in progress. Once its requests are made, the device does not answer the last
one before it has taken everything. -/
structure InCall (h : List (BulkEvent × BulkOut)) (s : BulkSys) (rs : List Request) : Prop where
  mounted : s.isInitialized = true
  asks : Asks s rs
  ledger : Ledger h s rs
  answered : rs = [] → (s.ed s.msch.bulkIn).queue = [] → (s.ed s.msch.bulkOut).queue = []
  notFailed : ¬Failed h

section Call

variable {h : List (BulkEvent × BulkOut)} {s : BulkSys} {rs : List Request}

/-- No phase has failed. -/
theorem Ledger.not_lost (hl : Ledger h s rs) : ¬Lost h := by
  rintro ⟨ph, hph⟩
  rcases hl.place ph with ⟨r, hr, rfl⟩ | ⟨k, hk, hphase⟩ | hgood
  · simp [(hl.asked r hr).1] at hph
  · simp [hl.hanging k ph hk hphase] at hph
  · simp [hgood] at hph

/-- **What a call is about does not change** in an event that neither queues a descriptor nor
hands one back. -/
theorem InCall.frame (hc : InCall h s rs) {h' : List (BulkEvent × BulkOut)} {s' : BulkSys}
    (hphase : phaseOf h' = phaseOf h) (hended : ended h' = ended h)
    (hfailed : Failed h' → Failed h ∨ Lost h) (hmsch : s'.msch = s.msch)
    (hinit : s'.isInitialized = s.isInitialized)
    (hqueue : ∀ p, (s'.ed p).queue = (s.ed p).queue) : InCall h' s' rs := by
  have hon : ∀ k, OnPipes s' k ↔ OnPipes s k := by
    intro k
    simp only [OnPipes, hmsch, hqueue]
  obtain ⟨hmounted, hasks, hl, hanswered, hnot⟩ := hc
  refine ⟨hinit.trans hmounted, ⟨?_, ?_, ?_, ?_, hasks.nodup⟩, ⟨?_, ?_, ?_, ?_, ?_, ?_, ?_⟩, ?_, ?_⟩
  · rw [hmsch]
    exact hasks.pipes
  · simp only [hqueue]
    exact hasks.room
  · rw [hmsch]
    exact hasks.statusIn
  · rw [hmsch]
    exact hasks.last
  · simp only [hon, hphase, hended]
    exact hl.place
  · simp only [hon, hphase, hended]
    exact hl.asked
  · simp only [hon, hphase, hended]
    exact hl.hanging
  · simp only [hon, hphase]
    exact hl.unique
  · simp only [hon, hphase]
    exact hl.known
  · simp only [hqueue, hon, hphase]
    exact hl.own
  · simp only [hqueue, hmsch, hphase]
    exact hl.statusIn
  · simp only [hqueue, hmsch]
    exact hanswered
  · exact fun hf => (hfailed hf).elim hnot hl.not_lost

/-- The requests of a command with a buffer. -/
theorem mschRequests_cases (m : MschInterface) {buffer : BitVec 32} (hbuf : buffer ≠ 0#32) :
    ∃ b₁ b₂ b₃ n₁ n₂ n₃ i₁ i₂ i₃, ∃ p, (p = m.bulkIn ∨ p = m.bulkOut) ∧
      mschRequests m buffer = [⟨.command, m.bulkOut, b₁, n₁, i₁⟩, ⟨.data, p, b₂, n₂, i₂⟩,
        ⟨.status, m.bulkIn, b₃, n₃, i₃⟩] := by
  rw [mschRequests, if_pos hbuf]
  split
  · exact ⟨_, _, _, _, _, _, _, _, _, _, Or.inl rfl, rfl⟩
  · exact ⟨_, _, _, _, _, _, _, _, _, _, Or.inr rfl, rfl⟩

/-- **A call that finds its pipes idle** begins. -/
theorem InCall.begin (hinit : s.isInitialized = true) (hd : DriveOk s)
    (hin : (s.ed s.msch.bulkIn).queue = []) (hout : (s.ed s.msch.bulkOut).queue = [])
    (e : BulkEvent) (cbw : Cbw) {buff : BitVec 32} (hbuf : buff ≠ 0#32) :
    InCall ((e, .begun) :: h) (s.begun cbw buff)
      (mschRequests { s.msch with cbw := cbw } buff) := by
  have hne := (hd.input hinit).ne
  have hphase : ∀ k, phaseOf ((e, .begun) :: h) k = none := fun k => rfl
  have hended : ∀ ph, ended ((e, .begun) :: h) ph = none := fun ph => by cases e <;> rfl
  have hoff : ∀ k, ¬OnPipes (s.begun cbw buff) k := by
    intro k
    simp [OnPipes, BulkSys.begun, hin, hout]
  obtain ⟨b₁, b₂, b₃, n₁, n₂, n₃, i₁, i₂, i₃, p, hp, hreq⟩ :=
    mschRequests_cases { s.msch with cbw := cbw } hbuf
  rw [hreq]
  refine ⟨hinit, ⟨?_, ?_, ?_, ?_, ?_⟩, ⟨?_, ?_, ?_, ?_, ?_, ?_, ?_⟩, by simp, fun hf => hf⟩
  · rintro r hr
    simp only [List.mem_cons, List.not_mem_nil, or_false] at hr
    rcases hr with rfl | rfl | rfl
    · exact Or.inr rfl
    · exact hp
    · exact Or.inl rfl
  · intro r hr
    simp only [List.mem_cons, List.not_mem_nil, or_false] at hr
    rcases hp with rfl | rfl
    · rcases hr with rfl | rfl | rfl <;>
        simp [BulkSys.begun, hin, hout, hne, hne.symm]
    · rcases hr with rfl | rfl | rfl <;>
        simp [BulkSys.begun, hin, hout, hne, hne.symm]
  · rintro r hr
    simp only [List.mem_cons, List.not_mem_nil, or_false] at hr
    rcases hr with rfl | rfl | rfl <;> simp [BulkSys.begun]
  · rintro r hr
    obtain rfl := Option.some.inj hr
    rfl
  · simp
  · intro ph
    left
    cases ph <;> simp
  · exact fun r _ => ⟨hended _, fun k hk => absurd hk (hoff k)⟩
  · exact fun k _ hk => absurd hk (hoff k)
  · exact fun k _ _ hk => absurd hk (hoff k)
  · exact fun k hk => absurd hk (hoff k)
  · exact fun p k _ ph hph => by simp [hphase k] at hph
  · exact fun k _ => by simp [hphase k]

/-! #### A request -/

section Queued

variable {r : Request} {k : Fin 10}

theorem onPipes_queued (hr : r.pipe = s.msch.bulkIn ∨ r.pipe = s.msch.bulkOut)
    (hroom : (s.ed r.pipe).queue.length ≤ 1) (j : Fin 10) :
    OnPipes (s.queued r rs k) j ↔ OnPipes s j ∨ j = k := by
  have hin := mem_queued hroom rs k j s.msch.bulkIn
  have hout := mem_queued hroom rs k j s.msch.bulkOut
  constructor
  · rintro (hj | hj)
    · exact (hin.mp hj).imp Or.inl And.right
    · exact (hout.mp hj).imp Or.inr And.right
  · rintro ((hj | hj) | rfl)
    · exact Or.inl (hin.mpr (Or.inl hj))
    · exact Or.inr (hout.mpr (Or.inl hj))
    · exact hr.imp (fun hp => hin.mpr (Or.inr ⟨hp.symm, rfl⟩))
        fun hp => hout.mpr (Or.inr ⟨hp.symm, rfl⟩)

theorem Asks.room_head (h : Asks s (r :: rs)) : (s.ed r.pipe).queue.length ≤ 1 := by
  have hroom := h.room r List.mem_cons_self
  rw [List.filter_cons_of_pos (by simp), List.length_cons] at hroom
  omega

theorem Asks.phase_ne (h : Asks s (r :: rs)) {r' : Request} (hr' : r' ∈ rs) :
    r'.phase ≠ r.phase := by
  have hnodup : (r.phase :: rs.map Request.phase).Nodup := h.nodup
  intro heq
  exact (List.nodup_cons.mp hnodup).1 (heq ▸ List.mem_map_of_mem hr')

theorem Asks.queued (h : Asks s (r :: rs)) (k : Fin 10) : Asks (s.queued r rs k) rs := by
  have hnodup : (r.phase :: rs.map Request.phase).Nodup := h.nodup
  refine ⟨?_, ?_, ?_, ?_, (List.nodup_cons.mp hnodup).2⟩
  · exact fun r' hr' => h.pipes r' (List.mem_cons_of_mem r hr')
  · intro r' hr'
    have hbefore := h.room r' (List.mem_cons_of_mem r hr')
    simp only [BulkSys.queued]
    by_cases hp : r'.pipe = r.pipe
    · -- one more descriptor and one request less
      rw [hp, Function.update_self, insert_queue h.room_head]
      rw [hp, List.filter_cons_of_pos (by simp)] at hbefore
      simp only [List.length_append, List.length_cons, List.length_nil] at hbefore ⊢
      omega
    · rw [Function.update_of_ne hp]
      rwa [List.filter_cons_of_neg (by simpa using Ne.symm hp)] at hbefore
  · exact fun r' hr' => h.statusIn r' (List.mem_cons_of_mem r hr')
  · intro r' hr'
    refine h.last r' ?_
    rw [List.getLast?_cons, hr']
    rfl

theorem ended_queued (h : List (BulkEvent × BulkOut)) (e : BulkEvent) (ph : Phase) (k : Fin 10) :
    ended ((e, .queued ph k) :: h) = ended h := by
  funext ph'
  cases e <;> rfl

/-- **A request** moves its phase from the ones to be requested to the ones that hang. -/
theorem Ledger.queued (hl : Ledger h s (r :: rs)) (hasks : Asks s (r :: rs)) (hpool : PoolOk s)
    (hne : s.msch.bulkIn ≠ s.msch.bulkOut) (hk : (s.ohci.gtd k).used = false) (e : BulkEvent) :
    Ledger ((e, .queued r.phase k) :: h) (s.queued r rs k) rs := by
  have hnew : ∀ q, k ∉ (s.ed q).queue := fun q hmem => by simp [hpool.used q k hmem] at hk
  have hmem := mem_queued hasks.room_head rs k
  have hon : ∀ j, OnPipes (s.queued r rs k) j ↔ OnPipes s j ∨ j = k :=
    onPipes_queued (hasks.pipes r List.mem_cons_self) hasks.room_head
  have hself : phaseOf ((e, .queued r.phase k) :: h) k = some r.phase := if_pos rfl
  have hother : ∀ j q, j ∈ (s.ed q).queue →
      phaseOf ((e, .queued r.phase k) :: h) j = phaseOf h j :=
    fun j q hj => if_neg (ne_of_mem_of_not_mem hj (hnew q))
  have hold : ∀ j, OnPipes s j → phaseOf ((e, .queued r.phase k) :: h) j = phaseOf h j :=
    fun j hj => hj.elim (hother j _) (hother j _)
  obtain ⟨hnone, hno⟩ := hl.asked r List.mem_cons_self
  refine ⟨?_, ?_, ?_, ?_, ?_, ?_, ?_⟩
  · intro ph
    rw [ended_queued]
    rcases hl.place ph with ⟨r', hr', hph⟩ | ⟨j, hj, hph⟩ | hgood
    · rcases List.mem_cons.mp hr' with rfl | hr'
      · exact Or.inr (Or.inl ⟨k, (hon k).mpr (Or.inr rfl), hph ▸ hself⟩)
      · exact Or.inl ⟨r', hr', hph⟩
    · exact Or.inr (Or.inl ⟨j, (hon j).mpr (Or.inl hj), (hold j hj).trans hph⟩)
    · exact Or.inr (Or.inr hgood)
  · intro r' hr'
    rw [ended_queued]
    obtain ⟨hnone', hno'⟩ := hl.asked r' (List.mem_cons_of_mem r hr')
    refine ⟨hnone', fun j hj => ?_⟩
    rcases (hon j).mp hj with hj | rfl
    · rw [hold j hj]
      exact hno' j hj
    · rw [hself]
      exact fun heq => hasks.phase_ne hr' (Option.some.inj heq).symm
  · intro j ph hj hph
    rw [ended_queued]
    rcases (hon j).mp hj with hj | rfl
    · exact hl.hanging j ph hj ((hold j hj).symm.trans hph)
    · obtain rfl := Option.some.inj (hself.symm.trans hph)
      exact hnone
  · intro j j' ph hj hj' hph hph'
    rcases (hon j).mp hj with hs | rfl
    · rcases (hon j').mp hj' with hs' | rfl
      · exact hl.unique j j' ph hs hs' ((hold j hs).symm.trans hph)
          ((hold j' hs').symm.trans hph')
      · rw [hold j hs, ← hph', hself] at hph
        exact absurd hph (hno j hs)
    · rcases (hon j').mp hj' with hs' | rfl
      · rw [hold j' hs', ← hph, hself] at hph'
        exact absurd hph' (hno j' hs')
      · rfl
  · intro j hj
    rcases (hon j).mp hj with hj | rfl
    · rw [hold j hj]
      exact hl.known j hj
    · exact ⟨r.phase, hself⟩
  · intro q j hj ph hph
    rcases (hmem j q).mp hj with hj | ⟨-, rfl⟩
    · rw [hother j q hj] at hph
      exact (hon j).mpr (Or.inl (hl.own q j hj ph hph))
    · exact (hon j).mpr (Or.inr rfl)
  · intro j hj
    rcases (hmem j s.msch.bulkOut).mp hj with hj | ⟨hpipe, rfl⟩
    · rw [hother j _ hj]
      exact hl.statusIn j hj
    · rw [hself]
      intro heq
      have hin := hasks.statusIn r List.mem_cons_self (Option.some.inj heq)
      exact hne (hin.symm.trans hpipe.symm)

theorem InCall.queued (hc : InCall h s (r :: rs)) (hd : DriveOk s)
    (hk : (s.ohci.gtd k).used = false) (e : BulkEvent) :
    InCall ((e, .queued r.phase k) :: h) (s.queued r rs k) rs := by
  have hne := (hd.input hc.mounted).ne
  refine ⟨hc.mounted, hc.asks.queued k, hc.ledger.queued hc.asks hd.pool hne hk e, ?_, hc.notFailed⟩
  rintro rfl hempty
  -- the last request is for input
  have hpipe : s.msch.bulkIn = r.pipe := (hc.asks.last r rfl).symm
  have hhangs := (mem_queued hc.asks.room_head [] k k s.msch.bulkIn).mpr (Or.inr ⟨hpipe, rfl⟩)
  have hnothing : ((s.queued r [] k).ed s.msch.bulkIn).queue = [] := hempty
  rw [hnothing] at hhangs
  simp at hhangs

end Queued

/-! #### A descriptor that is handed back -/

section Retired

variable {p : Fin 5} {k : Fin 10} {rest : List (Fin 10)} {cc : BitVec 4} {status : BitVec 8}

theorem onPipes_retired (hpool : PoolOk s) (hq : (s.ed p).queue = k :: rest) (cc : BitVec 4)
    (j : Fin 10) : OnPipes (s.retired p cc k rest) j ↔ OnPipes s j ∧ j ≠ k := by
  have hin := hpool.mem_retired hq cc j s.msch.bulkIn
  have hout := hpool.mem_retired hq cc j s.msch.bulkOut
  exact (or_congr hin hout).trans or_and_right.symm

theorem Asks.retired (h : Asks s rs) (hq : (s.ed p).queue = k :: rest) (cc : BitVec 4) :
    Asks (s.retired p cc k rest) rs := by
  refine ⟨h.pipes, fun r hr => ?_, h.statusIn, h.last, h.nodup⟩
  have hroom := h.room r hr
  simp only [BulkSys.retired]
  by_cases hp : r.pipe = p
  · subst hp
    rw [hq, List.length_cons] at hroom
    simp only [Function.update_self]
    omega
  · rwa [Function.update_of_ne hp]

/-- A descriptor of the call hangs on one of its pipes, where transfers go well. -/
theorem Ledger.good (hl : Ledger h s rs) (hpool : PoolOk s) (hk : k ∈ (s.ed p).queue)
    (hclean : Clean s (.complete p cc status)) {ph : Phase} (hph : phaseOf h k = some ph) :
    ph.good cc status = true := by
  rcases hl.own p k hk ph hph with hin | hout
  · obtain rfl : p = s.msch.bulkIn :=
      Option.some.inj ((hpool.index p k hk).symm.trans (hpool.index _ k hin))
    simp [Phase.good, hclean.1 (Or.inl rfl), (hclean.2 rfl).2]
  · obtain rfl : p = s.msch.bulkOut :=
      Option.some.inj ((hpool.index p k hk).symm.trans (hpool.index _ k hout))
    have hnostatus : ph ≠ .status := fun heq => hl.statusIn k hout (heq ▸ hph)
    simp [Phase.good, hclean.1 (Or.inr rfl), hnostatus]

/-- **A descriptor that is handed back** moves its phase from the ones that hang to the ones
that have ended well. -/
theorem Ledger.retired (hl : Ledger h s rs) (hpool : PoolOk s) (hq : (s.ed p).queue = k :: rest)
    (hclean : Clean s (.complete p cc status)) :
    Ledger ((.complete p cc status, .retired k) :: h) (s.retired p cc k rest) rs := by
  have hk : k ∈ (s.ed p).queue := by simp [hq]
  have hmem := hpool.mem_retired hq cc
  have hon := onPipes_retired hpool hq cc
  have hphase : phaseOf ((.complete p cc status, .retired k) :: h) = phaseOf h := rfl
  have hended : ∀ ph, ended ((.complete p cc status, .retired k) :: h) ph =
      if phaseOf h k = some ph then some true else ended h ph := by
    intro ph
    rw [ended]
    split
    · rename_i hph
      rw [hl.good hpool hk hclean hph]
    · rfl
  refine ⟨?_, ?_, ?_, ?_, ?_, ?_, ?_⟩
  · intro ph
    rw [hended, hphase]
    rcases hl.place ph with hr | ⟨j, hj, hph⟩ | hdone
    · exact Or.inl hr
    · by_cases hjk : j = k
      · subst hjk
        exact Or.inr (Or.inr (if_pos hph))
      · exact Or.inr (Or.inl ⟨j, (hon j).mpr ⟨hj, hjk⟩, hph⟩)
    · rw [hdone]
      exact Or.inr (Or.inr (ite_self _))
  · intro r hr
    obtain ⟨hnone, hno⟩ := hl.asked r hr
    refine ⟨?_, fun j hj => hno j ((hon j).mp hj).1⟩
    rw [hended, if_neg, hnone]
    exact fun hph => hno k (hl.own p k hk _ hph) hph
  · intro j ph hj hph
    obtain ⟨hj, hjk⟩ := (hon j).mp hj
    rw [hended, if_neg]
    · exact hl.hanging j ph hj hph
    · exact fun hph' => hjk (hl.unique j k ph hj (hl.own p k hk ph hph') hph hph')
  · exact fun j j' ph hj hj' => hl.unique j j' ph ((hon j).mp hj).1 ((hon j').mp hj').1
  · exact fun j hj => hl.known j ((hon j).mp hj).1
  · intro q j hj ph hph
    obtain ⟨hj, hjk⟩ := (hmem j q).mp hj
    exact (hon j).mpr ⟨hl.own q j hj ph hph, hjk⟩
  · exact fun j hj => hl.statusIn j ((hmem j s.msch.bulkOut).mp hj).1

theorem InCall.retired (hc : InCall h s rs) (hd : DriveOk s) (hq : (s.ed p).queue = k :: rest)
    (hclean : Clean s (.complete p cc status)) :
    InCall ((.complete p cc status, .retired k) :: h) (s.retired p cc k rest) rs := by
  have hne := (hd.input hc.mounted).ne
  refine ⟨hc.mounted, hc.asks.retired hq cc, hc.ledger.retired hd.pool hq hclean, ?_, hc.notFailed⟩
  intro hrs hempty
  change ((s.retired p cc k rest).ed s.msch.bulkIn).queue = [] at hempty
  change ((s.retired p cc k rest).ed s.msch.bulkOut).queue = []
  by_cases hp : p = s.msch.bulkIn
  · -- the guard: input comes after all output
    have hout := (hclean.2 hp).1
    simp only [BulkSys.retired]
    rw [Function.update_of_ne (hp ▸ hne.symm), hout]
  · have hin : (s.ed s.msch.bulkIn).queue = [] := by
      simpa only [BulkSys.retired, Function.update_of_ne (Ne.symm hp)] using hempty
    have hout := hc.answered hrs hin
    have hp' : s.msch.bulkOut ≠ p := by
      rintro rfl
      rw [hout] at hq
      simp at hq
    simp only [BulkSys.retired]
    rw [Function.update_of_ne hp', hout]

end Retired

end Call

/-! ### Clean runs -/

/-- A mounted drive between two calls. -/
structure Ready (s : BulkSys) : Prop where
  drive : DriveOk s
  mounted : s.isInitialized = true
  call : s.call = none

/-- The invariant of a clean run. -/
structure BulkInv (h : List (BulkEvent × BulkOut)) (s : BulkSys) : Prop where
  drive : DriveOk s
  call : ∀ rs, s.call = some rs → InCall h s rs

section Clean

variable {d : Device} {h : List (BulkEvent × BulkOut)} {s : BulkSys}

/-- An event that does nothing, or only answers. -/
theorem BulkInv.same (hinv : BulkInv h s) (e : BulkEvent) {o : BulkOut}
    (ho : o = .none ∨ o = .busy ∨ o = .returned .notrdy) : BulkInv ((e, o) :: h) s := by
  refine ⟨hinv.drive, fun rs hrs => (hinv.call rs hrs).frame ?_ ?_ ?_ rfl rfl fun _ => rfl⟩
  · rcases ho with rfl | rfl | rfl <;> rfl
  · funext ph
    rcases ho with rfl | rfl | rfl <;> cases e <;> rfl
  · rcases ho with rfl | rfl | rfl <;> exact Or.inl

theorem BulkInv.callStep (hinv : BulkInv h s) {dir : Dir} {pdrv : BitVec 8}
    {buff sector count : BitVec 32} (hclean : Clean s (.call dir pdrv buff sector count)) :
    BulkInv ((.call dir pdrv buff sector count,
        (bulkStep d s (.call dir pdrv buff sector count)).1) :: h)
      (bulkStep d s (.call dir pdrv buff sector count)).2 := by
  rcases call_cases d s dir pdrv buff sector count with ⟨o, heq, ho⟩ | ⟨-, hinit, cbw, heq⟩
  · rw [heq]
    exact hinv.same _ (ho.imp_right Or.inr)
  · rw [heq]
    refine ⟨hinv.drive.frame rfl rfl rfl rfl rfl rfl, fun rs hrs => ?_⟩
    obtain rfl := Option.some.inj hrs
    exact .begin hinit hinv.drive hclean.2.1 hclean.2.2 _ cbw hclean.1

theorem BulkInv.issueStep (hinv : BulkInv h s) :
    BulkInv ((.issue, s.issue.1) :: h) s.issue.2 := by
  match hcall : s.call with
  | none =>
    have heq : s.issue = (.none, s) := by simp [BulkSys.issue, hcall]
    rw [heq]
    exact hinv.same _ (Or.inl rfl)
  | some [] =>
    have heq : s.issue = (.none, s) := by simp [BulkSys.issue, hcall]
    rw [heq]
    exact hinv.same _ (Or.inl rfl)
  | some (r :: rs) =>
    have hc := hinv.call _ hcall
    rcases issue_cases hcall with heq | ⟨k, hk, heq⟩
    · rw [heq]
      exact ⟨hinv.drive.frame rfl rfl rfl rfl rfl rfl, by simp⟩
    · rw [heq]
      refine ⟨hinv.drive.queued hc.asks.room_head rs hk, fun rs' hrs' => ?_⟩
      obtain rfl := Option.some.inj hrs'
      exact hc.queued hinv.drive hk _

/-- What a turn of the wait can do. -/
theorem poll_cases (s : BulkSys) :
    s.waitForIoComplete = (.none, s) ∨
      s.call = some [] ∧ s.tuhMscIsBusy = true ∧ s.waitForIoComplete = (.busy, s) ∨
      s.call = some [] ∧ s.tuhMscIsBusy = false ∧
        s.waitForIoComplete = (.returned .ok, { s with call := none }) := by
  unfold BulkSys.waitForIoComplete
  split
  · rename_i hcall
    split
    · rename_i hbusy
      exact Or.inr (Or.inl ⟨hcall, hbusy, rfl⟩)
    · rename_i hbusy
      exact Or.inr (Or.inr ⟨hcall, by simpa using hbusy, rfl⟩)
  · exact Or.inl rfl

theorem BulkInv.pollStep (hinv : BulkInv h s) :
    BulkInv ((.poll, s.waitForIoComplete.1) :: h) s.waitForIoComplete.2 := by
  rcases poll_cases s with heq | ⟨-, -, heq⟩ | ⟨-, -, heq⟩
  · rw [heq]
    exact hinv.same _ (Or.inl rfl)
  · rw [heq]
    exact hinv.same _ (Or.inr (Or.inl rfl))
  · rw [heq]
    exact ⟨hinv.drive.frame rfl rfl rfl rfl rfl rfl, by simp⟩

theorem BulkInv.completeStep (hinv : BulkInv h s) {p : Fin 5} {cc : BitVec 4} {status : BitVec 8}
    (hclean : Clean s (.complete p cc status)) :
    BulkInv ((.complete p cc status, (s.complete p cc).1) :: h) (s.complete p cc).2 := by
  rcases complete_cases s p cc with heq | ⟨k, rest, hq, heq⟩
  · rw [heq]
    exact hinv.same _ (Or.inl rfl)
  · rw [heq]
    exact ⟨hinv.drive.retired hq fun hp => hclean.1 (Or.inl hp),
      fun rs hrs => (hinv.call rs hrs).retired hinv.drive hq hclean⟩

theorem BulkInv.isrStep (hinv : BulkInv h s) :
    BulkInv ((.isr, s.doneQueueIsr.1) :: h) s.doneQueueIsr.2 :=
  ⟨hinv.drive.isr, fun rs hrs => (hinv.call rs hrs).frame rfl rfl (fun hf => hf) rfl rfl
    (handled_isr s).queue⟩

theorem BulkInv.unplugStep (hinv : BulkInv h s) (hclean : Clean s .unplug) :
    BulkInv ((.unplug, (bulkStep d s .unplug).1) :: h) (bulkStep d s .unplug).2 := by
  rw [bulkStep]
  split
  · refine ⟨hinv.drive.close d, fun rs hrs => ?_⟩
    have hnone : s.call = none := hclean
    have hsome : s.call = some rs := hrs
    simp [hnone] at hsome
  · exact hinv.same _ (Or.inl rfl)

/-- **One clean step** keeps the invariant. -/
theorem bulkInv_step (hinv : BulkInv h s) {e : BulkEvent} (hclean : Clean s e) :
    BulkInv ((e, (bulkStep d s e).1) :: h) (bulkStep d s e).2 := by
  cases e with
  | call dir pdrv buff sector count => exact hinv.callStep hclean
  | issue => exact hinv.issueStep
  | poll => exact hinv.pollStep
  | complete p cc status => exact hinv.completeStep hclean
  | isr => exact hinv.isrStep
  | unplug => exact hinv.unplugStep hclean

/-- The wait reads off `RES_OK` and `busy` what the phases have come to. -/
theorem BulkInv.told (hinv : BulkInv h s) :
    (s.waitForIoComplete.1 = .returned .ok → ∀ ph, ended h ph = some true) ∧
      (s.waitForIoComplete.1 = .busy → ¬Failed h ∧ ∃ ph, ended h ph ≠ some true) := by
  rcases poll_cases s with heq | ⟨hcall, hbusy, heq⟩ | ⟨hcall, hidle, heq⟩
  · simp [heq]
  · have hc := hinv.call _ hcall
    have htail := (hinv.drive.input hc.mounted).tail
    simp only [heq, reduceCtorEq, false_implies, true_implies, true_and]
    refine ⟨hc.notFailed, ?_⟩
    -- something hangs on the input endpoint
    simp only [BulkSys.tuhMscIsBusy, hc.mounted, Bool.true_and, Ed.busy, htail, decide_eq_true_eq,
      ne_eq, List.head?_eq_none_iff] at hbusy
    obtain ⟨k, hk⟩ := List.exists_mem_of_ne_nil _ hbusy
    obtain ⟨ph, hph⟩ := hc.ledger.known k (Or.inl hk)
    exact ⟨ph, by simp [hc.ledger.hanging k ph (Or.inl hk) hph]⟩
  · have hc := hinv.call _ hcall
    have htail := (hinv.drive.input hc.mounted).tail
    have hin : (s.ed s.msch.bulkIn).queue = [] := by
      simpa [BulkSys.tuhMscIsBusy, hc.mounted, Ed.busy, htail] using hidle
    have hout := hc.answered rfl hin
    simp only [heq, reduceCtorEq, false_implies, and_true]
    intro _ ph
    rcases hc.ledger.place ph with ⟨r, hr, -⟩ | ⟨k, hk, -⟩ | hgood
    · simp at hr
    · simp [OnPipes, hin, hout] at hk
    · exact hgood

/-- Only the wait returns `RES_OK` or goes on. -/
theorem not_told_of_ne_poll {e : BulkEvent} (he : e ≠ .poll) :
    (bulkStep d s e).1 ≠ .returned .ok ∧ (bulkStep d s e).1 ≠ .busy := by
  cases e with
  | call dir pdrv buff sector count =>
    rcases call_cases d s dir pdrv buff sector count with ⟨o, heq, rfl | rfl⟩ | ⟨-, -, cbw, heq⟩
    · simp [heq]
    · simp [heq]
    · simp [heq]
  | issue =>
    match hcall : s.call with
    | none => simp [bulkStep, BulkSys.issue, hcall]
    | some [] => simp [bulkStep, BulkSys.issue, hcall]
    | some (r :: rs) =>
      rcases issue_cases hcall with heq | ⟨k, -, heq⟩
      · simp [bulkStep, heq]
      · simp [bulkStep, heq]
  | poll => exact absurd rfl he
  | complete p cc status =>
    rcases complete_cases s p cc with heq | ⟨k, rest, -, heq⟩
    · simp [bulkStep, heq]
    · simp [bulkStep, heq]
  | isr => simp [bulkStep, BulkSys.doneQueueIsr]
  | unplug =>
    rw [bulkStep]
    split
    · simp
    · simp

theorem bulkInv_of_clean {s₀ : BulkSys} (hready : Ready s₀)
    (hr : Reach (fnStep (bulkStep d)) Clean s₀ h s) : BulkOk h ∧ BulkInv h s := by
  refine hr.fnInvariant (fun h s => BulkOk h ∧ BulkInv h s)
    ⟨trivial, hready.drive, by simp [hready.call]⟩ ?_
  rintro h s e ⟨hok, hinv⟩ hclean
  refine ⟨⟨hok, ?_⟩, bulkInv_step hinv hclean⟩
  by_cases he : e = .poll
  · subst he
    exact hinv.told
  · obtain ⟨hnotOk, hnotBusy⟩ := not_told_of_ne_poll (d := d) (s := s) he
    exact ⟨fun ho => absurd ho hnotOk, fun ho => absurd ho hnotBusy⟩

/-- **What becomes of a transfer is reported in every clean run** of a mounted drive. -/
theorem bulkOk_of_clean {s₀ : BulkSys} (hready : Ready s₀)
    (hr : Reach (fnStep (bulkStep d)) Clean s₀ h s) : BulkOk h :=
  (bulkInv_of_clean hready hr).1

end Clean

/-- A mounted drive with nothing queued, in the first slot. -/
def idleBulk : BulkSys where
  drives := onePlugged
  msch := idleStorage.msch
  isInitialized := true
  ohci := idleStorage.ohci
  ed := fun _ => ⟨[], none, false, false, true⟩
  done := []
  call := none

theorem ready_idleBulk : Ready idleBulk :=
  ⟨⟨⟨by simp [idleBulk], by simp [idleBulk], by simp [idleBulk], by simp [idleBulk],
    by simp [idleBulk]⟩, fun _ => ⟨by decide, rfl, by simp [idleBulk]⟩⟩, rfl, rfl⟩

/-- A read of eight sectors from the first USB volume, up to the wait. -/
def readEight : List BulkEvent :=
  [.call .read 2#8 0x42001000#32 0#32 8#32, .issue, .issue, .issue]

/-- The three phases succeed, one after the other, and the call returns `RES_OK`. -/
theorem bulkOk_of_clean_read :
    let r := runFn (bulkStep firstDevice) [] idleBulk (readEight ++
      [.complete 1 ccodeNoError 0#8, .poll, .complete 0 ccodeNoError 0#8,
        .complete 0 ccodeNoError 0#8, .isr, .poll])
    BulkOk r.1 ∧ r.1.head?.map Prod.snd = some (.returned .ok) := by
  intro r
  refine ⟨bulkOk_of_clean ready_idleBulk (reach_runFn ?_), by decide⟩
  exact ⟨⟨by decide, rfl, rfl⟩, trivial, trivial, trivial, ⟨fun _ => rfl, by decide⟩, trivial,
    ⟨fun _ => rfl, fun _ => ⟨rfl, rfl⟩⟩, ⟨fun _ => rfl, fun _ => ⟨rfl, rfl⟩⟩, trivial, trivial,
    trivial⟩

/-- **A stalled data phase is reported as success**, and so is every call from then on: the
input endpoint is halted and marked as empty, and the next call returns without a transfer. -/
theorem not_bulkOk_stalled :
    let r := runFn (bulkStep firstDevice) [] idleBulk (readEight ++
      [.complete 1 ccodeNoError 0#8, .complete 0 ccodeStall 0#8, .isr, .poll] ++ readEight ++
      [.poll])
    Ready idleBulk ∧ Reach (fnStep (bulkStep firstDevice)) Always idleBulk r.1 r.2 ∧
      r.1.map Prod.snd = [.returned .ok, .queued .status 3, .queued .data 1, .queued .command 0,
        .begun, .returned .ok, .handled [.stalled], .retired 1, .retired 0, .queued .status 2,
        .queued .data 1, .queued .command 0, .begun] ∧ ¬BulkOk r.1 := by
  intro r
  refine ⟨ready_idleBulk, reach_runFn okAlong_always, by decide, ?_⟩
  rintro ⟨-, hok, -⟩
  exact absurd (hok rfl .command) (by decide)

/-! ### What is not reported -/

section Failures

variable {d : Device} {h : List (BulkEvent × BulkOut)} {s : BulkSys}

/-- **No failure is reported**: whatever has happened, a call that waits and has failed says
`RES_OK` or goes on waiting when it looks next. -/
theorem not_bulkOk_of_failed (hwait : s.call = some []) (hfailed : Failed h)
    (hopen : ∃ ph, ended h ph ≠ some true) :
    ¬BulkOk (runFn (bulkStep d) h s [.poll]).1 := by
  rintro ⟨-, hok, hbusy⟩
  have hpoll : (bulkStep d s .poll).1 = s.waitForIoComplete.1 := rfl
  rcases poll_cases s with heq | ⟨-, -, heq⟩ | ⟨-, -, heq⟩
  · -- it does look
    unfold BulkSys.waitForIoComplete at heq
    rw [hwait] at heq
    dsimp only at heq
    split at heq
    · simp at heq
    · simp at heq
  · exact (hbusy (by rw [hpoll, heq])).1 hfailed
  · obtain ⟨ph, hph⟩ := hopen
    exact hph (hok (by rw [hpoll, heq]) ph)

/-- **A halted input endpoint** ends the wait: the interrupt has marked its queue as empty. -/
theorem poll_of_halted (hwait : s.call = some [])
    (htail : (s.ed s.msch.bulkIn).tail = (s.ed s.msch.bulkIn).queue.head?) :
    (bulkStep d s .poll).1 = .returned .ok := by
  have hidle : s.tuhMscIsBusy = false := by simp [BulkSys.tuhMscIsBusy, Ed.busy, htail]
  simp [bulkStep, BulkSys.waitForIoComplete, hwait, hidle]

/-- So does the removal of the drive. -/
theorem poll_of_unplugged (hwait : s.call = some []) (hgone : s.isInitialized = false) :
    (bulkStep d s .poll).1 = .returned .ok := by
  simp [bulkStep, BulkSys.waitForIoComplete, hwait, BulkSys.tuhMscIsBusy, hgone]

/-- The device does not answer and stays where it is. -/
def Silent (s : BulkSys) : BulkEvent → Prop
  | .complete p _ _ => p ≠ s.msch.bulkIn
  | .unplug => False
  | _ => True

/-- A call that waits for input. -/
structure Waits (s : BulkSys) : Prop where
  drive : DriveOk s
  mounted : s.isInitialized = true
  call : s.call = some []
  queue : (s.ed s.msch.bulkIn).queue ≠ []

theorem Waits.busy (hw : Waits s) : s.waitForIoComplete = (.busy, s) := by
  have htail := (hw.drive.input hw.mounted).tail
  have hbusy : s.tuhMscIsBusy = true := by
    simp [BulkSys.tuhMscIsBusy, hw.mounted, Ed.busy, htail, hw.queue]
  simp [BulkSys.waitForIoComplete, hw.call, hbusy]

/-- As long as the device is silent, the call waits. -/
theorem waits_step (hw : Waits s) {e : BulkEvent} (hsilent : Silent s e) :
    Waits (bulkStep d s e).2 := by
  cases e with
  | call dir pdrv buff sector count =>
    have hcall : s.call ≠ none := by simp [hw.call]
    rw [bulkStep, if_neg hcall]
    exact hw
  | issue =>
    have heq : s.issue = (.none, s) := by simp [BulkSys.issue, hw.call]
    rw [bulkStep, heq]
    exact hw
  | poll =>
    rw [bulkStep, hw.busy]
    exact hw
  | complete p cc status =>
    have hp : p ≠ s.msch.bulkIn := hsilent
    rw [bulkStep]
    rcases complete_cases s p cc with heq | ⟨k, rest, hq, heq⟩
    · rw [heq]
      exact hw
    · rw [heq]
      refine ⟨hw.drive.retired hq fun h => absurd h hp, hw.mounted, hw.call, ?_⟩
      simpa only [BulkSys.retired, Function.update_of_ne hp.symm] using hw.queue
  | isr =>
    refine ⟨hw.drive.isr, hw.mounted, hw.call, ?_⟩
    exact ((handled_isr s).queue s.msch.bulkIn).trans_ne hw.queue
  | unplug => exact hsilent.elim

/-- **A device that has not got its command does not answer**, and the call waits for good:
there is no way out of the loop, whatever has become of the command. -/
theorem poll_of_unanswered {s₀ : BulkSys} (hw : Waits s₀)
    (hr : Reach (fnStep (bulkStep d)) Silent s₀ h s) : bulkStep d s .poll = (.busy, s) := by
  have hwaits : Waits s := hr.fnInvariant (fun _ s => Waits s) hw
    fun _ _ _ hinv hsilent => waits_step hinv hsilent
  exact hwaits.busy

end Failures

end Usb

end BareMetal
