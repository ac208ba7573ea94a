import BareMetal.Runs
import BareMetal.Handover
import Mathlib.Tactic.IntervalCases

/-!
# Copying by DMA

The DMA controller has twelve channels, and every one of them is pointed at the same
descriptor: `dma_memcpy` fills in `memcpy_desc`, gives its address to the channel and enables
it. The engine fetches the descriptor at a moment of its own choice, and `dma_wait` waits for
the end of the transfers of *one* channel, so that a call for another channel may fill in the
descriptor again before the first has been fetched.

A call is the list of its stores (`BareMetal.Dma.dmaMemcpy`), and the stores of the processor
and the fetches of the engine are interleaved in any way. The descriptor is *due* to a channel
from its enabling to its fetch, a hand-over through shared memory (`BareMetal.Undisturbed`).
Every transfer is the one that was asked for if the descriptor is written only while no channel
has still to fetch it (`BareMetal.Dma.dmaOk_of_fetched`), and only then
(`BareMetal.Dma.not_dmaOk_of_overwritten`).

The descriptor lies in uncached memory, so that the cache flush of `dma_memcpy` does not matter
to it.
-/

namespace BareMetal

namespace Dma

/-! ### The code -/

/-- `struct dma_desc`. -/
structure DmaDesc where
  config : BitVec 32
  srcAddr : BitVec 32
  destAddr : BitVec 32
  count : BitVec 32
  param : BitVec 32
  next : BitVec 32
  deriving DecidableEq, Repr

/-- The fields of a descriptor. -/
inductive Field where
  | config | srcAddr | destAddr | count | param | next
  deriving DecidableEq, Repr

/-- Store a field of a descriptor. -/
def DmaDesc.set (d : DmaDesc) (v : BitVec 32) : Field → DmaDesc
  | .config => { d with config := v }
  | .srcAddr => { d with srcAddr := v }
  | .destAddr => { d with destAddr := v }
  | .count => { d with count := v }
  | .param => { d with param := v }
  | .next => { d with next := v }

/-- A call of `dma_memcpy`. The size is a C `int`, and is stored as it is. -/
structure MemcpyCall where
  dest : BitVec 32
  src : BitVec 32
  size : BitVec 32
  channel : Fin 12
  deriving DecidableEq, Repr

/-- A store to memory or to a register of the controller. -/
inductive Store where
  /-- A field of `memcpy_desc`. -/
  | desc (f : Field) (v : BitVec 32)
  /-- `DMA_EN_REG(channel)`. -/
  | enReg (channel : Fin 12) (on : Bool)
  /-- `DMA_DESC_ADDR_REG(channel) = &memcpy_desc`. -/
  | descAddrReg (channel : Fin 12)
  deriving DecidableEq, Repr

/-- `dma_memcpy`: its stores, in their order. -/
def dmaMemcpy (c : MemcpyCall) : List Store :=
  [.desc .config 0x04c104c1#32,
    .desc .srcAddr c.src,
    .desc .destAddr c.dest,
    .desc .count c.size,
    .desc .param 8#32,
    .desc .next 0xfffff800#32,
    .enReg c.channel false,
    .descAddrReg c.channel,
    .enReg c.channel true]

/-- What a channel does. Its bit in `DMA_STA_REG` is clear while it is idle. -/
inductive Channel where
  | idle
  /-- Enabled, with its descriptor still to be fetched. -/
  | enabled
  /-- At work on the descriptor it has fetched. -/
  | running (d : DmaDesc)
  deriving DecidableEq, Repr

/-- `memcpy_desc`, which channels point at it, the channels, and the stores the processor has
still to make. -/
structure DmaState where
  memcpyDesc : DmaDesc
  descAddr : Fin 12 → Bool
  channels : Fin 12 → Channel
  todo : List Store

/-- After `dma_init`. -/
def DmaState.init : DmaState :=
  ⟨⟨0#32, 0#32, 0#32, 0#32, 0#32, 0#32⟩, fun _ => false, fun _ => .idle, []⟩

/-- A step: the processor enters a call or makes the next store of the one it is in, the engine
fetches the descriptor of a channel, or a channel comes to the end of its transfer. -/
inductive DmaEvent where
  | call (c : MemcpyCall)
  | store
  | fetch (channel : Fin 12)
  | finish (channel : Fin 12)
  deriving DecidableEq

/-- One store of the processor. -/
def DmaState.put (s : DmaState) : Store → DmaState
  | .desc f v => { s with memcpyDesc := s.memcpyDesc.set v f }
  | .enReg ch on =>
      { s with channels := Function.update s.channels ch (if on then .enabled else .idle) }
  | .descAddrReg ch => { s with descAddr := Function.update s.descAddr ch true }

/-- One step; a fetch returns the descriptor with which the transfer is performed. The
processor enters a call only when it is not in one. -/
def dmaStep (s : DmaState) : DmaEvent → Option DmaDesc × DmaState
  | .call c => (none, if s.todo = [] then { s with todo := dmaMemcpy c } else s)
  | .store =>
      match s.todo with
      | [] => (none, s)
      | st :: rest => (none, { s.put st with todo := rest })
  | .fetch ch =>
      if s.channels ch = .enabled ∧ s.descAddr ch then
        (some s.memcpyDesc,
          { s with channels := Function.update s.channels ch (.running s.memcpyDesc) })
      else (none, s)
  | .finish ch =>
      match s.channels ch with
      | .running _ => (none, { s with channels := Function.update s.channels ch .idle })
      | _ => (none, s)

/-! ### The property -/

/-- **The call that enables a channel**: the last one made for it. -/
def enabledBy : List (DmaEvent × Option DmaDesc) → Fin 12 → Option MemcpyCall
  | [], _ => none
  | (.call c, _) :: h, ch => if c.channel = ch then some c else enabledBy h ch
  | _ :: h, ch => enabledBy h ch

/-- A transfer by a descriptor is the one a call asks for. -/
def Performs (d : DmaDesc) (c : MemcpyCall) : Prop :=
  d.destAddr = c.dest ∧ d.srcAddr = c.src ∧ d.count = c.size

/-- **No two copies mix**: every descriptor that was fetched is the one of the call that
enabled the channel. -/
def DmaOk : List (DmaEvent × Option DmaDesc) → Prop
  | [] => True
  | (e, o) :: h => DmaOk h ∧
      ∀ ch d, e = .fetch ch → o = some d → ∃ c, enabledBy h ch = some c ∧ Performs d c

/-- Calls are made one after the other, each for a channel that has been waited for
(`dma_wait`): its bit in `DMA_STA_REG` is clear. -/
def Waited (s : DmaState) : DmaEvent → Prop
  | .call c => s.todo = [] ∧ s.channels c.channel = .idle
  | _ => True

/-- In addition the descriptor is written only while no channel has still to fetch it, or with
what it holds. -/
def Fetched (s : DmaState) : DmaEvent → Prop
  | .call c => Waited s (.call c)
  | .store => ∀ f v rest, s.todo = .desc f v :: rest →
      ∀ ch, s.channels ch = .enabled → s.memcpyDesc.set v f = s.memcpyDesc
  | _ => True

/-- With no channel enabled and not yet served, every store is safe. -/
theorem fetched_store {s : DmaState} (hquiet : ∀ ch, s.channels ch ≠ .enabled) :
    Fetched s .store := by
  intro f v rest _ ch hch
  exact absurd hch (hquiet ch)

/-! ### The stores of a call -/

/-- The descriptor a call fills in. -/
def MemcpyCall.desc (c : MemcpyCall) : DmaDesc :=
  ⟨0x04c104c1#32, c.src, c.dest, c.size, 8#32, 0xfffff800#32⟩

/-- What a store does to the descriptor. -/
def Store.onDesc (d : DmaDesc) : Store → DmaDesc
  | .desc f v => d.set v f
  | _ => d

/-- The descriptor once some more stores have been made. -/
def descAfter (todo : List Store) (d : DmaDesc) : DmaDesc := todo.foldl Store.onDesc d

theorem descAfter_dmaMemcpy (c : MemcpyCall) (d : DmaDesc) :
    descAfter (dmaMemcpy c) d = c.desc := rfl

theorem descAfter_cons (st : Store) (rest : List Store) (d : DmaDesc) :
    descAfter (st :: rest) d = descAfter rest (st.onDesc d) := rfl

/-- **A store of a call** writes a field of the descriptor, stops the channel, points it at the
descriptor or, as the last one, enables it. -/
theorem dmaMemcpy_drop {c : MemcpyCall} {n : ℕ} {st : Store} {rest : List Store}
    (h : st :: rest = (dmaMemcpy c).drop n) :
    rest = (dmaMemcpy c).drop (n + 1) ∧
      ((∃ f v, st = .desc f v) ∨ st = .enReg c.channel false ∨ st = .descAddrReg c.channel ∨
        (st = .enReg c.channel true ∧ rest = [])) := by
  have hn : n < 9 := by
    by_contra hge
    rw [List.drop_eq_nil_of_le (by simpa [dmaMemcpy] using hge)] at h
    exact absurd h (by simp)
  refine ⟨by rw [← List.drop_drop, ← h, List.drop_succ_cons, List.drop_zero], ?_⟩
  interval_cases n <;> simp_all [dmaMemcpy]

/-! ### What is due -/

/-- The descriptor due to a channel: the one of its call, until it has been fetched. -/
def dueDesc (h : List (DmaEvent × Option DmaDesc)) (s : DmaState) (ch : Fin 12) : Option DmaDesc :=
  if s.channels ch = .enabled then (enabledBy h ch).map MemcpyCall.desc else none

/-- Every channel sees the whole descriptor. -/
def seesDesc (d : DmaDesc) (_ : Fin 12) : DmaDesc := d

/-- **The invariant**: no descriptor that is due is disturbed; a channel that is enabled has a
call and points at the descriptor; and the stores that are left of a call complete it. -/
structure DmaInv (h : List (DmaEvent × Option DmaDesc)) (s : DmaState) : Prop where
  undisturbed : Undisturbed seesDesc (dueDesc h s) s.memcpyDesc
  enabled : ∀ ch, s.channels ch = .enabled → (∃ c, enabledBy h ch = some c) ∧ s.descAddr ch = true
  todo : s.todo = [] ∨ ∃ c n, enabledBy h c.channel = some c ∧ s.channels c.channel = .idle ∧
    s.todo = (dmaMemcpy c).drop n ∧ descAfter s.todo s.memcpyDesc = c.desc ∧
    (.descAddrReg c.channel ∈ s.todo ∨ s.descAddr c.channel = true)

theorem dmaInv_init : DmaInv [] DmaState.init where
  undisturbed := undisturbed_none fun _ => rfl
  enabled ch hch := by simp [DmaState.init] at hch
  todo := Or.inl rfl

/-! ### One step -/

section OneStep

variable {h : List (DmaEvent × Option DmaDesc)} {s : DmaState}

theorem enabledBy_call_of_ne {c : MemcpyCall} (hidle : s.channels c.channel = .idle)
    {ch : Fin 12} (hch : s.channels ch = .enabled) (o : Option DmaDesc) :
    enabledBy ((.call c, o) :: h) ch = enabledBy h ch := by
  refine if_neg ?_
  rintro rfl
  rw [hidle] at hch
  exact absurd hch (by simp)

/-- Entering a call for a channel that is idle. -/
theorem DmaInv.call (hinv : DmaInv h s) {c : MemcpyCall} (hidle : s.channels c.channel = .idle) :
    DmaInv ((.call c, none) :: h) { s with todo := dmaMemcpy c } where
  undisturbed := by
    refine hinv.undisturbed.settle fun ch d hd => ?_
    simp only [dueDesc] at hd ⊢
    split at hd
    · rename_i hch
      rw [if_pos hch]
      rwa [enabledBy_call_of_ne hidle hch] at hd
    · exact absurd hd (by simp)
  enabled ch hch := by
    rw [enabledBy_call_of_ne hidle hch]
    exact hinv.enabled ch hch
  todo := by
    refine Or.inr ⟨c, 0, if_pos rfl, hidle, rfl, descAfter_dmaMemcpy c _, Or.inl ?_⟩
    simp [dmaMemcpy]

/-- A store of the processor. -/
theorem DmaInv.store (hinv : DmaInv h s) {st : Store} {rest : List Store}
    (htodo : s.todo = st :: rest) (hok : Fetched s .store) :
    DmaInv ((.store, none) :: h) { s.put st with todo := rest } := by
  rcases hinv.todo with hnil | ⟨c, n, hc, hidle, hdrop, hafter, hpoint⟩
  · rw [htodo] at hnil
    exact absurd hnil (by simp)
  obtain ⟨hrest, hst⟩ := dmaMemcpy_drop (htodo.symm.trans hdrop)
  rw [htodo, descAfter_cons] at hafter
  rw [htodo] at hpoint
  rcases hst with ⟨f, v, rfl⟩ | rfl | rfl | ⟨rfl, rfl⟩
  · -- a field, which no channel has still to fetch
    refine ⟨?_, hinv.enabled, Or.inr ⟨c, n + 1, hc, hidle, hrest, hafter, ?_⟩⟩
    · refine hinv.undisturbed.write fun ch d hd => hok f v rest htodo ch ?_
      by_contra hnot
      simp [dueDesc, hnot] at hd
    · simpa [DmaState.put] using hpoint
  · -- the channel is stopped, which it is
    have hsame : Function.update s.channels c.channel .idle = s.channels := by
      rw [← hidle, Function.update_eq_self]
    simp only [DmaState.put, Bool.false_eq_true, if_false, hsame]
    exact ⟨hinv.undisturbed, hinv.enabled,
      Or.inr ⟨c, n + 1, hc, hidle, hrest, hafter, by simpa using hpoint⟩⟩
  · -- the channel is pointed at the descriptor
    refine ⟨hinv.undisturbed, fun ch hch => ?_, Or.inr ⟨c, n + 1, hc, hidle, hrest, hafter, ?_⟩⟩
    · refine ⟨(hinv.enabled ch hch).1, ?_⟩
      by_cases heq : ch = c.channel
      · subst heq
        exact Function.update_self _ _ _
      · exact (Function.update_of_ne heq _ _).trans (hinv.enabled ch hch).2
    · exact Or.inr (Function.update_self _ _ _)
  · -- the channel is enabled, and the descriptor is due to it
    have hdesc : s.memcpyDesc = c.desc := hafter
    have hpoints : s.descAddr c.channel = true := by simpa using hpoint
    refine ⟨?_, fun ch hch => ?_, Or.inl rfl⟩
    · refine hinv.undisturbed.grant c.channel hdesc ?_ fun ch hne => ?_
      · simp [dueDesc, DmaState.put, enabledBy, hc]
      · simp [dueDesc, DmaState.put, Function.update_of_ne hne, enabledBy]
    · by_cases heq : ch = c.channel
      · subst heq
        exact ⟨⟨c, hc⟩, hpoints⟩
      · simp only [DmaState.put, Function.update_of_ne heq] at hch
        exact hinv.enabled ch hch

/-- A channel that is at work, and not to be enabled now, changes its state. -/
theorem DmaInv.move (hinv : DmaInv h s) {ch : Fin 12} {p : Channel} (hp : p ≠ .enabled)
    (hlive : s.channels ch ≠ .idle) {e : DmaEvent} (o : Option DmaDesc)
    (he : ∀ ch, enabledBy ((e, o) :: h) ch = enabledBy h ch) :
    DmaInv ((e, o) :: h) { s with channels := Function.update s.channels ch p } where
  undisturbed := by
    refine hinv.undisturbed.settle fun ch' d hd => ?_
    by_cases heq : ch' = ch
    · subst heq
      simp [dueDesc, hp] at hd
    · simpa [dueDesc, Function.update_of_ne heq, he] using hd
  enabled ch' hch' := by
    by_cases heq : ch' = ch
    · subst heq
      exact absurd (by simpa using hch') hp
    · rw [he]
      exact hinv.enabled ch' (by simpa [Function.update_of_ne heq] using hch')
  todo := by
    rcases hinv.todo with hnil | ⟨c, n, hc, hidle, hrest⟩
    · exact Or.inl hnil
    · have hne : c.channel ≠ ch := by
        rintro rfl
        exact hlive hidle
      refine Or.inr ⟨c, n, (he _).trans hc, ?_, hrest⟩
      simpa [Function.update_of_ne hne] using hidle

/-- What a channel fetches is the descriptor of its call. -/
theorem DmaInv.memcpyDesc_eq (hinv : DmaInv h s) {ch : Fin 12} (hch : s.channels ch = .enabled) :
    ∃ c, enabledBy h ch = some c ∧ s.memcpyDesc = c.desc := by
  obtain ⟨⟨c, hc⟩, -⟩ := hinv.enabled ch hch
  refine ⟨c, hc, hinv.undisturbed ch c.desc ?_⟩
  rw [dueDesc, if_pos hch, hc]
  rfl

end OneStep

/-- **Every step under the condition keeps the invariant**, and every descriptor that is
fetched is the right one. -/
theorem dmaInv_step {h : List (DmaEvent × Option DmaDesc)} {s : DmaState} (hinv : DmaInv h s)
    {e : DmaEvent} (hok : Fetched s e) :
    DmaInv ((e, (dmaStep s e).1) :: h) (dmaStep s e).2 ∧
      ∀ ch d, e = .fetch ch → (dmaStep s e).1 = some d →
        ∃ c, enabledBy h ch = some c ∧ Performs d c := by
  cases e with
  | call c =>
    refine ⟨?_, by simp⟩
    simp only [dmaStep, if_pos hok.1]
    exact hinv.call hok.2
  | store =>
    refine ⟨?_, by simp⟩
    cases htodo : s.todo with
    | nil =>
      simp only [dmaStep, htodo]
      exact ⟨hinv.undisturbed, hinv.enabled, hinv.todo⟩
    | cons st rest =>
      simp only [dmaStep, htodo]
      exact hinv.store htodo hok
  | fetch ch =>
    by_cases hch : s.channels ch = .enabled ∧ s.descAddr ch = true
    · simp only [dmaStep, if_pos hch]
      refine ⟨hinv.move (by simp) (by simp [hch.1]) _ fun _ => rfl, ?_⟩
      rintro ch' d he hd
      obtain rfl := DmaEvent.fetch.inj he
      obtain ⟨c, hc, hdesc⟩ := hinv.memcpyDesc_eq hch.1
      refine ⟨c, hc, ?_⟩
      rw [← Option.some.inj hd, hdesc]
      exact ⟨rfl, rfl, rfl⟩
    · simp only [dmaStep, if_neg hch]
      exact ⟨⟨hinv.undisturbed, hinv.enabled, hinv.todo⟩, by simp⟩
  | finish ch =>
    refine ⟨?_, by simp⟩
    simp only [dmaStep]
    split
    · rename_i d hrun
      exact hinv.move (by simp) (by simp [hrun]) _ fun _ => rfl
    · exact ⟨hinv.undisturbed, hinv.enabled, hinv.todo⟩

/-! ### Every run -/

theorem dmaInv_of_fetched {h : List (DmaEvent × Option DmaDesc)} {s : DmaState}
    (hr : Reach (fnStep dmaStep) Fetched DmaState.init h s) : DmaInv h s ∧ DmaOk h := by
  refine hr.fnInvariant (fun h s => DmaInv h s ∧ DmaOk h) ⟨dmaInv_init, trivial⟩ ?_
  rintro h s e ⟨hinv, hperf⟩ hok
  obtain ⟨hnext, hnew⟩ := dmaInv_step hinv hok
  exact ⟨hnext, hperf, hnew⟩

/-- **No two copies mix** in any interleaving in which the descriptor is written only while no
channel has still to fetch it. -/
theorem dmaOk_of_fetched {h : List (DmaEvent × Option DmaDesc)} {s : DmaState}
    (hr : Reach (fnStep dmaStep) Fetched DmaState.init h s) : DmaOk h :=
  (dmaInv_of_fetched hr).2

/-- Two copies on two channels. -/
def copyZero : MemcpyCall := ⟨0x50000000#32, 0x40000000#32, 64#32, 0⟩
def copyOne : MemcpyCall := ⟨0x60000000#32, 0x41000000#32, 128#32, 1⟩

/-- A call makes its nine stores. -/
def makeCall (c : MemcpyCall) : List DmaEvent := .call c :: List.replicate 9 .store

/-- The second call comes after the fetch of the first, whose transfer goes on. -/
theorem dmaOk_of_fetched_inTurn :
    let r := runFn dmaStep [] DmaState.init
      (makeCall copyZero ++ .fetch 0 :: makeCall copyOne ++ [.fetch 1])
    DmaOk r.1 ∧ r.2.channels 0 = .running copyZero.desc ∧
      r.2.channels 1 = .running copyOne.desc := by
  intro r
  have hreach : Reach (fnStep dmaStep) Fetched DmaState.init r.1 r.2 := by
    refine reach_runFn ⟨⟨rfl, rfl⟩, ?_, ?_, ?_, ?_, ?_, ?_, ?_, ?_, ?_, trivial, ⟨rfl, rfl⟩,
      ?_, ?_, ?_, ?_, ?_, ?_, ?_, ?_, ?_, trivial, trivial⟩
    all_goals exact fetched_store (by decide)
  exact ⟨dmaOk_of_fetched hreach, by decide, by decide⟩

/-- **A second call overtakes a fetch.** Channel 0 is enabled, and before the engine fetches its
descriptor a call for channel 1 fills it in again: channel 0 makes the copy of channel 1. -/
theorem not_dmaOk_overtaken :
    let r := runFn dmaStep [] DmaState.init (makeCall copyZero ++ makeCall copyOne ++ [.fetch 0])
    Reach (fnStep dmaStep) Waited DmaState.init r.1 r.2 ∧
      r.1.head? = some (.fetch 0, some copyOne.desc) ∧ ¬DmaOk r.1 := by
  intro r
  refine ⟨reach_runFn ⟨⟨rfl, rfl⟩, trivial, trivial, trivial, trivial, trivial, trivial, trivial,
    trivial, trivial, ⟨rfl, rfl⟩, trivial, trivial, trivial, trivial, trivial, trivial, trivial,
    trivial, trivial, trivial, trivial⟩, by decide, fun hok => ?_⟩
  obtain ⟨c, hc, hperf⟩ := hok.2 0 copyOne.desc rfl rfl
  obtain rfl : copyZero = c := Option.some.inj hc
  exact absurd hperf.1 (by decide)

/-! ### The condition is needed -/

/-- A store that changes the descriptor of a call changes what the call asks for: the other
fields are the same in every call. -/
theorem not_performs_set {c c' : MemcpyCall} {f : Field} {v : BitVec 32}
    (hmem : .desc f v ∈ dmaMemcpy c') (hne : c.desc.set v f ≠ c.desc) :
    ¬Performs (c.desc.set v f) c := by
  rintro ⟨hdest, hsrc, hcount⟩
  refine hne ?_
  simp only [dmaMemcpy, List.mem_cons, Store.desc.injEq, reduceCtorEq, List.not_mem_nil,
    or_false] at hmem
  rcases hmem with ⟨rfl, rfl⟩ | ⟨rfl, -⟩ | ⟨rfl, -⟩ | ⟨rfl, -⟩ | ⟨rfl, rfl⟩ | ⟨rfl, rfl⟩
  · rfl
  · simpa [DmaDesc.set, MemcpyCall.desc] using hsrc
  · simpa [DmaDesc.set, MemcpyCall.desc] using hdest
  · simpa [DmaDesc.set, MemcpyCall.desc] using hcount
  · rfl
  · rfl

/-- **A store that does not wait can spoil a copy**: from a state reached so far without a
fault, a store to the descriptor while a channel has still to fetch it leaves that channel one
fetch away from a wrong transfer. -/
theorem not_dmaOk_of_overwritten {h : List (DmaEvent × Option DmaDesc)} {s : DmaState}
    (hr : Reach (fnStep dmaStep) Fetched DmaState.init h s) (hbad : ¬Fetched s .store) :
    ∃ ch, ¬DmaOk (runFn dmaStep h s [.store, .fetch ch]).1 := by
  obtain ⟨hinv, -⟩ := dmaInv_of_fetched hr
  simp only [Fetched, Classical.not_imp, not_forall] at hbad
  obtain ⟨f, v, rest, htodo, ch, hch, hne⟩ := hbad
  obtain ⟨c, hc, hdesc⟩ := hinv.memcpyDesc_eq hch
  have hpoints := (hinv.enabled ch hch).2
  rcases hinv.todo with hnil | ⟨c', n, -, -, hdrop, -⟩
  · rw [htodo] at hnil
    exact absurd hnil (by simp)
  rw [hdesc] at hne
  refine ⟨ch, fun hok => ?_⟩
  have hfetch := hok.2 ch (s.memcpyDesc.set v f) rfl
    (by simp [dmaStep, htodo, DmaState.put, hch, hpoints])
  obtain ⟨d, hd, hperf⟩ := hfetch
  obtain rfl : c = d := Option.some.inj (hc.symm.trans hd)
  rw [hdesc] at hperf
  have hmem : Store.desc f v ∈ (dmaMemcpy c').drop n := by
    rw [← hdrop, htodo]
    exact List.mem_cons_self
  exact not_performs_set (List.mem_of_mem_drop hmem) hne hperf

end Dma

end BareMetal
