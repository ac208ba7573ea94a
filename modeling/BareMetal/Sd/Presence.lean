import BareMetal.Sd.Detect

/-!
# Whose initialization it was

`sd_detect` says that a card is present when `fs_init` has returned `0`, and `fs_init` returns
the status byte of the card driver. That byte, and the tags of its sector cache, belong to the
driver and not to a card: a successful initialization clears the one and empties the other, and
a failed one **leaves both as they are**. For the first card that is right, since the byte
begins as “not initialized”; for a later one a failure goes unnoticed. The card is reported as
present, and the single sectors that were read from its predecessor are read again, from the
cache (`BareMetal.Sd.not_presenceOk_secondCard`). A card that is exchanged between two calls of
`sd_detect` is not noticed at all. And an initialization that succeeds empties the cache by its tags
only: until its card is initialized the sectors of the card before can still be read, and under the
number that tags an empty entry also afterwards (`BareMetal.Sd.not_presenceOk_of_stale`).

So that a sector can be told from another with the same content, it carries the number of the
card it was read from (`BareMetal.Sd.Sector`); no function looks at it. The property is
`BareMetal.Sd.PresenceOk`, and it holds along the runs in which a card is put in only while
`sd_detect` knows the slot to be empty, no initialization fails once one has succeeded, and single
sectors are read only while `sd_detect` knows of a card, and not under that number
(`BareMetal.Sd.presenceOk_of_bayOk`).

This is the driver's side of `BareMetal.Sd.sdDetect`, which has the volumes
(`BareMetal.Sd.sdDetect_bay`).
-/

namespace BareMetal

namespace Sd

open FatFs

/-! ### The code -/

/-- A sector, with the number of its card; what has never been on a card has the number 0. -/
structure Sector (D : Type) where
  origin : ℕ
  data : D
  deriving DecidableEq, Repr

/-- The card driver, the flag of `sd_detect`, whether a card is in the slot, and how many have
been. -/
structure Bay (D : Type) where
  driver : Driver (Sector D)
  detected : Bool
  inserted : Bool
  cards : ℕ

/-- How `mmc_read_blocks` ends. All that it can leave in its destination comes from the card in the
slot, or was there before. -/
inductive BayRead (D : Type) where
  | ok
  /-- It fails, and has left this in the first sector of its destination, or nothing. -/
  | fail (left : Option D)

/-- Something that happens to the slot. -/
inductive BayEvent (D : Type) where
  | insert (content : BitVec 32 → D)
  | remove
  /-- `sd_detect`; its `sunxi_mmc_init` would succeed or not. -/
  | sdDetect (mmcInit : Bool)
  | read (drv : BitVec 8) (sector : BitVec 32) (count : ℕ) (r : BayRead D)
  | write (drv : BitVec 8) (sector : BitVec 32) (data : List D) (w : CardWrite)

/-- What `sd_detect` returns, how `sunxi_mmc_init` ended if it was run, and the sectors a read
delivers. -/
structure BayResult (D : Type) where
  detected : Option Bool
  mmcInit : Option Bool
  sectors : List (Sector D)
  deriving DecidableEq, Repr

variable {D : Type}

/-- Power-on, with an empty slot. -/
def Bay.init (x : D) : Bay D :=
  ⟨⟨staNoinit, ⟨fun _ => 0#32, fun _ => ⟨0, x⟩⟩, fun _ => ⟨0, x⟩⟩, false, false, 0⟩

/-- The end of a read, for the driver. -/
def BayRead.toCardRead (s : Bay D) (sector : BitVec 32) : BayRead D → CardRead (Sector D)
  | .ok => .ok
  | .fail none => .fail (s.driver.cache.buf (cacheIndex sector))
  | .fail (some d) => .fail ⟨s.cards, d⟩

/-- `sd_detect`. -/
def bayDetect (s : Bay D) (mmcInit : Bool) : BayResult D × Bay D :=
  if !s.detected && s.inserted then
    let r := mmcDiskInitialize s.driver 0#8 mmcInit
    (⟨some (r.1 == 0#8), some mmcInit, []⟩, { s with driver := r.2, detected := r.1 == 0#8 })
  else if s.detected && !s.inserted then
    (⟨some false, none, []⟩, { s with detected := false })
  else
    (⟨some s.detected, none, []⟩, s)

/-- One event. -/
def bayStep (s : Bay D) : BayEvent D → BayResult D × Bay D
  | .insert content =>
      (⟨none, none, []⟩, { s with
        driver := { s.driver with card := fun sector => ⟨s.cards + 1, content sector⟩ }
        inserted := true
        cards := s.cards + 1 })
  | .remove => (⟨none, none, []⟩, { s with inserted := false })
  | .sdDetect mmcInit => bayDetect s mmcInit
  | .read drv sector count r =>
      let o := mmcDiskRead s.driver drv sector count (r.toCardRead s sector)
      (⟨none, none, o.1.2⟩, { s with driver := o.2 })
  | .write drv sector data w =>
      let o := mmcDiskWrite s.driver drv sector (data.map fun d => ⟨s.cards, d⟩) w
      (⟨none, none, []⟩, { s with driver := o.2 })

/-! ### Presence -/

/-- How the initialization of the card that was inserted last has ended, if there has been
one. -/
def cardInit : List (BayEvent D × BayResult D) → Option Bool
  | [] => none
  | (.insert _, _) :: _ => none
  | (_, o) :: h => o.mmcInit.or (cardInit h)

/-- An initialization has failed, of whatever card. -/
def FailedInit (h : List (BayEvent D × BayResult D)) : Prop := ∃ p ∈ h, p.2.mmcInit = some false

/-- How many cards have been inserted. -/
def insertions : List (BayEvent D × BayResult D) → ℕ
  | [] => 0
  | (.insert _, _) :: h => insertions h + 1
  | _ :: h => insertions h

/-- Every `sd_detect` that returned `1` did so after the card had been initialized. -/
def Reported : List (BayEvent D × BayResult D) → Prop
  | [] => True
  | (e, o) :: h => (o.detected = some true → cardInit ((e, o) :: h) = some true) ∧ Reported h

/-- Once an initialization has failed, no read has ever delivered a sector of an earlier card. -/
def Unmixed : List (BayEvent D × BayResult D) → Prop
  | [] => True
  | (_, o) :: h => (FailedInit h → ∀ x ∈ o.sectors, ¬x.origin < insertions h) ∧ Unmixed h

/-- **A card is present only after its own initialization.** -/
structure PresenceOk (h : List (BayEvent D × BayResult D)) : Prop where
  reported : Reported h
  unmixed : Unmixed h

/-- A card is put in only while `sd_detect` knows the slot to be empty; an initialization fails only
while none has succeeded; and once one has, a single sector is read only while `sd_detect` knows of
a card, and not under the number that tags an empty entry of the cache. -/
def BayOk (s : Bay D) : BayEvent D → Prop
  | .insert _ => s.detected = false
  | .sdDetect mmcInit => s.detected = false → s.inserted = true → mmcInit = false →
      has s.driver.status staNoinit = true
  | .read drv sector count _ => drv = 0#8 → has s.driver.status staNoinit = false → count = 1 →
      s.detected = true ∧ sector ≠ emptyTag
  | _ => True

/-! ### What the calls do -/

/-- Registering a volume changes no status. -/
theorem fMount_delayed_status (v : Volumes) (fs : Option FsPtr) (path : Path) (io : MountIo) :
    (fMount v fs path false io).2.2.status = v.status := by
  unfold fMount
  split
  · rfl
  · simp [clearFs_status]

/-- What `fs_init` returns, and the status of the drive it leaves. -/
theorem fsInit_status (v : Volumes) (mmcInit : Bool) :
    (fsInit v mmcInit).1 = mmcStatus (v.status 0) 0 mmcInit ∧
      (fsInit v mmcInit).2.2.status 0 = mmcStatus (v.status 0) 0 mmcInit := by
  unfold fsInit
  dsimp only
  split
  · exact ⟨rfl, by dsimp only; rw [Function.update_self]⟩
  · rename_i hzero
    refine ⟨(not_not.mp hzero).symm, ?_⟩
    rw [fMount_delayed_status]
    dsimp only
    rw [Function.update_self]

/-- **The driver's side of `sd_detect` is the one of the volumes**: with the same flag and the
same status they return the same, and leave the same flag and the same status. -/
theorem sdDetect_bay {s : Slot} {b : Bay D} (hflag : s.detected = b.detected)
    (hstatus : s.vols.status 0 = b.driver.status) (mmcInit : Bool) :
    (sdDetect s (!b.inserted) mmcInit).1.detected = (bayDetect b mmcInit).1.detected ∧
      (sdDetect s (!b.inserted) mmcInit).2.detected = (bayDetect b mmcInit).2.detected ∧
      (sdDetect s (!b.inserted) mmcInit).2.vols.status 0 =
        (bayDetect b mmcInit).2.driver.status := by
  obtain ⟨hret, hleft⟩ := fsInit_status s.vols mmcInit
  have hinit : (mmcDiskInitialize b.driver 0#8 mmcInit).1 =
      mmcStatus (s.vols.status 0) 0 mmcInit := by
    rw [mmcDiskInitialize_status, hstatus]
  have hkept : (mmcDiskInitialize b.driver 0#8 mmcInit).2.status =
      (mmcDiskInitialize b.driver 0#8 mmcInit).1 := by
    cases mmcInit <;> rfl
  unfold sdDetect bayDetect
  rw [hflag, Bool.not_not]
  split
  · dsimp only
    rw [hret, hleft, hkept, hinit]
    exact ⟨rfl, rfl, rfl⟩
  · split
    · refine ⟨rfl, rfl, ?_⟩
      rw [fsDeinit_eq]
      exact hstatus
    · exact ⟨rfl, hflag, hstatus⟩

/-- A failed initialization leaves the driver as it was. -/
theorem mmcDiskInitialize_false (s : Driver (Sector D)) :
    mmcDiskInitialize s 0#8 false = (s.status, s) := rfl

section Blocks

variable {B : Type} {P : B → Prop}

theorem writeBlocks_all {card : BitVec 32 → B} (hcard : ∀ t, P (card t)) (sector : BitVec 32)
    {data : List B} (hdata : ∀ b ∈ data, P b) (t : BitVec 32) :
    P (writeBlocks card sector data t) := by
  induction data generalizing card sector with
  | nil => exact hcard t
  | cons b data ih =>
    refine ih (fun t => ?_) _ fun b hb => hdata b (List.mem_cons_of_mem _ hb)
    by_cases ht : t = sector
    · subst ht
      rw [Function.update_self]
      exact hdata b List.mem_cons_self
    · rw [Function.update_of_ne ht]
      exact hcard t

theorem cacheBlocks_every {c : DirectMapped (Fin 8192) (BitVec 32) B}
    (hc : DirectMapped.Every emptyTag P c) (sector : BitVec 32) {data : List B}
    (hdata : ∀ b ∈ data, P b) : DirectMapped.Every emptyTag P (cacheBlocks c sector data) := by
  induction data generalizing c sector with
  | nil => exact hc
  | cons b data ih =>
    exact ih (hc.install _ _ (hdata b List.mem_cons_self)) _
      fun b hb => hdata b (List.mem_cons_of_mem _ hb)

end Blocks

/-! ### The invariant -/

/-- The driver of a slot: all that is on the card, and all that is cached while the flag is set, is of
the card that was inserted last. -/
structure Bay.Own (s : Bay D) : Prop where
  card : ∀ sector, (s.driver.card sector).origin = s.cards
  cached : s.detected = true → DirectMapped.Every emptyTag (·.origin = s.cards) s.driver.cache

/-- While the flag is set, the card was initialized; and the driver has nothing of another. -/
structure BayInv (h : List (BayEvent D × BayResult D)) (s : Bay D) : Prop where
  detected : s.detected = true → cardInit h = some true
  cards : insertions h = s.cards
  own : s.Own
  ok : PresenceOk h

variable {h : List (BayEvent D × BayResult D)} {s : Bay D}

/-- **What a read delivers** is of the card that was inserted last, and so is what it caches. -/
theorem Bay.Own.read (hown : s.Own) {drv : BitVec 8} {sector : BitVec 32} {count : ℕ} {r : BayRead D}
    (hok : BayOk s (.read drv sector count r)) :
    (∀ x ∈ (bayStep s (.read drv sector count r)).1.sectors, x.origin = s.cards) ∧
      (bayStep s (.read drv sector count r)).2.Own := by
  simp only [bayStep]
  rcases mmcDiskRead_inv s.driver drv sector count (r.toCardRead s sector) with
    ⟨hnone, hkeep⟩ | ⟨left, hleft, hnone, hscribble⟩ | ⟨hmiss, hinstall⟩ | ⟨hready, htag, hhit, hkeep⟩ |
    ⟨hpast, hkeep⟩
  · rw [hnone, hkeep]
    exact ⟨by simp, hown⟩
  · rw [hnone, hscribble]
    refine ⟨by simp, hown.card, fun hflag => ?_⟩
    cases r with
    | ok => cases hleft
    | fail d =>
      cases d with
      | none =>
        obtain rfl : _ = left := CardRead.fail.inj hleft
        rw [DirectMapped.scribble_self]
        exact hown.cached hflag
      | some d =>
        obtain rfl : _ = left := CardRead.fail.inj hleft
        exact (hown.cached hflag).scribble _ rfl
  · rw [hmiss, hinstall]
    refine ⟨?_, hown.card, fun hflag => (hown.cached hflag).install _ _ (hown.card sector)⟩
    simpa using hown.card sector
  · rw [hhit, hkeep]
    obtain ⟨hflag, hne⟩ := hok hready.1 hready.2.1 hready.2.2
    refine ⟨?_, hown⟩
    simpa using hown.cached hflag (cacheIndex sector) (by rwa [htag])
  · rw [hpast, hkeep]
    refine ⟨fun x hx => ?_, hown⟩
    obtain ⟨i, -, rfl⟩ := List.mem_map.mp hx
    exact hown.card _

/-- What is written is of the card that was inserted last. -/
theorem Bay.Own.write (hown : s.Own) (drv : BitVec 8) (sector : BitVec 32) (data : List D)
    (w : CardWrite) : (bayStep s (.write drv sector data w)).2.Own := by
  have hdata : ∀ x ∈ data.map fun d => (⟨s.cards, d⟩ : Sector D), x.origin = s.cards := by simp
  simp only [bayStep]
  rcases mmcDiskWrite_inv s.driver drv sector (data.map fun d => ⟨s.cards, d⟩) w with
    hkeep | ⟨n, hpart⟩ | hall
  · rw [hkeep]
    exact hown
  · rw [hpart]
    exact ⟨writeBlocks_all hown.card sector fun x hx => hdata x (List.mem_of_mem_take hx), hown.cached⟩
  · rw [hall]
    exact ⟨writeBlocks_all hown.card sector hdata,
      fun hflag => cacheBlocks_every (hown.cached hflag) sector hdata⟩

/-- An event that runs no initialization and reports nothing. -/
theorem BayInv.quiet (hinv : BayInv h s) {e : BayEvent D} {x : List (Sector D)} {t : Bay D}
    (hflag : t.detected = true → s.detected = true ∧ cardInit ((e, ⟨none, none, x⟩) :: h) =
      cardInit h)
    (hcards : insertions ((e, ⟨none, none, x⟩) :: h) = t.cards) (hown : t.Own)
    (hx : ∀ y ∈ x, y.origin = s.cards) : BayInv ((e, ⟨none, none, x⟩) :: h) t where
  detected ht := by
    rw [(hflag ht).2]
    exact hinv.detected (hflag ht).1
  cards := hcards
  own := hown
  ok := by
    refine ⟨⟨fun hcon => by simp at hcon, hinv.ok.reported⟩, ⟨fun _ y hy => ?_, hinv.ok.unmixed⟩⟩
    rw [hx y hy, hinv.cards]
    exact lt_irrefl _

/-- `sd_detect`, in its three cases. -/
theorem bayInv_bayDetect (hinv : BayInv h s) {mmcInit : Bool} (hok : BayOk s (.sdDetect mmcInit)) :
    BayInv ((.sdDetect mmcInit, (bayDetect s mmcInit).1) :: h) (bayDetect s mmcInit).2 := by
  have hunmixed : ∀ o : BayResult D, o.sectors = [] →
      Unmixed ((.sdDetect mmcInit, o) :: h) := by
    intro o hempty
    refine ⟨fun _ x hx => ?_, hinv.ok.unmixed⟩
    rw [hempty] at hx
    simp at hx
  unfold bayDetect
  split
  · rename_i hnew
    simp only [Bool.and_eq_true, Bool.not_eq_true'] at hnew
    cases mmcInit with
    | true =>
      -- all the tags are those of empty entries
      refine ⟨fun _ => rfl, hinv.cards, ⟨hinv.own.card, fun _ => ?_⟩,
        ⟨⟨fun _ => rfl, hinv.ok.reported⟩, hunmixed _ rfl⟩⟩
      exact DirectMapped.every_empty fun _ => rfl
    | false =>
      -- the status byte says so, since no initialization has succeeded before
      have hnoinit := hok hnew.1 hnew.2 rfl
      have hne : (s.driver.status == 0#8) = false := by
        rw [beq_eq_false_iff_ne]
        intro hzero
        rw [hzero] at hnoinit
        exact absurd hnoinit (by decide)
      rw [mmcDiskInitialize_false]
      simp only [hne]
      exact ⟨fun hcon => by simp at hcon, hinv.cards,
        ⟨hinv.own.card, fun hcon => by simp at hcon⟩,
        ⟨⟨fun hcon => by simp at hcon, hinv.ok.reported⟩, hunmixed _ rfl⟩⟩
  · split
    · exact ⟨fun hcon => by simp at hcon, hinv.cards,
        ⟨hinv.own.card, fun hcon => by simp at hcon⟩,
        ⟨⟨fun hcon => by simp at hcon, hinv.ok.reported⟩, hunmixed _ rfl⟩⟩
    · exact ⟨hinv.detected, hinv.cards, hinv.own,
        ⟨⟨fun hret => hinv.detected (by simpa using hret), hinv.ok.reported⟩, hunmixed _ rfl⟩⟩

/-- **Every event keeps the invariant.** -/
theorem bayInv_step (hinv : BayInv h s) {e : BayEvent D} (hok : BayOk s e) :
    BayInv ((e, (bayStep s e).1) :: h) (bayStep s e).2 := by
  cases e with
  | insert content =>
    have hout : s.detected = false := hok
    refine hinv.quiet (fun hflag => ?_) (congrArg (· + 1) hinv.cards)
      ⟨fun _ => rfl, fun hflag => ?_⟩ (by simp)
    · rw [show s.detected = true from hflag] at hout
      cases hout
    · rw [show s.detected = true from hflag] at hout
      cases hout
  | remove =>
    exact hinv.quiet (fun hflag => ⟨hflag, rfl⟩) hinv.cards ⟨hinv.own.card, hinv.own.cached⟩ (by simp)
  | sdDetect mmcInit => exact bayInv_bayDetect hinv hok
  | read drv sector count r =>
    obtain ⟨hx, hown⟩ := hinv.own.read hok
    exact hinv.quiet (fun hflag => ⟨hflag, rfl⟩) hinv.cards hown hx
  | write drv sector data w =>
    exact hinv.quiet (fun hflag => ⟨hflag, rfl⟩) hinv.cards (hinv.own.write drv sector data w) (by simp)

/-! ### Every run -/

/-- **A card is present only after its own initialization**, and nothing of an earlier card is ever
read, along every run in which cards are not exchanged behind the back of `sd_detect`, no
initialization fails after one that succeeded, and single sectors are read of a card that is known,
and not under the number of an empty entry. -/
theorem presenceOk_of_bayOk {x : D}
    (hr : Reach (fnStep bayStep) BayOk (Bay.init x) h s) : PresenceOk h := by
  have hinv : BayInv h s := by
    refine hr.fnInvariant BayInv ⟨?_, rfl, ⟨fun _ => rfl, ?_⟩, ⟨trivial, trivial⟩⟩ ?_
    · exact fun hcon => by simp [Bay.init] at hcon
    · exact fun hcon => by simp [Bay.init] at hcon
    · intro h s e hinv hok
      exact bayInv_step hinv hok
  exact hinv.ok

/-- The first card does not initialize at first, then it does, and one of its sectors is read;
a second card takes its place and does, too, and the same sector is read of it. -/
theorem presenceOk_of_bayOk_retry :
    let r := runFn bayStep [] (Bay.init false) [.insert fun _ => true, .sdDetect false,
      .read 0#8 0#32 1 .ok, .sdDetect true, .read 0#8 0#32 1 .ok, .remove, .sdDetect true,
      .insert fun _ => false, .sdDetect true, .read 0#8 0#32 1 .ok]
    PresenceOk r.1 ∧ FailedInit r.1 ∧
      r.1.head?.map (fun p => p.2.sectors) = some [⟨2, false⟩] := by
  intro r
  have hreach : Reach (fnStep bayStep) BayOk (Bay.init false) r.1 r.2 := by
    refine reach_runFn ⟨rfl, fun _ _ _ => by decide, fun _ hcon _ => ?_, fun _ _ hcon => ?_,
      fun _ _ _ => ⟨by decide, by decide⟩, trivial, fun _ _ hcon => ?_, rfl, fun _ _ hcon => ?_,
      fun _ _ _ => ⟨by decide, by decide⟩, trivial⟩
    · exact absurd hcon (by decide)
    · simp at hcon
    · simp at hcon
    · simp at hcon
  exact ⟨presenceOk_of_bayOk hreach, ⟨_, List.mem_of_getElem? (i := 8) rfl, rfl⟩, by decide⟩

/-- **The second card.** A card is initialized, its sector 0 is read, and it is taken out. The
initialization of the next card fails: it is reported as present, and sector 0 is delivered from
the first card. -/
theorem not_presenceOk_secondCard :
    let r := runFn bayStep [] (Bay.init false) [.insert fun _ => true, .sdDetect true,
      .read 0#8 0#32 1 .ok, .remove, .sdDetect true, .insert fun _ => false, .sdDetect false,
      .read 0#8 0#32 1 .ok]
    Reach (fnStep bayStep) Always (Bay.init false) r.1 r.2 ∧
      r.1.head?.map (fun p => p.2.sectors) = some [⟨1, true⟩] ∧
      (r.1.drop 1).head?.map (fun p => (p.2.detected, p.2.mmcInit)) =
        some (some true, some false) ∧
      ¬Reported r.1 ∧ ¬Unmixed r.1 ∧ ¬PresenceOk r.1 := by
  intro r
  have hreported : ¬Reported r.1 := fun hcon => absurd (hcon.2.1 (by decide)) (by decide)
  have hunmixed : ¬Unmixed r.1 := fun hcon =>
    absurd (hcon.1 ⟨_, List.mem_cons_self, rfl⟩ ⟨1, true⟩ (by decide)) (by decide)
  exact ⟨reach_runFn okAlong_always, by decide, by decide, hreported, hunmixed,
    fun hcon => hreported hcon.reported⟩

/-! ### The condition is needed -/

/-- **An initialization that fails after one that succeeded is reported as a success.** -/
theorem not_presenceOk_of_failedInit (hempty : s.detected = false) (hin : s.inserted = true)
    (hready : s.driver.status = 0#8) :
    ¬PresenceOk ((.sdDetect false, (bayDetect s false).1) :: h) := by
  intro hcon
  have hres : (bayDetect s false).1 = ⟨some true, some false, []⟩ := by
    simp [bayDetect, hempty, hin, mmcDiskInitialize_false, hready]
  have hinit := hcon.reported.1 (by rw [hres])
  rw [hres] at hinit
  simp [cardInit] at hinit

/-- **A card that is put in while the flag is set is reported without any initialization.** -/
theorem not_presenceOk_of_exchange (hflag : s.detected = true) (content : BitVec 32 → D)
    (o : BayResult D) (mmcInit : Bool) :
    ¬PresenceOk ((.sdDetect mmcInit, (bayDetect (bayStep s (.insert content)).2 mmcInit).1) ::
      (.insert content, o) :: h) := by
  intro hcon
  have hres : (bayDetect (bayStep s (.insert content)).2 mmcInit).1 = ⟨some true, none, []⟩ := by
    simp [bayDetect, bayStep, hflag]
  have hinit := hcon.reported.1 (by rw [hres])
  rw [hres] at hinit
  simp [cardInit] at hinit

/-- **A sector of an earlier card that is still in the cache is delivered.** It is there under its own
number as long as the next card is not initialized, and from then on under the number that tags an
empty entry. -/
theorem not_presenceOk_of_stale (hfailed : FailedInit h)
    (hready : has s.driver.status staNoinit = false) {sector : BitVec 32}
    (htag : s.driver.cache.tag (cacheIndex sector) = sector)
    (hold : (s.driver.cache.buf (cacheIndex sector)).origin < insertions h) (r : BayRead D) :
    ¬PresenceOk ((.read 0#8 sector 1 r, (bayStep s (.read 0#8 sector 1 r)).1) :: h) := by
  intro hcon
  have hres : (bayStep s (.read 0#8 sector 1 r)).1.sectors =
      [s.driver.cache.buf (cacheIndex sector)] := by
    simp [bayStep, mmcDiskRead, hready, sdcardRead, htag]
  exact hcon.unmixed.1 hfailed _ (by rw [hres]; exact List.mem_singleton_self _) hold

end Sd

end BareMetal
