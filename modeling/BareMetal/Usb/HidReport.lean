import BareMetal.Handover
import BareMetal.Memory
import BareMetal.Usb.HidHost

/-!
# Whose report is it?

All keyboards write their reports to one buffer, all mice to another, and all other input
devices to a third: `usb.c` asks every device of a class for its next report at the same
address. A controller writes a report when the device sends it; the interrupt handler runs
some time later and shows the buffer to the application, in the name of the device whose
transfer has ended. In between, the report is *due* to the handler, a hand-over through shared
memory (`BareMetal.Undisturbed`), and any other device of the class may overwrite it.

The application sees the report of the device it is told (`BareMetal.Usb.ReportsOk`) as long as
no transfer overwrites one that has still to be handled (`BareMetal.Usb.reportsOk_of_spared`),
and otherwise not (`BareMetal.Usb.not_reportsOk_of_overwritten`). With a single device of each
class, and reports that fit their buffers, nothing is overwritten
(`BareMetal.Usb.spares_of_alone`).

The entries of the devices are those of `BareMetal.Usb.HidState`; what is added here is the
memory and, for each pipe, the transfer that is on its way. A pipe that is closed loses its
transfer.
-/

namespace BareMetal

namespace Usb

/-! ### The system -/

/-- Where the linker has put the three buffers: apart. -/
structure Layout where
  addr : HidClass → ℕ
  apart : ∀ c c', c ≠ c' → Apart (addr c) c.bufferSize (addr c') c'.bufferSize

/-- The transfer of a pipe: none, one that was requested, or one that has ended, with the bytes
that were written, and has still to be handled. -/
inductive Xfer where
  | idle
  | queued (length : ℕ)
  | ended (result : XferResult) (bytes : List (BitVec 8))
  deriving DecidableEq

/-- A pipe, and the class of the buffer its transfers go to. -/
inductive Pipe where
  | closed
  | opened (cls : HidClass) (xfer : Xfer)
  deriving DecidableEq

/-- The entries of the host stacks, the memory, and the pipes of the devices. -/
structure HidSys where
  hid : HidState
  mem : ℕ → BitVec 8
  pipes : Device × Fin 5 → Pipe

/-- Nothing is plugged in. -/
def HidSys.init (mem : ℕ → BitVec 8) : HidSys := ⟨.init, mem, fun _ => .closed⟩

/-- A device is opened, a transfer comes to its end, its interrupt is handled, or a device is
closed. -/
inductive SysEvent where
  | plugged (d : Device) (desc : Desc) (io : HidOpenIo)
  | complete (p : Device × Fin 5) (result : XferResult) (bytes : List (BitVec 8))
  | isr (p : Device × Fin 5) (ready : Bool)
  | close (d : Device)

/-- What can be observed of a step: a transfer has ended, or the hook of a class was called for
a device and found these bytes in its argument. -/
inductive SysOut where
  | none
  | completed
  | hook (cls : HidClass) (d : Device) (seen : List (BitVec 8))
  deriving DecidableEq

/-- The report request among some requests. -/
def reportRequest (ts : List Transfer) : Option (HidClass × ℕ) :=
  ts.findSome? fun t =>
    match t.dest with
    | .report cls => some (cls, t.length.toNat)
    | .reportDescriptor => none

/-- A pipe of a class once some transfers have been requested. -/
def Pipe.after (cls : HidClass) (ts : List Transfer) : Pipe :=
  match reportRequest ts with
  | some (c, n) => .opened c (.queued n)
  | none => .opened cls .idle

/-- Whether a device has an entry with a pipe. -/
def HidState.hasPipe (s : HidState) (p : Device × Fin 5) : Prop :=
  (s.info .keyboard p.1).pipe = some p.2 ∨ (s.info .generic p.1).pipe = some p.2 ∨
    (s.info .mouse p.1).pipe = some p.2

instance (s : HidState) (p : Device × Fin 5) : Decidable (s.hasPipe p) :=
  inferInstanceAs (Decidable (_ ∨ _ ∨ _))

/-- The endpoint that `hcd_pipe_open` has found is one that is not in use. -/
def HidSys.freePipe (s : HidSys) (d : Device) (io : HidOpenIo) : HidOpenIo :=
  { io with pipe := io.pipe.filter fun ix => s.pipes (d, ix) = .closed }

/-- One step. A transfer ends with no more bytes than were asked for. -/
def sysStep (L : Layout) (s : HidSys) : SysEvent → SysOut × HidSys
  | .plugged d desc io =>
      let r := hidhOpenSubtask s.hid d desc (s.freePipe d io)
      (.none, { s with
        hid := r.2
        pipes := match r.1.2.opened with
          | none => s.pipes
          | some (cls, ix) => Function.update s.pipes (d, ix) (.after cls r.1.2.requests) })
  | .complete p result bytes =>
      match s.pipes p with
      | .opened cls (.queued n) =>
          if bytes.length ≤ n then
            (.completed, { s with
              mem := blit s.mem (L.addr cls) (fun i => bytes.getD i 0#8) bytes.length
              pipes := Function.update s.pipes p (.opened cls (.ended result bytes)) })
          else (.none, s)
      | _ => (.none, s)
  | .isr p ready =>
      match s.pipes p with
      | .opened cls (.ended result _) =>
          let o := hidhIsr s.hid p.1 p.2 result ready
          (match o.hook with
            | none => .none
            | some (c, d) => .hook c d (load s.mem (L.addr c) c.bufferSize),
            { s with pipes := Function.update s.pipes p (.after cls o.requests) })
      | _ => (.none, s)
  | .close d =>
      (.none, { s with
        hid := hidhClose s.hid d
        pipes := fun p => if p.1 = d ∧ s.hid.hasPipe p then .closed else s.pipes p })

/-! ### The property -/

/-- **The report a device has delivered** on a pipe: that of its last transfer. -/
def delivered : List (SysEvent × SysOut) → Device × Fin 5 → Option (List (BitVec 8))
  | [], _ => none
  | (.complete p _ bytes, .completed) :: h, q => if p = q then some bytes else delivered h q
  | _ :: h, q => delivered h q

/-- **Every report is attributed to the device that sent it**: a hook that is called from the
interrupt of a pipe is told the device of the pipe, and sees the bytes of the report that the
device has delivered – as many of them as its argument has room for. -/
def ReportsOk : List (SysEvent × SysOut) → Prop
  | [] => True
  | (e, o) :: h => ReportsOk h ∧ ∀ p ready cls d seen, e = .isr p ready → o = .hook cls d seen →
      d = p.1 ∧ ∃ r, delivered h p = some r ∧ seen.take r.length = r.take cls.bufferSize

/-- A byte of a report, in the argument of a hook: the class of the report, its place, and the
pipe it came from. -/
abbrev Reader := HidClass × ℕ × (Device × Fin 5)

/-- The byte that is due: that of a report that has arrived and has still to be handled. -/
def dueByte (s : HidSys) (r : Reader) : Option (BitVec 8) :=
  match s.pipes r.2.2 with
  | .opened cls (.ended .success bytes) =>
      if cls = r.1 ∧ r.2.1 < cls.bufferSize then bytes[r.2.1]? else none
  | _ => none

/-- The byte that is there. -/
def Layout.byteAt (L : Layout) (m : ℕ → BitVec 8) (r : Reader) : BitVec 8 :=
  m (L.addr r.1 + r.2.1)

/-- A transfer that ends now leaves every byte that is due as it is. -/
def Spares (L : Layout) (s : HidSys) : SysEvent → Prop
  | .complete p _ bytes => ∀ cls n, s.pipes p = .opened cls (.queued n) → bytes.length ≤ n →
      ∀ r v, dueByte s r = some v →
        L.byteAt (blit s.mem (L.addr cls) (fun i => bytes.getD i 0#8) bytes.length) r =
          L.byteAt s.mem r
  | _ => True

/-! ### What the interrupt handler does -/

section Handler

variable {s : HidState} {d : Device} {ix : Fin 5} {event : XferResult} {ready : Bool}

/-- **The handler of a pipe** calls a hook only after a success, for the device of the pipe and
the class whose entry has the pipe. -/
theorem hidhIsr_hook {c : HidClass} {d' : Device}
    (h : (hidhIsr s d ix event ready).hook = some (c, d')) :
    event = .success ∧ d' = d ∧ (s.info c d).pipe = some ix := by
  have hreport : ∀ cls, (reportIsr s cls d event ready).hook = some (c, d') →
      event = .success ∧ cls = c ∧ d = d' := by
    intro cls hcls
    cases event with
    | success => exact ⟨rfl, by simpa [reportIsr] using hcls⟩
    | failed => simp [reportIsr] at hcls
    | stalled => simp [reportIsr, HidOut.none] at hcls
  unfold hidhIsr at h
  split_ifs at h with hk hg hm
  · obtain ⟨rfl, rfl, rfl⟩ := hreport _ h
    exact ⟨rfl, rfl, hk⟩
  · obtain ⟨rfl, rfl, rfl⟩ := hreport _ h
    exact ⟨rfl, rfl, hg⟩
  · obtain ⟨rfl, rfl, rfl⟩ := hreport _ h
    exact ⟨rfl, rfl, hm⟩
  · simp [HidOut.none] at h

/-- If one entry only has the pipe, its class is the one that is meant. -/
theorem hidhIsr_of_handle {c : HidClass} (hpipe : (s.info c d).pipe = some ix)
    (hunique : ∀ c', (s.info c' d).pipe = some ix → c' = c) :
    hidhIsr s d ix event ready = reportIsr s c d event ready := by
  unfold hidhIsr
  split_ifs with hk hg hm
  · rw [hunique _ hk]
  · rw [hunique _ hg]
  · rw [hunique _ hm]
  · cases c with
    | keyboard => exact absurd hpipe hk
    | mouse => exact absurd hpipe hm
    | generic => exact absurd hpipe hg

theorem reportRequest_getReport {cls c : HidClass} {n : ℕ}
    (h : reportRequest (hidhInterfaceGetReport s cls d ready) = some (c, n)) : c = cls := by
  unfold hidhInterfaceGetReport at h
  split at h
  · have := Option.some.inj h
    exact (congrArg Prod.fst this).symm
  · simp [reportRequest] at h

/-- The fetch of a report descriptor is no request for a report. -/
theorem reportRequest_append {fetch ts : List Transfer}
    (hfetch : ∀ t ∈ fetch, t.dest = .reportDescriptor) :
    reportRequest (fetch ++ ts) = reportRequest ts := by
  have hnone : reportRequest fetch = none := by
    refine List.findSome?_eq_none_iff.mpr fun t ht => ?_
    rw [hfetch t ht]
  rw [reportRequest, List.findSome?_append]
  exact (congrArg (Option.or · _) hnone).trans Option.none_or

/-- The report that the handler of a pipe asks for goes to the buffer of the class whose entry
has the pipe. -/
theorem reportRequest_hidhIsr {c : HidClass} {n : ℕ}
    (h : reportRequest (hidhIsr s d ix event ready).requests = some (c, n)) :
    (s.info c d).pipe = some ix := by
  have hreport : ∀ cls, reportRequest (reportIsr s cls d event ready).requests = some (c, n) →
      c = cls := by
    intro cls hcls
    cases event with
    | success => exact reportRequest_getReport hcls
    | failed => exact reportRequest_getReport hcls
    | stalled => simp [reportIsr, HidOut.none, reportRequest] at hcls
  unfold hidhIsr at h
  split_ifs at h with hk hg hm
  · rwa [hreport _ h]
  · rwa [hreport _ h]
  · rwa [hreport _ h]
  · simp [HidOut.none, reportRequest] at h

end Handler

/-! ### The invariant -/

/-- **The invariant**: an entry with a pipe has an open pipe of its class; a transfer that has
ended is the last one of its pipe; and no byte that is due is disturbed. -/
structure SysInv (L : Layout) (h : List (SysEvent × SysOut)) (s : HidSys) : Prop where
  handle : ∀ cls d ix, (s.hid.info cls d).pipe = some ix → ∃ x, s.pipes (d, ix) = .opened cls x
  report : ∀ p cls result bytes, s.pipes p = .opened cls (.ended result bytes) →
    delivered h p = some bytes
  undisturbed : Undisturbed L.byteAt (dueByte s) s.mem

section Steps

variable {L : Layout} {h : List (SysEvent × SysOut)} {s : HidSys}

theorem sysInv_init (L : Layout) (mem : ℕ → BitVec 8) : SysInv L [] (.init mem) where
  handle cls d ix hix := by simp [HidSys.init, HidState.init] at hix
  report p cls result bytes hp := by simp [HidSys.init] at hp
  undisturbed := undisturbed_none fun _ => rfl

theorem Pipe.after_ne_ended (cls : HidClass) (ts : List Transfer) {c : HidClass}
    {result : XferResult} {bytes : List (BitVec 8)} :
    Pipe.after cls ts ≠ .opened c (.ended result bytes) := by
  unfold Pipe.after
  split <;> simp

theorem Pipe.after_eq_opened {cls : HidClass} {ts : List Transfer}
    (h : ∀ c n, reportRequest ts = some (c, n) → c = cls) :
    ∃ x, Pipe.after cls ts = .opened cls x := by
  unfold Pipe.after
  split
  · rename_i c n heq
    rw [h c n heq]
    exact ⟨_, rfl⟩
  · exact ⟨_, rfl⟩

/-- A pipe on which no transfer has ended owes nothing. -/
theorem dueByte_update_of_not_ended {p : Device × Fin 5} {q : Pipe} {hid : HidState}
    (hq : ∀ c result bytes, q ≠ .opened c (.ended result bytes)) {r : Reader} {v : BitVec 8}
    (hv : dueByte ⟨hid, s.mem, Function.update s.pipes p q⟩ r = some v) : dueByte s r = some v := by
  by_cases hr : r.2.2 = p
  · simp only [dueByte, hr, Function.update_self] at hv
    split at hv
    · exact absurd rfl (hq _ _ _)
    · simp at hv
  · simpa only [dueByte, Function.update_of_ne hr] using hv

/-- Setting a pipe on which no transfer has ended keeps the reports that were delivered. -/
theorem report_update_of_not_ended (hinv : SysInv L h s) {p : Device × Fin 5} {q : Pipe}
    (hq : ∀ c result bytes, q ≠ .opened c (.ended result bytes)) {e : SysEvent} {o : SysOut}
    (he : ∀ p, delivered ((e, o) :: h) p = delivered h p) (p' : Device × Fin 5) (cls : HidClass)
    (result : XferResult) (bytes : List (BitVec 8))
    (hp : Function.update s.pipes p q p' = .opened cls (.ended result bytes)) :
    delivered ((e, o) :: h) p' = some bytes := by
  rw [he]
  by_cases hpp : p' = p
  · subst hpp
    rw [Function.update_self] at hp
    exact absurd hp (hq _ _ _)
  · rw [Function.update_of_ne hpp] at hp
    exact hinv.report p' cls result bytes hp

/-- The entry of a class and a device is filled in, without a pipe. -/
theorem SysInv.clearEntry (hinv : SysInv L h s) {e : SysEvent} {o : SysOut}
    (he : ∀ p, delivered ((e, o) :: h) p = delivered h p) (cls : HidClass) (d : Device)
    (size : BitVec 16) :
    SysInv L ((e, o) :: h) { s with hid := s.hid.set cls d ⟨none, size⟩ } where
  handle c d' ix hix := by
    by_cases hset : c = cls ∧ d' = d
    · obtain ⟨rfl, rfl⟩ := hset
      simp [set_info_self] at hix
    · simp only [set_info_of_ne hset] at hix
      exact hinv.handle c d' ix hix
  report p c result bytes hp := by
    rw [he]
    exact hinv.report p c result bytes hp
  undisturbed := hinv.undisturbed

/-- A pipe that was closed is opened, and its entry filled in. -/
theorem SysInv.openPipe (hinv : SysInv L h s) {e : SysEvent} {o : SysOut}
    (he : ∀ p, delivered ((e, o) :: h) p = delivered h p) {cls : HidClass} {d : Device}
    {ix : Fin 5} (hclosed : s.pipes (d, ix) = .closed) (size : BitVec 16) {q : Pipe}
    (hq : ∃ x, q = .opened cls x)
    (hnot : ∀ c result bytes, q ≠ .opened c (.ended result bytes)) :
    SysInv L ((e, o) :: h) { s with
      hid := s.hid.set cls d ⟨some ix, size⟩
      pipes := Function.update s.pipes (d, ix) q } where
  handle c d' ix' hix := by
    by_cases hset : c = cls ∧ d' = d
    · obtain ⟨rfl, rfl⟩ := hset
      simp only [set_info_self, Option.some.injEq] at hix
      subst hix
      obtain ⟨x, rfl⟩ := hq
      exact ⟨x, Function.update_self _ _ _⟩
    · simp only [set_info_of_ne hset] at hix
      obtain ⟨x, hx⟩ := hinv.handle c d' ix' hix
      have hne : (d', ix') ≠ (d, ix) := by
        rintro heq
        rw [heq, hclosed] at hx
        simp at hx
      exact ⟨x, by rw [← hx]; exact Function.update_of_ne hne _ _⟩
  report := report_update_of_not_ended hinv hnot he
  undisturbed := hinv.undisturbed.settle fun _ _ => dueByte_update_of_not_ended hnot

/-- A device is opened. -/
theorem SysInv.plugged (hinv : SysInv L h s) (d : Device) (desc : Desc) (io : HidOpenIo) :
    SysInv L ((.plugged d desc io, .none) :: h) (sysStep L s (.plugged d desc io)).2 := by
  have he : ∀ p, delivered ((.plugged d desc io, .none) :: h) p = delivered h p := fun _ => rfl
  rcases hidhOpenSubtask_cases s.hid d desc (s.freePipe d io) with
    ⟨hopened, hsame | ⟨cls, size, hset⟩⟩ |
      ⟨cls, ix, size, fetch, hpipe, hopened, hset, hfetch, hreq⟩
  · simp only [sysStep, hopened, hsame]
    exact ⟨hinv.handle, hinv.report, hinv.undisturbed⟩
  · simp only [sysStep, hopened, hset]
    exact hinv.clearEntry he cls d size
  · have hclosed : s.pipes (d, ix) = .closed := by
      simpa using (Option.filter_eq_some_iff.mp hpipe).2
    have hafter : ∃ x, Pipe.after cls
        (hidhOpenSubtask s.hid d desc (s.freePipe d io)).1.2.requests = .opened cls x := by
      refine Pipe.after_eq_opened fun c n hcn => ?_
      rw [hreq, reportRequest_append hfetch] at hcn
      exact reportRequest_getReport hcn
    simp only [sysStep, hopened]
    rw [hset]
    exact hinv.openPipe he hclosed size hafter fun _ _ _ => Pipe.after_ne_ended _ _

/-- A transfer comes to its end, and spares what is due. -/
theorem SysInv.complete (hinv : SysInv L h s) {p : Device × Fin 5} {cls : HidClass} {n : ℕ}
    (hp : s.pipes p = .opened cls (.queued n)) (result : XferResult) {bytes : List (BitVec 8)}
    (hspare : ∀ r v, dueByte s r = some v →
      L.byteAt (blit s.mem (L.addr cls) (fun i => bytes.getD i 0#8) bytes.length) r =
        L.byteAt s.mem r) :
    SysInv L ((.complete p result bytes, .completed) :: h) { s with
      mem := blit s.mem (L.addr cls) (fun i => bytes.getD i 0#8) bytes.length
      pipes := Function.update s.pipes p (.opened cls (.ended result bytes)) } where
  handle c d ix hix := by
    obtain ⟨x, hx⟩ := hinv.handle c d ix hix
    by_cases heq : (d, ix) = p
    · subst heq
      rw [hp] at hx
      obtain ⟨rfl, -⟩ := Pipe.opened.inj hx
      exact ⟨_, Function.update_self _ _ _⟩
    · exact ⟨x, by rw [← hx]; exact Function.update_of_ne heq _ _⟩
  report p' c res bs hp' := by
    by_cases heq : p' = p
    · subst heq
      simp only [Function.update_self] at hp'
      obtain ⟨-, hended⟩ := Pipe.opened.inj hp'
      obtain ⟨-, rfl⟩ := Xfer.ended.inj hended
      exact if_pos rfl
    · simp only [Function.update_of_ne heq] at hp'
      exact (if_neg (Ne.symm heq)).trans (hinv.report p' c res bs hp')
  undisturbed := by
    refine hinv.undisturbed.step fun r v hv => ?_
    by_cases hr : r.2.2 = p
    · -- a byte of the report that has just been written
      right
      simp only [dueByte, hr, Function.update_self] at hv
      split at hv
      · rename_i c bs heq
        obtain ⟨rfl, hended⟩ := Pipe.opened.inj heq
        obtain ⟨-, rfl⟩ := Xfer.ended.inj hended
        split at hv
        · rename_i hcls
          obtain ⟨hlt, hget⟩ := List.getElem?_eq_some_iff.mp hv
          simp only [Layout.byteAt, ← hcls.1, blit_add hlt, List.getD_eq_getElem?_getD, hv]
          rfl
        · simp at hv
      · simp at hv
    · have hbefore : dueByte s r = some v := by
        simpa only [dueByte, Function.update_of_ne hr] using hv
      exact Or.inl ⟨hbefore, hspare r v hbefore⟩

/-- The interrupt of a pipe is handled. -/
theorem SysInv.isr (hinv : SysInv L h s) {p : Device × Fin 5} {cls : HidClass}
    {result : XferResult} {bytes : List (BitVec 8)}
    (hp : s.pipes p = .opened cls (.ended result bytes)) (ready : Bool) (o : SysOut) :
    SysInv L ((.isr p ready, o) :: h) { s with
      pipes := Function.update s.pipes p
        (.after cls (hidhIsr s.hid p.1 p.2 result ready).requests) } where
  handle c d ix hix := by
    obtain ⟨x, hx⟩ := hinv.handle c d ix hix
    by_cases heq : (d, ix) = p
    · subst heq
      rw [hp] at hx
      obtain ⟨rfl, -⟩ := Pipe.opened.inj hx
      -- the next report is asked for on behalf of the class that has the pipe
      have hafter : ∃ x, Pipe.after cls (hidhIsr s.hid d ix result ready).requests =
          .opened cls x := by
        refine Pipe.after_eq_opened fun c' n hcn => ?_
        obtain ⟨y, hy⟩ := hinv.handle c' d ix (reportRequest_hidhIsr hcn)
        rw [hp] at hy
        exact (Pipe.opened.inj hy).1.symm
      obtain ⟨y, hy⟩ := hafter
      exact ⟨y, (Function.update_self _ _ _).trans hy⟩
    · exact ⟨x, by rw [← hx]; exact Function.update_of_ne heq _ _⟩
  report := report_update_of_not_ended hinv (fun _ _ _ => Pipe.after_ne_ended _ _) fun _ => rfl
  undisturbed := hinv.undisturbed.settle fun _ _ =>
    dueByte_update_of_not_ended fun _ _ _ => Pipe.after_ne_ended _ _

/-- A device is closed. -/
theorem SysInv.close (hinv : SysInv L h s) (d : Device) :
    SysInv L ((.close d, .none) :: h) (sysStep L s (.close d)).2 where
  handle c d' ix hix := by
    simp only [sysStep, hidhClose] at hix ⊢
    split at hix
    · simp at hix
    · rename_i hnot
      have hd : d' ≠ d := by
        rintro rfl
        exact hnot ⟨rfl, by simp [hix]⟩
      obtain ⟨x, hx⟩ := hinv.handle c d' ix hix
      exact ⟨x, by rw [if_neg fun hcon => hd hcon.1]; exact hx⟩
  report p c result bytes hp := by
    simp only [sysStep] at hp
    split at hp
    · simp at hp
    · exact hinv.report p c result bytes hp
  undisturbed := by
    refine hinv.undisturbed.settle fun r v hv => ?_
    simp only [dueByte, sysStep] at hv ⊢
    split_ifs at hv
    exact hv

/-- **The hook of a report that is due sees it.** -/
theorem SysInv.seen (hinv : SysInv L h s) {p : Device × Fin 5} {cls c : HidClass}
    {result : XferResult} {bytes : List (BitVec 8)}
    (hp : s.pipes p = .opened cls (.ended result bytes)) {ready : Bool} {d : Device}
    (hhook : (hidhIsr s.hid p.1 p.2 result ready).hook = some (c, d)) :
    d = p.1 ∧ ∃ r, delivered h p = some r ∧
      (load s.mem (L.addr c) c.bufferSize).take r.length = r.take c.bufferSize := by
  obtain ⟨rfl, hd, hpipe⟩ := hidhIsr_hook hhook
  obtain ⟨x, hx⟩ := hinv.handle c p.1 p.2 hpipe
  obtain ⟨rfl, -⟩ := Pipe.opened.inj (hp.symm.trans hx)
  refine ⟨hd, bytes, hinv.report p cls _ bytes hp, take_load_eq_iff.mpr fun i v hi hv => ?_⟩
  refine hinv.undisturbed (cls, i, p) v ?_
  simp only [dueByte, hp, hi, and_self, if_true]
  exact hv

/-- **Every step under the condition keeps the invariant**, and every hook that is called sees
the right report. -/
theorem sysInv_step (hinv : SysInv L h s) {e : SysEvent} (hok : Spares L s e) :
    SysInv L ((e, (sysStep L s e).1) :: h) (sysStep L s e).2 ∧
      ∀ p ready cls d seen, e = .isr p ready → (sysStep L s e).1 = .hook cls d seen →
        d = p.1 ∧ ∃ r, delivered h p = some r ∧ seen.take r.length = r.take cls.bufferSize := by
  cases e with
  | plugged d desc io => exact ⟨hinv.plugged d desc io, by simp⟩
  | close d => exact ⟨hinv.close d, by simp⟩
  | complete p result bytes =>
    refine ⟨?_, by simp⟩
    simp only [sysStep]
    split
    · rename_i cls n hp
      split
      · rename_i hlen
        exact hinv.complete hp result (hok cls n hp hlen)
      · exact ⟨hinv.handle, hinv.report, hinv.undisturbed⟩
    · exact ⟨hinv.handle, hinv.report, hinv.undisturbed⟩
  | isr p ready =>
    simp only [sysStep]
    split
    · rename_i cls result bytes hp
      refine ⟨hinv.isr hp ready _, ?_⟩
      rintro p' ready' c d seen he ho
      obtain ⟨rfl, rfl⟩ := SysEvent.isr.inj he
      split at ho
      · simp at ho
      · rename_i c' d' hhook
        obtain ⟨rfl, rfl, rfl⟩ := SysOut.hook.inj ho
        exact hinv.seen hp hhook
    · exact ⟨⟨hinv.handle, hinv.report, hinv.undisturbed⟩, by simp⟩

end Steps

/-! ### Every run -/

theorem sysInv_of_spared {L : Layout} {mem : ℕ → BitVec 8} {h : List (SysEvent × SysOut)}
    {s : HidSys} (hr : Reach (fnStep (sysStep L)) (Spares L) (.init mem) h s) :
    SysInv L h s ∧ ReportsOk h := by
  refine hr.fnInvariant (fun h s => SysInv L h s ∧ ReportsOk h) ⟨sysInv_init L mem, trivial⟩ ?_
  rintro h s e ⟨hinv, hreports⟩ hok
  obtain ⟨hnext, hnew⟩ := sysInv_step hinv hok
  exact ⟨hnext, hreports, hnew⟩

/-- **Every report is attributed to the device that sent it**, in any interleaving of transfers
and interrupts in which no transfer overwrites a report that has still to be handled. -/
theorem reportsOk_of_spared {L : Layout} {mem : ℕ → BitVec 8} {h : List (SysEvent × SysOut)}
    {s : HidSys} (hr : Reach (fnStep (sysStep L)) (Spares L) (.init mem) h s) : ReportsOk h :=
  (sysInv_of_spared hr).2

/-- Three buffers in a row. -/
def inARow : Layout where
  addr
    | .keyboard => 0x1000
    | .mouse => 0x1008
    | .generic => 0x100C
  apart c c' h := by cases c <;> cases c' <;> first | exact absurd rfl h | decide

/-- A keyboard is plugged in. -/
def plugKeyboard (d : Device) : SysEvent :=
  .plugged d (bootDesc 1#8 65#16 8#16) openGoodHid

/-- With the keys A and B. -/
def keyA : List (BitVec 8) := [0#8, 0#8, 4#8, 0#8, 0#8, 0#8, 0#8, 0#8]
def keyB : List (BitVec 8) := [0#8, 0#8, 5#8, 0#8, 0#8, 0#8, 0#8, 0#8]

/-- No report waits to be handled. -/
def NoneWaits (pipes : Device × Fin 5 → Pipe) : Prop :=
  ∀ p cls bytes, pipes p ≠ .opened cls (.ended .success bytes)

theorem NoneWaits.update {pipes : Device × Fin 5 → Pipe} (h : NoneWaits pipes)
    (p : Device × Fin 5) {q : Pipe} (hq : ∀ cls bytes, q ≠ .opened cls (.ended .success bytes)) :
    NoneWaits (Function.update pipes p q) := by
  intro p' cls bytes
  by_cases hp : p' = p
  · subst hp
    rw [Function.update_self]
    exact hq cls bytes
  · rw [Function.update_of_ne hp]
    exact h p' cls bytes

/-- With no report waiting, a transfer spares everything. -/
theorem NoneWaits.spares {L : Layout} {s : HidSys} (h : NoneWaits s.pipes)
    (p : Device × Fin 5) (result : XferResult) (bytes : List (BitVec 8)) :
    Spares L s (.complete p result bytes) := by
  intro cls n _ _ r v hv
  unfold dueByte at hv
  split at hv
  · exact absurd ‹_› (h _ _ _)
  · simp at hv

/-- The pipes of two keyboards that have been asked for a report. -/
def bothQueued : Device × Fin 5 → Pipe :=
  Function.update (Function.update (fun _ => .closed) (firstDevice, pipeZero)
    (.opened .keyboard (.queued 8))) (secondDevice, pipeZero) (.opened .keyboard (.queued 8))

theorem noneWaits_bothQueued : NoneWaits bothQueued := by
  refine (NoneWaits.update ?_ _ (by simp)).update _ (by simp)
  simp [NoneWaits]

/-- Two keyboards on two controllers, the reports of which are handled before the next
arrives. -/
theorem reportsOk_of_spared_inTurn :
    let r := runFn (sysStep inARow) [] (.init fun _ => 0#8)
      [plugKeyboard firstDevice, plugKeyboard secondDevice,
        .complete (firstDevice, 0) .success keyA, .isr (firstDevice, 0) true,
        .complete (secondDevice, 0) .success keyB, .isr (secondDevice, 0) true]
    ReportsOk r.1 ∧ r.1.head?.map Prod.snd = some (.hook .keyboard secondDevice keyB) := by
  intro r
  have hreach : Reach (fnStep (sysStep inARow)) (Spares inARow) (.init fun _ => 0#8) r.1 r.2 := by
    refine reach_runFn ⟨trivial, trivial, NoneWaits.spares ?_ _ _ _, trivial,
      NoneWaits.spares ?_ _ _ _, trivial, trivial⟩
    · exact noneWaits_bothQueued
    · have hpipes : (runFn (sysStep inARow) [] (.init fun _ => 0#8)
          [plugKeyboard firstDevice, plugKeyboard secondDevice,
            .complete (firstDevice, 0) .success keyA, .isr (firstDevice, 0) true]).2.pipes =
          Function.update (Function.update bothQueued (firstDevice, 0)
            (.opened .keyboard (.ended .success keyA))) (firstDevice, 0)
            (.opened .keyboard (.queued 8)) := rfl
      rw [Function.update_idem] at hpipes
      exact hpipes ▸ noneWaits_bothQueued.update _ (by simp)
  exact ⟨reportsOk_of_spared hreach, by decide⟩

/-- **One keyboard types for the other.** Both have delivered a report before the first is
handled: the hook is called for the first and finds the report of the second. -/
theorem not_reportsOk_overtaken :
    let r := runFn (sysStep inARow) [] (.init fun _ => 0#8)
      [plugKeyboard firstDevice, plugKeyboard secondDevice,
        .complete (firstDevice, 0) .success keyA, .complete (secondDevice, 0) .success keyB,
        .isr (firstDevice, 0) true]
    Reach (fnStep (sysStep inARow)) Always (.init fun _ => 0#8) r.1 r.2 ∧
      r.1.head?.map Prod.snd = some (.hook .keyboard firstDevice keyB) ∧ ¬ReportsOk r.1 := by
  intro r
  refine ⟨reach_runFn okAlong_always, by decide, fun hok => ?_⟩
  obtain ⟨-, report, hreport, hseen⟩ := hok.2 (firstDevice, 0) true .keyboard firstDevice keyB rfl
    (by decide)
  obtain rfl : keyA = report := Option.some.inj ((by decide :
    delivered _ (firstDevice, (0 : Fin 5)) = some keyA).symm.trans hreport)
  exact absurd hseen (by decide)

/-! ### The condition -/

section Condition

variable {L : Layout} {mem : ℕ → BitVec 8} {h : List (SysEvent × SysOut)} {s : HidSys}

/-- **A single device of a class is safe**: a transfer that fits its buffer overwrites nothing
if no other report of its class waits to be handled. -/
theorem spares_of_alone {p : Device × Fin 5} {cls : HidClass} {n : ℕ}
    (hp : s.pipes p = .opened cls (.queued n))
    (halone : ∀ q bs, s.pipes q ≠ .opened cls (.ended .success bs)) (result : XferResult)
    {bytes : List (BitVec 8)} (hfit : bytes.length ≤ cls.bufferSize) :
    Spares L s (.complete p result bytes) := by
  intro cls' n' hp' _ r v hv
  obtain ⟨rfl, -⟩ := Pipe.opened.inj (hp.symm.trans hp')
  unfold dueByte at hv
  split at hv
  · rename_i c bs hq
    split at hv
    · rename_i hcls
      have hne : cls ≠ c := by
        rintro rfl
        exact halone _ bs hq
      have hapart : Apart (L.addr cls) bytes.length (L.addr c) c.bufferSize :=
        (L.apart cls c hne).imp_left fun hle => by omega
      rw [Layout.byteAt, Layout.byteAt, ← hcls.1]
      exact blit_apart hapart hcls.2
    · simp at hv
  · simp at hv

/-- **A transfer that overwrites a report spoils it**: from any state reached so far without a
fault, if a transfer changes a byte of a report that waits for the handler of its pipe, the
application sees a report the device has not sent. -/
theorem not_reportsOk_of_overwritten
    (hr : Reach (fnStep (sysStep L)) (Spares L) (.init mem) h s) {p : Device × Fin 5}
    {cls : HidClass} {n : ℕ} (hp : s.pipes p = .opened cls (.queued n)) (result : XferResult)
    {bytes : List (BitVec 8)} (hlen : bytes.length ≤ n) {c : HidClass} {i : ℕ}
    {q : Device × Fin 5} {v : BitVec 8} (hdue : dueByte s (c, i, q) = some v)
    (hhandle : (s.hid.info c q.1).pipe = some q.2)
    (hbad : L.byteAt (blit s.mem (L.addr cls) (fun i => bytes.getD i 0#8) bytes.length) (c, i, q) ≠
      L.byteAt s.mem (c, i, q)) :
    ¬ReportsOk (runFn (sysStep L) h s [.complete p result bytes, .isr q true]).1 := by
  obtain ⟨hinv, -⟩ := sysInv_of_spared hr
  have hthere := hinv.undisturbed _ _ hdue
  -- the report that waits
  obtain ⟨bs, hq, hi, hbs⟩ : ∃ bs, s.pipes q = .opened c (.ended .success bs) ∧
      i < c.bufferSize ∧ bs[i]? = some v := by
    unfold dueByte at hdue
    split at hdue
    · rename_i c' bs hq
      split at hdue
      · rename_i hcls
        obtain ⟨rfl, hi⟩ := hcls
        exact ⟨bs, hq, hi, hdue⟩
      · simp at hdue
    · simp at hdue
  have hqp : q ≠ p := by
    rintro rfl
    rw [hp] at hq
    simp at hq
  have hunique : ∀ c', (s.hid.info c' q.1).pipe = some q.2 → c' = c := by
    intro c' hc'
    obtain ⟨x, hx⟩ := hinv.handle c' q.1 q.2 hc'
    exact (Pipe.opened.inj (hx.symm.trans hq)).1
  have hisr : hidhIsr s.hid q.1 q.2 .success true = reportIsr s.hid c q.1 .success true :=
    hidhIsr_of_handle hhandle hunique
  intro hok
  obtain ⟨-, report, hreport, hseen⟩ := hok.2 q true c q.1
    (load (blit s.mem (L.addr cls) (fun i => bytes.getD i 0#8) bytes.length) (L.addr c)
      c.bufferSize) rfl
    (by simp [sysStep, hp, hlen, Function.update_of_ne hqp, hq, hisr, reportIsr])
  have hdelivered : report = bs := by
    have := hinv.report q c .success bs hq
    simp only [sysStep, hp, if_pos hlen, delivered, if_neg hqp.symm, this] at hreport
    exact (Option.some.inj hreport).symm
  subst hdelivered
  refine hbad (Eq.trans ?_ hthere.symm)
  exact take_load_eq_iff.mp hseen i v hi hbs

end Condition

end Usb

end BareMetal
