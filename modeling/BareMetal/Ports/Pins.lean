import BareMetal.BitField
import Mathlib.Logic.Function.Basic

/-!
# Pins and their interrupts

A port is a block of registers: four configuration registers with a function field for each
pin, the data register, and behind it the registers for drive and pull. A port whose pins can
interrupt has a **second** block, elsewhere, of the same shape: four configuration registers
with a trigger field for each pin, and a control register with an enable bit for each. The two
blocks are overlaid by two structures of the source, and the offsets of the fields are the
same: where the one has the data register, the other has the control register.

`gpio_irq_set_trigger` and `gpio_irq_enable` are written for the second block and add nothing
to the address they are given; `startup` gives them the address of the first. So the trigger
goes to the function field of the pin and the enable bit to the data register: a pin that was
made an interrupt pin becomes an input or an output or one of its alternate functions,
whatever the number of the trigger is, and it never interrupts
(`BareMetal.Ports.not_pinInterrupt`). For the reset button, whose trigger is the falling edge,
it becomes an output that is driven high (`BareMetal.Ports.resetButton_output`). Given the
address of the second block, the same three calls do what they are for
(`BareMetal.Ports.pinInterrupt_eintBase`).
-/

namespace BareMetal

namespace Ports

/-! ### The code -/

/-- The registers, by address. -/
abbrev Regs := ℕ → BitVec 32

/-- The ports: `PORTA`, `PORTC`, … -/
inductive Port where
  | a | c | d | e | f | g | l
  deriving DecidableEq, Repr

/-- `PIO_BASE`. -/
def pioBase : ℕ := 0x01C20800

/-- The address of a port. -/
def Port.base : Port → ℕ
  | .a => pioBase + 0 * 0x24
  | .c => pioBase + 2 * 0x24
  | .d => pioBase + 3 * 0x24
  | .e => pioBase + 4 * 0x24
  | .f => pioBase + 5 * 0x24
  | .g => pioBase + 6 * 0x24
  | .l => 0x01F02C00

/-- The ports with external interrupts. -/
inductive EintPort where
  | a | g | l
  deriving DecidableEq, Repr

def EintPort.port : EintPort → Port
  | .a => .a
  | .g => .g
  | .l => .l

/-- `PA_EINT_BASE`, `PG_EINT_BASE`, `R_PL_EINT_BASE`. -/
def EintPort.eintBase : EintPort → ℕ
  | .a => pioBase + 0x200 + 0 * 0x20
  | .g => pioBase + 0x200 + 1 * 0x20
  | .l => Port.l.base + 0x200 + 0 * 0x20

/-- `GPIO_MODE_OUTPUT`. -/
def gpioModeOutput : BitVec 3 := 1#3

/-- `GPIO_MODE_EINT`. -/
def gpioModeEint : BitVec 3 := 6#3

/-- The triggers. -/
inductive Trigger where
  | rising | falling | highLevel | lowLevel | bothEdge
  deriving DecidableEq, Repr

/-- `GPIO_EINT_RISING`, …, `GPIO_EINT_BOTH_EDGE`. -/
def Trigger.mode : Trigger → BitVec 3
  | .rising => 0#3
  | .falling => 1#3
  | .highLevel => 2#3
  | .lowLevel => 3#3
  | .bothEdge => 4#3

/-- `*reg &= ~(7 << shift); *reg |= mode << shift;` -/
def setMode (r : Regs) (reg shift : ℕ) (mode : BitVec 32) : Regs :=
  let r := Function.update r reg (r reg &&& ~~~(7#32 <<< shift))
  Function.update r reg (r reg ||| (mode <<< shift))

/-- The body that `set_pin_mode` and `gpio_irq_set_trigger` have in common: `cfg0`, …, `cfg3`
are the first four registers of both structures. -/
def setCfg (r : Regs) (portAddr pin : ℕ) (mode : BitVec 32) : Regs :=
  if pin < 8 then
    setMode r (portAddr + 0x00) ((pin - 0) * 4) mode
  else if pin < 16 then
    setMode r (portAddr + 0x04) ((pin - 8) * 4) mode
  else if pin < 24 then
    setMode r (portAddr + 0x08) ((pin - 16) * 4) mode
  else
    setMode r (portAddr + 0x0c) ((pin - 24) * 4) mode

/-- `set_pin_mode`, in a `struct port_registers`. -/
def setPinMode (r : Regs) (portAddr pin : ℕ) (mode : BitVec 32) : Regs :=
  setCfg r portAddr pin mode

/-- `set_pin_data`; `data` is the register at `0x10` of a `struct port_registers`. -/
def setPinData (r : Regs) (portAddr pin : ℕ) (data : Bool) : Regs :=
  Function.update r (portAddr + 0x10)
    (if data then r (portAddr + 0x10) ||| (1#32 <<< pin)
      else r (portAddr + 0x10) &&& ~~~(1#32 <<< pin))

/-- `gpio_irq_set_trigger`, in a `struct port_irq_registers`. -/
def gpioIrqSetTrigger (r : Regs) (portAddr pin : ℕ) (mode : BitVec 8) : Regs :=
  setCfg r portAddr pin (mode.setWidth 32)

/-- `gpio_irq_enable`; `ctl` is the register at `0x10` of a `struct port_irq_registers`. -/
def gpioIrqEnable (r : Regs) (portAddr pin : ℕ) (enable : Bool) : Regs :=
  Function.update r (portAddr + 0x10)
    (if enable then r (portAddr + 0x10) ||| (1#32 <<< pin)
      else r (portAddr + 0x10) &&& ~~~(1#32 <<< pin))

/-- The three calls that make an interrupt of a pin, the last two with an address of their
own. -/
def configureAt (r : Regs) (portAddr irqAddr pin : ℕ) (t : Trigger) : Regs :=
  let r := setPinMode r portAddr pin (gpioModeEint.setWidth 32)
  let r := gpioIrqSetTrigger r irqAddr pin (t.mode.setWidth 8)
  gpioIrqEnable r irqAddr pin true

/-- The calls as `startup` makes them: with the address of the port. -/
def configure (r : Regs) (port : EintPort) (pin : ℕ) (t : Trigger) : Regs :=
  configureAt r port.port.base port.port.base pin t

/-! ### What an interrupt pin is -/

/-- The function or the trigger field of a pin, in the block at an address. -/
def cfgField (r : Regs) (addr pin : ℕ) : BitVec 3 :=
  fieldAt (r (addr + 4 * (pin / 8))) (pin % 8 * 4) 3

/-- The data or the enable bit of a pin. -/
def ctlBit (r : Regs) (addr pin : ℕ) : Bool := (r (addr + 0x10)).getLsbD pin

/-- **A pin has been made an interrupt pin**, and nothing else has changed: its function is the
interrupt, its trigger and its enable bit are set, the data register is as before, and so are
the fields of every other pin. -/
structure PinInterrupt (port : EintPort) (pin : Fin 32) (t : Trigger) (r r' : Regs) : Prop where
  function : cfgField r' port.port.base pin = gpioModeEint
  data : r' (port.port.base + 0x10) = r (port.port.base + 0x10)
  trigger : cfgField r' port.eintBase pin = t.mode
  enabled : ctlBit r' port.eintBase pin = true
  otherFunctions : ∀ (p : Port) (q : Fin 32), (p, q) ≠ (port.port, pin) →
    cfgField r' p.base q = cfgField r p.base q
  otherTriggers : ∀ (p : EintPort) (q : Fin 32), (p, q) ≠ (port, pin) →
    cfgField r' p.eintBase q = cfgField r p.eintBase q
  otherEnables : ∀ (p : EintPort) (q : Fin 32), (p, q) ≠ (port, pin) →
    ctlBit r' p.eintBase q = ctlBit r p.eintBase q

/-! ### One call -/

theorem setMode_eq (r : Regs) (reg shift : ℕ) (mode : BitVec 32) :
    setMode r reg shift mode = Function.update r reg (putField (r reg) shift 3 mode) := by
  rw [setMode, Function.update_self, Function.update_idem]
  rfl

/-- The chain of cases is a division. -/
theorem setCfg_eq (r : Regs) (addr : ℕ) {pin : ℕ} (hpin : pin < 32) (mode : BitVec 32) :
    setCfg r addr pin mode = Function.update r (addr + 4 * (pin / 8))
      (putField (r (addr + 4 * (pin / 8))) (pin % 8 * 4) 3 mode) := by
  unfold setCfg
  split
  · rw [setMode_eq, show 4 * (pin / 8) = 0x00 by omega, show pin % 8 = pin - 0 by omega]
  split
  · rw [setMode_eq, show 4 * (pin / 8) = 0x04 by omega, show pin % 8 = pin - 8 by omega]
  split
  · rw [setMode_eq, show 4 * (pin / 8) = 0x08 by omega, show pin % 8 = pin - 16 by omega]
  · rw [setMode_eq, show 4 * (pin / 8) = 0x0c by omega, show pin % 8 = pin - 24 by omega]

/-- **The field of a pin that has been set.** -/
theorem cfgField_setCfg_self (r : Regs) (addr : ℕ) {pin : ℕ} (hpin : pin < 32) (v : BitVec 3) :
    cfgField (setCfg r addr pin (v.setWidth 32)) addr pin = v := by
  rw [cfgField, setCfg_eq r addr hpin, Function.update_self]
  exact fieldAt_putField (by omega) _ v

/-- **The field of another pin**, of the same block or of another one. -/
theorem cfgField_setCfg_of_ne (r : Regs) {addr addr' pin q : ℕ} (hpin : pin < 32)
    (hne : addr + 4 * (pin / 8) = addr' + 4 * (q / 8) → q % 8 ≠ pin % 8) (v : BitVec 3) :
    cfgField (setCfg r addr pin (v.setWidth 32)) addr' q = cfgField r addr' q := by
  rw [cfgField, cfgField, setCfg_eq r addr hpin]
  by_cases hreg : addr' + 4 * (q / 8) = addr + 4 * (pin / 8)
  · have hq := hne hreg.symm
    rw [hreg, Function.update_self]
    exact fieldAt_putField_apart (by omega) (by omega) _ v
  · rw [Function.update_of_ne hreg]

/-- A register outside the configuration registers of a block. -/
theorem setCfg_of_ne (r : Regs) {addr pin x : ℕ} (hpin : pin < 32) (mode : BitVec 32)
    (hx : x ≠ addr + 4 * (pin / 8)) : setCfg r addr pin mode x = r x := by
  rw [setCfg_eq r addr hpin, Function.update_of_ne hx]

/-- A register other than the control register. -/
theorem gpioIrqEnable_of_ne (r : Regs) {addr pin x : ℕ} (enable : Bool)
    (hx : x ≠ addr + 0x10) : gpioIrqEnable r addr pin enable x = r x := by
  rw [gpioIrqEnable, Function.update_of_ne hx]

theorem cfgField_gpioIrqEnable (r : Regs) {addr addr' pin q : ℕ} (enable : Bool)
    (hx : addr' + 4 * (q / 8) ≠ addr + 0x10) :
    cfgField (gpioIrqEnable r addr pin enable) addr' q = cfgField r addr' q := by
  rw [cfgField, cfgField, gpioIrqEnable_of_ne r enable hx]

/-- The bits of the control register after a pin has been enabled. -/
theorem ctlBit_gpioIrqEnable (r : Regs) (addr pin : ℕ) {q : ℕ} (hq : q < 32) :
    ctlBit (gpioIrqEnable r addr pin true) addr q = (ctlBit r addr q || decide (q = pin)) := by
  rw [ctlBit, ctlBit, gpioIrqEnable, Function.update_self, putField_bit,
    getLsbD_putField _ _ _ hq]
  by_cases h : q = pin
  · simp [h]
  · have hout : ¬(pin ≤ q ∧ q < pin + 1) := by omega
    rw [if_neg hout, decide_eq_false h, Bool.or_false]

/-! ### The addresses -/

/-- The ports in numbers. -/
theorem Port.base_eq (p : Port) : p.base = match p with
    | .a => 0x01C20800 | .c => 0x01C20848 | .d => 0x01C2086C | .e => 0x01C20890
    | .f => 0x01C208B4 | .g => 0x01C208D8 | .l => 0x01F02C00 := by
  cases p <;> rfl

theorem EintPort.eintBase_eq (p : EintPort) : p.eintBase = match p with
    | .a => 0x01C20A00 | .g => 0x01C20A20 | .l => 0x01F02E00 := by
  cases p <;> rfl

/-- Configuration registers of different ports, or of different numbers, are different. -/
theorem Port.base_add_inj {p p' : Port} {i j : ℕ} (hi : i < 4) (hj : j < 4)
    (h : p.base + 4 * i = p'.base + 4 * j) : p = p' ∧ i = j := by
  rw [Port.base_eq, Port.base_eq] at h
  cases p <;> cases p' <;> dsimp only at h <;>
    first
      | exact ⟨rfl, by omega⟩
      | exact absurd h (by omega)

/-- The same for the second blocks. -/
theorem EintPort.eintBase_add_inj {p p' : EintPort} {i j : ℕ} (hi : i < 5) (hj : j < 5)
    (h : p.eintBase + 4 * i = p'.eintBase + 4 * j) : p = p' ∧ i = j := by
  rw [EintPort.eintBase_eq, EintPort.eintBase_eq] at h
  cases p <;> cases p' <;> dsimp only at h <;>
    first
      | exact ⟨rfl, by omega⟩
      | exact absurd h (by omega)

/-- The two blocks have no register in common. -/
theorem Port.base_add_ne (p : Port) (p' : EintPort) {i j : ℕ} (hi : i < 5) (hj : j < 5) :
    p.base + 4 * i ≠ p'.eintBase + 4 * j := by
  rw [Port.base_eq, EintPort.eintBase_eq]
  cases p <;> cases p' <;> dsimp only <;> omega

/-! ### With the address of the port -/

/-- **The function of the pin is the number of the trigger.** -/
theorem cfgField_configure (r : Regs) (port : EintPort) (pin : Fin 32) (t : Trigger) :
    cfgField (configure r port pin t) port.port.base pin = t.mode := by
  have hpin := pin.isLt
  rw [configure, configureAt, cfgField_gpioIrqEnable _ true (by omega), gpioIrqSetTrigger,
    BitVec.setWidth_setWidth (by decide)]
  exact cfgField_setCfg_self _ _ hpin t.mode

/-- **To enable an interrupt at the address of a port is to drive the pin.** -/
theorem gpioIrqEnable_eq_setPinData (r : Regs) (portAddr pin : ℕ) (enable : Bool) :
    gpioIrqEnable r portAddr pin enable = setPinData r portAddr pin enable := rfl

/-- **The pin is driven high**, as far as it is an output. -/
theorem ctlBit_configure (r : Regs) (port : EintPort) (pin : Fin 32) (t : Trigger) :
    ctlBit (configure r port pin t) port.port.base pin = true := by
  rw [configure, configureAt, ctlBit_gpioIrqEnable _ _ _ pin.isLt]
  simp

/-- No trigger has the number of the interrupt function. -/
theorem Trigger.mode_ne (t : Trigger) : t.mode ≠ gpioModeEint := by
  cases t <;> decide

/-- **No pin of any port becomes an interrupt pin.** -/
theorem not_pinInterrupt (port : EintPort) (pin : Fin 32) (t : Trigger) (r : Regs) :
    ¬PinInterrupt port pin t r (configure r port pin t) := by
  intro h
  have hfunction := h.function
  rw [cfgField_configure] at hfunction
  exact t.mode_ne hfunction

/-- **The reset button becomes an output that is driven high**: the number of the falling edge
is the one of an output. -/
theorem resetButton_output (r : Regs) :
    cfgField (configure r .l (3 : Fin 32) .falling) Port.l.base 3 = gpioModeOutput ∧
      ctlBit (configure r .l (3 : Fin 32) .falling) Port.l.base 3 = true :=
  ⟨cfgField_configure r .l 3 .falling, ctlBit_configure r .l 3 .falling⟩

/-- The reset button with all registers zero before: its function and its data bit change, and
the interrupt is neither triggered by the falling edge nor enabled. -/
theorem not_pinInterrupt_resetButton :
    cfgField (configure (fun _ => 0#32) .l (3 : Fin 32) .falling) Port.l.base 3 = 1#3 ∧
      configure (fun _ => 0#32) .l (3 : Fin 32) .falling (Port.l.base + 0x10) = 8#32 ∧
      cfgField (configure (fun _ => 0#32) .l (3 : Fin 32) .falling)
        (EintPort.eintBase .l) 3 = 0#3 ∧
      ctlBit (configure (fun _ => 0#32) .l (3 : Fin 32) .falling)
        (EintPort.eintBase .l) 3 = false ∧
      ¬PinInterrupt .l 3 .falling (fun _ => 0#32)
        (configure (fun _ => 0#32) .l (3 : Fin 32) .falling) := by
  refine ⟨by decide, by decide, by decide, by decide, fun h => ?_⟩
  exact absurd h.enabled (by decide)

/-! ### With the address of the second block -/

section SecondBlock

variable (r : Regs) (port : EintPort) (pin : Fin 32) (t : Trigger)

theorem configureAt_eq :
    configureAt r port.port.base port.eintBase pin t =
      gpioIrqEnable (setCfg (setCfg r port.port.base pin (gpioModeEint.setWidth 32))
        port.eintBase pin (t.mode.setWidth 32)) port.eintBase pin true := by
  rw [configureAt, gpioIrqSetTrigger, BitVec.setWidth_setWidth (by decide), setPinMode]

/-- The function fields see the first call only. -/
theorem cfgField_base_configureAt (p : Port) (q : Fin 32) :
    cfgField (configureAt r port.port.base port.eintBase pin t) p.base q =
      cfgField (setCfg r port.port.base pin (gpioModeEint.setWidth 32)) p.base q := by
  have hpin := pin.isLt
  have hq := q.isLt
  have hctl := Port.base_add_ne p port (i := q / 8) (j := 4) (by omega) (by omega)
  have hcfg := Port.base_add_ne p port (i := q / 8) (j := pin / 8) (by omega) (by omega)
  rw [configureAt_eq, cfgField_gpioIrqEnable _ true hctl,
    cfgField_setCfg_of_ne _ hpin (fun h => absurd h.symm hcfg)]

/-- The trigger fields see the second call only. -/
theorem cfgField_eintBase_configureAt (p : EintPort) (q : Fin 32) :
    cfgField (configureAt r port.port.base port.eintBase pin t) p.eintBase q =
      cfgField (setCfg (setCfg r port.port.base pin (gpioModeEint.setWidth 32))
        port.eintBase pin (t.mode.setWidth 32)) p.eintBase q := by
  have hq := q.isLt
  rw [configureAt_eq, cfgField_gpioIrqEnable _ true fun h => ?_]
  have := (EintPort.eintBase_add_inj (i := q / 8) (j := 4) (by omega) (by omega) h).2
  omega

/-- The enable bits see the last call only. -/
theorem ctlBit_eintBase_configureAt (p : EintPort) (q : Fin 32) :
    ctlBit (configureAt r port.port.base port.eintBase pin t) p.eintBase q =
      (ctlBit r p.eintBase q || decide ((p, q) = (port, pin))) := by
  have hpin := pin.isLt
  have hsame : ctlBit (setCfg (setCfg r port.port.base pin (gpioModeEint.setWidth 32))
      port.eintBase pin (t.mode.setWidth 32)) p.eintBase q = ctlBit r p.eintBase q := by
    rw [ctlBit, ctlBit, setCfg_of_ne _ hpin _ fun h => ?_, setCfg_of_ne _ hpin _ fun h => ?_]
    · exact Port.base_add_ne port.port p (i := pin / 8) (j := 4) (by omega) (by omega) h.symm
    · have := (EintPort.eintBase_add_inj (i := 4) (j := pin / 8) (by omega) (by omega) h).2
      omega
  by_cases hp : p = port
  · subst hp
    rw [configureAt_eq, ctlBit_gpioIrqEnable _ _ _ q.isLt, hsame]
    simp [Fin.ext_iff]
  · rw [configureAt_eq, ctlBit, gpioIrqEnable_of_ne _ true fun h => ?_, ← ctlBit, hsame]
    · simp [hp]
    · exact hp (EintPort.eintBase_add_inj (i := 4) (j := 4) (by omega) (by omega) h).1

/-- **With the address of the second block the three calls make an interrupt pin.** -/
theorem pinInterrupt_eintBase :
    PinInterrupt port pin t r (configureAt r port.port.base port.eintBase pin t) where
  function := by
    rw [cfgField_base_configureAt]
    exact cfgField_setCfg_self r _ pin.isLt gpioModeEint
  data := by
    have hpin := pin.isLt
    have hctl := Port.base_add_ne port.port port (i := 4) (j := 4) (by omega) (by omega)
    have hcfg := Port.base_add_ne port.port port (i := 4) (j := pin / 8) (by omega) (by omega)
    rw [configureAt_eq, gpioIrqEnable_of_ne _ true hctl, setCfg_of_ne _ hpin _ hcfg,
      setCfg_of_ne _ hpin _ (by omega)]
  trigger := by
    rw [cfgField_eintBase_configureAt]
    exact cfgField_setCfg_self _ _ pin.isLt t.mode
  enabled := by
    rw [ctlBit_eintBase_configureAt]
    simp
  otherFunctions p q hne := by
    have hpin := pin.isLt
    have hq := q.isLt
    rw [cfgField_base_configureAt, cfgField_setCfg_of_ne _ hpin fun h hmod => hne ?_]
    obtain ⟨hp, hdiv⟩ := Port.base_add_inj (by omega) (by omega) h
    rw [hp, Fin.ext (show (q : ℕ) = pin by omega)]
  otherTriggers p q hne := by
    have hpin := pin.isLt
    have hq := q.isLt
    rw [cfgField_eintBase_configureAt, cfgField_setCfg_of_ne _ hpin fun h hmod => hne ?_,
      cfgField_setCfg_of_ne _ hpin fun h => absurd h ?_]
    · exact Port.base_add_ne port.port p (by omega) (by omega)
    · obtain ⟨hp, hdiv⟩ := EintPort.eintBase_add_inj (by omega) (by omega) h
      rw [hp, Fin.ext (show (q : ℕ) = pin by omega)]
  otherEnables p q hne := by
    rw [ctlBit_eintBase_configureAt, decide_eq_false hne, Bool.or_false]

end SecondBlock

end Ports

end BareMetal
