import BareMetal.Cells
import BareMetal.Ports.Pins

/-!
# The fields of the pins

Four functions of `ports.c` set the function of a pin, its data bit, its drive strength and its
pull resistor. All of them read a register, change some bits of it, and write it back, and the
values of the 32 pins of a port are packed into nine registers in three different ways: eight
pins to a register with four bits for each, of which three are used; thirty-two with one bit;
and sixteen with two.

What this is for is a **store** in the sense of `BareMetal.Stores`, with one cell for each pin and
each kind of field. Every call replaces the one field it is about
(`BareMetal.Ports.pinStep_eq`), and fields of different pins or kinds are in different registers
or in different places of one (`BareMetal.Ports.PinField.apart`). So the registers of a port are
such a store (`BareMetal.Ports.stores_pinField`): whatever they held at first, after any calls a
field holds what it was last set to, and nothing outside the port has changed
(`BareMetal.Ports.independentPins`).

The numbers passed are within the width of the field, except for the data bit, of which any
number but zero makes one.
-/

namespace BareMetal

namespace Ports

/-! ### The code -/

/-- `*reg &= ~(3 << shift); *reg |= value << shift;` -/
def setPair (r : Regs) (reg shift : ℕ) (value : BitVec 32) : Regs :=
  let r := Function.update r reg (r reg &&& ~~~(3#32 <<< shift))
  Function.update r reg (r reg ||| (value <<< shift))

/-- The body that `set_pin_drive` and `set_pin_pull` have in common, with the two registers that
each has for itself. -/
def setPairs (r : Regs) (reg0 reg1 pin : ℕ) (value : BitVec 32) : Regs :=
  if pin < 16 then setPair r reg0 (pin * 2) value
  else setPair r reg1 ((pin - 16) * 2) value

/-- `set_pin_drive`; `drv0` and `drv1` are at `0x14` and `0x18`. -/
def setPinDrive (r : Regs) (portAddr pin : ℕ) (strength : BitVec 32) : Regs :=
  setPairs r (portAddr + 0x14) (portAddr + 0x18) pin strength

/-- `set_pin_pull`; `pul0` and `pul1` are at `0x1c` and `0x20`. -/
def setPinPull (r : Regs) (portAddr pin : ℕ) (pull : BitVec 32) : Regs :=
  setPairs r (portAddr + 0x1c) (portAddr + 0x20) pin pull

/-- `get_pin_data`: zero or one. -/
def getPinData (r : Regs) (portAddr pin : ℕ) : ℕ :=
  (r (portAddr + 0x10) &&& (1#32 <<< pin) != 0#32).toNat

/-- The calls, each with a number that its field can hold. -/
inductive PinCall where
  | setPinMode (pin : Fin 32) (mode : BitVec 3)
  | setPinData (pin : Fin 32) (data : BitVec 32)
  | setPinDrive (pin : Fin 32) (strength : BitVec 2)
  | setPinPull (pin : Fin 32) (pull : BitVec 2)
  deriving DecidableEq, Repr

/-- A call, for the port at an address. -/
def pinStep (portAddr : ℕ) (r : Regs) : PinCall → Unit × Regs
  | .setPinMode pin mode => ((), setPinMode r portAddr pin (mode.setWidth 32))
  | .setPinData pin data => ((), setPinData r portAddr pin (data != 0#32))
  | .setPinDrive pin strength => ((), setPinDrive r portAddr pin (strength.setWidth 32))
  | .setPinPull pin pull => ((), setPinPull r portAddr pin (pull.setWidth 32))

/-! ### The fields -/

/-- The kinds of fields. -/
inductive PinField where
  | mode | data | drive | pull
  deriving DecidableEq, Repr

namespace PinField

/-- The bits of a field. -/
def width : PinField → ℕ
  | .mode => 3
  | .data => 1
  | .drive | .pull => 2

/-- The register of the field of a pin, from the address of the port. -/
def reg : PinField → ℕ → ℕ
  | .mode, pin => 4 * (pin / 8)
  | .data, _ => 0x10
  | .drive, pin => 0x14 + 4 * (pin / 16)
  | .pull, pin => 0x1c + 4 * (pin / 16)

/-- The place of the field of a pin in its register. -/
def pos : PinField → ℕ → ℕ
  | .mode, pin => pin % 8 * 4
  | .data, pin => pin
  | .drive, pin | .pull, pin => pin % 16 * 2

/-- The registers are those of the port. -/
theorem reg_lt (k : PinField) (pin : Fin 32) : k.reg pin < 0x24 := by
  cases k <;> simp only [reg] <;> omega

/-- The fields fit their registers. -/
theorem pos_add_width_le (k : PinField) (pin : Fin 32) : k.pos pin + k.width ≤ 32 := by
  cases k <;> simp only [pos, width] <;> omega

/-- **Fields of one register are in different places of it**, unless they are the same. -/
theorem apart {c c' : PinField × Fin 32} (hne : c' ≠ c) (hreg : c'.1.reg c'.2 = c.1.reg c.2) :
    c.1.pos c.2 + c.1.width ≤ c'.1.pos c'.2 ∨ c'.1.pos c'.2 + c'.1.width ≤ c.1.pos c.2 := by
  obtain ⟨k, pin⟩ := c
  obtain ⟨k', pin'⟩ := c'
  have hpin := pin.isLt
  have hpin' := pin'.isLt
  have hsame : k' = k → (pin' : ℕ) ≠ pin := fun hk hp => hne (by rw [hk, Fin.ext hp])
  -- registers of different kinds are different, so the kinds are the same
  cases k <;> cases k' <;> simp only [reg, pos, width, reduceCtorEq, forall_const] at * <;> omega

end PinField

/-- The field of a pin. -/
def pinField (portAddr : ℕ) (r : Regs) (c : PinField × Fin 32) : BitVec c.1.width :=
  fieldAt (r (portAddr + c.1.reg c.2)) (c.1.pos c.2) c.1.width

/-- The field a call sets … -/
def PinCall.field : PinCall → PinField × Fin 32
  | .setPinMode pin _ => (.mode, pin)
  | .setPinData pin _ => (.data, pin)
  | .setPinDrive pin _ => (.drive, pin)
  | .setPinPull pin _ => (.pull, pin)

/-- … and what it sets it to. -/
def PinCall.value : (e : PinCall) → BitVec e.field.1.width
  | .setPinMode _ mode => mode
  | .setPinData _ data => BitVec.ofBool (data != 0#32)
  | .setPinDrive _ strength => strength
  | .setPinPull _ pull => pull

def PinCall.sets (e : PinCall) : ∀ c : PinField × Fin 32, Option (BitVec c.1.width) :=
  single e.field e.value

/-- **The fields of a port are independent**: after some calls each holds what the last call for
this pin and kind set it to, or what it held at first; `get_pin_data` returns the data bit; a
further call changes no other field; and nothing outside the port has changed. -/
structure IndependentPins (portAddr : ℕ) (r₀ : Regs) (h : List (PinCall × Unit)) (r : Regs) :
    Prop where
  last : ∀ c, pinField portAddr r c = lastSet (fun e => e.sets c) (pinField portAddr r₀ c) h
  getData : ∀ pin : Fin 32, getPinData r portAddr pin = (pinField portAddr r (.data, pin)).toNat
  frame : ∀ e c, c ≠ PinCall.field e →
    pinField portAddr (pinStep portAddr r e).2 c = pinField portAddr r c
  outside : ∀ x, x < portAddr ∨ portAddr + 0x24 ≤ x → r x = r₀ x

/-! ### One call -/

/-- A field replaced. -/
def putPin (portAddr : ℕ) (r : Regs) (c : PinField × Fin 32) (v : BitVec c.1.width) : Regs :=
  Function.update r (portAddr + c.1.reg c.2)
    (putField (r (portAddr + c.1.reg c.2)) (c.1.pos c.2) c.1.width (v.setWidth 32))

theorem setPair_eq (r : Regs) (reg shift : ℕ) (value : BitVec 32) :
    setPair r reg shift value = Function.update r reg (putField (r reg) shift 2 value) := by
  rw [setPair, Function.update_self, Function.update_idem]
  rfl

/-- The two cases are a division. -/
theorem setPairs_eq (r : Regs) (portAddr off : ℕ) {pin : ℕ} (hpin : pin < 32)
    (value : BitVec 32) :
    setPairs r (portAddr + off) (portAddr + (off + 4)) pin value =
      Function.update r (portAddr + (off + 4 * (pin / 16)))
        (putField (r (portAddr + (off + 4 * (pin / 16)))) (pin % 16 * 2) 2 value) := by
  unfold setPairs
  split
  · rw [setPair_eq, show off + 4 * (pin / 16) = off by omega, show pin % 16 = pin by omega]
  · rw [setPair_eq, show off + 4 * (pin / 16) = off + 4 by omega,
      show pin % 16 = pin - 16 by omega]

theorem setPinData_eq (r : Regs) (portAddr pin : ℕ) (b : Bool) :
    setPinData r portAddr pin b = Function.update r (portAddr + 0x10)
      (putField (r (portAddr + 0x10)) pin 1 ((BitVec.ofBool b).setWidth 32)) := by
  rw [setPinData, putField_bit]

/-- **A call replaces the field it is about.** -/
theorem pinStep_eq (portAddr : ℕ) (r : Regs) (e : PinCall) :
    (pinStep portAddr r e).2 = putPin portAddr r e.field e.value := by
  cases e with
  | setPinMode pin mode => exact setCfg_eq r portAddr pin.isLt _
  | setPinData pin data => exact setPinData_eq r portAddr pin _
  | setPinDrive pin strength => exact setPairs_eq r portAddr 0x14 pin.isLt _
  | setPinPull pin pull => exact setPairs_eq r portAddr 0x1c pin.isLt _

/-- **A field that is replaced is the only one that changes.** -/
theorem pinField_putPin (portAddr : ℕ) (r : Regs) (c : PinField × Fin 32)
    (v : BitVec c.1.width) :
    pinField portAddr (putPin portAddr r c v) = Function.update (pinField portAddr r) c v := by
  funext c'
  by_cases hc : c' = c
  · subst hc
    rw [Function.update_self, pinField, putPin, Function.update_self]
    exact fieldAt_putField (c'.1.pos_add_width_le c'.2) _ v
  · rw [Function.update_of_ne hc, pinField, pinField, putPin]
    by_cases hreg : c'.1.reg c'.2 = c.1.reg c.2
    · rw [hreg, Function.update_self]
      exact fieldAt_putField_apart (c'.1.pos_add_width_le c'.2) (PinField.apart hc hreg) _ v
    · have hne : portAddr + c'.1.reg c'.2 ≠ portAddr + c.1.reg c.2 := by omega
      rw [Function.update_of_ne hne]

/-- A field that is replaced is in the port. -/
theorem putPin_of_outside {portAddr x : ℕ} (hx : x < portAddr ∨ portAddr + 0x24 ≤ x) (r : Regs)
    (c : PinField × Fin 32) (v : BitVec c.1.width) : putPin portAddr r c v x = r x := by
  have hreg := c.1.reg_lt c.2
  have hne : x ≠ portAddr + c.1.reg c.2 := by omega
  rw [putPin, Function.update_of_ne hne]

/-- What `get_pin_data` returns. -/
theorem getPinData_eq (portAddr : ℕ) (r : Regs) (pin : Fin 32) :
    getPinData r portAddr pin = (pinField portAddr r (.data, pin)).toNat := by
  change _ = (fieldAt (r (portAddr + 0x10)) pin 1).toNat
  rw [fieldAt_bit, BitVec.toNat_ofBool, getPinData, and_bit_ne_zero _ pin.isLt]

/-! ### Every run -/

/-- **The registers of a port are a store of the fields of its pins.** -/
theorem stores_pinField (portAddr : ℕ) :
    Stores (fnStep (pinStep portAddr)) Always (pinField portAddr) PinCall.sets := by
  intro r e o r' _ hstep
  obtain rfl : (pinStep portAddr r e).2 = r' := congrArg Prod.snd hstep
  rw [pinStep_eq, pinField_putPin, PinCall.sets, assign_single]

/-- **The pins are independent**, whatever the registers of the port held at first and whatever
is called. -/
theorem independentPins {portAddr : ℕ} {r₀ r : Regs} {h : List (PinCall × Unit)}
    (hr : Reach (fnStep (pinStep portAddr)) Always r₀ h r) : IndependentPins portAddr r₀ h r where
  last := (stores_pinField portAddr).view_eq_lastSet hr
  getData := getPinData_eq portAddr r
  frame e c hc := (stores_pinField portAddr).frame trivial rfl (single_of_ne hc _)
  outside := by
    refine hr.fnInvariant (fun _ r => ∀ x, x < portAddr ∨ portAddr + 0x24 ≤ x → r x = r₀ x)
      (fun x _ => rfl) ?_
    intro h r e ih _ x hx
    rw [pinStep_eq, putPin_of_outside hx, ih x hx]

/-- Some calls for port F, whose registers are all ones at first: neighbours in one register, the
last pin, and the first pin of a second register. -/
theorem independentPins_portF :
    let calls : List PinCall := [.setPinMode 9 2#3, .setPinMode 8 5#3, .setPinData 31 4#32,
      .setPinData 31 0#32, .setPinDrive 15 1#2, .setPinPull 16 2#2]
    let run := runFn (pinStep Port.f.base) [] (fun _ => BitVec.allOnes 32) calls
    (pinField Port.f.base run.2 (.mode, 9)).toNat = 2 ∧
      (pinField Port.f.base run.2 (.pull, 15)).toNat = 3 ∧ getPinData run.2 Port.f.base 31 = 0 ∧
      IndependentPins Port.f.base (fun _ => BitVec.allOnes 32) run.1 run.2 := by
  intro calls run
  exact ⟨by decide, by decide, by decide, independentPins (reach_runFn okAlong_always)⟩

/-- **The other ports** keep their fields. -/
theorem IndependentPins.otherPort {p p' : Port} (hne : p' ≠ p) {r₀ r : Regs}
    {h : List (PinCall × Unit)} (hpins : IndependentPins p.base r₀ h r) (c : PinField × Fin 32) :
    pinField p'.base r c = pinField p'.base r₀ c := by
  have hreg := c.1.reg_lt c.2
  have hout : p'.base + c.1.reg c.2 < p.base ∨ p.base + 0x24 ≤ p'.base + c.1.reg c.2 := by
    rw [Port.base_eq, Port.base_eq]
    cases p <;> cases p' <;> first | exact absurd rfl hne | (dsimp only; omega)
  rw [pinField, pinField, hpins.outside _ hout]

end Ports

end BareMetal
