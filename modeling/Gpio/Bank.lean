import Gpio.Fault
import Gpio.Memory

/-!
# Register banks

A bank is a mapped window of device memory that is only touched one aligned
32-bit register at a time. Alignment is tested before the end of the access
is computed, and the end of an access at the top of the address space does
not fit 64 bits: there the check overflows instead of refusing.
-/

set_option autoImplicit false

namespace Gpio

structure Bank where
  phys : Nat
  size : Nat
  base : Nat
  base_ne_zero : base ≠ 0
  deriving DecidableEq, Repr

namespace Bank

def new? (phys base size : Nat) : Option Bank :=
  if h : base = 0 then none else some ⟨phys, size, base, h⟩

def fromPhys? (toVirtual : Nat → Nat) (phys size : Nat) : Option Bank :=
  new? phys (toVirtual phys) size

def address (b : Bank) (offset : Nat) : Checked Nat := checkedAdd b.base offset

def check (b : Bank) (offset : Nat) : Checked Unit :=
  if offset % 4 ≠ 0 then .refuse .invalidLine
  else do
    let stop ← checkedAdd offset 4
    if b.size < stop then .refuse .invalidLine else pure ()

def read (b : Bank) (m : Memory) (offset : Nat) : Checked Word := do
  b.check offset
  pure (m.loadWord (b.base + offset))

def write (b : Bank) (m : Memory) (offset : Nat) (v : Word) : Checked Memory := do
  b.check offset
  pure (m.storeWord (b.base + offset) v)

def Covers (b : Bank) (offset : Nat) : Prop := offset % 4 = 0 ∧ offset + 4 ≤ b.size

instance (b : Bank) (offset : Nat) : Decidable (b.Covers offset) :=
  inferInstanceAs (Decidable (_ ∧ _))

theorem check_eq (b : Bank) {offset : Nat} (h : offset + 4 < addressLimit) :
    b.check offset = if b.Covers offset then .ok () else .refuse .invalidLine := by
  unfold check
  rw [checkedAdd_of_lt h]
  by_cases ha : offset % 4 = 0
  · rw [if_neg (not_not_intro ha)]
    simp only [bind, Except.bind, pure, Except.pure]
    by_cases hs : offset + 4 ≤ b.size
    · rw [if_neg (Nat.not_lt.mpr hs), if_pos (show b.Covers offset from ⟨ha, hs⟩)]
    · rw [if_pos (Nat.lt_of_not_le hs), if_neg fun hc : b.Covers offset => hs hc.2]
  · rw [if_pos ha, if_neg fun hc : b.Covers offset => ha hc.1]

end Bank
end Gpio
