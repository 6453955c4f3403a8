import Gpio.Proofs.Attaching

/-!
# The words of one line

The registers of a line are words of one bank, so they keep apart whatever
the two banks are. On a probed block an access to a line that exists
succeeds: a write is one store, and an update is one store of what it makes
of the word.
-/

set_option autoImplicit false

namespace Gpio

open Drive

variable {D σ : Type}

namespace Block

/-- No operation takes a block off its banks. -/
theorem Stands.step {b : Block D σ} {main aon : Bank} (h : b.Stands main aon) (op : Operation D)
    (m : Machine D σ) : (b.step op m).2.1.Stands main aon := by
  rcases b.step_block op m with hb | ⟨d, hb⟩ <;> rw [hb]
  · exact h
  · exact h.attached d

variable (b : Block D σ)

def place (l : Location) (r : PinRegister) : Nat := (b.bank l.bank).base + l.offset r

def word (n : Memory) (l : Location) (r : PinRegister) : Word := n.loadWord (b.place l r)

theorem place_apart (l : Location) {r s : PinRegister} (h : r ≠ s) :
    b.place l r + 4 ≤ b.place l s ∨ b.place l s + 4 ≤ b.place l r := by
  have hne : r.offset ≠ s.offset := fun he => h (PinRegister.offset_injective he)
  have hr := (register_offset r).1
  have hs := (register_offset s).1
  simp only [place, Location.offset]
  omega

theorem word_store (n : Memory) (l : Location) (r s : PinRegister) (v : Word) :
    b.word (n.storeWord (b.place l r) v) l s = if r = s then v else b.word n l s := by
  split
  · next h =>
    subst h
    exact n.loadWord_storeWord _ v
  · next h => exact n.loadWord_storeWord_disjoint _ _ v (b.place_apart l h).symm

/-- A register that was just stored. -/
theorem word_record (m : Machine D σ) (l : Location) (r : PinRegister) (v : Word) :
    b.word (m.record (.store (b.place l r) v)).memory l r = v :=
  m.memory.loadWord_storeWord _ v

def Within (l : Location) (r : PinRegister) (a : Nat) : Prop :=
  b.place l r ≤ a ∧ a < b.place l r + 4

/-- The gate looks at one word, which lies below the registers. -/
theorem owns_congr {line : UInt32} {l : Location} (hl : validLine line = .ok l) {m n : Memory}
    (h : ∀ a, a < (b.bank l.bank).base + l.bank.dataStart → n.byte a = m.byte a) :
    b.owns n line = b.owns m line := by
  have hs := (security_place (validLine_eq_ok.mp hl).1).2
  have hword : n.loadWord ((b.bank l.bank).base + l.security) =
      m.loadWord ((b.bank l.bank).base + l.security) :=
    Memory.loadWord_eq_iff.mpr fun a _ ha => h a (by omega)
  rw [b.owns_of_valid n hl, b.owns_of_valid m hl, grants, grants, hword]

theorem Within.dataStart_le {b : Block D σ} {line : UInt32} {l : Location} {r : PinRegister}
    {a : Nat} (h : b.Within l r a) (hl : validLine line = .ok l) :
    (b.bank l.bank).base + l.bank.dataStart ≤ a := by
  have hr := (offset_place hl r).2
  have ha := h.1
  rw [place] at ha
  omega

section Fits

variable {b} (fits : ∀ kind, bankExtent kind ≤ (b.bank kind).size) {line : UInt32} {l : Location}
  (hl : validLine line = .ok l) (r : PinRegister) (m : Machine D σ)
include fits hl

theorem on_write_of_fits (v : Word) :
    (b.write line r v).on m = (.ok (), m.record (.store (b.place l r) v)) :=
  (b.on_write hl r v m).trans
    (on_put_of_covers (Bank.covers_register hl (fits l.bank) r) (offset_fits hl r) v m)

theorem on_modifyRegister_of_fits (f : Word → Word) : (b.modifyRegister line r f).on m =
    (.ok (), m.record (.store (b.place l r) (f (b.word m.memory l r)))) :=
  b.on_modifyRegister_of_covers hl (Bank.covers_register hl (fits l.bank) r) f m

omit r in
theorem on_setBits (bits : Word) : (b.setConfig line bits true).on m =
    (.ok (), m.record (.store (b.place l .enableConfig)
      (b.word m.memory l .enableConfig ||| bits))) := by
  rw [← merge_self]
  exact on_modifyRegister_of_fits fits hl .enableConfig m _

omit r in
theorem on_clearBits (bits : Word) : (b.setConfig line bits false).on m =
    (.ok (), m.record (.store (b.place l .enableConfig)
      (b.word m.memory l .enableConfig &&& ~~~bits))) := by
  rw [← merge_zero]
  exact on_modifyRegister_of_fits fits hl .enableConfig m _

end Fits

end Block

end Gpio
