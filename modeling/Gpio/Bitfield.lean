import Gpio.Hex
import Gpio.Layout

/-!
# Named bits of a register

A `FieldSet` names masks of a register, some of them unions of others. The
walk over a value takes the names in declaration order: a name is taken when
all its bits are set and at least one of them was not yet accounted for.
-/

set_option autoImplicit false

namespace Gpio

def hasBits (bits mask : Word) : Bool := bits &&& mask == mask

theorem hasBits_iff {bits mask : Word} :
    hasBits bits mask = true ↔ ∀ i, mask.getLsbD i = true → bits.getLsbD i = true := by
  rw [hasBits, beq_iff_eq]
  constructor
  · intro h i hi
    rw [← h, BitVec.getLsbD_and] at hi
    exact (Bool.and_eq_true _ _ ▸ hi).1
  · intro h
    apply BitVec.eq_of_getLsbD_eq
    intro i _
    rw [BitVec.getLsbD_and]
    cases hm : mask.getLsbD i with
    | true => rw [h i hm, Bool.and_true]
    | false => rw [Bool.and_false]

structure FieldSet where
  title : String
  fields : List (String × Word)

namespace FieldSet

def known (s : FieldSet) : Word := s.fields.foldl (fun acc f => acc ||| f.2) 0

def ofBits? (s : FieldSet) (bits : Word) : Option Word :=
  if bits &&& ~~~s.known = 0 then some bits else none

def truncate (s : FieldSet) (bits : Word) : Word := bits &&& s.known

def isAll (s : FieldSet) (bits : Word) : Bool := hasBits bits s.known

/-- The names taken from `bits`, and the bits of `rest` that no name took. -/
def walk (bits : Word) : List (String × Word) → Word → List (String × Word) × Word
  | [], rest => ([], rest)
  | f :: fs, rest =>
    if rest = 0 then ([], rest)
    else if hasBits bits f.2 && rest &&& f.2 != 0 then
      let (names, left) := walk bits fs (rest &&& ~~~f.2)
      (f :: names, left)
    else walk bits fs rest

def names (s : FieldSet) (bits : Word) : List (String × Word) := (walk bits s.fields bits).1

def render (s : FieldSet) (bits : Word) : String :=
  let (names, left) := walk bits s.fields bits
  let rest := if left = 0 ∧ bits ≠ 0 then [] else [hex left.toNat]
  s.title ++ "(" ++ " | ".intercalate (names.map (·.1) ++ rest) ++ ")"

end FieldSet

namespace PinConfig

def enable : Word := 0x01
def output : Word := 0x02
def triggerKind : Word := 0x0c
def triggerHigh : Word := 0x10
def debounce : Word := 0x20
def interrupt : Word := 0x40

def trigger : Word := triggerKind ||| triggerHigh

def fields : FieldSet where
  title := "EnableConfig"
  fields := [("ENABLE", enable), ("OUTPUT", output), ("TRIGGER_KIND", triggerKind),
    ("TRIGGER_HIGH", triggerHigh), ("DEBOUNCE", debounce), ("INTERRUPT", interrupt),
    ("TRIGGER", trigger)]

end PinConfig

namespace Grant

def groupRead : Word := 0x00000002
def groupWrite : Word := 0x00000200
def secureRead : Word := 0x08000000
def secureWrite : Word := 0x10000000

def full : Word := groupRead ||| groupWrite ||| secureRead ||| secureWrite

def fields : FieldSet where
  title := "ScrAccess"
  fields := [("G1R", groupRead), ("G1W", groupWrite), ("SEC_REN", secureRead),
    ("SEC_WEN", secureWrite), ("FULL_ACCESS", full)]

def isFull (scr : Word) : Bool := hasBits scr full

/-- The bits of the four grants. -/
theorem getLsbD_full (i : Nat) : full.getLsbD i = true ↔ i ∈ [1, 9, 27, 28] := by
  by_cases hi : i < 32
  · have h : ∀ j : Fin 32, full.getLsbD j = true ↔ (j : Nat) ∈ [1, 9, 27, 28] := by decide
    exact h ⟨i, hi⟩
  · rw [BitVec.getLsbD_of_ge _ _ (Nat.not_lt.mp hi)]
    simp only [Bool.false_eq_true, List.mem_cons, List.not_mem_nil, or_false, false_iff]
    omega

theorem isFull_iff {scr : Word} :
    isFull scr = true ↔ ∀ i ∈ [1, 9, 27, 28], scr.getLsbD i = true := by
  rw [isFull, hasBits_iff]
  exact ⟨fun h i hi => h i ((getLsbD_full i).mpr hi), fun h i hi => h i ((getLsbD_full i).mp hi)⟩

end Grant
end Gpio
