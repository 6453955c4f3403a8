import Mathlib.Algebra.BigOperators.Ring.Finset
import Mathlib.Tactic.Ring
import Gpio.Simulation.Trial

/-!
# Accesses of all widths

Memory is bytes: a store lays the low bytes of its value over those that were
there, least significant first, and a load adds bytes up. After any accesses
every byte is what was last put there, so a word is read back from whatever
writes last covered it, and accesses of different widths need no rules of
their own.
-/

set_option autoImplicit false

namespace Gpio

namespace Memory

variable {m : Memory}

theorem load_eq_sum (m : Memory) (n a : Nat) :
    m.load n a = ∑ i ∈ Finset.range n, (m.byte (a + i)).toNat * 256 ^ i := by
  induction n generalizing a with
  | zero => rfl
  | succ n ih =>
    have hrest : ∀ i ∈ Finset.range n, 256 * ((m.byte (a + 1 + i)).toNat * 256 ^ i) =
        (m.byte (a + (i + 1))).toNat * 256 ^ (i + 1) := by
      intro i _
      rw [Nat.add_right_comm a 1 i, Nat.add_assoc a i 1, pow_succ]
      ring
    rw [load, ih, Finset.mul_sum, Finset.sum_congr rfl hrest, Finset.sum_range_succ', pow_zero,
      Nat.mul_one, Nat.add_zero, Nat.add_comm]

/-- Bytes of a value load as the value, cut to as many. -/
theorem load_of_bytes {n a v : Nat}
    (h : ∀ i < n, m.byte (a + i) = UInt8.ofNat (v >>> (8 * i))) : m.load n a = v % 2 ^ (8 * n) := by
  rw [← Nat.one_shiftLeft, ← m.load_store_same n a v]
  apply load_congr
  intro b hlo hhi
  have hb := h (b - a) (by omega)
  rw [Nat.add_sub_cancel' hlo] at hb
  rw [byte_store, if_pos ⟨hlo, hhi⟩, hb]

/-- A load has the bytes it was made from. -/
theorem byte_eq_of_load (m : Memory) {n i : Nat} (a : Nat) (hi : i < n) :
    m.byte (a + i) = UInt8.ofNat (m.load n a >>> (8 * i)) := by
  have hback : m.load n a = (m.store n a (m.load n a)).load n a := by
    rw [load_store_same, Nat.mod_eq_of_lt (m.load_lt n a)]
  rw [byte_eq_of_load_eq n hback (a + i) (by omega) (by omega), byte_store, if_pos (by omega),
    Nat.add_sub_cancel_left]

theorem byte_store_toNat (m : Memory) {n i : Nat} (a v : Nat) (hi : i < n) :
    ((m.store n a v).byte (a + i)).toNat = (v >>> (8 * i)) % 256 := by
  rw [byte_store, if_pos (by omega), Nat.add_sub_cancel_left, UInt8.toNat_ofNat']

/-- A load inside what was stored. -/
theorem load_store_inside (m : Memory) {n k o : Nat} (a v : Nat) (h : o + k ≤ n) :
    (m.store n a v).load k (a + o) = (v >>> (8 * o)) % 2 ^ (8 * k) := by
  apply load_of_bytes
  intro i hi
  have hshift : 8 * (a + o + i - a) = 8 * o + 8 * i := by omega
  rw [byte_store, if_pos (by omega), hshift, Nat.shiftRight_add]

/-- Stores that do not overlap can change places. -/
theorem byte_store_comm (m : Memory) {n a k b : Nat} (v u : Nat) (apart : a + n ≤ b ∨ b + k ≤ a)
    (c : Nat) :
    ((m.store n a v).store k b u).byte c = ((m.store k b u).store n a v).byte c := by
  rw [byte_store, byte_store, byte_store, byte_store]
  by_cases hb : b ≤ c ∧ c < b + k
  · have ha : ¬ (a ≤ c ∧ c < a + n) := by omega
    rw [if_pos hb, if_neg ha, if_pos hb]
  · rw [if_neg hb, if_neg hb]

end Memory

namespace Simulation

namespace BusAccess

def put? : BusAccess → Nat → Option UInt8
  | read .., _ => none
  | write w a v, c =>
    if a ≤ c ∧ c < a + w.bytes then some (UInt8.ofNat (v >>> (8 * (c - a)))) else none

def lastPut? (xs : List BusAccess) (c : Nat) : Option UInt8 := xs.reverse.findSome? (·.put? c)

def Covers (xs : List BusAccess) (w : Width) (a : Nat) : Prop :=
  ∀ i < w.bytes, ∃ x ∈ xs, (x.put? (a + i)).isSome = true

/-- The bytes put last at the word at `a` are those of `v`. -/
def Spells (xs : List BusAccess) (w : Width) (a v : Nat) : Prop :=
  ∀ i < w.bytes, lastPut? xs (a + i) = some (UInt8.ofNat (v >>> (8 * i)))

instance (xs : List BusAccess) (w : Width) (a : Nat) : Decidable (Covers xs w a) :=
  inferInstanceAs (Decidable (∀ i < w.bytes, _))

instance (xs : List BusAccess) (w : Width) (a v : Nat) : Decidable (Spells xs w a v) :=
  inferInstanceAs (Decidable (∀ i < w.bytes, _))

/-- A write of that part of `v` which has width `p.1` and begins at byte `p.2`, where the part
belongs if `v` is at `a`. -/
def piece (a v : Nat) (p : Width × Nat) : BusAccess := .write p.1 (a + p.2) (v >>> (8 * p.2))

theorem put?_piece (a v : Nat) (p : Width × Nat) (i : Nat) :
    (piece a v p).put? (a + i) =
      if p.2 ≤ i ∧ i < p.2 + p.1.bytes then some (UInt8.ofNat (v >>> (8 * i))) else none := by
  by_cases h : p.2 ≤ i ∧ i < p.2 + p.1.bytes
  · have hshift : 8 * p.2 + 8 * (a + i - (a + p.2)) = 8 * i := by omega
    rw [piece, put?, if_pos (by omega), if_pos h, ← Nat.shiftRight_add, hshift]
  · rw [piece, put?, if_neg (by omega), if_neg h]

theorem lastPut?_cons (x : BusAccess) (xs : List BusAccess) (c : Nat) :
    lastPut? (x :: xs) c = (lastPut? xs c).or (x.put? c) := by
  rw [lastPut?, List.reverse_cons, List.findSome?_append, lastPut?]
  cases hx : x.put? c <;> simp [hx]

theorem lastPut?_isSome {xs : List BusAccess} {c : Nat} (h : ∃ x ∈ xs, (x.put? c).isSome = true) :
    ∃ b, lastPut? xs c = some b := by
  obtain ⟨x, hx, hput⟩ := h
  exact Option.isSome_iff_exists.mp
    (List.findSome?_isSome_iff.mpr ⟨x, List.mem_reverse.mpr hx, hput⟩)

theorem put?_of_lastPut? {xs : List BusAccess} {c : Nat} {b : UInt8} (h : lastPut? xs c = some b) :
    ∃ x ∈ xs, x.put? c = some b := by
  obtain ⟨x, hx, hput⟩ := List.exists_of_findSome?_eq_some h
  exact ⟨x, List.mem_reverse.mp hx, hput⟩

/-- Pieces of a value that cover a word spell it, in any order and however they overlap. -/
theorem spells_pieces {ps : List (Width × Nat)} {w : Width} (a v : Nat)
    (h : ∀ i < w.bytes, ∃ p ∈ ps, p.2 ≤ i ∧ i < p.2 + p.1.bytes) :
    Spells (ps.map (piece a v)) w a v := by
  intro i hi
  obtain ⟨p, hp, hin⟩ := h i hi
  have hput : ((piece a v p).put? (a + i)).isSome = true := by
    rw [put?_piece, if_pos hin]
    rfl
  obtain ⟨b, hb⟩ := lastPut?_isSome ⟨_, List.mem_map_of_mem hp, hput⟩
  obtain ⟨x, hx, hxb⟩ := put?_of_lastPut? hb
  obtain ⟨q, -, rfl⟩ := List.mem_map.mp hx
  rw [put?_piece] at hxb
  split at hxb
  · rw [hb, hxb]
  · cases hxb

end BusAccess

open BusAccess

variable {xs : List BusAccess} {m m' : Memory} {w : Width} {a v : Nat}

theorem runBus_append (xs ys : List BusAccess) (m : Memory) :
    runBus (xs ++ ys) m =
      ((runBus xs m).1 ++ (runBus ys (runBus xs m).2).1, (runBus ys (runBus xs m).2).2) := by
  induction xs generalizing m with
  | nil => rfl
  | cons x xs ih => cases x <;> simp only [List.cons_append, runBus, ih]

theorem runBus_length (xs : List BusAccess) (m : Memory) : (runBus xs m).1.length = xs.length := by
  induction xs generalizing m with
  | nil => rfl
  | cons x xs ih => cases x <;> simp only [runBus, List.length_cons, ih]

/-- After a run every byte is what was put there last, or as it was. -/
theorem runBus_byte (xs : List BusAccess) (m : Memory) (c : Nat) :
    (runBus xs m).2.byte c = (lastPut? xs c).getD (m.byte c) := by
  induction xs generalizing m with
  | nil => rfl
  | cons x xs ih =>
    rw [lastPut?_cons]
    cases x with
    | read w a =>
      rw [put?, Option.or_none]
      exact ih m
    | write w a v =>
      have hstep : (m.store w.bytes a v).byte c = ((write w a v).put? c).getD (m.byte c) := by
        rw [Memory.byte_store, put?]
        split <;> rfl
      rw [show (runBus (.write w a v :: xs) m).2 = (runBus xs (m.store w.bytes a v)).2 from rfl,
        ih, hstep]
      cases lastPut? xs c <;> rfl

/-- What a read in the middle of a run finds. -/
theorem runBus_read (xs ys : List BusAccess) (w : Width) (a : Nat) (m : Memory) :
    (runBus (xs ++ .read w a :: ys) m).1[xs.length]? =
      some (some ((runBus xs m).2.load w.bytes a)) := by
  rw [runBus_append, List.getElem?_append_right (runBus_length xs m).le, runBus_length,
    Nat.sub_self]
  rfl

theorem load_of_spells (h : Spells xs w a v) (m : Memory) :
    (runBus xs m).2.load w.bytes a = v % 2 ^ (8 * w.bytes) := by
  apply Memory.load_of_bytes
  intro i hi
  rw [runBus_byte, h i hi, Option.getD_some]

/-- Writes that cover a word spell a value. -/
theorem exists_spells (h : Covers xs w a) : ∃ v < 2 ^ (8 * w.bytes), Spells xs w a v := by
  -- The value is what a load finds afterwards, on any memory.
  let n := (runBus xs (.ofInitial fun _ => 0)).2
  have hlt := n.load_lt w.bytes a
  rw [Nat.one_shiftLeft] at hlt
  refine ⟨n.load w.bytes a, hlt, fun i hi => ?_⟩
  obtain ⟨b, hb⟩ := lastPut?_isSome (h i hi)
  rw [← n.byte_eq_of_load a hi, runBus_byte, hb, Option.getD_some]

/-- Runs over memories with the same bytes cannot be told apart. -/
theorem runBus_values_congr (xs : List BusAccess) (h : ∀ c, m.byte c = m'.byte c) :
    (runBus xs m).1 = (runBus xs m').1 := by
  induction xs generalizing m m' with
  | nil => rfl
  | cons x xs ih =>
    cases x with
    | read w a =>
      simp only [runBus, ih h, Memory.load_congr w.bytes a fun c _ _ => h c]
    | write w a v =>
      have hstep (c : Nat) : (m.store w.bytes a v).byte c = (m'.store w.bytes a v).byte c := by
        rw [Memory.byte_store, Memory.byte_store, h]
      simp only [runBus, ih hstep]

/-- Writes that do not overlap can change places in a run: the reads find the same, and the bytes
at the end are the same. -/
theorem runBus_swap (xs ys : List BusAccess) {w k : Width} {a b : Nat} (v u : Nat)
    (apart : a + w.bytes ≤ b ∨ b + k.bytes ≤ a) (m : Memory) :
    let one := runBus (xs ++ .write w a v :: .write k b u :: ys) m
    let other := runBus (xs ++ .write k b u :: .write w a v :: ys) m
    one.1 = other.1 ∧ ∀ c, one.2.byte c = other.2.byte c := by
  intro one other
  let n := (runBus xs m).2
  have alike := n.byte_store_comm v u apart
  have hone : one = _ := runBus_append xs _ m
  have hother : other = _ := runBus_append xs _ m
  rw [hone, hother]
  constructor
  · have values := runBus_values_congr ys alike
    exact congrArg (fun vs => (runBus xs m).1 ++ none :: none :: vs) values
  · intro c
    show (runBus ys _).2.byte c = (runBus ys _).2.byte c
    rw [runBus_byte, runBus_byte, alike]

/-- The widths are 1, 2, 4 and 8 bytes. A store of any width puts the bytes of its value over those
that were there and leaves the others, a load of any width adds up the bytes it finds, and after a
run each byte is the one put there last. So a load finds what was stored there, cut to the width;
parts of what was stored are loaded as parts of the value; writes that cover a word spell a value,
which is what a read finds whatever the memory was, and pieces of a value spell that value; and
writes that do not overlap can change places. -/
theorem bus_accesses_overlay (m : Memory) :
    (Width.byte.bytes = 1 ∧ Width.half.bytes = 2 ∧ Width.word.bytes = 4 ∧ Width.double.bytes = 8) ∧
    (∀ (w : Width) (a v : Nat),
      (∀ i < w.bytes, ((m.store w.bytes a v).byte (a + i)).toNat = (v >>> (8 * i)) % 256) ∧
      ∀ c, ¬ (a ≤ c ∧ c < a + w.bytes) → (m.store w.bytes a v).byte c = m.byte c) ∧
    (∀ (w : Width) (a : Nat),
      m.load w.bytes a = ∑ i ∈ Finset.range w.bytes, (m.byte (a + i)).toNat * 256 ^ i) ∧
    (∀ xs c, (runBus xs m).2.byte c = (lastPut? xs c).getD (m.byte c)) ∧
    (∀ (w : Width) (a v : Nat),
      (m.store w.bytes a v).load w.bytes a = v % 2 ^ (8 * w.bytes)) ∧
    (∀ (w k : Width) (a v o : Nat), o + k.bytes ≤ w.bytes →
      (m.store w.bytes a v).load k.bytes (a + o) = (v >>> (8 * o)) % 2 ^ (8 * k.bytes)) ∧
    (∀ xs w a, Covers xs w a → ∃ v < 2 ^ (8 * w.bytes), Spells xs w a v) ∧
    (∀ xs ys w a v, Spells xs w a v →
      (runBus (xs ++ .read w a :: ys) m).1[xs.length]? = some (some (v % 2 ^ (8 * w.bytes)))) ∧
    (∀ (ps : List (Width × Nat)) (w : Width) a v,
      (∀ i < w.bytes, ∃ p ∈ ps, p.2 ≤ i ∧ i < p.2 + p.1.bytes) →
        Spells (ps.map (piece a v)) w a v) ∧
    ∀ xs ys (w k : Width) (a v b u : Nat), a + w.bytes ≤ b ∨ b + k.bytes ≤ a →
      let one := runBus (xs ++ .write w a v :: .write k b u :: ys) m
      let other := runBus (xs ++ .write k b u :: .write w a v :: ys) m
      one.1 = other.1 ∧ ∀ c, one.2.byte c = other.2.byte c := by
  refine ⟨⟨rfl, rfl, rfl, rfl⟩, ?_, fun w a => m.load_eq_sum w.bytes a,
    fun xs c => runBus_byte xs m c, ?_, ?_, ?_, ?_, ?_, ?_⟩
  · intro w a v
    exact ⟨fun i hi => m.byte_store_toNat a v hi, fun c hc => m.byte_store_outside v hc⟩
  · intro w a v
    rw [Memory.load_store_same, Nat.one_shiftLeft]
  · exact fun w k a v o inside => m.load_store_inside a v inside
  · exact fun xs w a covered => exists_spells covered
  · intro xs ys w a v spelled
    rw [runBus_read, load_of_spells spelled]
  · exact fun ps w a v covered => spells_pieces a v covered
  · exact fun xs ys w k a v b u apart => runBus_swap xs ys v u apart m

/-- Each width keeps that many bytes of a value, and a double word is the sum of its eight. A double
word is overwritten by narrow writes, one of them of too long a value and one itself overwritten:
the word there is read back from them. -/
theorem narrow_writes_read_back :
    let m := Memory.ofInitial fun _ => 0xff
    let xs : List BusAccess := [.write .double 8 0, .write .byte 9 0xaa, .write .half 10 0x54433,
      .read .byte 9, .write .byte 9 0x22, .write .byte 8 0x11]
    (m.store 1 3 0x1aa).load 1 3 = 0xaa ∧ (m.store 2 6 0x1bbaa).load 2 6 = 0xbbaa ∧
      (m.store 4 4 0x1ddccbbaa).load 4 4 = 0xddccbbaa ∧
      (m.store 8 8 0xffeeddccddccbbaa).load 8 8 = 0xffeeddccddccbbaa ∧
      m.load 8 8 = ∑ i ∈ Finset.range 8, (m.byte (8 + i)).toNat * 256 ^ i ∧
      (runBus ([.write .double 8 0xffeeddccddccbbaa] ++ [.read .double 8]) m).1[1]? =
        some (some 0xffeeddccddccbbaa) ∧
      Covers xs .word 8 ∧ (∃ v < 2 ^ 32, Spells xs .word 8 v) ∧
      Spells xs .word 8 0x44332211 ∧
      (runBus (xs ++ [.read .word 8]) m).1[6]? = some (some 0x44332211) ∧
      (m.store 8 8 0x1122334455667788).load 2 12 = 0x3344 ∧
      Spells ([(.half, 2), (.byte, 0), (.half, 1)].map (piece 8 0x44332211)) .word 8 0x44332211 ∧
      (runBus [.write .byte 8 1, .write .half 10 2, .read .word 8] m).1 =
        (runBus [.write .half 10 2, .write .byte 8 1, .read .word 8] m).1 := by
  intro m xs
  obtain ⟨-, -, sums, -, same, inside, spells, reads, pieces, swaps⟩ := bus_accesses_overlay m
  have covered : Covers xs .word 8 := by decide
  have spelled : Spells xs .word 8 0x44332211 := by decide
  have wide : Spells [.write .double 8 0xffeeddccddccbbaa] .double 8 0xffeeddccddccbbaa := by
    decide
  exact ⟨same .byte 3 _, same .half 6 _, same .word 4 _, same .double 8 _, sums .double 8,
    reads _ [] .double 8 _ wide, covered, spells xs .word 8 covered, spelled,
    reads xs [] .word 8 _ spelled, inside .double .half 8 _ 4 (by decide),
    pieces _ .word 8 _ (by decide), (swaps [] [.read .word 8] .byte .half 8 1 10 2 (by decide)).1⟩

end Simulation
end Gpio
