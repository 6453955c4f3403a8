import Gpio.Proofs.LineWords
import Gpio.Proofs.PinRecord

/-!
# Masked updates of one register

An update takes the bits of its mask and leaves the others. A run of updates
is decided bit by bit: the last one whose mask has a bit gives that bit. So a
run is as good as one update with the union of its masks, and what was
between the updates leaves no mark on the device.
-/

set_option autoImplicit false

namespace Gpio

open Drive

variable {D σ : Type}

structure Masking where
  mask : Word
  value : Word

namespace Masking

def onto (u : Masking) (old : Word) : Word := Block.merge u.mask u.value old

def run : List Masking → Word → Word
  | [], old => old
  | u :: us, old => run us (u.onto old)

def union : List Masking → Word
  | [] => 0
  | u :: us => u.mask ||| union us

def last? (us : List Masking) (i : Nat) : Option Masking :=
  us.reverse.find? fun u => u.mask.getLsbD i

def Combines (us : List Masking) (v : Word) : Prop :=
  ∀ i u, last? us i = some u → v.getLsbD i = u.value.getLsbD i

theorem last?_cons (u : Masking) (us : List Masking) (i : Nat) :
    last? (u :: us) i = (last? us i).or (if u.mask.getLsbD i then some u else none) := by
  rw [last?, List.reverse_cons, List.find?_append, last?]
  cases hu : u.mask.getLsbD i <;> simp [hu]

theorem getLsbD_union (us : List Masking) (i : Nat) :
    (union us).getLsbD i = (last? us i).isSome := by
  induction us with
  | nil => simp [union, last?]
  | cons u us ih =>
    rw [union, BitVec.getLsbD_or, ih, last?_cons]
    cases last? us i <;> cases u.mask.getLsbD i <;> rfl

theorem getLsbD_run (us : List Masking) (old : Word) {i : Nat} (hi : i < 32) :
    (run us old).getLsbD i = (last? us i).elim (old.getLsbD i) fun u => u.value.getLsbD i := by
  -- The later updates are settled first: what they take, the first one cannot.
  induction us generalizing old with
  | nil => rfl
  | cons u us ih =>
    rw [run, ih, last?_cons, onto, Block.getLsbD_merge _ _ _ hi]
    cases last? us i with
    | some w => rfl
    | none => cases u.mask.getLsbD i <;> rfl

theorem combines_run (us : List Masking) (old : Word) : Combines us (run us old) := by
  intro i u hlast
  have hbit : u.mask.getLsbD i = true :=
    List.find?_some (p := fun u : Masking => u.mask.getLsbD i) hlast
  rw [getLsbD_run us old (BitVec.lt_of_getLsbD hbit), hlast]
  rfl

/-- One update with all the bits does what the run does. -/
theorem merge_union {us : List Masking} {v : Word} (h : Combines us v) (old : Word) :
    Block.merge (union us) v old = run us old := by
  apply BitVec.eq_of_getLsbD_eq
  intro i hi
  rw [Block.getLsbD_merge _ _ _ hi, getLsbD_run us old hi, getLsbD_union]
  cases hlast : last? us i with
  | none => rfl
  | some u => exact h i u hlast

theorem run_twice (u : Masking) (old : Word) : run [u, u] old = run [u] old := by
  apply BitVec.eq_of_getLsbD_eq
  intro i hi
  simp only [run, onto, Block.getLsbD_merge _ _ _ hi]
  split <;> rfl

theorem run_comm {u w : Masking} (apart : u.mask &&& w.mask = 0) (old : Word) :
    run [u, w] old = run [w, u] old := by
  apply BitVec.eq_of_getLsbD_eq
  intro i hi
  have hbit : (u.mask.getLsbD i && w.mask.getLsbD i) = false := by
    rw [← BitVec.getLsbD_and, apart]
    exact BitVec.getLsbD_zero
  simp only [run, onto, Block.getLsbD_merge _ _ _ hi]
  cases hu : u.mask.getLsbD i with
  | false => rfl
  | true =>
    rw [hu, Bool.true_and] at hbit
    rw [hbit]
    rfl

end Masking

theorem Block.merge_all (v old : Word) : merge 0xffffffff v old = v := by
  apply BitVec.eq_of_getLsbD_eq
  intro i hi
  have hbit : (0xffffffff : Word).getLsbD i = true := by
    rw [show (0xffffffff : Word) = BitVec.allOnes 32 from rfl, BitVec.getLsbD_allOnes,
      decide_eq_true hi]
  rw [getLsbD_merge _ _ _ hi, hbit]
  rfl

namespace Block

variable (b : Block D σ)

def updateAll (line : UInt32) (r : PinRegister) (us : List Masking) : Drive D σ Unit :=
  us.forM fun u => b.update line r u.mask u.value

/-- The register holds `w`; the rest of the device and the host are as in `m`. -/
structure Retouched (l : Location) (r : PinRegister) (m m' : Machine D σ) (w : Word) : Prop where
  word : b.word m'.memory l r = w
  frame : ∀ a, ¬ b.Within l r a → m'.memory.byte a = m.memory.byte a
  world : m'.world = m.world

namespace Retouched

variable {b} {l : Location} {r : PinRegister} {m m₁ m₂ : Machine D σ} {v w : Word}

theorem refl (m : Machine D σ) : b.Retouched l r m m (b.word m.memory l r) :=
  ⟨rfl, fun _ _ => rfl, rfl⟩

theorem store (m : Machine D σ) (v : Word) :
    b.Retouched l r m (m.record (.store (b.place l r) v)) v :=
  ⟨b.word_record m l r v, fun _ ha => Memory.byte_storeWord_of_out v ha, rfl⟩

theorem trans (h₁ : b.Retouched l r m m₁ v) (h₂ : b.Retouched l r m₁ m₂ w) :
    b.Retouched l r m m₂ w :=
  ⟨h₂.word, fun a ha => (h₂.frame a ha).trans (h₁.frame a ha), h₂.world.trans h₁.world⟩

/-- The word decides the device. -/
theorem byte_eq (h₁ : b.Retouched l r m m₁ w) (h₂ : b.Retouched l r m m₂ w) (a : Nat) :
    m₁.memory.byte a = m₂.memory.byte a := by
  by_cases ha : b.Within l r a
  · exact Memory.loadWord_eq_iff.mp (h₁.word.trans h₂.word.symm) a ha.1 ha.2
  · exact (h₁.frame a ha).trans (h₂.frame a ha).symm

end Retouched

variable {b} {line : UInt32} {l : Location}

section Fits

variable (fits : ∀ kind, bankExtent kind ≤ (b.bank kind).size) (hl : validLine line = .ok l)
  (r : PinRegister)
include fits hl

theorem update_retouches (mask v : Word) (m : Machine D σ) :
    ∃ m', (b.update line r mask v).on m = (.ok (), m') ∧
      b.Retouched l r m m' (merge mask v (b.word m.memory l r)) :=
  ⟨_, on_modifyRegister_of_fits fits hl r m _, .store m _⟩

theorem updateAll_retouches (us : List Masking) (m : Machine D σ) :
    ∃ m', (b.updateAll line r us).on m = (.ok (), m') ∧
      b.Retouched l r m m' (Masking.run us (b.word m.memory l r)) := by
  induction us generalizing m with
  | nil => exact ⟨m, rfl, .refl m⟩
  | cons u us ih =>
    obtain ⟨m₁, h₁, first⟩ := update_retouches fits hl r u.mask u.value m
    obtain ⟨m₂, h₂, rest⟩ := ih m₁
    rw [first.word] at rest
    exact ⟨m₂, (on_bind_ok h₁ _).trans h₂, first.trans rest⟩

theorem write_eq_update (w : Word) (m : Machine D σ) :
    (b.write line r w).on m = (b.update line r 0xffffffff w).on m := by
  rw [on_write_of_fits fits hl r m w, update, on_modifyRegister_of_fits fits hl r m, merge_all]

end Fits

/-- A run of updates of a register succeeds. It leaves each bit as the last update that takes it
has it, or as it was, and the rest of the device alone; one update with the union of the masks
leaves the same device. A write is an update of all bits, an update made again changes nothing,
and updates of different bits may trade places. -/
theorem Stands.updates_compose {main aon : Bank} (h : b.Stands main aon)
    (hl : resolve line = some l) (valid : l.valid = true) (r : PinRegister) (m : Machine D σ) :
    let after := fun us => (b.updateAll line r us).on m
    (∀ us, (after us).1 = .ok () ∧
      (∀ i < 32, (b.word (after us).2.memory l r).getLsbD i =
        (Masking.last? us i).elim ((b.word m.memory l r).getLsbD i) fun u => u.value.getLsbD i) ∧
      (∀ a, ¬ b.Within l r a → (after us).2.memory.byte a = m.memory.byte a) ∧
      Masking.Combines us (b.word (after us).2.memory l r) ∧
      ∀ v, Masking.Combines us v →
        ∃ m', (b.update line r (Masking.union us) v).on m = (.ok (), m') ∧
          ∀ a, m'.memory.byte a = (after us).2.memory.byte a) ∧
    (∀ w, (b.write line r w).on m = (b.update line r 0xffffffff w).on m) ∧
    (∀ u a, (after [u, u]).2.memory.byte a = (after [u]).2.memory.byte a) ∧
    ∀ u w, u.mask &&& w.mask = 0 →
      ∀ a, (after [u, w]).2.memory.byte a = (after [w, u]).2.memory.byte a := by
  intro after
  have exists' : validLine line = .ok l := validLine_eq_ok.mpr ⟨hl, valid⟩
  have touched : ∀ us, (after us).1 = .ok () ∧
      b.Retouched l r m (after us).2 (Masking.run us (b.word m.memory l r)) := by
    intro us
    obtain ⟨m', hon, hm'⟩ := updateAll_retouches h.fits exists' r us m
    have hafter : after us = (.ok (), m') := hon
    rw [hafter]
    exact ⟨rfl, hm'⟩
  refine ⟨fun us => ?_, fun w => write_eq_update h.fits exists' r w m, fun u => ?_,
    fun u w apart => ?_⟩
  · obtain ⟨hok, hrun⟩ := touched us
    refine ⟨hok, fun i hi => ?_, hrun.frame, ?_, fun v hv => ?_⟩
    · rw [hrun.word, Masking.getLsbD_run us _ hi]
    · rw [hrun.word]
      exact Masking.combines_run us _
    · obtain ⟨m', hon, once⟩ := update_retouches h.fits exists' r (Masking.union us) v m
      rw [Masking.merge_union hv] at once
      exact ⟨m', hon, once.byte_eq hrun⟩
  · have twice := (touched [u, u]).2
    rw [Masking.run_twice] at twice
    exact twice.byte_eq (touched [u]).2
  · have first := (touched [u, w]).2
    rw [Masking.run_comm apart] at first
    exact first.byte_eq (touched [w, u]).2

end Block

open Simulation in
/-- Two updates that overlap, on the bench: the second has the bits they share. -/
theorem bench_updates_compose :
    let b := Fixture.start.probed
    let l := (Port.main "A" 2 0 7).locate 0 0
    let m : Machine Nat World := .start Fixture.start.memory Fixture.start.world
    let after := (b.updateAll 0 .outputControl [⟨0x0f, 0x05⟩, ⟨0x3c, 0x28⟩]).on m
    b.Stands Fixture.start.main Fixture.start.aon ∧ resolve 0 = some l ∧ l.valid = true ∧
      after.1 = .ok () ∧ (b.word after.2.memory l .outputControl).getLsbD 0 = true ∧
      (b.word after.2.memory l .outputControl).getLsbD 2 = false := by
  intro b l m after
  have line : resolve 0 = some l := rfl
  have valid : l.valid = true := rfl
  obtain ⟨hok, hbit, -⟩ := (Block.Stands.updates_compose Fixture.start_stands line valid
    .outputControl m).1 [⟨0x0f, 0x05⟩, ⟨0x3c, 0x28⟩]
  exact ⟨Fixture.start_stands, line, valid, hok, hbit 0 (by decide), hbit 2 (by decide)⟩

end Gpio
