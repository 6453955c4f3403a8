import Gpio.Proofs.LineWords
import Gpio.Proofs.Refinement

/-!
# Debounce windows

A window is asked for in microseconds and programmed in whole milliseconds,
rounded up. What is too long for the register is refused with nothing
changed. Of any number of calls on a line, the last one that was not refused
is all that remains.
-/

set_option autoImplicit false

namespace Gpio

open Drive

variable {D σ : Type}

namespace Block

/-- The window covers what was asked for, by less than a millisecond. -/
theorem debounceMillis_covers (usecs : UInt32) : usecs.toNat ≤ 1000 * debounceMillis usecs ∧
    1000 * debounceMillis usecs < usecs.toNat + 1000 := by
  unfold debounceMillis
  omega

theorem debounceMillis_mono {u v : UInt32} (h : u ≤ v) : debounceMillis u ≤ debounceMillis v :=
  Nat.div_le_div_right (Nat.add_le_add_right (UInt32.le_iff_toNat_le.mp h) 999)

theorem debounceMillis_le {usecs : UInt32} (h : usecs.toNat ≤ 255000) :
    debounceMillis usecs ≤ 255 := by
  unfold debounceMillis
  omega

def thresholdWord (usecs : UInt32) : Word := BitVec.ofNat 32 (debounceMillis usecs)

theorem thresholdWord_toNat {usecs : UInt32} (h : usecs.toNat ≤ 255000) :
    (thresholdWord usecs).toNat = debounceMillis usecs := by
  have hle := debounceMillis_le h
  rw [thresholdWord, BitVec.toNat_ofNat]
  omega

variable {b : Block D σ} {line : UInt32} {l : Location} {m : Machine D σ}

/-- The registers of the line as windows leave them, the last of which is `last`. All other bytes
are as in `m`. -/
structure Debounced (b : Block D σ) (l : Location) (m : Memory) (last : Option UInt32)
    (n : Memory) : Prop where
  config : b.word n l .enableConfig =
    last.elim (b.word m l .enableConfig) fun _ => b.word m l .enableConfig ||| 0x21
  threshold : b.word n l .debounceThreshold =
    last.elim (b.word m l .debounceThreshold) thresholdWord
  rest : ∀ a, ¬ b.Within l .enableConfig a → ¬ b.Within l .debounceThreshold a →
    n.byte a = m.byte a

namespace Debounced

variable {n n' : Memory} {last : Option UInt32}

theorem refl (b : Block D σ) (l : Location) (m : Memory) : b.Debounced l m none m :=
  ⟨rfl, rfl, fun _ _ _ => rfl⟩

theorem owns_eq {m : Memory} (h : b.Debounced l m last n) (hl : validLine line = .ok l) :
    b.owns n line = b.owns m line := by
  apply b.owns_congr hl
  intro a ha
  apply h.rest a
  · exact fun hin => absurd (hin.dataStart_le hl) (Nat.not_le.mpr ha)
  · exact fun hin => absurd (hin.dataStart_le hl) (Nat.not_le.mpr ha)

/-- The last window determines the memory. -/
theorem unique {m : Memory} (h : b.Debounced l m last n) (h' : b.Debounced l m last n') (a : Nat) :
    n.byte a = n'.byte a := by
  have config := Memory.loadWord_eq_iff.mp (h.config.trans h'.config.symm)
  have threshold := Memory.loadWord_eq_iff.mp (h.threshold.trans h'.threshold.symm)
  by_cases hc : b.Within l .enableConfig a
  · exact config a hc.1 hc.2
  · by_cases ht : b.Within l .debounceThreshold a
    · exact threshold a ht.1 ht.2
    · rw [h.rest a hc ht, h'.rest a hc ht]

/-- Another window takes the place of the one before it. -/
theorem store {m : Memory} (h : b.Debounced l m last n) (usecs : UInt32) :
    b.Debounced l m (some usecs) ((n.storeWord (b.place l .enableConfig)
      (b.word n l .enableConfig ||| 0x21)).storeWord (b.place l .debounceThreshold)
        (thresholdWord usecs)) := by
  constructor
  · simp only [word_store, reduceCtorEq, if_false, if_true, h.config]
    cases last with
    | none => rfl
    | some _ => simp [BitVec.or_assoc]
  · simp [word_store]
  · intro a hc ht
    rw [Memory.byte_storeWord_of_out _ ht, Memory.byte_storeWord_of_out _ hc]
    exact h.rest a hc ht

end Debounced

theorem on_setDebounce_long {usecs : UInt32} (ho : b.owns m.memory line = true)
    (hlong : 255000 < usecs.toNat) :
    (b.setDebounce line usecs).on m = (.error (.refused .invalidArgument), m) := by
  unfold setDebounce
  rw [on_bind_ok (b.on_own_of_owns ho), if_pos (debounceLimit_lt.mpr hlong)]
  rfl

section Fits

variable (fits : ∀ kind, bankExtent kind ≤ (b.bank kind).size) (hl : validLine line = .ok l)
include fits hl

theorem on_setDebounce {usecs : UInt32} (ho : b.owns m.memory line = true)
    (hu : usecs.toNat ≤ 255000) : (b.setDebounce line usecs).on m =
      (.ok (), (m.record (.store (b.place l .enableConfig)
        (b.word m.memory l .enableConfig ||| 0x21))).record
          (.store (b.place l .debounceThreshold) (thresholdWord usecs))) := by
  unfold setDebounce
  rw [on_bind_ok (b.on_own_of_owns ho), if_neg (by rw [debounceLimit_lt]; omega)]
  exact (on_bind_ok (on_setBits fits hl m _) _).trans (on_write_of_fits fits hl _ _ _)

/-- One call: a window that fits is programmed, a longer one changes nothing. -/
theorem setDebounce_step {m₀ : Memory} {last : Option UInt32} (ho : b.owns m₀ line = true)
    (h : b.Debounced l m₀ last m.memory) (usecs : UInt32) :
    b.Debounced l m₀ (if usecs.toNat ≤ 255000 then some usecs else last)
      ((b.setDebounce line usecs).on m).2.memory := by
  have own : b.owns m.memory line = true := (h.owns_eq hl).trans ho
  by_cases hu : usecs.toNat ≤ 255000
  · rw [on_setDebounce fits hl own hu, if_pos hu]
    exact h.store usecs
  · rw [on_setDebounce_long own (Nat.not_le.mp hu), if_neg hu]
    exact h

/-- One call on its own. -/
theorem setDebounce_first {usecs : UInt32} (ho : b.owns m.memory line = true)
    (hu : usecs.toNat ≤ 255000) :
    b.Debounced l m.memory (some usecs) ((b.setDebounce line usecs).on m).2.memory := by
  have hstep := setDebounce_step fits hl ho (.refl b l m.memory) usecs
  rwa [if_pos hu] at hstep

theorem setDebounce_run {m₀ : Memory} {last : Option UInt32} (ho : b.owns m₀ line = true)
    (h : b.Debounced l m₀ last m.memory) (us : List UInt32) :
    b.Debounced l m₀ ((us.filter (·.toNat ≤ 255000)).getLast?.or last)
      (us.foldl (fun n u => ((b.setDebounce line u).on n).2) m).memory := by
  -- `last` is the window in force when the remaining calls begin.
  induction us generalizing m last with
  | nil => exact h
  | cons u us ih =>
    have later := ih (setDebounce_step fits hl ho h u)
    rw [List.foldl_cons]
    by_cases hu : u.toNat ≤ 255000
    · cases hlast : (us.filter (·.toNat ≤ 255000)).getLast? <;>
        simpa [hu, List.getLast?_cons, hlast] using later
    · simpa [hu] using later

/-- The calls before the last successful one leave no trace in the memory. -/
theorem setDebounce_last (ho : b.owns m.memory line = true) (us : List UInt32) (a : Nat) :
    (us.foldl (fun n u => ((b.setDebounce line u).on n).2) m).memory.byte a =
      ((us.filter (·.toNat ≤ 255000)).getLast?.elim m
        fun u => ((b.setDebounce line u).on m).2).memory.byte a := by
  have run := setDebounce_run fits hl ho (.refl b l m.memory) us
  rw [Option.or_none] at run
  cases hlast : (us.filter (·.toNat ≤ 255000)).getLast? with
  | none =>
    rw [hlast] at run
    exact run.unique (.refl b l m.memory) a
  | some u =>
    rw [hlast] at run
    have hu := of_decide_eq_true (List.mem_filter.mp (List.mem_of_getLast? hlast)).2
    exact run.unique (setDebounce_first fits hl ho hu) a

end Fits

/-- On an accessible line of a probed block a window is programmed just when it is at most 255 ms.
Then the threshold is the whole milliseconds that cover it, the line is enabled and debounced, and
nothing else changes; a longer window is refused and changes nothing at all. Longer windows never
have lower thresholds. After any number of calls the memory is, byte by byte, what the last
successful one alone leaves. -/
theorem Stands.debounce_rounds_up {main aon : Bank} (h : b.Stands main aon)
    (hl : resolve line = some l) (accessible : b.isAccessible m.memory line = .ok true) :
    let call := fun usecs => (b.setDebounce line usecs).on m
    let threshold := fun usecs => (b.word (call usecs).2.memory l .debounceThreshold).toNat
    (∀ usecs, (call usecs).1 = .ok () ↔ usecs.toNat ≤ 255000) ∧
    (∀ usecs, 255000 < usecs.toNat → call usecs = (.error (.refused .invalidArgument), m)) ∧
    (∀ usecs, usecs.toNat ≤ 255000 →
      threshold usecs ≤ 255 ∧ usecs.toNat ≤ 1000 * threshold usecs ∧
      1000 * threshold usecs < usecs.toNat + 1000 ∧ (threshold usecs = 0 ↔ usecs = 0) ∧
      b.word (call usecs).2.memory l .enableConfig = b.word m.memory l .enableConfig ||| 0x21 ∧
      ∀ a, ¬ b.Within l .enableConfig a → ¬ b.Within l .debounceThreshold a →
        (call usecs).2.memory.byte a = m.memory.byte a) ∧
    (∀ u v, u ≤ v → v.toNat ≤ 255000 → threshold u ≤ threshold v) ∧
    ∀ (us : List UInt32) a,
      (us.foldl (fun n u => ((b.setDebounce line u).on n).2) m).memory.byte a =
        ((us.filter (·.toNat ≤ 255000)).getLast?.elim m fun u => (call u).2).memory.byte a := by
  intro call threshold
  have own := accessible_iff.mp accessible
  have valid := valid_of_resolve own hl
  have fit : ∀ {usecs : UInt32}, usecs.toNat ≤ 255000 →
      b.Debounced l m.memory (some usecs) (call usecs).2.memory :=
    setDebounce_first h.fits valid own
  have millis : ∀ {usecs : UInt32}, usecs.toNat ≤ 255000 →
      threshold usecs = debounceMillis usecs := by
    intro usecs hu
    rw [← thresholdWord_toNat hu]
    exact congrArg BitVec.toNat (fit hu).threshold
  refine ⟨fun usecs => ⟨fun hok => ?_, fun hu => ?_⟩, fun usecs => on_setDebounce_long own,
    fun usecs hu => ?_, fun u v huv hv => ?_, setDebounce_last h.fits valid own⟩
  · by_contra hu
    rw [show call usecs = _ from on_setDebounce_long own (Nat.not_le.mp hu)] at hok
    cases hok
  · exact congrArg Prod.fst (on_setDebounce h.fits valid own hu)
  · have covers := debounceMillis_covers usecs
    have zero : usecs = 0 ↔ usecs.toNat = 0 := UInt32.toNat_inj.symm
    rw [millis hu, zero]
    exact ⟨debounceMillis_le hu, covers.1, covers.2, by omega, (fit hu).config, (fit hu).rest⟩
  · have hu : u.toNat ≤ 255000 := Nat.le_trans (UInt32.le_iff_toNat_le.mp huv) hv
    rw [millis hu, millis hv]
    exact debounceMillis_mono huv

end Block

open Simulation in
/-- On a granted line 1001 µs take two milliseconds, and one microsecond more than 255 ms is
refused. Of the two calls only the first leaves something. -/
theorem bench_debounce_rounds_up :
    let b := Fixture.start.probed
    let m : Machine Nat World := .start Fixture.granting Fixture.start.world
    let l := (Port.main "A" 2 0 7).locate 0 0
    b.Stands Fixture.start.main Fixture.start.aon ∧ resolve 0 = some l ∧
    b.isAccessible m.memory 0 = .ok true ∧
    (b.word ((b.setDebounce 0 1001).on m).2.memory l .debounceThreshold).toNat = 2 ∧
    (b.setDebounce 0 255001).on m = (.error (.refused .invalidArgument), m) ∧
    ∀ a, ([1001, 255001].foldl (fun n u => ((b.setDebounce 0 u).on n).2) m).memory.byte a =
      ((b.setDebounce 0 1001).on m).2.memory.byte a := by
  intro b m l
  have accessible : b.isAccessible m.memory 0 = .ok true := Fixture.start_granting_accessible
  have line : resolve 0 = some l := rfl
  obtain ⟨-, long, fit, -, run⟩ :=
    Block.Stands.debounce_rounds_up Fixture.start_stands line accessible
  obtain ⟨-, hlow, hhigh, -⟩ := fit 1001 (by decide)
  have covers : 1001 ≤ 1000 * (b.word ((b.setDebounce 0 1001).on m).2.memory l
    .debounceThreshold).toNat := hlow
  have close : 1000 * (b.word ((b.setDebounce 0 1001).on m).2.memory l
    .debounceThreshold).toNat < 1001 + 1000 := hhigh
  exact ⟨Fixture.start_stands, line, accessible, by omega, long 255001 (by decide),
    run [1001, 255001]⟩

end Gpio
