import Gpio.Proofs.InterruptTable
import Gpio.Proofs.LineWords
import Gpio.Proofs.Refinement

/-!
# A level stands before its line drives

Registers are written one at a time, and the device sees each memory in
between. A line that is switched to output has its level and output control
in place in every memory in which it newly drives, and a line switched to
input is no output in any memory in which it is newly enabled. Pin control
hears of the direction once all registers are written.
-/

set_option autoImplicit false

namespace Gpio

open Drive

variable {D σ : Type}

namespace Effect

/-- The memories that follow the block's stores, each before anything else is done. -/
def afterStores (m : Memory) : List (Effect D) → List Memory
  | [] => []
  | .store a v :: es => m.storeWord a v :: afterStores (m.storeWord a v) es
  | e :: es => afterStores (e.onMemory m) es

def Aside : Effect D → Prop
  | hostStore .. | notice _ => True
  | store .. | call .. => False

def StoresThenCalls (c : Call D) (es : List (Effect D)) : Prop :=
  ∃ stores reply rest, es = stores ++ .call c reply :: rest ∧
    (∀ e ∈ stores, ∃ a v, e = .store a v) ∧ ∀ e ∈ rest, e.Aside

theorem afterStores_aside {es : List (Effect D)} (h : ∀ e ∈ es, e.Aside) (m : Memory) :
    afterStores m es = [] := by
  induction es generalizing m with
  | nil => rfl
  | cons e es ih =>
    have rest : ∀ f ∈ es, f.Aside := fun f hf => h f (by simp [hf])
    have first := h e (by simp)
    cases e with
    | hostStore | notice => simp [afterStores, ih rest]
    | store | call => exact False.elim first

/-- What a call brings about is behind every store that comes before it. -/
theorem afterStores_call {es ws : List (Effect D)} {c : Call D} {reply : c.Reply}
    (hws : ∀ e ∈ ws, e.Aside) (m : Memory) :
    afterStores m (es ++ .call c reply :: ws) = afterStores m es := by
  induction es generalizing m with
  | nil => exact afterStores_aside hws m
  | cons e es ih => cases e <;> simp [afterStores, ih]

theorem aside_concat {es : List (Effect D)} {e : Effect D} (h : ∀ f ∈ es, f.Aside)
    (he : e.Aside) : ∀ f ∈ es ++ [e], f.Aside :=
  List.forall_mem_append.mpr ⟨h, List.forall_mem_singleton.mpr he⟩

end Effect

def Raises (i : Nat) (old new : Word) : Prop := old.getLsbD i = false ∧ new.getLsbD i = true

namespace Block

variable {b : Block D σ} {line : UInt32} {l : Location} {m : Machine D σ}

/-- All that is left to do is to ask pin control, and to note what it refuses. -/
theorem after_callPin {n : Machine D σ} {es : List (Effect D)} (h : m.After es n) (c : PinCall)
    {f : c.Reply → Drive D σ Unit} (hf : ∀ v, f v = pure () ∨ ∃ note, f v = notify note) :
    ∃ reply, ∃ ws : List (Effect D), (∀ e ∈ ws, e.Aside) ∧
      m.After (es ++ .call (.pin c) reply :: ws) ((b.callPin c >>= f).on n).2 := by
  obtain ⟨ws, written, after⟩ := b.host.call_after (.pin c) n
  have hws : ∀ e ∈ ws, e.Aside := by
    intro e he
    obtain ⟨a, v, rfl⟩ := written e he
    trivial
  have called := h.trans after
  rcases hc : (b.host.call (.pin c)).on n with ⟨e | v, n'⟩ <;> rw [hc] at called
  · rw [callPin, on_bind_error hc]
    exact ⟨_, ws, hws, called⟩
  · rw [callPin, on_bind_ok hc]
    rcases hf v with hv | ⟨note, hv⟩ <;> rw [hv]
    · exact ⟨_, ws, hws, called⟩
    · have aside := Effect.aside_concat (e := .notice note) hws trivial
      have noted := called.record (.notice note)
      rw [List.append_assoc, List.cons_append] at noted
      exact ⟨_, _, aside, noted⟩

def levelStores (b : Block D σ) (l : Location) (level : Bool) : List (Effect D) :=
  [.store (b.place l .outputValue) (if level then 1 else 0), .store (b.place l .outputControl) 0]

def outputStores (b : Block D σ) (m : Memory) (l : Location) (level : Bool) : List (Effect D) :=
  b.levelStores l level ++
    [.store (b.place l .enableConfig) (b.word m l .enableConfig ||| 2),
      .store (b.place l .enableConfig) (b.word m l .enableConfig ||| 2 ||| 1)]

def inputStores (b : Block D σ) (m : Memory) (l : Location) : List (Effect D) :=
  [.store (b.place l .enableConfig) (b.word m l .enableConfig &&& ~~~2),
    .store (b.place l .enableConfig) (b.word m l .enableConfig &&& ~~~2 ||| 1)]

section Fits

variable (fits : ∀ kind, bankExtent kind ≤ (b.bank kind).size) (hl : validLine line = .ok l)
  (ho : b.owns m.memory line = true)
include fits hl ho

theorem setValue_after (level : Bool) : ∃ n, (b.setValue line level).on m = (.ok (), n) ∧
    m.After (b.levelStores l level) n := by
  refine ⟨_, ?_, ((Machine.After.refl m).record _).record _⟩
  exact (on_bind_ok (b.on_own_of_owns ho) _).trans
    ((on_bind_ok (on_write_of_fits fits hl _ m _) _).trans (on_write_of_fits fits hl _ _ _))

theorem directionOutput_after (level : Bool) : ∃ reply ws, (∀ e ∈ ws, e.Aside) ∧
    m.After (b.outputStores m.memory l level ++ .call (.pin (.output line)) reply :: ws)
      ((b.directionOutput line level).on m).2 := by
  obtain ⟨n, hn, after⟩ := setValue_after fits hl ho level
  have config : b.word n.memory l .enableConfig = b.word m.memory l .enableConfig := by
    simp [after.memory, levelStores, Effect.onMemory, word_store]
  unfold directionOutput
  rw [on_bind_ok hn, on_bind_ok (on_setBits fits hl n _), on_bind_ok (on_setBits fits hl _ _),
    config, word_record]
  have stored : m.After (b.outputStores m.memory l level) _ := (after.record _).record _
  apply after_callPin stored
  intro reply
  cases reply with
  | ok _ => exact Or.inl rfl
  | error e => exact Or.inr ⟨_, rfl⟩

theorem directionInput_after : ∃ reply ws, (∀ e ∈ ws, e.Aside) ∧
    m.After (b.inputStores m.memory l ++ .call (.pin (.input line)) reply :: ws)
      ((b.directionInput line).on m).2 := by
  unfold directionInput
  rw [on_bind_ok (b.on_own_of_owns ho), on_bind_ok (on_clearBits fits hl m _),
    on_bind_ok (on_setBits fits hl _ _), word_record]
  have stored : m.After (b.inputStores m.memory l) _ :=
    ((Machine.After.refl m).record _).record _
  apply after_callPin stored
  intro reply
  cases reply with
  | ok _ => exact Or.inl rfl
  | error e => exact Or.inr ⟨_, rfl⟩

end Fits

theorem levelStores_order (m : Memory) (l : Location) (level : Bool) :
    ∀ n ∈ Effect.afterStores m (b.levelStores l level),
      b.word n l .outputValue = if level then 1 else 0 := by
  simp [levelStores, Effect.afterStores, word_store]

theorem outputStores_order (m : Memory) (l : Location) (level : Bool) :
    ∀ n ∈ Effect.afterStores m (b.outputStores m l level),
      (Raises 1 (b.word m l .enableConfig) (b.word n l .enableConfig) →
        b.word n l .outputValue = (if level then 1 else 0) ∧ b.word n l .outputControl = 0) ∧
      (Raises 0 (b.word m l .enableConfig) (b.word n l .enableConfig) →
        (b.word n l .enableConfig).getLsbD 1 = true) := by
  intro n hn
  simp only [outputStores, levelStores, List.cons_append, List.nil_append, Effect.afterStores,
    List.mem_cons, List.not_mem_nil, or_false] at hn
  -- The first two stores leave the configuration alone, so neither raises a bit of it.
  rcases hn with rfl | rfl | rfl | rfl <;> simp [word_store, Raises]

theorem inputStores_order (m : Memory) (l : Location) :
    ∀ n ∈ Effect.afterStores m (b.inputStores m l),
      Raises 0 (b.word m l .enableConfig) (b.word n l .enableConfig) →
        (b.word n l .enableConfig).getLsbD 1 = false := by
  simp +contextual [inputStores, Effect.afterStores, word_store, Raises]

/-- On an accessible line of a probed block, whatever its registers held: a line that is switched to
output has its level and output control in place in each memory in which its output bit is newly
set, and the bit is set in each in which the line is newly enabled. Setting a level changes the
output control only once the level is in place. A line switched to input is no output in a memory
in which it is newly enabled. Pin control is asked once, after the last store. -/
theorem Stands.level_before_drive {main aon : Bank} (h : b.Stands main aon)
    (hl : resolve line = some l) (accessible : b.isAccessible m.memory line = .ok true)
    (level : Bool) :
    let value : Word := if level then 1 else 0
    let config := fun n => b.word n l .enableConfig
    (∃ es, m.After es ((b.directionOutput line level).on m).2 ∧
      Effect.StoresThenCalls (.pin (.output line)) es ∧
      (Effect.afterStores m.memory es).length = 4 ∧
      ∀ n ∈ Effect.afterStores m.memory es,
        (Raises 1 (config m.memory) (config n) →
          b.word n l .outputValue = value ∧ b.word n l .outputControl = 0) ∧
        (Raises 0 (config m.memory) (config n) → (config n).getLsbD 1 = true)) ∧
    (∃ es, m.After es ((b.setValue line level).on m).2 ∧
      (∀ e ∈ es, ∃ a v, e = .store a v) ∧ (Effect.afterStores m.memory es).length = 2 ∧
      ∀ n ∈ Effect.afterStores m.memory es,
        b.word n l .outputControl ≠ b.word m.memory l .outputControl →
          b.word n l .outputValue = value) ∧
    ∃ es, m.After es ((b.directionInput line).on m).2 ∧
      Effect.StoresThenCalls (.pin (.input line)) es ∧
      (Effect.afterStores m.memory es).length = 2 ∧
      ∀ n ∈ Effect.afterStores m.memory es,
        Raises 0 (config m.memory) (config n) → (config n).getLsbD 1 = false := by
  intro value config
  have own := accessible_iff.mp accessible
  have valid := valid_of_resolve own hl
  refine ⟨?_, ?_, ?_⟩
  · obtain ⟨reply, ws, hws, after⟩ := directionOutput_after h.fits valid own level
    have stores : ∀ e ∈ b.outputStores m.memory l level, ∃ a v, e = .store a v := by
      simp [outputStores, levelStores]
    refine ⟨_, after, ⟨_, reply, ws, rfl, stores, hws⟩, ?_⟩
    rw [Effect.afterStores_call hws]
    exact ⟨rfl, outputStores_order m.memory l level⟩
  · obtain ⟨n, hn, after⟩ := setValue_after h.fits valid own level
    refine ⟨_, by rwa [hn], by simp [levelStores], rfl, fun n hmem _ => ?_⟩
    exact levelStores_order m.memory l level n hmem
  · obtain ⟨reply, ws, hws, after⟩ := directionInput_after h.fits valid own
    have stores : ∀ e ∈ b.inputStores m.memory l, ∃ a v, e = .store a v := by
      simp [inputStores]
    refine ⟨_, after, ⟨_, reply, ws, rfl, stores, hws⟩, ?_⟩
    rw [Effect.afterStores_call hws]
    exact ⟨rfl, inputStores_order m.memory l⟩

end Block

open Simulation in
/-- A granted line that is switched off: in each memory in which it drives, it drives a one. -/
theorem bench_level_before_drive :
    let b := Fixture.start.probed
    let l := (Port.main "A" 2 0 7).locate 0 0
    let off := Fixture.granting.storeWord (b.place l .enableConfig) 0
    let m : Machine Nat World := .start off Fixture.start.world
    b.Stands Fixture.start.main Fixture.start.aon ∧ resolve 0 = some l ∧
    b.isAccessible m.memory 0 = .ok true ∧
    ∃ es, m.After es ((b.directionOutput 0 true).on m).2 ∧
      (Effect.afterStores off es).length = 4 ∧
      ∀ n ∈ Effect.afterStores off es, (b.word n l .enableConfig).getLsbD 1 = true →
        b.word n l .outputValue = 1 ∧ b.word n l .outputControl = 0 := by
  intro b l off m
  have line : resolve 0 = some l := rfl
  have valid : validLine 0 = .ok l := rfl
  have below : ∀ a, a < (b.bank l.bank).base + l.bank.dataStart →
      off.byte a = Fixture.granting.byte a := by
    intro a ha
    apply Memory.byte_storeWord_of_out
    intro hin
    have hle := Block.Within.dataStart_le (b := b) (r := .enableConfig) hin valid
    omega
  have accessible : b.isAccessible m.memory 0 = .ok true := by
    rw [Block.accessible_iff, show m.memory = off from rfl, b.owns_congr valid below,
      ← Block.accessible_iff]
    exact Fixture.start_granting_accessible
  obtain ⟨⟨es, after, -, length, order⟩, -⟩ :=
    Block.Stands.level_before_drive Fixture.start_stands line accessible true
  refine ⟨Fixture.start_stands, line, accessible, es, after, length, fun n hn hbit => ?_⟩
  have clear : (b.word off l .enableConfig).getLsbD 1 = false := by
    rw [show b.word off l .enableConfig = 0 from Memory.loadWord_storeWord _ _ _]
    rfl
  exact (order n hn).1 ⟨clear, hbit⟩

end Gpio
