import Gpio.Proofs.Effects
import Gpio.Proofs.History
import Gpio.Proofs.Preservation
import Gpio.Proofs.Probing
import Gpio.Proofs.SimulatedDomain
import Gpio.Simulation.Fixture

/-!
# Operations write pin registers only

Blocks over one device, whose hosts leave the banks alone, change nothing in
the banks but pin registers of lines that exist, raw stores included. So no
history changes a grant or a pending interrupt, and the gate decides in
every state as it did at first.
-/

set_option autoImplicit false

namespace Gpio

open Drive

variable {ι D σ : Type}

/-- Some answer of the host carries out a write that reaches the byte. -/
def Host.Writes (h : Host D σ) (a : Nat) : Prop :=
  ∃ c s, ∃ w ∈ (h.answer c s).writes, w.bank.check w.offset = .ok () ∧
    w.bank.base + w.offset ≤ a ∧ a < w.bank.base + w.offset + 4

def Host.Spares (h : Host D σ) (k : Bank) : Prop := ∀ a, k.Holds a → ¬ h.Writes a

theorem Host.spares_of_quiet {h : Host D σ} (quiet : h.Quiet) (k : Bank) : h.Spares k := by
  rintro a - ⟨c, s, w, hw, -⟩
  rw [quiet c s] at hw
  cases hw

/-- No byte changes in a call but those the host writes. -/
theorem Host.call_bytes (h : Host D σ) (c : Call D) (m : Machine D σ) {a : Nat}
    (ha : ¬ h.Writes a) : ((h.call c).on m).2.memory.byte a = m.memory.byte a := by
  apply Host.call_keeps (I := fun n => n.memory.byte a = m.memory.byte a)
  · rfl
  · intro n s w hw hc hn
    rw [← hn]
    exact Memory.byte_storeWord_of_out w.value fun hin => ha ⟨c, s, w, hw, hc, hin⟩

theorem Block.bank_withDomain (b : Block D σ) (d : D) : (b.withDomain d).bank = b.bank := by
  funext kind
  cases kind <;> rfl

namespace Device

variable {dev : Device} {m m' : Memory}

/-- The gate looks at security words only. -/
theorem Confined.owns_eq (h : dev.Confined m m') {b : Block D σ} (hb : b.bank = dev.bank)
    (line : UInt32) : b.owns m' line = b.owns m line := by
  unfold Block.owns
  cases hv : validLine line with
  | error e => rfl
  | ok l =>
    have hs := h.security_eq (validLine_eq_ok.mp hv).1
    simp only [security] at hs
    simp only [Block.grants, hb, hs]

structure Carries (dev : Device) (b : Block D σ) : Prop where
  bank : b.bank = dev.bank
  writes : ∀ a, b.host.Writes a → dev.foreign a

variable {b : Block D σ}

theorem Carries.withDomain (h : dev.Carries b) (d : D) : dev.Carries (b.withDomain d) :=
  ⟨(b.bank_withDomain d).trans h.bank, h.writes⟩

theorem Carries.address (h : dev.Carries b) (l : Location) (r : PinRegister) :
    (b.bank l.bank).base + l.offset r = dev.address l r := by
  rw [h.bank]
  rfl

theorem Carries.owns_eq (h : dev.Carries b) {c : Block D σ} (hc : dev.Carries c) (m : Memory)
    (line : UInt32) : b.owns m line = c.owns m line := by
  simp only [Block.owns, Block.grants, h.bank, hc.bank]

theorem Carries.foreign (h : dev.Carries b) {c : Call D} {s : σ} {w : HostWrite}
    (hw : w ∈ (b.host.answer c s).writes) (hc : w.bank.check w.offset = .ok ()) (a : Nat)
    (hlo : w.bank.base + w.offset ≤ a) (hhi : a < w.bank.base + w.offset + 4) : dev.foreign a :=
  h.writes a ⟨c, s, w, hw, hc, hlo, hhi⟩

theorem Carries.call_confined (h : dev.Carries b) (m₀ : Memory) (c : Call D) :
    Keeps (fun m => dev.Confined m₀ m.memory) (b.host.call c) :=
  Host.keeps_call (fun _ hm => hm) fun _ _ _ hw hc hm => hm.store_foreign (h.foreign hw hc) _

theorem Carries.confined_robust (h : dev.Carries b) (m₀ : Memory) :
    b.Robust (fun _ => True) fun m => dev.Confined m₀ m.memory where
  store _ hl r v _ hm := by
    rw [h.bank]
    exact hm.store hl r v
  call c _ := h.call_confined m₀ c
  notice _ hm := hm

theorem Carries.perform_confined (h : dev.Carries b) (op : Operation D) (m : Machine D σ) :
    dev.Confined m.memory ((b.perform op).on m).2.memory :=
  (h.confined_robust m.memory).perform_keeps op (.refl _) fun _ _ _ _ _ => trivial

end Device

namespace System

variable {dev : Device} {s : System ι D σ}

def Over (s : System ι D σ) (dev : Device) : Prop := ∀ i, dev.Carries (s.block i)

variable [DecidableEq ι]

theorem Over.after (h : s.Over dev) (q : Request ι D) : (s.after q).Over dev := by
  intro i
  rcases s.after_block q i with hb | ⟨d, hb⟩
  · rw [hb]
    exact h i
  · rw [hb]
    exact (h i).withDomain d

theorem Over.run (h : s.Over dev) (qs : List (Request ι D)) : (System.run qs s).Over dev := by
  have step : ∀ q ∈ qs, ∀ t : System ι D σ, t.Over dev → (t.after q).Over dev :=
    fun q _ t ht => ht.after q
  exact run_keeps qs step s h

theorem Over.after_confined (h : s.Over dev) (q : Request ι D) :
    dev.Confined s.machine.memory (s.after q).machine.memory := by
  rw [s.after_machine q]
  exact (h q.who).perform_confined q.op s.machine

theorem Over.run_confined (h : s.Over dev) (qs : List (Request ι D)) :
    dev.Confined s.machine.memory (System.run qs s).machine.memory := by
  have step : ∀ q ∈ qs, ∀ t : System ι D σ,
      t.Over dev ∧ dev.Confined s.machine.memory t.machine.memory →
      (t.after q).Over dev ∧ dev.Confined s.machine.memory (t.after q).machine.memory :=
    fun q _ t ht => ⟨ht.1.after q, ht.2.trans (ht.1.after_confined q)⟩
  exact (run_keeps qs step s ⟨h, .refl _⟩).2

structure Shares (s : System ι D σ) (main aon : Bank) : Prop where
  probed : ∀ i, (s.block i).Probed main aon
  spares_main : ∀ i, (s.block i).host.Spares main
  spares_aon : ∀ i, (s.block i).host.Spares aon

end System

def bankPair (main aon : Bank) : BankKind → Bank
  | .main => main
  | .aon => aon

theorem Block.Probed.bank_eq {b : Block D σ} {main aon : Bank} (h : b.Probed main aon) :
    b.bank = bankPair main aon := by
  obtain ⟨hmain, haon, -⟩ := h.fields
  funext k
  cases k with
  | main => exact hmain
  | aon => exact haon

/-- Probed over these two banks; a domain may have been attached since. -/
inductive Block.Stands (main aon : Bank) : Block D σ → Prop
  | probed {b : Block D σ} (h : b.Probed main aon) : Stands main aon b
  | attached {b : Block D σ} (h : Stands main aon b) (d : D) : Stands main aon (b.withDomain d)

theorem Block.Stands.bank_eq {b : Block D σ} {main aon : Bank} (h : b.Stands main aon) :
    b.bank = bankPair main aon := by
  induction h with
  | probed h => exact h.bank_eq
  | attached h d ih => exact (bank_withDomain _ d).trans ih

theorem Block.Stands.fits {b : Block D σ} {main aon : Bank} (h : b.Stands main aon)
    (kind : BankKind) : bankExtent kind ≤ (b.bank kind).size := by
  induction h with
  | probed h => exact h.fits kind
  | attached h d ih => rwa [bank_withDomain]

namespace System

variable {s : System ι D σ} {main aon : Bank}

def Shares.device (h : s.Shares main aon) (apart : main.Apart aon) (i : ι) : Device where
  bank := bankPair main aon
  apart := apart
  fits k := by
    obtain ⟨-, -, -, hmain, haon⟩ := (h.probed i).fields
    cases k with
    | main => exact hmain
    | aon => exact haon
  foreign a := ∃ j, (s.block j).host.Writes a
  clear k a ha := by
    rintro ⟨j, hj⟩
    cases k with
    | main => exact h.spares_main j a ha hj
    | aon => exact h.spares_aon j a ha hj

theorem Shares.carries (h : s.Shares main aon) (apart : main.Apart aon) (i : ι) :
    s.Over (h.device apart i) :=
  fun j => ⟨(h.probed j).bank_eq, fun _ ha => ⟨j, ha⟩⟩

variable [DecidableEq ι]

/-- Whatever is asked of the blocks, only pin registers of lines that exist differ afterwards. No
security word and no status word does, and every block lets through the lines it did at first. -/
theorem run_changes_registers_only (h : s.Shares main aon) (apart : main.Apart aon)
    (qs : List (Request ι D)) :
    (∀ a, (run qs s).machine.memory.byte a ≠ s.machine.memory.byte a →
      (∃ line l r, resolve line = some l ∧ l.valid = true ∧
        (bankPair main aon l.bank).base + l.offset r ≤ a ∧
        a < (bankPair main aon l.bank).base + l.offset r + 4) ∨
      ∃ i, (s.block i).host.Writes a) ∧
    (∀ line l, resolve line = some l →
      (run qs s).machine.memory.loadWord ((bankPair main aon l.bank).base + l.security) =
        s.machine.memory.loadWord ((bankPair main aon l.bank).base + l.security)) ∧
    (∀ p ∈ ports,
      (run qs s).machine.memory.loadWord ((bankPair main aon p.bank).base + p.statusOffset) =
        s.machine.memory.loadWord ((bankPair main aon p.bank).base + p.statusOffset)) ∧
    ∀ i line, ((run qs s).block i).isAccessible (run qs s).machine.memory line =
      (s.block i).isAccessible s.machine.memory line := by
  -- Without a request there need not be a block to take the device from.
  cases qs with
  | nil => exact ⟨fun a ha => absurd rfl ha, fun _ _ _ => rfl, fun _ _ => rfl, fun _ _ => rfl⟩
  | cons q rest =>
    let dev := h.device apart q.who
    have carried : s.Over dev := h.carries apart q.who
    have conf := carried.run_confined (q :: rest)
    refine ⟨fun a ha => ?_, fun line l hl => conf.security_eq hl, fun p hp => conf.status_eq hp,
      fun i line => ?_⟩
    · by_cases hreg : dev.InRegister a
      · obtain ⟨line, l, r, hl, hlo, hhi⟩ := hreg
        have hv := validLine_eq_ok.mp hl
        exact Or.inl ⟨line, l, r, hv.1, hv.2, hlo, hhi⟩
      · by_cases hf : dev.foreign a
        · exact Or.inr hf
        · exact absurd (conf a hreg hf) ha
    · have hafter := carried.run (q :: rest) i
      rw [Block.isAccessible_eq, Block.isAccessible_eq, conf.owns_eq hafter.bank line,
        hafter.owns_eq (carried i)]

end System

namespace Simulation

theorem Fixture.hostFor_quiet (pins wakes : Option SystemError) : (hostFor pins wakes).Quiet :=
  host_quiet _ _

def Fixture.probed (f : Fixture) : Block Nat World :=
  ⟨f.main, f.aon, f.resources.controllers, none, hostFor none none⟩

def Fixture.pair (f : Fixture) (m : Memory) : System Bool Nat World :=
  ⟨fun _ => f.probed, .start m f.world⟩

theorem Fixture.start_accepted : start.resources.Accepted :=
  ⟨by decide, start.main, start.aon, [], rfl, by decide, by decide⟩

theorem Fixture.start_on_probe (h : Host Nat World) (m : Machine Nat World) :
    ∃ m', (Block.probe h start.resources).on m = (.ok { start.probed with host := h }, m') := by
  obtain ⟨main, aon, rest, ns, hbanks, -, -, hp⟩ := Block.on_probe_of_accepted start_accepted h m
  cases hbanks
  exact ⟨_, hp⟩

theorem Fixture.start_shares (m : Memory) : (start.pair m).Shares start.main start.aon where
  probed _ := Block.probed_of_accepted start_accepted _ rfl (.start m start.world)
  spares_main _ := Host.spares_of_quiet (hostFor_quiet none none) _
  spares_aon _ := Host.spares_of_quiet (hostFor_quiet none none) _

theorem Fixture.start_stands : start.probed.Stands start.main start.aon :=
  .probed ((start_shares start.memory).probed true)

def Fixture.short : Block Nat World := start.probed.setBank .main { start.main with size := 0x12004 }

theorem Fixture.start_apart : start.main.Apart start.aon := Or.inl (by decide)

def Fixture.granting : Memory := .ofInitial fun _ => 0xff

theorem Fixture.granting_loadWord (a : Nat) : Fixture.granting.loadWord a = 0xffffffff := by
  simp [Fixture.granting, Memory.loadWord, Memory.load, Memory.byte_ofInitial, Width.bytes]

end Simulation

open Simulation in
/-- Two blocks on zeroed memory: what is stored through one to a pin of the hole grants nothing to
the other. -/
theorem pair_run_changes_registers_only :
    (Fixture.start.pair Fixture.start.memory).Shares Fixture.start.main Fixture.start.aon ∧
    Fixture.start.main.Apart Fixture.start.aon ∧
    ((System.run [⟨true, .write 232 .enableConfig 0x18000202⟩, ⟨true, .update 0 .input 1 1⟩]
      (Fixture.start.pair Fixture.start.memory)).block false).isAccessible
        (System.run [⟨true, .write 232 .enableConfig 0x18000202⟩, ⟨true, .update 0 .input 1 1⟩]
          (Fixture.start.pair Fixture.start.memory)).machine.memory 0 =
      Fixture.start.probed.isAccessible Fixture.start.memory 0 :=
  have shares := Fixture.start_shares Fixture.start.memory
  have apart := Fixture.start_apart
  ⟨shares, apart, (System.run_changes_registers_only shares apart _).2.2.2 false 0⟩

end Gpio
