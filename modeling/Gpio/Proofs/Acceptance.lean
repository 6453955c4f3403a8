import Gpio.Proofs.Probing

/-!
# Which descriptions probing accepts

A bank is large enough when every word the port table places in it lies
inside: security words and registers of lines that exist, and status words
of implemented ports. The extent computed from the table is the least such
size, since the last status word ends there. So probing accepts exactly the
descriptions that can be worked with, and what is recorded then is what the
platform described.
-/

set_option autoImplicit false

namespace Gpio

variable {D σ : Type}

namespace BankKind

/-- The port table places a word at this offset of the bank. -/
def Uses (k : BankKind) (o : Nat) : Prop :=
  (∃ line l, resolve line = some l ∧ l.valid = true ∧ l.bank = k ∧
    (o = l.security ∨ ∃ r, o = l.offset r)) ∨
  ∃ p ∈ ports, p.controller.isSome = true ∧ p.bank = k ∧ o = p.statusOffset

def FitsIn (k : BankKind) (size : Nat) : Prop := ∀ o, k.Uses o → o + 4 ≤ size

theorem uses_le_extent {k : BankKind} {o : Nat} (h : k.Uses o) : o + 4 ≤ bankExtent k := by
  rcases h with ⟨line, l, hl, hv, rfl, rfl | ⟨r, rfl⟩⟩ | ⟨p, hp, -, rfl, rfl⟩
  · exact Nat.le_trans (security_place hl).2 (dataStart_le_extent l.bank)
  · exact offset_lt_extent (validLine_eq_ok.mpr ⟨hl, hv⟩) r
  · exact (port_status p hp).2

/-- The extent is where the last status word ends. -/
theorem last_status (k : BankKind) : ∃ p ∈ ports,
    p.controller.isSome = true ∧ p.bank = k ∧ p.statusOffset + 4 = bankExtent k := by
  cases k <;> decide

theorem fitsIn_iff {k : BankKind} {size : Nat} : k.FitsIn size ↔ bankExtent k ≤ size := by
  constructor
  · intro h
    obtain ⟨p, hp, hc, hk, hend⟩ := last_status k
    rw [← hend]
    exact h p.statusOffset (Or.inr ⟨p, hp, hc, hk, rfl⟩)
  · exact fun h o ho => Nat.le_trans (uses_le_extent ho) h

end BankKind

namespace Resources

theorem length_controllers (r : Resources) : r.controllers.length = min r.irqs.length 7 := by
  simp only [controllers, Layout.controllerLimit, List.length_mapIdx, List.length_take,
    Nat.min_comm]

theorem controllers_getElem? {r : Resources} {i : Nat} {c : Controller}
    (h : r.controllers[i]? = some c) : c.id.toNat = i ∧ r.irqs[i]? = some c.irq := by
  have hi : i < 7 := by
    have hlt := (List.getElem?_eq_some_iff.mp h).1
    rw [length_controllers] at hlt
    omega
  simp only [controllers, Layout.controllerLimit, List.getElem?_mapIdx, List.getElem?_take, hi,
    if_true, Option.map_eq_some_iff] at h
  obtain ⟨irq, hirq, rfl⟩ := h
  exact ⟨UInt8.toNat_ofNat_of_lt' (Nat.lt_trans hi (by decide)), hirq⟩

end Resources

namespace Block

structure Records (b : Block D σ) (r : Resources) : Prop where
  main : r.banks[0]? = some (b.bank .main)
  aon : r.banks[1]? = some (b.bank .aon)
  count : b.controllers.length = min r.irqs.length 7
  numbered : ∀ (i : Nat) (c : Controller), b.controllers[i]? = some c →
    c.id.toNat = i ∧ r.irqs[i]? = some c.irq
  known : ∀ id : UInt8, (b.controller? id).isSome = true ↔ id.toNat < min r.irqs.length 7
  domain : b.domain = none

variable {host : Host D σ} {r : Resources} {m m' : Machine D σ} {b : Block D σ}

theorem accepted_of_probe (h : (probe host r).on m = (.ok b, m')) : r.Accepted := by
  by_cases accepted : r.Accepted
  · exact accepted
  · obtain ⟨n, hn⟩ := on_probe_of_rejected accepted host m
    rw [h] at hn
    cases hn

theorem fits_of_probe (h : (probe host r).on m = (.ok b, m')) (kind : BankKind) :
    bankExtent kind ≤ (b.bank kind).size := by
  obtain ⟨-, main, aon, rest, hbanks, -⟩ := accepted_of_probe h
  have probed : b.Probed main aon := ⟨host, r, rest, m, m', hbanks, h⟩
  exact probed.fits kind

theorem records_of_probe (h : (probe host r).on m = (.ok b, m')) : b.Records r := by
  obtain ⟨main, aon, rest, ns, hbanks, -, -, hp⟩ :=
    on_probe_of_accepted (accepted_of_probe h) host m
  rw [h] at hp
  cases hp
  constructor
  · rw [hbanks]
    rfl
  · rw [hbanks]
    rfl
  · exact r.length_controllers
  · exact fun i c hc => Resources.controllers_getElem? hc
  · intro id
    simp [controller?, isSome_getElem?, r.length_controllers]
  · rfl

/-- Probing succeeds exactly on a description with an interrupt and two banks in which every word in
use lies, and is refused for a missing resource otherwise. What it then records is as described.
Either way nothing but notices comes of it. -/
theorem probe_accepts_usable (host : Host D σ) (r : Resources) (m : Machine D σ) :
    ((∃ b, ((probe host r).on m).1 = .ok b) ↔
      r.irqs ≠ [] ∧ ∃ main aon rest, r.banks = main :: aon :: rest ∧
        BankKind.main.FitsIn main.size ∧ BankKind.aon.FitsIn aon.size) ∧
    (∀ (kind : BankKind) (size : Nat), kind.FitsIn size ↔ bankExtent kind ≤ size) ∧
    (∀ e, ((probe host r).on m).1 = .error e → e = .refused .resourceMissing) ∧
    (∀ b, ((probe host r).on m).1 = .ok b → b.Records r) ∧
    ∃ ns, ((probe host r).on m).2 = m.note ns := by
  have usable : r.Accepted ↔ r.irqs ≠ [] ∧ ∃ main aon rest, r.banks = main :: aon :: rest ∧
      BankKind.main.FitsIn main.size ∧ BankKind.aon.FitsIn aon.size := by
    simp only [BankKind.fitsIn_iff, Resources.Accepted]
  have recorded : ∀ b, ((probe host r).on m).1 = .ok b → b.Records r :=
    fun b hb => records_of_probe (Prod.ext hb rfl)
  rw [← usable]
  by_cases accepted : r.Accepted
  · obtain ⟨main, aon, rest, ns, -, -, -, hp⟩ := on_probe_of_accepted accepted host m
    refine ⟨⟨fun _ => accepted, fun _ => ⟨_, by rw [hp]⟩⟩, fun _ _ => BankKind.fitsIn_iff, ?_,
      recorded, ns, by rw [hp]⟩
    rw [hp]
    exact fun _ => nofun
  · obtain ⟨n, hn⟩ := on_probe_of_rejected accepted host m
    refine ⟨⟨?_, fun h => absurd h accepted⟩, fun _ _ => BankKind.fitsIn_iff, ?_, recorded,
      [n], by rw [hn]⟩
    · rintro ⟨b, hb⟩
      exact accepted_of_probe (Prod.ext hb rfl)
    · rw [hn]
      rintro e he
      cases he
      rfl

end Block
end Gpio
