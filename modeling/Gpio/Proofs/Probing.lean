import Gpio.Proofs.Execution

/-!
# What probing does

A description is accepted or it is not; in both cases probing leaves notices
and nothing else. A probed block stands over the first two banks described,
which have room for the port table, and has no domain.
-/

set_option autoImplicit false

namespace Gpio

variable {D σ : Type}

namespace Machine

def note (m : Machine D σ) (ns : List Notice) : Machine D σ :=
  ns.foldl (fun m n => m.record (.notice n)) m

@[simp] theorem note_nil (m : Machine D σ) : m.note [] = m := rfl

theorem note_cons (m : Machine D σ) (n : Notice) (ns : List Notice) :
    m.note (n :: ns) = (m.record (.notice n)).note ns := rfl

@[simp] theorem memory_note (m : Machine D σ) (ns : List Notice) :
    (m.note ns).memory = m.memory := by
  induction ns generalizing m with
  | nil => rfl
  | cons n ns ih => exact ih _

@[simp] theorem world_note (m : Machine D σ) (ns : List Notice) :
    (m.note ns).world = m.world := by
  induction ns generalizing m with
  | nil => rfl
  | cons n ns ih => exact ih _

theorem trace_note (m : Machine D σ) (ns : List Notice) :
    (m.note ns).trace.toList = m.trace.toList ++ ns.map .notice := by
  induction ns generalizing m with
  | nil => simp
  | cons n ns ih => simp [note_cons, ih, record]

end Machine

/-- A description that can be worked with: a controller interrupt, and two banks with room for the
port table. -/
def Resources.Accepted (r : Resources) : Prop :=
  r.irqs ≠ [] ∧ ∃ main aon rest, r.banks = main :: aon :: rest ∧
    bankExtent .main ≤ main.size ∧ bankExtent .aon ≤ aon.size

namespace Block

theorem probeBanks_eq_ok {r : Resources} {main aon : Bank} :
    probeBanks r = .ok (main, aon) ↔ ∃ rest, r.banks = main :: aon :: rest ∧
      bankExtent .main ≤ main.size ∧ bankExtent .aon ≤ aon.size := by
  unfold probeBanks
  constructor
  · intro h
    split at h
    · next k j rest hb =>
      by_cases hk : k.size < bankExtent .main
      · rw [if_pos hk] at h
        cases h
      · by_cases hj : j.size < bankExtent .aon
        · rw [if_neg hk, if_pos hj] at h
          cases h
        · rw [if_neg hk, if_neg hj] at h
          cases h
          exact ⟨rest, hb, Nat.not_lt.mp hk, Nat.not_lt.mp hj⟩
    · cases h
  · rintro ⟨rest, hb, hm, ha⟩
    simp only [hb, Nat.not_lt.mpr hm, Nat.not_lt.mpr ha, if_false]

theorem on_noteExcess (r : Resources) (m : Machine D σ) :
    ∃ ns, (noteExcess r).on m = (.ok (), m.note ns) := by
  unfold noteExcess
  by_cases hb : Layout.bankLimit < r.banks.length <;>
    by_cases hi : Layout.controllerLimit < r.irqs.length <;>
    simp only [hb, hi, if_true, if_false]
  · exact ⟨[_, _], rfl⟩
  · exact ⟨[_], rfl⟩
  · exact ⟨[_], rfl⟩
  · exact ⟨[], rfl⟩

theorem on_probe_of_accepted {r : Resources} (h : r.Accepted) (host : Host D σ)
    (m : Machine D σ) : ∃ main aon rest ns, r.banks = main :: aon :: rest ∧
      bankExtent .main ≤ main.size ∧ bankExtent .aon ≤ aon.size ∧
      (probe host r).on m = (.ok ⟨main, aon, r.controllers, none, host⟩, m.note ns) := by
  obtain ⟨hirq, main, aon, rest, hbanks, hmain, haon⟩ := h
  obtain ⟨ns, hns⟩ := on_noteExcess r m
  let probed := Notice.probed (min r.banks.length Layout.bankLimit)
    (min r.irqs.length Layout.controllerLimit)
  refine ⟨main, aon, rest, ns ++ [probed], hbanks, hmain, haon, ?_⟩
  have hempty : r.irqs.isEmpty = false := by simp [hirq]
  simp only [probe, hempty, probeBanks_eq_ok.mpr ⟨rest, hbanks, hmain, haon⟩]
  rw [if_neg (by simp), Drive.on_bind_ok hns]
  simp only [Machine.note, List.foldl_append]
  rfl

theorem on_probe_of_rejected {r : Resources} (h : ¬ r.Accepted) (host : Host D σ)
    (m : Machine D σ) : ∃ n, (probe host r).on m =
      (.error (.refused .resourceMissing), m.note [n]) := by
  unfold probe
  by_cases hirq : r.irqs = []
  · exact ⟨_, by rw [if_pos (by simp [hirq])]; rfl⟩
  · cases hb : probeBanks r with
    | error n => exact ⟨n, by rw [if_neg (by simp [hirq])]; rfl⟩
    | ok ks =>
      obtain ⟨rest, hbanks, hfit⟩ := probeBanks_eq_ok.mp hb
      exact absurd ⟨hirq, ks.1, ks.2, rest, hbanks, hfit⟩ h

def Probed (b : Block D σ) (main aon : Bank) : Prop :=
  ∃ (host : Host D σ) (r : Resources) (rest : List Bank) (m m' : Machine D σ),
    r.banks = main :: aon :: rest ∧ (probe host r).on m = (.ok b, m')

theorem Probed.fields {b : Block D σ} {main aon : Bank} (h : b.Probed main aon) :
    b.main = main ∧ b.aon = aon ∧ b.domain = none ∧
      bankExtent .main ≤ main.size ∧ bankExtent .aon ≤ aon.size := by
  obtain ⟨host, r, rest, m, m', hbanks, hp⟩ := h
  by_cases ha : r.Accepted
  · obtain ⟨k, j, rest', ns, hb, hk, hj, hq⟩ := on_probe_of_accepted ha host m
    rw [hp] at hq
    rw [hbanks] at hb
    cases hb
    cases hq
    exact ⟨rfl, rfl, rfl, hk, hj⟩
  · obtain ⟨n, hn⟩ := on_probe_of_rejected ha host m
    rw [hp] at hn
    cases hn

theorem Probed.fits {b : Block D σ} {main aon : Bank} (h : b.Probed main aon) (kind : BankKind) :
    bankExtent kind ≤ (b.bank kind).size := by
  obtain ⟨rfl, rfl, -, hmain, haon⟩ := h.fields
  cases kind with
  | main => exact hmain
  | aon => exact haon

/-- An accepted description gives a probed block over its first two banks. -/
theorem probed_of_accepted {r : Resources} (h : r.Accepted) (host : Host D σ) {main aon : Bank}
    {rest : List Bank} (hbanks : r.banks = main :: aon :: rest) (m : Machine D σ) :
    Probed ⟨main, aon, r.controllers, none, host⟩ main aon := by
  obtain ⟨k, j, rest', ns, hb, -, -, hp⟩ := on_probe_of_accepted h host m
  rw [hbanks] at hb
  cases hb
  exact ⟨host, r, rest, m, _, hbanks, hp⟩

end Block
end Gpio
