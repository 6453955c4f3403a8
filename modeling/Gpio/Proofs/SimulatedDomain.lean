import Gpio.Proofs.Mapping
import Gpio.Simulation.World

/-!
# Simulated domains map lines

A simulated domain keeps one bit a line and computes virtual interrupts from
line numbers. Without holes it behaves as a map: the table it follows is its
own forward lookup.
-/

set_option autoImplicit false

namespace Gpio.Simulation

def DomainSpec.rejects (spec : DomainSpec) (line : UInt32) : Bool :=
  spec.refuses == some line || decide (Layout.lineCount ≤ line.toNat) ||
    decide (0x100000000 ≤ spec.base.toNat + line.toNat)

/-- A plain domain maps the whole line space. -/
theorem DomainSpec.plain_rejects {line : UInt32} (h : line < 256) :
    DomainSpec.plain.rejects line = false := by
  have hlt : line.toNat < 256 := h
  have below : ¬ Layout.lineCount ≤ line.toNat := Nat.not_le.mpr hlt
  have small : ¬ 0x100000000 ≤ DomainSpec.plain.base.toNat + line.toNat :=
    Nat.not_le.mpr (Nat.lt_trans (Nat.add_lt_add_left hlt 32) (by decide))
  rw [DomainSpec.rejects, decide_eq_false below, decide_eq_false small]
  rfl

namespace Domain

variable {d : Domain}

theorem virqOf?_eq_some {line virq : UInt32} :
    d.virqOf? line = some virq ↔ d.spec.base.toNat + line.toNat = virq.toNat := by
  unfold virqOf?
  have hsum : (d.spec.base + line).toNat = (d.spec.base.toNat + line.toNat) % 2 ^ 32 :=
    UInt32.toNat_add _ _
  by_cases h : d.spec.base.toNat + line.toNat < 0x100000000
  · have hfit : (d.spec.base + line).toNat = d.spec.base.toNat + line.toNat := by omega
    rw [if_pos h, Option.some.injEq, ← UInt32.toNat_inj, hfit]
  · have := virq.toNat_lt
    simp only [h, if_false, reduceCtorEq, false_iff]
    omega

theorem find_eq_some (holes : d.spec.holes = []) {line virq : UInt32} :
    d.find line = some virq ↔
      d.isMapped line.toNat = true ∧ d.spec.base.toNat + line.toNat = virq.toNat := by
  unfold find
  cases hm : d.isMapped line.toNat with
  | false => simp
  | true => simp [holes, virqOf?_eq_some]

theorem find_congr {d' : Domain} {line : UInt32} (hspec : d'.spec = d.spec)
    (hmapped : d'.isMapped line.toNat = d.isMapped line.toNat) : d'.find line = d.find line := by
  simp only [find, virqOf?, hspec, hmapped]

theorem isMapped_setIfInBounds (d : Domain) {n : Nat} (hn : n < d.mapped.size) (v : Bool)
    (i : Nat) : (d.mapped.setIfInBounds n v).getD i false = if i = n then v else d.isMapped i := by
  simp only [isMapped, Array.getD_eq_getD_getElem?, Array.getElem?_setIfInBounds, hn, if_true]
  by_cases h : n = i
  · simp [h]
  · simp [h, Ne.symm h]

theorem lineOf_eq_some {line virq : UInt32} : d.lineOf virq = some line ↔
    d.isMapped line.toNat = true ∧ d.spec.base.toNat + line.toNat = virq.toNat := by
  unfold lineOf
  constructor
  · intro h
    split at h
    · next hv =>
      have hsub := UInt32.toNat_sub_of_le _ _ hv.1
      have hle := UInt32.le_iff_toNat_le.mp hv.1
      cases h
      rw [hsub]
      exact ⟨hv.2, by omega⟩
    · cases h
  · rintro ⟨hm, hsum⟩
    have hle : d.spec.base ≤ virq := UInt32.le_iff_toNat_le.mpr (by omega)
    have hsub : virq.toNat - d.spec.base.toNat = line.toNat := by omega
    rw [hsub, if_pos ⟨hle, hm⟩, Option.some.injEq, ← UInt32.toNat_inj,
      UInt32.toNat_sub_of_le _ _ hle, hsub]

theorem create_of_rejects {line : UInt32} (h : d.spec.rejects line = true) :
    d.create line = (none, d) := by
  simp only [DomainSpec.rejects, Bool.or_eq_true, beq_iff_eq, decide_eq_true_eq] at h
  unfold create
  by_cases hr : d.spec.refuses = some line ∨ Layout.lineCount ≤ line.toNat
  · rw [if_pos hr]
  · have hbig : ¬ d.spec.base.toNat + line.toNat < 0x100000000 := by
      rcases h with h | h
      · exact absurd h hr
      · exact Nat.not_lt.mpr h
    rw [if_neg hr, virqOf?, if_neg hbig]

theorem create_of_not_rejects {line : UInt32} (h : d.spec.rejects line = false) :
    ∃ virq, d.virqOf? line = some virq ∧ d.create line =
      (some virq, { d with mapped := d.mapped.setIfInBounds line.toNat true }) := by
  simp only [DomainSpec.rejects, Bool.or_eq_false_iff, beq_eq_false_iff_ne, decide_eq_false_iff_not,
    Nat.not_le] at h
  obtain ⟨⟨hr, hline⟩, hbase⟩ := h
  have hv : d.virqOf? line = some (d.spec.base + line) := if_pos hbase
  refine ⟨_, hv, ?_⟩
  unfold create
  rw [if_neg (not_or.mpr ⟨hr, Nat.not_le.mpr hline⟩), hv]

theorem find_create (holes : d.spec.holes = []) {line virq : UInt32}
    (hv : d.virqOf? line = some virq) (hline : line.toNat < d.mapped.size) :
    ({ d with mapped := d.mapped.setIfInBounds line.toNat true } : Domain).find =
      Function.update d.find line (some virq) := by
  funext k
  have hset := d.isMapped_setIfInBounds hline true
  by_cases hk : k = line
  · rw [hk, Function.update_self]
    apply Iff.mpr (find_eq_some (by exact holes))
    exact ⟨(hset line.toNat).trans (if_pos rfl), virqOf?_eq_some.mp hv⟩
  · rw [Function.update_of_ne hk]
    refine find_congr rfl ((hset k.toNat).trans (if_neg fun hn => hk (UInt32.toNat_inj.mp hn)))

theorem find_dispose (holes : d.spec.holes = []) (virq k : UInt32) :
    (d.dispose virq).find k = if d.find k = some virq then none else d.find k := by
  unfold dispose
  have hsame : ({ d with disposed := d.disposed.push virq } : Domain).lineOf virq =
      d.lineOf virq := rfl
  simp only [hsame]
  cases hl : d.lineOf virq with
  | none =>
    have hne : d.find k ≠ some virq := by
      intro hf
      rw [find_eq_some holes, ← lineOf_eq_some, hl] at hf
      cases hf
    rw [if_neg hne]
    exact find_congr rfl rfl
  | some line =>
    have hfind : d.find line = some virq := (find_eq_some holes).mpr (lineOf_eq_some.mp hl)
    have hmapped := (lineOf_eq_some.mp hl).1
    have hbound : line.toNat < d.mapped.size := by
      by_contra hge
      simp [isMapped, Array.getD_eq_getD_getElem?, Array.getElem?_eq_none (Nat.not_lt.mp hge)]
        at hmapped
    have hset := d.isMapped_setIfInBounds hbound false
    by_cases hk : k = line
    · rw [hk, if_pos hfind]
      exact if_pos (Or.inr ((hset line.toNat).trans (if_pos rfl)))
    · have hne : d.find k ≠ some virq := by
        intro hf
        have hsum := ((find_eq_some holes).mp hf).2
        have hsum' := ((find_eq_some holes).mp hfind).2
        exact hk (UInt32.toNat_inj.mp (by omega))
      rw [if_neg hne]
      exact find_congr rfl ((hset k.toNat).trans (if_neg fun hn => hk (UInt32.toNat_inj.mp hn)))

theorem answer_writes (c : DomainCall) : (d.answer (fun _ => none) c).writes = [] := by
  cases c <;> simp [answer, reactChained, react]

theorem answer_spec (bank? : Nat → Option Bank) (c : DomainCall) :
    (d.answer bank? c).world.spec = d.spec := by
  cases c with
  | create line =>
    simp only [answer, create]
    split
    · rfl
    · split <;> rfl
  | dispose virq =>
    simp only [answer, dispose]
    split <;> rfl
  | _ => rfl

theorem answer_size (bank? : Nat → Option Bank) (c : DomainCall) :
    (d.answer bank? c).world.mapped.size = d.mapped.size := by
  cases c with
  | create line =>
    simp only [answer, create]
    split
    · rfl
    · split
      · rfl
      · exact Array.size_setIfInBounds
  | dispose virq =>
    simp only [answer, dispose]
    split
    · exact Array.size_setIfInBounds
    · rfl
  | _ => rfl

end Domain

def World.Holds (w : World) (d : Nat) (spec : DomainSpec) : Prop :=
  ∃ domain, w.domains[d]? = some domain ∧ domain.spec = spec ∧
    domain.mapped.size = Layout.lineCount

def World.find (w : World) (d : Nat) (line : UInt32) : Option UInt32 :=
  (w.domains[d]?).bind (·.find line)

theorem World.find_eq {w : World} {d : Nat} {domain : Domain}
    (hd : w.domains[d]? = some domain) : w.find d = domain.find := by
  funext line
  rw [World.find, hd]
  rfl

theorem host_answer (bank? : Nat → Option Bank) (pins : PinFailures) (wakes : WakeFailures)
    {d : Nat} {w : World} {domain : Domain} (hd : w.domains[d]? = some domain) (c : DomainCall) :
    ((host bank? pins wakes).answer (.domain d c) w).reply = (domain.answer bank? c).reply ∧
      ((host bank? pins wakes).answer (.domain d c) w).world.domains[d]? =
        some (domain.answer bank? c).world := by
  obtain ⟨hlt, -⟩ := Array.getElem?_eq_some_iff.mp hd
  simp only [host, hd, true_and]
  exact Array.getElem?_setIfInBounds_self_of_lt hlt

theorem host_writes (bank? : Nat → Option Bank) (pins : PinFailures) (wakes : WakeFailures)
    {d : Nat} {w : World} {domain : Domain} (hd : w.domains[d]? = some domain) (c : DomainCall) :
    ((host bank? pins wakes).answer (.domain d c) w).writes = (domain.answer bank? c).writes := by
  simp only [host, hd]

variable (pins : PinFailures) (wakes : WakeFailures) {d : Nat} {spec : DomainSpec} {w : World}

/-- Without reactions the host writes nothing. -/
theorem host_quiet : (host (fun _ => none) pins wakes).Quiet := by
  intro c w
  cases c with
  | pin c => rfl
  | wake c => rfl
  | domain d c =>
    simp only [host]
    split
    · rfl
    · exact Domain.answer_writes c

/-- A domain that hides no line, in a host without reactions, behaves as a map. -/
theorem host_maps (d : Nat) (holes : spec.holes = []) :
    (host (fun _ => none) pins wakes).Maps d spec.rejects (·.Holds d spec) (·.find d) where
  lasting := by
    rintro w ⟨domain, hd, hspec, hsize⟩ c -
    have ha := host_answer (fun _ => none) pins wakes hd c
    exact ⟨_, ha.2, (domain.answer_spec _ c).trans hspec, (domain.answer_size _ c).trans hsize⟩
  quiet _ c _ := host_quiet pins wakes (.domain d c) _
  refused := by
    rintro w line ⟨domain, hd, rfl, -⟩ hr
    have ha := host_answer (fun _ => none) pins wakes hd (.create line)
    have hc := domain.create_of_rejects hr
    rw [ha.1, World.find_eq ha.2, World.find_eq hd]
    simp only [Domain.answer, hc, and_self]
  created := by
    rintro w line ⟨domain, hd, rfl, hsize⟩ hr hnone
    have ha := host_answer (fun _ => none) pins wakes hd (.create line)
    obtain ⟨virq, hv, hc⟩ := domain.create_of_not_rejects hr
    rw [World.find_eq hd] at hnone
    refine ⟨virq, fun k hk => ?_, ?_, ?_⟩
    · rw [World.find_eq hd] at hk
      have hsum := ((Domain.find_eq_some holes).mp hk).2
      have hself := Domain.virqOf?_eq_some.mp hv
      have hkl : k = line := UInt32.toNat_inj.mp (by omega)
      rw [hkl, hnone] at hk
      cases hk
    · rw [ha.1]
      simp only [Domain.answer, hc]
    · have hline : line.toNat < domain.mapped.size := by
        simp only [DomainSpec.rejects, Bool.or_eq_false_iff, decide_eq_false_iff_not] at hr
        omega
      rw [World.find_eq ha.2, World.find_eq hd]
      simp only [Domain.answer, hc]
      exact Domain.find_create holes hv hline
  found := by
    rintro w ⟨domain, hd, -, -⟩ line
    have ha := host_answer (fun _ => none) pins wakes hd (.find line)
    rw [ha.1, World.find_eq ha.2, World.find_eq hd]
    exact ⟨rfl, rfl⟩
  disposed := by
    rintro w ⟨domain, hd, rfl, -⟩ virq
    have ha := host_answer (fun _ => none) pins wakes hd (.dispose virq)
    funext k
    rw [World.find_eq ha.2, World.find_eq hd]
    exact Domain.find_dispose holes virq k

end Gpio.Simulation
