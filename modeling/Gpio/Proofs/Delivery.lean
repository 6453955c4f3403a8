import Gpio.Proofs.Acceptance
import Gpio.Proofs.Dispatch

/-!
# Interrupts across controllers

The local ports of the controllers partition the implemented ports, and no
two pins share a line. So when the chained handlers of all recorded
controllers have run, in any order, every interrupt pending at them was
delivered once, and no other.
-/

set_option autoImplicit false

namespace Gpio

open Drive

variable {D σ : Type}

theorem toNat_ofNat_id {n i : Nat} (hn : n ≤ 7) (h : i < n) : (UInt8.ofNat i).toNat = i :=
  UInt8.toNat_ofNat_of_lt' (Nat.lt_trans (Nat.lt_of_lt_of_le h hn) (by decide))

theorem mem_firstIds {n : Nat} (hn : n ≤ 7) {id : UInt8} :
    id ∈ (List.range n).map UInt8.ofNat ↔ id.toNat < n := by
  simp only [List.mem_map, List.mem_range]
  constructor
  · rintro ⟨i, hi, rfl⟩
    rwa [toNat_ofNat_id hn hi]
  · exact fun h => ⟨id.toNat, h, UInt8.ofNat_toNat⟩

theorem firstIds_nodup {n : Nat} (hn : n ≤ 7) : ((List.range n).map UInt8.ofNat).Nodup := by
  refine List.nodup_range.map_on fun i hi j hj h => ?_
  rw [← toNat_ofNat_id hn (List.mem_range.mp hi), h, toNat_ofNat_id hn (List.mem_range.mp hj)]

namespace Block

variable (b : Block D σ) (m : Memory)

theorem lineOf_mem_pendingLines {port pin : Nat} {p : Port} (hp : ports[port]? = some p)
    (hpin : pin < 8) (id : UInt8) :
    lineOf port pin ∈ b.pendingLines m id ↔ p.controller = some id ∧ b.pending m p pin = true := by
  rw [mem_pendingLines]
  constructor
  · rintro ⟨port', p', pin', hp', hc, hpin', hpending, hline⟩
    obtain ⟨rfl, rfl⟩ := lineOf_injective (port_lt hp') hpin' (port_lt hp) hpin hline
    rw [hp] at hp'
    cases hp'
    exact ⟨hc, hpending⟩
  · rintro ⟨hc, hpending⟩
    exact ⟨port, p, pin, hp, hc, hpin, hpending, rfl⟩

theorem pendingLines_nodup (id : UInt8) : (b.pendingLines m id).Nodup := by
  have below : ∀ {f : Nat → Bool} {pin : Nat}, pin ∈ (List.range 8).filter f → pin < 8 :=
    fun hpin => List.mem_range.mp (List.mem_filter.mp hpin).1
  refine List.nodup_flatMap.mpr ⟨fun port hport => ?_, ?_⟩
  · obtain ⟨p, hp, -⟩ := mem_portsOf.mp hport
    refine (List.nodup_range.filter _).map_on fun pin hpin pin' hpin' h => ?_
    exact (lineOf_injective (port_lt hp) (below hpin) (port_lt hp) (below hpin') h).2
  · refine (portsOf_nodup id).imp_of_mem fun hport hport' hne line h h' => ?_
    obtain ⟨p, hp, -⟩ := mem_portsOf.mp hport
    obtain ⟨p', hp', -⟩ := mem_portsOf.mp hport'
    obtain ⟨pin, hpin, rfl⟩ := List.mem_map.mp h
    obtain ⟨pin', hpin', hline⟩ := List.mem_map.mp h'
    exact hne (lineOf_injective (port_lt hp) (below hpin) (port_lt hp') (below hpin') hline.symm).1

/-- A line pends at one controller only. -/
theorem pendingLines_apart {id id' : UInt8} {line : UInt32} (h : line ∈ b.pendingLines m id)
    (h' : line ∈ b.pendingLines m id') : id = id' := by
  obtain ⟨port, p, pin, hp, hc, hpin, -, rfl⟩ := (b.mem_pendingLines m).mp h
  have hc' := ((b.lineOf_mem_pendingLines m hp hpin id').mp h').1
  exact Option.some.inj (hc.symm.trans hc')

theorem flatMap_pendingLines_nodup {ids : List UInt8} (h : ids.Nodup) :
    (ids.flatMap (b.pendingLines m)).Nodup := by
  refine List.nodup_flatMap.mpr ⟨fun id _ => b.pendingLines_nodup m id, h.imp ?_⟩
  exact fun hne line hline hline' => hne (b.pendingLines_apart m hline hline')

theorem exists_pin_of_mem {ids : List UInt8} {line : UInt32}
    (h : line ∈ ids.flatMap (b.pendingLines m)) :
    ∃ port < 32, ∃ pin < 8, lineOf port pin = line := by
  obtain ⟨id, -, hline⟩ := List.mem_flatMap.mp h
  obtain ⟨port, p, pin, hp, -, hpin, -, heq⟩ := (b.mem_pendingLines m).mp hline
  exact ⟨port, port_lt hp, pin, hpin, heq⟩

/-- In banks of the size probing asks for, the bit alone decides. -/
theorem pending_of_fits (fits : ∀ kind, bankExtent kind ≤ (b.bank kind).size) {p : Port}
    (hp : p ∈ ports) (pin : Nat) : b.pending m p pin = (b.statusByte m p).testBit pin := by
  have hstatus : p.registers + 0x104 + 4 ≤ (b.bank p.bank).size :=
    Nat.le_trans (port_status p hp).2 (fits p.bank)
  rw [pending, decide_eq_true hstatus, Bool.true_and]

/-- In such banks a line pends at one of the first controllers just when its port stands at one and
its bit is set. -/
theorem lineOf_mem_flatMap_pendingLines (fits : ∀ kind, bankExtent kind ≤ (b.bank kind).size)
    {port pin : Nat} {p : Port} (hp : ports[port]? = some p) (hpin : pin < 8) {ids : List UInt8}
    {n : Nat} (hids : ∀ id, id ∈ ids ↔ id.toNat < n) :
    lineOf port pin ∈ ids.flatMap (b.pendingLines m) ↔
      (p.controller.any (·.toNat < n) && (b.statusByte m p).testBit pin) = true := by
  simp only [List.mem_flatMap, b.lineOf_mem_pendingLines m hp hpin, hids, Bool.and_eq_true,
    Option.any_eq_true, decide_eq_true_eq, b.pending_of_fits m fits (List.mem_of_getElem? hp)]
  constructor
  · rintro ⟨id, hid, hc, hbit⟩
    exact ⟨⟨id, hc, hid⟩, hbit⟩
  · rintro ⟨⟨id, hc, hid⟩, hbit⟩
    exact ⟨id, hid, hc, hbit⟩

theorem statusAt_withDomain (d : D) : (b.withDomain d).StatusAt = b.StatusAt := by
  unfold StatusAt
  rw [b.bank_withDomain]

theorem statusByte_withDomain (d : D) (p : Port) :
    (b.withDomain d).statusByte m p = b.statusByte m p := by
  unfold statusByte
  rw [b.bank_withDomain d]

/-- Where no two lines share a virtual interrupt, each stands for its line. -/
theorem count_map_virq {virq : UInt32 → UInt32}
    (distinct : ∀ i < 256, ∀ j < 256, virq i = virq j → i = j) {lines : List UInt32}
    (nodup : lines.Nodup) (hlt : ∀ line ∈ lines, line < 256) {line : UInt32} (hline : line < 256) :
    (lines.map virq).count (virq line) = if line ∈ lines then 1 else 0 := by
  have hvirqs := nodup.map_on fun i hi j hj => distinct i (hlt i hi) j (hlt j hj)
  rw [hvirqs.count]
  refine if_congr ⟨fun h => ?_, List.mem_map_of_mem⟩ rfl rfl
  obtain ⟨k, hk, heq⟩ := List.mem_map.mp h
  rwa [← distinct k (hlt k hk) line hline heq]

variable {b} {d : D} {live : σ → Prop} {table : UInt32 → Option UInt32}

/-- The handlers of recorded controllers run those of their pending lines, one controller after the
other. -/
theorem handled_flatMap_chainedEffects (d : D) (table : UInt32 → Option UInt32) (m : Memory)
    {ids : List UInt8} (known : ∀ id ∈ ids, (b.controller? id).isSome = true) :
    (ids.flatMap (b.chainedEffects d table m)).filterMap Effect.handled? =
      ((ids.flatMap (b.pendingLines m)).filterMap table).map (d, ·) := by
  rw [List.filterMap_flatMap, List.filterMap_flatMap, List.map_flatMap]
  refine List.flatMap_congr fun id hid => ?_
  obtain ⟨c, hc⟩ := Option.isSome_iff_exists.mp (known id hid)
  exact handled_chainedEffects hc d table m

theorem store_notMem_chainedEffects (b : Block D σ) (d : D) (table : UInt32 → Option UInt32)
    (m : Memory) (controller : UInt8) (a : Nat) (v : Word) :
    .store a v ∉ b.chainedEffects d table m controller := by
  unfold chainedEffects
  cases b.controller? controller <;> simp [routeEffects]

/-- Once the handlers of all recorded controllers have run, in any order, the virtual interrupt of a
pin was handled once where its port stands at one of them and its status bit is set, and not at all
where it is not; and no others were. The host may write while handlers run, as long as it spares the
status words; the block itself stores nothing. -/
theorem chained_handlers_deliver_once {host : Host D σ} {r : Resources} {m₀ m₁ : Machine D σ}
    (probed : (probe host r).on m₀ = (.ok b, m₁))
    (dispatches : b.host.Dispatches d live table b.StatusAt)
    {virq : UInt32 → UInt32} (mapped : ∀ line < 256, table line = some (virq line))
    (distinct : ∀ i < 256, ∀ j < 256, virq i = virq j → i = j) (m : Machine D σ)
    (hm : live m.world) (ids : List UInt8)
    (order : ids.Perm ((List.range (min r.irqs.length 7)).map UInt8.ofNat)) :
    ∃ (m' : Machine D σ) (es : List (Effect D)) (virqs : List UInt32),
      (ids.forM (b.withDomain d).handleChained).on m = (.ok (), m') ∧ m.After es m' ∧
      (∀ a v, .store a v ∉ es) ∧ m'.handled = m.handled ++ virqs.map (d, ·) ∧
      (∀ port p, ports[port]? = some p → ∀ pin < 8,
        virqs.count (virq (lineOf port pin)) =
          if p.controller.any (·.toNat < min r.irqs.length 7) &&
            (b.statusByte m.memory p).testBit pin then 1 else 0) ∧
      ∀ v ∈ virqs, ∃ port < 32, ∃ pin < 8, v = virq (lineOf port pin) := by
  have fits : ∀ kind, bankExtent kind ≤ ((b.withDomain d).bank kind).size := by
    intro kind
    rw [b.bank_withDomain d]
    exact fits_of_probe probed kind
  have hids : ∀ id, id ∈ ids ↔ id.toNat < min r.irqs.length 7 :=
    fun id => order.mem_iff.trans (mem_firstIds (Nat.min_le_right _ _))
  have known : ∀ id ∈ ids, ((b.withDomain d).controller? id).isSome = true :=
    fun id hid => ((records_of_probe probed).known id).mpr ((hids id).mp hid)
  have status : ∀ a, (b.withDomain d).StatusAt a → b.StatusAt a := by
    rw [b.statusAt_withDomain]
    exact fun _ ha => ha
  obtain ⟨m', es, hon, -, after, amounts⟩ := emits_forM ids
    (fun id _ => handleChained_emits (b := b.withDomain d) dispatches m.memory status rfl id)
    m hm (.refl _ _)
  have hlines := (b.withDomain d).flatMap_pendingLines_nodup m.memory
    (order.nodup_iff.mpr (firstIds_nodup (Nat.min_le_right _ _)))
  have hlt : ∀ line ∈ ids.flatMap ((b.withDomain d).pendingLines m.memory), line < 256 := by
    intro line hline
    obtain ⟨port, hport, pin, hpin, rfl⟩ := exists_pin_of_mem _ _ hline
    exact lineOf_lt hport hpin
  have hhandled := amounts.filterMap_eq (f := Effect.handled?) fun _ _ => rfl
  rw [handled_flatMap_chainedEffects d table m.memory known, filterMap_of_mapped mapped hlt]
    at hhandled
  refine ⟨m', es, (ids.flatMap ((b.withDomain d).pendingLines m.memory)).map virq, hon, after,
    fun a v hstore => ?_, ?_, fun port p hp pin hpin => ?_, fun v hv => ?_⟩
  · have hown : .store a v ∈ es.filter (!·.isHostStore) := List.mem_filter.mpr ⟨hstore, rfl⟩
    rw [amounts.own, List.mem_flatMap] at hown
    obtain ⟨id, -, hid⟩ := hown
    exact store_notMem_chainedEffects _ d table m.memory id a v hid
  · rw [Machine.handled, after.trace, List.filterMap_append, hhandled, Machine.handled]
  · have hmem := lineOf_mem_flatMap_pendingLines (b.withDomain d) m.memory fits hp hpin hids
    rw [count_map_virq distinct hlines hlt (lineOf_lt (port_lt hp) hpin), if_congr hmem rfl rfl,
      b.statusByte_withDomain]
  · obtain ⟨line, hline, rfl⟩ := List.mem_map.mp hv
    obtain ⟨port, hport, pin, hpin, rfl⟩ := exists_pin_of_mem _ _ hline
    exact ⟨port, hport, pin, hpin, rfl⟩

/-- A host that writes a register of a line that exists spares the status words. -/
theorem spares_register (fits : ∀ kind, bankExtent kind ≤ (b.bank kind).size)
    (apart : (b.bank .main).Apart (b.bank .aon)) {line : UInt32} {l : Location}
    (hl : validLine line = .ok l) (r : PinRegister) (v : Word) :
    HostWrite.Spares ⟨b.bank l.bank, l.offset r, v⟩ b.StatusAt := by
  have covers := Bank.covers_register hl (fits l.bank) r
  have check := Bank.check_of_covers covers (offset_fits hl r)
  constructor
  · intro o ho
    rw [check] at ho
    cases ho
  · rintro - x ⟨p, hp, -, rfl⟩ hin
    have hne : ¬ (l.bank = p.bank ∧ l.offset r = p.statusOffset) :=
      fun h => status_ne_offset hp hl h.1.symm r h.2.symm
    have hwords := words_apart apart covers (Bank.covers_statusWord hp (fits p.bank)) hne
    have hstatus : p.statusOffset = p.registers + 0x104 := rfl
    rw [hstatus] at hwords
    dsimp only at hin
    omega

end Block

namespace Simulation

theorem Domain.mem_writes {domain : Domain} {bank? : Nat → Option Bank} {c : DomainCall}
    {w : HostWrite} (h : w ∈ (domain.answer bank? c).writes) :
    ∃ r ∈ domain.spec.reactions, ∃ k, bank? r.bank = some k ∧ w = ⟨k, r.offset, r.value⟩ := by
  have react : ∀ o, w ∈ domain.react bank? o → ∃ r ∈ domain.spec.reactions, ∃ k,
      bank? r.bank = some k ∧ w = ⟨k, r.offset, r.value⟩ := by
    intro o ho
    obtain ⟨r, hr, hw⟩ := List.mem_filterMap.mp ho
    split at hw
    · obtain ⟨k, hk, rfl⟩ := Option.map_eq_some_iff.mp hw
      exact ⟨r, hr, k, hk, rfl⟩
    · cases hw
  have chained : ∀ o, w ∈ domain.reactChained bank? o → w ∈ domain.react bank? o := by
    intro o ho
    unfold Domain.reactChained at ho
    split at ho
    · cases ho
    · exact ho
  cases c with
  | handle virq => exact react _ h
  | enter irq => exact react _ (chained _ h)
  | exit irq => exact react _ (chained _ h)
  | create line =>
    have hnone : (domain.answer bank? (.create line)).writes = [] := by
      simp only [Domain.answer]
    rw [hnone] at h
    cases h
  | _ => cases h

/-- A domain routes by its own forward lookup whatever it writes on the way, if that spares
`kept`. -/
theorem host_dispatches (bank? : Nat → Option Bank) (pins : PinFailures) (wakes : WakeFailures)
    (d : Nat) (spec : DomainSpec) (table : UInt32 → Option UInt32) {kept : Nat → Prop}
    (spares : ∀ r ∈ spec.reactions, ∀ k, bank? r.bank = some k →
      HostWrite.Spares ⟨k, r.offset, r.value⟩ kept) :
    (host bank? pins wakes).Dispatches d (fun w => w.Holds d spec ∧ w.find d = table)
      table kept where
  lasting := by
    rintro w ⟨⟨domain, hd, hspec, hsize⟩, rfl⟩ c hc
    have ha := (host_answer bank? pins wakes hd c).2
    rw [Domain.answer_world hc] at ha
    exact ⟨⟨domain, ha, hspec, hsize⟩, by rw [World.find_eq ha, World.find_eq hd]⟩
  found := by
    rintro w ⟨⟨domain, hd, -, -⟩, rfl⟩ line
    rw [(host_answer bank? pins wakes hd (.find line)).1, World.find_eq hd]
    rfl
  spares := by
    rintro w ⟨⟨domain, hd, rfl, -⟩, -⟩ c - x hx
    rw [host_writes bank? pins wakes hd] at hx
    obtain ⟨r, hr, k, hk, rfl⟩ := Domain.mem_writes hx
    exact spares r hr k hk

/-- Maps every line, and the handler of a line that exists writes 1 to its clear register. -/
def DomainSpec.acknowledging : DomainSpec where
  base := 32
  refuses := none
  holes := []
  silent := false
  reactions := lines.filterMap fun line =>
    match validLine line with
    | .ok l => some ⟨.handled (line + 32), l.bank.index, l.offset .interruptClear, 1⟩
    | .error _ => none

namespace Fixture

def writer : Host Nat World := host ([start.main, start.aon][·]?) {} {}

def written : Block Nat World := { start.probed with host := writer }

theorem written_dispatches : written.host.Dispatches 0
    (fun w => w.Holds 0 .acknowledging ∧ w.find 0 = (World.routed .acknowledging).find 0)
    ((World.routed .acknowledging).find 0) written.StatusAt := by
  apply host_dispatches
  intro r hr k hk
  obtain ⟨line, -, hline⟩ := List.mem_filterMap.mp hr
  have fits : ∀ kind, bankExtent kind ≤ (written.bank kind).size := start_stands.fits
  cases hl : validLine line with
  | error e =>
    rw [hl] at hline
    cases hline
  | ok l =>
    rw [hl] at hline
    cases hline
    have hbank : written.bank l.bank = k := by
      revert hk
      cases l.bank <;> exact Option.some.inj
    rw [← hbank]
    exact Block.spares_register fits start_apart hl .interruptClear 1

end Fixture
end Simulation

open Simulation in
/-- With every status bit set, seven handlers run from the last to the first deliver the interrupt
of the last pin of port A once, and that of the hole DD not at all. The handler of that pin clears
its interrupt. -/
theorem bench_chained_handlers_deliver_once :
    let m : Machine Nat World := .start Fixture.granting (World.routed .acknowledging)
    let clear := ((Port.main "A" 2 0 7).locate 0 6).offset .interruptClear
    ∃ (m₁ m' : Machine Nat World) (virqs : List UInt32),
      (Block.probe Fixture.writer Fixture.start.resources).on m = (.ok Fixture.written, m₁) ∧
      (Fixture.writer.answer (.domain 0 (.handle (lineOf 0 6 + 32))) m.world).writes =
        [⟨Fixture.start.main, clear, 1⟩] ∧
      ([6, 5, 4, 3, 2, 1, 0].forM (Fixture.written.withDomain 0).handleChained).on m =
        (.ok (), m') ∧
      m'.handled = virqs.map (0, ·) ∧
      virqs.count (lineOf 0 6 + 32) = 1 ∧ virqs.count (lineOf 29 0 + 32) = 0 := by
  intro m clear
  obtain ⟨m₁, probed⟩ := Fixture.start_on_probe Fixture.writer m
  have distinct : ∀ i < 256, ∀ j < 256, i + 32 = j + 32 → (i : UInt32) = j :=
    fun i _ j _ h => (UInt32.add_left_inj 32).mp h
  obtain ⟨m', es, virqs, hon, -, -, hhandled, hcount, -⟩ :=
    Block.chained_handlers_deliver_once probed Fixture.written_dispatches
      (fun _ => World.routed_find rfl rfl) distinct m ⟨World.routed_holds .acknowledging, rfl⟩
      [6, 5, 4, 3, 2, 1, 0] (by decide)
  simp only [m, Machine.start, Fixture.statusByte_granting] at hcount
  refine ⟨m₁, m', virqs, probed, ?_, hon, hhandled, ?_, ?_⟩
  · rfl
  · rw [hcount 0 (.main "A" 2 0 7) rfl 6 (by decide)]
    rfl
  · rw [hcount 29 (.hole "DD") rfl 0 (by decide)]
    rfl

end Gpio
