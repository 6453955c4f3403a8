import Mathlib.Data.Nat.Find
import Gpio.Proofs.Invariance
import Gpio.Proofs.Mapping
import Gpio.Proofs.Probing
import Gpio.Proofs.SimulatedDomain
import Gpio.Simulation.Fixture

/-!
# Initialization is all or nothing

Probing and mapping are the only phases of `init` that can be refused: once
every line is mapped, masking succeeds because a probed block has every
register in reach, and the last two phases only make calls. When mapping is
refused, what was mapped is given back and nothing else was done.
-/

set_option autoImplicit false

namespace Gpio

open Drive

variable {D σ : Type}

def linesBelow (k : UInt32) : List UInt32 := (List.range k.toNat).map UInt32.ofNat

theorem toNat_ofNat_of_lt_line {n : Nat} {k : UInt32} (h : n < k.toNat) :
    (UInt32.ofNat n).toNat = n :=
  UInt32.toNat_ofNat_of_lt' (Nat.lt_trans h k.toNat_lt)

theorem mem_linesBelow {j k : UInt32} : j ∈ linesBelow k ↔ j < k := by
  simp only [linesBelow, List.mem_map, List.mem_range, UInt32.lt_iff_toNat_lt]
  constructor
  · rintro ⟨n, hn, rfl⟩
    rwa [toNat_ofNat_of_lt_line hn]
  · intro hj
    exact ⟨j.toNat, hj, UInt32.ofNat_toNat⟩

theorem linesBelow_nodup (k : UInt32) : (linesBelow k).Nodup := by
  refine List.pairwise_map.mpr (List.nodup_range.imp_of_mem ?_)
  intro m n hm hn hne h
  have hmn := congrArg UInt32.toNat h
  rw [toNat_ofNat_of_lt_line (List.mem_range.mp hm),
    toNat_ofNat_of_lt_line (List.mem_range.mp hn)] at hmn
  exact hne hmn

theorem lines_eq : lines = linesBelow 256 := rfl

theorem lines_split {k : UInt32} (hk : k < 256) : ∃ rest, lines = linesBelow k ++ k :: rest := by
  have hk' : k.toNat < 256 := UInt32.lt_iff_toNat_lt.mp hk
  obtain ⟨n, hn⟩ : ∃ n, 256 = k.toNat + (n + 1) := ⟨255 - k.toNat, by omega⟩
  refine ⟨((List.range n).map fun i => k.toNat + (i + 1)).map UInt32.ofNat, ?_⟩
  have hrange : List.range 256 =
      List.range k.toNat ++ k.toNat :: (List.range n).map fun i => k.toNat + (i + 1) := by
    rw [hn, List.range_add, List.range_succ_eq_map, List.map_cons, List.map_map]
    rfl
  show (List.range 256).map UInt32.ofNat = _
  rw [hrange, List.map_append, List.map_cons, UInt32.ofNat_toNat]
  rfl

theorem takeWhile_lines {k : UInt32} (hk : k < 256) : lines.takeWhile (· < k) = linesBelow k := by
  obtain ⟨rest, hlines⟩ := lines_split hk
  have hbelow : ∀ j ∈ linesBelow k, decide (j < k) = true :=
    fun j hj => decide_eq_true (mem_linesBelow.mp hj)
  rw [hlines, List.takeWhile_append_of_pos hbelow, List.takeWhile_cons_of_neg (by simp),
    List.append_nil]

theorem first_refused {refuses : UInt32 → Bool} {line : UInt32} (hl : line < 256)
    (hr : refuses line = true) :
    ∃ k < 256, refuses k = true ∧ ∀ j < k, refuses j = false := by
  have hex : ∃ n : Nat, refuses (UInt32.ofNat n) = true := ⟨line.toNat, by simpa using hr⟩
  have hle : Nat.find hex ≤ line.toNat := Nat.find_min' hex (by simpa using hr)
  have hlt : Nat.find hex < 256 := Nat.lt_of_le_of_lt hle (UInt32.lt_iff_toNat_lt.mp hl)
  have hfind : (UInt32.ofNat (Nat.find hex)).toNat = Nat.find hex :=
    UInt32.toNat_ofNat_of_lt' (Nat.lt_trans hlt (by decide))
  refine ⟨UInt32.ofNat (Nat.find hex), ?_, Nat.find_spec hex, fun j hj => ?_⟩
  · rw [UInt32.lt_iff_toNat_lt, hfind]
    exact hlt
  · rw [UInt32.lt_iff_toNat_lt, hfind] at hj
    have hmin := Nat.find_min hex hj
    rwa [UInt32.ofNat_toNat, Bool.not_eq_true] at hmin

/-- Lines are mapped up to `k`, which is refused; then every mapping is given back, in order. -/
def rollback (d : D) (virq : UInt32 → UInt32) (k : UInt32) : List (Effect D) :=
  mapEffects d virq (linesBelow k) ++
    [.call (.domain d (.create k)) none, .notice (.mappingFailed k)] ++
    unmapEffects d virq (linesBelow k)

def Machine.In (live : σ → Prop) (m : Machine D σ) : Prop := live m.world

theorem Machine.In.record {live : σ → Prop} {m : Machine D σ} (h : m.In live) (e : Effect D) :
    (m.record e).In live := h

namespace Block

variable {b : Block D σ} {d : D} {refuses : UInt32 → Bool} {live : σ → Prop}
  {table : σ → UInt32 → Option UInt32}

theorem on_attach_refused (maps : b.host.Maps d refuses live table) {m : Machine D σ}
    (hm : live m.world) (empty : ∀ j, table m.world j = none) {k : UInt32} (hk : k < 256)
    (hr : refuses k = true) (first : ∀ j < k, refuses j = false) :
    ∃ virq m', (b.attach d).on m = (.error (.refused .resourceMissing), m') ∧
      m'.memory = m.memory ∧ (∀ j, table m'.world j = none) ∧
      (∀ i < k, ∀ j < k, virq i = virq j → i = j) ∧
      m'.trace.toList = m.trace.toList ++ rollback d virq k := by
  obtain ⟨rest, hlines⟩ := lines_split hk
  have accepted : ∀ j ∈ linesBelow k, refuses j = false :=
    fun j hj => first j (mem_linesBelow.mp hj)
  obtain ⟨virq, m₁, hmap, hm₁⟩ := on_mapLines_append (b := b) maps (linesBelow k) (k :: rest)
    accepted (linesBelow_nodup k) (Host.Mapped.start hm empty)
  rw [List.nil_append] at hm₁
  have hmapped : (b.mapLines d lines).on m =
      (.ok (some k), b.host.reply (.domain d (.create k)) m₁) := by
    rw [hlines, hmap, on_mapLines_refused maps hm₁.live hr]
  -- The mapping of `k` is asked for and refused, and that is noted.
  let m₂ := b.host.reply (.domain d (.create k)) m₁
  let m₃ := m₂.record (.notice (.mappingFailed k))
  have hrefused := maps.refused hm₁.live hr
  have htable : ∀ j, table m₃.world j = if j ∈ linesBelow k then some (virq j) else none := by
    intro j
    rw [← hm₁.table j]
    exact congrFun hrefused.2 j
  obtain ⟨m', hunmap, hmemory, htrace, hempty⟩ := on_unmapLines (b := b) (m := m₃) maps virq
    (linesBelow k) (linesBelow_nodup k) hm₁.distinct (maps.lasting hm₁.live _ trivial) htable
  refine ⟨virq, m', ?_, hmemory.trans hm₁.memory, hempty, fun i hi j hj => ?_, ?_⟩
  · unfold attach
    rw [on_bind_ok hmapped]
    show (Drive.notify (.mappingFailed k) >>= fun _ =>
      b.unmapLines d (lines.takeWhile (· < k)) >>= fun _ =>
        refuse .resourceMissing : Drive D σ Unit).on m₂ = _
    rw [on_bind_ok (on_notify _ _), takeWhile_lines hk, on_bind_ok hunmap]
    rfl
  · exact hm₁.distinct i (mem_linesBelow.mpr hi) j (mem_linesBelow.mpr hj)
  · rw [htrace]
    simp only [m₃, m₂, Machine.record, Array.toList_push, Machine.trace_reply, hrefused.1,
      hm₁.trace, rollback, List.append_assoc, List.cons_append, List.nil_append]

theorem call_leads (maps : b.host.Maps d refuses live table) (c : DomainCall) (hc : c.Attaching) :
    Leads (Machine.In live) (Machine.In live) (b.callDomain d c) :=
  fun _ hm => ⟨_, _, maps.on_call hm c hc, maps.lasting hm c hc⟩

theorem giveFlow_leads (maps : b.host.Maps d refuses live table) (line : UInt32) (owned : Bool) :
    Leads (Machine.In live) (Machine.In live) (b.giveFlow d line owned) := by
  apply leads_bind (call_leads maps (.find line) trivial)
  intro found
  cases found with
  | some virq =>
    exact leads_bind (call_leads maps (.setFlow virq .simple) trivial) fun _ => leads_pure _
  | none => exact leads_pure _

/-- A probed block has the registers of every line in reach. -/
theorem maskLine_leads (maps : b.host.Maps d refuses live table)
    (fits : ∀ kind, bankExtent kind ≤ (b.bank kind).size) (line : UInt32) :
    Leads (Machine.In live) (Machine.In live) (b.maskLine d line) := by
  intro m hm
  rw [b.on_maskLine]
  by_cases ho : b.owns m.memory line = true
  · obtain ⟨l, hl⟩ := b.valid_of_owns ho
    have covers := Bank.covers_register hl (fits l.bank) .enableConfig
    have mask : Leads (Machine.In live) (Machine.In live)
        (b.setConfig line PinConfig.interrupt false) :=
      fun m hm => ⟨_, _, b.on_modifyRegister_of_covers hl covers _ m, hm.record _⟩
    rw [if_pos ho]
    exact leads_bind mask (fun _ => giveFlow_leads maps line true) m hm
  · rw [if_neg ho]
    exact giveFlow_leads maps line false m hm

theorem maskAll_leads (maps : b.host.Maps d refuses live table)
    (fits : ∀ kind, bankExtent kind ≤ (b.bank kind).size) :
    Leads (Machine.In live) (Machine.In live) (b.maskAll d) := by
  have hall : ∀ ls, Leads (Machine.In live) (Machine.In live) (b.maskLines d ls) := by
    intro ls
    induction ls with
    | nil => exact leads_pure _
    | cons line rest ih =>
      exact leads_bind (maskLine_leads maps fits line) fun _ => leads_bind ih fun _ => leads_pure _
  exact leads_bind (hall lines) fun _ m hm => ⟨(), _, on_notify _ m, hm.record _⟩

theorem mem_lines_iff {line : UInt32} : line ∈ lines ↔ line < 256 := by
  rw [lines_eq, mem_linesBelow]

theorem on_mapLines_all (maps : b.host.Maps d refuses live table) {m : Machine D σ}
    (hm : live m.world) (empty : ∀ j, table m.world j = none)
    (accepted : ∀ line < 256, refuses line = false) :
    ∃ virq m', (b.mapLines d lines).on m = (.ok none, m') ∧
      Host.Mapped d live table m m' lines virq := by
  obtain ⟨virq, m', hmap, hm'⟩ := on_mapLines_append (b := b) maps lines []
    (fun line hline => accepted line (mem_lines_iff.mp hline)) (linesBelow_nodup 256)
    (Host.Mapped.start hm empty)
  rw [List.append_nil] at hmap
  exact ⟨virq, m', hmap.trans (on_pure none m'), hm'⟩

theorem attach_leads (maps : b.host.Maps d refuses live table)
    (fits : ∀ kind, bankExtent kind ≤ (b.bank kind).size)
    (accepted : ∀ line < 256, refuses line = false) :
    Leads (fun m => live m.world ∧ ∀ j, table m.world j = none) (Machine.In live)
      (b.attach d) := by
  rintro m ⟨hm, empty⟩
  obtain ⟨virq, m₁, hmap, hm₁⟩ := on_mapLines_all maps hm empty accepted
  obtain ⟨u, m₂, hmask, hm₂⟩ := maskAll_leads maps fits m₁ hm₁.live
  refine ⟨(), m₂, ?_, hm₂⟩
  unfold attach
  rw [on_bind_ok hmap]
  exact on_bind_ok (on_attempt_ok hmask) _

theorem install_leads (maps : b.host.Maps d refuses live table) :
    Leads (Machine.In live) (Machine.In live) (b.withDomain d).install :=
  leads_forM _ fun _ _ => call_leads (b := b.withDomain d) maps _ trivial

section Init

variable {host : Host D σ} {r : Resources} {m : Machine D σ}

theorem on_init_of_rejected (rejected : ¬ r.Accepted) (host : Host D σ) (d : D)
    (m : Machine D σ) :
    ∃ n, (init host r d).on m = (.error (.refused .resourceMissing), m.note [n]) := by
  obtain ⟨n, hn⟩ := on_probe_of_rejected rejected host m
  exact ⟨n, on_bind_error hn _⟩

theorem on_init_of_refused (maps : host.Maps d refuses live table) (accepted : r.Accepted)
    (hm : live m.world) (empty : ∀ j, table m.world j = none) {k : UInt32} (hk : k < 256)
    (hr : refuses k = true) (first : ∀ j < k, refuses j = false) :
    ∃ (ns : List Notice) (virq : UInt32 → UInt32) (m' : Machine D σ),
      (init host r d).on m = (.error (.refused .resourceMissing), m') ∧
      m'.memory = m.memory ∧ (∀ j, table m'.world j = none) ∧
      (∀ i < k, ∀ j < k, virq i = virq j → i = j) ∧
      m'.trace.toList = m.trace.toList ++ ns.map .notice ++ rollback d virq k := by
  obtain ⟨main, aon, rest, ns, -, -, -, hprobe⟩ := on_probe_of_accepted accepted host m
  have hm₁ : live (m.note ns).world := by rwa [m.world_note]
  have empty₁ : ∀ j, table (m.note ns).world j = none := by rwa [m.world_note]
  obtain ⟨virq, m', hattach, hmemory, hempty, hdistinct, htrace⟩ :=
    on_attach_refused (b := ⟨main, aon, r.controllers, none, host⟩) maps hm₁ empty₁ hk hr first
  refine ⟨ns, virq, m', ?_, ?_, hempty, hdistinct, ?_⟩
  · exact (on_bind_ok hprobe _).trans (on_bind_error hattach _)
  · rw [hmemory, m.memory_note]
  · rw [htrace, m.trace_note]

/-- Once all lines are mapped, what is left to do cannot be refused. -/
theorem on_init_of_accepted (maps : host.Maps d refuses live table) (accepted : r.Accepted)
    (hm : live m.world) (empty : ∀ j, table m.world j = none)
    (all : ∀ line < 256, refuses line = false) :
    (∀ e, ((init host r d).on m).1 ≠ .error (.refused e)) ∧
      (host.Steady → ∃ b, ((init host r d).on m).1 = .ok b) := by
  obtain ⟨main, aon, rest, ns, banks, -, -, hprobe⟩ := on_probe_of_accepted accepted host m
  let b : Block D σ := ⟨main, aon, r.controllers, none, host⟩
  have fits : ∀ kind, bankExtent kind ≤ (b.bank kind).size :=
    (probed_of_accepted accepted host banks m).fits
  have start : live (m.note ns).world ∧ ∀ j, table (m.note ns).world j = none := by
    rw [m.world_note]
    exact ⟨hm, empty⟩
  obtain ⟨u, m₁, hattach, hm₁⟩ := attach_leads (b := b) maps fits all (m.note ns) start
  obtain ⟨v, m₂, hinstall, hm₂⟩ := install_leads (b := b) maps m₁ hm₁
  have hinit : (init host r d).on m =
      ((b.withDomain d).publishWakeTable >>= fun _ => pure (b.withDomain d)).on m₂ :=
    (on_bind_ok hprobe _).trans ((on_bind_ok hattach _).trans (on_bind_ok hinstall _))
  rw [hinit]
  constructor
  · intro e he
    rw [on_bind] at he
    have hnot := host.call_not_refused (.wake (.publish 0 Wake.sources)) m₂ e
    rcases hp : (host.call (.wake (.publish 0 Wake.sources))).on m₂ with ⟨f | w, m₃⟩
    · rw [hp] at hnot
      have hpub : (b.withDomain d).publishWakeTable.on m₂ = (.error f, m₃) := hp
      rw [hpub] at he
      exact hnot (congrArg Except.error (Except.error.inj he))
    · have hpub : (b.withDomain d).publishWakeTable.on m₂ = (.ok w, m₃) := hp
      rw [hpub] at he
      cases he
  · intro steady
    obtain ⟨m₃, hp⟩ := Host.on_call_of_steady steady (.wake (.publish 0 Wake.sources)) m₂
    have hpub : (b.withDomain d).publishWakeTable.on m₂ = (.ok (), m₃) := hp
    exact ⟨b.withDomain d, by rw [on_bind_ok hpub]; rfl⟩

/-- `init` is refused exactly if probing is, or a line cannot be mapped, and then for a missing
resource. It leaves no trace in memory and no mapping: either nothing but notices happened, or the
lines below the first one refused were mapped and given back, each once and in order. -/
theorem init_all_or_nothing (maps : host.Maps d refuses live table) (r : Resources)
    (m : Machine D σ) (hm : live m.world) (empty : ∀ k, table m.world k = none) :
    ((∃ e, ((init host r d).on m).1 = .error (.refused e)) ↔
      (∃ e, ((probe host r).on m).1 = .error e) ∨ ∃ line < 256, refuses line = true) ∧
    (host.Steady → (∀ e, ((probe host r).on m).1 ≠ .error e) →
      (∀ line < 256, refuses line = false) → ∃ b, ((init host r d).on m).1 = .ok b) ∧
    ∀ e, ((init host r d).on m).1 = .error (.refused e) →
      e = .resourceMissing ∧
      ((init host r d).on m).2.memory = m.memory ∧
      (∀ k, table ((init host r d).on m).2.world k = none) ∧
      ∃ ns : List Notice,
        ((∃ f, ((probe host r).on m).1 = .error f) ∧
          ((init host r d).on m).2.trace.toList = m.trace.toList ++ ns.map .notice) ∨
        ∃ k < 256, refuses k = true ∧ (∀ j < k, refuses j = false) ∧
          ∃ virq, (∀ i < k, ∀ j < k, virq i = virq j → i = j) ∧
            ((init host r d).on m).2.trace.toList =
              m.trace.toList ++ ns.map .notice ++ rollback d virq k := by
  by_cases accepted : r.Accepted
  · have hprobe : ∀ e, ((probe host r).on m).1 ≠ .error e := by
      obtain ⟨main, aon, rest, ns, -, -, -, hp⟩ := on_probe_of_accepted accepted host m
      rw [hp]
      exact fun _ => nofun
    by_cases hr : ∃ line < 256, refuses line = true
    · obtain ⟨line, hline, href⟩ := hr
      obtain ⟨k, hk, hkr, first⟩ := first_refused hline href
      obtain ⟨ns, virq, m', hinit, hmemory, hempty, hdistinct, htrace⟩ :=
        on_init_of_refused maps accepted hm empty hk hkr first
      rw [hinit]
      refine ⟨⟨fun _ => Or.inr ⟨line, hline, href⟩, fun _ => ⟨_, rfl⟩⟩, fun _ _ hnone => ?_, ?_⟩
      · rw [hnone line hline] at href
        cases href
      · rintro e he
        cases he
        exact ⟨rfl, hmemory, hempty, ns, Or.inr ⟨k, hk, hkr, first, virq, hdistinct, htrace⟩⟩
    · have all : ∀ line < 256, refuses line = false := by
        intro line hline
        rw [← Bool.not_eq_true]
        exact fun href => hr ⟨line, hline, href⟩
      obtain ⟨hnot, hok⟩ := on_init_of_accepted maps accepted hm empty all
      refine ⟨⟨fun ⟨e, he⟩ => absurd he (hnot e), ?_⟩, fun steady _ _ => hok steady,
        fun e he => absurd he (hnot e)⟩
      rintro (⟨e, he⟩ | hline)
      · exact absurd he (hprobe e)
      · exact absurd hline hr
  · obtain ⟨n, hn⟩ := on_probe_of_rejected accepted host m
    obtain ⟨n', hinit⟩ := on_init_of_rejected accepted host d m
    have hfail : ∃ e, ((probe host r).on m).1 = .error e := ⟨_, by rw [hn]⟩
    rw [hinit]
    refine ⟨⟨fun _ => Or.inl hfail, fun _ => ⟨_, rfl⟩⟩, fun _ hno => ?_, ?_⟩
    · obtain ⟨e, he⟩ := hfail
      exact absurd he (hno e)
    · rintro e he
      cases he
      refine ⟨rfl, m.memory_note _, fun k => ?_, [n'], Or.inl ⟨hfail, m.trace_note _⟩⟩
      rw [m.world_note]
      exact empty k

end Init
end Block

namespace Simulation

def World.fresh (spec : DomainSpec) : World := (World.empty.make spec).2

theorem World.fresh_holds (spec : DomainSpec) : (World.fresh spec).Holds 0 spec :=
  ⟨.ofSpec spec, rfl, rfl, Array.size_replicate⟩

theorem World.fresh_find (spec : DomainSpec) (line : UInt32) :
    (World.fresh spec).find 0 line = none := by
  have hunmapped : (Domain.ofSpec spec).isMapped line.toNat = false := by
    simp only [Domain.isMapped, Domain.ofSpec, Array.getD_eq_getD_getElem?,
      Array.getElem?_replicate]
    split <;> rfl
  exact if_pos (Or.inr hunmapped)

end Simulation

open Simulation in
/-- With a domain that cannot map line 3, `init` is refused. -/
theorem bench_init_all_or_nothing :
    (Fixture.hostFor none none).Maps 0 (Fixture.specFor (some 3)).rejects
      (·.Holds 0 (Fixture.specFor (some 3))) (·.find 0) ∧
    (World.fresh (Fixture.specFor (some 3))).Holds 0 (Fixture.specFor (some 3)) ∧
    (∀ k, (World.fresh (Fixture.specFor (some 3))).find 0 k = none) ∧
    ∃ e, ((Block.init (Fixture.hostFor none none) Fixture.start.resources 0).on
      (.start Fixture.start.memory (World.fresh (Fixture.specFor (some 3))))).1 =
        .error (.refused e) := by
  have maps := host_maps ⟨none, none, none⟩ ⟨none, none⟩ 0
    (show (Fixture.specFor (some 3)).holes = [] from rfl)
  have holds := World.fresh_holds (Fixture.specFor (some 3))
  have empty := World.fresh_find (Fixture.specFor (some 3))
  have hinit := Block.init_all_or_nothing maps Fixture.start.resources
    (.start Fixture.start.memory (World.fresh (Fixture.specFor (some 3)))) holds empty
  exact ⟨maps, holds, empty, hinit.1.mpr (Or.inr ⟨3, by decide, rfl⟩)⟩

end Gpio
