import Gpio.Proofs.Attaching
import Gpio.Proofs.Verdicts

/-!
# What a successful initialization leaves behind

Over a domain that maps every line, `init` succeeds. Its calls come in four
phases, one after the other: mappings, flows, chained handlers, and the wake
table once at the end. Of the device it changes the interrupt bit of the lines
that were granted at first, and no other.
-/

set_option autoImplicit false

namespace Gpio

open Drive

variable {D σ : Type}

theorem calls_mapEffects (d : D) (virq : UInt32 → UInt32) (ls : List UInt32) :
    (mapEffects d virq ls).filterMap Effect.call? = ls.map fun k => .domain d (.create k) := by
  rw [mapEffects, List.filterMap_map, ← List.filterMap_eq_map]
  rfl

theorem calls_maskEffects (b : Block D σ) (d : D) (virq : UInt32 → UInt32) (m : Memory)
    (line : UInt32) : (b.maskEffects d virq m line).filterMap Effect.call? =
      [.domain d (.find line), .domain d (.setFlow (virq line) .simple)] := by
  cases ho : b.owns m line with
  | false =>
    rw [Block.maskEffects_of_not_owns ho]
    rfl
  | true =>
    obtain ⟨l, hl⟩ := b.valid_of_owns ho
    rw [Block.maskEffects_of_owns ho hl]
    rfl

/-- The calls of `attach` where it succeeds: every line is mapped before any is given its flow. -/
theorem calls_attachEffects (b : Block D σ) (d : D) (virq : UInt32 → UInt32) (m : Memory) :
    (b.attachEffects d virq m).filterMap Effect.call? =
      (lines.map fun k => .domain d (.create k)) ++
        lines.flatMap fun k => [.domain d (.find k), .domain d (.setFlow (virq k) .simple)] := by
  have silent : (Effect.notice (D := D) (.masked (lines.countP (b.owns m)))).call? = none := rfl
  rw [Block.attachEffects, List.filterMap_append, List.filterMap_append, calls_mapEffects,
    List.filterMap_flatMap, List.filterMap_cons_none silent, List.filterMap_nil, List.append_nil]
  simp only [calls_maskEffects]

def installCalls (d : D) (r : Resources) : List (Call D) :=
  (r.irqs.take 7).mapIdx fun i irq => .domain d (.setChained irq (UInt8.ofNat i))

section Phases

variable {b : Block D σ} {d : D} {refuses : UInt32 → Bool} {live : σ → Prop}
  {table : σ → UInt32 → Option UInt32}

theorem Host.Tracks.install_emits (tracks : b.host.Tracks d refuses live table)
    (bound : UInt32 → Option UInt32) (memory : Memory) :
    Emits (fun s => live s ∧ table s = bound) (fun _ => True) memory (b.withDomain d).install ()
      (b.controllers.flatMap fun c => [.call (.domain d (.setChained c.irq c.id)) ()]) := by
  refine emits_forM _ fun c _ => call_emits ?_ (fun _ _ => rfl) fun s hs =>
    HostWrite.spares_of_quiet (tracks.quiet hs.1 (.setChained c.irq c.id) trivial)
  rintro s ⟨hs, hbound⟩
  exact ⟨tracks.lasting hs _ trivial,
    (tracks.stable hs (.domain d (.setChained c.irq c.id)) id).trans hbound⟩

theorem calls_installEffects (r : Resources) (d : D) :
    (r.controllers.flatMap fun c =>
      [Effect.call (.domain d (.setChained c.irq c.id)) ()]).filterMap Effect.call? =
      installCalls d r := by
  have each : ∀ c : Controller, [Effect.call (.domain d (.setChained c.irq c.id)) ()].filterMap
      Effect.call? = [.domain d (.setChained c.irq c.id)] := fun _ => rfl
  simp only [List.filterMap_flatMap, each]
  rw [← List.map_eq_flatMap]
  apply List.ext_getElem?
  intro i
  simp only [Resources.controllers, installCalls, Layout.controllerLimit, List.getElem?_map,
    List.getElem?_mapIdx, Option.map_map]
  rfl

theorem Host.Tracks.on_publishWakeTable (tracks : b.host.Tracks d refuses live table)
    (steady : b.host.Steady) {m : Machine D σ} (hm : live m.world) :
    ∃ m', b.publishWakeTable.on m = (.ok (), m') ∧ live m'.world ∧
      table m'.world = table m.world ∧
      m'.calls = m.calls ++ [.wake (.publish 0 Wake.sources)] ∧
      (∀ e ∈ m.trace.toList, e ∈ m'.trace.toList) ∧
      ∀ a, ¬ b.host.Writes a → m'.memory.byte a = m.memory.byte a := by
  let c : Call D := .wake (.publish 0 Wake.sources)
  obtain ⟨m', hon⟩ := Host.on_call_of_steady steady c m
  obtain ⟨ws, -, after⟩ := b.host.call_after c m
  have hbytes := fun a => b.host.call_bytes c m (a := a)
  have hcalls := Machine.calls_call b.host c m
  have hworld := b.host.call_world c m
  rw [hon] at after hbytes hcalls hworld
  refine ⟨m', hon, ?_, ?_, hcalls, ?_, hbytes⟩
  · rw [hworld]
    exact tracks.enduring hm c
  · rw [hworld]
    exact tracks.stable hm c id
  · intro e he
    rw [after.trace]
    exact List.mem_append_left _ he

theorem Host.Tracks.on_toIrq (tracks : b.host.Tracks d refuses live table)
    (hd : b.domain = some d) {m : Machine D σ} (hm : live m.world) (line : UInt32) :
    ((b.toIrq line).on m).1 = .ok (table m.world line) := by
  have hon := tracks.on_call hm (.find line) trivial
  rw [(tracks.found hm line).1] at hon
  unfold Block.toIrq
  rw [hd]
  exact congrArg Prod.fst hon

end Phases

namespace Block

variable {d : D} {refuses : UInt32 → Bool} {live : σ → Prop} {table : σ → UInt32 → Option UInt32}

theorem not_stranded_of_fits {b : Block D σ} (fits : ∀ kind, bankExtent kind ≤ (b.bank kind).size)
    (m : Memory) (line : UInt32) : ¬ b.Stranded m line := by
  intro h
  obtain ⟨l, hl⟩ := h.valid
  exact ((stranded_iff hl).mp h).2 (Bank.covers_register hl (fits l.bank) .enableConfig)

theorem Admits.lt {b : Block D σ} {m : Memory} {line : UInt32} (h : b.Admits m line) :
    line < 256 := by
  obtain ⟨l, hl⟩ := isLine_iff.mp h.isLine
  exact mem_lines_iff.mp (mem_lines hl)

/-- Over banks that hold every register, masking is said of the lines that were granted; what a host
writes outside the banks afterwards does not undo it. -/
theorem Silenced.survives {b : Block D σ} {m m' n : Memory} (h : b.Silenced (· < 256) m m')
    (fits : ∀ kind, bankExtent kind ≤ (b.bank kind).size)
    (spares : ∀ kind, b.host.Spares (b.bank kind))
    (unwritten : ∀ a, ¬ b.host.Writes a → n.byte a = m'.byte a) :
    (∀ line l, b.Admits m line → resolve line = some l →
      n.loadWord (b.configAddress l) = m.loadWord (b.configAddress l) &&& ~~~0x40) ∧
    ∀ a, (∀ line l, b.Admits m line → resolve line = some l →
        ¬ (b.configAddress l ≤ a ∧ a < b.configAddress l + 4)) →
      ¬ b.host.Writes a → n.byte a = m.byte a := by
  constructor
  · intro line l hadmits hl
    have owned := (owns_iff_admits fits).mpr hadmits
    have hvalid := valid_of_resolve owned hl
    have covers := Bank.covers_register hvalid (fits l.bank) .enableConfig
    have same : ∀ a, b.configAddress l ≤ a → a < b.configAddress l + 4 → n.byte a = m'.byte a :=
      fun a hlo hhi => unwritten a (spares l.bank a (Bank.holds_of_covers covers hlo hhi))
    rw [Memory.loadWord_eq_iff.mpr same]
    exact h.cleared hadmits.lt (accessible_iff.mpr owned) hl
  · intro a hout hforeign
    rw [unwritten a hforeign]
    refine h.kept a fun line l _ access => hout line l ?_
    exact (owns_iff_admits fits).mp (accessible_iff.mp access)

/-- With an accepted description, and a domain that maps every line, `init` succeeds. Of the device
nothing changes but the interrupt bit of the lines that were granted, which is cleared. Afterwards
every line in the line space is found under its mapping, and no other line is found. The calls are
the mappings, then a lookup and the simple flow for each line, then one chained handler for each
controller, then the wake table. -/
theorem init_establishes {host : Host D σ} {r : Resources}
    (tracks : host.Tracks d refuses live table) (steady : host.Steady) (accepted : r.Accepted)
    {main aon : Bank} {rest : List Bank} (banks : r.banks = main :: aon :: rest)
    (apart : main.Apart aon) (spares_main : host.Spares main) (spares_aon : host.Spares aon)
    (m : Machine D σ) (hm : live m.world) (empty : ∀ line, table m.world line = none)
    (maps : ∀ line < 256, refuses line = false) :
    let b : Block D σ := ⟨main, aon, r.controllers, some d, host⟩
    ∃ (virq : UInt32 → UInt32) (m' : Machine D σ), (init host r d).on m = (.ok b, m') ∧
      (∀ line l, b.Admits m.memory line → resolve line = some l →
        m'.memory.loadWord (b.configAddress l) =
          m.memory.loadWord (b.configAddress l) &&& ~~~0x40) ∧
      (∀ a, (∀ line l, b.Admits m.memory line → resolve line = some l →
          ¬ (b.configAddress l ≤ a ∧ a < b.configAddress l + 4)) →
        ¬ host.Writes a → m'.memory.byte a = m.memory.byte a) ∧
      (∀ line < 256, .call (.domain d (.create line)) (some (virq line)) ∈ m'.trace.toList) ∧
      (∀ i < 256, ∀ j < 256, virq i = virq j → i = j) ∧
      (∀ line, ((b.toIrq line).on m').1 =
        .ok (if line < 256 then some (virq line) else none)) ∧
      m'.calls = m.calls ++ ((lines.map fun line => .domain d (.create line)) ++
        (lines.flatMap fun line =>
          [.domain d (.find line), .domain d (.setFlow (virq line) .simple)]) ++
        installCalls d r ++ [.wake (.publish 0 Wake.sources)]) := by
  intro b
  let p : Block D σ := ⟨main, aon, r.controllers, none, host⟩
  obtain ⟨main', aon', rest', ns, hbanks, -, -, hprobe⟩ := on_probe_of_accepted accepted host m
  rw [banks] at hbanks
  cases hbanks
  have fits : ∀ kind, bankExtent kind ≤ (p.bank kind).size :=
    (probed_of_accepted accepted host banks m).fits
  have spares : ∀ kind, host.Spares (p.bank kind) := by
    intro kind
    cases kind with
    | main => exact spares_main
    | aon => exact spares_aon
  have hm₁ : live (m.note ns).world := by rwa [m.world_note]
  have empty₁ : ∀ line, table (m.note ns).world line = none := by rwa [m.world_note]
  obtain ⟨virq, m₂, hattach, hm₂, htable₂, distinct, silenced, htrace₂⟩ :=
    on_attach_done (b := p) tracks apart hm₁ empty₁ maps (not_stranded_of_fits fits _)
  obtain ⟨m₃, hinstall, ⟨hm₃, htable₃⟩, hmemory₃, htrace₃⟩ :=
    (tracks.install_emits (b := p) (table m₂.world) m₂.memory).exact ⟨hm₂, rfl⟩
  obtain ⟨m', hpublish, hm', htable', hcalls', grown, hbytes⟩ :=
    tracks.on_publishWakeTable (b := b) steady hm₃
  rw [m.memory_note] at silenced htrace₂
  obtain ⟨cleared, kept⟩ := silenced.survives fits spares (n := m'.memory) fun a ha => by
    rw [hbytes a ha, hmemory₃]
  refine ⟨virq, m', ?_, cleared, kept, ?_, distinct, ?_, ?_⟩
  · refine (on_bind_ok hprobe _).trans ((on_bind_ok hattach _).trans ?_)
    exact (on_bind_ok hinstall _).trans (on_bind_ok hpublish _)
  · intro line hline
    apply grown
    rw [htrace₃, htrace₂]
    have hmem : Effect.call (.domain d (.create line)) (some (virq line)) ∈
        mapEffects d virq lines :=
      List.mem_map.mpr ⟨line, mem_lines_iff.mpr hline, rfl⟩
    simp only [attachEffects, List.mem_append, hmem, true_or, or_true]
  · intro line
    rw [tracks.on_toIrq (b := b) rfl hm', htable', htable₃, htable₂]
  · have noted : (ns.map (Effect.notice (D := D))).filterMap Effect.call? = [] := by
      simp [Effect.call?]
    rw [hcalls', Machine.calls, htrace₃, htrace₂, m.trace_note]
    simp only [p, List.filterMap_append, noted, List.nil_append, calls_attachEffects,
      calls_installEffects, Machine.calls, List.append_assoc]

end Block

open Simulation in
/-- With every line granted, the bench starts with the interrupt of line 0 masked, and its mapping
is found. -/
theorem bench_init_establishes :
    Fixture.start.resources.Accepted ∧ Fixture.start.main.Apart Fixture.start.aon ∧
    (World.fresh .plain).Holds 0 .plain ∧ (∀ line, (World.fresh .plain).find 0 line = none) ∧
    ∃ b m' virq, (Block.init (Fixture.hostFor none none) Fixture.start.resources 0).on
        (.start Fixture.granting (World.fresh .plain)) = (.ok b, m') ∧
      m'.memory.loadWord (Fixture.start.main.base + 0x12000) = 0xffffffbf ∧
      ((b.toIrq 0).on m').1 = .ok (some virq) := by
  have accepted := Fixture.start_accepted
  have quiet := Fixture.hostFor_quiet none none
  have holds := World.fresh_holds .plain
  have empty := World.fresh_find .plain
  have tracks : (Fixture.hostFor none none).Tracks 0 DomainSpec.plain.rejects (·.Holds 0 .plain)
      (·.find 0) := host_tracks _ _ 0 rfl
  obtain ⟨virq, m', hon, cleared, -, -, -, found, -⟩ := Block.init_establishes tracks
    (Host.steady_of_quiet quiet) accepted rfl Fixture.start_apart
    (Host.spares_of_quiet quiet _) (Host.spares_of_quiet quiet _)
    (.start Fixture.granting (World.fresh .plain)) holds empty fun _ => DomainSpec.plain_rejects
  have granted : ∀ i ∈ [1, 9, 27, 28],
      (Fixture.granting.loadWord (Fixture.start.main.base + 0x2004)).getLsbD i = true := by
    rw [Fixture.granting_loadWord]
    decide
  have first := cleared 0 ((Port.main "A" 2 0 7).locate 0 0) ⟨_, rfl, rfl, granted⟩ rfl
  refine ⟨accepted, Fixture.start_apart, holds, empty, _, m', virq 0, hon, first.trans ?_, found 0⟩
  show Fixture.granting.loadWord _ &&& ~~~0x40 = 0xffffffbf
  rw [Fixture.granting_loadWord]
  rfl

end Gpio
