import Mathlib.Data.List.Nodup
import Gpio.Proofs.Confinement

/-!
# What a chained handler dispatches

Which lines are pending is said here of the port table and of status words,
without the handler's loops: by the place of a port in its controller, then
by pin. The handler runs exactly these, in this order, between entering and
leaving, over any domain that keeps its mapping meanwhile; what is written
while handlers run does not matter as long as it spares the status words.
The banks may have any size; a port whose status word is out of reach counts
for nothing.
-/

set_option autoImplicit false

namespace Gpio

open Drive

variable {D σ α β : Type}

theorem port_slot : ∀ p ∈ ports, p.slot < 8 := by
  decide

/-- No two ports of a controller have the same place in it. -/
theorem slots_apart : ports.Pairwise fun p q =>
    p.controller.isSome = true → p.controller = q.controller → p.slot ≠ q.slot := by
  decide

def Port.standsAt (p : Port) (controller : UInt8) (slot : Nat) : Bool :=
  p.controller == some controller && p.slot == slot

theorem Port.standsAt_iff {p : Port} {controller : UInt8} {slot : Nat} :
    p.standsAt controller slot = true ↔ p.controller = some controller ∧ p.slot = slot := by
  simp [standsAt]

def portsOf (controller : UInt8) : List Nat :=
  (List.range 8).flatMap fun slot =>
    (List.range 32).filter fun port => ports[port]?.any (·.standsAt controller slot)

theorem mem_portsOf {controller : UInt8} {port : Nat} :
    port ∈ portsOf controller ↔ ∃ p, ports[port]? = some p ∧ p.controller = some controller := by
  simp only [portsOf, List.mem_flatMap, List.mem_filter, List.mem_range, Option.any_eq_true,
    Port.standsAt_iff]
  constructor
  · rintro ⟨_, -, -, p, hp, hc, -⟩
    exact ⟨p, hp, hc⟩
  · rintro ⟨p, hp, hc⟩
    exact ⟨p.slot, port_slot p (List.mem_of_getElem? hp), port_lt hp, p, hp, hc, rfl⟩

theorem portsOf_nodup (controller : UInt8) : (portsOf controller).Nodup := by
  refine List.nodup_flatMap.mpr ⟨fun _ _ => List.nodup_range.filter _, ?_⟩
  refine List.nodup_range.imp fun hne port hi hj => ?_
  simp only [List.mem_filter, Option.any_eq_true, Port.standsAt_iff] at hi hj
  obtain ⟨-, p, hp, -, hps⟩ := hi
  obtain ⟨-, q, hq, -, hqs⟩ := hj
  rw [hp] at hq
  cases hq
  exact hne (hps.symm.trans hqs)

theorem same_place {controller : UInt8} {slot i j : Nat} {p q : Port} (hi : ports[i]? = some p)
    (hj : ports[j]? = some q) (hp : p.standsAt controller slot = true)
    (hq : q.standsAt controller slot = true) : i = j := by
  obtain ⟨hi', rfl⟩ := List.getElem?_eq_some_iff.mp hi
  obtain ⟨hj', rfl⟩ := List.getElem?_eq_some_iff.mp hj
  obtain ⟨hpc, hps⟩ := Port.standsAt_iff.mp hp
  obtain ⟨hqc, hqs⟩ := Port.standsAt_iff.mp hq
  have hall := List.pairwise_iff_getElem.mp slots_apart
  rcases Nat.lt_trichotomy i j with h | h | h
  · exact absurd (hps.trans hqs.symm)
      (hall i j hi' hj' h (by rw [hpc]; rfl) (hpc.trans hqc.symm))
  · exact h
  · exact absurd (hqs.trans hps.symm)
      (hall j i hj' hi' h (by rw [hqc]; rfl) (hqc.trans hpc.symm))

theorem getElem?_placePort (controller : UInt8) (map : List (Option Nat)) (q : Port × Nat)
    {slot : Nat} (h : slot < map.length) : (placePort controller map q)[slot]? =
      if q.1.standsAt controller slot then some (some q.2) else map[slot]? := by
  unfold placePort
  cases hc : q.1.controller == some controller with
  | false =>
    rw [Port.standsAt, hc]
    rfl
  | true =>
    rw [Port.standsAt, hc, if_pos rfl, List.getElem?_set, Bool.true_and]
    by_cases hs : q.1.slot = slot
    · rw [if_pos hs, if_pos (hs ▸ h), if_pos (beq_iff_eq.mpr hs)]
    · rw [if_neg hs, if_neg fun he => hs (beq_iff_eq.mp he)]

theorem length_placePort (controller : UInt8) (map : List (Option Nat)) (q : Port × Nat) :
    (placePort controller map q).length = map.length := by
  unfold placePort
  split
  · exact List.length_set
  · rfl

/-- Each place holds the last port entered there. -/
theorem getElem?_foldl_placePort (controller : UInt8) (qs : List (Port × Nat))
    (map : List (Option Nat)) {slot : Nat} (h : slot < map.length) :
    (qs.foldl (placePort controller) map)[slot]? =
      ((qs.reverse.find? (·.1.standsAt controller slot)).map fun q => some q.2).or map[slot]? := by
  induction qs generalizing map with
  | nil => rfl
  | cons q qs ih =>
    rw [List.foldl_cons, ih _ (by rwa [length_placePort]), getElem?_placePort controller map q h,
      List.reverse_cons, List.find?_append, List.find?_singleton]
    cases qs.reverse.find? (·.1.standsAt controller slot) with
    | some last => rfl
    | none => split <;> rfl

/-- The port found at a place is the only one there. -/
theorem toList_getElem?_controllerPorts (controller : UInt8) {slot : Nat} (h : slot < 8) :
    (controllerPorts controller)[slot]?.join.toList =
      (List.range 32).filter fun port => ports[port]?.any (·.standsAt controller slot) := by
  have hempty : (List.replicate Layout.portsPerController (none : Option Nat))[slot]? =
      some none := List.getElem?_replicate_of_lt h
  rw [controllerPorts, getElem?_foldl_placePort controller _ _ (by rwa [List.length_replicate]),
    hempty]
  cases hf : ports.zipIdx.reverse.find? (·.1.standsAt controller slot) with
  | none =>
    have hnone := List.find?_eq_none.mp hf
    refine (List.filter_eq_nil_iff.mpr fun port _ hany => ?_).symm
    obtain ⟨p, hp, hs⟩ := (Option.any_eq_true _ _).mp hany
    exact hnone (p, port) (List.mem_reverse.mpr (List.mk_mem_zipIdx_iff_getElem?.mpr hp)) hs
  | some q =>
    have hs := List.find?_some hf
    have hq : ports[q.2]? = some q.1 :=
      List.mem_zipIdx_iff_getElem?.mp (List.mem_reverse.mp (List.mem_of_find?_eq_some hf))
    refine (List.perm_singleton.mp ?_).symm
    refine (List.perm_ext_iff_of_nodup (List.nodup_range.filter _) (List.nodup_singleton q.2)).mpr
      fun port => ?_
    simp only [List.mem_filter, List.mem_range, Option.any_eq_true, List.mem_singleton]
    constructor
    · rintro ⟨-, p, hp, hps⟩
      exact same_place hp hq hps hs
    · rintro rfl
      exact ⟨port_lt hq, q.1, hq, hs⟩

theorem length_controllerPorts (controller : UInt8) :
    (controllerPorts controller).length = 8 := by
  have hlength : ∀ (qs : List (Port × Nat)) (map : List (Option Nat)),
      (qs.foldl (placePort controller) map).length = map.length := fun qs map =>
    List.foldlRecOn qs (placePort controller) (motive := (·.length = map.length)) rfl
      fun ps hps q _ => (length_placePort controller ps q).trans hps
  exact (hlength _ _).trans List.length_replicate

theorem reduceOption_controllerPorts (controller : UInt8) :
    (controllerPorts controller).reduceOption = portsOf controller := by
  have hplaces : controllerPorts controller =
      (List.range 8).map fun slot => (controllerPorts controller)[slot]?.join := by
    apply List.ext_getElem?
    intro slot
    rw [List.getElem?_map]
    by_cases h : slot < 8
    · rw [List.getElem?_range h, Option.map_some,
        List.getElem?_eq_getElem (by rwa [length_controllerPorts])]
      rfl
    · rw [List.getElem?_eq_none (by rw [length_controllerPorts]; omega),
        List.getElem?_eq_none (by rw [List.length_range]; omega)]
      rfl
  show (controllerPorts controller).filterMap id = _
  rw [hplaces, List.filterMap_map, List.filterMap_eq_flatMap_toList]
  exact List.flatMap_congr fun slot hslot =>
    toList_getElem?_controllerPorts controller (List.mem_range.mp hslot)

namespace Block

def statusByte (b : Block D σ) (m : Memory) (p : Port) : Nat :=
  (m.loadWord ((b.bank p.bank).base + (p.registers + 0x104))).toNat % 256

def pending (b : Block D σ) (m : Memory) (p : Port) (pin : Nat) : Bool :=
  decide (p.registers + 0x104 + 4 ≤ (b.bank p.bank).size) && (b.statusByte m p).testBit pin

def pendingLines (b : Block D σ) (m : Memory) (controller : UInt8) : List UInt32 :=
  (portsOf controller).flatMap fun port =>
    ((List.range 8).filter fun pin => ports[port]?.any (b.pending m · pin)).map (lineOf port)

variable (b : Block D σ) (m : Memory)

theorem statusByte_testBit {p : Port} {pin : Nat} (h : pin < 8) :
    (b.statusByte m p).testBit pin =
      (m.loadWord ((b.bank p.bank).base + p.statusOffset)).getLsbD pin := by
  show (_ % 2 ^ 8).testBit pin = _
  rw [Nat.testBit_mod_two_pow, decide_eq_true h, Bool.true_and, BitVec.testBit_toNat]
  rfl

theorem pending_of_covers {p : Port} (h : (b.bank p.bank).Covers p.statusOffset) :
    pendingPins (m.loadWord ((b.bank p.bank).base + p.statusOffset)) =
      (List.range 8).filter (b.pending m p) := by
  refine List.filter_congr fun pin hpin => ?_
  rw [pending, decide_eq_true (show p.registers + 0x104 + 4 ≤ _ from h.2), Bool.true_and,
    b.statusByte_testBit m (List.mem_range.mp hpin)]

theorem pending_of_not_covers {p : Port} (hp : p ∈ ports)
    (h : ¬ (b.bank p.bank).Covers p.statusOffset) (pin : Nat) : b.pending m p pin = false := by
  have hsize : ¬ p.registers + 0x104 + 4 ≤ (b.bank p.bank).size :=
    fun hle => h ⟨(port_status p hp).1, hle⟩
  rw [pending, decide_eq_false hsize, Bool.false_and]

/-- A port looks up the pins that are pending when its turn comes; one that is out of reach has
none. -/
theorem on_dispatchPort {b : Block D σ} {port : Nat} {p : Port} (hp : ports[port]? = some p)
    (d : D) (m : Machine D σ) : (b.dispatchPort d port).on m =
      (((List.range 8).filter (b.pending m.memory p)).forM (b.dispatchPin d port)).on m := by
  have hmem := List.mem_of_getElem? hp
  have hfits : p.statusOffset + 4 < addressLimit :=
    Nat.lt_of_le_of_lt (port_status p hmem).2 (bankExtent_lt p.bank)
  unfold dispatchPort
  simp only [hp]
  rw [on_bind, on_attempt, on_observe]
  by_cases hc : (b.bank p.bank).Covers p.statusOffset
  · rw [Bank.read_of_covers m.memory hc hfits, ← b.pending_of_covers m.memory hc]
    rfl
  · have hnone : (List.range 8).filter (b.pending m.memory p) = [] :=
      List.filter_eq_nil_iff.mpr fun pin _ => by simp [b.pending_of_not_covers m.memory hmem hc pin]
    rw [Bank.read_of_not_covers m.memory hc hfits, hnone]
    rfl

theorem mem_pendingLines {controller : UInt8} {line : UInt32} :
    line ∈ b.pendingLines m controller ↔ ∃ port p pin, ports[port]? = some p ∧
      p.controller = some controller ∧ pin < 8 ∧ b.pending m p pin = true ∧
      lineOf port pin = line := by
  simp only [pendingLines, List.mem_flatMap, List.mem_map, List.mem_filter, List.mem_range,
    Option.any_eq_true, mem_portsOf]
  constructor
  · rintro ⟨port, ⟨p, hp, hc⟩, pin, ⟨hpin, q, hq, hpending⟩, hline⟩
    rw [hp] at hq
    cases hq
    exact ⟨port, p, pin, hp, hc, hpin, hpending, hline⟩
  · rintro ⟨port, p, pin, hp, hc, hpin, hpending, hline⟩
    exact ⟨port, ⟨p, hp, hc⟩, pin, ⟨hpin, p, hp, hpending⟩, hline⟩

theorem pendingLines_lt {controller : UInt8} {line : UInt32}
    (h : line ∈ b.pendingLines m controller) : line < 256 := by
  obtain ⟨port, p, pin, hp, -, hpin, -, rfl⟩ := (b.mem_pendingLines m).mp h
  exact lineOf_lt (port_lt hp) hpin

def StatusAt (b : Block D σ) (a : Nat) : Prop :=
  ∃ p ∈ ports, p.controller.isSome = true ∧ a = (b.bank p.bank).base + (p.registers + 0x104)

theorem statusByte_eq_byte (p : Port) : b.statusByte m p =
    (m.byte ((b.bank p.bank).base + (p.registers + 0x104))).toNat := by
  unfold statusByte
  exact m.loadWord_toNat_mod _

/-- Whether a pin pends is as it was where the status words are. -/
theorem pending_agrees {m' : Memory} (h : m.Agrees b.StatusAt m') {p : Port} (hp : p ∈ ports)
    (hc : p.controller.isSome = true) : b.pending m' p = b.pending m p := by
  have hbyte : b.statusByte m' p = b.statusByte m p := by
    rw [statusByte_eq_byte, statusByte_eq_byte, h _ ⟨p, hp, hc, rfl⟩]
  funext pin
  rw [pending, pending, hbyte]

/-- Of the memory, only the low eight bits of status words matter. -/
theorem pendingLines_congr {m m' : Memory} (h : ∀ p ∈ ports, b.statusByte m p = b.statusByte m' p)
    (controller : UInt8) : b.pendingLines m controller = b.pendingLines m' controller := by
  refine List.flatMap_congr fun port _ => congrArg (List.map _) (List.filter_congr fun pin _ => ?_)
  cases hp : ports[port]? with
  | none => rfl
  | some p => simp only [Option.any_some, pending, h p (List.mem_of_getElem? hp)]

end Block

def DomainCall.Routing : DomainCall → Prop
  | find _ | handle _ | enter _ | exit _ => True
  | create _ | lineOf _ | dispose _ | setFlow .. | setChained .. => False

/-- In the states of `live`, the domain finds lines as `table` has them. A chained handler's calls
do not leave these states and write no register. -/
structure Host.Routes (h : Host D σ) (d : D) (live : σ → Prop)
    (table : UInt32 → Option UInt32) : Prop where
  lasting : ∀ {s}, live s → ∀ c : DomainCall, c.Routing → live (h.answer (.domain d c) s).world
  quiet : ∀ {s}, live s → ∀ c : DomainCall, c.Routing → (h.answer (.domain d c) s).writes = []
  found : ∀ {s}, live s → ∀ line, (h.answer (.domain d (.find line)) s).reply = table line

/-- In the states of `live`, the domain finds lines as `table` has them. A chained handler's calls
do not leave these states, and what the host writes meanwhile spares the bytes of `kept`. -/
structure Host.Dispatches (h : Host D σ) (d : D) (live : σ → Prop)
    (table : UInt32 → Option UInt32) (kept : Nat → Prop) : Prop where
  lasting : ∀ {s}, live s → ∀ c : DomainCall, c.Routing → live (h.answer (.domain d c) s).world
  found : ∀ {s}, live s → ∀ line, (h.answer (.domain d (.find line)) s).reply = table line
  spares : ∀ {s}, live s → ∀ c : DomainCall, c.Routing →
    ∀ w ∈ (h.answer (.domain d c) s).writes, w.Spares kept

theorem Host.Routes.dispatches {h : Host D σ} {d : D} {live : σ → Prop}
    {table : UInt32 → Option UInt32} (routes : h.Routes d live table) (kept : Nat → Prop) :
    h.Dispatches d live table kept where
  lasting := routes.lasting
  found := routes.found
  spares hs c hc := HostWrite.spares_of_quiet (routes.quiet hs c hc)

def routeEffects (d : D) (table : UInt32 → Option UInt32) (line : UInt32) : List (Effect D) :=
  .call (.domain d (.find line)) (table line) ::
    (table line).toList.map fun virq => .call (.domain d (.handle virq)) ()

namespace Block

def chainedEffects (b : Block D σ) (d : D) (table : UInt32 → Option UInt32) (m : Memory)
    (controller : UInt8) : List (Effect D) :=
  match b.controller? controller with
  | none => [.notice (.unknownController controller)]
  | some c => .call (.domain d (.enter c.irq)) () ::
      (b.pendingLines m controller).flatMap (routeEffects d table) ++
      [.call (.domain d (.exit c.irq)) ()]

variable {b : Block D σ} {d : D} {live : σ → Prop} {table : UInt32 → Option UInt32}
  {kept : Nat → Prop} (dispatches : b.host.Dispatches d live table kept) (memory : Memory)
include dispatches

theorem callDomain_emits (c : DomainCall) (hc : c.Routing) {v : c.Reply}
    (hv : ∀ s, live s → (b.host.answer (.domain d c) s).reply = v) :
    Emits live kept memory (b.callDomain d c) v [.call (.domain d c) v] :=
  call_emits (fun _ hs => dispatches.lasting hs c hc) hv fun _ hs => dispatches.spares hs c hc

theorem dispatchPin_emits (port pin : Nat) : Emits live kept memory (b.dispatchPin d port pin) ()
    (routeEffects d table (lineOf port pin)) := by
  have hfind := callDomain_emits dispatches memory (.find (lineOf port pin)) trivial
    fun s hs => dispatches.found hs _
  unfold routeEffects
  apply emits_bind hfind
  cases table (lineOf port pin) with
  | none => exact emits_pure ()
  | some virq => exact callDomain_emits dispatches memory (.handle virq) trivial fun _ _ => rfl

variable (status : ∀ a, b.StatusAt a → kept a)
include status

/-- What the host wrote before the port's turn spared its status. -/
theorem dispatchPort_emits {port : Nat} {p : Port} (hp : ports[port]? = some p)
    (hc : p.controller.isSome = true) : Emits live kept memory (b.dispatchPort d port) ()
      (((List.range 8).filter (b.pending memory p)).flatMap fun pin =>
        routeEffects d table (lineOf port pin)) := by
  intro m hm hmem
  have hstatus : memory.Agrees b.StatusAt m.memory := fun a ha => hmem a (status a ha)
  rw [on_dispatchPort hp, b.pending_agrees memory hstatus (List.mem_of_getElem? hp) hc]
  exact emits_forM _ (fun pin _ => dispatchPin_emits dispatches memory port pin) m hm hmem

/-- The chained handler of a controller, effect by effect. -/
theorem handleChained_emits (hd : b.domain = some d) (controller : UInt8) :
    Emits live kept memory (b.handleChained controller) ()
      (b.chainedEffects d table memory controller) := by
  have walk : Emits live kept memory ((portsOf controller).forM (b.dispatchPort d)) ()
      ((b.pendingLines memory controller).flatMap (routeEffects d table)) := by
    rw [pendingLines, List.flatMap_assoc]
    refine emits_forM _ fun port hport => ?_
    obtain ⟨p, hp, hcontroller⟩ := mem_portsOf.mp hport
    simp only [hp, Option.any_some, List.flatMap_map]
    exact dispatchPort_emits dispatches memory status hp (by rw [hcontroller]; rfl)
  unfold handleChained chainedEffects
  rw [hd, reduceOption_controllerPorts]
  cases b.controller? controller with
  | none => exact emits_notify _
  | some c =>
    apply emits_bind (callDomain_emits dispatches memory (.enter c.irq) trivial fun _ _ => rfl)
    exact emits_bind walk (callDomain_emits dispatches memory (.exit c.irq) trivial fun _ _ => rfl)

end Block

def Effect.handled? : Effect D → Option (D × UInt32)
  | .call (.domain d (.handle virq)) _ => some (d, virq)
  | _ => none

def Machine.handled (m : Machine D σ) : List (D × UInt32) :=
  m.trace.toList.filterMap Effect.handled?

theorem handled_routeEffects (d : D) (table : UInt32 → Option UInt32) (lines : List UInt32) :
    (lines.flatMap (routeEffects d table)).filterMap Effect.handled? =
      (lines.filterMap table).map (d, ·) := by
  induction lines with
  | nil => rfl
  | cons line rest ih =>
    rw [List.flatMap_cons, List.filterMap_append, ih]
    unfold routeEffects
    cases hline : table line with
    | none => rw [List.filterMap_cons_none hline]; rfl
    | some virq => rw [List.filterMap_cons_some hline]; rfl

/-- Where every line is mapped, every line looked up has its handler run. -/
theorem filterMap_of_mapped {table : UInt32 → Option UInt32} {virq : UInt32 → UInt32}
    (mapped : ∀ line < 256, table line = some (virq line)) {lines : List UInt32}
    (h : ∀ line ∈ lines, line < 256) : lines.filterMap table = lines.map virq := by
  rw [← List.filterMap_eq_map]
  exact List.filterMap_congr fun line hline => mapped line (h line hline)

namespace Block

variable {b : Block D σ} {d : D} {live : σ → Prop} {table : UInt32 → Option UInt32}

theorem on_handleChained_unknown {controller : UInt8} (h : b.controller? controller = none)
    (m : Machine D σ) :
    (b.handleChained controller).on m = (.ok (), m.note [.unknownController controller]) := by
  unfold handleChained
  rw [h]
  rfl

theorem on_handleChained_without_domain (hd : b.domain = none) (controller : UInt8)
    (m : Machine D σ) :
    (b.handleChained controller).on m = (.ok (), if (b.controller? controller).isSome then m
      else m.note [.unknownController controller]) := by
  cases hc : b.controller? controller with
  | none => exact on_handleChained_unknown hc m
  | some c =>
    unfold handleChained
    rw [hc, hd]
    rfl

theorem handled_chainedEffects {controller : UInt8} {c : Controller}
    (hc : b.controller? controller = some c) (d : D) (table : UInt32 → Option UInt32) (m : Memory) :
    (b.chainedEffects d table m controller).filterMap Effect.handled? =
      ((b.pendingLines m controller).filterMap table).map (d, ·) := by
  have hwalk := handled_routeEffects d table (b.pendingLines m controller)
  simp only [chainedEffects, hc, List.filterMap_append, List.filterMap_cons, List.cons_append,
    Effect.handled?, hwalk, List.filterMap_nil, List.append_nil]

/-- What a run of a recorded controller's handler does to the machine. -/
theorem on_handleChained (routes : b.host.Routes d live table) (hd : b.domain = some d)
    {controller : UInt8} {c : Controller} (hc : b.controller? controller = some c)
    {m : Machine D σ} (hm : live m.world) :
    ∃ m', (b.handleChained controller).on m = (.ok (), m') ∧ live m'.world ∧
      m'.memory = m.memory ∧
      m'.trace.toList = m.trace.toList ++ (.call (.domain d (.enter c.irq)) () ::
        (b.pendingLines m.memory controller).flatMap (routeEffects d table) ++
        [.call (.domain d (.exit c.irq)) ()]) ∧
      m'.handled = m.handled ++
        ((b.pendingLines m.memory controller).filterMap table).map (d, ·) := by
  have emits := handleChained_emits (routes.dispatches fun _ => True) m.memory
    (fun _ _ => trivial) hd controller
  obtain ⟨m', hon, hm', hmemory, htrace⟩ := emits.exact hm
  have hhandled := handled_chainedEffects hc d table m.memory
  rw [chainedEffects, hc] at htrace hhandled
  refine ⟨m', hon, hm', hmemory, htrace, ?_⟩
  rw [Machine.handled, htrace, List.filterMap_append, hhandled, Machine.handled]

/-- The chained handler of a controller that is not recorded calls no domain. That of a recorded one
enters, looks up the pending lines in order, runs the handlers of those that are mapped, and exits;
no register is written, and of the memory only the low eight bits of status words matter. Without a
domain nothing is called. -/
theorem handleChained_dispatches_pending (routes : b.host.Routes d live table)
    (hd : b.domain = some d) (m : Machine D σ) (hm : live m.world) (controller : UInt8) :
    (b.controller? controller = none →
      (b.handleChained controller).on m = (.ok (), m.note [.unknownController controller])) ∧
    (∀ c, b.controller? controller = some c →
      ∃ m', (b.handleChained controller).on m = (.ok (), m') ∧ m'.memory = m.memory ∧
        m'.trace.toList = m.trace.toList ++ (.call (.domain d (.enter c.irq)) () ::
          (b.pendingLines m.memory controller).flatMap (routeEffects d table) ++
          [.call (.domain d (.exit c.irq)) ()]) ∧
        m'.handled =
          m.handled ++ ((b.pendingLines m.memory controller).filterMap table).map (d, ·)) ∧
    (∀ m₁ : Machine D σ, live m₁.world →
      (∀ p ∈ ports, b.statusByte m₁.memory p = b.statusByte m.memory p) →
      ∃ es, ((b.handleChained controller).on m).2.trace.toList = m.trace.toList ++ es ∧
        ((b.handleChained controller).on m₁).2.trace.toList = m₁.trace.toList ++ es) ∧
    (({ b with domain := none } : Block D σ).handleChained controller).on m =
      (.ok (), if (b.controller? controller).isSome then m
        else m.note [.unknownController controller]) := by
  have without :=
    on_handleChained_without_domain (b := { b with domain := none }) rfl controller m
  refine ⟨fun hc => on_handleChained_unknown hc m, fun c hc => ?_, fun m₁ hm₁ hstatus => ?_,
    without⟩
  · obtain ⟨m', hon, -, hmemory, htrace, hhandled⟩ := on_handleChained routes hd hc hm
    exact ⟨m', hon, hmemory, htrace, hhandled⟩
  · cases hc : b.controller? controller with
    | none =>
      rw [on_handleChained_unknown hc m, on_handleChained_unknown hc m₁]
      exact ⟨_, m.trace_note _, m₁.trace_note _⟩
    | some c =>
      obtain ⟨m', hon, -, -, htrace, -⟩ := on_handleChained routes hd hc hm
      obtain ⟨m₂, hon₂, -, -, htrace₂, -⟩ := on_handleChained routes hd hc hm₁
      rw [b.pendingLines_congr hstatus controller] at htrace₂
      rw [hon, hon₂]
      exact ⟨_, htrace, htrace₂⟩

end Block

namespace Simulation

theorem Domain.answer_world {domain : Domain} {bank? : Nat → Option Bank} {c : DomainCall}
    (hc : c.Routing) : (domain.answer bank? c).world = domain := by
  cases c with
  | find | handle | enter | exit => rfl
  | _ => exact hc.elim

/-- A domain in a host without reactions routes by its own forward lookup. -/
theorem host_routes (pins : PinFailures) (wakes : WakeFailures) (d : Nat) (spec : DomainSpec)
    (table : UInt32 → Option UInt32) :
    (host (fun _ => none) pins wakes).Routes d (fun w => w.Holds d spec ∧ w.find d = table)
      table where
  lasting := by
    rintro w ⟨⟨domain, hd, hspec, hsize⟩, rfl⟩ c hc
    have ha := (host_answer (fun _ => none) pins wakes hd c).2
    rw [Domain.answer_world hc] at ha
    exact ⟨⟨domain, ha, hspec, hsize⟩, by rw [World.find_eq ha, World.find_eq hd]⟩
  quiet _ c _ := host_quiet pins wakes (.domain d c) _
  found := by
    rintro w ⟨⟨domain, hd, -, -⟩, rfl⟩ line
    rw [(host_answer (fun _ => none) pins wakes hd (.find line)).1, World.find_eq hd]
    rfl

def World.routed (spec : DomainSpec) : World :=
  ⟨#[{ Domain.ofSpec spec with mapped := Array.replicate Layout.lineCount true }]⟩

theorem World.routed_holds (spec : DomainSpec) : (World.routed spec).Holds 0 spec :=
  ⟨_, rfl, rfl, Array.size_replicate⟩

theorem World.routed_find {spec : DomainSpec} (base : spec.base = 32) (holes : spec.holes = [])
    {line : UInt32} (h : line < 256) : (World.routed spec).find 0 line = some (line + 32) := by
  have hline : line.toNat < 256 := UInt32.lt_iff_toNat_lt.mp h
  have hsum : (line + 32).toNat = 32 + line.toNat := by
    have hbase : (32 : UInt32).toNat = 32 := rfl
    rw [UInt32.toNat_add, hbase]
    omega
  have hd : (World.routed spec).domains[0]? =
      some { Domain.ofSpec spec with mapped := Array.replicate Layout.lineCount true } := rfl
  rw [World.find_eq hd, Domain.find_eq_some holes]
  refine ⟨?_, by rw [hsum]; exact congrArg (·.toNat + line.toNat) base⟩
  simp [Domain.isMapped, Array.getD_eq_getD_getElem?, Layout.lineCount, Layout.portCount,
    Layout.pinsPerPort, hline]

def Fixture.routing (f : Fixture) : Block Nat World := f.probed.withDomain 0

theorem Fixture.routes (f : Fixture) : f.routing.host.Routes 0
    (fun w => w.Holds 0 .plain ∧ w.find 0 = (World.routed .plain).find 0)
    ((World.routed .plain).find 0) :=
  host_routes _ _ 0 .plain _

theorem Fixture.statusByte_granting (b : Block D σ) (p : Port) :
    b.statusByte granting p = 255 := by
  unfold Block.statusByte
  rw [granting_loadWord]
  rfl

theorem Fixture.pendingLines_granting : start.routing.pendingLines granting 3 =
    (List.range 24).map fun i => UInt32.ofNat (8 + i) := by
  simp only [Block.pendingLines, Block.pending, statusByte_granting]
  decide

end Simulation

open Simulation in
/-- With every status bit set, the interrupt of controller 3 runs the handlers of its ports B, C and
D, eight pins each, from line 8 up. -/
theorem bench_handleChained_dispatches_pending :
    Fixture.start.routing.host.Routes 0
      (fun w => w.Holds 0 .plain ∧ w.find 0 = (World.routed .plain).find 0)
      ((World.routed .plain).find 0) ∧
    Fixture.start.routing.domain = some 0 ∧
    (World.routed .plain).Holds 0 .plain ∧
    ∃ m', (Fixture.start.routing.handleChained 3).on
        (.start Fixture.granting (World.routed .plain)) = (.ok (), m') ∧
      m'.memory = Fixture.granting ∧
      m'.handled = (List.range 24).map fun i => (0, UInt32.ofNat (8 + i) + 32) := by
  have routes := Fixture.start.routes
  have holds := World.routed_holds .plain
  have hrun := Block.handleChained_dispatches_pending routes rfl
    (.start Fixture.granting (World.routed .plain)) ⟨holds, rfl⟩ 3
  obtain ⟨m', hon, hmemory, -, hhandled⟩ := hrun.2.1 _ rfl
  rw [filterMap_of_mapped (fun _ => World.routed_find rfl rfl) fun _ => Block.pendingLines_lt _ _]
    at hhandled
  simp only [Machine.start, Fixture.pendingLines_granting, List.map_map] at hhandled
  exact ⟨routes, rfl, holds, m', hon, hmemory, hhandled⟩

end Gpio
