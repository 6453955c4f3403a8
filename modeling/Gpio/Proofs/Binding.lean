import Gpio.Proofs.Acceptance
import Gpio.Proofs.Initialization
import Gpio.Proofs.Parallel

/-!
# Bound lines and their handlers

A domain binds lines when its two lookups follow one table, which changes
only as mappings are made and disposed. The handler of a virtual interrupt
is the flow it was given last. Once a block is initialized, every line is
bound and has the simple handler; what gives no flow to a virtual interrupt
leaves its handler alone. Simulated domains that hide no line bind lines.
-/

set_option autoImplicit false

namespace Gpio

open Drive

variable {D σ : Type}

def Call.Remaps : Call D → Prop
  | .domain _ (.create _) | .domain _ (.dispose _) => True
  | _ => False

/-- In the states of `live`, which no call leaves, the lookups of the domain follow `table` in both
directions, and only making and disposing mappings changes it. -/
structure Host.Binds (h : Host D σ) (d : D) (live : σ → Prop)
    (table : σ → UInt32 → Option UInt32) : Prop where
  lasting : ∀ {s}, live s → ∀ c, live (h.answer c s).world
  created : ∀ {s line virq}, live s →
    (h.answer (.domain d (.create line)) s).reply = some virq →
    table (h.answer (.domain d (.create line)) s).world =
      Function.update (table s) line (some virq)
  stable : ∀ {s}, live s → ∀ c : Call D, ¬ c.Remaps → table (h.answer c s).world = table s
  found : ∀ {s}, live s → ∀ line, (h.answer (.domain d (.find line)) s).reply = table s line
  behind : ∀ {s}, live s → ∀ virq line,
    (h.answer (.domain d (.lineOf virq)) s).reply = some line ↔ table s line = some virq

theorem Host.Binds.injective {h : Host D σ} {d : D} {live : σ → Prop}
    {table : σ → UInt32 → Option UInt32} (binds : h.Binds d live table) {s : σ} (hs : live s)
    {i j virq : UInt32} (hi : table s i = some virq) (hj : table s j = some virq) : i = j :=
  Option.some.inj (((binds.behind hs virq i).mpr hi).symm.trans ((binds.behind hs virq j).mpr hj))

/-- A block that was initialized is what was probed, with the domain attached to it. -/
theorem Block.init_eq_ok {host : Host D σ} {r : Resources} {d : D} {b : Block D σ}
    {m m' : Machine D σ} (h : (Block.init host r d).on m = (.ok b, m')) :
    ∃ probed ns m₁ m₂, (Block.probe host r).on m = (.ok probed, m.note ns) ∧
      probed.host = host ∧ b = probed.withDomain d ∧
      (probed.attach d).on (m.note ns) = (.ok (), m₁) ∧ b.install.on m₁ = (.ok (), m₂) ∧
      b.publishWakeTable.on m₂ = (.ok (), m') := by
  obtain ⟨probed, m₀, hprobe, h⟩ := on_bind_eq_ok h
  obtain ⟨_, m₁, hattach, h⟩ := on_bind_eq_ok h
  obtain ⟨_, m₂, hinstall, h⟩ := on_bind_eq_ok h
  obtain ⟨_, m₃, hpublish, h⟩ := on_bind_eq_ok h
  cases h
  obtain ⟨main, aon, rest, ns, -, -, -, hon⟩ :=
    Block.on_probe_of_accepted (Block.accepted_of_probe hprobe) host m
  have same := hprobe.symm.trans hon
  cases same
  exact ⟨_, ns, m₁, m₂, hon, rfl, rfl, hattach, hinstall, hpublish⟩

theorem Host.call_world (h : Host D σ) (c : Call D) (m : Machine D σ) :
    ((h.call c).on m).2.world = (h.answer c m.world).world := by
  apply Host.call_keeps (I := fun m' => m'.world = (h.answer c m.world).world) rfl
  intro m' s w _ _ hm
  rw [Machine.world_record, hm]

structure Machine.Bound (live : σ → Prop) (table : σ → UInt32 → Option UInt32)
    (bound : UInt32 → Option UInt32) (m : Machine D σ) : Prop where
  live : live m.world
  table : table m.world = bound

section Bound

variable {b : Block D σ} {d : D} {live : σ → Prop} {table : σ → UInt32 → Option UInt32}
  {bound : UInt32 → Option UInt32} {m m' : Machine D σ}

theorem Machine.Bound.record (hm : m.Bound live table bound) (e : Effect D) :
    (m.record e).Bound live table bound :=
  ⟨hm.live, hm.table⟩

theorem Host.Binds.call_bound {h : Host D σ} (binds : h.Binds d live table) {c : Call D}
    (hc : ¬ c.Remaps) : Keeps (Machine.Bound live table bound) (h.call c) :=
  Host.keeps_call
    (fun _ hm => ⟨binds.lasting hm.live c, (binds.stable hm.live c hc).trans hm.table⟩)
    fun _ _ _ _ _ hm => hm.record _

theorem Host.Binds.bound_lasts (binds : b.host.Binds d live table) :
    (Likeness.single (Machine.Bound live table bound) fun c => ¬ c.Remaps).Lasts b b.host :=
  Block.single_lasts (fun _ _ _ hm => hm.record _) (fun _ _ hm => hm.record _)
    fun _ hc => binds.call_bound hc

/-- Lines that were mapped one by one are all mapped in the end. -/
theorem Host.Binds.mapLines_maps (binds : b.host.Binds d live table) (ls : List UInt32)
    (hm : live m.world) (hmap : (b.mapLines d ls).on m = (.ok none, m')) :
    live m'.world ∧
      ∀ k, k ∈ ls ∨ (table m.world k).isSome = true → (table m'.world k).isSome = true := by
  induction ls generalizing m with
  | nil =>
    cases hmap
    exact ⟨hm, fun k hk => hk.resolve_left List.not_mem_nil⟩
  | cons line rest ih =>
    obtain ⟨reply, m₁, hcreate, hrest⟩ := on_bind_eq_ok hmap
    have hworld := b.host.call_world (.domain d (.create line)) m
    rw [show (b.host.call (.domain d (.create line))).on m = _ from hcreate] at hworld
    cases reply with
    | none => cases hrest
    | some virq =>
      have hreply : some virq = (b.host.answer (.domain d (.create line)) m.world).reply :=
        Host.reply_of_call hcreate
      have htable := binds.created hm hreply.symm
      rw [← hworld] at htable
      have hm₁ : live m₁.world := by
        rw [hworld]
        exact binds.lasting hm _
      obtain ⟨hlive, hmaps⟩ := ih hm₁ hrest
      refine ⟨hlive, fun k hk => hmaps k ?_⟩
      by_cases hkl : k = line
      · subst hkl
        rw [htable, Function.update_self]
        exact Or.inr rfl
      · rw [htable, Function.update_of_ne hkl]
        exact hk.imp_left fun hmem => (List.mem_cons.mp hmem).resolve_left hkl

end Bound

def Call.Spares (d : D) (virq : UInt32) (flow : Flow) (c : Call D) : Prop :=
  ¬ c.Remaps ∧ ∀ f, c = .domain d (.setFlow virq f) → f = flow

/-- A call that gives no flow leaves handlers alone. -/
theorem Call.Spares.of_ne {d : D} {virq : UInt32} {flow : Flow} {c : Call D}
    (hc : ¬ c.Remaps) (hne : ∀ e v f, c ≠ .domain e (.setFlow v f)) :
    c.Spares d virq flow :=
  ⟨hc, fun f hf => absurd hf (hne d virq f)⟩

section Handler

variable [DecidableEq D]

def Effect.flow? (d : D) (virq : UInt32) : Effect D → Option Flow
  | .call (.domain e (.setFlow v flow)) _ => if e = d ∧ v = virq then some flow else none
  | _ => none

namespace Machine

def flowOf (m : Machine D σ) (d : D) (virq : UInt32) : Option Flow :=
  (m.trace.toList.filterMap (Effect.flow? d virq)).getLast?

theorem flowOf_record (m : Machine D σ) (e : Effect D) (d : D) (virq : UInt32) :
    (m.record e).flowOf d virq = (e.flow? d virq).or (m.flowOf d virq) := by
  rw [flowOf, filterMap_record, List.getLast?_append]
  cases e.flow? d virq <;> rfl

structure Handles (d : D) (live : σ → Prop) (table : σ → UInt32 → Option UInt32)
    (bound : UInt32 → Option UInt32) (virq : UInt32) (flow : Flow) (m : Machine D σ) : Prop where
  bound : m.Bound live table bound
  flow : m.flowOf d virq = some flow

structure Ready (d : D) (live : σ → Prop) (table : σ → UInt32 → Option UInt32)
    (m : Machine D σ) : Prop where
  live : live m.world
  mapped : ∀ line ∈ lines, (table m.world line).isSome = true
  simple : ∀ line ∈ lines, ∀ virq, table m.world line = some virq →
    m.flowOf d virq = some .simple

end Machine

variable {b : Block D σ} {d : D} {live : σ → Prop} {table : σ → UInt32 → Option UInt32}
  {bound : UInt32 → Option UInt32} {virq : UInt32} {flow : Flow} {m m' : Machine D σ}

theorem Call.Spares.flow_reply {c : Call D} (hc : c.Spares d virq flow) (v : c.Reply) :
    (Effect.call c v).flow? d virq = none ∨ (Effect.call c v).flow? d virq = some flow := by
  unfold Effect.flow?
  split
  · next e v' f r heq =>
    obtain rfl : c = .domain e (.setFlow v' f) := by
      cases heq
      rfl
    by_cases he : e = d ∧ v' = virq
    · obtain ⟨rfl, rfl⟩ := he
      rw [if_pos ⟨rfl, rfl⟩, hc.2 f rfl]
      exact Or.inr rfl
    · exact Or.inl (if_neg he)
  · exact Or.inl rfl

namespace Machine.Handles

theorem record (hm : m.Handles d live table bound virq flow) {e : Effect D}
    (he : e.flow? d virq = none) :
    (m.record e).Handles d live table bound virq flow :=
  ⟨hm.bound.record e, by rw [flowOf_record, he, Option.none_or, hm.flow]⟩

end Machine.Handles

namespace Host.Binds

theorem call_handles {h : Host D σ} (binds : h.Binds d live table) {c : Call D}
    (hc : c.Spares d virq flow) :
    Keeps (Machine.Handles d live table bound virq flow) (h.call c) := by
  apply Host.keeps_call
  · intro m hm
    refine ⟨⟨binds.lasting hm.bound.live c,
      (binds.stable hm.bound.live c hc.1).trans hm.bound.table⟩, ?_⟩
    have hflow := Machine.flowOf_record { m with world := (h.answer c m.world).world }
      (.call c (h.answer c m.world).reply) d virq
    rcases hc.flow_reply (h.answer c m.world).reply with hnone | hsome
    · rw [hnone, Option.none_or] at hflow
      exact hflow.trans hm.flow
    · rw [hsome, Option.some_or] at hflow
      exact hflow
  · exact fun _ _ _ _ _ hm => hm.record rfl

/-- The call that gives a flow makes it the handler. -/
theorem setFlow_handles {h : Host D σ} (binds : h.Binds d live table)
    (hm : m.Bound live table bound) (virq : UInt32) (flow : Flow) :
    ((h.call (.domain d (.setFlow virq flow))).on m).2.Handles d live table bound virq flow := by
  have hc : ¬ (Call.domain d (.setFlow virq flow)).Remaps := id
  apply Host.call_keeps
  · refine ⟨⟨binds.lasting hm.live _, (binds.stable hm.live _ hc).trans hm.table⟩, ?_⟩
    refine (Machine.flowOf_record { m with world := _ } _ d virq).trans ?_
    rw [Effect.flow?, if_pos ⟨rfl, rfl⟩, Option.some_or]
  · exact fun _ _ _ _ _ hm => hm.record rfl

theorem handles_lasts (binds : b.host.Binds d live table) :
    (Likeness.single (Machine.Handles d live table bound virq flow)
      (Call.Spares d virq flow)).Lasts b b.host :=
  Block.single_lasts (fun _ _ _ hm => hm.record rfl) (fun _ _ hm => hm.record rfl)
    fun _ hc => binds.call_handles hc

theorem giveFlow_handles (binds : b.host.Binds d live table) {line : UInt32} {owned : Bool}
    {count : Nat} (hm : m.Bound live table bound) (hline : bound line = some virq)
    (hon : (b.giveFlow d line owned).on m = (.ok count, m')) :
    m'.Handles d live table bound virq .simple := by
  obtain ⟨found, m₁, hfind, hrest⟩ := on_bind_eq_ok hon
  have hfound : found = (b.host.answer (.domain d (.find line)) m.world).reply :=
    Host.reply_of_call hfind
  rw [binds.found hm.live, hm.table, hline] at hfound
  subst hfound
  have hm₁ := (binds.call_bound (c := .domain d (.find line)) id).of_on hm hfind
  obtain ⟨_, m₂, hset, hpure⟩ := on_bind_eq_ok hrest
  have hm₂ := binds.setFlow_handles hm₁ virq .simple
  have hcall : (b.host.call (.domain d (.setFlow virq .simple))).on m₁ = (.ok _, m₂) := hset
  rw [hcall] at hm₂
  cases hpure
  exact hm₂

theorem maskLine_handles (binds : b.host.Binds d live table) {line : UInt32} {count : Nat}
    (hm : m.Bound live table bound) (hline : bound line = some virq)
    (hon : (b.maskLine d line).on m = (.ok count, m')) :
    m'.Handles d live table bound virq .simple := by
  rw [b.on_maskLine] at hon
  by_cases ho : b.owns m.memory line = true
  · rw [if_pos ho] at hon
    obtain ⟨_, m₁, hmask, hgive⟩ := on_bind_eq_ok hon
    have keep : Keeps (Machine.Bound live table bound)
        (b.setConfig line PinConfig.interrupt false) :=
      (binds.bound_lasts.setConfig trivial _ _).keeps
    exact binds.giveFlow_handles (keep.of_on hm hmask) hline hgive
  · rw [if_neg ho] at hon
    exact binds.giveFlow_handles hm hline hon

theorem maskLines_handles (binds : b.host.Binds d live table) {line : UInt32}
    (hline : bound line = some virq) (ls : List UInt32) (hmem : line ∈ ls) {count : Nat}
    (hm : m.Bound live table bound) (hon : (b.maskLines d ls).on m = (.ok count, m')) :
    m'.Handles d live table bound virq .simple := by
  -- Once the turn of `line` has come, only simple flows are given, so its handler stays.
  induction ls generalizing m count with
  | nil => cases hmem
  | cons k rest ih =>
    obtain ⟨_, m₁, hmask, hon₁⟩ := on_bind_eq_ok hon
    obtain ⟨_, m₂, hrest, hpure⟩ := on_bind_eq_ok hon₁
    cases hpure
    by_cases hk : line = k
    · subst hk
      have hm₁ := binds.maskLine_handles hm hline hmask
      have simple : ∀ v, (Call.domain d (.setFlow v .simple)).Spares d virq .simple :=
        fun v => ⟨id, by rintro f ⟨⟩; rfl⟩
      have keep : Keeps (Machine.Handles d live table bound virq .simple) (b.maskLines d rest) :=
        (binds.handles_lasts.maskLines (fun _ => .of_ne id nofun) simple
          (fun _ => trivial) rest).keeps
      exact keep.of_on hm₁ hrest
    · have keep : Keeps (Machine.Bound live table bound) (b.maskLine d k) :=
        (binds.bound_lasts.maskLine (fun _ => id) (fun _ => id) trivial).keeps
      exact ih ((List.mem_cons.mp hmem).resolve_left hk) (keep.of_on hm hmask) hrest

theorem attach_ready (binds : b.host.Binds d live table) (hm : live m.world)
    (hon : (b.attach d).on m = (.ok (), m')) : m'.Ready d live table := by
  obtain ⟨refused, m₁, hmap, hon⟩ := on_bind_eq_ok hon
  cases refused with
  | some line =>
    obtain ⟨_, m₂, -, hon⟩ := on_bind_eq_ok hon
    obtain ⟨_, m₃, -, hon⟩ := on_bind_eq_ok hon
    cases hon
  | none =>
    obtain ⟨masked, m₂, hmasked, hon⟩ := on_bind_eq_ok hon
    cases masked with
    | error r =>
      obtain ⟨_, m₃, -, hon⟩ := on_bind_eq_ok hon
      obtain ⟨_, m₄, -, hon⟩ := on_bind_eq_ok hon
      cases hon
    | ok _ =>
      cases hon
      obtain ⟨count, m₃, hmask, hnotify⟩ := on_bind_eq_ok (on_attempt_eq_ok hmasked)
      cases hnotify
      obtain ⟨hlive, hmaps⟩ := binds.mapLines_maps lines hm hmap
      have hm₁ : m₁.Bound live table (table m₁.world) := ⟨hlive, rfl⟩
      have keep : Keeps (Machine.Bound live table (table m₁.world)) (b.maskLines d lines) :=
        (binds.bound_lasts.maskLines (fun _ => id) (fun _ => id) (fun _ => trivial) lines).keeps
      have hm₃ := (keep.of_on hm₁ hmask).record (.notice (.masked count))
      constructor
      · exact hm₃.live
      · intro line hline
        rw [hm₃.table]
        exact hmaps line (Or.inl hline)
      · intro line hline virq hv
        rw [hm₃.table] at hv
        exact ((binds.maskLines_handles hv lines hline hm₁ hmask).record rfl).flow

theorem ready_kept {α : Type} {x : Drive D σ α}
    (hbound : ∀ bound, Keeps (Machine.Bound live table bound) x)
    (hhandles : ∀ bound virq, Keeps (Machine.Handles d live table bound virq .simple) x) :
    Keeps (Machine.Ready d live table) x := by
  intro m hm
  have hbound := hbound _ m ⟨hm.live, rfl⟩
  constructor
  · exact hbound.live
  · rw [hbound.table]
    exact hm.mapped
  · rw [hbound.table]
    exact fun line hline virq hv =>
      (hhandles _ virq m ⟨⟨hm.live, rfl⟩, hm.simple line hline virq hv⟩).flow

theorem install_ready (binds : b.host.Binds d live table) :
    Keeps (Machine.Ready d live table) b.install :=
  ready_kept (fun _ => (binds.bound_lasts.install fun _ _ _ => id).keeps)
    fun _ _ => (binds.handles_lasts.install fun _ _ _ => .of_ne id nofun).keeps

theorem publishWakeTable_ready (binds : b.host.Binds d live table) :
    Keeps (Machine.Ready d live table) b.publishWakeTable :=
  ready_kept (fun _ => binds.call_bound id) fun _ _ => binds.call_handles (.of_ne id nofun)

/-- A block that was initialized with the domain has every line mapped and every handler simple. -/
theorem init_ready {host : Host D σ} (binds : host.Binds d live table) {r : Resources}
    (hm : live m.world) (hinit : (Block.init host r d).on m = (.ok b, m')) :
    b.host = host ∧ b.domain = some d ∧ (∀ kind, bankExtent kind ≤ (b.bank kind).size) ∧
      m'.Ready d live table := by
  obtain ⟨probed, ns, m₁, m₂, hprobe, rfl, rfl, hattach, hinstall, hpublish⟩ :=
    Block.init_eq_ok hinit
  have hnoted : live (m.note ns).world := by rwa [m.world_note]
  have ready := attach_ready (b := probed) binds hnoted hattach
  have installed := (install_ready (b := probed.withDomain d) binds).of_on ready hinstall
  refine ⟨rfl, rfl, fun kind => ?_,
    (publishWakeTable_ready (b := probed.withDomain d) binds).of_on installed hpublish⟩
  rw [Block.bank_withDomain]
  exact Block.fits_of_probe hprobe kind

end Host.Binds
end Handler

namespace Simulation

variable (pins : PinFailures) (wakes : WakeFailures) {d : Nat} {spec : DomainSpec} {w : World}

/-- What is not asked of a domain leaves it as it was. -/
theorem host_domain_of_ne {c : Call Nat} (hc : ∀ i, c ≠ .domain d i) :
    ((host (fun _ => none) pins wakes).answer c w).world.domains[d]? = w.domains[d]? := by
  cases c with
  | pin c => rfl
  | wake c => rfl
  | domain e i =>
    have hne : e ≠ d := by
      rintro rfl
      exact hc i rfl
    simp only [host]
    split
    · rfl
    · exact Array.getElem?_setIfInBounds_ne hne

theorem Domain.find_answer {domain : Domain} {i : DomainCall}
    (hi : ¬ (Call.domain d i).Remaps) :
    (domain.answer (fun _ => none) i).world.find = domain.find := by
  cases i with
  | create | dispose => exact absurd trivial hi
  | find | lineOf | setFlow | setChained | handle | enter | exit =>
    funext line
    exact find_congr rfl rfl

/-- A domain that hides no line binds lines, whatever else the host is asked. -/
theorem host_binds (d : Nat) (holes : spec.holes = []) :
    (host (fun _ => none) pins wakes).Binds d (·.Holds d spec) (·.find d) where
  lasting := by
    rintro w ⟨domain, hd, hspec, hsize⟩ c
    by_cases hc : ∃ i, c = .domain d i
    · obtain ⟨i, rfl⟩ := hc
      have ha := host_answer (fun _ => none) pins wakes hd i
      exact ⟨_, ha.2, (domain.answer_spec _ i).trans hspec, (domain.answer_size _ i).trans hsize⟩
    · exact ⟨domain, (host_domain_of_ne pins wakes (not_exists.mp hc)).trans hd, hspec, hsize⟩
  created := by
    rintro w line virq ⟨domain, hd, rfl, hsize⟩ hreply
    have ha := host_answer (fun _ => none) pins wakes hd (.create line)
    rw [ha.1] at hreply
    rw [World.find_eq ha.2, World.find_eq hd]
    cases hr : domain.spec.rejects line with
    | true =>
      simp only [Domain.answer, domain.create_of_rejects hr] at hreply
      cases hreply
    | false =>
      obtain ⟨v, hv, hc⟩ := domain.create_of_not_rejects hr
      simp only [Domain.answer, hc] at hreply ⊢
      cases hreply
      have hline : line.toNat < domain.mapped.size := by
        simp only [DomainSpec.rejects, Bool.or_eq_false_iff, decide_eq_false_iff_not] at hr
        omega
      exact Domain.find_create holes hv hline
  stable := by
    rintro w ⟨domain, hd, -, -⟩ c hc
    by_cases hi : ∃ i, c = .domain d i
    · obtain ⟨i, rfl⟩ := hi
      rw [World.find_eq (host_answer (fun _ => none) pins wakes hd i).2, World.find_eq hd]
      exact Domain.find_answer hc
    · have hsame := host_domain_of_ne (w := w) pins wakes (not_exists.mp hi)
      rw [World.find_eq (hsame.trans hd), World.find_eq hd]
  found := by
    rintro w ⟨domain, hd, -, -⟩ line
    rw [(host_answer (fun _ => none) pins wakes hd (.find line)).1, World.find_eq hd]
    rfl
  behind := by
    rintro w ⟨domain, hd, rfl, -⟩ virq line
    rw [(host_answer (fun _ => none) pins wakes hd (.lineOf virq)).1, World.find_eq hd,
      Domain.find_eq_some holes]
    exact Domain.lineOf_eq_some

end Simulation
end Gpio
