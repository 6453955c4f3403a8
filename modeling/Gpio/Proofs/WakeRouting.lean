import Gpio.Proofs.Atomicity
import Gpio.Proofs.Verdicts

/-!
# The wake controller hears of the right source

No line is listed twice, so looking a line up inverts the table. Of all
operations only five can tell the wake controller something: arming and
setting a type, by line or by virtual interrupt, and publishing the table.
What they tell names the source of the line they were asked about, over any
history.
-/

set_option autoImplicit false

namespace Gpio

open Drive

variable {ι D σ α β : Type}

namespace Wake

theorem sources_distinct : sources.Pairwise fun x y => x = none ∨ x ≠ y := by decide +kernel

theorem sources_valid {line : UInt32} (h : some line ∈ sources) : IsLine line := by
  have valid : sources.all (Option.all fun line => (resolve line).any (·.valid)) = true := by
    decide +kernel
  exact (Option.any_eq_true _ _).mp (List.all_eq_true.mp valid _ h)

/-- The lookup inverts the table. -/
theorem indexOf?_eq_some {line : UInt32} {k : Nat} :
    indexOf? line = some k ↔ sources[k]? = some (some line) := by
  rw [indexOf?, List.findIdx?_eq_some_iff_getElem, List.getElem?_eq_some_iff]
  constructor
  · rintro ⟨hk, hline, -⟩
    exact ⟨hk, beq_iff_eq.mp hline⟩
  · rintro ⟨hk, hline⟩
    refine ⟨hk, beq_iff_eq.mpr hline, fun j hj hsame => ?_⟩
    have hjk : sources[j] = sources[k] := (beq_iff_eq.mp hsame).trans hline.symm
    rcases List.pairwise_iff_getElem.mp sources_distinct j k (by omega) hk hj with hnone | hne
    · rw [hjk, hline] at hnone
      cases hnone
    · exact hne hjk

theorem indexOf?_eq_none {line : UInt32} : indexOf? line = none ↔ some line ∉ sources := by
  rw [indexOf?, List.findIdx?_eq_none_iff]
  constructor
  · intro h hin
    simpa using h _ hin
  · intro h x hx
    refine beq_eq_false_iff_ne.mpr fun hline => h (hline ▸ hx)

theorem on_find (line : UInt32) (m : Machine D σ) :
    ((Wake.find line).on m).1 = .ok (indexOf? line) := by
  unfold Wake.find
  cases indexOf? line <;> rfl

def typeCall? (line : UInt32) (t : Trigger) : Option WakeCall :=
  (indexOf? line).map (.setType · t)

def armCall? (line : UInt32) (enable : Bool) : Option WakeCall :=
  (indexOf? line).map (.arm · enable)

end Wake

def Call.wake? : Call D → Option WakeCall
  | .wake c => some c
  | .pin _ | .domain .. => none

namespace Machine

def wakeCalls (m : Machine D σ) : List WakeCall := m.calls.filterMap Call.wake?

theorem wakeCalls_call (h : Host D σ) (c : Call D) (m : Machine D σ) :
    ((h.call c).on m).2.wakeCalls = m.wakeCalls ++ c.wake?.toList := by
  rw [wakeCalls, calls_call, List.filterMap_append, wakeCalls]
  cases hc : c.wake? <;> simp [hc]

theorem wakeCalls_record {e : Effect D} (he : e.call? = none) (m : Machine D σ) :
    (m.record e).wakeCalls = m.wakeCalls := by
  rw [wakeCalls, calls_record, he, Option.toList, List.append_nil, wakeCalls]

end Machine

namespace Drive

def Silent (x : Drive D σ α) : Prop := ∀ m, (x.on m).2.wakeCalls = m.wakeCalls

structure Tells (x : Drive D σ α) (m : Machine D σ) (ws : List WakeCall) : Prop where
  ok : ∀ v m', x.on m = (.ok v, m') → m'.wakeCalls = m.wakeCalls ++ ws
  refused : ∀ r m', x.on m = (.error (.refused r), m') → m'.wakeCalls = m.wakeCalls
  overflow : ∀ o m', x.on m = (.error (.overflow o), m') →
    m'.wakeCalls = m.wakeCalls ∨ m'.wakeCalls = m.wakeCalls ++ ws

variable {x : Drive D σ α} {f : α → Drive D σ β} {m : Machine D σ} {ws : List WakeCall}

theorem Silent.at_end (hx : Silent x) {o : Except Failure α} {m' : Machine D σ}
    (hon : x.on m = (o, m')) : m'.wakeCalls = m.wakeCalls := by
  have hm := hx m
  rwa [hon] at hm

theorem silent_of_keeps (hx : ∀ ws, Keeps (fun n : Machine D σ => n.wakeCalls = ws) x) :
    Silent x := fun m => hx _ m rfl

theorem Silent.tells (hx : Silent x) (m : Machine D σ) : Tells x m [] where
  ok _ _ hon := (hx.at_end hon).trans (List.append_nil _).symm
  refused _ _ := hx.at_end
  overflow _ _ hon := Or.inl (hx.at_end hon)

theorem Silent.bind (hx : Silent x) (hf : ∀ v m', x.on m = (.ok v, m') → Tells (f v) m' ws) :
    Tells (x >>= f) m ws := by
  constructor
  · intro v m' hon
    obtain ⟨a, m₁, hx', hf'⟩ := on_bind_eq_ok hon
    rw [(hf a m₁ hx').ok v m' hf', hx.at_end hx']
  · intro r m' hon
    rcases on_bind_eq_error hon with hx' | ⟨a, m₁, hx', hf'⟩
    · exact hx.at_end hx'
    · rw [(hf a m₁ hx').refused r m' hf', hx.at_end hx']
  · intro o m' hon
    rcases on_bind_eq_error hon with hx' | ⟨a, m₁, hx', hf'⟩
    · exact Or.inl (hx.at_end hx')
    · rw [← hx.at_end hx']
      exact (hf a m₁ hx').overflow o m' hf'

/-- What comes after is not refused. -/
theorem Tells.bind (hx : Tells x m ws) (silent : ∀ v, Silent (f v))
    (unrefused : ∀ v, Unrefused (f v)) : Tells (x >>= f) m ws := by
  constructor
  · intro v m' hon
    obtain ⟨a, m₁, hx', hf'⟩ := on_bind_eq_ok hon
    rw [(silent a).at_end hf', hx.ok a m₁ hx']
  · intro r m' hon
    rcases on_bind_eq_error hon with hx' | ⟨a, m₁, hx', hf'⟩
    · exact hx.refused r m' hx'
    · exact absurd hf' (unrefused a).not_refused
  · intro o m' hon
    rcases on_bind_eq_error hon with hx' | ⟨a, m₁, hx', hf'⟩
    · exact hx.overflow o m' hx'
    · rw [(silent a).at_end hf', hx.ok a m₁ hx']
      exact Or.inr rfl

theorem silent_pure (v : α) : Silent (pure v : Drive D σ α) := fun _ => rfl

theorem silent_notify (n : Notice) : Silent (notify n : Drive D σ Unit) :=
  fun m => m.wakeCalls_record rfl

theorem tells_call (h : Host D σ) (c : Call D) (m : Machine D σ) :
    Tells (h.call c) m c.wake?.toList := by
  have told := m.wakeCalls_call h c
  constructor
  · intro v m' hon
    rwa [hon] at told
  · intro r m' hon
    exact absurd (congrArg Prod.fst hon) (h.call_not_refused c m r)
  · intro o m' hon
    rw [hon] at told
    exact Or.inr told

theorem silent_call (h : Host D σ) {c : Call D} (hc : c.wake? = none) : Silent (h.call c) := by
  intro m
  rw [m.wakeCalls_call, hc]
  exact List.append_nil _

theorem silent_bind (hx : Silent x) (hf : ∀ v, Silent (f v)) : Silent (x >>= f) :=
  fun m => bind_keeps (I := fun n => n.wakeCalls = m.wakeCalls) (hx m)
    fun v n hn => (hf v n).trans hn

theorem silent_ofChecked (c : Checked α) : Silent (ofChecked c : Drive D σ α) := by
  intro m
  rw [on_ofChecked]

end Drive

namespace Block

variable (b : Block D σ) {line : UInt32} {m : Machine D σ}

theorem silent_lasts (ws : List WakeCall) :
    (Likeness.single (fun n : Machine D σ => n.wakeCalls = ws) fun c => c.wake? = none).Lasts
      b b.host := by
  apply single_lasts
  · exact fun n _ _ hn => (n.wakeCalls_record rfl).trans hn
  · exact fun n _ hn => (n.wakeCalls_record rfl).trans hn
  · exact fun c hc n hn => (silent_call b.host hc n).trans hn

theorem own_silent (line : UInt32) : Silent (b.own line) := by
  intro m
  by_cases ho : b.owns m.memory line = true
  · rw [b.on_own_of_owns ho]
  · rw [b.on_own_of_not_owns (Bool.not_eq_true _ ▸ ho)]

theorem modifyRegister_silent (line : UInt32) (r : PinRegister) (f : Word → Word) :
    Silent (b.modifyRegister line r f) :=
  silent_of_keeps fun ws => ((b.silent_lasts ws).modifyRegister trivial r f).keeps

theorem lineOfVirq_silent (virq : UInt32) : Silent (b.lineOfVirq virq) :=
  silent_of_keeps fun ws => ((b.silent_lasts ws).lineOfVirq fun _ => rfl).keeps

theorem attach_silent (d : D) : Silent (b.attach d) :=
  silent_of_keeps fun ws => ((b.silent_lasts ws).attach (fun _ => rfl) fun _ => trivial).keeps

theorem install_silent : Silent b.install :=
  silent_of_keeps fun ws => ((b.silent_lasts ws).install fun _ _ _ => rfl).keeps

/-- A type that is set is told to the source of the line, if it has one. -/
theorem setType_tells (line : UInt32) (t : Trigger) (m : Machine D σ) :
    Tells (b.setType line t) m (Wake.typeCall? line t).toList := by
  apply (b.own_silent line).bind
  intro _ m₁ _
  apply (b.modifyRegister_silent line _ _).bind
  intro _ m₂ _
  apply (b.modifyRegister_silent line _ _).bind
  intro _ m₃ _
  unfold Wake.typeCall?
  cases hwake : Wake.indexOf? line with
  | none =>
    rw [Wake.find_bind_none hwake]
    exact (silent_pure _).tells m₃
  | some k =>
    rw [Wake.find_bind_some hwake]
    apply (silent_notify _).bind
    intro _ m₄ _
    apply (tells_call b.host (.wake (.setType k t)) m₄).bind
    · intro reply
      cases reply with
      | ok _ => exact silent_pure _
      | error e => exact silent_bind (silent_notify _) fun _ => silent_pure _
    · intro reply
      cases reply with
      | ok _ => exact unrefused_pure _
      | error e => exact unrefused_bind (unrefused_notify _) fun _ => unrefused_pure _

/-- Arming is told whatever comes of it. -/
theorem setWake_routed {k : Nat} (h : Wake.indexOf? line = some k) (enable : Bool)
    (m : Machine D σ) :
    ((b.setWake line enable).on m).2.wakeCalls = m.wakeCalls ++ [.arm k enable] := by
  unfold setWake
  rw [Wake.find_bind_some h, on_bind_ok (on_notify _ m)]
  have told := (m.record (.notice (.wakeFound k line))).wakeCalls_call b.host
    (.wake (.arm k enable))
  rw [m.wakeCalls_record rfl] at told
  let asked : WakeCall := .arm k enable
  apply bind_keeps (I := fun n : Machine D σ => n.wakeCalls = m.wakeCalls ++ [asked]) told
  intro reply n hn
  cases reply with
  | ok _ => exact hn
  | error e => exact (n.wakeCalls_record rfl).trans hn

theorem setWake_refused {k : Nat} (h : Wake.indexOf? line = some k) {enable : Bool} {r : Refusal}
    {m' : Machine D σ} (hon : (b.setWake line enable).on m = (.error (.refused r), m')) :
    ∃ e, r = .collaborator e := by
  unfold setWake at hon
  rw [Wake.find_bind_some h, on_bind_ok (on_notify _ m)] at hon
  rcases on_bind_eq_error hon with hcall | ⟨reply, m₁, -, hf⟩
  · exact absurd hcall (unrefused_call b.host (.wake (.arm k enable))).not_refused
  · cases reply with
    | ok _ => cases hf
    | error e =>
      cases hf
      exact ⟨e, rfl⟩

theorem on_setWake_unrouted (h : Wake.indexOf? line = none) (enable : Bool) (m : Machine D σ) :
    (b.setWake line enable).on m = (.error (.refused .noWakeSource), m) := by
  unfold setWake
  rw [Wake.find_bind_none h]
  rfl

/-- Arming stores no register. -/
theorem setWake_undisturbed (line : UInt32) (enable : Bool) (m : Machine D σ) (e : SystemError) :
    b.host.Undisturbed (.collaborator e) m ((b.setWake line enable).on m).2 := by
  unfold setWake
  cases hwake : Wake.indexOf? line with
  | none =>
    rw [Wake.find_bind_none hwake]
    exact .refl m
  | some k =>
    rw [Wake.find_bind_some hwake, on_bind_ok (on_notify _ m)]
    have asked := (Host.undisturbed_notice (.wakeFound k line) m).trans
      (b.host.undisturbed_call (c := .wake (.arm k enable)) (fun _ => ⟨e, rfl⟩) _)
    apply bind_keeps (I := b.host.Undisturbed (.collaborator e) m) asked
    intro reply n hn
    cases reply with
    | ok _ => exact hn
    | error _ => exact hn.trans (Host.undisturbed_notice _ n)

def wakeCall? (b : Block D σ) (s : σ) : Operation D → Option WakeCall
  | .setType line t => Wake.typeCall? line t
  | .setWake line enable => Wake.armCall? line enable
  | .irq (.setType virq raw) => do
    let line ← b.lineBehind s virq
    let t ← (Trigger.ofSense raw).toOption
    Wake.typeCall? line t
  | .irq (.setWake virq enable) => do
    let line ← b.lineBehind s virq
    Wake.armCall? line enable
  | .publishWakeTable => some (.publish 0 Wake.sources)
  | _ => none

theorem setTypeBehind_tells (virq : UInt32) (raw : Word) (m : Machine D σ) :
    Tells (b.setTypeBehind virq raw) m
      (b.wakeCall? m.world (.irq (.setType virq raw))).toList := by
  apply (b.lineOfVirq_silent virq).bind
  intro line m₁ hline
  apply (silent_ofChecked _).bind
  intro t m₂ ht
  rw [on_ofChecked] at ht
  have sense : Trigger.ofSense raw = .ok t := congrArg Prod.fst ht
  have call : b.wakeCall? m.world (.irq (.setType virq raw)) = Wake.typeCall? line t := by
    simp [wakeCall?, b.lineOfVirq_ok hline, sense, Except.toOption]
  rw [call]
  exact b.setType_tells line t m₂

theorem switchFlow_silent (virq : UInt32) (flow : Flow) : Silent (b.switchFlow virq flow) := by
  unfold switchFlow
  cases b.domain with
  | none => exact silent_pure _
  | some d => exact silent_call b.host rfl

theorem switchFlow_unrefused (virq : UInt32) (flow : Flow) :
    Unrefused (b.switchFlow virq flow) := by
  unfold switchFlow
  cases b.domain with
  | none => exact unrefused_pure _
  | some d => exact unrefused_call b.host (.domain d (.setFlow virq flow))

theorem setTypeOfVirq_tells (virq : UInt32) (raw : Word) (m : Machine D σ) :
    Tells (b.setTypeOfVirq virq raw) m
      (b.wakeCall? m.world (.irq (.setType virq raw))).toList := by
  rw [setTypeOfVirq_eq]
  exact (b.setTypeBehind_tells virq raw m).bind (b.switchFlow_silent virq)
    (b.switchFlow_unrefused virq)

end Block

def Operation.Wakes : Operation D → Prop
  | setType .. | setWake .. | irq (.setType ..) | irq (.setWake ..) | publishWakeTable => True
  | _ => False

theorem Operation.wake?_of_makes {op : Operation D} (hop : ¬ op.Wakes) {c : Call D}
    (h : op.Makes c) : c.wake? = none := by
  cases op with
  | request | free | directionInput | directionOutput =>
    cases h
    rfl
  | toIrq =>
    obtain ⟨d, rfl⟩ := h
    rfl
  | setType | setWake | publishWakeTable => exact absurd trivial hop
  | consumer i =>
    cases i with
    | request | free | directionInput | directionOutput =>
      cases h
      rfl
    | toIrq =>
      obtain ⟨d, rfl⟩ := h
      rfl
    | get | set | setDebounce => exact h.elim
  | irq i =>
    rcases h with ⟨d, rfl⟩ | h
    · rfl
    · cases i with
      | setType | setWake => exact absurd trivial hop
      | ack | mask | unmask | disable | shutdown => exact h.elim
  | attach =>
    obtain ⟨i, rfl⟩ := h
    rfl
  | install =>
    obtain ⟨d, irq, id, rfl⟩ := h
    rfl
  | chained =>
    obtain ⟨d, i, -, rfl⟩ := h
    rfl
  | _ => exact h.elim

/-- What the wake controller was told by a computation that ended so, of the call it may be told. A
controller that says no was asked. -/
def WakeCall.Told (call? : Option WakeCall) (out : Except Failure α) (ws : List WakeCall) : Prop :=
  match out with
  | .ok _ => ws = call?.toList
  | .error (.refused r) => ws = [] ∨ ws = call?.toList ∧ ∃ e, r = .collaborator e
  | .error (.overflow _) => ws = [] ∨ ws = call?.toList

def Drive.Hears (x : Drive D σ α) (m : Machine D σ) (call? : Option WakeCall) : Prop :=
  ∃ ws, (x.on m).2.wakeCalls = m.wakeCalls ++ ws ∧ WakeCall.Told call? (x.on m).1 ws

namespace Drive

variable {x : Drive D σ α} {f : α → Drive D σ β} {m : Machine D σ} {call? : Option WakeCall}

theorem Tells.hears (hx : Tells x m call?.toList) : Hears x m call? := by
  unfold Hears
  rcases hon : x.on m with ⟨(r | o) | v, m'⟩
  · exact ⟨[], (hx.refused r m' hon).trans (List.append_nil _).symm, Or.inl rfl⟩
  · rcases hx.overflow o m' hon with htold | htold
    · exact ⟨[], htold.trans (List.append_nil _).symm, Or.inl rfl⟩
    · exact ⟨_, htold, Or.inr rfl⟩
  · exact ⟨_, hx.ok v m' hon, rfl⟩

theorem Silent.hears (hx : Silent x)
    (hf : ∀ v m', x.on m = (.ok v, m') → Hears (f v) m' call?) : Hears (x >>= f) m call? := by
  unfold Hears
  rcases hon : x.on m with ⟨e | v, m'⟩
  · rw [on_bind_error hon]
    refine ⟨[], (hx.at_end hon).trans (List.append_nil _).symm, ?_⟩
    cases e with
    | refused r => exact Or.inl rfl
    | overflow o => exact Or.inl rfl
  · obtain ⟨ws, hws, told⟩ := hf v m' hon
    rw [on_bind_ok hon]
    exact ⟨ws, hx.at_end hon ▸ hws, told⟩

theorem Hears.done {y : Drive D σ Unit} (hy : Hears y m call?) : Hears (done y) m call? := by
  obtain ⟨ws, hws, told⟩ := hy
  unfold Hears Drive.done
  rcases hon : y.on m with ⟨e | v, m'⟩ <;> rw [hon] at hws told
  · rw [on_bind_error hon]
    refine ⟨ws, hws, ?_⟩
    cases e with
    | refused r => exact told
    | overflow o => exact told
  · rw [on_bind_ok hon]
    exact ⟨ws, hws, told⟩

end Drive

namespace Block

variable (b : Block D σ)

theorem perform_silent {op : Operation D} (hop : ¬ op.Wakes) : Silent (b.perform op) := by
  apply silent_of_keeps
  intro ws
  apply Matches.keeps
  apply (b.silent_lasts ws).perform_matches op (fun _ _ => trivial) (fun _ _ => trivial)
  · exact fun c => Operation.wake?_of_makes hop
  · exact fun _ _ _ hm _ _ => by rw [hm.1]

theorem wakeCall?_of_not_wakes {op : Operation D} (hop : ¬ op.Wakes) (s : σ) :
    b.wakeCall? s op = none := by
  cases op with
  | setType | setWake | publishWakeTable => exact absurd trivial hop
  | irq i =>
    cases i with
    | setType | setWake => exact absurd trivial hop
    | _ => rfl
  | _ => rfl

theorem setWake_hears (line : UInt32) (enable : Bool) (m : Machine D σ) :
    Hears (b.setWake line enable) m (Wake.armCall? line enable) := by
  unfold Hears Wake.armCall?
  cases hwake : Wake.indexOf? line with
  | none =>
    rw [b.on_setWake_unrouted hwake]
    exact ⟨[], (List.append_nil _).symm, Or.inl rfl⟩
  | some k =>
    refine ⟨_, b.setWake_routed hwake enable m, ?_⟩
    rcases hon : (b.setWake line enable).on m with ⟨(r | o) | v, m'⟩
    · exact Or.inr ⟨rfl, b.setWake_refused hwake hon⟩
    · exact Or.inr rfl
    · rfl

/-- Setting a type by virtual interrupt is told as if the line had been named. -/
theorem perform_hears (op : Operation D) (m : Machine D σ) :
    Hears (b.perform op) m (b.wakeCall? m.world op) := by
  by_cases hop : op.Wakes
  · cases op with
    | setType line t =>
      exact ((b.setType_tells line t m).bind (fun _ => silent_pure _)
        fun _ => unrefused_pure _).hears
    | setWake line enable => exact (b.setWake_hears line enable m).done
    | publishWakeTable =>
      exact (tells_call b.host (.wake (.publish 0 Wake.sources)) m).hears.done
    | irq i =>
      cases i with
      | setType virq raw => exact (b.setTypeOfVirq_tells virq raw m).hears.done
      | setWake virq enable =>
        apply Hears.done
        apply (b.lineOfVirq_silent virq).hears
        intro line m₁ hline
        have call : b.wakeCall? m.world (.irq (.setWake virq enable)) =
            Wake.armCall? line enable := by
          simp [wakeCall?, b.lineOfVirq_ok hline]
        rw [call]
        exact b.setWake_hears line enable m₁
      | _ => exact hop.elim
    | _ => exact hop.elim
  · rw [b.wakeCall?_of_not_wakes hop]
    exact ((b.perform_silent hop).tells m).hears

theorem probe_silent (host : Host D σ) (r : Resources) : Silent (probe host r) := by
  intro m
  have noted : ∀ ns, (m.note ns).wakeCalls = m.wakeCalls := by
    intro ns
    induction ns generalizing m with
    | nil => rfl
    | cons n ns ih => exact (ih (m.record (.notice n))).trans (m.wakeCalls_record rfl)
  by_cases h : r.Accepted
  · obtain ⟨_, _, _, ns, -, -, -, hon⟩ := on_probe_of_accepted h host m
    rw [hon]
    exact noted ns
  · obtain ⟨n, hon⟩ := on_probe_of_rejected h host m
    rw [hon]
    exact noted [n]

/-- Starting up publishes the table, last of all. -/
theorem init_tells (host : Host D σ) (r : Resources) (d : D) (m : Machine D σ) :
    Tells (init host r d) m [.publish 0 Wake.sources] := by
  apply (probe_silent host r).bind
  intro b m₁ _
  apply (b.attach_silent d).bind
  intro _ m₂ _
  apply (b.withDomain d).install_silent.bind
  intro _ m₃ _
  exact (tells_call b.host (.wake (.publish 0 Wake.sources)) m₃).bind (fun _ => silent_pure _)
    fun _ => unrefused_pure _

end Block

namespace System

variable [DecidableEq ι]

def Tells : List (Request ι D) → System ι D σ → List WakeCall → Prop
  | [], _, ws => ws = []
  | q :: qs, s, ws => ∃ now later, ws = now ++ later ∧
      WakeCall.Told ((s.block q.who).wakeCall? s.machine.world q.op) (s.outcome q) now ∧
      Tells qs (s.after q) later

theorem run_tells (qs : List (Request ι D)) (s : System ι D σ) : ∃ ws, Tells qs s ws ∧
    (run qs s).machine.wakeCalls = s.machine.wakeCalls ++ ws := by
  induction qs generalizing s with
  | nil => exact ⟨[], rfl, (List.append_nil _).symm⟩
  | cons q qs ih =>
    obtain ⟨later, told, hrun⟩ := ih (s.after q)
    obtain ⟨now, hnow, htold⟩ := (s.block q.who).perform_hears q.op s.machine
    rw [← s.outcome_eq] at htold
    refine ⟨now ++ later, ⟨now, later, rfl, htold, told⟩, ?_⟩
    rw [run, hrun, s.after_machine, hnow, List.append_assoc]

end System

/-- Looking a line up inverts the table, whose lines all exist. Arming tells the wake controller the
source of the line, whoever owns the line, and is refused where there is none; it stores nothing.
Setting a type tells the source of the line once if it succeeds and the line has one, and nothing
if it is refused. Only operations that wake tell anything at all, and starting up publishes the
table. In any history of any blocks, all that is told comes from requests that may tell it, and
names the source of the line the request was about. -/
theorem wake_sources_addressed [DecidableEq ι] :
    (∀ line k (m : Machine D σ),
      ((Wake.find line).on m).1 = .ok (some k) ↔ Wake.sources[k]? = some (some line)) ∧
    (∀ line, some line ∈ Wake.sources → IsLine line) ∧
    (∀ (b : Block D σ) m line enable,
      let r := (b.setWake line enable).on m
      (∀ k, Wake.sources[k]? = some (some line) →
        r.2.wakeCalls = m.wakeCalls ++ [.arm k enable]) ∧
      (some line ∉ Wake.sources → r = (.error (.refused .noWakeSource), m)) ∧
      (∀ a, ¬ b.host.Writes a → r.2.memory.byte a = m.memory.byte a) ∧
      ∃ es, r.2.trace.toList = m.trace.toList ++ es ∧ ∀ e ∈ es, ∀ a v, e ≠ .store a v) ∧
    (∀ (b : Block D σ) m line t,
      (∀ k, Wake.sources[k]? = some (some line) → Tells (b.setType line t) m [.setType k t]) ∧
      (some line ∉ Wake.sources → Tells (b.setType line t) m [])) ∧
    (∀ (b : Block D σ) (op : Operation D), ¬ op.Wakes → Silent (b.perform op)) ∧
    (∀ (host : Host D σ) r d m, Tells (Block.init host r d) m [.publish 0 Wake.sources]) ∧
    ∀ (qs : List (Request ι D)) (s : System ι D σ), ∃ ws, System.Tells qs s ws ∧
      (System.run qs s).machine.wakeCalls = s.machine.wakeCalls ++ ws := by
  refine ⟨fun line k m => ?_, fun line hline => ?_, fun b m line enable => ?_,
    fun b m line t => ?_, fun b _ => b.perform_silent, Block.init_tells, System.run_tells⟩
  · rw [Wake.on_find, ← Wake.indexOf?_eq_some]
    exact ⟨Except.ok.inj, congrArg _⟩
  · exact Wake.sources_valid hline
  · have undisturbed := b.setWake_undisturbed line enable m .io
    obtain ⟨es, htrace, hes⟩ := undisturbed.effects
    refine ⟨fun k hk => b.setWake_routed (Wake.indexOf?_eq_some.mpr hk) enable m,
      fun hnone => b.on_setWake_unrouted (Wake.indexOf?_eq_none.mpr hnone) enable m,
      undisturbed.memory, es, htrace, fun e he a v heq => ?_⟩
    have precedes := hes e he
    rw [heq] at precedes
    exact precedes
  · have told := b.setType_tells line t m
    unfold Wake.typeCall? at told
    constructor
    · intro k hk
      rwa [Wake.indexOf?_eq_some.mpr hk] at told
    · intro hnone
      rwa [Wake.indexOf?_eq_none.mpr hnone] at told

open Simulation in
/-- Pin 6 of port A feeds source 0, which can be armed with no grant given. Line 7 feeds none. -/
theorem bench_wake_sources_addressed :
    let b := Fixture.start.probed
    let m : Machine Nat World := .start Fixture.start.memory Fixture.start.world
    ((b.setWake 6 true).on m).2.wakeCalls = [.arm 0 true] ∧
    (b.setWake 7 true).on m = (.error (.refused .noWakeSource), m) := by
  intro b m
  obtain ⟨-, -, arms, -⟩ := wake_sources_addressed (ι := Bool) (D := Nat) (σ := World)
  exact ⟨(arms b m 6 true).1 0 (by decide), (arms b m 7 true).2.1 (by decide)⟩

end Gpio
