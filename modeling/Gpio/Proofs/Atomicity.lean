import Gpio.Proofs.Parallel

/-!
# Refused operations change nothing

Over banks of any size: a refused operation stored no register and gave no
flow, and asked pin control or the wake controller for something only if one
of them is why. The stores of an operation are in such an order that the
first one is refused if any is, wherever the bank ends; only the debounce
window breaks it, whose second register lies behind its first.
-/

set_option autoImplicit false

namespace Gpio

open Drive

variable {D σ α β : Type}

def Effect.Precedes (r : Refusal) : Effect D → Prop
  | .store .. | .call (.domain _ (.setFlow ..)) _ => False
  | .call (.pin _) _ | .call (.wake _) _ => ∃ e, r = .collaborator e
  | .call (.domain ..) _ | .hostStore .. | .notice _ => True

/-- On the way to a refusal for `r`, nothing was done to the device but by the host. -/
structure Host.Undisturbed (h : Host D σ) (r : Refusal) (m m' : Machine D σ) : Prop where
  memory : ∀ a, ¬ h.Writes a → m'.memory.byte a = m.memory.byte a
  effects : ∃ es, m'.trace.toList = m.trace.toList ++ es ∧ ∀ e ∈ es, e.Precedes r

namespace Host

variable {h : Host D σ} {r : Refusal} {m m' : Machine D σ}

theorem Undisturbed.refl (m : Machine D σ) : h.Undisturbed r m m :=
  ⟨fun _ _ => rfl, [], (List.append_nil _).symm, nofun⟩

theorem Undisturbed.trans {m'' : Machine D σ} (hm : h.Undisturbed r m m')
    (hm' : h.Undisturbed r m' m'') : h.Undisturbed r m m'' := by
  obtain ⟨es, htrace, hes⟩ := hm.effects
  obtain ⟨fs, htrace', hfs⟩ := hm'.effects
  constructor
  · intro a ha
    rw [hm'.memory a ha, hm.memory a ha]
  · refine ⟨es ++ fs, by rw [htrace', htrace, List.append_assoc], fun e he => ?_⟩
    exact (List.mem_append.mp he).elim (hes e) (hfs e)

theorem undisturbed_notice (n : Notice) (m : Machine D σ) :
    h.Undisturbed r m (m.record (.notice n)) := by
  refine ⟨fun _ _ => rfl, [.notice n], Array.toList_push, fun e he => ?_⟩
  rw [List.mem_singleton.mp he]
  trivial

theorem undisturbed_call (h : Host D σ) {c : Call D} (hc : ∀ v, (Effect.call c v).Precedes r)
    (m : Machine D σ) : h.Undisturbed r m ((h.call c).on m).2 := by
  obtain ⟨ws, hws, after⟩ := h.call_after c m
  refine ⟨fun a ha => h.call_bytes c m ha, _, after.trace, fun e he => ?_⟩
  rcases List.mem_cons.mp he with rfl | he
  · exact hc _
  · obtain ⟨a, v, rfl⟩ := hws e he
    trivial

theorem undisturbed_of_call {c : Call D} {v : c.Reply} (hcall : (h.call c).on m = (.ok v, m'))
    (hc : ∀ v, (Effect.call c v).Precedes r) : h.Undisturbed r m m' := by
  have asked := h.undisturbed_call hc m
  rwa [hcall] at asked

end Host

namespace Drive

def Abrupt (x : Drive D σ α) : Prop :=
  ∀ m r m', x.on m = (.error (.refused r), m') → m' = m

def Unrefused (x : Drive D σ α) : Prop := ∀ m r, (x.on m).1 ≠ .error (.refused r)

def Clean (h : Host D σ) (m : Machine D σ) (x : Drive D σ α) : Prop :=
  ∀ r m', x.on m = (.error (.refused r), m') → h.Undisturbed r m m'

variable {x : Drive D σ α} {f : α → Drive D σ β} {h : Host D σ} {m : Machine D σ}

theorem Unrefused.not_refused (hx : Unrefused x) {r : Refusal} {m' : Machine D σ} :
    x.on m ≠ (.error (.refused r), m') :=
  fun he => hx m r (congrArg Prod.fst he)

theorem unrefused_of_ok (hx : ∀ m, ∃ v m', x.on m = (.ok v, m')) : Unrefused x := by
  intro m r
  obtain ⟨v, m', hv⟩ := hx m
  rw [hv]
  nofun

theorem unrefused_pure (v : α) : Unrefused (pure v : Drive D σ α) := fun _ _ => nofun

theorem unrefused_notify (n : Notice) : Unrefused (notify n : Drive D σ Unit) := fun _ _ => nofun

theorem unrefused_call (h : Host D σ) (c : Call D) : Unrefused (h.call c) := h.call_not_refused c

theorem unrefused_bind (hx : Unrefused x) (hf : ∀ v, Unrefused (f v)) : Unrefused (x >>= f) := by
  intro m r he
  rcases on_bind_eq_error (Prod.ext he rfl) with hx' | ⟨v, m₁, -, hv⟩
  · exact hx.not_refused hx'
  · exact (hf v).not_refused hv

theorem unrefused_attempt (x : Drive D σ α) : Unrefused (attempt x) := by
  intro m r
  rw [on_attempt]
  rcases (x.on m).1 with (e | o) | v <;> nofun

theorem unrefused_forM {γ : Type} {g : γ → Drive D σ Unit} (as : List γ)
    (hg : ∀ a, Unrefused (g a)) : Unrefused (as.forM g) := by
  induction as with
  | nil => exact unrefused_pure ()
  | cons a as ih => exact unrefused_bind (hg a) fun _ => ih

theorem abrupt_refuse (r : Refusal) : Abrupt (refuse r : Drive D σ α) := by
  intro m s m' he
  cases he
  rfl

theorem abrupt_observe (g : Memory → Checked α) : Abrupt (observe g : Drive D σ α) := by
  intro m r m' he
  rw [on_observe] at he
  exact (congrArg Prod.snd he).symm

theorem Unrefused.abrupt (hx : Unrefused x) : Abrupt x := fun _ _ _ he => absurd he hx.not_refused

theorem Abrupt.bind (hx : Abrupt x) (hf : ∀ v, Unrefused (f v)) : Abrupt (x >>= f) := by
  intro m r m' he
  rcases on_bind_eq_error he with hx' | ⟨v, m₁, -, hv⟩
  · exact hx m r m' hx'
  · exact absurd hv (hf v).not_refused

theorem Abrupt.clean (hx : Abrupt x) : Clean h m x := by
  intro r m' he
  rw [hx m r m' he]
  exact .refl m

theorem Clean.bind (hx : Clean h m x) (hf : ∀ v m', Clean h m' (f v))
    (ok : ∀ v m', x.on m = (.ok v, m') → ∀ r, h.Undisturbed r m m') : Clean h m (x >>= f) := by
  intro r m' he
  rcases on_bind_eq_error he with hx' | ⟨v, m₁, hv, hf'⟩
  · exact hx r m' hx'
  · exact (ok v m₁ hv r).trans (hf v m₁ r m' hf')

theorem Clean.answer (hx : Clean h m x) (answer : α → Outcome) :
    Clean h m (x >>= fun v => pure (answer v)) := by
  intro r m' he
  rcases on_bind_eq_error he with hx' | ⟨v, m₁, -, hv⟩
  · exact hx r m' hx'
  · exact absurd hv (unrefused_pure _).not_refused

theorem Clean.done {y : Drive D σ Unit} (hy : Clean h m y) : Clean h m (done y) :=
  hy.answer fun _ => .done

end Drive

namespace Operation

def Attaches : Operation D → Prop
  | attach _ => True
  | _ => False

def Debounces (line usecs : UInt32) : Operation D → Prop
  | setDebounce k n | consumer (.setDebounce k n) => k = line ∧ n = usecs
  | _ => False

end Operation

namespace Block

variable {b : Block D σ} {line : UInt32} {l : Location} {r : PinRegister} {x : Drive D σ Unit}

theorem abrupt_gated {f : Unit → Drive D σ α}
    (hf : ∀ l, validLine line = .ok l → Abrupt (f ())) : Abrupt (b.own line >>= f) := by
  intro m r m' he
  by_cases ho : b.owns m.memory line = true
  · obtain ⟨l, hl⟩ := b.valid_of_owns ho
    rw [on_bind_ok (b.on_own_of_owns ho)] at he
    exact hf l hl m r m' he
  · rw [on_bind_error (b.on_own_of_not_owns (Bool.not_eq_true _ ▸ ho))] at he
    exact (congrArg Prod.snd he).symm

/-- A register in reach has those before it in reach. -/
theorem covers_before (hl : validLine line = .ok l) {s : PinRegister}
    (hc : (b.bank l.bank).Covers (l.offset r)) (hle : s.offset ≤ r.offset) :
    (b.bank l.bank).Covers (l.offset s) := by
  refine ⟨(offset_place hl s).1, Nat.le_trans ?_ hc.2⟩
  exact Nat.add_le_add_right (Nat.add_le_add_left hle _) 4

structure Reaches (b : Block D σ) (l : Location) (r : PinRegister) (x : Drive D σ Unit) : Prop where
  done : (b.bank l.bank).Covers (l.offset r) → Unrefused x
  refused : ¬ (b.bank l.bank).Covers (l.offset r) →
    ∀ m, x.on m = (.error (.refused .invalidLine), m)

theorem Reaches.bind_abrupt (hx : b.Reaches l r x) {f : Unit → Drive D σ α}
    (hf : (b.bank l.bank).Covers (l.offset r) → Unrefused (f ())) : Abrupt (x >>= f) := by
  by_cases hc : (b.bank l.bank).Covers (l.offset r)
  · exact (unrefused_bind (hx.done hc) fun _ => hf hc).abrupt
  · intro m s m' he
    rw [on_bind_error (hx.refused hc m)] at he
    exact (congrArg Prod.snd he).symm

theorem Reaches.abrupt (hx : b.Reaches l r x) : Abrupt x := by
  by_cases hc : (b.bank l.bank).Covers (l.offset r)
  · exact (hx.done hc).abrupt
  · intro m s m' he
    rw [hx.refused hc m] at he
    exact (congrArg Prod.snd he).symm

theorem write_reaches (hl : validLine line = .ok l) (r : PinRegister) (v : Word) :
    b.Reaches l r (b.write line r v) := by
  constructor
  · intro hc
    apply unrefused_of_ok
    intro m
    exact ⟨_, _, (b.on_write hl r v m).trans (on_put_of_covers hc (offset_fits hl r) v m)⟩
  · intro hc m
    exact (b.on_write hl r v m).trans (on_put_of_not_covers hc (offset_fits hl r) v m)

theorem modifyRegister_reaches (hl : validLine line = .ok l) (r : PinRegister)
    (f : Word → Word) : b.Reaches l r (b.modifyRegister line r f) := by
  constructor
  · intro hc
    exact unrefused_of_ok fun m => ⟨_, _, b.on_modifyRegister_of_covers hl hc f m⟩
  · intro hc m
    exact b.on_modifyRegister_of_not_covers hl hc f m

theorem setConfig_reaches (hl : validLine line = .ok l) (bits : Word) (on : Bool) :
    b.Reaches l .enableConfig (b.setConfig line bits on) :=
  modifyRegister_reaches hl .enableConfig _

theorem write_abrupt (line : UInt32) (r : PinRegister) (v : Word) :
    Abrupt (b.write line r v) := by
  by_cases hv : ∃ l, validLine line = .ok l
  · obtain ⟨l, hl⟩ := hv
    exact (write_reaches hl r v).abrupt
  · intro m s m' he
    rw [b.on_write_invalid fun l hl => hv ⟨l, hl⟩] at he
    exact (congrArg Prod.snd he).symm

theorem modifyRegister_abrupt (line : UInt32) (r : PinRegister) (f : Word → Word) :
    Abrupt (b.modifyRegister line r f) := by
  by_cases hv : ∃ l, validLine line = .ok l
  · obtain ⟨l, hl⟩ := hv
    exact (modifyRegister_reaches hl r f).abrupt
  · intro m s m' he
    rw [b.on_modifyRegister_invalid fun l hl => hv ⟨l, hl⟩] at he
    exact (congrArg Prod.snd he).symm

theorem ack_abrupt (line : UInt32) : Abrupt (b.ack line) :=
  abrupt_gated fun _ hl => (write_reaches hl _ _).abrupt

theorem mask_abrupt (line : UInt32) : Abrupt (b.mask line) :=
  abrupt_gated fun _ hl => (setConfig_reaches hl _ _).abrupt

theorem unmask_abrupt (line : UInt32) : Abrupt (b.unmask line) :=
  abrupt_gated fun _ hl => (setConfig_reaches hl _ _).abrupt

theorem setValue_abrupt (line : UInt32) (level : Bool) : Abrupt (b.setValue line level) := by
  apply abrupt_gated
  intro l hl
  apply (write_reaches hl .outputValue _).bind_abrupt
  intro hc
  exact (write_reaches hl .outputControl _).done (covers_before hl hc (by decide))

theorem directionInput_abrupt (line : UInt32) : Abrupt (b.directionInput line) := by
  apply abrupt_gated
  intro l hl
  apply (setConfig_reaches hl _ _).bind_abrupt
  intro hc
  apply unrefused_bind ((setConfig_reaches hl _ _).done hc)
  intro _
  apply unrefused_bind (unrefused_call b.host (.pin (.input line)))
  intro reply
  cases reply with
  | ok _ => exact unrefused_pure _
  | error e => exact unrefused_notify _

/-- The level is the last register of those written, so it is refused first. -/
theorem directionOutput_abrupt (line : UInt32) (level : Bool) :
    Abrupt (b.directionOutput line level) := by
  simp only [directionOutput, setValue, bind_assoc]
  apply abrupt_gated
  intro l hl
  apply (write_reaches hl .outputValue _).bind_abrupt
  intro hc
  have config := covers_before (s := .enableConfig) hl hc (by decide)
  apply unrefused_bind ((write_reaches hl .outputControl _).done (covers_before hl hc (by decide)))
  intro _
  apply unrefused_bind ((setConfig_reaches hl _ _).done config)
  intro _
  apply unrefused_bind ((setConfig_reaches hl _ _).done config)
  intro _
  apply unrefused_bind (unrefused_call b.host (.pin (.output line)))
  intro reply
  cases reply with
  | ok _ => exact unrefused_pure _
  | error e => exact unrefused_notify _

theorem findWake_unrefused (line : UInt32) :
    Unrefused (Wake.find line : Drive D σ (Option Nat)) := by
  unfold Wake.find
  cases Wake.indexOf? line with
  | none => exact unrefused_pure _
  | some wake => exact unrefused_bind (unrefused_notify _) fun _ => unrefused_pure _

theorem setType_abrupt (line : UInt32) (t : Trigger) : Abrupt (b.setType line t) := by
  apply abrupt_gated
  intro l hl
  apply (modifyRegister_reaches hl .enableConfig _).bind_abrupt
  intro hc
  apply unrefused_bind ((setConfig_reaches hl _ _).done hc)
  intro _
  apply unrefused_bind (findWake_unrefused line)
  intro found
  cases found with
  | none => exact unrefused_pure _
  | some wake =>
    apply unrefused_bind (unrefused_call b.host (.wake (.setType wake t)))
    intro reply
    cases reply with
    | ok _ => exact unrefused_pure _
    | error e => exact unrefused_bind (unrefused_notify _) fun _ => unrefused_pure _

/-- Pin control is asked only behind the gate, and then its answer is the reason. -/
theorem request_clean (m : Machine D σ) (line : UInt32) : Clean b.host m (b.request line) := by
  intro r m' he
  unfold request at he
  by_cases ho : b.owns m.memory line = true
  · rw [on_bind_ok (on_attempt_ok (b.on_own_of_owns ho))] at he
    rcases on_bind_eq_error he with hcall | ⟨reply, m₁, hcall, he⟩
    · exact absurd hcall (unrefused_call b.host (.pin (.request line))).not_refused
    · cases reply with
      | ok _ => cases he
      | error e =>
        cases he
        exact Host.undisturbed_of_call hcall fun _ => ⟨e, rfl⟩
  · rw [on_bind_ok (on_attempt_refused (b.on_own_of_not_owns (Bool.not_eq_true _ ▸ ho)))] at he
    cases he
    exact .refl m

theorem setWake_clean (m : Machine D σ) (line : UInt32) (enable : Bool) :
    Clean b.host m (b.setWake line enable) := by
  intro r m' he
  unfold setWake at he
  cases hwake : Wake.indexOf? line with
  | none =>
    rw [Wake.find_bind_none hwake] at he
    cases he
    exact .refl m
  | some wake =>
    rw [Wake.find_bind_some hwake, on_bind_ok (on_notify _ m)] at he
    rcases on_bind_eq_error he with hcall | ⟨reply, m₁, hcall, he⟩
    · exact absurd hcall (unrefused_call b.host (.wake (.arm wake enable))).not_refused
    · cases reply with
      | ok _ => cases he
      | error e =>
        cases he
        have asked := Host.undisturbed_of_call (r := .collaborator e) hcall fun _ => ⟨e, rfl⟩
        exact ((Host.undisturbed_notice _ m).trans asked).trans (Host.undisturbed_notice _ m₁)

/-- Of the domain nothing is asked but the line. -/
theorem lineOfVirq_undisturbed (b : Block D σ) (virq : UInt32) (m : Machine D σ) (r : Refusal) :
    b.host.Undisturbed r m ((b.lineOfVirq virq).on m).2 := by
  unfold lineOfVirq
  cases b.domain with
  | none => exact .refl m
  | some d =>
    have asked := b.host.undisturbed_call (c := .domain d (.lineOf virq)) (r := r)
      (fun _ => trivial) m
    rw [on_bind]
    rcases hcall : (b.callDomain d (.lineOf virq)).on m with ⟨e | reply, m₁⟩
    · rwa [show (b.host.call (.domain d (.lineOf virq))).on m = _ from hcall] at asked
    · rw [show (b.host.call (.domain d (.lineOf virq))).on m = _ from hcall] at asked
      cases reply <;> exact asked

theorem lineOfVirq_clean {f : UInt32 → Drive D σ α} (m : Machine D σ) (virq : UInt32)
    (hf : ∀ line m', Clean b.host m' (f line)) : Clean b.host m (b.lineOfVirq virq >>= f) := by
  have asked := b.lineOfVirq_undisturbed virq m
  apply Clean.bind _ hf
  · intro line m' hon r
    have hr := asked r
    rwa [hon] at hr
  · intro r m' hon
    have hr := asked r
    rwa [hon] at hr

theorem setTypeOfVirq_clean (m : Machine D σ) (virq : UInt32) (raw : Word) :
    Clean b.host m (b.setTypeOfVirq virq raw) := by
  apply lineOfVirq_clean
  intro line m'
  apply Abrupt.clean
  cases Trigger.ofSense raw with
  | error e =>
    intro m r m' he
    rw [on_bind_error (on_ofChecked _ m)] at he
    exact (congrArg Prod.snd he).symm
  | ok t =>
    -- Once the type is set, the flow is given without fail.
    apply (setType_abrupt line t).bind
    intro flow
    cases b.domain with
    | none => exact unrefused_pure _
    | some d => exact unrefused_call b.host (.domain d (.setFlow virq flow))

/-- The line is accessible and the window fits its register, but the bank ends between the line's
first register and its second. -/
def CutsDebounce (b : Block D σ) (m : Memory) (line usecs : UInt32) : Prop :=
  b.isAccessible m line = .ok true ∧ usecs.toNat ≤ 255000 ∧
    ∃ l, resolve line = some l ∧ l.registers + 4 ≤ (b.bank l.bank).size ∧
      (b.bank l.bank).size < l.registers + 8

theorem cutsDebounce_iff {m : Memory} {usecs : UInt32} (hl : validLine line = .ok l) :
    b.CutsDebounce m line usecs ↔ b.owns m line = true ∧
      ¬ Layout.debounceLimit < debounceMillis usecs ∧
      (b.bank l.bank).Covers (l.offset .enableConfig) ∧
      ¬ (b.bank l.bank).Covers (l.offset .debounceThreshold) := by
  have resolved := (validLine_eq_ok.mp hl).1
  have aligned := (offset_place hl .enableConfig).1
  have aligned' := (offset_place hl .debounceThreshold).1
  have start : l.offset .enableConfig = l.registers := rfl
  have next : l.offset .debounceThreshold = l.registers + 4 := rfl
  rw [CutsDebounce, b.isAccessible_eq, debounceLimit_lt, Nat.not_lt, Bank.Covers, Bank.Covers,
    start, next]
  rw [start] at aligned
  rw [next] at aligned'
  constructor
  · rintro ⟨ho, hu, k, hk, hlo, hhi⟩
    obtain rfl : l = k := Option.some.inj (resolved.symm.trans hk)
    exact ⟨Except.ok.inj ho, hu, ⟨aligned, hlo⟩, fun hc => absurd hc.2 (Nat.not_le.mpr hhi)⟩
  · rintro ⟨ho, hu, hc, hd⟩
    exact ⟨congrArg _ ho, hu, l, resolved, hc.2, Nat.not_le.mp fun hle => hd ⟨aligned', hle⟩⟩

theorem setDebounce_clean {m : Machine D σ} {usecs : UInt32}
    (uncut : ¬ b.CutsDebounce m.memory line usecs) :
    Clean b.host m (b.setDebounce line usecs) := by
  intro r m' he
  unfold setDebounce at he
  by_cases ho : b.owns m.memory line = true
  · obtain ⟨l, hl⟩ := b.valid_of_owns ho
    rw [on_bind_ok (b.on_own_of_owns ho)] at he
    by_cases hms : Layout.debounceLimit < debounceMillis usecs
    · simp only [hms, if_true] at he
      exact (abrupt_refuse _).clean r m' he
    · simp only [hms, if_false] at he
      refine ((setConfig_reaches hl _ _).bind_abrupt fun hc => ?_).clean r m' he
      have hd : (b.bank l.bank).Covers (l.offset .debounceThreshold) := by
        by_contra hd
        exact uncut ((cutsDebounce_iff hl).mpr ⟨ho, hms, hc, hd⟩)
      exact (write_reaches hl _ _).done hd
  · rw [on_bind_error (b.on_own_of_not_owns (Bool.not_eq_true _ ▸ ho))] at he
    cases he
    exact .refl m

theorem setDebounce_cut {m : Machine D σ} {usecs : UInt32}
    (cut : b.CutsDebounce m.memory line usecs) : ∃ l, resolve line = some l ∧
      (b.setDebounce line usecs).on m = (.error (.refused .invalidLine),
        m.record (.store ((b.bank l.bank).base + l.registers)
          (m.memory.loadWord ((b.bank l.bank).base + l.registers) ||| 0x21))) := by
  have owned := cut.1
  rw [b.isAccessible_eq] at owned
  obtain ⟨l, hl⟩ := b.valid_of_owns (Except.ok.inj owned)
  obtain ⟨ho, hms, hc, hd⟩ := (cutsDebounce_iff hl).mp cut
  refine ⟨l, (validLine_eq_ok.mp hl).1, ?_⟩
  unfold setDebounce
  rw [on_bind_ok (b.on_own_of_owns ho)]
  simp only [hms, if_false]
  have config := b.on_modifyRegister_of_covers hl hc
    (merge (PinConfig.enable ||| PinConfig.debounce) (PinConfig.enable ||| PinConfig.debounce)) m
  rw [merge_self] at config
  exact (on_bind_ok config _).trans ((write_reaches hl _ _).refused hd _)

theorem free_unrefused (line : UInt32) : Unrefused (b.free line) := by
  apply unrefused_bind (unrefused_call b.host (.pin (.free line)))
  intro _
  apply unrefused_bind (unrefused_attempt _)
  intro own
  cases own with
  | error _ => exact unrefused_pure _
  | ok _ =>
    apply unrefused_bind (unrefused_attempt _)
    intro disabled
    cases disabled with
    | ok _ => exact unrefused_pure _
    | error r => exact unrefused_notify _

theorem toIrq_unrefused (line : UInt32) : Unrefused (b.toIrq line) := by
  unfold toIrq
  cases b.domain with
  | none => exact unrefused_pure _
  | some d => exact unrefused_call b.host (.domain d (.find line))

theorem dispatchPin_unrefused (d : D) (port pin : Nat) :
    Unrefused (b.dispatchPin d port pin) := by
  apply unrefused_bind (unrefused_call b.host (.domain d (.find (lineOf port pin))))
  intro found
  cases found with
  | some virq => exact unrefused_call b.host (.domain d (.handle virq))
  | none => exact unrefused_pure _

theorem dispatchPort_unrefused (d : D) (port : Nat) : Unrefused (b.dispatchPort d port) := by
  unfold dispatchPort
  cases ports[port]? with
  | none => exact unrefused_pure _
  | some p =>
    apply unrefused_bind (unrefused_attempt _)
    intro status
    cases status with
    | ok status => exact unrefused_forM _ (dispatchPin_unrefused d port)
    | error _ => exact unrefused_pure _

theorem handleChained_unrefused (controller : UInt8) : Unrefused (b.handleChained controller) := by
  unfold handleChained
  cases b.controller? controller with
  | none => exact unrefused_notify _
  | some c =>
    cases b.domain with
    | none => exact unrefused_pure _
    | some d =>
      apply unrefused_bind (unrefused_call b.host (.domain d (.enter c.irq)))
      intro _
      apply unrefused_bind (unrefused_forM _ (dispatchPort_unrefused d))
      intro _
      exact unrefused_call b.host (.domain d (.exit c.irq))

theorem install_abrupt : Abrupt b.install := by
  unfold install
  cases b.domain with
  | none => exact abrupt_refuse _
  | some d =>
    apply Unrefused.abrupt
    exact unrefused_forM _ fun c => unrefused_call b.host (.domain d (.setChained c.irq c.id))

theorem consumer_clean {m : Machine D σ} (c : ConsumerCall)
    (uncut : ∀ line usecs, c = .setDebounce line usecs → ¬ b.CutsDebounce m.memory line usecs) :
    Clean b.host m (b.consumer.run c) := by
  cases c with
  | request line => exact (request_clean m line).done
  | free line => exact (free_unrefused line).abrupt.clean.done
  | directionInput line => exact (directionInput_abrupt line).clean.done
  | directionOutput line level => exact (directionOutput_abrupt line level).clean.done
  | get line =>
    have look : Clean b.host m (observe fun m => b.getValue m line) := (abrupt_observe _).clean
    exact look.answer .flag
  | set line level => exact (setValue_abrupt line level).clean.done
  | setDebounce line usecs =>
    exact (setDebounce_clean (uncut line usecs rfl)).done
  | toIrq line => exact (toIrq_unrefused line).abrupt.clean.answer _

theorem irq_clean (m : Machine D σ) (c : IrqCall) : Clean b.host m (b.irqTable.run c) := by
  cases c with
  | ack virq => exact (lineOfVirq_clean m virq fun line _ => (ack_abrupt line).clean).done
  | mask virq | disable virq | shutdown virq =>
    exact (lineOfVirq_clean m virq fun line _ => (mask_abrupt line).clean).done
  | unmask virq => exact (lineOfVirq_clean m virq fun line _ => (unmask_abrupt line).clean).done
  | setType virq raw => exact (setTypeOfVirq_clean m virq raw).done
  | setWake virq enable =>
    exact (lineOfVirq_clean m virq fun line m' => setWake_clean m' line enable).done

theorem perform_clean {m : Machine D σ} (op : Operation D) (hop : ¬ op.Attaches)
    (uncut : ∀ line usecs, op.Debounces line usecs → ¬ b.CutsDebounce m.memory line usecs) :
    Clean b.host m (b.perform op) := by
  cases op with
  | isAccessible | registerAddress | read | getValue | isEnabled | readRegisters =>
    exact (abrupt_observe _).clean.answer _
  | write line r v => exact (write_abrupt line r v).clean.done
  | update line r mask v => exact (modifyRegister_abrupt line r _).clean.done
  | request line => exact (request_clean m line).done
  | free line => exact (free_unrefused line).abrupt.clean.done
  | directionInput line => exact (directionInput_abrupt line).clean.done
  | directionOutput line level => exact (directionOutput_abrupt line level).clean.done
  | setValue line level => exact (setValue_abrupt line level).clean.done
  | setDebounce line usecs => exact (setDebounce_clean (uncut line usecs ⟨rfl, rfl⟩)).done
  | toIrq line => exact (toIrq_unrefused line).abrupt.clean.answer _
  | ack line => exact (ack_abrupt line).clean.done
  | mask line => exact (mask_abrupt line).clean.done
  | unmask line => exact (unmask_abrupt line).clean.done
  | setType line t => exact (setType_abrupt line t).clean.answer _
  | setWake line enable => exact (setWake_clean m line enable).done
  | consumer c =>
    apply consumer_clean c
    rintro line usecs rfl
    exact uncut line usecs ⟨rfl, rfl⟩
  | irq c => exact irq_clean m c
  | attach d => exact absurd trivial hop
  | install => exact install_abrupt.clean.done
  | publishWakeTable =>
    exact (unrefused_call b.host (.wake (.publish 0 Wake.sources))).abrupt.clean.done
  | chained controller => exact (handleChained_unrefused controller).abrupt.clean.done

theorem perform_cut {m : Machine D σ} {op : Operation D} {usecs : UInt32}
    (hop : op.Debounces line usecs) (cut : b.CutsDebounce m.memory line usecs) :
    ∃ l, resolve line = some l ∧ (b.perform op).on m = (.error (.refused .invalidLine),
      m.record (.store ((b.bank l.bank).base + l.registers)
        (m.memory.loadWord ((b.bank l.bank).base + l.registers) ||| 0x21))) := by
  obtain ⟨l, hl, hon⟩ := setDebounce_cut cut
  refine ⟨l, hl, ?_⟩
  cases op with
  | setDebounce k n =>
    obtain ⟨rfl, rfl⟩ := hop
    exact on_bind_error hon _
  | consumer c =>
    cases c with
    | setDebounce k n =>
      obtain ⟨rfl, rfl⟩ := hop
      exact on_bind_error hon _
    | _ => exact hop.elim
  | _ => exact hop.elim

/-- Whatever the sizes of the banks, an operation that is refused stored nothing, gave no flow, and
asked pin control and the wake controller for nothing, unless one of them is the reason. The one
exception is a debounce window that is cut: it is refused with debouncing enabled for the line, and
nothing else changed. -/
theorem refused_undisturbed (b : Block D σ) (m : Machine D σ) :
    (∀ op : Operation D, ¬ op.Attaches →
      (∀ line usecs, op.Debounces line usecs → ¬ b.CutsDebounce m.memory line usecs) →
      ∀ r, ((b.perform op).on m).1 = .error (.refused r) →
        b.host.Undisturbed r m ((b.perform op).on m).2) ∧
    ∀ (op : Operation D) line usecs, op.Debounces line usecs →
      b.CutsDebounce m.memory line usecs → ∃ l m', resolve line = some l ∧
        (b.perform op).on m = (.error (.refused .invalidLine), m') ∧
        let a := (b.bank l.bank).base + l.registers
        let v := m.memory.loadWord a ||| 0x21
        m'.memory.loadWord a = v ∧
        (∀ c, ¬ (a ≤ c ∧ c < a + 4) → m'.memory.byte c = m.memory.byte c) ∧
        m'.trace.toList = m.trace.toList ++ [.store a v] := by
  constructor
  · intro op hop uncut r he
    exact perform_clean op hop uncut r _ (Prod.ext he rfl)
  · intro op line usecs hop cut
    obtain ⟨l, hl, hon⟩ := perform_cut hop cut
    refine ⟨l, _, hl, hon, Memory.loadWord_storeWord _ _ _, fun c hc => ?_, Array.toList_push⟩
    exact Memory.byte_storeWord_of_out _ hc

end Block

open Simulation in
/-- On a main bank that ends behind the first register of line 0, a debounce window for the line is
refused half set, and acknowledging its interrupt is refused with nothing changed. -/
theorem bench_refused_undisturbed :
    let config := Fixture.start.main.base + 0x12000
    let m : Machine Nat World := .start (Fixture.granting.storeWord config 0) Fixture.start.world
    Fixture.short.CutsDebounce m.memory 0 1000 ∧
    (∃ m', (Fixture.short.perform (.setDebounce 0 1000)).on m =
        (.error (.refused .invalidLine), m') ∧ m'.memory.loadWord config = 0x21) ∧
    ((Fixture.short.perform (.ack 0)).on m).1 = .error (.refused .invalidLine) ∧
    Fixture.short.host.Undisturbed .invalidLine m ((Fixture.short.perform (.ack 0)).on m).2 := by
  intro config m
  have hl : validLine 0 = .ok ((Port.main "A" 2 0 7).locate 0 0) := rfl
  have word : m.memory.loadWord (Fixture.start.main.base + 0x2004) = 0xffffffff := by
    rw [← Fixture.granting_loadWord (Fixture.start.main.base + 0x2004)]
    exact Memory.loadWord_storeWord_disjoint _ _ _ _ (Or.inl (by omega))
  have owned : Fixture.short.owns m.memory 0 = true := by
    rw [Fixture.short.owns_of_valid _ hl, Block.grants, Bool.and_eq_true]
    exact ⟨by decide, word ▸ by decide⟩
  have cut : Fixture.short.CutsDebounce m.memory 0 1000 :=
    (Block.cutsDebounce_iff hl).mpr ⟨owned, by decide, by decide, by decide⟩
  have refused : (Fixture.short.perform (.ack 0)).on m = (.error (.refused .invalidLine), m) := by
    have out := (Block.write_reaches (b := Fixture.short) hl .interruptClear 1).refused
      (by decide) m
    exact on_bind_error ((on_bind_ok (Fixture.short.on_own_of_owns owned) _).trans out) _
  have hrun := Block.refused_undisturbed Fixture.short m
  obtain ⟨l, m', hresolve, hon, hword, -⟩ := hrun.2 (.setDebounce 0 1000) 0 1000 ⟨rfl, rfl⟩ cut
  cases hresolve
  refine ⟨cut, ⟨m', hon, ?_⟩, congrArg Prod.fst refused, ?_⟩
  · rw [show m'.memory.loadWord config = _ from hword]
    show (Fixture.granting.storeWord config 0).loadWord config ||| 0x21 = 0x21
    rw [Memory.loadWord_storeWord]
    rfl
  · exact hrun.1 (.ack 0) (fun h => h) (fun _ _ h => h.elim) _ (congrArg Prod.fst refused)

end Gpio
