import Gpio.Collaborator
import Gpio.Memory
import Gpio.Notice

/-!
# Machine and drive

An operation runs on a machine: the device's memory, the host's state, and
the trace of what was done so far, in order. A failure keeps everything
done before it. Loads leave no trace.
-/

set_option autoImplicit false

namespace Gpio

inductive Effect (D : Type) where
  /-- A register written by the block. -/
  | store (address : Nat) (v : Word)
  /-- A register written by the host while it answered a call. -/
  | hostStore (address : Nat) (v : Word)
  | call (c : Call D) (reply : c.Reply)
  | notice (n : Notice)

def Effect.onMemory {D : Type} (m : Memory) : Effect D → Memory
  | store a v | hostStore a v => m.storeWord a v
  | call .. | notice _ => m

structure Machine (D σ : Type) where
  memory : Memory
  world : σ
  trace : Array (Effect D)

namespace Machine

variable {D σ : Type}

def start (memory : Memory) (world : σ) : Machine D σ := ⟨memory, world, #[]⟩

def record (m : Machine D σ) (e : Effect D) : Machine D σ :=
  { m with memory := e.onMemory m.memory, trace := m.trace.push e }

theorem world_record (m : Machine D σ) (e : Effect D) : (m.record e).world = m.world := rfl

/-- What is picked out of the trace grows at its end. -/
theorem filterMap_record {α : Type} (f : Effect D → Option α) (m : Machine D σ) (e : Effect D) :
    (m.record e).trace.toList.filterMap f = m.trace.toList.filterMap f ++ (f e).toList := by
  rw [record, Array.toList_push, List.filterMap_append, List.filterMap_cons, List.filterMap_nil]
  cases f e <;> rfl

end Machine

abbrev Drive (D σ : Type) := ExceptT Failure (StateM (Machine D σ))

namespace Drive

variable {D σ α : Type}

def on (x : Drive D σ α) (m : Machine D σ) : Except Failure α × Machine D σ := x.run.run m

def record (e : Effect D) : Drive D σ Unit := modify (·.record e)

def notify (n : Notice) : Drive D σ Unit := record (.notice n)

def store (address : Nat) (v : Word) : Drive D σ Unit := record (.store address v)

def ofChecked (x : Checked α) : Drive D σ α := liftExcept x

def observe (f : Memory → Checked α) : Drive D σ α := do ofChecked (f (← get).memory)

def refuse (r : Refusal) : Drive D σ α := throw (.refused r)

def attempt (x : Drive D σ α) : Drive D σ (Except Refusal α) := fun m =>
  match x.on m with
  | (r, m) => (Checked.settle r, m)

variable {β : Type}

theorem on_pure (a : α) (m : Machine D σ) : (pure a : Drive D σ α).on m = (.ok a, m) := rfl

theorem on_bind (x : Drive D σ α) (f : α → Drive D σ β) (m : Machine D σ) :
    (x >>= f).on m = match x.on m with
      | (.ok a, m) => (f a).on m
      | (.error e, m) => (.error e, m) := by
  rw [show (x >>= f).on m = ExceptT.bindCont f (x.on m).1 (x.on m).2 from rfl]
  rcases x.on m with ⟨_ | _, _⟩ <;> rfl

theorem on_refuse (r : Refusal) (m : Machine D σ) :
    (refuse r : Drive D σ α).on m = (.error (.refused r), m) := rfl

theorem on_ofChecked (x : Checked α) (m : Machine D σ) : (ofChecked x).on m = (x, m) := by
  cases x <;> rfl

theorem on_observe (f : Memory → Checked α) (m : Machine D σ) :
    (observe f).on m = (f m.memory, m) := by
  unfold observe
  rw [on_bind]
  exact on_ofChecked _ m

theorem on_attempt (x : Drive D σ α) (m : Machine D σ) :
    (attempt x).on m = (Checked.settle (x.on m).1, (x.on m).2) := rfl

end Drive

namespace Host

variable {D σ : Type}

/-- Carries out one write. A refused one is dropped; one whose end leaves 64 bits ends the
operation that made the call. -/
def put (w : HostWrite) : Drive D σ Unit := do
  match ← Drive.attempt (.ofChecked (w.bank.check w.offset)) with
  | .ok () => .record (.hostStore (w.bank.base + w.offset) w.value)
  | .error _ => pure ()

def reply (h : Host D σ) (c : Call D) (m : Machine D σ) : Machine D σ :=
  ({ m with world := (h.answer c m.world).world }).record (.call c (h.answer c m.world).reply)

def call (h : Host D σ) (c : Call D) : Drive D σ c.Reply := do
  let a := h.answer c (← get).world
  modify (h.reply c)
  a.writes.forM put
  pure a.reply

theorem on_put (w : HostWrite) (m : Machine D σ) :
    (put w : Drive D σ Unit).on m = match w.bank.check w.offset with
      | .ok () => (.ok (), m.record (.hostStore (w.bank.base + w.offset) w.value))
      | .error (.refused _) => (.ok (), m)
      | .error (.overflow o) => (.error (.overflow o), m) := by
  unfold put
  rw [Drive.on_bind, Drive.on_attempt, Drive.on_ofChecked]
  rcases w.bank.check w.offset with (_ | _) | _ <;> rfl

theorem on_call (h : Host D σ) (c : Call D) (m : Machine D σ) :
    (h.call c).on m =
      match ((h.answer c m.world).writes.forM put : Drive D σ Unit).on (h.reply c m) with
      | (.ok _, m') => (.ok (h.answer c m.world).reply, m')
      | (.error e, m') => (.error e, m') := by
  refine (Drive.on_bind ((h.answer c m.world).writes.forM put)
    (fun _ => pure (h.answer c m.world).reply) (h.reply c m)).trans ?_
  rcases ((h.answer c m.world).writes.forM put : Drive D σ Unit).on (h.reply c m) with
    ⟨_ | _, _⟩ <;> rfl

/-- A call that is answered without writes changes nothing but the host's own state. -/
theorem on_call_of_quiet {h : Host D σ} {c : Call D} {m : Machine D σ}
    (quiet : (h.answer c m.world).writes = []) :
    (h.call c).on m = (.ok (h.answer c m.world).reply, h.reply c m) := by
  rw [on_call, quiet]
  rfl

end Host
end Gpio
