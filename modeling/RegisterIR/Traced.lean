import RegisterIR.Event
import RegisterIR.Fault

/-! Computations that record events as they go and may stop at a fault. What was recorded before
the fault is kept, so events and outcome are two separate views of one run. -/

namespace RegisterIR

structure Traced (α : Type) where
  events : List Event
  outcome : Except Fault α

namespace Traced

variable {α β γ : Type}

protected def pure (value : α) : Traced α := ⟨[], .ok value⟩

protected def bind (x : Traced α) (f : α → Traced β) : Traced β :=
  match x.outcome with
  | .ok value =>
    let next := f value
    ⟨x.events ++ next.events, next.outcome⟩
  | .error fault => ⟨x.events, .error fault⟩

instance : Monad Traced where
  pure := Traced.pure
  bind := Traced.bind

def record (event : Event) : Traced Unit := ⟨[event], .ok ()⟩

def fault (reason : Fault) : Traced α := ⟨[], .error reason⟩

def ofExcept (result : Except Fault α) : Traced α := ⟨[], result⟩

instance : MonadLift (Except Fault) Traced where
  monadLift := ofExcept

@[simp] theorem events_pure (value : α) : (pure value : Traced α).events = [] := rfl

@[simp] theorem outcome_pure (value : α) : (pure value : Traced α).outcome = .ok value := rfl

@[simp] theorem outcome_ofExcept (result : Except Fault α) : (ofExcept result).outcome = result :=
  rfl

@[simp] theorem events_ofExcept (result : Except Fault α) : (ofExcept result).events = [] := rfl

theorem outcome_bind (x : Traced α) (f : α → Traced β) :
    (x >>= f).outcome = x.outcome >>= fun value => (f value).outcome := by
  change (Traced.bind x f).outcome = _
  rcases x with ⟨events, fault | value⟩ <;> rfl

theorem outcome_bind_eq_ok_iff {x : Traced α} {f : α → Traced β} {result : β} :
    (x >>= f).outcome = .ok result ↔
      ∃ value, x.outcome = .ok value ∧ (f value).outcome = .ok result := by
  rw [outcome_bind]
  rcases x with ⟨events, fault | value⟩ <;> simp [bind, Except.bind]

instance : LawfulMonad Traced := LawfulMonad.mk' Traced
  (by
    intro α x
    change Traced.bind x _ = x
    rcases x with ⟨events, fault | value⟩ <;> simp [Traced.bind, Traced.pure])
  (by
    intro α β value f
    change Traced.bind (Traced.pure value) f = f value
    simp [Traced.bind, Traced.pure])
  (by
    intro α β γ x f g
    change Traced.bind (Traced.bind x f) g = Traced.bind x fun value => Traced.bind (f value) g
    rcases x with ⟨events, fault | value⟩
    · rfl
    · simp only [Traced.bind]
      rcases f value with ⟨later, fault | value⟩ <;> simp)

theorem outcome_map_eq_ok_iff {f : α → β} {x : Traced α} {result : β} :
    (f <$> x).outcome = .ok result ↔ ∃ value, x.outcome = .ok value ∧ f value = result := by
  rw [← bind_pure_comp, outcome_bind_eq_ok_iff]
  simp

theorem outcome_map_eq_error_iff {f : α → β} {x : Traced α} {fault : Fault} :
    (f <$> x).outcome = .error fault ↔ x.outcome = .error fault := by
  rw [← bind_pure_comp, outcome_bind]
  rcases x with ⟨events, fault | value⟩ <;> simp [bind, Except.bind]

end Traced

end RegisterIR
