import CallClusters.Traced

/-! The result and the events of a computation, read off its parts. -/

namespace CallClusters.Traced

variable {W α β : Type}

@[simp] theorem result_pure (a : α) : (pure a : Traced W α).result = .ok a := rfl

@[simp] theorem events_pure (a : α) : (pure a : Traced W α).events = [] := rfl

@[simp] theorem result_emit (event : Event W) : (emit event).result = .ok () := rfl

@[simp] theorem events_emit (event : Event W) : (emit event).events = [event] := rfl

@[simp] theorem result_emitAll (events : List (Event W)) : (emitAll events).result = .ok () := rfl

@[simp] theorem events_emitAll (events : List (Event W)) : (emitAll events).events = events := rfl

@[simp] theorem result_fail (fault : Fault) : (fail fault : Traced W α).result = .error fault := rfl

@[simp] theorem events_fail (fault : Fault) : (fail fault : Traced W α).events = [] := rfl

@[simp] theorem result_ofExcept (result : Except Fault α) :
    (ofExcept result : Traced W α).result = result := rfl

@[simp] theorem events_ofExcept (result : Except Fault α) :
    (ofExcept result : Traced W α).events = [] := rfl

theorem bind_of_ok {x : Traced W α} {a : α} (h : x.result = .ok a) (f : α → Traced W β) :
    x >>= f = ⟨x.events ++ (f a).events, (f a).result⟩ := by
  change Traced.bind x f = _
  simp only [Traced.bind, h]

theorem bind_of_error {x : Traced W α} {fault : Fault} (h : x.result = .error fault)
    (f : α → Traced W β) : x >>= f = ⟨x.events, .error fault⟩ := by
  change Traced.bind x f = _
  simp only [Traced.bind, h]

theorem ok_bind (events : List (Event W)) (a : α) (f : α → Traced W β) :
    (⟨events, .ok a⟩ : Traced W α) >>= f = ⟨events ++ (f a).events, (f a).result⟩ := rfl

theorem emit_bind (event : Event W) (f : Unit → Traced W β) :
    emit event >>= f = ⟨event :: (f ()).events, (f ()).result⟩ := rfl

theorem emitAll_bind (events : List (Event W)) (f : Unit → Traced W β) :
    emitAll events >>= f = ⟨events ++ (f ()).events, (f ()).result⟩ := rfl

theorem pure_bind (a : α) (f : α → Traced W β) : pure a >>= f = f a := rfl

theorem bind_assoc {γ : Type} (x : Traced W α) (f : α → Traced W β) (k : β → Traced W γ) :
    x >>= f >>= k = x >>= fun a => f a >>= k := by
  rcases x with ⟨events, fault | a⟩
  · rfl
  · rw [ok_bind, ok_bind]
    rcases hf : f a with ⟨later, fault | b⟩
    · rfl
    · simp only [ok_bind, List.append_assoc]

/-- What is merely looked up reports nothing. -/
theorem events_ofExcept_bind {x : Except Fault α} {f : α → Traced W β}
    (h : ∀ a, (f a).events = []) : (ofExcept x >>= f).events = [] := by
  cases x with
  | ok a => exact h a
  | error fault => rfl

/-- A sequence has a result exactly when both parts have one. -/
theorem bind_result_eq_ok {x : Traced W α} {f : α → Traced W β} {b : β} :
    (x >>= f).result = .ok b ↔ ∃ a, x.result = .ok a ∧ (f a).result = .ok b := by
  cases h : x.result with
  | ok a => simp [bind_of_ok h]
  | error fault => simp [bind_of_error h]

/-- It stops when one of the parts does. -/
theorem bind_result_eq_error {x : Traced W α} {f : α → Traced W β} {fault : Fault} :
    (x >>= f).result = .error fault ↔
      x.result = .error fault ∨ ∃ a, x.result = .ok a ∧ (f a).result = .error fault := by
  cases h : x.result with
  | ok a => simp [bind_of_ok h]
  | error fault => simp [bind_of_error h]

end CallClusters.Traced
