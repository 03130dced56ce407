import LinkedApi.Emission

/-!
# Steps that keep their state

Buffers, writers and emissions work in one kind of monad: a step may fail, it keeps what it has
done to its state when it does, and it has effects in a world. The world is any type, so that a
sink and a transport may do anything with it. Running a sequence of steps is opened here once;
triples carry what holds before a step to what holds after it, whether it returns or fails.
-/

namespace LinkedApi

/-- Steps that fail with `ε`, work on a state `σ` and have effects in a world `ω`. -/
abbrev Steps (ε σ ω : Type) := ExceptT ε (StateT σ (StateM ω))

namespace Steps

variable {ε σ ω α β : Type} {s : σ} {v : ω}

@[simp]
theorem bind_apply (x : Steps ε σ ω α) (f : α → Steps ε σ ω β) (s : σ) (v : ω) :
    (x >>= f) s v =
      match x s v with
      | ((.ok a, s'), v') => f a s' v'
      | ((.error e, s'), v') => ((.error e, s'), v') := by
  simp only [bind, ExceptT.bind, ExceptT.mk, StateT.bind]
  rcases x s v with ⟨⟨_ | a, s'⟩, v'⟩ <;> rfl

/-- The value of a first step is known, so that the step need not be looked at again. -/
theorem bind_of_ok {x : Steps ε σ ω α} {a : α} {s' : σ} {v' : ω} (h : x s v = ((.ok a, s'), v'))
    (f : α → Steps ε σ ω β) : (x >>= f) s v = f a s' v' := by
  rw [bind_apply, h]

theorem bind_of_error {x : Steps ε σ ω α} {e : ε} {s' : σ} {v' : ω}
    (h : x s v = ((.error e, s'), v')) (f : α → Steps ε σ ω β) :
    (x >>= f) s v = ((.error e, s'), v') := by
  rw [bind_apply, h]

@[simp]
theorem pure_apply (a : α) : (pure a : Steps ε σ ω α) s v = ((.ok a, s), v) := rfl

@[simp]
theorem throw_apply (e : ε) : (throw e : Steps ε σ ω α) s v = ((.error e, s), v) := rfl

@[simp]
theorem get_apply : (get : Steps ε σ ω σ) s v = ((.ok s, s), v) := rfl

@[simp]
theorem modify_apply (f : σ → σ) :
    (modify f : Steps ε σ ω Unit) s v = ((.ok (), f s), v) := rfl

@[simp]
theorem liftM_apply (x : StateM ω α) :
    (liftM x : Steps ε σ ω α) s v = ((.ok (x v).1, s), (x v).2) := rfl

/-- What holds of an outcome: `Q` if there is a value, and `R` if there is a failure. -/
def After (Q : α → σ → ω → Prop) (R : ε → σ → ω → Prop) : (Except ε α × σ) × ω → Prop
  | ((.ok a, s), v) => Q a s v
  | ((.error e, s), v) => R e s v

/-- From where `P` holds, `x` returns a value with `Q`, or fails with `R`. -/
def Triple (P : σ → ω → Prop) (x : Steps ε σ ω α) (Q : α → σ → ω → Prop)
    (R : ε → σ → ω → Prop) : Prop :=
  ∀ s v, P s v → After Q R (x s v)

variable {P : σ → ω → Prop} {Q : α → σ → ω → Prop} {R : ε → σ → ω → Prop}

theorem After.imp {Q' : α → σ → ω → Prop} {R' : ε → σ → ω → Prop} {outcome : (Except ε α × σ) × ω}
    (h : After Q R outcome) (hQ : ∀ a s v, Q a s v → Q' a s v)
    (hR : ∀ e s v, R e s v → R' e s v) : After Q' R' outcome := by
  rcases outcome with ⟨⟨e | a, s⟩, v⟩
  · exact hR e s v h
  · exact hQ a s v h

theorem After.and {Q' : α → σ → ω → Prop} {R' : ε → σ → ω → Prop} {outcome : (Except ε α × σ) × ω}
    (h : After Q R outcome) (h' : After Q' R' outcome) :
    After (fun a s v => Q a s v ∧ Q' a s v) (fun e s v => R e s v ∧ R' e s v) outcome := by
  rcases outcome with ⟨⟨e | a, s⟩, v⟩ <;> exact ⟨h, h'⟩

/-- What holds whether there is a value or a failure holds of the state and of the world. -/
theorem after_state {P : σ → ω → Prop} {outcome : (Except ε α × σ) × ω} :
    After (fun _ => P) (fun _ => P) outcome ↔ P outcome.1.2 outcome.2 := by
  rcases outcome with ⟨⟨_ | _, _⟩, _⟩ <;> rfl

/-- What one step establishes is where the next starts. -/
theorem Triple.bind {x : Steps ε σ ω α} {f : α → Steps ε σ ω β} {Q' : β → σ → ω → Prop}
    (hx : Triple P x Q R) (hf : ∀ a, Triple (Q a) (f a) Q' R) : Triple P (x >>= f) Q' R := by
  intro s v hP
  have hfirst := hx s v hP
  rw [bind_apply]
  rcases hrun : x s v with ⟨⟨e | a, s'⟩, v'⟩ <;> rw [hrun] at hfirst
  · exact hfirst
  · exact hf a s' v' hfirst

/-- Of the steps that follow a first one, only what they do after it counts. -/
theorem Triple.bind_congr {x : Steps ε σ ω α} (hx : Triple P x Q R) {f g : α → Steps ε σ ω β}
    (hfg : ∀ a s v, Q a s v → f a s v = g a s v) (hP : P s v) :
    (x >>= f) s v = (x >>= g) s v := by
  have hfirst := hx s v hP
  rw [bind_apply, bind_apply]
  rcases hrun : x s v with ⟨⟨e | a, s'⟩, v'⟩
  · rfl
  · rw [hrun] at hfirst
    exact hfg a s' v' hfirst

theorem Triple.weaken {x : Steps ε σ ω α} {P' : σ → ω → Prop} {Q' : α → σ → ω → Prop}
    {R' : ε → σ → ω → Prop} (hx : Triple P x Q R) (hP : ∀ s v, P' s v → P s v)
    (hQ : ∀ a s v, Q a s v → Q' a s v) (hR : ∀ e s v, R e s v → R' e s v) :
    Triple P' x Q' R' :=
  fun s v hbefore => (hx s v (hP s v hbefore)).imp hQ hR

end Steps

end LinkedApi
