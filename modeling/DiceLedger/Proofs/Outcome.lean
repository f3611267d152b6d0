/-!
# Outcomes of chained steps

A chain of fallible steps succeeds exactly when each of its steps does. The lemmas on
`EStateM` say the same with the state that each step leaves behind.
-/
namespace DiceLedger

variable {ε ε' α β : Type}

theorem map_eq_ok_iff {f : α → β} {x : Except ε α} {b : β} :
    x.map f = .ok b ↔ ∃ a, x = .ok a ∧ f a = b := by
  cases x <;> simp [Except.map]

theorem map_eq_error_iff {f : α → β} {x : Except ε α} {e : ε} :
    x.map f = .error e ↔ x = .error e := by
  cases x <;> simp [Except.map]

@[simp] theorem mapError_ok (f : ε → ε') (a : α) :
    (Except.ok a : Except ε α).mapError f = .ok a := rfl

@[simp] theorem mapError_error (f : ε → ε') (e : ε) :
    (Except.error e : Except ε α).mapError f = .error (f e) := rfl

theorem mapError_eq_ok_iff {f : ε → ε'} {x : Except ε α} {a : α} :
    x.mapError f = .ok a ↔ x = .ok a := by
  cases x <;> simp

theorem bind_eq_ok_iff {f : α → Except ε β} {x : Except ε α} {b : β} :
    (x >>= f) = .ok b ↔ ∃ a, x = .ok a ∧ f a = .ok b := by
  cases x <;> simp [bind, Except.bind]

theorem bind_eq_error_iff {f : α → Except ε β} {x : Except ε α} {e : ε} :
    (x >>= f) = .error e ↔ x = .error e ∨ ∃ a, x = .ok a ∧ f a = .error e := by
  cases x <;> simp [bind, Except.bind]

theorem mapM_of_ok {f : α → Except ε β} {g : α → β} {xs : List α}
    (h : ∀ x ∈ xs, f x = .ok (g x)) : xs.mapM f = .ok (xs.map g) := by
  induction xs with
  | nil => rfl
  | cons x xs ih =>
    rw [List.mapM_cons, h x List.mem_cons_self, ih fun y hy => h y (List.mem_cons_of_mem x hy)]
    rfl

/-- A list is worked off when each of its elements is. -/
theorem exists_mapM_eq_ok_iff {f : α → Except ε β} {xs : List α} :
    (∃ ys, xs.mapM f = .ok ys) ↔ ∀ x ∈ xs, ∃ y, f x = .ok y := by
  induction xs with
  | nil => simp [pure, Except.pure]
  | cons x xs ih =>
    rw [List.mapM_cons, List.forall_mem_cons, ← ih]
    cases f x <;> cases xs.mapM f <;> simp [bind, Except.bind, pure, Except.pure]

/-- The first element that fails ends the work. -/
theorem mapM_eq_error_iff {f : α → Except ε β} {xs : List α} {e : ε} :
    xs.mapM f = .error e ↔ ∃ done x rest, xs = done ++ x :: rest ∧
      (∀ y ∈ done, ∃ b, f y = .ok b) ∧ f x = .error e := by
  induction xs with
  | nil => simp [pure, Except.pure]
  | cons x xs ih =>
    rw [List.mapM_cons, bind_eq_error_iff]
    constructor
    · rintro (h | ⟨b, hx, h⟩)
      · exact ⟨[], x, xs, rfl, by simp, h⟩
      · rw [bind_eq_error_iff] at h
        obtain h | ⟨_, _, h⟩ := h
        · obtain ⟨done, y, rest, rfl, hdone, hy⟩ := ih.mp h
          exact ⟨x :: done, y, rest, rfl, List.forall_mem_cons.mpr ⟨⟨b, hx⟩, hdone⟩, hy⟩
        · cases h
    · rintro ⟨done, y, rest, heq, hdone, hy⟩
      cases done with
      | nil =>
        cases heq
        exact .inl hy
      | cons z done =>
        cases heq
        obtain ⟨⟨b, hz⟩, hdone⟩ := List.forall_mem_cons.mp hdone
        refine .inr ⟨b, hz, ?_⟩
        rw [ih.mpr ⟨done, y, rest, rfl, hdone, hy⟩]
        rfl

/-- A list is gone through until a step fails. -/
theorem foldlM_eq_error_iff {f : β → α → Except ε β} {xs : List α} {e : ε} :
    ∀ {s : β}, xs.foldlM f s = .error e ↔ ∃ done x rest mid, xs = done ++ x :: rest ∧
      done.foldlM f s = .ok mid ∧ f mid x = .error e := by
  induction xs with
  | nil => simp [pure, Except.pure]
  | cons x xs ih =>
    intro s
    rw [List.foldlM_cons, bind_eq_error_iff]
    constructor
    · rintro (h | ⟨mid, hx, h⟩)
      · exact ⟨[], x, xs, s, rfl, rfl, h⟩
      · obtain ⟨done, y, rest, last, rfl, hdone, hy⟩ := ih.mp h
        refine ⟨x :: done, y, rest, last, rfl, ?_, hy⟩
        rw [List.foldlM_cons, hx]
        exact hdone
    · rintro ⟨done, y, rest, last, heq, hdone, hy⟩
      cases done with
      | nil =>
        cases heq
        cases hdone
        exact .inl hy
      | cons z done =>
        cases heq
        rw [List.foldlM_cons, bind_eq_ok_iff] at hdone
        obtain ⟨mid, hx, hdone⟩ := hdone
        exact .inr ⟨mid, hx, ih.mpr ⟨done, y, rest, last, rfl, hdone, hy⟩⟩

theorem foldlM_append_eq_ok_iff {f : β → α → Except ε β} {xs ys : List α} {s t : β} :
    (xs ++ ys).foldlM f s = .ok t ↔
      ∃ mid, xs.foldlM f s = .ok mid ∧ ys.foldlM f mid = .ok t := by
  rw [List.foldlM_append, bind_eq_ok_iff]

section

variable {σ : Type} {x : EStateM ε σ α} {f : α → EStateM ε σ β} {s t : σ}

theorem run_of_ok {a : α} (h : x s = .ok a t) : (x >>= f) s = f a t := by
  simp only [bind, EStateM.bind, h]

theorem run_of_error {e : ε} (h : x s = .error e t) : (x >>= f) s = .error e t := by
  simp only [bind, EStateM.bind, h]

/-- What a step ends in, seen through what is made of its answer. -/
theorem run_return {w : Bool} {a : α} {e : ε} {make : α → β}
    (h : x s = if w then .ok a t else .error e t) :
    (do return make (← x) : EStateM ε σ β) s = if w then .ok (make a) t else .error e t := by
  cases w with
  | true => exact run_of_ok h
  | false => exact run_of_error h

theorem run_eq_ok_iff {b : β} :
    (x >>= f) s = .ok b t ↔ ∃ a mid, x s = .ok a mid ∧ f a mid = .ok b t := by
  cases h : x s with
  | ok a mid =>
    rw [run_of_ok h]
    constructor
    · intro hf
      exact ⟨a, mid, rfl, hf⟩
    · rintro ⟨a', mid', hx, hf⟩
      cases hx
      exact hf
  | error e mid =>
    rw [run_of_error h]
    constructor
    · intro hf
      cases hf
    · rintro ⟨a', mid', hx, hf⟩
      cases hx

theorem run_get (s : σ) : (get : EStateM ε σ σ) s = .ok s s := rfl

theorem run_modify (change : σ → σ) (s : σ) :
    (modify change : EStateM ε σ PUnit) s = .ok () (change s) := rfl

/-- The state that a step leaves behind, whether it succeeds or not. -/
def final : EStateM.Result ε σ α → σ
  | .ok _ s => s
  | .error _ s => s

def succeeds : EStateM.Result ε σ α → Bool
  | .ok _ _ => true
  | .error _ _ => false

theorem exists_of_succeeds {r : EStateM.Result ε σ α} (h : succeeds r = true) :
    ∃ a, r = .ok a (final r) := by
  cases r with
  | ok a s => exact ⟨a, rfl⟩
  | error e s => cases h

theorem exists_of_fails {r : EStateM.Result ε σ α} (h : succeeds r = false) :
    ∃ e, r = .error e (final r) := by
  cases r with
  | ok a s => cases h
  | error e s => exact ⟨e, rfl⟩

/-- What a step answers, if it does. -/
def answer? : EStateM.Result ε σ α → Option α
  | .ok a _ => some a
  | .error _ _ => none

theorem eq_ok_of_answer? {r : EStateM.Result ε σ α} {a : α} (h : answer? r = some a) :
    r = .ok a (final r) := by
  cases r with
  | ok a' s => rw [Option.some.inj h, final]
  | error e s => cases h

/-- A second step that changes nothing, like an answer or an error, leaves what the first left. -/
theorem final_bind_of_still (hf : ∀ a mid, final (f a mid) = mid) :
    final ((x >>= f) s) = final (x s) := by
  cases h : x s with
  | ok a mid =>
    rw [run_of_ok h]
    exact hf a mid
  | error e mid =>
    rw [run_of_error h]
    rfl

/-- What each of two steps preserves, the two in a row preserve. -/
theorem final_bind {R : σ → σ → Prop} (trans : ∀ {a b c}, R a b → R b c → R a c)
    (hx : R s (final (x s))) (hf : ∀ a mid, x s = .ok a mid → R mid (final (f a mid))) :
    R s (final ((x >>= f) s)) := by
  cases h : x s with
  | ok a mid =>
    rw [h] at hx
    rw [run_of_ok h]
    exact trans hx (hf a mid h)
  | error e mid =>
    rw [h] at hx
    rw [run_of_error h]
    exact hx

end

end DiceLedger
