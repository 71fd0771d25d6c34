import Mathlib.Data.List.Forall2

/-!
# Steps that can fail

When a composed step succeeds: `bind_eq_ok_iff` for two steps in a row, `mapError_eq_ok_iff` for a
step whose errors are given another form, `mapM_eq_ok_iff` for a step with every member of a list.
When it fails: `bind_eq_error_iff` and `mapError_eq_error_iff`. A step that looks at several things
in a row fails with the first of their faults (`FailsAtFirst.bind`).
-/

namespace Arrowlet

/-- Two steps succeed together if both do. -/
theorem bind_eq_ok_iff {ε α β : Type} {x : Except ε α} {f : α → Except ε β} {b : β} :
    (x >>= f) = .ok b ↔ ∃ a, x = .ok a ∧ f a = .ok b := by
  cases x with
  | error e =>
    constructor
    · intro h; cases h
    · rintro ⟨_, h, _⟩; cases h
  | ok a =>
    constructor
    · intro h; exact ⟨a, rfl, h⟩
    · rintro ⟨_, ha, h⟩; cases ha; exact h

/-- A step that is given another error succeeds as before. -/
theorem mapError_eq_ok_iff {ε ε' α : Type} {f : ε → ε'} {x : Except ε α} {a : α} :
    x.mapError f = .ok a ↔ x = .ok a := by
  cases x with
  | error e =>
    constructor
    · intro h; cases h
    · intro h; cases h
  | ok a' =>
    constructor
    · intro h; cases h; rfl
    · intro h; cases h; rfl

/-- Two steps fail together if the first does, or the second after it. -/
theorem bind_eq_error_iff {ε α β : Type} {x : Except ε α} {f : α → Except ε β} {e : ε} :
    (x >>= f) = .error e ↔ x = .error e ∨ ∃ a, x = .ok a ∧ f a = .error e := by
  cases x with
  | error e' =>
    constructor
    · intro h; cases h; exact .inl rfl
    · rintro (h | ⟨_, h, _⟩)
      · cases h; rfl
      · cases h
  | ok a =>
    constructor
    · intro h; exact .inr ⟨a, rfl, h⟩
    · rintro (h | ⟨_, ha, h⟩)
      · cases h
      · cases ha; exact h

/-- Steps that are given other errors by an injective function are the same if they were before. -/
theorem eq_of_mapError_eq {ε ε' α : Type} {f : ε → ε'} (hf : ∀ e e', f e = f e' → e = e')
    {x y : Except ε α} (h : x.mapError f = y.mapError f) : x = y := by
  cases x with
  | error e =>
    cases y with
    | error e' => rw [hf e e' (Except.error.inj h)]
    | ok b => cases h
  | ok a =>
    cases y with
    | error e' => cases h
    | ok b => rw [Except.ok.inj h]

/-- A step that is given another error fails as before. -/
theorem mapError_eq_error_iff {ε ε' α : Type} {f : ε → ε'} {x : Except ε α} {e' : ε'} :
    x.mapError f = .error e' ↔ ∃ e, x = .error e ∧ e' = f e := by
  cases x with
  | error e =>
    constructor
    · intro h; cases h; exact ⟨e, rfl, rfl⟩
    · rintro ⟨_, h, rfl⟩; cases h; rfl
  | ok a =>
    constructor
    · intro h; cases h
    · rintro ⟨_, h, _⟩; cases h

section
variable {ε α β : Type} {f : α → Except ε β} {xs : List α} {ys : List β}

/-- A step with every member of a list succeeds if each of them does. -/
theorem mapM_eq_ok_iff :
    xs.mapM f = .ok ys ↔ xs.map f = ys.map .ok := by
  induction xs generalizing ys with
  | nil =>
    rw [List.mapM_nil, List.map_nil, eq_comm, eq_comm (a := []), List.map_eq_nil_iff]
    exact ⟨fun h => by cases h; rfl, fun h => by rw [h]; rfl⟩
  | cons x xs ih =>
    simp only [List.mapM_cons, bind_eq_ok_iff, ih]
    constructor
    · rintro ⟨y, hy, ys, hys, h⟩
      cases h
      rw [List.map_cons, List.map_cons, hy, hys]
    · intro h
      cases ys with
      | nil => cases h
      | cons y ys =>
        rw [List.map_cons, List.map_cons, List.cons.injEq] at h
        exact ⟨y, h.1, ys, h.2, rfl⟩

/-- If every step succeeds, there is a list of their results. -/
theorem exists_mapM_eq_ok (h : ∀ x ∈ xs, ∃ y, f x = .ok y) : ∃ ys, xs.mapM f = .ok ys := by
  induction xs with
  | nil => exact ⟨[], rfl⟩
  | cons x xs ih =>
    obtain ⟨y, hy⟩ := h x (.head _)
    obtain ⟨ys, hys⟩ := ih fun x' hx' => h x' (.tail _ hx')
    exact ⟨y :: ys, by rw [mapM_eq_ok_iff, List.map_cons, hy, mapM_eq_ok_iff.mp hys, List.map_cons]⟩

/-- Every step has its result in the list of results. -/
theorem exists_mem_of_map_eq_map_ok (h : xs.map f = ys.map .ok) {x : α} (hx : x ∈ xs) :
    ∃ y ∈ ys, f x = .ok y := by
  have hmem : f x ∈ ys.map .ok := h ▸ List.mem_map_of_mem hx
  obtain ⟨y, hy, heq⟩ := List.mem_map.mp hmem
  exact ⟨y, hy, heq.symm⟩

/-- No member is one that the step fails with. -/
theorem ne_error_of_map_eq_map_ok (h : xs.map f = ys.map .ok) {x : α} (hx : x ∈ xs) (e : ε) :
    f x ≠ .error e := by
  obtain ⟨y, -, hy⟩ := exists_mem_of_map_eq_map_ok h hx
  rw [hy]
  exact nofun

/-- The results stand in the order of the steps. -/
theorem forall₂_of_map_eq_map_ok (h : xs.map f = ys.map .ok) :
    List.Forall₂ (fun x y => f x = .ok y) xs ys := by
  rwa [← List.forall₂_map_right_iff, ← List.forall₂_map_left_iff, List.forall₂_eq_eq_eq]

/-- The list of results holds nothing else. -/
theorem exists_mem_of_mem_results (h : xs.map f = ys.map .ok) {y : β} (hy : y ∈ ys) :
    ∃ x ∈ xs, f x = .ok y := by
  have hmem : .ok y ∈ xs.map f := h ▸ List.mem_map_of_mem hy
  exact List.mem_map.mp hmem

end

/-! ## The first of several faults -/

/-- A step fails with the first of some faults, and succeeds if there are none. -/
def FailsAtFirst {ε α : Type} (x : Except ε α) (faults : List ε) : Prop :=
  match x with
  | .ok _ => faults = []
  | .error e => faults.head? = some e

section
variable {ε α β : Type} {x : Except ε α} {faults faults' : List ε}

theorem FailsAtFirst.eq_error_iff (h : FailsAtFirst x faults) {e : ε} :
    x = .error e ↔ faults.head? = some e := by
  cases x with
  | ok a =>
    have hnil : faults = [] := h
    simp [hnil]
  | error e' =>
    have hhead : faults.head? = some e' := h
    simp [hhead]

theorem FailsAtFirst.exists_ok_iff (h : FailsAtFirst x faults) :
    (∃ a, x = .ok a) ↔ faults = [] := by
  cases x with
  | ok a => exact iff_of_true ⟨a, rfl⟩ h
  | error e =>
    have hhead : faults.head? = some e := h
    refine iff_of_false ?_ ?_
    · rintro ⟨a, ha⟩; cases ha
    · rintro rfl; cases hhead

/-- The faults of a step come before those of the step after it. -/
theorem FailsAtFirst.bind {f : α → Except ε β} (h : FailsAtFirst x faults)
    (hf : ∀ a, FailsAtFirst (f a) faults') : FailsAtFirst (x >>= f) (faults ++ faults') := by
  cases x with
  | ok a =>
    have hnil : faults = [] := h
    rw [hnil]
    exact hf a
  | error e =>
    have hhead : faults.head? = some e := h
    have happend : (faults ++ faults').head? = some e := by
      rw [List.head?_append, hhead]
      rfl
    exact happend

end

end Arrowlet
