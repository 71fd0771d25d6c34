/-!
# Repeated steps with a limit

A step that may fail gives a result and a new state, and it is repeated from state to state up to a
result that is the last one. `repeatWithin` does this for at most a given number of results and
gives nothing if there are more: it recurses on the limit, so it needs no reason to end. A run that
obeys the equations of the repetition (`IsRepetition`) agrees with it as soon as the limit is the
size of the state, for any size that every step lowers (`IsRepetition.repeatWithin_eq`).
-/

namespace Arrowlet

section
variable {ε α σ : Type} {step : σ → Except ε (α × σ)} {last : α × σ → Bool}

/-- The results of the steps from `s` on if there are at most `n`, and nothing if there are more. -/
def repeatWithin (step : σ → Except ε (α × σ)) (last : α × σ → Bool) (n : Nat) (s : σ) :
    Option (Except ε (List α)) :=
  match step s, n with
  | .error e, _ => some (.error e)
  | .ok _, 0 => none
  | .ok x, n + 1 =>
    if last x then some (.ok [x.1])
    else (repeatWithin step last n x.2).map (Except.map (x.1 :: ·))

/-- What is found within a limit has no more results than that. -/
theorem length_le_of_repeatWithin {n : Nat} {s : σ} {xs : List α}
    (h : repeatWithin step last n s = some (.ok xs)) : xs.length ≤ n := by
  fun_induction repeatWithin step last n s generalizing xs with
  | case1 | case2 => cases h
  | case3 =>
    cases h
    exact Nat.succ_le_succ (Nat.zero_le _)
  | case4 s n x _ _ ih =>
    obtain ⟨r, hr, hcons⟩ := Option.map_eq_some_iff.mp h
    cases r with
    | error e => cases hcons
    | ok xs' =>
      cases hcons
      exact Nat.succ_le_succ (ih hr)

/-- The run from each state repeats a step: it fails where the step does, ends with the last result,
and puts any other result before the run from the next state. -/
structure IsRepetition (step : σ → Except ε (α × σ)) (last : α × σ → Bool)
    (run : σ → Except ε (List α)) : Prop where
  fail : ∀ {s e}, step s = .error e → run s = .error e
  stop : ∀ {s x}, step s = .ok x → last x → run s = .ok [x.1]
  next : ∀ {s x}, step s = .ok x → ¬ last x → run s = (run x.2).map (x.1 :: ·)

/-- A run stays within the size of its first state, if a step is taken only from states that are not
empty and a step that is not the last one leads to a smaller state. -/
theorem IsRepetition.repeatWithin_eq {run : σ → Except ε (List α)} (h : IsRepetition step last run)
    (size : σ → Nat) (hpos : ∀ {s x}, step s = .ok x → 0 < size s)
    (hlt : ∀ {s x}, step s = .ok x → ¬ last x → size x.2 < size s) {n : Nat} {s : σ}
    (hn : size s ≤ n) : repeatWithin step last n s = some (run s) := by
  fun_induction repeatWithin step last n s with
  | case1 n s e hstep => rw [h.fail hstep]
  | case2 s x hstep => exact absurd hn (Nat.not_le_of_lt (hpos hstep))
  | case3 s n x hstep hlast => rw [h.stop hstep hlast]
  | case4 s n x hstep hlast ih =>
    have hsmaller := hlt hstep hlast
    rw [ih (by omega), h.next hstep hlast]
    rfl

end

end Arrowlet
