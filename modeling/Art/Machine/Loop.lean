import Mathlib.Data.List.Range

/-!
# Loops over an index range

The loops `for (size_t i = 0; i < n; ++i)` that thread a state through a body are
`List.foldl` over `List.range n`, or `List.foldlM` in `Option` when the body may
fail. An invariant indexed by the number of indices done carries a property
through such a loop (`foldl_range_invariant`, or `foldl_range'_invariant` from a first
index other than 0); for a body that may fail, the rule
also says that the loop does not fail (`foldlM_range_invariant`). A loop over the elements
of a list carries an invariant of the elements done (`foldlM_invariant`).

A loop `while (test(i) && i < limit)` that counts up, or down, is `whileUp` (`whileDown`);
one that runs while the test holds and stops at `j` runs the body on each index up to `j`
(down to `j`) in turn (`whileUp_eq`, `whileDown_eq`).

A loop of reads that may fail (`List.mapM` in `Option`) whose reads all succeed returns
what each returns (`mapM_eq_some_map`); a loop that visits the elements that pass a test
visits the filtered list (`flatten_map_if_singleton`).

A loop `do { body } while (condition)` is `doWhile`, with a bound on the runs of
the body. With that bound at least the number of runs after which the condition
first fails, it returns the state after those runs (`doWhile_eq_iterate`).
-/

set_option autoImplicit false

namespace Art.Machine

variable {State : Type}

/-- **Invariant rule for a loop.** -/
theorem foldl_range_invariant (step : State → Nat → State) (invariant : Nat → State → Prop) (n : Nat)
    (init : State) (start : invariant 0 init)
    (preserve : ∀ i state, i < n → invariant i state → invariant (i + 1) (step state i)) :
    invariant n ((List.range n).foldl step init) := by
  induction n with
  | zero => exact start
  | succ n ih =>
      rw [List.range_succ, List.foldl_append, List.foldl_cons, List.foldl_nil]
      exact preserve n _ (by omega) (ih fun i state below => preserve i state (by omega))

/-- **Invariant rule for a loop from `start`**, `for (i = start; i < start + n; ++i)`. -/
theorem foldl_range'_invariant (step : State → Nat → State) (invariant : Nat → State → Prop) (start n : Nat)
    (init : State) (first : invariant start init)
    (preserve : ∀ i state, start ≤ i → i < start + n → invariant i state → invariant (i + 1) (step state i)) :
    invariant (start + n) ((List.range' start n).foldl step init) := by
  induction n with
  | zero => exact first
  | succ n ih =>
      rw [List.range'_concat, List.foldl_append, List.foldl_cons, List.foldl_nil, Nat.one_mul, ← Nat.add_assoc]
      exact preserve (start + n) _ (by omega) (by omega) (ih fun i state low high => preserve i state low (by omega))

/-- **Invariant rule for a loop whose body may fail.** When every step from a state
that satisfies the invariant succeeds, with a state that satisfies it one index
further, the loop succeeds. -/
theorem foldlM_range_invariant (step : State → Nat → Option State) (invariant : Nat → State → Prop)
    (n : Nat) (init : State) (start : invariant 0 init)
    (preserve : ∀ i state, i < n → invariant i state →
      ∃ next, step state i = some next ∧ invariant (i + 1) next) :
    ∃ final, (List.range n).foldlM step init = some final ∧ invariant n final := by
  induction n with
  | zero => exact ⟨init, rfl, start⟩
  | succ n ih =>
      obtain ⟨middle, loop, holds⟩ := ih fun i state below => preserve i state (by omega)
      obtain ⟨final, last, holdsFinal⟩ := preserve n middle (by omega) holds
      refine ⟨final, ?_, holdsFinal⟩
      rw [List.range_succ, List.foldlM_append, loop]
      simp [last]

/-- **Invariant rule for a loop over a list whose body may fail**, with the invariant indexed
by the elements done: each step is taken knowing that its element and those before it are a
prefix of the list. -/
theorem foldlM_invariant {α : Type} (step : State → α → Option State) (invariant : List α → State → Prop)
    (l : List α) (init : State) (start : invariant [] init)
    (preserve : ∀ done x state, done ++ [x] <+: l → invariant done state →
      ∃ next, step state x = some next ∧ invariant (done ++ [x]) next) :
    ∃ final, l.foldlM step init = some final ∧ invariant l final := by
  induction l using List.reverseRecOn with
  | nil => exact ⟨init, rfl, start⟩
  | append_singleton l x ih =>
      obtain ⟨middle, loop, holds⟩ :=
        ih fun done y state before => preserve done y state (before.trans (List.prefix_append l [x]))
      obtain ⟨final, last, holdsFinal⟩ := preserve l x middle (List.prefix_refl _) holds
      refine ⟨final, ?_, holdsFinal⟩
      rw [List.foldlM_append, loop]
      simp [last]

/-- **A property that each run of a loop's body keeps holds after the loop**, when the loop
ends. -/
theorem foldlM_preserves {α : Type} {step : State → α → Option State} (property : State → Prop)
    (keep : ∀ state x next, step state x = some next → property state → property next) :
    ∀ (l : List α) {init final : State}, l.foldlM step init = some final → property init → property final := by
  intro l
  induction l with
  | nil =>
      intro init final done holds
      rw [List.foldlM_nil, Option.pure_def, Option.some.injEq] at done
      exact done ▸ holds
  | cons x l ih =>
      intro init final done holds
      rw [List.foldlM_cons] at done
      obtain ⟨middle, first, rest⟩ := Option.bind_eq_some_iff.1 done
      exact ih rest (keep init x middle first holds)

/-- `do { state = body(state); } while (condition(state));`, for at most `fuel`
runs of the body. -/
def doWhile (body : State → State) (condition : State → Bool) : Nat → State → State
  | 0, state => state
  | fuel + 1, state =>
      let next := body state
      if condition next then doWhile body condition fuel next else next

/-- **Exit of a do-while loop.** When the condition fails for the first time after
`runs` runs of the body, and the fuel allows that many, the loop returns the state
after them. -/
theorem doWhile_eq_iterate (body : State → State) (condition : State → Bool) {runs : Nat}
    (positive : 0 < runs) {init : State} (stops : condition (body^[runs] init) = false)
    (continues : ∀ j, 0 < j → j < runs → condition (body^[j] init) = true) {fuel : Nat}
    (enough : runs ≤ fuel) : doWhile body condition fuel init = body^[runs] init := by
  induction runs generalizing init fuel with
  | zero => omega
  | succ runs ih =>
      obtain ⟨fuel, rfl⟩ : ∃ f, fuel = f + 1 := ⟨fuel - 1, by omega⟩
      rw [doWhile, Function.iterate_succ_apply]
      rcases Nat.eq_zero_or_pos runs with rfl | more
      · -- the first run of the body already fails the condition
        rw [Function.iterate_one] at stops
        simp only [stops, Function.iterate_zero_apply, Bool.false_eq_true, if_false]
      · have first : condition (body init) = true := by
          simpa using continues 1 (by omega) (by omega)
        rw [if_pos first]
        apply ih more
        · rwa [← Function.iterate_succ_apply]
        · intro j jpos jlt
          rw [← Function.iterate_succ_apply]
          exact continues (j + 1) (by omega) (by omega)
        · omega

/-! ## Counting loops -/

/-- `while (test(i) && i < limit) { state = body(i, state); ++i; }`, for a body that may fail:
the index where the loop stops, and the state. -/
def whileUp (test : Nat → Bool) (body : Nat → State → Option State) (limit i : Nat) (state : State) :
    Option (Nat × State) :=
  if test i ∧ i < limit then (body i state).bind (whileUp test body limit (i + 1)) else some (i, state)
termination_by limit - i

/-- `while (test(i) && i > limit) { --i; state = body(i, state); }`. -/
def whileDown (test : Nat → Bool) (body : Nat → State → Option State) (limit i : Nat) (state : State) :
    Option (Nat × State) :=
  if test i ∧ limit < i then (body (i - 1) state).bind (whileDown test body limit (i - 1)) else some (i, state)
termination_by i

/-- **A loop up from `i` that runs while the test holds and stops at `j`** runs the body on
`i` to `j - 1`, in order. -/
theorem whileUp_eq (test : Nat → Bool) (body : Nat → State → Option State) {limit i j : Nat} (le : i ≤ j)
    (atMost : j ≤ limit) (runs : ∀ k, i ≤ k → k < j → test k = true) (stops : test j = false ∨ j = limit)
    (state : State) :
    whileUp test body limit i state = ((List.range' i (j - i)).foldlM (fun state k => body k state) state).map (j, ·) := by
  obtain ⟨d, rfl⟩ : ∃ d, j = i + d := ⟨j - i, by omega⟩
  rw [Nat.add_sub_cancel_left]
  induction d generalizing i state with
  | zero =>
      have halt : ¬(test i = true ∧ i < limit) := by
        rintro ⟨running, below⟩
        rcases stops with stopped | atLimit
        · rw [Nat.add_zero, running] at stopped
          exact Bool.noConfusion stopped
        · omega
      rw [whileUp, if_neg halt, Nat.add_zero]
      rfl
  | succ d ih =>
      rw [whileUp, if_pos ⟨runs i (Nat.le_refl i) (by omega), by omega⟩, List.range'_succ, List.foldlM_cons]
      cases stepped : body i state with
      | none => rfl
      | some next =>
          rw [show i + (d + 1) = i + 1 + d by omega] at atMost runs stops ⊢
          exact ih next (by omega) atMost (fun k low high => runs k (by omega) high) stops

/-- **A loop down from `i` that runs while the test holds and stops at `j`** runs the body on
`i - 1` down to `j`. -/
theorem whileDown_eq (test : Nat → Bool) (body : Nat → State → Option State) {limit i j : Nat} (le : j ≤ i)
    (atLeast : limit ≤ j) (runs : ∀ k, j < k → k ≤ i → test k = true) (stops : test j = false ∨ j = limit)
    (state : State) :
    whileDown test body limit i state =
      ((List.range' j (i - j)).reverse.foldlM (fun state k => body k state) state).map (j, ·) := by
  obtain ⟨d, rfl⟩ : ∃ d, i = j + d := ⟨i - j, by omega⟩
  rw [Nat.add_sub_cancel_left]
  induction d generalizing state with
  | zero =>
      have halt : ¬(test (j + 0) = true ∧ limit < j + 0) := by
        rintro ⟨running, above⟩
        rcases stops with stopped | atLimit
        · rw [Nat.add_zero] at running
          rw [running] at stopped
          exact Bool.noConfusion stopped
        · omega
      rw [whileDown, if_neg halt, Nat.add_zero]
      rfl
  | succ d ih =>
      rw [whileDown, if_pos ⟨runs (j + (d + 1)) (by omega) (Nat.le_refl _), by omega⟩, List.range'_concat,
        List.reverse_append, List.reverse_singleton, List.singleton_append, List.foldlM_cons, Nat.one_mul,
        show j + (d + 1) - 1 = j + d by omega]
      cases stepped : body (j + d) state with
      | none => rfl
      | some next => exact ih next (by omega) fun k low high => runs k low (by omega)

/-- A loop whose body cannot fail is the plain loop. -/
theorem foldlM_some {α : Type} (f : State → α → State) (l : List α) (init : State) :
    l.foldlM (fun state x => some (f state x)) init = some (l.foldl f init) :=
  List.foldlM_pure

/-- A loop up to `limit` with no other test runs the body on every index up to it. -/
theorem whileUp_true (body : Nat → State → Option State) {limit i : Nat} (le : i ≤ limit) (state : State) :
    whileUp (fun _ => true) body limit i state =
      ((List.range' i (limit - i)).foldlM (fun state k => body k state) state).map (limit, ·) :=
  whileUp_eq _ body le (Nat.le_refl limit) (fun _ _ _ => rfl) (Or.inr rfl) state

/-- Two loops whose bodies agree on the elements of the list agree. -/
theorem foldlM_congr {α : Type} {f g : State → α → Option State} :
    ∀ l : List α, (∀ x ∈ l, ∀ state, f state x = g state x) → ∀ state, l.foldlM f state = l.foldlM g state
  | [], _, _ => rfl
  | x :: l, same, state => by
      rw [List.foldlM_cons, List.foldlM_cons, same x List.mem_cons_self]
      cases g state x with
      | none => rfl
      | some next => exact foldlM_congr l (fun y mem => same y (List.mem_cons_of_mem _ mem)) next

/-- **A loop over groups whose body is a loop over the members of its group** is a loop over
all the members, group after group. -/
theorem foldlM_flatMap {α β : Type} (members : α → List β) (step : State → β → Option State)
    (body : State → α → Option State) :
    ∀ groups : List α, (∀ group ∈ groups, ∀ state, body state group = (members group).foldlM step state) →
      ∀ state, groups.foldlM body state = (groups.flatMap members).foldlM step state
  | [], _, _ => rfl
  | group :: groups, inner, state => by
      rw [List.foldlM_cons, List.flatMap_cons, List.foldlM_append, inner group List.mem_cons_self]
      cases (members group).foldlM step state with
      | none => rfl
      | some next =>
          exact foldlM_flatMap members step body groups (fun g mem => inner g (List.mem_cons_of_mem _ mem)) next

/-! ## Loops that visit -/

/-- **A loop of reads that all succeed** returns what each read returns. -/
theorem mapM_eq_some_map {α β : Type} {f : α → Option β} {g : α → β} :
    ∀ {l : List α}, (∀ x ∈ l, f x = some (g x)) → l.mapM f = some (l.map g)
  | [], _ => rfl
  | x :: l, read => by
    rw [List.mapM_cons, read x List.mem_cons_self, mapM_eq_some_map fun y mem => read y (List.mem_cons_of_mem x mem)]
    rfl

/-- A loop that visits the elements of a list that pass a test visits the filtered list. -/
theorem flatten_map_if_singleton {α β : Type} (p : α → Bool) (f : α → β) :
    ∀ l : List α, (l.map fun x => if p x then [f x] else []).flatten = (l.filter p).map f
  | [] => rfl
  | x :: l => by
    rw [List.map_cons, List.flatten_cons, flatten_map_if_singleton p f l, List.filter_cons]
    cases p x <;> rfl

/-- Every `step`-th number from `base + first * step`. -/
theorem range'_step_eq_map (base step : Nat) :
    ∀ first n, List.range' (base + first * step) n step = (List.range' first n).map fun j => base + j * step
  | _, 0 => rfl
  | first, n + 1 => by
    rw [List.range'_succ, List.range'_succ, List.map_cons, Nat.add_assoc, ← Nat.succ_mul,
      range'_step_eq_map base step (first + 1) n]

end Art.Machine
