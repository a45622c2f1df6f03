import Mathlib.Data.List.Forall2

/-!
# Outcomes of steps that may be refused

Steps are carried out one after the other, up to the first that is refused. The whole is done exactly when
every step is done, and it is refused with the fault of the first step that is refused. The steps of a list
are its items; what they give stands in the same places.
-/
namespace MusicScore.Outcome

variable {α β ε : Type}

/-- Two steps are done when the first is done and the second is done with what it gave. -/
theorem bind_eq_ok {x : Except ε α} {f : α → Except ε β} {b : β} :
    (x >>= f) = .ok b ↔ ∃ a, x = .ok a ∧ f a = .ok b := by
  cases x with
  | error e => simp [bind, Except.bind]
  | ok a => simp [bind, Except.bind]

/-- Two steps are refused when the first is refused, or else the second is. -/
theorem bind_eq_error {x : Except ε α} {f : α → Except ε β} {e : ε} :
    (x >>= f) = .error e ↔ x = .error e ∨ ∃ a, x = .ok a ∧ f a = .error e := by
  cases x with
  | error e' => simp [bind, Except.bind]
  | ok a => simp [bind, Except.bind]

/-- A check before a step: the step is done, and the condition for refusal does not hold. -/
theorem guard_eq_ok {refused : Prop} [Decidable refused] {e : ε} {next : PUnit → Except ε β} {b : β} :
    (if refused then Except.error e >>= next else next ⟨⟩) = .ok b ↔ ¬ refused ∧ next ⟨⟩ = .ok b := by
  by_cases holds : refused
  · simp [holds, bind, Except.bind]
  · simp [holds]

/-- A check before a step is refused by the check itself or by the step. -/
theorem guard_eq_error {refused : Prop} [Decidable refused] {e fault : ε} {next : PUnit → Except ε β} :
    (if refused then Except.error e >>= next else next ⟨⟩) = .error fault ↔
      refused ∧ e = fault ∨ ¬ refused ∧ next ⟨⟩ = .error fault := by
  by_cases holds : refused
  · simp [holds, bind, Except.bind]
  · simp [holds]

/-- A list of steps is done when each is done, and the results stand in the places of the items. -/
theorem mapM_eq_ok {f : α → Except ε β} {xs : List α} {ys : List β} :
    xs.mapM f = .ok ys ↔ List.Forall₂ (fun x y => f x = .ok y) xs ys := by
  induction xs generalizing ys with
  | nil => cases ys <;> simp [pure, Except.pure]
  | cons x xs inductionHypothesis =>
    rw [List.mapM_cons, bind_eq_ok]
    constructor
    · rintro ⟨y, first, remaining⟩
      obtain ⟨rest, others, same⟩ := bind_eq_ok.mp remaining
      cases same
      exact .cons first (inductionHypothesis.mp others)
    · rintro (_ | ⟨first, others⟩)
      exact ⟨_, first, bind_eq_ok.mpr ⟨_, inductionHypothesis.mpr others, rfl⟩⟩

/-- Steps of which it is known when they are done and what they give: a list of them is done when each is
done, and gives what they give. -/
theorem mapM_eq_ok_map {f : α → Except ε β} {possible : α → Prop} {g : α → β}
    (each : ∀ {x y}, f x = .ok y ↔ possible x ∧ y = g x) {xs : List α} {ys : List β} :
    xs.mapM f = .ok ys ↔ (∀ x ∈ xs, possible x) ∧ ys = xs.map g := by
  rw [mapM_eq_ok]
  constructor
  · intro related
    induction related with
    | nil => exact ⟨by simp, rfl⟩
    | cons first _ inductionHypothesis =>
      obtain ⟨done, rfl⟩ := each.mp first
      obtain ⟨others, rfl⟩ := inductionHypothesis
      exact ⟨List.forall_mem_cons.mpr ⟨done, others⟩, rfl⟩
  · rintro ⟨all, rfl⟩
    rw [List.forall₂_map_right_iff, List.forall₂_same]
    exact fun x member => each.mpr ⟨all x member, rfl⟩

/-- A list of steps is refused with the fault of the first item that is refused. -/
theorem mapM_eq_error {f : α → Except ε β} {xs : List α} {e : ε} :
    xs.mapM f = .error e ↔
      ∃ done x rest, xs = done ++ x :: rest ∧ (∀ d ∈ done, ∃ y, f d = .ok y) ∧ f x = .error e := by
  induction xs with
  | nil => simp [pure, Except.pure]
  | cons x xs inductionHypothesis =>
    rw [List.mapM_cons, bind_eq_error]
    constructor
    · rintro (first | ⟨y, first, others⟩)
      · exact ⟨[], x, xs, rfl, by simp, first⟩
      · rcases bind_eq_error.mp others with others | ⟨_, _, never⟩
        · obtain ⟨done, refused, rest, rfl, earlier, fault⟩ := inductionHypothesis.mp others
          exact ⟨x :: done, refused, rest, rfl, List.forall_mem_cons.mpr ⟨⟨y, first⟩, earlier⟩, fault⟩
        · cases never
    · rintro ⟨done, refused, rest, same, earlier, fault⟩
      cases done with
      | nil =>
        obtain ⟨rfl, rfl⟩ := List.cons.inj same
        exact .inl fault
      | cons d done =>
        obtain ⟨rfl, rfl⟩ := List.cons.inj same
        obtain ⟨⟨y, first⟩, earlier⟩ := List.forall_mem_cons.mp earlier
        have others := inductionHypothesis.mpr ⟨done, refused, rest, rfl, earlier, fault⟩
        exact .inr ⟨y, first, bind_eq_error.mpr (.inl others)⟩

/-- A list of steps with their places is refused with the fault of the first item that is refused; the place
of that item is the number of those before it. -/
theorem mapM_zipIdx_eq_error {f : α × Nat → Except ε β} {xs : List α} {e : ε}
    (refused : xs.zipIdx.mapM f = .error e) :
    ∃ done x rest, xs = done ++ x :: rest ∧
      (∀ index y, done[index]? = some y → ∃ b, f (y, index) = .ok b) ∧ f (x, done.length) = .error e := by
  obtain ⟨done, ⟨x, place⟩, rest, split, earlier, fault⟩ := mapM_eq_error.mp refused
  have items : xs = done.map Prod.fst ++ x :: rest.map Prod.fst := by
    simpa using congrArg (List.map Prod.fst) split
  have numbered (index : Nat) (y : α) (i : Nat) (found : xs.zipIdx[index]? = some (y, i)) : i = index := by
    rw [List.getElem?_zipIdx, Option.map_eq_some_iff] at found
    obtain ⟨_, _, same⟩ := found
    cases same
    simp
  have here : place = done.length := numbered done.length x place (by simp [split])
  refine ⟨done.map Prod.fst, x, rest.map Prod.fst, items, ?_, ?_⟩
  · intro index y found
    rw [List.getElem?_map, Option.map_eq_some_iff] at found
    obtain ⟨⟨y, i⟩, inside, rfl⟩ := found
    obtain ⟨within, _⟩ := List.getElem?_eq_some_iff.mp inside
    have same : i = index := numbered index y i (by rw [split, List.getElem?_append_left within, inside])
    exact same ▸ earlier (y, i) (List.mem_of_getElem? inside)
  · rw [List.length_map, ← here]
    exact fault

/-- The result of the item at an index stands at the same index. -/
theorem mapM_getElem? {f : α → Except ε β} {xs : List α} {ys : List β} (finished : xs.mapM f = .ok ys)
    {index : Nat} {x : α} (found : xs[index]? = some x) : ∃ y, ys[index]? = some y ∧ f x = .ok y := by
  have related := mapM_eq_ok.mp finished
  obtain ⟨inside, rfl⟩ := List.getElem?_eq_some_iff.mp found
  have within : index < ys.length := related.length_eq ▸ inside
  exact ⟨ys[index], List.getElem?_eq_getElem within, related.get inside within⟩

/-- A list of steps is done when each is done, whatever they give. -/
theorem exists_mapM_eq_ok {f : α → Except ε β} {xs : List α} :
    (∃ ys, xs.mapM f = .ok ys) ↔ ∀ x ∈ xs, ∃ y, f x = .ok y := by
  constructor
  · rintro ⟨ys, finished⟩ x member
    obtain ⟨index, found⟩ := List.mem_iff_getElem?.mp member
    obtain ⟨y, _, own⟩ := mapM_getElem? finished found
    exact ⟨y, own⟩
  · intro each
    cases outcome : xs.mapM f with
    | ok ys => exact ⟨ys, rfl⟩
    | error e =>
      obtain ⟨done, x, rest, split, _, refused⟩ := mapM_eq_error.mp outcome
      obtain ⟨y, own⟩ := each x (by simp [split])
      cases refused.symm.trans own

/-- Every result is that of an item. -/
theorem mem_of_mapM {f : α → Except ε β} {xs : List α} {ys : List β} (finished : xs.mapM f = .ok ys) {y : β}
    (member : y ∈ ys) : ∃ x ∈ xs, f x = .ok y := by
  have related := mapM_eq_ok.mp finished
  obtain ⟨index, inside, rfl⟩ := List.getElem_of_mem member
  have within : index < xs.length := related.length_eq ▸ inside
  exact ⟨xs[index], List.getElem_mem within, related.get within inside⟩

/-- There are as many results as items. -/
theorem mapM_length {f : α → Except ε β} {xs : List α} {ys : List β} (finished : xs.mapM f = .ok ys) :
    ys.length = xs.length :=
  (mapM_eq_ok.mp finished).length_eq.symm

/-- Where other steps are done whenever the first ones are, and give something related to what these give, the same
holds of a list of them. -/
theorem mapM_relates {γ : Type} {f : α → Except ε β} {g : α → Except ε γ} {related : β → γ → Prop} {xs : List α}
    {ys : List β} (each : ∀ x ∈ xs, ∀ y, f x = .ok y → ∃ z, g x = .ok z ∧ related y z)
    (finished : xs.mapM f = .ok ys) : ∃ zs, xs.mapM g = .ok zs ∧ List.Forall₂ related ys zs := by
  simp only [mapM_eq_ok] at finished ⊢
  induction finished with
  | nil => exact ⟨[], .nil, .nil⟩
  | cons first _ inductionHypothesis =>
    obtain ⟨own, others⟩ := List.forall_mem_cons.mp each
    obtain ⟨z, done, alike⟩ := own _ first
    obtain ⟨zs, rest, allAlike⟩ := inductionHypothesis others
    exact ⟨z :: zs, .cons done rest, .cons alike allAlike⟩

/-- A list of steps each of which goes on with what the step before it gave is done when the first steps are, and then
the second ones. -/
theorem mapM_then {γ : Type} {f : α → Except ε β} {g : β → Except ε γ} {xs : List α} {ys : List β} {zs : List γ}
    (first : xs.mapM f = .ok ys) (second : ys.mapM g = .ok zs) : (xs.mapM fun x => f x >>= g) = .ok zs := by
  rw [mapM_eq_ok] at first second ⊢
  induction first generalizing zs with
  | nil =>
    cases second
    exact .nil
  | cons done _ inductionHypothesis =>
    cases second with
    | cons next others => exact .cons (bind_eq_ok.mpr ⟨_, done, next⟩) (inductionHypothesis others)

/-- A list of steps with one more at its end is done when the list is, and then the last one. -/
theorem mapM_concat_eq_ok {f : α → Except ε β} {xs : List α} {x : α} {ys : List β} :
    (xs ++ [x]).mapM f = .ok ys ↔ ∃ front last, xs.mapM f = .ok front ∧ f x = .ok last ∧ ys = front ++ [last] := by
  rw [List.mapM_append, bind_eq_ok]
  constructor
  · rintro ⟨front, before, remaining⟩
    obtain ⟨_, single, same⟩ := bind_eq_ok.mp remaining
    cases same
    cases mapM_eq_ok.mp single with
    | cons own nothing =>
      cases nothing
      exact ⟨front, _, before, own, rfl⟩
  · rintro ⟨front, last, before, own, rfl⟩
    exact ⟨front, before, bind_eq_ok.mpr ⟨[last], mapM_eq_ok.mpr (.cons own .nil), rfl⟩⟩

end MusicScore.Outcome
