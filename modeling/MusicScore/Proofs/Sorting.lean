import MusicScore.Proofs.Outcome
import MusicScore.Sorting

/-!
# Sorting what is in order

Values of which none is smaller than the one before it are all at the front, and nothing is moved. Whatever
the order is, what is sorted are the values that were given, each as often as it was given.
-/
namespace MusicScore.Sorting

variable {α ε : Type} {less : α → α → Except ε Bool}

/-- No value is smaller than the one before it. -/
def Ordered (less : α → α → Except ε Bool) (values : List α) : Prop :=
  values.IsChain fun earlier later => less later earlier = .ok false

/-- Values that go on in order are taken up to the last. -/
theorem run_of_ordered {previous : α} {rest : List α} (ordered : Ordered less (previous :: rest)) :
    run less false previous rest = .ok (rest, []) := by
  induction rest generalizing previous with
  | nil => rfl
  | cons next others inductionHypothesis =>
    obtain ⟨first, later⟩ := List.isChain_cons_cons.mp ordered
    simp only [run, first, bind, Except.bind, if_true, inductionHypothesis later]
    rfl

/-- Values in order are left as they are. -/
theorem sort_of_ordered {values : List α} (ordered : Ordered less values) : sort less values = .ok values := by
  have taken : front less values = .ok (values, []) := by
    match values, ordered with
    | [], _ => rfl
    | [_], _ => rfl
    | first :: second :: rest, ordered =>
      obtain ⟨inOrder, later⟩ := List.isChain_cons_cons.mp ordered
      simp only [front, inOrder, bind, Except.bind, run_of_ordered later]
      rfl
  exact Outcome.bind_eq_ok.mpr ⟨_, taken, rfl⟩

/-! ## The same values -/

/-- The values that go on at the front, and those after them, are the values that were looked at. -/
theorem run_append {falling : Bool} {previous : α} {values more after : List α}
    (done : run less falling previous values = .ok (more, after)) : more ++ after = values := by
  induction values generalizing previous more with
  | nil => cases done; rfl
  | cons next rest inductionHypothesis =>
    obtain ⟨smaller, _, remaining⟩ := Outcome.bind_eq_ok.mp done
    by_cases goesOn : smaller = falling
    · rw [if_pos goesOn] at remaining
      obtain ⟨⟨others, last⟩, further, same⟩ := Outcome.bind_eq_ok.mp remaining
      cases same
      rw [List.cons_append, inductionHypothesis further]
    · rw [if_neg goesOn] at remaining
      cases remaining
      rfl

/-- The front and what comes after it are the values that were given. -/
theorem front_perm {values taken after : List α} (done : front less values = .ok (taken, after)) :
    (taken ++ after).Perm values := by
  match values, done with
  | [], done => cases done; exact .refl _
  | [_], done => cases done; exact .refl _
  | first :: second :: rest, done =>
    obtain ⟨falling, _, remaining⟩ := Outcome.bind_eq_ok.mp done
    obtain ⟨⟨more, last⟩, further, same⟩ := Outcome.bind_eq_ok.mp remaining
    cases same
    rw [← run_append further, ← List.cons_append, ← List.cons_append]
    refine List.Perm.append_right after ?_
    cases falling with
    | true => exact List.reverse_perm _
    | false => exact .refl _

/-- A value that is put into sorted ones is one more of them. -/
theorem insert_perm {sorted more : List α} {value : α} (done : insert less sorted value = .ok more) :
    more.Perm (value :: sorted) := by
  obtain ⟨index, _, same⟩ := Outcome.bind_eq_ok.mp done
  cases same
  calc sorted.take index ++ value :: sorted.drop index
      |>.Perm (value :: (sorted.take index ++ sorted.drop index)) := List.perm_middle
    _ = value :: sorted := by rw [List.take_append_drop]

/-- Sorting keeps each value as often as it was there. -/
theorem sort_perm {values sorted : List α} (done : sort less values = .ok sorted) : sorted.Perm values := by
  obtain ⟨⟨taken, after⟩, begun, remaining⟩ := Outcome.bind_eq_ok.mp done
  refine List.Perm.trans ?_ (front_perm begun)
  replace remaining : after.foldlM (insert less) taken = .ok sorted := remaining
  clear begun done
  induction after generalizing taken with
  | nil => cases remaining; rw [List.append_nil]
  | cons value rest inductionHypothesis =>
    rw [List.foldlM_cons] at remaining
    obtain ⟨more, placed, remaining⟩ := Outcome.bind_eq_ok.mp remaining
    calc sorted
        |>.Perm (more ++ rest) := inductionHypothesis more remaining
      _ |>.Perm (value :: taken ++ rest) := (insert_perm placed).append_right rest
      _ |>.Perm (taken ++ value :: rest) := List.perm_middle.symm

end MusicScore.Sorting
