import Mathlib.Data.List.Forall2
import TaintFlow.Summary.Reader

/-!
# Readings and the registry

The registry takes note of identities while a value is read, but what is read does not depend on it.
So an outcome is said of a reading for all registries at once, or, when it is only known to occur,
for some of them.
-/
namespace TaintFlow.Reading

section Outcomes

variable {ε α β γ : Type} {x : ExceptT ε (StateM Registry) α}

/-- In every registry the reading ends with the outcome. -/
def Answers (x : ExceptT ε (StateM Registry) α) (outcome : Except ε α) : Prop :=
  ∀ registry, (x.run registry).1 = outcome

theorem answers_pure (a : α) : Answers (pure a : ExceptT ε (StateM Registry) α) (.ok a) :=
  fun _ => rfl

theorem answers_modify (change : Registry → Registry) :
    Answers (modify change : ExceptT ε (StateM Registry) Unit) (.ok ()) := fun _ => rfl

theorem run_bind (f : α → ExceptT ε (StateM Registry) β) (registry : Registry) :
    (x >>= f).run registry =
      match x.run registry with
      | (.ok a, after) => (f a).run after
      | (.error e, after) => (.error e, after) := by
  rw [ExceptT.run_bind]
  simp only [bind, StateT.bind]
  rcases h : x.run registry with ⟨_ | _, _⟩
  · rfl
  · rfl

theorem Answers.bind {a : α} {f : α → ExceptT ε (StateM Registry) β} {outcome : Except ε β}
    (hx : Answers x (.ok a)) (hf : Answers (f a) outcome) : Answers (x >>= f) outcome := by
  intro registry
  have hfirst := hx registry
  rw [run_bind]
  rcases h : x.run registry with ⟨_ | b, after⟩
  · rw [h] at hfirst
    cases hfirst
  · rw [h] at hfirst
    cases hfirst
    exact hf after

theorem Answers.map {a : α} (g : α → β) (hx : Answers x (.ok a)) :
    Answers (g <$> x) (.ok (g a)) := by
  rw [← bind_pure_comp]
  exact hx.bind (answers_pure (g a))

theorem answers_mapM {read : β → ExceptT ε (StateM Registry) α} {items : List β} {as : List α}
    (h : List.Forall₂ (fun b a => Answers (read b) (.ok a)) items as) :
    Answers (items.mapM read) (.ok as) := by
  induction h with
  | nil => exact answers_pure []
  | @cons b a items as hfirst _ ih =>
    rw [List.mapM_cons]
    exact hfirst.bind (ih.bind (answers_pure (a :: as)))

/-- A list of written values is read back item by item. -/
theorem answers_mapM_map {read : β → ExceptT ε (StateM Registry) α} {write : α → β} {items : List α}
    (h : ∀ a ∈ items, Answers (read (write a)) (.ok a)) :
    Answers ((items.map write).mapM read) (.ok items) :=
  answers_mapM (List.forall₂_map_left_iff.2 (List.forall₂_same.2 h))

/-- Two lists are read one after the other. -/
theorem answers_mapM_append {read : β → ExceptT ε (StateM Registry) α} {xs ys : List β}
    {as bs : List α} (hxs : Answers (xs.mapM read) (.ok as))
    (hys : Answers (ys.mapM read) (.ok bs)) :
    Answers ((xs ++ ys).mapM read) (.ok (as ++ bs)) := by
  rw [List.mapM_append]
  exact hxs.bind (hys.bind (answers_pure (as ++ bs)))

theorem answers_forM {act : β → ExceptT ε (StateM Registry) PUnit}
    (h : ∀ b, Answers (act b) (.ok ())) (items : List β) : Answers (items.forM act) (.ok ()) := by
  induction items with
  | nil => exact answers_pure ()
  | cons b items ih =>
    change Answers (act b >>= fun _ => items.forM act) (.ok ())
    exact (h b).bind ih

/-- In some registry the reading gives `a`. -/
def Succeeds (x : ExceptT ε (StateM Registry) α) (a : α) : Prop :=
  ∃ registry, (x.run registry).1 = .ok a

theorem Succeeds.of_pure {a b : α} (h : Succeeds (pure a : ExceptT ε (StateM Registry) α) b) :
    a = b := by
  obtain ⟨_, h⟩ := h
  exact Except.ok.inj h

theorem not_succeeds_throw {e : ε} {a : α} :
    ¬ Succeeds (throw e : ExceptT ε (StateM Registry) α) a := by
  intro h
  obtain ⟨_, h⟩ := h
  cases h

/-- A sequence succeeds by way of a first reading that succeeds. -/
theorem Succeeds.of_bind {f : α → ExceptT ε (StateM Registry) β} {b : β}
    (h : Succeeds (x >>= f) b) : ∃ a, Succeeds x a ∧ Succeeds (f a) b := by
  obtain ⟨registry, h⟩ := h
  rw [run_bind] at h
  rcases hx : x.run registry with ⟨_ | a, after⟩
  · rw [hx] at h
    cases h
  · rw [hx] at h
    exact ⟨a, ⟨registry, by rw [hx]⟩, ⟨after, h⟩⟩

theorem Succeeds.of_map {g : α → β} {b : β} (h : Succeeds (g <$> x) b) :
    ∃ a, Succeeds x a ∧ g a = b := by
  rw [← bind_pure_comp] at h
  obtain ⟨a, hx, hb⟩ := h.of_bind
  exact ⟨a, hx, hb.of_pure⟩

/-- A list that is read is read item by item. -/
theorem Succeeds.of_mapM {read : β → ExceptT ε (StateM Registry) α} {items : List β} {as : List α}
    (h : Succeeds (items.mapM read) as) :
    List.Forall₂ (fun b a => Succeeds (read b) a) items as := by
  induction items generalizing as with
  | nil =>
    cases h.of_pure
    exact .nil
  | cons b items ih =>
    rw [List.mapM_cons] at h
    obtain ⟨a, ha, h⟩ := h.of_bind
    obtain ⟨rest, hrest, h⟩ := h.of_bind
    cases h.of_pure
    exact .cons ha (ih hrest)

end Outcomes

theorem answers_mentions {v : Vocabulary} (ns : List (Name v)) :
    Answers (ns.forM fun n => mention n) (.ok ()) :=
  answers_forM (fun n => answers_modify (·.mention n)) ns

/-- Reading the fields of a frame one after the other. -/
def readFields (d : FrameDraft) (fields : List (String × Json)) : Reading FrameDraft :=
  fields.foldlM (fun d (key, j) => frameField d key j) d

theorem answers_ofReading {α : Type} {x : Reading α} {outcome : Except ReadError α}
    (h : Answers x outcome) :
    Answers (Loading.ofReading x) (outcome.mapError InputError.malformed) := by
  intro registry
  rw [← h registry]
  rfl

end TaintFlow.Reading
