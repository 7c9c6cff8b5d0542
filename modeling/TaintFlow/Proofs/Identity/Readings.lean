import TaintFlow.Proofs.Identity.Held
import TaintFlow.Proofs.Summary.Outcome

/-!
# What readings mention

A reading does the same in all registries: it has one outcome, and it mentions the same identities
to each of them, whether it fails or not. If it ends with a value, then all identities that the
value holds have been mentioned. A reading never says that a method is static.
-/
namespace TaintFlow.Reading

variable {ε α β : Type}

/-- In every registry the reading has the outcome and mentions `ms`. -/
structure Does (x : ExceptT ε (StateM Registry) α) (ms : List Mention) (outcome : Except ε α) :
    Prop where
  run_eq (r : Registry) : x.run r = (outcome, r.noteAll ms)
  isStatic_eq_false (c : Method) : .method c ∈ ms → c.isStatic = false

/-- The reading does one thing in all registries, and has mentioned what its value holds. -/
def Notes (x : ExceptT ε (StateM Registry) α) (held : α → Mention → Prop) : Prop :=
  ∃ ms outcome, Does x ms outcome ∧ ∀ a, outcome = .ok a → ∀ m, held a m → m ∈ ms

/-- The value holds no identity. -/
def nothing (_ : α) (_ : Mention) : Prop := False

section Rules

variable {x : ExceptT ε (StateM Registry) α} {held held' : α → Mention → Prop}
  {heldAfter : β → Mention → Prop}

theorem notes_pure {a : α} (h : ∀ m, ¬ held a m) :
    Notes (pure a : ExceptT ε (StateM Registry) α) held := by
  refine ⟨[], .ok a, ⟨fun _ => rfl, fun _ hc => absurd hc List.not_mem_nil⟩, ?_⟩
  intro b hb m hm
  cases hb
  exact absurd hm (h m)

theorem notes_throw (e : ε) : Notes (throw e : ExceptT ε (StateM Registry) α) held :=
  ⟨[], .error e, ⟨fun _ => rfl, fun _ hc => absurd hc List.not_mem_nil⟩, fun _ hb => nomatch hb⟩

/-- What follows has to mention what the first value does not hold. -/
theorem Notes.bind {f : α → ExceptT ε (StateM Registry) β} (hx : Notes x held)
    (hf : ∀ a, Notes (f a) fun b m => heldAfter b m ∧ ¬ held a m) : Notes (x >>= f) heldAfter := by
  obtain ⟨ms, outcome, hx, hms⟩ := hx
  cases outcome with
  | error e =>
      refine ⟨ms, .error e, ⟨fun r => ?_, hx.isStatic_eq_false⟩, fun _ hb => nomatch hb⟩
      rw [run_bind, hx.run_eq]
  | ok a =>
      obtain ⟨ns, outcome, hf, hns⟩ := hf a
      refine ⟨ms ++ ns, outcome, ⟨fun r => ?_, fun c hc => ?_⟩, fun b hb m hm => ?_⟩
      · rw [run_bind, hx.run_eq, Registry.noteAll_append]
        exact hf.run_eq _
      · exact (List.mem_append.1 hc).elim (hx.isStatic_eq_false c) (hf.isStatic_eq_false c)
      · by_cases hfirst : held a m
        · exact List.mem_append_left _ (hms a rfl m hfirst)
        · exact List.mem_append_right _ (hns b hb m ⟨hm, hfirst⟩)

theorem Notes.imp (hx : Notes x held) (h : ∀ a m, held' a m → held a m) : Notes x held' := by
  obtain ⟨ms, outcome, hx, hms⟩ := hx
  exact ⟨ms, outcome, hx, fun a ha m hm => hms a ha m (h a m hm)⟩

theorem Notes.forget (hx : Notes x held) : Notes x nothing := hx.imp fun _ _ hm => hm.elim

/-- What comes after a value without identities has to mention everything itself. -/
theorem Notes.bind_of_nothing {f : α → ExceptT ε (StateM Registry) β} (hx : Notes x nothing)
    (hf : ∀ a, Notes (f a) heldAfter) : Notes (x >>= f) heldAfter :=
  hx.bind fun a => (hf a).imp fun _ _ hm => hm.1

theorem Notes.map {g : α → β} (hx : Notes x held) (h : ∀ a m, heldAfter (g a) m → held a m) :
    Notes (g <$> x) heldAfter := by
  rw [← bind_pure_comp]
  refine hx.bind fun a => notes_pure fun m hm => ?_
  exact hm.2 (h a m hm.1)

theorem notes_mapM {read : β → ExceptT ε (StateM Registry) α} (h : ∀ b, Notes (read b) held)
    (items : List β) : Notes (items.mapM read) fun as m => ∃ a ∈ as, held a m := by
  induction items with
  | nil =>
      refine notes_pure fun m hm => ?_
      obtain ⟨a, ha, -⟩ := hm
      exact absurd ha List.not_mem_nil
  | cons b items ih =>
      rw [List.mapM_cons]
      refine (h b).bind fun a => (ih.bind fun as => notes_pure fun m hm => ?_)
      obtain ⟨⟨⟨c, hc, hheld⟩, hfirst⟩, hrest⟩ := hm
      rcases List.mem_cons.1 hc with rfl | hc
      · exact hfirst hheld
      · exact hrest ⟨c, hc, hheld⟩

/-- Each step has to mention what it adds. -/
theorem notes_foldlM {step : α → β → ExceptT ε (StateM Registry) α}
    (h : ∀ a b, Notes (step a b) fun a' m => held a' m ∧ ¬ held a m) (items : List β) (a : α) :
    Notes (items.foldlM step a) fun a' m => held a' m ∧ ¬ held a m := by
  induction items generalizing a with
  | nil => exact notes_pure fun m hm => hm.2 hm.1
  | cons b items ih =>
      rw [List.foldlM_cons]
      refine (h a b).bind fun a' => (ih a').imp fun a'' m hm => ?_
      obtain ⟨⟨hlast, hold⟩, hnew⟩ := hm
      exact ⟨hlast, fun hmid => hnew ⟨hmid, hold⟩⟩

/-- A reading that has a value in one registry has it in all. -/
theorem Notes.answers {a : α} (hx : Notes x held) (h : Succeeds x a) : Answers x (.ok a) := by
  obtain ⟨ms, outcome, hx, -⟩ := hx
  obtain ⟨registry, h⟩ := h
  intro r
  rw [hx.run_eq] at h ⊢
  exact h

end Rules

section Parts

variable {α β : Type} {held : α → Mention → Prop} {heldAfter : β → Mention → Prop}
  {v : Vocabulary}

/-- After a value that is required it may be used that it has been found. -/
theorem notes_required_bind {key : String} {found : Option α} {f : α → Reading β}
    (h : ∀ a ∈ found, Notes (f a) heldAfter) : Notes (required key found >>= f) heldAfter := by
  cases found with
  | none =>
      refine ⟨[], .error (.missingField key), ⟨fun _ => rfl, ?_⟩, fun _ hb => nomatch hb⟩
      exact fun _ hc => absurd hc List.not_mem_nil
  | some a => exact h a rfl

theorem notes_string (j : Json) : Notes (string j) nothing := by
  unfold string
  split
  · exact notes_pure fun _ => id
  · exact notes_throw _

theorem notes_bounded (expected : Expected) (low high : Int) (j : Json) :
    Notes (bounded expected low high j) nothing := by
  unfold bounded
  split
  · split
    · exact notes_pure fun _ => id
    · exact notes_throw _
  · exact notes_throw _

theorem notes_natural32 (j : Json) : Notes (natural32 j) nothing :=
  (notes_bounded _ _ _ j).bind_of_nothing fun _ => notes_pure fun _ => id

theorem notes_integer32 (j : Json) : Notes (integer32 j) nothing :=
  (notes_bounded _ _ _ j).bind_of_nothing fun _ => notes_pure fun _ => id

theorem notes_optional {read : Json → Reading α} (h : ∀ j, Notes (read j) held) (j : Json) :
    Notes (optional read j) fun o m => ∃ a ∈ o, held a m := by
  unfold optional
  split
  · exact notes_pure (by simp)
  · exact (h j).map (by simp)

theorem notes_sequence {read : Json → Reading α} (h : ∀ j, Notes (read j) held) (j : Json) :
    Notes (sequence read j) fun as m => ∃ a ∈ as, held a m := by
  unfold sequence
  split
  · exact notes_mapM h _
  · exact notes_throw _

theorem notes_set [Ord α] [Std.TransOrd α] [Std.LawfulEqOrd α] {read : Json → Reading α}
    (h : ∀ j, Notes (read j) held) (j : Json) : Notes (set read j) fun s m => ∃ a ∈ s, held a m := by
  refine (notes_sequence h j).bind fun as => notes_pure fun m hm => ?_
  obtain ⟨⟨a, ha, hheld⟩, hnone⟩ := hm
  exact hnone ⟨a, SortedSet.mem_ofList.1 ha, hheld⟩

theorem notes_field? {read : Json → Reading α} (h : ∀ j, Notes (read j) held)
    (fields : List (String × Json)) (key : String) :
    Notes (field? fields key read) fun o m => ∃ a ∈ o, held a m := by
  unfold field?
  split
  · exact notes_pure (by simp)
  · exact (h _).map (by simp)

theorem notes_variant (j : Json) : Notes (variant j) nothing := by
  unfold variant
  split
  · exact notes_pure fun _ => id
  · exact notes_pure fun _ => id
  · exact notes_throw _
  · exact notes_throw _

/-- What is noted is held, if it is not said to be a static method. -/
theorem notes_note (m : Mention) (h : ∀ c, m = .method c → c.isStatic = false) :
    Notes (modify (·.note m) : Reading Unit) fun _ i => i = m := by
  refine ⟨[m], .ok (), ⟨fun _ => rfl, fun c hc => ?_⟩, ?_⟩
  · exact h c (List.mem_singleton.1 hc).symm
  · exact fun _ _ i hi => List.mem_singleton.2 hi

theorem notes_mention (n : Name v) : Notes (mention n) fun _ m => m = .name n.any :=
  notes_note (.name n.any) (by simp)

theorem notes_mentionMethod (s : Signature) : Notes (mentionMethod s) fun _ m => m = s.mention :=
  notes_note s.mention fun _ h => Mention.method.inj h ▸ rfl

theorem notes_mentionPosition (p : Position) :
    Notes (mentionPosition p) fun _ m => m = .position p := notes_note (.position p) (by simp)

theorem notes_mentions (ns : List (Name v)) :
    Notes (ns.forM fun n => mention n) fun _ m => ∃ n ∈ ns, m = .name n.any := by
  induction ns with
  | nil => exact notes_pure (by simp)
  | cons n ns ih =>
      change Notes (mention n >>= fun _ => ns.forM fun n => mention n) _
      refine (notes_mention n).bind fun _ => ih.imp fun _ m hm => ?_
      obtain ⟨⟨k, hk, hheld⟩, hfirst⟩ := hm
      rcases List.mem_cons.1 hk with rfl | hk
      · exact absurd hheld hfirst
      · exact ⟨k, hk, hheld⟩

theorem notes_name (v : Vocabulary) (j : Json) : Notes (name v j) fun n m => m = .name n.any :=
  (notes_string j).bind_of_nothing fun _ =>
    (notes_mention _).bind fun _ => notes_pure fun _ hm => hm.2 hm.1

theorem notes_signature (j : Json) : Notes (signature j) fun s m => m = s.mention :=
  (notes_string j).bind_of_nothing fun _ =>
    (notes_mentionMethod _).bind fun _ => notes_pure fun _ hm => hm.2 hm.1

theorem notes_root (j : Json) : Notes (root j) nothing := by
  refine (notes_string j).bind_of_nothing fun s => ?_
  cases Root.ofText s with
  | ok r => exact notes_pure fun _ => id
  | error e => exact notes_throw _

end Parts

section Records

/-- A path that is read has the elements that its text mentions. -/
theorem path_of_ofText {s : String} {p : AccessPath} (h : AccessPath.ofText s = .ok p) :
    p.path = AccessPath.mentioned s := by
  unfold AccessPath.ofText at h
  unfold AccessPath.mentioned
  grind

theorem notes_accessPath (j : Json) : Notes (accessPath j) fun p m => m ∈ p.mentions := by
  refine (notes_string j).bind_of_nothing fun s => ?_
  refine (notes_mentions (AccessPath.mentioned s)).bind fun _ => ?_
  cases hread : AccessPath.ofText s with
  | ok p =>
      refine notes_pure fun m hm => ?_
      obtain ⟨e, he, rfl⟩ := List.mem_map.1 hm.1
      rw [path_of_ofText hread] at he
      exact hm.2 ⟨e, he, rfl⟩
  | error e => exact notes_throw _

theorem notes_pathAndLine (j : Json) : Notes (pathAndLine j) nothing := by
  unfold pathAndLine
  split
  · refine (notes_field? notes_integer32 _ _).forget.bind_of_nothing fun line => ?_
    refine (notes_field? (notes_optional notes_string) _ _).forget.bind_of_nothing fun path => ?_
    exact notes_required_bind fun _ _ => notes_pure fun _ => id
  · exact notes_throw _
  · refine (notes_optional notes_string _).forget.bind_of_nothing fun path => ?_
    split
    · exact notes_throw _
    · refine (notes_integer32 _).bind_of_nothing fun line => ?_
      split
      · exact notes_pure fun _ => id
      · exact notes_throw _
  · exact notes_throw _

theorem notes_position (j : Json) : Notes (position j) fun p m => m = .position p :=
  (notes_pathAndLine j).bind_of_nothing fun _ =>
    (notes_mentionPosition _).bind fun _ => notes_pure fun _ hm => hm.2 hm.1

theorem notes_featureSet (j : Json) : Notes (featureSet j) fun s m => m ∈ s.mentions :=
  (notes_set (notes_name .feature) j).imp fun s m hm => by
    obtain ⟨x, hx, rfl⟩ := List.mem_map.1 hm
    exact ⟨x, hx, rfl⟩

theorem notes_mayAlwaysSets (j : Json) : Notes (mayAlwaysSets j) fun e m => m ∈ e.mentions := by
  unfold mayAlwaysSets
  split
  · refine (notes_field? notes_featureSet _ _).bind fun always => ?_
    refine (notes_field? notes_featureSet _ _).bind fun may => ?_
    refine notes_required_bind fun a ha => notes_required_bind fun b hb => notes_pure fun m hm => ?_
    obtain ⟨⟨hheld, halways⟩, hmay⟩ := hm
    rcases List.mem_append.1 hheld with hheld | hheld
    · exact hmay ⟨a, ha, hheld⟩
    · exact halways ⟨b, hb, hheld⟩
  · exact notes_throw _
  · refine (notes_featureSet _).bind fun may => ?_
    split
    · exact notes_throw _
    · refine (notes_featureSet _).bind fun always => ?_
      split
      · refine notes_pure fun m hm => ?_
        obtain ⟨⟨hheld, hmay⟩, halways⟩ := hm
        exact (List.mem_append.1 hheld).elim hmay halways
      · exact notes_throw _
  · exact notes_throw _

theorem notes_mayAlways (j : Json) : Notes (mayAlways j) fun e m => m ∈ e.mentions := by
  refine (notes_optional notes_mayAlwaysSets j).bind fun sets? => notes_pure fun m hm => ?_
  cases sets? with
  | none => exact absurd hm.1 List.not_mem_nil
  | some e => exact hm.2 ⟨e, rfl, hm.1⟩

theorem notes_canonicalName (j : Json) : Notes (canonicalName j) nothing := by
  refine (notes_variant j).bind_of_nothing fun chosen => ?_
  obtain ⟨key, content?⟩ := chosen
  have hread {g : String → CanonicalName} {content : Reading String} (h : Notes content nothing) :
      Notes (g <$> content) nothing := h.map fun _ _ => id
  cases content? with
  | none =>
      dsimp only
      split
      · exact hread (notes_throw _)
      · exact hread (notes_throw _)
      · exact notes_throw _
  | some content =>
      dsimp only
      split
      · exact hread (notes_string content)
      · exact hread (notes_string content)
      · exact notes_throw _

end Records

section Frames

/-- The identities in what has been read of a frame. -/
def FrameDraft.mentions (d : FrameDraft) : List Mention :=
  d.kind.toList.map (fun n => .name n.any) ++ d.port.toList.flatMap AccessPath.mentions
    ++ d.frame.partMentions

variable {d : FrameDraft}

theorem FrameDraft.mem_mentions {m : Mention} : m ∈ d.mentions ↔
    (∃ n ∈ d.kind, m = .name n.any) ∨ (∃ p ∈ d.port, m ∈ p.mentions) ∨ m ∈ d.frame.partMentions := by
  simp only [mentions, List.mem_append, List.mem_map, List.mem_flatMap, Option.mem_toList, or_assoc,
    Option.mem_def, eq_comm]

/-- A part other than the kind and the port is read and put into the frame. -/
theorem notes_inFrame {α : Type} {read : Reading α} {held : α → Mention → Prop}
    (hread : Notes read held) {put : α → Frame}
    (hput : ∀ a m, m ∈ (put a).partMentions → m ∈ d.frame.partMentions ∨ held a m) :
    Notes ((do pure (put (← read)) : Reading Frame) >>= fun frame => pure { d with frame })
      fun d' m => m ∈ d'.mentions ∧ m ∉ d.mentions := by
  have hframe : Notes (do pure (put (← read)) : Reading Frame)
      fun f m => m ∈ f.partMentions ∧ m ∉ d.frame.partMentions := by
    refine hread.bind fun a => notes_pure fun m hm => ?_
    obtain ⟨⟨hnew, hold⟩, hheld⟩ := hm
    exact (hput a m hnew).elim hold hheld
  exact hframe.bind fun f => notes_pure (by grind [FrameDraft.mem_mentions])

theorem notes_frameField (d : FrameDraft) (key : String) (j : Json) :
    Notes (frameField d key j) fun d' m => m ∈ d'.mentions ∧ m ∉ d.mentions := by
  unfold frameField
  dsimp only
  split
  · exact (notes_name .kind j).bind fun n => notes_pure (by grind [FrameDraft.mem_mentions])
  · exact (notes_accessPath j).bind fun p => notes_pure (by grind [FrameDraft.mem_mentions])
  · exact notes_inFrame (notes_optional notes_signature j) (by grind [Frame.mem_partMentions])
  · exact notes_inFrame (notes_optional (notes_name .field) j) (by grind [Frame.mem_partMentions])
  · exact notes_inFrame (notes_optional notes_position j) (by grind [Frame.mem_partMentions])
  · exact notes_inFrame (notes_natural32 j) (by grind [Frame.mem_partMentions])
  · exact notes_inFrame (notes_set notes_signature j) (by grind [Frame.mem_partMentions])
  · exact notes_inFrame (notes_set (notes_name .field) j) (by grind [Frame.mem_partMentions])
  · exact notes_inFrame (notes_mayAlways j) (by grind [Frame.mem_partMentions])
  · exact notes_inFrame (notes_mayAlways j) (by grind [Frame.mem_partMentions])
  · exact notes_inFrame (notes_featureSet j) (by grind [Frame.mem_partMentions])
  · exact notes_inFrame (notes_set notes_root j) (by grind [Frame.mem_partMentions])
  · exact notes_inFrame (notes_set notes_root j) (by grind [Frame.mem_partMentions])
  · exact notes_inFrame (notes_set notes_position j) (by grind [Frame.mem_partMentions])
  · exact notes_inFrame (notes_set notes_canonicalName j) (by grind [Frame.mem_partMentions])
  · exact notes_throw _

theorem notes_frameObject (fields : List (String × Json)) :
    Notes (frameObject fields) fun f m => m ∈ f.mentions := by
  refine Notes.bind (notes_foldlM (fun d field => notes_frameField d field.1 field.2) fields {})
    fun d => ?_
  refine notes_required_bind fun kind hkind => notes_required_bind fun port hfound => ?_
  refine notes_pure fun m hm => ?_
  obtain ⟨hheld, hread⟩ := hm
  refine hread ⟨FrameDraft.mem_mentions.2 ?_, List.not_mem_nil⟩
  rcases List.mem_cons.1 hheld with rfl | hheld
  · exact .inl ⟨kind, hkind, rfl⟩
  · -- Kind and port of the draft's own frame are not looked at.
    rcases List.mem_append.1 hheld with hport | hpart
    · exact .inr (.inl ⟨port, hfound, hport⟩)
    · exact .inr (.inr hpart)

theorem Notes.ofReading {α : Type} {x : Reading α} {held : α → Mention → Prop} (hx : Notes x held) :
    Notes (Loading.ofReading x) held := by
  obtain ⟨ms, outcome, hx, hms⟩ := hx
  refine ⟨ms, outcome.mapError .malformed, ⟨fun r => ?_, hx.isStatic_eq_false⟩, fun a ha => ?_⟩
  · change ((x.run r).1.mapError _, (x.run r).2) = _
    rw [hx.run_eq]
  · cases outcome with
    | error e => cases ha
    | ok b =>
        cases ha
        exact hms a rfl

theorem notes_frame (j : Json) : Notes (Frame.ofJson j) fun f m => m ∈ f.mentions := by
  unfold Frame.ofJson
  split
  · exact (notes_frameObject _).ofReading
  · exact notes_throw _

theorem notes_taint (j : Json) : Notes (Taint.ofJson j) fun t m => m ∈ t.mentions := by
  unfold Taint.ofJson
  split
  · refine (notes_mapM notes_frame _).bind fun fs => notes_pure fun m hm => ?_
    exact hm.2 (Taint.mem_mentions_ofList hm.1)
  · exact notes_throw _

end Frames

end TaintFlow.Reading
