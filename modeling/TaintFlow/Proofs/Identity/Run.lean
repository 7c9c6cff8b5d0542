import TaintFlow.Proofs.Identity.Readings

/-!
# Identities over a run

Identities are mentioned one by one, or on the way while ports and JSON values are read, whether
that fails or not. Whatever the order of all this is, it comes down to a list of mentions, and the
handles that are given out behave as the identities that they were asked for.
-/
namespace TaintFlow

/-- What a JSON value may be read as. -/
inductive Form where
  | name (v : Vocabulary)
  | signature
  | position
  | root
  | port
  | featureSet
  | mayAlways
  | canonicalName
  | frame
  | taint
deriving DecidableEq, Repr

/-- The identities that the value holds, unless the reading fails, and the registry afterwards. -/
def Reading.observe {ε α : Type} (x : ExceptT ε (StateM Registry) α) (held : α → List Mention)
    (r : Registry) : Option (List Mention) × Registry :=
  ((x.run r).1.toOption.map held, (x.run r).2)

namespace Form
open Reading (observe Notes)

def read (form : Form) (j : Json) : Registry → Option (List Mention) × Registry :=
  match form with
  | .name v => observe (Reading.name v j) fun n => [.name n.any]
  | .signature => observe (Reading.signature j) fun s => [s.mention]
  | .position => observe (Reading.position j) fun p => [.position p]
  | .root => observe (Reading.root j) fun _ => []
  | .port => observe (Reading.accessPath j) AccessPath.mentions
  | .featureSet => observe (Reading.featureSet j) FeatureSet.mentions
  | .mayAlways => observe (Reading.mayAlways j) MayAlways.mentions
  | .canonicalName => observe (Reading.canonicalName j) fun _ => []
  | .frame => observe (Frame.ofJson j) Frame.mentions
  | .taint => observe (Taint.ofJson j) Taint.mentions

/-- What an empty registry knows after the reading, and so what the reading mentions. -/
def mentions (form : Form) (j : Json) : List Mention := (form.read j .empty).2.mentions

variable {form : Form} {j : Json}

theorem observe_eq {ε α : Type} {x : ExceptT ε (StateM Registry) α} {held : α → List Mention}
    (hx : Notes x fun a m => m ∈ held a) :
    ∃ ms outcome, (∀ r, observe x held r = (outcome, r.noteAll ms)) ∧
      (∀ c, .method c ∈ ms → c.isStatic = false) ∧ ∀ ids ∈ outcome, ids ⊆ ms := by
  obtain ⟨ms, outcome, hx, hms⟩ := hx
  refine ⟨ms, outcome.toOption.map held, fun r => ?_, hx.isStatic_eq_false, ?_⟩
  · rw [observe, hx.run_eq]
  · intro ids hids
    cases outcome with
    | error e => cases hids
    | ok a =>
        cases hids
        exact hms a rfl

/-- The same is read, and the same is mentioned, in all registries. -/
theorem read_eq (form : Form) (j : Json) :
    ∃ ms outcome, (∀ r, form.read j r = (outcome, r.noteAll ms)) ∧
      (∀ c, .method c ∈ ms → c.isStatic = false) ∧ ∀ ids ∈ outcome, ids ⊆ ms := by
  cases form with
  | name v => exact observe_eq ((Reading.notes_name v j).imp fun _ _ => List.mem_singleton.1)
  | signature => exact observe_eq ((Reading.notes_signature j).imp fun _ _ => List.mem_singleton.1)
  | position => exact observe_eq ((Reading.notes_position j).imp fun _ _ => List.mem_singleton.1)
  | root => exact observe_eq ((Reading.notes_root j).imp fun _ _ => List.not_mem_nil)
  | port => exact observe_eq (Reading.notes_accessPath j)
  | featureSet => exact observe_eq (Reading.notes_featureSet j)
  | mayAlways => exact observe_eq (Reading.notes_mayAlways j)
  | canonicalName => exact observe_eq ((Reading.notes_canonicalName j).imp fun _ _ => List.not_mem_nil)
  | frame => exact observe_eq (Reading.notes_frame j)
  | taint => exact observe_eq (Reading.notes_taint j)

theorem registry_read (form : Form) (j : Json) (r : Registry) :
    (form.read j r).2 = r.noteAll (form.mentions j) := by
  obtain ⟨ms, outcome, hread, -⟩ := form.read_eq j
  rw [mentions, hread, hread, Registry.noteAll_mentions]

theorem subset_mentions {r : Registry} {ids : List Mention} (h : ids ∈ (form.read j r).1) :
    ids ⊆ form.mentions j := by
  obtain ⟨ms, outcome, hread, hinstance, hheld⟩ := form.read_eq j
  rw [hread] at h
  intro m hm
  rw [mentions, hread]
  exact (Registry.mem_mentions_noteAll hinstance).2 (hheld ids h hm)

/-- No reading says that a method is static. -/
theorem isStatic_eq_false {c : Method} (h : .method c ∈ form.mentions j) : c.isStatic = false := by
  obtain ⟨ms, outcome, hread, hinstance, -⟩ := form.read_eq j
  rw [mentions, hread] at h
  exact hinstance c ((Registry.mem_mentions_noteAll hinstance).1 h)

end Form

/-- What identities are mentioned by. -/
inductive Encounter where
  /-- To ask for a name, a method or a position. -/
  | mention (m : Mention)
  | parsePort (s : String)
  | read (form : Form) (j : Json)

namespace Encounter

def mentions : Encounter → List Mention
  | mention m => [m]
  | parsePort s => (AccessPath.mentioned s).map fun e => .name e.any
  | read form j => form.mentions j

variable (run : List Encounter)

/-- The names that a run mentions, in this order. -/
def names : List AnyName := (run.flatMap mentions).filterMap Mention.name?

def methods : List Method := (run.flatMap mentions).filterMap Mention.method?

def positions : List Position := (run.flatMap mentions).filterMap Mention.position?

end Encounter

namespace Registry

def perform (r : Registry) : Encounter → Registry
  | .mention m => r.note m
  | .parsePort s => r.mentionAll (AccessPath.mentioned s)
  | .read form j => (form.read j r).2

def performAll (r : Registry) (run : List Encounter) : Registry := run.foldl perform r

theorem mentionAll_eq {v : Vocabulary} (r : Registry) (ns : List (Name v)) :
    r.mentionAll ns = r.noteAll (ns.map fun n => .name n.any) := by
  rw [noteAll, List.foldl_map]
  rfl

theorem perform_eq (r : Registry) (e : Encounter) : r.perform e = r.noteAll e.mentions := by
  cases e with
  | mention m => rfl
  | parsePort s => exact mentionAll_eq r (AccessPath.mentioned s)
  | read form j => exact Form.registry_read form j r

/-- A run comes down to what is mentioned in it. -/
theorem performAll_eq (r : Registry) (run : List Encounter) :
    r.performAll run = r.noteAll (run.flatMap Encounter.mentions) := by
  induction run generalizing r with
  | nil => rfl
  | cons e run ih =>
      change (r.perform e).performAll run = _
      rw [ih, perform_eq, List.flatMap_cons, noteAll_append]

end Registry

namespace Encounter
open Pool (ofRequests given)

/-- Identities behave like values, whatever the operations are. -/
structure LikeValues (run : List Encounter) : Prop where
  /-- Each pool has been asked for what was mentioned of its sort. -/
  registry_eq : Registry.empty.performAll run =
    { names := ofRequests (names run)
      methods := ofRequests (methods run)
      positions := ofRequests (positions run) }
  like_names : Pool.LikeKeys (names run)
  like_methods : Pool.LikeKeys (methods run)
  like_positions : Pool.LikeKeys (positions run)
  /-- Who asks for an identity between two parts of the run gets one of these handles. -/
  name_given (before after : List Encounter) (n : AnyName) :
    run = before ++ .mention (.name n) :: after → ∃ i, (names run)[i] = n ∧
      given (names run) i = ((Registry.empty.performAll before).internName n).1
  method_given (before after : List Encounter) (c : Method) :
    run = before ++ .mention (.method c) :: after → ∃ i, (methods run)[i] = c ∧
      given (methods run) i = ((Registry.empty.performAll before).internMethod c).1
  position_given (before after : List Encounter) (p : Position) :
    run = before ++ .mention (.position p) :: after → ∃ i, (positions run)[i] = p ∧
      given (positions run) i = ((Registry.empty.performAll before).internPosition p).1
  /-- Names of one vocabulary are ordered by their texts. -/
  compare_names (i j : Fin (names run).length) :
    (names run)[i].vocabulary = (names run)[j].vocabulary →
      compare (given (names run) i) (given (names run) j) =
        compare (names run)[i].text (names run)[j].text
  /-- What a reading gives has been mentioned, with all methods as instance methods. -/
  held (form : Form) (j : Json) (r : Registry) (ids : List Mention) :
    ids ∈ (form.read j r).1 → ids ⊆ mentions (.read form j)
  instance_methods (form : Form) (j : Json) (c : Method) :
    .method c ∈ mentions (.read form j) → c.isStatic = false
  knows_iff {v : Vocabulary} (n : Name v) :
    (Registry.empty.performAll run).knows n ↔ .name n.any ∈ run.flatMap mentions
  count_eq (v : Vocabulary) : (Registry.empty.performAll run).count v =
    ((names run).filter fun n => n.vocabulary = v).dedup.length
  method?_eq (s : Signature) : (Registry.empty.performAll run).method? s =
    (methods run).find? fun c => c.signature = s

theorem registry_eq (run : List Encounter) : Registry.empty.performAll run =
    { names := ofRequests (names run)
      methods := ofRequests (methods run)
      positions := ofRequests (positions run) } := by
  rw [Registry.performAll_eq, Registry.noteAll_empty]
  rfl

theorem name_given {run before after : List Encounter} {n : AnyName}
    (h : run = before ++ .mention (.name n) :: after) : ∃ i, (names run)[i] = n ∧
      given (names run) i = ((Registry.empty.performAll before).internName n).1 := by
  have hsplit : names run = names before ++ n :: names after := by
    simp [h, names, mentions, Mention.name?]
  rw [registry_eq before]
  exact Pool.exists_given hsplit

theorem method_given {run before after : List Encounter} {c : Method}
    (h : run = before ++ .mention (.method c) :: after) : ∃ i, (methods run)[i] = c ∧
      given (methods run) i = ((Registry.empty.performAll before).internMethod c).1 := by
  have hsplit : methods run = methods before ++ c :: methods after := by
    simp [h, methods, mentions, Mention.method?]
  rw [registry_eq before]
  exact Pool.exists_given hsplit

theorem position_given {run before after : List Encounter} {p : Position}
    (h : run = before ++ .mention (.position p) :: after) : ∃ i, (positions run)[i] = p ∧
      given (positions run) i = ((Registry.empty.performAll before).internPosition p).1 := by
  have hsplit : positions run = positions before ++ p :: positions after := by
    simp [h, positions, mentions, Mention.position?]
  rw [registry_eq before]
  exact Pool.exists_given hsplit

theorem compare_names {run : List Encounter} (i j : Fin (names run).length)
    (h : (names run)[i].vocabulary = (names run)[j].vocabulary) :
    compare (given (names run) i) (given (names run) j) =
      compare (names run)[i].text (names run)[j].text := by
  rw [Pool.compare_given]
  change (compare (names run)[i].vocabulary (names run)[j].vocabulary).then
    (compare (names run)[i].text (names run)[j].text) = _
  rw [h, Std.ReflOrd.compare_self]
  rfl

theorem knows_iff {run : List Encounter} {v : Vocabulary} (n : Name v) :
    (Registry.empty.performAll run).knows n ↔ .name n.any ∈ run.flatMap mentions := by
  rw [registry_eq, Registry.knows, Pool.isSome_get?_ofRequests, ← Mention.mem_filterMap_name?]
  constructor
  · intro hfound
    obtain ⟨m, hmem, hkey⟩ := hfound
    exact hkey ▸ hmem
  · intro hmem
    exact ⟨_, hmem, rfl⟩

theorem count_eq (run : List Encounter) (v : Vocabulary) :
    (Registry.empty.performAll run).count v =
      ((names run).filter fun n => n.vocabulary = v).dedup.length := by
  rw [registry_eq, Registry.count, List.countP_eq_length_filter]
  have hstored := List.Nodup.of_map _ (ofRequests (names run)).distinct
  refine List.Perm.length_eq ((List.perm_ext_iff_of_nodup (hstored.filter _) ?_).2 fun n => ?_)
  · exact List.nodup_dedup _
  · have hmem : n ∈ (ofRequests (names run)).values ↔ n ∈ names run :=
      Pool.mem_values_ofRequests_of_inj fun _ _ _ _ heq => heq
    rw [List.mem_dedup, List.mem_filter, List.mem_filter, hmem]

theorem likeValues (run : List Encounter) : LikeValues run where
  registry_eq := registry_eq run
  like_names := Pool.likeKeys _
  like_methods := Pool.likeKeys _
  like_positions := Pool.likeKeys _
  name_given _ _ _ := name_given
  method_given _ _ _ := method_given
  position_given _ _ _ := position_given
  compare_names := compare_names
  held _ _ _ _ := Form.subset_mentions
  instance_methods _ _ _ := Form.isStatic_eq_false
  knows_iff := knows_iff
  count_eq := count_eq run
  method?_eq s := by
    rw [registry_eq]
    exact Pool.value_get?_ofRequests (methods run) s

end Encounter
end TaintFlow
