import TaintFlow.Proofs.Identity.Pool
import TaintFlow.Registry

/-!
# What a registry has been told

All that happens to a registry is that identities are mentioned to it. Its three pools are asked for
what is mentioned, each for its own sort of identities, so a registry is described by a list of
mentions, and what it has stored may be mentioned in place of them.
-/
namespace TaintFlow

/-- An identity as it is mentioned. A method comes with what is said of its dispatch. -/
inductive Mention where
  | name (n : AnyName)
  | method (m : Method)
  | position (p : Position)
deriving DecidableEq, Repr

namespace Mention

def name? : Mention → Option AnyName
  | name n => some n
  | _ => none

def method? : Mention → Option Method
  | method m => some m
  | _ => none

def position? : Mention → Option Position
  | position p => some p
  | _ => none

/-- What is picked from mentions of one sort is what is mentioned of it. -/
theorem mem_filterMap_iff {α : Type} {pick : Mention → Option α} {mention : α → Mention}
    (h : ∀ m a, pick m = some a ↔ m = mention a) {ms : List Mention} {a : α} :
    a ∈ ms.filterMap pick ↔ mention a ∈ ms := by
  simp only [List.mem_filterMap, h, exists_eq_right]

theorem mem_filterMap_name? {ms : List Mention} {n : AnyName} :
    n ∈ ms.filterMap name? ↔ name n ∈ ms :=
  mem_filterMap_iff fun m _ => by cases m <;> simp [name?]

theorem mem_filterMap_method? {ms : List Mention} {c : Method} :
    c ∈ ms.filterMap method? ↔ method c ∈ ms :=
  mem_filterMap_iff fun m _ => by cases m <;> simp [method?]

theorem mem_filterMap_position? {ms : List Mention} {p : Position} :
    p ∈ ms.filterMap position? ↔ position p ∈ ms :=
  mem_filterMap_iff fun m _ => by cases m <;> simp [position?]

end Mention

/-- A method that is mentioned without word of its dispatch. -/
def Signature.mention (s : Signature) : Mention := .method ⟨s, false⟩

namespace Registry
variable {r : Registry} {ms ns : List Mention}

def note (r : Registry) : Mention → Registry
  | .name n => (r.internName n).2
  | .method m => (r.internMethod m).2
  | .position p => r.mentionPosition p

def noteAll (r : Registry) (ms : List Mention) : Registry := ms.foldl note r

theorem noteAll_append (r : Registry) (ms ns : List Mention) :
    r.noteAll (ms ++ ns) = (r.noteAll ms).noteAll ns := List.foldl_append

/-- Each pool is asked for its own sort of identities. -/
theorem noteAll_eq (r : Registry) (ms : List Mention) : r.noteAll ms =
    { names := r.names.internAll (ms.filterMap Mention.name?)
      methods := r.methods.internAll (ms.filterMap Mention.method?)
      positions := r.positions.internAll (ms.filterMap Mention.position?) } := by
  induction ms generalizing r with
  | nil => rfl
  | cons m ms ih =>
      change (r.note m).noteAll ms = _
      rw [ih]
      cases m <;> rfl

theorem noteAll_empty (ms : List Mention) : empty.noteAll ms =
    { names := .ofRequests (ms.filterMap Mention.name?)
      methods := .ofRequests (ms.filterMap Mention.method?)
      positions := .ofRequests (ms.filterMap Mention.position?) } := noteAll_eq empty ms

/-- A signature that is not known yet belongs to the first method that is mentioned with it. -/
theorem method?_noteAll (r : Registry) (ms : List Mention) (s : Signature) :
    (r.noteAll ms).method? s =
      (r.method? s).or ((ms.filterMap Mention.method?).find? fun c => c.signature = s) := by
  rw [noteAll_eq]
  exact Pool.value_get?_internAll r.methods (ms.filterMap Mention.method?) s

/-- What a registry has stored. -/
def mentions (r : Registry) : List Mention :=
  r.names.values.map .name ++ (r.methods.values.map .method ++ r.positions.values.map .position)

theorem filterMap_name?_mentions : r.mentions.filterMap Mention.name? = r.names.values := by
  simp [mentions, List.filterMap_map, Function.comp_def, Mention.name?]

theorem filterMap_method?_mentions : r.mentions.filterMap Mention.method? = r.methods.values := by
  simp [mentions, List.filterMap_map, Function.comp_def, Mention.method?]

theorem filterMap_position?_mentions :
    r.mentions.filterMap Mention.position? = r.positions.values := by
  simp [mentions, List.filterMap_map, Function.comp_def, Mention.position?]

/-- What a registry has stored may be mentioned in place of all that it has been told. -/
theorem noteAll_mentions (r : Registry) (ms : List Mention) :
    r.noteAll (empty.noteAll ms).mentions = r.noteAll ms := by
  rw [noteAll_eq r ms, noteAll_eq r, filterMap_name?_mentions, filterMap_method?_mentions,
    filterMap_position?_mentions, noteAll_empty]
  have hnames := Pool.internAll_values_ofRequests r.names (ms.filterMap Mention.name?)
  have hmethods := Pool.internAll_values_ofRequests r.methods (ms.filterMap Mention.method?)
  have hpositions := Pool.internAll_values_ofRequests r.positions (ms.filterMap Mention.position?)
  exact Registry.mk.injEq .. ▸ ⟨hnames, hmethods, hpositions⟩

theorem mem_mentions {m : Mention} : m ∈ r.mentions ↔
    (∃ n ∈ r.names.values, .name n = m) ∨ (∃ c ∈ r.methods.values, .method c = m) ∨
      ∃ p ∈ r.positions.values, .position p = m := by
  simp only [mentions, List.mem_append, List.mem_map]

/-- Nothing is lost of what an empty registry is told as long as no method is said to be static. -/
theorem mem_mentions_noteAll {m : Mention} (h : ∀ c, .method c ∈ ms → c.isStatic = false) :
    m ∈ (empty.noteAll ms).mentions ↔ m ∈ ms := by
  have hmethods : ∀ c ∈ ms.filterMap Mention.method?, ∀ d ∈ ms.filterMap Mention.method?,
      d.signature = c.signature → d = c := by
    intro c hc d hd hsignature
    have hboth := (h c (Mention.mem_filterMap_method?.1 hc)).trans
      (h d (Mention.mem_filterMap_method?.1 hd)).symm
    exact Method.mk.injEq .. ▸ ⟨hsignature, hboth.symm⟩
  rw [mem_mentions, noteAll_empty]
  cases m with
  | name n =>
      have hn : n ∈ (Pool.ofRequests (ms.filterMap Mention.name?)).values ↔ _ :=
        Pool.mem_values_ofRequests_of_inj fun _ _ _ _ heq => heq
      simpa using hn.trans Mention.mem_filterMap_name?
  | method c =>
      have hc := Pool.mem_values_ofRequests_of_inj hmethods (v := c)
      simpa using hc.trans Mention.mem_filterMap_method?
  | position p =>
      have hp : p ∈ (Pool.ofRequests (ms.filterMap Mention.position?)).values ↔ _ :=
        Pool.mem_values_ofRequests_of_inj fun _ _ _ _ heq => heq
      simpa using hp.trans Mention.mem_filterMap_position?

end Registry
end TaintFlow
