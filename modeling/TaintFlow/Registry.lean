import TaintFlow.Method
import TaintFlow.Name
import TaintFlow.Pool
import TaintFlow.Position

/-!
# The registry of mentioned identities

Which names and positions have been mentioned so far, and which methods with which kind of dispatch.
Each of them is stored in a pool when it is first mentioned. The first mention of a signature decides
whether the method is static, and later mentions are answered with that decision; mentioning a name
or a position has no effect besides its being known from then on.
-/
namespace TaintFlow

/-- A name of any vocabulary, as the registry keeps it. -/
structure AnyName where
  vocabulary : Vocabulary
  text : String
deriving DecidableEq, Repr

namespace AnyName

instance : Ord AnyName := ⟨compareLex (compareOn vocabulary) (compareOn text)⟩

instance : Std.TransOrd AnyName :=
  inferInstanceAs (Std.TransCmp (compareLex (compareOn vocabulary) (compareOn text)))

instance : Std.LawfulEqOrd AnyName where
  eq_of_compare {a b} h := by
    have h' : (compare a.vocabulary b.vocabulary).then (compare a.text b.text) = .eq := h
    obtain ⟨hv, ht⟩ := Ordering.then_eq_eq.1 h'
    have := Std.LawfulEqCmp.eq_of_compare hv
    have := Std.LawfulEqCmp.eq_of_compare ht
    cases a; cases b; simp_all

instance : Keyed AnyName AnyName := ⟨id⟩

end AnyName

def Name.any {v : Vocabulary} (n : Name v) : AnyName := ⟨v, n.text⟩

/-- Whether a method is static does not take part in finding it. -/
instance : Keyed Method Signature := ⟨Method.signature⟩

instance : Keyed Position Position := ⟨id⟩

/-- The identities mentioned so far. -/
structure Registry where
  names : Pool AnyName := ∅
  methods : Pool Method := ∅
  positions : Pool Position := ∅
deriving DecidableEq, Repr

namespace Registry

variable {v : Vocabulary}

def empty : Registry := {}

instance : Inhabited Registry := ⟨empty⟩

def knows (r : Registry) (n : Name v) : Bool := (r.names.get? n.any).isSome

def count (r : Registry) (v : Vocabulary) : Nat := r.names.values.countP (·.vocabulary = v)

def internName (r : Registry) (n : AnyName) : Handle AnyName × Registry :=
  let (h, names) := r.names.intern n
  (h, { r with names })

def mention (r : Registry) (n : Name v) : Registry := (r.internName n.any).2

def mentionAll (r : Registry) (ns : List (Name v)) : Registry := ns.foldl mention r

def internPosition (r : Registry) (p : Position) : Handle Position × Registry :=
  let (h, positions) := r.positions.intern p
  (h, { r with positions })

def mentionPosition (r : Registry) (p : Position) : Registry := (r.internPosition p).2

/-- The method of a signature that has been mentioned. -/
def method? (r : Registry) (s : Signature) : Option Method :=
  (r.methods.get? s).map Handle.value

def internMethod (r : Registry) (m : Method) : Handle Method × Registry :=
  let (h, methods) := r.methods.intern m
  (h, { r with methods })

/-- Mention a method: the first mention of its signature fixes `isStatic` for good. -/
def mentionMethod (r : Registry) (s : Signature) (isStatic : Bool) : Method × Registry :=
  let (h, r) := r.internMethod ⟨s, isStatic⟩
  (h.value, r)

@[simp] theorem knows_mention {w : Vocabulary} (r : Registry) (n : Name v) (m : Name w) :
    (r.mention n).knows m = (decide (w = v ∧ m.text = n.text) || r.knows m) := by
  have hany : m.any = Keyed.key n.any ↔ w = v ∧ m.text = n.text := AnyName.mk.injEq .. ▸ Iff.rfl
  simp only [knows, mention, internName, Pool.get?_intern, hany]
  split <;> simp_all

/-- A signature that has been mentioned is answered with the first decision. -/
theorem mentionMethod_of_known {r : Registry} {s : Signature} {m : Method} (b : Bool)
    (h : r.method? s = some m) : r.mentionMethod s b = (m, r) := by
  obtain ⟨g, hget, rfl⟩ := Option.map_eq_some_iff.1 h
  have hintern : r.methods.intern ⟨s, b⟩ = (g, r.methods) := Pool.intern_of_known hget
  simp only [mentionMethod, internMethod, hintern]

theorem method?_mentionMethod (r : Registry) (s t : Signature) (b : Bool) :
    (r.mentionMethod s b).2.method? t =
      if t = s then some (r.mentionMethod s b).1 else r.method? t := by
  have hget := Pool.get?_intern r.methods ⟨s, b⟩ t
  simp only [mentionMethod, internMethod, method?, hget]
  split <;> simp_all [Keyed.key]

/-- A signature that has not been mentioned is answered as it is asked. -/
theorem mentionMethod_of_unknown {r : Registry} {s : Signature} (b : Bool)
    (h : r.method? s = none) : (r.mentionMethod s b).1 = ⟨s, b⟩ := by
  have hget : r.methods.get? s = none := Option.map_eq_none_iff.1 h
  have hintern : (r.methods.intern ⟨s, b⟩).1 = ⟨r.methods.size, ⟨s, b⟩⟩ :=
    (Pool.intern_of_unknown hget).1
  simp only [mentionMethod, internMethod, hintern]

end Registry
end TaintFlow
