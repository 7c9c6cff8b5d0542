import Mathlib.Data.Fintype.Pigeonhole
import Mathlib.Order.Interval.Finset.Nat
import Mathlib.Tactic.Choose
import TaintFlow.Proofs.Widening.Closure

/-!
# The widening loop comes to rest

A summary is computed by widening it over and over: by other taint, by what it becomes behind a
call, and by what it becomes when a field is appended to its ports. Widening is the join, so nothing
but the finiteness of what may arrive keeps it from growing forever. The summary never leaves the
universe made of what it starts from and of the steps that are allowed, it never shrinks, and so it
is the same from some step on, whatever the order of the steps.
-/
namespace TaintFlow

namespace JoinLaws

variable {α : Type} [AbstractDomain α] {p : α → Prop} (L : JoinLaws p) {w : Nat → α}
  (hw : ∀ n, p (w n)) (hascending : ∀ n, AbstractDomain.leq (w n) (w (n + 1)))
include L hw hascending

theorem leq_of_ascending {m n : Nat} (h : m ≤ n) : AbstractDomain.leq (w m) (w n) := by
  induction h with
  | refl => exact L.leq_refl (hw m)
  | @step n _ ih => exact L.leq_trans (hw m) (hw n) (hw (n + 1)) ih (hascending n)

/-- An ascending sequence of finitely many elements comes to rest. One of them occurs again and
again, and all that lies between two occurrences is equal to it. -/
theorem exists_forall_eq_of_ascending (hfinite : (Set.range w).Finite) :
    ∃ N, ∀ n, N ≤ n → w n = w N := by
  have : Finite (Set.range w) := hfinite
  obtain ⟨v, hinfinite⟩ := Finite.exists_infinite_fiber (Set.rangeFactorization w)
  rw [Set.infinite_coe_iff] at hinfinite
  obtain ⟨N, hN⟩ := hinfinite.nonempty
  refine ⟨N, fun n hn => ?_⟩
  obtain ⟨k, hk, hlater⟩ := hinfinite.exists_gt n
  have hagain : w k = w N := congrArg Subtype.val (hk.trans hN.symm)
  apply L.leq_antisymm (hw n) (hw N)
  · rw [← hagain]
    exact L.leq_of_ascending hw hascending (Nat.le_of_lt hlater)
  · exact L.leq_of_ascending hw hascending hn

end JoinLaws

/-- One way in which a summary grows. -/
inductive Growth where
  /-- By other taint. -/
  | merge (t : Taint)
  /-- By what the summary is behind a call whose instruction has the features `extra`. -/
  | call (site : CallSite) (extra : MayAlways)
  /-- By the summary with an element appended to the ports of the kinds that satisfy `p`. -/
  | extend (element : PathElement) (p : Kind → Bool)

namespace Growth

/-- What arrives at the summary `w`. -/
def arriving (w : Taint) (c : Context) : Growth → Except Fault Taint × Context
  | merge t => (.ok t, c)
  | call site extra => w.propagate site extra c
  | extend element p => (.ok (w.appendPort element p), c)

/-- Widen the summary by what arrives, unless that is a fault. -/
def step (w : Taint) (c : Context) (g : Growth) : Except Fault Taint × Context :=
  match g.arriving w c with
  | (.ok u, c) => (.ok (w.widen u), c)
  | (.error fault, c) => (.error fault, c)

/-- The step does not lead out of the universe. -/
def StaysIn (U : Universe) : Growth → Prop
  | merge t => t.Within U.Holds
  | call site extra => U.AdmitsCall site extra
  | extend element _ => U.AdmitsElement element

variable {U : Universe} {w : Taint} {g : Growth}

theorem arriving_within (hw : w.Within U.Holds) (hg : g.StaysIn U) (c : Context) :
    ∃ u c', g.arriving w c = (.ok u, c') ∧ u.Within U.Holds := by
  cases g with
  | merge t => exact ⟨t, c, rfl, hg⟩
  | call site extra =>
      exact ⟨_, _, Taint.propagate_of_valid hw.valid site extra c, Universe.within_propagated hg hw⟩
  | extend element p =>
      refine ⟨_, c, rfl, Taint.within_appendPort U.holds_joinClosed hw fun f hf => ?_⟩
      exact Universe.holds_appendPort hg hf

/-- A step gives a summary of the universe, and a larger one. -/
theorem step_within (hw : w.Within U.Holds) (hg : g.StaysIn U) (c : Context) :
    ∃ v c', g.step w c = (.ok v, c') ∧ v.Within U.Holds ∧ w.leq v := by
  obtain ⟨u, c', harriving, hu⟩ := arriving_within hw hg c
  refine ⟨w.widen u, c', ?_, Taint.within_widen U.holds_joinClosed hw hu, ?_⟩
  · rw [step, harriving]
  · have hwiden : w.widen u = w.join u := Taint.joinLaws.widen_eq hw.valid hu.valid
    rw [hwiden]
    exact Taint.joinLaws.leq_join_left hw.valid hu.valid

def frames : Growth → List Frame
  | merge t => t.frames
  | _ => []

def calls : Growth → List (CallSite × MayAlways)
  | call site extra => [(site, extra)]
  | _ => []

def elements : Growth → List PathElement
  | extend element _ => [element]
  | _ => []

end Growth

namespace Taint
open Growth (step)

variable {w : Taint} {allowed : List Growth}

/-- The universe in which a summary stays that grows from `w` by the steps that are allowed. -/
def grown (w : Taint) (allowed : List Growth) : Universe :=
  .generated (w.frames ++ allowed.flatMap Growth.frames) (allowed.flatMap Growth.calls)
    (allowed.flatMap Growth.elements)

theorem within_grown (hw : w.Valid) : w.Within (w.grown allowed).Holds :=
  within_iff.2 ⟨hw, fun _ hf => Universe.generated_holds (List.mem_append_left _ hf)⟩

theorem staysIn_grown {g : Growth} (hg : g ∈ allowed) (hmerge : ∀ t, g = .merge t → t.Valid) :
    g.StaysIn (w.grown allowed) := by
  cases g with
  | merge t =>
      refine within_iff.2 ⟨hmerge t rfl, fun f hf => Universe.generated_holds ?_⟩
      exact List.mem_append_right _ (List.mem_flatMap.2 ⟨_, hg, hf⟩)
  | call site extra =>
      exact Universe.generated_admitsCall (List.mem_flatMap.2 ⟨_, hg, List.mem_singleton_self _⟩)
  | extend element p =>
      exact Universe.generated_admitsElement (List.mem_flatMap.2 ⟨_, hg, List.mem_singleton_self _⟩)

/-- The summary after the first `n` steps of an endless schedule. A fault stays. -/
def widenAlong (schedule : Nat → Growth) (w : Taint) (c : Context) :
    Nat → Except Fault Taint × Context
  | 0 => (.ok w, c)
  | n + 1 =>
    match widenAlong schedule w c n with
    | (.ok v, c) => (schedule n).step v c
    | (.error fault, c) => (.error fault, c)

theorem widenAlong_succ {schedule : Nat → Growth} {c c' : Context} {n : Nat} {v : Taint}
    (h : widenAlong schedule w c n = (.ok v, c')) :
    widenAlong schedule w c (n + 1) = (schedule n).step v c' := by
  rw [widenAlong, h]

/-- The summary stays in a universe that none of the steps leaves. -/
theorem widenAlong_within {schedule : Nat → Growth} {U : Universe} (hw : w.Within U.Holds)
    (hschedule : ∀ n, (schedule n).StaysIn U) (c : Context) (n : Nat) :
    ∃ v c', widenAlong schedule w c n = (.ok v, c') ∧ v.Within U.Holds := by
  induction n with
  | zero => exact ⟨w, c, rfl, hw⟩
  | succ n ih =>
      obtain ⟨v, c', hv, hwithin⟩ := ih
      obtain ⟨v', c'', hstep, hwithin', -⟩ := Growth.step_within hwithin (hschedule n) c'
      exact ⟨v', c'', (widenAlong_succ hv).trans hstep, hwithin'⟩

/-- Whatever the order of the steps, as long as they are taken from finitely many, no step is a
fault and from some step on the summary stays as it is. -/
theorem widenAlong_comes_to_rest (hw : w.Valid) (allowed : List Growth)
    (hallowed : ∀ t, .merge t ∈ allowed → t.Valid) (schedule : Nat → Growth)
    (hschedule : ∀ n, schedule n ∈ allowed) (c : Context) :
    ∃ summary : Nat → Taint, (∀ n, (widenAlong schedule w c n).1 = .ok (summary n)) ∧
      ∃ N, ∀ n, N ≤ n → (summary n).equals (summary N) := by
  have hstays (n : Nat) : (schedule n).StaysIn (w.grown allowed) :=
    staysIn_grown (hschedule n) fun t ht => hallowed t (ht ▸ hschedule n)
  have hrun := widenAlong_within (within_grown hw) hstays c
  choose summary context hsummary hwithin using hrun
  have hvalid (n : Nat) : (summary n).Valid := (hwithin n).valid
  have hascending (n : Nat) : (summary n).leq (summary (n + 1)) := by
    obtain ⟨v, c', hstep, -, hle⟩ := Growth.step_within (hwithin n) (hstays n) (context n)
    have hnext := (hsummary (n + 1)).symm.trans ((widenAlong_succ (hsummary n)).trans hstep)
    cases hnext
    exact hle
  have hfinite : (Set.range summary).Finite := by
    refine (w.grown allowed).finite_within.subset ?_
    intro v hv
    obtain ⟨n, rfl⟩ := hv
    exact hwithin n
  obtain ⟨N, hrest⟩ := joinLaws.exists_forall_eq_of_ascending hvalid hascending hfinite
  refine ⟨summary, fun n => ?_, N, fun n hn => ?_⟩
  · rw [hsummary n]
  · exact (joinLaws.equals_iff (hvalid n) (hvalid N)).2 (hrest n hn)

/-- Appending a field over and over makes paths up to the greatest depth, and then nothing more. -/
theorem widenAlong_comes_to_rest_of_append :
    let c : Context := ⟨.ofPreset .fast, []⟩
    let start := ofList [.declared ⟨"Source"⟩ (.ofRoot .result)]
    let schedule : Nat → Growth := fun _ => .extend ⟨"next"⟩ fun _ => true
    ∃ summary : Nat → Taint, (∀ n, (widenAlong schedule start c n).1 = .ok (summary n)) ∧
      (∃ N, ∀ n, N ≤ n → (summary n).equals (summary N)) ∧
      (summary 3).equals (summary 4) = false ∧ (summary 4).equals (summary 5) := by
  intro c start schedule
  have hallowed : ∀ t, Growth.merge t ∈ [schedule 0] → t.Valid := by
    intro t ht
    cases List.mem_singleton.1 ht
  obtain ⟨summary, hsummary, hrest⟩ := widenAlong_comes_to_rest (valid_ofList _) [schedule 0]
    hallowed schedule (fun _ => List.mem_singleton_self _) c
  have hvalue (n : Nat) : summary n = (widenAlong schedule start c n).1.toOption.getD ∅ := by
    rw [hsummary n]
    rfl
  refine ⟨summary, hsummary, hrest, ?_, ?_⟩
  · rw [hvalue 3, hvalue 4]
    decide
  · rw [hvalue 4, hvalue 5]
    decide

end Taint
end TaintFlow
