import ExprLang.Proofs.Evaluation.Coincide

namespace ExprLang

mutual

theorem Value.only_of_forall {P : Callable → Prop} (hP : ∀ c, P c) (v : Value) : v.Only P := by
  cases v with
  | bool | int => trivial
  | list items => exact allOnly_of_forall hP items
  | tuple items => exact allOnly_of_forall hP items
  | fn c => exact hP c

theorem Value.allOnly_of_forall {P : Callable → Prop} (hP : ∀ c, P c) (vs : List Value) :
    AllOnly P vs := by
  cases vs with
  | nil => trivial
  | cons v vs => exact ⟨only_of_forall hP v, allOnly_of_forall hP vs⟩

end

namespace Program

open Eval

def NoFunction (p : Program) (name : String) : Prop :=
  ∀ ret params names generics, p.globals.lookup name ≠ some (.fn ret params names generics)

/-- From the memo before an evaluation to the one after it. -/
structure Advances (p : Program) (m m' : Memo) : Prop where
  ready : ∀ name v, m.lookup name = some (.ready v) → m'.lookup name = some (.ready v)
  marks : ∀ name, m'.Marks name ↔ m.Marks name
  new : ∀ name, m.lookup name = none → m'.lookup name ≠ none → p.NoFunction name

namespace Advances

variable {p : Program} {m m' m'' : Memo} {name : String}

theorem refl (p : Program) (m : Memo) : p.Advances m m :=
  ⟨fun _ _ h => h, fun _ => Iff.rfl, fun _ h h' => absurd h h'⟩

theorem trans (h : p.Advances m m') (h' : p.Advances m' m'') : p.Advances m m'' := by
  refine ⟨fun name v hv => h'.ready name v (h.ready name v hv), fun name => ?_, ?_⟩
  · rw [h'.marks, h.marks]
  · intro name hnone hnew
    by_cases hname : m'.lookup name = none
    · exact h'.new name hname hnew
    · exact h.new name hnone hname

/-- During the computation of a global, other names fare as they do without its mark. -/
theorem lookup_mark {other : String} (hother : other ≠ name) :
    (m.insert name .evaluating).lookup other = m.lookup other := by
  rw [Memo.lookup_insert, if_neg hother]

/-- The computation of a global that was new is over: its slot may be filled or empty again, and the
others have advanced. -/
theorem unmark (h : p.Advances (m.insert name .evaluating) m') (hnew : m.lookup name = none)
    (hname : p.NoFunction name) (hothers : ∀ other, other ≠ name →
      m''.lookup other = m'.lookup other) (hmark : ¬ m''.Marks name) : p.Advances m m'' := by
  have hne {other : String} {slot : Slot} (hslot : m.lookup other = some slot) : other ≠ name := by
    rintro rfl
    cases hnew.symm.trans hslot
  constructor
  · intro other v hv
    rw [hothers other (hne hv)]
    apply h.ready
    rw [lookup_mark (hne hv)]
    exact hv
  · intro other
    by_cases hother : other = name
    · subst hother
      exact iff_of_false hmark fun hmarked => hne hmarked rfl
    · have hsame : m''.Marks other ↔ m'.Marks other := by
        rw [Memo.Marks, Memo.Marks, hothers other hother]
      rw [hsame, h.marks, Memo.marks_insert_evaluating, or_iff_right hother]
  · intro other hnone hslot
    by_cases hother : other = name
    · rw [hother]
      exact hname
    · rw [hothers other hother] at hslot
      apply h.new other ?_ hslot
      rw [lookup_mark hother]
      exact hnone

end Advances

/-- The induction is on the fuel, for all memos before the evaluation at once: the computation of a
value starts from a memo with its mark. -/
theorem coincideAt_advances (p : Program) (n : Nat) (m : Memo) :
    p.CoincideAt p (p.Advances m) (fun _ => True) (fun _ => True) (fun _ => True) n := by
  have hF : ∀ e : RuntimeError, ¬ e.IsCyclic → True := fun _ _ => trivial
  have honly : ∀ v : Value, v.Only fun _ => True := Value.only_of_forall fun _ => trivial
  induction n generalizing m with
  | zero => exact .zero
  | succ n ih =>
    constructor
    · exact fun env e henv he => (ih m).eval_succ hF henv he
    · intro name pos _
      refine CoincideAt.global_succ hF rfl rfl (fun _ v _ _ => honly v) (fun _ _ _ => trivial)
        trivial ?_
      intro m' d hm' hnew _ hname
      have hbody := (ih (m'.insert name .evaluating)).eval [] d.body .nil fun _ _ => trivial
      apply CoincideFrom.remember hbody (.refl p _) (fun v _ => honly v)
      · intro m'' v hm'' _
        refine hm'.trans (hm''.unmark hnew hname (fun other hother => ?_) ?_)
        · rw [Memo.lookup_insert, if_neg hother]
        · exact fun hmarked => ((Memo.marks_insert_ready _ _ _ _).1 hmarked).1 rfl
      · intro m'' hm''
        refine hm'.trans (hm''.unmark hnew hname (fun other hother => ?_) ?_)
        · rw [Memo.lookup_erase, if_neg hother]
        · exact fun hmarked => ((Memo.marks_erase _ _ _).1 hmarked).1 rfl
    · intro f args pos hf hargs
      exact (ih m).call_succ hF (fun _ _ => rfl) (fun _ _ _ _ _ _ => trivial) pos hf hargs

section Ends

variable (p : Program) (n : Nat) (m : Memo)

theorem eval_advances (env : Env) (e : Expr) :
    (p.eval n env e m).Always fun r => p.Advances m r.2 := by
  have henv : env.Only fun _ => True := fun _ v _ => Value.only_of_forall (fun _ => trivial) v
  have hends := (coincideAt_advances p n m).eval env e henv fun _ _ => trivial
  exact (hends m (.refl p m)).2.imp fun r hr => hr.2

theorem global_advances (name : String) (pos : Position) :
    (p.global n name pos m).Always fun r => p.Advances m r.2 := by
  have hends := (coincideAt_advances p n m).global name pos trivial
  exact (hends m (.refl p m)).2.imp fun r hr => hr.2

theorem call_advances (f : Value) (args : List Value) (pos : Position) :
    (p.call n f args pos m).Always fun r => p.Advances m r.2 := by
  have hends := (coincideAt_advances p n m).call f args pos
    (Value.only_of_forall (fun _ => trivial) f) (Value.allOnly_of_forall (fun _ => trivial) args)
  exact (hends m (.refl p m)).2.imp fun r hr => hr.2

end Ends

end Program

end ExprLang
