import ExprLang.Expr.Parser
import ExprLang.TypeExpr.Progress

namespace ExprLang.Expr

open Parse

variable {expr : Parse Expr} {type : Parse TypeExpr} {n : Nat}

theorem bindingName_ends (e : Expr) : (bindingName e).Ends n 0 := by
  rw [bindingName.eq_def]
  split
  · exact Ends.pure _
  · exact Ends.fail _ _

theorem bindingNames_ends (es : List Expr) : (bindingNames es).Ends n 0 := by
  induction es with
  | nil => exact Ends.pure _
  | cons e es ih =>
    refine Ends.bind_zero (bindingName_ends e) fun name => ?_
    exact Ends.bind_zero ih fun names => Ends.pure _

theorem branches_ends (h : expr.Ends n 0) : (branches expr).Ends n 0 := by
  refine Ends.bind_zero (Ends.expectKeyword _).weaken fun _ => ?_
  refine Ends.bind_zero h fun yes => ?_
  refine Ends.bind_zero (Ends.expectKeyword _).weaken fun _ => ?_
  exact Ends.bind_zero h fun no => Ends.pure _

theorem conditional_ends (h : expr.Ends n 0) (pos : Position) :
    (conditional expr pos).Ends n 0 := by
  refine Ends.bind_zero h fun test => ?_
  refine Ends.bind_zero (Ends.accept _) fun b => ?_
  split
  · split
    · refine Ends.bind_zero (bindingName_ends _) fun head => ?_
      refine Ends.bind_zero (bindingName_ends _) fun tail => ?_
      refine Ends.bind_zero h fun whole => ?_
      exact Ends.bind_zero (branches_ends h) fun r => Ends.pure _
    · exact Ends.fail _ _
  · exact Ends.bind_zero (branches_ends h) fun r => Ends.pure _

theorem bound_ends (h : expr.Ends n 0) : (bound expr).Ends n 0 := by
  refine Ends.bind_zero (Ends.expect _).weaken fun _ => ?_
  refine Ends.bind_zero h fun value => ?_
  refine Ends.bind_zero (Ends.expectKeyword _).weaken fun _ => ?_
  exact Ends.bind_zero h fun body => Ends.pure _

theorem binding_ends (h : expr.Ends n 0) (pos : Position) : (binding expr pos).Ends n 0 := by
  refine Ends.bind_zero h fun pattern => ?_
  split
  · exact Ends.bind_zero (bound_ends h) fun r => Ends.pure _
  · refine Ends.bind_zero (bindingNames_ends _) fun names => ?_
    exact Ends.bind_zero (bound_ends h) fun r => Ends.pure _
  · exact Ends.fail _ _

theorem listLiteral_ends {fuel : Nat} (h : expr.Ends n 1) (ht : type.Ends n 0) (hn : n < fuel)
    (pos : Position) : (listLiteral expr type fuel pos).Ends n 0 := by
  refine Ends.bind_zero (Ends.series _ false h.weaken hn).weaken fun items => ?_
  refine Ends.bind_zero (Ends.acceptKeyword _) fun of? => ?_
  split
  · exact Ends.pure _
  · split
    · exact Ends.bind_zero ht fun element => Ends.pure _
    · exact Ends.fail _ _

theorem callArgs_ends {fuel : Nat} (h : expr.Ends n 1) (hn : n < fuel) (callee : Expr)
    (generics : Option (List TypeExpr)) : (callArgs expr fuel callee generics).Ends n 0 :=
  Ends.bind_zero (Ends.series _ false h.weaken hn).weaken fun _ => Ends.pure _

theorem genericCall_ends {fuel : Nat} (h : expr.Ends n 1) (ht : type.Ends n 1) (hn : n < fuel)
    (callee : Expr) : (genericCall expr type fuel callee).Ends n 0 := by
  refine Ends.bind_zero (Ends.series _ false ht.weaken hn).weaken fun types => ?_
  refine Ends.bind_zero (Ends.accept _) fun b => ?_
  split
  · exact callArgs_ends h hn callee _
  · exact Ends.bind_zero Ends.here fun pos => Ends.fail _ _

theorem extend_ends {expr : Nat → Parse Expr} {fuel : Nat} (h : ∀ floor, (expr floor).Ends n 1)
    (ht : type.Ends n 1) (hn : n < fuel) (node : Expr) (pos : Position) (s : Suffix) :
    (extend expr type fuel node pos s).Ends n 0 := by
  cases s with
  | generics => exact genericCall_ends (h _) ht hn _
  | call => exact callArgs_ends (h _) hn _ _
  | cons => exact Ends.bind_zero (h _).weaken fun e => Ends.pure _
  | binary op => exact Ends.bind_zero (h _).weaken fun e => Ends.pure _

theorem parse_operand_suffixes_ends (fuel : Nat) :
    (∀ n floor, 2 * n + 2 ≤ fuel → (parse fuel floor).Ends n 1) ∧
      (∀ n, 2 * n + 1 ≤ fuel → (operand fuel).Ends n 1) ∧
      (∀ n floor node, 2 * n + 2 ≤ fuel → (suffixes fuel floor node).Ends n 0) := by
  induction fuel with
  | zero => exact ⟨fun n _ h => by omega, fun n h => by omega, fun n _ _ h => by omega⟩
  | succ fuel ih =>
    obtain ⟨ihParse, ihOperand, ihSuffixes⟩ := ih
    refine ⟨fun n floor h => ?_, fun n h => ?_, fun n floor node h => ?_⟩
    · rw [parse]
      refine (ihOperand n (by omega)).bind_one fun m hm node => ?_
      exact ihSuffixes m floor node (by omega)
    · rw [operand]
      refine (Ends.next _).bind_one fun m hm t => ?_
      have hparse := fun floor => ihParse m floor (by omega)
      split
      · exact Ends.pure _
      · exact Ends.pure _
      · exact Ends.pure _
      · exact Ends.pure _
      · exact conditional_ends (hparse _).weaken _
      · exact binding_ends (hparse _).weaken _
      · exact Ends.unexpected _ _
      · split
        · exact Ends.bind_zero (hparse _).weaken fun e => Ends.pure _
        · exact Ends.bind_zero (hparse _).weaken fun e => Ends.pure _
        · exact Ends.bind_zero (Ends.series _ false (hparse _).weaken (by omega)).weaken
            fun items => Ends.pure _
        · exact listLiteral_ends (hparse _) (TypeExpr.parse_ends (by omega)).weaken (by omega) _
        · exact Ends.unexpected _ _
    · rw [suffixes]
      refine Ends.bind_zero Ends.peek fun t? => ?_
      split
      · exact Ends.pure _
      split
      · exact Ends.pure _
      split
      · exact Ends.pure _
      refine ((Ends.next _).bind_one (j := 0) fun m hm t => ?_).weaken
      have hparse := fun floor => ihParse m floor (by omega)
      refine Ends.bind_zero (extend_ends hparse (TypeExpr.parse_ends (by omega)) (by omega) _ _ _)
        fun longer => ?_
      exact ihSuffixes m floor longer (by omega)

theorem parse_ends {fuel n : Nat} (h : 2 * n + 2 ≤ fuel) (floor : Nat) :
    (parse fuel floor).Ends n 1 :=
  (parse_operand_suffixes_ends fuel).1 n floor h

end ExprLang.Expr
