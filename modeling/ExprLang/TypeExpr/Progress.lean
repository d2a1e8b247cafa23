import ExprLang.Parse.Progress
import ExprLang.TypeExpr.Parser

namespace ExprLang.TypeExpr

open Parse

theorem genericNames_ends {fuel n : Nat} (h : n < fuel) : (genericNames fuel).Ends n 1 :=
  (Ends.series _ false (Ends.identifier _).weaken h).bind_one fun _ _ _ => Ends.pure _

theorem optionalGenerics_ends {fuel n : Nat} (h : n < fuel) : (optionalGenerics fuel).Ends n 0 := by
  refine Ends.bind_zero (Ends.accept _) fun b => ?_
  split
  · exact (genericNames_ends h).weaken
  · exact Ends.pure _

theorem param_ends {type : Parse TypeExpr} {n : Nat} (h : type.Ends n 1) :
    (param type).Ends n 1 := by
  refine (Ends.identifier _).bind_one fun m hm name => ?_
  refine Ends.bind_zero (Ends.expect _).weaken fun _ => ?_
  refine Ends.bind_zero (h.mono (by omega) (Nat.zero_le _)) fun t => ?_
  exact Ends.pure _

theorem params_ends {type : Parse TypeExpr} {fuel n : Nat} (h : type.Ends n 1) (hn : n < fuel) :
    (params type fuel).Ends n 1 :=
  (Ends.series _ false (param_ends h).weaken hn).bind_one fun _ _ _ => Ends.pure _

theorem parse_atom_ends (fuel : Nat) :
    (∀ n, 2 * n + 2 ≤ fuel → (parse fuel).Ends n 1) ∧
      (∀ n, 2 * n + 1 ≤ fuel → (atom fuel).Ends n 1) := by
  induction fuel with
  | zero => exact ⟨fun n h => by omega, fun n h => by omega⟩
  | succ fuel ih =>
    obtain ⟨ihParse, ihAtom⟩ := ih
    refine ⟨fun n h => ?_, fun n h => ?_⟩
    · rw [parse]
      refine Ends.bind_zero (optionalGenerics_ends (by omega)) fun generics => ?_
      refine (ihAtom n (by omega)).bind_one fun m hm ret => ?_
      refine Ends.bind_zero (Ends.accept _) fun b => ?_
      split
      · have hps : (params (parse fuel) fuel).Ends m 1 :=
          params_ends (ihParse m (by omega)) (by omega)
        refine Ends.bind_zero hps.weaken fun ps => ?_
        exact Ends.pure _
      · split
        · exact Ends.pure _
        · exact Ends.fail _ _
    · rw [atom]
      refine (Ends.next _).bind_one fun m hm t => ?_
      have hparse := ihParse m (by omega)
      split
      · exact Ends.pure _
      · split
        · refine Ends.bind_zero hparse.weaken fun element => ?_
          refine Ends.bind_zero (Ends.expect _).weaken fun _ => ?_
          exact Ends.pure _
        · have hitems := Ends.series ")" false hparse.weaken (show m < fuel by omega)
          refine Ends.bind_zero hitems.weaken fun items => ?_
          exact Ends.pure _
        · exact Ends.unexpected _ _
      · exact Ends.unexpected _ _

theorem parse_ends {fuel n : Nat} (h : 2 * n + 2 ≤ fuel) : (parse fuel).Ends n 1 :=
  (parse_atom_ends fuel).1 n h

end ExprLang.TypeExpr
