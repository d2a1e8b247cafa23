namespace ExprLang

/-- A program that is done, or that makes a request and goes on with the host's answer. Printing and
reading may fail with a message; reading answers nothing at the end of the input. -/
inductive Dialogue (α : Type) where
  | done (result : α)
  | print (text : String) (next : Except String Unit → Dialogue α)
  | readLine (next : Except String (Option String) → Dialogue α)
  | rand (bound : Int64) (next : Int64 → Dialogue α)

namespace Dialogue

def bind {α β : Type} : Dialogue α → (α → Dialogue β) → Dialogue β
  | done a, f => f a
  | print text next, f => print text fun r => (next r).bind f
  | readLine next, f => readLine fun r => (next r).bind f
  | rand bound next, f => rand bound fun r => (next r).bind f

theorem bind_done {α : Type} (d : Dialogue α) : d.bind done = d := by
  induction d with
  | done a => rfl
  | print text next ih => exact congrArg (print text) (funext ih)
  | readLine next ih => exact congrArg readLine (funext ih)
  | rand bound next ih => exact congrArg (rand bound) (funext ih)

theorem bind_assoc {α β γ : Type} (d : Dialogue α) (f : α → Dialogue β) (g : β → Dialogue γ) :
    (d.bind f).bind g = d.bind fun a => (f a).bind g := by
  induction d with
  | done a => rfl
  | print text next ih => exact congrArg (print text) (funext ih)
  | readLine next ih => exact congrArg readLine (funext ih)
  | rand bound next ih => exact congrArg (rand bound) (funext ih)

end Dialogue

end ExprLang
