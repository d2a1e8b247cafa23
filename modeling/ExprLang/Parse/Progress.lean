import ExprLang.Parse

namespace ExprLang

/-- The reply to `n` tokens is not for lack of fuel, and at least `k` of them are taken. -/
def Reply.Takes {α : Type} (n k : Nat) : Reply α → Prop
  | .ok _ rest => rest.length + k ≤ n
  | .error _ => True
  | .outOfFuel => False

def Reply.result {α : Type} : (r : Reply α) → r ≠ .outOfFuel → Except SyntaxError α
  | .ok a _, _ => .ok a
  | .error e, _ => .error e
  | .outOfFuel, h => absurd rfl h

theorem Reply.Takes.ne_outOfFuel {α : Type} {n k : Nat} {r : Reply α} (h : r.Takes n k) :
    r ≠ .outOfFuel := by
  rintro rfl
  exact h

/-- On no more than `n` tokens the parser ends, and takes at least `k` of them if it succeeds. -/
def Parse.Ends {α : Type} (p : Parse α) (n k : Nat) : Prop :=
  ∀ last ts, ts.length ≤ n → (p.run last ts).Takes ts.length k

namespace Parse.Ends

variable {α β : Type} {p : Parse α} {n k j : Nat}

theorem mono {n' k' : Nat} (h : p.Ends n k) (hn : n' ≤ n) (hk : k' ≤ k) : p.Ends n' k' := by
  intro last ts hts
  have := h last ts (Nat.le_trans hts hn)
  revert this
  cases p.run last ts with
  | ok a rest => simp only [Reply.Takes]; omega
  | error e => exact id
  | outOfFuel => exact id

theorem weaken (h : p.Ends n k) : p.Ends n 0 := h.mono (Nat.le_refl _) (Nat.zero_le _)

theorem pure (a : α) : (Pure.pure a : Parse α).Ends n 0 := fun _ _ _ => Nat.le_refl _

theorem fail (fault : SyntaxFault) (pos : Position) :
    (Parse.fail fault pos : Parse α).Ends n k := fun _ _ _ => trivial

theorem unexpected (expected : String) (found : Token) :
    (Parse.unexpected expected found : Parse α).Ends n k := fail _ _

theorem bind {f : α → Parse β} (hp : p.Ends n k) (hf : k ≤ n → ∀ a, (f a).Ends (n - k) j) :
    (p >>= f).Ends n (k + j) := by
  intro last ts hts
  have h := hp last ts hts
  rw [Parse.run_bind]
  cases hr : p.run last ts with
  | ok a rest =>
    rw [hr] at h
    simp only [Reply.Takes] at h
    have h' := hf (by omega) a last rest (by omega)
    revert h'
    simp only
    cases (f a).run last rest with
    | ok b rest' => simp only [Reply.Takes]; omega
    | error e => exact id
    | outOfFuel => exact id
  | error e => trivial
  | outOfFuel => rw [hr] at h; exact h

theorem bind_zero {f : α → Parse β} (hp : p.Ends n 0) (hf : ∀ a, (f a).Ends n j) :
    (p >>= f).Ends n j := by
  have := hp.bind (f := f) (j := j) fun _ => hf
  rwa [Nat.zero_add] at this

theorem bind_one {f : α → Parse β} (hp : p.Ends n 1)
    (hf : ∀ m, m + 1 = n → ∀ a, (f a).Ends m j) : (p >>= f).Ends n (j + 1) := by
  have := hp.bind (f := f) (j := j) fun h => hf (n - 1) (by omega)
  rwa [Nat.add_comm] at this

theorem peek : Parse.peek.Ends n 0 := fun _ _ _ => Nat.le_refl _

theorem here : Parse.here.Ends n 0 := fun _ _ _ => Nat.le_refl _

theorem next (expected : String) : (Parse.next expected).Ends n 1 := by
  intro last ts _
  cases ts with
  | nil => trivial
  | cons t ts => exact Nat.le_refl _

theorem accept (symbol : String) : (Parse.accept symbol).Ends n 0 := by
  intro last ts _
  cases ts with
  | nil => exact Nat.le_refl _
  | cons t ts =>
    simp only [Parse.run, Parse.accept]
    split
    · exact Nat.le_succ _
    · exact Nat.le_refl _

theorem ifAccept (symbol : String) {yes no : Parse β}
    (hyes : ∀ m, m + 1 = n → yes.Ends m k) (hno : no.Ends n (k + 1)) :
    (do if ← Parse.accept symbol then yes else no).Ends n (k + 1) := by
  intro last ts hts
  rw [Parse.run_bind]
  cases ts with
  | nil => exact hno last [] hts
  | cons t ts =>
    simp only [List.length_cons] at hts
    cases ht : t.isSymbol symbol with
    | true =>
      have h := hyes (n - 1) (by omega) last ts (by omega)
      simp only [Parse.run, Parse.accept, ht, if_true] at h ⊢
      revert h
      cases yes last ts with
      | ok b rest => simp only [Reply.Takes, List.length_cons]; omega
      | error e => exact id
      | outOfFuel => exact id
    | false =>
      simp only [Parse.run, Parse.accept, ht, Bool.false_eq_true, if_false]
      exact hno last (t :: ts) hts

theorem acceptKeyword (word : Keyword) : (Parse.acceptKeyword word).Ends n 0 := by
  intro last ts _
  cases ts with
  | nil => exact Nat.le_refl _
  | cons t ts =>
    simp only [Parse.run, Parse.acceptKeyword]
    split
    · exact Nat.le_succ _
    · exact Nat.le_refl _

theorem expect (symbol : String) : (Parse.expect symbol).Ends n 1 := by
  refine (next _).bind_one fun m _ t => ?_
  split
  · exact pure ()
  split
  · exact fail _ _
  · exact unexpected _ _

theorem expectKeyword (word : Keyword) : (Parse.expectKeyword word).Ends n 1 := by
  refine (next _).bind_one fun m _ t => ?_
  split
  · exact pure ()
  · exact unexpected _ _

theorem identifier (expected : String) : (Parse.identifier expected).Ends n 1 := by
  refine (next _).bind_one fun m _ t => ?_
  split
  · exact pure t
  · exact unexpected _ _

/-- A series takes its closing bracket, and a comma in each round before the last, whether or not
its items take anything. Its own fuel has to exceed the number of tokens. -/
theorem series (close : String) {item : Parse α} (trailing : Bool) {fuel : Nat}
    (hitem : item.Ends n 0) (hfuel : n < fuel) :
    (Parse.series close item trailing fuel).Ends n 1 := by
  induction fuel generalizing n trailing with
  | zero => omega
  | succ fuel ih =>
    rw [Parse.series]
    refine ifAccept close (fun m _ => pure _) ?_
    refine hitem.bind_zero fun a => ?_
    refine ifAccept "," (fun m hm => ?_) ?_
    · have hs := ih true (n := m) (hitem.mono (by omega) (Nat.le_refl _)) (by omega)
      exact bind_zero hs.weaken fun r => pure _
    · exact (expect close).bind_one fun _ _ _ => pure _

end Parse.Ends

end ExprLang
