import ExprLang.Decl.Parser

namespace ExprLang

variable {α β : Type}

/-- The reply is a value with the property and the tokens left, or for lack of fuel. -/
def Reply.Gives (P : α → List Token → Prop) : Reply α → Prop
  | ok a rest => P a rest
  | error _ => False
  | outOfFuel => True

/-- The parser takes the tokens `ts` where `rest` follows them, and makes `a` of them. -/
def Parse.Reads (p : Parse α) (ts rest : List Token) (a : α) : Prop :=
  ∀ last, (p.run last (ts ++ rest)).Gives fun b left => b = a ∧ left = rest

/-- The symbol does not come next. -/
def NoneNext (symbol : String) (ts : List Token) : Prop :=
  ∀ t, ts.head? = some t → t.isSymbol symbol = false

namespace Reply.Gives

variable {p : Parse α} {k : α → Parse β} {last : Position} {ts rest : List Token}
  {P : α → List Token → Prop} {Q : β → List Token → Prop}

theorem bind (hp : (p.run last ts).Gives P)
    (hk : ∀ a rest, P a rest → ((k a).run last rest).Gives Q) :
    ((p >>= k).run last ts).Gives Q := by
  rw [Parse.run_bind]
  cases hr : p.run last ts with
  | ok a rest =>
    rw [hr] at hp
    exact hk a rest hp
  | error e =>
    rw [hr] at hp
    exact hp
  | outOfFuel => trivial

theorem imp {P' : α → List Token → Prop} {r : Reply α} (h : r.Gives P)
    (hP : ∀ a rest, P a rest → P' a rest) : r.Gives P' := by
  cases r with
  | ok a rest => exact hP a rest h
  | error e => exact h
  | outOfFuel => trivial

theorem after {a : α} (hp : p.Reads ts rest a) (hk : ((k a).run last rest).Gives Q) :
    ((p >>= k).run last (ts ++ rest)).Gives Q := by
  refine (hp last).bind fun b left hb => ?_
  obtain ⟨rfl, rfl⟩ := hb
  exact hk

theorem of_run {a : α} (hp : p.run last ts = .ok a rest) (hk : ((k a).run last rest).Gives Q) :
    ((p >>= k).run last ts).Gives Q := by
  rw [Parse.run_bind, hp]
  exact hk

variable {t : Token}

theorem accept {k : Bool → Parse β} {symbol : String} (ht : t.isSymbol symbol = true)
    (hk : ((k true).run last rest).Gives Q) :
    ((Parse.accept symbol >>= k).run last (t :: rest)).Gives Q :=
  of_run (if_pos ht) hk

theorem refuse {k : Bool → Parse β} {symbol : String}
    (hts : NoneNext symbol ts) (hk : ((k false).run last ts).Gives Q) :
    ((Parse.accept symbol >>= k).run last ts).Gives Q := by
  refine of_run ?_ hk
  cases ts with
  | nil => rfl
  | cons t ts => exact if_neg (ne_true_of_eq_false (hts t rfl))

theorem expect {k : Unit → Parse β} {symbol : String} (ht : t.isSymbol symbol = true)
    (hk : ((k ()).run last rest).Gives Q) :
    ((Parse.expect symbol >>= k).run last (t :: rest)).Gives Q := by
  refine of_run ?_ hk
  rw [Parse.expect, Parse.run_bind]
  dsimp only [Parse.run, Parse.next]
  rw [if_pos ht]
  rfl

theorem expectKeyword {k : Unit → Parse β} {word : Keyword} (ht : t.isKeyword word = true)
    (hk : ((k ()).run last rest).Gives Q) :
    ((Parse.expectKeyword word >>= k).run last (t :: rest)).Gives Q := by
  refine of_run ?_ hk
  rw [Parse.expectKeyword, Parse.run_bind]
  dsimp only [Parse.run, Parse.next]
  rw [if_pos ht]
  rfl

theorem acceptKeyword {k : Option Position → Parse β} {word : Keyword}
    (ht : t.isKeyword word = true) (hk : ((k (some t.pos)).run last rest).Gives Q) :
    ((Parse.acceptKeyword word >>= k).run last (t :: rest)).Gives Q :=
  of_run (if_pos ht) hk

theorem refuseKeyword {k : Option Position → Parse β} {word : Keyword}
    (hts : ∀ t, ts.head? = some t → t.isKeyword word = false)
    (hk : ((k none).run last ts).Gives Q) :
    ((Parse.acceptKeyword word >>= k).run last ts).Gives Q := by
  refine of_run ?_ hk
  cases ts with
  | nil => rfl
  | cons t ts => exact if_neg (ne_true_of_eq_false (hts t rfl))

end Reply.Gives

namespace Decl

theorem ofTokens_of_gives {ts : List Token} {ds : List Decl}
    (h : (readAll ts).Gives fun ds' _ => ds' = ds) : ofTokens ts = .ok ds := by
  unfold ofTokens
  generalize readAll_ne_outOfFuel ts = hfuel
  revert h hfuel
  cases readAll ts with
  | ok ds' rest =>
    rintro rfl _
    rfl
  | error e => exact fun h _ => h.elim
  | outOfFuel => exact fun _ hfuel => absurd rfl hfuel

end Decl

end ExprLang
