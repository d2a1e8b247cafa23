import ExprLang.Decl.Source
import ExprLang.Proofs.Places.Checking
import ExprLang.Proofs.Places.Parsing
import ExprLang.Proofs.Places.Running
import ExprLang.Proofs.Typing.Checked

namespace ExprLang

def Token.content (t : Token) : Token.Kind × String := (t.kind, t.text)

def Decl.Alike (d d' : Decl) : Prop := d.move .forget = d'.move .forget

def SourceError.Alike : SourceError → SourceError → Prop
  | lexical e, lexical e' => e.cause = e'.cause
  | syntactic e, syntactic e' => e.cause = e'.cause
  | _, _ => False

def RuntimeError.Alike : RuntimeError → RuntimeError → Prop
  | fault e, fault e' => e.cause = e'.cause
  | host message, host message' => message = message'
  | _, _ => False

def Outcome.Alike {α : Type} : Outcome α → Outcome α → Prop
  | value a, value a' => a = a'
  | error e, error e' => e.Alike e'
  | outOfFuel, outOfFuel => True
  | _, _ => False

/-- Both are results that `R` relates, or both are errors that `E` relates. -/
def SameAnswer {ε α : Type} (E : ε → ε → Prop) (R : α → α → Prop) :
    Except ε α → Except ε α → Prop
  | .ok a, .ok a' => R a a'
  | .error e, .error e' => E e e'
  | _, _ => False

/-- The same requests in the same order, whatever the host answers, and results that `R` relates. -/
def Dialogue.Agree {α : Type} (R : α → α → Prop) : Dialogue α → Dialogue α → Prop
  | done a, done a' => R a a'
  | print text next, print text' next' =>
    text = text' ∧ ∀ answer, (next answer).Agree R (next' answer)
  | readLine next, readLine next' => ∀ answer, (next answer).Agree R (next' answer)
  | rand bound next, rand bound' next' =>
    bound = bound' ∧ ∀ answer, (next answer).Agree R (next' answer)
  | _, _ => False

theorem Dialogue.agree_of_map_eq {α β : Type} {f : α → β} {R : α → α → Prop}
    (hR : ∀ a a', f a = f a' → R a a') {d d' : Dialogue α} (h : d.map f = d'.map f) :
    d.Agree R d' := by
  induction d generalizing d' with
  | done a =>
    cases d' with
    | done a' => exact hR a a' (done.inj h)
    | _ => cases h
  | print text next ih =>
    cases d' with
    | print text' next' =>
      obtain ⟨htext, hnext⟩ := print.inj h
      exact ⟨htext, fun answer => ih answer (congrFun hnext answer)⟩
    | _ => cases h
  | readLine next ih =>
    cases d' with
    | readLine next' => exact fun answer => ih answer (congrFun (readLine.inj h) answer)
    | _ => cases h
  | rand bound next ih =>
    cases d' with
    | rand bound' next' =>
      obtain ⟨hbound, hnext⟩ := rand.inj h
      exact ⟨hbound, fun answer => ih answer (congrFun hnext answer)⟩
    | _ => cases h

theorem Located.cause_eq_of_move {κ : Type} {φ : Position → Position} {e e' : Located κ}
    (h : e.move φ = e'.move φ) : e.cause = e'.cause := by
  have hcause : (e.move φ).cause = (e'.move φ).cause := congrArg cause h
  exact hcause

theorem Outcome.alike_of_move {α : Type} {φ : Position → Position} (a a' : Outcome α)
    (h : a.move φ = a'.move φ) : a.Alike a' := by
  cases a with
  | value a =>
    cases a' with
    | value a' => exact value.inj h
    | _ => cases h
  | error e =>
    cases a' with
    | error e' =>
      have h := error.inj h
      cases e with
      | fault e =>
        cases e' with
        | fault e' => exact Located.cause_eq_of_move (RuntimeError.fault.inj h)
        | host => cases h
      | host message =>
        cases e' with
        | fault => cases h
        | host message' => exact RuntimeError.host.inj h
    | _ => cases h
  | outOfFuel =>
    cases a' with
    | outOfFuel => trivial
    | _ => cases h

theorem Token.map_move_forget {ts ts' : List Token} (h : ts.map content = ts'.map content) :
    ts.map (move .forget) = ts'.map (move .forget) := by
  have hmove (t : Token) : t.move .forget = ⟨t.content.1, t.content.2, .start⟩ := rfl
  have hmap (ts : List Token) : ts.map (move .forget) =
      (ts.map content).map fun c => ⟨c.1, c.2, .start⟩ := by
    rw [List.map_map]
    exact List.map_congr_left fun t _ => hmove t
  rw [hmap, hmap, h]

namespace Program

theorem check_find_main {ds : List Decl} {p : Program} (h : check ds = .ok p) :
    ∃ d, p.find? mainLabel = some d := by
  obtain ⟨t, hmain, _⟩ := check_main h
  have htype : (p.find? mainLabel).map CheckedDecl.type = some t :=
    (check_typedBy h).table mainLabel t hmain
  obtain ⟨d, hd, _⟩ := Option.map_eq_some_iff.1 htype
  exact ⟨d, hd⟩

/-- The same table of types, and the same runs. -/
def Alike (p p' : Program) : Prop :=
  p.globals = p'.globals ∧
    ∀ fuel args, (p.run fuel args).Agree Outcome.Alike (p'.run fuel args)

theorem alike_of_move {p p' : Program} (h : p.move .forget = p'.move .forget) {d d' : CheckedDecl}
    (hd : p.find? mainLabel = some d) (hd' : p'.find? mainLabel = some d') : p.Alike p' := by
  have hglobals : (p.move .forget).globals = (p'.move .forget).globals := congrArg globals h
  refine ⟨hglobals, fun fuel args => ?_⟩
  apply Dialogue.agree_of_map_eq Outcome.alike_of_move
  rw [← run_move p hd, ← run_move p' hd', h]

theorem check_alike {ds ds' : List Decl}
    (h : ds.map (Decl.move .forget) = ds'.map (Decl.move .forget)) :
    SameAnswer (fun e e' => e.cause = e'.cause) Alike (check ds) (check ds') := by
  by_cases hds : ds = []
  · subst hds
    obtain rfl : ds' = [] := by simpa using h.symm
    exact rfl
  · have hds' : ds' ≠ [] := by
      rintro rfl
      exact hds (by simpa using h)
    have hp : Typing.Mirrors .forget (move .forget) (check ds) _ := check_mirrors hds
    have hp' : Typing.Mirrors .forget (move .forget) (check ds') _ := check_mirrors hds'
    rw [h] at hp
    have heq := hp.symm.trans hp'
    cases hc : check ds with
    | ok p =>
      cases hc' : check ds' with
      | ok p' =>
        rw [hc, hc'] at heq
        obtain ⟨d, hd⟩ := check_find_main hc
        obtain ⟨d', hd'⟩ := check_find_main hc'
        exact alike_of_move (Except.ok.inj heq) hd hd'
      | error e' =>
        rw [hc, hc'] at heq
        cases heq
    | error e =>
      cases hc' : check ds' with
      | ok p' =>
        rw [hc, hc'] at heq
        cases heq
      | error e' =>
        rw [hc, hc'] at heq
        exact Located.cause_eq_of_move (Except.error.inj heq)

end Program

theorem Decl.ofTokens_alike {ts ts' : List Token}
    (h : ts.map Token.content = ts'.map Token.content) :
    SameAnswer (fun e e' => e.cause = e'.cause)
      (fun ds ds' => ds.map (move .forget) = ds'.map (move .forget)) (ofTokens ts)
      (ofTokens ts') := by
  have hmove := ofTokens_move (φ := .forget) ts
  rw [Token.map_move_forget h, ofTokens_move] at hmove
  cases hr : ofTokens ts with
  | ok ds =>
    cases hr' : ofTokens ts' with
    | ok ds' =>
      rw [hr, hr'] at hmove
      exact (Except.ok.inj hmove).symm
    | error e' =>
      rw [hr, hr'] at hmove
      cases hmove
  | error e =>
    cases hr' : ofTokens ts' with
    | ok ds' =>
      rw [hr, hr'] at hmove
      cases hmove
    | error e' =>
      rw [hr, hr'] at hmove
      exact (Located.cause_eq_of_move (Except.error.inj hmove)).symm

/-- Two sources with the same tokens are both parsed, to the same trees up to places, or both
refused for the same cause; so are they by the checker, with the same table of types; and for all
arguments both make the same requests of every host and end alike. -/
theorem layout_irrelevant {source source' : String} {ts ts' : List Token}
    (hts : Token.ofSource source = .ok ts) (hts' : Token.ofSource source' = .ok ts')
    (h : ts.map Token.content = ts'.map Token.content) :
    SameAnswer SourceError.Alike
      (fun ds ds' => List.Forall₂ Decl.Alike ds ds' ∧
        SameAnswer (fun e e' => e.cause = e'.cause) Program.Alike (Program.check ds)
          (Program.check ds'))
      (Decl.ofSource source) (Decl.ofSource source') := by
  have hparse := Decl.ofTokens_alike h
  rw [Decl.ofSource, Decl.ofSource, hts, hts']
  dsimp only
  cases hr : Decl.ofTokens ts with
  | ok ds =>
    cases hr' : Decl.ofTokens ts' with
    | ok ds' =>
      rw [hr, hr'] at hparse
      refine ⟨?_, Program.check_alike hparse⟩
      have hforall : List.Forall₂ Eq (ds.map (Decl.move .forget)) (ds'.map (Decl.move .forget)) :=
        List.forall₂_eq_eq_eq ▸ hparse
      rw [List.forall₂_map_left_iff, List.forall₂_map_right_iff] at hforall
      exact hforall
    | error e' =>
      rw [hr, hr'] at hparse
      exact hparse
  | error e =>
    cases hr' : Decl.ofTokens ts' with
    | ok ds' =>
      rw [hr, hr'] at hparse
      exact hparse
    | error e' =>
      rw [hr, hr'] at hparse
      exact hparse

/-- A program on one line, and the same one with a line for each of its tokens. -/
theorem layout_irrelevant_lines :
    ∃ ts ts', Token.ofSource "main(a:[[Int]]):Int=1/0" = .ok ts ∧
      Token.ofSource "main\n(\na\n:\n[\n[\nInt\n]\n]\n)\n:\nInt\n=\n1\n/\n\t0" = .ok ts' ∧
      ts.map Token.content = ts'.map Token.content ∧
      SameAnswer SourceError.Alike
        (fun ds ds' => List.Forall₂ Decl.Alike ds ds' ∧
          SameAnswer (fun e e' => e.cause = e'.cause) Program.Alike (Program.check ds)
            (Program.check ds'))
        (Decl.ofSource "main(a:[[Int]]):Int=1/0")
        (Decl.ofSource "main\n(\na\n:\n[\n[\nInt\n]\n]\n)\n:\nInt\n=\n1\n/\n\t0") := by
  have hscan :
      (match Token.ofSource "main(a:[[Int]]):Int=1/0",
          Token.ofSource "main\n(\na\n:\n[\n[\nInt\n]\n]\n)\n:\nInt\n=\n1\n/\n\t0" with
        | .ok ts, .ok ts' => decide (ts.map Token.content = ts'.map Token.content)
        | _, _ => false) = true := by
    decide +kernel
  split at hscan
  · rename_i ts ts' hts hts'
    have h := of_decide_eq_true hscan
    exact ⟨ts, ts', hts, hts', h, layout_irrelevant hts hts' h⟩
  · cases hscan

end ExprLang
