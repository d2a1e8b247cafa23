import ExprLang.Proofs.Evaluation.Ensures
import ExprLang.Proofs.Evaluation.Step

namespace ExprLang

theorem Value.decode_not_isCyclic {vs : List Value} {fault : RuntimeFault}
    (h : decode vs = .error fault) : ¬ fault.IsCyclic := by
  induction vs with
  | nil => cases h
  | cons v vs ih =>
    cases v with
    | int n =>
      rw [decode] at h
      split at h
      · cases h
        exact id
      · cases hvs : decode vs with
        | ok cs =>
          rw [hvs] at h
          cases h
        | error e =>
          rw [hvs] at h
          cases h
          exact ih hvs
    | bool | list | tuple | fn =>
      cases h
      exact id

namespace Eval

variable {α β : Type}

/-- From the memo `m`, two evaluations are the same. Whatever the host answers, they end in a value
with `Q`, in an error with `F` or for lack of fuel, and leave a memo with `I`. -/
def CoincideFrom (m : Memo) (I : Memo → Prop) (F : RuntimeError → Prop) (Q : α → Prop)
    (x y : Eval α) : Prop :=
  x m = y m ∧ (x m).Always fun r => r.1.Meets F Q ∧ I r.2

/-- Two evaluations coincide from every memo with `I`, and leave such a memo. -/
def Coincide (I : Memo → Prop) (F : RuntimeError → Prop) (Q : α → Prop) (x y : Eval α) : Prop :=
  ∀ m, I m → CoincideFrom m I F Q x y

/-- The computation of a value global. While it runs, the invariant may be another one. -/
theorem CoincideFrom.remember {m : Memo} {I J : Memo → Prop} {F : RuntimeError → Prop}
    {Q R : Value → Prop} {x y : Eval Value} {name : String} (hx : Coincide J F R x y)
    (hmark : J (m.insert name .evaluating)) (hRQ : ∀ v, R v → Q v)
    (hready : ∀ m v, J m → R v → I (m.insert name (.ready v)))
    (herase : ∀ m, J m → I (m.erase name)) :
    CoincideFrom m I F Q (Eval.remember name x) (Eval.remember name y) := by
  obtain ⟨hsame, hends⟩ := hx _ hmark
  constructor
  · rw [Eval.remember, Eval.remember, hsame]
  · apply hends.bind
    rintro ⟨outcome, m'⟩ ⟨hr, hm'⟩
    cases outcome with
    | value v => exact ⟨hRQ v hr, hready m' v hm' hr⟩
    | error e => exact ⟨hr, herase m' hm'⟩
    | outOfFuel => exact ⟨trivial, herase m' hm'⟩

namespace Coincide

variable {I : Memo → Prop} {F : RuntimeError → Prop} {Q : α → Prop} {R : β → Prop}
  {P : Callable → Prop}

theorem pure {a : α} (h : Q a) : Coincide I F Q (Pure.pure a) (Pure.pure a) :=
  fun _ hm => ⟨rfl, h, hm⟩

theorem outOfFuel : Coincide I F Q Eval.outOfFuel Eval.outOfFuel :=
  fun _ hm => ⟨rfl, trivial, hm⟩

theorem fail {fault : RuntimeFault} {pos : Position} (h : F (.fault ⟨fault, pos⟩)) :
    Coincide I F Q (Eval.fail fault pos) (Eval.fail fault pos) :=
  fun _ hm => ⟨rfl, h, hm⟩

theorem bind {x y : Eval α} {f g : α → Eval β} (hx : Coincide I F Q x y)
    (hf : ∀ a, Q a → Coincide I F R (f a) (g a)) : Coincide I F R (x >>= f) (y >>= g) := by
  intro m hm
  obtain ⟨hsame, hends⟩ := hx m hm
  constructor
  · change (x m).bind _ = (y m).bind _
    rw [← hsame]
    apply hends.bind_congr
    rintro ⟨outcome, m'⟩ hr
    cases outcome with
    | value a => exact (hf a hr.1 m' hr.2).1
    | error e => rfl
    | outOfFuel => rfl
  · apply hends.bind
    rintro ⟨outcome, m'⟩ hr
    cases outcome with
    | value a => exact (hf a hr.1 m' hr.2).2
    | error e => exact hr
    | outOfFuel => exact ⟨trivial, hr.2⟩

theorem lift {r : Except RuntimeFault α} {pos : Position} (hok : ∀ a, r = .ok a → Q a)
    (herror : ∀ fault, r = .error fault → F (.fault ⟨fault, pos⟩)) :
    Coincide I F Q (Eval.lift r pos) (Eval.lift r pos) := by
  cases r with
  | ok a => exact pure (hok a rfl)
  | error fault => exact fail (herror fault rfl)

section Acyclic

variable (hF : ∀ e : RuntimeError, ¬ e.IsCyclic → F e)

include hF

theorem stepwise :
    Stepwise (ι := Unit) fun Q (x : Eval _) y => Coincide I F Q x (y ()) where
  pure h := pure h
  lift hok herror _ := lift hok fun fault hfault => hF _ (herror fault hfault)
  bind hx hf := bind hx hf

theorem mismatch (expected : String) (found : Value) (pos : Position) :
    Coincide I F Q (Eval.mismatch expected found pos) (Eval.mismatch expected found pos) :=
  (stepwise hF).mismatch expected found pos

theorem print (text : String) :
    Coincide I F (fun _ => True) (Eval.print text) (Eval.print text) := by
  refine fun m hm => ⟨rfl, fun answer => ?_⟩
  cases answer with
  | error message => exact ⟨hF _ id, hm⟩
  | ok => exact ⟨trivial, hm⟩

theorem readLine : Coincide I F (fun _ => True) Eval.readLine Eval.readLine := by
  refine fun m hm => ⟨rfl, fun answer => ?_⟩
  cases answer with
  | error message => exact ⟨hF _ id, hm⟩
  | ok line => exact ⟨trivial, hm⟩

theorem builtin (b : Builtin) (args : List Value) (pos : Position) :
    Coincide I F (Value.Only P) (b.call args pos) (b.call args pos) := by
  cases b with
  | print =>
    rw [Builtin.call]
    split
    · refine bind (Q := fun _ => True) (lift (fun _ _ => trivial) ?_) fun text _ => ?_
      · exact fun fault h => hF _ (Value.decode_not_isCyclic h)
      · exact (print hF _).bind fun _ _ => pure trivial
    · exact mismatch hF _ _ _
  | input =>
    refine (readLine hF).bind fun line _ => ?_
    cases line with
    | some line => exact pure (Value.only_ofCodes _)
    | none => exact fail (hF _ id)
  | rand =>
    rw [Builtin.call]
    split
    · split
      · refine bind (Q := fun _ => True) ?_ fun n _ => pure trivial
        exact fun m hm => ⟨rfl, fun _ => ⟨trivial, hm⟩⟩
      · exact fail (hF _ id)
    · exact mismatch hF _ _ _

end Acyclic

end Coincide

end Eval

namespace Program

open Eval

/-- With fuel `n`, two programs do the same with names that have `N` and functions that have `P`,
and all that they answer is made of such functions. -/
structure CoincideAt (p q : Program) (I : Memo → Prop) (F : RuntimeError → Prop)
    (N : String → Prop) (P : Callable → Prop) (n : Nat) : Prop where
  eval : ∀ env e, env.Only P → (∀ x ∈ e.idents, N x) →
    Coincide I F (Value.Only P) (p.eval n env e) (q.eval n env e)
  global : ∀ name pos, N name →
    Coincide I F (Value.Only P) (p.global n name pos) (q.global n name pos)
  call : ∀ f args pos, f.Only P → Value.AllOnly P args →
    Coincide I F (Value.Only P) (p.call n f args pos) (q.call n f args pos)

namespace CoincideAt

variable {p q : Program} {I : Memo → Prop} {F : RuntimeError → Prop} {N : String → Prop}
  {P : Callable → Prop} {n : Nat}

theorem zero : p.CoincideAt q I F N P 0 :=
  ⟨fun _ _ _ _ => .outOfFuel, fun _ _ _ => .outOfFuel, fun _ _ _ _ _ => .outOfFuel⟩

theorem eval_succ (hF : ∀ e : RuntimeError, ¬ e.IsCyclic → F e) (h : p.CoincideAt q I F N P n)
    {env : Env} {e : Expr} (henv : env.Only P) (he : ∀ x ∈ e.idents, N x) :
    Coincide I F (Value.Only P) (p.eval (n + 1) env e) (q.eval (n + 1) env e) := by
  rw [Program.eval, Program.eval]
  exact (Coincide.stepwise hF).evalStep (fun _ => q.eval n) (fun _ => q.global n)
    (fun _ => q.call n) h.eval h.global h.call henv he

/-- The use of a global. What it is takes no part as long as it is remembered, and is computed
otherwise. -/
theorem global_succ (hF : ∀ e : RuntimeError, ¬ e.IsCyclic → F e) {name : String} {pos : Position}
    (hlookup : p.globals.lookup name = q.globals.lookup name)
    (hfind : p.find? name = q.find? name)
    (hready : ∀ m v, I m → m.lookup name = some (.ready v) → v.Only P)
    (hmarked : ∀ m, I m → m.Marks name → F (.fault ⟨.cyclicGlobal name, pos⟩))
    (hfn : (Value.fn (.ofName name)).Only P)
    (hcompute : ∀ m d, I m → m.lookup name = none → p.find? name = some d →
      (∀ ret params names generics, p.globals.lookup name ≠ some (.fn ret params names generics)) →
      CoincideFrom m I F (Value.Only P) (remember name (p.eval n [] d.body))
        (remember name (q.eval n [] d.body))) :
    Coincide I F (Value.Only P) (p.global (n + 1) name pos) (q.global (n + 1) name pos) := by
  intro m hm
  rw [CoincideFrom, Program.global, Program.global, slot?_bind, slot?_bind, ← hlookup]
  cases hslot : m.lookup name with
  | some slot =>
    cases slot with
    | ready v => exact Coincide.pure (hready m v hm hslot) m hm
    | evaluating => exact Coincide.fail (hmarked m hm hslot) m hm
  | none =>
    have hvalue (hno : ∀ ret params names generics,
        p.globals.lookup name ≠ some (.fn ret params names generics)) :
        CoincideFrom m I F (Value.Only P)
          (declared p name pos >>= fun d => remember name (p.eval n [] d.body))
          (declared q name pos >>= fun d => remember name (q.eval n [] d.body)) := by
      simp only [declared, ← hfind]
      cases hd : p.find? name with
      | none => exact Coincide.bind (Q := fun _ => False) (.fail (hF _ id)) (fun _ h => h.elim) m hm
      | some d => exact hcompute m d hm hslot hd hno
    cases ht : p.globals.lookup name with
    | none => exact hvalue fun _ _ _ _ h => by cases ht.symm.trans h
    | some t =>
      cases t with
      | fn => exact Coincide.pure hfn m hm
      | _ => exact hvalue fun _ _ _ _ h => by cases ht.symm.trans h

theorem call_succ (hF : ∀ e : RuntimeError, ¬ e.IsCyclic → F e) (h : p.CoincideAt q I F N P n)
    (hfind : ∀ label, P (.global label) → p.find? label = q.find? label)
    (hbody : ∀ label d, P (.global label) → p.find? label = some d → ∀ x ∈ d.body.idents, N x)
    {f : Value} {args : List Value} (pos : Position) (hf : f.Only P)
    (hargs : Value.AllOnly P args) :
    Coincide I F (Value.Only P) (p.call (n + 1) f args pos) (q.call (n + 1) f args pos) := by
  rw [Program.call, Program.call]
  apply (Coincide.stepwise hF).callStep (fun _ _ => q.eval n) _ hfind _ hf hargs
  · intro b _
    exact .builtin hF b args pos
  · intro label d env hlabel hd henv
    exact h.eval env d.body henv (hbody label d hlabel hd)

theorem start (hF : ∀ e : RuntimeError, ¬ e.IsCyclic → F e) (h : p.CoincideAt q I F N P n)
    (hmain : N mainLabel) (hpos : p.mainPos = q.mainPos) (args : List String) :
    Coincide I F (fun _ => True) (p.start n args) (q.start n args) := by
  rw [Program.start, Program.start, hpos]
  exact (Coincide.stepwise hF).startStep (fun _ => q.global n) (fun _ => q.call n) args
    (h.global mainLabel q.mainPos hmain) fun f args => h.call f args q.mainPos

theorem run (hF : ∀ e : RuntimeError, ¬ e.IsCyclic → F e) (h : p.CoincideAt q I F N P n)
    (hI : I []) (hmain : N mainLabel) (hpos : p.mainPos = q.mainPos) (args : List String) :
    p.run n args = q.run n args ∧ (p.run n args).Always fun r => r.Meets F fun _ => True := by
  obtain ⟨hsame, hends⟩ := h.start hF hmain hpos args [] hI
  constructor
  · rw [Program.run, Program.run, hsame]
  · exact hends.bind fun r hr => hr.1

end CoincideAt

end Program

end ExprLang
