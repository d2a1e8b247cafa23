import Mathlib.Logic.Relation
import ExprLang.Proofs.Evaluation.Coincide
import ExprLang.Proofs.Typing.Acceptance

namespace ExprLang.Program

open Eval Relation

def IsValue (p : Program) (name : String) : Prop :=
  ∃ d ∈ p.decls, d.label = name ∧ d.params? = none

/-- The body of one global contains the identifier of another one. -/
def Refers (p : Program) (g h : String) : Prop :=
  (∃ d ∈ p.decls, d.label = g ∧ h ∈ d.body.idents) ∧ (p.globals.lookup h).isSome = true

/-- Every one of the globals leads to the name, if it is that of a global. -/
def LedTo (p : Program) (gs : List String) (name : String) : Prop :=
  (p.globals.lookup name).isSome = true → ∀ g ∈ gs, TransGen p.Refers g name

/-- Every one of the globals leads to the function. -/
def LedToFunction (p : Program) (gs : List String) : Callable → Prop
  | .builtin _ => True
  | .global label => p.LedTo gs label

/-- The globals in `gs` are being computed, and a remembered value holds only functions that its
global leads to. -/
structure Computing (p : Program) (gs : List String) (m : Memo) : Prop where
  marks : ∀ name, m.Marks name ↔ name ∈ gs
  values : m.Holds fun name v =>
    (p.globals.lookup name).isSome = true ∧ v.Only (p.LedToFunction [name])

/-- An error that is no cycle, or one of a value global that leads to itself. -/
def HasCause (p : Program) (e : RuntimeError) : Prop :=
  ∀ name pos, e = .fault ⟨.cyclicGlobal name, pos⟩ →
    p.IsValue name ∧ TransGen p.Refers name name

variable {ds : List Decl} {p : Program} {gs : List String} {name : String}

theorem hasCause_of_not_isCyclic (e : RuntimeError) (h : ¬ e.IsCyclic) : p.HasCause e := by
  rintro name pos rfl
  exact (h trivial).elim

theorem isSome_lookup_of_find? (hp : check ds = .ok p) {d : CheckedDecl}
    (hd : p.find? name = some d) : (p.globals.lookup name).isSome = true := by
  rw [(lookup_of_find? hp hd).1]
  rfl

theorem IsValue.isSome_lookup (hp : check ds = .ok p) (h : p.IsValue name) :
    (p.globals.lookup name).isSome = true := by
  obtain ⟨d, hd, hlabel, _⟩ := h
  exact isSome_lookup_of_find? hp ((find?_eq_some_iff hp).2 ⟨hd, hlabel⟩)

theorem isValue_of_find? (hp : check ds = .ok p) {d : CheckedDecl} (hd : p.find? name = some d)
    (hno : ∀ ret params names generics,
      p.globals.lookup name ≠ some (.fn ret params names generics)) : p.IsValue name := by
  obtain ⟨hmem, hlabel⟩ := (find?_eq_some_iff hp).1 hd
  refine ⟨d, hmem, hlabel, ?_⟩
  rw [CheckedDecl.params?]
  split
  · rename_i htype
    have hlookup := (lookup_of_find? hp hd).1
    rw [htype] at hlookup
    exact (hno _ _ _ _ hlookup).elim
  · rfl

theorem LedTo.body (h : p.LedTo gs name) (hname : (p.globals.lookup name).isSome = true)
    {d : CheckedDecl} (hd : d ∈ p.decls) (hlabel : d.label = name) {x : String}
    (hx : x ∈ d.body.idents) : p.LedTo gs x :=
  fun hglobal g hg => (h hname g hg).tail ⟨⟨d, hd, hlabel, hx⟩, hglobal⟩

theorem LedTo.cons_body (h : p.LedTo gs name) (hname : (p.globals.lookup name).isSome = true)
    {d : CheckedDecl} (hd : d ∈ p.decls) (hlabel : d.label = name) {x : String}
    (hx : x ∈ d.body.idents) : p.LedTo (name :: gs) x := by
  intro hglobal g hg
  rcases List.mem_cons.1 hg with rfl | hg
  · exact .single ⟨⟨d, hd, hlabel, hx⟩, hglobal⟩
  · exact h.body hname hd hlabel hx hglobal g hg

theorem LedToFunction.mono {others : List String} (hsub : ∀ g ∈ others, g ∈ gs) (c : Callable)
    (h : p.LedToFunction gs c) : p.LedToFunction others c := by
  cases c with
  | builtin b => trivial
  | global label => exact fun hglobal g hg => h hglobal g (hsub g hg)

/-- What leads to a global leads to every function in its value. -/
theorem LedToFunction.trans (h : p.LedTo gs name) (hname : (p.globals.lookup name).isSome = true)
    (c : Callable) (hc : p.LedToFunction [name] c) : p.LedToFunction gs c := by
  cases c with
  | builtin b => trivial
  | global label =>
    intro hglobal g hg
    exact (h hname g hg).trans (hc hglobal name List.mem_cons_self)

theorem LedTo.ledToFunction (h : p.LedTo gs name) : p.LedToFunction gs (.ofName name) := by
  rw [Callable.ofName]
  split
  · trivial
  · exact h

namespace Computing

variable {m : Memo}

theorem nil : p.Computing [] [] := by
  refine ⟨fun name => ⟨fun h => ?_, fun h => ?_⟩, .nil⟩ <;> cases h

theorem mark (h : p.Computing gs m) (name : String) :
    p.Computing (name :: gs) (m.insert name .evaluating) := by
  constructor
  · intro other
    rw [Memo.marks_insert_evaluating, h.marks, List.mem_cons]
  · exact h.values.insert fun v hv => by cases hv

theorem unmark (h : p.Computing (name :: gs) m) (hnew : name ∉ gs) (other : String) :
    other ≠ name ∧ m.Marks other ↔ other ∈ gs := by
  rw [h.marks, List.mem_cons]
  constructor
  · rintro ⟨hother, hsame | hmem⟩
    · exact (hother hsame).elim
    · exact hmem
  · intro hmem
    exact ⟨fun hsame => hnew (hsame ▸ hmem), .inr hmem⟩

theorem erase (h : p.Computing (name :: gs) m) (hnew : name ∉ gs) :
    p.Computing gs (m.erase name) := by
  constructor
  · intro other
    rw [Memo.marks_erase]
    exact h.unmark hnew other
  · exact h.values.erase name

theorem ready (h : p.Computing (name :: gs) m) (hnew : name ∉ gs)
    (hname : (p.globals.lookup name).isSome = true) {v : Value}
    (hv : v.Only (p.LedToFunction (name :: gs))) :
    p.Computing gs (m.insert name (.ready v)) := by
  constructor
  · intro other
    rw [Memo.marks_insert_ready]
    exact h.unmark hnew other
  · refine h.values.insert fun w hw => ?_
    cases hw
    have hsub : ∀ g ∈ [name], g ∈ name :: gs := by
      intro g hg
      rw [List.mem_singleton.1 hg]
      exact List.mem_cons_self
    exact ⟨hname, Value.Only.imp (fun c => LedToFunction.mono hsub c) v hv⟩

end Computing

/-- While globals are being computed, an evaluation meets only names and functions that all of them
lead to. The induction is on the fuel, for all lists of globals at once: the computation of a value
adds its global to the list. -/
theorem coincideAt_ledTo (hp : check ds = .ok p) (n : Nat) (hgs : ∀ g ∈ gs, p.IsValue g) :
    p.CoincideAt p (p.Computing gs) p.HasCause (p.LedTo gs) (p.LedToFunction gs) n := by
  induction n generalizing gs with
  | zero => exact .zero
  | succ n ih =>
    constructor
    · exact fun env e henv he => (ih hgs).eval_succ hasCause_of_not_isCyclic henv he
    · intro name pos hname
      apply CoincideAt.global_succ hasCause_of_not_isCyclic rfl rfl
      · intro m v hm hv
        obtain ⟨hglobal, hv⟩ := hm.values name v hv
        exact Value.Only.imp (LedToFunction.trans hname hglobal) v hv
      · rintro m hm hmarked _ _ ⟨⟩
        have hmem : name ∈ gs := (hm.marks name).1 hmarked
        exact ⟨hgs name hmem, hname ((hgs name hmem).isSome_lookup hp) name hmem⟩
      · exact hname.ledToFunction
      · intro m d hm hslot hd hno
        obtain ⟨hmem, hlabel⟩ := (find?_eq_some_iff hp).1 hd
        have hvalue : p.IsValue name := isValue_of_find? hp hd hno
        have hglobal := hvalue.isSome_lookup hp
        have hnew : name ∉ gs := by
          intro hmarked
          cases hslot.symm.trans ((hm.marks name).2 hmarked)
        have hinner := ih (List.forall_mem_cons.2 ⟨hvalue, hgs⟩)
        have hbody : ∀ x ∈ d.body.idents, p.LedTo (name :: gs) x :=
          fun x hx => hname.cons_body hglobal hmem hlabel hx
        apply CoincideFrom.remember (hinner.eval [] d.body .nil hbody) (hm.mark name)
        · exact Value.Only.imp fun c => LedToFunction.mono (fun g => List.mem_cons_of_mem name) c
        · exact fun m v hm hv => hm.ready hnew hglobal hv
        · exact fun m hm => hm.erase hnew
    · intro f args pos hf hargs
      refine (ih hgs).call_succ hasCause_of_not_isCyclic (fun _ _ => rfl) ?_ pos hf hargs
      intro label d hlabel hd x hx
      obtain ⟨hmem, hsame⟩ := (find?_eq_some_iff hp).1 hd
      exact hlabel.body (isSome_lookup_of_find? hp hd) hmem hsame hx

/-- A global is found in use while it is computed only if it is a value that leads to itself,
through one or more bodies. So a program without such a value has no run that ends so. -/
theorem run_cyclicGlobal_reaches (hp : check ds = .ok p) (fuel : Nat) (args : List String) :
    ((p.run fuel args).Always fun outcome => ∀ name pos,
      outcome = .error (.fault ⟨.cyclicGlobal name, pos⟩) →
        p.IsValue name ∧ TransGen p.Refers name name) ∧
    ((∀ name, p.IsValue name → ¬ TransGen p.Refers name name) →
      (p.run fuel args).Always fun outcome => ∀ name pos,
        outcome ≠ .error (.fault ⟨.cyclicGlobal name, pos⟩)) := by
  have hmain : p.LedTo [] mainLabel := fun _ => List.forall_mem_nil _
  have hends := ((coincideAt_ledTo hp fuel (List.forall_mem_nil _)).run hasCause_of_not_isCyclic
    .nil hmain rfl args).2
  have hcause : (p.run fuel args).Always fun outcome => ∀ name pos,
      outcome = .error (.fault ⟨.cyclicGlobal name, pos⟩) →
        p.IsValue name ∧ TransGen p.Refers name name := by
    refine hends.imp fun outcome hmeets name pos houtcome => ?_
    rw [houtcome] at hmeets
    exact hmeets name pos rfl
  refine ⟨hcause, fun hacyclic => hcause.imp fun outcome h name pos houtcome => ?_⟩
  obtain ⟨hvalue, hcycle⟩ := h name pos houtcome
  exact hacyclic name hvalue hcycle

/-- `base` calls a function that it takes from a list, and that function needs `base`. -/
def knotted : String :=
  "handlers: [Int(n: Int)] = [shift]\n" ++
    "shift(n: Int): Int = n + base\n" ++
    "apply(fs: [Int(n: Int)], n: Int): Int = if (f ~ rest) <- fs then f(n) else 0\n" ++
    "base: Int = apply(handlers, 1)\n" ++
    "main(args: [[Int]]): Int = base\n"

/-- The one value needs a function that needs itself. -/
def unknotted : String :=
  "double(n: Int): Int = if n == 0 then 0 else 2 + double(n - 1)\n" ++
    "six: Int = double(3)\n" ++
    "main(args: [[Int]]): Int = six\n"

/-- `six` is the only value, and every body but that of `main` refers to `double` at most. -/
def onlyDoubles (p : Program) : Bool :=
  p.decls.all fun d =>
    (d.params?.isSome || d.label == "six") &&
      (d.label == "main" ||
        d.body.idents.all fun x => x == "double" || (p.globals.lookup x).isNone)

theorem acyclic_of_onlyDoubles (h : p.onlyDoubles = true) (hvalue : p.IsValue name) :
    ¬ TransGen p.Refers name name := by
  simp only [onlyDoubles, List.all_eq_true, Bool.and_eq_true, Bool.or_eq_true, beq_iff_eq] at h
  obtain ⟨d, hd, rfl, hparams⟩ := hvalue
  have hsix : d.label = "six" := by
    rcases (h d hd).1 with hfunction | hsix
    · rw [hparams] at hfunction
      cases hfunction
    · exact hsix
  have hstep {g x : String} (hg : g ≠ "main") (hrefers : p.Refers g x) : x = "double" := by
    obtain ⟨⟨d, hd, rfl, hx⟩, hglobal⟩ := hrefers
    rcases (h d hd).2 with hmain | hidents
    · exact (hg hmain).elim
    · rcases hidents x hx with hdouble | hnone
      · exact hdouble
      · rw [Option.isNone_iff_eq_none.1 hnone] at hglobal
        cases hglobal
  have hreach {x : String} (hx : TransGen p.Refers "six" x) : x = "double" := by
    induction hx with
    | single hrefers => exact hstep (by decide) hrefers
    | tail _ hrefers ih =>
      rw [ih] at hrefers
      exact hstep (by decide) hrefers
  rw [hsix]
  exact fun hcycle => absurd (hreach hcycle) (by decide)

theorem run_cyclicGlobal_reaches_knotted :
    (∃ ds p pos, Decl.ofSource knotted = .ok ds ∧ check ds = .ok p ∧
      p.run 20 [] = .done (.error (.fault ⟨.cyclicGlobal "base", pos⟩)) ∧
      p.IsValue "base" ∧ TransGen p.Refers "base" "base") ∧
    ∃ ds p, Decl.ofSource unknotted = .ok ds ∧ check ds = .ok p ∧
      (∀ name, p.IsValue name → ¬ TransGen p.Refers name name) ∧
      ∀ fuel args, (p.run fuel args).Always fun outcome => ∀ name pos,
        outcome ≠ .error (.fault ⟨.cyclicGlobal name, pos⟩) := by
  constructor
  · have hrun : ((ofSource? knotted).bind fun p => (p.run 20 []).failure?) =
        some (.fault ⟨.cyclicGlobal "base", ⟨2, 26⟩⟩) := by
      decide +kernel
    obtain ⟨p, hp, hfailure⟩ := Option.bind_eq_some_iff.1 hrun
    obtain ⟨ds, hds, hp⟩ := ofSource?_eq_some hp
    have hrun := Dialogue.eq_done_of_failure? hfailure
    have hcause := (run_cyclicGlobal_reaches hp 20 []).1
    rw [hrun] at hcause
    exact ⟨ds, p, _, hds, hp, hrun, hcause "base" _ rfl⟩
  · have hchecks : (ofSource? unknotted).any onlyDoubles = true := by decide +kernel
    obtain ⟨p, hp, hdoubles⟩ := (Option.any_eq_true _ _).1 hchecks
    obtain ⟨ds, hds, hp⟩ := ofSource?_eq_some hp
    have hacyclic : ∀ name, p.IsValue name → ¬ TransGen p.Refers name name :=
      fun name hvalue => acyclic_of_onlyDoubles hdoubles hvalue
    exact ⟨ds, p, hds, hp, hacyclic,
      fun fuel args => (run_cyclicGlobal_reaches hp fuel args).2 hacyclic⟩

end ExprLang.Program
