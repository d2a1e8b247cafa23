import ExprLang.Proofs.Evaluation.Coincide
import ExprLang.Proofs.Typing.Acceptance
import ExprLang.Proofs.Typing.Binding

namespace ExprLang

namespace Expr

variable {globals others : TypeTable}

mutual

theorem WellBound.isSome_lookup {bound : List String} (e : Expr) (h : e.WellBound globals bound)
    (hothers : e.WellBound others bound) (hbound : ∀ x ∈ bound, others.lookup x = none) :
    ∀ x ∈ e.idents, (others.lookup x).isSome = true → (globals.lookup x).isSome = true := by
  cases e with
  | int | bool | str | emptyOf => exact List.forall_mem_nil _
  | ident pos name =>
    intro x hx hglobal
    obtain rfl := List.mem_singleton.1 hx
    rcases h with hlocal | h
    · rw [hbound _ hlocal] at hglobal
      cases hglobal
    · exact h
  | list pos items => exact AllWellBound.isSome_lookup items h hothers hbound
  | tuple pos items => exact AllWellBound.isSome_lookup items h hothers hbound
  | call pos callee types args =>
    exact List.forall_mem_append.2 ⟨WellBound.isSome_lookup callee h.1 hothers.1 hbound,
      AllWellBound.isSome_lookup args h.2 hothers.2 hbound⟩
  | cond pos test yes no =>
    obtain ⟨htest, hyes, hno⟩ := h
    obtain ⟨htest', hyes', hno'⟩ := hothers
    have htests := List.forall_mem_append.2 ⟨WellBound.isSome_lookup test htest htest' hbound,
      WellBound.isSome_lookup yes hyes hyes' hbound⟩
    exact List.forall_mem_append.2 ⟨htests, WellBound.isSome_lookup no hno hno' hbound⟩
  | unpack pos head tail whole yes no =>
    obtain ⟨hwhole, _, hyes, hno⟩ := h
    obtain ⟨hwhole', hnew, hyes', hno'⟩ := hothers
    obtain ⟨hhead, _, htail, _⟩ := hnew
    have hinner : ∀ x ∈ tail.text :: head.text :: bound, others.lookup x = none :=
      List.forall_mem_cons.2 ⟨htail, List.forall_mem_cons.2 ⟨hhead, hbound⟩⟩
    have hboth := List.forall_mem_append.2 ⟨WellBound.isSome_lookup whole hwhole hwhole' hbound,
      WellBound.isSome_lookup yes hyes hyes' hinner⟩
    exact List.forall_mem_append.2 ⟨hboth, WellBound.isSome_lookup no hno hno' hbound⟩
  | letName pos name value body =>
    obtain ⟨hvalue, _, hbody⟩ := h
    obtain ⟨hvalue', hnew, hbody'⟩ := hothers
    have hinner : ∀ x ∈ name.text :: bound, others.lookup x = none :=
      List.forall_mem_cons.2 ⟨hnew.1, hbound⟩
    exact List.forall_mem_append.2 ⟨WellBound.isSome_lookup value hvalue hvalue' hbound,
      WellBound.isSome_lookup body hbody hbody' hinner⟩
  | letTuple pos names value body =>
    obtain ⟨hvalue, _, hbody⟩ := h
    obtain ⟨hvalue', hnew, hbody'⟩ := hothers
    have hinner : ∀ x ∈ (names.map Name.text).reverse ++ bound, others.lookup x = none :=
      List.forall_mem_append.2 ⟨fun x hx => hnew.lookup_eq_none (List.mem_reverse.1 hx), hbound⟩
    exact List.forall_mem_append.2 ⟨WellBound.isSome_lookup value hvalue hvalue' hbound,
      WellBound.isSome_lookup body hbody hbody' hinner⟩
  | cons pos head tail =>
    exact List.forall_mem_append.2 ⟨WellBound.isSome_lookup head h.1 hothers.1 hbound,
      WellBound.isSome_lookup tail h.2 hothers.2 hbound⟩
  | binary pos op left right =>
    exact List.forall_mem_append.2 ⟨WellBound.isSome_lookup left h.1 hothers.1 hbound,
      WellBound.isSome_lookup right h.2 hothers.2 hbound⟩
  | unary pos op operand => exact WellBound.isSome_lookup operand h hothers hbound

theorem AllWellBound.isSome_lookup {bound : List String} (es : List Expr)
    (h : AllWellBound globals bound es) (hothers : AllWellBound others bound es)
    (hbound : ∀ x ∈ bound, others.lookup x = none) :
    ∀ x ∈ identsAll es, (others.lookup x).isSome = true → (globals.lookup x).isSome = true := by
  cases es with
  | nil => exact List.forall_mem_nil _
  | cons e es =>
    exact List.forall_mem_append.2 ⟨WellBound.isSome_lookup e h.1 hothers.1 hbound,
      AllWellBound.isSome_lookup es h.2 hothers.2 hbound⟩

end

end Expr

namespace Program

open Eval

/-- Two programs have the same global of a name, or none of them has one. -/
structure AgreeAt (p q : Program) (name : String) : Prop where
  lookup : p.globals.lookup name = q.globals.lookup name
  find : p.find? name = q.find? name

def SharesFunction (p q : Program) : Callable → Prop
  | .builtin _ => True
  | .global label => p.find? label = q.find? label

variable {ds es : List Decl} {p q : Program}

theorem AgreeAt.sharesFunction {name : String} (h : p.AgreeAt q name) :
    p.SharesFunction q (.ofName name) := by
  rw [Callable.ofName]
  split
  · trivial
  · exact h.find

theorem decls_subset (hp : check ds = .ok p) (hq : check es = .ok q) (hsub : ∀ d ∈ ds, d ∈ es)
    {d : CheckedDecl} (hd : d ∈ p.decls) : d ∈ q.decls := by
  obtain ⟨_, rfl⟩ := check_eq_ok_iff.1 hp
  obtain ⟨_, rfl⟩ := check_eq_ok_iff.1 hq
  obtain ⟨written, hwritten, rfl⟩ := List.mem_map.1 hd
  exact List.mem_map_of_mem (hsub written hwritten)

theorem find?_of_subset (hp : check ds = .ok p) (hq : check es = .ok q) (hsub : ∀ d ∈ ds, d ∈ es)
    {name : String} {d : CheckedDecl} (hd : p.find? name = some d) : q.find? name = some d := by
  obtain ⟨hmem, hlabel⟩ := (find?_eq_some_iff hp).1 hd
  exact (find?_eq_some_iff hq).2 ⟨decls_subset hp hq hsub hmem, hlabel⟩

theorem find?_eq_none_of_builtin (hp : check ds = .ok p) {name : String} {b : Builtin}
    (hb : Builtin.ofName? name = some b) : p.find? name = none := by
  cases hd : p.find? name with
  | none => rfl
  | some d => cases hb.symm.trans (lookup_of_find? hp hd).2

theorem find?_eq_none_of_lookup (hp : check ds = .ok p) {name : String}
    (hname : p.globals.lookup name = none) : p.find? name = none := by
  cases hd : p.find? name with
  | none => rfl
  | some d => cases hname.symm.trans (lookup_of_find? hp hd).1

theorem agreeAt_of_isSome (hp : check ds = .ok p) (hq : check es = .ok q)
    (hsub : ∀ d ∈ ds, d ∈ es) {name : String} (hname : (p.globals.lookup name).isSome = true) :
    p.AgreeAt q name := by
  obtain ⟨t, ht⟩ := Option.isSome_iff_exists.1 hname
  have htype := (check_typedBy hp).table name t ht
  rw [Callable.ofName] at htype
  cases hb : Builtin.ofName? name with
  | some b =>
    have hfind : p.find? name = q.find? name :=
      (find?_eq_none_of_builtin hp hb).trans (find?_eq_none_of_builtin hq hb).symm
    obtain ⟨hglobals, _⟩ := check_eq_ok hp
    obtain ⟨hglobals', _⟩ := check_eq_ok hq
    refine ⟨?_, hfind⟩
    rw [hglobals, hglobals', List.lookup_append, List.lookup_append, lookup_builtin_table, hb]
    rfl
  | none =>
    rw [hb] at htype
    obtain ⟨d, hd, rfl⟩ := Option.map_eq_some_iff.1 htype
    have hd' := find?_of_subset hp hq hsub hd
    exact ⟨ht.trans (lookup_of_find? hq hd').1.symm, hd.trans hd'.symm⟩

/-- A name in a body of a program means the same in every program that contains it. A name that is
bound in the body is no global there, since the checker refuses to bind one. -/
theorem agreeAt_of_mem_idents (hp : check ds = .ok p) (hq : check es = .ok q)
    (hsub : ∀ d ∈ ds, d ∈ es) {d : CheckedDecl} (hd : d ∈ p.decls) {name : String}
    (hname : name ∈ d.body.idents) : p.AgreeAt q name := by
  obtain ⟨_, hbody⟩ := check_wellBound hp hd
  obtain ⟨hparams, hbody'⟩ := check_wellBound hq (decls_subset hp hq hsub hd)
  have hbound : ∀ x ∈ d.params.reverse, q.globals.lookup x = none :=
    fun x hx => hparams.lookup_eq_none (List.mem_reverse.1 hx)
  have hglobal := hbody.isSome_lookup d.body hbody' hbound name hname
  by_cases hsome : (p.globals.lookup name).isSome = true
  · exact agreeAt_of_isSome hp hq hsub hsome
  · have hnone : p.globals.lookup name = none := Option.not_isSome_iff_eq_none.1 hsome
    have hnone' : q.globals.lookup name = none :=
      Option.not_isSome_iff_eq_none.1 fun h => hsome (hglobal h)
    exact ⟨hnone.trans hnone'.symm,
      (find?_eq_none_of_lookup hp hnone).trans (find?_eq_none_of_lookup hq hnone').symm⟩

/-- The two programs stay in step, by induction on the fuel: what is remembered, bound or answered
holds functions of both only. -/
theorem coincideAt_of_subset (hp : check ds = .ok p) (hq : check es = .ok q)
    (hsub : ∀ d ∈ ds, d ∈ es) (n : Nat) :
    p.CoincideAt q (Memo.Holds fun _ v => v.Only (p.SharesFunction q)) (fun _ => True)
      (p.AgreeAt q) (p.SharesFunction q) n := by
  have hF : ∀ e : RuntimeError, ¬ e.IsCyclic → True := fun _ _ => trivial
  have hbodies {name : String} {d : CheckedDecl} (hd : p.find? name = some d) :
      ∀ x ∈ d.body.idents, p.AgreeAt q x :=
    fun x hx => agreeAt_of_mem_idents hp hq hsub ((find?_eq_some_iff hp).1 hd).1 hx
  induction n with
  | zero => exact .zero
  | succ n ih =>
    constructor
    · exact fun env e henv he => ih.eval_succ hF henv he
    · intro name pos hname
      refine CoincideAt.global_succ hF hname.lookup hname.find (fun m v hm hv => hm name v hv)
        (fun _ _ _ => trivial) hname.sharesFunction fun m d hm _ hd _ => ?_
      apply CoincideFrom.remember (ih.eval [] d.body .nil (hbodies hd))
      · exact hm.insert fun v hv => by cases hv
      · exact fun v hv => hv
      · intro m v hm hv
        refine hm.insert fun w hw => ?_
        cases hw
        exact hv
      · exact fun m hm => hm.erase name
    · exact fun f args pos hf hargs =>
        ih.call_succ hF (fun _ h => h) (fun _ _ _ hd => hbodies hd) pos hf hargs

/-- Unrelated declarations do not influence a run: a checked program and one that declares more, in
any order, make the same requests and end alike, whatever the arguments, the answers of the host and
the fuel. -/
theorem run_eq_of_subset (hp : check ds = .ok p) (hq : check es = .ok q)
    (hsub : ∀ d ∈ ds, d ∈ es) (fuel : Nat) (args : List String) :
    p.run fuel args = q.run fuel args := by
  obtain ⟨t, hmain, _⟩ := check_main hp
  have hagree : p.AgreeAt q mainLabel :=
    agreeAt_of_isSome hp hq hsub (by rw [hmain]; rfl)
  have hpos : p.mainPos = q.mainPos := by rw [mainPos, mainPos, hagree.find]
  have hF : ∀ e : RuntimeError, ¬ e.IsCyclic → True := fun _ _ => trivial
  exact ((coincideAt_of_subset hp hq hsub fuel).run hF .nil hagree hpos args).1

/-- `main` needs neither `spin`, whose value is never found, nor `unused`, which needs it. -/
def crowded : String :=
  "spin: Int = spin\n" ++
    "half(n: Int): Int = n / two\n" ++
    "unused(k: Int): [Int] = [k, spin, half(k)]\n" ++
    "two: Int = 3 - 1\n" ++
    "twice(f: Int(n: Int), m: Int): Int = f(f(m))\n" ++
    "main(args: [[Int]]): Int = let x <- twice(half, 9) in x / (two - x)\n"

/-- What `main` of the program needs, read from its end. -/
def needed (ds : List Decl) : List Decl :=
  (ds.filter fun d => d.label != "spin" && d.label != "unused").reverse

theorem run_eq_of_subset_crowded :
    ∃ es p q, Decl.ofSource crowded = .ok es ∧ check (needed es) = .ok p ∧ check es = .ok q ∧
      p.decls.length = 4 ∧ q.decls.length = 6 ∧
      p.run 12 [] = .done (.error (.fault ⟨.divisionByZero, ⟨6, 57⟩⟩)) ∧
      ∀ fuel args, p.run fuel args = q.run fuel args := by
  have hruns : ((Decl.ofSource crowded).toOption.bind fun es =>
      (check (needed es)).toOption.bind fun p =>
        (check es).toOption.bind fun q =>
          (p.run 12 []).failure?.map fun e => (p.decls.length, q.decls.length, e)) =
      some (4, 6, .fault ⟨.divisionByZero, ⟨6, 57⟩⟩) := by
    decide +kernel
  obtain ⟨es, hes, hruns⟩ := Option.bind_eq_some_iff.1 hruns
  obtain ⟨p, hp, hruns⟩ := Option.bind_eq_some_iff.1 hruns
  obtain ⟨q, hq, hruns⟩ := Option.bind_eq_some_iff.1 hruns
  obtain ⟨e, hfailure, hsizes⟩ := Option.map_eq_some_iff.1 hruns
  obtain ⟨hfour, hsizes⟩ := Prod.mk.inj hsizes
  obtain ⟨hsix, rfl⟩ := Prod.mk.inj hsizes
  have hp := eq_ok_of_toOption hp
  have hq := eq_ok_of_toOption hq
  have hsub : ∀ d ∈ needed es, d ∈ es :=
    fun d hd => (List.mem_filter.1 (List.mem_reverse.1 hd)).1
  exact ⟨es, p, q, eq_ok_of_toOption hes, hp, hq, hfour, hsix,
    Dialogue.eq_done_of_failure? hfailure, run_eq_of_subset hp hq hsub⟩

end Program

end ExprLang
